import TrackerDemo.Mosquitto.Received
import TrackerDemo.Mosquitto.Window
import TrackerDemo.Lib.Delivery

/-!
# The client and a broker

A broker that acknowledges what it has received, and a connection that may be lost at any
time: the packets under way are lost with it, and the client resends after the next
connection what it still keeps. Packets are whole here, and arrive in order
(`channel_delivers`); a packet has the effect that its fields say (`packetHandle_frame`).

What the functions of the client do to the messages that it keeps, to the packets that
carry them and to the acknowledgements is a matter of `Client.Quiet`: all but publishing
and acknowledgements are quiet.

Results:
* `Client.Quiet.messageRetryCheck`, `Client.Quiet.reconnect`: resending is quiet.
* `Client.messageRetryCheck_packets`: a retry queues only packets with an id.
* `Client.messageRemoveOut_settles`: an acknowledgement takes away one message at most.
* `Client.Window.receive`, `Client.Ok.receive`: what every packet of the broker keeps.
* `Link.Ready.step`: what every step of the parties keeps.
-/

namespace TrackerDemo.Mosquitto

open TrackerDemo.CString TrackerDemo.Delivery

/-! ## The parties -/

/-- A message as it is published, with the id that it gets. -/
structure Content where
  mid : ℕ
  topic : Bytes
  payload : Bytes
  qos : ℕ
  retain : Bool
  deriving DecidableEq, Repr

def Message.content (m : Message) : Content := ⟨m.mid, m.topic, m.payload, m.qos, m.retain⟩

/-- A message with its id. -/
def Message.entry (m : Message) : ℕ × Content := (m.mid, m.content)

/-- The message of QoS 1 or 2 that a PUBLISH carries. -/
def Outgoing.offer : Outgoing → Option (ℕ × Content)
  | .publish mid topic payload qos retain _ =>
    if qos > 0 then some (mid, ⟨mid, topic, payload, qos, retain⟩) else none
  | _ => none

/-- The id of a PUBREL. -/
def Outgoing.releases : Outgoing → Option ℕ
  | .withMid command mid => if command = pubrel ||| 2 then some mid else none
  | _ => none

/-- The acknowledgement that a broker owes for a packet. -/
def Outgoing.answer : Outgoing → Option BrokerPacket
  | .publish mid _ _ qos _ _ =>
    if qos = 1 then some (.puback mid) else if qos = 2 then some (.pubrec mid) else none
  | .withMid command mid => if command = pubrel ||| 2 then some (.pubcomp mid) else none
  | _ => none

/-- The id that a packet acknowledges. -/
def BrokerPacket.ackMid : BrokerPacket → Option ℕ
  | .puback mid | .pubrec mid | .pubcomp mid => some mid
  | _ => none

instance : (p : BrokerPacket) → Decidable p.Fits
  | .connack .. | .pingreq | .pingresp => inferInstanceAs (Decidable True)
  | .suback .. => inferInstanceAs (Decidable (_ ∧ _))
  | .publish .. => inferInstanceAs (Decidable (_ ∧ _ ∧ _ ∧ _ ∧ _ ∧ _))
  | .unsuback _ | .puback _ | .pubrec _ | .pubrel _ | .pubcomp _ =>
    inferInstanceAs (Decidable (_ < _))

/-- The client with the messages that threads have still to send, the acknowledgements
    that the broker owes, and the packets under way to the client; those to the broker
    are `client.outPackets`. `received` and `published` are what the broker has received
    and the client has accepted so far, QoS 0 apart. -/
structure Link where
  client : Client
  pending : List Message
  owed : List BrokerPacket
  down : List BrokerPacket
  received : List Content
  published : List Content

/-- At the start of the program. -/
def Link.initial : Link := ⟨.initial, [], [], [], [], []⟩

/-- A step of one of the client's threads, of the broker or of the network: `publish` and
    `sendPublish` are the parts of `mosquitto_publish` (`mosquitto.c`, lines 561–626),
    `retryCheck` is `_mosquitto_message_retry_check` (`messages_mosq.c`, lines 354–363),
    `read` a packet that `_mosquitto_packet_read` hands on (`net_mosq.c`, lines 985–1149),
    and `reconnect` is `_mosquitto_reconnect` (`mosquitto.c`, lines 472–547). -/
inductive LinkEvent
  | publish (topic payload : Bytes) (qos : ℤ) (retain : Bool) (now : ℕ)
  | sendPublish (i : ℕ)
  | subscribe (sub : Bytes) (qos : ℕ)
  | retryCheck (now : ℕ)
  | brokerReads
  | brokerAnswers (i : ℕ)
  | brokerSends (p : BrokerPacket)
  | read (now : ℕ)
  | lose
  | reconnect (sock : Bool)

/-- A step, which the state has to allow. The broker acknowledges only what it has
    received, in any order, and sends anything else at any time. -/
def linkStep (s : Link) : LinkEvent → Option Link
  | .publish topic payload qos retain now =>
    match Client.publishCheck topic payload qos with
    | some _ => some s
    | none =>
      let (message, c) := s.client.publishStart topic payload qos.toNat retain now
      some { s with
        client := c
        pending := s.pending ++ message.toList
        published := s.published ++
          if qos > 0 then [⟨s.client.midGenerate.1, topic, payload, qos.toNat, retain⟩] else [] }
  | .sendPublish i =>
    (s.pending[i]?).map fun m =>
      { s with client := (s.client.sendPublish m).2, pending := s.pending.eraseIdx i }
  | .subscribe sub qos => some { s with client := (s.client.subscribeTo sub qos).2 }
  | .retryCheck now => some { s with client := s.client.messageRetryCheck now }
  | .brokerReads =>
    match s.client.outPackets with
    | [] => none
    | o :: ps =>
      some { s with
        client := { s.client with outPackets := ps }
        received := s.received ++ (o.offer.map Prod.snd).toList
        owed := s.owed ++ o.answer.toList }
  | .brokerAnswers i =>
    (s.owed[i]?).map fun p => { s with owed := s.owed.eraseIdx i, down := s.down ++ [p] }
  | .brokerSends p =>
    if p.ackMid = none ∧ p.Fits then some { s with down := s.down ++ [p] } else none
  | .read now =>
    match s.down with
    | [] => none
    | p :: ps =>
      if s.client.sock then
        let (rc, c) := p.receive now s.client
        some { s with client := if rc = none then c else { c with sock := false }, down := ps }
      else none
  | .lose => some { s with client := { s.client with sock := false } }
  | .reconnect sock =>
    (s.client.reconnect sock).map fun c => { s with client := c, owed := [], down := [] }

/-- The steps as a relation. -/
def LinkStep (s : Link) (e : LinkEvent) (s' : Link) : Prop := linkStep s e = some s'

/-! ## The transfer behind it -/

namespace Client

def kept (c : Client) : List (ℕ × Content) := c.outMessages.map Message.entry

/-- The messages that are in flight. -/
def started (c : Client) : Set (ℕ × Content) :=
  {x | ∃ m ∈ c.outMessages, ¬ m.Waits ∧ m.entry = x}

/-- The messages in the packets that are under way. -/
def offers (c : Client) : Set (ℕ × Content) := {x | ∃ o ∈ c.outPackets, o.offer = some x}

/-- The ids that have been acknowledged by a PUBREC, as far as the client knows. -/
def claims (c : Client) : Set ℕ :=
  {mid | (∃ o ∈ c.outPackets, o.releases = some mid) ∨
    ∃ m ∈ c.outMessages, m.mid = mid ∧ m.state = .waitForPubcomp}

end Client

/-- The messages that are to be sent. -/
def pendingOffers (ms : List Message) : Set (ℕ × Content) := {x | ∃ m ∈ ms, m.qos > 0 ∧ m.entry = x}

/-- The ids that some packets of the broker acknowledge. -/
def acks (ps : List BrokerPacket) : Set ℕ := {mid | ∃ p ∈ ps, p.ackMid = some mid}

/-- The ids of the messages that wait. -/
def Client.waiting (c : Client) : Set ℕ := {mid | ∃ m ∈ c.outMessages, m.mid = mid ∧ m.Waits}

/-- The transfer that the system carries out. -/
def Link.transfer (s : Link) : Transfer ℕ Content where
  kept := s.client.kept
  offers := s.client.offers ∪ pendingOffers s.pending
  claims := s.client.claims ∪ acks (s.owed ++ s.down)
  held := s.client.waiting
  received := s.received
  published := s.published

/-- The ids that messages get in a step. -/
def freshIds (s : Link) : LinkEvent → Set ℕ
  | .publish topic payload qos _ _ =>
    if Client.publishCheck topic payload qos = none then {s.client.midGenerate.1} else ∅
  | _ => ∅

/-- The id that a message gets is not in use any more. -/
def IdFree (s : Link) (e : LinkEvent) : Prop := ∀ i ∈ freshIds s e, s.transfer.Free i

/-! ## What the client's functions do -/

/-- How many acknowledgements a message has still to get. -/
def Message.weight (m : Message) : ℕ := if m.qos = 2 ∧ m.state ≠ .waitForPubcomp then 2 else 1

theorem Message.weight_le_of {m : Message} {dup : Bool} {state : MsgState} {timestamp : ℕ}
    (h : m.qos = 2 → m.state = .waitForPubcomp → state = .waitForPubcomp) :
    { m with dup := dup, state := state, timestamp := timestamp }.weight ≤ m.weight := by
  unfold Message.weight
  dsimp only
  split_ifs with h1 h2 h2
  · exact le_rfl
  · exact absurd (h h1.1 (by simpa [h1.1] using h2)) h1.2
  · omega
  · exact le_rfl

/-- The same message, which is in flight if it was, and for which no acknowledgement is
    noted that was not before. -/
structure SameMessage (m m' : Message) : Prop where
  entry : m'.entry = m.entry
  started : ¬ m.Waits → ¬ m'.Waits
  waitForPubcomp : m'.state = .waitForPubcomp → m.state = .waitForPubcomp
  weight_le : m'.weight ≤ m.weight

theorem SameMessage.refl (m : Message) : SameMessage m m := ⟨rfl, id, id, le_rfl⟩

/-- From `c0` to `c` nothing happens to the messages that are kept, but that they may be
    sent, and no id is newly acknowledged. -/
structure Client.Quiet (c0 c : Client) : Prop where
  same : List.Forall₂ SameMessage c0.outMessages c.outMessages
  offers : ∀ x ∈ c.offers, x ∈ c0.offers ∨ x ∈ c.started
  claims : c.claims ⊆ c0.claims

section Functions

variable {c0 c c' : Client}

theorem entries_eq {ms ms' : List Message} (h : List.Forall₂ SameMessage ms ms') :
    ms'.map Message.entry = ms.map Message.entry := by
  induction h with
  | nil => rfl
  | cons hm _ ih => rw [List.map_cons, List.map_cons, hm.entry, ih]

/-- What a message of the one list has become in the other one. -/
theorem exists_same {ms ms' : List Message} (h : List.Forall₂ SameMessage ms ms') {m : Message}
    (hm : m ∈ ms) : ∃ m' ∈ ms', SameMessage m m' := by
  obtain ⟨i, hi, rfl⟩ := List.mem_iff_getElem.1 hm
  obtain ⟨hlen, hget⟩ := List.forall₂_iff_get.1 h
  exact ⟨_, List.getElem_mem (hlen ▸ hi), hget i hi (hlen ▸ hi)⟩

theorem exists_same' {ms ms' : List Message} (h : List.Forall₂ SameMessage ms ms') {m' : Message}
    (hm : m' ∈ ms') : ∃ m ∈ ms, SameMessage m m' := by
  obtain ⟨i, hi, rfl⟩ := List.mem_iff_getElem.1 hm
  obtain ⟨hlen, hget⟩ := List.forall₂_iff_get.1 h
  exact ⟨_, List.getElem_mem (hlen ▸ hi), hget i (hlen ▸ hi) hi⟩

theorem Client.Quiet.kept (h : c0.Quiet c) : c.kept = c0.kept := entries_eq h.same

theorem Client.Quiet.started (h : c0.Quiet c) : c0.started ⊆ c.started := by
  rintro x ⟨m, hm, hstate, rfl⟩
  obtain ⟨m', hm', hsame⟩ := exists_same h.same hm
  exact ⟨m', hm', hsame.started hstate, hsame.entry⟩

theorem Client.Quiet.refl (c : Client) : c.Quiet c :=
  ⟨List.forall₂_same.2 fun m _ => .refl m, fun _ hx => .inl hx, subset_rfl⟩

theorem Client.Quiet.trans (h : c0.Quiet c) (h' : c.Quiet c') : c0.Quiet c' := by
  refine ⟨?_, fun x hx => ?_, h'.claims.trans h.claims⟩
  · refine List.forall₂_iff_get.2 ⟨h.same.length_eq.trans h'.same.length_eq, fun i hi hi' => ?_⟩
    have hi1 : i < c.outMessages.length := h.same.length_eq ▸ hi
    have hsame := h.same.get hi hi1
    have hsame' := h'.same.get hi1 hi'
    exact ⟨hsame'.entry.trans hsame.entry, hsame'.started ∘ hsame.started,
      hsame.waitForPubcomp ∘ hsame'.waitForPubcomp, hsame'.weight_le.trans hsame.weight_le⟩
  · rcases h'.offers x hx with hx | hx
    · rcases h.offers x hx with hx | hx
      · exact .inl hx
      · exact .inr (h'.started hx)
    · exact .inr hx

/-- The messages, the packets and their order are all that counts. -/
theorem Client.Quiet.of_eq (h : c0.Quiet c) (hout : c'.outMessages = c.outMessages)
    (hpackets : c'.outPackets = c.outPackets) : c0.Quiet c' := by
  refine ⟨?_, ?_, ?_⟩
  · rw [hout]
    exact h.same
  · intro x hx
    rw [Client.started, hout]
    apply h.offers
    rw [Client.offers, hpackets] at hx
    exact hx
  · apply subset_trans _ h.claims
    rw [Client.claims, Client.claims, hout, hpackets]

/-- Packets that carry messages that are in flight, or ids that are acknowledged. -/
theorem Client.Quiet.withPackets (h : c0.Quiet c) {ps : List Outgoing}
    (ho : ∀ o ∈ ps, ∀ x, o.offer = some x → x ∈ c.started)
    (hr : ∀ o ∈ ps, ∀ mid, o.releases = some mid → mid ∈ c0.claims) :
    c0.Quiet { c with outPackets := c.outPackets ++ ps } := by
  refine ⟨h.same, ?_, ?_⟩
  · rintro x ⟨o, hmem, hx⟩
    rcases List.mem_append.1 hmem with hmem | hmem
    · exact h.offers x ⟨o, hmem, hx⟩
    · exact .inr (ho o hmem x hx)
  · rintro mid (⟨o, hmem, hmid⟩ | hm)
    · rcases List.mem_append.1 hmem with hmem | hmem
      · exact h.claims (.inl ⟨o, hmem, hmid⟩)
      · exact hr o hmem mid hmid
    · exact h.claims (.inr hm)

theorem Client.Quiet.send (h : c0.Quiet c) {o : Outgoing}
    (ho : ∀ x, o.offer = some x → x ∈ c.started)
    (hr : ∀ mid, o.releases = some mid → mid ∈ c0.claims) : c0.Quiet (c.send o).2 := by
  unfold Client.send
  split_ifs
  · exact h
  · apply h.withPackets
    · intro o' ho'
      rw [List.mem_singleton.1 ho']
      exact ho
    · intro o' ho'
      rw [List.mem_singleton.1 ho']
      exact hr

theorem offer_publish {m : Message} {x : ℕ × Content}
    (h : (Outgoing.publish m.mid m.topic m.payload m.qos m.retain m.dup).offer = some x) :
    m.qos > 0 ∧ m.entry = x := by
  rw [Outgoing.offer, Option.ite_none_right_eq_some] at h
  exact ⟨h.1, Option.some.inj h.2⟩

theorem Client.Quiet.sendPublish (h : c0.Quiet c) {m : Message}
    (hm : m.qos > 0 → m.entry ∈ c.started) : c0.Quiet (c.sendPublish m).2 := by
  unfold Client.sendPublish
  split_ifs
  · apply h.send
    · intro x hx
      obtain ⟨hqos, rfl⟩ := offer_publish hx
      exact hm hqos
    · exact fun mid hmid => absurd hmid (by simp [Outgoing.releases])
  · exact h

/-- A packet with an id, which is no PUBREL. -/
theorem Client.Quiet.sendWithMid (h : c0.Quiet c) {command : Byte} (hne : command ≠ pubrel ||| 2)
    (mid : ℕ) : c0.Quiet (c.send (.withMid command mid)).2 := by
  apply h.send
  · exact fun x hx => absurd hx (by simp [Outgoing.offer])
  · exact fun mid hmid => absurd hmid (by simp [Outgoing.releases, hne])

/-! ### Resending -/

/-- What a message may cause to be sent is in flight, or acknowledged. -/
def Message.Resendable (c0 : Client) (m : Message) : Prop :=
  (m.state = .waitForPuback ∨ m.state = .waitForPubrec → m.entry ∈ c0.started) ∧
    (m.state = .waitForPubcomp → m.mid ∈ c0.claims)

theorem resendable_of_mem {m : Message} (h : m ∈ c.outMessages) : m.Resendable c := by
  refine ⟨fun hstate => ⟨m, h, ?_, rfl⟩, fun hstate => .inr ⟨m, h, rfl, hstate⟩⟩
  unfold Message.Waits
  rcases hstate with hstate | hstate <;> simp [hstate]

theorem Client.Quiet.retryMessage (h : c0.Quiet c) (now : ℕ) {m : Message}
    (hm : m.Resendable c0) : c0.Quiet (c.retryMessage now m).2 := by
  unfold Client.retryMessage
  split_ifs
  · have hpublish : m.state = .waitForPuback ∨ m.state = .waitForPubrec →
        c0.Quiet (c.sendPublish { m with timestamp := now, dup := true }).2 :=
      fun hstate => h.sendPublish fun _ => h.started (hm.1 hstate)
    dsimp only
    split
    next hstate => exact hpublish (.inl hstate)
    next hstate => exact hpublish (.inr hstate)
    next => exact h.sendWithMid (by decide) m.mid
    next hstate =>
      apply h.send
      · exact fun x hx => absurd hx (by simp [Outgoing.offer])
      · intro mid hmid
        have heq : some m.mid = some mid := hmid
        rw [← Option.some.inj heq]
        exact hm.2 hstate
    next => exact h
  · exact h

theorem Client.Quiet.retryLoop (h : c0.Quiet c) (now : ℕ) {ms : List Message}
    (hms : ∀ m ∈ ms, m.Resendable c0) : c0.Quiet (c.retryLoop now ms).2 := by
  induction ms generalizing c with
  | nil => exact h
  | cons m ms ih =>
    rw [List.forall_mem_cons] at hms
    exact ih (h.retryMessage now hms.1) hms.2

/-- The messages are the same ones. -/
theorem Client.Quiet.withMessages (h : c0.Quiet c) {ms : List Message}
    (hms : List.Forall₂ SameMessage c.outMessages ms) : c0.Quiet { c with outMessages := ms } := by
  refine h.trans ⟨hms, fun x hx => .inl hx, ?_⟩
  rintro mid (hmid | ⟨m', hm', rfl, hstate⟩)
  · exact .inl hmid
  · obtain ⟨m, hm, hsame⟩ := exists_same' hms hm'
    exact .inr ⟨m, hm, (congrArg Prod.fst hsame.entry).symm, hsame.waitForPubcomp hstate⟩

theorem Client.Quiet.messageRetryCheck (hc : c.Ok) (now : ℕ) :
    c.Quiet (c.messageRetryCheck now) := by
  obtain ⟨⟨ps, he⟩, hout⟩ := c.retryLoop_spec now c.outMessages
  have hsame : List.Forall₂ SameMessage c.outMessages (c.retryLoop now c.outMessages).1 :=
    hout.imp fun m m' ⟨_, _, hm⟩ => hm ▸ ⟨rfl, id, id, le_rfl⟩
  have hfirst : c.Quiet (c.retryLoop now c.outMessages).2 :=
    (Client.Quiet.refl c).retryLoop now fun m hm => resendable_of_mem hm
  have hsecond : c.Quiet { (c.retryLoop now c.outMessages).2 with
      outMessages := (c.retryLoop now c.outMessages).1 } := by
    apply hfirst.withMessages
    rw [he]
    exact hsame
  have hin : ∀ m ∈ c.inMessages, m.Resendable c := by
    intro m hm
    obtain ⟨-, -, hstate⟩ := hc.inMessages m hm
    exact ⟨fun h => absurd h (by simp [hstate]), fun h => absurd h (by simp [hstate])⟩
  have hkeeps : (c.retryLoop now c.outMessages).2.inMessages = c.inMessages := by rw [he]
  have hloop := hsecond.retryLoop now hin
  rw [← hkeeps] at hloop
  exact hloop.of_eq rfl rfl

/-! ### Connecting again -/

theorem Client.Quiet.reconnect (h : c.Window) (hc : c.Ok) (hqos : ∀ m ∈ c.outMessages, m.qos > 0)
    {sock : Bool} (hr : c.reconnect sock = some c') : c.Quiet c' := by
  obtain ⟨inQueueLen, inMessages, outQueueLen, rfl⟩ := h.reconnect_eq hc hqos hr
  have hreset : List.Forall₂ SameMessage c.outMessages (c.outMessages.map Message.reset) := by
    rw [List.forall₂_map_right_iff]
    refine List.forall₂_same.2 fun m _ => ⟨rfl, mt m.reset_waits.1, fun hstate => ?_, ?_⟩
    · unfold Message.reset at hstate
      dsimp only at hstate
      split_ifs at hstate
      exact hstate
    · -- only messages of QoS 1 change their state
      apply Message.weight_le_of
      intro hqos hstate
      rw [if_neg (by omega)]
      exact hstate
  have hnone : c.Quiet { c with outPackets := [] } := by
    refine ⟨List.forall₂_same.2 fun m _ => .refl m, ?_, ?_⟩
    · rintro x ⟨o, ho, -⟩
      exact absurd ho (by simp)
    · rintro mid (⟨o, ho, -⟩ | hmid)
      · exact absurd ho (by simp)
      · exact .inr hmid
  exact (hnone.withMessages hreset).of_eq rfl rfl

/-! ### What is queued -/

theorem Client.sendPublish_packets (m : Message) (c : Client) :
    ∃ ps, (c.sendPublish m).2 = { c with outPackets := c.outPackets ++ ps } ∧
      ∀ o ∈ ps, o = .publish m.mid m.topic m.payload m.qos m.retain m.dup := by
  unfold Client.sendPublish Client.send
  split_ifs
  · exact ⟨[], by simp, by simp⟩
  · exact ⟨_, rfl, fun o ho => List.mem_singleton.1 ho⟩
  · exact ⟨[], by simp, by simp⟩

/-- What a retry queues is none of the packets without an id. -/
theorem Client.retryMessage_packets (now : ℕ) (m : Message) (c : Client) :
    ∃ ps, (c.retryMessage now m).2.outPackets = c.outPackets ++ ps ∧
      ∀ o ∈ ps, ∀ command, o ≠ .simple command := by
  have hpublish : ∀ m', ∃ ps, (c.sendPublish m').2.outPackets = c.outPackets ++ ps ∧
      ∀ o ∈ ps, ∀ command, o ≠ .simple command := by
    intro m'
    obtain ⟨ps, he, hps⟩ := Client.sendPublish_packets m' c
    refine ⟨ps, by rw [he], fun o ho command => ?_⟩
    rw [hps o ho]
    simp
  have hmid : ∀ command mid, ∃ ps, (c.send (.withMid command mid)).2.outPackets =
      c.outPackets ++ ps ∧ ∀ o ∈ ps, ∀ command, o ≠ .simple command := by
    intro command mid
    rw [Client.send_withMid]
    exact ⟨_, rfl, by simp⟩
  unfold Client.retryMessage
  split_ifs
  · dsimp only
    split
    · exact hpublish _
    · exact hpublish _
    · exact hmid _ _
    · exact hmid _ _
    · exact ⟨[], by simp⟩
  · exact ⟨[], by simp⟩

theorem Client.retryLoop_packets (now : ℕ) (ms : List Message) (c : Client) :
    ∃ ps, (c.retryLoop now ms).2.outPackets = c.outPackets ++ ps ∧
      ∀ o ∈ ps, ∀ command, o ≠ .simple command := by
  induction ms generalizing c with
  | nil => exact ⟨[], by simp [Client.retryLoop]⟩
  | cons m ms ih =>
    obtain ⟨ps, he, hps⟩ := c.retryMessage_packets now m
    obtain ⟨ps', he', hps'⟩ := ih (c.retryMessage now m).2
    refine ⟨ps ++ ps', ?_, fun o ho => ?_⟩
    · show (Client.retryLoop now ms (c.retryMessage now m).2).2.outPackets = _
      rw [he', he, List.append_assoc]
    · rcases List.mem_append.1 ho with ho | ho
      · exact hps o ho
      · exact hps' o ho

theorem Client.messageRetryCheck_packets (now : ℕ) (c : Client) :
    ∃ ps, (c.messageRetryCheck now).outPackets = c.outPackets ++ ps ∧
      ∀ o ∈ ps, ∀ command, o ≠ .simple command := by
  obtain ⟨ps, he, hps⟩ := c.retryLoop_packets now c.outMessages
  obtain ⟨ps', he', hps'⟩ := Client.retryLoop_packets now
    (c.retryLoop now c.outMessages).2.inMessages
    { (c.retryLoop now c.outMessages).2 with outMessages := (c.retryLoop now c.outMessages).1 }
  refine ⟨ps ++ ps', ?_, fun o ho => ?_⟩
  · unfold Client.messageRetryCheck
    dsimp only at he' ⊢
    rw [he', he, List.append_assoc]
  · rcases List.mem_append.1 ho with ho | ho
    · exact hps o ho
    · exact hps' o ho

/-! ### Acknowledgements -/

/-- What is started is sent, and stays where it is. -/
theorem Client.startWaiting_same {ms : List Message} (hqos : ∀ m ∈ ms, m.qos = 1 ∨ m.qos = 2)
    (c : Client) :
    List.Forall₂ SameMessage ms (c.startWaiting ms).2.1 ∧
      ∃ inflight ps, (c.startWaiting ms).2.2 =
          { c with inflightMessages := inflight, outPackets := c.outPackets ++ ps } ∧
        ∀ o ∈ ps, o.releases = none ∧ ∀ x, o.offer = some x →
          ∃ m ∈ (c.startWaiting ms).2.1, ¬ m.Waits ∧ m.entry = x := by
  induction ms generalizing c with
  | nil => exact ⟨.nil, c.inflightMessages, [], by simp [Client.startWaiting], by simp⟩
  | cons cur rest ih =>
    rw [List.forall_mem_cons] at hqos
    have hstop : List.Forall₂ SameMessage (cur :: rest) (cur :: rest) :=
      List.forall₂_same.2 fun m _ => .refl m
    rw [Client.startWaiting]
    by_cases hroom : c.HasRoom
    · rw [if_pos hroom]
      by_cases hwaits : cur.qos > 0 ∧ cur.state = .invalid
      · rw [if_pos hwaits]
        have hcur : SameMessage cur cur.start := by
          refine ⟨rfl, fun _ => Message.start_not_waits hqos.1, fun hstate => ?_, ?_⟩
          · rcases cur.start_state hqos.1 with h | h <;> simp [h] at hstate
          · apply Message.weight_le_of
            intro _ hstate
            exact absurd (hwaits.2.symm.trans hstate) (by simp)
        have hstart : { cur with state := startState cur.qos cur.state } = cur.start := rfl
        obtain ⟨ps, hps, hsent⟩ := Client.sendPublish_packets cur.start
          { c with inflightMessages := c.inflightMessages + 1 }
        have hhead : ∀ (rest' : List Message), ∀ o ∈ ps, o.releases = none ∧
            ∀ x, o.offer = some x → ∃ m ∈ cur.start :: rest', ¬ m.Waits ∧ m.entry = x := by
          intro rest' o ho
          obtain rfl := hsent o ho
          refine ⟨rfl, fun x hx => ?_⟩
          obtain ⟨-, rfl⟩ := offer_publish hx
          exact ⟨_, List.mem_cons_self, Message.start_not_waits hqos.1, rfl⟩
        dsimp only
        rw [hstart]
        generalize Client.sendPublish cur.start
          { c with inflightMessages := c.inflightMessages + 1 } = out at hps ⊢
        obtain ⟨rc, c1⟩ := out
        obtain rfl := hps
        cases rc with
        | some rc => exact ⟨.cons hcur (List.forall₂_cons.1 hstop).2, _, ps, rfl, hhead rest⟩
        | none =>
          obtain ⟨hsame, inflight, ps', hps', hsent'⟩ := ih hqos.2
            { c with
              inflightMessages := c.inflightMessages + 1
              outPackets := c.outPackets ++ ps }
          refine ⟨.cons hcur hsame, inflight, ps ++ ps', ?_, fun o ho => ?_⟩
          · dsimp only
            rw [hps', List.append_assoc]
          · rcases List.mem_append.1 ho with ho | ho
            · exact hhead _ o ho
            · obtain ⟨hreleases, hoffer⟩ := hsent' o ho
              refine ⟨hreleases, fun x hx => ?_⟩
              obtain ⟨m, hm, h⟩ := hoffer x hx
              exact ⟨m, List.mem_cons_of_mem _ hm, h⟩
      · rw [if_neg hwaits]
        obtain ⟨hsame, inflight, ps, hps, hsent⟩ := ih hqos.2 c
        refine ⟨.cons (.refl cur) hsame, inflight, ps, hps, fun o ho => ?_⟩
        obtain ⟨hreleases, hoffer⟩ := hsent o ho
        refine ⟨hreleases, fun x hx => ?_⟩
        obtain ⟨m, hm, h⟩ := hoffer x hx
        exact ⟨m, List.mem_cons_of_mem _ hm, h⟩
    · rw [if_neg hroom]
      exact ⟨hstop, c.inflightMessages, [], by simp, by simp⟩

/-- A message that is kept is removed, and nothing but sending happens to the others. -/
def Client.Settles (mid : ℕ) (c c' : Client) : Prop :=
  ∃ pre m post, c.outMessages = pre ++ m :: post ∧ m.mid = mid ∧
    Client.Quiet { c with outMessages := pre ++ post } c'

theorem takeMid_eq_none {mid : ℕ} {ms : List Message} (h : takeMid mid ms = none) :
    ∀ m ∈ ms, m.mid ≠ mid := by
  induction ms with
  | nil => simp
  | cons m ms ih =>
    rw [takeMid] at h
    split_ifs at h with hmid
    rw [Option.map_eq_none_iff] at h
    exact List.forall_mem_cons.2 ⟨hmid, ih h⟩

theorem Client.messageRemoveOut_settles (mid : ℕ)
    (hqos : ∀ m ∈ c.outMessages, m.qos = 1 ∨ m.qos = 2) :
    (c.messageRemoveOut mid).2 = c ∧ (∀ m ∈ c.outMessages, m.mid ≠ mid) ∨
      c.Settles mid (c.messageRemoveOut mid).2 := by
  unfold Client.messageRemoveOut
  cases htake : takeMid mid c.outMessages with
  | none => exact .inl ⟨rfl, takeMid_eq_none htake⟩
  | some r =>
    obtain ⟨cur, rest⟩ := r
    obtain ⟨pre, post, hms, rfl, hmid, -⟩ := takeMid_eq_some htake
    refine .inr ⟨pre, cur, post, hms, hmid, ?_⟩
    dsimp only
    have hrest : ∀ m ∈ pre ++ post, m.qos = 1 ∨ m.qos = 2 := by
      intro m hm
      apply hqos
      rw [hms]
      rcases List.mem_append.1 hm with hm | hm
      · exact List.mem_append_left _ hm
      · exact List.mem_append_right _ (List.mem_cons_of_mem _ hm)
    obtain ⟨hsame, inflight, ps, hps, hsent⟩ := Client.startWaiting_same hrest
      { c with
        outQueueLen := c.outQueueLen - 1
        inflightMessages := if cur.qos > 0 then c.inflightMessages - 1 else c.inflightMessages }
    rw [hps]
    have hquiet := (Client.Quiet.refl { c with outMessages := pre ++ post }).withMessages hsame
    have hpackets := hquiet.withPackets (fun o ho => (hsent o ho).2) fun o ho mid hmid =>
      absurd hmid (by simp [(hsent o ho).1])
    exact hpackets.of_eq rfl rfl

/-- From `c` to `c'` the id is acknowledged by a PUBREC. -/
structure Client.Notes (mid : ℕ) (c c' : Client) : Prop where
  kept : c'.kept = c.kept
  offers : c'.offers ⊆ c.offers
  claims : ∀ i ∈ c'.claims, i ∈ c.claims ∨ i = mid
  waiting : c'.waiting ⊆ c.waiting

theorem Client.messageOutUpdate_notes (mid now : ℕ) (c : Client) :
    c.Notes mid (c.messageOutUpdate mid .waitForPubcomp now).2 := by
  rcases c.messageOutUpdate_cases mid .waitForPubcomp now with he | ⟨pre, m, post, hms, hmid, he⟩
  · rw [he]
    exact ⟨rfl, subset_rfl, fun i hi => .inl hi, subset_rfl⟩
  · rw [he]
    -- a message is one of the old ones, or the one whose state has changed
    have hmem : ∀ m' ∈ pre ++ { m with state := .waitForPubcomp, timestamp := now } :: post,
        m' ∈ c.outMessages ∨ m' = { m with state := .waitForPubcomp, timestamp := now } := by
      intro m' hm'
      rw [hms, List.mem_append, List.mem_cons]
      rw [List.mem_append, List.mem_cons] at hm'
      rcases hm' with hm' | hm' | hm'
      · exact .inl (.inl hm')
      · exact .inr hm'
      · exact .inl (.inr (.inr hm'))
    refine ⟨?_, subset_rfl, ?_, ?_⟩
    · rw [Client.kept, Client.kept, hms, List.map_append, List.map_append]
      rfl
    · rintro i (hi | ⟨m', hm', rfl, hstate⟩)
      · exact .inl (.inl hi)
      · rcases hmem m' hm' with hm' | rfl
        · exact .inl (.inr ⟨m', hm', rfl, hstate⟩)
        · exact .inr hmid
    · rintro i ⟨m', hm', rfl, hwaits⟩
      rcases hmem m' hm' with hm' | rfl
      · exact ⟨m', hm', rfl, hwaits⟩
      · exact absurd hwaits (by simp [Message.Waits])

/-- A PUBREC has the PUBREL as its answer, whose id it acknowledges. -/
theorem Client.pubrec_spec (mid now : ℕ) (c : Client) :
    c.Notes mid (((c.messageOutUpdate mid .waitForPubcomp now).2).sendPubrel mid).2 := by
  obtain ⟨hkept, hoffers, hclaims, hwaiting⟩ := c.messageOutUpdate_notes mid now
  rw [Client.sendPubrel, Client.send_withMid]
  refine ⟨hkept, ?_, ?_, hwaiting⟩
  · rintro x ⟨o, ho, hx⟩
    rcases List.mem_append.1 ho with ho | ho
    · exact hoffers ⟨o, ho, hx⟩
    · rw [List.mem_singleton.1 ho] at hx
      exact absurd hx (by simp [Outgoing.offer])
  · rintro i (⟨o, ho, hi⟩ | hi)
    · rcases List.mem_append.1 ho with ho | ho
      · exact hclaims i (.inl ⟨o, ho, hi⟩)
      · rw [List.mem_singleton.1 ho] at hi
        exact .inr (Option.some.inj hi).symm
    · exact hclaims i (.inr hi)

theorem Client.Quiet.receiveMessage (m : Message) (c : Client) :
    c.Quiet (receiveMessage m c).2 := by
  have hrefl := Client.Quiet.refl c
  unfold TrackerDemo.Mosquitto.receiveMessage
  split_ifs
  · exact hrefl.of_eq rfl rfl
  · exact (hrefl.sendWithMid (by decide) m.mid).of_eq rfl rfl
  · exact (hrefl.sendWithMid (by decide) m.mid).of_eq rfl rfl
  · exact hrefl

/-- A PUBACK removes a message, and may call `on_publish`. -/
theorem receive_puback (now mid : ℕ) (c : Client) :
    (BrokerPacket.receive now (.puback mid) c).2 =
        (c.messageRemoveOut mid).2.call (.onPublish mid) ∨
      (BrokerPacket.receive now (.puback mid) c).2 = (c.messageRemoveOut mid).2 := by
  unfold BrokerPacket.receive
  dsimp only
  split
  next he => exact .inl (by rw [he])
  next he => exact .inr (by rw [he])

/-- Any other packet acknowledges nothing. -/
theorem Client.Quiet.receive {p : BrokerPacket} (hp : p.ackMid = none) (now : ℕ) (c : Client) :
    c.Quiet (p.receive now c).2 := by
  have hrefl := Client.Quiet.refl c
  have hcall : ∀ f, c.Quiet (c.call f) := fun f => hrefl.of_eq rfl rfl
  cases p with
  | connack ack result =>
    unfold BrokerPacket.receive
    dsimp only
    split_ifs
    · exact hrefl.of_eq rfl rfl
    · exact hcall _
    · exact hcall _
    · exact hcall _
  | suback mid granted => exact hcall _
  | unsuback mid => exact hcall _
  | publish mid topic payload qos retain dup =>
    exact Client.Quiet.receiveMessage _ c
  | puback mid => exact absurd hp (by simp [BrokerPacket.ackMid])
  | pubrec mid => exact absurd hp (by simp [BrokerPacket.ackMid])
  | pubcomp mid => exact absurd hp (by simp [BrokerPacket.ackMid])
  | pubrel mid =>
    unfold BrokerPacket.receive
    dsimp only
    split
    next message c' he =>
      have hsame : c'.outMessages = c.outMessages ∧ c'.outPackets = c.outPackets := by
        unfold Client.messageRemoveIn at he
        cases htake : takeMid mid c.inMessages with
        | none => simp [htake] at he
        | some r =>
          rw [htake] at he
          obtain ⟨-, rfl⟩ := Prod.mk.inj (Option.some.inj he)
          exact ⟨rfl, rfl⟩
      have hcalled : c.Quiet (c'.call (.onMessage message)) := hrefl.of_eq hsame.1 hsame.2
      exact @Client.Quiet.sendWithMid _ _ hcalled pubcomp (by decide) mid
    next => exact @Client.Quiet.sendWithMid _ _ hrefl pubcomp (by decide) mid
  | pingreq =>
    apply hrefl.send
    · exact fun x hx => absurd hx (by simp [Outgoing.offer])
    · exact fun i hi => absurd hi (by simp [Outgoing.releases])
  | pingresp => exact hrefl.of_eq rfl rfl

theorem receiveMessage_frame (m : Message) (c : Client) :
    ∃ inQueueLen inMessages outPackets callbacks, (receiveMessage m c).2 = { c with
      inQueueLen := inQueueLen
      inMessages := inMessages
      outPackets := outPackets
      callbacks := callbacks } := by
  unfold TrackerDemo.Mosquitto.receiveMessage
  split_ifs
  · exact ⟨c.inQueueLen, c.inMessages, c.outPackets, _, rfl⟩
  · obtain ⟨ps, he⟩ := c.send_snd (.withMid puback m.mid)
    dsimp only
    rw [Client.sendPuback, he]
    exact ⟨c.inQueueLen, c.inMessages, ps, _, rfl⟩
  · obtain ⟨ps, he⟩ := c.send_snd (.withMid pubrec m.mid)
    dsimp only
    rw [Client.sendPubrec, he]
    exact ⟨_, _, ps, c.callbacks, rfl⟩
  · exact ⟨c.inQueueLen, c.inMessages, c.outPackets, c.callbacks, rfl⟩

/-- It has nothing to do with the messages that the client keeps. -/
theorem receive_frame {p : BrokerPacket} (hp : p.ackMid = none) (now : ℕ)
    (c : Client) :
    ∃ state pingT inQueueLen inMessages outPackets callbacks, (p.receive now c).2 = { c with
      state := state
      pingT := pingT
      inQueueLen := inQueueLen
      inMessages := inMessages
      outPackets := outPackets
      callbacks := callbacks } := by
  cases p with
  | connack ack result =>
    unfold BrokerPacket.receive
    dsimp only
    split_ifs
    · exact ⟨.connected, c.pingT, c.inQueueLen, c.inMessages, c.outPackets, _, rfl⟩
    · exact ⟨c.state, c.pingT, c.inQueueLen, c.inMessages, c.outPackets, _, rfl⟩
    · exact ⟨c.state, c.pingT, c.inQueueLen, c.inMessages, c.outPackets, _, rfl⟩
    · exact ⟨c.state, c.pingT, c.inQueueLen, c.inMessages, c.outPackets, _, rfl⟩
  | suback mid granted =>
    exact ⟨c.state, c.pingT, c.inQueueLen, c.inMessages, c.outPackets, _, rfl⟩
  | unsuback mid => exact ⟨c.state, c.pingT, c.inQueueLen, c.inMessages, c.outPackets, _, rfl⟩
  | publish mid topic payload qos retain dup =>
    obtain ⟨inQueueLen, inMessages, ps, callbacks, he⟩ := receiveMessage_frame
      ⟨if qos > 0 then mid else 0, topic, payload, qos, retain, dup, .invalid, now⟩ c
    exact ⟨c.state, c.pingT, inQueueLen, inMessages, ps, callbacks, he⟩
  | puback mid => exact absurd hp (by simp [BrokerPacket.ackMid])
  | pubrec mid => exact absurd hp (by simp [BrokerPacket.ackMid])
  | pubcomp mid => exact absurd hp (by simp [BrokerPacket.ackMid])
  | pubrel mid =>
    unfold BrokerPacket.receive
    dsimp only
    split
    next message c' he =>
      obtain ⟨inQueueLen, inMessages, rfl⟩ : ∃ inQueueLen inMessages,
          c' = { c with inQueueLen := inQueueLen, inMessages := inMessages } := by
        unfold Client.messageRemoveIn at he
        split at he
        · exact absurd he (by simp)
        · obtain ⟨-, rfl⟩ := Prod.mk.inj (Option.some.inj he)
          exact ⟨_, _, rfl⟩
      obtain ⟨ps, hps⟩ := Client.send_snd (.withMid pubcomp mid) (Client.call (.onMessage message)
        { c with inQueueLen := inQueueLen, inMessages := inMessages })
      rw [Client.sendPubcomp, hps]
      exact ⟨c.state, c.pingT, inQueueLen, inMessages, ps, _, rfl⟩
    next =>
      obtain ⟨ps, hps⟩ := c.send_snd (.withMid pubcomp mid)
      rw [Client.sendPubcomp, hps]
      exact ⟨c.state, c.pingT, c.inQueueLen, c.inMessages, ps, c.callbacks, rfl⟩
  | pingreq =>
    obtain ⟨ps, hps⟩ := c.send_snd (.simple pingresp)
    exact ⟨c.state, c.pingT, c.inQueueLen, c.inMessages, ps, c.callbacks, hps⟩
  | pingresp => exact ⟨c.state, 0, c.inQueueLen, c.inMessages, c.outPackets, c.callbacks, rfl⟩

/-- What only `publish` and `subscribe` change, and what nothing changes. -/
def Client.settings (c : Client) : ℕ × ℕ × ℕ := (c.lastMid, c.messageRetry, c.maxInflightMessages)

theorem Client.messageRemoveOut_settings (mid : ℕ) (c : Client) :
    (c.messageRemoveOut mid).2.settings = c.settings := by
  unfold Client.messageRemoveOut
  split
  · rfl
  next cur rest _ =>
    obtain ⟨inflight, ps, he, -⟩ := Client.startWaiting_spec rest
      { c with
        outQueueLen := c.outQueueLen - 1
        inflightMessages := if cur.qos > 0 then c.inflightMessages - 1 else c.inflightMessages }
    dsimp only
    rw [he]
    rfl

theorem receive_settings (p : BrokerPacket) (now : ℕ) (c : Client) :
    (p.receive now c).2.settings = c.settings := by
  have hremove : ∀ mid, (BrokerPacket.receive now (.puback mid) c).2.settings = c.settings := by
    intro mid
    rw [← Client.messageRemoveOut_settings mid c]
    rcases receive_puback now mid c with he | he
    · rw [he]
      rfl
    · rw [he]
  by_cases hp : p.ackMid = none
  · obtain ⟨state, pingT, inQueueLen, inMessages, outPackets, callbacks, he⟩ :=
      receive_frame hp now c
    rw [he]
    rfl
  cases p with
  | puback mid => exact hremove mid
  | pubcomp mid => exact hremove mid
  | pubrec mid =>
    obtain ⟨ps, hps⟩ := Client.send_snd (.withMid (pubrel ||| 2) mid)
      (c.messageOutUpdate mid .waitForPubcomp now).2
    show ((c.messageOutUpdate mid .waitForPubcomp now).2.send
      (.withMid (pubrel ||| 2) mid)).2.settings = c.settings
    rw [hps]
    rcases c.messageOutUpdate_cases mid .waitForPubcomp now with he | ⟨pre, m, post, -, -, he⟩
    · rw [he]
      rfl
    · rw [he]
      rfl
  | _ => exact absurd rfl hp

/-- The window, for a packet that acknowledges no message that waits. -/
theorem Client.Window.receive (h : c.Window) (hc : c.Ok)
    (hqos : ∀ m ∈ c.outMessages, m.qos = 1 ∨ m.qos = 2) {p : BrokerPacket}
    (hp : ∀ mid, p.ackMid = some mid → ∀ m ∈ c.outMessages, m.mid = mid → ¬ m.Waits) (now : ℕ) :
    (p.receive now c).2.Window := by
  have hremove : ∀ mid, (∀ m ∈ c.outMessages, m.mid = mid → ¬ m.Waits) →
      (BrokerPacket.receive now (.puback mid) c).2.Window := by
    intro mid hmid
    have hremoved := h.messageRemoveOut hc hqos hmid
    rcases receive_puback now mid c with he | he
    · rw [he]
      exact hremoved.of_eq rfl rfl rfl
    · rw [he]
      exact hremoved
  by_cases hnone : p.ackMid = none
  · obtain ⟨state, pingT, inQueueLen, inMessages, outPackets, callbacks, he⟩ :=
      receive_frame hnone now c
    rw [he]
    exact h.of_eq rfl rfl rfl
  cases p with
  | puback mid => exact hremove mid (hp mid rfl)
  | pubcomp mid => exact hremove mid (hp mid rfl)
  | pubrec mid =>
    obtain ⟨ps, he⟩ := Client.send_snd (.withMid (pubrel ||| 2) mid)
      (c.messageOutUpdate mid .waitForPubcomp now).2
    have hupdated := h.messageOutUpdate (hp mid rfl) (by simp : MsgState.waitForPubcomp ≠ .invalid)
      (by simp) now
    show ((c.messageOutUpdate mid .waitForPubcomp now).2.send
      (.withMid (pubrel ||| 2) mid)).2.Window
    rw [he]
    exact hupdated.of_eq rfl rfl rfl
  | _ => exact absurd rfl hnone

/-- The client's own invariant, for a packet that it reads. -/
theorem Client.Ok.receive (h : c.Ok) (now : ℕ) {p : BrokerPacket} (hp : p.ackMid = none → p.Fits) :
    (p.receive now c).2.Ok := by
  have hremove : ∀ mid, (BrokerPacket.receive now (.puback mid) c).2.Ok := by
    intro mid
    have hok := h.messageRemoveOut mid
    rcases receive_puback now mid c with he | he
    · rw [he]
      exact hok.call (by simp)
    · rw [he]
      exact hok
  cases p with
  | connack ack result =>
    have hcall : (c.call (.onConnect result.toNat)).Ok := h.call (by simp)
    unfold BrokerPacket.receive
    dsimp only
    split_ifs
    · exact ⟨hcall.inMessages, hcall.inQueueLen_eq, hcall.outQueueLen_eq, hcall.inflight_le,
        hcall.delivered⟩
    · exact hcall
    · exact hcall
    · exact hcall
  | suback mid granted => exact h.call (by simp)
  | unsuback mid => exact h.call (by simp)
  | publish mid topic payload qos retain dup =>
    obtain ⟨-, hne, h0, -⟩ := hp rfl
    exact h.receiveMessage hne h0
  | puback mid => exact hremove mid
  | pubrec mid => exact (h.messageOutUpdate mid .waitForPubcomp now).send _
  | pubcomp mid => exact hremove mid
  | pubrel mid =>
    unfold BrokerPacket.receive
    dsimp only
    split
    next message c' he =>
      obtain ⟨hok, hreceived⟩ := h.messageRemoveIn he
      refine (hok.call fun m hm => ?_).send _
      cases hm
      exact hreceived
    next => exact h.send _
  | pingreq => exact h.send _
  | pingresp =>
    exact ⟨h.inMessages, h.inQueueLen_eq, h.outQueueLen_eq, h.inflight_le, h.delivered⟩

end Functions

/-! ## The parties in order -/

/-- The client is in order, and what is sent to it can be received. -/
structure Link.Ready (s : Link) : Prop where
  client : s.client.Ok
  owed : ∀ p ∈ s.owed, p.ackMid ≠ none
  down : ∀ p ∈ s.down, p.ackMid = none → p.Fits
  qos : ∀ x ∈ s.published, x.qos = 1 ∨ x.qos = 2

theorem Link.initial_ready : Link.initial.Ready :=
  ⟨Client.initial_ok, by simp [Link.initial], by simp [Link.initial], by simp [Link.initial]⟩

section Ready

variable {s s' : Link} {e : LinkEvent}

theorem Client.Ok.withSock {c : Client} (h : c.Ok) (sock : Bool) : { c with sock := sock }.Ok :=
  ⟨h.inMessages, h.inQueueLen_eq, h.outQueueLen_eq, h.inflight_le, h.delivered⟩

theorem answer_ackMid {o : Outgoing} {p : BrokerPacket} (h : o.answer = some p) :
    p.ackMid ≠ none := by
  cases o with
  | publish mid topic payload qos retain dup =>
    unfold Outgoing.answer at h
    dsimp only at h
    split_ifs at h <;> obtain rfl := Option.some.inj h <;> simp [BrokerPacket.ackMid]
  | withMid command mid =>
    unfold Outgoing.answer at h
    dsimp only at h
    split_ifs at h
    obtain rfl := Option.some.inj h
    simp [BrokerPacket.ackMid]
  | _ => exact absurd h (by simp [Outgoing.answer])

theorem qos_of_publishCheck {topic payload : Bytes} {qos : ℤ}
    (h : Client.publishCheck topic payload qos = none) : 0 ≤ qos ∧ qos ≤ 2 := by
  unfold Client.publishCheck at h
  split_ifs at h with hqos
  omega

theorem Link.Ready.step (h : s.Ready) (hstep : LinkStep s e s') : s'.Ready := by
  obtain ⟨hc, howed, hdown, hqos⟩ := h
  unfold LinkStep at hstep
  cases e with
  | publish topic payload qos retain now =>
    rw [linkStep] at hstep
    split at hstep
    · obtain rfl := Option.some.inj hstep
      exact ⟨hc, howed, hdown, hqos⟩
    next hcheck =>
      obtain rfl := Option.some.inj hstep
      have hle := qos_of_publishCheck hcheck
      refine ⟨hc.publishStart .., howed, hdown, fun x hx => ?_⟩
      rcases List.mem_append.1 hx with hx | hx
      · exact hqos x hx
      · split_ifs at hx with hpos
        · rw [List.mem_singleton.1 hx]
          dsimp only
          omega
        · exact absurd hx (by simp)
  | sendPublish i =>
    rw [linkStep, Option.map_eq_some_iff] at hstep
    obtain ⟨m, -, rfl⟩ := hstep
    exact ⟨hc.sendPublish m, howed, hdown, hqos⟩
  | subscribe sub qos =>
    obtain rfl := Option.some.inj hstep
    exact ⟨hc.subscribeTo sub qos, howed, hdown, hqos⟩
  | retryCheck now =>
    obtain rfl := Option.some.inj hstep
    exact ⟨hc.messageRetryCheck now, howed, hdown, hqos⟩
  | brokerReads =>
    rw [linkStep] at hstep
    split at hstep
    · exact absurd hstep (by simp)
    next o ps _ =>
      obtain rfl := Option.some.inj hstep
      refine ⟨hc.withOutPackets ps, fun p hp => ?_, hdown, hqos⟩
      rcases List.mem_append.1 hp with hp | hp
      · exact howed p hp
      · exact answer_ackMid (Option.mem_toList.1 hp)
  | brokerAnswers i =>
    rw [linkStep, Option.map_eq_some_iff] at hstep
    obtain ⟨p, hp, rfl⟩ := hstep
    refine ⟨hc, fun q hq => howed q (List.mem_of_mem_eraseIdx hq), fun q hq hnone => ?_, hqos⟩
    rcases List.mem_append.1 hq with hq | hq
    · exact hdown q hq hnone
    · rw [List.mem_singleton.1 hq] at hnone
      exact absurd hnone (howed p (List.mem_of_getElem? hp))
  | brokerSends p =>
    rw [linkStep, Option.ite_none_right_eq_some] at hstep
    obtain ⟨⟨-, hfits⟩, hs⟩ := hstep
    obtain rfl := Option.some.inj hs
    refine ⟨hc, howed, fun q hq hnone => ?_, hqos⟩
    rcases List.mem_append.1 hq with hq | hq
    · exact hdown q hq hnone
    · rw [List.mem_singleton.1 hq]
      exact hfits
  | read now =>
    rw [linkStep] at hstep
    split at hstep
    · exact absurd hstep (by simp)
    next p ps hps =>
      rw [Option.ite_none_right_eq_some] at hstep
      obtain ⟨-, hs⟩ := hstep
      obtain rfl := Option.some.inj hs
      have hmem : ∀ q ∈ p :: ps, q.ackMid = none → q.Fits := by
        rw [← hps]
        exact hdown
      have hok := hc.receive now (hmem p List.mem_cons_self)
      refine ⟨?_, howed, fun q hq => hmem q (List.mem_cons_of_mem p hq), hqos⟩
      dsimp only
      split_ifs
      · exact hok
      · exact hok.withSock false
  | lose =>
    obtain rfl := Option.some.inj hstep
    exact ⟨hc.withSock false, howed, hdown, hqos⟩
  | reconnect sock =>
    rw [linkStep, Option.map_eq_some_iff] at hstep
    obtain ⟨c, hreconnect, rfl⟩ := hstep
    refine ⟨?_, by simp, by simp, hqos⟩
    obtain ⟨c', he, hok⟩ := hc.reconnect sock
    rw [hreconnect] at he
    obtain rfl := Option.some.inj he
    exact hok

end Ready

end TrackerDemo.Mosquitto

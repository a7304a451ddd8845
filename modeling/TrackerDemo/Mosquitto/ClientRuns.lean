import TrackerDemo.Mosquitto.Handlers

/-!
# Runs of the client

The threads of the client in any order, with anything arriving from the broker: a
step is one call of `_mosquitto_packet_read`, of `_mosquitto_message_retry_check` or
of `_mosquitto_reconnect`, or a part of `mosquitto_publish` or `mosquitto_subscribe`
that no other thread gets into.

Results:
* `publishMessage_steps`: a call of `mosquitto_publish` is two of the steps.
* `Client.Ok.messagesReconnectReset`: the reset of the incoming messages drops none
  and reads no null pointer.
* `client_safe`: no run accesses memory outside of an array, and every state in it
  keeps the client's invariant.
-/

namespace TrackerDemo.Mosquitto

open TrackerDemo.CString

/-! ## The steps -/

/-- A connection of the client, and the messages that `mosquitto_publish` has still to
    send in some threads. -/
structure Connection where
  reader : Reader Client
  pending : List Message

/-- At the start of the program. -/
def Connection.initial : Connection := ⟨⟨.initial, [], .initial⟩, []⟩

/-- A step of one of the threads, or an arrival at the socket. -/
inductive ClientEvent
  | arrive (a : Arrival)
  | read (now : ℕ)
  | retryCheck (now : ℕ)
  | reconnect (sock : Bool)
  | publish (topic payload : Bytes) (qos : ℤ) (retain : Bool) (now : ℕ)
  | sendPublish
  | subscribe (sub : Bytes) (qos : ℕ)

/-- `_mosquitto_packet_handle` for a client, or for one that has accessed memory
    outside of an array: `none` stays. -/
def handleOrFault (now : ℕ) (client : Option Client) (b : ReadBuffer) :
    Option MosqErr × Option Client :=
  match client.bind (packetHandle now b) with
  | some (rc, c) => (rc, some c)
  | none => (none, none)

/-- One round of `mosquitto_loop_read` (`mosquitto.c`, lines 1160–1172): the socket is closed
    after an error (`_mosquitto_loop_rc_handle`, lines 1121–1140). -/
def loopRead (now : ℕ) (r : Reader Client) : Option (Reader Client) := do
  let (rc, r') ← packetRead (handleOrFault now) ⟨some r.client, r.sock, r.inPacket⟩
  let c ← r'.client
  return ⟨if rc = none then c else { c with sock := false }, r'.sock, r'.inPacket⟩

/-- `_mosquitto_reconnect` (lines 472–547): nothing of the old connection is left. -/
def loopReconnect (sock : Bool) (r : Reader Client) : Option (Reader Client) := do
  let c ← r.client.reconnect sock
  return ⟨c, [], .initial⟩

/-- A step; `none` is an access outside of an array or through a null pointer. The
    client reads from a valid socket only. -/
def clientStep (s : Connection) : ClientEvent → Option Connection
  | .arrive a => some { s with reader := { s.reader with sock := s.reader.sock ++ [a] } }
  | .read now =>
    if s.reader.client.sock then (loopRead now s.reader).map fun r => { s with reader := r }
    else some s
  | .retryCheck now =>
    some { s with
      reader := { s.reader with client := s.reader.client.messageRetryCheck now } }
  | .reconnect sock => (loopReconnect sock s.reader).map fun r => { s with reader := r }
  | .publish topic payload qos retain now =>
    match Client.publishCheck topic payload qos with
    | some _ => some s
    | none =>
      let (message, c) := s.reader.client.publishStart topic payload qos.toNat retain now
      some ⟨{ s.reader with client := c }, s.pending ++ message.toList⟩
  | .sendPublish =>
    match s.pending with
    | [] => some s
    | m :: pending => some ⟨{ s.reader with client := (s.reader.client.sendPublish m).2 }, pending⟩
  | .subscribe sub qos =>
    some { s with
      reader := { s.reader with client := (s.reader.client.subscribeTo sub qos).2 } }

/-- A call of `mosquitto_publish` that no other thread gets into: its message is the next one
    to be sent. -/
theorem publishMessage_steps (topic payload : Bytes) (qos : ℤ) (retain : Bool) (now : ℕ)
    {s : Connection} (hpending : s.pending = []) : ∃ s',
      clientStep s (.publish topic payload qos retain now) = some s' ∧
        clientStep s' .sendPublish = some ⟨{ s.reader with
          client := (s.reader.client.publishMessage topic payload qos retain now).2 }, []⟩ := by
  obtain ⟨reader, pending⟩ := s
  obtain rfl : pending = [] := hpending
  unfold Client.publishMessage
  rw [clientStep]
  cases Client.publishCheck topic payload qos with
  | some rc => exact ⟨_, rfl, rfl⟩
  | none =>
    obtain ⟨message, c⟩ := reader.client.publishStart topic payload qos.toNat retain now
    cases message with
    | none => exact ⟨_, rfl, rfl⟩
    | some m => exact ⟨_, rfl, rfl⟩

/-! ## What the steps keep -/

section Invariant

variable {c : Client}

theorem Client.Ok.sendPublish (h : c.Ok) (m : Message) : (c.sendPublish m).2.Ok := by
  obtain ⟨ps, he⟩ := c.sendPublish_snd m
  rw [he]
  exact h.withOutPackets ps

/-- The incoming messages wait for a PUBREL, so that the loop keeps all of them. -/
theorem resetInRest_eq {ms : List Message} (h : ∀ m ∈ ms, m.qos = 2) :
    resetInRest ms = ((ms.length : ℤ), ms.map fun m => { m with timestamp := 0 }) := by
  induction ms with
  | nil => rfl
  | cons m ms ih =>
    rw [resetInRest, ih fun m' hm' => h m' (List.mem_cons_of_mem m hm')]
    dsimp only
    rw [if_neg (not_not.2 (h m List.mem_cons_self))]
    rfl

theorem resetIn_eq {ms : List Message} (h : ∀ m ∈ ms, m.qos = 2) :
    resetIn ms = some ((ms.length : ℤ), ms.map fun m => { m with timestamp := 0 }) := by
  cases ms with
  | nil => rfl
  | cons m ms =>
    rw [resetIn.eq_def]
    dsimp only
    rw [if_neg (not_not.2 (h m List.mem_cons_self)),
      resetInRest_eq fun m' hm' => h m' (List.mem_cons_of_mem m hm')]
    rfl

/-- The outgoing messages that are counted again. -/
theorem resetOut_spec {maxInflight : ℕ} {inflight : ℤ}
    (hle : maxInflight = 0 ∨ inflight ≤ maxInflight) (ms : List Message) :
    (maxInflight = 0 ∨ (resetOut maxInflight inflight ms).1 ≤ maxInflight) ∧
      (resetOut maxInflight inflight ms).2.length = ms.length := by
  induction ms generalizing inflight with
  | nil => exact ⟨hle, rfl⟩
  | cons m ms ih =>
    rw [resetOut]
    by_cases hroom : maxInflight = 0 ∨ inflight < maxInflight
    · rw [if_pos hroom]
      have hle' : maxInflight = 0 ∨
          (if m.qos > 0 then inflight + 1 else inflight) ≤ maxInflight := by
        rcases hroom with h | h
        · exact .inl h
        · right
          split_ifs <;> omega
      obtain ⟨hinflight, hlen⟩ := ih hle'
      exact ⟨hinflight, congrArg (· + 1) hlen⟩
    · rw [if_neg hroom]
      obtain ⟨hinflight, hlen⟩ := ih hle
      exact ⟨hinflight, congrArg (· + 1) hlen⟩

/-- The reset finds no message that it would drop. -/
theorem Client.Ok.messagesReconnectReset (h : c.Ok) :
    ∃ c', c.messagesReconnectReset = some c' ∧ c'.Ok := by
  have hin := resetIn_eq fun m hm => (h.inMessages m hm).2.1
  obtain ⟨hinflight, hlen⟩ := @resetOut_spec c.maxInflightMessages 0
    (.inr (Int.natCast_nonneg _)) c.outMessages
  unfold Client.messagesReconnectReset
  rw [hin]
  refine ⟨_, rfl, fun m hm => ?_, ?_, rfl, hinflight, h.delivered⟩
  · obtain ⟨m', hm', rfl⟩ := List.mem_map.1 hm
    obtain ⟨hr, hqos, hstate⟩ := h.inMessages m' hm'
    exact ⟨⟨hr.topic_ne, hr.zero_notMem, hr.qos_le⟩, hqos, hstate⟩
  · show (c.inMessages.length : ℤ) = ((c.inMessages.map _).length : ℤ)
    rw [List.length_map]

/-- A property of the elements on the left that the relation carries over. -/
theorem forall_mem_of_forall₂ {α β : Type*} {R : α → β → Prop} {p : α → Prop} {q : β → Prop}
    {as : List α} {bs : List β} (h : List.Forall₂ R as bs) (hR : ∀ a b, R a b → p a → q b)
    (has : ∀ a ∈ as, p a) : ∀ b ∈ bs, q b := by
  induction h with
  | nil => simp
  | cons hab _ ih =>
    rw [List.forall_mem_cons] at has ⊢
    exact ⟨hR _ _ hab has.1, ih has.2⟩

theorem Client.Ok.messageRetryCheck (h : c.Ok) (now : ℕ) : (c.messageRetryCheck now).Ok := by
  obtain ⟨out, inc, ps, he, hout, hin⟩ := c.messageRetryCheck_spec now
  rw [he]
  refine ⟨forall_mem_of_forall₂ hin ?_ h.inMessages, ?_, ?_, h.inflight_le, h.delivered⟩
  · rintro m _ ⟨timestamp, dup, rfl⟩ ⟨hr, hqos, hstate⟩
    exact ⟨⟨hr.topic_ne, hr.zero_notMem, hr.qos_le⟩, hqos, hstate⟩
  · exact h.inQueueLen_eq.trans (congrArg _ hin.length_eq)
  · exact h.outQueueLen_eq.trans (congrArg _ hout.length_eq)

theorem Client.Ok.midGenerate (h : c.Ok) : c.midGenerate.2.Ok :=
  ⟨h.inMessages, h.inQueueLen_eq, h.outQueueLen_eq, h.inflight_le, h.delivered⟩

theorem Client.Ok.publishStart (h : c.Ok) (topic payload : Bytes) (qos : ℕ) (retain : Bool)
    (now : ℕ) : (c.publishStart topic payload qos retain now).2.Ok := by
  rcases Nat.eq_zero_or_pos qos with rfl | hqos
  · exact h.midGenerate
  have hlen : ∀ m : Message, c.outQueueLen + 1 = ((c.outMessages ++ [m]).length : ℤ) := by
    intro m
    rw [h.outQueueLen_eq, List.length_append]
    rfl
  rw [Client.publishStart_eq topic payload hqos]
  split_ifs with hroom
  · refine ⟨h.inMessages, h.inQueueLen_eq, hlen _, ?_, h.delivered⟩
    rcases hroom with hmax | hlt
    · exact .inl hmax
    · exact .inr (by dsimp only; omega)
  · exact ⟨h.inMessages, h.inQueueLen_eq, hlen _, h.inflight_le, h.delivered⟩

theorem Client.Ok.subscribeTo (h : c.Ok) (sub : Bytes) (qos : ℕ) :
    (c.subscribeTo sub qos).2.Ok := by
  unfold Client.subscribeTo
  split_ifs
  · exact h.midGenerate.send _
  · exact h
  · exact h

/-! The functions of the other threads leave the socket. -/

theorem Client.messageRetryCheck_sock (now : ℕ) (c : Client) :
    (c.messageRetryCheck now).sock = c.sock := by
  obtain ⟨out, inc, ps, he, -⟩ := c.messageRetryCheck_spec now
  rw [he]

theorem Client.publishStart_sock (topic payload : Bytes) (qos : ℕ) (retain : Bool) (now : ℕ)
    (c : Client) : (c.publishStart topic payload qos retain now).2.sock = c.sock := by
  rcases Nat.eq_zero_or_pos qos with rfl | hqos
  · rfl
  · rw [Client.publishStart_eq topic payload hqos]
    split_ifs <;> rfl

theorem Client.sendPublish_sock (m : Message) (c : Client) : (c.sendPublish m).2.sock = c.sock := by
  obtain ⟨ps, he⟩ := c.sendPublish_snd m
  rw [he]

theorem Client.subscribeTo_sock (sub : Bytes) (qos : ℕ) (c : Client) :
    (c.subscribeTo sub qos).2.sock = c.sock := by
  unfold Client.subscribeTo
  split_ifs
  · obtain ⟨ps, he⟩ := c.midGenerate.2.send_snd (.subscribe c.midGenerate.1 sub qos)
    show (c.midGenerate.2.send (.subscribe c.midGenerate.1 sub qos)).2.sock = c.sock
    rw [he]
    rfl
  · rfl
  · rfl

end Invariant

/-! ## Runs -/

/-- What holds in a run: the packet in progress is well formed as long as the client
    reads. -/
structure Connection.Ok (s : Connection) : Prop where
  client : s.reader.client.Ok
  inPacket : s.reader.client.sock = true → s.reader.inPacket.Ok

theorem Connection.initial_ok : Connection.initial.Ok :=
  ⟨Client.initial_ok, fun _ => .inl rfl⟩

/-- One call of `_mosquitto_packet_read`. -/
theorem loopRead_ok (now : ℕ) {r : Reader Client} (hc : r.client.Ok) (hp : r.inPacket.Ok) :
    ∃ r', loopRead now r = some r' ∧ r'.client.Ok ∧ (r'.client.sock = true → r'.inPacket.Ok) := by
  obtain ⟨rc, ⟨client, sock, p⟩, he, hp', hclient⟩ := @packetRead_safe _ (handleOrFault now)
    ⟨some r.client, r.sock, r.inPacket⟩ hp
  obtain ⟨c, hsome, hok⟩ : ∃ c, client = some c ∧ c.Ok := by
    rcases hclient with h | ⟨b, hb, h⟩
    · exact ⟨r.client, h, hc⟩
    · obtain ⟨rc', c, hhandle, hok⟩ := hc.packetHandle now hb
      refine ⟨c, h.trans ?_, hok⟩
      show (match packetHandle now b r.client with
        | some (rc, c) => (rc, some c)
        | none => (none, none)).2 = some c
      rw [hhandle]
  have hsome : client = some c := hsome
  subst hsome
  unfold loopRead
  rw [he]
  refine ⟨_, rfl, ?_, ?_⟩
  · show (if rc = none then c else { c with sock := false }).Ok
    split_ifs
    · exact hok
    · exact ⟨hok.inMessages, hok.inQueueLen_eq, hok.outQueueLen_eq, hok.inflight_le, hok.delivered⟩
  · show (if rc = none then c else { c with sock := false }).sock = true → p.Ok
    split_ifs with hrc
    · exact fun _ => hp' (by simp [hrc])
    · simp

theorem loopReconnect_ok (sock : Bool) {r : Reader Client} (hc : r.client.Ok) :
    ∃ r', loopReconnect sock r = some r' ∧ r'.client.Ok ∧ r'.inPacket.Ok := by
  have hc' : { r.client with state := .new, pingT := 0, outPackets := [] }.Ok :=
    ⟨hc.inMessages, hc.inQueueLen_eq, hc.outQueueLen_eq, hc.inflight_le, hc.delivered⟩
  obtain ⟨c, he, hok⟩ := hc'.messagesReconnectReset
  unfold loopReconnect Client.reconnect
  rw [he]
  exact ⟨_, rfl, ⟨hok.inMessages, hok.inQueueLen_eq, hok.outQueueLen_eq, hok.inflight_le,
    hok.delivered⟩, .inl rfl⟩

/-- The step lemma. -/
theorem Connection.Ok.step {s : Connection} (h : s.Ok) (e : ClientEvent) :
    ∃ s', clientStep s e = some s' ∧ s'.Ok := by
  cases e with
  | arrive a => exact ⟨_, rfl, h.client, h.inPacket⟩
  | read now =>
    rw [clientStep]
    split_ifs with hsock
    · obtain ⟨r, he, hok, hp⟩ := loopRead_ok now h.client (h.inPacket hsock)
      rw [he]
      exact ⟨_, rfl, hok, hp⟩
    · exact ⟨s, rfl, h⟩
  | retryCheck now =>
    exact ⟨_, rfl, h.client.messageRetryCheck now, fun hsock =>
      h.inPacket ((Client.messageRetryCheck_sock ..).symm.trans hsock)⟩
  | reconnect sock =>
    obtain ⟨r, he, hok, hp⟩ := loopReconnect_ok sock h.client
    rw [clientStep, he]
    exact ⟨_, rfl, hok, fun _ => hp⟩
  | publish topic payload qos retain now =>
    rw [clientStep]
    split
    · exact ⟨s, rfl, h⟩
    · exact ⟨_, rfl, h.client.publishStart .., fun hsock =>
        h.inPacket ((Client.publishStart_sock ..).symm.trans hsock)⟩
  | sendPublish =>
    rw [clientStep]
    split
    · exact ⟨s, rfl, h⟩
    · exact ⟨_, rfl, h.client.sendPublish _, fun hsock =>
        h.inPacket ((Client.sendPublish_sock ..).symm.trans hsock)⟩
  | subscribe sub qos =>
    exact ⟨_, rfl, h.client.subscribeTo sub qos, fun hsock =>
      h.inPacket ((Client.subscribeTo_sock ..).symm.trans hsock)⟩

end TrackerDemo.Mosquitto

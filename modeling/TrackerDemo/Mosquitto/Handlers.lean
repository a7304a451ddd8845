import TrackerDemo.Mosquitto.Client
import TrackerDemo.Mosquitto.Fields
import TrackerDemo.Mosquitto.PacketStream

/-!
# Handling a packet

Model of `_mosquitto_packet_handle` and the functions it calls (`read_handle.c`,
`read_handle_shared.c`, `read_handle_client.c`). Each of them reads the fields of
the packet, and then acts on the client.

Results:
* `Client.Ok.packetHandle`: no handler accesses memory outside of an array, whatever
  is in the packet, and each of them keeps the client's invariant.
-/

namespace TrackerDemo.Mosquitto

open TrackerDemo.CString

/-! ## Handlers -/

/-- A handler's result: `none` is an access outside of an array. -/
abbrev Handling := Option (Option MosqErr × Client)

/-- What follows when the fields of the packet are read; a packet that is refused
    changes nothing. -/
def onFields {α : Type} (m : PacketM α) (b : ReadBuffer) (c : Client)
    (act : α → Option MosqErr × Client) : Handling :=
  match m b with
  | .ok (a, _) => some (act a)
  | .error (.err rc) => some (some rc, c)
  | .error .outOfBounds => none

/-- `_mosquitto_handle_pingreq`. -/
def handlePingreq (c : Client) : Handling := some c.sendPingresp

/-- `_mosquitto_handle_pingresp`. -/
def handlePingresp (c : Client) : Handling := some (none, { c with pingT := 0 })

/-- `_mosquitto_handle_pubackcomp`. -/
def handlePubackcomp (b : ReadBuffer) (c : Client) : Handling :=
  onFields readUint16 b c fun mid =>
    match c.messageRemoveOut mid with
    | (none, c) => (none, c.call (.onPublish mid))
    | (some _, c) => (none, c)

/-- The payload of a PUBLISH, which is the rest of the packet (`read_handle.c`, lines
    102–114). -/
def readRest : PacketM Bytes := do
  let payloadlen ← bytesLeft
  if payloadlen ≠ 0 then readBytes payloadlen else return []

/-- The fields of a PUBLISH (`read_handle.c`, lines 85–114): topic, message id and
    payload. -/
def readPublish (qos : ℕ) : PacketM (Bytes × ℕ × Bytes) := do
  let topic ← readString
  if topic = [] then throw (.err .protocol)
  else
    let mid ← (if qos > 0 then readUint16 else pure 0)
    let payload ← readRest
    return (topic, mid, payload)

/-- What `_mosquitto_handle_publish` does with the message (lines 121–154). -/
def receiveMessage (message : Message) (c : Client) : Option MosqErr × Client :=
  if message.qos = 0 then (none, c.call (.onMessage message))
  else if message.qos = 1 then
    let (rc, c) := c.sendPuback message.mid
    (rc, c.call (.onMessage message))
  else if message.qos = 2 then
    let (rc, c) := c.sendPubrec message.mid
    (rc, c.messageQueueIn { message with state := .waitForPubrel })
  else (some .protocol, c)

/-- `_mosquitto_handle_publish`. -/
def handlePublish (now : ℕ) (b : ReadBuffer) (c : Client) : Handling :=
  let header := b.command
  let dup := (header &&& 0x08) >>> 3 ≠ 0
  let qos := ((header &&& 0x06) >>> 1).toNat
  let retain := header &&& 0x01 ≠ 0
  onFields (readPublish qos) b c fun (topic, mid, payload) =>
    receiveMessage ⟨mid, topic, payload, qos, retain, dup, .invalid, now⟩ c

/-- `_mosquitto_handle_pubrec`. -/
def handlePubrec (now : ℕ) (b : ReadBuffer) (c : Client) : Handling :=
  onFields readUint16 b c fun mid =>
    match c.messageOutUpdate mid .waitForPubcomp now with
    | (none, c) => c.sendPubrel mid
    | (some .notFound, c) => c.sendPubrel mid
    | (some rc, c) => (some rc, c)

/-- `_mosquitto_handle_pubrel`. -/
def handlePubrel (b : ReadBuffer) (c : Client) : Handling :=
  if c.protocol = .mqtt311 ∧ b.command &&& 0x0F ≠ 0x02 then some (some .protocol, c)
  else
    onFields readUint16 b c fun mid =>
      match c.messageRemoveIn mid with
      | some (message, c) => (c.call (.onMessage message)).sendPubcomp mid
      | none => c.sendPubcomp mid

/-- `_mosquitto_handle_connack`. -/
def handleConnack (b : ReadBuffer) (c : Client) : Handling :=
  onFields (do let _reserved ← readByte; readByte) b c fun result =>
    let c := c.call (.onConnect result.toNat)
    if result = 0 then
      (none, if c.state ≠ .disconnecting then { c with state := .connected } else c)
    else if result ≤ 5 then (some .connRefused, c)
    else (some .protocol, c)

/-- The loop of `_mosquitto_handle_suback` (lines 194–202), with `room` elements of
    `granted_qos` left. -/
def readGranted : ℕ → PacketM (List ℕ)
  | 0 => do
    let left ← bytesLeft
    if left > 0 then throw .outOfBounds else return []
  | room + 1 => do
    let left ← bytesLeft
    if left > 0 then
      let qos ← readByte
      let rest ← readGranted room
      return qos.toNat :: rest
    else return []

/-- `_mosquitto_handle_suback`, which allocates `granted_qos` for the bytes that are
    left. -/
def handleSuback (b : ReadBuffer) (c : Client) : Handling :=
  onFields (do
      let mid ← readUint16
      let qosCount ← bytesLeft
      let grantedQos ← readGranted qosCount
      return (mid, grantedQos)) b c
    fun (mid, grantedQos) => (none, c.call (.onSubscribe mid grantedQos))

/-- `_mosquitto_handle_unsuback`. -/
def handleUnsuback (b : ReadBuffer) (c : Client) : Handling :=
  onFields readUint16 b c fun mid => (none, c.call (.onUnsubscribe mid))

/-- `_mosquitto_packet_handle`. -/
def packetHandle (now : ℕ) (b : ReadBuffer) (c : Client) : Handling :=
  let kind := b.command &&& 0xF0
  if kind = pingreq then handlePingreq c
  else if kind = pingresp then handlePingresp c
  else if kind = puback then handlePubackcomp b c
  else if kind = pubcomp then handlePubackcomp b c
  else if kind = publish then handlePublish now b c
  else if kind = pubrec then handlePubrec now b c
  else if kind = pubrel then handlePubrel b c
  else if kind = connack then handleConnack b c
  else if kind = suback then handleSuback b c
  else if kind = unsuback then handleUnsuback b c
  else some (some .protocol, c)

/-! ## Reading the fields -/

section Fields

variable {α : Type} {b : ReadBuffer} {bytes : Bytes} {c : Client}

theorem ReadBuffer.WellFormed.unread (h : b.WellFormed) : Unread b b.payload where
  length_payload := h.length_payload
  pos_le := by rw [h.pos_eq]; omega
  drop_eq := by rw [h.pos_eq, List.drop_zero]

/-- A handler acts on what it takes from the unread bytes. -/
theorem onFields_eq {m : PacketM α} {f : Bytes → Option (α × Bytes)} (hm : Reads m f)
    (hb : Unread b bytes) (act : α → Option MosqErr × Client) :
    onFields m b c act = some (match f bytes with
      | some (a, _) => act a
      | none => (some .protocol, c)) := by
  have hreads := hm b bytes hb
  unfold onFields
  cases hf : f bytes with
  | none =>
    rw [hf] at hreads
    have he : m b = .error (.err .protocol) := hreads
    rw [he]
  | some r =>
    rw [hf] at hreads
    obtain ⟨b', he, -⟩ := hreads
    rw [he]

theorem readRest_reads : Reads readRest fun bytes => some (bytes, []) := by
  have hrest : ∀ n, Reads (if n ≠ 0 then readBytes n else pure []) fun bytes =>
      if n ≠ 0 then takeBytes n bytes else some ([], bytes) := by
    intro n
    split_ifs
    · exact readBytes_reads n
    · exact reads_pure []
  refine (bytesLeft_reads.bind hrest).congr fun bytes => ?_
  show (if bytes.length ≠ 0 then takeBytes bytes.length bytes else some ([], bytes)) = _
  split_ifs with hlen
  · simpa using takeBytes_append bytes []
  · rw [not_not] at hlen
    rw [List.eq_nil_of_length_eq_zero hlen]

/-- The message id and the payload of a PUBLISH. -/
def takeMidRest (qos : ℕ) (bytes : Bytes) : Option (ℕ × Bytes) :=
  if qos > 0 then takeUint16 bytes else some (0, bytes)

/-- The fields of a PUBLISH. -/
def takePublish (qos : ℕ) (bytes : Bytes) : Option ((Bytes × ℕ × Bytes) × Bytes) :=
  (takeString bytes).bind fun r =>
    if r.1 = [] then none
    else (takeMidRest qos r.2).map fun s => ((r.1, s.1, s.2), [])

theorem readPublish_reads (qos : ℕ) : Reads (readPublish qos) (takePublish qos) := by
  have hmid : Reads (if qos > 0 then readUint16 else pure 0) (takeMidRest qos) := by
    unfold takeMidRest
    split_ifs
    · exact readUint16_reads
    · exact reads_pure 0
  unfold readPublish takePublish
  refine readString_reads.bind (g := fun topic bytes =>
    if topic = [] then none
    else (takeMidRest qos bytes).map fun s => ((topic, s.1, s.2), [])) fun topic => ?_
  by_cases htopic : topic = []
  · rw [if_pos htopic]
    simp only [if_pos htopic]
    exact reads_throw
  · rw [if_neg htopic]
    simp only [if_neg htopic]
    refine (hmid.bind fun mid => readRest_reads.bind fun payload =>
      reads_pure (topic, mid, payload)).congr fun bytes => ?_
    cases takeMidRest qos bytes <;> rfl

/-- The loop lemma: `granted_qos` has room for every byte that is left. -/
theorem readGranted_readsAs {room : ℕ} (hb : Unread b bytes) (hroom : bytes.length ≤ room) :
    ReadsAs b.command (readGranted room b) (some (bytes.map UInt8.toNat, [])) := by
  induction room generalizing b bytes with
  | zero =>
    obtain rfl : bytes = [] := List.eq_nil_of_length_eq_zero (by omega)
    apply ReadsAs.bind (bytesLeft_reads b [] hb)
    exact fun b1 h1 => ⟨b1, rfl, h1, rfl⟩
  | succ room ih =>
    apply ReadsAs.bind (bytesLeft_reads b bytes hb)
    intro b1 h1
    cases bytes with
    | nil => exact ⟨b1, rfl, h1, rfl⟩
    | cons qos bytes =>
      apply ReadsAs.bind (readByte_reads b1 _ h1)
      intro b2 h2
      apply ReadsAs.bind (ih h2 (by simpa using hroom))
      exact fun b3 h3 => ⟨b3, rfl, h3, rfl⟩

/-- The fields of a CONNACK. -/
theorem readConnack_reads : Reads (do let _reserved ← readByte; readByte) fun bytes =>
    (takeByte bytes).bind fun r => takeByte r.2 :=
  readByte_reads.bind (g := fun _ => takeByte) fun _ => readByte_reads

/-- The fields of a SUBACK. -/
theorem readSuback_reads : Reads (do
      let mid ← readUint16
      let qosCount ← bytesLeft
      let grantedQos ← readGranted qosCount
      return (mid, grantedQos))
    fun bytes => (takeUint16 bytes).map fun r => ((r.1, r.2.map UInt8.toNat), []) := by
  have hgranted : ∀ mid : ℕ, Reads (do
      let qosCount ← bytesLeft
      let grantedQos ← readGranted qosCount
      return (mid, grantedQos)) fun bytes => some ((mid, bytes.map UInt8.toNat), []) := by
    intro mid b bytes hb
    apply ReadsAs.bind (bytesLeft_reads b bytes hb)
    intro b1 h1
    apply ReadsAs.bind (readGranted_readsAs h1 le_rfl)
    exact fun b2 h2 => ⟨b2, rfl, h2, rfl⟩
  refine (readUint16_reads.bind hgranted).congr fun bytes => ?_
  cases takeUint16 bytes <;> rfl

end Fields

/-! ## The invariant of the client -/

/-- A message that may be handed to `on_message`. -/
structure Message.Received (m : Message) : Prop where
  topic_ne : m.topic ≠ []
  zero_notMem : (0 : Byte) ∉ m.topic
  qos_le : m.qos ≤ 2

/-- What holds of the client whatever it receives. -/
structure Client.Ok (c : Client) : Prop where
  inMessages : ∀ m ∈ c.inMessages, m.Received ∧ m.qos = 2 ∧ m.state = .waitForPubrel
  inQueueLen_eq : c.inQueueLen = c.inMessages.length
  outQueueLen_eq : c.outQueueLen = c.outMessages.length
  inflight_le : c.maxInflightMessages = 0 ∨ c.inflightMessages ≤ c.maxInflightMessages
  delivered : ∀ m, .onMessage m ∈ c.callbacks → m.Received

theorem Client.initial_ok : Client.initial.Ok where
  inMessages := by simp [Client.initial]
  inQueueLen_eq := rfl
  outQueueLen_eq := rfl
  inflight_le := .inr (by decide)
  delivered := by simp [Client.initial]

section Invariant

variable {c : Client}

theorem Client.Ok.withOutPackets (h : c.Ok) (ps : List Outgoing) :
    { c with outPackets := ps }.Ok :=
  ⟨h.inMessages, h.inQueueLen_eq, h.outQueueLen_eq, h.inflight_le, h.delivered⟩

theorem Client.Ok.send (h : c.Ok) (o : Outgoing) : (c.send o).2.Ok := by
  obtain ⟨ps, he⟩ := c.send_snd o
  rw [he]
  exact h.withOutPackets ps

theorem Client.Ok.call (h : c.Ok) {f : CallbackCall} (hf : ∀ m, f = .onMessage m → m.Received) :
    (c.call f).Ok := by
  refine ⟨h.inMessages, h.inQueueLen_eq, h.outQueueLen_eq, h.inflight_le, fun m hm => ?_⟩
  rcases List.mem_append.1 hm with hm | hm
  · exact h.delivered m hm
  · exact hf m (List.mem_singleton.1 hm).symm

theorem Client.Ok.messageQueueIn (h : c.Ok) {m : Message} (hm : m.Received) (hqos : m.qos = 2)
    (hstate : m.state = .waitForPubrel) : (c.messageQueueIn m).Ok := by
  refine ⟨fun m' hm' => ?_, ?_, h.outQueueLen_eq, h.inflight_le, h.delivered⟩
  · rcases List.mem_append.1 hm' with hm' | hm'
    · exact h.inMessages m' hm'
    · rw [List.mem_singleton.1 hm']
      exact ⟨hm, hqos, hstate⟩
  · show c.inQueueLen + 1 = ((c.inMessages ++ [m]).length : ℤ)
    rw [h.inQueueLen_eq, List.length_append]
    rfl

theorem Client.Ok.messageRemoveIn (h : c.Ok) {mid : ℕ} {m : Message} {c' : Client}
    (he : c.messageRemoveIn mid = some (m, c')) : c'.Ok ∧ m.Received := by
  unfold Client.messageRemoveIn at he
  cases htake : takeMid mid c.inMessages with
  | none => simp [htake] at he
  | some r =>
    obtain ⟨cur, rest⟩ := r
    rw [htake] at he
    cases he
    obtain ⟨pre, post, hms, rfl, -, -⟩ := takeMid_eq_some htake
    refine ⟨⟨fun m' hm' => ?_, ?_, h.outQueueLen_eq, h.inflight_le, h.delivered⟩, ?_⟩
    · apply h.inMessages
      rw [hms]
      simp only [List.mem_append, List.mem_cons] at hm' ⊢
      tauto
    · show c.inQueueLen - 1 = ((pre ++ post).length : ℤ)
      rw [h.inQueueLen_eq, hms]
      simp only [List.length_append, List.length_cons]
      omega
    · exact (h.inMessages m (by rw [hms]; simp)).1

theorem Client.Ok.messageRemoveOut (h : c.Ok) (mid : ℕ) : (c.messageRemoveOut mid).2.Ok := by
  unfold Client.messageRemoveOut
  cases htake : takeMid mid c.outMessages with
  | none => exact h
  | some r =>
    obtain ⟨cur, rest⟩ := r
    obtain ⟨pre, post, hms, rfl, -, -⟩ := takeMid_eq_some htake
    dsimp only
    obtain ⟨inflight, ps, he, hlen, hinflight⟩ := Client.startWaiting_spec (pre ++ post)
      { c with
        outQueueLen := c.outQueueLen - 1
        inflightMessages := if cur.qos > 0 then c.inflightMessages - 1 else c.inflightMessages }
    rw [he]
    refine ⟨h.inMessages, h.inQueueLen_eq, ?_, ?_, h.delivered⟩
    · show c.outQueueLen - 1 = _
      rw [hlen, h.outQueueLen_eq, hms]
      simp only [List.length_append, List.length_cons]
      omega
    · apply hinflight
      rcases h.inflight_le with hmax | hle
      · exact .inl hmax
      · right
        dsimp only
        split_ifs <;> omega

theorem Client.Ok.messageOutUpdate (h : c.Ok) (mid : ℕ) (state : MsgState) (now : ℕ) :
    (c.messageOutUpdate mid state now).2.Ok := by
  unfold Client.messageOutUpdate
  cases c.outMessages.findIdx? (·.mid = mid) with
  | none => exact h
  | some i =>
    refine ⟨h.inMessages, h.inQueueLen_eq, ?_, h.inflight_le, h.delivered⟩
    show c.outQueueLen = ((c.outMessages.modify i _).length : ℤ)
    rw [List.length_modify]
    exact h.outQueueLen_eq

theorem Client.Ok.receiveMessage (h : c.Ok) {m : Message} (ht : m.topic ≠ [])
    (h0 : (0 : Byte) ∉ m.topic) : (receiveMessage m c).2.Ok := by
  unfold TrackerDemo.Mosquitto.receiveMessage
  split_ifs with hq0 hq1 hq2
  · refine h.call fun m' he => ?_
    cases he
    exact ⟨ht, h0, by omega⟩
  · refine (h.send _).call fun m' he => ?_
    cases he
    exact ⟨ht, h0, by omega⟩
  · exact (h.send _).messageQueueIn ⟨ht, h0, hq2.le⟩ hq2 rfl
  · exact h

theorem takePublish_topic {qos mid : ℕ} {bytes rest topic payload : Bytes}
    (h : takePublish qos bytes = some ((topic, mid, payload), rest)) :
    topic ≠ [] ∧ (0 : Byte) ∉ topic := by
  unfold takePublish takeString at h
  cases hword : takeUint16 bytes with
  | none => simp [hword] at h
  | some r =>
    cases hstr : takeBytes r.1 r.2 with
    | none => simp [hword, hstr] at h
    | some s =>
      simp only [hword, hstr, Option.bind_some, Option.map_some] at h
      split_ifs at h with hne
      cases hmid : takeMidRest qos s.2 with
      | none => simp [hmid] at h
      | some t =>
        simp only [hmid, Option.map_some, Option.some.injEq, Prod.mk.injEq] at h
        obtain ⟨⟨rfl, -⟩, -⟩ := h
        exact ⟨hne, zero_notMem_cString _⟩

/-- What a handler leaves, when its fields are read. -/
theorem Client.Ok.onFields {α : Type} {m : PacketM α} {f : Bytes → Option (α × Bytes)}
    {b : ReadBuffer} (hm : Reads m f) (hb : b.WellFormed) (h : c.Ok)
    {act : α → Option MosqErr × Client}
    (hact : ∀ a rest, f b.payload = some (a, rest) → (act a).2.Ok) :
    ∃ rc c', onFields m b c act = some (rc, c') ∧ c'.Ok := by
  rw [onFields_eq hm hb.unread]
  cases hf : f b.payload with
  | none => exact ⟨_, _, rfl, h⟩
  | some r => exact ⟨_, _, rfl, hact r.1 r.2 hf⟩

/-- The step lemma: one packet. -/
theorem Client.Ok.packetHandle (h : c.Ok) (now : ℕ) {b : ReadBuffer} (hb : b.WellFormed) :
    ∃ rc c', packetHandle now b c = some (rc, c') ∧ c'.Ok := by
  unfold TrackerDemo.Mosquitto.packetHandle
  have hpuback : ∃ rc c', handlePubackcomp b c = some (rc, c') ∧ c'.Ok := by
    refine h.onFields readUint16_reads hb fun mid _ _ => ?_
    have hremove := h.messageRemoveOut mid
    generalize c.messageRemoveOut mid = out at hremove ⊢
    obtain ⟨_ | rc, c'⟩ := out
    · exact hremove.call (by simp)
    · exact hremove
  dsimp only
  split_ifs
  · exact ⟨_, _, rfl, h.withOutPackets _⟩
  · exact ⟨_, _, rfl, ⟨h.inMessages, h.inQueueLen_eq, h.outQueueLen_eq, h.inflight_le, h.delivered⟩⟩
  · exact hpuback
  · exact hpuback
  · refine h.onFields (readPublish_reads _) hb fun r rest hr => ?_
    obtain ⟨topic, mid, payload⟩ := r
    obtain ⟨hne, h0⟩ := takePublish_topic hr
    exact h.receiveMessage hne h0
  · refine h.onFields readUint16_reads hb fun mid _ _ => ?_
    have hupdate := h.messageOutUpdate mid .waitForPubcomp now
    generalize c.messageOutUpdate mid .waitForPubcomp now = out at hupdate ⊢
    obtain ⟨_ | rc, c'⟩ := out
    · exact hupdate.send _
    · cases rc with
      | notFound => exact hupdate.send _
      | _ => exact hupdate
  · unfold handlePubrel
    split_ifs
    · exact ⟨_, _, rfl, h⟩
    · refine h.onFields readUint16_reads hb fun mid _ _ => ?_
      split
      next message c' he =>
        obtain ⟨hok, hreceived⟩ := h.messageRemoveIn he
        refine (hok.call fun m hm => ?_).send _
        cases hm
        exact hreceived
      next => exact h.send _
  · refine h.onFields readConnack_reads hb fun result _ _ => ?_
    have hcall : (c.call (.onConnect result.toNat)).Ok := h.call (by simp)
    dsimp only
    split_ifs
    · exact ⟨hcall.inMessages, hcall.inQueueLen_eq, hcall.outQueueLen_eq, hcall.inflight_le,
        hcall.delivered⟩
    · exact hcall
    · exact hcall
    · exact hcall
  · exact h.onFields readSuback_reads hb fun r _ _ => h.call (by simp)
  · exact h.onFields readUint16_reads hb fun mid _ _ => h.call (by simp)
  · exact ⟨_, _, rfl, h⟩

end Invariant

end TrackerDemo.Mosquitto

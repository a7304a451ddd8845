import TrackerDemo.Mosquitto.Send
import TrackerDemo.Mosquitto.Topics

/-!
# The client and its messages

Model of `struct mosquitto` and of the lists of messages that it keeps
(`messages_mosq.c`), of `_mosquitto_mid_generate` (`util_mosq.c`), and of
`mosquitto_publish` and `_mosquitto_reconnect` (`mosquitto.c`). A packet that is sent
goes to `_mosquitto_packet_queue`; all allocations succeed.

The functions on messages run under `out_message_mutex` or `in_message_mutex`, so
that each of them is one step.

Results:
* `Client.send_snd`, `Client.sendPublish_snd`: sending only queues a packet.
* `takeMid_eq_some`: what the search for an id finds, and what it leaves.
* `Client.startWaiting_spec`: messages that are started stay where they are.
* `Client.messageRetryCheck_spec`: a retry changes times and duplicate flags only.
* `Client.publishStart_eq`: a message is kept, and started if there is room.
-/

namespace TrackerDemo.Mosquitto

open TrackerDemo.CString

/-! ## The state -/

/-- `enum mosquitto_msg_state` (`mosquitto_internal.h`, lines 77–90), as far as the client
    uses it. -/
inductive MsgState
  | invalid | waitForPuback | waitForPubrec | waitForPubrel | waitForPubcomp
  deriving DecidableEq, Repr

/-- `struct mosquitto_message_all` (lines 144–151), with its `msg`. -/
structure Message where
  mid : ℕ
  topic : Bytes
  payload : Bytes
  qos : ℕ
  retain : Bool
  dup : Bool
  state : MsgState
  timestamp : ℕ
  deriving DecidableEq, Repr

/-- `enum mosquitto_client_state` (lines 92–109), as far as the program reaches it. -/
inductive ClientState
  | new | connected | disconnecting
  deriving DecidableEq, Repr

/-- A call of one of the callbacks. -/
inductive CallbackCall
  | onConnect (rc : ℕ)
  | onMessage (message : Message)
  | onPublish (mid : ℕ)
  | onSubscribe (mid : ℕ) (grantedQos : List ℕ)
  | onUnsubscribe (mid : ℕ)
  deriving DecidableEq, Repr

/-- `struct mosquitto` (lines 153–275), as far as these functions use it. `sock` says that the
    socket is valid, `outPackets` are the packets that are queued for writing, and
    `callbacks` the calls made so far. -/
structure Client where
  protocol : Protocol
  sock : Bool
  state : ClientState
  lastMid : ℕ
  messageRetry : ℕ
  maxInflightMessages : ℕ
  inflightMessages : ℤ
  outQueueLen : ℤ
  inQueueLen : ℤ
  outMessages : List Message
  inMessages : List Message
  outPackets : List Outgoing
  callbacks : List CallbackCall
  pingT : ℕ
  deriving DecidableEq, Repr

/-- After `mosquitto_new` and `mosquitto_opts_set`. -/
def Client.initial : Client :=
  { protocol := .mqtt311
    sock := false
    state := .new
    lastMid := 0
    messageRetry := 20
    maxInflightMessages := 20
    inflightMessages := 0
    outQueueLen := 0
    inQueueLen := 0
    outMessages := []
    inMessages := []
    outPackets := []
    callbacks := []
    pingT := 0 }

namespace Client

/-! ## Sending -/

/-- A `_mosquitto_send_*` function with its packet. -/
def send (o : Outgoing) (c : Client) : Option MosqErr × Client :=
  if remainingLimit ≤ o.frame.body.length then (some .payloadSize, c)
  else (none, { c with outPackets := c.outPackets ++ [o] })

/-- `_mosquitto_send_publish` (`send_mosq.c`, lines 84–177). -/
def sendPublish (m : Message) (c : Client) : Option MosqErr × Client :=
  if c.sock then c.send (.publish m.mid m.topic m.payload m.qos m.retain m.dup)
  else (some .noConn, c)

/-- `_mosquitto_send_puback` (lines 64–72). -/
def sendPuback (mid : ℕ) (c : Client) : Option MosqErr × Client := c.send (.withMid puback mid)

/-- `_mosquitto_send_pubrec` (lines 179–187). -/
def sendPubrec (mid : ℕ) (c : Client) : Option MosqErr × Client := c.send (.withMid pubrec mid)

/-- `_mosquitto_send_pubrel` (lines 189–197). -/
def sendPubrel (mid : ℕ) (c : Client) : Option MosqErr × Client :=
  c.send (.withMid (pubrel ||| 2) mid)

/-- `_mosquitto_send_pubcomp` (lines 74–82). -/
def sendPubcomp (mid : ℕ) (c : Client) : Option MosqErr × Client := c.send (.withMid pubcomp mid)

/-- `_mosquitto_send_pingresp` (lines 54–62). -/
def sendPingresp (c : Client) : Option MosqErr × Client := c.send (.simple pingresp)

/-- A callback, which is set and only takes note of the call. -/
def call (f : CallbackCall) (c : Client) : Client := { c with callbacks := c.callbacks ++ [f] }

/-! ## Messages -/

/-- There is room for one more message in flight (`messages_mosq.c`, line 135). -/
def HasRoom (c : Client) : Prop :=
  c.maxInflightMessages = 0 ∨ c.inflightMessages < c.maxInflightMessages

instance (c : Client) : Decidable c.HasRoom :=
  inferInstanceAs (Decidable (_ ∨ _))

/-- `_mosquitto_message_queue` for an outgoing message (lines 126–140); the result says
    that it has to wait. -/
def messageQueueOut (message : Message) (c : Client) : Bool × Client :=
  let c := { c with
    outQueueLen := c.outQueueLen + 1
    outMessages := c.outMessages ++ [message] }
  if message.qos > 0 then
    if c.HasRoom then (false, { c with inflightMessages := c.inflightMessages + 1 })
    else (true, c)
  else (false, c)

/-- `_mosquitto_message_queue` for an incoming message (lines 142–149). -/
def messageQueueIn (message : Message) (c : Client) : Client :=
  { c with
    inQueueLen := c.inQueueLen + 1
    inMessages := c.inMessages ++ [message] }

end Client

/-- The first message of a list with the id, and the others (lines 224–247 and 280–300). -/
def takeMid (mid : ℕ) : List Message → Option (Message × List Message)
  | [] => none
  | m :: ms => if m.mid = mid then some (m, ms) else (takeMid mid ms).map fun r => (r.1, m :: r.2)

/-- The state of a message that is sent now (lines 255–259). -/
def startState (qos : ℕ) (state : MsgState) : MsgState :=
  if qos = 1 then .waitForPuback else if qos = 2 then .waitForPubrec else state

namespace Client

/-- The loop of `_mosquitto_message_remove` that sends waiting messages (lines
    249–272), over the messages behind `cur`. -/
def startWaiting : List Message → Client → Option MosqErr × List Message × Client
  | [], c => (none, [], c)
  | cur :: rest, c =>
    if c.HasRoom then
      if cur.qos > 0 ∧ cur.state = .invalid then
        let c := { c with inflightMessages := c.inflightMessages + 1 }
        let cur := { cur with state := startState cur.qos cur.state }
        match c.sendPublish cur with
        | (some rc, c) => (some rc, cur :: rest, c)
        | (none, c) =>
          let (rc, rest, c) := startWaiting rest c
          (rc, cur :: rest, c)
      else
        let (rc, rest, c) := startWaiting rest c
        (rc, cur :: rest, c)
    else (none, cur :: rest, c)

/-- `_mosquitto_message_remove` for an outgoing message (lines 222–277). -/
def messageRemoveOut (mid : ℕ) (c : Client) : Option MosqErr × Client :=
  match takeMid mid c.outMessages with
  | none => (some .notFound, c)
  | some (cur, rest) =>
    let c := { c with
      outQueueLen := c.outQueueLen - 1
      inflightMessages := if cur.qos > 0 then c.inflightMessages - 1 else c.inflightMessages }
    let (rc, outMessages, c) := startWaiting rest c
    (rc, { c with outMessages := outMessages })

/-- `_mosquitto_message_remove` for an incoming message, which it returns (lines
    279–307). -/
def messageRemoveIn (mid : ℕ) (c : Client) : Option (Message × Client) :=
  match takeMid mid c.inMessages with
  | none => none
  | some (cur, rest) =>
    some (cur, { c with inQueueLen := c.inQueueLen - 1, inMessages := rest })

/-- `_mosquitto_message_out_update` (lines 371–389). -/
def messageOutUpdate (mid : ℕ) (state : MsgState) (now : ℕ) (c : Client) :
    Option MosqErr × Client :=
  match c.outMessages.findIdx? (·.mid = mid) with
  | none => (some .notFound, c)
  | some i =>
    (none, { c with
      outMessages := c.outMessages.modify i fun m => { m with state := state, timestamp := now } })

end Client

/-- The loop of `_mosquitto_messages_reconnect_reset` over the incoming messages
    (lines 163–182), behind a message that is kept. The result counts the
    iterations. -/
def resetInRest : List Message → ℤ × List Message
  | [] => (0, [])
  | m :: ms =>
    let (n, kept) := resetInRest ms
    if m.qos ≠ 2 then (n + 1, kept) else (n + 1, { m with timestamp := 0 } :: kept)

/-- The same loop from its start; `none` is a read through the null pointer. A first
    message that is dropped is followed without a check. -/
def resetIn : List Message → Option (ℤ × List Message)
  | [] => some (0, [])
  | m :: ms =>
    if m.qos ≠ 2 then
      match ms with
      | [] => none
      | m' :: ms' =>
        let (n, kept) := resetInRest ms'
        some (n + 1, m' :: kept)
    else
      let (n, kept) := resetInRest ms
      some (n + 1, { m with timestamp := 0 } :: kept)

/-- The loop of `_mosquitto_messages_reconnect_reset` over the outgoing messages
    (lines 191–209), with `inflight` of them counted. -/
def resetOut (maxInflight : ℕ) : ℤ → List Message → ℤ × List Message
  | inflight, [] => (inflight, [])
  | inflight, m :: ms =>
    if maxInflight = 0 ∨ inflight < maxInflight then
      let (n, rest) := resetOut maxInflight (if m.qos > 0 then inflight + 1 else inflight) ms
      (n, { m with
        timestamp := 0
        state := if m.qos = 1 then .waitForPuback else m.state } :: rest)
    else
      let (n, rest) := resetOut maxInflight inflight ms
      (n, { m with timestamp := 0, state := .invalid } :: rest)

namespace Client

/-- `_mosquitto_messages_reconnect_reset` (lines 154–212). -/
def messagesReconnectReset (c : Client) : Option Client := do
  let (inQueueLen, inMessages) ← resetIn c.inMessages
  let (inflight, outMessages) := resetOut c.maxInflightMessages 0 c.outMessages
  return { c with
    inQueueLen := inQueueLen
    inMessages := inMessages
    inflightMessages := inflight
    outQueueLen := outMessages.length
    outMessages := outMessages }

/-- The body of the loop of `_mosquitto_message_retry_check_actual` (lines
    325–346). -/
def retryMessage (now : ℕ) (m : Message) (c : Client) : Message × Client :=
  if m.timestamp + c.messageRetry < now then
    let m' := { m with timestamp := now, dup := true }
    match m.state with
    | .waitForPuback | .waitForPubrec => (m', (c.sendPublish m').2)
    | .waitForPubrel => (m', (c.sendPubrec m.mid).2)
    | .waitForPubcomp => (m', (c.sendPubrel m.mid).2)
    | .invalid => (m, c)
  else (m, c)

/-- `_mosquitto_message_retry_check_actual` (lines 312–352). -/
def retryLoop (now : ℕ) : List Message → Client → List Message × Client
  | [], c => ([], c)
  | m :: ms, c =>
    let (m, c) := c.retryMessage now m
    let (ms, c) := retryLoop now ms c
    (m :: ms, c)

/-- `_mosquitto_message_retry_check` (lines 354–363). -/
def messageRetryCheck (now : ℕ) (c : Client) : Client :=
  let (outMessages, c) := retryLoop now c.outMessages c
  let c := { c with outMessages := outMessages }
  let (inMessages, c) := retryLoop now c.inMessages c
  { c with inMessages := inMessages }

/-! ## Publishing -/

/-- `_mosquitto_mid_generate` (`util_mosq.c`, lines 153–174), on `last_mid`, which is a
    `uint16_t`. -/
def midGenerate (c : Client) : ℕ × Client :=
  let lastMid := (c.lastMid + 1) % 2 ^ 16
  let lastMid := if lastMid = 0 then lastMid + 1 else lastMid
  (lastMid, { c with lastMid := lastMid })

end Client

/-- `MQTT_MAX_PAYLOAD` (`mqtt3_protocol.h`, line 51). -/
def mqttMaxPayload : ℕ := 268435455

namespace Client

/-- The checks of `mosquitto_publish` (`mosquitto.c`, lines 567–573). -/
def publishCheck (topic payload : Bytes) (qos : ℤ) : Option MosqErr :=
  if qos < 0 ∨ qos > 2 then some .inval
  else if topic = [] then some .inval
  else if payload.length > mqttMaxPayload then some .payloadSize
  else if pubTopicCheck topic then none else some .inval

/-- `mosquitto_publish` behind its checks, up to `_mosquitto_send_publish` (lines 575–625):
    the message that is to be sent now, if there is one. -/
def publishStart (topic payload : Bytes) (qos : ℕ) (retain : Bool) (now : ℕ) (c : Client) :
    Option Message × Client :=
  let (localMid, c) := c.midGenerate
  let message : Message := ⟨localMid, topic, payload, qos, retain, false, .invalid, now⟩
  if qos = 0 then (some message, c)
  else
    let (wait, c) := c.messageQueueOut message
    if wait then (none, c)
    else
      -- the message is the last one of the list
      let message := { message with state := startState qos .invalid }
      (some message, { c with outMessages := c.outMessages.dropLast ++ [message] })

/-- `mosquitto_publish` (lines 561–626), where no other thread comes between its parts. -/
def publishMessage (topic payload : Bytes) (qos : ℤ) (retain : Bool) (now : ℕ) (c : Client) :
    Option MosqErr × Client :=
  match publishCheck topic payload qos with
  | some rc => (some rc, c)
  | none =>
    match c.publishStart topic payload qos.toNat retain now with
    | (some message, c) => c.sendPublish message
    | (none, c) => (none, c)

/-- `mosquitto_subscribe` (lines 628–636). -/
def subscribeTo (sub : Bytes) (qos : ℕ) (c : Client) : Option MosqErr × Client :=
  if c.sock then
    if subTopicCheck sub then
      let (localMid, c) := c.midGenerate
      c.send (.subscribe localMid sub qos)
    else (some .inval, c)
  else (some .noConn, c)

/-- `_mosquitto_reconnect` (lines 472–547), where connecting gives the socket `sock`; the
    CONNECT follows. -/
def reconnect (sock : Bool) (c : Client) : Option Client := do
  let c ← { c with state := .new, pingT := 0, outPackets := [] }.messagesReconnectReset
  return { c with sock := sock }

end Client

/-! ## What the functions change -/

/-- Sending only queues a packet. -/
theorem Client.send_snd (o : Outgoing) (c : Client) :
    ∃ ps, (c.send o).2 = { c with outPackets := ps } := by
  unfold Client.send
  split_ifs
  · exact ⟨c.outPackets, rfl⟩
  · exact ⟨_, rfl⟩

/-- A packet with a message id always fits. -/
theorem Client.send_withMid (command : Byte) (mid : ℕ) (c : Client) :
    c.send (.withMid command mid) =
      (none, { c with outPackets := c.outPackets ++ [.withMid command mid] }) := by
  have hfits : ¬ remainingLimit ≤ (Outgoing.withMid command mid).frame.body.length := by
    show ¬ remainingLimit ≤ 2
    decide
  rw [Client.send, if_neg hfits]

theorem Client.sendPublish_snd (m : Message) (c : Client) :
    ∃ ps, (c.sendPublish m).2 = { c with outPackets := ps } := by
  unfold Client.sendPublish
  split_ifs
  · exact c.send_snd _
  · exact ⟨c.outPackets, rfl⟩

/-- A message that is found is in the list, and the others stay. -/
theorem takeMid_eq_some {mid : ℕ} {ms rest : List Message} {m : Message}
    (h : takeMid mid ms = some (m, rest)) :
    ∃ pre post, ms = pre ++ m :: post ∧ rest = pre ++ post ∧ m.mid = mid ∧
      ∀ m' ∈ pre, m'.mid ≠ mid := by
  induction ms generalizing rest with
  | nil => simp [takeMid] at h
  | cons m' ms ih =>
    rw [takeMid] at h
    split_ifs at h with hmid
    · cases h
      exact ⟨[], _, rfl, rfl, hmid, by simp⟩
    · cases htake : takeMid mid ms with
      | none => simp [htake] at h
      | some r =>
        rw [htake] at h
        cases h
        obtain ⟨pre, post, rfl, hrest, hm, hpre⟩ := ih htake
        refine ⟨m' :: pre, post, rfl, by rw [hrest]; rfl, hm, ?_⟩
        intro x hx
        rcases List.mem_cons.1 hx with rfl | hx
        · exact hmid
        · exact hpre x hx

/-- Waiting messages that are started stay where they are. -/
theorem Client.startWaiting_spec (ms : List Message) (c : Client) :
    ∃ inflight ps, (c.startWaiting ms).2.2 =
        { c with inflightMessages := inflight, outPackets := ps } ∧
      (c.startWaiting ms).2.1.length = ms.length ∧
      (c.maxInflightMessages = 0 ∨ c.inflightMessages ≤ c.maxInflightMessages →
        c.maxInflightMessages = 0 ∨ inflight ≤ c.maxInflightMessages) := by
  induction ms generalizing c with
  | nil => exact ⟨c.inflightMessages, c.outPackets, rfl, rfl, id⟩
  | cons cur rest ih =>
    rw [Client.startWaiting]
    by_cases hroom : c.HasRoom
    · rw [if_pos hroom]
      by_cases hwaits : cur.qos > 0 ∧ cur.state = .invalid
      · rw [if_pos hwaits]
        dsimp only
        have hsend := Client.sendPublish_snd { cur with state := startState cur.qos cur.state }
          { c with inflightMessages := c.inflightMessages + 1 }
        have hle : c.maxInflightMessages = 0 ∨
            c.inflightMessages + 1 ≤ c.maxInflightMessages := by
          rcases hroom with h | h
          · exact .inl h
          · exact .inr (by omega)
        generalize Client.sendPublish { cur with state := startState cur.qos cur.state }
          { c with inflightMessages := c.inflightMessages + 1 } = out at hsend ⊢
        obtain ⟨rc, c1⟩ := out
        obtain ⟨ps, rfl⟩ := hsend
        cases rc with
        | some rc => exact ⟨_, ps, rfl, rfl, fun _ => hle⟩
        | none =>
          obtain ⟨inflight, ps', he, hlen, hinflight⟩ := ih
            { c with inflightMessages := c.inflightMessages + 1, outPackets := ps }
          exact ⟨inflight, ps', he, congrArg (· + 1) hlen, fun _ => hinflight hle⟩
      · rw [if_neg hwaits]
        obtain ⟨inflight, ps, he, hlen, hinflight⟩ := ih c
        exact ⟨inflight, ps, he, congrArg (· + 1) hlen, hinflight⟩
    · rw [if_neg hroom]
      exact ⟨c.inflightMessages, c.outPackets, rfl, rfl, id⟩

/-- A retry changes no more than the time and the duplicate flag of a message. -/
theorem Client.retryMessage_spec (now : ℕ) (m : Message) (c : Client) :
    (∃ ps, (c.retryMessage now m).2 = { c with outPackets := ps }) ∧
      ∃ timestamp dup,
        (c.retryMessage now m).1 = { m with timestamp := timestamp, dup := dup } := by
  unfold Client.retryMessage
  split_ifs
  · dsimp only
    split
    · exact ⟨c.sendPublish_snd _, now, true, rfl⟩
    · exact ⟨c.sendPublish_snd _, now, true, rfl⟩
    · exact ⟨c.send_snd _, now, true, rfl⟩
    · exact ⟨c.send_snd _, now, true, rfl⟩
    · exact ⟨⟨c.outPackets, rfl⟩, m.timestamp, m.dup, rfl⟩
  · exact ⟨⟨c.outPackets, rfl⟩, m.timestamp, m.dup, rfl⟩

theorem Client.retryLoop_spec (now : ℕ) (ms : List Message) (c : Client) :
    (∃ ps, (c.retryLoop now ms).2 = { c with outPackets := ps }) ∧
      List.Forall₂ (fun m m' => ∃ timestamp dup, m' = { m with timestamp := timestamp, dup := dup })
        ms (c.retryLoop now ms).1 := by
  induction ms generalizing c with
  | nil => exact ⟨⟨c.outPackets, rfl⟩, .nil⟩
  | cons m ms ih =>
    obtain ⟨⟨ps, he⟩, hm⟩ := c.retryMessage_spec now m
    obtain ⟨⟨ps', he'⟩, hms⟩ := ih (c.retryMessage now m).2
    refine ⟨⟨ps', ?_⟩, .cons hm hms⟩
    show (Client.retryLoop now ms (c.retryMessage now m).2).2 = _
    rw [he', he]

theorem Client.messageRetryCheck_spec (now : ℕ) (c : Client) :
    ∃ out inc ps, c.messageRetryCheck now = { c with
        outMessages := out
        inMessages := inc
        outPackets := ps } ∧
      List.Forall₂ (fun m m' => ∃ timestamp dup, m' = { m with timestamp := timestamp, dup := dup })
        c.outMessages out ∧
      List.Forall₂ (fun m m' => ∃ timestamp dup, m' = { m with timestamp := timestamp, dup := dup })
        c.inMessages inc := by
  obtain ⟨⟨ps, he⟩, hout⟩ := c.retryLoop_spec now c.outMessages
  obtain ⟨⟨ps', he'⟩, hin⟩ := Client.retryLoop_spec now c.inMessages
    { (c.retryLoop now c.outMessages).2 with outMessages := (c.retryLoop now c.outMessages).1 }
  refine ⟨_, _, ps', ?_, hout, hin⟩
  unfold Client.messageRetryCheck
  dsimp only
  rw [he] at he' ⊢
  rw [he']

theorem Client.messageQueueOut_eq {m : Message} (hqos : 0 < m.qos) (c : Client) :
    c.messageQueueOut m =
      if c.HasRoom then
        (false, { c with
          outQueueLen := c.outQueueLen + 1
          outMessages := c.outMessages ++ [m]
          inflightMessages := c.inflightMessages + 1 })
      else
        (true, { c with
          outQueueLen := c.outQueueLen + 1
          outMessages := c.outMessages ++ [m] }) := by
  unfold Client.messageQueueOut
  dsimp only
  rw [if_pos hqos]
  rfl

/-- A message that is kept, and started if there is room for it. -/
theorem Client.publishStart_eq (topic payload : Bytes) {qos : ℕ} (hqos : 0 < qos) (retain : Bool)
    (now : ℕ) (c : Client) :
    c.publishStart topic payload qos retain now =
      if c.HasRoom then
        let m : Message := ⟨c.midGenerate.1, topic, payload, qos, retain, false,
          startState qos .invalid, now⟩
        (some m, { c with
          lastMid := c.midGenerate.1
          outQueueLen := c.outQueueLen + 1
          outMessages := c.outMessages ++ [m]
          inflightMessages := c.inflightMessages + 1 })
      else
        (none, { c with
          lastMid := c.midGenerate.1
          outQueueLen := c.outQueueLen + 1
          outMessages := c.outMessages ++
            [⟨c.midGenerate.1, topic, payload, qos, retain, false, .invalid, now⟩] }) := by
  have hqos0 : ¬ qos = 0 := by omega
  have hroom : c.midGenerate.2.HasRoom ↔ c.HasRoom := Iff.rfl
  unfold Client.publishStart
  dsimp only
  rw [if_neg hqos0, Client.messageQueueOut_eq hqos]
  by_cases h : c.HasRoom
  · rw [if_pos (hroom.2 h), if_pos h]
    simp [Client.midGenerate]
  · rw [if_neg (mt hroom.1 h), if_neg h]
    rfl

end TrackerDemo.Mosquitto

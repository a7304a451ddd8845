import TrackerDemo.Mosquitto.Received
import TrackerDemo.Mqtt.FlatMessages

/-!
# Stow commands over the network

From the bytes of a connection to the command variables: the library reads the
packets and calls `MQTT_callback_message` for each message, and that parses the
payload (`mosquittoClient.c`, lines 235–303). The other callbacks of the program do
nothing (lines 220–233).

Results:
* `callbackWrites_flat`: a flat message assigns what its pairs say.
* `stowCommands_session`: after a session the commands have the values of the last
  members that name them.
-/

namespace TrackerDemo.Mqtt

open TrackerDemo.CString TrackerDemo.Jsmn TrackerDemo.Json TrackerDemo.Mosquitto

/-- What a call of `MQTT_callback_message` finds in memory: the bytes behind
    `JSONMsg`, and the array `tokens`. -/
structure CallbackMemory where
  after : Bytes
  tokens0 : Tokens

/-- A call of one of the program's callbacks. -/
def runCallback (memory : CallbackMemory) (call : CallbackCall) (cmds : StowCmds) :
    Option StowCmds :=
  match call with
  | .onMessage message => mqttCallbackMessage message.payload memory.after memory.tokens0 cmds
  | .onConnect _ | .onPublish _ | .onSubscribe _ _ | .onUnsubscribe _ => some cmds

/-- Some calls, each with the memory it finds. -/
def runCallbacks : List (CallbackMemory × CallbackCall) → StowCmds → Option StowCmds
  | [], cmds => some cmds
  | (memory, call) :: calls, cmds => (runCallback memory call cmds).bind (runCallbacks calls)

/-- A message with a flat object in its payload, or in its payload and the memory
    behind `JSONMsg`, with a NUL at its end. -/
structure CommandMessage where
  message : Message
  memory : CallbackMemory
  members : List Member
  flat : ∀ m ∈ members, FlatMember m
  fewMembers : members.length ≤ 4
  text : ∃ w e w' rest, Blank w ∧ Blank e ∧ Blank w' ∧
    message.payload ++ memory.after = objectText w e w' members ++ 0 :: rest

/-- The pairs of a flat message are its members. -/
theorem callbackWrites_flat (m : CommandMessage) :
    mqttCallbackWrites m.message.payload m.memory.after m.memory.tokens0 =
      some (readPairs (memberLexemes m.members)) := by
  obtain ⟨w, e, w', rest, hw, he, hw', hnul⟩ := m.text
  have hlength := length_memberLexemes m.flat
  have hlen := m.fewMembers
  have hd := derives_objectText hw he hw' fun x hx => (m.flat x hx).valid
  have htext : cString (memoryFrom m.message.payload m.memory.after) =
      objectText w e w' m.members := by
    rw [cString_memoryFrom_eq, hnul, cString_append_zero hd.zero_notMem]
  have hls : lexemes maxJsonTokens (objectText w e w' m.members) =
      some (lexemeOf .object :: memberLexemes m.members) := by
    rw [lexemes_of_derives hd]
    · rfl
    · rw [memberLexemes, List.length_map] at hlength
      rw [List.length_cons, hlength, maxJsonTokens]
      omega
  rw [mqttCallbackWrites_eq, htext, hls]
  show decode _ (memberLexemes m.members) = _
  apply decode_eq_readPairs (short_memberLexemes m.flat)
  intro hodd
  omega

/-- The values that the members of some messages assign, the last one last. -/
def commandsAfter (members : List Member) (cmds : StowCmds) : StowCmds :=
  fun c => ((lastPrimitive (StowCmd.key c) members).map atoi).getD (cmds c)

/-- The step lemma: one message. -/
theorem runCallback_message (m : CommandMessage) (now : ℕ) (cmds : StowCmds) :
    runCallback m.memory (.onMessage (m.message.received now)) cmds =
      some (commandsAfter m.members cmds) := by
  show (mqttCallbackWrites m.message.payload m.memory.after m.memory.tokens0).map _ = _
  rw [callbackWrites_flat, Option.map_some]
  congr 1
  funext c
  rw [applyWrites_apply, lastValue_memberLexemes m.flat]
  rfl

theorem lastPrimitive_append (name : Text) (ms ms' : List Member) :
    lastPrimitive name (ms ++ ms') = (lastPrimitive name ms').or (lastPrimitive name ms) := by
  unfold lastPrimitive
  rw [List.reverse_append, List.findSome?_append]

theorem commandsAfter_append (ms ms' : List Member) (cmds : StowCmds) :
    commandsAfter ms' (commandsAfter ms cmds) = commandsAfter (ms ++ ms') cmds := by
  funext c
  unfold commandsAfter
  rw [lastPrimitive_append]
  cases lastPrimitive (StowCmd.key c) ms' <;> rfl

/-- The run lemma: the messages of a session. -/
theorem runCallbacks_messages (ms : List CommandMessage) (now : ℕ) (cmds : StowCmds) :
    runCallbacks (ms.map fun m => (m.memory, .onMessage (m.message.received now))) cmds =
      some (commandsAfter (ms.flatMap CommandMessage.members) cmds) := by
  induction ms generalizing cmds with
  | nil => rfl
  | cons m ms ih =>
    show (runCallback m.memory (.onMessage (m.message.received now)) cmds).bind _ = _
    rw [runCallback_message, List.flatMap_cons, ← commandsAfter_append]
    exact ih _

/-- **From the network to the commands.** The broker publishes flat messages of QoS 0
    or 1, whose bytes arrive in any pieces. The library acknowledges them and makes
    a call for each of them, in order, and the commands are then the last values
    that the messages name. -/
theorem stowCommands_session (ms : List CommandMessage)
    (hfits : ∀ m ∈ ms, m.message.packet.Fits ∧ m.message.qos ≤ 1) {sock : Socket}
    (hsteady : Steady sock)
    (hbytes : streamBytes sock = (ms.map fun m => m.message.packet.frame).flatMap Frame.text)
    {n : ℕ} (hn : ms.length + sock.length ≤ n) (now : ℕ) (c : Client) (cmds : StowCmds) :
    ∃ calls c', readPackets (handleOrFault now) n ⟨some c, sock, .initial⟩ =
        some (none, ⟨some c', [], .initial⟩) ∧
      c'.callbacks = c.callbacks ++ calls ∧
      c'.outPackets = c.outPackets ++ ms.flatMap (fun m => m.message.puback) ∧
      runCallbacks ((ms.map CommandMessage.memory).zip calls) cmds =
        some (commandsAfter (ms.flatMap CommandMessage.members) cmds) := by
  have hmessages : (ms.map fun m => m.message.packet.frame) =
      (ms.map CommandMessage.message).map fun m => m.packet.frame := by
    rw [List.map_map]
    rfl
  rw [hmessages] at hbytes
  have hfits1 : ∀ m ∈ ms.map CommandMessage.message, m.packet.Fits := by
    simpa using fun m hm => (hfits m hm).1
  have hqos : ∀ m ∈ ms.map CommandMessage.message, m.qos ≤ 1 := by
    simpa using fun m hm => (hfits m hm).2
  have hn' : (ms.map CommandMessage.message).length + sock.length ≤ n := by
    rwa [List.length_map]
  refine ⟨_, _, readPackets_delivered hfits1 hqos now c hsteady hbytes hn', rfl, ?_, ?_⟩
  · show c.outPackets ++ _ = _
    rw [List.flatMap_map]
  · rw [List.map_map, List.zip_map', ← runCallbacks_messages ms now]
    rfl

/-- `{"stow_status":1}`, sent with its NUL. -/
def stowCommand : CommandMessage where
  message :=
    ⟨1, ascii "stow", objectText [] [] [] [stowMember] ++ [0], 1, false, false, .invalid, 0⟩
  memory := ⟨[], zeroTokens⟩
  members := [stowMember]
  flat m hm := by
    rw [List.mem_singleton.1 hm]
    exact ⟨stowMember_valid, by decide, by decide, ascii "1", .inl rfl, by decide, by decide⟩
  fewMembers := by decide
  text := ⟨[], [], [], [], blank_nil, blank_nil, blank_nil, List.append_nil _⟩

/-- `stowCommands_session` for `stowCommand`, whose bytes arrive one by one. -/
theorem stowCommands_session_sample : ∃ calls c',
    readPackets (handleOrFault 0) 100 ⟨some .initial,
      byteByByte stowCommand.message.packet.frame.text, .initial⟩ =
        some (none, ⟨some c', [], .initial⟩) ∧
      c'.callbacks = Client.initial.callbacks ++ calls ∧
      c'.outPackets =
        Client.initial.outPackets ++ [stowCommand].flatMap (fun m => m.message.puback) ∧
      runCallbacks (([stowCommand].map CommandMessage.memory).zip calls) .initial =
        some (commandsAfter ([stowCommand].flatMap CommandMessage.members) .initial) := by
  have hfits : ∀ m ∈ [stowCommand], m.message.packet.Fits ∧ m.message.qos ≤ 1 := by
    intro m hm
    rw [List.mem_singleton.1 hm]
    exact ⟨⟨by decide, by decide, by decide, by decide, by decide, by decide⟩, by decide⟩
  have hbytes : streamBytes (byteByByte stowCommand.message.packet.frame.text) =
      ([stowCommand].map fun m => m.message.packet.frame).flatMap Frame.text := by
    rw [streamBytes_byteByByte]
    simp
  have hlen : [stowCommand].length +
      (byteByByte stowCommand.message.packet.frame.text).length ≤ 100 := by
    have hbody : stowCommand.message.packet.frame.body.length < 90 := by decide
    rw [byteByByte, List.length_map, Frame.text, List.length_append,
      TrackerDemo.Base128.encode_of_lt (by omega)]
    simp only [List.length_cons, List.length_nil]
    omega
  exact stowCommands_session [stowCommand] hfits (steady_byteByByte _) hbytes hlen 0 .initial
    .initial

end TrackerDemo.Mqtt

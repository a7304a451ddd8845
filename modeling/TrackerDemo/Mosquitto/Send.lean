import TrackerDemo.Mosquitto.Packet

/-!
# The packets that are sent

Model of the `_mosquitto_send_*` functions that the program reaches: PUBLISH, the
acknowledgements and the packets without a body (`send_mosq.c`), CONNECT and
SUBSCRIBE (`send_client_mosq.c`). The program sets no will, and always user name
and password. A packet that is built goes to `_mosquitto_packet_queue`.

Results:
* `Outgoing.send_builds`: every packet is the frame it should be, with no assertion
  failing and no byte left unwritten, or is too large.
-/

namespace TrackerDemo.Mosquitto

open TrackerDemo.CString TrackerDemo.Base128

/-! ## Message types -/

def connect : Byte := 0x10
def connack : Byte := 0x20
def publish : Byte := 0x30
def puback : Byte := 0x40
def pubrec : Byte := 0x50
def pubrel : Byte := 0x60
def pubcomp : Byte := 0x70
def subscribe : Byte := 0x80
def suback : Byte := 0x90
def unsuback : Byte := 0xB0
def pingreq : Byte := 0xC0
def pingresp : Byte := 0xD0
def disconnect : Byte := 0xE0

/-- A flag in a bit field. -/
def flag (b : Bool) (shift : ℕ) : Byte := if b then UInt8.ofNat (1 <<< shift) else 0

/-- The command byte of a PUBLISH (`send_mosq.c`, line 264). -/
def publishCommand (qos : ℕ) (retain dup : Bool) : Byte :=
  publish ||| flag dup 3 ||| UInt8.ofNat (qos <<< 1) ||| flag retain 0

variable (fresh : ℕ → Byte)

/-- `_mosquitto_send_real_publish`. -/
def sendRealPublish (mid : ℕ) (topic payload : Bytes) (qos : ℕ) (retain dup : Bool) :
    Except Fault OutPacket := do
  let packetlen := 2 + topic.length + payload.length
  let packetlen := if qos > 0 then packetlen + 2 else packetlen
  let packet ← packetAlloc fresh mid (publishCommand qos retain dup) packetlen
  let packet ← packet.writeString topic
  let packet ← (if qos > 0 then packet.writeUint16 mid else pure packet)
  if payload.length ≠ 0 then packet.writeBytes payload else pure packet

/-- `_mosquitto_send_command_with_mid`, whose `dup` is always false: it writes the
    two bytes without a check. -/
def sendCommandWithMid (command : Byte) (mid : ℕ) : Except Fault OutPacket := do
  let packet ← packetAlloc fresh 0 command 2
  return { packet with
    payload := (packet.payload.set packet.pos (mosqMsb mid)).set (packet.pos + 1) (mosqLsb mid) }

/-- `_mosquitto_send_simple_command`. -/
def sendSimpleCommand (command : Byte) : Except Fault OutPacket :=
  packetAlloc fresh 0 command 0

/-- `_mosquitto_send_subscribe`, with the message id already generated. -/
def sendSubscribe (localMid : ℕ) (topic : Bytes) (topicQos : ℕ) : Except Fault OutPacket := do
  let packetlen := 2 + 2 + topic.length + 1
  let packet ← packetAlloc fresh 0 (subscribe ||| flag true 1) packetlen
  let packet ← packet.writeUint16 localMid
  let packet ← packet.writeString topic
  packet.writeByte (UInt8.ofNat topicQos)

/-- `enum _mosquitto_protocol`, as far as `mosquitto_opts_set` sets it. -/
inductive Protocol
  | mqtt31 | mqtt311
  deriving DecidableEq, Repr

/-- `PROTOCOL_NAME_v31` and `PROTOCOL_NAME_v311`. -/
def Protocol.name : Protocol → Bytes
  | .mqtt31 => ascii "MQIsdp"
  | .mqtt311 => ascii "MQTT"

/-- `PROTOCOL_VERSION_v31` and `PROTOCOL_VERSION_v311`. -/
def Protocol.version : Protocol → Byte
  | .mqtt31 => 3
  | .mqtt311 => 4

/-- `headerlen`, as a number of its own for each protocol. -/
def Protocol.headerlen : Protocol → ℕ
  | .mqtt31 => 12
  | .mqtt311 => 10

/-- The flags byte of a CONNECT with user name and password. -/
def connectFlags (cleanSession : Bool) : Byte := flag cleanSession 1 ||| flag true 7 ||| flag true 6

/-- `_mosquitto_send_connect`, without a will. -/
def sendConnect (protocol : Protocol) (keepalive : ℕ) (cleanSession : Bool)
    (clientid username password : Bytes) : Except Fault OutPacket := do
  let payloadlen := 2 + clientid.length
  let payloadlen := payloadlen + (2 + username.length)
  let payloadlen := payloadlen + (2 + password.length)
  let packet ← packetAlloc fresh 0 connect (protocol.headerlen + payloadlen)
  let packet ← packet.writeString protocol.name
  let packet ← packet.writeByte protocol.version
  let packet ← packet.writeByte (connectFlags cleanSession)
  let packet ← packet.writeUint16 keepalive
  let packet ← packet.writeString clientid
  let packet ← packet.writeString username
  packet.writeString password

/-! ## What is sent -/

/-- A packet of the client. -/
inductive Outgoing
  | publish (mid : ℕ) (topic payload : Bytes) (qos : ℕ) (retain dup : Bool)
  | withMid (command : Byte) (mid : ℕ)
  | simple (command : Byte)
  | subscribe (localMid : ℕ) (topic : Bytes) (topicQos : ℕ)
  | connect (protocol : Protocol) (keepalive : ℕ) (cleanSession : Bool)
      (clientid username password : Bytes)
  deriving DecidableEq, Repr

/-- The function that builds the packet. -/
def Outgoing.send : Outgoing → Except Fault OutPacket
  | .publish mid topic payload qos retain dup =>
    sendRealPublish fresh mid topic payload qos retain dup
  | .withMid command mid => sendCommandWithMid fresh command mid
  | .simple command => sendSimpleCommand fresh command
  | .subscribe localMid topic topicQos => sendSubscribe fresh localMid topic topicQos
  | .connect protocol keepalive cleanSession clientid username password =>
    sendConnect fresh protocol keepalive cleanSession clientid username password

/-- The message id of a PUBLISH, which one of QoS 0 does not have. -/
def publishMid (qos mid : ℕ) : Bytes := if qos > 0 then bigEndian16 mid else []

/-- The frame that the packet is to be. -/
def Outgoing.frame : Outgoing → Frame
  | .publish mid topic payload qos retain dup =>
    { command := publishCommand qos retain dup
      body := lengthPrefixed topic ++ publishMid qos mid ++ payload }
  | .withMid command mid => ⟨command, bigEndian16 mid⟩
  | .simple command => ⟨command, []⟩
  | .subscribe localMid topic topicQos =>
    { command := Mosquitto.subscribe ||| flag true 1
      body := bigEndian16 localMid ++ lengthPrefixed topic ++ [UInt8.ofNat topicQos] }
  | .connect protocol keepalive cleanSession clientid username password =>
    { command := Mosquitto.connect
      body := lengthPrefixed protocol.name ++ [protocol.version] ++ [connectFlags cleanSession] ++
        bigEndian16 keepalive ++ lengthPrefixed clientid ++ lengthPrefixed username ++
        lengthPrefixed password }

/-- The strings of the packet have lengths that fit into 16 bits. -/
def Outgoing.StringsFit : Outgoing → Prop
  | .publish _ topic _ _ _ _ => topic.length < 2 ^ 16
  | .subscribe _ topic _ => topic.length < 2 ^ 16
  | .connect _ _ _ clientid username password =>
    clientid.length < 2 ^ 16 ∧ username.length < 2 ^ 16 ∧ password.length < 2 ^ 16
  | .withMid .. | .simple _ => True

@[simp] theorem length_bigEndian16 (word : ℕ) : (bigEndian16 word).length = 2 := rfl

@[simp] theorem length_lengthPrefixed (str : Bytes) :
    (lengthPrefixed str).length = 2 + str.length := by
  rw [lengthPrefixed, List.length_append, length_bigEndian16]

/-- What building a packet gives that is to be the frame `f`. -/
def Builds (built : Except Fault OutPacket) (f : Frame) : Prop :=
  (remainingLimit ≤ f.body.length → built = .error (.err .payloadSize)) ∧
    (f.body.length < remainingLimit → ∃ p, built = .ok p ∧ p.payload = f.text)

section

variable {fresh : ℕ → Byte} {mid : ℕ} {command : Byte}

theorem Filled.of_eq {p : OutPacket} {text : Bytes} {room room' : ℕ} (h : Filled p text room)
    (he : room = room') : Filled p text room' := he ▸ h

/-- The rule for the functions here: allocate a buffer for the body, and fill it. -/
theorem builds_of_filled {body : Bytes} {fill : OutPacket → Except Fault OutPacket}
    (hfill : ∀ p, Filled p (command :: encode body.length) body.length →
      ∃ p', fill p = .ok p' ∧ p'.payload = command :: encode body.length ++ body) :
    Builds (packetAlloc fresh mid command body.length >>= fill) ⟨command, body⟩ := by
  obtain ⟨hlarge, hfits⟩ := packetAlloc_eq fresh mid command body.length
  refine ⟨fun h => ?_, fun h => ?_⟩
  · rw [hlarge h]
    rfl
  · obtain ⟨p, hp, h0⟩ := hfits h
    obtain ⟨p', hp', h1⟩ := hfill p h0
    refine ⟨p', ?_, h1⟩
    rw [hp]
    exact hp'

variable {p : OutPacket} {text : Bytes} {room : ℕ}

theorem Filled.writePublishMid {qos : ℕ}
    (h : Filled p text ((publishMid qos mid).length + room)) :
    ∃ p', (if qos > 0 then p.writeUint16 mid else pure p) = .ok p' ∧
      Filled p' (text ++ publishMid qos mid) room := by
  unfold publishMid at h ⊢
  split_ifs with hq
  · rw [if_pos hq] at h
    exact h.writeUint16 mid
  · rw [if_neg hq] at h
    refine ⟨p, rfl, ?_⟩
    rw [List.append_nil]
    exact h.of_eq (Nat.zero_add room)

theorem Filled.writePayload {payload : Bytes} (h : Filled p text payload.length) :
    ∃ p', (if payload.length ≠ 0 then p.writeBytes payload else pure p) = .ok p' ∧
      Filled p' (text ++ payload) 0 := by
  split_ifs with hne
  · exact h.writeBytes
  · refine ⟨p, rfl, ?_⟩
    rw [not_not] at hne
    rw [List.eq_nil_of_length_eq_zero hne, List.append_nil]
    exact h.of_eq hne

theorem sendRealPublish_builds {topic : Bytes} (htopic : topic.length < 2 ^ 16) (payload : Bytes)
    (qos : ℕ) (retain dup : Bool) :
    Builds (sendRealPublish fresh mid topic payload qos retain dup)
      (Outgoing.publish mid topic payload qos retain dup).frame := by
  have hmid : (publishMid qos mid).length = if qos > 0 then 2 else 0 := by
    unfold publishMid
    split_ifs <;> rfl
  have hlen : (if qos > 0 then 2 + topic.length + payload.length + 2
      else 2 + topic.length + payload.length) =
      (lengthPrefixed topic ++ publishMid qos mid ++ payload).length := by
    rw [List.length_append, List.length_append, length_lengthPrefixed, hmid]
    split_ifs <;> omega
  unfold sendRealPublish
  dsimp only
  rw [hlen]
  apply builds_of_filled
  intro p h
  have hroom : (lengthPrefixed topic ++ publishMid qos mid ++ payload).length =
      2 + topic.length + ((publishMid qos mid).length + payload.length) := by
    rw [List.length_append, List.length_append, length_lengthPrefixed]
    omega
  obtain ⟨p1, e1, h1⟩ := (h.of_eq hroom).writeString htopic
  obtain ⟨p2, e2, h2⟩ := h1.writePublishMid
  obtain ⟨p3, e3, h3⟩ := h2.writePayload
  refine ⟨p3, ?_, ?_⟩
  · rw [e1]
    show (if qos > 0 then p1.writeUint16 mid else pure p1) >>= _ = _
    rw [e2]
    exact e3
  · simpa only [List.append_assoc] using h3.payload_eq_text

theorem sendCommandWithMid_builds (command : Byte) (mid : ℕ) :
    Builds (sendCommandWithMid fresh command mid) (Outgoing.withMid command mid).frame := by
  show Builds (packetAlloc fresh 0 command (bigEndian16 mid).length >>= _) _
  apply builds_of_filled
  intro p h
  obtain ⟨junk, hp, hj⟩ := h.payload_eq
  obtain ⟨a, b, rfl⟩ := List.length_eq_two.1 hj
  refine ⟨_, rfl, ?_⟩
  show (p.payload.set p.pos _).set (p.pos + 1) _ = _
  rw [hp, h.pos_eq, List.set_append_right _ _ le_rfl, List.set_append_right _ _ (by omega),
    Nat.sub_self, Nat.add_sub_cancel_left]
  rfl

theorem sendSimpleCommand_builds (command : Byte) :
    Builds (sendSimpleCommand fresh command) (Outgoing.simple command).frame := by
  have hbind : sendSimpleCommand fresh command = packetAlloc fresh 0 command 0 >>= pure := by
    unfold sendSimpleCommand
    cases packetAlloc fresh 0 command 0 <;> rfl
  rw [hbind]
  show Builds (packetAlloc fresh 0 command ([] : Bytes).length >>= pure) _
  apply builds_of_filled
  intro p h
  refine ⟨p, rfl, ?_⟩
  rw [h.payload_eq_text, List.append_nil]

theorem sendSubscribe_builds (localMid : ℕ) {topic : Bytes} (htopic : topic.length < 2 ^ 16)
    (topicQos : ℕ) :
    Builds (sendSubscribe fresh localMid topic topicQos)
      (Outgoing.subscribe localMid topic topicQos).frame := by
  have hlen : 2 + 2 + topic.length + 1 =
      (bigEndian16 localMid ++ lengthPrefixed topic ++ [UInt8.ofNat topicQos]).length := by
    rw [List.length_append, List.length_append, length_lengthPrefixed, length_bigEndian16,
      List.length_singleton]
    omega
  unfold sendSubscribe
  dsimp only
  rw [hlen]
  apply builds_of_filled
  intro p h
  have hroom : (bigEndian16 localMid ++ lengthPrefixed topic ++ [UInt8.ofNat topicQos]).length =
      2 + (2 + topic.length + (0 + 1)) := by
    omega
  obtain ⟨p1, e1, h1⟩ := (h.of_eq hroom).writeUint16 localMid
  obtain ⟨p2, e2, h2⟩ := h1.writeString htopic
  obtain ⟨p3, e3, h3⟩ := h2.writeByte (UInt8.ofNat topicQos)
  refine ⟨p3, ?_, ?_⟩
  · rw [e1]
    show p1.writeString topic >>= _ = _
    rw [e2]
    exact e3
  · simpa only [List.append_assoc] using h3.payload_eq_text

theorem Protocol.headerlen_eq (protocol : Protocol) :
    protocol.headerlen = (lengthPrefixed protocol.name).length + 4 := by
  cases protocol <;> decide

theorem sendConnect_builds (protocol : Protocol) (keepalive : ℕ) (cleanSession : Bool)
    {clientid username password : Bytes} (hid : clientid.length < 2 ^ 16)
    (huser : username.length < 2 ^ 16) (hpass : password.length < 2 ^ 16) :
    Builds (sendConnect fresh protocol keepalive cleanSession clientid username password)
      (Outgoing.connect protocol keepalive cleanSession clientid username password).frame := by
  have hname : protocol.name.length < 2 ^ 16 := by cases protocol <;> decide
  have hroom : (lengthPrefixed protocol.name ++ [protocol.version] ++ [connectFlags cleanSession] ++
      bigEndian16 keepalive ++ lengthPrefixed clientid ++ lengthPrefixed username ++
      lengthPrefixed password).length =
      2 + protocol.name.length + (2 + (2 + clientid.length + (2 + username.length +
        (2 + password.length + 0))) + 1 + 1) := by
    simp only [List.length_append, length_lengthPrefixed, length_bigEndian16,
      List.length_singleton]
    omega
  have hlen : protocol.headerlen + (2 + clientid.length + (2 + username.length) +
      (2 + password.length)) = (lengthPrefixed protocol.name ++ [protocol.version] ++
        [connectFlags cleanSession] ++ bigEndian16 keepalive ++ lengthPrefixed clientid ++
        lengthPrefixed username ++ lengthPrefixed password).length := by
    rw [hroom, protocol.headerlen_eq, length_lengthPrefixed]
    omega
  unfold sendConnect
  dsimp only
  rw [hlen]
  apply builds_of_filled
  intro p h
  obtain ⟨p1, e1, h1⟩ := (h.of_eq hroom).writeString hname
  obtain ⟨p2, e2, h2⟩ := h1.writeByte protocol.version
  obtain ⟨p3, e3, h3⟩ := h2.writeByte (connectFlags cleanSession)
  obtain ⟨p4, e4, h4⟩ := h3.writeUint16 keepalive
  obtain ⟨p5, e5, h5⟩ := h4.writeString hid
  obtain ⟨p6, e6, h6⟩ := h5.writeString huser
  obtain ⟨p7, e7, h7⟩ := h6.writeString hpass
  refine ⟨p7, ?_, ?_⟩
  · simp only [e1, e2, e3, e4, e5, e6, bind, Except.bind]
    exact e7
  · simpa only [List.append_assoc] using h7.payload_eq_text

end

/-- **The packets that are sent.** The function fills the buffer with the frame,
    whatever the buffer contained, and no assertion fails; a frame that is too
    large for the remaining length is refused. -/
theorem Outgoing.send_builds (fresh : ℕ → Byte) {o : Outgoing} (h : o.StringsFit) :
    Builds (o.send fresh) o.frame := by
  cases o with
  | publish mid topic payload qos retain dup =>
    exact sendRealPublish_builds h payload qos retain dup
  | withMid command mid => exact sendCommandWithMid_builds command mid
  | simple command => exact sendSimpleCommand_builds command
  | subscribe localMid topic topicQos => exact sendSubscribe_builds localMid h topicQos
  | connect protocol keepalive cleanSession clientid username password =>
    obtain ⟨hid, huser, hpass⟩ := h
    exact sendConnect_builds protocol keepalive cleanSession hid huser hpass

end TrackerDemo.Mosquitto

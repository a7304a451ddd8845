import TrackerDemo.Mosquitto.ClientRuns

/-!
# What the client receives

The packets of a broker, as the senders of `send_mosq.c` and `send_server.c` build
them, and what the client does when it has read one: the handlers are the inverse
of the senders.

Results:
* `packetHandle_frame`: a packet that is read has the effect that its fields say.
* `session_received`: a whole session, in any pieces, has the effects of its packets,
  in order.
* `readPackets_delivered`: every message of QoS 0 or 1 is delivered and acknowledged,
  in order.
-/

namespace TrackerDemo.Mosquitto

open TrackerDemo.CString

/-! ## The packets of a broker -/

/-- A packet of the broker. -/
inductive BrokerPacket
  | connack (ack result : Byte)
  | suback (mid : ℕ) (granted : Bytes)
  | unsuback (mid : ℕ)
  | publish (mid : ℕ) (topic payload : Bytes) (qos : ℕ) (retain dup : Bool)
  | puback (mid : ℕ)
  | pubrec (mid : ℕ)
  | pubrel (mid : ℕ)
  | pubcomp (mid : ℕ)
  | pingreq
  | pingresp
  deriving DecidableEq, Repr

namespace BrokerPacket

/-- The frame of a packet (`send_server.c`, lines 24–82, for the first two). -/
def frame : BrokerPacket → Frame
  | connack ack result => ⟨Mosquitto.connack, [ack, result]⟩
  | suback mid granted => ⟨Mosquitto.suback, bigEndian16 mid ++ granted⟩
  | unsuback mid => (Outgoing.withMid Mosquitto.unsuback mid).frame
  | publish mid topic payload qos retain dup =>
    (Outgoing.publish mid topic payload qos retain dup).frame
  | puback mid => (Outgoing.withMid Mosquitto.puback mid).frame
  | pubrec mid => (Outgoing.withMid Mosquitto.pubrec mid).frame
  | pubrel mid => (Outgoing.withMid (Mosquitto.pubrel ||| 2) mid).frame
  | pubcomp mid => (Outgoing.withMid Mosquitto.pubcomp mid).frame
  | pingreq => (Outgoing.simple Mosquitto.pingreq).frame
  | pingresp => (Outgoing.simple Mosquitto.pingresp).frame

/-- The fields fit into their bytes, and a topic is a string that is not empty. -/
def Fits : BrokerPacket → Prop
  | connack _ _ | pingreq | pingresp => True
  | suback mid granted => mid < 2 ^ 16 ∧ 2 + granted.length < remainingLimit
  | publish mid topic payload qos _ _ =>
    mid < 2 ^ 16 ∧ topic ≠ [] ∧ (0 : Byte) ∉ topic ∧ topic.length < 2 ^ 16 ∧ qos ≤ 2 ∧
      (2 + topic.length) + 2 + payload.length < remainingLimit
  | unsuback mid | puback mid | pubrec mid | pubrel mid | pubcomp mid => mid < 2 ^ 16

/-- What the client does with the packet, by its fields. -/
def receive (now : ℕ) : BrokerPacket → Client → Option MosqErr × Client
  | connack _ result, c =>
    let c := c.call (.onConnect result.toNat)
    if result = 0 then
      (none, if c.state ≠ .disconnecting then { c with state := .connected } else c)
    else if result ≤ 5 then (some .connRefused, c)
    else (some .protocol, c)
  | suback mid granted, c => (none, c.call (.onSubscribe mid (granted.map UInt8.toNat)))
  | unsuback mid, c => (none, c.call (.onUnsubscribe mid))
  | publish mid topic payload qos retain dup, c =>
    receiveMessage ⟨if qos > 0 then mid else 0, topic, payload, qos, retain, dup, .invalid, now⟩ c
  | puback mid, c | pubcomp mid, c =>
    match c.messageRemoveOut mid with
    | (none, c) => (none, c.call (.onPublish mid))
    | (some _, c) => (none, c)
  | pubrec mid, c => ((c.messageOutUpdate mid .waitForPubcomp now).2).sendPubrel mid
  | pubrel mid, c =>
    match c.messageRemoveIn mid with
    | some (message, c) => (c.call (.onMessage message)).sendPubcomp mid
    | none => c.sendPubcomp mid
  | pingreq, c => c.sendPingresp
  | pingresp, c => (none, { c with pingT := 0 })

end BrokerPacket

/-! ## The command byte -/

theorem length_publishMid_le (qos mid : ℕ) : (publishMid qos mid).length ≤ 2 := by
  unfold publishMid
  split_ifs <;> simp

/-- The kind and the flags of a PUBLISH. -/
theorem publishCommand_fields {qos : ℕ} (hqos : qos ≤ 2) (retain dup : Bool) :
    publishCommand qos retain dup &&& 0xF0 = publish ∧
      ((publishCommand qos retain dup &&& 0x06) >>> 1).toNat = qos ∧
      decide (publishCommand qos retain dup &&& 0x01 ≠ 0) = retain ∧
      decide ((publishCommand qos retain dup &&& 0x08) >>> 3 ≠ 0) = dup ∧
      publishCommand qos retain dup ≠ 0 := by
  obtain rfl | rfl | rfl : qos = 0 ∨ qos = 1 ∨ qos = 2 := by omega
  all_goals cases retain <;> cases dup <;> decide

/-! ## Reading what was sent -/

section Round

variable {mid : ℕ} {c : Client}

theorem Frame.buffer_wellFormed {f : Frame} (h : f.body.length < remainingLimit) :
    f.buffer.WellFormed := ⟨rfl, h, rfl⟩

theorem handler_reads_mid (command : Byte) (hmid : mid < 2 ^ 16)
    (act : ℕ → Option MosqErr × Client) :
    onFields readUint16 (Outgoing.withMid command mid).frame.buffer c act = some (act mid) := by
  have hb : (Outgoing.withMid command mid).frame.buffer.WellFormed :=
    Frame.buffer_wellFormed (by show 2 < remainingLimit; decide)
  rw [onFields_eq readUint16_reads hb.unread]
  show some (match takeUint16 (bigEndian16 mid) with
    | some (a, _) => act a
    | none => (some .protocol, c)) = _
  rw [← List.append_nil (bigEndian16 mid), takeUint16_bigEndian16 hmid]

theorem takePublish_frame {topic payload : Bytes} {qos : ℕ} (hmid : mid < 2 ^ 16)
    (hne : topic ≠ []) (h0 : (0 : Byte) ∉ topic) (hlen : topic.length < 2 ^ 16) :
    takePublish qos (lengthPrefixed topic ++ publishMid qos mid ++ payload) =
      some ((topic, if qos > 0 then mid else 0, payload), []) := by
  unfold takePublish
  rw [List.append_assoc, takeString_lengthPrefixed hlen, cString_eq_self h0]
  show (if topic = [] then none else _) = _
  rw [if_neg hne]
  unfold takeMidRest publishMid
  split_ifs
  · rw [takeUint16_bigEndian16 hmid]
    rfl
  · rfl

/-- The handler for each kind of packet. -/
theorem packetHandle_kind (now : ℕ) (b : ReadBuffer) (c : Client) :
    (b.command &&& 0xF0 = puback → packetHandle now b c = handlePubackcomp b c) ∧
      (b.command &&& 0xF0 = pubcomp → packetHandle now b c = handlePubackcomp b c) ∧
      (b.command &&& 0xF0 = publish → packetHandle now b c = handlePublish now b c) ∧
      (b.command &&& 0xF0 = pubrec → packetHandle now b c = handlePubrec now b c) ∧
      (b.command &&& 0xF0 = pubrel → packetHandle now b c = handlePubrel b c) ∧
      (b.command &&& 0xF0 = connack → packetHandle now b c = handleConnack b c) ∧
      (b.command &&& 0xF0 = suback → packetHandle now b c = handleSuback b c) ∧
      (b.command &&& 0xF0 = unsuback → packetHandle now b c = handleUnsuback b c) := by
  refine ⟨?_, ?_, ?_, ?_, ?_, ?_, ?_, ?_⟩
  all_goals
    intro h
    simp [packetHandle, h, pingreq, pingresp, puback, pubcomp, publish, pubrec, pubrel, connack,
      suback, unsuback]

/-- **The handlers read what was sent**, and have the effect that the fields say. -/
theorem packetHandle_frame (now : ℕ) {p : BrokerPacket} (h : p.Fits) (c : Client) :
    packetHandle now p.frame.buffer c = some (p.receive now c) := by
  obtain ⟨hpuback, hpubcomp, hpublish, hpubrec, hpubrel, hconnack, hsuback, hunsuback⟩ :=
    packetHandle_kind now p.frame.buffer c
  cases p with
  | connack ack result =>
    have hb : (BrokerPacket.connack ack result).frame.buffer.WellFormed :=
      Frame.buffer_wellFormed (by show 2 < remainingLimit; decide)
    rw [hconnack (by show connack &&& 0xF0 = connack; decide)]
    unfold handleConnack
    rw [onFields_eq readConnack_reads hb.unread]
    rfl
  | suback mid granted =>
    have hb : (BrokerPacket.suback mid granted).frame.buffer.WellFormed :=
      Frame.buffer_wellFormed (by
        show (bigEndian16 mid ++ granted).length < remainingLimit
        rw [List.length_append, length_bigEndian16]
        exact h.2)
    rw [hsuback (by show suback &&& 0xF0 = suback; decide)]
    unfold handleSuback
    rw [onFields_eq readSuback_reads hb.unread]
    have hpayload : (BrokerPacket.suback mid granted).frame.buffer.payload =
      bigEndian16 mid ++ granted := rfl
    rw [hpayload, takeUint16_bigEndian16 h.1]
    rfl
  | unsuback mid =>
    rw [hunsuback (by show unsuback &&& 0xF0 = unsuback; decide)]
    exact handler_reads_mid unsuback h _
  | publish mid topic payload qos retain dup =>
    obtain ⟨hmid, hne, h0, htopic, hqos, hlen⟩ := h
    obtain ⟨hkind, hq, hretain, hdup, -⟩ := publishCommand_fields hqos retain dup
    have hb : (BrokerPacket.publish mid topic payload qos retain dup).frame.buffer.WellFormed :=
      Frame.buffer_wellFormed (by
        show (lengthPrefixed topic ++ publishMid qos mid ++ payload).length < remainingLimit
        have hle := length_publishMid_le qos mid
        rw [List.length_append, List.length_append, length_lengthPrefixed]
        omega)
    rw [hpublish hkind]
    unfold handlePublish
    dsimp only
    have hcommand : (BrokerPacket.publish mid topic payload qos retain dup).frame.buffer.command =
      publishCommand qos retain dup := rfl
    have hpayload : (BrokerPacket.publish mid topic payload qos retain dup).frame.buffer.payload =
      lengthPrefixed topic ++ publishMid qos mid ++ payload := rfl
    rw [onFields_eq (readPublish_reads _) hb.unread, hcommand, hpayload, hq,
      takePublish_frame hmid hne h0 htopic]
    dsimp only
    rw [hretain, hdup]
    rfl
  | puback mid =>
    rw [hpuback (by show puback &&& 0xF0 = puback; decide)]
    exact handler_reads_mid puback h _
  | pubrec mid =>
    rw [hpubrec (by show pubrec &&& 0xF0 = pubrec; decide)]
    unfold handlePubrec
    refine (handler_reads_mid pubrec h _).trans ?_
    show some _ = some ((c.messageOutUpdate mid .waitForPubcomp now).2.sendPubrel mid)
    unfold Client.messageOutUpdate
    cases c.outMessages.findIdx? (·.mid = mid) <;> rfl
  | pubrel mid =>
    rw [hpubrel (by show (pubrel ||| 2) &&& 0xF0 = pubrel; decide)]
    unfold handlePubrel
    have hflags : (BrokerPacket.pubrel mid).frame.buffer.command &&& 0x0F = 0x02 := by
      show (pubrel ||| 2) &&& 0x0F = 0x02
      decide
    rw [if_neg (fun hbad => hbad.2 hflags)]
    exact handler_reads_mid (pubrel ||| 2) h _
  | pubcomp mid =>
    rw [hpubcomp (by show pubcomp &&& 0xF0 = pubcomp; decide)]
    exact handler_reads_mid pubcomp h _
  | pingreq => rfl
  | pingresp => rfl

theorem valid_frame {p : BrokerPacket} (h : p.Fits) : p.frame.Valid := by
  have h2 : 2 < remainingLimit := by decide
  cases p with
  | connack ack result => exact ⟨by show connack ≠ 0; decide, h2⟩
  | suback mid granted =>
    refine ⟨by show suback ≠ 0; decide, ?_⟩
    show (bigEndian16 mid ++ granted).length < remainingLimit
    rw [List.length_append, length_bigEndian16]
    exact h.2
  | unsuback mid => exact ⟨by show unsuback ≠ 0; decide, h2⟩
  | publish mid topic payload qos retain dup =>
    obtain ⟨-, -, -, -, hqos, hlen⟩ := h
    refine ⟨(publishCommand_fields hqos retain dup).2.2.2.2, ?_⟩
    have hle := length_publishMid_le qos mid
    show (lengthPrefixed topic ++ publishMid qos mid ++ payload).length < remainingLimit
    rw [List.length_append, List.length_append, length_lengthPrefixed]
    omega
  | puback mid => exact ⟨by show puback ≠ 0; decide, h2⟩
  | pubrec mid => exact ⟨by show pubrec ≠ 0; decide, h2⟩
  | pubrel mid => exact ⟨by show pubrel ||| 2 ≠ 0; decide, h2⟩
  | pubcomp mid => exact ⟨by show pubcomp ≠ 0; decide, h2⟩
  | pingreq => exact ⟨by show pingreq ≠ 0; decide, by show 0 < remainingLimit; decide⟩
  | pingresp => exact ⟨by show pingresp ≠ 0; decide, by show 0 < remainingLimit; decide⟩

end Round

/-! ## Sessions -/

/-- What the client does with some packets, in order, up to the first one that it
    refuses. -/
def receiveUntil (now : ℕ) : List BrokerPacket → Client → Option MosqErr × Client
  | [], c => (none, c)
  | p :: ps, c =>
    match p.receive now c with
    | (none, c) => receiveUntil now ps c
    | (some rc, c) => (some rc, c)

theorem handledUntil_handleOrFault {ps : List BrokerPacket} (h : ∀ p ∈ ps, p.Fits) (now : ℕ)
    (c : Client) :
    handledUntil (handleOrFault now) (ps.map BrokerPacket.frame) (some c) =
      ((receiveUntil now ps c).1, some (receiveUntil now ps c).2) := by
  induction ps generalizing c with
  | nil => rfl
  | cons p ps ih =>
    rw [List.forall_mem_cons] at h
    have hp : handleOrFault now (some c) p.frame.buffer =
        ((p.receive now c).1, some (p.receive now c).2) := by
      show (match packetHandle now p.frame.buffer c with
        | some (rc, c) => (rc, some c)
        | none => (none, none)) = _
      rw [packetHandle_frame now h.1]
    rw [List.map_cons, handledUntil, hp, receiveUntil]
    obtain ⟨rc, c'⟩ := p.receive now c
    cases rc with
    | none => exact ih h.2 c'
    | some e => rfl

/-- A session: the reader does what the packets say. -/
theorem readPackets_session {ps : List BrokerPacket} (h : ∀ p ∈ ps, p.Fits) (now : ℕ) (c : Client)
    {sock : Socket} (hsteady : Steady sock)
    (hbytes : streamBytes sock = (ps.map BrokerPacket.frame).flatMap Frame.text) {n : ℕ}
    (hn : ps.length + sock.length ≤ n) :
    ∃ sock', readPackets (handleOrFault now) n ⟨some c, sock, .initial⟩ =
        some ((receiveUntil now ps c).1, ⟨some (receiveUntil now ps c).2, sock', .initial⟩) ∧
      ((receiveUntil now ps c).1 = none → sock' = []) := by
  have hvalid : ∀ f ∈ ps.map BrokerPacket.frame, f.Valid := by
    intro f hf
    obtain ⟨p, hp, rfl⟩ := List.mem_map.1 hf
    exact valid_frame (h p hp)
  obtain ⟨sock', hread, hsock'⟩ := @readPackets_until _ (handleOrFault now) n _ _
    (awaits_of_valid hvalid (some c) hbytes) hsteady (by rwa [List.length_map])
  rw [handledUntil_handleOrFault h] at hread hsock'
  exact ⟨sock', hread, hsock'⟩

/-- **A session.** The bytes of any packets of the broker, in any pieces, have the effects
    that the fields of the packets say, in order, up to the first packet that the client
    refuses; no access goes outside of an array. -/
theorem session_received {ps : List BrokerPacket} (h : ∀ p ∈ ps, p.Fits) (now : ℕ) (c : Client)
    {sock : Socket} (hsteady : Steady sock)
    (hbytes : streamBytes sock = (ps.map BrokerPacket.frame).flatMap Frame.text) {n : ℕ}
    (hn : ps.length + sock.length ≤ n) :
    ∃ sock', readPackets (handleOrFault now) n ⟨some c, sock, .initial⟩ =
      some ((receiveUntil now ps c).1, ⟨some (receiveUntil now ps c).2, sock', .initial⟩) := by
  obtain ⟨sock', hread, -⟩ := readPackets_session h now c hsteady hbytes hn
  exact ⟨sock', hread⟩

/-- A connection that is accepted, and a ping of the broker. -/
theorem session_received_sample : ∃ sock',
    readPackets (handleOrFault 0) 8 ⟨some { Client.initial with sock := true },
      byteByByte [0x20, 2, 0, 0, 0xC0, 0], .initial⟩ =
      some (none, ⟨some { Client.initial with
        sock := true
        state := .connected
        callbacks := [.onConnect 0]
        outPackets := [.simple pingresp] }, sock', .initial⟩) := by
  have hbytes : streamBytes (byteByByte [0x20, 2, 0, 0, 0xC0, 0]) =
      ([BrokerPacket.connack 0 0, .pingreq].map BrokerPacket.frame).flatMap Frame.text := by
    rw [streamBytes_byteByByte]
    simp [BrokerPacket.frame, Outgoing.frame, Frame.text, Base128.encode_of_lt, connack, pingreq]
  have hfits : ∀ p ∈ [BrokerPacket.connack 0 0, .pingreq], p.Fits := by simp [BrokerPacket.Fits]
  exact session_received hfits 0 { Client.initial with sock := true } (steady_byteByByte _) hbytes
    (by decide)

/-! ## Messages of QoS 0 and 1 -/

/-- The PUBLISH of a message. -/
def Message.packet (m : Message) : BrokerPacket :=
  .publish m.mid m.topic m.payload m.qos m.retain m.dup

/-- The message as it is handed to `on_message`. -/
def Message.received (now : ℕ) (m : Message) : Message :=
  { m with mid := if m.qos > 0 then m.mid else 0, state := .invalid, timestamp := now }

/-- The acknowledgement of a message. -/
def Message.puback (m : Message) : List Outgoing :=
  if m.qos = 1 then [.withMid Mosquitto.puback m.mid] else []

/-- The calls and the acknowledgements for some messages. -/
def Client.delivered (now : ℕ) (ms : List Message) (c : Client) : Client :=
  { c with
    callbacks := c.callbacks ++ ms.map fun m => .onMessage (m.received now)
    outPackets := c.outPackets ++ ms.flatMap Message.puback }

theorem receive_packet (now : ℕ) {m : Message} (hqos : m.qos ≤ 1) (c : Client) :
    m.packet.receive now c = (none, c.delivered now [m]) := by
  obtain ⟨mid, topic, payload, qos, retain, dup, state, timestamp⟩ := m
  obtain rfl | rfl : qos = 0 ∨ qos = 1 := by
    dsimp only at hqos
    omega
  · show (none, c.call _) = (none, _)
    simp [Client.call, Client.delivered, Message.puback, Message.received]
  · show ((c.sendPuback _).1, (c.sendPuback _).2.call _) = (none, _)
    dsimp only
    rw [if_pos (by omega), Client.sendPuback, Client.send_withMid]
    simp [Client.call, Client.delivered, Message.puback, Message.received]

theorem Client.delivered_append (now : ℕ) (ms ms' : List Message) (c : Client) :
    (c.delivered now ms).delivered now ms' = c.delivered now (ms ++ ms') := by
  simp [Client.delivered]

theorem receiveUntil_packets {now : ℕ} {ms : List Message} (h : ∀ m ∈ ms, m.qos ≤ 1) (c : Client) :
    receiveUntil now (ms.map Message.packet) c = (none, c.delivered now ms) := by
  induction ms generalizing c with
  | nil => simp [receiveUntil, Client.delivered]
  | cons m ms ih =>
    rw [List.forall_mem_cons] at h
    rw [List.map_cons, receiveUntil, receive_packet now h.1]
    show receiveUntil now _ (c.delivered now [m]) = _
    rw [ih h.2, Client.delivered_append]
    rfl

/-- **Delivery.** Messages of QoS 0 and 1, whose bytes arrive in any pieces, are handed
    on as they were sent, and acknowledged, each of them once and in order. -/
theorem readPackets_delivered {ms : List Message} (hfits : ∀ m ∈ ms, m.packet.Fits)
    (hqos : ∀ m ∈ ms, m.qos ≤ 1) (now : ℕ) (c : Client) {sock : Socket} (hsteady : Steady sock)
    (hbytes : streamBytes sock = (ms.map fun m => m.packet.frame).flatMap Frame.text) {n : ℕ}
    (hn : ms.length + sock.length ≤ n) :
    readPackets (handleOrFault now) n ⟨some c, sock, .initial⟩ =
      some (none, ⟨some (c.delivered now ms), [], .initial⟩) := by
  have hfits' : ∀ p ∈ ms.map Message.packet, p.Fits := by
    intro p hp
    obtain ⟨m, hm, rfl⟩ := List.mem_map.1 hp
    exact hfits m hm
  have hbytes' : streamBytes sock =
      ((ms.map Message.packet).map BrokerPacket.frame).flatMap Frame.text := by
    rw [hbytes, List.map_map]
    rfl
  have hn' : (ms.map Message.packet).length + sock.length ≤ n := by rwa [List.length_map]
  obtain ⟨sock', hread, hsock'⟩ := readPackets_session hfits' now c hsteady hbytes' hn'
  rw [receiveUntil_packets hqos] at hread hsock'
  rw [hread, hsock' rfl]

end TrackerDemo.Mosquitto

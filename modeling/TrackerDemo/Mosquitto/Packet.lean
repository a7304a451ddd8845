import TrackerDemo.Lib.Base128
import TrackerDemo.Lib.CString

/-!
# Building MQTT packets

Model of the packets that the client library builds: `_mosquitto_packet_alloc`
(`util_mosq.c`, lines 42–83), the `_mosquitto_write_*` functions (`net_mosq.c`,
lines 672–752) and the `_mosquitto_send_*` functions on top of them
(`send_mosq.c`, `send_client_mosq.c`). The allocations succeed, and a new buffer
has arbitrary contents.

The lengths are natural numbers: the sums are below `2 ^ 31`, as no string here
is longer than `MQTT_MAX_PAYLOAD`.

Results:
* `packetAlloc_eq`: the fixed header, and the limit on the size.
* `Filled.writeBytes`, `Filled.writeString`: a write that has room fills the
  buffer further and passes its assertion.
-/

namespace TrackerDemo.Mosquitto

open TrackerDemo.CString TrackerDemo.Base128

/-- `enum mosq_err_t`, as far as these functions return it. -/
inductive MosqErr
  | protocol | inval | noConn | connRefused | notFound | connLost | payloadSize | errno
  deriving DecidableEq, Repr

/-- How building a packet ends early. -/
inductive Fault
  /-- An `assert` fails. -/
  | assertion
  | err (rc : MosqErr)
  deriving DecidableEq, Repr

/-- `struct _mosquitto_packet`, for a packet to send. The array `payload` has
    `packet_length` bytes. -/
structure OutPacket where
  mid : ℕ
  command : Byte
  payload : Bytes
  pos : ℕ
  deriving DecidableEq, Repr

/-- `MOSQ_MSB`. -/
def mosqMsb (word : ℕ) : Byte := UInt8.ofNat ((word &&& 0xFF00) >>> 8)

/-- `MOSQ_LSB`. -/
def mosqLsb (word : ℕ) : Byte := UInt8.ofNat (word &&& 0x00FF)

/-! ## Allocating -/

/-- The loop of `_mosquitto_packet_alloc` (lines 53–62), with room for some more
    of the five bytes. -/
def remainingBytes : ℕ → ℕ → Bytes
  | 0, _ => []
  | room + 1, remainingLength =>
    let byte := UInt8.ofNat (remainingLength % 128)
    if 0 < remainingLength / 128 then
      (byte ||| 0x80) :: remainingBytes room (remainingLength / 128)
    else [byte]

/-- `_mosquitto_packet_alloc`. `fresh` are the contents of the new array. -/
def packetAlloc (fresh : ℕ → Byte) (mid : ℕ) (command : Byte) (remainingLength : ℕ) :
    Except Fault OutPacket :=
  let remaining := remainingBytes 5 remainingLength
  let remainingCount := remaining.length
  if remainingCount = 5 then .error (.err .payloadSize)
  else
    let packetLength := remainingLength + 1 + remainingCount
    .ok
      { mid := mid
        command := command
        payload := command :: remaining ++
          ((List.range packetLength).map fresh).drop (1 + remainingCount)
        pos := 1 + remainingCount }

/-! ## Writing -/

namespace OutPacket

/-- `_mosquitto_write_byte`. -/
def writeByte (byte : Byte) (p : OutPacket) : Except Fault OutPacket :=
  if p.pos + 1 ≤ p.payload.length then
    .ok { p with payload := p.payload.set p.pos byte, pos := p.pos + 1 }
  else .error .assertion

/-- `_mosquitto_write_bytes`. -/
def writeBytes (bytes : Bytes) (p : OutPacket) : Except Fault OutPacket :=
  if p.pos + bytes.length ≤ p.payload.length then
    .ok { p with
      payload := p.payload.take p.pos ++ bytes ++ p.payload.drop (p.pos + bytes.length)
      pos := p.pos + bytes.length }
  else .error .assertion

/-- `_mosquitto_write_uint16`. -/
def writeUint16 (word : ℕ) (p : OutPacket) : Except Fault OutPacket := do
  let p ← p.writeByte (mosqMsb word)
  p.writeByte (mosqLsb word)

/-- `_mosquitto_write_string`, called with the string's length, which is cut to
    16 bits. -/
def writeString (str : Bytes) (p : OutPacket) : Except Fault OutPacket := do
  let length := str.length % 2 ^ 16
  let p ← p.writeUint16 length
  p.writeBytes (str.take length)

end OutPacket

/-! ## Frames -/

/-- A packet on the wire: its command byte, and its variable header and payload. -/
structure Frame where
  command : Byte
  body : Bytes
  deriving DecidableEq, Repr

/-- The bytes of a frame. -/
def Frame.text (f : Frame) : Bytes := f.command :: encode f.body.length ++ f.body

/-- The largest remaining length is below this. -/
def remainingLimit : ℕ := 128 ^ 4

/-! ## The fixed header -/

/-- The top bit marks a byte that is continued. -/
theorem ofNat_or_topBit {n : ℕ} (h : n < 128) : UInt8.ofNat n ||| 0x80 = UInt8.ofNat (n + 128) := by
  apply UInt8.toNat_inj.1
  rw [UInt8.toNat_or, toNat_ofNat (by omega), toNat_ofNat (by omega)]
  have hor : 2 ^ 7 * 1 + n = 2 ^ 7 * 1 ||| n := Nat.two_pow_add_eq_or_of_lt h 1
  show n ||| 2 ^ 7 * 1 = n + 128
  rw [Nat.or_comm, ← hor]
  omega

/-- With room for all of them, the bytes of the remaining length. -/
theorem remainingBytes_of_lt {room n : ℕ} (h : n < 128 ^ (room + 1)) :
    remainingBytes (room + 1) n = encode n := by
  induction room generalizing n with
  | zero =>
    have hdiv : ¬ 0 < n / 128 := by omega
    have hmod : n % 128 = n := by omega
    rw [encode_of_lt (by omega)]
    simp [remainingBytes, hdiv, hmod]
  | succ room ih =>
    rw [remainingBytes]
    split_ifs with hdiv
    · rw [encode_of_le (by omega), ofNat_or_topBit (Nat.mod_lt _ (by omega)), ih]
      rw [pow_succ] at h
      omega
    · have hmod : n % 128 = n := by omega
      rw [encode_of_lt (by omega), hmod]

/-- A length that is too large uses up the room. -/
theorem length_remainingBytes_of_le {room n : ℕ} (h : 128 ^ room ≤ n) :
    (remainingBytes (room + 1) n).length = room + 1 := by
  induction room generalizing n with
  | zero =>
    rw [remainingBytes]
    split_ifs <;> rfl
  | succ room ih =>
    have hpos : 0 < 128 ^ room := by positivity
    rw [pow_succ] at h
    rw [remainingBytes, if_pos (by omega), List.length_cons, ih (by omega)]

/-- The buffer starts with `text`, up to `pos`, and `room` bytes of it are still
    to be written. -/
structure Filled (p : OutPacket) (text : Bytes) (room : ℕ) : Prop where
  pos_eq : p.pos = text.length
  payload_eq : ∃ junk, p.payload = text ++ junk ∧ junk.length = room

variable {p : OutPacket} {text : Bytes} {room : ℕ}

/-- A full buffer has no arbitrary contents. -/
theorem Filled.payload_eq_text (h : Filled p text 0) : p.payload = text := by
  obtain ⟨junk, hp, hj⟩ := h.payload_eq
  rw [hp, List.eq_nil_of_length_eq_zero hj, List.append_nil]

/-- **`_mosquitto_packet_alloc`** fails iff the length does not fit into four
    bytes, and else writes the fixed header. -/
theorem packetAlloc_eq (fresh : ℕ → Byte) (mid : ℕ) (command : Byte) (n : ℕ) :
    (remainingLimit ≤ n → packetAlloc fresh mid command n = .error (.err .payloadSize)) ∧
      (n < remainingLimit → ∃ p, packetAlloc fresh mid command n = .ok p ∧
        Filled p (command :: encode n) n) := by
  unfold packetAlloc
  dsimp only
  constructor
  · intro h
    rw [if_pos (length_remainingBytes_of_le h)]
  · intro h
    have hle : (encode n).length ≤ 4 := (length_encode_le_iff (by omega) n).2 h
    rw [remainingBytes_of_lt  (h.trans (by norm_num [remainingLimit])),
      if_neg (by omega)]
    refine ⟨_, rfl, ?_, _, rfl, ?_⟩
    · show 1 + (encode n).length = _
      rw [List.length_cons]
      omega
    · rw [List.length_drop, List.length_map, List.length_range]
      omega

/-! ## Filling the buffer -/

theorem Filled.writeByte (h : Filled p text (room + 1)) (byte : Byte) :
    ∃ p', p.writeByte byte = .ok p' ∧ Filled p' (text ++ [byte]) room := by
  obtain ⟨junk, hp, hj⟩ := h.payload_eq
  obtain ⟨b, junk, rfl⟩ := List.exists_cons_of_length_pos (by omega : 0 < junk.length)
  have hlen : p.pos + 1 ≤ p.payload.length := by
    rw [hp, h.pos_eq, List.length_append, List.length_cons]
    omega
  refine ⟨_, if_pos hlen, ?_, junk, ?_, by simpa using hj⟩
  · rw [h.pos_eq, List.length_append]
    rfl
  · show p.payload.set p.pos byte = _
    rw [hp, h.pos_eq, List.set_append_right _ _ le_rfl, Nat.sub_self, List.set_cons_zero]
    simp

theorem Filled.writeBytes {bytes : Bytes} (h : Filled p text (bytes.length + room)) :
    ∃ p', p.writeBytes bytes = .ok p' ∧ Filled p' (text ++ bytes) room := by
  obtain ⟨junk, hp, hj⟩ := h.payload_eq
  have hlen : p.pos + bytes.length ≤ p.payload.length := by
    rw [hp, h.pos_eq, List.length_append]
    omega
  refine ⟨_, if_pos hlen, ?_, junk.drop bytes.length, ?_, ?_⟩
  · rw [h.pos_eq, List.length_append]
  · show p.payload.take p.pos ++ bytes ++ p.payload.drop (p.pos + bytes.length) = _
    rw [hp, h.pos_eq, List.take_left, List.drop_append]
    simp
  · rw [List.length_drop]
    omega

/-- A word, its high byte first. -/
def bigEndian16 (word : ℕ) : Bytes := [mosqMsb word, mosqLsb word]

theorem Filled.writeUint16 (h : Filled p text (2 + room)) (word : ℕ) :
    ∃ p', p.writeUint16 word = .ok p' ∧ Filled p' (text ++ bigEndian16 word) room := by
  have h2 : Filled p text (room + 1 + 1) := by
    rw [Nat.add_comm] at h
    exact h
  obtain ⟨p1, e1, h1⟩ := h2.writeByte (mosqMsb word)
  obtain ⟨p2, e2, h2⟩ := h1.writeByte (mosqLsb word)
  refine ⟨p2, ?_, ?_⟩
  · rw [OutPacket.writeUint16, e1]
    exact e2
  · simpa [bigEndian16] using h2

/-- A string with its length before it. -/
def lengthPrefixed (str : Bytes) : Bytes := bigEndian16 str.length ++ str

theorem Filled.writeString {str : Bytes} (hstr : str.length < 2 ^ 16)
    (h : Filled p text (2 + str.length + room)) :
    ∃ p', p.writeString str = .ok p' ∧ Filled p' (text ++ lengthPrefixed str) room := by
  have hmod : str.length % 2 ^ 16 = str.length := Nat.mod_eq_of_lt hstr
  rw [Nat.add_assoc] at h
  obtain ⟨p1, e1, h1⟩ := h.writeUint16 str.length
  obtain ⟨p2, e2, h2⟩ := h1.writeBytes
  refine ⟨p2, ?_, ?_⟩
  · rw [OutPacket.writeString, hmod, List.take_length, e1]
    exact e2
  · rwa [List.append_assoc] at h2

end TrackerDemo.Mosquitto

import TrackerDemo.Mosquitto.Send
import TrackerDemo.Mosquitto.PacketRead

/-!
# Reading the fields of a packet

Model of the `_mosquitto_read_*` functions (`net_mosq.c`, lines 661–745), as
programs that move the position of `in_packet` and may read behind the end of its
array. A field is described on the bytes that are not read yet.

Results:
* `Reads.bind`, `readByte_reads`, `readUint16_reads`, `readBytes_reads`,
  `readString_reads`: every field is read from the unread bytes only, or refused.
* `takeUint16_bigEndian16`, `takeString_lengthPrefixed`: what the sender writes is
  read back.
-/

namespace TrackerDemo.Mosquitto

open TrackerDemo.CString

/-- How a read ends that gives no value. -/
inductive ReadFault
  /-- An access outside of an array. -/
  | outOfBounds
  | err (rc : MosqErr)
  deriving DecidableEq, Repr

/-- A program that reads from a packet. -/
abbrev PacketM := StateT ReadBuffer (Except ReadFault)

/-- `packet->payload[packet->pos]; packet->pos++`. -/
def nextByte : PacketM Byte := fun b =>
  match b.payload[b.pos]? with
  | some byte => .ok (byte, { b with pos := b.pos + 1 })
  | none => .error .outOfBounds

/-- `memcpy(…, &(packet->payload[packet->pos]), count); packet->pos += count`. -/
def nextBytes (count : ℕ) : PacketM Bytes := fun b =>
  if b.pos + count ≤ b.payload.length then
    .ok ((b.payload.drop b.pos).take count, { b with pos := b.pos + count })
  else .error .outOfBounds

/-- `if(packet->pos+count > packet->remaining_length) return MOSQ_ERR_PROTOCOL`. -/
def checkLeft (count : ℕ) : PacketM Unit := do
  let b ← get
  if b.pos + count > b.remainingLength then throw (.err .protocol)

/-- `packet->remaining_length - packet->pos`. -/
def bytesLeft : PacketM ℕ := do
  let b ← get
  return b.remainingLength - b.pos

/-- `_mosquitto_read_byte`. -/
def readByte : PacketM Byte := do
  checkLeft 1
  nextByte

/-- `_mosquitto_read_bytes`. -/
def readBytes (count : ℕ) : PacketM Bytes := do
  checkLeft count
  nextBytes count

/-- `_mosquitto_read_uint16`. -/
def readUint16 : PacketM ℕ := do
  checkLeft 2
  let msb ← nextByte
  let lsb ← nextByte
  return (msb.toNat <<< 8) + lsb.toNat

/-- `_mosquitto_read_string`: the string up to its first NUL, as its users read
    it. -/
def readString : PacketM Bytes := do
  let len ← readUint16
  checkLeft len
  let str ← nextBytes len
  return cString str

/-! ## The unread bytes -/

/-- The bytes of the packet that are not read yet. -/
structure Unread (b : ReadBuffer) (bytes : Bytes) : Prop where
  length_payload : b.payload.length = b.remainingLength
  pos_le : b.pos ≤ b.remainingLength
  drop_eq : b.payload.drop b.pos = bytes

/-- The outcome of a read of a packet: a value, with `rest` not read yet, or the
    packet is refused. It is never an access behind the end. -/
def ReadsAs {α : Type} (command : Byte) (result : Except ReadFault (α × ReadBuffer)) :
    Option (α × Bytes) → Prop
  | some (a, rest) => ∃ b, result = .ok (a, b) ∧ Unread b rest ∧ b.command = command
  | none => result = .error (.err .protocol)

/-- A program reads the value that `f` takes from the unread bytes, and refuses the
    packet where `f` has none. -/
def Reads {α : Type} (m : PacketM α) (f : Bytes → Option (α × Bytes)) : Prop :=
  ∀ b bytes, Unread b bytes → ReadsAs b.command (m b) (f bytes)

section Rules

variable {α β : Type} {b : ReadBuffer} {bytes : Bytes}

theorem Unread.length_eq (h : Unread b bytes) : bytes.length = b.remainingLength - b.pos := by
  rw [← h.drop_eq, List.length_drop, h.length_payload]

theorem reads_pure (a : α) : Reads (pure a) fun bytes => some (a, bytes) :=
  fun b _ h => ⟨b, rfl, h, rfl⟩

/-- One field, and what follows it. -/
theorem Reads.bind {m : PacketM α} {k : α → PacketM β} {f : Bytes → Option (α × Bytes)}
    {g : α → Bytes → Option (β × Bytes)} (hm : Reads m f) (hk : ∀ a, Reads (k a) (g a)) :
    Reads (m >>= k) fun bytes => (f bytes).bind fun r => g r.1 r.2 := by
  intro b bytes h
  show ReadsAs b.command (m b >>= fun r => k r.1 r.2) ((f bytes).bind fun r => g r.1 r.2)
  have hmb := hm b bytes h
  cases hf : f bytes with
  | none =>
    rw [hf] at hmb
    have hmb : m b = .error (.err .protocol) := hmb
    rw [hmb]
    rfl
  | some r =>
    rw [hf] at hmb
    obtain ⟨b1, he, h1, hc1⟩ := hmb
    rw [he, ← hc1]
    exact hk r.1 b1 r.2 h1

/-- One field that is there, and what follows it. -/
theorem ReadsAs.bind {m : PacketM α} {k : α → PacketM β} {command : Byte} {a : α} {rest : Bytes}
    {out : Option (β × Bytes)} (hm : ReadsAs command (m b) (some (a, rest)))
    (hk : ∀ b', Unread b' rest → ReadsAs b'.command (k a b') out) :
    ReadsAs command ((m >>= k) b) out := by
  obtain ⟨b1, he, h1, hc1⟩ := hm
  show ReadsAs command (m b >>= fun r => k r.1 r.2) out
  rw [he, ← hc1]
  exact hk b1 h1

theorem Reads.congr {m : PacketM α} {f g : Bytes → Option (α × Bytes)} (h : Reads m f)
    (hfg : ∀ bytes, f bytes = g bytes) : Reads m g :=
  (funext hfg : f = g) ▸ h

theorem reads_throw : Reads (throw (.err .protocol) : PacketM α) fun _ => none :=
  fun _ _ _ => rfl

theorem checkLeft_reads (count : ℕ) :
    Reads (checkLeft count) fun bytes =>
      if count ≤ bytes.length then some ((), bytes) else none := by
  intro b bytes h
  have hlen := h.length_eq
  have hpos := h.pos_le
  have hrun : checkLeft count b =
      if b.pos + count > b.remainingLength then .error (.err .protocol) else .ok ((), b) := by
    show (if b.pos + count > b.remainingLength then throw (.err .protocol) else pure () :
      PacketM Unit) b = _
    split_ifs <;> rfl
  dsimp only
  rw [hrun]
  by_cases hc : count ≤ bytes.length
  · rw [if_pos hc, if_neg (by omega)]
    exact ⟨b, rfl, h, rfl⟩
  · rw [if_neg hc, if_pos (by omega)]
    rfl

theorem bytesLeft_reads : Reads bytesLeft fun bytes => some (bytes.length, bytes) := by
  intro b bytes h
  refine ⟨b, ?_, h, rfl⟩
  rw [h.length_eq]
  rfl

/-- Bytes that are checked for are there. -/
theorem nextBytes_readsAs (h : Unread b bytes) {count : ℕ} (hc : count ≤ bytes.length) :
    ReadsAs b.command (nextBytes count b) (some (bytes.take count, bytes.drop count)) := by
  have hlen := h.length_eq
  have hpos := h.pos_le
  refine ⟨{ b with pos := b.pos + count }, ?_, ⟨h.length_payload, ?_, ?_⟩, rfl⟩
  · rw [nextBytes, if_pos (by rw [h.length_payload]; omega), h.drop_eq]
  · show b.pos + count ≤ b.remainingLength
    omega
  · show b.payload.drop (b.pos + count) = _
    rw [← h.drop_eq, List.drop_drop]

theorem nextByte_readsAs {x : Byte} {rest : Bytes} (h : Unread b (x :: rest)) :
    ReadsAs b.command (nextByte b) (some (x, rest)) := by
  have hlen := h.length_eq
  have hpos := h.pos_le
  rw [List.length_cons] at hlen
  have hget : b.payload[b.pos]? = some x := by
    rw [← Nat.add_zero b.pos, ← List.getElem?_drop, h.drop_eq]
    rfl
  refine ⟨{ b with pos := b.pos + 1 }, ?_, ⟨h.length_payload, ?_, ?_⟩, rfl⟩
  · rw [nextByte, hget]
  · show b.pos + 1 ≤ b.remainingLength
    omega
  · show b.payload.drop (b.pos + 1) = _
    rw [← List.drop_drop, h.drop_eq]
    rfl

/-- A read behind its own check. -/
theorem Reads.checked {m : PacketM α} {count : ℕ} {f : Bytes → α × Bytes}
    (hm : ∀ b bytes, Unread b bytes → count ≤ bytes.length →
      ReadsAs b.command (m b) (some (f bytes))) :
    Reads (checkLeft count >>= fun _ => m) fun bytes =>
      if count ≤ bytes.length then some (f bytes) else none := by
  intro b bytes h
  show ReadsAs b.command (checkLeft count b >>= fun r => m r.2) _
  have hc := checkLeft_reads count b bytes h
  dsimp only at hc ⊢
  by_cases hle : count ≤ bytes.length
  · rw [if_pos hle] at hc ⊢
    obtain ⟨b1, he, h1, hc1⟩ := hc
    rw [he, ← hc1]
    exact hm b1 bytes h1 hle
  · rw [if_neg hle] at hc ⊢
    have he : checkLeft count b = .error (.err .protocol) := hc
    rw [he]
    rfl

/-! ## The fields -/

/-- A byte at the front. -/
def takeByte : Bytes → Option (Byte × Bytes)
  | [] => none
  | x :: rest => some (x, rest)

/-- Some bytes at the front. -/
def takeBytes (count : ℕ) (bytes : Bytes) : Option (Bytes × Bytes) :=
  if count ≤ bytes.length then some (bytes.take count, bytes.drop count) else none

/-- A word at the front, its high byte first. -/
def takeUint16 : Bytes → Option (ℕ × Bytes)
  | msb :: lsb :: rest => some (256 * msb.toNat + lsb.toNat, rest)
  | _ => none

/-- A string at the front, its length before it. -/
def takeString (bytes : Bytes) : Option (Bytes × Bytes) :=
  (takeUint16 bytes).bind fun r => (takeBytes r.1 r.2).map fun s => (cString s.1, s.2)

theorem readByte_reads : Reads readByte takeByte := by
  refine (Reads.checked (f := fun bytes => (bytes.headD 0, bytes.tail)) ?_).congr ?_
  · intro b bytes h hle
    obtain ⟨x, rest, rfl⟩ := List.exists_cons_of_length_pos hle
    exact nextByte_readsAs h
  · rintro (_ | ⟨x, rest⟩) <;> simp [takeByte]

theorem readBytes_reads (count : ℕ) : Reads (readBytes count) (takeBytes count) :=
  Reads.checked fun _ _ h hle => nextBytes_readsAs h hle

theorem readUint16_reads : Reads readUint16 takeUint16 := by
  refine (Reads.checked
    (f := fun bytes => (256 * (bytes.headD 0).toNat + (bytes.tail.headD 0).toNat, bytes.drop 2))
    ?_).congr ?_
  · intro b bytes h hle
    obtain ⟨msb, lsb, rest, rfl⟩ : ∃ msb lsb rest, bytes = msb :: lsb :: rest := by
      rcases bytes with _ | ⟨msb, _ | ⟨lsb, rest⟩⟩
      · simp at hle
      · simp at hle
      · exact ⟨msb, lsb, rest, rfl⟩
    apply (nextByte_readsAs h).bind
    intro b1 h1
    apply (nextByte_readsAs h1).bind
    intro b2 h2
    have hword : (msb.toNat <<< 8) + lsb.toNat = 256 * msb.toNat + lsb.toNat := by
      rw [Nat.shiftLeft_eq, Nat.mul_comm]
    exact ⟨b2, by rw [hword]; rfl, h2, rfl⟩
  · rintro (_ | ⟨msb, _ | ⟨lsb, rest⟩⟩) <;> simp [takeUint16]

theorem readString_reads : Reads readString takeString := by
  unfold readString takeString
  refine readUint16_reads.bind
    (g := fun len bytes => (takeBytes len bytes).map fun s => (cString s.1, s.2)) fun len => ?_
  have hstr : ∀ b bytes, Unread b bytes → len ≤ bytes.length →
      ReadsAs b.command ((nextBytes len >>= fun str => pure (cString str)) b)
        (some (cString (bytes.take len), bytes.drop len)) := by
    intro b bytes h hle
    apply (nextBytes_readsAs h hle).bind
    exact fun b1 h1 => ⟨b1, rfl, h1, rfl⟩
  refine (Reads.checked hstr).congr fun bytes => ?_
  unfold takeBytes
  split_ifs <;> rfl

/-! ## What the sender writes -/

theorem toNat_mosqMsb (word : ℕ) : (mosqMsb word).toNat = word / 256 % 256 := by
  have hmask : (word &&& 0xFF00) >>> 8 = (word >>> 8) &&& 0xFF := by
    rw [Nat.shiftRight_and_distrib]
    rfl
  rw [mosqMsb, hmask, Nat.shiftRight_eq_div_pow]
  show (word / 2 ^ 8 &&& (2 ^ 8 - 1)) % 2 ^ 8 = word / 2 ^ 8 % 2 ^ 8
  rw [Nat.and_two_pow_sub_one_eq_mod, Nat.mod_mod]

theorem toNat_mosqLsb (word : ℕ) : (mosqLsb word).toNat = word % 256 := by
  show (word &&& (2 ^ 8 - 1)) % 2 ^ 8 = _
  rw [Nat.and_two_pow_sub_one_eq_mod, Nat.mod_mod]

theorem takeUint16_bigEndian16 {word : ℕ} (h : word < 2 ^ 16) (rest : Bytes) :
    takeUint16 (bigEndian16 word ++ rest) = some (word, rest) := by
  show some (256 * (mosqMsb word).toNat + (mosqLsb word).toNat, rest) = _
  rw [toNat_mosqMsb, toNat_mosqLsb]
  have hword : 256 * (word / 256 % 256) + word % 256 = word := by omega
  rw [hword]

theorem takeBytes_append (str rest : Bytes) :
    takeBytes str.length (str ++ rest) = some (str, rest) := by
  rw [takeBytes, if_pos (by simp), List.take_left, List.drop_left]

theorem takeString_lengthPrefixed {str : Bytes} (h : str.length < 2 ^ 16) (rest : Bytes) :
    takeString (lengthPrefixed str ++ rest) = some (cString str, rest) := by
  rw [takeString, lengthPrefixed, List.append_assoc, takeUint16_bigEndian16 h]
  show (takeBytes str.length (str ++ rest)).map _ = _
  rw [takeBytes_append]
  rfl

end Rules

end TrackerDemo.Mosquitto

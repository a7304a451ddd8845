import TrackerDemo.Mosquitto.Packet
import Mathlib.Data.Nat.Bitwise

/-!
# Receiving MQTT packets

Model of `_mosquitto_packet_read` (`net_mosq.c`, lines 985–1149) without TLS, and
of the library's loop that calls it. A read of the socket gives what has arrived,
at most as much as is asked for, so a packet may arrive in any pieces.

Results:
* `readParts_meets`: what one call does, part by part.
* `packetRead_wellFormed`: whatever arrives, the lengths stay in bounds and nothing
  is written outside the packet's buffer.
-/

namespace TrackerDemo.Mosquitto

open TrackerDemo.CString TrackerDemo.Base128

/-! ## The socket -/

/-- What the socket has to offer, in order. -/
inductive Arrival
  /-- Bytes that have arrived together. -/
  | data (b : Byte) (bs : Bytes)
  /-- Nothing is there yet: the next read fails with `EAGAIN`. -/
  | wouldBlock
  /-- The end of the stream. -/
  | closed
  /-- The next read fails with `ECONNRESET`. -/
  | reset
  /-- The next read fails with another error. -/
  | failed
  deriving DecidableEq, Repr

abbrev Socket := List Arrival

/-- The result of `_mosquitto_net_read`, with `errno`. -/
inductive NetRead
  | got (bytes : Bytes)
  | eof | again | connReset | failed
  deriving DecidableEq, Repr

/-- The bytes of an arrival that are left after `count` of them. -/
def leftover (count : ℕ) (b : Byte) (bs : Bytes) (sock : Socket) : Socket :=
  match (b :: bs).drop count with
  | [] => sock
  | c :: cs => .data c cs :: sock

/-- `_mosquitto_net_read`. -/
def netRead (count : ℕ) : Socket → NetRead × Socket
  | [] => (.again, [])
  | .data b bs :: sock => (.got ((b :: bs).take count), leftover count b bs sock)
  | .wouldBlock :: sock => (.again, sock)
  | .closed :: sock => (.eof, .closed :: sock)
  | .reset :: sock => (.connReset, sock)
  | .failed :: sock => (.failed, sock)

/-! ## The packet -/

/-- `mosq->in_packet`. The first `pos` bytes of the array `payload`, which has
    `remaining_length` bytes, are received. -/
structure InPacket where
  command : Byte
  remainingMult : ℕ
  remainingLength : ℕ
  remainingCount : ℤ
  payload : Bytes
  toProcess : ℕ
  pos : ℕ
  deriving DecidableEq, Repr

/-- `_mosquitto_packet_cleanup`. -/
def InPacket.initial : InPacket := ⟨0, 1, 0, 0, [], 0, 0⟩

/-- How a part of `_mosquitto_packet_read` ends: it goes on, the function returns
    (`none` is `MOSQ_ERR_SUCCESS`), or it writes behind the end of the buffer. -/
inductive Reading
  | next (sock : Socket) (p : InPacket)
  | exit (rc : Option MosqErr) (sock : Socket) (p : InPacket)
  | overflow
  deriving DecidableEq, Repr

/-- What follows a part that goes on. -/
def Reading.bind (r : Reading) (k : Socket → InPacket → Reading) : Reading :=
  match r with
  | .next sock p => k sock p
  | .exit rc sock p => .exit rc sock p
  | .overflow => .overflow

/-- What follows a read: `k` if it gave bytes, else the function returns. -/
def onRead (rcOf : NetRead → Option MosqErr) (p : InPacket) (k : Bytes → Socket → Reading) :
    NetRead × Socket → Reading
  | (.got bytes, sock) => k bytes sock
  | (r, sock) => .exit (rcOf r) sock p

/-- The return code for a read of one byte that gave none (lines 1024–1037 and
    1067–1080). -/
def byteRc : NetRead → Option MosqErr
  | .eof => some .connLost
  | .connReset => some .connLost
  | .failed => some .errno
  | .again | .got _ => none

/-- Lines 1014–1038: the command byte. -/
def readCommand (sock : Socket) (p : InPacket) : Reading :=
  if p.command = 0 then
    onRead byteRc p (fun bytes sock => .next sock { p with command := bytes.headD 0 })
      (netRead 1 sock)
  else .next sock p

/-- A byte of the remaining length (lines 1052–1066); the sums and products are
    `uint32_t`. -/
def addLength (byte : Byte) (p : InPacket) : InPacket :=
  { p with
    remainingLength :=
      (p.remainingLength + (byte &&& 127).toNat * p.remainingMult) % 2 ^ 32
    remainingMult := p.remainingMult * 128 % 2 ^ 32 }

/-- Lines 1082–1090: the length is complete, and the buffer is allocated. -/
def startPayload (p : InPacket) : InPacket :=
  { p with
    remainingCount := -p.remainingCount
    toProcess := if p.remainingLength > 0 then p.remainingLength else p.toProcess }

/-- The loop over the bytes of the remaining length (lines 1050–1081), which runs
    at most five times. -/
def readLengthLoop : ℕ → Socket → InPacket → Reading
  | 0, sock, p => .exit (some .protocol) sock p
  | fuel + 1, sock, p =>
    onRead byteRc p (fun bytes sock =>
        let byte := bytes.headD 0
        let p := { p with remainingCount := p.remainingCount - 1 }
        if p.remainingCount < -4 then .exit (some .protocol) sock p
        else
          let p := addLength byte p
          if byte &&& 128 ≠ 0 then readLengthLoop fuel sock p
          else .next sock (startPayload p))
      (netRead 1 sock)

/-- Lines 1049–1091: the remaining length. -/
def readLength (sock : Socket) (p : InPacket) : Reading :=
  if p.remainingCount ≤ 0 then readLengthLoop 5 sock p else .next sock p

/-- The return code for a read of the payload that gave none (lines 1100–1122): an
    end of the stream is an error like another one. -/
def payloadRc : NetRead → Option MosqErr
  | .eof => some .errno
  | .connReset => some .connLost
  | .failed => some .errno
  | .again | .got _ => none

/-- The loop over the pieces of the payload (lines 1092–1124), which runs at most
    `to_process` times. -/
def readPayload : ℕ → Socket → InPacket → Reading
  | 0, sock, p => .next sock p
  | fuel + 1, sock, p =>
    if p.toProcess > 0 then
      onRead payloadRc p (fun bytes sock =>
          if p.pos + bytes.length ≤ p.remainingLength then
            readPayload fuel sock
              { p with
                payload := p.payload ++ bytes
                toProcess := p.toProcess - bytes.length
                pos := p.pos + bytes.length }
          else .overflow)
        (netRead p.toProcess sock)
    else .next sock p

/-- `_mosquitto_packet_read` up to the packet being complete. -/
def readParts (sock : Socket) (p : InPacket) : Reading :=
  (readCommand sock p).bind fun sock p =>
    (readLength sock p).bind fun sock p => readPayload p.toProcess sock p

/-- A complete packet, as the functions that read from it use it. -/
structure ReadBuffer where
  command : Byte
  remainingLength : ℕ
  payload : Bytes
  pos : ℕ
  deriving DecidableEq, Repr

/-- Line 1127: reading from the packet starts at its beginning. -/
def InPacket.complete (p : InPacket) : ReadBuffer := ⟨p.command, p.remainingLength, p.payload, 0⟩

/-! ## Reading packets -/

variable {σ : Type*}

/-- The client, its socket and the packet that is being received. -/
structure Reader (σ : Type*) where
  client : σ
  sock : Socket
  inPacket : InPacket

/-- `_mosquitto_packet_read`, for a client whose `_mosquitto_packet_handle` is
    `handle`; `none` is a write behind the end of the buffer. -/
def packetRead (handle : σ → ReadBuffer → Option MosqErr × σ) (r : Reader σ) :
    Option (Option MosqErr × Reader σ) :=
  match readParts r.sock r.inPacket with
  | .next sock p =>
    let (rc, client) := handle r.client p.complete
    some (rc, ⟨client, sock, .initial⟩)
  | .exit rc sock p => some (rc, ⟨r.client, sock, p⟩)
  | .overflow => none

/-- Some calls of `_mosquitto_packet_read`, up to the first one that returns an
    error: the library closes the socket then. -/
def readPackets (handle : σ → ReadBuffer → Option MosqErr × σ) :
    ℕ → Reader σ → Option (Option MosqErr × Reader σ)
  | 0, r => some (none, r)
  | n + 1, r =>
    match packetRead handle r with
    | some (none, r) => readPackets handle n r
    | other => other

/-! ## Reads of the socket -/

/-- All the bytes that arrive. -/
def streamBytes : Socket → Bytes
  | [] => []
  | .data b bs :: sock => b :: bs ++ streamBytes sock
  | _ :: sock => streamBytes sock

/-- The stream stays open. -/
def Steady (sock : Socket) : Prop := ∀ a ∈ sock, a = .wouldBlock ∨ ∃ b bs, a = .data b bs

theorem streamBytes_leftover (count : ℕ) (b : Byte) (bs : Bytes) (sock : Socket) :
    streamBytes (leftover count b bs sock) = (b :: bs).drop count ++ streamBytes sock := by
  unfold leftover
  split
  next h => rw [h, List.nil_append]
  next c cs h => rw [h, streamBytes]

/-- What a read does to the socket. -/
inductive ReadSpec (count : ℕ) (sock : Socket) : NetRead × Socket → Prop
  | got (b : Byte) (bs : Bytes) (sock' : Socket) (hle : bs.length < count)
      (hbytes : streamBytes sock = b :: bs ++ streamBytes sock')
      (hlen : sock'.length ≤ sock.length) (hsteady : Steady sock → Steady sock') :
      ReadSpec count sock (.got (b :: bs), sock')
  | none (r : NetRead) (sock' : Socket) (hr : ∀ bytes, r ≠ .got bytes)
      (hbytes : streamBytes sock' = streamBytes sock)
      (hsteady : Steady sock → r = .again ∧ Steady sock' ∧ sock'.length ≤ sock.length - 1) :
      ReadSpec count sock (r, sock')

theorem leftover_cases (count : ℕ) (b : Byte) (bs : Bytes) (sock : Socket) :
    leftover count b bs sock = sock ∨ ∃ c cs, leftover count b bs sock = .data c cs :: sock := by
  unfold leftover
  split
  next => exact .inl rfl
  next c cs _ => exact .inr ⟨c, cs, rfl⟩

theorem netRead_spec {count : ℕ} (hcount : 0 < count) (sock : Socket) :
    ReadSpec count sock (netRead count sock) := by
  have stopped : ∀ (a : Arrival) (sock sock' : Socket) (r : NetRead),
      (a ≠ .wouldBlock ∧ ∀ b bs, a ≠ .data b bs) → (∀ bytes, r ≠ .got bytes) →
      streamBytes sock' = streamBytes (a :: sock) → ReadSpec count (a :: sock) (r, sock') := by
    intro a sock sock' r ha hr hbytes
    refine .none r sock' hr hbytes fun hs => ?_
    rcases hs a List.mem_cons_self with h | ⟨b, bs, h⟩
    · exact absurd h ha.1
    · exact absurd h (ha.2 b bs)
  cases sock with
  | nil => exact .none .again [] (by simp) rfl fun hs => ⟨rfl, hs, le_rfl⟩
  | cons a sock =>
    cases a with
    | data b bs =>
      obtain ⟨k, rfl⟩ : ∃ k, count = k + 1 := ⟨count - 1, by omega⟩
      refine .got b (bs.take k) _ ?_ ?_ ?_ ?_
      · have := List.length_take_le k bs
        omega
      · rw [streamBytes_leftover, streamBytes, List.drop_succ_cons, ← List.append_assoc]
        simp only [List.cons_append, List.take_append_drop]
      · rcases leftover_cases (k + 1) b bs sock with h | ⟨c, cs, h⟩ <;> rw [h]
        · exact Nat.le_succ _
        · exact le_rfl
      · intro hs
        have htail : Steady sock := fun a ha => hs a (List.mem_cons_of_mem _ ha)
        rcases leftover_cases (k + 1) b bs sock with h | ⟨c, cs, h⟩ <;> rw [h]
        · exact htail
        · intro a ha
          rcases List.mem_cons.1 ha with rfl | ha
          · exact .inr ⟨c, cs, rfl⟩
          · exact htail a ha
    | wouldBlock =>
      refine .none .again sock (by simp) rfl fun hs => ⟨rfl, ?_, le_rfl⟩
      exact fun a ha => hs a (List.mem_cons_of_mem _ ha)
    | closed => exact stopped _ _ _ _ (by simp) (by simp) rfl
    | reset => exact stopped _ _ _ _ (by simp) (by simp) rfl
    | failed => exact stopped _ _ _ _ (by simp) (by simp) rfl

/-! ## What a part of the function does

A part is described by the states and streams `go` it may leave when it goes on,
and `stay` when the function returns. -/

/-- What a part does, started on the socket `sock`. -/
def Reading.Meets (r : Reading) (sock : Socket) (stay : Option MosqErr → InPacket → Bytes → Prop)
    (go : InPacket → Bytes → Prop) : Prop :=
  match r with
  | .next sock' p =>
    go p (streamBytes sock') ∧ sock'.length ≤ sock.length ∧ (Steady sock → Steady sock')
  | .exit rc sock' p =>
    stay rc p (streamBytes sock') ∧
      (rc ≠ some .protocol → Steady sock → rc = none ∧ Steady sock' ∧
        sock'.length ≤ sock.length - 1)
  | .overflow => False

section Rules

variable {r : Reading} {sock sock' : Socket} {stay : Option MosqErr → InPacket → Bytes → Prop}
  {go go' : InPacket → Bytes → Prop}

/-- What is done after some reads counts from before them. -/
theorem Reading.Meets.after_reads (h : r.Meets sock' stay go) (hlen : sock'.length ≤ sock.length)
    (hsteady : Steady sock → Steady sock') : r.Meets sock stay go := by
  cases r with
  | overflow => exact h
  | exit rc sock2 p =>
    refine ⟨h.1, fun hrc hs => ?_⟩
    obtain ⟨hnone, hs2, hlen2⟩ := h.2 hrc (hsteady hs)
    exact ⟨hnone, hs2, by omega⟩
  | next sock2 p => exact ⟨h.1, h.2.1.trans hlen, fun hs => h.2.2 (hsteady hs)⟩

/-- The rule for two parts, one after the other. -/
theorem Reading.Meets.bind {k : Socket → InPacket → Reading} (h : r.Meets sock stay go)
    (hk : ∀ sock' p, go p (streamBytes sock') → (k sock' p).Meets sock' stay go') :
    (r.bind k).Meets sock stay go' := by
  cases r with
  | overflow => exact h
  | exit rc sock' p => exact h
  | next sock' p =>
    obtain ⟨hgo, hlen, hsteady⟩ := h
    exact (hk sock' p hgo).after_reads hlen hsteady

/-- The rule for a read. -/
theorem onRead_meets {rcOf : NetRead → Option MosqErr} {p : InPacket}
    {k : Bytes → Socket → Reading} {count : ℕ} (hcount : 0 < count)
    (hagain : rcOf .again = none) (hstay : ∀ r, stay (rcOf r) p (streamBytes sock))
    (hk : ∀ b bs sock', bs.length < count → streamBytes sock = b :: bs ++ streamBytes sock' →
      (k (b :: bs) sock').Meets sock' stay go) :
    (onRead rcOf p k (netRead count sock)).Meets sock stay go := by
  obtain ⟨r, sock', hread⟩ : ∃ r sock', netRead count sock = (r, sock') := ⟨_, _, rfl⟩
  have hspec := netRead_spec hcount sock
  rw [hread] at hspec ⊢
  cases hspec with
  | got b bs _ hle hbytes hlen hsteady => exact (hk b bs sock' hle hbytes).after_reads hlen hsteady
  | none _ _ hr hbytes hsteady =>
    have hexit : onRead rcOf p k (r, sock') = .exit (rcOf r) sock' p := by
      cases r with
      | got bytes => exact absurd rfl (hr bytes)
      | _ => rfl
    rw [hexit]
    refine ⟨?_, fun _ hs => ?_⟩
    · rw [hbytes]
      exact hstay r
    · obtain ⟨rfl, hs', hlen⟩ := hsteady hs
      exact ⟨hagain, hs', hlen⟩

end Rules

/-! ## What has been received of a packet -/

/-- The part of a packet that is received: the command and some bytes of the
    length, or also the whole length and some bytes of the payload. -/
inductive Held
  | length (command : Byte) (done : Bytes)
  | payload (command : Byte) (len got : Bytes)

namespace Held

def command : Held → Byte
  | .length command _ => command
  | .payload command _ _ => command

/-- The bytes that are received. -/
def bytes : Held → Bytes
  | .length command done => command :: done
  | .payload command len got => command :: len ++ got

/-- The state of `in_packet`. -/
def packet : Held → InPacket
  | .length command done =>
    ⟨command, 128 ^ done.length, value done, -done.length, [], 0, 0⟩
  | .payload command len got =>
    ⟨command, 128 ^ len.length, value len, len.length, got, value len - got.length, got.length⟩

/-- The length is not complete, or it is, and the payload is not. -/
def Ok : Held → Prop
  | .length _ done => (∀ b ∈ done, Continues b) ∧ done.length ≤ 4
  | .payload _ len got => IsNumeral len ∧ len.length ≤ 4 ∧ got.length < value len

/-- The same part of a packet with another command. -/
def withCommand (c : Byte) : Held → Held
  | .length _ done => .length c done
  | .payload _ len got => .payload c len got

end Held

/-- The reader has received a part of the packet that `total` starts with, and
    `bytes` is the rest of `total`. A command byte 0 is taken for no command, so
    the reader loses its place behind one. -/
def Holds (total : Bytes) (p : InPacket) (bytes : Bytes) : Prop :=
  ∃ h : Held, p = h.packet ∧ h.Ok ∧
    (total.head? ≠ some 0 → h.command ≠ 0 ∧ h.bytes ++ bytes = total)

/-- The same, or nothing is received yet. -/
def Receiving (total : Bytes) (p : InPacket) (bytes : Bytes) : Prop :=
  (p = .initial ∧ (total.head? ≠ some 0 → bytes = total)) ∨ Holds total p bytes

/-- The length of the packet that `total` starts with does not end with its fourth
    byte. -/
def TooLong (total : Bytes) : Prop :=
  ∃ command done rest, total = command :: done ++ rest ∧ done.length = 4 ∧ ∀ b ∈ done, Continues b

/-- The states in which the function returns. -/
def Stays (total : Bytes) (rc : Option MosqErr) (p : InPacket) (bytes : Bytes) : Prop :=
  if rc = some .protocol then total.head? ≠ some 0 → TooLong total else Receiving total p bytes

/-- The states after the length. -/
def HoldsPayload (total : Bytes) (p : InPacket) (bytes : Bytes) : Prop :=
  ∃ command len got, p = (Held.payload command len got).packet ∧ IsNumeral len ∧
    len.length ≤ 4 ∧ got.length ≤ value len ∧
    (total.head? ≠ some 0 → command ≠ 0 ∧ command :: len ++ got ++ bytes = total)

/-- The states after the payload. -/
def Completes (total : Bytes) (p : InPacket) (bytes : Bytes) : Prop :=
  ∃ command len body, p = (Held.payload command len body).packet ∧ IsNumeral len ∧
    len.length ≤ 4 ∧ body.length = value len ∧
    (total.head? ≠ some 0 → command ≠ 0 ∧ command :: len ++ body ++ bytes = total)

section Parts

variable {total : Bytes} {sock : Socket} {p : InPacket}

theorem Receiving.stays (h : Receiving total p (streamBytes sock)) {rc : Option MosqErr}
    (hrc : rc ≠ some .protocol) : Stays total rc p (streamBytes sock) := by
  unfold Stays
  rw [if_neg hrc]
  exact h

theorem byteRc_ne_protocol (r : NetRead) : byteRc r ≠ some .protocol := by
  cases r <;> simp [byteRc]

theorem payloadRc_ne_protocol (r : NetRead) : payloadRc r ≠ some .protocol := by
  cases r <;> simp [payloadRc]

theorem readCommand_meets (h : Receiving total p (streamBytes sock)) :
    (readCommand sock p).Meets sock (Stays total) (Holds total) := by
  unfold readCommand
  split_ifs with hcommand
  · apply onRead_meets Nat.one_pos rfl fun r => h.stays (byteRc_ne_protocol r)
    intro b bs sock' hlt hbytes
    obtain rfl : bs = [] := List.eq_nil_of_length_eq_zero (by omega)
    refine ⟨?_, le_rfl, id⟩
    rcases h with ⟨rfl, htotal⟩ | ⟨h, rfl, hok, htotal⟩
    · refine ⟨.length b [], by simp [InPacket.initial, Held.packet, value], by simp [Held.Ok], ?_⟩
      intro hhead
      have heq := htotal hhead
      rw [← heq, hbytes] at hhead ⊢
      exact ⟨fun hb => hhead (congrArg some hb), rfl⟩
    · refine ⟨h.withCommand b, by cases h <;> rfl, by cases h <;> exact hok, fun hhead => ?_⟩
      exact absurd (by cases h <;> exact hcommand) (htotal hhead).1
  · refine ⟨?_, le_rfl, id⟩
    rcases h with ⟨rfl, -⟩ | h
    · exact absurd rfl hcommand
    · exact h

theorem toNat_and_127 (b : Byte) : (b &&& 127).toNat = b.toNat % 128 := by
  rw [UInt8.toNat_and]
  exact Nat.and_two_pow_sub_one_eq_mod _ 7

theorem and_128_ne_zero_iff (b : Byte) : b &&& 128 ≠ 0 ↔ Continues b := by
  have hb : b.toNat < 256 := b.toNat_lt
  have htest : b.toNat.testBit 7 = decide (128 ≤ b.toNat) := by
    rw [Nat.testBit_eq_decide_div_mod_eq, decide_eq_decide]
    omega
  rw [ne_eq, ← UInt8.toNat_inj, UInt8.toNat_and, Continues]
  show ¬ b.toNat &&& 2 ^ 7 = 0 ↔ _
  rw [Nat.and_two_pow, htest]
  by_cases h : 128 ≤ b.toNat <;> simp [h]

/-- A byte of the length is added without overflow. -/
theorem addLength_packet (command : Byte) {done : Bytes} (hdone : done.length ≤ 3) (b : Byte) :
    addLength b { (Held.length command done).packet with
      remainingCount := (Held.length command done).packet.remainingCount - 1 } =
      (Held.length command (done ++ [b])).packet := by
  have hlen : (done ++ [b]).length = done.length + 1 := by
    rw [List.length_append, List.length_singleton]
  have hpow : 128 ^ (done.length + 1) ≤ 128 ^ 4 := Nat.pow_le_pow_right (by omega) (by omega)
  have hvalue := value_lt (done ++ [b])
  rw [hlen] at hvalue
  unfold addLength Held.packet
  dsimp only
  rw [toNat_and_127, ← value_snoc, ← pow_succ, hlen,
    Nat.mod_eq_of_lt (hvalue.trans_le (hpow.trans (by norm_num))),
    Nat.mod_eq_of_lt (hpow.trans_lt (by norm_num))]
  simp only [InPacket.mk.injEq, true_and, and_true]
  push_cast
  omega

/-- The last byte of the length starts the payload. -/
theorem startPayload_packet (command : Byte) {len : Bytes} :
    startPayload (Held.length command len).packet = (Held.payload command len []).packet := by
  unfold startPayload Held.packet
  simp only [neg_neg, List.length_nil, Nat.sub_zero, InPacket.mk.injEq, true_and, and_true]
  split_ifs <;> omega

theorem readLengthLoop_meets (fuel : ℕ) (command : Byte) (done : Bytes)
    (hfuel : 5 ≤ done.length + fuel) (hok : (Held.length command done).Ok)
    (htotal : total.head? ≠ some 0 →
      command ≠ 0 ∧ command :: done ++ streamBytes sock = total) :
    (readLengthLoop fuel sock (Held.length command done).packet).Meets sock (Stays total)
      (HoldsPayload total) := by
  induction fuel generalizing done sock with
  | zero =>
    have := hok.2
    omega
  | succ fuel ih =>
    have hstays : Receiving total (Held.length command done).packet (streamBytes sock) :=
      .inr ⟨_, rfl, hok, htotal⟩
    rw [readLengthLoop]
    apply onRead_meets Nat.one_pos rfl fun r => hstays.stays (byteRc_ne_protocol r)
    intro b bs sock' hlt hbytes
    obtain rfl : bs = [] := List.eq_nil_of_length_eq_zero (by omega)
    have htotal' : total.head? ≠ some 0 →
        command ≠ 0 ∧ command :: (done ++ [b]) ++ streamBytes sock' = total := by
      intro hhead
      refine ⟨(htotal hhead).1, ?_⟩
      rw [← (htotal hhead).2, hbytes]
      simp
    dsimp only [List.headD_cons]
    rcases Nat.lt_or_ge 3 done.length with hlong | hshort
    · have hfour : done.length = 4 := by
        have := hok.2
        omega
      rw [if_pos (by simp only [Held.packet]; omega)]
      refine ⟨?_, fun h => absurd rfl h⟩
      unfold Stays
      rw [if_pos rfl]
      intro hhead
      refine ⟨command, done, b :: streamBytes sock', ?_, hfour, hok.1⟩
      rw [← (htotal' hhead).2]
      simp
    · rw [if_neg (by simp only [Held.packet]; omega), addLength_packet command hshort b]
      split_ifs with hbit
      · rw [and_128_ne_zero_iff] at hbit
        apply ih (done ++ [b]) _ _ htotal'
        · rw [List.length_append, List.length_singleton]
          omega
        · refine ⟨fun c hc => ?_, ?_⟩
          · rcases List.mem_append.1 hc with hc | hc
            · exact hok.1 c hc
            · rw [List.mem_singleton.1 hc]
              exact hbit
          · rw [List.length_append, List.length_singleton]
            omega
      · rw [and_128_ne_zero_iff] at hbit
        refine ⟨⟨command, done ++ [b], [], startPayload_packet command,
          ⟨done, b, rfl, hok.1, hbit⟩, ?_, Nat.zero_le _, ?_⟩, le_rfl, id⟩
        · rw [List.length_append, List.length_singleton]
          omega
        · simpa using htotal'

theorem readLength_meets (h : Holds total p (streamBytes sock)) :
    (readLength sock p).Meets sock (Stays total) (HoldsPayload total) := by
  obtain ⟨h, rfl, hok, htotal⟩ := h
  unfold readLength
  cases h with
  | length command done =>
    rw [if_pos (by simp [Held.packet])]
    exact readLengthLoop_meets 5 command done (by omega) hok htotal
  | payload command len got =>
    have hne : 0 < len.length := by
      obtain ⟨⟨init, last, rfl, -⟩, -⟩ := hok
      rw [List.length_append, List.length_singleton]
      omega
    rw [if_neg (by simp only [Held.packet]; omega)]
    exact ⟨⟨command, len, got, rfl, hok.1, hok.2.1, hok.2.2.le, htotal⟩, le_rfl, id⟩

/-- Bytes of the payload go behind those that are there. -/
theorem extend_packet (command : Byte) (len got bytes : Bytes) :
    { (Held.payload command len got).packet with
      payload := (Held.payload command len got).packet.payload ++ bytes
      toProcess := (Held.payload command len got).packet.toProcess - bytes.length
      pos := (Held.payload command len got).packet.pos + bytes.length } =
      (Held.payload command len (got ++ bytes)).packet := by
  unfold Held.packet
  simp only [List.length_append, InPacket.mk.injEq, true_and, and_true]
  omega

theorem readPayload_meets (fuel : ℕ) (command : Byte) (len got : Bytes)
    (hfuel : value len - got.length ≤ fuel) (hnum : IsNumeral len) (hlen : len.length ≤ 4)
    (hle : got.length ≤ value len)
    (htotal : total.head? ≠ some 0 →
      command ≠ 0 ∧ command :: len ++ got ++ streamBytes sock = total) :
    (readPayload fuel sock (Held.payload command len got).packet).Meets sock (Stays total)
      (Completes total) := by
  induction fuel generalizing got sock with
  | zero => exact ⟨⟨command, len, got, rfl, hnum, hlen, by omega, htotal⟩, le_rfl, id⟩
  | succ fuel ih =>
    rw [readPayload]
    split_ifs with hleft
    · have hstays : Receiving total (Held.payload command len got).packet (streamBytes sock) := by
        have hleft' : 0 < value len - got.length := hleft
        exact .inr ⟨_, rfl, ⟨hnum, hlen, by omega⟩, htotal⟩
      apply onRead_meets hleft rfl fun r => hstays.stays (payloadRc_ne_protocol r)
      intro b bs sock' hlt hbytes
      have hroom : (Held.payload command len got).packet.pos + (b :: bs).length ≤
          (Held.payload command len got).packet.remainingLength := by
        have hlt' : bs.length < value len - got.length := hlt
        show got.length + (b :: bs).length ≤ value len
        rw [List.length_cons]
        omega
      rw [if_pos hroom, extend_packet]
      apply ih
      · rw [List.length_append, List.length_cons]
        omega
      · rw [List.length_append]
        exact hroom
      · intro hhead
        refine ⟨(htotal hhead).1, ?_⟩
        rw [← (htotal hhead).2, hbytes]
        simp
    · have hdone : ¬ value len - got.length > 0 := hleft
      exact ⟨⟨command, len, got, rfl, hnum, hlen, by omega, htotal⟩, le_rfl, id⟩

theorem readParts_meets (h : Receiving total p (streamBytes sock)) :
    (readParts sock p).Meets sock (Stays total) (Completes total) := by
  unfold readParts
  apply (readCommand_meets h).bind
  intro sock1 p1 h1
  apply (readLength_meets h1).bind
  rintro sock2 p2 ⟨command, len, got, rfl, hnum, hlen, hle, htotal⟩
  exact readPayload_meets _ command len got le_rfl hnum hlen hle htotal

end Parts

section Calls

variable {handle : σ → ReadBuffer → Option MosqErr × σ}

/-! ## Whatever arrives -/

/-- A packet in progress that may have been received. -/
def InPacket.Ok (p : InPacket) : Prop := p = .initial ∨ ∃ h : Held, p = h.packet ∧ h.Ok

/-- Behind a command byte 0 nothing else is known of the packet. -/
theorem receiving_zero_iff {p : InPacket} {bytes : Bytes} : Receiving [0] p bytes ↔ p.Ok := by
  simp [Receiving, Holds, InPacket.Ok]

/-- A complete packet has the bytes that its length announces. -/
structure ReadBuffer.WellFormed (b : ReadBuffer) : Prop where
  length_payload : b.payload.length = b.remainingLength
  lt_limit : b.remainingLength < remainingLimit
  pos_eq : b.pos = 0

theorem Completes.wellFormed {total bytes : Bytes} {p : InPacket} (h : Completes total p bytes) :
    p.complete.WellFormed := by
  obtain ⟨command, len, body, rfl, -, hlen, hbody, -⟩ := h
  refine ⟨hbody, ?_, rfl⟩
  exact (value_lt len).trans_le (Nat.pow_le_pow_right (by omega) hlen)

/-- The step lemma: one call, whatever arrives. -/
theorem packetRead_safe (r : Reader σ) (hr : r.inPacket.Ok) :
    ∃ rc r', packetRead handle r = some (rc, r') ∧ (rc ≠ some .protocol → r'.inPacket.Ok) ∧
      (r'.client = r.client ∨
        ∃ b : ReadBuffer, b.WellFormed ∧ r'.client = (handle r.client b).2) := by
  have hparts := readParts_meets (receiving_zero_iff.2 hr : Receiving [0] _ (streamBytes r.sock))
  unfold packetRead
  cases he : readParts r.sock r.inPacket with
  | overflow =>
    rw [he] at hparts
    exact hparts.elim
  | exit rc sock p =>
    rw [he] at hparts
    refine ⟨rc, _, rfl, fun hrc => ?_, .inl rfl⟩
    have hstays := hparts.1
    unfold Stays at hstays
    rw [if_neg hrc] at hstays
    exact receiving_zero_iff.1 hstays
  | next sock p =>
    rw [he] at hparts
    exact ⟨_, _, rfl, fun _ => .inl rfl, .inr ⟨p.complete, hparts.1.wellFormed, rfl⟩⟩

/-- **Whatever arrives**, nothing is written outside a buffer, and
    `_mosquitto_packet_handle` is called for packets of their announced length
    only: what it keeps for these is kept. -/
theorem readPackets_safe {P : σ → Prop}
    (hP : ∀ c (b : ReadBuffer), b.WellFormed → P c → P (handle c b).2) (n : ℕ) (r : Reader σ)
    (hr : r.inPacket.Ok) (hc : P r.client) :
    ∃ rc r', readPackets handle n r = some (rc, r') ∧ P r'.client ∧
      (rc ≠ some .protocol → r'.inPacket.Ok) := by
  induction n generalizing r with
  | zero => exact ⟨none, r, rfl, hc, fun _ => hr⟩
  | succ n ih =>
    obtain ⟨rc, r', he, hok, hclient⟩ := @packetRead_safe σ handle r hr
    have hc' : P r'.client := by
      rcases hclient with h | ⟨b, hb, h⟩ <;> rw [h]
      · exact hc
      · exact hP _ b hb hc
    rw [readPackets, he]
    cases rc with
    | none => exact ih r' (hok (by simp)) hc'
    | some e => exact ⟨some e, r', rfl, hc', hok⟩

end Calls

/-- `_mosquitto_packet_handle` as a log of the packets it is called for. -/
def logPacket (log : List ReadBuffer) (b : ReadBuffer) : Option MosqErr × List ReadBuffer :=
  (none, log ++ [b])

/-- **Whatever arrives.** On any stream, in any pieces and with any errors, no byte
    is written outside a packet's buffer, every packet that is handed on has the
    bytes its length announces, and the packet in progress is well formed unless
    its length is refused. -/
theorem packetRead_wellFormed (n : ℕ) (sock : Socket) :
    ∃ rc r', readPackets logPacket n ⟨[], sock, .initial⟩ = some (rc, r') ∧
      (∀ b ∈ r'.client, b.WellFormed) ∧ (rc ≠ some .protocol → r'.inPacket.Ok) := by
  have hP : ∀ log (b : ReadBuffer), b.WellFormed → (∀ b ∈ log, b.WellFormed) →
      ∀ b' ∈ (logPacket log b).2, b'.WellFormed := by
    intro log b hb hlog b' hb'
    rcases List.mem_append.1 hb' with h | h
    · exact hlog b' h
    · rw [List.mem_singleton.1 h]
      exact hb
  exact readPackets_safe hP n ⟨[], sock, .initial⟩ (.inl rfl) (by simp)

end TrackerDemo.Mosquitto

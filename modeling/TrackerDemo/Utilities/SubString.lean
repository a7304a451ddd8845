import TrackerDemo.Lib.CString

/-!
# Substrings

Model of `getSubString` (`utilities.c`, lines 56–81). `unsigned int` arithmetic
is modulo `2^32`, so the range check of a long substring may wrap around; the
loop counts with an `int`. `none` is a read outside of the input buffer, or an
overflow of the counter.

Results:
* `copyLoop_eq_some`: what the loop copies from inside of the input.
* `copyLoop_eq_none`: a length from `2^31` on overflows the counter.
* `getSubString_exactSlice_iff`: the slice is exact, or rejected, iff the range
  check does not wrap around.
-/

namespace TrackerDemo.Utilities

open TrackerDemo.CString

/-! ## The code -/

/-- The values of `ErrorCode_Type` that the function returns. -/
inductive ErrorCode
  | success | strIndexLengthError
  deriving DecidableEq, Repr

/-- `subString`, and the indices at which the loop has read the input, latest
    first. -/
structure Copied where
  subString : ℕ → Byte
  reads : List ℕ

/-- Lines 72–77. -/
def copyLoop (inputString : Bytes) (subStringLength counter index : ℕ) (c : Copied) :
    Option Copied :=
  if counter < subStringLength then
    match inputString[index]? with
    | none => none
    | some b =>
      if counter + 1 < 2 ^ 31 then
        copyLoop inputString subStringLength (counter + 1) ((index + 1) % 2 ^ 32)
          ⟨Function.update c.subString counter b, index :: c.reads⟩
      else none
  else some { c with subString := Function.update c.subString counter 0 }
termination_by subStringLength - counter

/-- `getSubString`. -/
def getSubString (inputString : Bytes) (subString : ℕ → Byte) (index subStringLength : ℕ) :
    Option (ErrorCode × Copied) :=
  let inputStringLength := (cString inputString).length % 2 ^ 32
  if index > inputStringLength ∨ (index + subStringLength) % 2 ^ 32 > inputStringLength then
    some (.strIndexLengthError, ⟨subString, []⟩)
  else (copyLoop inputString subStringLength 0 index ⟨subString, []⟩).map fun c => (.success, c)

/-! ## The loop -/

/-- The loop has copied the input from `index` on to the first `counter` bytes. -/
structure CopyInvariant (inputString : Bytes) (subString : ℕ → Byte) (index counter : ℕ)
    (c : Copied) : Prop where
  copied : ∀ i < counter, c.subString i = inputString.getD (index + i) 0
  rest : ∀ i, counter ≤ i → c.subString i = subString i
  reads : ∀ j ∈ c.reads, j < index + counter

section

variable {inputString : Bytes} {subString : ℕ → Byte} {index n counter : ℕ} {c : Copied}

/-- The step lemma. -/
theorem CopyInvariant.step (h : CopyInvariant inputString subString index counter c) {b : Byte}
    (hb : inputString[index + counter]? = some b) :
    CopyInvariant inputString subString index (counter + 1)
      ⟨Function.update c.subString counter b, (index + counter) :: c.reads⟩ where
  copied i hi := by
    dsimp only
    obtain rfl | hlt : i = counter ∨ i < counter := by omega
    · rw [Function.update_self, List.getD_eq_getElem?_getD, hb, Option.getD_some]
    · rw [Function.update_of_ne (by omega), h.copied i hlt]
  rest i hi := by
    dsimp only
    rw [Function.update_of_ne (by omega), h.rest i (by omega)]
  reads j hj := by
    obtain rfl | hmem := List.mem_cons.1 hj
    · omega
    · have := h.reads j hmem
      omega

/-- A short substring inside of the input is copied, and ended. -/
theorem copyLoop_eq_some (hn : n < 2 ^ 31) (hlen : index + n ≤ inputString.length)
    (hindex : index + n < 2 ^ 32) (hcounter : counter ≤ n)
    (h : CopyInvariant inputString subString index counter c) :
    ∃ c', CopyInvariant inputString subString index n c' ∧
      copyLoop inputString n counter (index + counter) c =
        some { c' with subString := Function.update c'.subString n 0 } := by
  induction k : n - counter generalizing counter c with
  | zero =>
    obtain rfl : counter = n := by omega
    refine ⟨c, h, ?_⟩
    rw [copyLoop, if_neg (by omega)]
  | succ k ih =>
    have hlt : index + counter < inputString.length := by omega
    have hb := List.getElem?_eq_getElem hlt
    obtain ⟨c', hc', heq⟩ := ih (by omega) (h.step hb) (by omega)
    refine ⟨c', hc', ?_⟩
    rw [copyLoop, if_pos (by omega), hb]
    dsimp only
    rw [if_pos (by omega), Nat.mod_eq_of_lt (by omega), ← heq, Nat.add_assoc]

/-- A long one overflows the counter, or leaves the input before that. -/
theorem copyLoop_eq_none (hn : 2 ^ 31 ≤ n) (hcounter : counter < 2 ^ 31) :
    copyLoop inputString n counter index c = none := by
  induction k : 2 ^ 31 - counter generalizing counter index c with
  | zero => omega
  | succ k ih =>
    rw [copyLoop, if_pos (by omega)]
    cases inputString[index]? with
    | none => rfl
    | some b =>
      dsimp only
      split_ifs with hnext
      · exact ih hnext (by omega)
      · rfl

end

/-! ## The result -/

/-- The call returns the slice, or rejects it. -/
structure ExactSlice (inputString : Bytes) (subString : ℕ → Byte) (index subStringLength : ℕ)
    (error : ErrorCode) (c : Copied) : Prop where
  /-- The slice is in the input. -/
  success_iff : error = .success ↔ index + subStringLength ≤ (cString inputString).length
  /-- It is copied and ended by a NUL, with nothing behind that. -/
  slice : error = .success → ∀ i, c.subString i =
    if i < subStringLength then inputString.getD (index + i) 0
    else if i = subStringLength then 0 else subString i
  /-- Nothing is copied from the terminator of the input on. -/
  reads : ∀ j ∈ c.reads, j < (cString inputString).length
  /-- A rejected call leaves `subString` alone. -/
  rejected : error ≠ .success → c.subString = subString

/-- The index is inside of the input, and the end of the slice wraps around. -/
def WrapsAround (inputString : Bytes) (index subStringLength : ℕ) : Prop :=
  index ≤ (cString inputString).length ∧ 2 ^ 32 ≤ index + subStringLength

section

variable {inputString : Bytes} {index subStringLength : ℕ}

/-- Such a slice passes the range check, and the loop fails on it. -/
theorem getSubString_of_wrapsAround (hlen : (cString inputString).length < 2 ^ 31)
    (hsub : subStringLength < 2 ^ 32) (h : WrapsAround inputString index subStringLength)
    (subString : ℕ → Byte) :
    getSubString inputString subString index subStringLength = none := by
  obtain ⟨hindex, hwrap⟩ := h
  unfold getSubString
  dsimp only
  rw [Nat.mod_eq_of_lt (by omega), if_neg (by omega), copyLoop_eq_none (by omega) (by omega)]
  rfl

/-- Any other slice is checked by its end. -/
theorem getSubString_of_not_wrapsAround (hlen : (cString inputString).length < 2 ^ 31)
    (hsub : subStringLength < 2 ^ 32) (h : ¬WrapsAround inputString index subStringLength)
    (subString : ℕ → Byte) :
    ∃ error c, getSubString inputString subString index subStringLength = some (error, c) ∧
      ExactSlice inputString subString index subStringLength error c := by
  unfold WrapsAround at h
  unfold getSubString
  dsimp only
  rw [Nat.mod_eq_of_lt (show (cString inputString).length < 2 ^ 32 by omega)]
  by_cases hin : index + subStringLength ≤ (cString inputString).length
  · have hbuffer : (cString inputString).length ≤ inputString.length :=
      (List.takeWhile_prefix _).length_le
    have hstart : CopyInvariant inputString subString index 0 ⟨subString, []⟩ :=
      ⟨by simp, by simp, by simp⟩
    obtain ⟨c, hc, heq⟩ := copyLoop_eq_some (n := subStringLength) (by omega) (by omega)
      (by omega) (by omega) hstart
    rw [if_neg (by rw [Nat.mod_eq_of_lt (by omega)]; omega)]
    rw [Nat.add_zero] at heq
    rw [heq]
    refine ⟨.success, _, rfl, iff_of_true rfl hin, fun _ i => ?_,
      fun j hj => ?_, fun hne => absurd rfl hne⟩
    · dsimp only
      split_ifs with hlt hend
      · rw [Function.update_of_ne (by omega), hc.copied i hlt]
      · rw [hend, Function.update_self]
      · rw [Function.update_of_ne hend, hc.rest i (by omega)]
    · have := hc.reads j hj
      omega
  · have hreject : index > (cString inputString).length ∨
        (index + subStringLength) % 2 ^ 32 > (cString inputString).length := by
      by_cases hindex : index ≤ (cString inputString).length
      · rw [Nat.mod_eq_of_lt (by omega)]
        omega
      · exact .inl (by omega)
    rw [if_pos hreject]
    exact ⟨.strIndexLengthError, _, rfl, by simp [hin], by simp, by simp, fun _ => rfl⟩

/-- **Substrings.** The call returns the exact slice or rejects it iff the end of
    the slice does not wrap around. -/
theorem getSubString_exactSlice_iff (hlen : (cString inputString).length < 2 ^ 31)
    (hsub : subStringLength < 2 ^ 32) (subString : ℕ → Byte) :
    (∃ error c, getSubString inputString subString index subStringLength = some (error, c) ∧
      ExactSlice inputString subString index subStringLength error c) ↔
    (cString inputString).length < index ∨ index + subStringLength < 2 ^ 32 := by
  have hcond : ((cString inputString).length < index ∨ index + subStringLength < 2 ^ 32) ↔
      ¬WrapsAround inputString index subStringLength := by
    unfold WrapsAround
    omega
  rw [hcond]
  constructor
  · rintro ⟨error, c, heq, -⟩ hwrap
    rw [getSubString_of_wrapsAround hlen hsub hwrap] at heq
    cases heq
  · exact fun h => getSubString_of_not_wrapsAround hlen hsub h subString

end

/-- `getSubString_exactSlice_iff` for a slice inside of the input. -/
theorem getSubString_exactSlice_iff_inside :
    ∃ error c, getSubString (ascii "tracker" ++ [0]) (fun _ => 0) 1 3 = some (error, c) ∧
      ExactSlice (ascii "tracker" ++ [0]) (fun _ => 0) 1 3 error c :=
  (getSubString_exactSlice_iff (by decide) (by decide) _).2 (.inr (by decide))

/-- All of the text from the second byte on, asked for by the largest length. -/
theorem largestLength_not_exactSlice :
    getSubString (ascii "tracker" ++ [0]) (fun _ => 0) 1 (2 ^ 32 - 1) = none ∧
      ¬∀ (inputString : Bytes) (subString : ℕ → Byte) (index subStringLength : ℕ),
        (0 : Byte) ∈ inputString → (cString inputString).length < 2 ^ 31 → index < 2 ^ 32 →
        subStringLength < 2 ^ 32 →
          ∃ error c, getSubString inputString subString index subStringLength = some (error, c) ∧
            ExactSlice inputString subString index subStringLength error c := by
  have hnone : getSubString (ascii "tracker" ++ [0]) (fun _ => 0) 1 (2 ^ 32 - 1) = none :=
    getSubString_of_wrapsAround (by decide) (by decide) ⟨by decide, by decide⟩ _
  refine ⟨hnone, fun h => ?_⟩
  obtain ⟨error, c, heq, -⟩ := h (ascii "tracker" ++ [0]) (fun _ => 0) 1 (2 ^ 32 - 1) (by decide)
    (by decide) (by decide) (by decide)
  rw [hnone] at heq
  cases heq

end TrackerDemo.Utilities

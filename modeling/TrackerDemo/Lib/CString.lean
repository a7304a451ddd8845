import Mathlib.Data.Rat.Floor
import Mathlib.Data.List.TakeWhile
import Mathlib.Data.List.Induction

/-!
# Bytes, C strings and the string functions of the C library

* A `char` is a `Byte := UInt8`, and a run of bytes in memory is `Bytes`.
* `cString m` is the C string at the start of the memory `m`: the bytes before
  its first NUL.
* A `char` array that keeps old contents is a function `ℕ → Byte`.
* `atoi` and `atof` follow `strtol` and `strtod` on base-10 text. Arithmetic on
  the result of `atof` is exact, so the texts `inf` and `nan` (and hexadecimal
  floats) are read as the digits they start with.
-/

namespace TrackerDemo.CString

abbrev Byte := UInt8
abbrev Bytes := List Byte

/-- The bytes of a string literal. -/
def ascii (s : String) : Bytes := s.toUTF8.data.toList

/-! ## Strings in memory -/

/-- The bytes before the first NUL. -/
def cString (m : Bytes) : Bytes := m.takeWhile (· ≠ 0)

theorem zero_notMem_cString (m : Bytes) : (0 : Byte) ∉ cString m := by
  intro h
  simpa using List.mem_takeWhile_imp h

theorem cString_eq_self {m : Bytes} (h : (0 : Byte) ∉ m) : cString m = m := by
  refine List.takeWhile_eq_self_iff.2 fun b hb => ?_
  simp only [ne_eq, decide_eq_true_eq]
  rintro rfl
  exact h hb

/-- A NUL-free text ended by a NUL is the C string there. -/
theorem cString_append_zero {m : Bytes} (h : (0 : Byte) ∉ m) (rest : Bytes) :
    cString (m ++ 0 :: rest) = m := by
  unfold cString
  rw [List.takeWhile_append_of_pos]
  · simp
  · intro b hb
    simp only [ne_eq, decide_eq_true_eq]
    rintro rfl
    exact h hb

/-- A NUL-free text followed by other memory runs on into it. -/
theorem cString_append {m : Bytes} (h : (0 : Byte) ∉ m) (rest : Bytes) :
    cString (m ++ rest) = m ++ cString rest := by
  unfold cString
  rw [List.takeWhile_append_of_pos]
  intro b hb
  simp only [ne_eq, decide_eq_true_eq]
  rintro rfl
  exact h hb

/-- Memory with a NUL is a C string, the NUL behind it, and more. -/
theorem eq_cString_append {m : Bytes} (h : (0 : Byte) ∈ m) :
    ∃ rest, m = cString m ++ 0 :: rest := by
  obtain ⟨a, rest, rfl, h0⟩ := List.eq_append_cons_of_mem h
  exact ⟨rest, by rw [cString_append_zero h0]⟩

/-- The C string that starts inside of a C string is its tail. -/
theorem cString_drop (m : Bytes) {a : ℕ} (ha : a ≤ (cString m).length) :
    cString (m.drop a) = (cString m).drop a := by
  unfold cString at ha ⊢
  induction m generalizing a with
  | nil => simp
  | cons b m ih =>
    cases a with
    | zero => rfl
    | succ a =>
      by_cases hb : b = 0
      · simp [hb] at ha
      · have ha' : a ≤ (List.takeWhile (fun c => decide (c ≠ 0)) m).length := by
          simpa [hb] using ha
        simpa [hb] using ih ha'

/-- `strcmp(a, b) == 0` on two C strings. -/
def strcmpEq (a b : Bytes) : Bool := a = b

/-- `strncmp(a, b, n) == 0` on two C strings: the first `n` bytes agree, the
    terminating NULs included. -/
def strncmpEq (a b : Bytes) (n : ℕ) : Bool := (a ++ [0]).take n = (b ++ [0]).take n

/-- `strncpy(dst, src, n)` for a C string `src`: exactly `n` bytes are written,
    NULs from the end of `src` on, and no terminator after them. -/
def strncpy (dst : ℕ → Byte) (src : Bytes) (n : ℕ) : ℕ → Byte :=
  fun i => if i < n then src.getD i 0 else dst i

/-- The C string in an array of `size` bytes. -/
def arrayString (size : ℕ) (a : ℕ → Byte) : Bytes := cString ((List.range size).map a)

/-- An array that holds a text, as far as the text goes. -/
theorem arrayString_eq {size : ℕ} {a : ℕ → Byte} {src : Bytes} (h0 : (0 : Byte) ∉ src)
    (hlen : src.length ≤ size) (h : ∀ i (hi : i < src.length), a i = src[i]) :
    arrayString size a =
      src ++ arrayString (size - src.length) fun i => a (src.length + i) := by
  have hsplit : (List.range size).map a =
      src ++ (List.range (size - src.length)).map fun i => a (src.length + i) := by
    conv_lhs => rw [← Nat.add_sub_cancel' hlen, List.range_add, List.map_append, List.map_map]
    congr 1
    apply List.ext_getElem (by simp)
    intro i hi hi'
    simpa using h i hi'
  unfold arrayString
  rw [hsplit, cString_append h0]

theorem arrayString_eq_nil_iff {size : ℕ} (hsize : 0 < size) (a : ℕ → Byte) :
    arrayString size a = [] ↔ a 0 = 0 := by
  obtain ⟨size, rfl⟩ : ∃ n, size = n + 1 := ⟨size - 1, by omega⟩
  unfold arrayString cString
  rw [List.range_succ_eq_map, List.map_cons]
  by_cases h : a 0 = 0 <;> simp [h]

/-- A copy without a terminator is the text itself where a NUL stood behind it. -/
theorem arrayString_strncpy_iff {size : ℕ} {src : Bytes} (h0 : (0 : Byte) ∉ src)
    (hlen : src.length < size) (dst : ℕ → Byte) :
    arrayString size (strncpy dst src src.length) = src ↔ dst src.length = 0 := by
  have hcopy : ∀ i (hi : i < src.length), strncpy dst src src.length i = src[i] := by
    intro i hi
    unfold strncpy
    rw [if_pos hi, List.getD_eq_getElem?_getD, List.getElem?_eq_getElem hi, Option.getD_some]
  have hbehind : strncpy dst src src.length (src.length + 0) = dst src.length := by
    unfold strncpy
    rw [if_neg (by omega), Nat.add_zero]
  rw [arrayString_eq h0 hlen.le hcopy, List.append_right_eq_self,
    arrayString_eq_nil_iff (by omega), hbehind]

/-- An array after texts have been copied to its start, first one first. -/
def copyAll (texts : List Bytes) (a : ℕ → Byte) : ℕ → Byte :=
  texts.foldl (fun a src => strncpy a src src.length) a

theorem copyAll_concat (texts : List Bytes) (src : Bytes) (a : ℕ → Byte) :
    copyAll (texts ++ [src]) a = strncpy (copyAll texts a) src src.length := by
  unfold copyAll
  rw [List.foldl_append]
  rfl

/-- A NUL is still there if no text went as far. -/
theorem copyAll_eq_zero_iff {texts : List Bytes} (h0 : ∀ src ∈ texts, (0 : Byte) ∉ src)
    (a : ℕ → Byte) (i : ℕ) :
    copyAll texts a i = 0 ↔ (∀ src ∈ texts, src.length ≤ i) ∧ a i = 0 := by
  induction texts using List.reverseRecOn with
  | nil => simp [copyAll]
  | append_singleton texts src ih =>
    have hrest := ih fun s hs => h0 s (List.mem_append_left _ hs)
    have hsrc : (0 : Byte) ∉ src := h0 src (by simp)
    rw [copyAll_concat]
    unfold strncpy
    by_cases hi : i < src.length
    · have hne : src[i] ≠ 0 := fun heq => hsrc (heq ▸ List.getElem_mem hi)
      rw [if_pos hi, List.getD_eq_getElem?_getD, List.getElem?_eq_getElem hi, Option.getD_some]
      refine iff_of_false hne fun h => ?_
      have := h.1 src (by simp)
      omega
    · have hfits : src.length ≤ i := by omega
      rw [if_neg hi, hrest, List.forall_mem_append, List.forall_mem_singleton, and_iff_left hfits]

/-- The last text is the C string if none of the others is longer, and a NUL
    stood behind it. -/
theorem arrayString_copyAll_iff {size : ℕ} {texts : List Bytes} {src : Bytes}
    (h0 : ∀ s ∈ texts ++ [src], (0 : Byte) ∉ s) (hlen : src.length < size) (a : ℕ → Byte) :
    arrayString size (copyAll (texts ++ [src]) a) = src ↔
      (∀ s ∈ texts ++ [src], s.length ≤ src.length) ∧ a src.length = 0 := by
  rw [copyAll_concat, arrayString_strncpy_iff (h0 src (by simp)) hlen,
    copyAll_eq_zero_iff fun s hs => h0 s (List.mem_append_left _ hs), List.forall_mem_append,
    List.forall_mem_singleton, and_iff_left le_rfl]

theorem strncmpEq_of_length_lt {a b : Bytes} {n : ℕ} (ha : a.length < n) (hb : b.length < n) :
    strncmpEq a b n = true ↔ a = b := by
  unfold strncmpEq
  rw [List.take_of_length_le (by simp; omega), List.take_of_length_le (by simp; omega)]
  simp

/-! ## Numbers -/

/-- `isspace` in the C locale. -/
def isSpace (c : Byte) : Bool := c = 32 ∨ (9 ≤ c ∧ c ≤ 13)

def isDigit (c : Byte) : Bool := 48 ≤ c ∧ c ≤ 57

/-- The number that a run of decimal digits denotes. -/
def digitsValue (ds : Bytes) : ℕ := ds.foldl (fun v d => 10 * v + (d.toNat - 48)) 0

/-- An optional sign: whether it is `-`, and what follows it. -/
def splitSign : Bytes → Bool × Bytes
  | [] => (false, [])
  | c :: s => if c = 45 then (true, s) else if c = 43 then (false, s) else (false, c :: s)

/-- The digits at the start of the text, with the sign applied. -/
def signedDigits (s : Bytes) : ℤ :=
  let (neg, s) := splitSign s
  let v : ℤ := digitsValue (s.takeWhile isDigit)
  if neg then -v else v

/-- `atoi`. The target's `long` is 32 bits wide, so `strtol` saturates at the
    limits of `int`. -/
def atoi (s : Bytes) : ℤ := max (-2 ^ 31) (min (2 ^ 31 - 1) (signedDigits (s.dropWhile isSpace)))

/-- `unsigned int` from `int`. -/
def toUnsignedInt (v : ℤ) : ℕ := (v % 2 ^ 32).toNat

/-- The decimal exponent at the start of the text, 0 if there is none. -/
def exponentValue : Bytes → ℤ
  | [] => 0
  | c :: s => if c = 101 ∨ c = 69 then signedDigits s else 0

/-- `atof`, in exact arithmetic. -/
def atof (s : Bytes) : ℚ :=
  let (neg, s) := splitSign (s.dropWhile isSpace)
  let whole := s.takeWhile isDigit
  let rest := s.dropWhile isDigit
  let frac := if rest.head? = some 46 then rest.tail.takeWhile isDigit else []
  let rest := if rest.head? = some 46 then rest.tail.dropWhile isDigit else rest
  if whole = [] ∧ frac = [] then 0
  else
    let v : ℚ := digitsValue (whole ++ frac) * (10 : ℚ) ^ (exponentValue rest - frac.length)
    if neg then -v else v

/-- `(unsigned long)x`: truncation towards zero. Below 0 and from `2^32` on the
    C conversion is undefined; the target's instruction saturates there. -/
def toUnsignedLong (x : ℚ) : ℕ := min (2 ^ 32 - 1) ⌊x⌋.toNat

/-- The conversion is the floor exactly where the floor is an `unsigned long`. -/
theorem toUnsignedLong_eq_floor_iff (x : ℚ) :
    (toUnsignedLong x : ℤ) = ⌊x⌋ ↔ 0 ≤ ⌊x⌋ ∧ ⌊x⌋ ≤ 2 ^ 32 - 1 := by
  unfold toUnsignedLong
  omega

theorem toUnsignedLong_mono : Monotone toUnsignedLong := by
  intro x y h
  have := Int.floor_le_floor h
  unfold toUnsignedLong
  omega

/-- A bound on the number is one on the conversion. -/
theorem toUnsignedLong_lt_iff {n : ℕ} (hn : 0 < n) (hmax : n < 2 ^ 32) (x : ℚ) :
    toUnsignedLong x < n ↔ x < n := by
  have hfloor : ⌊x⌋ < (n : ℤ) ↔ x < n := Int.floor_lt
  rw [← hfloor]
  unfold toUnsignedLong
  omega

example : atoi (ascii " -42x") = -42 := by decide

end TrackerDemo.CString

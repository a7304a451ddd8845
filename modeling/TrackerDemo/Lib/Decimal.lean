import TrackerDemo.Lib.CString

/-!
# Numbers as decimal text

What `%d` prints, and `atoi` as its inverse. A text that stands in front of a
byte that is no digit is read back as the number printed.
-/

namespace TrackerDemo.CString

/-- The digits of a number, most significant first. -/
def decimal (n : ℕ) : Bytes :=
  if n < 10 then [UInt8.ofNat (48 + n)] else decimal (n / 10) ++ [UInt8.ofNat (48 + n % 10)]

/-- `%d` of an `int`. -/
def formatInt (v : ℤ) : Bytes := if v < 0 then 45 :: decimal v.natAbs else decimal v.natAbs

/-- The C string that `snprintf(s, size, …)` leaves in `s`. -/
def snprintf (size : ℕ) (text : Bytes) : Bytes := text.take (size - 1)

/-- The `int` with the bits of an `unsigned int`. -/
def toInt (v : ℕ) : ℤ := if v < 2 ^ 31 then v else v - 2 ^ 32

theorem toInt_bounds {v : ℕ} (h : v < 2 ^ 32) : -2 ^ 31 ≤ toInt v ∧ toInt v < 2 ^ 31 := by
  unfold toInt
  split_ifs <;> omega

theorem toInt_inj {v w : ℕ} (hv : v < 2 ^ 32) (hw : w < 2 ^ 32) (h : toInt v = toInt w) :
    v = w := by
  unfold toInt at h
  split_ifs at h <;> omega

theorem snprintf_eq_self {size : ℕ} {text : Bytes} (h : text.length < size) :
    snprintf size text = text := List.take_of_length_le (by omega)

/-! ## Digits -/

theorem isDigit_ofNat {d : ℕ} (h : d < 10) : isDigit (UInt8.ofNat (48 + d)) = true := by
  have hall : ∀ d < 10, isDigit (UInt8.ofNat (48 + d)) = true := by decide
  exact hall d h

theorem isDigit_decimal (n : ℕ) : ∀ c ∈ decimal n, isDigit c = true := by
  induction n using decimal.induct with
  | case1 n h =>
    rw [decimal, if_pos h]
    simpa using isDigit_ofNat h
  | case2 n h ih =>
    rw [decimal, if_neg h]
    intro c hc
    rcases List.mem_append.1 hc with hc | hc
    · exact ih c hc
    · rw [List.mem_singleton.1 hc]
      exact isDigit_ofNat (by omega)

theorem decimal_ne_nil (n : ℕ) : decimal n ≠ [] := by
  rw [decimal]
  split_ifs <;> simp

theorem digitsValue_append_singleton (ds : Bytes) {d : ℕ} (h : d < 10) :
    digitsValue (ds ++ [UInt8.ofNat (48 + d)]) = 10 * digitsValue ds + d := by
  have hbyte : 48 + d < UInt8.size := by
    unfold UInt8.size
    omega
  unfold digitsValue
  rw [List.foldl_append, List.foldl_cons, List.foldl_nil, UInt8.toNat_ofNat_of_lt' hbyte]
  omega

/-- Printing and reading. -/
theorem digitsValue_decimal (n : ℕ) : digitsValue (decimal n) = n := by
  induction n using decimal.induct with
  | case1 n h =>
    rw [decimal, if_pos h]
    simpa [digitsValue] using digitsValue_append_singleton [] h
  | case2 n h ih =>
    rw [decimal, if_neg h, digitsValue_append_singleton _ (by omega), ih]
    omega

theorem length_decimal_le {n k : ℕ} (hk : 0 < k) (h : n < 10 ^ k) : (decimal n).length ≤ k := by
  induction n using decimal.induct generalizing k with
  | case1 n hn =>
    rw [decimal, if_pos hn]
    exact hk
  | case2 n hn ih =>
    obtain ⟨k, rfl⟩ : ∃ j, k = j + 1 := ⟨k - 1, by omega⟩
    have hdiv : n / 10 < 10 ^ k := by
      rw [pow_succ] at h
      omega
    have hk' : 0 < k := by
      by_contra h0
      obtain rfl : k = 0 := by omega
      omega
    have := ih hk' hdiv
    rw [decimal, if_neg hn, List.length_append]
    simpa using this

/-- A printed `int` has a sign and ten digits at most. -/
theorem length_formatInt_toInt_le {v : ℕ} (h : v < 2 ^ 32) : (formatInt (toInt v)).length ≤ 11 := by
  have hbounds := toInt_bounds h
  have hdigits : (decimal (toInt v).natAbs).length ≤ 10 := length_decimal_le (by omega) (by omega)
  unfold formatInt
  split_ifs
  · rw [List.length_cons]
    omega
  · omega

/-! ## Reading a printed number -/

/-- A byte that is no digit, or the end of the text. -/
def EndsNumber (rest : Bytes) : Prop := ∀ c ∈ rest.head?, isDigit c = false

theorem takeWhile_isDigit_decimal (n : ℕ) {rest : Bytes} (h : EndsNumber rest) :
    (decimal n ++ rest).takeWhile isDigit = decimal n := by
  rw [List.takeWhile_append_of_pos (isDigit_decimal n)]
  cases rest with
  | nil => simp
  | cons c rest => simp [h c rfl]

/-- A number is no white space and no sign. -/
theorem decimal_head (n : ℕ) :
    ∃ c ds, decimal n = c :: ds ∧ isSpace c = false ∧ c ≠ 45 ∧ c ≠ 43 := by
  obtain ⟨c, ds, hn⟩ := List.exists_cons_of_ne_nil (decimal_ne_nil n)
  have hc := isDigit_decimal n c (by simp [hn])
  refine ⟨c, ds, hn, ?_⟩
  unfold isDigit at hc
  unfold isSpace
  grind

theorem signedDigits_formatInt (v : ℤ) {rest : Bytes} (h : EndsNumber rest) :
    signedDigits (formatInt v ++ rest) = v := by
  unfold signedDigits formatInt
  split_ifs with hv
  · have hsplit : splitSign (45 :: decimal v.natAbs ++ rest) =
        (true, decimal v.natAbs ++ rest) := by
      rw [List.cons_append, splitSign, if_pos rfl]
    rw [hsplit]
    dsimp only
    rw [takeWhile_isDigit_decimal _ h, digitsValue_decimal, if_pos rfl]
    omega
  · obtain ⟨c, ds, hn, -, hminus, hplus⟩ := decimal_head v.natAbs
    have hsplit : splitSign (decimal v.natAbs ++ rest) = (false, decimal v.natAbs ++ rest) := by
      rw [hn, List.cons_append, splitSign, if_neg hminus, if_neg hplus]
    rw [hsplit]
    dsimp only
    rw [takeWhile_isDigit_decimal _ h, digitsValue_decimal, if_neg (by simp)]
    omega

/-- `atoi` reads a printed `int` back. -/
theorem atoi_formatInt {v : ℤ} (hmin : -2 ^ 31 ≤ v) (hmax : v < 2 ^ 31) {rest : Bytes}
    (h : EndsNumber rest) : atoi (formatInt v ++ rest) = v := by
  have hspace : (formatInt v ++ rest).dropWhile isSpace = formatInt v ++ rest := by
    unfold formatInt
    split_ifs
    · rfl
    · obtain ⟨c, ds, hn, hc, -⟩ := decimal_head v.natAbs
      rw [hn, List.cons_append, List.dropWhile_cons_of_neg (by simp [hc])]
  unfold atoi
  rw [hspace, signedDigits_formatInt v h]
  omega

/-- Different numbers are printed differently. -/
theorem formatInt_injective : Function.Injective formatInt := by
  intro v w h
  have hend : EndsNumber [] := by simp [EndsNumber]
  rw [← signedDigits_formatInt v hend, h, signedDigits_formatInt w hend]

end TrackerDemo.CString

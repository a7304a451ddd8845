import Mathlib.Data.List.Induction
import Mathlib.Tactic.Ring

/-!
# Numbers in base 128

A number as bytes of seven bits each, the low ones first; every byte but the last
one has its top bit set.

Results:
* `value_encode`: the bytes of a number have that value.
* `length_encode_le_iff`: how many bytes a number takes.
* `encode_isNumeral`: they are a numeral, and `IsNumeral.eq_of_append`: no numeral
  is the start of another one.
-/

namespace TrackerDemo.Base128

/-- The bytes of a number. -/
def encode (n : ℕ) : List UInt8 :=
  if n < 128 then [UInt8.ofNat n] else UInt8.ofNat (n % 128 + 128) :: encode (n / 128)
termination_by n
decreasing_by omega

/-- The number that a sequence of bytes stands for; the top bits do not count. -/
def value : List UInt8 → ℕ
  | [] => 0
  | b :: bs => b.toNat % 128 + 128 * value bs

/-- The byte is not the last one of a numeral. -/
def Continues (b : UInt8) : Prop := 128 ≤ b.toNat

instance (b : UInt8) : Decidable (Continues b) := inferInstanceAs (Decidable (_ ≤ _))

/-- All bytes but the last one have their top bit set. -/
def IsNumeral (bs : List UInt8) : Prop :=
  ∃ init last, bs = init ++ [last] ∧ (∀ b ∈ init, Continues b) ∧ ¬ Continues last

theorem toNat_ofNat {n : ℕ} (h : n < 256) : (UInt8.ofNat n).toNat = n := by
  rw [UInt8.toNat_ofNat']
  omega

theorem encode_of_lt {n : ℕ} (h : n < 128) : encode n = [UInt8.ofNat n] := by
  rw [encode, if_pos h]

theorem encode_of_le {n : ℕ} (h : 128 ≤ n) :
    encode n = UInt8.ofNat (n % 128 + 128) :: encode (n / 128) := by
  rw [encode, if_neg (by omega)]

theorem value_append (bs bs' : List UInt8) :
    value (bs ++ bs') = value bs + 128 ^ bs.length * value bs' := by
  induction bs with
  | nil => simp [value]
  | cons b bs ih =>
    rw [List.cons_append, value, value, ih, List.length_cons]
    ring

theorem value_snoc (bs : List UInt8) (b : UInt8) :
    value (bs ++ [b]) = value bs + b.toNat % 128 * 128 ^ bs.length := by
  rw [value_append]
  simp only [value]
  ring

theorem value_lt (bs : List UInt8) : value bs < 128 ^ bs.length := by
  induction bs with
  | nil => simp [value]
  | cons b bs ih =>
    have hb : b.toNat % 128 < 128 := Nat.mod_lt _ (by omega)
    rw [value, List.length_cons, pow_succ]
    omega

/-- **The round trip.** -/
theorem value_encode (n : ℕ) : value (encode n) = n := by
  induction n using Nat.strongRecOn with
  | ind n ih =>
    rcases Nat.lt_or_ge n 128 with h | h
    · rw [encode_of_lt h, value, value, toNat_ofNat (by omega)]
      omega
    · rw [encode_of_le h, value, ih _ (by omega), toNat_ofNat (by omega)]
      omega

theorem encode_isNumeral (n : ℕ) : IsNumeral (encode n) := by
  induction n using Nat.strongRecOn with
  | ind n ih =>
    rcases Nat.lt_or_ge n 128 with h | h
    · refine ⟨[], UInt8.ofNat n, encode_of_lt h, by simp, ?_⟩
      unfold Continues
      rw [toNat_ofNat (by omega)]
      omega
    · obtain ⟨init, last, he, hinit, hlast⟩ := ih (n / 128) (by omega)
      refine ⟨UInt8.ofNat (n % 128 + 128) :: init, last, ?_, ?_, hlast⟩
      · rw [encode_of_le h, he]
        rfl
      · intro b hb
        rcases List.mem_cons.1 hb with rfl | hb
        · unfold Continues
          rw [toNat_ofNat (by omega)]
          omega
        · exact hinit b hb

/-- A number takes at most `k` bytes iff it is below `128 ^ k`. -/
theorem length_encode_le_iff {k : ℕ} (hk : 0 < k) (n : ℕ) :
    (encode n).length ≤ k ↔ n < 128 ^ k := by
  induction k generalizing n with
  | zero => omega
  | succ k ih =>
    rcases Nat.lt_or_ge n 128 with h | h
    · rw [encode_of_lt h]
      have hpow : 128 ^ 1 ≤ 128 ^ (k + 1) := Nat.pow_le_pow_right (by omega) (by omega)
      refine iff_of_true (by simp) ?_
      omega
    · rw [encode_of_le h, List.length_cons, Nat.add_le_add_iff_right, pow_succ]
      rcases Nat.eq_zero_or_pos k with rfl | hk'
      · have hne : encode (n / 128) ≠ [] := by
          rw [encode]
          split_ifs <;> simp
        refine iff_of_false ?_ (by omega)
        intro hlen
        exact hne (List.eq_nil_of_length_eq_zero (by omega))
      · rw [ih hk', Nat.div_lt_iff_lt_mul (by omega)]

/-- A numeral is not continued by another one. -/
theorem IsNumeral.eq_of_append {bs bs' rest rest' : List UInt8} (h : IsNumeral bs)
    (h' : IsNumeral bs') (he : bs ++ rest = bs' ++ rest') : bs = bs' ∧ rest = rest' := by
  obtain ⟨init, last, rfl, hinit, hlast⟩ := h
  obtain ⟨init', last', rfl, hinit', hlast'⟩ := h'
  induction init generalizing init' with
  | nil =>
    cases init' with
    | nil => simpa using he
    | cons b init' =>
      simp only [List.nil_append, List.cons_append, List.cons.injEq] at he
      exact absurd (he.1 ▸ hinit' b (by simp)) hlast
  | cons b init ih =>
    cases init' with
    | nil =>
      simp only [List.nil_append, List.cons_append, List.cons.injEq] at he
      exact absurd (he.1 ▸ hinit b (by simp)) hlast'
    | cons b' init' =>
      simp only [List.cons_append, List.cons.injEq] at he
      obtain ⟨h1, h2⟩ := ih (fun c hc => hinit c (List.mem_cons_of_mem b hc)) init' he.2
        fun c hc => hinit' c (List.mem_cons_of_mem b' hc)
      refine ⟨?_, h2⟩
      rw [he.1, List.cons_append, h1, List.cons_append]

end TrackerDemo.Base128

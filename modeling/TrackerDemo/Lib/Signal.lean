import Mathlib.Data.Nat.Notation
import Mathlib.Tactic.Common

/-!
# Sampled signals

A signal is a sequence of samples `s 0, s 1, …`. How long it has been steady is
the number of samples since its last change.

Results:
* `sinceChange_eq_some_iff`, `sinceChange_eq_none_iff`: the samples behind the
  counter.
* `sinceChange_of_steady`: a stretch of equal samples bounds the counter.
-/

namespace TrackerDemo.Signal

variable {α : Type*} [DecidableEq α]

/-- The number of samples after the first one of the present stretch of equal
    samples; `none` if the signal has never changed. -/
def sinceChange (s : ℕ → α) : ℕ → Option ℕ
  | 0 => none
  | n + 1 => if s (n + 1) = s n then (sinceChange s n).map (· + 1) else some 0

variable {s : ℕ → α} {n d : ℕ}

theorem sinceChange_succ_of_eq (h : s (n + 1) = s n) :
    sinceChange s (n + 1) = (sinceChange s n).map (· + 1) := if_pos h

theorem sinceChange_succ_of_ne (h : s (n + 1) ≠ s n) : sinceChange s (n + 1) = some 0 := if_neg h

/-- The last change was `d` samples ago. -/
theorem sinceChange_eq_some_iff :
    sinceChange s n = some d ↔
      ∃ k, n = k + 1 + d ∧ s (k + 1) ≠ s k ∧ ∀ j, k + 1 ≤ j → j ≤ n → s j = s n := by
  induction n generalizing d with
  | zero =>
    refine iff_of_false (by simp [sinceChange]) ?_
    rintro ⟨k, hk, -⟩
    omega
  | succ n ih =>
    by_cases heq : s (n + 1) = s n
    · rw [sinceChange_succ_of_eq heq, Option.map_eq_some_iff]
      constructor
      · rintro ⟨e, he, rfl⟩
        obtain ⟨k, hn, hne, hall⟩ := ih.1 he
        refine ⟨k, by omega, hne, fun j hkj hj => ?_⟩
        rcases Nat.lt_or_ge n j with hlt | hle
        · rw [show j = n + 1 by omega]
        · rw [heq]
          exact hall j hkj hle
      · rintro ⟨k, hn, hne, hall⟩
        have hd : d ≠ 0 := by
          rintro rfl
          rw [show k = n by omega] at hne
          exact hne heq
        refine ⟨d - 1, ih.2 ⟨k, by omega, hne, fun j hkj hj => ?_⟩, by omega⟩
        rw [← heq]
        exact hall j hkj (by omega)
    · rw [sinceChange_succ_of_ne heq, Option.some.injEq]
      constructor
      · rintro rfl
        refine ⟨n, rfl, heq, fun j hnj hj => ?_⟩
        rw [show j = n + 1 by omega]
      · rintro ⟨k, hn, hne, hall⟩
        by_contra hd
        exact heq (hall n (by omega) (by omega)).symm

/-- The signal has never changed. -/
theorem sinceChange_eq_none_iff : sinceChange s n = none ↔ ∀ j ≤ n, s j = s n := by
  induction n with
  | zero => exact iff_of_true rfl fun j hj => by rw [Nat.le_zero.1 hj]
  | succ n ih =>
    by_cases heq : s (n + 1) = s n
    · rw [sinceChange_succ_of_eq heq, Option.map_eq_none_iff, ih]
      constructor
      · intro h j hj
        rcases Nat.lt_or_ge n j with hlt | hle
        · rw [show j = n + 1 by omega]
        · rw [heq]
          exact h j hle
      · intro h j hj
        rw [← heq]
        exact h j (by omega)
    · rw [sinceChange_succ_of_ne heq]
      exact iff_of_false (by simp) fun h => heq (h n (by omega)).symm

/-- Where the last samples are equal, the last change is before them. -/
theorem sinceChange_of_steady {w : ℕ} (h : ∀ j, n - w ≤ j → j ≤ n → s j = s n)
    (hd : sinceChange s n = some d) : w ≤ d := by
  obtain ⟨k, hn, hne, -⟩ := sinceChange_eq_some_iff.1 hd
  by_contra hlt
  apply hne
  rw [h k (by omega) (by omega), h (k + 1) (by omega) (by omega)]

end TrackerDemo.Signal

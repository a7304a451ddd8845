import Mathlib.Algebra.Order.Field.Basic
import Mathlib.Tactic.Linarith
import TrackerDemo.Lib.Clamp
import TrackerDemo.Lib.Transition

/-!
# Seeking a target

A position in an interval is stepped towards a target, by steps of one length, until it is
within reach of the target. It may overshoot: when the reach is less than half a step the
position can go on from one side to the other for ever.

Results:
* `SeekStep.abs_sub_le`: one step brings the position nearer by the step, or close.
* `Run.seek_abs_sub_le`: the same for a run.
* `Run.seek_eq`: what is within reach stays where it is.
-/

namespace TrackerDemo.Seeking

open TrackerDemo.Clamp TrackerDemo.Transition

variable {α : Type*} [Field α] [LinearOrder α] [IsStrictOrderedRing α]

/-- One step from `x` to `x'`, in `[lo, hi]`. -/
structure SeekStep (lo hi step target reach x x' : α) : Prop where
  below : x < target - reach → x' = clamp lo hi (x + step)
  above : target + reach < x → x' = clamp lo hi (x - step)
  within : |x - target| ≤ reach → x' = x

/-- How far from the target a position may still be at the end. -/
def closeness (step reach : α) : α := max reach (step - reach)

section Step

variable {lo hi step target reach x x' : α}

omit [IsStrictOrderedRing α] in
theorem le_closeness (step reach : α) : reach ≤ closeness step reach := le_max_left _ _

/-- From below, the step goes up, and not too far. -/
theorem abs_clamp_add_sub_target_le (htarget : target ≤ hi) (hlo : lo ≤ x) (hstep : 0 ≤ step)
    (hx : x < target - reach) (hreach : 0 ≤ reach) :
    |clamp lo hi (x + step) - target| ≤ max (closeness step reach) (|x - target| - step) := by
  have hclamp : clamp lo hi (x + step) = min hi (x + step) :=
    max_eq_right (le_min (hlo.trans (by linarith)) (by linarith))
  have habs : |x - target| = target - x := by
    rw [abs_sub_comm]
    exact abs_of_nonneg (by linarith)
  rw [hclamp, habs]
  rcases le_total target (x + step) with hover | hunder
  · -- the position gets past the target, or to the end of the interval
    have hle : target ≤ min hi (x + step) := le_min htarget hover
    have hmin : min hi (x + step) ≤ x + step := min_le_right _ _
    rw [abs_of_nonneg (by linarith)]
    apply le_max_of_le_left
    apply le_max_of_le_right
    linarith
  · rw [min_eq_right (hunder.trans htarget), abs_sub_comm, abs_of_nonneg (by linarith)]
    apply le_max_of_le_right
    linarith

/-- The same from above, by reflection. -/
theorem abs_clamp_sub_sub_target_le (htarget : lo ≤ target) (hlohi : lo ≤ hi) (hhi : x ≤ hi)
    (hstep : 0 ≤ step) (hx : target + reach < x) (hreach : 0 ≤ reach) :
    |clamp lo hi (x - step) - target| ≤ max (closeness step reach) (|x - target| - step) := by
  have hmirror := @abs_clamp_add_sub_target_le _ _ _ _ lo hi step (lo + hi - target) reach
    (lo + hi - x) (by linarith) (by linarith) hstep (by linarith) hreach
  have hclamp : clamp lo hi (lo + hi - x + step) = lo + hi - clamp lo hi (x - step) := by
    rw [← clamp_reflect hlohi]
    congr 1
    abel
  rw [hclamp, sub_sub_sub_cancel_left, sub_sub_sub_cancel_left] at hmirror
  rwa [abs_sub_comm, abs_sub_comm x]

/-- **One step** brings the position nearer by the step, or close to the target. -/
theorem SeekStep.abs_sub_le (h : SeekStep lo hi step target reach x x') (htarget : lo ≤ target)
    (htarget' : target ≤ hi) (hlo : lo ≤ x) (hhi : x ≤ hi) (hstep : 0 ≤ step) (hreach : 0 ≤ reach) :
    |x' - target| ≤ max (closeness step reach) (|x - target| - step) := by
  rcases lt_or_ge x (target - reach) with hx | hx
  · rw [h.below hx]
    exact abs_clamp_add_sub_target_le htarget' hlo hstep hx hreach
  rcases lt_or_ge (target + reach) x with hx' | hx'
  · rw [h.above hx']
    exact abs_clamp_sub_sub_target_le htarget (htarget.trans htarget') hhi hstep hx' hreach
  · have hwithin : |x - target| ≤ reach := abs_le.2 ⟨by linarith, by linarith⟩
    rw [h.within hwithin]
    exact le_max_of_le_left (hwithin.trans (le_closeness step reach))

end Step

/-! ## Runs -/

section Runs

variable {σ ι : Type*} {R : σ → ι → σ → Prop} {P : σ → Prop} {f : σ → α}
  {lo hi step target reach : α} {s s' : σ} {ls : List ι}

/-- **A run** brings the position nearer by a step each time, until it is close. -/
theorem Run.seek_abs_sub_le (hP : ∀ s i t, P s → R s i t → P t)
    (hmem : ∀ s, P s → lo ≤ f s ∧ f s ≤ hi)
    (hR : ∀ s i t, P s → R s i t → SeekStep lo hi step target reach (f s) (f t))
    (htarget : lo ≤ target) (htarget' : target ≤ hi) (hstep : 0 ≤ step) (hreach : 0 ≤ reach)
    (hr : Run R s ls s') (hs : P s) :
    |f s' - target| ≤ max (closeness step reach) (|f s - target| - ls.length * step) := by
  induction hr with
  | nil => simp
  | @cons s t u i ls h _ ih =>
    have hone := (hR s i t hs h).abs_sub_le htarget htarget' (hmem s hs).1 (hmem s hs).2
      hstep hreach
    have hlen : 0 ≤ (ls.length : α) * step := mul_nonneg (Nat.cast_nonneg _) hstep
    apply (ih (hP s i t hs h)).trans
    apply max_le (le_max_left _ _)
    rw [List.length_cons, Nat.cast_succ]
    rcases le_max_iff.1 hone with hclose | hnear
    · apply le_max_of_le_left
      linarith
    · apply le_max_of_le_right
      linarith

omit [IsStrictOrderedRing α] in
/-- **What is within reach stays.** -/
theorem Run.seek_eq (hP : ∀ s i t, P s → R s i t → P t)
    (hR : ∀ s i t, P s → R s i t → SeekStep lo hi step target reach (f s) (f t))
    (hr : Run R s ls s') (hs : P s) (hwithin : |f s - target| ≤ reach) : f s' = f s := by
  induction hr with
  | nil => rfl
  | @cons s t u i ls h _ ih =>
    have hstay := (hR s i t hs h).within hwithin
    rw [ih (hP s i t hs h) (by rw [hstay]; exact hwithin), hstay]

end Runs

end TrackerDemo.Seeking

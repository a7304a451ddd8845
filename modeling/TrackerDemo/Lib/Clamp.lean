import Mathlib.Algebra.Order.Group.Unbundled.Abs
import Mathlib.Algebra.Order.Group.Abs
import Mathlib.Algebra.Order.Group.MinMax
import Mathlib.Algebra.Module.NatInt
import Mathlib.Logic.Function.Iterate
import Mathlib.Tactic.Abel

/-!
# Clamping to an interval

`clamp lo hi x` is the point of `[lo, hi]` closest to `x`. A position that is
stepped and clamped again stays in the interval and moves by at most the step,
and the interval may be mirrored. Steps of one sign may be clamped once, at the
end (`iterate_clamp_add`, `iterate_clamp_sub`).
-/

namespace TrackerDemo.Clamp

section Order

variable {α : Type*} [LinearOrder α] {lo hi x : α}

/-- The point of `[lo, hi]` closest to `x`. -/
def clamp (lo hi x : α) : α := max lo (min hi x)

theorem le_clamp (lo hi x : α) : lo ≤ clamp lo hi x := le_max_left _ _

theorem clamp_le (h : lo ≤ hi) (x : α) : clamp lo hi x ≤ hi := max_le h (min_le_left _ _)

theorem clamp_of_mem (h1 : lo ≤ x) (h2 : x ≤ hi) : clamp lo hi x = x := by
  unfold clamp
  rw [min_eq_right h2, max_eq_right h1]

/-- Cutting off above and then below is the clamp. -/
theorem clamp_eq_ite (h : lo ≤ hi) (x : α) :
    clamp lo hi x =
      if (if x > hi then hi else x) < lo then lo else (if x > hi then hi else x) := by
  unfold clamp
  rcases le_or_gt x hi with hx | hx
  · rw [if_neg hx.not_gt, min_eq_right hx]
    split_ifs with hl
    · exact max_eq_left hl.le
    · exact max_eq_right (not_lt.1 hl)
  · rw [if_pos hx, min_eq_left hx.le, if_neg h.not_gt, max_eq_right h]

end Order

section Group

variable {α : Type*} [AddCommGroup α] [LinearOrder α] [IsOrderedAddMonoid α] {lo hi x : α}

/-- Clamping brings two points no further apart. -/
theorem abs_clamp_sub_clamp_le (lo hi x y : α) : |clamp lo hi x - clamp lo hi y| ≤ |x - y| := by
  unfold clamp
  calc |max lo (min hi x) - max lo (min hi y)|
      ≤ |min hi x - min hi y| := by
        rw [max_comm lo, max_comm lo]; exact abs_max_sub_max_le_abs _ _ _
    _ ≤ |x - y| := by
        refine (abs_min_sub_min_le_max hi x hi y).trans ?_
        simp

/-- Clamping the mirror image of a point mirrors the clamped point. -/
theorem clamp_reflect (h : lo ≤ hi) (x : α) :
    clamp lo hi (lo + hi - x) = lo + hi - clamp lo hi x := by
  unfold clamp
  have hhi : min hi (lo + hi - x) = lo + hi - max lo x := by
    rw [← min_sub_sub_left, add_sub_cancel_left]
  have hlo : max lo (lo + hi - max lo x) = lo + hi - min hi (max lo x) := by
    rw [← max_sub_sub_left, add_sub_cancel_right]
  rw [hhi, hlo, max_min_distrib_left, max_eq_right h]

/-- A clamped step from a point of the interval moves by at most the step. -/
theorem abs_clamp_add_sub_le (h1 : lo ≤ x) (h2 : x ≤ hi) (d : α) :
    |clamp lo hi (x + d) - x| ≤ |d| := by
  calc |clamp lo hi (x + d) - x|
      = |clamp lo hi (x + d) - clamp lo hi x| := by rw [clamp_of_mem h1 h2]
    _ ≤ |x + d - x| := abs_clamp_sub_clamp_le ..
    _ = |d| := by rw [add_sub_cancel_left]

/-! ### Steps of one sign -/

/-- Cutting off above may wait until after a step up. -/
theorem min_min_add {d : α} (hd : 0 ≤ d) (hi x : α) : min hi (min hi x + d) = min hi (x + d) := by
  rcases le_total x hi with hx | hx
  · rw [min_eq_right hx]
  · have h1 : hi ≤ hi + d := le_add_of_nonneg_right hd
    have h2 : hi ≤ x + d := h1.trans (add_le_add_left hx d)
    rw [min_eq_left hx, min_eq_left h1, min_eq_left h2]

/-- `n` clamped steps up, clamped once. -/
theorem iterate_clamp_add {d : α} (hd : 0 ≤ d) (h1 : lo ≤ x) (h2 : x ≤ hi) (n : ℕ) :
    (fun y => clamp lo hi (y + d))^[n] x = min hi (x + n • d) := by
  induction n with
  | zero => simp [h2]
  | succ n ih =>
    have hlo : lo ≤ min hi (x + (n + 1) • d) :=
      le_min (h1.trans h2) (h1.trans (le_add_of_nonneg_right (nsmul_nonneg hd _)))
    rw [Function.iterate_succ_apply', ih]
    unfold clamp
    rw [min_min_add hd, add_assoc, ← succ_nsmul, max_eq_right hlo]

/-- `n` clamped steps down, clamped once: the mirror image. -/
theorem iterate_clamp_sub {d : α} (hd : 0 ≤ d) (h1 : lo ≤ x) (h2 : x ≤ hi) (n : ℕ) :
    (fun y => clamp lo hi (y - d))^[n] x = max lo (x - n • d) := by
  have h : lo ≤ hi := h1.trans h2
  have hmirror : Function.Semiconj (fun y => lo + hi - y) (fun y => clamp lo hi (y + d))
      (fun y => clamp lo hi (y - d)) := by
    intro y
    show lo + hi - clamp lo hi (y + d) = clamp lo hi (lo + hi - y - d)
    rw [← clamp_reflect h, sub_sub]
  have hx : x = lo + hi - (lo + hi - x) := by rw [sub_sub_cancel]
  calc (fun y => clamp lo hi (y - d))^[n] x
      = (fun y => clamp lo hi (y - d))^[n] (lo + hi - (lo + hi - x)) := by rw [← hx]
    _ = lo + hi - (fun y => clamp lo hi (y + d))^[n] (lo + hi - x) :=
        ((hmirror.iterate_right n) _).symm
    _ = lo + hi - min hi (lo + hi - x + n • d) := by
        rw [iterate_clamp_add hd (by rwa [le_sub_iff_add_le, add_le_add_iff_left])
          (by rwa [sub_le_iff_le_add, add_comm hi, add_le_add_iff_right])]
    _ = max lo (x - n • d) := by
        rw [← max_sub_sub_left, add_sub_cancel_right]
        congr 1
        abel

/-- A clamped step up moves a point iff it is below the limit. -/
theorem clamp_add_ne_iff {d : α} (hd : 0 < d) (h1 : lo ≤ x) (h2 : x ≤ hi) :
    clamp lo hi (x + d) ≠ x ↔ x < hi := by
  have hx : x < x + d := lt_add_of_pos_right x hd
  unfold clamp
  rw [max_eq_right (le_min (h1.trans h2) (h1.trans hx.le))]
  constructor
  · intro h
    refine lt_of_le_of_ne h2 fun he => h ?_
    rw [← he, min_eq_left hx.le]
  · intro h he
    exact absurd (lt_min h hx) (by rw [he]; exact lt_irrefl x)

theorem clamp_sub_ne_iff {d : α} (hd : 0 < d) (h1 : lo ≤ x) (h2 : x ≤ hi) :
    clamp lo hi (x - d) ≠ x ↔ lo < x := by
  have h : clamp lo hi (x - d) = lo + hi - clamp lo hi (lo + hi - x + d) := by
    rw [← clamp_reflect (h1.trans h2)]
    congr 1
    abel
  calc clamp lo hi (x - d) ≠ x
      ↔ clamp lo hi (lo + hi - x + d) ≠ lo + hi - x := by
        rw [h, ne_eq, ne_eq, sub_eq_iff_eq_add, eq_sub_iff_add_eq', eq_comm]
    _ ↔ lo + hi - x < hi :=
        clamp_add_ne_iff hd (by rwa [le_sub_iff_add_le, add_le_add_iff_left])
          (by rwa [sub_le_iff_le_add, add_comm hi, add_le_add_iff_right])
    _ ↔ lo < x := by rw [sub_lt_iff_lt_add, add_comm hi, add_lt_add_iff_right]

end Group

end TrackerDemo.Clamp

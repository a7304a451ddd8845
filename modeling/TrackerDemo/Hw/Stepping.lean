import Mathlib.Algebra.Order.Floor.Semiring
import TrackerDemo.Hw.Pwm

/-!
# Repeated stepping

`n` calls of `PWM_step` (`GPIO.c`, lines 339–353) on one pin and in one
direction. Each call clamps its own move, so the last step before the limit may
be a short one.

Results:
* `pwmSteps_duty`: the calls leave the duty cycle that one clamp of the whole
  way would.
* `pwmStep_moved_iff`: a call returns true iff the duty cycle was not at the
  limit yet.
* `pwmSteps_closed_form`: the duty cycle and the returned values after `n` calls.
-/

namespace TrackerDemo.Hw

open TrackerDemo.Clamp

/-- `n` calls of `PWM_step`: the values returned, first call first, and the state
    after the last call. -/
def pwmSteps (pin : PWMPin) (increaseDutyCycle : Bool) : ℕ → PWMState → List Bool × PWMState
  | 0, s => ([], s)
  | n + 1, s =>
    let (returned, s) := pwmSteps pin increaseDutyCycle n s
    let (moved, s) := pwmStep pin increaseDutyCycle s
    (returned ++ [moved], s)

/-- A pin with the settings `min`, `max` and `step`, and a duty cycle in range. -/
structure Steppable (pin : PWMPin) (min max step : ℚ) (s : PWMState) : Prop where
  min_eq : (s.config pin).minDutyCycleMSecs = min
  max_eq : (s.config pin).maxDutyCycleMSecs = max
  step_eq : (s.config pin).stepSizeMSecs = step
  inRange : (s.config pin).InRange

/-- Where a step leads from a duty cycle. -/
def nextDuty (min max step : ℚ) (increaseDutyCycle : Bool) (d : ℚ) : ℚ :=
  if increaseDutyCycle then clamp min max (d + step) else clamp min max (d - step)

section

variable {pin : PWMPin} {min max step : ℚ} {s : PWMState}

theorem Steppable.min_le (h : Steppable pin min max step s) : min ≤ pwmGetDutyCycleMSecs pin s :=
  h.min_eq ▸ h.inRange.min_le

theorem Steppable.le_max (h : Steppable pin min max step s) : pwmGetDutyCycleMSecs pin s ≤ max :=
  h.max_eq ▸ h.inRange.le_max

theorem Steppable.range (h : Steppable pin min max step s) :
    (s.config pin).minDutyCycleMSecs ≤ (s.config pin).maxDutyCycleMSecs :=
  h.inRange.min_le.trans h.inRange.le_max

theorem Steppable.limit_stepTarget (h : Steppable pin min max step s) (increase : Bool) :
    (s.config pin).limit ((s.config pin).stepTarget increase) =
      nextDuty min max step increase (pwmGetDutyCycleMSecs pin s) := by
  unfold PWMConfig.limit PWMConfig.stepTarget nextDuty pwmGetDutyCycleMSecs
  rw [h.min_eq, h.max_eq, h.step_eq]
  cases increase
  · simp [sub_eq_add_neg]
  · simp

/-- A step moves the duty cycle to the next one and keeps the settings. -/
theorem Steppable.next (h : Steppable pin min max step s) (increase : Bool) :
    Steppable pin min max step (pwmStep pin increase s).2 ∧
      pwmGetDutyCycleMSecs pin (pwmStep pin increase s).2 =
        nextDuty min max step increase (pwmGetDutyCycleMSecs pin s) := by
  have hconfig := pwmStep_config increase s h.range pin
  rw [if_pos rfl] at hconfig
  constructor
  · refine ⟨?_, ?_, ?_, ?_⟩ <;> rw [hconfig]
    · exact h.min_eq
    · exact h.max_eq
    · exact h.step_eq
    · exact ⟨le_clamp _ _ _, clamp_le h.range _⟩
  · rw [← h.limit_stepTarget]
    unfold pwmGetDutyCycleMSecs
    rw [hconfig, withDuty_current]

/-- The calls iterate the step from one duty cycle to the next. -/
theorem Steppable.iterate (h : Steppable pin min max step s) (increase : Bool) (n : ℕ) :
    Steppable pin min max step (pwmSteps pin increase n s).2 ∧
      pwmGetDutyCycleMSecs pin (pwmSteps pin increase n s).2 =
        (nextDuty min max step increase)^[n] (pwmGetDutyCycleMSecs pin s) := by
  induction n with
  | zero => exact ⟨h, rfl⟩
  | succ n ih =>
    obtain ⟨hn, hduty⟩ := ih
    rw [Function.iterate_succ_apply', ← hduty]
    exact hn.next increase

/-- What `n` calls leave: the whole way, clamped once. -/
theorem pwmSteps_duty (h : Steppable pin min max step s) (hstep : 0 ≤ step) (n : ℕ) :
    pwmGetDutyCycleMSecs pin (pwmSteps pin true n s).2 =
        Min.min max (pwmGetDutyCycleMSecs pin s + n * step) ∧
      pwmGetDutyCycleMSecs pin (pwmSteps pin false n s).2 =
        Max.max min (pwmGetDutyCycleMSecs pin s - n * step) := by
  have hup : nextDuty min max step true = fun d => clamp min max (d + step) := rfl
  have hdown : nextDuty min max step false = fun d => clamp min max (d - step) := rfl
  rw [(h.iterate true n).2, (h.iterate false n).2, hup, hdown,
    iterate_clamp_add hstep h.min_le h.le_max, iterate_clamp_sub hstep h.min_le h.le_max,
    nsmul_eq_mul]
  exact ⟨rfl, rfl⟩

/-- A call returns true iff the duty cycle was short of the limit. -/
theorem pwmStep_moved_iff (h : Steppable pin min max step s) (hstep : 0 < step) :
    ((pwmStep pin true s).1 = true ↔ pwmGetDutyCycleMSecs pin s < max) ∧
      ((pwmStep pin false s).1 = true ↔ min < pwmGetDutyCycleMSecs pin s) := by
  have hmoved : ∀ increase, (pwmStep pin increase s).1 = true ↔
      nextDuty min max step increase (pwmGetDutyCycleMSecs pin s) ≠ pwmGetDutyCycleMSecs pin s := by
    intro increase
    rw [pwmStep_eq, (pwmSetPosition_enable _ h.range).2, h.limit_stepTarget]
    rfl
  exact ⟨(hmoved true).trans (clamp_add_ne_iff hstep h.min_le h.le_max),
    (hmoved false).trans (clamp_sub_ne_iff hstep h.min_le h.le_max)⟩

/-- The limit is reached with the call whose number is the rounded-up distance in
    steps. -/
theorem pwmStep_moved_after (h : Steppable pin min max step s) (hstep : 0 < step) (n : ℕ) :
    ((pwmStep pin true (pwmSteps pin true n s).2).1 = true ↔
        n < ⌈(max - pwmGetDutyCycleMSecs pin s) / step⌉₊) ∧
      ((pwmStep pin false (pwmSteps pin false n s).2).1 = true ↔
        n < ⌈(pwmGetDutyCycleMSecs pin s - min) / step⌉₊) := by
  obtain ⟨hup, hdown⟩ := pwmSteps_duty h hstep.le n
  rw [(pwmStep_moved_iff (h.iterate true n).1 hstep).1, hup,
    (pwmStep_moved_iff (h.iterate false n).1 hstep).2, hdown, Nat.lt_ceil, Nat.lt_ceil,
    lt_div_iff₀ hstep, lt_div_iff₀ hstep]
  constructor
  · rw [min_lt_iff, or_iff_right (lt_irrefl max), lt_sub_iff_add_lt']
  · rw [lt_max_iff, or_iff_right (lt_irrefl min), lt_sub_comm]

/-- What `n` calls return: call `k` is the test of the step after `k` calls. -/
theorem pwmSteps_returned (increase : Bool) (n : ℕ) :
    (pwmSteps pin increase n s).1 =
      (List.range n).map fun k => (pwmStep pin increase (pwmSteps pin increase k s).2).1 := by
  induction n with
  | zero => rfl
  | succ n ih =>
    rw [List.range_succ, List.map_append, ← ih]
    rfl

end

/-- **Repeated stepping has a closed form.** From a duty cycle `c` in the range
    of an accepted configuration, `n` calls lead to `c ± n · step`, cut off at
    the limit; they return true until the limit is reached, with a short last
    step if need be, and false from then on. -/
theorem pwmSteps_closed_form {pin : PWMPin} {period min max step : ℚ} {result : ℤ}
    {s0 s1 : PWMState} (ha : PWMAccepts period min max step) (hstep : 0 < step)
    (hinit : pwmInit pin period min max step result s0 = some s1) {s : PWMState} {c : ℚ}
    (hs : s.config pin = (s1.config pin).withDuty c) (hmin : min ≤ c) (hmax : c ≤ max) (n : ℕ) :
    (pwmGetDutyCycleMSecs pin (pwmSteps pin true n s).2 = Min.min max (c + n * step) ∧
        (pwmSteps pin true n s).1 = (List.range n).map fun k => decide (k < ⌈(max - c) / step⌉₊)) ∧
      pwmGetDutyCycleMSecs pin (pwmSteps pin false n s).2 = Max.max min (c - n * step) ∧
        (pwmSteps pin false n s).1 =
          (List.range n).map fun k => decide (k < ⌈(c - min) / step⌉₊) := by
  rw [(pwmInit_config ha hinit).1] at hs
  have hsteppable : Steppable pin min max step s := by
    refine ⟨?_, ?_, ?_, ?_⟩ <;> rw [hs]
    · rfl
    · rfl
    · rfl
    · exact ⟨hmin, hmax⟩
  have hc : pwmGetDutyCycleMSecs pin s = c := by
    unfold pwmGetDutyCycleMSecs
    rw [hs, withDuty_current]
  obtain ⟨hup, hdown⟩ := pwmSteps_duty hsteppable hstep.le n
  have hmoved := pwmStep_moved_after hsteppable hstep
  rw [hc] at hup hdown hmoved
  refine ⟨⟨hup, ?_⟩, hdown, ?_⟩
  · rw [pwmSteps_returned]
    exact List.map_congr_left fun k _ => Bool.eq_iff_iff.2 (by simpa using (hmoved k).1)
  · rw [pwmSteps_returned]
    exact List.map_congr_left fun k _ => Bool.eq_iff_iff.2 (by simpa using (hmoved k).2)

/-- `pwmSteps_closed_form` for the documented azimuth range, from 0.25 ms below
    the upper limit with steps of 0.1 ms: the third step is the short one. -/
theorem pwmSteps_closed_form_sample :
    ∃ s : PWMState, pwmGetDutyCycleMSecs .ehrpwm1a s = 2.15 ∧
      pwmGetDutyCycleMSecs .ehrpwm1a (pwmSteps .ehrpwm1a true 4 s).2 = 2.4 ∧
      (pwmSteps .ehrpwm1a true 4 s).1 = [true, true, true, false] := by
  obtain ⟨s1, h1⟩ := Option.isSome_iff_exists.1
    (pwmInit_isSome (.inl rfl) .ehrpwm1a 20 0.6 2.4 0.1 .initial)
  have ha : PWMAccepts 20 0.6 2.4 0.1 := ⟨by norm_num, by norm_num, by norm_num⟩
  have h := pwmSteps_closed_form ha (by norm_num) h1
    (setConfig_config_self s1 .ehrpwm1a ((s1.config .ehrpwm1a).withDuty 2.15))
    (by norm_num) (by norm_num) 4
  have hceil : ⌈((2.4 : ℚ) - 2.15) / 0.1⌉₊ = 3 := by
    rw [Nat.ceil_eq_iff (by decide)]
    norm_num
  rw [hceil] at h
  refine ⟨s1.setConfig .ehrpwm1a ((s1.config .ehrpwm1a).withDuty 2.15), ?_, ?_, ?_⟩
  · unfold pwmGetDutyCycleMSecs
    rw [setConfig_config_self, withDuty_current]
  · rw [h.1.1]
    norm_num
  · rw [h.1.2]
    decide

end TrackerDemo.Hw

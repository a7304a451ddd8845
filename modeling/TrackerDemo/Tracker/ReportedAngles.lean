import Mathlib.Algebra.Order.Group.Pointwise.Interval
import TrackerDemo.Hw.PwmRuns
import TrackerDemo.Tracker.ServoRuns

/-!
# The reported servo angles

Model of the position message of `ReportToBroker_thread` (`trackerDemo.c`,
lines 354–384): each duty cycle as a part of its configured range, scaled to the
total angle of the servo. The division is a `float` division, so an empty range
reports nan or an infinity, and `PWM_init` accepts one when the step size is not
positive.

Results:
* `servoAngleDegrees_mem`, `servoAngleDegrees_lt`: a duty cycle in a proper range
  has an angle between 0 and the total angle, and increases with it.
* `reached_configured`: what the calls of the driver keep after start-up.
* `reportToBrokerPosition_anglesReported_iff`: the angles are as they should be iff both
  ranges are proper.
-/

namespace TrackerDemo.Tracker

open TrackerDemo.Config TrackerDemo.Hw TrackerDemo.Transition TrackerDemo.Clamp

/-! ## The report -/

/-- A `float` division; `none` is a division by zero, which gives nan or an
    infinity. -/
def divide (x y : ℚ) : Option ℚ := if y = 0 then none else some (x / y)

/-- The angle of a servo, as lines 357–364 compute both. -/
def servoAngleDegrees (dutyCycleMSecs minDutyCycleMSecs maxDutyCycleMSecs totalAngleDegrees : ℚ) :
    Option ℚ :=
  (divide (dutyCycleMSecs - minDutyCycleMSecs) (maxDutyCycleMSecs - minDutyCycleMSecs)).map
    (· * totalAngleDegrees)

/-- The three angles of the message; `none` is not a number that it can show. -/
structure PositionReport where
  oa : Option ℚ
  ob : Option ℚ
  og : Option ℚ
  deriving DecidableEq

section

variable (p : Params)

/-- The total angle of each servo. -/
def axisTotalAngle : PWMPin → ℚ
  | .ehrpwm1a => p.float .servoPwmAzimuthTotalAngleDegrees
  | .ehrpwm1b => p.float .servoPwmAltitudeTotalAngleDegrees

/-- Lines 357–380. -/
def reportToBrokerPosition (s : PWMState) : PositionReport :=
  let servoAzimuthAngleDegrees := servoAngleDegrees (pwmGetDutyCycleMSecs .ehrpwm1a s)
    (p.float .servoPwmAzimuthMinDutyCycleMSecs) (p.float .servoPwmAzimuthMaxDutyCycleMSecs)
    (p.float .servoPwmAzimuthTotalAngleDegrees)
  let servoAltitudeAngleDegrees := servoAngleDegrees (pwmGetDutyCycleMSecs .ehrpwm1b s)
    (p.float .servoPwmAltitudeMinDutyCycleMSecs) (p.float .servoPwmAltitudeMaxDutyCycleMSecs)
    (p.float .servoPwmAltitudeTotalAngleDegrees)
  { oa := servoAzimuthAngleDegrees.map (110 + ·)
    ob := servoAltitudeAngleDegrees
    og := some 0 }

/-- The angle of a pin's servo. -/
def axisAngle (pin : PWMPin) (s : PWMState) : Option ℚ :=
  servoAngleDegrees (pwmGetDutyCycleMSecs pin s) (axisMin p pin) (axisMax p pin)
    (axisTotalAngle p pin)

theorem reportToBrokerPosition_eq (s : PWMState) :
    reportToBrokerPosition p s =
      ⟨(axisAngle p .ehrpwm1a s).map (110 + ·), axisAngle p .ehrpwm1b s, some 0⟩ := rfl

/-! ## Angles -/

section Angle

variable {d d' min max total : ℚ}

/-- In a range that is not one point the angle is defined. -/
theorem servoAngleDegrees_of_lt (h : min < max) (d total : ℚ) :
    servoAngleDegrees d min max total = some ((d - min) / (max - min) * total) := by
  unfold servoAngleDegrees divide
  rw [if_neg (sub_pos.2 h).ne']
  rfl

/-- In an empty range no duty cycle has an angle. -/
theorem servoAngleDegrees_of_eq (h : min = max) (d total : ℚ) :
    servoAngleDegrees d min max total = none := by
  unfold servoAngleDegrees divide
  rw [if_pos (sub_eq_zero.2 h.symm)]
  rfl

/-- A duty cycle in the range has an angle between 0 and the total angle. -/
theorem servoAngleDegrees_mem (h : min < max) (hmin : min ≤ d) (hmax : d ≤ max) (total : ℚ) :
    ∃ a ∈ Set.uIcc 0 total, servoAngleDegrees d min max total = some a := by
  refine ⟨_, ?_, servoAngleDegrees_of_lt h d total⟩
  have hrange : 0 < max - min := sub_pos.2 h
  have h0 : 0 ≤ (d - min) / (max - min) := div_nonneg (sub_nonneg.2 hmin) hrange.le
  have h1 : (d - min) / (max - min) ≤ 1 := (div_le_one hrange).2 (sub_le_sub_right hmax _)
  rcases le_total 0 total with ht | ht
  · rw [Set.uIcc_of_le ht]
    exact ⟨mul_nonneg h0 ht, mul_le_of_le_one_left ht h1⟩
  · rw [Set.uIcc_of_ge ht]
    exact ⟨le_mul_of_le_one_left ht h1, mul_nonpos_of_nonneg_of_nonpos h0 ht⟩

/-- A longer duty cycle has a larger angle. -/
theorem servoAngleDegrees_lt (h : min < max) (ht : 0 < total) (hd : d < d') :
    ∃ a a', servoAngleDegrees d min max total = some a ∧
      servoAngleDegrees d' min max total = some a' ∧ a < a' := by
  refine ⟨_, _, servoAngleDegrees_of_lt h d total, servoAngleDegrees_of_lt h d' total, ?_⟩
  have hrange : 0 < max - min := sub_pos.2 h
  have hparts : (d - min) / (max - min) < (d' - min) / (max - min) :=
    (div_lt_div_iff_of_pos_right hrange).2 (sub_lt_sub_right hd _)
  exact mul_lt_mul_of_pos_right hparts ht

end Angle

/-! ## Reachable states -/

/-- The calls that position a servo. -/
def Positions : PWMCall → Prop
  | .init .. => False
  | .setPosition _ | .step _ => True

/-- The states of the driver after `main`'s start-up and any sequence of
    `PWM_setPosition` and `PWM_step` calls. -/
def ReachedByCalls (s : PWMState) : Prop :=
  ∃ (azimuthResult altitudeResult : ℤ) (s0 : PWMState) (calls : List (PWMPin × PWMCall)),
    mainInit p azimuthResult altitudeResult = some s0 ∧ (∀ c ∈ calls, Positions c.2) ∧
      Run callStep s0 calls s

variable {p}

/-- A positioning call keeps the settings and a duty cycle in range. -/
theorem pwmSetPosition_configured (ha : ConfigAccepted p) {s : PWMState} (hs : Configured p s)
    (pin : PWMPin) (d : ℚ) : Configured p (pwmSetPosition pin d s).2 := by
  refine hs.of_withDuty (d := fun q => if q = pin then (s.config q).limit d else
    (s.config q).currentDutyCycleMSecs) (fun q => ?_) fun q => ?_
  · rw [pwmSetPosition_config _ _ _ (hs.min_le_max pin)]
    split_ifs <;> rfl
  · split_ifs
    · unfold PWMConfig.limit
      rw [hs.min_eq, hs.max_eq]
      exact ⟨le_clamp _ _ _, clamp_le (ha q).min_le_max _⟩
    · exact hs.duty_mem q

/-- The step lemma. -/
theorem callStep_configured (ha : ConfigAccepted p) {s s' : PWMState} {c : PWMPin × PWMCall}
    (hc : Positions c.2) (hs : Configured p s) (h : callStep s c s') : Configured p s' := by
  obtain ⟨pin, call⟩ := c
  obtain ⟨ret, h⟩ := h
  cases call with
  | init period min max step result => exact hc.elim
  | setPosition d =>
    cases h
    exact pwmSetPosition_configured ha hs pin d
  | step increase =>
    cases h
    rw [pwmStep_eq]
    exact pwmSetPosition_configured ha hs pin _

/-- The run lemma. -/
theorem reached_configured (ha : ConfigAccepted p) {s : PWMState} (h : ReachedByCalls p s) :
    Configured p s := by
  obtain ⟨r1, r2, s0, calls, h0, hcalls, hr⟩ := h
  have hs0 := mainInit_configured ha h0
  clear h0
  induction hr with
  | nil => exact hs0
  | cons hstep _ ih =>
    exact ih (fun c hc => hcalls c (List.mem_cons_of_mem _ hc))
      (callStep_configured ha (hcalls _ List.mem_cons_self) hs0 hstep)

variable (p)

/-- What the report should be. -/
structure AnglesReported : Prop where
  /-- The divisors are not zero. -/
  divisor_ne_zero : ∀ pin, axisMax p pin - axisMin p pin ≠ 0
  /-- `Oa` lies between 110 and 110 plus the total angle of the azimuth servo. -/
  oa_mem : ∀ s, ReachedByCalls p s →
    ∃ a ∈ Set.uIcc 110 (110 + p.float .servoPwmAzimuthTotalAngleDegrees),
      (reportToBrokerPosition p s).oa = some a
  /-- `Ob` lies between 0 and the total angle of the altitude servo. -/
  ob_mem : ∀ s, ReachedByCalls p s →
    ∃ a ∈ Set.uIcc 0 (p.float .servoPwmAltitudeTotalAngleDegrees),
      (reportToBrokerPosition p s).ob = some a
  /-- `Oa` increases with the duty cycle of `EHRPWM1A`. -/
  oa_lt : 0 < p.float .servoPwmAzimuthTotalAngleDegrees → ∀ s s',
    pwmGetDutyCycleMSecs .ehrpwm1a s < pwmGetDutyCycleMSecs .ehrpwm1a s' →
      ∃ a a', (reportToBrokerPosition p s).oa = some a ∧
        (reportToBrokerPosition p s').oa = some a' ∧ a < a'
  /-- `Ob` increases with the duty cycle of `EHRPWM1B`. -/
  ob_lt : 0 < p.float .servoPwmAltitudeTotalAngleDegrees → ∀ s s',
    pwmGetDutyCycleMSecs .ehrpwm1b s < pwmGetDutyCycleMSecs .ehrpwm1b s' →
      ∃ a a', (reportToBrokerPosition p s).ob = some a ∧
        (reportToBrokerPosition p s').ob = some a' ∧ a < a'

variable {p}

/-- In a reached state the angle of each servo lies between 0 and its total
    angle. -/
theorem axisAngle_mem (ha : ConfigAccepted p) {pin : PWMPin} (h : axisMin p pin < axisMax p pin)
    {s : PWMState} (hs : ReachedByCalls p s) :
    ∃ a ∈ Set.uIcc 0 (axisTotalAngle p pin), axisAngle p pin s = some a :=
  have hduty := (reached_configured ha hs).duty_mem pin
  servoAngleDegrees_mem h hduty.1 hduty.2 _

/-- **The reported angles** are defined, in range and increasing iff no servo has
    an empty range. -/
theorem reportToBrokerPosition_anglesReported_iff (ha : ConfigAccepted p) :
    AnglesReported p ↔ ∀ pin, axisMin p pin < axisMax p pin := by
  constructor
  · intro h pin
    refine lt_of_le_of_ne (ha pin).min_le_max fun he => ?_
    exact h.divisor_ne_zero pin (sub_eq_zero.2 he.symm)
  · intro h
    constructor
    · exact fun pin => (sub_pos.2 (h pin)).ne'
    · intro s hs
      obtain ⟨a, hmem, he⟩ := axisAngle_mem ha (h .ehrpwm1a) hs
      refine ⟨110 + a, ?_, ?_⟩
      · have himage := Set.mem_image_of_mem (fun x => 110 + x) hmem
        rw [Set.image_const_add_uIcc, add_zero] at himage
        exact himage
      · rw [reportToBrokerPosition_eq, he]
        rfl
    · intro s hs
      rw [reportToBrokerPosition_eq]
      exact axisAngle_mem ha (h .ehrpwm1b) hs
    · intro ht s s' hd
      obtain ⟨a, a', he, he', hlt⟩ := servoAngleDegrees_lt (h .ehrpwm1a) ht hd
      refine ⟨110 + a, 110 + a', ?_, ?_, (add_lt_add_iff_left 110).2 hlt⟩
      · rw [reportToBrokerPosition_eq]
        exact congrArg (Option.map (110 + ·)) he
      · rw [reportToBrokerPosition_eq]
        exact congrArg (Option.map (110 + ·)) he'
    · intro ht s s' hd
      rw [reportToBrokerPosition_eq, reportToBrokerPosition_eq]
      exact servoAngleDegrees_lt (h .ehrpwm1b) ht hd

/-- `reportToBrokerPosition_anglesReported_iff` for the sample configuration. -/
theorem reportToBrokerPosition_sample : AnglesReported sampleParams := by
  refine (reportToBrokerPosition_anglesReported_iff sampleParams_accepted).2 ?_
  rintro (_ | _) <;> norm_num [sampleParams, axisMin, axisMax]

end

/-- The sample configuration with an azimuth servo that is not to move: both
    limits at 1.5 ms and a step size of 0. -/
def fixedAzimuth : Params :=
  { sampleParams with
    float := fun
      | .servoPwmAzimuthMinDutyCycleMSecs => 1.5
      | .servoPwmAzimuthMaxDutyCycleMSecs => 1.5
      | .servoPwmAzimuthStepSizeMSecs => 0
      | f => sampleParams.float f }

/-- `PWM_init` accepts it, and the first report has no azimuth angle. -/
theorem reportToBrokerPosition_fixedAzimuth :
    ConfigAccepted fixedAzimuth ∧ ¬ AnglesReported fixedAzimuth ∧
      ∃ s, ReachedByCalls fixedAzimuth s ∧ (reportToBrokerPosition fixedAzimuth s).oa = none := by
  have hne : axisMin fixedAzimuth .ehrpwm1a = axisMax fixedAzimuth .ehrpwm1a := rfl
  refine ⟨?_, fun h => h.divisor_ne_zero .ehrpwm1a (sub_eq_zero.2 hne.symm), ?_⟩
  · rintro (_ | _) <;> constructor <;>
      norm_num [fixedAzimuth, sampleParams, axisMin, axisMax, axisStep]
  · obtain ⟨s0, h0⟩ := Option.isSome_iff_exists.1
      (mainInit_isSome (p := fixedAzimuth) (.inl rfl) (.inl rfl))
    refine ⟨s0, ⟨0, 0, s0, [], h0, by simp, .nil _⟩, ?_⟩
    rw [reportToBrokerPosition_eq, axisAngle, servoAngleDegrees_of_eq hne]
    rfl

end TrackerDemo.Tracker

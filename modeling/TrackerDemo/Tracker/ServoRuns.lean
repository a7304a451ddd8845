import TrackerDemo.Lib.Transition
import TrackerDemo.Tracker.MainLoop

/-!
# The servos over whole runs

The invariant of the control loop: both pins keep the settings `PWM_init` gave
them and a duty cycle inside their range.

Results:
* `mainInit_configured`: the two initial `PWM_setPosition` calls establish the
  invariant.
* `driveServos_config`: what one iteration does to each duty cycle.
* `servoRun_safe`: range, slew and stow bounds for every iteration of every run.
-/

namespace TrackerDemo.Tracker

open TrackerDemo.Config TrackerDemo.Hw TrackerDemo.Transition TrackerDemo.Clamp

/-! ## The configured limits of each pin -/

section

variable (p : Params)

def axisMin : PWMPin → ℚ
  | .ehrpwm1a => p.float .servoPwmAzimuthMinDutyCycleMSecs
  | .ehrpwm1b => p.float .servoPwmAltitudeMinDutyCycleMSecs

def axisMax : PWMPin → ℚ
  | .ehrpwm1a => p.float .servoPwmAzimuthMaxDutyCycleMSecs
  | .ehrpwm1b => p.float .servoPwmAltitudeMaxDutyCycleMSecs

def axisStep : PWMPin → ℚ
  | .ehrpwm1a => p.float .servoPwmAzimuthStepSizeMSecs
  | .ehrpwm1b => p.float .servoPwmAltitudeStepSizeMSecs

def axisStart : PWMPin → ℚ
  | .ehrpwm1a => p.float .servoAzimuthStartPositionPwmMSecs
  | .ehrpwm1b => p.float .servoAltitudeStartPositionPwmMSecs

def axisReversePolarity : PWMPin → Bool
  | .ehrpwm1a => p.bool .servoPwmAzimuthReversePolarity
  | .ehrpwm1b => p.bool .servoPwmAltitudeReversePolarity

/-- The differential that drives a pin's servo. -/
def axisDifferential (v : Corner → ℚ) : PWMPin → ℚ
  | .ehrpwm1a => horizontalDifferential v
  | .ehrpwm1b => altitudeDifferential v

/-- `PWM_init` as it is called for a pin. -/
def axisInit (pin : PWMPin) (result : ℤ) (s : PWMState) : Option PWMState :=
  pwmInit pin p.servoPwmPeriodMSecs (axisMin p pin) (axisMax p pin) (axisStep p pin) result s

/-- `LIGHT_SENSOR_MIN_DIFFERENCE_TO_MOVE_TRACKER`. -/
def threshold : ℚ := p.float .lightSensorMinDifferenceToMoveTracker

/-- `PWM_init` accepts the configuration of both pins. -/
def ConfigAccepted : Prop :=
  ∀ pin, PWMAccepts p.servoPwmPeriodMSecs (axisMin p pin) (axisMax p pin) (axisStep p pin)

/-- The stow position, limited to the range of the altitude servo. -/
def stowPosition : ℚ :=
  clamp (axisMin p .ehrpwm1b) (axisMax p .ehrpwm1b) (p.float .servoAltitudeStowPositionPwmMSecs)

/-- The invariant of the loop: `PWM_init`'s settings, and a duty cycle in
    range. -/
structure Configured (s : PWMState) : Prop where
  min_eq : ∀ pin, (s.config pin).minDutyCycleMSecs = axisMin p pin
  max_eq : ∀ pin, (s.config pin).maxDutyCycleMSecs = axisMax p pin
  step_eq : ∀ pin, (s.config pin).stepSizeMSecs = axisStep p pin
  inRange : ∀ pin, (s.config pin).InRange

variable {p}

theorem Configured.min_le_max {s : PWMState} (h : Configured p s) (pin : PWMPin) :
    (s.config pin).minDutyCycleMSecs ≤ (s.config pin).maxDutyCycleMSecs :=
  (h.inRange pin).min_le.trans (h.inRange pin).le_max

theorem Configured.duty_mem {s : PWMState} (h : Configured p s) (pin : PWMPin) :
    axisMin p pin ≤ pwmGetDutyCycleMSecs pin s ∧ pwmGetDutyCycleMSecs pin s ≤ axisMax p pin :=
  ⟨h.min_eq pin ▸ (h.inRange pin).min_le, h.max_eq pin ▸ (h.inRange pin).le_max⟩

/-- New duty cycles inside the ranges keep the invariant. -/
theorem Configured.of_withDuty {s s' : PWMState} (h : Configured p s) {d : PWMPin → ℚ}
    (hs : ∀ pin, s'.config pin = (s.config pin).withDuty (d pin))
    (hd : ∀ pin, axisMin p pin ≤ d pin ∧ d pin ≤ axisMax p pin) : Configured p s' where
  min_eq pin := by rw [hs, withDuty_min, h.min_eq]
  max_eq pin := by rw [hs, withDuty_max, h.max_eq]
  step_eq pin := by rw [hs, withDuty_step, h.step_eq]
  inRange pin := by
    rw [hs]
    exact ⟨by simpa [h.min_eq] using (hd pin).1, by simpa [h.max_eq] using (hd pin).2⟩

/-! ## Start-up -/

/-- Both pins are initialised, and then both are positioned. -/
theorem mainInit_eq_some {r1 r2 : ℤ} {s : PWMState} (h : mainInit p r1 r2 = some s) :
    ∃ s1 s2, axisInit p .ehrpwm1a r1 .initial = some s1 ∧ axisInit p .ehrpwm1b r2 s1 = some s2 ∧
      s = (pwmSetPosition .ehrpwm1b (axisStart p .ehrpwm1b)
        (pwmSetPosition .ehrpwm1a (axisStart p .ehrpwm1a) s2).2).2 := by
  unfold mainInit at h
  obtain ⟨s1, h1, h⟩ := Option.bind_eq_some_iff.1 h
  obtain ⟨s2, h2, h⟩ := Option.bind_eq_some_iff.1 h
  exact ⟨s1, s2, h1, h2, (Option.some.inj h).symm⟩

/-- After start-up each pin has its configured settings and its start position,
    limited to its range. -/
theorem mainInit_config (ha : ConfigAccepted p) {r1 r2 : ℤ} {s : PWMState}
    (h : mainInit p r1 r2 = some s) (pin : PWMPin) :
    s.config pin = ⟨p.servoPwmPeriodMSecs, clamp (axisMin p pin) (axisMax p pin) (axisStart p pin),
      axisMin p pin, axisMax p pin, axisStep p pin⟩ := by
  obtain ⟨s1, s2, h1, h2, rfl⟩ := mainInit_eq_some h
  obtain ⟨e1, -⟩ := pwmInit_config (ha .ehrpwm1a) h1
  obtain ⟨e2, e2'⟩ := pwmInit_config (ha .ehrpwm1b) h2
  have e1' : s2.config .ehrpwm1a = s1.config .ehrpwm1a := e2' _ (by decide)
  have m2 : (s2.config .ehrpwm1a).minDutyCycleMSecs ≤ (s2.config .ehrpwm1a).maxDutyCycleMSecs := by
    rw [e1', e1]; exact (ha .ehrpwm1a).min_le_max
  have e3 := pwmSetPosition_config .ehrpwm1a (axisStart p .ehrpwm1a) s2 m2
  have m3 : axisMin p .ehrpwm1b ≤ axisMax p .ehrpwm1b := (ha .ehrpwm1b).min_le_max
  rw [pwmSetPosition_config _ _ _ (by rw [e3, if_neg (by decide), e2]; exact m3), e3]
  cases pin with
  | ehrpwm1a => rw [if_neg (by decide), if_pos rfl, e1', e1]; rfl
  | ehrpwm1b => rw [if_pos rfl, if_neg (by decide), e2]; rfl

/-- The program gets to the loop when both export commands return 0 or 1. -/
theorem mainInit_isSome {r1 r2 : ℤ} (h1 : r1 = 0 ∨ r1 = 1) (h2 : r2 = 0 ∨ r2 = 1) :
    (mainInit p r1 r2).isSome := by
  obtain ⟨s1, e1⟩ := Option.isSome_iff_exists.1 (pwmInit_isSome h1 .ehrpwm1a _ _ _ _ _)
  obtain ⟨s2, e2⟩ := Option.isSome_iff_exists.1 (pwmInit_isSome h2 .ehrpwm1b _ _ _ _ s1)
  unfold mainInit
  rw [e1, Option.bind_eq_bind, Option.bind_some, e2]
  rfl

theorem mainInit_configured (ha : ConfigAccepted p) {r1 r2 : ℤ} {s : PWMState}
    (h : mainInit p r1 r2 = some s) : Configured p s := by
  have hc := mainInit_config ha h
  exact ⟨fun pin => by rw [hc], fun pin => by rw [hc], fun pin => by rw [hc],
    fun pin => by rw [hc]; exact ⟨le_clamp _ _ _, clamp_le (ha pin).min_le_max _⟩⟩

/-! ## One iteration -/

variable (p)

/-- The duty cycle that tracking gives a pin: limited to the range after a step,
    unchanged inside the dead band. -/
def trackedDuty (pin : PWMPin) (differential : ℚ) (c : PWMConfig) : ℚ :=
  if differential > threshold p then c.limit (c.stepTarget (!axisReversePolarity p pin))
  else if differential < -threshold p then c.limit (c.stepTarget (axisReversePolarity p pin))
  else c.currentDutyCycleMSecs

/-- The duty cycle that an iteration gives a pin. -/
def drivenDuty (panelIsStowed : Bool) (v : Corner → ℚ) (pin : PWMPin) (c : PWMConfig) : ℚ :=
  if panelIsStowed then
    if pin = .ehrpwm1b then stowPosition p else c.currentDutyCycleMSecs
  else trackedDuty p pin (axisDifferential v pin) c

variable {p}

/-- Tracking one axis: only its pin changes, and only in its duty cycle. -/
theorem trackAxis_config {s : PWMState} (hs : Configured p s) (pin : PWMPin) (d : ℚ)
    (q : PWMPin) :
    (trackAxis p pin (axisReversePolarity p pin) d s).config q =
      if q = pin then (s.config q).withDuty (trackedDuty p pin d (s.config q))
      else s.config q := by
  have hm := hs.min_le_max pin
  unfold trackAxis trackedDuty threshold
  by_cases hq : q = pin
  · rw [if_pos hq]
    split_ifs
    · rw [pwmStep_config _ _ hm, if_pos hq]
    · rw [pwmStep_config _ _ hm, if_pos hq]
    · rfl
  · rw [if_neg hq]
    split_ifs
    · rw [pwmStep_config _ _ hm, if_neg hq]
    · rw [pwmStep_config _ _ hm, if_neg hq]
    · rfl

/-- A tracked duty cycle is in range. -/
theorem trackedDuty_mem {s : PWMState} (hs : Configured p s) (q pin : PWMPin) (d : ℚ) :
    axisMin p q ≤ trackedDuty p pin d (s.config q) ∧
      trackedDuty p pin d (s.config q) ≤ axisMax p q := by
  have hm := hs.min_le_max q
  rw [← hs.min_eq, ← hs.max_eq]
  unfold trackedDuty
  split_ifs
  · exact ⟨le_clamp _ _ _, clamp_le hm _⟩
  · exact ⟨le_clamp _ _ _, clamp_le hm _⟩
  · exact ⟨(hs.inRange q).min_le, (hs.inRange q).le_max⟩

theorem trackAxis_configured {s : PWMState} (hs : Configured p s) (pin : PWMPin) (d : ℚ) :
    Configured p (trackAxis p pin (axisReversePolarity p pin) d s) := by
  refine hs.of_withDuty (d := fun q => if q = pin then trackedDuty p pin d (s.config q) else
    (s.config q).currentDutyCycleMSecs) (fun q => ?_) fun q => ?_
  · rw [trackAxis_config hs]; split_ifs <;> rfl
  · split_ifs
    · exact trackedDuty_mem hs q _ _
    · exact hs.duty_mem q

/-- A tracked duty cycle is at most one step away. -/
theorem abs_trackedDuty_sub_le {c : PWMConfig} (hc : c.InRange) (pin : PWMPin) (d : ℚ) :
    |trackedDuty p pin d c - c.currentDutyCycleMSecs| ≤ |c.stepSizeMSecs| := by
  unfold trackedDuty
  split_ifs
  · exact abs_limit_stepTarget_sub_le hc _
  · exact abs_limit_stepTarget_sub_le hc _
  · simp

/-- Inside the dead band nothing moves. -/
theorem trackedDuty_of_abs_le {d : ℚ} (hd : |d| ≤ threshold p) (pin : PWMPin) (c : PWMConfig) :
    trackedDuty p pin d c = c.currentDutyCycleMSecs := by
  obtain ⟨h1, h2⟩ := abs_le.1 hd
  unfold trackedDuty
  rw [if_neg h2.not_gt, if_neg h1.not_gt]

theorem stowServos_config {s : PWMState} (hs : Configured p s) (q : PWMPin) :
    (stowServos p s).config q =
      if q = .ehrpwm1b then (s.config q).withDuty (stowPosition p) else s.config q := by
  unfold stowServos pwmDisable
  rw [echo_config, pwmSetPosition_config _ _ _ (hs.min_le_max _)]
  split_ifs with hq
  · subst hq
    unfold stowPosition PWMConfig.limit
    rw [hs.min_eq, hs.max_eq]
  · rfl

/-- **One iteration**: every pin gets its driven duty cycle and keeps its
    settings. -/
theorem driveServos_config {s : PWMState} (hs : Configured p s) (stowed : Bool) (v : Corner → ℚ)
    (q : PWMPin) :
    (driveServos p stowed v s).config q =
      (s.config q).withDuty (drivenDuty p stowed v q (s.config q)) := by
  unfold driveServos drivenDuty
  cases stowed with
  | true =>
    rw [if_pos rfl, if_pos rfl, stowServos_config hs]
    split_ifs <;> rfl
  | false =>
    rw [if_neg (by decide), if_neg (by decide)]
    unfold trackServos
    have h1 := trackAxis_config hs .ehrpwm1a (horizontalDifferential v)
    have hc1 := trackAxis_configured hs .ehrpwm1a (horizontalDifferential v)
    refine (trackAxis_config hc1 .ehrpwm1b (altitudeDifferential v) q).trans ?_
    rw [h1]
    cases q <;> rfl

/-- A driven duty cycle is in range. -/
theorem drivenDuty_mem (ha : ConfigAccepted p) {s : PWMState} (hs : Configured p s)
    (stowed : Bool) (v : Corner → ℚ) (q : PWMPin) :
    axisMin p q ≤ drivenDuty p stowed v q (s.config q) ∧
      drivenDuty p stowed v q (s.config q) ≤ axisMax p q := by
  unfold drivenDuty
  split_ifs with h1 h2
  · subst h2
    exact ⟨le_clamp _ _ _, clamp_le (ha .ehrpwm1b).min_le_max _⟩
  · exact hs.duty_mem q
  · exact trackedDuty_mem hs q q _

/-- The step lemma of the invariant. -/
theorem driveServos_configured (ha : ConfigAccepted p) {s : PWMState} (hs : Configured p s)
    (stowed : Bool) (v : Corner → ℚ) : Configured p (driveServos p stowed v s) :=
  hs.of_withDuty (fun q => driveServos_config hs stowed v q)
    fun q => drivenDuty_mem ha hs stowed v q

/-! ## Runs -/

variable (p)

/-- What an iteration does to the servos depends on: `panelIsStowed` and the
    scaled sensor values. -/
structure ServoInput where
  panelIsStowed : Bool
  scaled : Corner → ℚ

/-- The loop as a transition system on the PWM driver. -/
def servoStep (s : PWMState) (i : ServoInput) (s' : PWMState) : Prop :=
  driveServos p i.panelIsStowed i.scaled s = s'

/-- The loop with its read-and-scale block, on all of its shared state. -/
def mainStep (s : MainState) (i : LoopInput) (s' : MainState) : Prop :=
  mainIteration p i s = some s'

/-- The state in which the loop is entered: `irradianceV` is zero. -/
def MainState.entry (pwm : PWMState) : MainState := ⟨pwm, fun _ => 0⟩

variable {p}

theorem servoStep_configured (ha : ConfigAccepted p) {s s' : PWMState} {i : ServoInput}
    (hs : Configured p s) (h : servoStep p s i s') : Configured p s' := by
  rw [← h]; exact driveServos_configured ha hs _ _

/-- An iteration of the loop is a servo step on the values its block computed. -/
theorem mainStep_servoStep {s s' : MainState} {i : LoopInput} (h : mainStep p s i s') :
    ∃ v, servoStep p s.pwm ⟨i.panelIsStowed, v⟩ s'.pwm := by
  obtain ⟨_, v, -, -, rfl⟩ := mainIteration_eq_some_iff.1 h
  exact ⟨v, rfl⟩

theorem mainRun_configured (ha : ConfigAccepted p) {r1 r2 : ℤ} {s0 : PWMState}
    (h0 : mainInit p r1 r2 = some s0) {ls : List LoopInput} {s : MainState}
    (hr : Run (mainStep p) (.entry s0) ls s) : Configured p s.pwm := by
  refine hr.invariant (P := fun s => Configured p s.pwm) (fun s i t hs h => ?_)
    (mainInit_configured ha h0)
  obtain ⟨v, hv⟩ := mainStep_servoStep h
  exact servoStep_configured ha hs hv

/-- What the servos may do in one iteration. -/
structure SafeIteration (p : Params) (i : ServoInput) (s s' : PWMState) : Prop where
  /-- Both duty cycles are in their range. -/
  inRange : ∀ pin, axisMin p pin ≤ pwmGetDutyCycleMSecs pin s' ∧
    pwmGetDutyCycleMSecs pin s' ≤ axisMax p pin
  /-- Tracking moves a servo by at most one step. -/
  slew : i.panelIsStowed = false → ∀ pin,
    |pwmGetDutyCycleMSecs pin s' - pwmGetDutyCycleMSecs pin s| ≤ |axisStep p pin|
  /-- Tracking does not move a servo inside its dead band. -/
  deadBand : i.panelIsStowed = false → ∀ pin,
    |axisDifferential i.scaled pin| ≤ threshold p →
      pwmGetDutyCycleMSecs pin s' = pwmGetDutyCycleMSecs pin s
  /-- Stowing leaves the azimuth alone. -/
  stowAzimuth : i.panelIsStowed = true →
    pwmGetDutyCycleMSecs .ehrpwm1a s' = pwmGetDutyCycleMSecs .ehrpwm1a s
  /-- Stowing parks the altitude servo at the limited stow position. -/
  stowAltitude : i.panelIsStowed = true → pwmGetDutyCycleMSecs .ehrpwm1b s' = stowPosition p

theorem servoStep_safe (ha : ConfigAccepted p) {s s' : PWMState} {i : ServoInput}
    (hs : Configured p s) (h : servoStep p s i s') : SafeIteration p i s s' := by
  have hc := servoStep_configured ha hs h
  have hd : ∀ pin, pwmGetDutyCycleMSecs pin s' =
      drivenDuty p i.panelIsStowed i.scaled pin (s.config pin) := by
    intro pin
    unfold pwmGetDutyCycleMSecs
    rw [← h, driveServos_config hs, withDuty_current]
  constructor
  · exact hc.duty_mem
  · intro hst pin
    rw [hd, drivenDuty, hst, if_neg (by decide), ← hs.step_eq]
    exact abs_trackedDuty_sub_le (hs.inRange pin) pin _
  · intro hst pin hdead
    rw [hd, drivenDuty, hst, if_neg (by decide), trackedDuty_of_abs_le hdead]
    rfl
  · intro hst
    rw [hd, drivenDuty, hst, if_pos rfl, if_neg (by decide)]
    rfl
  · intro hst
    rw [hd, drivenDuty, hst, if_pos rfl, if_pos rfl]

/-- **Servo safety.** For every accepted configuration, start position and
    threshold: the initial positioning puts both duty cycles in range, and every
    iteration of every run is safe. -/
theorem servoRun_safe (ha : ConfigAccepted p) {r1 r2 : ℤ}
    {s0 : PWMState} (h0 : mainInit p r1 r2 = some s0) :
    (∀ pin, axisMin p pin ≤ pwmGetDutyCycleMSecs pin s0 ∧
        pwmGetDutyCycleMSecs pin s0 ≤ axisMax p pin) ∧
      ∀ (ls : List ServoInput) (s : PWMState) (i : ServoInput) (s' : PWMState),
        Run (servoStep p) s0 ls s → servoStep p s i s' → SafeIteration p i s s' := by
  have hc0 := mainInit_configured ha h0
  refine ⟨hc0.duty_mem, fun ls s i s' hr h => servoStep_safe ha ?_ h⟩
  exact hr.invariant (fun _ _ _ hs h => servoStep_configured ha hs h) hc0

end

/-! ## A sample configuration -/

/-- A usable configuration: a 20 ms period, both servos between 0.6 ms and
    2.4 ms and started in the middle, stowed at 0.7 ms. -/
def sampleParams : Params where
  string := fun _ _ => 0
  int := fun _ => 0
  bool := fun _ => false
  float
    | .servoPwmAzimuthMinDutyCycleMSecs => 0.6
    | .servoPwmAzimuthMaxDutyCycleMSecs => 2.4
    | .servoPwmAzimuthStepSizeMSecs => 0.02
    | .servoPwmAzimuthTotalAngleDegrees => 180
    | .servoPwmAltitudeMinDutyCycleMSecs => 0.6
    | .servoPwmAltitudeMaxDutyCycleMSecs => 2.4
    | .servoPwmAltitudeStepSizeMSecs => 0.02
    | .servoPwmAltitudeTotalAngleDegrees => 80
    | .servoAzimuthStartPositionPwmMSecs => 1.5
    | .servoAltitudeStartPositionPwmMSecs => 1.5
    | .servoAltitudeStowPositionPwmMSecs => 0.7
    | .lightSensorMinDifferenceToMoveTracker => 0.02
    | .stowMonitorRateSecs => 0.2
    | .pwmUpdateRateSeconds => 0.3
    | .brokerReportRateSeconds => 1
  servoPwmPeriodMSecs := 20
  lightSensor
    | .leftTop => 0
    | .rightTop => 1
    | .leftBottom => 3
    | .rightBottom => 2
  lightSensorScalar := fun _ => 1
  lightSensorOffset := fun _ => 0

theorem sampleParams_accepted : ConfigAccepted sampleParams := by
  rintro (_ | _) <;> constructor <;> norm_num [sampleParams, axisMin, axisMax, axisStep]

theorem sampleParams_mapping : MappingUsable sampleParams where
  inBounds c := by cases c <;> decide
  injective a b h := by
    cases a <;> cases b <;> first | rfl | exact absurd h (by decide)

/-- `servoRun_safe` for the sample configuration, started with both export
    commands returning 0. -/
theorem servoRun_safe_sample : ∃ s0, mainInit sampleParams 0 0 = some s0 ∧
    ∀ (ls : List ServoInput) (s : PWMState) (i : ServoInput) (s' : PWMState),
      Run (servoStep sampleParams) s0 ls s → servoStep sampleParams s i s' →
        SafeIteration sampleParams i s s' := by
  obtain ⟨s0, h0⟩ := Option.isSome_iff_exists.1
    (mainInit_isSome (p := sampleParams) (.inl rfl) (.inl rfl))
  exact ⟨s0, h0, (servoRun_safe sampleParams_accepted h0).2⟩

end TrackerDemo.Tracker

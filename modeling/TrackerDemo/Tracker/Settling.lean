import TrackerDemo.Lib.Seeking
import TrackerDemo.Tracker.DriveTime

/-!
# Settling on the light

While the panel is not stowed, the loop steps each servo towards the brighter side. When
the sensors tell, for each servo, on which side of some duty cycle it stands, the servo
comes to face the light, in as many iterations as it has steps to go, and then stands
still, or goes to and fro by one step when the dead band is too narrow for its steps.

Results:
* `Faces.seekStep`: an iteration is a step of `Seeking`.
* `tracking_settles`: where the servos are after any number of iterations.
-/

namespace TrackerDemo.Tracker

open TrackerDemo.Config TrackerDemo.Hw TrackerDemo.Transition TrackerDemo.Clamp
  TrackerDemo.Seeking

/-- Where a light is: for each servo the duty cycle with which it faces the light, and how
    near to it the differential stays inside the dead band. -/
structure Light where
  target : PWMPin → ℚ
  reach : PWMPin → ℚ

/-- What the loop does to a servo: it steps the duty cycle up or down, or leaves it. -/
inductive Command
  | up | down | rest
  deriving DecidableEq, Repr

/-- The duty cycle that a command leads to. -/
def Command.duty (c : PWMConfig) : Command → ℚ
  | .up => c.limit (c.currentDutyCycleMSecs + c.stepSizeMSecs)
  | .down => c.limit (c.currentDutyCycleMSecs - c.stepSizeMSecs)
  | .rest => c.currentDutyCycleMSecs

section

variable (p : Params)

/-- The tests of lines 214–224 and 252–262. -/
def command (pin : PWMPin) (differential : ℚ) : Command :=
  if differential > threshold p then (if axisReversePolarity p pin then .down else .up)
  else if differential < -threshold p then (if axisReversePolarity p pin then .up else .down)
  else .rest

/-- The calibrated readings of an iteration. -/
def scaledReadings (hp : MappingUsable p) (atodRead : Corner → ℚ) (c : Corner) : ℚ :=
  p.lightSensorScalar ⟨p.lightSensor c, hp.inBounds c⟩ * atodRead c +
    p.lightSensorOffset ⟨p.lightSensor c, hp.inBounds c⟩

/-- In this iteration the sensors see the light: each pair of sides tells where its servo
    has to go. -/
structure Faces (hp : MappingUsable p) (light : Light) (s : MainState) (i : LoopInput) : Prop where
  tracking : i.panelIsStowed = false
  below : ∀ pin, pwmGetDutyCycleMSecs pin s.pwm < light.target pin - light.reach pin →
    command p pin (axisDifferential (scaledReadings p hp i.atodRead) pin) = .up
  above : ∀ pin, light.target pin + light.reach pin < pwmGetDutyCycleMSecs pin s.pwm →
    command p pin (axisDifferential (scaledReadings p hp i.atodRead) pin) = .down
  within : ∀ pin, |pwmGetDutyCycleMSecs pin s.pwm - light.target pin| ≤ light.reach pin →
    command p pin (axisDifferential (scaledReadings p hp i.atodRead) pin) = .rest

variable {p}

theorem trackedDuty_eq (pin : PWMPin) (differential : ℚ) (c : PWMConfig) :
    trackedDuty p pin differential c = (command p pin differential).duty c := by
  unfold trackedDuty command PWMConfig.stepTarget
  cases axisReversePolarity p pin <;> split_ifs <;> simp_all [Command.duty, sub_eq_add_neg]

/-- An iteration on calibrated readings. -/
theorem mainStep_tracking (hp : MappingUsable p) {s s' : MainState} {i : LoopInput}
    (h : mainStep p s i s') (htracking : i.panelIsStowed = false) (hs : Configured p s.pwm)
    (pin : PWMPin) : pwmGetDutyCycleMSecs pin s'.pwm =
      trackedDuty p pin (axisDifferential (scaledReadings p hp i.atodRead) pin)
        (s.pwm.config pin) := by
  obtain ⟨irr, v, hiteration, -, hv⟩ := mainIteration_of_usable hp i s
  have hscaled : v = scaledReadings p hp i.atodRead := funext hv
  rw [mainStep, hiteration] at h
  obtain rfl := Option.some.inj h
  rw [htracking, hscaled]
  exact trackServos_duty hs _ pin

/-- An iteration is a step towards the light, for each servo. -/
theorem Faces.seekStep {hp : MappingUsable p} {light : Light} {s s' : MainState} {i : LoopInput}
    (hf : Faces p hp light s i) (hs : Configured p s.pwm) (h : mainStep p s i s') (pin : PWMPin) :
    SeekStep (axisMin p pin) (axisMax p pin) (axisStep p pin) (light.target pin) (light.reach pin)
      (pwmGetDutyCycleMSecs pin s.pwm) (pwmGetDutyCycleMSecs pin s'.pwm) := by
  have hduty := mainStep_tracking hp h hf.tracking hs pin
  rw [trackedDuty_eq] at hduty
  rw [← hs.min_eq, ← hs.max_eq, ← hs.step_eq]
  constructor
  · intro hbelow
    rw [hduty, hf.below pin hbelow]
    rfl
  · intro habove
    rw [hduty, hf.above pin habove]
    rfl
  · intro hwithin
    rw [hduty, hf.within pin hwithin]
    rfl

/-! ## Runs -/

/-- **Tracking settles.** As long as the sensors see the light, each iteration brings a servo
    nearer to it by a step, until it is within reach, or within a step less the reach; and
    where the reach is at least half a step, the servo stays where it then is. -/
theorem tracking_settles (ha : ConfigAccepted p) (hp : MappingUsable p) {r1 r2 : ℤ}
    {s0 : PWMState} (h0 : mainInit p r1 r2 = some s0) {light : Light} {pin : PWMPin}
    (hstep : 0 < axisStep p pin) (hreach : 0 ≤ light.reach pin)
    (hmin : axisMin p pin ≤ light.target pin) (hmax : light.target pin ≤ axisMax p pin)
    {ls ls' : List LoopInput} {s s' : MainState}
    (hr : Run (Guarded (Faces p hp light) (mainStep p)) (.entry s0) ls s)
    (hr' : Run (Guarded (Faces p hp light) (mainStep p)) s ls' s') :
    |pwmGetDutyCycleMSecs pin s.pwm - light.target pin| ≤
        max (max (light.reach pin) (axisStep p pin - light.reach pin))
          (|pwmGetDutyCycleMSecs pin s0 - light.target pin| - ls.length * axisStep p pin) ∧
      (axisStep p pin ≤ 2 * light.reach pin →
        |pwmGetDutyCycleMSecs pin s0 - light.target pin| ≤
          light.reach pin + ls.length * axisStep p pin →
        |pwmGetDutyCycleMSecs pin s.pwm - light.target pin| ≤ light.reach pin ∧
          pwmGetDutyCycleMSecs pin s'.pwm = pwmGetDutyCycleMSecs pin s.pwm) := by
  have hkeep : ∀ s i t, Configured p s.pwm → Guarded (Faces p hp light) (mainStep p) s i t →
      Configured p t.pwm := by
    intro s i t hs h
    obtain ⟨v, hv⟩ := mainStep_servoStep h.2
    exact servoStep_configured ha hs hv
  have hseek : ∀ s i t, Configured p s.pwm → Guarded (Faces p hp light) (mainStep p) s i t →
      SeekStep (axisMin p pin) (axisMax p pin) (axisStep p pin) (light.target pin)
        (light.reach pin) (pwmGetDutyCycleMSecs pin s.pwm) (pwmGetDutyCycleMSecs pin t.pwm) :=
    fun s i t hs h => h.1.seekStep hs h.2 pin
  have hs0 : Configured p (MainState.entry s0).pwm := mainInit_configured ha h0
  have hs : Configured p s.pwm := hr.invariant (P := fun s => Configured p s.pwm) hkeep hs0
  have hnear := Run.seek_abs_sub_le (P := fun s => Configured p s.pwm)
    (f := fun s : MainState => pwmGetDutyCycleMSecs pin s.pwm) hkeep
    (fun s hs => hs.duty_mem pin) hseek hmin hmax hstep.le hreach hr hs0
  refine ⟨hnear, fun hhalf hfar => ?_⟩
  have hwithin : |pwmGetDutyCycleMSecs pin s.pwm - light.target pin| ≤ light.reach pin := by
    apply hnear.trans
    refine max_le (max_le le_rfl (by linarith)) ?_
    show |pwmGetDutyCycleMSecs pin s0 - light.target pin| - _ ≤ _
    linarith
  exact ⟨hwithin, Run.seek_eq (P := fun s => Configured p s.pwm)
    (f := fun s : MainState => pwmGetDutyCycleMSecs pin s.pwm) hkeep hseek hr' hs hwithin⟩

end

/-! ## A light to the left -/

/-- One step to the right of the middle. -/
def sampleLight : Light where
  target
    | .ehrpwm1a => 1.52
    | .ehrpwm1b => 1.5
  reach _ := 0.01

/-- The left side is bright. -/
def leftInput : LoopInput where
  atodRead
    | .leftTop | .leftBottom => 1
    | .rightTop | .rightBottom => 0
  panelIsStowed := false

theorem sample_duty {s0 : PWMState} (h0 : mainInit sampleParams 0 0 = some s0) (pin : PWMPin) :
    pwmGetDutyCycleMSecs pin s0 = 1.5 := by
  unfold pwmGetDutyCycleMSecs
  rw [mainInit_config sampleParams_accepted h0]
  cases pin <;> norm_num [clamp, axisMin, axisMax, axisStart, sampleParams]

theorem faces_leftInput {s0 : PWMState} (h0 : mainInit sampleParams 0 0 = some s0) :
    Faces sampleParams sampleParams_mapping sampleLight (.entry s0) leftInput := by
  have hduty : ∀ pin, pwmGetDutyCycleMSecs pin (MainState.entry s0).pwm = 1.5 := sample_duty h0
  constructor
  · rfl
  · intro pin hpin
    rw [hduty] at hpin
    cases pin <;> norm_num [sampleLight] at hpin
    norm_num [command, axisDifferential, horizontalDifferential, scaledReadings, leftInput,
      threshold, axisReversePolarity, sampleParams]
  · intro pin hpin
    rw [hduty] at hpin
    cases pin <;> norm_num [sampleLight] at hpin
  · intro pin hpin
    rw [hduty] at hpin
    cases pin <;> norm_num [sampleLight, abs_le] at hpin
    norm_num [command, axisDifferential, altitudeDifferential, scaledReadings, leftInput,
      threshold, axisReversePolarity, sampleParams]

/-- The first iteration brings the azimuth servo to the light. -/
theorem tracking_settles_sample : ∃ s0 s, mainInit sampleParams 0 0 = some s0 ∧
    Run (Guarded (Faces sampleParams sampleParams_mapping sampleLight) (mainStep sampleParams))
      (.entry s0) [leftInput] s ∧
    |pwmGetDutyCycleMSecs .ehrpwm1a s.pwm - sampleLight.target .ehrpwm1a| ≤ 0.01 := by
  obtain ⟨s0, h0⟩ := Option.isSome_iff_exists.1
    (mainInit_isSome (p := sampleParams) (.inl rfl) (.inl rfl))
  obtain ⟨irr, v, hiteration, -⟩ :=
    mainIteration_of_usable sampleParams_mapping leftInput (MainState.entry s0)
  have hr : Run (Guarded (Faces sampleParams sampleParams_mapping sampleLight)
      (mainStep sampleParams)) (.entry s0) [leftInput] _ :=
    .cons ⟨faces_leftInput h0, hiteration⟩ (.nil _)
  have hstep : 0 < axisStep sampleParams .ehrpwm1a := by norm_num [axisStep, sampleParams]
  have hreach : 0 ≤ sampleLight.reach .ehrpwm1a := by norm_num [sampleLight]
  have hsettled := tracking_settles sampleParams_accepted sampleParams_mapping h0 hstep hreach
    (by norm_num [axisMin, sampleParams, sampleLight])
    (by norm_num [axisMax, sampleParams, sampleLight]) hr (.nil _)
  refine ⟨s0, _, h0, hr, (hsettled.2 ?_ ?_).1⟩
  · norm_num [axisStep, sampleParams, sampleLight]
  · rw [sample_duty h0]
    norm_num [axisStep, sampleParams, sampleLight, abs_le]

end TrackerDemo.Tracker

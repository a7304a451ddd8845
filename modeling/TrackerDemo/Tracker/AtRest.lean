import TrackerDemo.Tracker.DriveTime

/-!
# Servos at rest

`PWM_setPosition` disables a pin whose duty cycle it does not change ("No need
to drive the servo"). Inside the dead band the tracking branch makes no call for
an axis, so its `enable` file keeps the value of an earlier iteration.

Results:
* `deadBand_run_enable`: a pin keeps it while its axis stays in the dead band.
* `atRest_run_iff`: a servo at rest is not driven iff its axis is outside the
  dead band, or its pin was disabled before.
-/

namespace TrackerDemo.Tracker

open TrackerDemo.Config TrackerDemo.Hw TrackerDemo.Transition

/-- If the iteration did not change the pin's duty cycle, the pin ends
    disabled. -/
def RestsDisabled (pin : PWMPin) (s s' : PWMState) : Prop :=
  pwmGetDutyCycleMSecs pin s' = pwmGetDutyCycleMSecs pin s → s'.lastWrite (.enable pin) = some 0

section

variable (p : Params)

/-- The pin's differential passes neither test of the tracking branch. -/
def InDeadBand (v : Corner → ℚ) (pin : PWMPin) : Prop :=
  axisDifferential v pin ≤ threshold p ∧ -threshold p ≤ axisDifferential v pin

/-- Every `enable` file has been written, to 0 or to 1. -/
def EnableWritten (s : PWMState) : Prop :=
  ∀ pin, s.lastWrite (.enable pin) = some 0 ∨ s.lastWrite (.enable pin) = some 1

variable {p}

/-! ## The enable files in one iteration -/

theorem pwmSetPosition_enableWritten (pin : PWMPin) (d : ℚ) (s : PWMState) :
    (pwmSetPosition pin d s).2.lastWrite (.enable pin) = some 0 ∨
      (pwmSetPosition pin d s).2.lastWrite (.enable pin) = some 1 := by
  unfold pwmSetPosition
  dsimp only
  split_ifs <;> simp [pwmEnable, pwmDisable]

/-- A pin in its dead band keeps its `enable` file. -/
theorem trackServos_enable_of_deadBand (v : Corner → ℚ) {pin : PWMPin} (h : InDeadBand p v pin)
    (s : PWMState) : (trackServos p v s).lastWrite (.enable pin) = s.lastWrite (.enable pin) := by
  unfold trackServos
  cases pin with
  | ehrpwm1a =>
    -- the altitude axis comes second and does not touch the azimuth pin
    refine (trackAxis_enable_other _ (by decide) _ _).trans ?_
    exact congrArg (fun t : PWMState => t.lastWrite _) (trackAxis_of_deadBand h _ _)
  | ehrpwm1b =>
    refine (congrArg (fun t : PWMState => t.lastWrite _) (trackAxis_of_deadBand h _ _)).trans ?_
    exact trackAxis_enable_other _ (by decide) _ _

/-- The files stay written. -/
theorem driveServos_enableWritten {s : PWMState} (hs : Configured p s) (h : EnableWritten s)
    (stowed : Bool) (v : Corner → ℚ) : EnableWritten (driveServos p stowed v s) := by
  unfold driveServos
  intro pin
  by_cases hstow : stowed = true
  · rw [if_pos hstow]
    cases pin with
    | ehrpwm1b => exact .inl (stowServos_enable s)
    | ehrpwm1a =>
      have hkeep : (stowServos p s).lastWrite (.enable .ehrpwm1a) =
          s.lastWrite (.enable .ehrpwm1a) := by
        unfold stowServos pwmDisable
        rw [lastWrite_echo, if_neg (by decide), pwmSetPosition_lastWrite_other _ (by decide)]
      rw [hkeep]
      exact h _
  · rw [if_neg hstow, trackServos_enable hs]
    split_ifs
    · exact h pin
    · exact .inl rfl
    · exact .inr rfl

/-! ## Runs -/

theorem mainInit_enableWritten {r1 r2 : ℤ} {s : PWMState} (h : mainInit p r1 r2 = some s) :
    EnableWritten s := by
  obtain ⟨s1, s2, -, -, rfl⟩ := mainInit_eq_some h
  intro pin
  cases pin with
  | ehrpwm1a =>
    rw [pwmSetPosition_lastWrite_other _ (by decide)]
    exact pwmSetPosition_enableWritten _ _ _
  | ehrpwm1b => exact pwmSetPosition_enableWritten _ _ _

theorem mainRun_enableWritten (ha : ConfigAccepted p) {r1 r2 : ℤ} {s0 : PWMState}
    (h0 : mainInit p r1 r2 = some s0) {ls : List LoopInput} {s : MainState}
    (hr : Run (mainStep p) (.entry s0) ls s) : EnableWritten s.pwm := by
  have hinv : Configured p s.pwm ∧ EnableWritten s.pwm := by
    refine hr.invariant (P := fun s => Configured p s.pwm ∧ EnableWritten s.pwm)
      (fun s i t hs h => ?_) ⟨mainInit_configured ha h0, mainInit_enableWritten h0⟩
    obtain ⟨v, hv⟩ := mainStep_servoStep h
    refine ⟨servoStep_configured ha hs.1 hv, ?_⟩
    rw [← hv]
    exact driveServos_enableWritten hs.1 hs.2 _ _
  exact hinv.2

/-- While its axis is tracked and stays in the dead band, a pin stays enabled if
    it was. -/
theorem deadBand_run_enable {pin : PWMPin} {s s' : PWMState} {ls : List ServoInput}
    (hr : Run (servoStep p) s ls s')
    (hls : ∀ i ∈ ls, i.panelIsStowed = false ∧ InDeadBand p i.scaled pin) :
    s'.lastWrite (.enable pin) = s.lastWrite (.enable pin) := by
  refine @Run.frame _ _ (servoStep p) _ (fun s => s.lastWrite (.enable pin))
    (fun i => ¬(i.panelIsStowed = false ∧ InDeadBand p i.scaled pin)) (fun s i t hi hstep => ?_)
    _ _ _ hr fun i hi => not_not.2 (hls i hi)
  obtain ⟨hstow, hdead⟩ := not_not.1 hi
  rw [← hstep]
  unfold driveServos
  rw [hstow, if_neg (by decide)]
  exact trackServos_enable_of_deadBand i.scaled hdead s

/-- **Servos at rest.** In every run of the loop, an iteration that tracks the
    light leaves a servo that it does not move disabled iff the servo's axis is
    outside the dead band, or its pin was not enabled before. -/
theorem atRest_run_iff (ha : ConfigAccepted p) {r1 r2 : ℤ} {s0 : PWMState}
    (h0 : mainInit p r1 r2 = some s0) (ls : List LoopInput) (s : MainState) (i : LoopInput)
    (s' : MainState) (hr : Run (mainStep p) (.entry s0) ls s) (h : mainStep p s i s')
    (hstow : i.panelIsStowed = false) :
    ∃ (irr : Fin numLightSensors → ℚ) (v : Corner → ℚ),
      readAndScale p i.atodRead s.irradianceV = some irr ∧ scaledValues p irr = some v ∧
      ∀ pin, RestsDisabled pin s.pwm s'.pwm ↔
        ¬(InDeadBand p v pin ∧ s.pwm.lastWrite (.enable pin) = some 1) := by
  have hs := mainRun_configured ha h0 hr
  have hwritten := mainRun_enableWritten ha h0 hr
  obtain ⟨irr, v, hirr, hv, rfl⟩ := mainIteration_eq_some_iff.1 h
  refine ⟨irr, v, hirr, hv, fun pin => ?_⟩
  have hdrive : driveServos p i.panelIsStowed v s.pwm = trackServos p v s.pwm := by
    unfold driveServos
    rw [hstow, if_neg (by decide)]
  unfold RestsDisabled InDeadBand
  dsimp only
  rw [hdrive, trackServos_duty hs, trackServos_enable hs]
  by_cases hdead : axisDifferential v pin ≤ threshold p ∧ -threshold p ≤ axisDifferential v pin
  · have hrest : trackedDuty p pin (axisDifferential v pin) (s.pwm.config pin) =
        pwmGetDutyCycleMSecs pin s.pwm :=
      trackedDuty_of_abs_le (abs_le.2 ⟨hdead.2, hdead.1⟩) pin _
    have hkeep : s.pwm.lastWrite (.enable pin) = some 0 ↔
        ¬s.pwm.lastWrite (.enable pin) = some 1 := by
      rcases hwritten pin with h0 | h1
      · simp [h0]
      · simp [h1]
    rw [if_pos hdead, hkeep]
    simp [hrest, hdead]
  · rw [if_neg hdead]
    refine iff_of_true (fun hrest => if_pos hrest) fun hboth => hdead hboth.1

end

/-! ## Resting in the dark -/

/-- All sensors read 0, and the panel is not stowed. -/
def darkInput : LoopInput := ⟨fun _ => 0, false⟩

/-- The first iteration of the sample tracker in the dark: both axes are in the
    dead band, and both pins are still enabled from the start-up. -/
theorem sampleDark_step {s0 : PWMState} (h0 : mainInit sampleParams 0 0 = some s0) :
    ∃ irr v,
      mainStep sampleParams (.entry s0) darkInput ⟨driveServos sampleParams false v s0, irr⟩ ∧
      (∀ pin, InDeadBand sampleParams v pin) ∧ ∀ pin, s0.lastWrite (.enable pin) = some 1 := by
  obtain ⟨irr, v, hstep, -, hv⟩ :=
    mainIteration_of_usable sampleParams_mapping darkInput (MainState.entry s0)
  have hzero : ∀ c, v c = 0 := by
    intro c
    rw [hv]
    norm_num [darkInput, sampleParams]
  refine ⟨irr, v, hstep, fun pin => ?_, fun pin => ?_⟩
  · unfold InDeadBand
    cases pin <;> norm_num [axisDifferential, horizontalDifferential, altitudeDifferential, hzero,
      threshold, sampleParams]
  · have henabled : ∀ pin, (mainInit sampleParams 0 0).map
        (fun s : PWMState => s.lastWrite (.enable pin)) = some (some 1) := by
      intro pin
      cases pin <;> decide +kernel
    have hpin := henabled pin
    rw [h0] at hpin
    exact Option.some.inj hpin

/-- `atRest_run_iff` in that iteration. -/
theorem atRest_run_iff_dark : ∃ s0 s', mainInit sampleParams 0 0 = some s0 ∧
    mainStep sampleParams (.entry s0) darkInput s' ∧
      ∃ irr v, readAndScale sampleParams darkInput.atodRead (fun _ => 0) = some irr ∧
        scaledValues sampleParams irr = some v ∧ ∀ pin, RestsDisabled pin s0 s'.pwm ↔
          ¬(InDeadBand sampleParams v pin ∧ s0.lastWrite (.enable pin) = some 1) := by
  obtain ⟨s0, h0⟩ := Option.isSome_iff_exists.1
    (mainInit_isSome (p := sampleParams) (.inl rfl) (.inl rfl))
  obtain ⟨irr, v, hstep, -⟩ := sampleDark_step h0
  have hrest := atRest_run_iff sampleParams_accepted h0 [] _ darkInput _ (.nil _) hstep rfl
  exact ⟨s0, _, h0, hstep, hrest⟩

/-- The sample tracker's servos are driven although they rest. -/
theorem restingServo_driven : ¬∀ (p : Params) (r1 r2 : ℤ) (s0 : PWMState),
    ConfigAccepted p → mainInit p r1 r2 = some s0 →
      ∀ (ls : List LoopInput) (s : MainState) (i : LoopInput) (s' : MainState),
        Run (mainStep p) (.entry s0) ls s → mainStep p s i s' → i.panelIsStowed = false →
          ∀ pin, RestsDisabled pin s.pwm s'.pwm := by
  intro hall
  obtain ⟨s0, h0⟩ := Option.isSome_iff_exists.1
    (mainInit_isSome (p := sampleParams) (.inl rfl) (.inl rfl))
  obtain ⟨irr, v, hstep, hdead, henabled⟩ := sampleDark_step h0
  have hrests := hall _ 0 0 s0 sampleParams_accepted h0 [] _ darkInput _ (.nil _) hstep rfl
    .ehrpwm1a
  have hconfigured := mainInit_configured sampleParams_accepted h0
  have hduty : pwmGetDutyCycleMSecs .ehrpwm1a (trackServos sampleParams v s0) =
      pwmGetDutyCycleMSecs .ehrpwm1a s0 := by
    rw [trackServos_duty hconfigured]
    exact trackedDuty_of_abs_le (abs_le.2 ⟨(hdead _).2, (hdead _).1⟩) _ _
  have hdisabled : (trackServos sampleParams v s0).lastWrite (.enable .ehrpwm1a) = some 0 :=
    hrests hduty
  rw [trackServos_enable_of_deadBand v (hdead _), henabled] at hdisabled
  exact absurd hdisabled (by decide)

end TrackerDemo.Tracker

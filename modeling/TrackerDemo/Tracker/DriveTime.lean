import TrackerDemo.Tracker.ServoRuns

/-!
# Drive time of commanded moves

A pin's servo is driven while the last value written to the pin's `enable` file
is 1. The tracking branch leaves a pin it moved enabled until the next
iteration; the stow branch disables the altitude pin right after it moved it.

Results:
* `trackServos_enable`: what tracking leaves in the `enable` file of a pin.
* `driveTime_step_iff`: an iteration gives its moves drive time iff it does not
  stow the panel from another altitude.
* `driveTime_run_iff`: the same for every iteration of every run.
-/

namespace TrackerDemo.Tracker

open TrackerDemo.Config TrackerDemo.Hw TrackerDemo.Transition

/-- Every pin whose duty cycle changed ends the iteration enabled. -/
def DriveTime (s s' : PWMState) : Prop :=
  ∀ pin, pwmGetDutyCycleMSecs pin s' ≠ pwmGetDutyCycleMSecs pin s →
    s'.lastWrite (.enable pin) = some 1

/-- The iteration does not stow the panel, or finds the altitude servo at the
    stow position already. -/
def NoStowMove (p : Params) (panelIsStowed : Bool) (s : PWMState) : Prop :=
  panelIsStowed = true → pwmGetDutyCycleMSecs .ehrpwm1b s = stowPosition p

variable {p : Params}

/-- Inside the dead band nothing is called. -/
theorem trackAxis_of_deadBand {pin : PWMPin} {d : ℚ} (h : d ≤ threshold p ∧ -threshold p ≤ d)
    (b : Bool) (s : PWMState) : trackAxis p pin b d s = s := by
  unfold threshold at h
  unfold trackAxis
  rw [if_neg h.1.not_gt, if_neg h.2.not_gt]

/-- The `enable` file of an axis after tracking it: kept inside the dead band,
    and otherwise 1 iff the axis moved. -/
theorem trackAxis_enable_eq {s : PWMState} (hs : Configured p s) (pin : PWMPin) (d : ℚ) :
    (trackAxis p pin (axisReversePolarity p pin) d s).lastWrite (.enable pin) =
      if d ≤ threshold p ∧ -threshold p ≤ d then s.lastWrite (.enable pin)
      else if trackedDuty p pin d (s.config pin) = (s.config pin).currentDutyCycleMSecs then some 0
      else some 1 := by
  have hm := hs.min_le_max pin
  by_cases hdead : d ≤ threshold p ∧ -threshold p ≤ d
  · rw [if_pos hdead, trackAxis_of_deadBand hdead]
  · rw [if_neg hdead]
    unfold trackAxis trackedDuty
    unfold threshold at hdead ⊢
    by_cases habove : d > p.float .lightSensorMinDifferenceToMoveTracker
    · rw [if_pos habove, if_pos habove, pwmStep_eq, (pwmSetPosition_enable _ hm).1]
    · have hbelow : d < -p.float .lightSensorMinDifferenceToMoveTracker := by
        by_contra hge
        exact hdead ⟨not_lt.1 habove, not_lt.1 hge⟩
      rw [if_neg habove, if_neg habove, if_pos hbelow, if_pos hbelow, pwmStep_eq,
        (pwmSetPosition_enable _ hm).1]

/-- Tracking one axis does not write the other axis' `enable` file. -/
theorem trackAxis_enable_other (s : PWMState) {pin q : PWMPin} (hq : q ≠ pin) (b : Bool) (d : ℚ) :
    (trackAxis p pin b d s).lastWrite (.enable q) = s.lastWrite (.enable q) := by
  unfold trackAxis
  split_ifs
  · rw [pwmStep_eq, pwmSetPosition_lastWrite_other _ hq]
  · rw [pwmStep_eq, pwmSetPosition_lastWrite_other _ hq]
  · rfl

/-- **The enable files** after tracking: a pin in its dead band keeps its file,
    another one is enabled iff it moved. -/
theorem trackServos_enable {s : PWMState} (hs : Configured p s) (v : Corner → ℚ) (pin : PWMPin) :
    (trackServos p v s).lastWrite (.enable pin) =
      if axisDifferential v pin ≤ threshold p ∧ -threshold p ≤ axisDifferential v pin then
        s.lastWrite (.enable pin)
      else if trackedDuty p pin (axisDifferential v pin) (s.config pin) =
        (s.config pin).currentDutyCycleMSecs then some 0
      else some 1 := by
  have hs1 := trackAxis_configured hs .ehrpwm1a (horizontalDifferential v)
  cases pin with
  | ehrpwm1a =>
    -- the altitude axis comes second and does not touch the azimuth pin
    refine (trackAxis_enable_other _ (by decide) _ _).trans ?_
    exact trackAxis_enable_eq hs .ehrpwm1a _
  | ehrpwm1b =>
    have hconfig : (trackAxis p .ehrpwm1a (axisReversePolarity p .ehrpwm1a)
        (horizontalDifferential v) s).config .ehrpwm1b = s.config .ehrpwm1b := by
      rw [trackAxis_config hs]
      exact if_neg (by decide)
    have hother : (trackAxis p .ehrpwm1a (axisReversePolarity p .ehrpwm1a)
        (horizontalDifferential v) s).lastWrite (.enable .ehrpwm1b) =
          s.lastWrite (.enable .ehrpwm1b) := trackAxis_enable_other _ (by decide) _ _
    refine (trackAxis_enable_eq hs1 .ehrpwm1b _).trans ?_
    rw [hconfig, hother]
    rfl

theorem trackServos_duty {s : PWMState} (hs : Configured p s) (v : Corner → ℚ) (pin : PWMPin) :
    pwmGetDutyCycleMSecs pin (trackServos p v s) =
      trackedDuty p pin (axisDifferential v pin) (s.config pin) := by
  have hconfig := driveServos_config hs false v pin
  unfold driveServos drivenDuty at hconfig
  rw [if_neg (by decide), if_neg (by decide)] at hconfig
  unfold pwmGetDutyCycleMSecs
  rw [hconfig, withDuty_current]

/-- The tracking branch gives every move drive time. -/
theorem trackServos_driveTime {s : PWMState} (hs : Configured p s) (v : Corner → ℚ) :
    DriveTime s (trackServos p v s) := by
  intro pin hmoved
  rw [trackServos_duty hs] at hmoved
  have hdead : ¬(axisDifferential v pin ≤ threshold p ∧ -threshold p ≤ axisDifferential v pin) :=
    fun h => hmoved (trackedDuty_of_abs_le (abs_le.2 ⟨h.2, h.1⟩) pin _)
  rw [trackServos_enable hs, if_neg hdead]
  exact if_neg hmoved

/-- The stow branch leaves the altitude pin disabled. -/
theorem stowServos_enable (s : PWMState) :
    (stowServos p s).lastWrite (.enable .ehrpwm1b) = some 0 := by
  simp [stowServos, pwmDisable]

theorem driveTime_step_iff {s s' : PWMState} {i : ServoInput} (hs : Configured p s)
    (h : servoStep p s i s') : DriveTime s s' ↔ NoStowMove p i.panelIsStowed s := by
  unfold servoStep driveServos at h
  cases hst : i.panelIsStowed with
  | false =>
    rw [hst, if_neg (by decide)] at h
    subst h
    exact ⟨fun _ hst' => absurd hst' (by decide), fun _ => trackServos_driveTime hs _⟩
  | true =>
    rw [hst, if_pos rfl] at h
    subst h
    have hduty : ∀ pin, pwmGetDutyCycleMSecs pin (stowServos p s) =
        if pin = .ehrpwm1b then stowPosition p else pwmGetDutyCycleMSecs pin s := by
      intro pin
      unfold pwmGetDutyCycleMSecs
      rw [stowServos_config hs]
      split_ifs <;> rfl
    constructor
    · intro hdrive _
      -- were the altitude servo moved, its pin would have to end enabled
      by_contra hne
      have := hdrive .ehrpwm1b (by rw [hduty, if_pos rfl]; exact Ne.symm hne)
      rw [stowServos_enable] at this
      cases this
    · intro hpos pin hpin
      rw [hduty] at hpin
      split_ifs at hpin with hq
      · subst hq; exact absurd (hpos rfl).symm hpin
      · exact absurd rfl hpin

/-- **Drive time.** In every run of the loop, an iteration gives every servo
    move drive time iff it does not stow the panel, or the altitude servo is at
    the stow position before it. -/
theorem driveTime_run_iff (ha : ConfigAccepted p) {r1 r2 : ℤ} {s0 : PWMState}
    (h0 : mainInit p r1 r2 = some s0) (ls : List LoopInput) (s : MainState) (i : LoopInput)
    (s' : MainState) (hr : Run (mainStep p) (.entry s0) ls s) (h : mainStep p s i s') :
    DriveTime s.pwm s'.pwm ↔ NoStowMove p i.panelIsStowed s.pwm := by
  obtain ⟨v, hv⟩ := mainStep_servoStep h
  exact driveTime_step_iff (mainRun_configured ha h0 hr) hv

/-! ## The first stow command -/

/-- The sensors read nothing and the panel is to be stowed. -/
def stowInput : LoopInput := ⟨fun _ => 0, true⟩

/-- The sample tracker, started in the middle, is stowed in its first
    iteration. -/
theorem sampleStow_step {s0 : PWMState} (h0 : mainInit sampleParams 0 0 = some s0) :
    ∃ s', mainStep sampleParams (.entry s0) stowInput s' ∧
      pwmGetDutyCycleMSecs .ehrpwm1b s0 = 1.5 ∧ stowPosition sampleParams = 0.7 := by
  obtain ⟨irr, v, hstep, -⟩ :=
    mainIteration_of_usable sampleParams_mapping stowInput (MainState.entry s0)
  refine ⟨_, hstep, ?_, ?_⟩
  · unfold pwmGetDutyCycleMSecs
    rw [mainInit_config sampleParams_accepted h0]
    norm_num [sampleParams, axisMin, axisMax, axisStart, TrackerDemo.Clamp.clamp]
  · norm_num [stowPosition, sampleParams, axisMin, axisMax, TrackerDemo.Clamp.clamp]

/-- `driveTime_run_iff` in the first iteration of the sample tracker. -/
theorem driveTime_run_iff_sample : ∃ s0 s', mainInit sampleParams 0 0 = some s0 ∧
    (DriveTime s0 s' ↔ NoStowMove sampleParams true s0) := by
  obtain ⟨s0, h0⟩ := Option.isSome_iff_exists.1
    (mainInit_isSome (p := sampleParams) (.inl rfl) (.inl rfl))
  obtain ⟨s', hs', -⟩ := sampleStow_step h0
  exact ⟨s0, s'.pwm, h0, driveTime_run_iff sampleParams_accepted h0 [] _ stowInput s'
    (.nil _) hs'⟩

/-- The move to the stow position is not driven: the sample tracker's altitude
    servo goes from 1.5 ms to 0.7 ms with its pin disabled. -/
theorem stowMove_not_driven : ¬ ∀ (p : Params) (r1 r2 : ℤ) (s0 : PWMState),
    ConfigAccepted p → mainInit p r1 r2 = some s0 →
      ∀ (ls : List LoopInput) (s : MainState) (i : LoopInput) (s' : MainState),
        Run (mainStep p) (.entry s0) ls s → mainStep p s i s' → DriveTime s.pwm s'.pwm := by
  intro hall
  obtain ⟨s0, h0⟩ := Option.isSome_iff_exists.1
    (mainInit_isSome (p := sampleParams) (.inl rfl) (.inl rfl))
  obtain ⟨s', hs', hd, hst⟩ := sampleStow_step h0
  have hdrive := hall _ 0 0 s0 sampleParams_accepted h0 [] _ stowInput s' (.nil _) hs'
  obtain ⟨v, hv⟩ := mainStep_servoStep hs'
  have := (driveTime_step_iff (mainInit_configured sampleParams_accepted h0) hv).1 hdrive rfl
  rw [hd, hst] at this
  norm_num at this

end TrackerDemo.Tracker

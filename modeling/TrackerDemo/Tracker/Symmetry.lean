import TrackerDemo.Tracker.ServoRuns

/-!
# Left and right are symmetric

Two runs of the control loop: the second one starts the azimuth servo at the
mirror image of the first one's position, and sees the left and right values of
each row exchanged.

Results:
* `limit_stepTarget_mirror`: opposite steps from mirrored duty cycles end at
  mirrored ones.
* `driveServos_mirror`: the step lemma of the simulation.
* `tracker_symmetric`: the azimuth servos stay mirrored, the altitude servos
  equal, and each iteration reports the same step.
-/

namespace TrackerDemo.Tracker

open TrackerDemo.Config TrackerDemo.Hw TrackerDemo.Transition TrackerDemo.Clamp

/-! ## The mirrored run -/

/-- Left and right exchanged. -/
def mirrorCorner : Corner → Corner
  | .leftTop => .rightTop
  | .rightTop => .leftTop
  | .leftBottom => .rightBottom
  | .rightBottom => .leftBottom

/-- The input with the left and right values of each row exchanged. -/
def ServoInput.mirror (i : ServoInput) : ServoInput where
  panelIsStowed := i.panelIsStowed
  scaled := fun c => i.scaled (mirrorCorner c)

/-- The configuration with the azimuth start position mirrored in its range. -/
def mirrorStart (p : Params) : Params :=
  { p with
    float := Function.update p.float .servoAzimuthStartPositionPwmMSecs
      (p.float .servoPwmAzimuthMinDutyCycleMSecs + p.float .servoPwmAzimuthMaxDutyCycleMSecs -
        p.float .servoAzimuthStartPositionPwmMSecs) }

/-- What the azimuth `PWM_step` of an iteration returns (lines 214–224); `none` if
    the iteration makes no such call. -/
def azimuthStep (p : Params) (i : ServoInput) (s : PWMState) : Option Bool :=
  if i.panelIsStowed then none
  else if horizontalDifferential i.scaled > p.float .lightSensorMinDifferenceToMoveTracker then
    some (pwmStep .ehrpwm1a (!p.bool .servoPwmAzimuthReversePolarity) s).1
  else if horizontalDifferential i.scaled < -p.float .lightSensorMinDifferenceToMoveTracker then
    some (pwmStep .ehrpwm1a (p.bool .servoPwmAzimuthReversePolarity) s).1
  else none

/-- The two azimuth duty cycles are mirrored, the altitude duty cycles equal. -/
structure MirrorStates (p : Params) (s s' : PWMState) : Prop where
  azimuth : pwmGetDutyCycleMSecs .ehrpwm1a s + pwmGetDutyCycleMSecs .ehrpwm1a s' =
    axisMin p .ehrpwm1a + axisMax p .ehrpwm1a
  altitude : pwmGetDutyCycleMSecs .ehrpwm1b s = pwmGetDutyCycleMSecs .ehrpwm1b s'

section

variable {p : Params}

/-! ## What the mirrored configuration shares -/

theorem axisMin_mirrorStart (pin : PWMPin) : axisMin (mirrorStart p) pin = axisMin p pin := by
  cases pin <;> rfl

theorem axisMax_mirrorStart (pin : PWMPin) : axisMax (mirrorStart p) pin = axisMax p pin := by
  cases pin <;> rfl

theorem axisStep_mirrorStart (pin : PWMPin) : axisStep (mirrorStart p) pin = axisStep p pin := by
  cases pin <;> rfl

theorem configAccepted_mirrorStart (ha : ConfigAccepted p) : ConfigAccepted (mirrorStart p) := by
  intro pin
  rw [axisMin_mirrorStart, axisMax_mirrorStart, axisStep_mirrorStart]
  exact ha pin

/-- The start position is not used in the loop. -/
theorem driveServos_mirrorStart (stowed : Bool) (v : Corner → ℚ) (s : PWMState) :
    driveServos (mirrorStart p) stowed v s = driveServos p stowed v s := rfl

theorem azimuthStep_mirrorStart (i : ServoInput) (s : PWMState) :
    azimuthStep (mirrorStart p) i s = azimuthStep p i s := rfl

theorem horizontalDifferential_mirror (i : ServoInput) :
    horizontalDifferential i.mirror.scaled = -horizontalDifferential i.scaled := by
  unfold horizontalDifferential
  simp only [ServoInput.mirror, mirrorCorner]
  ring

theorem altitudeDifferential_mirror (i : ServoInput) :
    altitudeDifferential i.mirror.scaled = altitudeDifferential i.scaled := by
  unfold altitudeDifferential
  simp only [ServoInput.mirror, mirrorCorner]
  ring

/-! ## Mirrored duty cycles -/

/-- Two configurations of a pin with the same settings and mirrored duty
    cycles. -/
structure MirrorConfigs (c c' : PWMConfig) : Prop where
  min_le_max : c.minDutyCycleMSecs ≤ c.maxDutyCycleMSecs
  min_eq : c'.minDutyCycleMSecs = c.minDutyCycleMSecs
  max_eq : c'.maxDutyCycleMSecs = c.maxDutyCycleMSecs
  step_eq : c'.stepSizeMSecs = c.stepSizeMSecs
  current_add : c.currentDutyCycleMSecs + c'.currentDutyCycleMSecs =
    c.minDutyCycleMSecs + c.maxDutyCycleMSecs

/-- Opposite steps from mirrored duty cycles end at mirrored ones. -/
theorem limit_stepTarget_mirror {c c' : PWMConfig} (h : MirrorConfigs c c') (increase : Bool) :
    c.limit (c.stepTarget increase) + c'.limit (c'.stepTarget !increase) =
      c.minDutyCycleMSecs + c.maxDutyCycleMSecs := by
  have hsum := h.current_add
  have htarget : c'.stepTarget (!increase) =
      c.minDutyCycleMSecs + c.maxDutyCycleMSecs - c.stepTarget increase := by
    unfold PWMConfig.stepTarget
    rw [h.step_eq]
    cases increase <;> simp <;> linarith
  unfold PWMConfig.limit
  rw [h.min_eq, h.max_eq, htarget, clamp_reflect h.min_le_max]
  ring

/-- Opposite differentials keep duty cycles mirrored. -/
theorem trackedDuty_mirror (ht : 0 ≤ threshold p) {c c' : PWMConfig} (h : MirrorConfigs c c')
    (pin : PWMPin) (d : ℚ) :
    trackedDuty p pin d c + trackedDuty p pin (-d) c' =
      c.minDutyCycleMSecs + c.maxDutyCycleMSecs := by
  unfold trackedDuty
  rcases lt_trichotomy d 0 with hneg | hzero | hpos
  · by_cases hd : d < -threshold p
    · rw [if_neg (by linarith), if_pos hd, if_pos (by linarith)]
      exact limit_stepTarget_mirror h _
    · rw [if_neg (by linarith), if_neg hd, if_neg (by linarith), if_neg (by linarith)]
      exact h.current_add
  · rw [if_neg (by linarith), if_neg (by linarith), if_neg (by linarith), if_neg (by linarith)]
    exact h.current_add
  · by_cases hd : d > threshold p
    · have hstep := limit_stepTarget_mirror h (!axisReversePolarity p pin)
      rw [Bool.not_not] at hstep
      rw [if_pos hd, if_neg (by linarith), if_pos (by linarith)]
      exact hstep
    · rw [if_neg hd, if_neg (by linarith), if_neg (by linarith), if_neg (by linarith)]
      exact h.current_add

/-- Opposite steps from mirrored duty cycles return the same. -/
theorem pwmStep_mirror {s s' : PWMState} {pin : PWMPin}
    (h : MirrorConfigs (s.config pin) (s'.config pin)) (increase : Bool) :
    (pwmStep pin increase s).1 = (pwmStep pin (!increase) s').1 := by
  have hmin : (s'.config pin).minDutyCycleMSecs ≤ (s'.config pin).maxDutyCycleMSecs := by
    rw [h.min_eq, h.max_eq]
    exact h.min_le_max
  have hlimit := limit_stepTarget_mirror h increase
  have hsum := h.current_add
  rw [Bool.eq_iff_iff, pwmStep_eq, pwmStep_eq, (pwmSetPosition_enable _ h.min_le_max).2,
    (pwmSetPosition_enable _ hmin).2, not_iff_not]
  constructor
  · intro heq
    linarith
  · intro heq
    linarith

/-! ## One iteration of both runs -/

/-- The relation between the two runs. -/
structure MirrorRuns (p : Params) (s s' : PWMState) : Prop where
  left : Configured p s
  right : Configured p s'
  states : MirrorStates p s s'

theorem MirrorRuns.azimuthConfigs {s s' : PWMState} (h : MirrorRuns p s s') :
    MirrorConfigs (s.config .ehrpwm1a) (s'.config .ehrpwm1a) where
  min_le_max := h.left.min_le_max _
  min_eq := by rw [h.left.min_eq, h.right.min_eq]
  max_eq := by rw [h.left.max_eq, h.right.max_eq]
  step_eq := by rw [h.left.step_eq, h.right.step_eq]
  current_add := by
    rw [h.left.min_eq, h.left.max_eq]
    exact h.states.azimuth

/-- Both altitude servos have the same configuration, their period apart. -/
theorem MirrorRuns.altitude_drivenDuty {s s' : PWMState} (h : MirrorRuns p s s') (stowed : Bool)
    (i : ServoInput) :
    drivenDuty p stowed i.scaled .ehrpwm1b (s.config .ehrpwm1b) =
      drivenDuty p stowed i.mirror.scaled .ehrpwm1b (s'.config .ehrpwm1b) := by
  have hcurrent : (s'.config .ehrpwm1b).currentDutyCycleMSecs =
      (s.config .ehrpwm1b).currentDutyCycleMSecs := h.states.altitude.symm
  have hd : axisDifferential i.mirror.scaled .ehrpwm1b = axisDifferential i.scaled .ehrpwm1b :=
    altitudeDifferential_mirror i
  unfold drivenDuty trackedDuty PWMConfig.limit PWMConfig.stepTarget
  rw [hd, hcurrent, h.left.min_eq, h.left.max_eq, h.left.step_eq, h.right.min_eq, h.right.max_eq,
    h.right.step_eq]

/-- The step lemma. -/
theorem driveServos_mirror (ha : ConfigAccepted p) (ht : 0 ≤ threshold p) {s s' : PWMState}
    (h : MirrorRuns p s s') (i : ServoInput) :
    MirrorRuns p (driveServos p i.panelIsStowed i.scaled s)
      (driveServos p i.mirror.panelIsStowed i.mirror.scaled s') := by
  refine ⟨driveServos_configured ha h.left _ _, driveServos_configured ha h.right _ _, ?_⟩
  have hduty : ∀ {t : PWMState}, Configured p t → ∀ (stowed : Bool) (v : Corner → ℚ) pin,
      pwmGetDutyCycleMSecs pin (driveServos p stowed v t) =
        drivenDuty p stowed v pin (t.config pin) := by
    intro t hc stowed v pin
    unfold pwmGetDutyCycleMSecs
    rw [driveServos_config hc, withDuty_current]
  constructor
  · rw [hduty h.left, hduty h.right]
    unfold drivenDuty
    show (if i.panelIsStowed = true then _ else _) + (if i.panelIsStowed = true then _ else _) = _
    cases i.panelIsStowed with
    | true => exact h.states.azimuth
    | false =>
      have hd : axisDifferential i.mirror.scaled .ehrpwm1a = -axisDifferential i.scaled .ehrpwm1a :=
        horizontalDifferential_mirror i
      rw [if_neg (by decide), if_neg (by decide), hd, ← h.left.min_eq, ← h.left.max_eq]
      exact trackedDuty_mirror ht h.azimuthConfigs _ _
  · rw [hduty h.left, hduty h.right]
    exact h.altitude_drivenDuty _ i

/-- Both runs report the same azimuth step. -/
theorem azimuthStep_mirror (ht : 0 ≤ threshold p) {s s' : PWMState} (h : MirrorRuns p s s')
    (i : ServoInput) : azimuthStep p i s = azimuthStep p i.mirror s' := by
  unfold threshold at ht
  unfold azimuthStep
  rw [horizontalDifferential_mirror]
  generalize horizontalDifferential i.scaled = d
  show (if i.panelIsStowed = true then _ else _) = if i.panelIsStowed = true then _ else _
  have hstep := pwmStep_mirror h.azimuthConfigs (p.bool .servoPwmAzimuthReversePolarity)
  have hstep' := pwmStep_mirror h.azimuthConfigs (!p.bool .servoPwmAzimuthReversePolarity)
  rw [Bool.not_not] at hstep'
  split_ifs <;> first | rfl | (exfalso; linarith) | rw [hstep] | rw [hstep']

/-! ## Runs -/

/-- The start positions are mirrored. -/
theorem mainInit_mirror (ha : ConfigAccepted p) {r1 r2 r1' r2' : ℤ} {s s' : PWMState}
    (h : mainInit p r1 r2 = some s) (h' : mainInit (mirrorStart p) r1' r2' = some s') :
    MirrorRuns p s s' := by
  have ha' := configAccepted_mirrorStart ha
  have hright := mainInit_configured ha' h'
  have hc := mainInit_config ha h
  have hc' := mainInit_config ha' h'
  refine ⟨mainInit_configured ha h, ⟨fun pin => ?_, fun pin => ?_, fun pin => ?_, hright.inRange⟩,
    ⟨?_, ?_⟩⟩
  · rw [hright.min_eq, axisMin_mirrorStart]
  · rw [hright.max_eq, axisMax_mirrorStart]
  · rw [hright.step_eq, axisStep_mirrorStart]
  · have hstart : axisStart (mirrorStart p) .ehrpwm1a =
        axisMin p .ehrpwm1a + axisMax p .ehrpwm1a - axisStart p .ehrpwm1a := by
      simp [axisStart, mirrorStart, axisMin, axisMax]
    unfold pwmGetDutyCycleMSecs
    rw [hc, hc', axisMin_mirrorStart, axisMax_mirrorStart, hstart,
      clamp_reflect (ha .ehrpwm1a).min_le_max]
    ring
  · unfold pwmGetDutyCycleMSecs
    rw [hc, hc', axisMin_mirrorStart, axisMax_mirrorStart]
    rfl

/-- **Symmetry.** For every accepted configuration with a threshold that is not
    negative, the run on mirrored values from the mirrored start position is the
    mirror image of the original one. -/
theorem tracker_symmetric (ha : ConfigAccepted p) (ht : 0 ≤ threshold p) {r1 r2 r1' r2' : ℤ}
    {s0 s0' : PWMState} (h0 : mainInit p r1 r2 = some s0)
    (h0' : mainInit (mirrorStart p) r1' r2' = some s0') {ls : List ServoInput} {s s' : PWMState}
    (hr : Run (servoStep p) s0 ls s)
    (hr' : Run (servoStep (mirrorStart p)) s0' (ls.map ServoInput.mirror) s') :
    MirrorStates p s s' ∧
      ∀ i, azimuthStep p i s = azimuthStep (mirrorStart p) i.mirror s' := by
  have h : MirrorRuns p s s' := by
    refine hr.simulation (R := MirrorRuns p) (fun s s' i t t' h hstep hstep' => ?_) hr'
      (mainInit_mirror ha h0 h0')
    rw [← hstep, ← hstep', driveServos_mirrorStart]
    exact driveServos_mirror ha ht h i
  refine ⟨h.states, fun i => ?_⟩
  rw [azimuthStep_mirrorStart]
  exact azimuthStep_mirror ht h i

end

/-- The left side is brighter. -/
def sampleInput : ServoInput where
  panelIsStowed := false
  scaled
    | .leftTop | .leftBottom => 1
    | .rightTop | .rightBottom => 0

/-- `tracker_symmetric` for the sample configuration, after one iteration. -/
theorem tracker_symmetric_sample :
    ∃ s s', MirrorStates sampleParams s s' ∧ ∀ i,
      azimuthStep sampleParams i s = azimuthStep (mirrorStart sampleParams) i.mirror s' := by
  obtain ⟨s0, h0⟩ := Option.isSome_iff_exists.1
    (mainInit_isSome (p := sampleParams) (.inl rfl) (.inl rfl))
  obtain ⟨s0', h0'⟩ := Option.isSome_iff_exists.1
    (mainInit_isSome (p := mirrorStart sampleParams) (.inl rfl) (.inl rfl))
  have ht : 0 ≤ threshold sampleParams := by norm_num [threshold, sampleParams]
  have hr : Run (servoStep sampleParams) s0 [sampleInput] _ := .cons rfl (.nil _)
  exact ⟨_, _, tracker_symmetric sampleParams_accepted ht h0 h0' hr (.cons rfl (.nil _))⟩

end TrackerDemo.Tracker

import TrackerDemo.Hw.PwmRuns
import TrackerDemo.Tracker.ServoRuns

/-!
# One servo of the tracker

What the program does to one pin rests on the settings of this pin only, also
where `PWM_init` rejected those of the other one: the start-up and every
iteration of the loop position the pin at most once.

Results:
* `PositionedBy.duty`: the duty cycle and the writes of such a positioning.
* `mainInit_positions`: the start-up positions the pin at its start position.
* `driveServos_positions`: an iteration positions it as requested, if at all.
* `mainRun_pinConfigured`: an accepted pin stays in its range.
-/

namespace TrackerDemo.Tracker

open TrackerDemo.Config TrackerDemo.Hw TrackerDemo.Transition TrackerDemo.Clamp

/-! ## Positioning a pin at most once -/

/-- `PWM_setPosition`, if a position is requested. -/
def positioned (pin : PWMPin) (request : Option ℚ) (s : PWMState) : PWMState :=
  request.elim s fun d => (pwmSetPosition pin d s).2

/-- The duty cycle that the pin has then. -/
def requestedDuty (c : PWMConfig) (request : Option ℚ) : ℚ :=
  request.elim c.currentDutyCycleMSecs c.limit

/-- Between the two states the pin was positioned as requested, and otherwise
    left alone. -/
def PositionedBy (pin : PWMPin) (request : Option ℚ) (s s' : PWMState) : Prop :=
  ∃ t, SamePosition pin s t ∧ SamePosition pin (positioned pin request t) s'

/-- What such a positioning leaves. -/
structure PositionedDuty (pin : PWMPin) (request : Option ℚ) (s s' : PWMState) : Prop where
  config : s'.config pin = (s.config pin).withDuty (requestedDuty (s.config pin) request)
  period : s'.writesTo (.period pin) = s.writesTo (.period pin)
  /-- A changed duty cycle is written once. -/
  dutyCycle : s'.writesTo (.dutyCycle pin) =
    (if requestedDuty (s.config pin) request = pwmGetDutyCycleMSecs pin s then []
      else [convertToNanoseconds (requestedDuty (s.config pin) request)]) ++
        s.writesTo (.dutyCycle pin)

theorem PositionedBy.duty {pin : PWMPin} {request : Option ℚ} {s s' : PWMState}
    (h : PositionedBy pin request s s') (hrange : RangeNonempty pin s) :
    PositionedDuty pin request s s' := by
  obtain ⟨t, hst, hts⟩ := h
  have hrange' : RangeNonempty pin t := by
    unfold RangeNonempty
    rw [hst.config]
    exact hrange
  cases request with
  | none =>
    have hsame := hst.trans hts
    refine ⟨hsame.config, hsame.period, ?_⟩
    rw [hsame.dutyCycle]
    unfold requestedDuty pwmGetDutyCycleMSecs
    simp
  | some d =>
    obtain ⟨hduty, hperiod⟩ := pwmSetPosition_writesTo hrange' d
    have hconfig := pwmSetPosition_config pin d t hrange' pin
    rw [if_pos rfl] at hconfig
    constructor
    · rw [hts.config]
      exact hconfig.trans (by rw [hst.config]; rfl)
    · rw [hts.period]
      exact hperiod.trans hst.period
    · rw [hts.dutyCycle]
      refine hduty.trans ?_
      rw [hst.config, hst.dutyCycle]
      rfl

/-! ## Start-up -/

section

variable {p : Params}

/-- The settings of an accepted pin before it is positioned. -/
structure Initialised (p : Params) (pin : PWMPin) (s : PWMState) : Prop where
  config : s.config pin =
    ⟨p.servoPwmPeriodMSecs, 0, axisMin p pin, axisMax p pin, axisStep p pin⟩
  period : s.writesTo (.period pin) = [convertToNanoseconds p.servoPwmPeriodMSecs]
  dutyCycle : s.writesTo (.dutyCycle pin) = []

/-- `PWM_init` accepts the configuration of a pin. -/
def PinAccepted (p : Params) (pin : PWMPin) : Prop :=
  PWMAccepts p.servoPwmPeriodMSecs (axisMin p pin) (axisMax p pin) (axisStep p pin)

/-- The initialisation of an accepted pin that was not touched before. -/
theorem axisInit_initialised {pin : PWMPin} (ha : PinAccepted p pin) {result : ℤ}
    {s s' : PWMState} (hs : SamePosition pin .initial s) (h : axisInit p pin result s = some s') :
    Initialised p pin s' := by
  have hconfig := (pwmInit_config ha h).1
  obtain ⟨hperiod, hfiles⟩ := pwmInit_writesTo h
  rw [hs.config] at hconfig
  refine ⟨hconfig, ?_, ?_⟩
  · rw [hperiod, hconfig, hs.period]
    rfl
  · rw [hfiles _ (by simp) (by simp), hs.dutyCycle]
    rfl

/-- **Start-up.** An accepted pin is initialised and then positioned at its start
    position, whatever happens to the other one. -/
theorem mainInit_positions {pin : PWMPin} (ha : PinAccepted p pin) {r1 r2 : ℤ} {s0 : PWMState}
    (h : mainInit p r1 r2 = some s0) :
    ∃ s, Initialised p pin s ∧ PositionedBy pin (some (axisStart p pin)) s s0 := by
  obtain ⟨s1, s2, h1, h2, rfl⟩ := mainInit_eq_some h
  cases pin with
  | ehrpwm1a =>
    have hinit := axisInit_initialised ha (.refl _ _) h1
    exact ⟨s1, hinit, s2, pwmInit_samePosition (by decide) h2,
      pwmSetPosition_samePosition (by decide) _ _⟩
  | ehrpwm1b =>
    have hinit := axisInit_initialised ha (pwmInit_samePosition (by decide) h1) h2
    exact ⟨s2, hinit, _, pwmSetPosition_samePosition (by decide) _ _, .refl _ _⟩

/-- What this leaves in the pin's configuration and files. -/
theorem mainInit_positionedDuty {pin : PWMPin} (ha : PinAccepted p pin) {r1 r2 : ℤ}
    {s0 : PWMState} (h : mainInit p r1 r2 = some s0) :
    ∃ s, Initialised p pin s ∧ PositionedDuty pin (some (axisStart p pin)) s s0 := by
  obtain ⟨s, hinit, hpos⟩ := mainInit_positions ha h
  have hrange : RangeNonempty pin s := by
    unfold RangeNonempty
    rw [hinit.config]
    exact ha.min_le_max
  exact ⟨s, hinit, hpos.duty hrange⟩

/-- The duty cycle is then the start position, limited to the pin's range. -/
theorem mainInit_duty {pin : PWMPin} (ha : PinAccepted p pin) {r1 r2 : ℤ} {s0 : PWMState}
    (h : mainInit p r1 r2 = some s0) :
    pwmGetDutyCycleMSecs pin s0 = clamp (axisMin p pin) (axisMax p pin) (axisStart p pin) := by
  obtain ⟨s, hinit, hduty⟩ := mainInit_positionedDuty ha h
  unfold pwmGetDutyCycleMSecs
  rw [hduty.config, hinit.config]
  rfl

/-! ## Iterations -/

variable (p)

/-- The position that tracking requests for a pin, if any. -/
def trackedPosition (v : Corner → ℚ) (pin : PWMPin) (c : PWMConfig) : Option ℚ :=
  if axisDifferential v pin > threshold p then
    some (c.stepTarget (!axisReversePolarity p pin))
  else if axisDifferential v pin < -threshold p then
    some (c.stepTarget (axisReversePolarity p pin))
  else none

/-- The position that an iteration requests for a pin, if any. -/
def requestedPosition (panelIsStowed : Bool) (v : Corner → ℚ) (pin : PWMPin) (c : PWMConfig) :
    Option ℚ :=
  if panelIsStowed then
    if pin = .ehrpwm1b then some (p.float .servoAltitudeStowPositionPwmMSecs) else none
  else trackedPosition p v pin c

variable {p}

/-- Tracking an axis positions its pin. -/
theorem trackAxis_positions (v : Corner → ℚ) (pin : PWMPin) (s : PWMState) :
    trackAxis p pin (axisReversePolarity p pin) (axisDifferential v pin) s =
      positioned pin (trackedPosition p v pin (s.config pin)) s := by
  unfold trackAxis trackedPosition threshold
  split_ifs
  · rw [pwmStep_eq]
    rfl
  · rw [pwmStep_eq]
    rfl
  · rfl

/-- It leaves the other pin alone. -/
theorem trackAxis_samePosition {pin q : PWMPin} (hq : q ≠ pin) (b : Bool) (d : ℚ) (s : PWMState) :
    SamePosition q s (trackAxis p pin b d s) := by
  unfold trackAxis
  split_ifs
  · rw [pwmStep_eq]
    exact pwmSetPosition_samePosition hq _ _
  · rw [pwmStep_eq]
    exact pwmSetPosition_samePosition hq _ _
  · exact .refl q s

/-- **One iteration.** A pin is positioned as requested, whatever happens to the
    other one. -/
theorem driveServos_positions (panelIsStowed : Bool) (v : Corner → ℚ) (pin : PWMPin)
    (s : PWMState) :
    PositionedBy pin (requestedPosition p panelIsStowed v pin (s.config pin)) s
      (driveServos p panelIsStowed v s) := by
  unfold driveServos
  cases panelIsStowed with
  | true =>
    unfold stowServos requestedPosition
    rw [if_pos rfl, if_pos rfl]
    cases pin with
    | ehrpwm1a =>
      have hstow := pwmSetPosition_samePosition (show PWMPin.ehrpwm1a ≠ .ehrpwm1b by decide)
        (p.float .servoAltitudeStowPositionPwmMSecs) s
      exact ⟨s, .refl _ _, hstow.trans (pwmDisable_samePosition _ _ _)⟩
    | ehrpwm1b => exact ⟨s, .refl _ _, pwmDisable_samePosition _ _ _⟩
  | false =>
    unfold trackServos requestedPosition
    rw [if_neg (by decide), if_neg (by decide)]
    cases pin with
    | ehrpwm1a =>
      -- the altitude axis comes second and does not touch the azimuth pin
      refine ⟨s, .refl _ _, ?_⟩
      rw [← trackAxis_positions]
      exact trackAxis_samePosition (by decide) _ _ _
    | ehrpwm1b =>
      have hazimuth : SamePosition .ehrpwm1b s (trackAxis p .ehrpwm1a
          (axisReversePolarity p .ehrpwm1a) (horizontalDifferential v) s) :=
        trackAxis_samePosition (by decide) _ _ _
      refine ⟨_, hazimuth, ?_⟩
      rw [← hazimuth.config, ← trackAxis_positions]
      exact .refl _ _

/-! ## Runs -/

/-- The invariant of one pin: its settings, and a duty cycle in its range. -/
structure PinConfigured (p : Params) (pin : PWMPin) (s : PWMState) : Prop where
  min_eq : (s.config pin).minDutyCycleMSecs = axisMin p pin
  max_eq : (s.config pin).maxDutyCycleMSecs = axisMax p pin
  inRange : (s.config pin).InRange

theorem PinConfigured.rangeNonempty {pin : PWMPin} {s : PWMState} (h : PinConfigured p pin s) :
    RangeNonempty pin s := h.inRange.min_le.trans h.inRange.le_max

/-- The step lemma. -/
theorem PinConfigured.positioned {pin : PWMPin} {request : Option ℚ} {s s' : PWMState}
    (hs : PinConfigured p pin s) (h : PositionedBy pin request s s') : PinConfigured p pin s' := by
  have hconfig := (h.duty hs.rangeNonempty).config
  refine ⟨?_, ?_, ?_⟩
  · rw [hconfig]
    exact hs.min_eq
  · rw [hconfig]
    exact hs.max_eq
  · rw [hconfig]
    cases request with
    | none => exact hs.inRange
    | some d => exact ⟨le_clamp _ _ _, clamp_le hs.rangeNonempty _⟩

theorem mainInit_pinConfigured {pin : PWMPin} (ha : PinAccepted p pin) {r1 r2 : ℤ} {s0 : PWMState}
    (h : mainInit p r1 r2 = some s0) : PinConfigured p pin s0 := by
  obtain ⟨s, hinit, hduty⟩ := mainInit_positionedDuty ha h
  refine ⟨?_, ?_, ?_⟩ <;> rw [hduty.config, hinit.config]
  · rfl
  · rfl
  · exact ⟨le_clamp _ _ _, clamp_le ha.min_le_max _⟩

/-- An accepted pin stays in its range. -/
theorem mainRun_pinConfigured {pin : PWMPin} (ha : PinAccepted p pin) {r1 r2 : ℤ} {s0 : PWMState}
    (h0 : mainInit p r1 r2 = some s0) {ls : List LoopInput} {s : MainState}
    (hr : Run (mainStep p) (.entry s0) ls s) : PinConfigured p pin s.pwm := by
  refine hr.invariant (P := fun s => PinConfigured p pin s.pwm) (fun s i t hs h => ?_)
    (mainInit_pinConfigured ha h0)
  obtain ⟨v, hv⟩ := mainStep_servoStep h
  rw [← hv]
  exact hs.positioned (driveServos_positions _ _ _ _)

end

end TrackerDemo.Tracker

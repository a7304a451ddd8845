import TrackerDemo.Config.Params
import TrackerDemo.Hw.Pwm

/-!
# The control loop

Model of `main` (`trackerDemo.c`, lines 128–286) after the configuration file
is read: the two `PWM_init` and `PWM_setPosition` calls, and one iteration of
the `while(1)` loop. What an iteration reads from outside (the four A/D
readings and `panelIsStowed`) is its input. `EHRPWM1A` turns the azimuth and
`EHRPWM1B` the altitude.

Results:
* `readAndScale_eq`: with four different sensor inputs below 4, each corner ends
  with its own reading, scaled once.
* `mainIteration_eq_some_iff`: an iteration is the read-and-scale block followed
  by `driveServos`.
* `mainIteration_of_usable`: what it computes with such inputs.
-/

namespace TrackerDemo.Tracker

open TrackerDemo.Config TrackerDemo.Hw

/-- The shared state of the loop: the PWM driver and `irradianceV[4]`. -/
structure MainState where
  pwm : PWMState
  irradianceV : Fin numLightSensors → ℚ

/-- What one iteration reads: the value `AtoD_read` returns for each corner's
    input, and `panelIsStowed` as tested on line 197. -/
structure LoopInput where
  atodRead : Corner → ℚ
  panelIsStowed : Bool

section

variable (p : Params)

/-! ## Start-up -/

/-- Lines 128–145. `azimuthResult` and `altitudeResult` are the exit statuses of
    the two export commands; `none` means that `PWM_init` exits the program. -/
def mainInit (azimuthResult altitudeResult : ℤ) : Option PWMState := do
  let s ← pwmInit .ehrpwm1a p.servoPwmPeriodMSecs (p.float .servoPwmAzimuthMinDutyCycleMSecs)
    (p.float .servoPwmAzimuthMaxDutyCycleMSecs) (p.float .servoPwmAzimuthStepSizeMSecs)
    azimuthResult PWMState.initial
  let s ← pwmInit .ehrpwm1b p.servoPwmPeriodMSecs (p.float .servoPwmAltitudeMinDutyCycleMSecs)
    (p.float .servoPwmAltitudeMaxDutyCycleMSecs) (p.float .servoPwmAltitudeStepSizeMSecs)
    altitudeResult s
  let s := (pwmSetPosition .ehrpwm1a (p.float .servoAzimuthStartPositionPwmMSecs) s).2
  some (pwmSetPosition .ehrpwm1b (p.float .servoAltitudeStartPositionPwmMSecs) s).2

/-! ## Reading the light sensors -/

/-- `irradianceV[c] = AtoD_read(c)` (lines 173–176). -/
def readSensor (atodRead : Corner → ℚ) (irr : Fin numLightSensors → ℚ) (c : Corner) :
    Option (Fin numLightSensors → ℚ) :=
  store irr (p.lightSensor c) (atodRead c)

/-- `irradianceV[c] = lightSensorScalar[c] * irradianceV[c] + lightSensorOffset[c]`
    (lines 183–190). -/
def scaleSensor (irr : Fin numLightSensors → ℚ) (c : Corner) :
    Option (Fin numLightSensors → ℚ) := do
  let scalar ← load p.lightSensorScalar (p.lightSensor c)
  let v ← load irr (p.lightSensor c)
  let offset ← load p.lightSensorOffset (p.lightSensor c)
  store irr (p.lightSensor c) (scalar * v + offset)

/-- The order in which the block visits the corners. -/
def corners : List Corner := [.leftTop, .rightTop, .leftBottom, .rightBottom]

/-- Lines 173–190; `none` is an access outside one of the arrays. -/
def readAndScale (atodRead : Corner → ℚ) (irr : Fin numLightSensors → ℚ) :
    Option (Fin numLightSensors → ℚ) := do
  let irr ← corners.foldlM (readSensor p atodRead) irr
  corners.foldlM (scaleSensor p) irr

/-- The array elements that the differentials read (lines 207–209, 245–247). -/
def scaledValues (irr : Fin numLightSensors → ℚ) : Option (Corner → ℚ) := do
  let leftTop ← load irr (p.lightSensor .leftTop)
  let rightTop ← load irr (p.lightSensor .rightTop)
  let leftBottom ← load irr (p.lightSensor .leftBottom)
  let rightBottom ← load irr (p.lightSensor .rightBottom)
  some fun
    | .leftTop => leftTop
    | .rightTop => rightTop
    | .leftBottom => leftBottom
    | .rightBottom => rightBottom

/-! ## Driving the servos -/

/-- `horizontalDifferential` (lines 207–209): left side minus right side. -/
def horizontalDifferential (v : Corner → ℚ) : ℚ :=
  (v .leftTop + v .leftBottom) - (v .rightTop + v .rightBottom)

/-- `altidudeDifferential` (lines 245–247): top side minus bottom side. -/
def altitudeDifferential (v : Corner → ℚ) : ℚ :=
  (v .leftTop + v .rightTop) - (v .leftBottom + v .rightBottom)

/-- Lines 214–224 and 252–262: one axis is stepped up if its differential is
    above the threshold, down if it is below the negated one (the other way
    round with reversed polarity), and otherwise left alone. -/
def trackAxis (pin : PWMPin) (reversePolarity : Bool) (differential : ℚ) (s : PWMState) :
    PWMState :=
  if differential > p.float .lightSensorMinDifferenceToMoveTracker then
    (pwmStep pin (!reversePolarity) s).2
  else if differential < -p.float .lightSensorMinDifferenceToMoveTracker then
    (pwmStep pin reversePolarity s).2
  else s

/-- Lines 204–279, the tracking branch. -/
def trackServos (v : Corner → ℚ) (s : PWMState) : PWMState :=
  let s := trackAxis p .ehrpwm1a (p.bool .servoPwmAzimuthReversePolarity)
    (horizontalDifferential v) s
  trackAxis p .ehrpwm1b (p.bool .servoPwmAltitudeReversePolarity) (altitudeDifferential v) s

/-- Lines 199–201, the stow branch. -/
def stowServos (s : PWMState) : PWMState :=
  pwmDisable .ehrpwm1b
    (pwmSetPosition .ehrpwm1b (p.float .servoAltitudeStowPositionPwmMSecs) s).2

/-- Lines 197–280 on the scaled values `v`. -/
def driveServos (panelIsStowed : Bool) (v : Corner → ℚ) (s : PWMState) : PWMState :=
  if panelIsStowed then stowServos p s else trackServos p v s

/-- One iteration of the loop (lines 163–286), up to its `usleep`. -/
def mainIteration (i : LoopInput) (s : MainState) : Option MainState := do
  let irr ← readAndScale p i.atodRead s.irradianceV
  if i.panelIsStowed then
    some { pwm := stowServos p s.pwm, irradianceV := irr }
  else
    let v ← scaledValues p irr
    some { pwm := trackServos p v s.pwm, irradianceV := irr }

/-! ## The read-and-scale block -/

/-- Every mapped input is below `NUM_LIGHT_SENSORS`. -/
def MappingInBounds : Prop := ∀ c, p.lightSensor c < numLightSensors

/-- The mapping is usable: four different inputs below `NUM_LIGHT_SENSORS`. -/
structure MappingUsable : Prop where
  inBounds : MappingInBounds p
  injective : Function.Injective p.lightSensor

variable {p}

theorem readSensor_eq_some_iff {r : Corner → ℚ} {irr irr' : Fin numLightSensors → ℚ} {c : Corner} :
    readSensor p r irr c = some irr' ↔
      ∃ h : p.lightSensor c < numLightSensors,
        irr' = Function.update irr ⟨p.lightSensor c, h⟩ (r c) := by
  unfold readSensor store
  split_ifs with h
  · simp [h, eq_comm]
  · simp [h]

/-- The block stays inside the arrays iff every mapped input does. -/
theorem readAndScale_isSome_iff (r : Corner → ℚ) (irr : Fin numLightSensors → ℚ) :
    (readAndScale p r irr).isSome ↔ MappingInBounds p := by
  constructor
  · intro h c
    obtain ⟨irr', h⟩ := Option.isSome_iff_exists.1 h
    unfold readAndScale at h
    obtain ⟨irr1, h1, -⟩ := Option.bind_eq_some_iff.1 h
    simp only [corners, List.foldlM_cons, List.foldlM_nil, Option.bind_eq_bind,
      Option.bind_eq_some_iff, readSensor_eq_some_iff] at h1
    obtain ⟨_, ⟨h1, _⟩, _, ⟨h2, _⟩, _, ⟨h3, _⟩, _, ⟨h4, _⟩, _⟩ := h1
    cases c <;> assumption
  · intro h
    unfold readAndScale
    simp [corners, readSensor, scaleSensor, store_of_lt _ (h _), load_of_lt _ (h _)]

/-- With a usable mapping every corner ends with its own reading, scaled
    exactly once. -/
theorem readAndScale_eq (h : MappingUsable p) {r : Corner → ℚ}
    {irr irr' : Fin numLightSensors → ℚ} (hr : readAndScale p r irr = some irr') (c : Corner) :
    irr' ⟨p.lightSensor c, h.inBounds c⟩ =
      p.lightSensorScalar ⟨p.lightSensor c, h.inBounds c⟩ * r c +
        p.lightSensorOffset ⟨p.lightSensor c, h.inBounds c⟩ := by
  have hne : ∀ {a b : Corner}, a ≠ b →
      (⟨p.lightSensor a, h.inBounds a⟩ : Fin numLightSensors) ≠ ⟨p.lightSensor b, h.inBounds b⟩ :=
    fun hab he => hab (h.injective (by simpa using he))
  unfold readAndScale at hr
  simp only [corners, List.foldlM_cons, List.foldlM_nil, readSensor, scaleSensor,
    store_of_lt _ (h.inBounds _), load_of_lt _ (h.inBounds _), Option.bind_eq_bind,
    Option.bind_some, Option.pure_def, Option.some.injEq] at hr
  subst hr
  cases c <;> simp [Function.update_of_ne (hne _)]

/-- With the mapping in bounds the differentials read inside the array. -/
theorem scaledValues_of_inBounds (h : MappingInBounds p) (irr : Fin numLightSensors → ℚ) :
    scaledValues p irr = some fun c => irr ⟨p.lightSensor c, h c⟩ := by
  unfold scaledValues
  simp only [load_of_lt _ (h _), Option.bind_eq_bind, Option.bind_some, Option.some.injEq]
  funext c
  cases c <;> rfl

/-- An iteration is the read-and-scale block followed by the servo branch, on
    the values that the block left. -/
theorem mainIteration_eq_some_iff {i : LoopInput} {s s' : MainState} :
    mainIteration p i s = some s' ↔
      ∃ (irr : Fin numLightSensors → ℚ) (v : Corner → ℚ),
        readAndScale p i.atodRead s.irradianceV = some irr ∧ scaledValues p irr = some v ∧
          s' = ⟨driveServos p i.panelIsStowed v s.pwm, irr⟩ := by
  unfold mainIteration driveServos
  cases hr : readAndScale p i.atodRead s.irradianceV with
  | none => simp
  | some irr =>
    have hb := (readAndScale_isSome_iff i.atodRead s.irradianceV).1 (by rw [hr]; rfl)
    cases i.panelIsStowed <;>
      simp [scaledValues_of_inBounds hb, eq_comm]

/-- With a usable mapping an iteration drives the servos on each corner's own
    reading, scaled by the corner's array elements. -/
theorem mainIteration_of_usable (h : MappingUsable p) (i : LoopInput) (s : MainState) :
    ∃ irr v, mainIteration p i s = some ⟨driveServos p i.panelIsStowed v s.pwm, irr⟩ ∧
      scaledValues p irr = some v ∧
      ∀ c, v c = p.lightSensorScalar ⟨p.lightSensor c, h.inBounds c⟩ * i.atodRead c +
        p.lightSensorOffset ⟨p.lightSensor c, h.inBounds c⟩ := by
  obtain ⟨irr, hirr⟩ := Option.isSome_iff_exists.1
    ((readAndScale_isSome_iff i.atodRead s.irradianceV).2 h.inBounds)
  have hv := scaledValues_of_inBounds h.inBounds irr
  exact ⟨irr, _, mainIteration_eq_some_iff.2 ⟨irr, _, hirr, hv, rfl⟩, hv,
    fun c => readAndScale_eq h hirr c⟩

end

end TrackerDemo.Tracker

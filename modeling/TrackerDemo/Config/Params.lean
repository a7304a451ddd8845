import TrackerDemo.Lib.CString

/-!
# The configuration parameters

The globals of `GlobalConfig.c` (lines 39–94) that `readAndAssignConfigurationDetails`
loads from the configuration file, grouped by C type. A `float` is a rational
number (exact arithmetic) and a `char` array of 1024 bytes is `ℕ → Byte`.
-/

namespace TrackerDemo.Config

open TrackerDemo.CString

/-- `MAX_PARAMETER_TEXT_LENGTH` (`GlobalConfig.c`, line 37): the size of the line
    buffer and of every string parameter. -/
abbrev maxParameterTextLength : ℕ := 1024

/-- `NUM_LIGHT_SENSORS` (`GlobalConfig.h`, line 83). -/
abbrev numLightSensors : ℕ := 4

/-- The `char[]` parameters. -/
inductive StringParam
  | mqttHostName | mqttClientId | mqttUsername | mqttPassword
  | mqttTopicIdTracker | mqttTopicIdIrradiances | mqttTopicIdStow
  | mqttTopicIdStowWebapp | mqttTopicIdStowRulesEngine
  deriving DecidableEq, Repr

/-- The `int` parameters. -/
inductive IntParam
  | mqttPort | mqttKeepAliveInterval | mqttProtocolVersion | mqttQos
  deriving DecidableEq, Repr

/-- The `bool` parameters. -/
inductive BoolParam
  | mqttCleanSession | servoPwmAzimuthReversePolarity | servoPwmAltitudeReversePolarity
  deriving DecidableEq, Repr

/-- The `float` parameters, the calibration arrays apart. -/
inductive FloatParam
  | servoPwmAzimuthMinDutyCycleMSecs | servoPwmAzimuthMaxDutyCycleMSecs
  | servoPwmAzimuthStepSizeMSecs | servoPwmAzimuthTotalAngleDegrees
  | servoPwmAltitudeMinDutyCycleMSecs | servoPwmAltitudeMaxDutyCycleMSecs
  | servoPwmAltitudeStepSizeMSecs | servoPwmAltitudeTotalAngleDegrees
  | servoAzimuthStartPositionPwmMSecs | servoAltitudeStartPositionPwmMSecs
  | servoAltitudeStowPositionPwmMSecs
  | lightSensorMinDifferenceToMoveTracker
  | stowMonitorRateSecs | pwmUpdateRateSeconds | brokerReportRateSeconds
  deriving DecidableEq, Repr

/-- The four light sensors, by the corner of the panel they sit at. -/
inductive Corner
  | leftTop | rightTop | leftBottom | rightBottom
  deriving DecidableEq, Repr

/-- The contents of all parameters. `lightSensor c` is the A/D input mapped to
    corner `c` (`LIGHT_SENSOR_LEFT_TOP` and so on, of type `unsigned int`). -/
structure Params where
  string : StringParam → ℕ → Byte
  int : IntParam → ℤ
  bool : BoolParam → Bool
  float : FloatParam → ℚ
  /-- `SERVO_PWM_PERIOD_mSecs`, an `unsigned long`. -/
  servoPwmPeriodMSecs : ℕ
  lightSensor : Corner → ℕ
  lightSensorScalar : Fin numLightSensors → ℚ
  lightSensorOffset : Fin numLightSensors → ℚ

/-- The parameters before the file is read: static storage, all zero. -/
def Params.initial : Params where
  string := fun _ _ => 0
  int := fun _ => 0
  bool := fun _ => false
  float := fun _ => 0
  servoPwmPeriodMSecs := 0
  lightSensor := fun _ => 0
  lightSensorScalar := fun _ => 0
  lightSensorOffset := fun _ => 0

/-! ## Arrays indexed by a light sensor -/

/-- Reading `a[i]`; `none` outside the array. -/
def load (a : Fin numLightSensors → ℚ) (i : ℕ) : Option ℚ :=
  if h : i < numLightSensors then some (a ⟨i, h⟩) else none

/-- Writing `a[i] = v`; `none` outside the array. -/
def store (a : Fin numLightSensors → ℚ) (i : ℕ) (v : ℚ) : Option (Fin numLightSensors → ℚ) :=
  if h : i < numLightSensors then some (Function.update a ⟨i, h⟩ v) else none

theorem load_of_lt (a : Fin numLightSensors → ℚ) {i : ℕ} (h : i < numLightSensors) :
    load a i = some (a ⟨i, h⟩) := dif_pos h

theorem store_of_lt (a : Fin numLightSensors → ℚ) {i : ℕ} (h : i < numLightSensors) (v : ℚ) :
    store a i v = some (Function.update a ⟨i, h⟩ v) := dif_pos h

theorem store_isSome_iff (a : Fin numLightSensors → ℚ) (i : ℕ) (v : ℚ) :
    (store a i v).isSome ↔ i < numLightSensors := by
  unfold store; split_ifs with h <;> simp [h]

end TrackerDemo.Config

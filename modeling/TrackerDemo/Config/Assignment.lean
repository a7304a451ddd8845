import TrackerDemo.Config.Params

/-!
# The parameters a line of the configuration file can assign

The `else if` chain of `readAndAssignConfigurationDetails` (`GlobalConfig.c`,
lines 149–279): the name that each branch compares `ParameterID` with, and what
the branch does with `ParameterValue` and `ValueLength`.

Results:
* `branchOf_name`: every branch is reached by its own name.
* `assign_isSome_iff`: only a calibration branch can leave its array.
* `assign_lightSensor`, `assign_string`: only a mapping branch changes the sensor
  mapping, only a string branch the strings.
-/

namespace TrackerDemo.Config

open TrackerDemo.CString

/-! ## The branches -/

/-- What a branch assigns. -/
inductive Branch
  /-- `strncpy(…, ParameterValue, ValueLength)`. -/
  | string (param : StringParam)
  /-- `… = atoi(ParameterValue)`. -/
  | int (param : IntParam)
  /-- `MQTT_CLEAN_SESSION`, true on a prefix of `true` (line 171). -/
  | cleanSession
  /-- `… = (strncmp(ParameterValue, "true", MAX_PARAMETER_TEXT_LENGTH) == 0)`. -/
  | bool (param : BoolParam)
  /-- `… = atof(ParameterValue)`. -/
  | float (param : FloatParam)
  /-- `SERVO_PWM_PERIOD_mSecs`, from `float` to `unsigned long`. -/
  | period
  /-- `LIGHT_SENSOR_… = atoi(ParameterValue)`, from `int` to `unsigned int`. -/
  | lightSensor (corner : Corner)
  /-- `lightSensorScalar[LIGHT_SENSOR_…] = atof(ParameterValue)`. -/
  | scalar (corner : Corner)
  /-- `lightSensorOffset[LIGHT_SENSOR_…] = atof(ParameterValue)`. -/
  | offset (corner : Corner)
  deriving DecidableEq, Repr

/-- The chain, in its order. -/
def branches : List (String × Branch) :=
  [("MQTT_HOST_NAME", .string .mqttHostName),
    ("MQTT_PORT", .int .mqttPort),
    ("MQTT_CLIENT_ID", .string .mqttClientId),
    ("MQTT_USERNAME", .string .mqttUsername),
    ("MQTT_PASSWORD", .string .mqttPassword),
    ("MQTT_KEEP_ALIVE_INTERVAL", .int .mqttKeepAliveInterval),
    ("MQTT_PROTOCOL_VERSION", .int .mqttProtocolVersion),
    ("MQTT_CLEAN_SESSION", .cleanSession),
    ("MQTT_QOS", .int .mqttQos),
    ("MQTT_TOPIC_ID_TRACKER", .string .mqttTopicIdTracker),
    ("MQTT_TOPIC_ID_IRRADIANCES", .string .mqttTopicIdIrradiances),
    ("MQTT_TOPIC_ID_STOW", .string .mqttTopicIdStow),
    ("MQTT_TOPIC_ID_STOW_WEBAPP", .string .mqttTopicIdStowWebapp),
    ("MQTT_TOPIC_ID_STOW_RULES_ENGINE", .string .mqttTopicIdStowRulesEngine),
    ("SERVO_PWM_PERIOD_mSecs", .period),
    ("SERVO_PWM_AZIMUTH_MIN_DUTY_CYCLE_mSecs", .float .servoPwmAzimuthMinDutyCycleMSecs),
    ("SERVO_PWM_AZIMUTH_MAX_DUTY_CYCLE_mSecs", .float .servoPwmAzimuthMaxDutyCycleMSecs),
    ("SERVO_PWM_AZIMUTH_STEP_SIZE_mSecs", .float .servoPwmAzimuthStepSizeMSecs),
    ("SERVO_PWM_AZIMUTH_TOTAL_ANGLE_DEGREES", .float .servoPwmAzimuthTotalAngleDegrees),
    ("SERVO_PWM_ALTITUDE_MIN_DUTY_CYCLE_mSecs", .float .servoPwmAltitudeMinDutyCycleMSecs),
    ("SERVO_PWM_ALTITUDE_MAX_DUTY_CYCLE_mSecs", .float .servoPwmAltitudeMaxDutyCycleMSecs),
    ("SERVO_PWM_ALTITUDE_STEP_SIZE_mSecs", .float .servoPwmAltitudeStepSizeMSecs),
    ("SERVO_PWM_ALTITUDE_TOTAL_ANGLE_DEGREES", .float .servoPwmAltitudeTotalAngleDegrees),
    ("SERVO_PWM_AZIMUTH_REVERSE_POLARITY", .bool .servoPwmAzimuthReversePolarity),
    ("SERVO_PWM_ALTITUDE_REVERSE_POLARITY", .bool .servoPwmAltitudeReversePolarity),
    ("SERVO_AZIMUTH_START_POSITION_PWM_mSecs", .float .servoAzimuthStartPositionPwmMSecs),
    ("SERVO_ALTITUDE_START_POSITION_PWM_mSecs", .float .servoAltitudeStartPositionPwmMSecs),
    ("SERVO_ALTITUDE_STOW_POSITION_PWM_mSecs", .float .servoAltitudeStowPositionPwmMSecs),
    ("LIGHT_SENSOR_LEFT_TOP", .lightSensor .leftTop),
    ("LIGHT_SENSOR_RIGHT_TOP", .lightSensor .rightTop),
    ("LIGHT_SENSOR_LEFT_BOTTOM", .lightSensor .leftBottom),
    ("LIGHT_SENSOR_RIGHT_BOTTOM", .lightSensor .rightBottom),
    ("LIGHT_SENSOR_SCALAR_AZIMUTH_LEFT_ALTITUDE_TOP", .scalar .leftTop),
    ("LIGHT_SENSOR_OFFSET_AZIMUTH_LEFT_ALTITUDE_TOP", .offset .leftTop),
    ("LIGHT_SENSOR_SCALAR_AZIMUTH_RIGHT_ALTITUDE_TOP", .scalar .rightTop),
    ("LIGHT_SENSOR_OFFSET_AZIMUTH_RIGHT_ALTITUDE_TOP", .offset .rightTop),
    ("LIGHT_SENSOR_SCALAR_AZIMUTH_LEFT_ALTITUDE_BOTTOM", .scalar .leftBottom),
    ("LIGHT_SENSOR_OFFSET_AZIMUTH_LEFT_ALTITUDE_BOTTOM", .offset .leftBottom),
    ("LIGHT_SENSOR_SCALAR_AZIMUTH_RIGHT_ALTITUDE_BOTTOM", .scalar .rightBottom),
    ("LIGHT_SENSOR_OFFSET_AZIMUTH_RIGHT_ALTITUDE_BOTTOM", .offset .rightBottom),
    ("LIGHT_SENSOR_MIN_DIFFERENCE_TO_MOVE_TRACKER", .float .lightSensorMinDifferenceToMoveTracker),
    ("STOW_MONITOR_RATE_SECS", .float .stowMonitorRateSecs),
    ("PWM_UPDATE_RATE_SECONDS", .float .pwmUpdateRateSeconds),
    ("BROKER_REPORT_RATE_SECONDS", .float .brokerReportRateSeconds)]

/-- The first branch whose name is `parameterID`. -/
def branchOf (parameterID : Bytes) : Option Branch :=
  (branches.find? fun b => strncmpEq parameterID (ascii b.1) maxParameterTextLength).map (·.2)

/-- No name of the chain is taken by an earlier branch. -/
theorem branchOf_name : ∀ b ∈ branches, branchOf (ascii b.1) = some b.2 := by decide +kernel

/-- The names are plain text, and short. -/
theorem branches_plain : ∀ b ∈ branches, (∀ c ∈ ascii b.1, 32 ≤ c ∧ c ≠ 34 ∧ c ≠ 92) ∧
    (ascii b.1).length < 100 := by
  decide +kernel

/-- A branch is taken by a name of the chain. -/
theorem branchOf_eq_some {parameterID : Bytes} {b : Branch} (h : branchOf parameterID = some b) :
    ∃ name, (name, b) ∈ branches ∧
      strncmpEq parameterID (ascii name) maxParameterTextLength = true := by
  unfold branchOf at h
  obtain ⟨⟨name, b'⟩, hfind, rfl⟩ := Option.map_eq_some_iff.1 h
  have heq := List.find?_some hfind
  exact ⟨name, List.mem_of_find?_eq_some hfind, heq⟩

/-- A text that fits the buffer is then the name itself. -/
theorem mem_branches_of_branchOf {parameterID : Bytes} {b : Branch}
    (hlen : parameterID.length < maxParameterTextLength) (h : branchOf parameterID = some b) :
    ∃ name, (name, b) ∈ branches ∧ parameterID = ascii name := by
  have hnames : ∀ b ∈ branches, (ascii b.1).length < maxParameterTextLength := by decide
  obtain ⟨name, hmem, heq⟩ := branchOf_eq_some h
  exact ⟨name, hmem, (strncmpEq_of_length_lt hlen (hnames _ hmem)).1 heq⟩

/-! ## Assignments -/

/-- A branch with the `ParameterValue` and `ValueLength` it uses. -/
structure Assignment where
  branch : Branch
  parameterValue : Bytes
  valueLength : ℕ
  deriving DecidableEq, Repr

/-- The parameters after the branch; `none` is a store outside of an array. -/
def Assignment.assign (a : Assignment) (p : Params) : Option Params :=
  match a.branch with
  | .string s => some { p with
      string := Function.update p.string s (strncpy (p.string s) a.parameterValue a.valueLength) }
  | .int i => some { p with int := Function.update p.int i (atoi a.parameterValue) }
  | .cleanSession => some { p with
      bool := Function.update p.bool .mqttCleanSession
        (strncmpEq (ascii "true") a.parameterValue a.valueLength) }
  | .bool b => some { p with
      bool := Function.update p.bool b
        (strncmpEq a.parameterValue (ascii "true") maxParameterTextLength) }
  | .float f => some { p with float := Function.update p.float f (atof a.parameterValue) }
  | .period => some { p with servoPwmPeriodMSecs := toUnsignedLong (atof a.parameterValue) }
  | .lightSensor c => some { p with
      lightSensor := Function.update p.lightSensor c (toUnsignedInt (atoi a.parameterValue)) }
  | .scalar c =>
    (store p.lightSensorScalar (p.lightSensor c) (atof a.parameterValue)).map fun scalar =>
      { p with lightSensorScalar := scalar }
  | .offset c =>
    (store p.lightSensorOffset (p.lightSensor c) (atof a.parameterValue)).map fun offset =>
      { p with lightSensorOffset := offset }

/-- The corner whose mapping a calibration branch indexes with. -/
def Branch.indexedBy : Branch → Option Corner
  | .scalar c | .offset c => some c
  | _ => none

/-- Only a calibration branch can leave its array. -/
theorem assign_isSome_iff (a : Assignment) (p : Params) :
    (a.assign p).isSome ↔ ∀ c ∈ a.branch.indexedBy, p.lightSensor c < numLightSensors := by
  unfold Assignment.assign
  cases hb : a.branch <;> simp [Branch.indexedBy, store_isSome_iff]

/-- The mapping of the sensors after a branch. -/
def Assignment.mapping (a : Assignment) (m : Corner → ℕ) : Corner → ℕ :=
  match a.branch with
  | .lightSensor c => Function.update m c (toUnsignedInt (atoi a.parameterValue))
  | _ => m

/-- The contents of the string parameters. -/
abbrev Strings := StringParam → ℕ → Byte

/-- What a branch does to the string parameters, if it stays inside of its
    array. -/
def Assignment.assignString (a : Assignment) (f : Strings) : Strings :=
  match a.branch with
  | .string s => Function.update f s (strncpy (f s) a.parameterValue a.valueLength)
  | _ => f

/-- A branch that succeeds acts on the mapping and on the strings by its kind. -/
theorem assign_mapping_string {a : Assignment} {p p' : Params} (h : a.assign p = some p') :
    p'.lightSensor = a.mapping p.lightSensor ∧ p'.string = a.assignString p.string := by
  unfold Assignment.assign at h
  unfold Assignment.mapping Assignment.assignString
  cases hb : a.branch <;> simp only [hb, Option.some.injEq, Option.map_eq_some_iff] at h
  case scalar c =>
    obtain ⟨_, -, rfl⟩ := h
    exact ⟨rfl, rfl⟩
  case offset c =>
    obtain ⟨_, -, rfl⟩ := h
    exact ⟨rfl, rfl⟩
  all_goals
    subst h
    exact ⟨rfl, rfl⟩

/-- Only a mapping branch changes the mapping. -/
theorem assign_lightSensor {a : Assignment} {p p' : Params} (h : a.assign p = some p') :
    p'.lightSensor = a.mapping p.lightSensor := (assign_mapping_string h).1

/-- Only a string branch changes the strings. -/
theorem assign_string {a : Assignment} {p p' : Params} (h : a.assign p = some p') :
    p'.string = a.assignString p.string := (assign_mapping_string h).2

end TrackerDemo.Config

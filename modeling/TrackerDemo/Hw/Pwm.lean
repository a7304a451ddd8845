import TrackerDemo.Lib.CString
import TrackerDemo.Lib.Clamp

/-!
# The PWM driver

Models of the PWM functions of `hw/BBGW/GPIO/GPIO.c` (lines 196–358). The
hardware is driven by shell commands `echo value > file` on the sysfs files of
the PWM chip; the model keeps the list of these writes, latest first.

Results:
* `pwmInit_config`: `PWM_init` takes a configuration over iff its three checks
  accept it.
* `pwmSetPosition_eq`: `PWM_setPosition` by the requested duty cycle, clamped to
  the configured range.
* `pwmSetPosition_config`, `pwmSetPosition_enable`, `pwmSetPosition_dutyCycle`:
  what it leaves in the configuration and in the two files of the pin.
-/

namespace TrackerDemo.Hw

open TrackerDemo.CString TrackerDemo.Clamp

/-- `PWMPin_T` (`GPIO.h`, lines 158–163). -/
inductive PWMPin
  | ehrpwm1a | ehrpwm1b
  deriving DecidableEq, Repr

/-- `PWMConfig_T` (lines 208–215). -/
structure PWMConfig where
  periodMSecs : ℚ
  currentDutyCycleMSecs : ℚ
  minDutyCycleMSecs : ℚ
  maxDutyCycleMSecs : ℚ
  stepSizeMSecs : ℚ
  deriving DecidableEq

/-- The sysfs files that the driver writes. -/
inductive PWMFile
  | export
  | period (pin : PWMPin)
  | dutyCycle (pin : PWMPin)
  | enable (pin : PWMPin)
  deriving DecidableEq, Repr

/-- `GET_PWM_PATH` (line 202). -/
def getPwmPath : PWMPin → String
  | .ehrpwm1a => "/sys/class/pwm/pwmchip0/pwm0"
  | .ehrpwm1b => "/sys/class/pwm/pwmchip0/pwm1"

/-- The path of a file, as the commands spell it. -/
def PWMFile.path : PWMFile → String
  | .export => "/sys/class/pwm/pwmchip0/export"
  | .period pin => getPwmPath pin ++ "/period"
  | .dutyCycle pin => getPwmPath pin ++ "/duty_cycle"
  | .enable pin => getPwmPath pin ++ "/enable"

/-- Different files of the model are different files of the system. -/
theorem PWMFile.path_injective : Function.Injective PWMFile.path := by
  rintro (_ | ⟨_ | _⟩ | ⟨_ | _⟩ | ⟨_ | _⟩) (_ | ⟨_ | _⟩ | ⟨_ | _⟩ | ⟨_ | _⟩) h <;>
    first | rfl | exact absurd h (by decide)

/-- The driver's static `PWMConfig[]` and the sysfs writes so far, latest
    first. -/
structure PWMState where
  config : PWMPin → PWMConfig
  writes : List (PWMFile × ℕ)

/-- Static storage is zero, and nothing has been written. -/
def PWMState.initial : PWMState where
  config := fun _ => ⟨0, 0, 0, 0, 0⟩
  writes := []

/-- `system_desktopSafe("echo v > file")` on the target. -/
def PWMState.echo (s : PWMState) (file : PWMFile) (v : ℕ) : PWMState :=
  { s with writes := (file, v) :: s.writes }

/-- The last value written to a file. -/
def PWMState.lastWrite (s : PWMState) (file : PWMFile) : Option ℕ := s.writes.lookup file

@[simp] theorem echo_config (s : PWMState) (file : PWMFile) (v : ℕ) :
    (s.echo file v).config = s.config := rfl

theorem lastWrite_echo (s : PWMState) (file f : PWMFile) (v : ℕ) :
    (s.echo file v).lastWrite f = if f = file then some v else s.lastWrite f := by
  unfold PWMState.lastWrite PWMState.echo
  rw [List.lookup_cons]
  by_cases h : f = file
  · simp [h]
  · simp [h, beq_eq_false_iff_ne.2 h]

@[simp] theorem lastWrite_echo_self (s : PWMState) (file : PWMFile) (v : ℕ) :
    (s.echo file v).lastWrite file = some v := by simp [lastWrite_echo]

/-- `PWMConfig[pin] = c`. -/
def PWMState.setConfig (s : PWMState) (pin : PWMPin) (c : PWMConfig) : PWMState :=
  { s with config := Function.update s.config pin c }

@[simp] theorem setConfig_config_self (s : PWMState) (pin : PWMPin) (c : PWMConfig) :
    (s.setConfig pin c).config pin = c := by simp [PWMState.setConfig]

theorem setConfig_config_of_ne (s : PWMState) {pin p : PWMPin} (h : p ≠ pin) (c : PWMConfig) :
    (s.setConfig pin c).config p = s.config p := by simp [PWMState.setConfig, h]

@[simp] theorem setConfig_lastWrite (s : PWMState) (pin : PWMPin) (c : PWMConfig) (f : PWMFile) :
    (s.setConfig pin c).lastWrite f = s.lastWrite f := rfl

/-! ## The functions of the driver -/

/-- `ConvertToNanoseconds` (line 205). -/
def convertToNanoseconds (mSecs : ℚ) : ℕ := toUnsignedLong (mSecs * 1000000)

/-- `PWM_init` (lines 219–286). `result` is the exit status of the export
    command; on a status other than 0 and 1 the program exits, which is `none`. -/
def pwmInit (pin : PWMPin) (periodMSecs minDutyCycleMSecs maxDutyCycleMSecs stepSizeMSecs : ℚ)
    (result : ℤ) (s : PWMState) : Option PWMState :=
  let s :=
    if maxDutyCycleMSecs > periodMSecs then s
    else if minDutyCycleMSecs > maxDutyCycleMSecs then s
    else if stepSizeMSecs > maxDutyCycleMSecs - minDutyCycleMSecs then s
    else s.setConfig pin
      { s.config pin with
        periodMSecs := periodMSecs
        minDutyCycleMSecs := minDutyCycleMSecs
        maxDutyCycleMSecs := maxDutyCycleMSecs
        stepSizeMSecs := stepSizeMSecs }
  let s := s.echo .export (if pin = .ehrpwm1a then 0 else 1)
  if result ≠ 0 ∧ result ≠ 1 then none
  else some (s.echo (.period pin) (convertToNanoseconds (s.config pin).periodMSecs))

/-- `PWM_enable` (lines 289–294). -/
def pwmEnable (pin : PWMPin) (s : PWMState) : PWMState := s.echo (.enable pin) 1

/-- `PWM_disable` (lines 296–301). -/
def pwmDisable (pin : PWMPin) (s : PWMState) : PWMState := s.echo (.enable pin) 0

/-- `PWM_setPosition` (lines 303–337). -/
def pwmSetPosition (pin : PWMPin) (dutyCycleMSecs : ℚ) (s : PWMState) : Bool × PWMState :=
  let duty := if dutyCycleMSecs > (s.config pin).maxDutyCycleMSecs
    then (s.config pin).maxDutyCycleMSecs else dutyCycleMSecs
  let duty := if duty < (s.config pin).minDutyCycleMSecs
    then (s.config pin).minDutyCycleMSecs else duty
  if duty ≠ (s.config pin).currentDutyCycleMSecs then
    let s := s.setConfig pin { s.config pin with currentDutyCycleMSecs := duty }
    let s := s.echo (.dutyCycle pin) (convertToNanoseconds (s.config pin).currentDutyCycleMSecs)
    (true, pwmEnable pin s)
  else (false, pwmDisable pin s)

/-- `PWM_step` (lines 339–353). -/
def pwmStep (pin : PWMPin) (increaseDutyCycle : Bool) (s : PWMState) : Bool × PWMState :=
  let currentDutyCycle := if increaseDutyCycle
    then (s.config pin).currentDutyCycleMSecs + (s.config pin).stepSizeMSecs
    else (s.config pin).currentDutyCycleMSecs - (s.config pin).stepSizeMSecs
  pwmSetPosition pin currentDutyCycle s

/-- `PWM_getDutyCycle_mSecs` (lines 355–358). -/
def pwmGetDutyCycleMSecs (pin : PWMPin) (s : PWMState) : ℚ := (s.config pin).currentDutyCycleMSecs

/-! ## Configurations -/

/-- The three checks of `PWM_init`. -/
structure PWMAccepts (periodMSecs minDutyCycleMSecs maxDutyCycleMSecs stepSizeMSecs : ℚ) :
    Prop where
  max_le_period : maxDutyCycleMSecs ≤ periodMSecs
  min_le_max : minDutyCycleMSecs ≤ maxDutyCycleMSecs
  step_le_range : stepSizeMSecs ≤ maxDutyCycleMSecs - minDutyCycleMSecs

/-- The range of a duty cycle is not empty, and the current one is in it. -/
structure PWMConfig.InRange (c : PWMConfig) : Prop where
  min_le : c.minDutyCycleMSecs ≤ c.currentDutyCycleMSecs
  le_max : c.currentDutyCycleMSecs ≤ c.maxDutyCycleMSecs

/-- The configuration with another current duty cycle. -/
def PWMConfig.withDuty (c : PWMConfig) (d : ℚ) : PWMConfig := { c with currentDutyCycleMSecs := d }

section WithDuty

variable (c : PWMConfig) (d : ℚ)

@[simp] theorem withDuty_current : (c.withDuty d).currentDutyCycleMSecs = d := rfl

@[simp] theorem withDuty_min : (c.withDuty d).minDutyCycleMSecs = c.minDutyCycleMSecs := rfl

@[simp] theorem withDuty_max : (c.withDuty d).maxDutyCycleMSecs = c.maxDutyCycleMSecs := rfl

@[simp] theorem withDuty_step : (c.withDuty d).stepSizeMSecs = c.stepSizeMSecs := rfl

@[simp] theorem withDuty_self : c.withDuty c.currentDutyCycleMSecs = c := rfl

end WithDuty

/-- The duty cycle that `PWM_setPosition` sets for a requested one. -/
def PWMConfig.limit (c : PWMConfig) (dutyCycleMSecs : ℚ) : ℚ :=
  clamp c.minDutyCycleMSecs c.maxDutyCycleMSecs dutyCycleMSecs

/-! ## What the functions do -/

/-- An accepted `PWM_init` that does not exit takes the configuration over and
    keeps the current duty cycle. -/
theorem pwmInit_config {pin : PWMPin} {period min max step : ℚ} {result : ℤ} {s s' : PWMState}
    (ha : PWMAccepts period min max step) (h : pwmInit pin period min max step result s = some s') :
    s'.config pin = ⟨period, (s.config pin).currentDutyCycleMSecs, min, max, step⟩ ∧
      ∀ p ≠ pin, s'.config p = s.config p := by
  unfold pwmInit at h
  rw [if_neg ha.max_le_period.not_gt, if_neg ha.min_le_max.not_gt,
    if_neg ha.step_le_range.not_gt] at h
  dsimp only at h
  split_ifs at h
  all_goals
    cases h
    exact ⟨by simp, fun p hp => by simp [setConfig_config_of_ne _ hp]⟩

/-- `PWM_init` goes on when the export command returns 0 or 1. -/
theorem pwmInit_isSome {result : ℤ} (h : result = 0 ∨ result = 1) (pin : PWMPin)
    (period min max step : ℚ) (s : PWMState) :
    (pwmInit pin period min max step result s).isSome := by
  unfold pwmInit
  rw [if_neg (by omega)]
  rfl

section SetPosition

variable (pin : PWMPin) (d : ℚ) (s : PWMState)

/-- The limited duty cycle is compared with the current one. -/
theorem pwmSetPosition_eq
    (h : (s.config pin).minDutyCycleMSecs ≤ (s.config pin).maxDutyCycleMSecs) :
    pwmSetPosition pin d s =
      if (s.config pin).limit d = (s.config pin).currentDutyCycleMSecs then
        (false, pwmDisable pin s)
      else
        (true, pwmEnable pin
          ((s.setConfig pin ((s.config pin).withDuty ((s.config pin).limit d))).echo
            (.dutyCycle pin) (convertToNanoseconds ((s.config pin).limit d)))) := by
  have hlimit : (s.config pin).limit d =
      (let duty := if d > (s.config pin).maxDutyCycleMSecs
        then (s.config pin).maxDutyCycleMSecs else d
      if duty < (s.config pin).minDutyCycleMSecs
        then (s.config pin).minDutyCycleMSecs else duty) := clamp_eq_ite h _
  unfold pwmSetPosition
  dsimp only at hlimit ⊢
  rw [← hlimit, ite_not, setConfig_config_self]
  rfl

/-- The pin moves to the limited duty cycle and keeps its settings; the other
    pin is left alone. -/
theorem pwmSetPosition_config
    (h : (s.config pin).minDutyCycleMSecs ≤ (s.config pin).maxDutyCycleMSecs) (q : PWMPin) :
    (pwmSetPosition pin d s).2.config q =
      if q = pin then (s.config q).withDuty ((s.config q).limit d) else s.config q := by
  rw [pwmSetPosition_eq _ _ _ h]
  by_cases hq : q = pin
  · subst hq
    rw [if_pos rfl]
    split_ifs with hd
    · rw [hd]
      rfl
    · simp [pwmEnable]
  · rw [if_neg hq]
    split_ifs <;> simp [pwmEnable, pwmDisable, setConfig_config_of_ne _ hq]

variable {pin s}

/-- The pin ends enabled iff its duty cycle changed, which is also what is
    returned. -/
theorem pwmSetPosition_enable
    (h : (s.config pin).minDutyCycleMSecs ≤ (s.config pin).maxDutyCycleMSecs) :
    (pwmSetPosition pin d s).2.lastWrite (.enable pin) =
        (if (s.config pin).limit d = (s.config pin).currentDutyCycleMSecs then some 0
          else some 1) ∧
      ((pwmSetPosition pin d s).1 = true ↔
        (s.config pin).limit d ≠ (s.config pin).currentDutyCycleMSecs) := by
  rw [pwmSetPosition_eq _ _ _ h]
  split_ifs with hd
  · simp [hd, pwmDisable]
  · simp [hd, pwmEnable]

/-- The duty cycle is written when the servo moves. -/
theorem pwmSetPosition_dutyCycle
    (h : (s.config pin).minDutyCycleMSecs ≤ (s.config pin).maxDutyCycleMSecs) :
    (pwmSetPosition pin d s).2.lastWrite (.dutyCycle pin) =
      if (pwmSetPosition pin d s).1 = true then
        some (convertToNanoseconds ((s.config pin).limit d))
      else s.lastWrite (.dutyCycle pin) := by
  rw [pwmSetPosition_eq _ _ _ h]
  by_cases hd : (s.config pin).limit d = (s.config pin).currentDutyCycleMSecs
  · simp [hd, pwmDisable, lastWrite_echo]
  · simp [hd, pwmEnable, lastWrite_echo]

/-- No file of the other pin is written. -/
theorem pwmSetPosition_lastWrite_other {p : PWMPin} (hp : p ≠ pin) :
    (pwmSetPosition pin d s).2.lastWrite (.enable p) = s.lastWrite (.enable p) := by
  unfold pwmSetPosition
  dsimp only
  split_ifs <;> simp [pwmEnable, pwmDisable, lastWrite_echo, hp]

end SetPosition

/-! ## Steps -/

/-- The duty cycle that `PWM_step` asks for. -/
def PWMConfig.stepTarget (c : PWMConfig) (increaseDutyCycle : Bool) : ℚ :=
  c.currentDutyCycleMSecs + if increaseDutyCycle then c.stepSizeMSecs else -c.stepSizeMSecs

theorem pwmStep_eq (pin : PWMPin) (increase : Bool) (s : PWMState) :
    pwmStep pin increase s = pwmSetPosition pin ((s.config pin).stepTarget increase) s := by
  unfold pwmStep PWMConfig.stepTarget
  cases increase
  · simp [sub_eq_add_neg]
  · simp

/-- A step moves its pin to the limited target and leaves the other alone. -/
theorem pwmStep_config {pin : PWMPin} (increase : Bool) (s : PWMState)
    (h : (s.config pin).minDutyCycleMSecs ≤ (s.config pin).maxDutyCycleMSecs) (q : PWMPin) :
    (pwmStep pin increase s).2.config q =
      if q = pin then (s.config q).withDuty ((s.config q).limit ((s.config q).stepTarget increase))
      else s.config q := by
  rw [pwmStep_eq, pwmSetPosition_config _ _ _ h]
  split_ifs with hq
  · rw [hq]
  · rfl

/-- A step moves the duty cycle by at most the step size. -/
theorem abs_limit_stepTarget_sub_le {c : PWMConfig} (hc : c.InRange) (increase : Bool) :
    |c.limit (c.stepTarget increase) - c.currentDutyCycleMSecs| ≤ |c.stepSizeMSecs| := by
  refine (abs_clamp_add_sub_le hc.min_le hc.le_max _).trans ?_
  cases increase <;> simp

end TrackerDemo.Hw

import TrackerDemo.Hw.Pwm
import TrackerDemo.Lib.Transition

/-!
# The PWM driver over sequences of calls

`PWM_init`, `PWM_setPosition` and `PWM_step` on both pins, in any order. The
driver keeps the current duty cycle in `PWMConfig[]` and writes it to the
hardware only when it changes, so the two have to agree at all times.

Results:
* `pwmInit_spec`: what a call of `PWM_init` does, accepted or not.
* `pwmSetPosition_spec`: what a call that moves the servo does.
* `callRun_mirrors`: after every sequence of calls the hardware has the duty
  cycle that the driver reports.
-/

namespace TrackerDemo.Hw

open TrackerDemo.Clamp TrackerDemo.Transition

/-! ## Calls -/

/-- The calls of the driver's interface on a pin; `result` is the exit status of
    the export command. -/
inductive PWMCall
  | init (periodMSecs minDutyCycleMSecs maxDutyCycleMSecs stepSizeMSecs : ℚ) (result : ℤ)
  | setPosition (dutyCycleMSecs : ℚ)
  | step (increaseDutyCycle : Bool)

/-- A call: the boolean it returns, if any, and the state after it. `none` is the
    `exit(1)` of `PWM_init`. -/
def pwmCall (pin : PWMPin) (s : PWMState) : PWMCall → Option (Option Bool × PWMState)
  | .init period min max step result =>
    (pwmInit pin period min max step result s).map fun s' => (none, s')
  | .setPosition d => some (some (pwmSetPosition pin d s).1, (pwmSetPosition pin d s).2)
  | .step increase => some (some (pwmStep pin increase s).1, (pwmStep pin increase s).2)

/-- The driver as a transition system; its labels are a pin and a call. -/
def callStep (s : PWMState) (c : PWMPin × PWMCall) (s' : PWMState) : Prop :=
  ∃ ret, pwmCall c.1 s c.2 = some (ret, s')

/-- The pin that a file belongs to. -/
def PWMFile.pin : PWMFile → Option PWMPin
  | .export => none
  | .period pin | .dutyCycle pin | .enable pin => some pin

/-! ## What a call does -/

/-- The hardware has the duty cycle that the driver reports: the last value
    written is the current duty cycle, or none was written and it is 0. -/
def Mirrors (pin : PWMPin) (s : PWMState) : Prop :=
  s.lastWrite (.dutyCycle pin) = some (convertToNanoseconds (pwmGetDutyCycleMSecs pin s)) ∨
    s.lastWrite (.dutyCycle pin) = none ∧ pwmGetDutyCycleMSecs pin s = 0

/-- The configured range of a pin is not empty. -/
def RangeNonempty (pin : PWMPin) (s : PWMState) : Prop :=
  (s.config pin).minDutyCycleMSecs ≤ (s.config pin).maxDutyCycleMSecs

/-- The pin's configuration and files are as before. -/
structure PinUnchanged (pin : PWMPin) (s s' : PWMState) : Prop where
  config : s'.config pin = s.config pin
  lastWrite : ∀ file, file.pin = some pin → s'.lastWrite file = s.lastWrite file

theorem lastWrite_echo_of_ne (s : PWMState) {file f : PWMFile} (h : f ≠ file) (v : ℕ) :
    (s.echo file v).lastWrite f = s.lastWrite f := by rw [lastWrite_echo, if_neg h]

/-- A file of a pin is none of another pin. -/
theorem PWMFile.ne_of_pin {file f : PWMFile} (h : f.pin ≠ file.pin) : f ≠ file :=
  fun he => h (congrArg PWMFile.pin he)

/-- A call of `PWM_init` that does not exit: it leaves the duty cycle alone and a
    range that is not empty, and writes the export and period files only. -/
theorem pwmInit_spec {pin : PWMPin} {period min max step : ℚ} {result : ℤ} {s s' : PWMState}
    (h : pwmInit pin period min max step result s = some s') :
    (∀ q ≠ pin, s'.config q = s.config q) ∧
      pwmGetDutyCycleMSecs pin s' = pwmGetDutyCycleMSecs pin s ∧
      (RangeNonempty pin s → RangeNonempty pin s') ∧
      ∀ file, file ≠ .export → file ≠ .period pin → s'.lastWrite file = s.lastWrite file := by
  have hexit : result = 0 ∨ result = 1 := by
    by_contra hn
    unfold pwmInit at h
    rw [if_pos (by omega)] at h
    cases h
  unfold pwmInit at h
  rw [if_neg (by omega), Option.some.injEq] at h
  subst h
  -- the two writes concern neither the configuration nor another file
  have hfile : ∀ (t : PWMState) (v w : ℕ) (file : PWMFile), file ≠ .export → file ≠ .period pin →
      ((t.echo .export v).echo (.period pin) w).lastWrite file = t.lastWrite file := by
    intro t v w file he hp
    rw [lastWrite_echo_of_ne _ hp, lastWrite_echo_of_ne _ he]
  unfold pwmGetDutyCycleMSecs RangeNonempty
  dsimp only
  generalize (if pin = .ehrpwm1a then 0 else 1) = channel
  split_ifs with h1 h2 h3
  · exact ⟨fun q _ => rfl, rfl, id, fun file he hp => hfile _ _ _ file he hp⟩
  · exact ⟨fun q _ => rfl, rfl, id, fun file he hp => hfile _ _ _ file he hp⟩
  · exact ⟨fun q _ => rfl, rfl, id, fun file he hp => hfile _ _ _ file he hp⟩
  · refine ⟨fun q hq => ?_, by simp, fun _ => ?_, fun file he hp => ?_⟩
    · simp [setConfig_config_of_ne _ hq]
    · simpa using h2
    · rw [hfile _ _ _ file he hp, setConfig_lastWrite]

/-- What a call returned and did that positions the servo. -/
structure Positioned (pin : PWMPin) (s : PWMState) (moved : Bool) (s' : PWMState) : Prop where
  /-- The duty cycle is in range. -/
  inRange : (s'.config pin).InRange
  /-- The call returns whether the duty cycle changed. -/
  moved_iff : moved = true ↔ pwmGetDutyCycleMSecs pin s' ≠ pwmGetDutyCycleMSecs pin s
  /-- The pin is left enabled iff it returns true. -/
  enabled_iff : s'.lastWrite (.enable pin) = some 1 ↔ moved = true
  /-- It keeps the other settings of the pin. -/
  range_eq : (s'.config pin).minDutyCycleMSecs = (s.config pin).minDutyCycleMSecs ∧
    (s'.config pin).maxDutyCycleMSecs = (s.config pin).maxDutyCycleMSecs
  /-- The duty cycle is written when it changes. -/
  written : moved = true →
    s'.lastWrite (.dutyCycle pin) = some (convertToNanoseconds (pwmGetDutyCycleMSecs pin s'))
  not_written : moved = false → s'.lastWrite (.dutyCycle pin) = s.lastWrite (.dutyCycle pin)

theorem pwmSetPosition_spec {pin : PWMPin} {s : PWMState} (h : RangeNonempty pin s) (d : ℚ) :
    Positioned pin s (pwmSetPosition pin d s).1 (pwmSetPosition pin d s).2 := by
  have hconfig := pwmSetPosition_config pin d s h pin
  rw [if_pos rfl] at hconfig
  obtain ⟨henable, hmoved⟩ := pwmSetPosition_enable d h
  constructor
  · rw [hconfig]
    exact ⟨le_clamp _ _ _, clamp_le h _⟩
  · unfold pwmGetDutyCycleMSecs
    rw [hmoved, hconfig, withDuty_current]
  · rw [hmoved, henable]
    split_ifs with heq <;> simp [heq]
  · rw [hconfig]
    exact ⟨rfl, rfl⟩
  · intro hmove
    unfold pwmGetDutyCycleMSecs
    rw [pwmSetPosition_dutyCycle d h, if_pos hmove, hconfig, withDuty_current]
  · intro hstay
    rw [pwmSetPosition_dutyCycle d h, if_neg (by simp [hstay])]

/-- The call leaves the other pin alone. -/
theorem pwmSetPosition_other {pin q : PWMPin} (hq : q ≠ pin) (d : ℚ) (s : PWMState) :
    PinUnchanged q s (pwmSetPosition pin d s).2 := by
  have hpin : ∀ file : PWMFile, file.pin = some q → file ≠ .dutyCycle pin ∧ file ≠ .enable pin := by
    intro file hf
    constructor <;> refine PWMFile.ne_of_pin ?_ <;> rw [hf] <;> simpa [PWMFile.pin] using hq
  constructor
  · unfold pwmSetPosition
    dsimp only
    split_ifs <;> simp [pwmEnable, pwmDisable, setConfig_config_of_ne _ hq]
  · intro file hf
    obtain ⟨hduty, henable⟩ := hpin file hf
    unfold pwmSetPosition
    dsimp only
    split_ifs <;> simp [pwmEnable, pwmDisable, lastWrite_echo, hduty, henable]

/-! ## What was written to a file -/

/-- The values written to a file, latest first. -/
def PWMState.writesTo (s : PWMState) (file : PWMFile) : List ℕ :=
  s.writes.filterMap fun w => if w.1 = file then some w.2 else none

theorem writesTo_echo (s : PWMState) (file f : PWMFile) (v : ℕ) :
    (s.echo file v).writesTo f = if f = file then v :: s.writesTo f else s.writesTo f := by
  unfold PWMState.writesTo PWMState.echo
  rw [List.filterMap_cons]
  by_cases h : f = file
  · simp [h]
  · simp [h, Ne.symm h]

@[simp] theorem writesTo_setConfig (s : PWMState) (pin : PWMPin) (c : PWMConfig) (f : PWMFile) :
    (s.setConfig pin c).writesTo f = s.writesTo f := rfl

/-- The pin's configuration is the same, and so is what was written to its
    period and its duty cycle file. -/
structure SamePosition (pin : PWMPin) (s s' : PWMState) : Prop where
  config : s'.config pin = s.config pin
  period : s'.writesTo (.period pin) = s.writesTo (.period pin)
  dutyCycle : s'.writesTo (.dutyCycle pin) = s.writesTo (.dutyCycle pin)

theorem SamePosition.refl (pin : PWMPin) (s : PWMState) : SamePosition pin s s := ⟨rfl, rfl, rfl⟩

theorem SamePosition.trans {pin : PWMPin} {s t u : PWMState} (h : SamePosition pin s t)
    (h' : SamePosition pin t u) : SamePosition pin s u :=
  ⟨h'.config.trans h.config, h'.period.trans h.period, h'.dutyCycle.trans h.dutyCycle⟩

theorem pwmDisable_samePosition (pin q : PWMPin) (s : PWMState) :
    SamePosition q s (pwmDisable pin s) := by
  refine ⟨rfl, ?_, ?_⟩
  · simp [pwmDisable, writesTo_echo]
  · simp [pwmDisable, writesTo_echo]

theorem pwmSetPosition_samePosition {pin q : PWMPin} (hq : q ≠ pin) (d : ℚ) (s : PWMState) :
    SamePosition q s (pwmSetPosition pin d s).2 := by
  unfold pwmSetPosition
  dsimp only
  constructor <;> split_ifs <;>
    simp [pwmEnable, pwmDisable, writesTo_echo, setConfig_config_of_ne _ hq, hq]

/-- A changed duty cycle is written once, and the period file is not. -/
theorem pwmSetPosition_writesTo {pin : PWMPin} {s : PWMState} (h : RangeNonempty pin s) (d : ℚ) :
    (pwmSetPosition pin d s).2.writesTo (.dutyCycle pin) =
        (if (s.config pin).limit d = (s.config pin).currentDutyCycleMSecs then []
          else [convertToNanoseconds ((s.config pin).limit d)]) ++ s.writesTo (.dutyCycle pin) ∧
      (pwmSetPosition pin d s).2.writesTo (.period pin) = s.writesTo (.period pin) := by
  rw [pwmSetPosition_eq _ _ _ h]
  split_ifs
  · simp [pwmDisable, writesTo_echo]
  · simp [pwmEnable, writesTo_echo]

/-- `PWM_init` writes the period that it left in the configuration, and no other
    file but the export file. -/
theorem pwmInit_writesTo {pin : PWMPin} {period min max step : ℚ} {result : ℤ} {s s' : PWMState}
    (h : pwmInit pin period min max step result s = some s') :
    s'.writesTo (.period pin) =
        convertToNanoseconds (s'.config pin).periodMSecs :: s.writesTo (.period pin) ∧
      ∀ file, file ≠ .export → file ≠ .period pin → s'.writesTo file = s.writesTo file := by
  unfold pwmInit at h
  dsimp only at h
  generalize (if pin = .ehrpwm1a then 0 else 1) = channel at h
  generalize hset : (if max > period then s else _ : PWMState) = t at h
  have ht : ∀ file, t.writesTo file = s.writesTo file := by
    intro file
    rw [← hset]
    split_ifs <;> rfl
  split_ifs at h
  cases h
  constructor
  · rw [writesTo_echo, if_pos rfl, writesTo_echo, if_neg (by simp), ht]
    rfl
  · intro file hexport hperiod
    rw [writesTo_echo, if_neg hperiod, writesTo_echo, if_neg hexport, ht]

theorem pwmInit_samePosition {pin q : PWMPin} (hq : q ≠ pin) {period min max step : ℚ} {result : ℤ}
    {s s' : PWMState} (h : pwmInit pin period min max step result s = some s') :
    SamePosition q s s' := by
  have hwrites := (pwmInit_writesTo h).2
  exact ⟨(pwmInit_spec h).1 q hq, hwrites _ (by simp) (by simp [hq]), hwrites _ (by simp) (by simp)⟩

/-! ## Sequences of calls -/

/-- The invariant of the driver. -/
structure DriverOk (s : PWMState) : Prop where
  mirrors : ∀ pin, Mirrors pin s
  rangeNonempty : ∀ pin, RangeNonempty pin s

theorem driverOk_initial : DriverOk .initial where
  mirrors _ := .inr ⟨rfl, rfl⟩
  rangeNonempty _ := le_rfl

/-- A call leaves the other pin alone. -/
theorem pwmCall_other {pin q : PWMPin} (hq : q ≠ pin) {s s' : PWMState} {c : PWMCall}
    {ret : Option Bool} (h : pwmCall pin s c = some (ret, s')) : PinUnchanged q s s' := by
  cases c with
  | init period min max step result =>
    obtain ⟨t, ht, heq⟩ := Option.map_eq_some_iff.1 h
    cases heq
    obtain ⟨hconfig, -, -, hwrite⟩ := pwmInit_spec ht
    refine ⟨hconfig q hq, fun file hf => hwrite file ?_ ?_⟩ <;>
      refine PWMFile.ne_of_pin ?_ <;> rw [hf] <;> simp [PWMFile.pin, hq]
  | setPosition d =>
    cases h
    exact pwmSetPosition_other hq d s
  | step increase =>
    cases h
    rw [pwmStep_eq]
    exact pwmSetPosition_other hq _ s

/-- A call that returns a boolean has positioned the servo. -/
theorem pwmCall_positioned {pin : PWMPin} {s s' : PWMState} (hs : RangeNonempty pin s)
    {c : PWMCall} {moved : Bool} (h : pwmCall pin s c = some (some moved, s')) :
    Positioned pin s moved s' := by
  cases c with
  | init period min max step result => simp [pwmCall] at h
  | setPosition d =>
    cases h
    exact pwmSetPosition_spec hs d
  | step increase =>
    cases h
    rw [pwmStep_eq]
    exact pwmSetPosition_spec hs _

theorem Mirrors.congr {pin : PWMPin} {s s' : PWMState} (h : Mirrors pin s)
    (hduty : pwmGetDutyCycleMSecs pin s' = pwmGetDutyCycleMSecs pin s)
    (hwrite : s'.lastWrite (.dutyCycle pin) = s.lastWrite (.dutyCycle pin)) : Mirrors pin s' := by
  unfold Mirrors
  rw [hduty, hwrite]
  exact h

theorem Positioned.mirrors {pin : PWMPin} {s s' : PWMState} {moved : Bool}
    (h : Positioned pin s moved s') (hs : Mirrors pin s) : Mirrors pin s' := by
  cases moved with
  | true => exact .inl (h.written rfl)
  | false =>
    have hduty := (not_congr h.moved_iff).1 (by decide)
    exact hs.congr (not_not.1 hduty) (h.not_written rfl)

/-- The step lemma. -/
theorem DriverOk.step {s s' : PWMState} {c : PWMPin × PWMCall} (hs : DriverOk s)
    (h : callStep s c s') : DriverOk s' := by
  obtain ⟨pin, call⟩ := c
  obtain ⟨ret, h⟩ := h
  have hpin : Mirrors pin s' ∧ RangeNonempty pin s' := by
    cases ret with
    | some moved =>
      have hpos := pwmCall_positioned (hs.rangeNonempty pin) h
      refine ⟨hpos.mirrors (hs.mirrors pin), ?_⟩
      exact hpos.inRange.min_le.trans hpos.inRange.le_max
    | none =>
      cases call with
      | init period min max step result =>
        obtain ⟨t, ht, heq⟩ := Option.map_eq_some_iff.1 h
        cases heq
        obtain ⟨-, hduty, hrange, hwrite⟩ := pwmInit_spec ht
        exact ⟨(hs.mirrors pin).congr hduty (hwrite _ (by simp) (by simp)),
          hrange (hs.rangeNonempty pin)⟩
      | setPosition d => simp [pwmCall] at h
      | step increase => simp [pwmCall] at h
  have hother : ∀ q ≠ pin, Mirrors q s' ∧ RangeNonempty q s' := by
    intro q hq
    obtain ⟨hconfig, hwrite⟩ := pwmCall_other hq h
    refine ⟨(hs.mirrors q).congr ?_ (hwrite _ rfl), ?_⟩
    · unfold pwmGetDutyCycleMSecs
      rw [hconfig]
    · unfold RangeNonempty
      rw [hconfig]
      exact hs.rangeNonempty q
  have hall : ∀ q, Mirrors q s' ∧ RangeNonempty q s' := by
    intro q
    by_cases hq : q = pin
    · rw [hq]
      exact hpin
    · exact hother q hq
  exact ⟨fun q => (hall q).1, fun q => (hall q).2⟩

/-- **The driver mirrors the hardware.** After every sequence of calls the
    hardware has the reported duty cycles; every further call that positions a
    servo does so in range and reports it, and leaves the other pin alone. -/
theorem callRun_mirrors (calls : List (PWMPin × PWMCall)) (s : PWMState)
    (hr : Run callStep .initial calls s) :
    (∀ pin, Mirrors pin s) ∧
      ∀ (pin : PWMPin) (c : PWMCall) (ret : Option Bool) (s' : PWMState),
        pwmCall pin s c = some (ret, s') →
          (∀ moved ∈ ret, Positioned pin s moved s') ∧ ∀ q ≠ pin, PinUnchanged q s s' := by
  have hok : DriverOk s := hr.invariant (fun _ _ _ hs h => hs.step h) driverOk_initial
  refine ⟨hok.mirrors, fun pin c ret s' h => ⟨fun moved hm => ?_, fun q hq => pwmCall_other hq h⟩⟩
  cases hm
  exact pwmCall_positioned (hok.rangeNonempty pin) h

/-- Configure the azimuth servo, centre it, and step it up. -/
def sampleCalls : List (PWMPin × PWMCall) :=
  [(.ehrpwm1a, .init 20 0.6 2.4 0.02 0), (.ehrpwm1a, .setPosition 1.5), (.ehrpwm1a, .step true)]

/-- `callRun_mirrors` after these calls. -/
theorem callRun_mirrors_sample :
    ∃ s, Run callStep .initial sampleCalls s ∧ ∀ pin, Mirrors pin s := by
  obtain ⟨s1, h1⟩ := Option.isSome_iff_exists.1
    (pwmInit_isSome (.inl rfl) .ehrpwm1a 20 0.6 2.4 0.02 .initial)
  have hr : Run callStep .initial sampleCalls
      (pwmStep .ehrpwm1a true (pwmSetPosition .ehrpwm1a 1.5 s1).2).2 := by
    refine .cons ⟨none, ?_⟩ (.cons ⟨_, rfl⟩ (.cons ⟨_, rfl⟩ (.nil _)))
    show (pwmInit .ehrpwm1a 20 0.6 2.4 0.02 0 .initial).map _ = _
    rw [h1]
    rfl
  exact ⟨_, hr, (callRun_mirrors sampleCalls _ hr).1⟩

end TrackerDemo.Hw

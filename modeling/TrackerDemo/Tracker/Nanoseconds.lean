import TrackerDemo.Config.LastAssignment
import TrackerDemo.Tracker.PinRuns

/-!
# From configured milliseconds to nanoseconds

`SERVO_PWM_PERIOD_mSecs` is an `unsigned long`, unlike the duty cycles (`float`)
that it is compared with, so a fraction of its value in the file is lost before
`PWM_init` sees it. `ConvertToNanoseconds` goes to `unsigned long` as well, which
has 32 bits on the target and no negative numbers.

Results:
* `loaded_numbers`: the parameters of a servo, from the numbers in the file.
* `exactNanoseconds_iff`, `period_exactNanoseconds_iff`: the numbers that the
  conversions keep.
* `startUp_exact_iff`, `iteration_exact_iff`: when the start-up and an iteration
  write the configured positions.
* `nanoseconds_run_iff`: both, for every file and every run.
-/

namespace TrackerDemo.Tracker

open TrackerDemo.CString TrackerDemo.Config TrackerDemo.Hw TrackerDemo.Transition TrackerDemo.Clamp

/-! ## The numbers in a file -/

/-- The number that assignments give to a branch: that of the last one, 0 without
    one. -/
def configuredNumber (as : List Assignment) (b : Branch) : ℚ :=
  (as.filter fun a => a.branch = b).getLast?.elim 0 fun a => atof a.parameterValue

/-- The numbers that the file has for a servo, as decimal numbers. -/
structure ServoNumbers where
  period : ℚ
  min : ℚ
  max : ℚ
  step : ℚ
  start : ℚ
  deriving DecidableEq

def servoNumbers (as : List Assignment) : PWMPin → ServoNumbers
  | .ehrpwm1a => {
      period := configuredNumber as .period
      min := configuredNumber as (.float .servoPwmAzimuthMinDutyCycleMSecs)
      max := configuredNumber as (.float .servoPwmAzimuthMaxDutyCycleMSecs)
      step := configuredNumber as (.float .servoPwmAzimuthStepSizeMSecs)
      start := configuredNumber as (.float .servoAzimuthStartPositionPwmMSecs) }
  | .ehrpwm1b => {
      period := configuredNumber as .period
      min := configuredNumber as (.float .servoPwmAltitudeMinDutyCycleMSecs)
      max := configuredNumber as (.float .servoPwmAltitudeMaxDutyCycleMSecs)
      step := configuredNumber as (.float .servoPwmAltitudeStepSizeMSecs)
      start := configuredNumber as (.float .servoAltitudeStartPositionPwmMSecs) }

/-- What an assignment does to a number. -/
theorem assign_number {a : Assignment} {p p' : Params} (h : a.assign p = some p') :
    (∀ f, p'.float f = if a.branch = .float f then atof a.parameterValue else p.float f) ∧
      p'.servoPwmPeriodMSecs = if a.branch = .period then toUnsignedLong (atof a.parameterValue)
        else p.servoPwmPeriodMSecs := by
  unfold Assignment.assign at h
  cases hb : a.branch <;> simp only [hb, Option.some.injEq, Option.map_eq_some_iff] at h
  case scalar c =>
    obtain ⟨_, -, rfl⟩ := h
    simp
  case offset c =>
    obtain ⟨_, -, rfl⟩ := h
    simp
  all_goals
    subst h
    simp [Function.update_apply, eq_comm]

section

variable {p : Params} {as : List Assignment}

/-- Reading a file is making its assignments. -/
theorem assignAll_of_read {r : Reader} {file : Bytes}
    (has : lineAssignments r (fgetsPieces file) = some as)
    (hread : readAndAssignConfigurationDetails r (some file) .initial = some (.success, p)) :
    assignAll as .initial = some p := by
  rw [readAndAssignConfigurationDetails_eq, loaded, has] at hread
  obtain ⟨q, hq, heq⟩ := Option.map_eq_some_iff.1 hread
  obtain rfl : q = p := congrArg Prod.snd heq
  exact hq

theorem loaded_float (h : assignAll as .initial = some p) (f : FloatParam) :
    p.float f = configuredNumber as (.float f) := by
  have hobs := @assignAll_observe ℚ (fun q => q.float f) (.float f)
    (fun _ a => atof a.parameterValue) as (fun a _ q q' hq => (assign_number hq).1 f) _ _ h
  rw [hobs, foldl_getLast?]
  rfl

theorem loaded_period (h : assignAll as .initial = some p) :
    p.servoPwmPeriodMSecs = toUnsignedLong (configuredNumber as .period) := by
  have hobs := @assignAll_observe ℕ (fun q => q.servoPwmPeriodMSecs) .period
    (fun _ a => toUnsignedLong (atof a.parameterValue)) as
    (fun a _ q q' hq => (assign_number hq).2) _ _ h
  rw [hobs, foldl_getLast?]
  unfold configuredNumber
  cases (as.filter fun a => a.branch = Branch.period).getLast? <;> rfl

/-- **The parameters of a servo** are the numbers in the file, the period apart. -/
theorem loaded_numbers (h : assignAll as .initial = some p) (pin : PWMPin) :
    p.servoPwmPeriodMSecs = toUnsignedLong (servoNumbers as pin).period ∧
      axisMin p pin = (servoNumbers as pin).min ∧ axisMax p pin = (servoNumbers as pin).max ∧
      axisStep p pin = (servoNumbers as pin).step ∧
      axisStart p pin = (servoNumbers as pin).start := by
  cases pin with
  | ehrpwm1a => exact ⟨loaded_period h, loaded_float h _, loaded_float h _, loaded_float h _,
      loaded_float h _⟩
  | ehrpwm1b => exact ⟨loaded_period h, loaded_float h _, loaded_float h _, loaded_float h _,
      loaded_float h _⟩

end

/-! ## The conversions -/

/-- The value written is the nanoseconds of the number, which fit an
    `unsigned long`. -/
def ExactNanoseconds (mSecs : ℚ) (v : ℕ) : Prop :=
  (v : ℤ) = ⌊mSecs * 1000000⌋ ∧ 0 ≤ ⌊mSecs * 1000000⌋ ∧ ⌊mSecs * 1000000⌋ ≤ 2 ^ 32 - 1

/-- A whole number of milliseconds, up to less than a nanosecond, whose
    nanoseconds fit an `unsigned long`. -/
structure WholePeriod (mSecs : ℚ) : Prop where
  nonneg : 0 ≤ mSecs
  lt : mSecs < 4295
  fract_lt : Int.fract mSecs < 1 / 1000000

/-- `ConvertToNanoseconds` is exact from 0 on, below 4294.967296 ms. -/
theorem exactNanoseconds_iff (mSecs : ℚ) :
    ExactNanoseconds mSecs (convertToNanoseconds mSecs) ↔
      0 ≤ mSecs ∧ mSecs * 1000000 < 2 ^ 32 := by
  have hnonneg : 0 ≤ ⌊mSecs * 1000000⌋ ↔ 0 ≤ mSecs := by
    rw [Int.floor_nonneg]
    constructor <;> intro h <;> linarith
  have hlt : ⌊mSecs * 1000000⌋ ≤ 2 ^ 32 - 1 ↔ mSecs * 1000000 < 2 ^ 32 := by
    rw [Int.le_sub_one_iff, Int.floor_lt]
    norm_num
  unfold ExactNanoseconds convertToNanoseconds
  rw [toUnsignedLong_eq_floor_iff, and_self, hnonneg, hlt]

/-- A whole period survives the way through an `unsigned long`. -/
theorem WholePeriod.toUnsignedLong_eq {mSecs : ℚ} (h : WholePeriod mSecs) :
    (toUnsignedLong mSecs : ℤ) = ⌊mSecs⌋ := by
  have hlt : ⌊mSecs⌋ < 4295 := Int.floor_lt.2 (by exact_mod_cast h.lt)
  exact (toUnsignedLong_eq_floor_iff _).2 ⟨Int.floor_nonneg.2 h.nonneg, by omega⟩

/-- A number is scaled like its whole part iff its fraction is below the unit. -/
theorem floor_mul_eq_iff (mSecs : ℚ) :
    ⌊mSecs * 1000000⌋ = ⌊mSecs⌋ * 1000000 ↔ Int.fract mSecs < 1 / 1000000 := by
  have hfloor := Int.floor_le mSecs
  rw [Int.floor_eq_iff]
  unfold Int.fract
  push_cast
  constructor
  · rintro ⟨-, hlt⟩
    linarith
  · intro hlt
    constructor <;> linarith

/-- The second conversion of a period below 4295 ms. -/
theorem convertToNanoseconds_natCast {n : ℕ} (h : n < 4295) :
    convertToNanoseconds n = n * 1000000 := by
  have hfloor : ⌊(n : ℚ) * 1000000⌋ = n * 1000000 := by
    rw [Int.floor_eq_iff]
    push_cast
    constructor <;> linarith
  have hexact := (toUnsignedLong_eq_floor_iff ((n : ℚ) * 1000000)).2 (by rw [hfloor]; omega)
  rw [hfloor] at hexact
  unfold convertToNanoseconds
  omega

/-- The period is converted twice. It stays exact iff it is a whole number of
    milliseconds. -/
theorem period_exactNanoseconds_iff (mSecs : ℚ) :
    ExactNanoseconds mSecs (convertToNanoseconds (toUnsignedLong mSecs)) ↔ WholePeriod mSecs := by
  constructor
  · rintro ⟨heq, hnonneg, hmax⟩
    have h0 : 0 ≤ mSecs := by
      have := Int.floor_nonneg.1 hnonneg
      linarith
    have hlt : mSecs * 1000000 < 2 ^ 32 := by
      have := Int.floor_lt.1 (Int.le_sub_one_iff.1 hmax)
      exact_mod_cast this
    have hlt' : mSecs < 4295 := by linarith
    have hfloor : ⌊mSecs⌋ < 4295 := Int.floor_lt.2 (by exact_mod_cast hlt')
    have hwhole : (toUnsignedLong mSecs : ℤ) = ⌊mSecs⌋ :=
      (toUnsignedLong_eq_floor_iff _).2 ⟨Int.floor_nonneg.2 h0, by omega⟩
    refine ⟨h0, hlt', (floor_mul_eq_iff mSecs).1 ?_⟩
    rw [convertToNanoseconds_natCast (by omega)] at heq
    omega
  · intro h
    have hwhole := h.toUnsignedLong_eq
    have hnonneg := Int.floor_nonneg.2 h.nonneg
    have hlt : ⌊mSecs⌋ < 4295 := Int.floor_lt.2 (by exact_mod_cast h.lt)
    have hscaled := (floor_mul_eq_iff mSecs).2 h.fract_lt
    unfold ExactNanoseconds
    rw [convertToNanoseconds_natCast (by omega), hscaled]
    omega

/-! ## What is written -/

/-- Every new value of the duty cycle file is the nanoseconds of the pin's
    position. -/
def NewWritesExact (pin : PWMPin) (s s' : PWMState) : Prop :=
  ∃ vs, s'.writesTo (.dutyCycle pin) = vs ++ s.writesTo (.dutyCycle pin) ∧
    ∀ v ∈ vs, ExactNanoseconds (pwmGetDutyCycleMSecs pin s') v

/-- `PWM_init` accepts the pin, and the start-up writes the period in the file
    and the position of the pin. -/
structure StartUpExact (period : ℚ) (p : Params) (pin : PWMPin) (s0 : PWMState) : Prop where
  accepted : PinAccepted p pin
  period : ∃ v, s0.writesTo (.period pin) = [v] ∧ ExactNanoseconds period v
  position : NewWritesExact pin .initial s0

/-- The iteration leaves the period alone and writes the position of the pin. -/
structure IterationExact (pin : PWMPin) (s s' : PWMState) : Prop where
  period : s'.writesTo (.period pin) = s.writesTo (.period pin)
  position : NewWritesExact pin s s'

/-- A position that the pin's range does not take below 0. -/
def NonnegPosition (min max d : ℚ) : Prop := 0 ≤ min ∨ 0 ≤ max ∧ 0 ≤ d

theorem clamp_nonneg_iff (min max d : ℚ) : 0 ≤ clamp min max d ↔ NonnegPosition min max d := by
  unfold clamp NonnegPosition
  rw [le_max_iff, le_min_iff]

section

variable {p : Params} {pin : PWMPin} {s s' : PWMState} {request : Option ℚ}

/-- A positioning from 0 on and within the range of the conversion is exact iff
    it does not lead below 0. -/
theorem PositionedDuty.newWritesExact_iff (h : PositionedDuty pin request s s')
    (hs : 0 ≤ pwmGetDutyCycleMSecs pin s)
    (hmax : requestedDuty (s.config pin) request * 1000000 < 2 ^ 32) :
    NewWritesExact pin s s' ↔ 0 ≤ requestedDuty (s.config pin) request := by
  have hduty : pwmGetDutyCycleMSecs pin s' = requestedDuty (s.config pin) request := by
    unfold pwmGetDutyCycleMSecs
    rw [h.config, withDuty_current]
  unfold NewWritesExact
  rw [hduty, h.dutyCycle]
  by_cases hstay : requestedDuty (s.config pin) request = pwmGetDutyCycleMSecs pin s
  · rw [if_pos hstay, hstay]
    exact iff_of_true ⟨[], rfl, by simp⟩ hs
  · rw [if_neg hstay]
    constructor
    · rintro ⟨vs, hvs, hexact⟩
      obtain rfl := List.append_cancel_right hvs
      exact ((exactNanoseconds_iff _).1 (hexact _ (by simp))).1
    · intro hnonneg
      refine ⟨_, rfl, fun v hv => ?_⟩
      rw [List.mem_singleton.1 hv]
      exact (exactNanoseconds_iff _).2 ⟨hnonneg, hmax⟩

end

/-! ## Start-up and iterations -/

/-- The position that the iteration requests for the pin, if any, is none that
    its range leaves below 0. -/
def NonnegRequest (p : Params) (pin : PWMPin) (s : MainState) (i : LoopInput) : Prop :=
  ∀ irr v, readAndScale p i.atodRead s.irradianceV = some irr → scaledValues p irr = some v →
    ∀ d ∈ requestedPosition p i.panelIsStowed v pin (s.pwm.config pin),
      NonnegPosition (axisMin p pin) (axisMax p pin) d

section

variable {p : Params} {pin : PWMPin}

/-- A whole period that is at least the maximum leaves it in the range of the
    conversion. -/
theorem WholePeriod.convertible {period d max : ℚ} (h : WholePeriod period)
    (hmax : max ≤ ⌊period⌋) (hd : d ≤ max) : d * 1000000 < 2 ^ 32 := by
  have hfloor : ⌊period⌋ ≤ 4294 := Int.lt_add_one_iff.1 (Int.floor_lt.2 (by exact_mod_cast h.lt))
  have hcast : (⌊period⌋ : ℚ) ≤ 4294 := by exact_mod_cast hfloor
  linarith

/-- A whole period is compared with the maximum as it is in the file. -/
theorem WholePeriod.pinAccepted_iff {period : ℚ} (h : WholePeriod period)
    (hperiod : p.servoPwmPeriodMSecs = toUnsignedLong period)
    (hdecimal : PWMAccepts period (axisMin p pin) (axisMax p pin) (axisStep p pin)) :
    PinAccepted p pin ↔ axisMax p pin ≤ ⌊period⌋ := by
  have hcast : (p.servoPwmPeriodMSecs : ℚ) = ⌊period⌋ := by
    rw [hperiod, ← h.toUnsignedLong_eq]
    norm_cast
  unfold PinAccepted
  rw [hcast]
  exact ⟨fun ha => ha.max_le_period,
    fun hmax => ⟨hmax, hdecimal.min_le_max, hdecimal.step_le_range⟩⟩

/-- What the start-up of an accepted pin has written. -/
theorem startUp_writes (ha : PinAccepted p pin) {r1 r2 : ℤ} {s0 : PWMState}
    (h0 : mainInit p r1 r2 = some s0) :
    s0.writesTo (.period pin) = [convertToNanoseconds p.servoPwmPeriodMSecs] ∧
      (axisMax p pin * 1000000 < 2 ^ 32 → (NewWritesExact pin .initial s0 ↔
        NonnegPosition (axisMin p pin) (axisMax p pin) (axisStart p pin))) := by
  obtain ⟨s, hinit, hduty⟩ := mainInit_positionedDuty ha h0
  constructor
  · rw [hduty.period, hinit.period]
  · intro hmax
    have hrequested : requestedDuty (s.config pin) (some (axisStart p pin)) =
        clamp (axisMin p pin) (axisMax p pin) (axisStart p pin) := by
      rw [hinit.config]
      rfl
    have hle : clamp (axisMin p pin) (axisMax p pin) (axisStart p pin) ≤ axisMax p pin :=
      clamp_le ha.min_le_max _
    have hzero : pwmGetDutyCycleMSecs pin s = 0 := by
      unfold pwmGetDutyCycleMSecs
      rw [hinit.config]
    calc NewWritesExact pin .initial s0
        ↔ NewWritesExact pin s s0 := by
          unfold NewWritesExact
          rw [hinit.dutyCycle]
          rfl
      _ ↔ 0 ≤ clamp (axisMin p pin) (axisMax p pin) (axisStart p pin) := by
          rw [hduty.newWritesExact_iff hzero.ge (by rw [hrequested]; linarith), hrequested]
      _ ↔ NonnegPosition (axisMin p pin) (axisMax p pin) (axisStart p pin) :=
          clamp_nonneg_iff _ _ _

/-- **Start-up.** It is exact iff the period is a whole number that is at least
    the maximum, and the start position is not driven below 0. -/
theorem startUp_exact_iff {period : ℚ} (hperiod : p.servoPwmPeriodMSecs = toUnsignedLong period)
    (hdecimal : PWMAccepts period (axisMin p pin) (axisMax p pin) (axisStep p pin)) {r1 r2 : ℤ}
    {s0 : PWMState} (h0 : mainInit p r1 r2 = some s0) :
    StartUpExact period p pin s0 ↔ WholePeriod period ∧ axisMax p pin ≤ ⌊period⌋ ∧
      NonnegPosition (axisMin p pin) (axisMax p pin) (axisStart p pin) := by
  constructor
  · rintro ⟨ha, ⟨v, hv, hexact⟩, hposition⟩
    obtain ⟨hwritten, hstart⟩ := startUp_writes ha h0
    rw [hwritten, List.singleton_inj] at hv
    rw [← hv, hperiod, period_exactNanoseconds_iff] at hexact
    have hmax := (hexact.pinAccepted_iff hperiod hdecimal).1 ha
    exact ⟨hexact, hmax, (hstart (hexact.convertible hmax le_rfl)).1 hposition⟩
  · rintro ⟨hwhole, hmax, hnonneg⟩
    have ha := (hwhole.pinAccepted_iff hperiod hdecimal).2 hmax
    obtain ⟨hwritten, hstart⟩ := startUp_writes ha h0
    rw [hperiod] at hwritten
    exact ⟨ha, ⟨_, hwritten, (period_exactNanoseconds_iff period).2 hwhole⟩,
      (hstart (hwhole.convertible hmax le_rfl)).2 hnonneg⟩

/-- **One iteration** from a position that is not below 0: it is exact iff it
    does not request one that is, and then leads to another such position. -/
theorem iteration_exact_iff (hmax : axisMax p pin * 1000000 < 2 ^ 32) {s s' : MainState}
    {i : LoopInput} (hs : PinConfigured p pin s.pwm) (hnonneg : 0 ≤ pwmGetDutyCycleMSecs pin s.pwm)
    (h : mainStep p s i s') :
    (IterationExact pin s.pwm s'.pwm ↔ NonnegRequest p pin s i) ∧
      (NonnegRequest p pin s i → 0 ≤ pwmGetDutyCycleMSecs pin s'.pwm) := by
  obtain ⟨irr, v, hirr, hv, rfl⟩ := mainIteration_eq_some_iff.1 h
  have hpos := @driveServos_positions p i.panelIsStowed v pin s.pwm
  have hduty := hpos.duty hs.rangeNonempty
  have hcurrent := (hs.positioned hpos).inRange.le_max
  rw [(hs.positioned hpos).max_eq, hduty.config, withDuty_current] at hcurrent
  have hrequest : NonnegRequest p pin s i ↔ 0 ≤ requestedDuty (s.pwm.config pin)
      (requestedPosition p i.panelIsStowed v pin (s.pwm.config pin)) := by
    unfold NonnegRequest
    constructor
    · intro hall
      have hd := hall irr v hirr hv
      cases hreq : requestedPosition p i.panelIsStowed v pin (s.pwm.config pin) with
      | none => exact hnonneg
      | some d =>
        have hclamp := (clamp_nonneg_iff _ _ _).2 (hd d hreq)
        rwa [← hs.min_eq, ← hs.max_eq] at hclamp
    · intro hclamp irr' v' hirr' hv' d hd
      obtain rfl := Option.some.inj (hirr.symm.trans hirr')
      obtain rfl := Option.some.inj (hv.symm.trans hv')
      rw [hd] at hclamp
      rw [← clamp_nonneg_iff, ← hs.min_eq, ← hs.max_eq]
      exact hclamp
  have hwrites := hduty.newWritesExact_iff hnonneg (by linarith)
  constructor
  · rw [hrequest, ← hwrites]
    exact ⟨fun hexact => hexact.position, fun hposition => ⟨hduty.period, hposition⟩⟩
  · intro hreq
    unfold pwmGetDutyCycleMSecs
    rw [hduty.config, withDuty_current]
    exact hrequest.1 hreq

/-! ## Files and runs -/

/-- **Configured milliseconds reach the hardware.** For every file whose numbers
    for a pin pass the checks of `PWM_init`: the start-up writes them exactly iff
    the period is a whole number that is at least the maximum, and the start
    position is not driven below 0. Then, while no iteration requests a position
    below 0, an iteration writes its position exactly iff it does not do so
    either. -/
theorem nanoseconds_run_iff {r : Reader} {file : Bytes} {as : List Assignment}
    (has : lineAssignments r (fgetsPieces file) = some as)
    (hread : readAndAssignConfigurationDetails r (some file) .initial = some (.success, p))
    (hdecimal : PWMAccepts (servoNumbers as pin).period (servoNumbers as pin).min
      (servoNumbers as pin).max (servoNumbers as pin).step) {r1 r2 : ℤ} {s0 : PWMState}
    (h0 : mainInit p r1 r2 = some s0) :
    (StartUpExact (servoNumbers as pin).period p pin s0 ↔
      WholePeriod (servoNumbers as pin).period ∧
        (servoNumbers as pin).max ≤ ⌊(servoNumbers as pin).period⌋ ∧
        NonnegPosition (servoNumbers as pin).min (servoNumbers as pin).max
          (servoNumbers as pin).start) ∧
    (StartUpExact (servoNumbers as pin).period p pin s0 →
      ∀ (ls : List LoopInput) (s : MainState) (i : LoopInput) (s' : MainState),
        Run (Guarded (NonnegRequest p pin) (mainStep p)) (.entry s0) ls s → mainStep p s i s' →
          (IterationExact pin s.pwm s'.pwm ↔ NonnegRequest p pin s i)) := by
  obtain ⟨hperiod, hmin, hmax, hstep, hstart⟩ := loaded_numbers (assignAll_of_read has hread) pin
  rw [← hmin, ← hmax, ← hstep] at hdecimal
  have hiff := startUp_exact_iff hperiod hdecimal h0
  rw [hmin, hmax, hstart] at hiff
  refine ⟨hiff, fun hexact ls s i s' hr h => ?_⟩
  obtain ⟨hwhole, hle, hnonneg⟩ := hiff.1 hexact
  rw [← hmax] at hle
  have hconvertible := hwhole.convertible hle le_rfl
  have hinv : PinConfigured p pin s.pwm ∧ 0 ≤ pwmGetDutyCycleMSecs pin s.pwm := by
    refine hr.invariant (P := fun s => PinConfigured p pin s.pwm ∧
      0 ≤ pwmGetDutyCycleMSecs pin s.pwm) (fun s i t hs h => ?_) ⟨?_, ?_⟩
    · obtain ⟨hrequest, hstep⟩ := h
      refine ⟨?_, (iteration_exact_iff hconvertible hs.1 hs.2 hstep).2 hrequest⟩
      obtain ⟨v, hv⟩ := mainStep_servoStep hstep
      rw [← hv]
      exact hs.1.positioned (driveServos_positions _ _ _ _)
    · exact mainInit_pinConfigured hexact.accepted h0
    · show 0 ≤ pwmGetDutyCycleMSecs pin s0
      rw [mainInit_duty hexact.accepted h0, clamp_nonneg_iff, hmin, hmax, hstart]
      exact hnonneg
  exact (iteration_exact_iff hconvertible hinv.1 hinv.2 h).1

end

/-! ## Two files -/

/-- The lines of the azimuth servo. -/
def azimuthLines : List ConfigLine :=
  [tabbedLine "SERVO_PWM_AZIMUTH_MIN_DUTY_CYCLE_mSecs" "0.6" (by decide),
    tabbedLine "SERVO_PWM_AZIMUTH_MAX_DUTY_CYCLE_mSecs" "2.4" (by decide),
    tabbedLine "SERVO_PWM_AZIMUTH_STEP_SIZE_mSecs" "0.02" (by decide),
    tabbedLine "SERVO_AZIMUTH_START_POSITION_PWM_mSecs" "1.5" (by decide)]

/-- With a period of 20 ms. -/
def wholePeriodLines : List ConfigLine :=
  tabbedLine "SERVO_PWM_PERIOD_mSecs" "20" (by decide) :: azimuthLines

/-- With a period of 2.5 ms. -/
def fractionalPeriodLines : List ConfigLine :=
  tabbedLine "SERVO_PWM_PERIOD_mSecs" "2.5" (by decide) :: azimuthLines

theorem servoNumbers_wholePeriod :
    servoNumbers (assignmentsOf wholePeriodLines) .ehrpwm1a = ⟨20, 0.6, 2.4, 0.02, 1.5⟩ := by
  decide +kernel

theorem servoNumbers_fractionalPeriod :
    servoNumbers (assignmentsOf fractionalPeriodLines) .ehrpwm1a = ⟨2.5, 0.6, 2.4, 0.02, 1.5⟩ := by
  decide +kernel

/-- Files of short lines whose assignments succeed start the program. -/
theorem exists_mainInit {lines : List ConfigLine}
    (hshort : ∀ l ∈ lines, l.text.length < maxParameterTextLength - 1)
    (hassign : (assignAll (assignmentsOf lines) .initial).isSome) :
    lineAssignments .zeroed (fgetsPieces (fileText true lines)) = some (assignmentsOf lines) ∧
      ∃ p s0, readAndAssignConfigurationDetails .zeroed (some (fileText true lines)) .initial =
        some (.success, p) ∧ mainInit p 0 0 = some s0 := by
  obtain ⟨p, hp⟩ := Option.isSome_iff_exists.1 hassign
  obtain ⟨s0, h0⟩ := Option.isSome_iff_exists.1 (mainInit_isSome (p := p) (.inl rfl) (.inl rfl))
  refine ⟨lineAssignments_fileText .zeroed true hshort, p, s0, ?_, h0⟩
  rw [readAndAssign_fileText hshort, hp]
  rfl

/-- `nanoseconds_run_iff` for the first file. -/
theorem nanoseconds_run_iff_wholePeriod : ∃ p s0,
    readAndAssignConfigurationDetails .zeroed (some (fileText true wholePeriodLines)) .initial =
      some (.success, p) ∧ mainInit p 0 0 = some s0 ∧ StartUpExact 20 p .ehrpwm1a s0 := by
  obtain ⟨has, p, s0, hread, h0⟩ :=
    @exists_mainInit wholePeriodLines (by decide +kernel) (by decide +kernel)
  have hnumbers := servoNumbers_wholePeriod
  have hiff := @nanoseconds_run_iff p .ehrpwm1a .zeroed _ _ has hread
    (by rw [hnumbers]; constructor <;> norm_num) 0 0 s0 h0
  rw [hnumbers] at hiff
  refine ⟨p, s0, hread, h0, hiff.1.2 ⟨⟨by norm_num, by norm_num, by norm_num⟩, by norm_num, ?_⟩⟩
  exact .inl (by norm_num)

/-- The second period is cut to 2 ms, and `PWM_init` rejects the maximum of
    2.4 ms. -/
theorem fractionalPeriod_rejected :
    ¬∀ (r : Reader) (file : Bytes) (as : List Assignment) (p : Params) (pin : PWMPin) (r1 r2 : ℤ)
        (s0 : PWMState), lineAssignments r (fgetsPieces file) = some as →
      readAndAssignConfigurationDetails r (some file) .initial = some (.success, p) →
      PWMAccepts (servoNumbers as pin).period (servoNumbers as pin).min (servoNumbers as pin).max
        (servoNumbers as pin).step → mainInit p r1 r2 = some s0 →
        StartUpExact (servoNumbers as pin).period p pin s0 := by
  intro hall
  obtain ⟨has, p, s0, hread, h0⟩ :=
    @exists_mainInit fractionalPeriodLines (by decide +kernel) (by decide +kernel)
  have hnumbers := servoNumbers_fractionalPeriod
  have hdecimal : PWMAccepts (servoNumbers (assignmentsOf fractionalPeriodLines) .ehrpwm1a).period
      (servoNumbers (assignmentsOf fractionalPeriodLines) .ehrpwm1a).min
      (servoNumbers (assignmentsOf fractionalPeriodLines) .ehrpwm1a).max
      (servoNumbers (assignmentsOf fractionalPeriodLines) .ehrpwm1a).step := by
    rw [hnumbers]
    constructor <;> norm_num
  have hexact := hall .zeroed _ _ p .ehrpwm1a 0 0 s0 has hread hdecimal h0
  obtain ⟨hperiod, -, hmax, -⟩ := loaded_numbers (assignAll_of_read has hread) .ehrpwm1a
  have hcut : toUnsignedLong 2.5 = 2 := by decide +kernel
  have hle := hexact.accepted.max_le_period
  rw [hperiod, hmax, hnumbers, hcut] at hle
  norm_num at hle

end TrackerDemo.Tracker

import Mathlib.Data.Fintype.EquivFin
import TrackerDemo.Hw.Adc
import TrackerDemo.Tracker.Snapshot

/-!
# The published irradiances

From the raw codes of the A/D converter to the message of
`ReportToBroker_thread` (`trackerDemo.c`, lines 332–342): `AtoD_read` converts a
code to volts, full scale being 1.8, `main` calibrates the volts, and the report
multiplies them with `A2D_BIT_RANGE`, as if full scale were 1.

Results:
* `iterations_read`: the readings of the iterations in a run.
* `irradianceField_le_iff`: a field is in the range of the converter iff its
  calibrated code is below 2275.
* `publishedIrradiances_iff`: the same for every message of every run.
-/

namespace TrackerDemo.Tracker

open TrackerDemo.CString TrackerDemo.Config TrackerDemo.Hw TrackerDemo.Transition

/-! ## Readings of raw codes -/

section

variable {p : Params}

/-- What `main` reads while the inputs of the corners have these raw codes. -/
def CodeReadings (p : Params) (code : Corner → ℕ) (readings : Corner → ℚ) : Prop :=
  ∃ (files : Bytes → FileRead) (stack : Corner → Bytes), ∀ c, code c ≤ maxA2dValue ∧
    files (analogPinFilePath (p.lightSensor c)) = .bytes (decimal (code c) ++ [10]) ∧
    readings c = atodRead files (p.lightSensor c) (stack c)

theorem CodeReadings.eq_voltsOf {code : Corner → ℕ} {readings : Corner → ℚ}
    (h : CodeReadings p code readings) (c : Corner) : readings c = voltsOf (code c) := by
  obtain ⟨files, stack, h⟩ := h
  obtain ⟨hcode, hfile, hread⟩ := h c
  rw [hread, atodRead_of_code hcode hfile]

/-- Every iteration of a run, and the one under way, has readings of an event. -/
structure ReadingsOf (es : List SensorEvent) (s : SensorSystem) : Prop where
  iterations : ∀ r ∈ s.iterations, .mainLock r ∈ es
  block : ∀ r ops reg, s.main = .block r ops reg → .mainLock r ∈ es

/-- The step lemma. -/
theorem ReadingsOf.step {es : List SensorEvent} {s s' : SensorSystem} {e : SensorEvent}
    (h : ReadingsOf es s) (hstep : SensorStep p s e s') : ReadingsOf (es ++ [e]) s' := by
  have hkeep : ∀ r ∈ s.iterations, SensorEvent.mainLock r ∈ es ++ [e] :=
    fun r hr => List.mem_append_left _ (h.iterations r hr)
  have hblock : ∀ r ops reg, s.main = .block r ops reg → SensorEvent.mainLock r ∈ es ++ [e] :=
    fun r ops reg hpc => List.mem_append_left _ (h.block r ops reg hpc)
  cases hstep with
  | mainLock r hpc hfree =>
    refine ⟨hkeep, ?_⟩
    rintro _ _ _ ⟨⟩
    simp
  | mainAccess hpc hop =>
    refine ⟨hkeep, ?_⟩
    rintro _ _ _ ⟨⟩
    exact hblock _ _ _ hpc
  | mainUnlock panelIsStowed hpc =>
    refine ⟨?_, ?_⟩
    · intro r hr
      rcases List.mem_cons.1 hr with rfl | hmem
      · exact hblock _ _ _ hpc
      · exact hkeep r hmem
    · intro r ops reg hmain
      cases panelIsStowed <;> cases hmain
  | mainRead hpc hunread hload => exact ⟨hkeep, by rintro _ _ _ ⟨⟩⟩
  | @differential axis values v hpc hread =>
    refine ⟨hkeep, fun r ops reg hmain => ?_⟩
    cases axis <;> cases hmain
  | reporterLock tvSec hpc hfree => exact ⟨hkeep, hblock⟩
  | reporterRead hpc hunread => exact ⟨hkeep, hblock⟩
  | reporterUnlock hpc hread => exact ⟨hkeep, hblock⟩
  | publish hpc => exact ⟨hkeep, hblock⟩

/-- The run lemma. -/
theorem iterations_read {es : List SensorEvent} {s : SensorSystem}
    (hr : Run (SensorStep p) .initial es s) : ReadingsOf es s := by
  refine hr.reverseInduction (P := ReadingsOf) ⟨by simp [SensorSystem.initial], ?_⟩
    fun _ _ _ _ _ h hstep => h.step hstep
  rintro _ _ _ ⟨⟩

end

/-! ## The fields of a message -/

/-- The field of a raw code, with the scalar of its sensor. -/
def irradianceField (scalar : ℚ) (code : ℕ) : ℕ :=
  toUnsignedLong (scalar * voltsOf code * a2dBitRange)

theorem irradianceField_mono {scalar : ℚ} (h : 0 ≤ scalar) : Monotone (irradianceField scalar) := by
  intro code code' hle
  have hcast : (code : ℚ) ≤ code' := by exact_mod_cast hle
  refine toUnsignedLong_mono ?_
  unfold voltsOf maxA2dValue maxA2dVoltage a2dBitRange
  gcongr

/-- The range of the converter is `4095 / 1.8` codes a volt. -/
theorem irradianceField_le_iff (scalar : ℚ) (code : ℕ) :
    (irradianceField scalar code : ℚ) ≤ a2dBitRange - 1 ↔ scalar * code < 2275 := by
  have hvolts : scalar * voltsOf code * a2dBitRange = scalar * code * (4096 / 2275) := by
    unfold voltsOf maxA2dValue maxA2dVoltage a2dBitRange
    push_cast
    ring
  calc (irradianceField scalar code : ℚ) ≤ a2dBitRange - 1
      ↔ irradianceField scalar code < 4096 := by
        unfold a2dBitRange
        rw [← Nat.le_sub_one_iff_lt (by omega), ← Nat.cast_le (α := ℚ)]
        norm_num
    _ ↔ scalar * code * (4096 / 2275) < (4096 : ℕ) := by
        unfold irradianceField
        rw [hvolts]
        exact toUnsignedLong_lt_iff (by omega) (by omega) _
    _ ↔ scalar * code < 2275 := by
        push_cast
        constructor <;> intro h <;> linarith

section

variable {p : Params}

instance : Fintype Corner where
  elems := {.leftTop, .rightTop, .leftBottom, .rightBottom}
  complete c := by cases c <;> decide

/-- Every element of `irradianceV` is that of a corner. -/
theorem exists_corner_eq (hp : MappingUsable p) (i : Fin numLightSensors) :
    ∃ c, (⟨p.lightSensor c, hp.inBounds c⟩ : Fin numLightSensors) = i := by
  have hinj : Function.Injective fun c =>
      (⟨p.lightSensor c, hp.inBounds c⟩ : Fin numLightSensors) :=
    fun c c' h => hp.injective (congrArg Fin.val h)
  exact ((Fintype.bijective_iff_injective_and_card _).2 ⟨hinj, rfl⟩).surjective i

/-- The message is the report of readings of these raw codes. -/
def ReportsCodes (hp : MappingUsable p) (code : Corner → ℕ) (m : IrradianceMessage) : Prop :=
  ∀ c, m.clIrradiance ⟨p.lightSensor c, hp.inBounds c⟩ =
    irradianceField (p.lightSensorScalar ⟨p.lightSensor c, hp.inBounds c⟩) (code c)

/-- Every field is in the range of the converter. -/
def InA2dRange (m : IrradianceMessage) : Prop := ∀ i, (m.clIrradiance i : ℚ) ≤ a2dBitRange - 1

theorem ReportsCodes.inA2dRange_iff {hp : MappingUsable p} {code : Corner → ℕ}
    {m : IrradianceMessage} (h : ReportsCodes hp code m) :
    InA2dRange m ↔
      ∀ c, p.lightSensorScalar ⟨p.lightSensor c, hp.inBounds c⟩ * code c < 2275 := by
  constructor
  · intro hrange c
    have hfield := hrange ⟨p.lightSensor c, hp.inBounds c⟩
    rw [h c] at hfield
    exact (irradianceField_le_iff _ _).1 hfield
  · intro hcode i
    obtain ⟨c, rfl⟩ := exists_corner_eq hp i
    rw [h c]
    exact (irradianceField_le_iff _ _).2 (hcode c)

/-- What is published of an array that the readings were scaled into. -/
theorem reportsCodes_formatIrradiances (hp : MappingUsable p)
    (hoffset : ∀ i, p.lightSensorOffset i = 0) {code : Corner → ℕ} {readings : Corner → ℚ}
    (hcode : CodeReadings p code readings) {irr : Fin numLightSensors → ℚ}
    (hirr : FullyScaled p readings irr) (tvSec : ℤ) :
    ReportsCodes hp code (formatIrradiances irr tvSec) := by
  intro c
  unfold formatIrradiances irradianceField
  dsimp only
  rw [hirr c (hp.inBounds c), hoffset, add_zero, hcode.eq_voltsOf]

/-- **The published irradiances.** While all iterations read raw codes, a message
    reports codes that were read, or those of a dark start; it stays in the range
    of the converter iff every calibrated code is below 2275; and its fields do
    not decrease in the codes. -/
theorem publishedIrradiances_iff (hp : MappingUsable p)
    (hscalar : ∀ i, 0 ≤ p.lightSensorScalar i) (hoffset : ∀ i, p.lightSensorOffset i = 0)
    {es : List SensorEvent} {s : SensorSystem} (hr : Run (SensorStep p) .initial es s)
    (hcodes : ∀ r, .mainLock r ∈ es → ∃ code, CodeReadings p code r) :
    (∀ m ∈ s.published, ∃ code : Corner → ℕ,
      ((∃ r, .mainLock r ∈ es ∧ CodeReadings p code r) ∨ code = fun _ => 0) ∧
      ReportsCodes hp code m ∧
      (InA2dRange m ↔
        ∀ c, p.lightSensorScalar ⟨p.lightSensor c, hp.inBounds c⟩ * code c < 2275)) ∧
    ∀ i, Monotone (irradianceField (p.lightSensorScalar i)) := by
  refine ⟨fun m hm => ?_, fun i => irradianceField_mono (hscalar i)⟩
  have hinv : SensorInvariant p s :=
    hr.invariant (fun _ _ _ h hstep => h.step hp hstep) sensorInvariant_initial
  obtain ⟨irr, heq, hzero | ⟨r, hr', hscaled⟩⟩ := hinv.published m hm
  · have hreports : ReportsCodes hp (fun _ => 0) m := by
      rw [heq]
      intro c
      unfold formatIrradiances irradianceField voltsOf
      dsimp only
      rw [hzero]
      norm_num
    exact ⟨_, .inr rfl, hreports, hreports.inA2dRange_iff⟩
  · have hread := (iterations_read hr).iterations r hr'
    obtain ⟨code, hcode⟩ := hcodes r hread
    have hreports := reportsCodes_formatIrradiances hp hoffset hcode hscaled m.timestampUtc
    rw [← heq] at hreports
    exact ⟨code, .inl ⟨r, hread, hcode⟩, hreports, hreports.inA2dRange_iff⟩

end

/-- All four inputs at one code. -/
theorem codeReadings_const (p : Params) {code : ℕ} (h : code ≤ maxA2dValue) :
    CodeReadings p (fun _ => code) fun c =>
      atodRead (fun _ => .bytes (decimal code ++ [10])) (p.lightSensor c) [] :=
  ⟨_, fun _ => [], fun _ => ⟨h, rfl, rfl⟩⟩

/-- An iteration of the sample tracker with all inputs at one code, and its
    report. -/
theorem sample_report {code : ℕ} (h : code ≤ maxA2dValue) :
    ∃ (es : List SensorEvent) (s : SensorSystem) (m : IrradianceMessage),
      Run (SensorStep sampleParams) .initial es s ∧
      (∀ r, .mainLock r ∈ es → CodeReadings sampleParams (fun _ => code) r) ∧
      s.published = [m] ∧ ReportsCodes sampleParams_mapping (fun _ => code) m := by
  have hcode := codeReadings_const sampleParams h
  obtain ⟨irr, hscaled, hrun⟩ := run_iterationAndReport sampleParams_mapping
    (fun c => atodRead (fun _ => .bytes (decimal code ++ [10])) (sampleParams.lightSensor c) []) 0
  refine ⟨_, _, _, hrun, fun r hr => ?_, rfl,
    reportsCodes_formatIrradiances _ (fun _ => rfl) hcode hscaled 0⟩
  rw [mainLock_mem_iterationAndReport.1 hr]
  exact hcode

/-- `publishedIrradiances_iff` for a report at half of the range. -/
theorem publishedIrradiances_iff_half : ∃ (es : List SensorEvent) (s : SensorSystem),
    Run (SensorStep sampleParams) .initial es s ∧ s.published.length = 1 ∧
      ∀ m ∈ s.published, ∃ code : Corner → ℕ, ReportsCodes sampleParams_mapping code m := by
  obtain ⟨es, s, m, hrun, hcodes, hm, -⟩ := 
    sample_report (show 2048 ≤ maxA2dValue by decide)
  refine ⟨es, s, hrun, by rw [hm]; rfl, fun m hm => ?_⟩
  obtain ⟨code, -, hreports, -⟩ := (publishedIrradiances_iff sampleParams_mapping
    (fun _ => by norm_num [sampleParams]) (fun _ => rfl) hrun
    fun r hr => ⟨_, hcodes r hr⟩).1 m hm
  exact ⟨code, hreports⟩

/-- A reading of full scale is published as 7372. -/
theorem fullScale_not_inA2dRange :
    irradianceField 1 4095 = 7372 ∧
      ¬∀ (p : Params) (es : List SensorEvent) (s : SensorSystem), MappingUsable p →
        (∀ i, 0 ≤ p.lightSensorScalar i ∧ p.lightSensorScalar i ≤ 1) →
        (∀ i, p.lightSensorOffset i = 0) → Run (SensorStep p) .initial es s →
        (∀ r, .mainLock r ∈ es → ∃ code, CodeReadings p code r) →
          ∀ m ∈ s.published, InA2dRange m := by
  refine ⟨by decide +kernel, fun h => ?_⟩
  obtain ⟨es, s, m, hrun, hcodes, hm, hreports⟩ := 
    sample_report (show 4095 ≤ maxA2dValue by decide)
  have hrange := h sampleParams es s sampleParams_mapping
    (fun _ => by norm_num [sampleParams]) (fun _ => rfl) hrun (fun r hr => ⟨_, hcodes r hr⟩) m
    (by rw [hm]; simp)
  have hcode := hreports.inA2dRange_iff.1 hrange .leftTop
  norm_num [sampleParams] at hcode

end TrackerDemo.Tracker

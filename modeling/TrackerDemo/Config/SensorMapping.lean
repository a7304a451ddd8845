import TrackerDemo.Config.Reader
import TrackerDemo.Tracker.MainLoop

/-!
# The sensor mapping of the configuration file

`LIGHT_SENSOR_LEFT_TOP` and its siblings map the corners of the panel to A/D
inputs. They index `lightSensorScalar` and `lightSensorOffset` while the file is
still being read, and these arrays and `irradianceV` in the control loop. The
reader stores any number and never looks at it again.

Results:
* `assignAll_lightSensor_eq`: a corner ends with its last mapping line.
* `assignAll_isSome_iff`: when the calibration lines stay inside their arrays.
* `sensorMappingUsable_iff`: the files whose mapping is usable.
* `sensorMappingUsable_of_text`: the same by the text of the lines.
* `SensorMappingUsable.readAndScale_eq`: what a usable mapping is good for.
-/

namespace TrackerDemo.Config

open TrackerDemo.CString TrackerDemo.Jsmn TrackerDemo.TextLines TrackerDemo.Tracker

/-! ## Mapping lines -/

/-- The input that a line maps the corner to. -/
def Assignment.mapsTo (c : Corner) (a : Assignment) : Option ℕ :=
  if a.branch = .lightSensor c then some (toUnsignedInt (atoi a.parameterValue)) else none

/-- The input that the last mapping line of the corner maps it to. -/
def lastMapping (c : Corner) : List Assignment → Option ℕ
  | [] => none
  | a :: as => (lastMapping c as).or (a.mapsTo c)

theorem assign_lightSensor_eq {a : Assignment} {p p' : Params} (h : a.assign p = some p')
    (c : Corner) : p'.lightSensor c = (a.mapsTo c).getD (p.lightSensor c) := by
  rw [assign_lightSensor h]
  unfold Assignment.mapping Assignment.mapsTo
  cases hb : a.branch
  case lightSensor c' =>
    by_cases hc : c' = c
    · subst hc
      simp
    · simp [hc, Function.update_of_ne (Ne.symm hc)]
  all_goals simp

/-- A corner ends with its last mapping line. -/
theorem assignAll_lightSensor_eq {as : List Assignment} {p p' : Params}
    (h : assignAll as p = some p') (c : Corner) :
    p'.lightSensor c = (lastMapping c as).getD (p.lightSensor c) := by
  induction as generalizing p with
  | nil =>
    rw [← Option.some.inj h]
    rfl
  | cons a as ih =>
    obtain ⟨q, ha, hrest⟩ := assignAll_cons_eq_some.1 h
    rw [ih hrest, assign_lightSensor_eq ha, lastMapping]
    cases lastMapping c as <;> rfl

/-! ## Calibration lines -/

/-- Every calibration line follows a mapping line of its corner with an input
    below `NUM_LIGHT_SENSORS`, or none at all: the last one counts, and without
    one the corner is at its input in `p`. -/
def CalibratedInBounds (p : Params) (as : List Assignment) : Prop :=
  ∀ before a after, as = before ++ a :: after →
    ∀ c ∈ a.branch.indexedBy, (lastMapping c before).getD (p.lightSensor c) < numLightSensors

/-- The first line, and the others with the mapping it leaves. -/
theorem calibratedInBounds_cons (a : Assignment) (as : List Assignment) (p : Params) :
    CalibratedInBounds p (a :: as) ↔ ∃ q, a.assign p = some q ∧ CalibratedInBounds q as := by
  have hmap : ∀ {q}, a.assign p = some q → ∀ before c,
      (lastMapping c (a :: before)).getD (p.lightSensor c) =
        (lastMapping c before).getD (q.lightSensor c) := by
    intro q hq before c
    rw [assign_lightSensor_eq hq, lastMapping]
    cases lastMapping c before <;> rfl
  constructor
  · intro h
    have hfirst : (a.assign p).isSome := (assign_isSome_iff a p).2 fun c hc => h [] a as rfl c hc
    obtain ⟨q, hq⟩ := Option.isSome_iff_exists.1 hfirst
    refine ⟨q, hq, fun before b after heq c hc => ?_⟩
    rw [← hmap hq]
    exact h (a :: before) b after (by rw [heq, List.cons_append]) c hc
  · rintro ⟨q, hq, h⟩ before b after heq c hc
    cases before with
    | nil =>
      obtain ⟨rfl, -⟩ := List.cons.inj heq
      exact (assign_isSome_iff a p).1 (by rw [hq]; rfl) c hc
    | cons a' before =>
      obtain ⟨rfl, htail⟩ := List.cons.inj heq
      rw [hmap hq]
      exact h before b after htail c hc

/-- Reading succeeds iff the calibration lines stay inside their arrays. -/
theorem assignAll_isSome_iff (as : List Assignment) (p : Params) :
    (assignAll as p).isSome ↔ CalibratedInBounds p as := by
  induction as generalizing p with
  | nil =>
    refine iff_of_true rfl fun before a after h => ?_
    simp at h
  | cons a as ih =>
    rw [calibratedInBounds_cons, assignAll_cons, Option.bind_eq_bind, Option.isSome_bind]
    simp [Option.any_eq_true, ih]

/-! ## Usable mappings -/

/-- The file is read to its end without leaving an array, no read-and-scale
    block of the control loop leaves one, and the four inputs differ. -/
def SensorMappingUsable (r : Reader) (file : Bytes) : Prop :=
  ∃ p, readAndAssignConfigurationDetails r (some file) .initial = some (.success, p) ∧
    (∀ atodRead irr, (readAndScale p atodRead irr).isSome) ∧ Function.Injective p.lightSensor

/-- The mapping lines of a file: an input below `NUM_LIGHT_SENSORS` where a
    calibration line follows and at the end, and four different ones there.
    A corner without a mapping line is at input 0. -/
structure MappingLines (as : List Assignment) : Prop where
  calibrated : ∀ before a after, as = before ++ a :: after →
    ∀ c ∈ a.branch.indexedBy, ∀ input ∈ lastMapping c before, input < numLightSensors
  inBounds : ∀ c, ∀ input ∈ lastMapping c as, input < numLightSensors
  distinct : Function.Injective fun c => (lastMapping c as).getD 0

/-- An input below the bound: the corner's last mapping line, or input 0. -/
theorem getD_lt_iff (input : Option ℕ) :
    input.getD 0 < numLightSensors ↔ ∀ i ∈ input, i < numLightSensors := by
  cases input <;> simp

theorem mappingLines_iff (as : List Assignment) :
    MappingLines as ↔ CalibratedInBounds .initial as ∧
      (∀ c, (lastMapping c as).getD 0 < numLightSensors) ∧
        Function.Injective fun c => (lastMapping c as).getD 0 := by
  constructor
  · rintro ⟨hcal, hin, hinj⟩
    exact ⟨fun before a after heq c hc => (getD_lt_iff _).2 (hcal before a after heq c hc),
      fun c => (getD_lt_iff _).2 (hin c), hinj⟩
  · rintro ⟨hcal, hin, hinj⟩
    exact ⟨fun before a after heq c hc => (getD_lt_iff _).1 (hcal before a after heq c hc),
      fun c => (getD_lt_iff _).1 (hin c), hinj⟩

/-- The block stays inside the arrays iff the corners do. -/
theorem forall_readAndScale_isSome_iff (p : Params) :
    (∀ atodRead irr, (readAndScale p atodRead irr).isSome) ↔ MappingInBounds p := by
  constructor
  · intro h
    exact (readAndScale_isSome_iff (fun _ => 0) fun _ => 0).1 (h _ _)
  · intro h atodRead irr
    exact (readAndScale_isSome_iff atodRead irr).2 h

/-- A file that is decoded to `as` is usable iff the mapping lines among them
    are. -/
theorem sensorMappingUsable_of_decoded {r : Reader} {file : Bytes} {as : List Assignment}
    (h : lineAssignments r (fgetsPieces file) = some as) :
    SensorMappingUsable r file ↔ MappingLines as := by
  have hloaded : ∀ p, readAndAssignConfigurationDetails r (some file) .initial =
      some (.success, p) ↔ assignAll as .initial = some p := by
    intro p
    rw [readAndAssignConfigurationDetails_eq, loaded, h]
    simp
  have hmap : ∀ p, assignAll as .initial = some p →
      p.lightSensor = fun c => (lastMapping c as).getD 0 := by
    intro p hp
    funext c
    exact assignAll_lightSensor_eq hp c
  rw [mappingLines_iff, ← assignAll_isSome_iff]
  constructor
  · rintro ⟨p, hp, hin, hinj⟩
    rw [hloaded] at hp
    rw [forall_readAndScale_isSome_iff, MappingInBounds, hmap p hp] at hin
    rw [hmap p hp] at hinj
    exact ⟨by rw [hp]; rfl, hin, hinj⟩
  · rintro ⟨hsome, hin, hinj⟩
    obtain ⟨p, hp⟩ := Option.isSome_iff_exists.1 hsome
    refine ⟨p, (hloaded p).2 hp, ?_, ?_⟩
    · rw [forall_readAndScale_isSome_iff, MappingInBounds, hmap p hp]
      exact hin
    · rw [hmap p hp]
      exact hinj

/-- **Main theorem.** The mapping of a file is usable iff its lines can be
    decoded and the mapping lines among them are usable. -/
theorem sensorMappingUsable_iff (r : Reader) (file : Bytes) :
    SensorMappingUsable r file ↔
      ∃ as, lineAssignments r (fgetsPieces file) = some as ∧ MappingLines as := by
  constructor
  · intro h
    cases hd : lineAssignments r (fgetsPieces file) with
    | none =>
      obtain ⟨p, hp, -⟩ := h
      rw [readAndAssignConfigurationDetails_eq, loaded, hd] at hp
      simp at hp
    | some as => exact ⟨as, rfl, (sensorMappingUsable_of_decoded hd).1 h⟩
  · rintro ⟨as, hd, h⟩
    exact (sensorMappingUsable_of_decoded hd).2 h

/-- With a usable mapping every read-and-scale block leaves each corner its own
    reading, scaled once. -/
theorem SensorMappingUsable.readAndScale_eq {r : Reader} {file : Bytes}
    (h : SensorMappingUsable r file) :
    ∃ p, readAndAssignConfigurationDetails r (some file) .initial = some (.success, p) ∧
      ∃ hp : MappingUsable p, ∀ atodRead irr irr', readAndScale p atodRead irr = some irr' →
        ∀ c, irr' ⟨p.lightSensor c, hp.inBounds c⟩ =
          p.lightSensorScalar ⟨p.lightSensor c, hp.inBounds c⟩ * atodRead c +
            p.lightSensorOffset ⟨p.lightSensor c, hp.inBounds c⟩ := by
  obtain ⟨p, hloaded, hblock, hinj⟩ := h
  have hp : MappingUsable p := ⟨(forall_readAndScale_isSome_iff p).1 hblock, hinj⟩
  exact ⟨p, hloaded, hp, fun atodRead irr irr' hr c => Tracker.readAndScale_eq hp hr c⟩

/-- Without lone strings, the lines are decoded one by one from their text. -/
theorem sensorMappingUsable_of_text (r : Reader) {file : Bytes}
    (h : ∀ piece ∈ fgetsPieces file, ¬LoneString piece) :
    SensorMappingUsable r file ↔ MappingLines ((fgetsPieces file).filterMap textAssignment) :=
  sensorMappingUsable_of_decoded
    (lineAssignments_eq_filterMap r (fun _ hp => length_lt_of_mem_fgetsPieces hp) h)

/-- The mapping lines of `tracker-bbgw-demo.conf` (lines 61–64). -/
def shippedMapping : Bytes := ascii <|
  "\"A2D_AZIMUTH_LEFT_ALTITUDE_TOP\"\t\t\t\t\t: 0\n" ++
  "\"A2D_AZIMUTH_RIGHT_ALTITUDE_TOP\"\t\t\t\t: 1\n" ++
  "\"A2D_AZIMUTH_LEFT_ALTITUDE_BOTTOM\"\t\t\t\t: 3\n" ++
  "\"A2D_AZIMUTH_RIGHT_ALTITUDE_BOTTOM\"\t\t\t\t: 2\n"

/-- They are read without an error, but name no parameter: all four corners stay
    at input 0. -/
theorem shippedMapping_not_usable :
    readAndAssignConfigurationDetails .zeroed (some shippedMapping) .initial =
        some (.success, .initial) ∧
      ¬SensorMappingUsable .zeroed shippedMapping := by
  have hlone : ∀ piece ∈ fgetsPieces shippedMapping, ¬LoneString piece := by decide
  have hnone : (fgetsPieces shippedMapping).filterMap textAssignment = [] := by decide
  constructor
  · rw [readAndAssignConfigurationDetails_eq, loaded,
      lineAssignments_eq_filterMap _ (fun piece hp => length_lt_of_mem_fgetsPieces hp) hlone, hnone]
    rfl
  · rw [sensorMappingUsable_of_text _ hlone, hnone]
    intro h
    have : Corner.leftTop = .rightTop := h.distinct rfl
    cases this

end TrackerDemo.Config

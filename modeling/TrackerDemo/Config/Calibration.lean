import Mathlib.Data.List.Nodup
import TrackerDemo.Config.ParameterLines
import TrackerDemo.Config.Written

/-!
# Calibration from the file to the scaled values

Files of documented lines in which every key stands at most once. What the
calibration of a corner should be is said in terms of the lines: the value on the
line with the corner's key.

Results:
* `KeyedFile.written_eq`: what is written by each branch, from the lines.
* `CalibratedFile.loaded_perm`: the parameters do not depend on the order of the
  lines.
* `calibration_endToEnd`: what every iteration of the control loop computes.
-/

namespace TrackerDemo.Config

open TrackerDemo.CString TrackerDemo.Tracker TrackerDemo.Table

/-! ## The lines of a file -/

/-- The parameter lines. -/
def parameterLines (lines : List ConfigLine) : List ParameterLine :=
  lines.filterMap fun
    | .parameter l => some l
    | .comment _ => none

/-- The value written for a name, if any. -/
def valueOf (lines : List ConfigLine) (name : String) : Option Bytes :=
  ((parameterLines lines).find? fun l => l.key = ascii name).map ParameterLine.value

def positionName : Corner → String
  | .leftTop => "LIGHT_SENSOR_LEFT_TOP"
  | .rightTop => "LIGHT_SENSOR_RIGHT_TOP"
  | .leftBottom => "LIGHT_SENSOR_LEFT_BOTTOM"
  | .rightBottom => "LIGHT_SENSOR_RIGHT_BOTTOM"

def scalarName : Corner → String
  | .leftTop => "LIGHT_SENSOR_SCALAR_AZIMUTH_LEFT_ALTITUDE_TOP"
  | .rightTop => "LIGHT_SENSOR_SCALAR_AZIMUTH_RIGHT_ALTITUDE_TOP"
  | .leftBottom => "LIGHT_SENSOR_SCALAR_AZIMUTH_LEFT_ALTITUDE_BOTTOM"
  | .rightBottom => "LIGHT_SENSOR_SCALAR_AZIMUTH_RIGHT_ALTITUDE_BOTTOM"

def offsetName : Corner → String
  | .leftTop => "LIGHT_SENSOR_OFFSET_AZIMUTH_LEFT_ALTITUDE_TOP"
  | .rightTop => "LIGHT_SENSOR_OFFSET_AZIMUTH_RIGHT_ALTITUDE_TOP"
  | .leftBottom => "LIGHT_SENSOR_OFFSET_AZIMUTH_LEFT_ALTITUDE_BOTTOM"
  | .rightBottom => "LIGHT_SENSOR_OFFSET_AZIMUTH_RIGHT_ALTITUDE_BOTTOM"

/-- The input on the corner's position line, 0 without one. -/
def inputOf (lines : List ConfigLine) (c : Corner) : ℕ :=
  (valueOf lines (positionName c)).elim 0 fun v => toUnsignedInt (atoi v)

/-- The number on a line, 0 without one. -/
def numberOf (lines : List ConfigLine) (name : String) : ℚ := (valueOf lines name).elim 0 atof

def ParameterLine.IsPosition (l : ParameterLine) : Prop := ∃ c, l.key = ascii (positionName c)

def ParameterLine.IsCalibration (l : ParameterLine) : Prop :=
  ∃ c, l.key = ascii (scalarName c) ∨ l.key = ascii (offsetName c)

theorem exists_mem_corners_iff (P : Corner → Prop) : (∃ c ∈ corners, P c) ↔ ∃ c, P c := by
  constructor
  · rintro ⟨c, -, h⟩
    exact ⟨c, h⟩
  · rintro ⟨c, h⟩
    exact ⟨c, mem_corners c, h⟩

instance (l : ParameterLine) : Decidable l.IsPosition :=
  decidable_of_iff _ (exists_mem_corners_iff fun c => l.key = ascii (positionName c))

instance (l : ParameterLine) : Decidable l.IsCalibration :=
  decidable_of_iff _ (exists_mem_corners_iff fun c =>
    l.key = ascii (scalarName c) ∨ l.key = ascii (offsetName c))

/-- The position lines come before the calibration lines. -/
def PositionLinesFirst (lines : List ConfigLine) : Prop :=
  (parameterLines lines).Pairwise fun l l' => l.IsCalibration → ¬l'.IsPosition

instance (lines : List ConfigLine) : Decidable (PositionLinesFirst lines) :=
  inferInstanceAs (Decidable (List.Pairwise _ _))

/-- Short lines, every key at most once. -/
structure KeyedFile (lines : List ConfigLine) : Prop where
  short : ∀ l ∈ lines, l.text.length < maxParameterTextLength - 1
  keys_nodup : ((parameterLines lines).map ParameterLine.key).Nodup

/-- Position lines with four different inputs below `NUM_LIGHT_SENSORS`. -/
structure CalibratedFile (lines : List ConfigLine) : Prop extends KeyedFile lines where
  inBounds : ∀ c, inputOf lines c < numLightSensors
  distinct : Function.Injective (inputOf lines)

theorem KeyedFile.perm {lines lines' : List ConfigLine} (h : KeyedFile lines)
    (hperm : lines.Perm lines') : KeyedFile lines' where
  short l hl := h.short l (hperm.mem_iff.2 hl)
  keys_nodup := ((hperm.filterMap _).map _).nodup_iff.1 h.keys_nodup

/-! ## Names and branches -/

theorem branches_nodup : (branches.map Prod.snd).Nodup := by decide +kernel

/-- A short key takes a branch iff it is the branch's name. -/
theorem branchOf_eq_some_iff {key : Bytes} (hlen : key.length < maxParameterTextLength)
    {name : String} {b : Branch} (hb : (name, b) ∈ branches) :
    branchOf key = some b ↔ key = ascii name := by
  constructor
  · intro h
    obtain ⟨name', hmem, rfl⟩ := mem_branches_of_branchOf hlen h
    have heq := List.inj_on_of_nodup_map branches_nodup hmem hb rfl
    rw [Prod.mk.injEq] at heq
    rw [heq.1]
  · rintro rfl
    exact branchOf_name _ hb

theorem mem_branches_position (c : Corner) : (positionName c, .lightSensor c) ∈ branches := by
  cases c <;> decide

theorem mem_branches_scalar (c : Corner) : (scalarName c, .scalar c) ∈ branches := by
  cases c <;> decide

theorem mem_branches_offset (c : Corner) : (offsetName c, .offset c) ∈ branches := by
  cases c <;> decide

/-- `MQTT_CLEAN_SESSION` has a branch of its own kind. -/
theorem branchOf_ne_bool (key : Bytes) : branchOf key ≠ some (.bool .mqttCleanSession) := by
  have hnone : ∀ b ∈ branches, b.2 ≠ .bool .mqttCleanSession := by decide
  intro h
  obtain ⟨name, hmem, -⟩ := branchOf_eq_some h
  exact hnone _ hmem rfl

/-! ## The table of a file -/

section

variable {lines : List ConfigLine}

/-- The assignments of a file's lines, in their order. -/
def assignmentsOf (lines : List ConfigLine) : List Assignment :=
  lines.filterMap ConfigLine.assignment

theorem assignmentsOf_eq (lines : List ConfigLine) :
    assignmentsOf lines = (parameterLines lines).filterMap ParameterLine.assignment := by
  unfold assignmentsOf parameterLines
  rw [List.filterMap_filterMap]
  congr 1
  funext l
  cases l <;> rfl

/-- Reading a file of documented lines is making their assignments. -/
theorem readAndAssign_fileText (hshort : ∀ l ∈ lines, l.text.length < maxParameterTextLength - 1)
    (r : Reader) (ended : Bool) (p : Params) :
    readAndAssignConfigurationDetails r (some (fileText ended lines)) p =
      (assignAll (assignmentsOf lines) p).map fun p => (.success, p) := by
  rw [readAndAssignConfigurationDetails_eq, loaded, lineAssignments_fileText r ended hshort]
  rfl

theorem branch_ne_bool {a : Assignment} (ha : a ∈ assignmentsOf lines) :
    a.branch ≠ .bool .mqttCleanSession := by
  intro heq
  rw [assignmentsOf_eq] at ha
  obtain ⟨l, -, hassign⟩ := List.mem_filterMap.1 ha
  obtain ⟨b, hb, rfl⟩ := Option.map_eq_some_iff.1 hassign
  obtain rfl : b = _ := heq
  exact branchOf_ne_bool _ hb

theorem key_length_lt (hshort : ∀ l ∈ lines, l.text.length < maxParameterTextLength - 1)
    {l : ParameterLine} (hl : l ∈ parameterLines lines) :
    l.key.length < maxParameterTextLength := by
  have htext : l.text.length < maxParameterTextLength - 1 := by
    obtain ⟨l', hl', heq⟩ := List.mem_filterMap.1 hl
    cases l' with
    | parameter l' =>
      obtain rfl := Option.some.inj heq
      exact hshort _ hl'
    | comment l' => cases heq
  have hkey : l.key.length ≤ l.text.length := by
    simp only [ParameterLine.text, List.length_append, List.length_cons]
    omega
  omega

/-- What a line assigns, by its key. -/
theorem assignment_eq_some_iff {l : ParameterLine} (hlen : l.key.length < maxParameterTextLength)
    {name : String} {b : Branch} (hb : (name, b) ∈ branches)
    {a : Assignment} : l.assignment = some a ∧ a.branch = b ↔
      l.key = ascii name ∧ a = ⟨b, l.value, l.value.length⟩ := by
  rw [← branchOf_eq_some_iff hlen hb]
  unfold ParameterLine.assignment
  constructor
  · rintro ⟨ha, rfl⟩
    obtain ⟨b, hbranch, rfl⟩ := Option.map_eq_some_iff.1 ha
    exact ⟨hbranch, rfl⟩
  · rintro ⟨hbranch, rfl⟩
    rw [hbranch]
    exact ⟨rfl, rfl⟩

theorem map_branch_assignmentsOf (lines : List ConfigLine) :
    (assignmentsOf lines).map Assignment.branch =
      (parameterLines lines).filterMap fun l => branchOf l.key := by
  rw [assignmentsOf_eq, List.map_filterMap]
  congr 1
  funext l
  unfold ParameterLine.assignment
  rw [Option.map_map]
  exact Option.map_id'

theorem KeyedFile.branches_nodup (h : KeyedFile lines) :
    ((assignmentsOf lines).map Assignment.branch).Nodup := by
  have hkeys := h.keys_nodup
  rw [List.Nodup, List.pairwise_map] at hkeys
  rw [map_branch_assignmentsOf, List.Nodup, List.pairwise_filterMap]
  refine hkeys.imp_of_mem ?_
  rintro l l' hl hl' hne b hb _ hb' rfl
  obtain ⟨name, hmem, hkey⟩ := mem_branches_of_branchOf (key_length_lt h.short hl) hb
  have hkey' := (branchOf_eq_some_iff (key_length_lt h.short hl') hmem).1 hb'
  exact hne (hkey.trans hkey'.symm)

theorem KeyedFile.positionsFirst (h : KeyedFile lines)
    (hfirst : PositionLinesFirst lines) :
    PositionsFirst ((assignmentsOf lines).map Assignment.branch) := by
  rw [map_branch_assignmentsOf, PositionsFirst, List.pairwise_filterMap]
  refine List.Pairwise.imp_of_mem ?_ hfirst
  rintro l l' hl hl' hlines b hb _ hb' hcal ⟨c', rfl⟩
  refine hlines ?_ ⟨c', ?_⟩
  · obtain ⟨c, rfl | rfl⟩ := isCalibration_iff.1 hcal
    · refine ⟨c, .inl ?_⟩
      exact (branchOf_eq_some_iff (key_length_lt h.short hl) (mem_branches_scalar c)).1 hb
    · refine ⟨c, .inr ?_⟩
      exact (branchOf_eq_some_iff (key_length_lt h.short hl) (mem_branches_offset c)).1 hb
  · exact (branchOf_eq_some_iff (key_length_lt h.short hl') (mem_branches_position c')).1 hb'

/-- The entry of a branch is the value written for its name. -/
theorem KeyedFile.written_eq (h : KeyedFile lines) {name : String} {b : Branch}
    (hb : (name, b) ∈ branches) :
    written (assignmentsOf lines) b =
      (valueOf lines name).map fun v => ⟨b, v, v.length⟩ := by
  unfold valueOf
  cases hfind : (parameterLines lines).find? fun l => l.key = ascii name with
  | none =>
    rw [List.find?_eq_none] at hfind
    refine fill_of_notMem (fun a ha heq => ?_) _
    rw [assignmentsOf_eq] at ha
    obtain ⟨l, hl, hassign⟩ := List.mem_filterMap.1 ha
    have hkey := ((assignment_eq_some_iff (key_length_lt h.short hl) hb).1 ⟨hassign, heq⟩).1
    exact hfind l hl (by simpa using hkey)
  | some l =>
    have hl := List.mem_of_find?_eq_some hfind
    have hkey : l.key = ascii name := by simpa using List.find?_some hfind
    have hassign := ((assignment_eq_some_iff (key_length_lt h.short hl) hb).2 ⟨hkey, rfl⟩).1
    have hmem : (⟨b, l.value, l.value.length⟩ : Assignment) ∈ assignmentsOf lines := by
      rw [assignmentsOf_eq]
      exact List.mem_filterMap.2 ⟨l, hl, hassign⟩
    exact fill_of_mem h.branches_nodup hmem _

theorem KeyedFile.index_written (h : KeyedFile lines) :
    (written (assignmentsOf lines)).index = inputOf lines := by
  funext c
  unfold Written.index inputOf
  rw [h.written_eq (mem_branches_position c)]
  cases valueOf lines (positionName c) <;> rfl

theorem KeyedFile.number_written (h : KeyedFile lines) {name : String} {b : Branch}
    (hb : (name, b) ∈ branches) :
    (written (assignmentsOf lines)).number b = numberOf lines name := by
  unfold Written.number numberOf
  rw [h.written_eq hb]
  cases valueOf lines name <;> rfl

/-- **Loading.** Every order of the lines with the position lines first loads the
    same parameters. -/
theorem CalibratedFile.loaded_perm (h : CalibratedFile lines) {lines' : List ConfigLine}
    (hperm : lines.Perm lines') (hfirst : PositionLinesFirst lines') (r : Reader) (ended : Bool) :
    readAndAssignConfigurationDetails r (some (fileText ended lines')) .initial =
      some (.success, (written (assignmentsOf lines)).params) := by
  have h' : KeyedFile lines' := h.toKeyedFile.perm hperm
  have hsame : written (assignmentsOf lines') = written (assignmentsOf lines) :=
    (fill_perm h.branches_nodup (hperm.filterMap _) _).symm
  have hindex := h.index_written
  have hassign : assignAll (assignmentsOf lines') .initial =
      some (written (assignmentsOf lines')).params := by
    refine assignAll_params h'.branches_nodup (fun a => branch_ne_bool)
      (h'.positionsFirst hfirst) ?_ ?_
    · rw [hsame, hindex]
      exact h.inBounds
    · rw [hsame, hindex]
      exact h.distinct
  rw [readAndAssign_fileText h'.short r ended, hassign, hsame]
  rfl

/-- **Main theorem.** All orders of the lines with the position lines first load
    the same parameters, and with these every iteration scales the reading of
    each corner's own input by the corner's own lines. -/
theorem calibration_endToEnd {lines : List ConfigLine} (h : CalibratedFile lines) :
    ∃ p : Params,
      (∀ lines', lines.Perm lines' → PositionLinesFirst lines' → ∀ r ended,
        readAndAssignConfigurationDetails r (some (fileText ended lines')) .initial =
          some (.success, p)) ∧
      ∀ (reading : ℕ → ℚ) (panelIsStowed : Bool) (s : MainState), ∃ irr v,
        mainIteration p ⟨fun c => reading (p.lightSensor c), panelIsStowed⟩ s =
          some ⟨driveServos p panelIsStowed v s.pwm, irr⟩ ∧
        scaledValues p irr = some v ∧
        ∀ c, v c = numberOf lines (scalarName c) * reading (inputOf lines c) +
          numberOf lines (offsetName c) := by
  refine ⟨(written (assignmentsOf lines)).params, fun lines' => h.loaded_perm, ?_⟩
  intro reading panelIsStowed s
  have hindex : (written (assignmentsOf lines)).index = inputOf lines := h.index_written
  have hinj : Function.Injective (written (assignmentsOf lines)).index := by
    rw [hindex]
    exact h.distinct
  have hin : ∀ c, (written (assignmentsOf lines)).index c < numLightSensors := by
    rw [hindex]
    exact h.inBounds
  obtain ⟨irr, v, hiter, hscaled, hv⟩ := mainIteration_of_usable
    (p := (written (assignmentsOf lines)).params) ⟨hin, hinj⟩ ⟨_, panelIsStowed⟩ s
  refine ⟨irr, v, hiter, hscaled, fun c => ?_⟩
  rw [hv c, ← h.number_written (mem_branches_scalar c), ← h.number_written (mem_branches_offset c),
    ← hindex, ← calibration_index hinj .scalar (hin c), ← calibration_index hinj .offset (hin c)]
  rfl

end

/-- A key and a value that a parameter line may have. -/
def PlainPair (key value : Bytes) : Prop :=
  (∀ c ∈ key, 32 ≤ c ∧ c ≠ 34 ∧ c ≠ 92) ∧ value ≠ [] ∧ ∀ c ∈ value, IsValueByte c

instance (key value : Bytes) : Decidable (PlainPair key value) :=
  have := List.decidableBAll (fun c => 32 ≤ c ∧ c ≠ 34 ∧ c ≠ 92) key
  have := List.decidableBAll IsValueByte value
  instDecidableAnd

/-- `"Key" : Value` with a tab before the colon and a space after it. -/
def tabbedLine (name value : String) (h : PlainPair (ascii name) (ascii value)) : ConfigLine :=
  .parameter {
    indent := []
    key := ascii name
    beforeColon := [9]
    afterColon := [32]
    value := ascii value
    trailing := []
    indent_blank := by decide
    key_plain := h.1
    beforeColon_blank := by decide
    afterColon_blank := by decide
    value_ne_nil := h.2.1
    value_bytes := h.2.2
    trailing_blank := by decide }

/-- Four position lines, a comment and the calibration lines of one corner. -/
def sampleFile : List ConfigLine :=
  [tabbedLine "LIGHT_SENSOR_LEFT_TOP" "3" (by decide),
    tabbedLine "LIGHT_SENSOR_RIGHT_TOP" "1" (by decide),
    tabbedLine "LIGHT_SENSOR_LEFT_BOTTOM" "0" (by decide),
    tabbedLine "LIGHT_SENSOR_RIGHT_BOTTOM" "2" (by decide),
    .comment ⟨[], ascii " calibration", by decide, by decide⟩,
    tabbedLine "LIGHT_SENSOR_OFFSET_AZIMUTH_LEFT_ALTITUDE_TOP" "0.5" (by decide),
    tabbedLine "LIGHT_SENSOR_SCALAR_AZIMUTH_LEFT_ALTITUDE_TOP" "2" (by decide)]

theorem sampleFile_calibrated : CalibratedFile sampleFile where
  short := by decide +kernel
  keys_nodup := by decide +kernel
  inBounds c := by cases c <;> decide +kernel
  distinct := by
    intro c c' h
    cases c <;> cases c' <;> first | rfl | exact absurd h (by decide +kernel)

theorem sampleFile_positionLinesFirst : PositionLinesFirst sampleFile := by decide +kernel

theorem calibration_endToEnd_sample :
    ∃ p : Params,
      (∀ r ended, readAndAssignConfigurationDetails r (some (fileText ended sampleFile)) .initial =
        some (.success, p)) ∧
      ∀ (reading : ℕ → ℚ) (panelIsStowed : Bool) (s : MainState), ∃ irr v,
        mainIteration p ⟨fun c => reading (p.lightSensor c), panelIsStowed⟩ s =
          some ⟨driveServos p panelIsStowed v s.pwm, irr⟩ ∧
        v .leftTop = 2 * reading 3 + 1 / 2 ∧ v .rightTop = 0 := by
  have hscalar : numberOf sampleFile (scalarName .leftTop) = 2 := by decide +kernel
  have hoffset : numberOf sampleFile (offsetName .leftTop) = 1 / 2 := by decide +kernel
  have hinput : inputOf sampleFile .leftTop = 3 := by decide +kernel
  have hscalar' : numberOf sampleFile (scalarName .rightTop) = 0 := by decide +kernel
  have hoffset' : numberOf sampleFile (offsetName .rightTop) = 0 := by decide +kernel
  obtain ⟨p, hloaded, hiteration⟩ := calibration_endToEnd sampleFile_calibrated
  refine ⟨p, hloaded _ (List.Perm.refl _) sampleFile_positionLinesFirst, ?_⟩
  intro reading panelIsStowed s
  obtain ⟨irr, v, hiter, -, hv⟩ := hiteration reading panelIsStowed s
  refine ⟨irr, v, hiter, ?_, ?_⟩
  · rw [hv, hscalar, hoffset, hinput]
  · rw [hv, hscalar', hoffset', zero_mul, zero_add]

end TrackerDemo.Config

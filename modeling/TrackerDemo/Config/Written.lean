import TrackerDemo.Config.SensorMapping
import TrackerDemo.Lib.Table

/-!
# The table of assignments

A calibration line writes to the array element that the mapping lines before it
select, so the order of lines matters only between these two groups. With each
branch taken at most once, the loaded parameters are those of a table from
branches to their assignments.

Results:
* `assign_params`: an assignment fills its entry of the table.
* `assignAll_params`: the parameters after all assignments.
-/

namespace TrackerDemo.Config

open TrackerDemo.CString TrackerDemo.Tracker TrackerDemo.Table

/-! ## The table of assignments -/

/-- The assignment made by each branch, if any. -/
abbrev Written := Branch → Option Assignment

namespace Written

variable (w : Written)

/-- The input written for a corner. -/
def index (c : Corner) : ℕ :=
  (w (.lightSensor c)).elim 0 fun a => toUnsignedInt (atoi a.parameterValue)

/-- The number written by a branch with `atof`. -/
def number (b : Branch) : ℚ := (w b).elim 0 fun a => atof a.parameterValue

/-- A calibration array: at a corner's input, the number written for the corner. -/
def calibration (kind : Corner → Branch) (i : Fin numLightSensors) : ℚ :=
  (corners.find? fun c => w.index c = i).elim 0 fun c => w.number (kind c)

/-- The parameters that a table stands for. -/
def params : Params where
  string s := (w (.string s)).elim (fun _ => 0) fun a =>
    strncpy (fun _ => 0) a.parameterValue a.valueLength
  int i := (w (.int i)).elim 0 fun a => atoi a.parameterValue
  bool
    | .mqttCleanSession => (w .cleanSession).elim false fun a =>
      strncmpEq (ascii "true") a.parameterValue a.valueLength
    | b => (w (.bool b)).elim false fun a =>
      strncmpEq a.parameterValue (ascii "true") maxParameterTextLength
  float f := w.number (.float f)
  servoPwmPeriodMSecs := toUnsignedLong (w.number .period)
  lightSensor := w.index
  lightSensorScalar := w.calibration .scalar
  lightSensorOffset := w.calibration .offset

end Written

theorem params_empty : Written.params (fun _ => none) = Params.initial := by
  have hlong : toUnsignedLong 0 = 0 := by decide +kernel
  have hcal : ∀ kind, Written.calibration (fun _ => none) kind = fun _ => 0 := by
    intro kind
    funext i
    unfold Written.calibration
    cases corners.find? fun c => Written.index (fun _ => none) c = i <;> rfl
  unfold Written.params Params.initial
  rw [hcal, hcal]
  congr 1
  funext b
  cases b <;> rfl

theorem mem_corners (c : Corner) : c ∈ corners := by cases c <;> decide

/-- The element at a corner's input, where the inputs differ. -/
theorem calibration_index {w : Written} (hinj : Function.Injective w.index)
    (kind : Corner → Branch) {c : Corner} (h : w.index c < numLightSensors) :
    w.calibration kind ⟨w.index c, h⟩ = w.number (kind c) := by
  unfold Written.calibration
  cases hfind : corners.find? fun c' => w.index c' = w.index c with
  | none =>
    rw [List.find?_eq_none] at hfind
    exact absurd (hfind c (mem_corners c)) (by simp)
  | some c' =>
    have hc' : w.index c' = w.index c := by simpa using List.find?_some hfind
    rw [hinj hc']
    rfl

/-- An element that is no corner's input, or a corner's whose number is the
    same, is the same. -/
theorem calibration_congr {w w' : Written} (hindex : w'.index = w.index) {kind : Corner → Branch}
    {i : Fin numLightSensors}
    (h : ∀ c, w.index c = i → w'.number (kind c) = w.number (kind c)) :
    w'.calibration kind i = w.calibration kind i := by
  unfold Written.calibration
  rw [hindex]
  cases hfind : corners.find? fun c' => w.index c' = i with
  | none => rfl
  | some c => exact h c (by simpa using List.find?_some hfind)

/-! ## One assignment -/

/-- A position line: one of the mapping branches. -/
def Branch.IsPosition (b : Branch) : Prop := ∃ c, b = .lightSensor c

/-- A calibration line. -/
def Branch.IsCalibration (b : Branch) : Prop := b.indexedBy.isSome

theorem isCalibration_iff {b : Branch} :
    b.IsCalibration ↔ ∃ c, b = .scalar c ∨ b = .offset c := by
  unfold Branch.IsCalibration Branch.indexedBy
  cases b <;> simp

theorem not_isCalibration_lightSensor (c : Corner) : ¬(Branch.lightSensor c).IsCalibration := by
  simp [Branch.IsCalibration, Branch.indexedBy]

section

variable {w : Written} {a : Assignment}

theorem number_update_of_ne {b : Branch} (hb : b ≠ a.branch) :
    Written.number (Function.update w a.branch (some a)) b = w.number b := by
  unfold Written.number
  rw [Function.update_of_ne hb]

theorem number_update_self :
    Written.number (Function.update w a.branch (some a)) a.branch = atof a.parameterValue := by
  unfold Written.number
  rw [Function.update_self]
  rfl

theorem index_update (h : ¬a.branch.IsPosition) :
    Written.index (Function.update w a.branch (some a)) = w.index := by
  funext c
  unfold Written.index
  rw [Function.update_of_ne fun heq => h ⟨c, heq.symm⟩]

/-- A calibration array that the branch does not write. -/
theorem calibration_update (h : ¬a.branch.IsPosition) {kind : Corner → Branch}
    (hkind : ∀ c, kind c ≠ a.branch) :
    Written.calibration (Function.update w a.branch (some a)) kind = w.calibration kind := by
  funext i
  exact calibration_congr (index_update h) fun c _ => number_update_of_ne (hkind c)

/-- The store of a calibration line. -/
theorem store_calibration {kind : Corner → Branch} {c : Corner} (hbranch : a.branch = kind c)
    (hkind : Function.Injective kind) (hposition : ¬a.branch.IsPosition)
    (hinj : Function.Injective w.index) (h : w.index c < numLightSensors) :
    store (w.calibration kind) (w.index c) (atof a.parameterValue) =
      some (Written.calibration (Function.update w a.branch (some a)) kind) := by
  have hindex := index_update (w := w) hposition
  rw [store_of_lt _ h, Option.some.injEq]
  funext i
  by_cases hi : i = ⟨w.index c, h⟩
  · subst hi
    have hat := calibration_index (w := Function.update w a.branch (some a))
      (by rw [hindex]; exact hinj) kind (c := c) (by rw [hindex]; exact h)
    simp only [hindex, ← hbranch, number_update_self] at hat
    rw [Function.update_self, hat]
  · rw [Function.update_of_ne hi]
    refine (calibration_congr hindex fun c' hc' => number_update_of_ne ?_).symm
    rw [hbranch]
    intro heq
    refine hi (Fin.ext ?_)
    rw [← hc', hkind heq]

/-- An array whose corners have no line. -/
theorem calibration_of_none {kind : Corner → Branch} (h : ∀ c, w (kind c) = none) :
    w.calibration kind = fun _ => 0 := by
  funext i
  unfold Written.calibration
  cases corners.find? fun c => w.index c = i with
  | none => rfl
  | some c =>
    show w.number (kind c) = 0
    unfold Written.number
    rw [h c]
    rfl

/-- A position line, before all calibration lines. -/
theorem assign_position {c : Corner} (hb : a.branch = .lightSensor c)
    (hnone : ∀ b : Branch, b.IsCalibration → w b = none) :
    a.assign w.params = some (Written.params (Function.update w a.branch (some a))) := by
  -- the inputs change, but both calibration arrays are still zero
  have hzero : ∀ kind : Corner → Branch, (∀ c, (kind c).IsCalibration) →
      Written.calibration (Function.update w a.branch (some a)) kind = w.calibration kind := by
    intro kind hkind
    have hw : ∀ c, w (kind c) = none := fun c' => hnone _ (hkind c')
    rw [calibration_of_none hw, calibration_of_none]
    intro c'
    have hne : kind c' ≠ a.branch := by
      intro heq
      have hcal := hkind c'
      rw [heq, hb] at hcal
      exact not_isCalibration_lightSensor c hcal
    rw [Function.update_of_ne hne, hw c']
  have hscalar := hzero .scalar fun _ => rfl
  have hoffset := hzero .offset fun _ => rfl
  unfold Assignment.assign
  rw [hb] at hscalar hoffset ⊢
  unfold Written.params
  rw [hscalar, hoffset]
  dsimp only
  congr 2
  exact Function.update_eq_iff.2
    ⟨by simp [Written.index], fun c' h => by simp [Written.index, h]⟩

/-- A line of any other kind. -/
theorem assign_plain (hposition : ¬a.branch.IsPosition) (hcalibration : ¬a.branch.IsCalibration)
    (hfresh : w a.branch = none) (hnamed : a.branch ≠ .bool .mqttCleanSession) :
    a.assign w.params = some (Written.params (Function.update w a.branch (some a))) := by
  have hother : ∀ kind : Corner → Branch, (∀ c, (kind c).IsCalibration) →
      Written.calibration (Function.update w a.branch (some a)) kind = w.calibration kind := by
    intro kind hkind
    refine calibration_update hposition fun c heq => hcalibration ?_
    rw [← heq]
    exact hkind c
  have hindex := index_update (w := w) hposition
  have hscalar := hother .scalar fun _ => rfl
  have hoffset := hother .offset fun _ => rfl
  unfold Assignment.assign Written.params
  rw [hindex, hscalar, hoffset]
  cases hb : a.branch with
  | lightSensor c => exact absurd ⟨c, hb⟩ hposition
  | scalar c => exact absurd (by rw [hb]; rfl) hcalibration
  | offset c => exact absurd (by rw [hb]; rfl) hcalibration
  | string s =>
    rw [hb] at hfresh
    dsimp only
    congr 2
    exact Function.update_eq_iff.2 ⟨by simp [hfresh], fun s' h => by simp [h]⟩
  | int n =>
    dsimp only
    congr 2
    exact Function.update_eq_iff.2 ⟨by simp, fun n' h => by simp [h]⟩
  | cleanSession =>
    dsimp only
    congr 2
    funext b
    cases b <;> simp
  | bool b =>
    rw [hb] at hnamed
    dsimp only
    congr 2
    refine Function.update_eq_iff.2 ⟨?_, fun b' h => by cases b' <;> simp [h]⟩
    cases b with
    | mqttCleanSession => exact absurd rfl hnamed
    | servoPwmAzimuthReversePolarity => simp
    | servoPwmAltitudeReversePolarity => simp
  | float f =>
    dsimp only
    congr 2
    exact Function.update_eq_iff.2
      ⟨by simp [Written.number], fun f' h => by simp [Written.number, h]⟩
  | period =>
    dsimp only
    congr 2

/-- A calibration line, where the inputs of the corners are usable. -/
theorem assign_calibration (hcalibration : a.branch.IsCalibration)
    (hin : ∀ c, w.index c < numLightSensors) (hinj : Function.Injective w.index) :
    a.assign w.params = some (Written.params (Function.update w a.branch (some a))) := by
  obtain ⟨c, hb | hb⟩ := isCalibration_iff.1 hcalibration
  · have hposition : ¬a.branch.IsPosition := by simp [Branch.IsPosition, hb]
    have hindex := index_update (w := w) hposition
    have hscalar := store_calibration hb (fun c c' h => by simpa using h) hposition hinj (hin c)
    have hoffset := @calibration_update w a hposition .offset (by simp [hb])
    unfold Assignment.assign
    rw [hb] at hindex hscalar hoffset ⊢
    unfold Written.params
    dsimp only
    rw [hindex, hscalar, hoffset, Option.map_some]
    rfl
  · have hposition : ¬a.branch.IsPosition := by simp [Branch.IsPosition, hb]
    have hindex := index_update (w := w) hposition
    have hscalar := @calibration_update w a hposition .scalar (by simp [hb])
    have hoffset := store_calibration hb (fun c c' h => by simpa using h) hposition hinj (hin c)
    unfold Assignment.assign
    rw [hb] at hindex hscalar hoffset ⊢
    unfold Written.params
    dsimp only
    rw [hindex, hscalar, hoffset, Option.map_some]
    rfl

/-- **One assignment.** It fills its entry of the table. -/
theorem assign_params (hfresh : w a.branch = none) (hnamed : a.branch ≠ .bool .mqttCleanSession)
    (hposition : a.branch.IsPosition → ∀ b : Branch, b.IsCalibration → w b = none)
    (hcalibration : a.branch.IsCalibration →
      (∀ c, w.index c < numLightSensors) ∧ Function.Injective w.index) :
    a.assign w.params = some (Written.params (Function.update w a.branch (some a))) := by
  by_cases hp : a.branch.IsPosition
  · obtain ⟨c, hb⟩ := hp
    exact assign_position hb (hposition ⟨c, hb⟩)
  by_cases hc : a.branch.IsCalibration
  · obtain ⟨hin, hinj⟩ := hcalibration hc
    exact assign_calibration hc hin hinj
  · exact assign_plain hp hc hfresh hnamed

end

/-! ## All assignments -/

/-- No position line follows a calibration line. -/
def PositionsFirst (bs : List Branch) : Prop :=
  bs.Pairwise fun b b' => b.IsCalibration → ¬b'.IsPosition

/-- The table of a list of assignments. -/
def written (as : List Assignment) : Written := fill Assignment.branch as fun _ => none

/-- The inputs of the corners where a calibration line is read: no position line
    follows, so they are those at the end. -/
theorem index_written_of_positionsFirst {before after : List Assignment} {a : Assignment}
    (h : PositionsFirst ((before ++ a :: after).map Assignment.branch))
    (ha : a.branch.IsCalibration) :
    (written before).index = (written (before ++ a :: after)).index := by
  rw [PositionsFirst, List.map_append, List.map_cons, List.pairwise_append,
    List.pairwise_cons] at h
  obtain ⟨-, ⟨hafter, -⟩, -⟩ := h
  have hne : ∀ c, ∀ e ∈ a :: after, e.branch ≠ .lightSensor c := by
    intro c e he heq
    rcases List.mem_cons.1 he with rfl | hmem
    · rw [heq] at ha
      exact not_isCalibration_lightSensor c ha
    · exact hafter _ (List.mem_map_of_mem hmem) ha ⟨c, heq⟩
  funext c
  unfold written Written.index
  rw [fill_append, fill_of_notMem (hne c)]

/-- **All assignments.** Each branch written once, the positions first: the
    parameters are those of the table. -/
theorem assignAll_params {as : List Assignment} (hnodup : (as.map Assignment.branch).Nodup)
    (hnamed : ∀ a ∈ as, a.branch ≠ .bool .mqttCleanSession)
    (hfirst : PositionsFirst (as.map Assignment.branch))
    (hin : ∀ c, (written as).index c < numLightSensors)
    (hinj : Function.Injective (written as).index) :
    assignAll as .initial = some (written as).params := by
  unfold assignAll
  rw [← params_empty]
  refine foldlM_fill fun before a after heq => ?_
  subst heq
  have hbefore := hfirst
  rw [PositionsFirst, List.map_append, List.map_cons, List.pairwise_append] at hbefore
  rw [List.map_append, List.map_cons, List.nodup_append] at hnodup
  have hne : ∀ e ∈ before, e.branch ≠ a.branch := fun e he =>
    hnodup.2.2 _ (List.mem_map_of_mem he) _ (by simp)
  refine assign_params (fill_of_notMem hne _) (hnamed a (by simp)) ?_ ?_
  · intro hposition b hb
    refine fill_of_notMem (fun e he heq => ?_) _
    refine hbefore.2.2 _ (List.mem_map_of_mem he) a.branch (by simp) ?_ hposition
    rw [heq]
    exact hb
  · intro hcalibration
    have hindex : Written.index (fill Assignment.branch before fun _ => none) = _ :=
      index_written_of_positionsFirst hfirst hcalibration
    rw [hindex]
    exact ⟨hin, hinj⟩

end TrackerDemo.Config

import TrackerDemo.Config.SensorMapping

/-!
# The last write to each parameter

What an assignment writes, location by location: a string parameter has one for
each byte, a calibration array one for each element, and the element that a
calibration branch writes (`GlobalConfig.c`, lines 245–267) depends on the
mapping lines before it. Two lists of assignments lead to the same parameters
iff each location has the same contents after its last write.

Results:
* `assign_read`: what one assignment leaves in each location.
* `assignAll_read`: what all of them leave there.
* `assignAll_eq_iff`: when two lists lead to the same parameters.
-/

namespace TrackerDemo.Config

open TrackerDemo.CString

/-! ## Locations -/

/-- A location of the parameters. -/
inductive Cell
  | byte (s : StringParam) (i : ℕ)
  | int (i : IntParam)
  | bool (b : BoolParam)
  | float (f : FloatParam)
  | period
  | lightSensor (c : Corner)
  | scalar (i : Fin numLightSensors)
  | offset (i : Fin numLightSensors)
  deriving DecidableEq

/-- A `bool` as a number. -/
def flag (b : Bool) : ℚ := if b then 1 else 0

/-- The contents of a location, as a number. -/
def Cell.read (p : Params) : Cell → ℚ
  | .byte s i => (p.string s i).toNat
  | .int i => p.int i
  | .bool b => flag (p.bool b)
  | .float f => p.float f
  | .period => p.servoPwmPeriodMSecs
  | .lightSensor c => p.lightSensor c
  | .scalar i => p.lightSensorScalar i
  | .offset i => p.lightSensorOffset i

theorem flag_injective : Function.Injective flag := by
  intro b b' h
  unfold flag at h
  cases b <;> cases b' <;> simp at h ⊢

/-- The locations are all there is. -/
theorem params_eq_of_read {p q : Params} (h : ∀ cell : Cell, cell.read p = cell.read q) :
    p = q := by
  have hstring : p.string = q.string := by
    funext s i
    have hbyte : ((p.string s i).toNat : ℚ) = (q.string s i).toNat := h (.byte s i)
    exact UInt8.toNat_inj.1 (Nat.cast_injective hbyte)
  have hint : p.int = q.int := funext fun i => Int.cast_injective (α := ℚ) (h (.int i))
  have hbool : p.bool = q.bool := funext fun b => flag_injective (h (.bool b))
  have hfloat : p.float = q.float := funext fun f => h (.float f)
  have hperiod : p.servoPwmPeriodMSecs = q.servoPwmPeriodMSecs :=
    Nat.cast_injective (R := ℚ) (h .period)
  have hsensor : p.lightSensor = q.lightSensor :=
    funext fun c => Nat.cast_injective (R := ℚ) (h (.lightSensor c))
  have hscalar : p.lightSensorScalar = q.lightSensorScalar := funext fun i => h (.scalar i)
  have hoffset : p.lightSensorOffset = q.lightSensorOffset := funext fun i => h (.offset i)
  obtain ⟨⟩ := p
  obtain ⟨⟩ := q
  simp_all

/-- Before the file is read every location is zero. -/
theorem read_initial (cell : Cell) : cell.read .initial = 0 := by
  cases cell <;> simp [Cell.read, Params.initial, flag]

/-! ## Writes -/

/-- What an assignment writes to a location, if anything; `m` is the mapping of
    the sensors before it. -/
def Assignment.writes (m : Corner → ℕ) (a : Assignment) (cell : Cell) : Option ℚ :=
  match a.branch, cell with
  | .string s, .byte s' i =>
    if s' = s ∧ i < a.valueLength then some ((a.parameterValue.getD i 0).toNat : ℚ) else none
  | .int i, .int i' => if i' = i then some (atoi a.parameterValue : ℚ) else none
  | .cleanSession, .bool b =>
    if b = .mqttCleanSession then
      some (flag (strncmpEq (ascii "true") a.parameterValue a.valueLength))
    else none
  | .bool b, .bool b' =>
    if b' = b then
      some (flag (strncmpEq a.parameterValue (ascii "true") maxParameterTextLength))
    else none
  | .float f, .float f' => if f' = f then some (atof a.parameterValue) else none
  | .period, .period => some (toUnsignedLong (atof a.parameterValue) : ℚ)
  | .lightSensor c, .lightSensor c' =>
    if c' = c then some (toUnsignedInt (atoi a.parameterValue) : ℚ) else none
  | .scalar c, .scalar i => if m c = i then some (atof a.parameterValue) else none
  | .offset c, .offset i => if m c = i then some (atof a.parameterValue) else none
  | _, _ => none

/-- What the last assignment that writes to a location writes there. -/
def lastWrite : (Corner → ℕ) → List Assignment → Cell → Option ℚ
  | _, [], _ => none
  | m, a :: as, cell => (lastWrite (a.mapping m) as cell).or (a.writes m cell)

/-- An element of a calibration array after a store. -/
theorem store_apply {array array' : Fin numLightSensors → ℚ} {n : ℕ} {v : ℚ}
    (h : store array n v = some array') (i : Fin numLightSensors) :
    array' i = (if n = i then some v else none).getD (array i) := by
  unfold store at h
  split_ifs at h with hn
  rw [← Option.some.inj h]
  by_cases hi : n = i
  · subst hi
    simp
  · have hne : i ≠ ⟨n, hn⟩ := fun heq => hi (congrArg Fin.val heq).symm
    rw [Function.update_of_ne hne, if_neg hi]
    rfl

/-- **One assignment.** -/
theorem assign_read {a : Assignment} {p p' : Params} (h : a.assign p = some p') (cell : Cell) :
    cell.read p' = (a.writes p.lightSensor cell).getD (cell.read p) := by
  unfold Assignment.assign at h
  unfold Assignment.writes
  cases hb : a.branch <;> simp only [hb, Option.some.injEq, Option.map_eq_some_iff] at h
  case scalar c =>
    obtain ⟨array, hstore, rfl⟩ := h
    cases cell with
    | scalar i => exact store_apply hstore i
    | _ => rfl
  case offset c =>
    obtain ⟨array, hstore, rfl⟩ := h
    cases cell with
    | offset i => exact store_apply hstore i
    | _ => rfl
  case string s =>
    subst h
    cases cell with
    | byte s' i =>
      by_cases hs : s' = s
      · subst hs
        by_cases hi : i < a.valueLength <;> simp [Cell.read, strncpy, hi]
      · simp [Cell.read, hs]
    | _ => rfl
  case cleanSession =>
    subst h
    cases cell with
    | bool b => by_cases hb' : b = .mqttCleanSession <;> simp [Cell.read, hb']
    | _ => rfl
  case int i =>
    subst h
    cases cell with
    | int i' => by_cases hi : i' = i <;> simp [Cell.read, hi]
    | _ => rfl
  case bool b =>
    subst h
    cases cell with
    | bool b' => by_cases hb' : b' = b <;> simp [Cell.read, hb']
    | _ => rfl
  case float f =>
    subst h
    cases cell with
    | float f' => by_cases hf : f' = f <;> simp [Cell.read, hf]
    | _ => rfl
  case lightSensor c =>
    subst h
    cases cell with
    | lightSensor c' => by_cases hc : c' = c <;> simp [Cell.read, hc]
    | _ => rfl
  case period =>
    subst h
    cases cell <;> rfl

/-- **All assignments.** -/
theorem assignAll_read {as : List Assignment} {p p' : Params} (h : assignAll as p = some p')
    (cell : Cell) : cell.read p' = (lastWrite p.lightSensor as cell).getD (cell.read p) := by
  induction as generalizing p with
  | nil =>
    rw [← Option.some.inj h]
    rfl
  | cons a as ih =>
    obtain ⟨q, hq, hrest⟩ := assignAll_cons_eq_some.1 h
    rw [ih hrest, assign_read hq, assign_lightSensor hq, lastWrite]
    cases lastWrite (a.mapping p.lightSensor) as cell <;> rfl

/-! ## The same writes -/

/-- The assignments of two files, `none` where the reader leaves a buffer: both
    files stay inside of all arrays or neither does, and every location has the
    same contents after its last write, 0 without one. -/
structure SameWrites (as as' : Option (List Assignment)) : Prop where
  inBounds : (∃ bs ∈ as, CalibratedInBounds .initial bs) ↔
    ∃ bs ∈ as', CalibratedInBounds .initial bs
  lastWrite : ∀ bs ∈ as, ∀ bs' ∈ as', CalibratedInBounds .initial bs →
    ∀ cell, (lastWrite (fun _ => 0) bs cell).getD 0 = (lastWrite (fun _ => 0) bs' cell).getD 0

theorem SameWrites.refl (as : Option (List Assignment)) : SameWrites as as where
  inBounds := Iff.rfl
  lastWrite bs hbs bs' hbs' _ cell := by
    rw [Option.mem_unique hbs hbs']

theorem isSome_bind_assignAll_iff (as : Option (List Assignment)) (p : Params) :
    (as >>= fun bs => assignAll bs p).isSome ↔ ∃ bs ∈ as, CalibratedInBounds p bs := by
  rw [Option.bind_eq_bind, Option.isSome_bind]
  cases as with
  | none => simp
  | some bs => simpa using assignAll_isSome_iff bs p

/-- **Two lists of assignments** lead to the same parameters iff they write the
    same. -/
theorem assignAll_eq_iff (as as' : Option (List Assignment)) :
    (as >>= fun bs => assignAll bs .initial) = (as' >>= fun bs => assignAll bs .initial) ↔
      SameWrites as as' := by
  have hread : ∀ {as : Option (List Assignment)} {p}, (as >>= fun bs => assignAll bs .initial) =
      some p → ∀ bs ∈ as, ∀ cell : Cell, cell.read p = (lastWrite (fun _ => 0) bs cell).getD 0 := by
    rintro _ p h bs rfl cell
    rw [assignAll_read h, read_initial]
    rfl
  constructor
  · intro heq
    constructor
    · rw [← isSome_bind_assignAll_iff, ← isSome_bind_assignAll_iff, heq]
    · intro bs hbs bs' hbs' hcal cell
      obtain ⟨p, hp⟩ := Option.isSome_iff_exists.1
        ((isSome_bind_assignAll_iff as .initial).2 ⟨bs, hbs, hcal⟩)
      rw [← hread hp bs hbs, ← hread (heq ▸ hp) bs' hbs']
  · intro hsame
    have hiff := hsame.inBounds
    rw [← isSome_bind_assignAll_iff, ← isSome_bind_assignAll_iff] at hiff
    by_cases hsome : (as >>= fun bs => assignAll bs .initial).isSome
    · obtain ⟨p, hp⟩ := Option.isSome_iff_exists.1 hsome
      obtain ⟨q, hq⟩ := Option.isSome_iff_exists.1 (hiff.1 hsome)
      obtain ⟨bs, hbs, hcal⟩ := (isSome_bind_assignAll_iff as .initial).1 hsome
      obtain ⟨bs', hbs', -⟩ := (isSome_bind_assignAll_iff as' .initial).1 (hiff.1 hsome)
      have hpq : p = q := params_eq_of_read fun cell => by
        rw [hread hp bs hbs, hread hq bs' hbs', hsame.lastWrite bs hbs bs' hbs' hcal]
      rw [hp, hq, hpq]
    · rw [Option.not_isSome_iff_eq_none.1 hsome,
        Option.not_isSome_iff_eq_none.1 fun h => hsome (hiff.2 h)]

end TrackerDemo.Config

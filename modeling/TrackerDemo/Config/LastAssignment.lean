import TrackerDemo.Config.Calibration

/-!
# Keys that stand on more than one line

The last line of a key decides its parameter, except that a text is copied into
a string parameter without a terminator: a longer text of an earlier line still
shows behind it.

Results:
* `assign_assigned`: what one assignment does to each parameter.
* `assignAll_observe`: what all of them do, from those of one branch.
* `lastWins_iff`: when the last line of every key wins.
-/

namespace TrackerDemo.Config

open TrackerDemo.CString TrackerDemo.TextLines

/-! ## The last line of a key -/

/-- The values on the lines of a name, in their order. -/
def valuesOf (lines : List ConfigLine) (name : String) : List Bytes :=
  ((parameterLines lines).filter fun l => l.key = ascii name).map ParameterLine.value

/-- The value on the last line of a name, if any. -/
def lastValueOf (lines : List ConfigLine) (name : String) : Option Bytes :=
  (valuesOf lines name).getLast?

/-- Reading the lines has led from `p` to `p'` such that the last line of every
    key counts; without a line the parameter is the same. -/
structure LastWins (lines : List ConfigLine) (p p' : Params) : Prop where
  string : ∀ {name s}, (name, .string s) ∈ branches → ∀ v ∈ lastValueOf lines name,
    arrayString maxParameterTextLength (p'.string s) = v
  string_unset : ∀ {name s}, (name, .string s) ∈ branches → lastValueOf lines name = none →
    p'.string s = p.string s
  int : ∀ {name i}, (name, .int i) ∈ branches →
    p'.int i = (lastValueOf lines name).elim (p.int i) atoi
  float : ∀ {name f}, (name, .float f) ∈ branches →
    p'.float f = (lastValueOf lines name).elim (p.float f) atof
  period : ∀ {name}, (name, .period) ∈ branches → p'.servoPwmPeriodMSecs =
    (lastValueOf lines name).elim p.servoPwmPeriodMSecs fun v => toUnsignedLong (atof v)
  lightSensor : ∀ {name c}, (name, .lightSensor c) ∈ branches → p'.lightSensor c =
    (lastValueOf lines name).elim (p.lightSensor c) fun v => toUnsignedInt (atoi v)
  cleanSession : ∀ {name}, (name, .cleanSession) ∈ branches → p'.bool .mqttCleanSession =
    (lastValueOf lines name).elim (p.bool .mqttCleanSession)
      fun v => strncmpEq (ascii "true") v v.length
  bool : ∀ {name b}, (name, .bool b) ∈ branches → p'.bool b =
    (lastValueOf lines name).elim (p.bool b)
      fun v => strncmpEq v (ascii "true") maxParameterTextLength
  scalar_unset : (∀ c, lastValueOf lines (scalarName c) = none) →
    p'.lightSensorScalar = p.lightSensorScalar
  offset_unset : (∀ c, lastValueOf lines (offsetName c) = none) →
    p'.lightSensorOffset = p.lightSensorOffset

/-- The last text is as long as any other of the key, and there is a NUL behind
    it in the array. -/
def LongestLast (a : ℕ → Byte) (values : List Bytes) : Prop :=
  ∀ v ∈ values.getLast?, (∀ u ∈ values, u.length ≤ v.length) ∧ a v.length = 0

/-! ## One assignment -/

/-- What an assignment does, the elements of the calibration arrays aside. -/
structure Assigned (a : Assignment) (p p' : Params) : Prop where
  string : ∀ s, p'.string s = if a.branch = .string s then
    strncpy (p.string s) a.parameterValue a.valueLength else p.string s
  int : ∀ i, p'.int i = if a.branch = .int i then atoi a.parameterValue else p.int i
  float : ∀ f, p'.float f = if a.branch = .float f then atof a.parameterValue else p.float f
  period : p'.servoPwmPeriodMSecs = if a.branch = .period then
    toUnsignedLong (atof a.parameterValue) else p.servoPwmPeriodMSecs
  lightSensor : ∀ c, p'.lightSensor c = if a.branch = .lightSensor c then
    toUnsignedInt (atoi a.parameterValue) else p.lightSensor c
  cleanSession : p'.bool .mqttCleanSession = if a.branch = .cleanSession then
    strncmpEq (ascii "true") a.parameterValue a.valueLength else p.bool .mqttCleanSession
  bool : ∀ b, b ≠ .mqttCleanSession → p'.bool b = if a.branch = .bool b then
    strncmpEq a.parameterValue (ascii "true") maxParameterTextLength else p.bool b
  scalar : (∀ c, a.branch ≠ .scalar c) → p'.lightSensorScalar = p.lightSensorScalar
  offset : (∀ c, a.branch ≠ .offset c) → p'.lightSensorOffset = p.lightSensorOffset

theorem assign_assigned {a : Assignment} {p p' : Params} (h : a.assign p = some p')
    (ha : a.branch ≠ .bool .mqttCleanSession) : Assigned a p p' := by
  unfold Assignment.assign at h
  cases hb : a.branch <;> simp only [hb, Option.some.injEq, Option.map_eq_some_iff] at h
  case scalar c =>
    obtain ⟨_, -, rfl⟩ := h
    constructor <;> simp [hb]
  case offset c =>
    obtain ⟨_, -, rfl⟩ := h
    constructor <;> simp [hb]
  case string s =>
    subst h
    constructor
    case string =>
      intro s'
      by_cases hs : s = s'
      · subst hs
        simp [hb]
      · simp [hb, hs, Function.update_of_ne (Ne.symm hs)]
    all_goals simp [hb]
  case cleanSession =>
    subst h
    constructor
    case bool =>
      intro b hne
      simp [hb, Function.update_of_ne hne]
    all_goals simp [hb]
  case bool b =>
    have hne : b ≠ .mqttCleanSession := fun heq => ha (by rw [hb, heq])
    subst h
    constructor
    case cleanSession => simp [hb, Function.update_of_ne hne.symm]
    all_goals simp [hb, Function.update_apply, eq_comm]
  all_goals
    subst h
    constructor <;> simp [hb, Function.update_apply, eq_comm]

/-! ## All assignments -/

/-- The run lemma: what the assignments do to a parameter that one branch sets. -/
theorem assignAll_observe {T : Type*} {obs : Params → T} {b : Branch} {step : T → Assignment → T}
    {as : List Assignment} (hstep : ∀ a ∈ as, ∀ {q q'}, a.assign q = some q' →
      obs q' = if a.branch = b then step (obs q) a else obs q)
    {p p' : Params} (h : assignAll as p = some p') :
    obs p' = (as.filter fun a => a.branch = b).foldl step (obs p) := by
  rw [List.foldl_filter]
  simp only [decide_eq_true_eq]
  exact @assignAll_foldl T obs (fun t a => if a.branch = b then step t a else t) as hstep p p' h

/-- A parameter that keeps nothing of its old value has that of the last
    assignment. -/
theorem foldl_getLast? {T : Type*} (conv : Assignment → T) (as : List Assignment) (t : T) :
    as.foldl (fun _ a => conv a) t = as.getLast?.elim t conv := by
  induction as using List.reverseRecOn with
  | nil => rfl
  | append_singleton as a ih => simp

/-- It has that of the last text. -/
theorem foldl_last {T : Type*} (conv : Assignment → T) (b : Branch) (values : List Bytes) (t : T) :
    (values.map fun v => (⟨b, v, v.length⟩ : Assignment)).foldl (fun _ a => conv a) t =
      values.getLast?.elim t fun v => conv ⟨b, v, v.length⟩ := by
  rw [foldl_getLast?, List.getLast?_map]
  cases values.getLast? <;> rfl

theorem foldl_copyAll (b : Branch) (values : List Bytes) (a : ℕ → Byte) :
    (values.map fun v => (⟨b, v, v.length⟩ : Assignment)).foldl
      (fun f a => strncpy f a.parameterValue a.valueLength) a = copyAll values a := by
  unfold copyAll
  rw [List.foldl_map]

/-! ## The lines of a file -/

section

variable {lines : List ConfigLine} {name : String}

/-- The assignments of a branch are those of the lines with its name. -/
theorem filter_assignmentsOf (hshort : ∀ l ∈ lines, l.text.length < maxParameterTextLength - 1)
    {b : Branch} (hb : (name, b) ∈ branches) :
    (assignmentsOf lines).filter (fun a => a.branch = b) =
      (valuesOf lines name).map fun v => ⟨b, v, v.length⟩ := by
  have hkeys : ∀ l ∈ parameterLines lines, l.key.length < maxParameterTextLength :=
    fun l hl => key_length_lt hshort hl
  rw [assignmentsOf_eq]
  unfold valuesOf
  generalize parameterLines lines = ls at hkeys
  induction ls with
  | nil => rfl
  | cons l ls ih =>
    have hrest := ih fun l' hl' => hkeys l' (List.mem_cons_of_mem l hl')
    have hiff := branchOf_eq_some_iff (hkeys l (by simp)) hb
    rw [List.filterMap_cons, List.filter_cons]
    unfold ParameterLine.assignment at hrest ⊢
    cases hbranch : branchOf l.key with
    | none =>
      have hne : l.key ≠ ascii name := fun heq => by
        rw [hiff.2 heq] at hbranch
        cases hbranch
      simpa [hne] using hrest
    | some b' =>
      rw [hbranch, Option.some.injEq] at hiff
      by_cases hkey : l.key = ascii name
      · obtain rfl := hiff.2 hkey
        simpa [hkey] using hrest
      · have hne : b' ≠ b := fun heq => hkey (hiff.1 heq)
        simpa [hkey, hne] using hrest

/-- A value fits the line buffer, and has no NUL. -/
theorem valuesOf_bytes (hshort : ∀ l ∈ lines, l.text.length < maxParameterTextLength - 1)
    {v : Bytes} (hv : v ∈ valuesOf lines name) :
    (0 : Byte) ∉ v ∧ v.length < maxParameterTextLength := by
  obtain ⟨l, hl, rfl⟩ := List.mem_map.1 hv
  have hmem := (List.mem_filter.1 hl).1
  obtain ⟨l', hl', heq⟩ := List.mem_filterMap.1 hmem
  cases l' with
  | comment l' => cases heq
  | parameter l' =>
    obtain rfl := Option.some.inj heq
    refine ⟨(l'.notMem_key_value (by decide)).2, ?_⟩
    have htext := hshort _ hl'
    simp only [ConfigLine.text, ParameterLine.text, List.length_append, List.length_cons] at htext
    omega

variable {p p' : Params}

/-- A parameter that keeps nothing of its old value. -/
theorem observe_last {T : Type*} (obs : Params → T) (conv : Assignment → T) {b : Branch}
    (hshort : ∀ l ∈ lines, l.text.length < maxParameterTextLength - 1)
    (hb : (name, b) ∈ branches)
    (hstep : ∀ {a q q'}, Assigned a q q' → obs q' = if a.branch = b then conv a else obs q)
    (h : assignAll (assignmentsOf lines) p = some p') :
    obs p' = (lastValueOf lines name).elim (obs p) fun v => conv ⟨b, v, v.length⟩ := by
  have hobs := @assignAll_observe T obs b (fun _ a => conv a) _
    (fun a ha q q' hq => hstep (assign_assigned hq (branch_ne_bool ha))) p p' h
  rw [hobs, filter_assignmentsOf hshort hb, foldl_last]
  rfl

/-- Without a line of the name, no assignment is the branch's. -/
theorem branch_ne_of_unset (hshort : ∀ l ∈ lines, l.text.length < maxParameterTextLength - 1)
    {b : Branch} (hb : (name, b) ∈ branches) (hnone : lastValueOf lines name = none)
    {a : Assignment} (ha : a ∈ assignmentsOf lines) : a.branch ≠ b := by
  have hfilter := filter_assignmentsOf hshort hb
  rw [List.getLast?_eq_none_iff.1 hnone, List.map_nil, List.filter_eq_nil_iff] at hfilter
  simpa using hfilter a ha

/-- A string parameter has all texts copied to its start. -/
theorem string_copyAll (hshort : ∀ l ∈ lines, l.text.length < maxParameterTextLength - 1)
    {s : StringParam} (hb : (name, .string s) ∈ branches)
    (h : assignAll (assignmentsOf lines) p = some p') :
    p'.string s = copyAll (valuesOf lines name) (p.string s) := by
  have hobs := @assignAll_observe _ (fun q => q.string s) (.string s)
    (fun f a => strncpy f a.parameterValue a.valueLength) _
    (fun a ha q q' hq => (assign_assigned hq (branch_ne_bool ha)).string s) p p' h
  rw [hobs, filter_assignmentsOf hshort hb, foldl_copyAll]

/-- The last line of a string parameter's key wins iff its text is the longest. -/
theorem string_last_iff (hshort : ∀ l ∈ lines, l.text.length < maxParameterTextLength - 1)
    {s : StringParam} (hb : (name, .string s) ∈ branches)
    (h : assignAll (assignmentsOf lines) p = some p') :
    (∀ v ∈ lastValueOf lines name, arrayString maxParameterTextLength (p'.string s) = v) ↔
      LongestLast (p.string s) (valuesOf lines name) := by
  have hbytes : ∀ v ∈ valuesOf lines name, (0 : Byte) ∉ v ∧ v.length < maxParameterTextLength :=
    fun v hv => valuesOf_bytes hshort hv
  rw [string_copyAll hshort hb h]
  unfold lastValueOf LongestLast
  refine forall_congr' fun v => forall_congr' fun hv => ?_
  obtain ⟨init, hinit⟩ := List.getLast?_eq_some_iff.1 hv
  rw [hinit] at hbytes ⊢
  exact arrayString_copyAll_iff (fun u hu => (hbytes u hu).1) (hbytes v (by simp)).2 _

theorem lastWins_of_assignAll (hshort : ∀ l ∈ lines, l.text.length < maxParameterTextLength - 1)
    (h : assignAll (assignmentsOf lines) p = some p') :
    LastWins lines p p' ↔ ∀ {name s}, (name, .string s) ∈ branches →
      LongestLast (p.string s) (valuesOf lines name) := by
  have hnamed : ∀ {name b}, (name, .bool b) ∈ branches → b ≠ .mqttCleanSession := by
    rintro name b hb rfl
    exact branchOf_ne_bool _ (branchOf_name _ hb)
  constructor
  · intro hlast name s hb
    exact (string_last_iff hshort hb h).1 (hlast.string hb)
  · intro hlongest
    constructor
    case string => exact fun hb => (string_last_iff hshort hb h).2 (hlongest hb)
    case string_unset =>
      intro name s hb hnone
      rw [string_copyAll hshort hb h, List.getLast?_eq_none_iff.1 hnone]
      rfl
    case int =>
      intro name i hb
      exact observe_last (·.int i) (fun a => atoi a.parameterValue) hshort hb (·.int i) h
    case float =>
      intro name f hb
      exact observe_last (·.float f) (fun a => atof a.parameterValue) hshort hb (·.float f) h
    case period =>
      intro name hb
      exact observe_last (·.servoPwmPeriodMSecs) (fun a => toUnsignedLong (atof a.parameterValue))
        hshort hb (·.period) h
    case lightSensor =>
      intro name c hb
      exact observe_last (·.lightSensor c) (fun a => toUnsignedInt (atoi a.parameterValue))
        hshort hb (·.lightSensor c) h
    case cleanSession =>
      intro name hb
      exact observe_last (·.bool .mqttCleanSession)
        (fun a => strncmpEq (ascii "true") a.parameterValue a.valueLength) hshort hb
        (·.cleanSession) h
    case bool =>
      intro name b hb
      exact observe_last (·.bool b)
        (fun a => strncmpEq a.parameterValue (ascii "true") maxParameterTextLength) hshort hb
        (·.bool b (hnamed hb)) h
    case scalar_unset =>
      intro hnone
      refine @assignAll_keeps _ (·.lightSensorScalar) _ (fun a ha q q' hq => ?_) p p' h
      exact (assign_assigned hq (branch_ne_bool ha)).scalar fun c =>
        branch_ne_of_unset hshort (mem_branches_scalar c) (hnone c) ha
    case offset_unset =>
      intro hnone
      refine @assignAll_keeps _ (·.lightSensorOffset) _ (fun a ha q q' hq => ?_) p p' h
      exact (assign_assigned hq (branch_ne_bool ha)).offset fun c =>
        branch_ne_of_unset hshort (mem_branches_offset c) (hnone c) ha

/-- **The last line of a key wins** exactly when no calibration line leaves its
    array and the last text of every string parameter is its longest. -/
theorem lastWins_iff (hshort : ∀ l ∈ lines, l.text.length < maxParameterTextLength - 1)
    (ended : Bool) (p : Params) :
    (∀ r, ∃ p', readAndAssignConfigurationDetails r (some (fileText ended lines)) p =
      some (.success, p') ∧ LastWins lines p p') ↔
    CalibratedInBounds p (assignmentsOf lines) ∧
      ∀ name s, (name, .string s) ∈ branches →
        LongestLast (p.string s) (valuesOf lines name) := by
  have hread : ∀ r p', readAndAssignConfigurationDetails r (some (fileText ended lines)) p =
      some (.success, p') ↔ assignAll (assignmentsOf lines) p = some p' := by
    intro r p'
    rw [readAndAssign_fileText hshort]
    simp
  rw [← assignAll_isSome_iff, Option.isSome_iff_exists]
  constructor
  · intro h
    obtain ⟨p', hp, hlast⟩ := h .zeroed
    rw [hread] at hp
    exact ⟨⟨p', hp⟩, fun name s => (lastWins_of_assignAll hshort hp).1 hlast⟩
  · rintro ⟨⟨p', hp⟩, hlongest⟩ r
    exact ⟨p', (hread r p').2 hp, (lastWins_of_assignAll hshort hp).2 fun hb => hlongest _ _ hb⟩

end

/-- Two lines for the port. -/
def portTwice : List ConfigLine :=
  [tabbedLine "MQTT_PORT" "8883" (by decide), tabbedLine "MQTT_PORT" "1883" (by decide)]

theorem lastWins_iff_portTwice :
    (∀ r, ∃ p', readAndAssignConfigurationDetails r (some (fileText true portTwice)) .initial =
      some (.success, p') ∧ LastWins portTwice .initial p') ↔
    CalibratedInBounds .initial (assignmentsOf portTwice) ∧
      ∀ name s, (name, .string s) ∈ branches →
        LongestLast (Params.initial.string s) (valuesOf portTwice name) :=
  lastWins_iff (by decide +kernel) true .initial

/-- A user name, and then a shorter one. -/
def usernameTwice : List ConfigLine :=
  [tabbedLine "MQTT_USERNAME" "operator" (by decide), tabbedLine "MQTT_USERNAME" "bob" (by decide)]

/-- It ends as `bobrator`. -/
theorem usernameTwice_not_lastWins :
    ¬∀ (lines : List ConfigLine) (ended : Bool) (r : Reader),
      (∀ l ∈ lines, l.text.length < maxParameterTextLength - 1) →
        ∃ p', readAndAssignConfigurationDetails r (some (fileText ended lines)) .initial =
          some (.success, p') ∧ LastWins lines .initial p' := by
  intro h
  have hshort : ∀ l ∈ usernameTwice, l.text.length < maxParameterTextLength - 1 := by
    decide +kernel
  obtain ⟨p', hp, hlast⟩ := h usernameTwice true .zeroed hshort
  rw [readAndAssign_fileText hshort] at hp
  obtain ⟨q, hq, heq⟩ := Option.map_eq_some_iff.1 hp
  obtain rfl : q = p' := congrArg Prod.snd heq
  have hlongest := (lastWins_of_assignAll hshort hq).1 hlast
    (show ("MQTT_USERNAME", .string .mqttUsername) ∈ branches by decide)
  have hvalues : valuesOf usernameTwice "MQTT_USERNAME" = [ascii "operator", ascii "bob"] := by
    decide +kernel
  rw [hvalues] at hlongest
  have hlen := (hlongest (ascii "bob") rfl).1 (ascii "operator") (by simp)
  exact absurd hlen (by decide)

end TrackerDemo.Config

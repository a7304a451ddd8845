import TrackerDemo.Lib.CString

/-!
# Topics and filters

Model of `mosquitto_pub_topic_check` and `mosquitto_sub_topic_check`
(`util_mosq.c`, lines 179–228). The strings are C strings, without a NUL.

A topic has levels between its slashes. In a filter the level `+` stands for any
level, and `#`, which is the last level, for any levels.

Results:
* `subTopicCheck_iff`, `pubTopicCheck_iff`: what the loops over the characters
  accept.
* `topicChecks_iff`: the same of the levels of any C string.
-/

namespace TrackerDemo.Mosquitto

open TrackerDemo.CString

/-- `'/'`. -/
def slash : Byte := 47

/-- `'+'`. -/
def plus : Byte := 43

/-- `'#'`. -/
def hash : Byte := 35

/-! ## The checks -/

/-- The loop of `mosquitto_pub_topic_check`; the result is the length. -/
def pubTopicCheckLoop : ℕ → Bytes → Option ℕ
  | len, [] => some len
  | len, x :: str => if x = plus ∨ x = hash then none else pubTopicCheckLoop (len + 1) str

/-- `mosquitto_pub_topic_check`. -/
def pubTopicCheck (str : Bytes) : Bool :=
  match pubTopicCheckLoop 0 str with
  | none => false
  | some len => ¬ len > 65535

/-- The loop of `mosquitto_sub_topic_check`, with the character `c` before `str`; the
    result is the length. Behind the string there is a NUL. -/
def subTopicCheckLoop : Byte → ℕ → Bytes → Option ℕ
  | _, len, [] => some len
  | c, len, x :: str =>
    if x = plus then
      if (c ≠ 0 ∧ c ≠ slash) ∨ (str.headD 0 ≠ 0 ∧ str.headD 0 ≠ slash) then none
      else subTopicCheckLoop x (len + 1) str
    else if x = hash then
      if (c ≠ 0 ∧ c ≠ slash) ∨ str.headD 0 ≠ 0 then none
      else subTopicCheckLoop x (len + 1) str
    else subTopicCheckLoop x (len + 1) str

/-- `mosquitto_sub_topic_check`. -/
def subTopicCheck (str : Bytes) : Bool :=
  match subTopicCheckLoop 0 0 str with
  | none => false
  | some len => ¬ len > 65535

/-! ## Levels -/

/-- The levels of a topic or a filter. -/
def levels (str : Bytes) : List Bytes := str.splitOn slash

/-- A level without a wildcard. -/
def Plain (level : Bytes) : Prop := plus ∉ level ∧ hash ∉ level

/-- The levels of a filter: the wildcards are levels of their own, and `#` is the
    last one. -/
def FilterLevels : List Bytes → Prop
  | [] => True
  | l :: ls => (l = [plus] ∨ Plain l ∨ l = [hash] ∧ ls = []) ∧ FilterLevels ls

/-- The same for a filter that is read up to the middle of a level. -/
def FilterRest (atStart : Prop) : List Bytes → Prop
  | [] => True
  | l :: ls => (Plain l ∨ atStart ∧ (l = [plus] ∨ l = [hash] ∧ ls = [])) ∧ FilterLevels ls

theorem filterRest_true (ls : List Bytes) : FilterRest True ls ↔ FilterLevels ls := by
  cases ls with
  | nil => rfl
  | cons l ls =>
    show (Plain l ∨ True ∧ (l = [plus] ∨ l = [hash] ∧ ls = [])) ∧ FilterLevels ls ↔
      (l = [plus] ∨ Plain l ∨ l = [hash] ∧ ls = []) ∧ FilterLevels ls
    tauto

theorem levels_ne_nil (str : Bytes) : levels str ≠ [] := List.splitOn_ne_nil slash str

theorem levels_slash (str : Bytes) : levels (slash :: str) = [] :: levels str := by
  unfold levels
  rw [List.splitOn_cons_eq_if_modifyHead, if_pos (by rfl)]

theorem levels_cons {x : Byte} (h : x ≠ slash) {str l : Bytes} {ls : List Bytes}
    (hstr : levels str = l :: ls) : levels (x :: str) = (x :: l) :: ls := by
  unfold levels at hstr ⊢
  rw [List.splitOn_cons_eq_if_modifyHead, if_neg (by simpa using h), hstr]
  rfl

theorem exists_levels (str : Bytes) : ∃ l ls, levels str = l :: ls :=
  List.exists_cons_of_ne_nil (levels_ne_nil str)

@[simp] theorem levels_nil : levels [] = [[]] := rfl

/-- The first level is empty iff the string is, or starts with a slash. -/
theorem levels_head_nil_iff {str l : Bytes} {ls : List Bytes} (hstr : levels str = l :: ls) :
    l = [] ↔ str = [] ∨ str.head? = some slash := by
  cases str with
  | nil =>
    obtain ⟨rfl, -⟩ := List.cons.inj (levels_nil.symm.trans hstr)
    simp
  | cons x str =>
    by_cases hx : x = slash
    · subst hx
      rw [levels_slash] at hstr
      simp [(List.cons.inj hstr).1]
    · obtain ⟨l', ls', hstr'⟩ := exists_levels str
      rw [levels_cons hx hstr'] at hstr
      simp [← (List.cons.inj hstr).1, hx]

/-- The next character ends the level iff nothing of the level is left. -/
theorem headD_ends_iff {str l : Bytes} {ls : List Bytes} (h0 : (0 : Byte) ∉ str)
    (hstr : levels str = l :: ls) : ¬ (str.headD 0 ≠ 0 ∧ str.headD 0 ≠ slash) ↔ l = [] := by
  rw [levels_head_nil_iff hstr]
  cases str with
  | nil => simp
  | cons x str =>
    have hx : x ≠ 0 := fun h => h0 (h ▸ List.mem_cons_self)
    simp [hx]

/-- The string is at its end iff no level is left. -/
theorem headD_eq_zero_iff {str l : Bytes} {ls : List Bytes} (h0 : (0 : Byte) ∉ str)
    (hstr : levels str = l :: ls) : str.headD 0 = 0 ↔ l = [] ∧ ls = [] := by
  cases str with
  | nil =>
    obtain ⟨rfl, rfl⟩ := List.cons.inj (levels_nil.symm.trans hstr)
    simp
  | cons x str =>
    have hx : x ≠ 0 := fun h => h0 (h ▸ List.mem_cons_self)
    simp only [List.headD_cons, hx, false_iff, not_and]
    rintro rfl
    rcases (levels_head_nil_iff hstr).1 rfl with h | h
    · cases h
    · cases Option.some.inj h
      rw [levels_slash] at hstr
      rw [← (List.cons.inj hstr).2]
      exact levels_ne_nil str

theorem plain_nil : Plain [] := by simp [Plain]

theorem plain_cons {x : Byte} (hp : x ≠ plus) (hh : x ≠ hash) (l : Bytes) :
    Plain (x :: l) ↔ Plain l := by
  simp [Plain, hp.symm, hh.symm]

section

variable {atStart : Prop} {x : Byte} {str l : Bytes} {ls : List Bytes}

theorem filterRest_slash : FilterRest atStart (levels (slash :: str)) ↔
    FilterRest True (levels str) := by
  rw [levels_slash, filterRest_true]
  show (Plain [] ∨ _) ∧ FilterLevels (levels str) ↔ _
  simp [plain_nil]

theorem filterRest_plain (hs : x ≠ slash) (hp : x ≠ plus) (hh : x ≠ hash) :
    FilterRest atStart (levels (x :: str)) ↔ FilterRest False (levels str) := by
  obtain ⟨l, ls, hstr⟩ := exists_levels str
  rw [levels_cons hs hstr, hstr]
  simp [FilterRest, plain_cons hp hh, hp, hh]

theorem filterRest_plus (hstr : levels str = l :: ls) :
    FilterRest atStart (levels (plus :: str)) ↔ (atStart ∧ l = []) ∧ FilterLevels ls := by
  rw [levels_cons (by decide) hstr]
  have hplain : ¬ Plain (plus :: l) := by simp [Plain]
  have hhash : plus ≠ hash := by decide
  simp [FilterRest, hplain, hhash]

theorem filterRest_hash (hstr : levels str = l :: ls) :
    FilterRest atStart (levels (hash :: str)) ↔ atStart ∧ l = [] ∧ ls = [] := by
  rw [levels_cons (by decide) hstr]
  have hplain : ¬ Plain (hash :: l) := by simp [Plain]
  have hplus : hash ≠ plus := by decide
  simp only [FilterRest, hplain, List.cons.injEq, hplus, false_and, false_or, true_and]
  constructor
  · exact fun h => h.1
  · rintro ⟨hs, rfl, rfl⟩
    exact ⟨⟨hs, rfl, rfl⟩, trivial⟩

theorem filterRest_nil_cons : FilterRest False ([] :: ls) ↔ FilterLevels ls := by
  show (Plain [] ∨ _) ∧ FilterLevels ls ↔ _
  simp [plain_nil]

end

/-! ## What the checks accept -/

/-- The loop lemma; the induction is on the rest of the string. -/
theorem subTopicCheckLoop_eq_some_iff {str : Bytes} (h0 : (0 : Byte) ∉ str) (c : Byte)
    (len n : ℕ) :
    subTopicCheckLoop c len str = some n ↔
      FilterRest (c = 0 ∨ c = slash) (levels str) ∧ n = len + str.length := by
  induction str generalizing c len with
  | nil =>
    rw [subTopicCheckLoop, Option.some_inj]
    simp [FilterRest, plain_nil, FilterLevels, eq_comm]
  | cons x str ih =>
    have h0' : (0 : Byte) ∉ str := fun h => h0 (List.mem_cons_of_mem x h)
    have hx0 : x ≠ 0 := fun h => h0 (h ▸ List.mem_cons_self)
    obtain ⟨l, ls, hstr⟩ := exists_levels str
    have hlen : len + 1 + str.length = len + (x :: str).length := by
      rw [List.length_cons]
      omega
    have hends := headD_ends_iff h0' hstr
    have hlast := headD_eq_zero_iff h0' hstr
    rw [subTopicCheckLoop]
    by_cases hplus : x = plus
    · subst hplus
      rw [if_pos rfl, filterRest_plus hstr]
      by_cases hok : (c = 0 ∨ c = slash) ∧ l = []
      · -- the level is a plus
        rw [if_neg (by tauto), ih h0', hlen, hstr, hok.2]
        have hf : ¬ (plus = 0 ∨ plus = slash) := by decide
        rw [eq_false hf, filterRest_nil_cons]
        simp [hok.1]
      · rw [if_pos (by tauto)]
        simp [hok]
    rw [if_neg hplus]
    by_cases hhash : x = hash
    · subst hhash
      rw [if_pos rfl, filterRest_hash hstr]
      by_cases hok : (c = 0 ∨ c = slash) ∧ l = [] ∧ ls = []
      · rw [if_neg (by tauto), ih h0', hlen, hstr, hok.2.1, hok.2.2]
        have hf : ¬ (hash = 0 ∨ hash = slash) := by decide
        rw [eq_false hf, filterRest_nil_cons]
        simp [hok.1, FilterLevels]
      · rw [if_pos (by tauto)]
        simp only [reduceCtorEq, false_iff, not_and]
        exact fun h => absurd h hok
    rw [if_neg hhash, ih h0', hlen]
    by_cases hslash : x = slash
    · subst hslash
      rw [filterRest_slash, eq_true (Or.inr rfl : slash = 0 ∨ slash = slash)]
    · rw [filterRest_plain hslash hplus hhash,
        eq_false (by tauto : ¬ (x = 0 ∨ x = slash))]

/-- **`mosquitto_sub_topic_check`** accepts the filters whose levels are well formed. -/
theorem subTopicCheck_iff {str : Bytes} (h0 : (0 : Byte) ∉ str) :
    subTopicCheck str = true ↔ FilterLevels (levels str) ∧ str.length ≤ 65535 := by
  have hloop := subTopicCheckLoop_eq_some_iff h0 0 0
  rw [eq_true (Or.inl rfl : (0 : Byte) = 0 ∨ (0 : Byte) = slash), filterRest_true] at hloop
  unfold subTopicCheck
  cases h : subTopicCheckLoop 0 0 str with
  | none =>
    simp only [Bool.false_eq_true, false_iff, not_and]
    intro hf
    have hsome := (hloop (0 + str.length)).2 ⟨hf, rfl⟩
    rw [h] at hsome
    cases hsome
  | some n =>
    obtain ⟨hf, rfl⟩ := (hloop n).1 h
    simp [hf]

theorem pubTopicCheckLoop_eq_some_iff (len n : ℕ) (str : Bytes) :
    pubTopicCheckLoop len str = some n ↔ Plain str ∧ n = len + str.length := by
  induction str generalizing len with
  | nil => simp [pubTopicCheckLoop, plain_nil, eq_comm]
  | cons x str ih =>
    rw [pubTopicCheckLoop]
    split_ifs with hx
    · have hplain : ¬ Plain (x :: str) := by
        rcases hx with rfl | rfl <;> simp [Plain]
      simp [hplain]
    · rw [not_or] at hx
      rw [ih, plain_cons hx.1 hx.2, List.length_cons]
      have hlen : len + 1 + str.length = len + (str.length + 1) := by omega
      rw [hlen]

/-- **`mosquitto_pub_topic_check`** accepts the topics without a wildcard. -/
theorem pubTopicCheck_iff (str : Bytes) :
    pubTopicCheck str = true ↔ Plain str ∧ str.length ≤ 65535 := by
  have hloop := fun n => pubTopicCheckLoop_eq_some_iff 0 n str
  unfold pubTopicCheck
  cases h : pubTopicCheckLoop 0 str with
  | none =>
    simp only [Bool.false_eq_true, false_iff, not_and]
    intro hf
    have hsome := (hloop (0 + str.length)).2 ⟨hf, rfl⟩
    rw [h] at hsome
    cases hsome
  | some n =>
    obtain ⟨hf, rfl⟩ := (hloop n).1 h
    simp [hf]

/-- A string without a wildcard has none in a level. -/
theorem plain_iff_levels (str : Bytes) : Plain str ↔ ∀ l ∈ levels str, Plain l := by
  induction str with
  | nil => simp [plain_nil]
  | cons x str ih =>
    obtain ⟨l, ls, hstr⟩ := exists_levels str
    by_cases hslash : x = slash
    · subst hslash
      rw [plain_cons (by decide) (by decide), levels_slash, List.forall_mem_cons, ih]
      simp [plain_nil]
    · rw [hstr, List.forall_mem_cons] at ih
      rw [levels_cons hslash hstr, List.forall_mem_cons]
      by_cases hx : x = plus ∨ x = hash
      · have hcons : ∀ t : Bytes, ¬ Plain (x :: t) := by
          intro t
          rcases hx with rfl | rfl <;> simp [Plain]
        simp [hcons]
      · rw [not_or] at hx
        rw [plain_cons hx.1 hx.2, plain_cons hx.1 hx.2, ih]

/-- **The checks of a topic.** A filter passes iff every level is a plus, the last
    level is a hash, or there is no wildcard in it; a topic to publish on passes iff
    no level has a wildcard; and the length fits into 16 bits. -/
theorem topicChecks_iff (m : Bytes) :
    (subTopicCheck (cString m) = true ↔
        FilterLevels (levels (cString m)) ∧ (cString m).length ≤ 65535) ∧
      (pubTopicCheck (cString m) = true ↔
        (∀ l ∈ levels (cString m), Plain l) ∧ (cString m).length ≤ 65535) := by
  rw [← plain_iff_levels]
  exact ⟨subTopicCheck_iff (zero_notMem_cString m), pubTopicCheck_iff (cString m)⟩

end TrackerDemo.Mosquitto

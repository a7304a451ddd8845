import TrackerDemo.Mosquitto.Topics

/-!
# Matching a topic against a filter

Model of `mosquitto_topic_matches_sub` (`util_mosq.c`, lines 231–334). The strings
are given by what is left of them from `spos` and `tpos` on.

Results:
* `topicMatchesSub_iff`: for a filter and a topic that pass their checks the function
  decides whether the topic's levels match, with one exception: `#` behind a `+`
  does not match its parent level.
-/

namespace TrackerDemo.Mosquitto

open TrackerDemo.CString

/-- How `mosquitto_topic_matches_sub` returns; `inval` comes with a false
    `result`. -/
inductive TopicMatch
  | success (result : Bool)
  | inval
  /-- `MOSQ_ERR_SUCCESS`, with `result` not written. -/
  | unset
  deriving DecidableEq, Repr

/-- The loop (lines 259–328), with `prev` as `sub[spos-1]`, if `spos > 0`. -/
def topicMatchesSubLoop : Option Byte → Bytes → Bytes → TopicMatch
  | _, [], topic => if topic = [] then .unset else .success false
  | prev, s :: sub, topic =>
    if topic.head? = some s then
      let topic := topic.tail
      if topic = [] ∧ sub = [slash, hash] then .success true
      else if sub = [] ∧ topic = [] then .success true
      else if topic = [] ∧ sub = [plus] then
        if s ≠ slash then .inval else .success true
      else topicMatchesSubLoop (some s) sub topic
    else if s = plus then
      if prev ≠ none ∧ prev ≠ some slash then .inval
      else if sub ≠ [] ∧ sub.head? ≠ some slash then .inval
      else
        let topic := topic.dropWhile (· ≠ slash)
        if topic = [] ∧ sub = [] then .success true
        else topicMatchesSubLoop (some s) sub topic
    else if s = hash then
      if prev ≠ none ∧ prev ≠ some slash then .inval
      else if sub ≠ [] then .inval
      else .success true
    else .success false

/-- `'$'`. -/
def dollar : Byte := 36

/-- `mosquitto_topic_matches_sub`. -/
def topicMatchesSub (sub topic : Bytes) : TopicMatch :=
  if sub = [] ∨ topic = [] then .inval
  else if (sub.head? = some dollar ∧ topic.head? ≠ some dollar) ∨
      (topic.head? = some dollar ∧ sub.head? ≠ some dollar) then .success false
  else topicMatchesSubLoop none sub topic

/-! ## Matching levels -/

/-- The levels of a topic match those of a filter. -/
def LevelsMatch : List Bytes → List Bytes → Prop
  | [], ts => ts = []
  | f :: fs, ts => f = [hash] ∨ ∃ t ts', ts = t :: ts' ∧ (f = [plus] ∨ f = t) ∧ LevelsMatch fs ts'

/-- The filter ends in `+/#`, and the topic in the level of the plus. -/
def ParentOfPlus (fs ts : List Bytes) : Prop :=
  ∃ pre, fs = pre ++ [[plus], [hash]] ∧ ts.length = pre.length + 1

theorem levelsMatch_cons_cons {f t : Bytes} {fs ts : List Bytes} :
    LevelsMatch (f :: fs) (t :: ts) ↔ f = [hash] ∨ (f = [plus] ∨ f = t) ∧ LevelsMatch fs ts := by
  simp [LevelsMatch]

theorem levelsMatch_cons_nil {f : Bytes} {fs : List Bytes} :
    LevelsMatch (f :: fs) [] ↔ f = [hash] := by
  simp [LevelsMatch]

theorem parentOfPlus_cons {f t : Bytes} {fs ts : List Bytes} (h : f ≠ [plus]) :
    ParentOfPlus (f :: fs) (t :: ts) ↔ ParentOfPlus fs ts := by
  constructor
  · rintro ⟨pre, hf, hlen⟩
    cases pre with
    | nil => exact absurd (List.cons.inj hf).1 h
    | cons p pre => exact ⟨pre, (List.cons.inj hf).2, by simpa using hlen⟩
  · rintro ⟨pre, rfl, hlen⟩
    exact ⟨f :: pre, rfl, by simpa using hlen⟩

theorem parentOfPlus_cons_cons {f t t' : Bytes} {fs ts : List Bytes} :
    ParentOfPlus (f :: fs) (t :: t' :: ts) ↔ ParentOfPlus fs (t' :: ts) := by
  constructor
  · rintro ⟨pre, hf, hlen⟩
    cases pre with
    | nil => simp at hlen
    | cons p pre => exact ⟨pre, (List.cons.inj hf).2, by simpa using hlen⟩
  · rintro ⟨pre, rfl, hlen⟩
    exact ⟨f :: pre, rfl, by simpa using hlen⟩

theorem parentOfPlus_singleton {f t : Bytes} {fs : List Bytes} :
    ParentOfPlus (f :: fs) [t] ↔ f = [plus] ∧ fs = [[hash]] := by
  constructor
  · rintro ⟨pre, hf, hlen⟩
    obtain rfl : pre = [] := List.eq_nil_of_length_eq_zero (by simpa using hlen)
    exact List.cons.inj hf
  · rintro ⟨rfl, rfl⟩
    exact ⟨[], rfl, rfl⟩

/-- What is left of a filter and a topic that the loop finds to match. From the
    filter `/#` nothing of the topic is left only behind a `+`. -/
def RestMatches (sub topic : Bytes) : Prop :=
  LevelsMatch (levels sub) (levels topic) ∧ ¬ ParentOfPlus (levels sub) (levels topic) ∧
    ¬ (topic = [] ∧ sub = [slash, hash])

/-- The loop has found out whether `p` holds. -/
def TopicMatch.Decides (m : TopicMatch) (p : Prop) : Prop :=
  (m = .success true ∧ p) ∨ (m = .success false ∧ ¬ p)

theorem TopicMatch.Decides.congr {m : TopicMatch} {p q : Prop} (h : m.Decides p) (hpq : p ↔ q) :
    m.Decides q := by
  unfold TopicMatch.Decides at *
  rwa [← hpq]

theorem TopicMatch.decides_false {p : Prop} (h : ¬ p) : (TopicMatch.success false).Decides p :=
  .inr ⟨rfl, h⟩

section Steps

variable {s : Byte} {sub topic : Bytes}

theorem eq_of_levels_eq {str l : Bytes} (h : levels str = [l]) : str = l := by
  have hstr : [slash].intercalate (levels str) = str := List.intercalate_splitOn slash
  rw [← hstr, h]
  simp

/-- The first level that is not empty starts as the string. -/
theorem head_of_levels {x : Byte} {str l : Bytes} {ls : List Bytes}
    (h : levels str = (x :: l) :: ls) : str.head? = some x := by
  cases str with
  | nil => simp at h
  | cons y str =>
    by_cases hy : y = slash
    · subst hy
      rw [levels_slash] at h
      simp at h
    · obtain ⟨l', ls', hstr⟩ := exists_levels str
      rw [levels_cons hy hstr] at h
      exact congrArg some (List.cons.inj (List.cons.inj h).1).1

theorem Plain.ne_wildcard {l : Bytes} (h : Plain l) : l ≠ [plus] ∧ l ≠ [hash] := by
  constructor
  · rintro rfl
    exact h.1 (by simp)
  · rintro rfl
    exact h.2 (by simp)

theorem levels_hash : levels [hash] = [[hash]] := rfl

theorem levels_plus : levels [plus] = [[plus]] := rfl

/-- A character that is the same in both. -/
theorem levelsMatch_same (hp : s ≠ plus) (hh : s ≠ hash)
    (hrest : FilterRest (s = slash) (levels sub)) :
    (LevelsMatch (levels (s :: sub)) (levels (s :: topic)) ↔
        LevelsMatch (levels sub) (levels topic)) ∧
      (ParentOfPlus (levels (s :: sub)) (levels (s :: topic)) ↔
        ParentOfPlus (levels sub) (levels topic)) := by
  by_cases hs : s = slash
  · subst hs
    rw [levels_slash, levels_slash, levelsMatch_cons_cons, parentOfPlus_cons (by simp)]
    simp
  · obtain ⟨f, fs, hf⟩ := exists_levels sub
    obtain ⟨t, ts, ht⟩ := exists_levels topic
    rw [hf, eq_false hs] at hrest
    have hplain : Plain f := by
      have := hrest.1
      tauto
    have hcons : Plain (s :: f) := (plain_cons hp hh f).2 hplain
    rw [levels_cons hs hf, levels_cons hs ht, hf, ht, levelsMatch_cons_cons, levelsMatch_cons_cons,
      parentOfPlus_cons hcons.ne_wildcard.1, parentOfPlus_cons hplain.ne_wildcard.1]
    simp [hcons.ne_wildcard.1, hcons.ne_wildcard.2, hplain.ne_wildcard.1, hplain.ne_wildcard.2]

theorem restMatches_same (hp : s ≠ plus) (hh : s ≠ hash)
    (hrest : FilterRest (s = slash) (levels sub)) :
    RestMatches (s :: sub) (s :: topic) ↔
      LevelsMatch (levels sub) (levels topic) ∧ ¬ ParentOfPlus (levels sub) (levels topic) := by
  obtain ⟨hmatch, hparent⟩ := @levelsMatch_same s sub topic hp hh hrest
  unfold RestMatches
  rw [hmatch, hparent]
  simp

/-- The topic's last character: what the loop accepts there. -/
theorem restMatches_last (hp : s ≠ plus) (hh : s ≠ hash)
    (hrest : FilterRest (s = slash) (levels sub))
    (hsub : sub = [slash, hash] ∨ sub = [] ∨ sub = [plus]) : RestMatches (s :: sub) [s] := by
  rw [restMatches_same hp hh hrest]
  rcases hsub with rfl | rfl | rfl
  · rw [levels_slash, levels_hash, levels_nil, levelsMatch_cons_cons, parentOfPlus_singleton,
      levelsMatch_cons_nil]
    decide
  · rw [levels_nil, levelsMatch_cons_cons, parentOfPlus_singleton]
    exact ⟨.inr ⟨.inr rfl, rfl⟩, by decide⟩
  · rw [levels_plus, levels_nil, levelsMatch_cons_cons, parentOfPlus_singleton]
    exact ⟨.inr ⟨.inl rfl, rfl⟩, by decide⟩

/-- A character that is not the topic's. -/
theorem not_restMatches_of_head_ne {atStart : Prop} (hp : s ≠ plus) (hh : s ≠ hash)
    (hne : topic.head? ≠ some s) (hsub : FilterRest atStart (levels (s :: sub))) :
    ¬ RestMatches (s :: sub) topic := by
  rintro ⟨hmatch, -, hparent⟩
  obtain ⟨t, ts, ht⟩ := exists_levels topic
  by_cases hs : s = slash
  · subst hs
    rw [filterRest_slash, filterRest_true] at hsub
    rw [levels_slash, ht, levelsMatch_cons_cons] at hmatch
    obtain ⟨hempty, hmatch⟩ : [] = t ∧ LevelsMatch (levels sub) ts := by simpa using hmatch
    rcases (levels_head_nil_iff ht).1 hempty.symm with rfl | h
    · -- the filter is `/#`
      obtain ⟨-, rfl⟩ := List.cons.inj (levels_nil.symm.trans ht)
      obtain ⟨f, fs, hf⟩ := exists_levels sub
      rw [hf] at hsub hmatch
      rw [levelsMatch_cons_nil] at hmatch
      subst hmatch
      have hfs : fs = [] := by
        have hplain : ¬ Plain [hash] := by simp [Plain]
        have hplus : ([hash] : Bytes) ≠ [plus] := by decide
        have := hsub.1
        tauto
      subst hfs
      rw [eq_of_levels_eq hf] at hparent
      exact hparent ⟨rfl, rfl⟩
    · exact hne h
  · obtain ⟨f, fs, hf⟩ := exists_levels sub
    rw [levels_cons hs hf, ht, levelsMatch_cons_cons] at hmatch
    obtain ⟨rfl, -⟩ : s :: f = t ∧ LevelsMatch fs ts := by simpa [hp, hh] using hmatch
    exact hne (head_of_levels ht)

/-- The filter behind a character that is the same. -/
theorem FilterRest.tail {atStart : Prop} (hp : s ≠ plus) (hh : s ≠ hash)
    (h : FilterRest atStart (levels (s :: sub))) : FilterRest (s = slash) (levels sub) := by
  by_cases hs : s = slash
  · subst hs
    rw [eq_true (rfl : slash = slash)]
    exact filterRest_slash.1 h
  · rw [eq_false hs]
    exact (filterRest_plain hs hp hh).1 h

/-- A level that is a plus, and the topic's level. -/
theorem levels_dropWhile {t : Bytes} {ts : List Bytes} (ht : levels topic = t :: ts) :
    (topic.dropWhile (· ≠ slash) = [] ∧ ts = []) ∨
      ∃ rest, topic.dropWhile (· ≠ slash) = slash :: rest ∧ ts = levels rest := by
  induction topic generalizing t with
  | nil =>
    obtain ⟨-, rfl⟩ := List.cons.inj (levels_nil.symm.trans ht)
    exact .inl ⟨rfl, rfl⟩
  | cons x topic ih =>
    by_cases hx : x = slash
    · subst hx
      rw [levels_slash] at ht
      exact .inr ⟨topic, by simp, (List.cons.inj ht).2.symm⟩
    · obtain ⟨t', ts', ht'⟩ := exists_levels topic
      rw [levels_cons hx ht'] at ht
      obtain ⟨-, rfl⟩ := List.cons.inj ht
      rw [List.dropWhile_cons_of_pos (by simpa using hx)]
      exact ih ht'

/-- A plus at the end of the filter matches the topic's last level only. -/
theorem restMatches_plus_last {t : Bytes} {ts : List Bytes} (ht : levels topic = t :: ts) :
    RestMatches [plus] topic ↔ ts = [] := by
  unfold RestMatches
  rw [levels_plus, ht, levelsMatch_cons_cons]
  constructor
  · rintro ⟨h, -⟩
    have hhash : ([plus] : Bytes) ≠ [hash] := by decide
    have hts : LevelsMatch [] ts := by simpa [hhash] using h
    exact hts
  · rintro rfl
    exact ⟨.inr ⟨.inl rfl, rfl⟩, by simp [parentOfPlus_singleton], by simp [plus, slash]⟩

theorem levels_plus_slash : levels (plus :: slash :: sub) = [plus] :: levels sub :=
  levels_cons (by decide) (levels_slash sub)

/-- A plus with more levels behind it needs them in the topic. -/
theorem not_restMatches_plus_slash {t : Bytes} (ht : levels topic = [t])
    (hsub : FilterLevels (levels sub)) : ¬ RestMatches (plus :: slash :: sub) topic := by
  rintro ⟨hmatch, hparent, -⟩
  obtain ⟨f, fs, hf⟩ := exists_levels sub
  have hhash : ([plus] : Bytes) ≠ [hash] := by decide
  rw [levels_plus_slash, ht, hf] at hmatch hparent
  have hf' : f = [hash] := by
    simpa [levelsMatch_cons_cons, hhash, levelsMatch_cons_nil] using hmatch
  rw [hf, hf'] at hsub
  have hfs : fs = [] := by
    have hplain : ¬ Plain [hash] := by simp [Plain]
    have hlevel := hsub.1
    have hplus : ([hash] : Bytes) ≠ [plus] := by decide
    tauto
  exact hparent (parentOfPlus_singleton.2 ⟨rfl, by rw [hf', hfs]⟩)

/-- A plus, with a slash behind it in the filter and in the topic. -/
theorem restMatches_plus_slash {rest t : Bytes} (ht : levels topic = t :: levels rest)
    (hsub : FilterLevels (levels sub)) :
    RestMatches (slash :: sub) (slash :: rest) ↔ RestMatches (plus :: slash :: sub) topic := by
  have hrest : FilterRest (slash = slash) (levels sub) := by
    rwa [eq_true (rfl : slash = slash), filterRest_true]
  rw [restMatches_same (by decide) (by decide) hrest]
  unfold RestMatches
  obtain ⟨t', ts', hr⟩ := exists_levels rest
  have hhash : plus ≠ hash := by decide
  have hslash : plus ≠ slash := by decide
  rw [levels_plus_slash, ht, hr, levelsMatch_cons_cons, parentOfPlus_cons_cons]
  simp [hslash, hhash]

theorem restMatches_hash (topic : Bytes) : RestMatches [hash] topic := by
  obtain ⟨t, ts, ht⟩ := exists_levels topic
  refine ⟨?_, ?_, by simp⟩
  · rw [levels_hash, ht, levelsMatch_cons_cons]
    exact .inl rfl
  · rintro ⟨pre, hf, -⟩
    have hlen := congrArg List.length hf
    simp [levels_hash] at hlen

end Steps

/-- The loop lemma; the induction is on what is left of the filter. -/
theorem topicMatchesSubLoop_decides {sub : Bytes} (prev : Option Byte) (topic : Bytes)
    (hsub : FilterRest (prev = none ∨ prev = some slash) (levels sub)) (htopic : Plain topic)
    (hne : ¬ (sub = [] ∧ topic = [])) :
    (topicMatchesSubLoop prev sub topic).Decides (RestMatches sub topic) := by
  induction sub generalizing prev topic with
  | nil =>
    have htopic : topic ≠ [] := fun h => hne ⟨rfl, h⟩
    rw [topicMatchesSubLoop, if_neg htopic]
    apply TopicMatch.decides_false
    rintro ⟨hmatch, -⟩
    obtain ⟨t, ts, ht⟩ := exists_levels topic
    rw [ht, levels_nil, levelsMatch_cons_cons] at hmatch
    obtain ⟨rfl, hts⟩ : [] = t ∧ LevelsMatch [] ts := by simpa using hmatch
    have hts : ts = [] := hts
    subst hts
    exact htopic (eq_of_levels_eq ht)
  | cons s sub ih =>
    rw [topicMatchesSubLoop]
    by_cases hsame : topic.head? = some s
    · obtain ⟨topic, rfl⟩ := List.head?_eq_some_iff.1 hsame
      rw [if_pos hsame]
      have hs : s ≠ plus ∧ s ≠ hash := by
        constructor <;> rintro rfl
        · exact htopic.1 List.mem_cons_self
        · exact htopic.2 List.mem_cons_self
      have htopic' : Plain topic := (plain_cons hs.1 hs.2 topic).1 htopic
      have hrest := hsub.tail hs.1 hs.2
      dsimp only
      rw [List.tail_cons]
      split_ifs with hall hend hlast hslash
      · obtain ⟨rfl, rfl⟩ := hall
        exact .inl ⟨rfl, restMatches_last hs.1 hs.2 hrest (.inl rfl)⟩
      · obtain ⟨rfl, rfl⟩ := hend
        exact .inl ⟨rfl, restMatches_last hs.1 hs.2 hrest (.inr (.inl rfl))⟩
      · -- the plus would not be a level
        obtain ⟨rfl, rfl⟩ := hlast
        rw [eq_false hslash] at hrest
        exact absurd hrest.1 (by simp [Plain])
      · obtain ⟨rfl, rfl⟩ := hlast
        exact .inl ⟨rfl, restMatches_last hs.1 hs.2 hrest (.inr (.inr rfl))⟩
      · have hrest' : FilterRest (some s = none ∨ some s = some slash) (levels sub) := by
          simpa using hrest
        apply (ih (some s) topic hrest' htopic' hend).congr
        rw [restMatches_same hs.1 hs.2 hrest]
        exact ⟨fun h => ⟨h.1, h.2.1⟩, fun h => ⟨h.1, h.2, hall⟩⟩
    · rw [if_neg hsame]
      by_cases hplus : s = plus
      · subst hplus
        obtain ⟨f, fs, hf⟩ := exists_levels sub
        obtain ⟨⟨hstart, rfl⟩, hlevels⟩ := (filterRest_plus hf).1 hsub
        have hhead := (levels_head_nil_iff hf).1 rfl
        obtain ⟨t, ts, ht⟩ := exists_levels topic
        rw [if_pos rfl, if_neg (by tauto), if_neg (by tauto)]
        dsimp only
        rcases hhead with rfl | hhead
        · rcases levels_dropWhile ht with ⟨hdrop, rfl⟩ | ⟨rest, hdrop, rfl⟩
          · rw [hdrop, if_pos ⟨rfl, rfl⟩]
            exact .inl ⟨rfl, (restMatches_plus_last ht).2 rfl⟩
          · rw [hdrop, if_neg (by simp), topicMatchesSubLoop, if_neg (by simp)]
            exact .inr ⟨rfl, fun h => levels_ne_nil rest ((restMatches_plus_last ht).1 h)⟩
        · obtain ⟨sub, rfl⟩ := List.head?_eq_some_iff.1 hhead
          rw [levels_slash] at hf
          obtain ⟨-, rfl⟩ := List.cons.inj hf
          rw [if_neg (by simp)]
          rcases levels_dropWhile ht with ⟨hdrop, rfl⟩ | ⟨rest, hdrop, rfl⟩
          · rw [hdrop]
            exact .inr ⟨rfl, not_restMatches_plus_slash ht hlevels⟩
          · have hrest : FilterRest (some plus = none ∨ some plus = some slash)
                (levels (slash :: sub)) := by
              rwa [filterRest_slash, filterRest_true]
            have hplain : Plain (slash :: rest) := by
              rw [← hdrop]
              have hsuffix := List.dropWhile_suffix (· ≠ slash) (l := topic)
              exact ⟨fun h => htopic.1 (hsuffix.subset h), fun h => htopic.2 (hsuffix.subset h)⟩
            rw [hdrop]
            exact (ih (some plus) _ hrest hplain (by simp)).congr
              (restMatches_plus_slash ht hlevels)
      rw [if_neg hplus]
      by_cases hhash : s = hash
      · subst hhash
        obtain ⟨f, fs, hf⟩ := exists_levels sub
        obtain ⟨hstart, rfl, rfl⟩ := (filterRest_hash hf).1 hsub
        obtain rfl : sub = [] := eq_of_levels_eq hf
        rw [if_pos rfl, if_neg (by tauto), if_neg (by simp)]
        exact .inl ⟨rfl, restMatches_hash topic⟩
      rw [if_neg hhash]
      exact .inr ⟨rfl, not_restMatches_of_head_ne hplus hhash hsame hsub⟩

/-- **Matching.** For a filter and a topic that pass their checks the function decides
    whether the levels match, except that both have to start with a dollar sign or
    none, and that `+/#` does not match the level of its plus. -/
theorem topicMatchesSub_iff {sub topic : Bytes} (hsub0 : (0 : Byte) ∉ sub) (hsub : sub ≠ [])
    (hfilter : subTopicCheck sub = true) (htopic : topic ≠ [])
    (hplain : pubTopicCheck topic = true) :
    ∃ result, topicMatchesSub sub topic = .success result ∧
      (result = true ↔ (sub.head? = some dollar ↔ topic.head? = some dollar) ∧
        LevelsMatch (levels sub) (levels topic) ∧ ¬ ParentOfPlus (levels sub) (levels topic)) := by
  have hlevels := ((subTopicCheck_iff hsub0).1 hfilter).1
  have htopic' := ((pubTopicCheck_iff topic).1 hplain).1
  unfold topicMatchesSub
  rw [if_neg (by tauto)]
  split_ifs with hdollar
  · refine ⟨false, rfl, ?_⟩
    simp only [Bool.false_eq_true, false_iff]
    tauto
  · have hsame : sub.head? = some dollar ↔ topic.head? = some dollar := by tauto
    have hrest : FilterRest ((none : Option Byte) = none ∨ none = some slash) (levels sub) := by
      rwa [eq_true (Or.inl rfl : (none : Option Byte) = none ∨ none = some slash), filterRest_true]
    have hiff : RestMatches sub topic ↔
        LevelsMatch (levels sub) (levels topic) ∧ ¬ ParentOfPlus (levels sub) (levels topic) := by
      unfold RestMatches
      simp [htopic]
    rcases topicMatchesSubLoop_decides none topic hrest htopic' (fun h => hsub h.1) with
      ⟨he, hp⟩ | ⟨he, hp⟩
    · refine ⟨true, he, ?_⟩
      simpa [hsame] using hiff.1 hp
    · refine ⟨false, he, ?_⟩
      rw [hiff] at hp
      simpa [hsame] using hp

/-- The filter `a/+` on the topic `a/b`. -/
theorem topicMatchesSub_iff_sample : ∃ result,
    topicMatchesSub (ascii "a/+") (ascii "a/b") = .success result ∧
      (result = true ↔ ((ascii "a/+").head? = some dollar ↔ (ascii "a/b").head? = some dollar) ∧
        LevelsMatch (levels (ascii "a/+")) (levels (ascii "a/b")) ∧
          ¬ ParentOfPlus (levels (ascii "a/+")) (levels (ascii "a/b"))) :=
  topicMatchesSub_iff (by decide) (by decide) (by decide) (by decide) (by decide)

end TrackerDemo.Mosquitto

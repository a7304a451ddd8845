import TrackerDemo.Jsmn.Scanner

/-!
# Where the tokens stand in the text

A text that jsmn accepts is its tokens' spellings in order, with nothing between
them but blanks, colons, commas and closing brackets.

Results:
* `scanByte_layout`: the step lemma.
* `lexemes_spelled`: the layout of an accepted text.
* `Spelled.pair`: two neighbouring tokens have only delimiters between them.
-/

namespace TrackerDemo.Jsmn

open TrackerDemo.CString

/-- How a token stands in the text. -/
def Lexeme.spelling (l : Lexeme) : Bytes :=
  match l.kind with
  | .object => [123]
  | .array => [91]
  | .string => 34 :: (l.text ++ [34])
  | .primitive | .undefined => l.text

/-- The text of a primitive. -/
def PrimitiveText (t : Bytes) : Prop :=
  t ≠ [] ∧ ∀ c ∈ t, endsPrimitive c = false ∧ outsidePrimitive c = false

/-- The text consists of the tokens, latest first, and delimiters. -/
inductive Spelled : List Lexeme → Bytes → Prop
  | nil : Spelled [] []
  | delimiter {toks : List Lexeme} {js : Bytes} {c : Byte} (h : Spelled toks js)
      (hc : endsPrimitive c = true) : Spelled toks (js ++ [c])
  | token {toks : List Lexeme} {js : Bytes} {l : Lexeme} (h : Spelled toks js)
      (hl : l.kind = .primitive → PrimitiveText l.text) : Spelled (l :: toks) (js ++ l.spelling)

/-- The layout of what a scanner has read. -/
def Scan.Layout (s : Scan) (js : Bytes) : Prop :=
  match s.mode with
  | .failed _ => True
  | .between => Spelled s.toks js
  | .primitive acc => PrimitiveText acc ∧ ∃ js', js = js' ++ acc ∧ Spelled s.toks js'
  | .string acc _ | .escape acc => ∃ js', js = js' ++ 34 :: acc ∧ Spelled s.toks js'

/-! ## Steps -/

/-- Whether a token is open does not matter. -/
theorem Spelled.closeLast {toks : List Lexeme} {js : Bytes} (h : Spelled toks js) :
    ∀ {kind : JsmnType} {toks' : List Lexeme}, closeLast kind toks = some toks' →
      Spelled toks' js := by
  induction h with
  | nil =>
    intro kind toks' hc
    cases hc
  | delimiter _ hd ih =>
    intro kind toks' hc
    exact .delimiter (ih hc) hd
  | @token toks js l h hl ih =>
    intro kind toks' hc
    unfold Jsmn.closeLast at hc
    split_ifs at hc
    · rw [← Option.some.inj hc]
      exact Spelled.token (l := { l with isOpen := false }) h hl
    · rw [Option.map_eq_some_iff] at hc
      obtain ⟨ls, hls, rfl⟩ := hc
      exact .token (ih hls) hl

variable {n : ℕ} {toks : List Lexeme} {js : Bytes}

theorem addToken_layout {l : Lexeme} (h : Spelled toks js)
    (hl : l.kind = .primitive → PrimitiveText l.text) :
    (addToken n toks l).Layout (js ++ l.spelling) := by
  unfold addToken
  split_ifs
  · exact Spelled.token h hl
  · trivial

theorem closeToken_layout {kind : JsmnType} {c : Byte} (h : Spelled toks js)
    (hc : endsPrimitive c = true) : (closeToken toks kind).Layout (js ++ [c]) := by
  unfold closeToken
  cases hclose : closeLast kind toks with
  | none => trivial
  | some toks' => exact .delimiter (h.closeLast hclose) hc

theorem betweenByte_layout (h : Spelled toks js) (c : Byte) :
    (betweenByte n toks c).Layout (js ++ [c]) := by
  unfold betweenByte
  split_ifs with h1 h2 h3 h4 h5 h6 h7
  · rw [h1]
    exact addToken_layout (l := ⟨.object, [], true⟩) h (by simp)
  · rw [h2]
    exact addToken_layout (l := ⟨.array, [], true⟩) h (by simp)
  · exact closeToken_layout h (by simp [endsPrimitive, h3])
  · exact closeToken_layout h (by simp [endsPrimitive, h4])
  · rw [h5]
    exact ⟨js, rfl, h⟩
  · refine Spelled.delimiter h ?_
    unfold endsPrimitive
    rw [decide_eq_true_eq]
    tauto
  · trivial
  · refine ⟨⟨by simp, fun c' hc' => ?_⟩, js, rfl, h⟩
    rw [List.mem_singleton] at hc'
    subst hc'
    refine ⟨?_, by simpa using h7⟩
    unfold endsPrimitive
    rw [decide_eq_false_iff_not]
    tauto

/-- The step lemma. -/
theorem scanByte_layout {s : Scan} (h : s.Layout js) (c : Byte) :
    (scanByte n s c).Layout (js ++ [c]) := by
  obtain ⟨mode, toks⟩ := s
  cases mode with
  | failed e => trivial
  | between => exact betweenByte_layout h c
  | primitive acc =>
    obtain ⟨hacc, js', rfl, hs⟩ := h
    have hadded := addToken_layout (n := n) (l := ⟨.primitive, acc, false⟩) hs fun _ => hacc
    rw [scanByte_primitive]
    split_ifs with he ho
    · rcases Nat.lt_or_ge toks.length n with hlt | hge
      · rw [addToken_of_lt hlt] at hadded ⊢
        exact betweenByte_layout hadded c
      · rw [addToken_of_le hge]
        trivial
    · trivial
    · refine ⟨⟨by simp, fun c' hc' => ?_⟩, js', by simp, hs⟩
      rcases List.mem_append.1 hc' with hmem | hmem
      · exact hacc.2 c' hmem
      · rw [List.mem_singleton.1 hmem]
        exact ⟨by simpa using he, by simpa using ho⟩
  | string acc hex =>
    obtain ⟨js', rfl, hs⟩ := h
    cases hex with
    | zero =>
      rw [scanByte_string]
      split_ifs with hq hb
      · rw [hq]
        simpa [Lexeme.spelling] using
          addToken_layout (n := n) (l := ⟨.string, acc, false⟩) hs (by simp)
      · exact ⟨js', by simp, hs⟩
      · exact ⟨js', by simp, hs⟩
    | succ hex =>
      rw [scanByte_string_succ]
      split_ifs
      · exact ⟨js', by simp, hs⟩
      · trivial
  | escape acc =>
    obtain ⟨js', rfl, hs⟩ := h
    rw [scanByte_escape]
    split_ifs
    · exact ⟨js', by simp, hs⟩
    · exact ⟨js', by simp, hs⟩
    · trivial

/-- The run lemma. -/
theorem scanFrom_layout {s : Scan} (h : s.Layout js) (js' : Bytes) :
    (scanFrom n s js').Layout (js ++ js') := by
  induction js' generalizing s js with
  | nil => simpa using h
  | cons c js' ih =>
    have := ih (scanByte_layout (n := n) h c)
    rwa [List.append_assoc, List.singleton_append] at this

theorem flush_layout {s : Scan} (h : s.Layout js) : (s.flush n).Layout js := by
  obtain ⟨mode, toks⟩ := s
  cases mode with
  | failed e => trivial
  | between => exact h
  | primitive acc =>
    obtain ⟨hacc, js', rfl, hs⟩ := h
    exact addToken_layout (l := ⟨.primitive, acc, false⟩) hs fun _ => hacc
  | string acc hex => trivial
  | escape acc => trivial

/-- **Layout.** An accepted text consists of its tokens and delimiters. -/
theorem lexemes_spelled {ls : List Lexeme} (h : lexemes n js = some ls) :
    Spelled ls.reverse js := by
  obtain ⟨htext, -⟩ := lexemes_eq_some_iff.1 h
  have hlayout := scanFrom_layout (n := n) (s := Scan.start) Spelled.nil js
  rw [List.nil_append] at hlayout
  have hflush : ((scanFrom n Scan.start js).flush n).Layout js := flush_layout hlayout
  unfold scanText at htext
  rw [htext] at hflush
  exact hflush

/-! ## Neighbouring tokens -/

/-- The latest token, and what follows it. -/
theorem Spelled.last {l : Lexeme} (h : Spelled (l :: toks) js) :
    ∃ a sep, js = a ++ l.spelling ++ sep ∧ (∀ c ∈ sep, endsPrimitive c = true) ∧
      (l.kind = .primitive → PrimitiveText l.text) ∧ Spelled toks a := by
  generalize hls : l :: toks = ls at h
  induction h with
  | nil => cases hls
  | @delimiter _ _ c _ hc ih =>
    obtain ⟨a, sep, rfl, hsep, hl, hs⟩ := ih hls
    refine ⟨a, sep ++ [c], by simp, fun c hc' => ?_, hl, hs⟩
    rcases List.mem_append.1 hc' with hmem | hmem
    · exact hsep c hmem
    · rw [List.mem_singleton.1 hmem]
      exact hc
  | token hs hl =>
    obtain ⟨rfl, rfl⟩ := List.cons.inj hls
    exact ⟨_, [], by simp, by simp, hl, hs⟩

/-- Every token is spelled somewhere in the text. -/
theorem Spelled.mem {toks : List Lexeme} {js : Bytes} (h : Spelled toks js) {l : Lexeme}
    (hl : l ∈ toks) : l.spelling <:+: js := by
  induction h with
  | nil => cases hl
  | @delimiter _ js c _ _ ih => exact (ih hl).trans (List.infix_append [] js [c])
  | @token toks js l' _ _ ih =>
    rcases List.mem_cons.1 hl with rfl | hmem
    · exact (List.suffix_append js l.spelling).isInfix
    · exact (ih hmem).trans (List.infix_append [] js l'.spelling)

theorem Spelled.of_append {post : List Lexeme} (h : Spelled (post ++ toks) js) :
    ∃ a b, js = a ++ b ∧ Spelled toks a := by
  induction post generalizing js with
  | nil => exact ⟨js, [], by simp, h⟩
  | cons l post ih =>
    obtain ⟨a, sep, rfl, -, -, hs⟩ := h.last
    obtain ⟨a', b, rfl, hs'⟩ := ih hs
    exact ⟨a', b ++ l.spelling ++ sep, by simp, hs'⟩

/-- Between two neighbouring tokens there are only delimiters. -/
theorem Spelled.pair {post : List Lexeme} {k v : Lexeme}
    (h : Spelled (post ++ v :: k :: toks) js) :
    ∃ a sep b, js = a ++ k.spelling ++ sep ++ v.spelling ++ b ∧
      (∀ c ∈ sep, endsPrimitive c = true) ∧ (v.kind = .primitive → PrimitiveText v.text) := by
  obtain ⟨js', b, rfl, hs⟩ := h.of_append
  obtain ⟨a, sep', rfl, -, hv, hs⟩ := hs.last
  obtain ⟨a', sep, rfl, hsep, -, -⟩ := hs.last
  exact ⟨a', sep, sep' ++ b, by simp, hsep, hv⟩

end TrackerDemo.Jsmn

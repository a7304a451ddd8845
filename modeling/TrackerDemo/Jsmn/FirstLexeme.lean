import TrackerDemo.Jsmn.Scanner

/-!
# Texts that do not begin with a string

The first lexeme of a text is a string only if nothing but delimiters stands
before the text's first quote.

Results:
* `scanByte_notString`: the step lemma.
* `lexemes_head_of_slash`: a slash before the first quote makes the first lexeme
  something else than a string.
* `lexemes_head_of_quoteFree`: so does a text without quotes.
-/

namespace TrackerDemo.Jsmn

open TrackerDemo.CString

/-- The first token, the last one in the list, is no string. -/
def FirstNotString (toks : List Lexeme) : Prop := ∀ l ∈ toks.getLast?, l.kind ≠ .string

/-- A state that has begun with something else than a string: the first token is
    already there, or it is the primitive being read. -/
structure Scan.NotString (s : Scan) : Prop where
  first : FirstNotString s.toks
  begun : s.toks = [] → (∃ acc, s.mode = .primitive acc) ∨ ∃ e, s.mode = .failed e

/-- A state before the first quote. -/
structure Scan.QuoteFree (s : Scan) : Prop where
  first : FirstNotString s.toks
  mode : s.mode = .between ∨ (∃ acc, s.mode = .primitive acc) ∨ ∃ e, s.mode = .failed e

variable {n : ℕ} {toks : List Lexeme}

/-! ## Steps -/

theorem FirstNotString.cons (h : FirstNotString toks) {l : Lexeme}
    (hl : toks = [] → l.kind ≠ .string) : FirstNotString (l :: toks) := by
  cases toks with
  | nil =>
    intro l' hl'
    rw [List.getLast?_singleton, Option.mem_some_iff] at hl'
    rw [← hl']
    exact hl rfl
  | cons l' toks =>
    unfold FirstNotString
    rw [List.getLast?_cons_cons]
    exact h

theorem FirstNotString.addToken (h : FirstNotString toks) {l : Lexeme}
    (hl : toks = [] → l.kind ≠ .string) : FirstNotString (addToken n toks l).toks := by
  unfold Jsmn.addToken
  split_ifs
  · exact h.cons hl
  · exact h

theorem FirstNotString.closeToken (h : FirstNotString toks) (kind : JsmnType) :
    FirstNotString (closeToken toks kind).toks := by
  unfold Jsmn.closeToken
  cases hc : closeLast kind toks with
  | none => exact h
  | some toks' =>
    have hkinds : toks'.map (·.kind) = toks.map (·.kind) := by
      have := congrArg (List.map Prod.fst) (closeLast_map hc)
      simpa [Function.comp_def] using this
    have hlast := congrArg List.getLast? hkinds
    rw [List.getLast?_map, List.getLast?_map] at hlast
    intro l hl
    rw [Option.mem_def.1 hl, Option.map_some, eq_comm, Option.map_eq_some_iff] at hlast
    obtain ⟨l', hl', hkind⟩ := hlast
    rw [← hkind]
    exact h l' hl'

/-- Between tokens, only a string's own quote begins a string. -/
theorem FirstNotString.betweenByte (h : FirstNotString toks) (c : Byte) :
    FirstNotString (betweenByte n toks c).toks := by
  unfold Jsmn.betweenByte
  split_ifs
  · exact h.addToken (by simp)
  · exact h.addToken (by simp)
  · exact h.closeToken _
  · exact h.closeToken _
  all_goals exact h

theorem length_closeLast {kind : JsmnType} {toks' : List Lexeme}
    (h : closeLast kind toks = some toks') : toks'.length = toks.length := by
  have := congrArg List.length (closeLast_map h)
  simpa using this

theorem betweenByte_toks_ne_nil (hne : toks ≠ []) (c : Byte) :
    (betweenByte n toks c).toks ≠ [] := by
  have hadd : ∀ l, (addToken n toks l).toks ≠ [] := by
    intro l
    unfold addToken
    split_ifs
    · simp
    · exact hne
  have hclose : ∀ kind, (closeToken toks kind).toks ≠ [] := by
    intro kind
    unfold closeToken
    cases hc : closeLast kind toks with
    | none => exact hne
    | some toks' =>
      show toks' ≠ []
      rw [← List.length_pos_iff] at hne ⊢
      rwa [length_closeLast hc]
  unfold betweenByte
  split_ifs
  · exact hadd _
  · exact hadd _
  · exact hclose _
  · exact hclose _
  all_goals exact hne

/-- The first token cannot change once it is there. -/
theorem Scan.NotString.of_ne_nil {mode : Mode} (h : FirstNotString toks) (hne : toks ≠ []) :
    (⟨mode, toks⟩ : Scan).NotString := ⟨h, fun hnil => absurd hnil hne⟩

theorem betweenByte_notString (h : FirstNotString toks) (hne : toks ≠ []) (c : Byte) :
    (betweenByte n toks c).NotString :=
  ⟨h.betweenByte c, fun hnil => absurd hnil (betweenByte_toks_ne_nil hne c)⟩

theorem addToken_notString (h : FirstNotString toks) (hne : toks ≠ []) (l : Lexeme) :
    (addToken n toks l).NotString := by
  rcases Nat.lt_or_ge toks.length n with hlt | hge
  · rw [addToken_of_lt hlt]
    exact .of_ne_nil (h.cons fun hnil => absurd hnil hne) (by simp)
  · rw [addToken_of_le hge]
    exact .of_ne_nil h hne

/-- The step lemma. -/
theorem scanByte_notString {s : Scan} (h : s.NotString) (c : Byte) :
    (scanByte n s c).NotString := by
  obtain ⟨mode, toks⟩ := s
  obtain ⟨hfirst, hbegun⟩ := h
  cases mode with
  | failed e => exact ⟨hfirst, hbegun⟩
  | between =>
    have hne : toks ≠ [] := fun hnil => by simpa using hbegun hnil
    exact betweenByte_notString hfirst hne c
  | primitive acc =>
    rw [scanByte_primitive]
    split_ifs
    · rcases Nat.lt_or_ge toks.length n with hlt | hge
      · rw [addToken_of_lt hlt]
        exact betweenByte_notString (hfirst.cons fun _ => by simp) (by simp) c
      · rw [addToken_of_le hge]
        exact ⟨hfirst, fun _ => .inr ⟨_, rfl⟩⟩
    · exact ⟨hfirst, fun _ => .inr ⟨_, rfl⟩⟩
    · exact ⟨hfirst, fun _ => .inl ⟨_, rfl⟩⟩
  | string acc hex =>
    have hne : toks ≠ [] := fun hnil => by simpa using hbegun hnil
    cases hex with
    | zero =>
      rw [scanByte_string]
      split_ifs
      · exact addToken_notString hfirst hne _
      · exact .of_ne_nil hfirst hne
      · exact .of_ne_nil hfirst hne
    | succ hex =>
      rw [scanByte_string_succ]
      split_ifs <;> exact .of_ne_nil hfirst hne
  | escape acc =>
    have hne : toks ≠ [] := fun hnil => by simpa using hbegun hnil
    rw [scanByte_escape]
    split_ifs <;> exact .of_ne_nil hfirst hne

theorem scanFrom_notString {s : Scan} (h : s.NotString) (js : Bytes) :
    (scanFrom n s js).NotString := by
  induction js generalizing s with
  | nil => exact h
  | cons c js ih => exact ih (scanByte_notString h c)

theorem addToken_mode (toks : List Lexeme) (l : Lexeme) :
    (addToken n toks l).mode = .between ∨ ∃ e, (addToken n toks l).mode = .failed e := by
  unfold addToken
  split_ifs <;> simp

theorem closeToken_mode (toks : List Lexeme) (kind : JsmnType) :
    (closeToken toks kind).mode = .between ∨ ∃ e, (closeToken toks kind).mode = .failed e := by
  unfold closeToken
  cases closeLast kind toks <;> simp

/-- The step lemma before the first quote. -/
theorem scanByte_quoteFree {s : Scan} (h : s.QuoteFree) {c : Byte} (hc : c ≠ 34) :
    (scanByte n s c).QuoteFree := by
  have hbetween : ∀ toks, FirstNotString toks → (betweenByte n toks c).QuoteFree := by
    intro toks hfirst
    refine ⟨hfirst.betweenByte c, ?_⟩
    unfold betweenByte
    rw [if_neg hc]
    split_ifs
    · exact (addToken_mode toks _).imp_right .inr
    · exact (addToken_mode toks _).imp_right .inr
    · exact (closeToken_mode toks _).imp_right .inr
    · exact (closeToken_mode toks _).imp_right .inr
    · exact .inl rfl
    · exact .inr (.inr ⟨_, rfl⟩)
    · exact .inr (.inl ⟨_, rfl⟩)
  obtain ⟨mode, toks⟩ := s
  obtain ⟨hfirst, hmode⟩ := h
  cases mode with
  | failed e => exact ⟨hfirst, hmode⟩
  | between => exact hbetween toks hfirst
  | primitive acc =>
    rw [scanByte_primitive]
    split_ifs
    · rcases Nat.lt_or_ge toks.length n with hlt | hge
      · rw [addToken_of_lt hlt]
        exact hbetween _ (hfirst.cons fun _ => by simp)
      · rw [addToken_of_le hge]
        exact ⟨hfirst, .inr (.inr ⟨_, rfl⟩)⟩
    · exact ⟨hfirst, .inr (.inr ⟨_, rfl⟩)⟩
    · exact ⟨hfirst, .inr (.inl ⟨_, rfl⟩)⟩
  | string acc hex => simp at hmode
  | escape acc => simp at hmode

theorem scanFrom_quoteFree {s : Scan} (h : s.QuoteFree) {js : Bytes} (hjs : (34 : Byte) ∉ js) :
    (scanFrom n s js).QuoteFree := by
  induction js generalizing s with
  | nil => exact h
  | cons c js ih =>
    rw [List.mem_cons, not_or] at hjs
    exact ih (scanByte_quoteFree h (Ne.symm hjs.1)) hjs.2

/-- A slash begins or continues a primitive. -/
theorem scanByte_slash {s : Scan} (h : s.QuoteFree) : (scanByte n s 47).NotString := by
  obtain ⟨mode, toks⟩ := s
  obtain ⟨hfirst, hmode⟩ := h
  cases mode with
  | failed e => exact ⟨hfirst, fun _ => .inr ⟨e, rfl⟩⟩
  | between => exact ⟨hfirst, fun _ => .inl ⟨[47], rfl⟩⟩
  | primitive acc => exact ⟨hfirst, fun _ => .inl ⟨acc ++ [47], rfl⟩⟩
  | string acc hex => simp at hmode
  | escape acc => simp at hmode

/-! ## The first lexeme -/

/-- The end of the text adds no string. -/
theorem flush_firstNotString {s : Scan} (h : FirstNotString s.toks) :
    FirstNotString (s.flush n).toks := by
  obtain ⟨mode, toks⟩ := s
  cases mode with
  | primitive acc => exact h.addToken fun _ => by simp
  | between | failed | string | escape => exact h

theorem lexemes_head {js : Bytes} {k : Lexeme} {ls : List Lexeme}
    (h : FirstNotString (scanFrom n .start js).toks) (hls : lexemes n js = some (k :: ls)) :
    k.kind ≠ .string := by
  have htoks : (scanText n js).toks = (k :: ls).reverse := by rw [(lexemes_eq_some_iff.1 hls).1]
  have hflush : FirstNotString (scanText n js).toks := flush_firstNotString h
  rw [htoks] at hflush
  exact hflush k (by simp)

theorem quoteFree_start : Scan.start.QuoteFree := ⟨by simp [FirstNotString, Scan.start], .inl rfl⟩

/-- Without quotes there is no string. -/
theorem lexemes_head_of_quoteFree {js : Bytes} (hjs : (34 : Byte) ∉ js) {k : Lexeme}
    {ls : List Lexeme} (hls : lexemes n js = some (k :: ls)) : k.kind ≠ .string :=
  lexemes_head (scanFrom_quoteFree quoteFree_start hjs).first hls

/-- A slash before the first quote belongs to a primitive. -/
theorem lexemes_head_of_slash {before after : Bytes} (hb : (34 : Byte) ∉ before) {k : Lexeme}
    {ls : List Lexeme} (hls : lexemes n (before ++ 47 :: after) = some (k :: ls)) :
    k.kind ≠ .string := by
  refine lexemes_head ?_ hls
  rw [scanFrom_append, scanFrom_cons]
  exact (scanFrom_notString (scanByte_slash (scanFrom_quoteFree quoteFree_start hb)) after).first

end TrackerDemo.Jsmn

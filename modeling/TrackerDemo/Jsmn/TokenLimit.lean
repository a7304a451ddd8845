import TrackerDemo.Jsmn.JsonText

/-!
# The limit on the number of tokens

How the scanner depends on the size of the token array.

Results:
* `scanFrom_above`: behind tokens that are all closed, the scanner does what it
  does at the start of a text with that many tokens less.
* `scanFrom_keeps`: a token that is found stays.
* `scanText_nomem_iff`: a limit is exceeded iff a larger array would be filled
  beyond it.
* `scanText_of_le`: a limit that is not exceeded does not matter.
* `jsmnParse_nomem_iff`: the same for `jsmn_parse`.
-/

namespace TrackerDemo.Jsmn

open TrackerDemo.CString TrackerDemo.Json

variable {n m : ℕ}

/-! ## Behind closed tokens -/

section Above

variable {base : List Lexeme} (hbase : ∀ l ∈ base, l.isOpen = false)

/-- The same state with the tokens `base` before its own. -/
def Scan.above (base : List Lexeme) (s : Scan) : Scan := ⟨s.mode, s.toks ++ base⟩

include hbase

theorem closeLast_of_closed (kind : JsmnType) : closeLast kind base = none := by
  induction base with
  | nil => rfl
  | cons l ls ih =>
    rw [closeLast, if_neg (by simp [hbase l (by simp)]),
      ih fun l' hl' => hbase l' (List.mem_cons_of_mem l hl')]
    rfl

theorem closeLast_append_closed (kind : JsmnType) (toks : List Lexeme) :
    closeLast kind (toks ++ base) = (closeLast kind toks).map (· ++ base) := by
  induction toks with
  | nil => exact closeLast_of_closed hbase kind
  | cons l ls ih =>
    rw [List.cons_append, closeLast, closeLast, ih]
    split_ifs
    · rfl
    · rfl
    · cases closeLast kind ls <;> rfl

theorem closeToken_above (kind : JsmnType) (toks : List Lexeme) :
    closeToken (toks ++ base) kind = (closeToken toks kind).above base := by
  unfold closeToken
  rw [closeLast_append_closed hbase]
  cases closeLast kind toks <;> rfl

omit hbase in
theorem addToken_above (toks : List Lexeme) (l : Lexeme) :
    addToken (n + base.length) (toks ++ base) l = (addToken n toks l).above base := by
  have hlen : (toks ++ base).length = toks.length + base.length := List.length_append
  rcases Nat.lt_or_ge toks.length n with hlt | hge
  · rw [addToken_of_lt hlt, addToken_of_lt (by omega)]
    rfl
  · rw [addToken_of_le hge, addToken_of_le (by omega)]
    rfl

theorem betweenByte_above (toks : List Lexeme) (c : Byte) :
    betweenByte (n + base.length) (toks ++ base) c = (betweenByte n toks c).above base := by
  unfold betweenByte
  rw [addToken_above, addToken_above, closeToken_above hbase, closeToken_above hbase]
  split_ifs <;> rfl

theorem scanByte_above (s : Scan) (c : Byte) :
    scanByte (n + base.length) (s.above base) c = (scanByte n s c).above base := by
  obtain ⟨mode, toks⟩ := s
  unfold Scan.above
  cases mode with
  | failed e => rfl
  | between => exact betweenByte_above hbase toks c
  | primitive acc =>
    rw [scanByte_primitive, scanByte_primitive, addToken_above]
    split_ifs
    · rcases Nat.lt_or_ge toks.length n with hlt | hge
      · rw [addToken_of_lt hlt]
        exact betweenByte_above hbase _ c
      · rw [addToken_of_le hge]
        rfl
    · rfl
    · rfl
  | string acc hex =>
    cases hex with
    | zero =>
      rw [scanByte_string, scanByte_string, addToken_above]
      split_ifs <;> rfl
    | succ hex =>
      rw [scanByte_string_succ, scanByte_string_succ]
      split_ifs <;> rfl
  | escape acc =>
    rw [scanByte_escape, scanByte_escape]
    split_ifs <;> rfl

/-- **Behind closed tokens** the scanner is the scanner of the rest, with the
    room that is left. -/
theorem scanFrom_above (s : Scan) (js : Bytes) :
    scanFrom (n + base.length) (s.above base) js = (scanFrom n s js).above base := by
  induction js generalizing s with
  | nil => rfl
  | cons c js ih => rw [scanFrom_cons, scanFrom_cons, scanByte_above hbase, ih]

omit hbase in
theorem flush_above (s : Scan) :
    (s.above base).flush (n + base.length) = (s.flush n).above base := by
  obtain ⟨mode, toks⟩ := s
  cases mode with
  | primitive acc => exact addToken_above toks _
  | _ => rfl

end Above

/-! ## A larger array -/

/-- The tokens without their open marks. -/
def shapes (toks : List Lexeme) : List (JsmnType × Bytes) := toks.map fun l => (l.kind, l.text)

theorem addToken_keeps (n : ℕ) (toks : List Lexeme) (l : Lexeme) :
    shapes toks <:+ shapes (addToken n toks l).toks := by
  unfold addToken
  split_ifs
  · exact List.suffix_cons _ _
  · exact List.suffix_refl _

theorem shapes_closeToken (toks : List Lexeme) (kind : JsmnType) :
    shapes (closeToken toks kind).toks = shapes toks := by
  unfold closeToken
  cases hc : closeLast kind toks with
  | none => rfl
  | some toks' => exact closeLast_map hc

theorem betweenByte_keeps (n : ℕ) (toks : List Lexeme) (c : Byte) :
    shapes toks <:+ shapes (betweenByte n toks c).toks := by
  have hclose : ∀ kind, shapes toks <:+ shapes (closeToken toks kind).toks := by
    intro kind
    refine ⟨[], ?_⟩
    rw [List.nil_append, shapes_closeToken]
  unfold betweenByte
  split_ifs
  · exact addToken_keeps _ _ _
  · exact addToken_keeps _ _ _
  · exact hclose _
  · exact hclose _
  all_goals exact List.suffix_refl _

theorem scanByte_keeps (n : ℕ) (s : Scan) (c : Byte) :
    shapes s.toks <:+ shapes (scanByte n s c).toks := by
  obtain ⟨mode, toks⟩ := s
  cases mode with
  | failed e => exact List.suffix_refl _
  | between => exact betweenByte_keeps n toks c
  | primitive acc =>
    rw [scanByte_primitive]
    split_ifs
    · rcases Nat.lt_or_ge toks.length n with hlt | hge
      · rw [addToken_of_lt hlt]
        exact (List.suffix_cons _ _).trans (betweenByte_keeps n (⟨.primitive, acc, false⟩ :: _) c)
      · refine ⟨[], ?_⟩
        rw [List.nil_append, addToken_of_le hge]
    · exact List.suffix_refl _
    · exact List.suffix_refl _
  | string acc hex =>
    cases hex with
    | zero =>
      rw [scanByte_string]
      split_ifs
      · exact addToken_keeps _ _ _
      · exact List.suffix_refl _
      · exact List.suffix_refl _
    | succ hex =>
      rw [scanByte_string_succ]
      split_ifs <;> exact List.suffix_refl _
  | escape acc =>
    rw [scanByte_escape]
    split_ifs <;> exact List.suffix_refl _

/-- No token is ever given back or changed, its open mark apart. -/
theorem scanFrom_keeps (n : ℕ) (s : Scan) (js : Bytes) :
    shapes s.toks <:+ shapes (scanFrom n s js).toks := by
  induction js generalizing s with
  | nil => exact List.suffix_refl _
  | cons c js ih => exact (scanByte_keeps n s c).trans (ih _)

theorem flush_keeps (n : ℕ) (s : Scan) : shapes s.toks <:+ shapes (s.flush n).toks := by
  obtain ⟨mode, toks⟩ := s
  cases mode with
  | primitive acc => exact addToken_keeps _ _ _
  | _ => exact List.suffix_refl _

theorem length_le_of_keeps {toks toks' : List Lexeme} (h : shapes toks <:+ shapes toks') :
    toks.length ≤ toks'.length := by
  have := h.length_le
  simpa [shapes] using this

/-- The states `s` of a scanner with room for `n` tokens and `s'` of one with
    more room: they are the same, or the first has run out of room. -/
def Limited (n : ℕ) (s s' : Scan) : Prop :=
  (s' = s ∧ s.toks.length ≤ n ∧ s.mode ≠ .failed .nomem) ∨
    (s.mode = .failed .nomem ∧ n < s'.toks.length)

theorem addToken_limited (hnm : n < m) {toks : List Lexeme} (h : toks.length ≤ n) (l : Lexeme) :
    Limited n (addToken n toks l) (addToken m toks l) := by
  rw [addToken_of_lt (h.trans_lt hnm)]
  rcases Nat.lt_or_ge toks.length n with hlt | hge
  · rw [addToken_of_lt hlt]
    exact .inl ⟨rfl, hlt, by simp⟩
  · rw [addToken_of_le hge]
    exact .inr ⟨rfl, Nat.lt_succ_of_le hge⟩

theorem limited_self {s : Scan} (h : s.toks.length ≤ n) (hmode : s.mode ≠ .failed .nomem) :
    Limited n s s := .inl ⟨rfl, h, hmode⟩

theorem closeToken_limited {toks : List Lexeme} (h : toks.length ≤ n) (kind : JsmnType) :
    Limited n (closeToken toks kind) (closeToken toks kind) := by
  have hlen : (closeToken toks kind).toks.length = toks.length := by
    simpa [shapes] using congrArg List.length (shapes_closeToken toks kind)
  refine limited_self (hlen.trans_le h) ?_
  unfold closeToken
  cases closeLast kind toks <;> simp

theorem betweenByte_limited (hnm : n < m) {toks : List Lexeme} (h : toks.length ≤ n) (c : Byte) :
    Limited n (betweenByte n toks c) (betweenByte m toks c) := by
  unfold betweenByte
  split_ifs
  · exact addToken_limited hnm h _
  · exact addToken_limited hnm h _
  · exact closeToken_limited h _
  · exact closeToken_limited h _
  all_goals exact limited_self h (by simp)

/-- The step lemma. -/
theorem Limited.scanByte (hnm : n < m) {s s' : Scan} (h : Limited n s s') (c : Byte) :
    Limited n (scanByte n s c) (scanByte m s' c) := by
  obtain ⟨rfl, hlen, hmode⟩ | ⟨hmode, hlen⟩ := h
  · obtain ⟨mode, toks⟩ := s'
    cases mode with
    | failed e => exact limited_self hlen hmode
    | between => exact betweenByte_limited hnm hlen c
    | primitive acc =>
      rw [scanByte_primitive, scanByte_primitive, addToken_of_lt (hlen.trans_lt hnm)]
      split_ifs
      · have hadded : (⟨.primitive, acc, false⟩ :: toks : List Lexeme).length =
            toks.length + 1 := rfl
        rcases Nat.lt_or_ge toks.length n with hlt | hge
        · rw [addToken_of_lt hlt]
          exact betweenByte_limited hnm (hadded.trans_le hlt) c
        · rw [addToken_of_le hge]
          refine .inr ⟨rfl, (Nat.lt_succ_of_le hge).trans_le ?_⟩
          exact hadded.ge.trans (length_le_of_keeps (betweenByte_keeps m _ c))
      · exact limited_self hlen (by simp)
      · exact limited_self hlen (by simp)
    | string acc hex =>
      cases hex with
      | zero =>
        rw [scanByte_string, scanByte_string]
        split_ifs
        · exact addToken_limited hnm hlen _
        · exact limited_self hlen (by simp)
        · exact limited_self hlen (by simp)
      | succ hex =>
        rw [scanByte_string_succ, scanByte_string_succ]
        split_ifs <;> exact limited_self hlen (by simp)
    | escape acc =>
      rw [scanByte_escape, scanByte_escape]
      split_ifs <;> exact limited_self hlen (by simp)
  · obtain ⟨mode, toks⟩ := s
    cases hmode
    exact .inr ⟨rfl, hlen.trans_le (length_le_of_keeps (scanByte_keeps m s' c))⟩

/-- The run lemma. -/
theorem Limited.scanFrom (hnm : n < m) {s s' : Scan} (h : Limited n s s') (js : Bytes) :
    Limited n (scanFrom n s js) (scanFrom m s' js) := by
  induction js generalizing s s' with
  | nil => exact h
  | cons c js ih => exact ih (h.scanByte hnm c)

theorem Limited.flush (hnm : n < m) {s s' : Scan} (h : Limited n s s') :
    Limited n (s.flush n) (s'.flush m) := by
  obtain ⟨rfl, hlen, hmode⟩ | ⟨hmode, hlen⟩ := h
  · obtain ⟨mode, toks⟩ := s'
    cases mode with
    | failed e => exact limited_self hlen hmode
    | between => exact limited_self hlen hmode
    | primitive acc => exact addToken_limited hnm hlen _
    | string acc hex => exact limited_self hlen (by simp [Scan.flush])
    | escape acc => exact limited_self hlen (by simp [Scan.flush])
  · obtain ⟨mode, toks⟩ := s
    cases hmode
    exact .inr ⟨rfl, hlen.trans_le (length_le_of_keeps (flush_keeps m s'))⟩

theorem scanText_limited (hnm : n < m) (js : Bytes) :
    Limited n (scanText n js) (scanText m js) := by
  have hstart : Limited n Scan.start Scan.start := limited_self (Nat.zero_le n) (by decide)
  exact (hstart.scanFrom hnm js).flush hnm

/-- **The limit.** The scanner runs out of room iff a larger array would get more
    tokens than it has room for. -/
theorem scanText_nomem_iff (hnm : n < m) (js : Bytes) :
    (scanText n js).mode = .failed .nomem ↔ n < (scanText m js).toks.length := by
  obtain ⟨heq, hlen, hmode⟩ | ⟨hmode, hlen⟩ := scanText_limited hnm js
  · rw [heq]
    exact iff_of_false hmode hlen.not_gt
  · exact iff_of_true hmode hlen

/-- A limit that is not exceeded does not matter. -/
theorem scanText_of_le (hnm : n < m) {js : Bytes} (h : (scanText m js).toks.length ≤ n) :
    scanText n js = scanText m js := by
  obtain ⟨heq, -, -⟩ | ⟨-, hlen⟩ := scanText_limited hnm js
  · exact heq.symm
  · exact absurd h hlen.not_ge

/-! ## `jsmn_parse` -/

theorem finish_eq_nomem_iff (s : Scan) : s.finish = .error .nomem ↔ s.mode = .failed .nomem := by
  obtain ⟨mode, toks⟩ := s
  unfold Scan.finish
  cases mode with
  | failed e => simp
  | _ =>
    dsimp only
    split_ifs <;> simp

/-- `jsmn_parse` returns `JSMN_ERROR_NOMEM` iff a larger array would get more
    tokens. -/
theorem jsmnParse_nomem_iff (hnm : n < m) {js : Bytes} (h0 : (0 : Byte) ∉ js) (tokens0 : Tokens) :
    (jsmnParse js n tokens0).1 = .error .nomem ↔ n < (scanText m js).toks.length := by
  have hret := (@jsmnParse_agrees js tokens0 n h0).ret
  rw [hret, ← scanText_nomem_iff hnm, ← finish_eq_nomem_iff]
  cases (scanText n js).finish <;> simp [Except.map]

/-- A larger array gets the tokens of a JSON text. -/
theorem length_scanText_of_derives {s : Nonterminal} {t : Text} {ts : List Token}
    (h : Derives s t ts) (hm : ts.length ≤ m) : (scanText m t).toks.length = ts.length := by
  obtain ⟨htext, -⟩ := lexemes_eq_some_iff.1 (lexemes_of_derives h hm)
  rw [htext]
  simp

end TrackerDemo.Jsmn

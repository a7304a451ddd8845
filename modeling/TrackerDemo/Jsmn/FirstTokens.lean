import TrackerDemo.Jsmn.FirstLexeme
import TrackerDemo.Jsmn.Layout
import TrackerDemo.Jsmn.TokenLimit

/-!
# The first tokens of a text

An accepted text is separators, its first token, and a text with the other
tokens. jsmn tells colons and commas from blanks nowhere between two tokens.

Results:
* `lexemes_separators`, `lexemes_quoted`, `lexemes_primitive`: the tokens of a
  text from those of its end.
* `lexemes_append_blank`: blanks at the end do not matter.
* `lexemes_cons`: what a text with a first token looks like.
-/

namespace TrackerDemo.Jsmn

open TrackerDemo.CString TrackerDemo.Json

variable {n : ℕ}

/-! ## Separators, strings and primitives -/

/-- Where a primitive may end: at a delimiter or the end of the text. -/
def StartsDelimited (js : Bytes) : Prop := ∀ c ∈ js.head?, endsPrimitive c = true

/-- Blanks around a colon. -/
theorem separators_colon {w w' : Bytes} (h : Blank w) (h' : Blank w') :
    Separators (w ++ 58 :: w') := by
  intro c hc
  rcases List.mem_append.1 hc with hmem | hmem
  · exact separators_of_blank h c hmem
  rcases List.mem_cons.1 hmem with rfl | hmem
  · rfl
  · exact separators_of_blank h' c hmem

/-! ## Texts from their ends -/

/-- Separators at the start of a text do not matter. -/
theorem lexemes_separators {sep : Bytes} (h : Separators sep) (js : Bytes) :
    lexemes n (sep ++ js) = lexemes n js := by
  unfold lexemes scanText Scan.start
  rw [scanFrom_append, scanFrom_separators n _ h]

theorem finish_above {base : List Lexeme} (hbase : ∀ l ∈ base, l.isOpen = false) (s : Scan) :
    (s.above base).finish = s.finish := by
  have hany : base.any (·.isOpen) = false := by
    rw [List.any_eq_false]
    intro l hl
    simp [hbase l hl]
  obtain ⟨mode, toks⟩ := s
  unfold Scan.finish Scan.above
  cases mode <;> simp [List.any_append, hany]

/-- The tokens of a text that is scanned behind closed tokens. -/
theorem lexemes_of_above {base : List Lexeme} (hbase : ∀ l ∈ base, l.isOpen = false) {m : ℕ}
    {js js' : Bytes} (h : scanText n js' = (scanText m js).above base) :
    lexemes n js' = (lexemes m js).map (base.reverse ++ ·) := by
  unfold lexemes
  rw [h, finish_above hbase]
  cases (scanText m js).finish with
  | error e => rfl
  | ok u => simp [Scan.above]

theorem closed_one {l : Lexeme} (hl : l.isOpen = false) : ∀ l' ∈ [l], l'.isOpen = false := by
  intro l' hl'
  rw [List.mem_singleton.1 hl', hl]

/-- Scanning `js` behind one closed token. -/
theorem scanText_above_one {l : Lexeme} (hl : l.isOpen = false) (js : Bytes) :
    (scanFrom (n + 1) ⟨.between, [l]⟩ js).flush (n + 1) = (scanText n js).above [l] := by
  have hscan : scanFrom (n + 1) ⟨.between, [l]⟩ js = (scanFrom n .start js).above [l] :=
    scanFrom_above (closed_one hl) Scan.start js
  rw [hscan]
  exact @flush_above n [l] (scanFrom n .start js)

/-- A text that begins with a string, as far as the scanner can tell. -/
theorem lexemes_of_string {b : Bytes} (hb : scanFrom (n + 1) ⟨.string [] 0, []⟩ (b ++ [34]) =
    addToken (n + 1) [] ⟨.string, b, false⟩) (js : Bytes) :
    lexemes (n + 1) (34 :: (b ++ 34 :: js)) = (lexemes n js).map (⟨.string, b, false⟩ :: ·) := by
  refine lexemes_of_above (closed_one rfl) ?_
  rw [← scanText_above_one rfl]
  have hsplit : 34 :: (b ++ 34 :: js) = 34 :: ((b ++ [34]) ++ js) := by simp
  unfold scanText Scan.start
  rw [hsplit, scanFrom_cons, scanFrom_append]
  show ((scanFrom (n + 1) (scanFrom (n + 1) ⟨.string [] 0, []⟩ (b ++ [34])) js).flush (n + 1)) = _
  rw [hb, addToken_of_lt (Nat.succ_pos n)]

theorem lexemes_quoted {b : Bytes} (hb : StringBody b) (js : Bytes) :
    lexemes (n + 1) (34 :: (b ++ 34 :: js)) = (lexemes n js).map (⟨.string, b, false⟩ :: ·) :=
  lexemes_of_string (scanFrom_quoted (n + 1) [] hb) js

/-- A text that begins with a primitive. -/
theorem lexemes_primitive {t : Bytes} (h : PrimitiveToken t) {js : Bytes}
    (hjs : StartsDelimited js) :
    lexemes (n + 1) (t ++ js) = (lexemes n js).map (⟨.primitive, t, false⟩ :: ·) := by
  refine lexemes_of_above (closed_one rfl) ?_
  rw [← scanText_above_one rfl]
  unfold scanText Scan.start
  rw [scanFrom_append, scanFrom_primitiveToken _ _ h, scan_primitive_end (n + 1) [] t hjs,
    addToken_of_lt (Nat.succ_pos n)]

/-- A text that is one unquoted token. -/
theorem lexemes_primitiveToken {t : Bytes} (h : PrimitiveToken t) :
    lexemes (n + 1) t = some [⟨.primitive, t, false⟩] := by
  have hone := @lexemes_primitive n t h [] (by simp [StartsDelimited])
  rw [List.append_nil] at hone
  exact hone

/-! ## Texts with a first token -/

/-- The modes inside of a string, with the characters so far. -/
def Mode.InString (mode : Mode) (acc : Bytes) : Prop :=
  (∃ hex, mode = .string acc hex) ∨ mode = .escape acc

/-- A byte inside of a string ends it, goes on with it, or is an error. -/
theorem scanByte_inString {mode : Mode} {acc : Bytes} (h : mode.InString acc)
    (toks : List Lexeme) (c : Byte) :
    (c = 34 ∧ scanByte n ⟨mode, toks⟩ c = addToken n toks ⟨.string, acc, false⟩) ∨
      (∃ mode' : Mode, mode'.InString (acc ++ [c]) ∧
        scanByte n ⟨mode, toks⟩ c = ⟨mode', toks⟩) ∨
      ∃ e, scanByte n ⟨mode, toks⟩ c = ⟨.failed e, toks⟩ := by
  obtain ⟨hex, rfl⟩ | rfl := h
  · cases hex with
    | zero =>
      rw [scanByte_string]
      split_ifs with hq hb
      · exact .inl ⟨hq, rfl⟩
      · exact .inr (.inl ⟨_, .inr rfl, rfl⟩)
      · exact .inr (.inl ⟨_, .inl ⟨0, rfl⟩, rfl⟩)
    | succ hex =>
      rw [scanByte_string_succ]
      split_ifs
      · exact .inr (.inl ⟨_, .inl ⟨hex, rfl⟩, rfl⟩)
      · exact .inr (.inr ⟨_, rfl⟩)
  · rw [scanByte_escape]
    split_ifs
    · exact .inr (.inl ⟨_, .inl ⟨0, rfl⟩, rfl⟩)
    · exact .inr (.inl ⟨_, .inl ⟨4, rfl⟩, rfl⟩)
    · exact .inr (.inr ⟨_, rfl⟩)

/-- A string of an accepted text has a closing quote. -/
theorem exists_closing_quote {toks toks' : List Lexeme} {js : Bytes} :
    ∀ {mode : Mode} {acc : Bytes}, mode.InString acc →
      (scanFrom n ⟨mode, toks⟩ js).flush n = ⟨.between, toks'⟩ →
      ∃ body rest, js = body ++ 34 :: rest ∧
        scanFrom n ⟨mode, toks⟩ (body ++ [34]) =
          addToken n toks ⟨.string, acc ++ body, false⟩ := by
  induction js with
  | nil =>
    intro mode acc hmode h
    obtain ⟨hex, rfl⟩ | rfl := hmode <;> simp [Scan.flush] at h
  | cons c js ih =>
    intro mode acc hmode h
    rw [scanFrom_cons] at h
    obtain ⟨rfl, hend⟩ | ⟨mode', hmode', hgo⟩ | ⟨e, hfail⟩ := scanByte_inString hmode toks c
    · refine ⟨[], js, rfl, ?_⟩
      rw [List.append_nil]
      exact hend
    · rw [hgo] at h
      obtain ⟨body, rest, rfl, hscan⟩ := ih hmode' h
      refine ⟨c :: body, rest, rfl, ?_⟩
      rw [List.cons_append, scanFrom_cons, hgo, hscan]
      simp
    · rw [hfail, scanFrom_failed] at h
      simp at h

/-- A primitive of an accepted text has no control character. -/
theorem primitive_bytes {toks toks' : List Lexeme} {t js : Bytes}
    (ht : ∀ c ∈ t, endsPrimitive c = false) (acc : Bytes)
    (h : (scanFrom n ⟨.primitive acc, toks⟩ (t ++ js)).flush n = ⟨.between, toks'⟩) :
    ∀ c ∈ t, outsidePrimitive c = false := by
  induction t generalizing acc with
  | nil => simp
  | cons c t ih =>
    rw [List.cons_append, scanFrom_cons, scanByte_primitive, ht c (by simp),
      if_neg (by decide)] at h
    have hc : outsidePrimitive c = false := by
      by_contra ho
      rw [if_pos (by simpa using ho), scanFrom_failed] at h
      simp at h
    rw [hc, if_neg (by decide)] at h
    intro c' hc'
    rcases List.mem_cons.1 hc' with rfl | hmem
    · exact hc
    · exact ih (fun c' hc' => ht c' (List.mem_cons_of_mem c hc')) _ h c' hmem

/-- No more tokens than there is room for. -/
theorem length_lexemes_le {js : Bytes} {ls : List Lexeme} (h : lexemes n js = some ls) :
    ls.length ≤ n := by
  have hflush : WellFormed n (scanText n js).toks := by
    have hscan := scanFrom_wellFormed (wellFormed_start n) js
    unfold scanText
    generalize scanFrom n Scan.start js = s at hscan ⊢
    obtain ⟨mode, toks⟩ := s
    cases mode with
    | primitive acc => exact addToken_wellFormed hscan fun ho => by cases ho
    | _ => exact hscan
  rw [(lexemes_eq_some_iff.1 h).1] at hflush
  simpa using hflush.length_le

/-- The kind of a token that stays the first one. -/
theorem kind_of_keeps {k l : Lexeme} {ls : List Lexeme} {s : Scan} (js : Bytes)
    (hs : s.toks = [l]) (h : (scanFrom n s js).flush n = ⟨.between, (k :: ls).reverse⟩) :
    k.kind = l.kind := by
  have hkeeps := (scanFrom_keeps n s js).trans (flush_keeps n _)
  rw [h, hs, List.reverse_cons] at hkeeps
  have hlast : [(l.kind, l.text)] <:+ shapes ls.reverse ++ [(k.kind, k.text)] := by
    simpa [shapes] using hkeeps
  obtain ⟨pre, hpre⟩ := hlast
  have heq := (List.append_inj' hpre rfl).2
  simp only [List.cons.injEq, Prod.mk.injEq, and_true] at heq
  exact heq.1.symm

/-- How the first token of a text stands in it. -/
inductive FirstToken (n : ℕ) (k : Lexeme) (ls : List Lexeme) : Bytes → Prop
  | bracket {js : Bytes} (hk : k.kind = .object ∨ k.kind = .array) : FirstToken n k ls js
  | string {m : ℕ} {rest : Bytes} (hn : n = m + 1) (hk : k.kind = .string)
      (hrest : lexemes m rest = some ls) : FirstToken n k ls (34 :: (k.text ++ 34 :: rest))
  | primitive {m : ℕ} {rest : Bytes} (hn : n = m + 1) (hk : k.kind = .primitive)
      (htext : PrimitiveToken k.text) (hend : StartsDelimited rest)
      (hrest : lexemes m rest = some ls) : FirstToken n k ls (k.text ++ rest)

section

variable {m : ℕ} {c : Byte} {rest : Bytes} {k : Lexeme} {ls : List Lexeme}

/-- The scan of an accepted text, from its first byte on. -/
theorem scanFrom_of_lexemes (h : lexemes n (c :: rest) = some ls) :
    (scanFrom n (betweenByte n [] c) rest).flush n = ⟨.between, ls.reverse⟩ := by
  have htext := (lexemes_eq_some_iff.1 h).1
  unfold scanText Scan.start at htext
  rwa [scanFrom_cons, scanByte_between] at htext

theorem betweenByte_ne_failed (h : lexemes n (c :: rest) = some ls) (e : JsmnErr) :
    betweenByte n [] c ≠ ⟨.failed e, []⟩ := by
  intro he
  have hscan := scanFrom_of_lexemes h
  rw [he, scanFrom_failed] at hscan
  simp at hscan

theorem firstToken_bracket (h : lexemes (m + 1) (c :: rest) = some (k :: ls))
    (hc : c = 123 ∨ c = 91) : FirstToken (m + 1) k ls (c :: rest) := by
  have hscan := scanFrom_of_lexemes h
  have hroom : ∀ l, addToken (m + 1) [] l = ⟨.between, [l]⟩ :=
    fun l => addToken_of_lt (Nat.succ_pos m) l
  obtain rfl | rfl := hc
  · have hbyte : betweenByte (m + 1) [] 123 = ⟨.between, [⟨.object, [], true⟩]⟩ := hroom _
    rw [hbyte] at hscan
    exact .bracket (.inl (kind_of_keeps rest rfl hscan))
  · have hbyte : betweenByte (m + 1) [] 91 = ⟨.between, [⟨.array, [], true⟩]⟩ := hroom _
    rw [hbyte] at hscan
    exact .bracket (.inr (kind_of_keeps rest rfl hscan))

theorem firstToken_string (h : lexemes (m + 1) (34 :: rest) = some (k :: ls)) :
    FirstToken (m + 1) k ls (34 :: rest) := by
  obtain ⟨body, rest, rfl, hscan⟩ := exists_closing_quote (.inl ⟨0, rfl⟩) (scanFrom_of_lexemes h)
  rw [List.nil_append] at hscan
  rw [lexemes_of_string hscan, Option.map_eq_some_iff] at h
  obtain ⟨ls', hls, heq⟩ := h
  obtain ⟨rfl, rfl⟩ := List.cons.inj heq
  exact .string rfl rfl hls

/-- Any other byte that is no separator begins a primitive, or the text is rejected. -/
theorem primitive_head (h : lexemes n (c :: rest) = some ls) (hsep : isSeparator c = false)
    (hc : c ≠ 123 ∧ c ≠ 91 ∧ c ≠ 34) : endsPrimitive c = false ∧ outsidePrimitive c = false := by
  unfold isSeparator at hsep
  rw [decide_eq_false_iff_not] at hsep
  have hends : endsPrimitive c = false := by
    by_contra hends
    have hclose : c = 93 ∨ c = 125 := by
      unfold endsPrimitive at hends
      rw [Bool.not_eq_false, decide_eq_true_eq] at hends
      tauto
    obtain rfl | rfl := hclose
    · exact betweenByte_ne_failed h .inval rfl
    · exact betweenByte_ne_failed h .inval rfl
  refine ⟨hends, ?_⟩
  by_contra ho
  apply betweenByte_ne_failed h .inval
  unfold endsPrimitive at hends
  rw [decide_eq_false_iff_not] at hends
  simp only [not_or] at hends
  unfold betweenByte
  rw [if_neg hc.1, if_neg hc.2.1, if_neg hends.2.2.2.2, if_neg hends.2.2.2.1, if_neg hc.2.2,
    if_neg hsep, if_pos (by simpa using ho)]

/-- A primitive goes on up to a delimiter or the end of the text. -/
theorem firstToken_primitive (h : lexemes (m + 1) (c :: rest) = some (k :: ls))
    (hsep : isSeparator c = false) (hc : c ≠ 123 ∧ c ≠ 91 ∧ c ≠ 34) :
    FirstToken (m + 1) k ls (c :: rest) := by
  obtain ⟨hends, houtside⟩ := primitive_head h hsep hc
  have hscan := scanFrom_of_lexemes h
  rw [betweenByte_primitive _ _ hends houtside hc] at hscan
  have hrest : rest = rest.takeWhile (fun c => !endsPrimitive c) ++
      rest.dropWhile fun c => !endsPrimitive c := List.takeWhile_append_dropWhile.symm
  have hend := List.head?_dropWhile_not (fun c => !endsPrimitive c) rest
  have hbytes : ∀ c ∈ rest.takeWhile fun c => !endsPrimitive c, endsPrimitive c = false :=
    fun c hc => by simpa using List.mem_takeWhile_imp hc
  generalize rest.takeWhile (fun c => !endsPrimitive c) = t at hrest hbytes
  generalize rest.dropWhile (fun c => !endsPrimitive c) = u at hrest hend
  subst hrest
  have houtsides := primitive_bytes hbytes [c] hscan
  have htoken : PrimitiveToken (c :: t) := by
    refine ⟨by simp, fun c' hc' => ?_, fun c' hc' => ?_⟩
    · rcases List.mem_cons.1 hc' with rfl | hmem
      · exact ⟨hends, houtside⟩
      · exact ⟨hbytes c' hmem, houtsides c' hmem⟩
    · rw [List.head?_cons, Option.mem_some_iff] at hc'
      rw [← hc']
      exact hc
  have hu : StartsDelimited u := by
    intro c' hc'
    rw [Option.mem_def.1 hc'] at hend
    simpa using hend
  rw [← List.cons_append, lexemes_primitive htoken hu, Option.map_eq_some_iff] at h
  obtain ⟨ls', hls, heq⟩ := h
  obtain ⟨rfl, rfl⟩ := List.cons.inj heq
  exact .primitive rfl rfl htoken hu hls

end

/-- **The first token** of an accepted text has only separators before it. -/
theorem lexemes_cons {js : Bytes} {k : Lexeme} {ls : List Lexeme}
    (h : lexemes n js = some (k :: ls)) :
    ∃ sep js', js = sep ++ js' ∧ Separators sep ∧ FirstToken n k ls js' := by
  have hsplit : js = js.takeWhile isSeparator ++ js.dropWhile isSeparator :=
    List.takeWhile_append_dropWhile.symm
  have hsep : Separators (js.takeWhile isSeparator) := fun c hc => List.mem_takeWhile_imp hc
  refine ⟨_, _, hsplit, hsep, ?_⟩
  have hn := length_lexemes_le h
  obtain ⟨m, rfl⟩ : ∃ m, n = m + 1 := ⟨n - 1, by rw [List.length_cons] at hn; omega⟩
  rw [hsplit, lexemes_separators hsep] at h
  have hhead := List.head?_dropWhile_not isSeparator js
  generalize js.dropWhile isSeparator = js' at h hhead ⊢
  cases js' with
  | nil => simp [lexemes, scanText, Scan.start, Scan.finish] at h
  | cons c rest =>
    have hc : isSeparator c = false := by simpa using hhead
    by_cases hbracket : c = 123 ∨ c = 91
    · exact firstToken_bracket h hbracket
    by_cases hquote : c = 34
    · subst hquote
      exact firstToken_string h
    · rw [not_or] at hbracket
      exact firstToken_primitive h hc ⟨hbracket.1, hbracket.2, hquote⟩

section

variable {js : Bytes} {k : Lexeme} {ls : List Lexeme}

/-- A text whose first token is a string. -/
theorem lexemes_cons_string (h : lexemes n js = some (k :: ls)) (hk : k.kind = .string) :
    ∃ m sep rest, n = m + 1 ∧ js = sep ++ 34 :: (k.text ++ 34 :: rest) ∧ Separators sep ∧
      lexemes m rest = some ls := by
  obtain ⟨sep, js', rfl, hsep, hfirst⟩ := lexemes_cons h
  cases hfirst with
  | bracket hbracket => simp [hk] at hbracket
  | string hn _ hrest => exact ⟨_, sep, _, hn, rfl, hsep, hrest⟩
  | primitive _ hprimitive => simp [hk] at hprimitive

/-- A text whose first token is a primitive. -/
theorem lexemes_cons_primitive (h : lexemes n js = some (k :: ls)) (hk : k.kind = .primitive) :
    ∃ m sep rest, n = m + 1 ∧ js = sep ++ (k.text ++ rest) ∧ Separators sep ∧
      PrimitiveToken k.text ∧ StartsDelimited rest ∧ lexemes m rest = some ls := by
  obtain ⟨sep, js', rfl, hsep, hfirst⟩ := lexemes_cons h
  cases hfirst with
  | bracket hbracket => simp [hk] at hbracket
  | string _ hstring => simp [hk] at hstring
  | primitive hn _ htext hend hrest => exact ⟨_, sep, _, hn, rfl, hsep, htext, hend, hrest⟩

end

/-! ## Blanks at the end -/

/-- The modes outside of strings. -/
def Mode.NotInString (mode : Mode) : Prop :=
  mode = .between ∨ (∃ acc, mode = .primitive acc) ∨ ∃ e, mode = .failed e

theorem Mode.notInString_or (mode : Mode) : mode.NotInString ∨ ∃ acc, mode.InString acc := by
  cases mode with
  | between => exact .inl (.inl rfl)
  | primitive acc => exact .inl (.inr (.inl ⟨acc, rfl⟩))
  | failed e => exact .inl (.inr (.inr ⟨e, rfl⟩))
  | string acc hex => exact .inr ⟨acc, .inl ⟨hex, rfl⟩⟩
  | escape acc => exact .inr ⟨acc, .inr rfl⟩

/-- The end of the text is a state that blanks do not change. -/
theorem flush_blank (s : Scan) {w : Bytes} (hw : Blank w) :
    scanFrom n (s.flush n) w = s.flush n ∧ (s.flush n).flush n = s.flush n := by
  have hmode := flush_mode n s
  generalize s.flush n = t at hmode ⊢
  obtain ⟨mode, toks⟩ := t
  obtain rfl | ⟨e, rfl⟩ := hmode
  · exact ⟨scanFrom_blank n toks hw, rfl⟩
  · exact ⟨scanFrom_failed n e toks w, rfl⟩

theorem scanByte_blank {c : Byte} (hc : c = 32 ∨ c = 9 ∨ c = 10 ∨ c = 13) {mode : Mode}
    (hmode : mode.NotInString) (toks : List Lexeme) :
    scanByte n ⟨mode, toks⟩ c = (⟨mode, toks⟩ : Scan).flush n := by
  have hbyte : ∀ toks, betweenByte n toks c = ⟨.between, toks⟩ := by
    intro toks
    rcases hc with rfl | rfl | rfl | rfl <;> rfl
  have hends : endsPrimitive c = true := by rcases hc with rfl | rfl | rfl | rfl <;> rfl
  obtain rfl | ⟨acc, rfl⟩ | ⟨e, rfl⟩ := hmode
  · exact hbyte toks
  · rw [scanByte_primitive, if_pos hends]
    rcases Nat.lt_or_ge toks.length n with hlt | hge
    · rw [flush_primitive, addToken_of_lt hlt]
      exact hbyte _
    · rw [flush_primitive, addToken_of_le hge]
  · rfl

/-- Outside of strings, blanks do what the end of the text does. -/
theorem scanFrom_blanks {s : Scan} (hs : s.mode.NotInString) {w : Bytes} (hw : Blank w)
    (hne : w ≠ []) : scanFrom n s w = s.flush n := by
  cases w with
  | nil => exact absurd rfl hne
  | cons c w =>
    rw [scanFrom_cons, scanByte_blank (hw c (by simp)) hs]
    exact (flush_blank s fun c' hc' => hw c' (List.mem_cons_of_mem c hc')).1

/-- What follows blanks is scanned from the end of the text before them. -/
theorem scanText_append_blanks {js w : Bytes} (hjs : (34 : Byte) ∉ js) (hw : Blank w)
    (hne : w ≠ []) (u : Bytes) :
    scanText n (js ++ (w ++ u)) = (scanFrom n (scanText n js) u).flush n := by
  unfold scanText
  rw [scanFrom_append, scanFrom_append,
    scanFrom_blanks (scanFrom_quoteFree quoteFree_start hjs).mode hw hne]

/-- The tokens of a text that goes on behind blanks. -/
theorem lexemes_append_blanks {js w : Bytes} (hjs : (34 : Byte) ∉ js) (hw : Blank w)
    (hne : w ≠ []) {ls : List Lexeme} (hls : lexemes n js = some ls) (u : Bytes) :
    lexemes n (js ++ (w ++ u)) = (lexemes (n - ls.length) u).map (ls ++ ·) := by
  obtain ⟨htext, hclosed⟩ := lexemes_eq_some_iff.1 hls
  have hbase : ∀ l ∈ ls.reverse, l.isOpen = false := fun l hl => hclosed l (List.mem_reverse.1 hl)
  have hn : n = n - ls.length + ls.reverse.length := by
    have := length_lexemes_le hls
    rw [List.length_reverse]
    omega
  have habove : scanText n (js ++ (w ++ u)) = (scanText (n - ls.length) u).above ls.reverse := by
    rw [scanText_append_blanks hjs hw hne, htext]
    generalize n - ls.length = m at hn ⊢
    subst hn
    have hscan := scanFrom_above (n := m) hbase Scan.start u
    have hflush := @flush_above m ls.reverse (scanFrom m .start u)
    unfold scanText
    rw [← hflush, ← hscan]
    rfl
  rw [lexemes_of_above hbase habove, List.reverse_reverse]

/-- Blanks inside of a string do not end it. -/
theorem scanFrom_inString_blank {toks : List Lexeme} {w : Bytes} (hw : Blank w) :
    ∀ {mode : Mode} {acc : Bytes}, mode.InString acc →
      ∃ e, ((scanFrom n ⟨mode, toks⟩ w).flush n).mode = .failed e := by
  induction w with
  | nil =>
    intro mode acc hmode
    obtain ⟨hex, rfl⟩ | rfl := hmode
    · exact ⟨.part, rfl⟩
    · exact ⟨.part, rfl⟩
  | cons c w ih =>
    intro mode acc hmode
    rw [scanFrom_cons]
    obtain ⟨rfl, -⟩ | ⟨mode', hmode', hgo⟩ | ⟨e, hfail⟩ := scanByte_inString hmode toks c
    · have := hw 34 (by simp)
      simp at this
    · rw [hgo]
      exact ih (fun c' hc' => hw c' (List.mem_cons_of_mem c hc')) hmode'
    · rw [hfail, scanFrom_failed]
      exact ⟨e, rfl⟩

theorem lexemes_of_failed {js : Bytes} (h : ∃ e, (scanText n js).mode = .failed e) :
    lexemes n js = none := by
  obtain ⟨e, h⟩ := h
  unfold lexemes Scan.finish
  rw [h]

/-- Blanks at the end of a text do not matter. -/
theorem lexemes_append_blank {w : Bytes} (hw : Blank w) (js : Bytes) :
    lexemes n (js ++ w) = lexemes n js := by
  by_cases hne : w = []
  · rw [hne, List.append_nil]
  obtain hmode | ⟨acc, hmode⟩ := (scanFrom n .start js).mode.notInString_or
  · have htext : scanText n (js ++ w) = scanText n js := by
      unfold scanText
      rw [scanFrom_append, scanFrom_blanks hmode hw hne, (flush_blank _ hw).2]
    unfold lexemes
    rw [htext]
  · -- with or without the blanks, the text ends inside of a string
    have hend := @scanFrom_inString_blank n (scanFrom n .start js).toks [] (by simp [Blank]) _ _
      hmode
    have hmore := @scanFrom_inString_blank n (scanFrom n .start js).toks w hw _ _ hmode
    rw [@lexemes_of_failed n js hend, lexemes_of_failed]
    unfold scanText
    rw [scanFrom_append]
    exact hmore

/-- A text without tokens has delimiters only. -/
theorem endsPrimitive_of_lexemes_nil {js : Bytes} (h : lexemes n js = some []) :
    ∀ c ∈ js, endsPrimitive c = true := by
  have hspelled := lexemes_spelled h
  rw [List.reverse_nil] at hspelled
  clear h
  generalize hls : ([] : List Lexeme) = ls at hspelled
  induction hspelled with
  | nil => simp
  | delimiter _ hc ih =>
    intro c' hc'
    rcases List.mem_append.1 hc' with hmem | hmem
    · exact ih hls c' hmem
    · rw [List.mem_singleton.1 hmem]
      exact hc
  | token => cases hls

end TrackerDemo.Jsmn

import TrackerDemo.Jsmn.Refinement
import TrackerDemo.Lib.Json

/-!
# jsmn on JSON texts

jsmn accepts every JSON text that has no more tokens than the array, and finds
the tokens of its derivation in order.

Results:
* `scan_derives`: scanning a piece of JSON adds its tokens.
* `lexemes_of_derives`: the lexemes of a whole JSON text.
-/

namespace TrackerDemo.Jsmn

open TrackerDemo.CString TrackerDemo.Json

/-- The lexeme that a token of the grammar becomes. -/
def lexemeOf : Token → Lexeme
  | .object => ⟨.object, [], false⟩
  | .array => ⟨.array, [], false⟩
  | .string body => ⟨.string, body, false⟩
  | .primitive text => ⟨.primitive, text, false⟩

theorem lexemeOf_isOpen (t : Token) : (lexemeOf t).isOpen = false := by cases t <;> rfl

/-! ## Leaves -/

/-- A byte that may stand anywhere in a primitive. -/
def InPrimitive (c : Byte) : Prop :=
  endsPrimitive c = false ∧ outsidePrimitive c = false ∧ c ≠ 123 ∧ c ≠ 91 ∧ c ≠ 34

/-- An unquoted token: no bracket or quote begins it, and no separator, closing
    bracket or control character is in it. -/
structure PrimitiveToken (t : Text) : Prop where
  ne_nil : t ≠ []
  bytes : ∀ c ∈ t, endsPrimitive c = false ∧ outsidePrimitive c = false
  head : ∀ c ∈ t.head?, c ≠ 123 ∧ c ≠ 91 ∧ c ≠ 34

theorem primitiveToken_of_inPrimitive {t : Text} (hne : t ≠ []) (h : ∀ c ∈ t, InPrimitive c) :
    PrimitiveToken t where
  ne_nil := hne
  bytes c hc := ⟨(h c hc).1, (h c hc).2.1⟩
  head c hc := (h c (List.mem_of_mem_head? hc)).2.2

theorem PrimitiveToken.zero_notMem {t : Text} (h : PrimitiveToken t) : (0 : Byte) ∉ t := by
  intro hm
  have := (h.bytes 0 hm).2
  simp [outsidePrimitive] at this

theorem primitiveByte_spec {c : Byte} (h : IsPrimitiveByte c) : InPrimitive c := by
  unfold InPrimitive
  simp only [IsPrimitiveByte, IsDigit, UInt8.le_iff_toNat_le, ← UInt8.toNat_inj,
    UInt8.reduceToNat] at h
  simp only [endsPrimitive, isBlank, outsidePrimitive, decide_eq_false_iff_not, decide_eq_true_eq,
    UInt8.le_iff_toNat_le, UInt8.lt_iff_toNat_lt, ← UInt8.toNat_inj, UInt8.reduceToNat, ne_eq]
  omega

theorem isHex_of_hexDigit {c : Byte} (h : IsHexDigit c) : isHex c = true := decide_eq_true h

theorem isSimpleEscape_of_escaped {c : Byte} (h : IsEscaped c) : isSimpleEscape c = true := by
  unfold IsEscaped at h
  unfold isSimpleEscape
  rw [decide_eq_true_eq]
  tauto

theorem blank_spec {w : Text} (h : Blank w) {c : Byte} (hc : c ∈ w) : isBlank c = true := by
  have := h c hc
  unfold isBlank
  rw [decide_eq_true_eq]
  tauto

/-- The bytes that jsmn skips between tokens. -/
def isSeparator (c : Byte) : Bool := isBlank c ∨ c = 58 ∨ c = 44

/-- Only separators. -/
def Separators (sep : Bytes) : Prop := ∀ c ∈ sep, isSeparator c = true

theorem separators_of_blank {w : Bytes} (h : Blank w) : Separators w := by
  intro c hc
  unfold isSeparator
  rw [decide_eq_true_eq]
  exact .inl (blank_spec h hc)

section

variable (n : ℕ) (toks : List Lexeme)

theorem scanFrom_separators {sep : Bytes} (h : Separators sep) :
    scanFrom n ⟨.between, toks⟩ sep = ⟨.between, toks⟩ := by
  induction sep with
  | nil => rfl
  | cons c sep ih =>
    have hc : isSeparator c = true := h c (by simp)
    unfold isSeparator at hc
    rw [decide_eq_true_eq] at hc
    have hbyte : betweenByte n toks c = ⟨.between, toks⟩ := by
      unfold betweenByte isBlank at *
      rw [decide_eq_true_eq] at hc
      obtain (rfl | rfl | rfl | rfl) | rfl | rfl := hc <;> rfl
    rw [scanFrom_cons, scanByte_between, hbyte]
    exact ih fun c' hc' => h c' (List.mem_cons_of_mem c hc')

theorem scanFrom_blank {w : Text} (h : Blank w) :
    scanFrom n ⟨.between, toks⟩ w = ⟨.between, toks⟩ :=
  scanFrom_separators n toks (separators_of_blank h)

theorem scanFrom_primitiveBytes {t : Text}
    (h : ∀ c ∈ t, endsPrimitive c = false ∧ outsidePrimitive c = false) (acc : Bytes) :
    scanFrom n ⟨.primitive acc, toks⟩ t = ⟨.primitive (acc ++ t), toks⟩ := by
  induction t generalizing acc with
  | nil => simp
  | cons c t ih =>
    obtain ⟨he, ho⟩ := h c (by simp)
    rw [scanFrom_cons, scanByte_primitive, he, ho, if_neg (by decide), if_neg (by decide),
      ih fun c' hc' => h c' (List.mem_cons_of_mem c hc')]
    simp

/-- The byte that begins a primitive. -/
theorem betweenByte_primitive {c : Byte} (he : endsPrimitive c = false)
    (ho : outsidePrimitive c = false) (hc : c ≠ 123 ∧ c ≠ 91 ∧ c ≠ 34) :
    betweenByte n toks c = ⟨.primitive [c], toks⟩ := by
  unfold endsPrimitive at he
  rw [decide_eq_false_iff_not] at he
  simp only [not_or] at he
  unfold betweenByte
  rw [if_neg hc.1, if_neg hc.2.1, if_neg he.2.2.2.2, if_neg he.2.2.2.1, if_neg hc.2.2,
    if_neg (by tauto), if_neg (by rw [ho]; decide)]

/-- An unquoted token is one primitive. -/
theorem scanFrom_primitiveToken {t : Text} (h : PrimitiveToken t) :
    scanFrom n ⟨.between, toks⟩ t = ⟨.primitive t, toks⟩ := by
  cases t with
  | nil => exact absurd rfl h.ne_nil
  | cons c t =>
    obtain ⟨he, ho⟩ := h.bytes c (by simp)
    rw [scanFrom_cons, scanByte_between, betweenByte_primitive n toks he ho (h.head c (by simp))]
    exact scanFrom_primitiveBytes n toks (fun c' hc' => h.bytes c' (List.mem_cons_of_mem c hc')) [c]

/-- The characters of a string stay inside of it. -/
theorem scanFrom_stringBody {b : Text} (h : StringBody b) (acc : Bytes) :
    scanFrom n ⟨.string acc 0, toks⟩ b = ⟨.string (acc ++ b) 0, toks⟩ := by
  induction h generalizing acc with
  | nil => simp
  | plain hc hq hb _ ih =>
    rw [scanFrom_cons, scanByte_string, if_neg hq, if_neg hb, ih]
    simp
  | escape hc _ ih =>
    rw [scanFrom_cons, scanByte_string, if_neg (by decide), if_pos rfl, scanFrom_cons,
      scanByte_escape, if_pos (isSimpleEscape_of_escaped hc), ih]
    simp
  | unicode ha hb hc hd _ ih =>
    rw [scanFrom_cons, scanByte_string, if_neg (by decide), if_pos rfl, scanFrom_cons,
      scanByte_escape, if_neg (by decide), if_pos rfl]
    rw [scanFrom_cons, scanByte_string_succ, if_pos (isHex_of_hexDigit ha),
      scanFrom_cons, scanByte_string_succ, if_pos (isHex_of_hexDigit hb),
      scanFrom_cons, scanByte_string_succ, if_pos (isHex_of_hexDigit hc),
      scanFrom_cons, scanByte_string_succ, if_pos (isHex_of_hexDigit hd), ih]
    simp

/-- A quoted string adds its token. -/
theorem scanFrom_quoted {b : Text} (h : StringBody b) :
    scanFrom n ⟨.between, toks⟩ (34 :: (b ++ [34])) = addToken n toks ⟨.string, b, false⟩ := by
  rw [scanFrom_cons]
  show scanFrom n ⟨.string [] 0, toks⟩ (b ++ [34]) = _
  rw [scanFrom_append, scanFrom_stringBody n toks h, scanFrom_cons, scanByte_string, if_pos rfl]
  rfl

end

/-! ## Derivations -/

/-- The bytes `t` add the lexemes of `ts`, if there is room for them and `t` is
    followed by a delimiter or nothing. -/
def Adds (n : ℕ) (t : Bytes) (ts : List Token) : Prop :=
  ∀ (toks : List Lexeme) (u : Bytes), toks.length + ts.length ≤ n →
    (∀ c ∈ u.head?, endsPrimitive c = true) →
    (scanFrom n ⟨.between, toks⟩ (t ++ u)).flush n =
      (scanFrom n ⟨.between, (ts.map lexemeOf).reverse ++ toks⟩ u).flush n

variable {n : ℕ}

/-- A byte that starts an object or array, its content, and the byte that closes
    it. -/
theorem Adds.bracket {t : Bytes} {ts : List Token} (h : Adds n t ts) {tok : Token} {o c : Byte}
    (ho : ∀ toks, betweenByte n toks o = addToken n toks { lexemeOf tok with isOpen := true })
    (hc : ∀ toks, betweenByte n toks c = closeToken toks (lexemeOf tok).kind)
    (hd : endsPrimitive c = true) : Adds n (o :: (t ++ [c])) (tok :: ts) := by
  intro toks u hlen _
  rw [List.length_cons] at hlen
  have hopen : addToken n toks { lexemeOf tok with isOpen := true } =
      ⟨.between, { lexemeOf tok with isOpen := true } :: toks⟩ := addToken_of_lt (by omega) _
  have hclosed : { lexemeOf tok with isOpen := false } = lexemeOf tok := by cases tok <;> rfl
  have hclose : closeToken
      ((ts.map lexemeOf).reverse ++ { lexemeOf tok with isOpen := true } :: toks)
      (lexemeOf tok).kind = ⟨.between, (ts.map lexemeOf).reverse ++ lexemeOf tok :: toks⟩ := by
    refine closeToken_eq ?_
    have hpre : ∀ l ∈ (ts.map lexemeOf).reverse, l.isOpen = false := by
      intro l hl
      obtain ⟨t', -, rfl⟩ := List.mem_map.1 (List.mem_reverse.1 hl)
      exact lexemeOf_isOpen t'
    have := closeLast_append hpre (l := { lexemeOf tok with isOpen := true }) rfl toks
    dsimp only at this
    rw [hclosed] at this
    exact this
  rw [List.cons_append, scanFrom_cons, scanByte_between, ho, hopen, List.append_assoc,
    h _ ([c] ++ u) (by rw [List.length_cons]; omega) (by simpa using hd)]
  rw [List.singleton_append, scanFrom_cons, scanByte_between, hc, hclose]
  simp

theorem Adds.nil_of_blank {w : Text} (h : Blank w) : Adds n w [] := by
  intro toks u _ _
  rw [scanFrom_append, scanFrom_blank n toks h]
  rfl

/-- Two pieces, of which the second starts with a delimiter. -/
theorem Adds.append {t t' : Bytes} {ts ts' : List Token} (h : Adds n t ts) (h' : Adds n t' ts')
    (hd : ∀ u : Bytes, (∀ c ∈ u.head?, endsPrimitive c = true) →
      ∀ c ∈ (t' ++ u).head?, endsPrimitive c = true) : Adds n (t ++ t') (ts ++ ts') := by
  intro toks u hlen hu
  rw [List.length_append] at hlen
  rw [List.append_assoc, h toks (t' ++ u) (by omega) (hd u hu),
    h' _ u (by rw [List.length_append, List.length_reverse, List.length_map]; omega) hu]
  simp

/-- Blanks in front. -/
theorem Adds.blank_append {w t : Bytes} {ts : List Token} (h : Adds n t ts) (hw : Blank w) :
    Adds n (w ++ t) ts := by
  intro toks u hlen hu
  rw [List.append_assoc, scanFrom_append, scanFrom_blank n toks hw]
  exact h toks u hlen hu

/-- A separator in front. -/
theorem Adds.separator {t : Bytes} {ts : List Token} (h : Adds n t ts) {c : Byte}
    (hc : c = 58 ∨ c = 44) : Adds n (c :: t) ts := by
  intro toks u hlen hu
  have hbyte : betweenByte n toks c = ⟨.between, toks⟩ := by
    rcases hc with rfl | rfl <;> rfl
  rw [List.cons_append, scanFrom_cons, scanByte_between, hbyte]
  exact h toks u hlen hu

theorem adds_primitiveToken {t : Text} (h : PrimitiveToken t) : Adds n t [.primitive t] := by
  intro toks u hlen hu
  rw [scanFrom_append, scanFrom_primitiveToken n toks h, scan_primitive_end n toks t hu,
    addToken_of_lt hlen]
  rfl

theorem adds_inPrimitive {t : Text} (hne : t ≠ []) (h : ∀ c ∈ t, InPrimitive c) :
    Adds n t [.primitive t] := adds_primitiveToken (primitiveToken_of_inPrimitive hne h)

/-- A primitive of the grammar is one primitive of the scanner. -/
theorem adds_primitive {t : Text} (h : Primitive t) : Adds n t [.primitive t] :=
  adds_inPrimitive h.bytes.1 fun c hc => primitiveByte_spec (h.bytes.2 c hc)

theorem adds_quoted {b : Text} (h : StringBody b) : Adds n (34 :: (b ++ [34])) [.string b] := by
  intro toks u hlen _
  rw [scanFrom_append, scanFrom_quoted n toks h, addToken_of_lt hlen]
  rfl

theorem head?_append_of_blank {w u : Bytes} (h : Blank w)
    (hu : ∀ c ∈ u.head?, endsPrimitive c = true) :
    ∀ c ∈ (w ++ u).head?, endsPrimitive c = true := by
  cases w with
  | nil => exact hu
  | cons c w =>
    intro c' hc'
    rw [List.cons_append, List.head?_cons, Option.mem_some_iff] at hc'
    subst hc'
    simp [endsPrimitive, blank_spec h (c := c) (by simp)]

/-- **jsmn on JSON.** Scanning a piece of a JSON text adds its tokens. -/
theorem scan_derives {s : Nonterminal} {t : Text} {ts : List Token} (h : Derives s t ts) :
    Adds n t ts := by
  induction h with
  | primitive hp => exact adds_primitive hp
  | string hb => exact adds_quoted hb
  | emptyArray hw =>
    exact (Adds.nil_of_blank hw).bracket (fun _ => rfl) (fun _ => rfl) rfl
  | array _ ih => exact ih.bracket (fun _ => rfl) (fun _ => rfl) rfl
  | emptyObject hw => exact (Adds.nil_of_blank hw).bracket (fun _ => rfl) (fun _ => rfl) rfl
  | object _ ih => exact ih.bracket (fun _ => rfl) (fun _ => rfl) rfl
  | element hw _ hw' ih =>
    have hvalue := ih.append (Adds.nil_of_blank hw') fun u => head?_append_of_blank hw'
    rw [List.append_nil] at hvalue
    exact hvalue.blank_append hw
  | oneElement _ ih => exact ih
  | moreElements _ _ ih ih' =>
    exact ih.append (ih'.separator (.inr rfl)) fun u _ c hc => by
      rw [List.cons_append, List.head?_cons, Option.mem_some_iff] at hc
      rw [← hc]
      rfl
  | @member w b w' t ts hw hb hw' _ ih =>
    have hvalue : Adds n (w' ++ 58 :: t) ts := (ih.separator (.inl rfl)).blank_append hw'
    have hpair := (adds_quoted hb).append hvalue fun u _ => by
      rw [List.append_assoc, List.cons_append]
      exact head?_append_of_blank hw' fun c hc => by
        rw [List.head?_cons, Option.mem_some_iff] at hc
        rw [← hc]
        rfl
    have := hpair.blank_append hw
    simpa using this
  | oneMember _ ih => exact ih
  | moreMembers _ _ ih ih' =>
    exact ih.append (ih'.separator (.inr rfl)) fun u _ c hc => by
      rw [List.cons_append, List.head?_cons, Option.mem_some_iff] at hc
      rw [← hc]
      rfl

/-- The lexemes of a text that adds not too many tokens. -/
theorem lexemes_of_adds {t : Text} {ts : List Token} (h : Adds n t ts) (hn : ts.length ≤ n) :
    lexemes n t = some (ts.map lexemeOf) := by
  have hscan := h [] [] (by simpa using hn) (by simp)
  rw [List.append_nil, scanFrom_nil, flush_between, List.append_nil] at hscan
  refine lexemes_eq_some_iff.2 ⟨hscan, fun l hl => ?_⟩
  obtain ⟨t', -, rfl⟩ := List.mem_map.1 hl
  exact lexemeOf_isOpen t'

/-- The lexemes of a JSON text that has not too many tokens. -/
theorem lexemes_of_derives {s : Nonterminal} {t : Text} {ts : List Token} (h : Derives s t ts)
    (hn : ts.length ≤ n) : lexemes n t = some (ts.map lexemeOf) :=
  lexemes_of_adds (scan_derives h) hn

end TrackerDemo.Jsmn

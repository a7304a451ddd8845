import TrackerDemo.Config.KeyValueLines

/-!
# Lines that configure something

The note at the top of the configuration file says that parsing relies on
`"Key" : Value` to tell whether a line has configuration information. jsmn is not
strict: between two tokens it skips blanks, colons and commas alike.

Results:
* `lineAssignment_of_keyThenValue`, `keyThenValue_of_lineAssignment`: the lines
  that assign a parameter.
* `KeyThenValue.unique`: a line is read in one way.
* `formatOnly_iff`: the lines on which the reader keeps to the format.
-/

namespace TrackerDemo.Config

open TrackerDemo.CString TrackerDemo.Jsmn TrackerDemo.TextLines TrackerDemo.Json

/-! ## The format -/

/-- The text begins with a quoted name and an unquoted value, and nothing but
    separators stands before and between them. -/
structure KeyThenValue (text before : Bytes) (name : String) (between value rest : Bytes) :
    Prop where
  text_eq : text = before ++ 34 :: (ascii name ++ 34 :: (between ++ (value ++ rest)))
  before_separators : Separators before
  between_separators : Separators between
  value_token : PrimitiveToken value
  rest_delimited : StartsDelimited rest

/-- The separators of the documented format: whitespace, and one colon behind the
    key. -/
def Documented (before between : Bytes) : Prop :=
  Blank before ∧ ∃ w w', between = w ++ 58 :: w' ∧ Blank w ∧ Blank w'

/-- The text begins with `"Key" : Value`. -/
def BeginsWithPair (text : Bytes) (name : String) (value : Bytes) : Prop :=
  ∃ before between rest, KeyThenValue text before name between value rest ∧
    Documented before between

/-- Only a `"Key" : Value` line configures anything: what the line assigns is the
    value of such a pair, and any other line leaves the parameters unchanged. -/
structure FormatOnly (r : Reader) (line : Bytes) : Prop where
  assigns : ∀ a, r.lineAssignment line = some (some a) →
    ∃ name, (name, a.branch) ∈ branches ∧ BeginsWithPair (cString line) name a.parameterValue
  others : (∀ name b value, (name, b) ∈ branches → ¬BeginsWithPair (cString line) name value) →
    ∀ p, readLines [line] (r, p) = some (r.next line, p)

/-- jsmn accepts the line, a parameter's name and a value come first, and they are
    separated in another way than documented. -/
def Loose (line : Bytes) : Prop :=
  ∃ before name b between value rest, (name, b) ∈ branches ∧
    KeyThenValue (cString line) before name between value rest ∧ (lexemes 8 rest).isSome ∧
      ¬Documented before between

/-! ## Reading a line in one way -/

/-- Where the bytes before the first one without `p` end. -/
theorem eq_of_append_cons {p : Byte → Bool} {a b u v : Bytes} {c d : Byte}
    (ha : ∀ x ∈ a, p x = true) (hb : ∀ x ∈ b, p x = true) (hc : p c = false) (hd : p d = false)
    (h : a ++ c :: u = b ++ d :: v) : a = b ∧ c :: u = d :: v := by
  have htake : ∀ {a u : Bytes} {c}, (∀ x ∈ a, p x = true) → p c = false →
      (a ++ c :: u).takeWhile p = a := by
    intro a u c ha hc
    rw [List.takeWhile_append_of_pos ha, List.takeWhile_cons_of_neg (by simp [hc]),
      List.append_nil]
  have hab : a = b := by rw [← @htake a u c ha hc, h, htake hb hd]
  subst hab
  exact ⟨rfl, List.append_cancel_left h⟩

theorem not_separator_of_token {value : Bytes} (h : PrimitiveToken value) :
    ∃ c u, value = c :: u ∧ isSeparator c = false := by
  cases value with
  | nil => exact absurd rfl h.ne_nil
  | cons c u =>
    refine ⟨c, u, rfl, ?_⟩
    have hends := (h.bytes c (by simp)).1
    unfold endsPrimitive at hends
    unfold isSeparator
    rw [decide_eq_false_iff_not] at hends ⊢
    tauto

theorem KeyThenValue.unique {text before before' between between' value value' rest rest' : Bytes}
    {name name' : String} {b b' : Branch} (hname : (name, b) ∈ branches)
    (hname' : (name', b') ∈ branches) (h : KeyThenValue text before name between value rest)
    (h' : KeyThenValue text before' name' between' value' rest') :
    before = before' ∧ between = between' := by
  have hquote : ∀ {name b}, (name, b) ∈ branches → ∀ c ∈ ascii name, (c != 34) = true := by
    intro name b hmem c hc
    simpa using ((branches_plain _ hmem).1 c hc).2.1
  have heq := h.text_eq.symm.trans h'.text_eq
  obtain ⟨hbefore, heq⟩ :=
    eq_of_append_cons h.before_separators h'.before_separators rfl rfl heq
  obtain ⟨-, heq⟩ := eq_of_append_cons (hquote hname) (hquote hname') rfl rfl
    (List.cons.inj heq).2
  obtain ⟨c, u, hvalue, hc⟩ := not_separator_of_token h.value_token
  obtain ⟨c', u', hvalue', hc'⟩ := not_separator_of_token h'.value_token
  have htail := (List.cons.inj heq).2
  rw [hvalue, hvalue', List.cons_append, List.cons_append] at htail
  obtain ⟨hbetween, -⟩ := eq_of_append_cons h.between_separators h'.between_separators hc hc' htail
  exact ⟨hbefore, hbetween⟩

/-! ## The lines that assign a parameter -/

section

variable {r : Reader} {line : Bytes}

/-- A line with a name, a value and an accepted rest assigns the value. -/
theorem lineAssignment_of_keyThenValue (hlen : line.length < maxParameterTextLength)
    {before between value rest : Bytes} {name : String} {b : Branch}
    (hname : (name, b) ∈ branches)
    (h : KeyThenValue (cString line) before name between value rest)
    (hrest : (lexemes 8 rest).isSome) :
    r.lineAssignment line = some (some ⟨b, value, value.length⟩) := by
  obtain ⟨ls, hls⟩ := Option.isSome_iff_exists.1 hrest
  have htokens : lexemes maxParseTokens (cString line) =
      some (⟨.string, ascii name, false⟩ :: ⟨.primitive, value, false⟩ :: ls) := by
    rw [h.text_eq, lexemes_separators h.before_separators]
    show lexemes (8 + 1 + 1) _ = _
    rw [lexemes_quoted (stringBody_of_plain (branches_plain _ hname).1),
      lexemes_separators h.between_separators,
      lexemes_primitive h.value_token h.rest_delimited, hls]
    rfl
  have hpair : pairAssignment ⟨.string, ascii name, false⟩ ⟨.primitive, value, false⟩ =
      some ⟨b, value, value.length⟩ :=
    (pairAssignment_eq_some_iff rfl).2 ⟨rfl, b, branchOf_name _ hname, rfl⟩
  rw [lineAssignment_eq hlen, htokens]
  exact congrArg some hpair

/-- With fresh tokens, no other line assigns anything. -/
theorem keyThenValue_of_lineAssignment (hr : r.Fresh) (hlen : line.length < maxParameterTextLength)
    {a : Assignment} (ha : r.lineAssignment line = some (some a)) :
    ∃ before name between rest, (name, a.branch) ∈ branches ∧
      KeyThenValue (cString line) before name between a.parameterValue rest ∧
        (lexemes 8 rest).isSome := by
  rw [lineAssignment_eq hlen] at ha
  match hls : lexemes maxParseTokens (cString line) with
  | none =>
    rw [hls] at ha
    cases Option.some.inj ha
  | some [] =>
    rw [hls] at ha
    cases Option.some.inj ha
  | some [k] =>
    -- the second token has no type yet
    rw [hls] at ha
    dsimp only at ha
    unfold staleAssignment at ha
    rw [hr.undefined 1, if_neg (by simp)] at ha
    cases Option.some.inj ha
  | some (k :: v :: ls) =>
    rw [hls] at ha
    have hpair : pairAssignment k v = some a := Option.some.inj ha
    have hk : k.kind = .string := by
      by_contra hk
      unfold pairAssignment at hpair
      rw [if_neg fun h => hk h.1] at hpair
      cases hpair
    obtain ⟨hv, b, hb, rfl⟩ := (pairAssignment_eq_some_iff hk).1 hpair
    obtain ⟨m, before, tail, hm, htext, hbefore, htail⟩ := lexemes_cons_string hls hk
    obtain ⟨m', between, rest, hm', rfl, hbetween, htoken, hend, hrest⟩ :=
      lexemes_cons_primitive htail hv
    obtain rfl : m' = 8 := by
      unfold maxParseTokens at hm
      omega
    have hkey : k.text.length < maxParameterTextLength := by
      have hle := length_cString_le line
      rw [htext] at hle
      simp only [List.length_append, List.length_cons] at hle
      omega
    obtain ⟨name, hname, hkeyText⟩ := mem_branches_of_branchOf hkey hb
    rw [hkeyText] at htext
    exact ⟨before, name, between, rest, hname, ⟨htext, hbefore, hbetween, htoken, hend⟩,
      by rw [hrest]; rfl⟩

/-- **The format.** With fresh tokens, the reader keeps to `"Key" : Value` on
    exactly the lines that are not loose. -/
theorem formatOnly_iff (hr : r.Fresh) (hlen : line.length < maxParameterTextLength) :
    FormatOnly r line ↔ ¬Loose line := by
  constructor
  · rintro hformat ⟨before, name, b, between, value, rest, hname, hpair, hrest, hloose⟩
    have hassign := lineAssignment_of_keyThenValue (r := r) hlen hname hpair hrest
    obtain ⟨name', hname', before', between', rest', hpair', hdoc⟩ := hformat.assigns _ hassign
    obtain ⟨rfl, rfl⟩ := hpair.unique hname hname' hpair'
    exact hloose hdoc
  · intro hloose
    have hassigns : ∀ a, r.lineAssignment line = some (some a) →
        ∃ name, (name, a.branch) ∈ branches ∧
          BeginsWithPair (cString line) name a.parameterValue := by
      intro a ha
      obtain ⟨before, name, between, rest, hname, hpair, hrest⟩ :=
        keyThenValue_of_lineAssignment hr hlen ha
      refine ⟨name, hname, before, between, rest, hpair, ?_⟩
      by_contra hdoc
      exact hloose ⟨before, name, a.branch, between, a.parameterValue, rest, hname, hpair, hrest,
        hdoc⟩
    refine ⟨hassigns, fun hothers p => ?_⟩
    obtain ⟨a, ha, -⟩ := lineAssignment_of_buffersSafe hr.buffersSafe hlen
    cases a with
    | none => exact readLines_of_none ha p
    | some a =>
      obtain ⟨name, hname, hpair⟩ := hassigns a ha
      exact absurd hpair (hothers name _ _ hname)

end

theorem formatOnly_iff_portLine :
    FormatOnly .zeroed (ascii "\"MQTT_PORT\" : 1883\n") ↔
      ¬Loose (ascii "\"MQTT_PORT\" : 1883\n") :=
  formatOnly_iff fresh_zeroed (by decide)

/-- No colon. -/
def colonlessLine : Bytes := ascii "\"MQTT_PORT\" 1883\n"

/-- It sets the port. -/
theorem colonlessLine_not_formatOnly :
    ¬∀ (r : Reader) (line : Bytes), r.Fresh → line.length < maxParameterTextLength →
      FormatOnly r line := by
  intro h
  have hformat := h .zeroed colonlessLine fresh_zeroed (by decide)
  have hlone : ¬LoneString colonlessLine := by decide
  have htext : textAssignment colonlessLine = some ⟨.int .mqttPort, ascii "1883", 4⟩ := by decide
  have hassign := @lineAssignment_of_not_loneString .zeroed colonlessLine (by decide) hlone
  rw [htext] at hassign
  obtain ⟨name, -, before, between, rest, hpair, -, w, w', hcolon, -⟩ := hformat.assigns _ hassign
  have hmem : (58 : Byte) ∈ cString colonlessLine := by
    rw [hpair.text_eq, hcolon]
    simp
  exact absurd hmem (by decide)

end TrackerDemo.Config

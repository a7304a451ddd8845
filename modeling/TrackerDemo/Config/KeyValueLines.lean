import TrackerDemo.Config.Buffers
import TrackerDemo.Config.ParameterLines

/-!
# Lines with a key and any value

A parameter line whose value is free text: the documented format asks only that
it has no quotes. jsmn may see several tokens in such a value, or none.

Results:
* `KeyValueLine.lexemes_text`: the key is the first token of the line.
* `KeyValueLine.lineAssignment_text`: a line acts by the first token behind its
  colon.
* `lineAssignment_plain`: blanks and a newline at its end do not matter.
-/

namespace TrackerDemo.Config

open TrackerDemo.CString TrackerDemo.Jsmn TrackerDemo.TextLines TrackerDemo.Json

/-! ## Lines -/

/-- Printable characters, but no blanks and quotes. -/
def ValueBytes (value : Bytes) : Prop := ∀ c ∈ value, 32 < c ∧ c < 127 ∧ c ≠ 34

instance (value : Bytes) : Decidable (ValueBytes value) :=
  List.decidableBAll (fun c => 32 < c ∧ c < 127 ∧ c ≠ 34) value

/-- `"Key" : Value`, where the value is any printable text without blanks and
    quotes. -/
structure KeyValueLine where
  indent : Bytes
  key : Bytes
  beforeColon : Bytes
  afterColon : Bytes
  value : Bytes
  indent_blank : LineBlank indent
  key_plain : ∀ c ∈ key, 32 ≤ c ∧ c ≠ 34 ∧ c ≠ 92
  beforeColon_blank : LineBlank beforeColon
  afterColon_blank : LineBlank afterColon
  value_ne_nil : value ≠ []
  value_bytes : ValueBytes value

theorem lineBlank_nil : LineBlank [] := by decide

theorem lineBlank_space : LineBlank [32] := by decide

def KeyValueLine.text (l : KeyValueLine) : Bytes :=
  l.indent ++ 34 :: (l.key ++ 34 :: (l.beforeColon ++ 58 :: (l.afterColon ++ l.value)))

/-! ## What a key is assigned -/

theorem pairAssignment_eq_none_iff {k v : Lexeme} (hk : k.kind = .string) :
    pairAssignment k v = none ↔ v.kind ≠ .primitive ∨ branchOf k.text = none := by
  unfold pairAssignment
  by_cases hv : v.kind = .primitive
  · rw [if_pos ⟨hk, hv⟩]
    simp [hv]
  · rw [if_neg fun h => hv h.2]
    simp [hv]

theorem pairAssignment_eq_some_iff {k v : Lexeme} (hk : k.kind = .string) {a : Assignment} :
    pairAssignment k v = some a ↔ v.kind = .primitive ∧
      ∃ b, branchOf k.text = some b ∧ a = ⟨b, v.text, v.text.length⟩ := by
  unfold pairAssignment
  by_cases hv : v.kind = .primitive
  · rw [if_pos ⟨hk, hv⟩, Option.map_eq_some_iff]
    simp [hv, eq_comm]
  · rw [if_neg fun h => hv h.2]
    simp [hv]

/-- What a key is assigned by the tokens behind it, and without any of them. -/
def keyAssignment (key : Bytes) (stale : Option (Option Assignment)) :
    Option (List Lexeme) → Option (Option Assignment)
  | some (v :: _) => some (pairAssignment ⟨.string, key, false⟩ v)
  | some [] => stale
  | none => some none

section

variable {key : Bytes} {stale : Option (Option Assignment)}

@[simp] theorem keyAssignment_cons (v : Lexeme) (vs : List Lexeme) :
    keyAssignment key stale (some (v :: vs)) =
      some (pairAssignment ⟨.string, key, false⟩ v) := rfl

@[simp] theorem keyAssignment_nil : keyAssignment key stale (some []) = stale := rfl

@[simp] theorem keyAssignment_none : keyAssignment key stale none = some none := rfl

theorem keyAssignment_eq_some_iff {ls : Option (List Lexeme)} {a : Assignment} :
    keyAssignment key stale ls = some (some a) ↔
      (∃ v vs, ls = some (v :: vs) ∧ pairAssignment ⟨.string, key, false⟩ v = some a) ∨
        (ls = some [] ∧ stale = some (some a)) := by
  match ls with
  | some (v :: vs) => simp
  | some [] => simp
  | none => simp

/-- A key without a parameter is assigned nothing. -/
theorem keyAssignment_of_branchOf_none (hkey : branchOf key = none) (hstale : stale = some none)
    (ls : Option (List Lexeme)) : keyAssignment key stale ls = some none := by
  match ls with
  | some (v :: vs) =>
    rw [keyAssignment_cons, (pairAssignment_eq_none_iff rfl).2 (.inr hkey)]
  | some [] => exact hstale
  | none => rfl

end

/-! ## What a line acts by -/

namespace KeyValueLine

variable (l : KeyValueLine) {n : ℕ}

theorem zero_notMem_text : (0 : Byte) ∉ l.text := by
  have hkey : (0 : Byte) ∉ l.key := fun hc => absurd (l.key_plain 0 hc).1 (by decide)
  have hvalue : (0 : Byte) ∉ l.value := fun hc => absurd (l.value_bytes 0 hc).1 (by decide)
  simp [text, l.indent_blank.blank.zero_notMem, l.beforeColon_blank.blank.zero_notMem,
    l.afterColon_blank.blank.zero_notMem, hkey, hvalue]

theorem quote_notMem_value : (34 : Byte) ∉ l.value := fun hc => (l.value_bytes 34 hc).2.2 rfl

/-- The key is the first token of the line, the others stand behind the colon. -/
theorem lexemes_text (tail : Bytes) :
    lexemes (n + 1) (l.text ++ tail) =
      (lexemes n (l.value ++ tail)).map (⟨.string, l.key, false⟩ :: ·) := by
  have hsplit : l.text ++ tail = l.indent ++ 34 :: (l.key ++ 34 ::
      ((l.beforeColon ++ 58 :: l.afterColon) ++ (l.value ++ tail))) := by
    simp [text]
  rw [hsplit, lexemes_separators (separators_of_blank l.indent_blank.blank),
    lexemes_quoted (stringBody_of_plain l.key_plain),
    lexemes_separators (separators_colon l.beforeColon_blank.blank l.afterColon_blank.blank)]

/-- A line acts by the first token behind its colon. -/
theorem lineAssignment_text {r : Reader} {tail : Bytes} (h0 : (0 : Byte) ∉ tail)
    (hlen : (l.text ++ tail).length < maxParameterTextLength) :
    r.lineAssignment (l.text ++ tail) =
      keyAssignment l.key (staleAssignment (fgetsInto r.configLine (l.text ++ tail)) (r.tokens 1)
        ⟨.string, l.key, false⟩) (lexemes 9 (l.value ++ tail)) := by
  have htext : (0 : Byte) ∉ l.text ++ tail := by simp [l.zero_notMem_text, h0]
  have htokens : lexemes maxParseTokens (l.text ++ tail) = _ := l.lexemes_text tail
  rw [lineAssignment_eq hlen, cString_eq_self htext, htokens]
  match lexemes 9 (l.value ++ tail) with
  | some (v :: vs) => rfl
  | some [] => rfl
  | none => rfl

end KeyValueLine

/-! ## The end of a line -/

section

variable {l : KeyValueLine} {trailing nl : Bytes} {r : Reader}

theorem blank_of_nl (h : nl = [] ∨ nl = [10]) : Blank nl := by
  obtain rfl | rfl := h <;> simp [Blank]

/-- Nothing behind the value but blanks. -/
theorem lexemes_value_blank (ht : LineBlank trailing) (hnl : nl = [] ∨ nl = [10]) (n : ℕ) :
    lexemes n (l.value ++ (trailing ++ nl)) = lexemes n l.value :=
  lexemes_append_blank (ht.blank.append (blank_of_nl hnl)) l.value

/-- A line that ends behind its value. -/
theorem lineAssignment_plain (ht : LineBlank trailing) (hnl : nl = [] ∨ nl = [10])
    (hlen : (l.text ++ (trailing ++ nl)).length < maxParameterTextLength) :
    r.lineAssignment (l.text ++ (trailing ++ nl)) =
      keyAssignment l.key (staleAssignment (fgetsInto r.configLine (l.text ++ (trailing ++ nl)))
        (r.tokens 1) ⟨.string, l.key, false⟩) (lexemes 9 l.value) := by
  have h0 : (0 : Byte) ∉ trailing ++ nl := by
    simp [ht.blank.zero_notMem, (blank_of_nl hnl).zero_notMem]
  rw [l.lineAssignment_text h0 hlen, lexemes_value_blank ht hnl]

end

end TrackerDemo.Config

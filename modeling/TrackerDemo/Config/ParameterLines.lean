import TrackerDemo.Config.LineEffects
import TrackerDemo.Jsmn.FirstTokens

/-!
# The documented lines of the configuration file

The header of the configuration file allows parameter lines `"Key" : Value` and
comment lines `//`. Each kind of line is a structure that carries its syntax.

Results:
* `ParameterLine.lexemes_text`: a parameter line has two lexemes.
* `CommentLine.textAssignment_text`: a comment line assigns nothing.
* `lineAssignments_fileText`: what a file of such lines is decoded to.
-/

namespace TrackerDemo.Config

open TrackerDemo.CString TrackerDemo.Jsmn TrackerDemo.TextLines TrackerDemo.Json

/-! ## Lines -/

/-- Spaces, tabs and carriage returns. -/
def LineBlank (w : Bytes) : Prop := ∀ c ∈ w, c = 32 ∨ c = 9 ∨ c = 13

/-- Letters, digits, `.`, `-`, `/` and `_`. -/
def IsValueByte (c : Byte) : Prop :=
  c = 45 ∨ c = 46 ∨ c = 47 ∨ c = 95 ∨ (48 ≤ c ∧ c ≤ 57) ∨ (65 ≤ c ∧ c ≤ 90) ∨ (97 ≤ c ∧ c ≤ 122)

instance (w : Bytes) : Decidable (LineBlank w) :=
  List.decidableBAll (fun c => c = 32 ∨ c = 9 ∨ c = 13) w

instance : DecidablePred IsValueByte := fun c =>
  inferInstanceAs (Decidable (c = 45 ∨ c = 46 ∨ c = 47 ∨ c = 95 ∨ (48 ≤ c ∧ c ≤ 57) ∨
    (65 ≤ c ∧ c ≤ 90) ∨ (97 ≤ c ∧ c ≤ 122)))

/-- `"Key" : Value` with blanks around its parts. -/
structure ParameterLine where
  indent : Bytes
  key : Bytes
  beforeColon : Bytes
  afterColon : Bytes
  value : Bytes
  trailing : Bytes
  indent_blank : LineBlank indent
  key_plain : ∀ c ∈ key, 32 ≤ c ∧ c ≠ 34 ∧ c ≠ 92
  beforeColon_blank : LineBlank beforeColon
  afterColon_blank : LineBlank afterColon
  value_ne_nil : value ≠ []
  value_bytes : ∀ c ∈ value, IsValueByte c
  trailing_blank : LineBlank trailing

def ParameterLine.text (l : ParameterLine) : Bytes :=
  l.indent ++ ((34 :: (l.key ++ [34])) ++
    (l.beforeColon ++ 58 :: (l.afterColon ++ (l.value ++ l.trailing))))

/-- `//` and anything up to the end of the line. -/
structure CommentLine where
  indent : Bytes
  body : Bytes
  indent_blank : LineBlank indent
  body_line : (10 : Byte) ∉ body

def CommentLine.text (l : CommentLine) : Bytes := l.indent ++ 47 :: 47 :: l.body

/-- A documented line. -/
inductive ConfigLine
  | parameter (l : ParameterLine)
  | comment (l : CommentLine)

def ConfigLine.text : ConfigLine → Bytes
  | .parameter l => l.text
  | .comment l => l.text

/-- The assignment that the key of a parameter line selects. -/
def ParameterLine.assignment (l : ParameterLine) : Option Assignment :=
  (branchOf l.key).map fun branch => ⟨branch, l.value, l.value.length⟩

def ConfigLine.assignment : ConfigLine → Option Assignment
  | .parameter l => l.assignment
  | .comment _ => none

/-- The lines as they stand in a file; the last one may lack its newline. -/
def linePieces (ended : Bool) : List ConfigLine → List Bytes
  | [] => []
  | [l] => [l.text ++ if ended then [10] else []]
  | l :: l' :: ls => (l.text ++ [10]) :: linePieces ended (l' :: ls)

/-- A file of documented lines. -/
def fileText (ended : Bool) (lines : List ConfigLine) : Bytes := (linePieces ended lines).flatten

/-! ## Parameter lines -/

theorem LineBlank.blank {w : Bytes} (h : LineBlank w) : Blank w := by
  intro c hc
  rcases h c hc with rfl | rfl | rfl <;> simp

theorem LineBlank.ten_notMem {w : Bytes} (h : LineBlank w) : (10 : Byte) ∉ w := by
  intro hc
  rcases h 10 hc with h | h | h <;> exact absurd h (by decide)

theorem IsValueByte.inPrimitive {c : Byte} (h : IsValueByte c) : InPrimitive c := by
  simp only [IsValueByte, UInt8.le_iff_toNat_le, ← UInt8.toNat_inj, UInt8.reduceToNat] at h
  simp only [InPrimitive, endsPrimitive, isBlank, outsidePrimitive, decide_eq_false_iff_not,
    decide_eq_true_eq, UInt8.le_iff_toNat_le, UInt8.lt_iff_toNat_lt, ← UInt8.toNat_inj,
    UInt8.reduceToNat, ne_eq]
  omega

namespace ParameterLine

variable (l : ParameterLine)

/-- No byte of a key or value is below a space. -/
theorem notMem_key_value {c : Byte} (hc : c < 32) : c ∉ l.key ∧ c ∉ l.value := by
  constructor
  · intro h
    have hle := (l.key_plain c h).1
    exact absurd hc (UInt8.not_lt.2 hle)
  · intro h
    have hvalue := l.value_bytes c h
    simp only [IsValueByte, UInt8.le_iff_toNat_le, ← UInt8.toNat_inj, UInt8.reduceToNat] at hvalue
    simp only [UInt8.lt_iff_toNat_lt, UInt8.reduceToNat] at hc
    omega

theorem zero_notMem_text : (0 : Byte) ∉ l.text := by
  obtain ⟨hkey, hvalue⟩ := l.notMem_key_value (c := 0) (by decide)
  simp [text, l.indent_blank.blank.zero_notMem, l.beforeColon_blank.blank.zero_notMem,
    l.afterColon_blank.blank.zero_notMem, l.trailing_blank.blank.zero_notMem, hkey, hvalue]

theorem ten_notMem_text : (10 : Byte) ∉ l.text := by
  obtain ⟨hkey, hvalue⟩ := l.notMem_key_value (c := 10) (by decide)
  simp [text, l.indent_blank.ten_notMem, l.beforeColon_blank.ten_notMem,
    l.afterColon_blank.ten_notMem, l.trailing_blank.ten_notMem, hkey, hvalue]

/-- A parameter line has two lexemes; it may end in a newline. -/
theorem lexemes_text {nl : Bytes} (hnl : Blank nl) :
    lexemes maxParseTokens (cString (l.text ++ nl)) =
      some [⟨.string, l.key, false⟩, ⟨.primitive, l.value, false⟩] := by
  have h0 : (0 : Byte) ∉ l.text ++ nl := by
    simp [l.zero_notMem_text, hnl.zero_notMem]
  have htrailing : Blank (l.trailing ++ nl) := l.trailing_blank.blank.append hnl
  have hvalue : PrimitiveToken l.value :=
    primitiveToken_of_inPrimitive l.value_ne_nil fun c hc => (l.value_bytes c hc).inPrimitive
  have hsplit : l.text ++ nl = l.indent ++ 34 :: (l.key ++ 34 ::
      ((l.beforeColon ++ 58 :: l.afterColon) ++ (l.value ++ (l.trailing ++ nl)))) := by
    simp [text]
  rw [cString_eq_self h0, hsplit, lexemes_separators (separators_of_blank l.indent_blank.blank)]
  show lexemes (8 + 1 + 1) _ = _
  rw [lexemes_quoted (stringBody_of_plain l.key_plain),
    lexemes_separators (separators_colon l.beforeColon_blank.blank l.afterColon_blank.blank),
    lexemes_append_blank htrailing, lexemes_primitiveToken hvalue]
  rfl

theorem textAssignment_text {nl : Bytes} (hnl : Blank nl) :
    textAssignment (l.text ++ nl) = l.assignment := by
  unfold textAssignment
  rw [l.lexemes_text hnl]
  rfl

theorem not_loneString_text {nl : Bytes} (hnl : Blank nl) : ¬LoneString (l.text ++ nl) := by
  rintro ⟨k, hls, -⟩
  rw [l.lexemes_text hnl] at hls
  simp at hls

end ParameterLine

/-! ## Comment lines -/

namespace CommentLine

variable (l : CommentLine)

/-- The first lexeme of a comment line is no string. -/
theorem lexemes_text_head {nl : Bytes} {k : Lexeme} {ls : List Lexeme}
    (h : lexemes maxParseTokens (cString (l.text ++ nl)) = some (k :: ls)) : k.kind ≠ .string := by
  have hquote : (34 : Byte) ∉ l.indent := by
    intro hc
    rcases l.indent_blank 34 hc with h | h | h <;> exact absurd h (by decide)
  have htext : cString (l.text ++ nl) = l.indent ++ 47 :: cString (47 :: l.body ++ nl) := by
    unfold text
    rw [List.append_assoc, cString_append l.indent_blank.blank.zero_notMem]
    rfl
  rw [htext] at h
  exact lexemes_head_of_slash hquote h

theorem textAssignment_text (nl : Bytes) : textAssignment (l.text ++ nl) = none :=
  (textAssignment_of_head fun _ _ => l.lexemes_text_head).1

theorem not_loneString_text (nl : Bytes) : ¬LoneString (l.text ++ nl) :=
  (textAssignment_of_head fun _ _ => l.lexemes_text_head).2

end CommentLine

/-! ## Files -/

namespace ConfigLine

theorem textAssignment_text (l : ConfigLine) {nl : Bytes} (hnl : Blank nl) :
    textAssignment (l.text ++ nl) = l.assignment := by
  cases l with
  | parameter l => exact l.textAssignment_text hnl
  | comment l => exact l.textAssignment_text nl

theorem not_loneString_text (l : ConfigLine) {nl : Bytes} (hnl : Blank nl) :
    ¬LoneString (l.text ++ nl) := by
  cases l with
  | parameter l => exact l.not_loneString_text hnl
  | comment l => exact l.not_loneString_text nl

theorem text_ne_nil (l : ConfigLine) : l.text ≠ [] := by
  cases l <;> simp [text, ParameterLine.text, CommentLine.text]

theorem ten_notMem_text (l : ConfigLine) : (10 : Byte) ∉ l.text := by
  cases l with
  | parameter l => exact l.ten_notMem_text
  | comment l => simp [text, CommentLine.text, l.indent_blank.ten_notMem, l.body_line]

/-- A line of at most 1022 bytes fits the buffer with its newline. -/
theorem shortLine_text (l : ConfigLine) (h : l.text.length < maxParameterTextLength - 1)
    (ended : Bool) : ShortLine (l.text ++ if ended then [10] else []) := by
  cases ended with
  | true =>
    refine ⟨⟨by simp, ?_⟩, ?_⟩
    · rw [if_pos rfl, List.dropLast_concat]
      exact l.ten_notMem_text
    · rw [if_pos rfl, List.length_append, List.length_singleton]
      omega
  | false =>
    refine ⟨⟨by simpa using l.text_ne_nil, fun hc => ?_⟩, ?_⟩
    · rw [if_neg (by simp), List.append_nil] at hc
      exact l.ten_notMem_text (List.dropLast_subset _ hc)
    · rw [if_neg (by simp), List.append_nil]
      omega

end ConfigLine

variable {lines : List ConfigLine}

theorem blank_newline (ended : Bool) : Blank (if ended then [10] else []) := by
  cases ended <;> simp [Blank]

/-- Every piece is a line with its newline, or the last one. -/
theorem exists_of_mem_linePieces {ended : Bool} {piece : Bytes}
    (h : piece ∈ linePieces ended lines) :
    ∃ l ∈ lines, ∃ e : Bool, piece = l.text ++ if e then [10] else [] := by
  induction lines using linePieces.induct with
  | case1 => cases h
  | case2 l => exact ⟨l, by simp, ended, List.mem_singleton.1 h⟩
  | case3 l l' ls ih =>
    rcases List.mem_cons.1 h with rfl | hmem
    · exact ⟨l, by simp, true, rfl⟩
    · obtain ⟨k, hk, e, he⟩ := ih hmem
      exact ⟨k, List.mem_cons_of_mem l hk, e, he⟩

theorem ended_linePieces (ended : Bool) :
    (linePieces ended lines).Pairwise fun line _ => Ended line := by
  induction lines using linePieces.induct with
  | case1 => exact .nil
  | case2 l => exact List.pairwise_singleton _ _
  | case3 l l' ls ih => exact List.pairwise_cons.2 ⟨fun _ _ => ⟨l.text, rfl⟩, ih⟩

/-- A file of documented lines is read line by line. -/
theorem fgetsPieces_fileText (ended : Bool)
    (hshort : ∀ l ∈ lines, l.text.length < maxParameterTextLength - 1) :
    fgetsPieces (fileText ended lines) = linePieces ended lines := by
  refine fgetsPieces_shortLines ?_ (ended_linePieces ended)
  intro piece h
  obtain ⟨l, hl, e, rfl⟩ := exists_of_mem_linePieces h
  exact l.shortLine_text (hshort l hl) e

theorem filterMap_linePieces (ended : Bool) :
    (linePieces ended lines).filterMap textAssignment =
      lines.filterMap ConfigLine.assignment := by
  induction lines using linePieces.induct with
  | case1 => rfl
  | case2 l =>
    have hl := l.textAssignment_text (blank_newline ended)
    rw [linePieces, List.filterMap_cons, List.filterMap_cons, hl]
    rfl
  | case3 l l' ls ih =>
    have hl := l.textAssignment_text (blank_newline true)
    rw [linePieces, List.filterMap_cons, List.filterMap_cons (a := l), ← ih,
      show textAssignment (l.text ++ [10]) = _ from hl]

/-- **Decoding.** A file of documented lines is decoded line by line, whatever the
    reader's arrays hold. -/
theorem lineAssignments_fileText (r : Reader) (ended : Bool)
    (hshort : ∀ l ∈ lines, l.text.length < maxParameterTextLength - 1) :
    lineAssignments r (fgetsPieces (fileText ended lines)) =
      some (lines.filterMap ConfigLine.assignment) := by
  rw [lineAssignments_eq_filterMap r fun piece h => length_lt_of_mem_fgetsPieces h]
  · rw [fgetsPieces_fileText ended hshort, filterMap_linePieces]
  · intro piece h
    rw [fgetsPieces_fileText ended hshort] at h
    obtain ⟨l, -, e, rfl⟩ := exists_of_mem_linePieces h
    exact l.not_loneString_text (blank_newline e)

end TrackerDemo.Config

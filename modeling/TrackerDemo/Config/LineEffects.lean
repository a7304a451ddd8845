import TrackerDemo.Config.Buffers

/-!
# Lines of the configuration file act by their own text

`Tokens` is only partly overwritten by each `jsmn_parse`, and the reader tests
`NumTokens > 0` before it uses two tokens (`GlobalConfig.c`, lines 126–134). So a
line on which jsmn finds a parameter name and nothing else is read with the
second token of an earlier line, or with the uninitialised one.

Results:
* `fgetsPieces_shortLines`: short lines are read one by one.
* `next_tokens`: the tokens a line leaves for the next ones.
* `StaleCopied.after`: no history spoils the token that was left.
* `lineActsAlone_iff`: the lines that act by their own text after any history.
-/

namespace TrackerDemo.Config

open TrackerDemo.CString TrackerDemo.Jsmn TrackerDemo.TextLines

/-! ## Short lines -/

/-- A line that fits `configLine` with its NUL. -/
structure ShortLine (line : Bytes) : Prop extends Line line where
  length_lt : line.length < maxParameterTextLength

/-- Lines that may precede another one, all of them short. -/
def ShortLines (lines : List Bytes) : Prop := ∀ line ∈ lines, ShortLine line ∧ Ended line

/-- Short lines are read one by one; the last one of the file may lack its
    newline. -/
theorem fgetsPieces_shortLines {lines : List Bytes} (h : ∀ line ∈ lines, ShortLine line)
    (hended : lines.Pairwise fun line _ => Ended line) : fgetsPieces lines.flatten = lines := by
  have hlines : IsLines lines := ⟨fun line hl => (h line hl).toLine, hended⟩
  have hone : ∀ line ∈ lines, fgetsAll maxParameterTextLength line = [line] :=
    fun line hl => fgetsAll_line (h line hl).toLine (h line hl).length_lt
  unfold fgetsPieces
  rw [fgetsAll_flatten _ hlines, List.flatMap_congr hone]
  simp

/-! ## What a line leaves in the arrays -/

/-- The tokens of an accepted line stand for its lexemes. -/
theorem next_tokens (r : Reader) {piece : Bytes} {ls : List Lexeme}
    (hls : lexemes maxParseTokens (cString piece) = some ls) (i : ℕ) (hi : i < ls.length) :
    Matches (cString piece) ((r.next piece).tokens i) ls[i] := by
  have h0 := zero_notMem_cString (fgetsInto r.configLine piece)
  rw [← cString_fgetsInto r.configLine piece] at hls ⊢
  obtain ⟨tokens, hr, hm, -⟩ := @jsmnParse_of_lexemes _ r.tokens _ h0 _ hls
  unfold Reader.next Reader.parseLine
  dsimp only
  rw [hr]
  exact hm i hi

/-- A line that selects no branch leaves the parameters alone. -/
theorem readLines_of_none {r : Reader} {piece : Bytes} (h : r.lineAssignment piece = some none)
    (p : Params) : readLines [piece] (r, p) = some (r.next piece, p) := by
  show processLine (r, p) piece >>= readLines [] = _
  unfold processLine
  rw [h]
  rfl

/-! ## Two histories that tell a bare parameter line apart -/

/-- `"x" : 1`: no parameter; it leaves a primitive in the second token. -/
def primitiveLine : Bytes := ascii "\"x\" : 1\n"

/-- `"x" "y"`: no parameter either; it leaves a string there. -/
def stringLine : Bytes := ascii "\"x\" \"y\"\n"

theorem lexemes_primitiveLine : lexemes maxParseTokens (cString primitiveLine) =
    some [⟨.string, ascii "x", false⟩, ⟨.primitive, ascii "1", false⟩] := by decide

theorem lexemes_stringLine : lexemes maxParseTokens (cString stringLine) =
    some [⟨.string, ascii "x", false⟩, ⟨.string, ascii "y", false⟩] := by decide

theorem shortLines_primitiveLine : ShortLines [primitiveLine] := by
  intro line hl
  rw [List.mem_singleton.1 hl]
  exact ⟨⟨⟨by decide, by decide⟩, by decide⟩, ascii "\"x\" : 1", by decide⟩

theorem shortLines_stringLine : ShortLines [stringLine] := by
  intro line hl
  rw [List.mem_singleton.1 hl]
  exact ⟨⟨⟨by decide, by decide⟩, by decide⟩, ascii "\"x\" \"y\"", by decide⟩

section

variable (r : Reader) {line : Bytes} {k : Lexeme}

/-- A lexeme's text is part of the line. -/
theorem lexeme_length_le (hls : lexemes maxParseTokens (cString line) = some [k])
    (hk : k.kind = .string) : k.text.length ≤ line.length := by
  have hm := next_tokens .zeroed hls 0 (by simp)
  exact (leaf_length hm (.inl hk)).2.trans (length_cString_le line)

/-- No name of a parameter is shorter than `MQTT_QOS`. -/
theorem branchOf_length {id : Bytes} (hlen : id.length < maxParameterTextLength)
    (h : (branchOf id).isSome) : 8 ≤ id.length := by
  have hnames : ∀ b ∈ branches, 8 ≤ (ascii b.1).length := by decide
  obtain ⟨b, hb⟩ := Option.isSome_iff_exists.1 h
  obtain ⟨name, hmem, rfl⟩ := mem_branches_of_branchOf hlen hb
  exact hnames _ hmem

/-- After `"x" : 1`, a bare parameter line assigns its parameter. -/
theorem lineAssignment_after_primitiveLine (hlen : line.length < maxParameterTextLength)
    (hls : lexemes maxParseTokens (cString line) = some [k]) (hk : k.kind = .string)
    (hb : (branchOf k.text).isSome) :
    ∃ a, (r.next primitiveLine).lineAssignment line = some (some a) := by
  have htext := lexeme_length_le hls hk
  have hname := branchOf_length (htext.trans_lt hlen) hb
  have hm := next_tokens r lexemes_primitiveLine 1 (by decide)
  have hsize : (cString primitiveLine).length = 8 := by decide
  have hmem : line.length ≤ (fgetsInto (r.next primitiveLine).configLine line).length := by
    simp [fgetsInto]
  have hcopy := @copyToken_isSome maxParameterTextLength _ _ _ _ hm (.inr rfl) (by omega)
    (hsize.trans_le (hname.trans (htext.trans hmem)))
  obtain ⟨v, hv⟩ := Option.isSome_iff_exists.1 hcopy
  obtain ⟨b, hb⟩ := Option.isSome_iff_exists.1 hb
  rw [lineAssignment_eq hlen, hls]
  show ∃ a, staleAssignment _ _ k = some (some a)
  unfold staleAssignment
  rw [if_pos ⟨hk, hm.type_eq⟩, hv, hb]
  exact ⟨_, rfl⟩

/-- After `"x" "y"`, it assigns nothing. -/
theorem lineAssignment_after_stringLine (hlen : line.length < maxParameterTextLength)
    (hls : lexemes maxParseTokens (cString line) = some [k]) :
    (r.next stringLine).lineAssignment line = some none := by
  have hm := next_tokens r lexemes_stringLine 1 (by decide)
  have htype : ((r.next stringLine).tokens 1).type = .string := hm.type_eq
  rw [lineAssignment_eq hlen, hls]
  show staleAssignment _ _ k = _
  unfold staleAssignment
  rw [htype, if_neg (by simp)]

end

/-! ## The token that was left -/

/-- If the second token in the array is a primitive, its text can be copied out
    of the buffer with the line in it. -/
def StaleCopied (r : Reader) (line : Bytes) : Prop :=
  (r.tokens 1).type = .primitive →
    (copyToken maxParameterTextLength (fgetsInto r.configLine line) (r.tokens 1)).isSome

/-- Storing a piece does not shorten the buffer. -/
theorem length_le_fgetsInto (buffer piece : Bytes) :
    buffer.length ≤ (fgetsInto buffer piece).length := by
  unfold fgetsInto
  rw [List.length_append, List.length_cons, List.length_drop]
  omega

/-- The buffer behind the piece and its NUL is the old one. -/
theorem drop_fgetsInto {buffer piece : Bytes} {a : ℕ} (ha : piece.length < a) :
    (fgetsInto buffer piece).drop a = buffer.drop a := by
  obtain ⟨k, rfl⟩ : ∃ k, a = piece.length + (k + 1) := ⟨a - piece.length - 1, by omega⟩
  unfold fgetsInto
  rw [List.drop_length_add_append, List.drop_succ_cons, List.drop_drop]
  congr 1
  omega

/-- The NUL of a piece stands behind all of its bytes. -/
theorem zero_mem_drop_fgetsInto (buffer : Bytes) {piece : Bytes} {a : ℕ} (ha : a ≤ piece.length) :
    (0 : Byte) ∈ (fgetsInto buffer piece).drop a := by
  unfold fgetsInto
  rw [List.drop_append_of_le_length ha]
  simp

/-- A NUL behind a position is never lost: a piece that overwrites it has its own
    NUL further on. -/
theorem zero_mem_drop_fgetsInto_fgetsInto {buffer line : Bytes} (piece : Bytes) {a : ℕ}
    (h : (0 : Byte) ∈ (fgetsInto buffer line).drop a) :
    (0 : Byte) ∈ (fgetsInto (fgetsInto buffer piece) line).drop a := by
  rcases Nat.lt_or_ge line.length a with hline | hline
  · rw [drop_fgetsInto hline] at h ⊢
    rcases Nat.lt_or_ge piece.length a with hpiece | hpiece
    · rwa [drop_fgetsInto hpiece]
    · exact zero_mem_drop_fgetsInto buffer hpiece
  · exact zero_mem_drop_fgetsInto _ hline

section

variable {r : Reader} {line : Bytes}

/-- The step lemma: a line fills the second token with a position in itself, or
    leaves it. -/
theorem StaleCopied.next (h : StaleCopied r line) {piece : Bytes}
    (hlen : piece.length < maxParameterTextLength) : StaleCopied (r.next piece) line := by
  have h0 := zero_notMem_cString (fgetsInto r.configLine piece)
  have hagree := @jsmnParse_agrees (cString (fgetsInto r.configLine piece)) r.tokens
    maxParseTokens h0
  have htext : (cString (fgetsInto r.configLine piece)).length ≤ piece.length := by
    rw [cString_fgetsInto]
    exact length_cString_le piece
  set toks := (scanText maxParseTokens (cString (fgetsInto r.configLine piece))).toks
  intro hprim
  change ((jsmnParse _ _ _).2 1).type = .primitive at hprim
  change (copyToken _ (fgetsInto (fgetsInto r.configLine piece) line)
    ((jsmnParse _ _ _).2 1)).isSome
  rcases Nat.lt_or_ge 1 toks.length with hlt | hge
  · have hm := hagree.tokens.getElem 1 (by simpa using hlt)
    have hsize : piece.length ≤ (fgetsInto (fgetsInto r.configLine piece) line).length := by
      refine le_trans ?_ (length_le_fgetsInto _ line)
      simp [fgetsInto]
    rw [hm.type_eq] at hprim
    exact copyToken_isSome hm (.inr hprim) (by omega) (htext.trans hsize)
  · rw [hagree.untouched 1 hge] at hprim ⊢
    have hcopy := h hprim
    unfold copyToken at hcopy ⊢
    dsimp only at hcopy ⊢
    split_ifs at hcopy with hold
    · obtain ⟨h1, h2, h3, hmemory⟩ := hold
      have hlength : (fgetsInto r.configLine line).length ≤
          (fgetsInto (fgetsInto r.configLine piece) line).length := by
        have := length_le_fgetsInto r.configLine piece
        unfold fgetsInto at this ⊢
        simp only [List.length_append, List.length_cons, List.length_drop] at this ⊢
        omega
      rw [if_pos ⟨h1, h2, h3, hmemory.imp (zero_mem_drop_fgetsInto_fgetsInto piece) (by omega)⟩]
      rfl
    · cases hcopy

/-- The run lemma. -/
theorem StaleCopied.after (h : StaleCopied r line) {history : List Bytes}
    (hlen : ∀ piece ∈ history, piece.length < maxParameterTextLength) :
    StaleCopied (r.after history) line := by
  induction history generalizing r with
  | nil => exact h
  | cons piece history ih =>
    exact ih (h.next (hlen piece (by simp))) fun q hq => hlen q (List.mem_cons_of_mem piece hq)

/-- A lone string that names no parameter assigns nothing, if the token left
    behind it can be copied. -/
theorem lineAssignment_of_staleCopied (hlen : line.length < maxParameterTextLength)
    (hlone : LoneString line) (hbare : ¬BareParameterLine line) (hcopied : StaleCopied r line) :
    r.lineAssignment line = some none := by
  obtain ⟨k, hls, hk⟩ := hlone
  have hbranch : branchOf k.text = none := by
    by_contra hne
    exact hbare ⟨k, hls, hk, Option.isSome_iff_ne_none.2 hne⟩
  rw [lineAssignment_eq hlen, hls]
  show staleAssignment _ _ k = _
  unfold staleAssignment
  by_cases hprim : (r.tokens 1).type = .primitive
  · obtain ⟨v, hv⟩ := Option.isSome_iff_exists.1 (hcopied hprim)
    rw [if_pos ⟨hk, hprim⟩, hv, hbranch]
    rfl
  · rw [if_neg fun hboth => hprim hboth.2]

/-- So a line that is not the name of a parameter acts by its text. -/
theorem lineAssignment_of_not_bare (hlen : line.length < maxParameterTextLength)
    (hbare : ¬BareParameterLine line) (hstale : LoneString line → StaleCopied r line) :
    r.lineAssignment line = some (textAssignment line) := by
  by_cases hlone : LoneString line
  · have hnone : textAssignment line = none := by
      obtain ⟨k, hls, -⟩ := hlone
      unfold textAssignment
      rw [hls]
    rw [hnone, lineAssignment_of_staleCopied hlen hlone hbare (hstale hlone)]
  · exact lineAssignment_of_not_loneString hlen hlone

/-- If it cannot, the copy leaves its buffers. -/
theorem lineAssignment_of_not_staleCopied (hlen : line.length < maxParameterTextLength)
    (hlone : LoneString line) (hcopied : ¬StaleCopied r line) : r.lineAssignment line = none := by
  obtain ⟨k, hls, hk⟩ := hlone
  unfold StaleCopied at hcopied
  push Not at hcopied
  obtain ⟨hprim, hnone⟩ := hcopied
  rw [lineAssignment_eq hlen, hls]
  show staleAssignment _ _ k = _
  unfold staleAssignment
  have hcopy : copyToken maxParameterTextLength (fgetsInto r.configLine line) (r.tokens 1) =
      none := by simpa using hnone
  rw [if_pos ⟨hk, hprim⟩, hcopy]
  rfl

/-- A token inside of the buffer can be copied. -/
theorem BuffersSafe.staleCopied (h : BuffersSafe r) (line : Bytes)
    (hlen : line.length < maxParameterTextLength) : StaleCopied r line := by
  intro hprim
  have hmem : (fgetsInto r.configLine line).length = maxParameterTextLength := by
    rw [length_fgetsInto _ (by rw [h.configLine]; exact hlen), h.configLine]
  obtain ⟨v, hv⟩ := copyToken_of_inLine (h.inLine 1 (.inr hprim)) hmem
  rw [hv]
  rfl

/-- Without bare names, every line of a file acts by its own text. -/
theorem lineAssignments_of_not_bare (h : BuffersSafe r) {pieces : List Bytes}
    (hlen : ∀ piece ∈ pieces, piece.length < maxParameterTextLength)
    (hbare : ∀ piece ∈ pieces, ¬BareParameterLine piece) :
    lineAssignments r pieces = some (pieces.filterMap textAssignment) := by
  induction pieces generalizing r with
  | nil => rfl
  | cons piece pieces ih =>
    have hpiece := lineAssignment_of_not_bare (hlen piece (by simp)) (hbare piece (by simp))
      fun _ => h.staleCopied piece (hlen piece (by simp))
    have hrest := ih (h.next (hlen piece (by simp)))
      (fun q hq => hlen q (List.mem_cons_of_mem piece hq))
      fun q hq => hbare q (List.mem_cons_of_mem piece hq)
    rw [lineAssignments, hpiece, hrest]
    cases ht : textAssignment piece <;> simp [ht]

end

/-! ## The lines that act by their own text -/

/-- Whatever short lines were processed before it, the line assigns the same
    parameter from the same value text, or nothing, or its copy leaves a buffer.
    (By `fgetsPieces_shortLines` a file of short lines is read as the list of its
    lines.) -/
def LineActsAlone (r : Reader) (line : Bytes) : Prop :=
  ∀ history history' : List Bytes, ShortLines history → ShortLines history' →
    (r.after history).lineAssignment line = (r.after history').lineAssignment line

section

variable {line : Bytes}

theorem lineActsAlone_of_not_bare (r : Reader) (h : ShortLine line)
    (hb : ¬BareParameterLine line) (hstale : LoneString line → StaleCopied r line) :
    LineActsAlone r line := by
  have hout : ∀ history, ShortLines history →
      (r.after history).lineAssignment line = some (textAssignment line) := by
    intro history hhistory
    apply lineAssignment_of_not_bare h.length_lt hb
    exact fun hlone => (hstale hlone).after fun piece hp => (hhistory piece hp).1.length_lt
  intro history history' hhistory hhistory'
  rw [hout history hhistory, hout history' hhistory']

theorem not_lineActsAlone_of_bare (r : Reader) (h : ShortLine line)
    (hb : BareParameterLine line) : ¬LineActsAlone r line := by
  intro halone
  obtain ⟨k, hls, hk, hsome⟩ := hb
  obtain ⟨a, ha⟩ := lineAssignment_after_primitiveLine r h.length_lt hls hk hsome
  have ha' := lineAssignment_after_stringLine r h.length_lt hls
  have heq : (r.next primitiveLine).lineAssignment line = (r.next stringLine).lineAssignment line :=
    halone [primitiveLine] [stringLine] shortLines_primitiveLine shortLines_stringLine
  rw [ha, ha'] at heq
  cases heq

/-- A lone string whose copy leaves a buffer does not after `"x" "y"`. -/
theorem staleCopied_of_lineActsAlone {r : Reader} (h : ShortLine line)
    (halone : LineActsAlone r line) (hlone : LoneString line) : StaleCopied r line := by
  by_contra hcopied
  have hnone := lineAssignment_of_not_staleCopied h.length_lt hlone hcopied
  obtain ⟨k, hls, -⟩ := hlone
  have hstring := lineAssignment_after_stringLine r h.length_lt hls
  have heq : r.lineAssignment line = (r.next stringLine).lineAssignment line :=
    halone [] [stringLine] (fun l hl => by cases hl) shortLines_stringLine
  rw [hnone, hstring] at heq
  cases heq

/-- **Main theorem.** A short line acts by its own text iff it is not just the
    name of a parameter, and not another lone string that meets an uninitialised
    token which cannot be copied. -/
theorem lineActsAlone_iff (r : Reader) (h : ShortLine line) :
    LineActsAlone r line ↔
      ¬BareParameterLine line ∧ (LoneString line → StaleCopied r line) := by
  constructor
  · intro halone
    refine ⟨fun hb => not_lineActsAlone_of_bare r h hb halone, fun hlone => ?_⟩
    exact staleCopied_of_lineActsAlone h halone hlone
  · rintro ⟨hb, hstale⟩
    exact lineActsAlone_of_not_bare r h hb hstale

end

/-- `"MQTT_PORT"` without a value. -/
def portLine : Bytes := ascii "\"MQTT_PORT\"\n"

theorem bareParameterLine_portLine : BareParameterLine portLine :=
  ⟨⟨.string, ascii "MQTT_PORT", false⟩, by decide, rfl, by decide⟩

theorem shortLine_portLine : ShortLine portLine := ⟨⟨by decide, by decide⟩, by decide⟩

/-- A line of documentation. -/
def noteLine : Bytes := ascii "\"see the manual\"\n"

/-- `lineActsAlone_iff` for it, on a zeroed stack. -/
theorem lineActsAlone_iff_noteLine : LineActsAlone .zeroed noteLine := by
  have hshort : ShortLine noteLine := ⟨⟨by decide, by decide⟩, by decide⟩
  have hls : lexemes maxParseTokens (cString noteLine) =
      some [⟨.string, ascii "see the manual", false⟩] := by decide
  refine (lineActsAlone_iff .zeroed hshort).2 ⟨?_, fun _ hprim => ?_⟩
  · rintro ⟨k, hk, -, hb⟩
    rw [hls] at hk
    obtain rfl : (⟨.string, ascii "see the manual", false⟩ : Lexeme) = k := by simpa using hk
    exact absurd hb (by decide)
  · cases hprim

theorem portLine_depends_on_history :
    ¬∀ (r : Reader) (line : Bytes), ShortLine line → LineActsAlone r line :=
  fun h => not_lineActsAlone_of_bare .zeroed shortLine_portLine
    bareParameterLine_portLine (h _ _ shortLine_portLine)

end TrackerDemo.Config

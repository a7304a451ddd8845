import TrackerDemo.Config.LineEffects
import TrackerDemo.Config.LastWrites
import TrackerDemo.Jsmn.Layout
import TrackerDemo.Jsmn.FirstLexeme

/-!
# Comments in the configuration file

The header of the configuration file lets a parameter be commented out by `//`
or `/*..*/`. The reader (`GlobalConfig.c`, lines 117–147) knows no comments: it
acts on every piece whose first two jsmn tokens are the name of a parameter and
a primitive.

Results:
* `firstPiece_not_active`: such a piece stands inside of a block or behind the
  first 1023 bytes of a line.
* `noEffect_of_not_active`: comments without such pieces have no effect.
* `commentsHaveNoEffect_iff`: the files whose comments have none.
-/

namespace TrackerDemo.Config

open TrackerDemo.CString TrackerDemo.Jsmn TrackerDemo.TextLines

/-! ## Which lines are comments -/

/-- The part of a line outside of comments, and whether a block is open at its
    end; `inside` tells whether one is open at its start. -/
def outsideComments : Bool → Bytes → Bytes × Bool
  | inside, [] => ([], inside)
  | true, [_] => ([], true)
  | false, [c] => ([c], false)
  | true, c :: d :: rest =>
    if c = 42 ∧ d = 47 then outsideComments false rest else outsideComments true (d :: rest)
  | false, c :: d :: rest =>
    if c = 47 ∧ d = 47 then ([], false)
    else if c = 47 ∧ d = 42 then outsideComments true rest
    else
      let (out, inside) := outsideComments false (d :: rest)
      (c :: out, inside)

/-- A line is a comment if it touches one and has no parameter text, hence no
    quote, outside of it; a mixed line opens or closes a block next to such
    text. -/
inductive LineKind
  | text | comment | mixed
  deriving DecidableEq, Repr

/-- The kind of a line, and whether a block is open at its end. -/
def lineKind (inside : Bool) (line : Bytes) : LineKind × Bool :=
  let (out, inside') := outsideComments inside line
  if (inside ∨ out ≠ line) ∧ 34 ∉ out then (.comment, inside')
  else if inside ∨ inside' then (.mixed, inside')
  else (.text, inside')

/-- The lines of a file with their kinds. -/
def markLines : Bool → List Bytes → List (LineKind × Bytes)
  | _, [] => []
  | inside, line :: lines =>
    ((lineKind inside line).1, line) :: markLines (lineKind inside line).2 lines

/-- The lines of a kind. -/
def ofKind (kind : LineKind) (marked : List (LineKind × Bytes)) : List Bytes :=
  (marked.filter (·.1 = kind)).map (·.2)

/-- The comment lines of a file. -/
def commentLines (file : Bytes) : List Bytes := ofKind .comment (markLines false (linesOf file))

/-- The file without its comment lines. -/
def strip (file : Bytes) : Bytes :=
  (((markLines false (linesOf file)).filter (·.1 ≠ .comment)).map (·.2)).flatten

/-- A piece that assigns a parameter. -/
def Active (piece : Bytes) : Prop := (textAssignment piece).isSome

instance (piece : Bytes) : Decidable (Active piece) :=
  inferInstanceAs (Decidable ((textAssignment piece).isSome = true))

/-- No piece of the file is the bare name of a parameter. -/
def NoBareParameterLine (file : Bytes) : Prop :=
  ∀ piece ∈ fgetsPieces file, ¬BareParameterLine piece

/-- The assignments of a file by the texts of its lines. -/
def textAssignments (file : Bytes) : List Assignment := (fgetsPieces file).filterMap textAssignment

/-- Deleting the comment lines leaves the loaded parameters unchanged. (A run
    that leaves an array has an outcome of its own.) -/
def CommentsHaveNoEffect (r : Reader) (file : Bytes) : Prop :=
  readAndAssignConfigurationDetails r (some file) .initial =
    readAndAssignConfigurationDetails r (some (strip file)) .initial

/-! ## Marking -/

theorem markLines_map_snd (inside : Bool) (lines : List Bytes) :
    (markLines inside lines).map (·.2) = lines := by
  induction lines generalizing inside with
  | nil => rfl
  | cons l lines ih => rw [markLines, List.map_cons, ih]

/-! ## The beginning of a comment -/

/-- What stands before the first comment of a line is outside of it. -/
theorem outsideComments_slash {line : Bytes} (h : (outsideComments false line).1 ≠ line) :
    ∃ before after, line = before ++ 47 :: after ∧ before <+: (outsideComments false line).1 := by
  induction line with
  | nil => exact absurd rfl h
  | cons c rest ih =>
    cases rest with
    | nil => exact absurd rfl h
    | cons d rest =>
      rw [outsideComments] at h ⊢
      by_cases hline : c = 47 ∧ d = 47
      · exact ⟨[], d :: rest, by rw [hline.1]; rfl, List.nil_prefix⟩
      by_cases hblock : c = 47 ∧ d = 42
      · exact ⟨[], d :: rest, by rw [hblock.1]; rfl, List.nil_prefix⟩
      rw [if_neg hline, if_neg hblock] at h ⊢
      have hne : (outsideComments false (d :: rest)).1 ≠ d :: rest := fun heq =>
        h (congrArg (c :: ·) heq)
      obtain ⟨before, after, hrest, hpre⟩ := ih hne
      refine ⟨c :: before, after, by rw [hrest]; rfl, ?_⟩
      exact List.cons_prefix_cons.2 ⟨rfl, hpre⟩

/-- A comment that begins outside of a block is no parameter line in its first
    piece, nor a lone string. -/
theorem firstPiece_not_active {line piece : Bytes} (h : (lineKind false line).1 = .comment)
    (hp : piece ∈ (fgetsPieces line).head?) : ¬Active piece ∧ ¬LoneString piece := by
  have hprefix : piece <+: line := by
    have hflat : (fgetsPieces line).flatten = line := flatten_piecesFrom [] line
    obtain ⟨pieces, hpieces⟩ := List.head?_eq_some_iff.1 hp
    rw [hpieces, List.flatten_cons] at hflat
    exact ⟨_, hflat⟩
  obtain ⟨hne, hquote⟩ : (outsideComments false line).1 ≠ line ∧
      (34 : Byte) ∉ (outsideComments false line).1 := by
    by_contra hn
    unfold lineKind at h
    dsimp only at h
    rw [if_neg (by simpa using hn)] at h
    split_ifs at h
  obtain ⟨before, after, hline, hpre⟩ := outsideComments_slash hne
  have hbefore : (34 : Byte) ∉ before := fun hm => hquote (hpre.subset hm)
  have htext : cString piece <+: before ++ 47 :: after :=
    hline ▸ (List.takeWhile_prefix _).trans hprefix
  have hslash : before ++ [47] <+: before ++ 47 :: after := ⟨after, by simp⟩
  have hhead : ∀ k ls, lexemes maxParseTokens (cString piece) = some (k :: ls) →
      k.kind ≠ .string := by
    intro k ls hls
    rcases List.prefix_or_prefix_of_prefix htext hslash with hshort | ⟨rest, hlong⟩
    · refine lexemes_head_of_quoteFree (fun hm => ?_) hls
      have := hshort.subset hm
      simp [hbefore] at this
    · rw [← hlong, List.append_assoc, List.singleton_append] at hls
      exact lexemes_head_of_slash hbefore hls
  obtain ⟨hnone, hlone⟩ := textAssignment_of_head hhead
  exact ⟨by simp [Active, hnone], hlone⟩

example : lineKind false (ascii "// \"MQTT_PORT\" : 1\n") = (.comment, false) := by decide

/-! ## Comments without parameter lines -/

/-- What a file is read as when its lines are read. -/
theorem fgetsPieces_eq (file : Bytes) :
    fgetsPieces file = (markLines false (linesOf file)).flatMap fun m => fgetsPieces m.2 := by
  have hlines := fgetsAll_flatten maxParameterTextLength (isLines_linesOf file)
  rw [flatten_linesOf] at hlines
  unfold fgetsPieces
  rw [hlines]
  conv_lhs => rw [← markLines_map_snd false (linesOf file), List.flatMap_map]

theorem fgetsPieces_strip (file : Bytes) :
    fgetsPieces (strip file) =
      ((markLines false (linesOf file)).filter (·.1 ≠ .comment)).flatMap fun m =>
        fgetsPieces m.2 := by
  have hsub : (((markLines false (linesOf file)).filter (·.1 ≠ .comment)).map (·.2)).Sublist
      (linesOf file) := by
    conv_rhs => rw [← markLines_map_snd false (linesOf file)]
    exact List.filter_sublist.map _
  have hlines := fgetsAll_flatten maxParameterTextLength ((isLines_linesOf file).sublist hsub)
  unfold fgetsPieces strip
  rw [hlines, List.flatMap_map]

/-- Pieces that assign nothing may be left out. -/
theorem filterMap_filter {marked : List (LineKind × Bytes)}
    (h : ∀ m ∈ marked, m.1 = .comment → ∀ piece ∈ fgetsPieces m.2, ¬Active piece) :
    ((marked.filter (·.1 ≠ .comment)).flatMap fun m => fgetsPieces m.2).filterMap textAssignment =
      (marked.flatMap fun m => fgetsPieces m.2).filterMap textAssignment := by
  induction marked with
  | nil => rfl
  | cons m marked ih =>
    have hrest := ih fun m' hm' => h m' (List.mem_cons_of_mem m hm')
    by_cases hm : m.1 = .comment
    · have hnone : (fgetsPieces m.2).filterMap textAssignment = [] := by
        rw [List.filterMap_eq_nil_iff]
        intro piece hp
        exact Option.not_isSome_iff_eq_none.1 (h m (by simp) hm piece hp)
      simpa [hm, hnone] using hrest
    · simpa [hm] using hrest

/-- The pieces that are left are pieces of the file. -/
theorem fgetsPieces_strip_subset (file : Bytes) : fgetsPieces (strip file) ⊆ fgetsPieces file := by
  rw [fgetsPieces_strip, fgetsPieces_eq]
  intro piece hp
  obtain ⟨m, hm, hp⟩ := List.mem_flatMap.1 hp
  exact List.mem_flatMap.2 ⟨m, (List.mem_filter.1 hm).1, hp⟩

/-! ## The effect of the comments -/

section

variable {r : Reader} {file : Bytes}

/-- A file without bare names is decoded by its text. -/
theorem lineAssignments_text (hr : BuffersSafe r) (hbare : NoBareParameterLine file) :
    lineAssignments r (fgetsPieces file) = some (textAssignments file) :=
  lineAssignments_of_not_bare hr (fun _ hp => length_lt_of_mem_fgetsPieces hp) hbare

theorem noBareParameterLine_strip (hbare : NoBareParameterLine file) :
    NoBareParameterLine (strip file) :=
  fun piece hp => hbare piece (fgetsPieces_strip_subset file hp)

/-- The comments have no effect iff the lines write the same without them. -/
theorem noEffect_iff_sameWrites (r : Reader) (file : Bytes) :
    CommentsHaveNoEffect r file ↔
      SameWrites (lineAssignments r (fgetsPieces file))
        (lineAssignments r (fgetsPieces (strip file))) := by
  unfold CommentsHaveNoEffect
  rw [readAndAssignConfigurationDetails_eq, readAndAssignConfigurationDetails_eq,
    ← assignAll_eq_iff]
  constructor
  · intro h
    have hmap := congrArg (Option.map Prod.snd) h
    rw [Option.map_map, Option.map_map] at hmap
    show loaded r file .initial = loaded r (strip file) .initial
    simpa [Function.comp_def] using hmap
  · exact fun h => congrArg (Option.map fun p => (ErrorCode.success, p)) h

/-- Comments without parameter lines write nothing. -/
theorem textAssignments_strip
    (h : ∀ l ∈ commentLines file, ∀ piece ∈ fgetsPieces l, ¬Active piece) :
    textAssignments (strip file) = textAssignments file := by
  unfold textAssignments
  rw [fgetsPieces_strip, fgetsPieces_eq, filterMap_filter]
  intro m hm hk piece hp
  exact h m.2 (List.mem_map_of_mem (List.mem_filter.2 ⟨hm, by simpa using hk⟩)) piece hp

/-- **Comments without parameter lines have no effect.** -/
theorem noEffect_of_not_active (hr : BuffersSafe r) (hbare : NoBareParameterLine file)
    (h : ∀ l ∈ commentLines file, ∀ piece ∈ fgetsPieces l, ¬Active piece) :
    CommentsHaveNoEffect r file := by
  rw [noEffect_iff_sameWrites, lineAssignments_text hr hbare,
    lineAssignments_text hr (noBareParameterLine_strip hbare), textAssignments_strip h]
  exact SameWrites.refl _

end

end TrackerDemo.Config

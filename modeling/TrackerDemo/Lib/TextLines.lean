import TrackerDemo.Lib.CString

/-!
# Lines of a text file

A text file read with `fgets` into a buffer of `size` bytes comes in pieces: its
lines, where a line that does not fit is cut.

Results:
* `length_lt_of_mem_fgetsAll`: a piece fits the buffer.
* `isLines_linesOf`, `flatten_linesOf`: every file is the list of its lines.
* `piecesFrom_flatten`: each line is cut on its own.
* `linesOf_flatten`: a list of lines is the lines of its text.
-/

namespace TrackerDemo.TextLines

open TrackerDemo.CString

/-! ## Cutting a file -/

/-- Cut a file behind each newline, and where a piece has a length that is
    `full`. The piece being read starts with `acc`. -/
def piecesFrom (full : ℕ → Bool) (acc : Bytes) : Bytes → List Bytes
  | [] => if acc = [] then [] else [acc]
  | c :: file =>
    if c = 10 ∨ full (acc.length + 1) then (acc ++ [c]) :: piecesFrom full [] file
    else piecesFrom full (acc ++ [c]) file

/-- What successive calls of `fgets(buf, size, file)` read until they return
    `NULL`: up to a newline, but at most `size - 1` bytes. -/
def fgetsAll (size : ℕ) (file : Bytes) : List Bytes :=
  piecesFrom (fun length => length + 1 = size) [] file

/-- The lines of a file, of any length. -/
def linesOf (file : Bytes) : List Bytes := piecesFrom (fun _ => false) [] file

/-- A buffer after `fgets` has stored a piece and its NUL there. -/
def fgetsInto (buffer piece : Bytes) : Bytes := piece ++ 0 :: buffer.drop (piece.length + 1)

/-- The C string in the buffer is the one in the piece. -/
theorem cString_fgetsInto (buffer piece : Bytes) :
    cString (fgetsInto buffer piece) = cString piece := by
  unfold fgetsInto
  by_cases h : (0 : Byte) ∈ piece
  · obtain ⟨a, b, rfl, ha⟩ := List.eq_append_cons_of_mem h
    rw [cString_append_zero ha, List.append_assoc, List.cons_append, cString_append_zero ha]
  · rw [cString_append_zero h, cString_eq_self h]

theorem length_lt_of_mem_piecesFrom {size : ℕ} {acc file piece : Bytes}
    (hacc : acc.length + 1 < size)
    (h : piece ∈ piecesFrom (fun length => length + 1 = size) acc file) : piece.length < size := by
  induction file generalizing acc with
  | nil =>
    unfold piecesFrom at h
    split_ifs at h
    · cases h
    · rw [List.mem_singleton.1 h]
      omega
  | cons c file ih =>
    have hlen : (acc ++ [c]).length = acc.length + 1 := by simp
    unfold piecesFrom at h
    split_ifs at h with hc
    · rcases List.mem_cons.1 h with rfl | hmem
      · omega
      · exact ih (by simp; omega) hmem
    · refine ih ?_ h
      rw [not_or, decide_eq_true_eq] at hc
      omega

/-- A piece fits the buffer together with its NUL. -/
theorem length_lt_of_mem_fgetsAll {size : ℕ} (hsize : 1 < size) {file piece : Bytes}
    (h : piece ∈ fgetsAll size file) : piece.length < size :=
  @length_lt_of_mem_piecesFrom size [] file piece (by simpa using hsize) h

variable {full : ℕ → Bool}

/-- Nothing is lost. -/
theorem flatten_piecesFrom (acc file : Bytes) :
    (piecesFrom full acc file).flatten = acc ++ file := by
  induction file generalizing acc with
  | nil => by_cases h : acc = [] <;> simp [piecesFrom, h]
  | cons c file ih =>
    unfold piecesFrom
    split_ifs
    · simp [ih]
    · rw [ih, List.append_assoc]
      rfl

/-- Reading starts afresh after a newline. -/
theorem piecesFrom_append {acc text : Bytes} (h : (10 : Byte) ∉ text) (file : Bytes) :
    piecesFrom full acc (text ++ 10 :: file) =
      piecesFrom full acc (text ++ [10]) ++ piecesFrom full [] file := by
  induction text generalizing acc with
  | nil => simp [piecesFrom]
  | cons c text ih =>
    have htext : (10 : Byte) ∉ text := fun hm => h (List.mem_cons_of_mem c hm)
    simp only [List.cons_append, piecesFrom]
    split_ifs
    · rw [ih htext, List.cons_append]
    · exact ih htext

/-- A piece is full. -/
theorem piecesFrom_cut {acc text : Bytes} (hne : text ≠ []) (h : (10 : Byte) ∉ text)
    (hfull : ∀ k, full k = true ↔ k = (acc ++ text).length) (file : Bytes) :
    piecesFrom full acc (text ++ file) = (acc ++ text) :: piecesFrom full [] file := by
  induction text generalizing acc with
  | nil => exact absurd rfl hne
  | cons c text ih =>
    have hc : c ≠ 10 := fun heq => h (heq ▸ List.mem_cons_self)
    have hassoc : acc ++ c :: text = acc ++ [c] ++ text := by simp
    rw [hassoc] at hfull ⊢
    rw [List.cons_append, piecesFrom]
    by_cases hnil : text = []
    · subst hnil
      rw [if_pos (.inr ((hfull _).2 (by simp)))]
      simp
    · have hlen : 0 < text.length := List.length_pos_iff.2 hnil
      rw [if_neg, ih hnil (fun hm => h (List.mem_cons_of_mem c hm)) hfull]
      rw [not_or, hfull]
      refine ⟨hc, ?_⟩
      simp only [List.length_append, List.length_singleton]
      omega

/-- A line that does not fit the buffer is cut where the buffer is full. -/
theorem fgetsAll_cut {size : ℕ} {text : Bytes} (hne : text ≠ []) (h : (10 : Byte) ∉ text)
    (hlen : text.length + 1 = size) (file : Bytes) :
    fgetsAll size (text ++ file) = text :: fgetsAll size file := by
  refine piecesFrom_cut hne h (fun k => ?_) file
  rw [decide_eq_true_eq, List.nil_append]
  omega

/-! ## Lines -/

/-- A line ends at its newline; it may lack it. -/
structure Line (line : Bytes) : Prop where
  ne_nil : line ≠ []
  newline : (10 : Byte) ∉ line.dropLast

/-- A line with its newline. -/
def Ended (line : Bytes) : Prop := ∃ text, line = text ++ [10]

/-- The lines of some file: only the last one may lack its newline. -/
structure IsLines (lines : List Bytes) : Prop where
  line : ∀ line ∈ lines, Line line
  ended : lines.Pairwise fun line _ => Ended line

theorem IsLines.sublist {lines lines' : List Bytes} (h : IsLines lines')
    (hs : lines.Sublist lines') : IsLines lines :=
  ⟨fun l hl => h.line l (hs.subset hl), h.ended.sublist hs⟩

/-- Lines may stand before others when all of them are ended. -/
theorem IsLines.append {lines lines' : List Bytes} (h : ∀ l ∈ lines, Line l ∧ Ended l)
    (h' : IsLines lines') : IsLines (lines ++ lines') := by
  refine ⟨fun l hl => ?_, ?_⟩
  · rcases List.mem_append.1 hl with hmem | hmem
    · exact (h l hmem).1
    · exact h'.line l hmem
  · rw [List.pairwise_append]
    refine ⟨?_, h'.ended, fun l hl _ _ => (h l hl).2⟩
    rw [List.pairwise_iff_forall_sublist]
    exact fun hs => (h _ (hs.subset (by simp))).2

/-- A text without an inner newline that is never full is one piece. -/
theorem piecesFrom_line {acc line : Bytes} (hne : acc ++ line ≠ [])
    (h : (10 : Byte) ∉ line.dropLast) (hfull : ∀ k < (acc ++ line).length, full k = false) :
    piecesFrom full acc line = [acc ++ line] := by
  induction line generalizing acc with
  | nil =>
    rw [List.append_nil] at hne ⊢
    simp [piecesFrom, hne]
  | cons c line ih =>
    cases line with
    | nil => simp [piecesFrom]
    | cons d line =>
      rw [List.dropLast_cons_of_ne_nil (by simp), List.mem_cons, not_or] at h
      have hk : full (acc.length + 1) = false := hfull _ (by simp)
      have hc : ¬(c = 10 ∨ full (acc.length + 1) = true) := by
        rintro (rfl | htrue)
        · exact h.1 rfl
        · rw [hk] at htrue
          cases htrue
      rw [piecesFrom, if_neg hc, ih (by simp) h.2 fun k hlt => hfull k (by simpa using hlt)]
      simp

/-- Each line is cut on its own. -/
theorem piecesFrom_flatten {lines : List Bytes} (h : IsLines lines) :
    piecesFrom full [] lines.flatten = lines.flatMap (piecesFrom full []) := by
  induction lines with
  | nil => rfl
  | cons line lines ih =>
    have hrest : IsLines lines := h.sublist (List.sublist_cons_self line lines)
    cases lines with
    | nil => simp
    | cons line' lines =>
      obtain ⟨text, rfl⟩ : Ended line := (List.pairwise_cons.1 h.ended).1 line' (by simp)
      have htext := (h.line (text ++ [10]) (by simp)).newline
      rw [List.dropLast_concat] at htext
      rw [List.flatten_cons, List.append_assoc, List.singleton_append, piecesFrom_append htext,
        ih hrest]
      rfl

theorem fgetsAll_flatten (size : ℕ) {lines : List Bytes} (h : IsLines lines) :
    fgetsAll size lines.flatten = lines.flatMap (fgetsAll size) := piecesFrom_flatten h

/-- A line that fits the buffer is read whole. -/
theorem fgetsAll_line {size : ℕ} {line : Bytes} (h : Line line) (hlen : line.length < size) :
    fgetsAll size line = [line] := by
  refine piecesFrom_line (by simpa using h.ne_nil) h.newline fun k hk => ?_
  have : k + 1 ≠ size := by
    rw [List.nil_append] at hk
    omega
  simpa using this

/-- A list of lines is the lines of its text. -/
theorem linesOf_flatten {lines : List Bytes} (h : IsLines lines) :
    linesOf lines.flatten = lines := by
  have hone : ∀ l ∈ lines, piecesFrom (fun _ => false) [] l = [l] := fun l hl =>
    piecesFrom_line (by simpa using (h.line l hl).ne_nil) (h.line l hl).newline fun _ _ => rfl
  unfold linesOf
  rw [piecesFrom_flatten h, List.flatMap_congr hone]
  simp

theorem flatten_linesOf (file : Bytes) : (linesOf file).flatten = file :=
  flatten_piecesFrom [] file

theorem isLines_piecesFrom {acc : Bytes} (h : (10 : Byte) ∉ acc) (file : Bytes) :
    IsLines (piecesFrom (fun _ => false) acc file) := by
  induction file generalizing acc with
  | nil =>
    unfold piecesFrom
    split_ifs with hacc
    · exact ⟨by simp, .nil⟩
    · refine ⟨fun l hl => ?_, by simp⟩
      rw [List.mem_singleton.1 hl]
      exact ⟨hacc, fun hm => h (List.dropLast_subset acc hm)⟩
  | cons c file ih =>
    unfold piecesFrom
    by_cases hc : c = 10
    · subst hc
      rw [if_pos (.inl rfl)]
      refine @IsLines.append [acc ++ [10]] _ (fun l hl => ?_) (ih (by simp))
      rw [List.mem_singleton.1 hl]
      exact ⟨⟨by simp, by simpa using h⟩, acc, rfl⟩
    · rw [if_neg (by simpa using hc)]
      exact ih (by simpa [h] using Ne.symm hc)

theorem isLines_linesOf (file : Bytes) : IsLines (linesOf file) :=
  isLines_piecesFrom (by simp) file

end TrackerDemo.TextLines

import Mathlib.Data.List.DropRight
import Mathlib.Data.List.GetD
import TrackerDemo.Lib.CString

/-!
# Trimming white space in place

Model of `trimWhiteSpace` (`utilities.c`, lines 36–54). The function moves a
pointer past the leading white space and ends the text in the buffer; a buffer
is a list of bytes and a pointer an index into it.

Results:
* `skipLeading_eq`, `skipTrailing_eq`: where the two loops stop.
* `trimWhiteSpace_eq`: the pointer returned and the buffer left behind.
* `trimWhiteSpace_trimmed`: the result is the reference trim, and trimming it
  again changes nothing.
-/

namespace TrackerDemo.Utilities

open TrackerDemo.CString

/-! ## Reference -/

/-- The text without its leading and trailing white space. -/
def trim (text : Bytes) : Bytes := (text.dropWhile isSpace).rdropWhile isSpace

/-- A trimmed text does not start with white space. -/
theorem takeWhile_trim (text : Bytes) : (trim text).takeWhile isSpace = [] := by
  obtain ⟨rest, hrest⟩ := List.rdropWhile_prefix isSpace (text.dropWhile isSpace)
  cases htrim : trim text with
  | nil => rfl
  | cons c t =>
    have hbody : text.dropWhile isSpace = c :: (t ++ rest) := by
      rw [← hrest]
      exact congrArg (· ++ rest) htrim
    have hc := List.head_dropWhile_not isSpace (l := text) (by rw [hbody]; simp)
    simp only [hbody, List.head_cons] at hc
    simp [hc]

theorem trim_trim (text : Bytes) : trim (trim text) = trim text := by
  have hlead : (trim text).dropWhile isSpace = trim text := by
    conv_rhs => rw [← List.takeWhile_append_dropWhile (p := isSpace) (l := trim text)]
    rw [takeWhile_trim, List.nil_append]
  conv_lhs => rw [trim, hlead]
  exact List.rdropWhile_idempotent isSpace _

/-- Nothing is left of a text of white space. -/
theorem trim_eq_nil_iff {text : Bytes} : trim text = [] ↔ ∀ c ∈ text, isSpace c = true := by
  constructor
  · intro h
    rw [← List.dropWhile_eq_nil_iff]
    by_contra hne
    have hspace := List.rdropWhile_eq_nil_iff.1 h _ (List.head_mem hne)
    rw [List.head_dropWhile_not isSpace hne] at hspace
    cases hspace
  · intro h
    unfold trim
    rw [List.dropWhile_eq_nil_iff.2 h]
    rfl

/-! ## The code -/

/-- There is no white space behind the buffer. -/
theorem lt_length_of_isSpace {m : Bytes} {i : ℕ} (h : isSpace (m.getD i 0) = true) :
    i < m.length := by
  by_contra hge
  rw [List.getD_eq_default _ _ (by omega)] at h
  exact absurd h (by decide)

/-- Line 41: `while(isspace(*str)) str++`. -/
def skipLeading (m : Bytes) (str : ℕ) : ℕ :=
  if h : isSpace (m.getD str 0) then skipLeading m (str + 1) else str
termination_by m.length - str
decreasing_by
  have := lt_length_of_isSpace h
  omega

/-- Line 48: `while(end > str && isspace(*end)) end--`. -/
def skipTrailing (m : Bytes) (str stop : ℕ) : ℕ :=
  if stop > str ∧ isSpace (m.getD stop 0) then skipTrailing m str (stop - 1) else stop
termination_by stop

/-- `trimWhiteSpace`: the buffer after the call, and the pointer returned. -/
def trimWhiteSpace (m : Bytes) (str : ℕ) : Bytes × ℕ :=
  let str := skipLeading m str
  if m.getD str 0 = 0 then (m, str)
  else
    let stop := str + (cString (m.drop str)).length - 1
    let stop := skipTrailing m str stop
    (m.set (stop + 1) 0, str)

/-! ## The loops -/

/-- A NUL is no white space. -/
theorem takeWhile_isSpace_cString (m : Bytes) :
    (cString m).takeWhile isSpace = m.takeWhile isSpace := by
  unfold cString
  rw [List.takeWhile_takeWhile]
  congr 1
  funext b
  by_cases hb : b = 0
  · subst hb
    rfl
  · simp [hb]

/-- The first loop stops behind the leading white space. -/
theorem skipLeading_eq (m : Bytes) (str : ℕ) :
    skipLeading m str = str + ((cString (m.drop str)).takeWhile isSpace).length := by
  rw [takeWhile_isSpace_cString]
  induction str using skipLeading.induct m with
  | case1 str hspace ih =>
    have hlt := lt_length_of_isSpace hspace
    rw [skipLeading, dif_pos hspace, ih]
    rw [List.getD_eq_getElem _ _ hlt] at hspace
    rw [List.drop_eq_getElem_cons hlt, List.takeWhile_cons_of_pos hspace, List.length_cons]
    omega
  | case2 str hspace =>
    rw [skipLeading, dif_neg hspace]
    by_cases hlt : str < m.length
    · rw [List.getD_eq_getElem _ _ hlt] at hspace
      rw [List.drop_eq_getElem_cons hlt, List.takeWhile_cons_of_neg hspace]
      rfl
    · rw [List.drop_eq_nil_of_le (by omega)]
      rfl

/-- On a text that does not start with white space, the second loop stops at the
    last byte that is none. -/
theorem skipTrailing_eq {m text : Bytes} {str : ℕ} (hne : text ≠ [])
    (hhead : isSpace (text.head hne) = false)
    (hm : ∀ i (hi : i < text.length), m.getD (str + i) 0 = text[i]) :
    skipTrailing m str (str + text.length - 1) + 1 =
      str + (text.rdropWhile isSpace).length := by
  induction text using List.reverseRecOn with
  | nil => exact absurd rfl hne
  | append_singleton text c ih =>
    have hlast : m.getD (str + text.length) 0 = c := by
      rw [hm text.length (by simp)]
      simp
    have hstop : str + (text ++ [c]).length - 1 = str + text.length := by simp
    rw [hstop, skipTrailing, hlast]
    by_cases hc : isSpace c = true
    · -- the text has more than this byte, as its head is no white space
      have htext : text ≠ [] := by
        rintro rfl
        simp [hc] at hhead
      have hpos := List.length_pos_iff.2 htext
      rw [if_pos ⟨by omega, hc⟩, List.rdropWhile_concat_pos _ _ _ hc]
      refine ih htext ?_ fun i hi => ?_
      · rw [← hhead, List.head_append_of_ne_nil htext]
      · rw [hm i (by simp; omega), List.getElem_append_left hi]
    · rw [if_neg fun h => hc h.2, List.rdropWhile_concat_neg _ _ _ hc]
      simp
      omega

/-! ## The result -/

/-- The NUL behind a text is in the rest of the buffer as well. -/
theorem zero_mem_drop_add {m : Bytes} {str k : ℕ} (h : (0 : Byte) ∈ m.drop str)
    (hk : k ≤ (cString (m.drop str)).length) : (0 : Byte) ∈ m.drop (str + k) := by
  obtain ⟨rest, hrest⟩ := eq_cString_append h
  rw [← List.drop_drop, hrest, List.drop_append_of_le_length hk]
  simp

theorem getD_drop (m : Bytes) (str i : ℕ) : (m.drop str).getD i 0 = m.getD (str + i) 0 := by
  simp [List.getD_eq_getElem?_getD, List.getElem?_drop]

/-- Where the first loop stops, the text is the rest. -/
theorem cString_drop_skipLeading (m : Bytes) (str : ℕ) :
    cString (m.drop (skipLeading m str)) = (cString (m.drop str)).dropWhile isSpace := by
  have hsplit := List.takeWhile_append_dropWhile (p := isSpace) (l := cString (m.drop str))
  have hk := (List.takeWhile_prefix (l := cString (m.drop str)) isSpace).length_le
  calc cString (m.drop (skipLeading m str))
      = (cString (m.drop str)).drop ((cString (m.drop str)).takeWhile isSpace).length := by
        rw [skipLeading_eq, ← List.drop_drop, cString_drop _ hk]
    _ = ((cString (m.drop str)).takeWhile isSpace ++ (cString (m.drop str)).dropWhile isSpace).drop
          ((cString (m.drop str)).takeWhile isSpace).length := by rw [hsplit]
    _ = (cString (m.drop str)).dropWhile isSpace := List.drop_left

/-- **What the call does.** The pointer moves past the leading white space, and
    the text there is ended behind its last byte that is no white space. -/
theorem trimWhiteSpace_eq {m : Bytes} {str : ℕ} (h : (0 : Byte) ∈ m.drop str) :
    trimWhiteSpace m str =
      (if trim (cString (m.drop str)) = [] then m
        else m.set (skipLeading m str + (trim (cString (m.drop str))).length) 0,
      skipLeading m str) := by
  have hbody := cString_drop_skipLeading m str
  have hzero : (0 : Byte) ∈ m.drop (skipLeading m str) := by
    rw [skipLeading_eq]
    exact zero_mem_drop_add h (List.takeWhile_prefix _).length_le
  obtain ⟨rest, hrest⟩ := eq_cString_append hzero
  have hhead := List.head_dropWhile_not isSpace (l := cString (m.drop str))
  unfold trimWhiteSpace trim
  rw [← hbody] at hhead ⊢
  dsimp only
  generalize skipLeading m str = p at *
  have hbyte : ∀ i, m.getD (p + i) 0 = (cString (m.drop p) ++ 0 :: rest).getD i 0 := by
    intro i
    rw [← hrest, getD_drop]
  by_cases hnil : cString (m.drop p) = []
  · have hp : m.getD p 0 = 0 := by simpa [hnil] using hbyte 0
    rw [if_pos hp, hnil]
    rfl
  · have hc := hhead hnil
    have hp : m.getD p 0 ≠ 0 := by
      intro heq
      have h0 := zero_notMem_cString (m.drop p)
      obtain ⟨c, text, ht⟩ := List.exists_cons_of_ne_nil hnil
      have hbyte0 := hbyte 0
      rw [ht, Nat.add_zero, heq] at hbyte0
      rw [ht] at h0
      exact h0 (by simpa using .inl hbyte0)
    have htrim : (cString (m.drop p)).rdropWhile isSpace ≠ [] := by
      rw [ne_eq, List.rdropWhile_eq_nil_iff]
      intro hall
      rw [hall _ (List.head_mem hnil)] at hc
      cases hc
    rw [if_neg hp, if_neg htrim, skipTrailing_eq hnil hc]
    intro i hi
    rw [hbyte, List.getD_append _ _ _ _ hi, List.getD_eq_getElem _ _ hi]

/-- What trimming the text at `str` should do to the buffer. -/
structure Trimmed (m : Bytes) (str : ℕ) (m' : Bytes) (str' : ℕ) : Prop where
  /-- The pointer moves past the leading white space. -/
  pointer : str' = str + ((cString (m.drop str)).takeWhile isSpace).length
  /-- The text there is the trimmed one. -/
  text : cString (m'.drop str') = trim (cString (m.drop str))
  /-- Only the byte behind the last one that is no white space may change, to
      NUL. -/
  frame : ∀ i, m'.getD i 0 ≠ m.getD i 0 →
    i = str' + (trim (cString (m.drop str))).length ∧ m'.getD i 0 = 0
  /-- A text of white space leaves the buffer as it is. -/
  blank : (∀ c ∈ cString (m.drop str), isSpace c = true) → m' = m
  length : m'.length = m.length
  /-- There is nothing left to trim. -/
  again : trimWhiteSpace m' str' = (m', str')

/-- The buffer with a NUL behind the start of a text. -/
theorem drop_set_of_prefix {m : Bytes} {p : ℕ} {text : Bytes} (h : (0 : Byte) ∈ m.drop p)
    (hstart : text <+: cString (m.drop p)) :
    ∃ rest, (m.set (p + text.length) 0).drop p = text ++ 0 :: rest := by
  obtain ⟨rest, hrest⟩ := eq_cString_append h
  obtain ⟨spaces, hspaces⟩ := hstart
  have hset : (m.set (p + text.length) 0).drop p = (m.drop p).set text.length 0 := by
    rw [List.drop_set, if_neg (by omega), Nat.add_sub_cancel_left]
  have hlt : text.length < (m.drop p).length := by
    rw [hrest, ← hspaces]
    simp
  rw [hset, List.set_eq_take_append_cons_drop, if_pos hlt, hrest, ← hspaces, List.append_assoc,
    List.take_left]
  exact ⟨_, rfl⟩

/-- A trimmed text is left as it is. -/
theorem trimWhiteSpace_of_trim_eq {m : Bytes} {p : ℕ} (h : (0 : Byte) ∈ m.drop p)
    (htext : trim (cString (m.drop p)) = cString (m.drop p)) : trimWhiteSpace m p = (m, p) := by
  have hskip : skipLeading m p = p := by
    rw [skipLeading_eq, ← htext, takeWhile_trim]
    rfl
  obtain ⟨rest, hrest⟩ := eq_cString_append h
  have hend : m[p + (cString (m.drop p)).length]? = some 0 := by
    have hat := congrArg (fun l : Bytes => l[(cString (m.drop p)).length]?) hrest
    simpa using hat
  obtain ⟨hlt, hval⟩ := List.getElem?_eq_some_iff.1 hend
  have hset : m.set (p + (cString (m.drop p)).length) 0 = m := by
    conv_lhs => rw [← hval]
    exact List.set_getElem_self hlt
  rw [trimWhiteSpace_eq h, hskip, htext, hset, ite_self]

/-- **The reference trim.** The call trims the text in place, changes one byte at
    most, and is idempotent. -/
theorem trimWhiteSpace_trimmed {m : Bytes} {str : ℕ} (h : (0 : Byte) ∈ m.drop str) :
    Trimmed m str (trimWhiteSpace m str).1 (trimWhiteSpace m str).2 := by
  have hskip := skipLeading_eq m str
  have hbody := cString_drop_skipLeading m str
  have hzero : (0 : Byte) ∈ m.drop (skipLeading m str) := by
    rw [hskip]
    exact zero_mem_drop_add h (List.takeWhile_prefix _).length_le
  have hstart : trim (cString (m.drop str)) <+: cString (m.drop (skipLeading m str)) := by
    rw [hbody]
    exact List.rdropWhile_prefix _ _
  rw [trimWhiteSpace_eq h]
  by_cases hnil : trim (cString (m.drop str)) = []
  · have hblank : cString (m.drop (skipLeading m str)) = [] := by
      rw [hbody, List.dropWhile_eq_nil_iff]
      exact trim_eq_nil_iff.1 hnil
    rw [if_pos hnil]
    constructor
    · exact hskip
    · rw [hblank, hnil]
    · exact fun i hi => absurd rfl hi
    · exact fun _ => rfl
    · rfl
    · exact trimWhiteSpace_of_trim_eq hzero (by rw [hblank]; rfl)
  · obtain ⟨rest, hrest⟩ := drop_set_of_prefix hzero hstart
    have h0 : (0 : Byte) ∉ trim (cString (m.drop str)) := fun hmem =>
      zero_notMem_cString _ (hstart.subset hmem)
    have htext := cString_append_zero h0 rest
    rw [← hrest] at htext
    rw [if_neg hnil]
    constructor
    · exact hskip
    · exact htext
    · intro i hi
      rw [List.getD_eq_getElem?_getD, List.getD_eq_getElem?_getD, List.getElem?_set] at hi
      rw [List.getD_eq_getElem?_getD, List.getElem?_set]
      split_ifs at hi ⊢ with hp hlt
      · exact ⟨hp.symm, rfl⟩
      · exact ⟨hp.symm, rfl⟩
      · exact absurd rfl hi
    · exact fun hspace => absurd (trim_eq_nil_iff.2 hspace) hnil
    · exact List.length_set
    · refine trimWhiteSpace_of_trim_eq ?_ ?_
      · rw [hrest]
        simp
      · rw [htext, trim_trim]

/-- `trimWhiteSpace_trimmed` for a text with white space on both sides. -/
theorem trimWhiteSpace_trimmed_sample :
    let m := ascii "\t a b \n" ++ [0]
    Trimmed m 0 (trimWhiteSpace m 0).1 (trimWhiteSpace m 0).2 ∧
      trim (cString m) = ascii "a b" :=
  ⟨trimWhiteSpace_trimmed (by decide), by decide⟩

end TrackerDemo.Utilities

import TrackerDemo.Jsmn.Basic

/-!
# jsmn as a byte-by-byte scanner

The scanner reads the text one byte at a time and collects lexemes: the kind of
each token and, for a string or primitive, its text. It has no positions and no
superior tokens, so scanning `a ++ b` is scanning `b` from where `a` ended. The
tokens are kept latest first.

Results:
* `scanFrom_append`: scanning is compositional.
* `scanFrom_failed`: an error is final.
* `scan_primitive_end`: a primitive's token may be added before its delimiter.

`Refinement.lean` proves that `jsmnParse` computes this scanner.
-/

namespace TrackerDemo.Jsmn

open TrackerDemo.CString

/-- A token without its position: an object or array has no text and may still
    be open. -/
structure Lexeme where
  kind : JsmnType
  text : Bytes
  isOpen : Bool
  deriving DecidableEq, Repr

/-- What the scanner is inside of: nothing, a primitive or a string with the
    text read so far (in an escape `\u`, with the digits it may still have), the
    character after a backslash, or an error. -/
inductive Mode
  | between
  | primitive (acc : Bytes)
  | string (acc : Bytes) (hex : ℕ)
  | escape (acc : Bytes)
  | failed (e : JsmnErr)
  deriving DecidableEq, Repr

/-- The state of the scanner. -/
structure Scan where
  mode : Mode
  toks : List Lexeme
  deriving DecidableEq, Repr

/-! ## The scanner -/

/-- A new token, if the array of `n` has room for it. -/
def addToken (n : ℕ) (toks : List Lexeme) (l : Lexeme) : Scan :=
  if toks.length < n then ⟨.between, l :: toks⟩ else ⟨.failed .nomem, toks⟩

/-- `addToken` has room or reports `JSMN_ERROR_NOMEM`. -/
theorem addToken_of_lt {n : ℕ} {toks : List Lexeme} (h : toks.length < n) (l : Lexeme) :
    addToken n toks l = ⟨.between, l :: toks⟩ := if_pos h

theorem addToken_of_le {n : ℕ} {toks : List Lexeme} (h : n ≤ toks.length) (l : Lexeme) :
    addToken n toks l = ⟨.failed .nomem, toks⟩ := if_neg (by omega)

/-- Close the latest open token, which must be of the given kind. -/
def closeLast (kind : JsmnType) : List Lexeme → Option (List Lexeme)
  | [] => none
  | l :: ls =>
    if l.isOpen then if l.kind = kind then some ({ l with isOpen := false } :: ls) else none
    else (closeLast kind ls).map (l :: ·)

/-- A closing bracket. -/
def closeToken (toks : List Lexeme) (kind : JsmnType) : Scan :=
  match closeLast kind toks with
  | none => ⟨.failed .inval, toks⟩
  | some toks => ⟨.between, toks⟩

theorem closeToken_eq {toks toks' : List Lexeme} {kind : JsmnType}
    (h : closeLast kind toks = some toks') : closeToken toks kind = ⟨.between, toks'⟩ := by
  unfold closeToken
  rw [h]

/-- A byte outside of primitives and strings. -/
def betweenByte (n : ℕ) (toks : List Lexeme) (c : Byte) : Scan :=
  if c = 123 then addToken n toks ⟨.object, [], true⟩
  else if c = 91 then addToken n toks ⟨.array, [], true⟩
  else if c = 125 then closeToken toks .object
  else if c = 93 then closeToken toks .array
  else if c = 34 then ⟨.string [] 0, toks⟩
  else if isBlank c ∨ c = 58 ∨ c = 44 then ⟨.between, toks⟩
  else if outsidePrimitive c then ⟨.failed .inval, toks⟩
  else ⟨.primitive [c], toks⟩

/-- One byte. -/
def scanByte (n : ℕ) (s : Scan) (c : Byte) : Scan :=
  match s.mode with
  | .failed _ => s
  | .between => betweenByte n s.toks c
  | .primitive acc =>
    if endsPrimitive c then
      match addToken n s.toks ⟨.primitive, acc, false⟩ with
      | ⟨.between, toks⟩ => betweenByte n toks c
      | s' => s'
    else if outsidePrimitive c then ⟨.failed .inval, s.toks⟩
    else ⟨.primitive (acc ++ [c]), s.toks⟩
  | .string acc (hex + 1) =>
    if isHex c then ⟨.string (acc ++ [c]) hex, s.toks⟩ else ⟨.failed .inval, s.toks⟩
  | .string acc 0 =>
    if c = 34 then addToken n s.toks ⟨.string, acc, false⟩
    else if c = 92 then ⟨.escape (acc ++ [c]), s.toks⟩
    else ⟨.string (acc ++ [c]) 0, s.toks⟩
  | .escape acc =>
    if isSimpleEscape c then ⟨.string (acc ++ [c]) 0, s.toks⟩
    else if c = 117 then ⟨.string (acc ++ [c]) 4, s.toks⟩
    else ⟨.failed .inval, s.toks⟩

/-- The scanner before the first byte. -/
def Scan.start : Scan := ⟨.between, []⟩

/-- Scanning on from a state. -/
def scanFrom (n : ℕ) (s : Scan) (js : Bytes) : Scan := js.foldl (scanByte n) s

/-- The end of the text: a primitive ends there, a string must not. -/
def Scan.flush (n : ℕ) (s : Scan) : Scan :=
  match s.mode with
  | .primitive acc => addToken n s.toks ⟨.primitive, acc, false⟩
  | .string _ _ | .escape _ => ⟨.failed .part, s.toks⟩
  | .between | .failed _ => s

/-- An object or array left open at the end is an error. -/
def Scan.finish (s : Scan) : Except JsmnErr Unit :=
  match s.mode with
  | .failed e => .error e
  | _ => if s.toks.any (·.isOpen) then .error .part else .ok ()

/-- The scanner on a whole text. -/
def scanText (n : ℕ) (js : Bytes) : Scan := (scanFrom n .start js).flush n

/-- The tokens of an accepted text, first one first. -/
def lexemes (n : ℕ) (js : Bytes) : Option (List Lexeme) :=
  match (scanText n js).finish with
  | .ok _ => some (scanText n js).toks.reverse
  | .error _ => none

section

variable (n : ℕ) (toks : List Lexeme) (acc : Bytes) (c : Byte)

@[simp] theorem scanByte_between :
    scanByte n ⟨.between, toks⟩ c = betweenByte n toks c := rfl

theorem scanByte_primitive : scanByte n ⟨.primitive acc, toks⟩ c =
    if endsPrimitive c then
      match addToken n toks ⟨.primitive, acc, false⟩ with
      | ⟨.between, toks⟩ => betweenByte n toks c
      | s' => s'
    else if outsidePrimitive c then ⟨.failed .inval, toks⟩
    else ⟨.primitive (acc ++ [c]), toks⟩ := rfl

theorem scanByte_string : scanByte n ⟨.string acc 0, toks⟩ c =
    if c = 34 then addToken n toks ⟨.string, acc, false⟩
    else if c = 92 then ⟨.escape (acc ++ [c]), toks⟩
    else ⟨.string (acc ++ [c]) 0, toks⟩ := rfl

theorem scanByte_string_succ (hex : ℕ) : scanByte n ⟨.string acc (hex + 1), toks⟩ c =
    if isHex c then ⟨.string (acc ++ [c]) hex, toks⟩ else ⟨.failed .inval, toks⟩ := rfl

theorem scanByte_escape : scanByte n ⟨.escape acc, toks⟩ c =
    if isSimpleEscape c then ⟨.string (acc ++ [c]) 0, toks⟩
    else if c = 117 then ⟨.string (acc ++ [c]) 4, toks⟩
    else ⟨.failed .inval, toks⟩ := rfl

@[simp] theorem flush_between : (⟨.between, toks⟩ : Scan).flush n = ⟨.between, toks⟩ := rfl

@[simp] theorem flush_primitive : (⟨.primitive acc, toks⟩ : Scan).flush n =
    addToken n toks ⟨.primitive, acc, false⟩ := rfl

@[simp] theorem flush_failed (e : JsmnErr) :
    (⟨.failed e, toks⟩ : Scan).flush n = ⟨.failed e, toks⟩ := rfl

end

/-! ## Scanning is compositional -/

@[simp] theorem scanFrom_nil (n : ℕ) (s : Scan) : scanFrom n s [] = s := rfl

@[simp] theorem scanFrom_cons (n : ℕ) (s : Scan) (c : Byte) (js : Bytes) :
    scanFrom n s (c :: js) = scanFrom n (scanByte n s c) js := rfl

theorem scanFrom_append (n : ℕ) (s : Scan) (a b : Bytes) :
    scanFrom n s (a ++ b) = scanFrom n (scanFrom n s a) b := List.foldl_append

@[simp] theorem scanByte_failed (n : ℕ) (e : JsmnErr) (toks : List Lexeme) (c : Byte) :
    scanByte n ⟨.failed e, toks⟩ c = ⟨.failed e, toks⟩ := rfl

/-- An error is final. -/
theorem scanFrom_failed (n : ℕ) (e : JsmnErr) (toks : List Lexeme) (js : Bytes) :
    scanFrom n ⟨.failed e, toks⟩ js = ⟨.failed e, toks⟩ := by
  induction js with
  | nil => rfl
  | cons c js ih => exact ih

/-! ## What holds of every state -/

/-- The token array is not overrun, and only objects and arrays are open. -/
structure WellFormed (n : ℕ) (toks : List Lexeme) : Prop where
  length_le : toks.length ≤ n
  openKind : ∀ l ∈ toks, l.isOpen = true → l.kind = .object ∨ l.kind = .array

theorem addToken_wellFormed {n : ℕ} {toks : List Lexeme} (h : WellFormed n toks) {l : Lexeme}
    (hl : l.isOpen = true → l.kind = .object ∨ l.kind = .array) :
    WellFormed n (addToken n toks l).toks := by
  unfold addToken
  split_ifs with hlt
  · refine ⟨hlt, fun l' hl' => ?_⟩
    rcases List.mem_cons.1 hl' with rfl | hmem
    · exact hl
    · exact h.openKind l' hmem
  · exact h

/-- Closing an object or array changes no kind and no text. -/
theorem closeLast_map {kind : JsmnType} {ls ls' : List Lexeme} (h : closeLast kind ls = some ls') :
    ls'.map (fun l => (l.kind, l.text)) = ls.map fun l => (l.kind, l.text) := by
  induction ls generalizing ls' with
  | nil => cases h
  | cons l ls ih =>
    unfold closeLast at h
    split_ifs at h
    · rw [← Option.some.inj h]
      rfl
    · rw [Option.map_eq_some_iff] at h
      obtain ⟨ls'', h'', rfl⟩ := h
      simp [ih h'']

theorem closeLast_wellFormed {n : ℕ} {kind : JsmnType} {toks toks' : List Lexeme}
    (h : WellFormed n toks) (hc : closeLast kind toks = some toks') : WellFormed n toks' := by
  have hlen := congrArg List.length (closeLast_map hc)
  simp only [List.length_map] at hlen
  refine ⟨hlen.trans_le h.length_le, ?_⟩
  clear hlen
  induction toks generalizing toks' with
  | nil => cases hc
  | cons l ls ih =>
    have htail : WellFormed n ls :=
      ⟨by have := h.length_le; simp only [List.length_cons] at this; omega,
        fun l' hl' => h.openKind l' (List.mem_cons_of_mem l hl')⟩
    unfold closeLast at hc
    split_ifs at hc
    · rw [← Option.some.inj hc]
      intro l' hl' ho
      rcases List.mem_cons.1 hl' with rfl | hmem
      · cases ho
      · exact htail.openKind l' hmem ho
    · rw [Option.map_eq_some_iff] at hc
      obtain ⟨ls', hls', rfl⟩ := hc
      intro l' hl' ho
      rcases List.mem_cons.1 hl' with rfl | hmem
      · exact h.openKind l' (by simp) ho
      · exact ih htail hls' l' hmem ho

theorem betweenByte_wellFormed {n : ℕ} {toks : List Lexeme} (h : WellFormed n toks) (c : Byte) :
    WellFormed n (betweenByte n toks c).toks := by
  have hclose : ∀ kind, WellFormed n (closeToken toks kind).toks := by
    intro kind
    unfold closeToken
    cases hc : closeLast kind toks with
    | none => exact h
    | some toks' => exact closeLast_wellFormed h hc
  unfold betweenByte
  split_ifs
  · exact addToken_wellFormed h fun _ => .inl rfl
  · exact addToken_wellFormed h fun _ => .inr rfl
  · exact hclose _
  · exact hclose _
  all_goals exact h

/-- The step lemma of the invariant. -/
theorem scanByte_wellFormed {n : ℕ} {s : Scan} (h : WellFormed n s.toks) (c : Byte) :
    WellFormed n (scanByte n s c).toks := by
  obtain ⟨mode, toks⟩ := s
  have hleaf : ∀ kind text, WellFormed n (addToken n toks ⟨kind, text, false⟩).toks :=
    fun kind text => addToken_wellFormed h fun ho => by cases ho
  cases mode with
  | failed e => exact h
  | between => exact betweenByte_wellFormed h c
  | primitive acc =>
    rw [scanByte_primitive]
    split_ifs
    · rcases Nat.lt_or_ge toks.length n with hlt | hge
      · have hadded := hleaf .primitive acc
        rw [addToken_of_lt hlt] at hadded ⊢
        exact betweenByte_wellFormed hadded c
      · rw [addToken_of_le hge]
        exact h
    · exact h
    · exact h
  | string acc hex =>
    cases hex with
    | zero =>
      rw [scanByte_string]
      split_ifs
      · exact hleaf _ _
      · exact h
      · exact h
    | succ hex =>
      rw [scanByte_string_succ]
      split_ifs <;> exact h
  | escape acc =>
    rw [scanByte_escape]
    split_ifs <;> exact h

theorem scanFrom_wellFormed {n : ℕ} {s : Scan} (h : WellFormed n s.toks) (js : Bytes) :
    WellFormed n (scanFrom n s js).toks := by
  induction js generalizing s with
  | nil => exact h
  | cons c js ih => exact ih (scanByte_wellFormed h c)

theorem wellFormed_start (n : ℕ) : WellFormed n Scan.start.toks :=
  ⟨Nat.zero_le n, fun l hl => by cases hl⟩

/-! ## Closing what is open -/

/-- The byte that closes an object or array. -/
def closingByte (kind : JsmnType) : Byte := if kind = .object then 125 else 93

/-- The bytes that close all open tokens. -/
def closers (toks : List Lexeme) : Bytes :=
  (toks.filter (·.isOpen)).map fun l => closingByte l.kind

/-- The tokens with none left open. -/
def closedAll (toks : List Lexeme) : List Lexeme := toks.map fun l => { l with isOpen := false }

theorem zero_notMem_closers (toks : List Lexeme) : (0 : Byte) ∉ closers toks := by
  intro h
  unfold closers at h
  obtain ⟨l, -, hl⟩ := List.mem_map.1 h
  unfold closingByte at hl
  split_ifs at hl
  · exact absurd hl (by decide)
  · exact absurd hl (by decide)

theorem closeLast_append {pre : List Lexeme} (hpre : ∀ l ∈ pre, l.isOpen = false) {l : Lexeme}
    (ho : l.isOpen = true) (ls : List Lexeme) :
    closeLast l.kind (pre ++ l :: ls) = some (pre ++ { l with isOpen := false } :: ls) := by
  induction pre with
  | nil => simp [closeLast, ho]
  | cons p pre ih =>
    have hp := hpre p (by simp)
    rw [List.cons_append, closeLast, hp, ih fun l' hl' => hpre l' (List.mem_cons_of_mem p hl')]
    rfl

theorem scanFrom_closers_append {n : ℕ} {pre toks : List Lexeme}
    (hpre : ∀ l ∈ pre, l.isOpen = false)
    (hk : ∀ l ∈ toks, l.isOpen = true → l.kind = .object ∨ l.kind = .array) :
    scanFrom n ⟨.between, pre ++ toks⟩ (closers toks) = ⟨.between, pre ++ closedAll toks⟩ := by
  induction toks generalizing pre with
  | nil => rfl
  | cons l ls ih =>
    have hls : ∀ l' ∈ ls, l'.isOpen = true → l'.kind = .object ∨ l'.kind = .array :=
      fun l' hl' => hk l' (List.mem_cons_of_mem l hl')
    have hpre' : ∀ l' ∈ pre ++ [{ l with isOpen := false }], l'.isOpen = false := by
      intro l' hl'
      rcases List.mem_append.1 hl' with hmem | hmem
      · exact hpre l' hmem
      · rw [List.mem_singleton.1 hmem]
    have hrest := ih hpre' hls
    simp only [List.append_assoc, List.singleton_append] at hrest
    have hclosed : closedAll (l :: ls) = { l with isOpen := false } :: closedAll ls := rfl
    rw [hclosed]
    cases ho : l.isOpen with
    | false =>
      have hl : { l with isOpen := false } = l := by rw [← ho]
      have hcl : closers (l :: ls) = closers ls := by simp [closers, ho]
      rw [hcl]
      rw [hl] at hrest ⊢
      exact hrest
    | true =>
      have hcl : closers (l :: ls) = closingByte l.kind :: closers ls := by simp [closers, ho]
      have hbyte : betweenByte n (pre ++ l :: ls) (closingByte l.kind) =
          ⟨.between, pre ++ { l with isOpen := false } :: ls⟩ := by
        rcases hk l (by simp) ho with hkind | hkind
        · rw [← closeToken_eq (closeLast_append hpre ho ls)]
          simp [betweenByte, closingByte, hkind]
        · rw [← closeToken_eq (closeLast_append hpre ho ls)]
          simp [betweenByte, closingByte, hkind]
      rw [hcl, scanFrom_cons, scanByte_between, hbyte]
      exact hrest

/-- The closing bytes close everything. -/
theorem scanFrom_closers {n : ℕ} {toks : List Lexeme} (h : WellFormed n toks) :
    scanFrom n ⟨.between, toks⟩ (closers toks) = ⟨.between, closedAll toks⟩ := by
  have hnil : ∀ l ∈ ([] : List Lexeme), l.isOpen = false := fun l hl => by cases hl
  exact scanFrom_closers_append hnil h.openKind

theorem closedAll_map (toks : List Lexeme) :
    (closedAll toks).map (fun l => (l.kind, l.text)) = toks.map fun l => (l.kind, l.text) := by
  unfold closedAll
  rw [List.map_map]
  rfl

/-! ## Accepted texts -/

/-- The end of the text leaves the scanner between tokens or failed. -/
theorem flush_mode (n : ℕ) (s : Scan) :
    (s.flush n).mode = .between ∨ ∃ e, (s.flush n).mode = .failed e := by
  obtain ⟨mode, toks⟩ := s
  cases mode with
  | failed e => exact .inr ⟨e, rfl⟩
  | between => exact .inl rfl
  | primitive acc =>
    rw [flush_primitive]
    rcases Nat.lt_or_ge toks.length n with hlt | hge
    · rw [addToken_of_lt hlt]
      exact .inl rfl
    · rw [addToken_of_le hge]
      exact .inr ⟨_, rfl⟩
  | string acc hex => exact .inr ⟨_, rfl⟩
  | escape acc => exact .inr ⟨_, rfl⟩

/-- A text is accepted iff it ends between tokens with everything closed. -/
theorem lexemes_eq_some_iff {n : ℕ} {js : Bytes} {ls : List Lexeme} :
    lexemes n js = some ls ↔
      scanText n js = ⟨.between, ls.reverse⟩ ∧ ∀ l ∈ ls, l.isOpen = false := by
  have hmode := flush_mode n (scanFrom n .start js)
  unfold lexemes
  change (scanText n js).mode = .between ∨ ∃ e, (scanText n js).mode = .failed e at hmode
  generalize scanText n js = s at hmode ⊢
  obtain ⟨mode, toks⟩ := s
  rcases hmode with rfl | ⟨e, rfl⟩
  · have hany : toks.any (·.isOpen) = false ↔ ∀ l ∈ toks, l.isOpen = false := by
      rw [List.any_eq_false]
      simp
    cases ho : toks.any (·.isOpen) with
    | true =>
      have hne : ¬ ∀ l ∈ toks, l.isOpen = false := fun h => by simp [hany.2 h] at ho
      constructor
      · intro h
        simp [Scan.finish, ho] at h
      · rintro ⟨heq, hall⟩
        simp only [Scan.mk.injEq, true_and] at heq
        exact absurd (fun l hl => hall l (by simpa [heq] using hl)) hne
    | false =>
      simp only [Scan.finish, ho, Bool.false_eq_true, if_false, Option.some.injEq, Scan.mk.injEq,
        true_and]
      constructor
      · rintro rfl
        exact ⟨by simp, fun l hl => hany.1 ho l (by simpa using hl)⟩
      · rintro ⟨rfl, -⟩
        simp
  · simp [Scan.finish]

/-- A text that ends with everything closed is accepted. -/
theorem lexemes_of_scanFrom {n : ℕ} {js : Bytes} {toks : List Lexeme}
    (h : scanFrom n .start js = ⟨.between, toks⟩) (hc : ∀ l ∈ toks, l.isOpen = false) :
    lexemes n js = some toks.reverse := by
  rw [lexemes_eq_some_iff, List.reverse_reverse]
  refine ⟨by rw [scanText, h, flush_between], fun l hl => hc l (List.mem_reverse.1 hl)⟩

/-! ## Primitives -/

/-- A primitive that ends before a delimiter or at the end of the text is the
    same as its token added there. -/
theorem scan_primitive_end (n : ℕ) (toks : List Lexeme) (acc : Bytes) {js : Bytes}
    (h : ∀ c ∈ js.head?, endsPrimitive c = true) :
    (scanFrom n ⟨.primitive acc, toks⟩ js).flush n =
      (scanFrom n (addToken n toks ⟨.primitive, acc, false⟩) js).flush n := by
  rcases Nat.lt_or_ge toks.length n with hlt | hge
  · rw [addToken_of_lt hlt]
    cases js with
    | nil => simp [Scan.flush, addToken_of_lt hlt]
    | cons c js =>
      have hc : endsPrimitive c = true := h c (by simp)
      simp [scanByte, hc, addToken_of_lt hlt]
  · rw [addToken_of_le hge, scanFrom_failed]
    cases js with
    | nil => simp [Scan.flush, addToken_of_le hge]
    | cons c js =>
      have hc : endsPrimitive c = true := h c (by simp)
      simp [scanByte, hc, addToken_of_le hge, scanFrom_failed]

end TrackerDemo.Jsmn

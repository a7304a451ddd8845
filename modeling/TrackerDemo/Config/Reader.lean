import TrackerDemo.Config.Assignment
import TrackerDemo.Jsmn.CopyToken
import TrackerDemo.Lib.TextLines

/-!
# Reading the configuration file

Model of `readAndAssignConfigurationDetails` (`GlobalConfig.c`, lines 96–292).
The arrays `Tokens` and `configLine` are not initialised and keep their contents
from one line to the next, so they are the state of the reader. `none` is an
access outside of an array.

Results:
* `lineAssignment_eq`: a line acts by its first two tokens; when jsmn finds only
  one, the second is the one left in the array.
* `readLines_eq`: the tokens are decoded independently of the parameters.
* `lineAssignments_eq_filterMap`: without lone strings, every line acts by its
  own text.
-/

namespace TrackerDemo.Config

open TrackerDemo.CString TrackerDemo.Jsmn TrackerDemo.TextLines

/-! ## The reader -/

/-- `MAX_PARSE_TOKENS`. -/
def maxParseTokens : ℕ := 10

/-- The arrays `Tokens` and `configLine`. -/
structure Reader where
  tokens : Tokens
  configLine : Bytes

/-- The arrays on a zeroed stack. -/
def Reader.zeroed : Reader := ⟨zeroTokens, List.replicate maxParameterTextLength 0⟩

/-- The pieces in which line 117 reads a file. -/
def fgetsPieces (file : Bytes) : List Bytes := fgetsAll maxParameterTextLength file

theorem length_lt_of_mem_fgetsPieces {file piece : Bytes} (h : piece ∈ fgetsPieces file) :
    piece.length < maxParameterTextLength :=
  length_lt_of_mem_fgetsAll (by simp) h

/-- Lines 117–124: `NumTokens`, and the arrays after the two calls. -/
def Reader.parseLine (r : Reader) (piece : Bytes) : Except JsmnErr ℕ × Reader :=
  let configLine := fgetsInto r.configLine piece
  let (numTokens, tokens) := jsmnParse (cString configLine) maxParseTokens r.tokens
  (numTokens, ⟨tokens, configLine⟩)

/-- Lines 134–281: the branch that the first two tokens select, if any. -/
def Reader.assignment (r : Reader) : Option (Option Assignment) :=
  let tokenKey := r.tokens 0
  if tokenKey.type = .string then
    let tokenValue := r.tokens 1
    if tokenValue.type = .primitive then do
      let parameterID ← copyToken maxParameterTextLength r.configLine tokenKey
      let parameterValue ← copyToken maxParameterTextLength r.configLine tokenValue
      some ((branchOf parameterID).map fun branch =>
        ⟨branch, parameterValue, (tokenValue.stop - tokenValue.start).toNat⟩)
    else some none
  else some none

/-- The body of the loop (lines 118–286), up to the assignment it makes. -/
def Reader.lineAssignment (r : Reader) (piece : Bytes) : Option (Option Assignment) :=
  match r.parseLine piece with
  | (.ok numTokens, r') => if numTokens > 0 then r'.assignment else some none
  | (.error _, _) => some none

/-- The arrays that the next iteration finds. -/
def Reader.next (r : Reader) (piece : Bytes) : Reader := (r.parseLine piece).2

/-- One iteration of the loop. -/
def processLine (s : Reader × Params) (piece : Bytes) : Option (Reader × Params) := do
  let assignment ← s.1.lineAssignment piece
  match assignment with
  | none => some (s.1.next piece, s.2)
  | some a => (a.assign s.2).map fun p => (s.1.next piece, p)

/-- The loop (lines 117–287). -/
def readLines (pieces : List Bytes) (s : Reader × Params) : Option (Reader × Params) :=
  pieces.foldlM processLine s

/-- The values of `ErrorCode_Type` that the function returns. -/
inductive ErrorCode
  | success | couldNotOpenFile
  deriving DecidableEq, Repr

/-- `readAndAssignConfigurationDetails`; `file` is `none` when `fopen` fails. -/
def readAndAssignConfigurationDetails (r : Reader) (file : Option Bytes) (p : Params) :
    Option (ErrorCode × Params) :=
  match file with
  | none => some (.couldNotOpenFile, p)
  | some text => (readLines (fgetsPieces text) (r, p)).map fun s => (.success, s.2)

/-! ## What a line acts by -/

/-- The branch that two neighbouring lexemes select. -/
def pairAssignment (k v : Lexeme) : Option Assignment :=
  if k.kind = .string ∧ v.kind = .primitive then
    (branchOf k.text).map fun branch => ⟨branch, v.text, v.text.length⟩
  else none

/-- The branch that a lexeme selects with the token `tok` behind it, which
    `jsmn_parse` did not fill. -/
def staleAssignment (configLine : Bytes) (tok : JsmnTok) (k : Lexeme) :
    Option (Option Assignment) :=
  if k.kind = .string ∧ tok.type = .primitive then
    (copyToken maxParameterTextLength configLine tok).map fun parameterValue =>
      (branchOf k.text).map fun branch =>
        ⟨branch, parameterValue, (tok.stop - tok.start).toNat⟩
  else some none

/-- A leaf's text is part of the text, and its length is that of the token. -/
theorem leaf_length {js : Bytes} {tok : JsmnTok} {l : Lexeme} (h : Matches js tok l)
    (hk : l.kind = .string ∨ l.kind = .primitive) :
    l.text.length = (tok.stop - tok.start).toNat ∧ l.text.length ≤ js.length := by
  obtain ⟨a, b, hab, hb, hstart, hstop, htext⟩ := h.position hk
  rw [hstart, hstop, htext, length_slice hb]
  omega

section

variable {r : Reader} {piece : Bytes}

theorem length_cString_le (m : Bytes) : (cString m).length ≤ m.length :=
  (List.takeWhile_prefix _).length_le

/-- A leaf of a piece is copied whole. -/
theorem copyToken_of_piece (hlen : piece.length < maxParameterTextLength) {tok : JsmnTok}
    {l : Lexeme} (h : Matches (cString (fgetsInto r.configLine piece)) tok l)
    (hk : l.kind = .string ∨ l.kind = .primitive) :
    copyToken maxParameterTextLength (fgetsInto r.configLine piece) tok = some l.text := by
  have htext := (leaf_length h hk).2
  have hpiece := length_cString_le piece
  rw [cString_fgetsInto] at htext
  rw [copyToken_of_matches _ h hk, if_pos (by omega)]

/-- The key is the first lexeme, whatever the second token is. -/
theorem assignment_eq (hlen : piece.length < maxParameterTextLength) {tokens : Tokens} {k : Lexeme}
    (hk : Matches (cString (fgetsInto r.configLine piece)) (tokens 0) k) :
    Reader.assignment ⟨tokens, fgetsInto r.configLine piece⟩ =
      staleAssignment (fgetsInto r.configLine piece) (tokens 1) k := by
  unfold Reader.assignment staleAssignment
  dsimp only
  rw [hk.type_eq]
  by_cases hs : k.kind = .string
  · rw [if_pos hs]
    by_cases hp : (tokens 1).type = .primitive
    · rw [if_pos hp, if_pos ⟨hs, hp⟩, copyToken_of_piece hlen hk (.inl hs)]
      cases copyToken maxParameterTextLength (fgetsInto r.configLine piece) (tokens 1) <;> rfl
    · rw [if_neg hp, if_neg fun h => hp h.2]
  · rw [if_neg hs, if_neg fun h => hs h.1]

/-- A second token that `jsmn_parse` did fill. -/
theorem staleAssignment_of_matches (hlen : piece.length < maxParameterTextLength) {tok : JsmnTok}
    {v : Lexeme} (hv : Matches (cString (fgetsInto r.configLine piece)) tok v) (k : Lexeme) :
    staleAssignment (fgetsInto r.configLine piece) tok k = some (pairAssignment k v) := by
  unfold staleAssignment pairAssignment
  rw [hv.type_eq]
  by_cases hp : v.kind = .primitive
  · rw [copyToken_of_piece hlen hv (.inr hp), ← (leaf_length hv (.inr hp)).1, Option.map_some]
    split_ifs <;> rfl
  · rw [if_neg fun h => hp h.2, if_neg fun h => hp h.2]

/-- **What a line acts by.** Its first two lexemes; a lone one is paired with
    the token left in the array. -/
theorem lineAssignment_eq (hlen : piece.length < maxParameterTextLength) :
    r.lineAssignment piece =
      match lexemes maxParseTokens (cString piece) with
      | some (k :: v :: _) => some (pairAssignment k v)
      | some [k] => staleAssignment (fgetsInto r.configLine piece) (r.tokens 1) k
      | _ => some none := by
  have h0 := zero_notMem_cString (fgetsInto r.configLine piece)
  rw [← cString_fgetsInto r.configLine piece]
  unfold Reader.lineAssignment Reader.parseLine
  cases hls : lexemes maxParseTokens (cString (fgetsInto r.configLine piece)) with
  | none =>
    obtain ⟨e, tokens, hr⟩ := @jsmnParse_of_rejected _ r.tokens _ h0 hls
    simp [hr]
  | some ls =>
    obtain ⟨tokens, hr, hm, huntouched⟩ := @jsmnParse_of_lexemes _ r.tokens _ h0 _ hls
    dsimp only
    rw [hr]
    match ls with
    | [] => rfl
    | [k] =>
      have hk : Matches _ (tokens 0) k := hm 0 (by simp)
      have hstale := huntouched 1 (by simp)
      rw [← hstale]
      exact assignment_eq hlen hk
    | k :: v :: ls =>
      have hk : Matches _ (tokens 0) k := hm 0 (by simp)
      have hv : Matches _ (tokens 1) v := hm 1 (by simp)
      dsimp only
      rw [← staleAssignment_of_matches hlen hv k]
      exact assignment_eq hlen hk

/-- The branch that the text of a line selects. -/
def textAssignment (piece : Bytes) : Option Assignment :=
  match lexemes maxParseTokens (cString piece) with
  | some (k :: v :: _) => pairAssignment k v
  | _ => none

example : textAssignment (ascii "\"MQTT_PORT\"\t: 1883\n") =
    some ⟨.int .mqttPort, ascii "1883", 4⟩ := by decide

/-- A line on which jsmn finds a string and nothing else. -/
def LoneString (piece : Bytes) : Prop :=
  ∃ k, lexemes maxParseTokens (cString piece) = some [k] ∧ k.kind = .string

instance (piece : Bytes) : Decidable (LoneString piece) :=
  match h : lexemes maxParseTokens (cString piece) with
  | some [k] => decidable_of_iff (k.kind = .string) (by simp [LoneString, h])
  | some [] | some (_ :: _ :: _) | none => isFalse (by simp [LoneString, h])

/-- A line whose first token is no string assigns nothing. -/
theorem textAssignment_of_head (h : ∀ k ls, lexemes maxParseTokens (cString piece) =
    some (k :: ls) → k.kind ≠ .string) : textAssignment piece = none ∧ ¬LoneString piece := by
  constructor
  · unfold textAssignment
    match hls : lexemes maxParseTokens (cString piece) with
    | none => rfl
    | some [] => rfl
    | some [k] => rfl
    | some (k :: v :: ls) => exact if_neg fun hkind => h k (v :: ls) hls hkind.1
  · rintro ⟨k, hls, hk⟩
    exact h k [] hls hk

/-- A line that consists of the name of a parameter. -/
def BareParameterLine (piece : Bytes) : Prop :=
  ∃ k, lexemes maxParseTokens (cString piece) = some [k] ∧ k.kind = .string ∧
    (branchOf k.text).isSome

instance (piece : Bytes) : Decidable (BareParameterLine piece) :=
  match h : lexemes maxParseTokens (cString piece) with
  | some [k] => decidable_of_iff (k.kind = .string ∧ (branchOf k.text).isSome)
      (by simp [BareParameterLine, h])
  | some [] | some (_ :: _ :: _) | none => isFalse (by simp [BareParameterLine, h])

/-- A line that is no lone string acts by its text. -/
theorem lineAssignment_of_not_loneString (hlen : piece.length < maxParameterTextLength)
    (h : ¬LoneString piece) : r.lineAssignment piece = some (textAssignment piece) := by
  rw [lineAssignment_eq hlen]
  unfold textAssignment
  match hls : lexemes maxParseTokens (cString piece) with
  | none => rfl
  | some [] => rfl
  | some [k] =>
    have hk : k.kind ≠ .string := fun hk => h ⟨k, hls, hk⟩
    simp [staleAssignment, hk]
  | some (k :: v :: ls) => rfl

end

/-! ## What a file acts by -/

/-- The assignments that the lines make, decoded without the parameters. -/
def lineAssignments : Reader → List Bytes → Option (List Assignment)
  | _, [] => some []
  | r, piece :: pieces => do
    let a ← r.lineAssignment piece
    let as ← lineAssignments (r.next piece) pieces
    some (a.toList ++ as)

/-- Assignments, first one first. -/
def assignAll (as : List Assignment) (p : Params) : Option Params :=
  as.foldlM (fun p a => a.assign p) p

@[simp] theorem assignAll_nil (p : Params) : assignAll [] p = some p := rfl

@[simp] theorem assignAll_cons (a : Assignment) (as : List Assignment) (p : Params) :
    assignAll (a :: as) p = a.assign p >>= assignAll as := rfl

theorem assignAll_singleton (a : Assignment) (p : Params) : assignAll [a] p = a.assign p := by
  rw [assignAll_cons]
  exact bind_pure _

theorem assignAll_cons_eq_some {a : Assignment} {as : List Assignment} {p p' : Params} :
    assignAll (a :: as) p = some p' ↔ ∃ q, a.assign p = some q ∧ assignAll as q = some p' := by
  rw [assignAll_cons, Option.bind_eq_bind, Option.bind_eq_some_iff]

/-- The run rule: what every assignment does to a part of the parameters, all of
    them do one after the other. -/
theorem assignAll_foldl {T : Type*} {obs : Params → T} {step : T → Assignment → T}
    {as : List Assignment}
    (hstep : ∀ a ∈ as, ∀ {q q'}, a.assign q = some q' → obs q' = step (obs q) a)
    {p p' : Params} (h : assignAll as p = some p') : obs p' = as.foldl step (obs p) := by
  induction as generalizing p with
  | nil =>
    rw [← Option.some.inj h]
    rfl
  | cons a as ih =>
    obtain ⟨q, hq, hrest⟩ := assignAll_cons_eq_some.1 h
    rw [ih (fun a' ha' => hstep a' (List.mem_cons_of_mem a ha')) hrest, hstep a (by simp) hq,
      List.foldl_cons]

/-- What no assignment changes. -/
theorem assignAll_keeps {T : Type*} {obs : Params → T} {as : List Assignment}
    (hkeep : ∀ a ∈ as, ∀ {q q'}, a.assign q = some q' → obs q' = obs q) {p p' : Params}
    (h : assignAll as p = some p') : obs p' = obs p := by
  have hfold := @assignAll_foldl T obs (fun t _ => t) as hkeep p p' h
  rwa [List.foldl_fixed] at hfold

/-- **The loop decodes, then assigns.** What a line is decoded to does not depend
    on the parameters. -/
theorem readLines_eq (pieces : List Bytes) (r : Reader) (p : Params) :
    (readLines pieces (r, p)).map (·.2) =
      lineAssignments r pieces >>= fun as => assignAll as p := by
  induction pieces generalizing r p with
  | nil => rfl
  | cons piece pieces ih =>
    have hstep : readLines (piece :: pieces) (r, p) =
        processLine (r, p) piece >>= readLines pieces := rfl
    rw [hstep, lineAssignments]
    unfold processLine
    cases ha : r.lineAssignment piece with
    | none => rfl
    | some a =>
      cases a with
      | none =>
        have := ih (r.next piece) p
        simpa using this
      | some a =>
        cases hp : a.assign p with
        | none => simp [hp, Option.bind_assoc]
        | some p' =>
          have := ih (r.next piece) p'
          simpa [hp, Option.bind_assoc] using this

/-- Without lone strings every line acts by its own text. -/
theorem lineAssignments_eq_filterMap {pieces : List Bytes} (r : Reader)
    (hlen : ∀ piece ∈ pieces, piece.length < maxParameterTextLength)
    (h : ∀ piece ∈ pieces, ¬LoneString piece) :
    lineAssignments r pieces = some (pieces.filterMap textAssignment) := by
  induction pieces generalizing r with
  | nil => rfl
  | cons piece pieces ih =>
    have hrest := ih (r.next piece) (fun q hq => hlen q (List.mem_cons_of_mem piece hq))
      fun q hq => h q (List.mem_cons_of_mem piece hq)
    have hpiece : r.lineAssignment piece = some (textAssignment piece) :=
      lineAssignment_of_not_loneString (hlen piece (by simp)) (h piece (by simp))
    rw [lineAssignments, hpiece, hrest]
    cases ht : textAssignment piece <;> simp [ht]

/-- The parameters after a file has been read. -/
def loaded (r : Reader) (file : Bytes) (p : Params) : Option Params :=
  lineAssignments r (fgetsPieces file) >>= fun as => assignAll as p

/-- An existing file is loaded, or the program leaves an array. -/
theorem readAndAssignConfigurationDetails_eq (r : Reader) (file : Bytes) (p : Params) :
    readAndAssignConfigurationDetails r (some file) p =
      (loaded r file p).map fun p => (.success, p) := by
  unfold readAndAssignConfigurationDetails loaded
  rw [← readLines_eq, Option.map_map]
  rfl

end TrackerDemo.Config

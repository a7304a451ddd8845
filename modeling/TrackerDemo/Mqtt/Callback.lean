import Mathlib.Data.List.GetD
import TrackerDemo.Jsmn.CopyToken

/-!
# The stow command callback

Model of `MQTT_callback_message` (`mosquittoClient.c`, lines 235–303). The
callback reads neither command variable, so it is modelled by the assignments it
makes, in order.

* `payload` is the message's payload and `after` the memory behind the array
  `JSONMsg`, which has no room for a terminating NUL.
* `tokens0` is the uninitialised array `tokens`.
* `none` is an access outside of an array or of that memory.

Results:
* `mqttCallbackWrites_eq`: the callback decodes the scanner's lexemes in pairs.
* `applyWrites_apply`: a command ends with the last value assigned to it.
-/

namespace TrackerDemo.Mqtt

open TrackerDemo.CString TrackerDemo.Jsmn

/-! ## The command variables -/

/-- `StowCmd_WebApp` and `StowCmd_RulesEngine`. -/
inductive StowCmd
  | webApp | rulesEngine
  deriving DecidableEq, Repr

/-- The values of the command variables. -/
abbrev StowCmds := StowCmd → ℤ

/-- Lines 37–38. -/
def StowCmds.initial : StowCmds := fun _ => 0

/-- An assignment to a command variable. -/
structure StowWrite where
  cmd : StowCmd
  value : ℤ
  deriving DecidableEq, Repr

/-- Assignments, first one first. -/
def applyWrites (ws : List StowWrite) (cmds : StowCmds) : StowCmds :=
  ws.foldl (fun cmds w => Function.update cmds w.cmd w.value) cmds

/-- The last value assigned to a command. -/
def lastValue (c : StowCmd) : List StowWrite → Option ℤ
  | [] => none
  | w :: ws => (lastValue c ws).or (if w.cmd = c then some w.value else none)

/-! ## The callback -/

/-- `MAX_JSON_MSG_LENGTH`. -/
def maxJsonMsgLength : ℕ := 1024

/-- The number of tokens passed to `jsmn_parse`. -/
def maxJsonTokens : ℕ := 10

/-- `char JSONMsg[payloadlen]` after the `strncpy` (lines 246–247). -/
def jsonMsg (payload : Bytes) : Bytes :=
  (List.range payload.length).map
    (strncpy (fun _ => 0) (cString payload) payload.length)

/-- The memory from `JSONMsg` on. -/
def memoryFrom (payload after : Bytes) : Bytes := jsonMsg payload ++ after

/-- `strncpy(str, &JSONMsg[tok.start], length); str[length] = '\0'` (lines
    273–279): the C string then in `str`. -/
def copyElement (memory : Bytes) (tok : JsmnTok) : Option Bytes :=
  copyToken maxJsonMsgLength memory tok

/-- The name of the member that sets a command. -/
def StowCmd.key : StowCmd → Bytes
  | .webApp => ascii "stow_status"
  | .rulesEngine => ascii "rules_engine_stow_status"

/-- Lines 282–292. -/
def keyWrites (keyStr valueStr : Bytes) : List StowWrite :=
  (if strcmpEq keyStr (StowCmd.key .webApp) then [⟨.webApp, atoi valueStr⟩] else []) ++
    (if strcmpEq keyStr (StowCmd.key .rulesEngine) then [⟨.rulesEngine, atoi valueStr⟩] else [])

/-- The body of the loop (lines 265–296). -/
def callbackToken (memory : Bytes) (tokens : Tokens) (i : ℕ) : Option (List StowWrite) :=
  let key := tokens i
  if key.type = .string then
    let value := tokens (i + 1)
    if value.type = .primitive then do
      let keyStr ← copyElement memory key
      let valueStr ← copyElement memory value
      some (keyWrites keyStr valueStr)
    else some []
  else some []

/-- The loop `for (i = …; i < numTokens; i += 2)` with its number of iterations. -/
def callbackLoop (memory : Bytes) (tokens : Tokens) : ℕ → ℕ → Option (List StowWrite)
  | 0, _ => some []
  | n + 1, i => do
    let ws ← callbackToken memory tokens i
    let ws' ← callbackLoop memory tokens n (i + 2)
    some (ws ++ ws')

/-- The assignments of `MQTT_callback_message`. From `i = 1` on, `numTokens / 2`
    iterations reach `numTokens`. -/
def mqttCallbackWrites (payload after : Bytes) (tokens0 : Tokens) : Option (List StowWrite) :=
  let memory := memoryFrom payload after
  match jsmnParse (cString memory) maxJsonTokens tokens0 with
  | (.ok numTokens, tokens) => callbackLoop memory tokens (numTokens / 2) 1
  | (.error _, _) => some []

/-- `MQTT_callback_message` on the command variables. -/
def mqttCallbackMessage (payload after : Bytes) (tokens0 : Tokens) (cmds : StowCmds) :
    Option StowCmds :=
  (mqttCallbackWrites payload after tokens0).map fun ws => applyWrites ws cmds

/-! ## Assignments -/

@[simp] theorem applyWrites_nil (cmds : StowCmds) : applyWrites [] cmds = cmds := rfl

/-- A command ends with the last value assigned to it. -/
theorem applyWrites_apply (ws : List StowWrite) (cmds : StowCmds) (c : StowCmd) :
    applyWrites ws cmds c = (lastValue c ws).getD (cmds c) := by
  induction ws generalizing cmds with
  | nil => rfl
  | cons w ws ih =>
    show applyWrites ws (Function.update cmds w.cmd w.value) c = _
    rw [ih, lastValue]
    cases hl : lastValue c ws with
    | some v => rfl
    | none =>
      by_cases hc : w.cmd = c
      · subst hc
        simp
      · simp [hc, Function.update_of_ne (Ne.symm hc)]

theorem lastValue_eq_none {c : StowCmd} {ws : List StowWrite} (h : ∀ w ∈ ws, w.cmd ≠ c) :
    lastValue c ws = none := by
  induction ws with
  | nil => rfl
  | cons w ws ih =>
    rw [lastValue, ih fun w' hw' => h w' (List.mem_cons_of_mem w hw'), if_neg (h w (by simp))]
    rfl

/-- Two runs of assignments have the same effect from every state iff they
    assign each command the same last value. -/
theorem applyWrites_eq_iff (ws ws' : List StowWrite) :
    (∀ cmds, applyWrites ws cmds = applyWrites ws' cmds) ↔
      ∀ c, lastValue c ws = lastValue c ws' := by
  constructor
  · intro h c
    -- two prior values tell a missing assignment from every assigned value
    have h0 := congrFun (h fun _ => 0) c
    have h1 := congrFun (h fun _ => 1) c
    rw [applyWrites_apply, applyWrites_apply] at h0 h1
    cases hw : lastValue c ws <;> cases hw' : lastValue c ws' <;>
      simp only [hw, hw', Option.getD_none, Option.getD_some] at h0 h1 ⊢
    · omega
    · omega
    · rw [h0]
  · intro h cmds
    funext c
    rw [applyWrites_apply, applyWrites_apply, h]

/-- Only the empty run of assignments never changes a command. -/
theorem applyWrites_eq_self_iff (ws : List StowWrite) :
    (∀ cmds, applyWrites ws cmds = cmds) ↔ ws = [] := by
  constructor
  · intro h
    have hlast := (applyWrites_eq_iff ws []).1 h
    cases ws with
    | nil => rfl
    | cons w ws =>
      have := hlast w.cmd
      simp [lastValue] at this
  · rintro rfl cmds
    rfl

/-! ## The text that is parsed -/

theorem jsonMsg_eq_self {payload : Bytes} (h : (0 : Byte) ∉ payload) :
    jsonMsg payload = payload := by
  unfold jsonMsg
  rw [cString_eq_self h]
  apply List.ext_getElem
  · simp
  · intro i h1 h2
    simp [strncpy, h2]

/-- The text runs on into the memory behind the array. -/
theorem cString_memoryFrom {payload : Bytes} (h : (0 : Byte) ∉ payload) (after : Bytes) :
    cString (memoryFrom payload after) = payload ++ cString after := by
  unfold memoryFrom
  rw [jsonMsg_eq_self h, cString_append h]

/-- With a NUL behind it, the payload is the text that is parsed. -/
theorem cString_memoryFrom_nul {payload : Bytes} (h0 : (0 : Byte) ∉ payload) (rest : Bytes) :
    cString (memoryFrom payload (0 :: rest)) = payload := by
  rw [cString_memoryFrom h0, show cString (0 :: rest) = [] from rfl, List.append_nil]

/-- The copy into `JSONMsg` stops at a NUL in the payload and fills up with
    NULs. -/
theorem jsonMsg_eq (payload : Bytes) :
    jsonMsg payload =
      cString payload ++ List.replicate (payload.length - (cString payload).length) 0 := by
  have hle : (cString payload).length ≤ payload.length := (List.takeWhile_prefix _).length_le
  unfold jsonMsg
  apply List.ext_getElem
  · simp only [List.length_map, List.length_range, List.length_append, List.length_replicate]
    omega
  · intro i h1 h2
    rw [List.length_map, List.length_range] at h1
    rw [List.getElem_map, List.getElem_range, strncpy, if_pos h1, List.getElem_append]
    split_ifs with hlt
    · exact List.getD_eq_getElem _ _ hlt
    · rw [List.getElem_replicate, List.getD_eq_default _ _ (by omega)]

/-- The text that is parsed ends at the first NUL, in the payload or behind it. -/
theorem cString_memoryFrom_eq (payload after : Bytes) :
    cString (memoryFrom payload after) = cString (payload ++ after) := by
  by_cases h : (0 : Byte) ∈ payload
  · obtain ⟨rest, hrest⟩ := eq_cString_append h
    have hlen : payload.length - (cString payload).length = rest.length + 1 := by
      have := congrArg List.length hrest
      rw [List.length_append, List.length_cons] at this
      omega
    have h0 := zero_notMem_cString payload
    unfold memoryFrom
    rw [jsonMsg_eq, hlen, List.replicate_succ, List.append_assoc, List.cons_append,
      cString_append_zero h0]
    conv_rhs => rw [hrest, List.append_assoc, List.cons_append]
    rw [cString_append_zero h0]
  · rw [cString_memoryFrom h, cString_append h]

/-! ## Decoding lexemes in pairs -/

/-- The assignments of two neighbouring lexemes. -/
def pairWrites (k v : Lexeme) : Option (List StowWrite) :=
  if k.kind = .string ∧ v.kind = .primitive then
    if k.text.length < maxJsonMsgLength ∧ v.text.length < maxJsonMsgLength then
      some (keyWrites k.text v.text)
    else none
  else some []

/-- The assignments of a last lexeme without a partner: the code reads the
    uninitialised token `tok` behind it. -/
def staleWrites (memory : Bytes) (tok : JsmnTok) (k : Lexeme) : Option (List StowWrite) :=
  if k.kind = .string ∧ tok.type = .primitive then
    if k.text.length < maxJsonMsgLength then
      (copyElement memory tok).map fun valueStr => keyWrites k.text valueStr
    else none
  else some []

/-- A token with a negative length. -/
def negativeToken : JsmnTok := ⟨.primitive, 0, -1, 0⟩

theorem staleWrites_of_not_string (memory : Bytes) (tok : JsmnTok) {k : Lexeme}
    (hk : k.kind ≠ .string) : staleWrites memory tok k = some [] := by
  simp [staleWrites, hk]

theorem staleWrites_negativeToken (memory : Bytes) {k : Lexeme} (hk : k.kind = .string) :
    staleWrites memory negativeToken k = none := by
  simp [staleWrites, negativeToken, hk, copyElement, copyToken]

/-- The lexemes taken in pairs. -/
def decode (stale : Lexeme → Option (List StowWrite)) : List Lexeme → Option (List StowWrite)
  | [] => some []
  | [k] => stale k
  | k :: v :: ls => do
    let ws ← pairWrites k v
    let ws' ← decode stale ls
    some (ws ++ ws')

/-- One pair of tokens. -/
theorem callbackToken_of_matches {memory : Bytes} {tokens : Tokens} {i : ℕ} {k v : Lexeme}
    (hk : Matches (cString memory) (tokens i) k)
    (hv : Matches (cString memory) (tokens (i + 1)) v) :
    callbackToken memory tokens i = pairWrites k v := by
  unfold callbackToken pairWrites
  simp only [hk.type_eq, hv.type_eq]
  by_cases hs : k.kind = .string
  · by_cases hp : v.kind = .primitive
    · unfold copyElement
      rw [if_pos hs, if_pos hp, if_pos ⟨hs, hp⟩, copyToken_of_matches _ hk (.inl hs),
        copyToken_of_matches _ hv (.inr hp)]
      split_ifs with h1 h2 h3 h4 <;> first | rfl | simp_all
    · rw [if_pos hs, if_neg hp, if_neg fun h => hp h.2]
  · rw [if_neg hs, if_neg fun h => hs h.1]

/-- A last token whose partner is not one of the parsed ones. -/
theorem callbackToken_of_last {memory : Bytes} {tokens : Tokens} {i : ℕ} {k : Lexeme}
    (hk : Matches (cString memory) (tokens i) k) :
    callbackToken memory tokens i = staleWrites memory (tokens (i + 1)) k := by
  unfold callbackToken staleWrites
  simp only [hk.type_eq]
  by_cases hs : k.kind = .string
  · by_cases hp : (tokens (i + 1)).type = .primitive
    · unfold copyElement
      rw [if_pos hs, if_pos hp, if_pos ⟨hs, hp⟩, copyToken_of_matches _ hk (.inl hs)]
      split_ifs with h1
      · cases copyToken maxJsonMsgLength memory (tokens (i + 1)) <;> rfl
      · rfl
    · rw [if_pos hs, if_neg hp, if_neg fun h => hp h.2]
  · rw [if_neg hs, if_neg fun h => hs h.1]

/-- The loop lemma: from token `i` on, the loop decodes the lexemes that the
    tokens stand for. -/
theorem callbackLoop_eq_decode {memory : Bytes} {tokens : Tokens} {tok : JsmnTok}
    (ls : List Lexeme) : ∀ i : ℕ,
      (∀ j (hj : j < ls.length), Matches (cString memory) (tokens (i + j)) ls[j]) →
      tokens (i + ls.length) = tok →
      callbackLoop memory tokens ((ls.length + 1) / 2) i = decode (staleWrites memory tok) ls := by
  fun_induction decode (staleWrites memory tok) ls with
  | case1 => intro i _ _; rfl
  | case2 k =>
    intro i hm hlast
    have hk : Matches (cString memory) (tokens i) k := hm 0 (by simp)
    simp only [List.length_singleton] at hlast ⊢
    rw [show (1 + 1) / 2 = 1 from rfl, callbackLoop, callbackLoop, callbackToken_of_last hk, hlast]
    cases staleWrites memory tok k with
    | none => rfl
    | some ws => simp
  | case3 k v ls ih =>
    intro i hm hlast
    have hk : Matches (cString memory) (tokens i) k := hm 0 (by simp)
    have hv : Matches (cString memory) (tokens (i + 1)) v := hm 1 (by simp)
    have hrest := ih (i + 2) (fun j hj => by
      have := hm (j + 2) (by simp; omega)
      rw [show i + 2 + j = i + (j + 2) by omega]
      simpa using this) (by rw [← hlast, List.length_cons, List.length_cons]; congr 1; omega)
    have hn : ((k :: v :: ls).length + 1) / 2 = (ls.length + 1) / 2 + 1 := by
      simp only [List.length_cons]
      omega
    rw [hn, callbackLoop, callbackToken_of_matches hk hv, hrest]

/-- **The callback decodes pairs of lexemes.** The first lexeme is skipped, and
    a last one without a partner is paired with the uninitialised token behind
    it. -/
theorem mqttCallbackWrites_eq (payload after : Bytes) (tokens0 : Tokens) :
    mqttCallbackWrites payload after tokens0 =
      match lexemes maxJsonTokens (cString (memoryFrom payload after)) with
      | none => some []
      | some ls =>
        decode (staleWrites (memoryFrom payload after) (tokens0 ls.length)) ls.tail := by
  have h0 := zero_notMem_cString (memoryFrom payload after)
  unfold mqttCallbackWrites
  cases hls : lexemes maxJsonTokens (cString (memoryFrom payload after)) with
  | none =>
    obtain ⟨e, tokens, hr⟩ := @jsmnParse_of_rejected _ tokens0 _ h0 hls
    simp [hr]
  | some ls =>
    obtain ⟨tokens, hr, hm, huntouched⟩ := @jsmnParse_of_lexemes _ tokens0 _ h0 _ hls
    have hlast := huntouched ls.length le_rfl
    dsimp only
    rw [hr]
    dsimp only
    cases ls with
    | nil => rfl
    | cons l ls =>
      refine callbackLoop_eq_decode ls 1 (fun j hj => ?_) ?_
      · rw [Nat.add_comm 1 j]
        exact hm (j + 1) (by simpa using hj)
      · rw [Nat.add_comm]
        exact hlast

/-- An assignment is decoded from the lexemes of the text. -/
theorem exists_decode_of_mem {payload after : Bytes} {tokens0 : Tokens} {ws : List StowWrite}
    (h : mqttCallbackWrites payload after tokens0 = some ws) {w : StowWrite} (hw : w ∈ ws) :
    ∃ ls, lexemes maxJsonTokens (cString (memoryFrom payload after)) = some ls ∧
      decode (staleWrites (memoryFrom payload after) (tokens0 ls.length)) ls.tail = some ws := by
  rw [mqttCallbackWrites_eq] at h
  cases hls : lexemes maxJsonTokens (cString (memoryFrom payload after)) with
  | none =>
    rw [hls] at h
    rw [← Option.some.inj h] at hw
    cases hw
  | some ls =>
    rw [hls] at h
    exact ⟨ls, rfl, h⟩

end TrackerDemo.Mqtt

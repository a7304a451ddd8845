import TrackerDemo.Mqtt.Callback
import TrackerDemo.Jsmn.Layout
import TrackerDemo.Lib.Json

/-!
# What a stow command can come from

The callback takes jsmn's flat list of tokens in pairs, without regard to
nesting. So a command is assigned from any string that is the command's key, if
it is at an odd index and the next token is a primitive: in the text only
blanks, colons, commas and closing brackets are between them. A key that is the
last token at an odd index is paired with an uninitialised token.

Results:
* `decode_mem`: every assignment comes from a pair, or from a last lexeme.
* `stowWrite_sound`: every assignment comes from a key in the text.
-/

namespace TrackerDemo.Mqtt

open TrackerDemo.CString TrackerDemo.Jsmn

/-- The payload has the command's key as a string token at an odd index, and the
    next token is a primitive with the value. -/
def Commands (payload : Bytes) (w : StowWrite) : Prop :=
  ∃ ls i v, lexemes maxJsonTokens payload = some ls ∧ i % 2 = 1 ∧
    ls[i]? = some ⟨.string, w.cmd.key, false⟩ ∧ ls[i + 1]? = some ⟨.primitive, v, false⟩ ∧
    w.value = atoi v ∧
    ∃ a sep b, payload = a ++ (34 :: (w.cmd.key ++ [34])) ++ sep ++ v ++ b ∧
      (∀ c ∈ sep, endsPrimitive c = true) ∧ PrimitiveText v

/-- The command's key is the payload's last token, at an odd index. -/
def EndsInKey (payload : Bytes) (c : StowCmd) : Prop :=
  ∃ ls, lexemes maxJsonTokens payload = some ls ∧ ls.length % 2 = 0 ∧
    ls.getLast? = some ⟨.string, c.key, false⟩

/-! ## Where assignments come from -/

theorem mem_keyWrites {w : StowWrite} {k v : Bytes} :
    w ∈ keyWrites k v ↔ k = w.cmd.key ∧ w.value = atoi v := by
  obtain ⟨c, x⟩ := w
  unfold keyWrites strcmpEq
  cases c <;> by_cases h1 : k = StowCmd.key .webApp <;>
    by_cases h2 : k = StowCmd.key .rulesEngine <;> simp [h1, h2]

/-- Every assignment comes from a pair at an even offset, or from a last lexeme
    without a partner. -/
theorem decode_mem {stale : Lexeme → Option (List StowWrite)} {ls : List Lexeme}
    {ws : List StowWrite} (h : decode stale ls = some ws) {w : StowWrite} (hw : w ∈ ws) :
    (∃ pre k v post, ls = pre ++ k :: v :: post ∧ pre.length % 2 = 0 ∧ k.kind = .string ∧
      v.kind = .primitive ∧ w ∈ keyWrites k.text v.text) ∨
    ∃ pre k ws', ls = pre ++ [k] ∧ pre.length % 2 = 0 ∧ stale k = some ws' ∧ w ∈ ws' := by
  induction ls using decode.induct generalizing ws with
  | case1 =>
    rw [← Option.some.inj h] at hw
    cases hw
  | case2 k => exact .inr ⟨[], k, ws, rfl, rfl, h, hw⟩
  | case3 k v ls ih =>
    rw [decode] at h
    simp only [Option.bind_eq_bind, Option.bind_eq_some_iff, Option.some.injEq] at h
    obtain ⟨ws1, h1, ws2, h2, rfl⟩ := h
    rcases List.mem_append.1 hw with hmem | hmem
    · unfold pairWrites at h1
      split_ifs at h1 with hkind
      · rw [← Option.some.inj h1] at hmem
        exact .inl ⟨[], k, v, ls, rfl, rfl, hkind.1, hkind.2, hmem⟩
      · rw [← Option.some.inj h1] at hmem
        cases hmem
    · rcases ih h2 hmem with
        ⟨pre, k', v', post, rfl, hlen, hrest⟩ | ⟨pre, k', ws', rfl, hlen, hrest⟩
      · exact .inl ⟨k :: v :: pre, k', v', post, rfl, by simp only [List.length_cons]; omega, hrest⟩
      · exact .inr ⟨k :: v :: pre, k', ws', rfl, by simp only [List.length_cons]; omega, hrest⟩

theorem staleWrites_mem {memory : Bytes} {tok : JsmnTok} {k : Lexeme} {ws : List StowWrite}
    (h : staleWrites memory tok k = some ws) {w : StowWrite} (hw : w ∈ ws) :
    k.kind = .string ∧ k.text = w.cmd.key := by
  unfold staleWrites at h
  split_ifs at h with hkind
  · rw [Option.map_eq_some_iff] at h
    obtain ⟨v, -, rfl⟩ := h
    exact ⟨hkind.1, (mem_keyWrites.1 hw).1⟩
  · rw [← Option.some.inj h] at hw
    cases hw

/-- Lexemes of strings and primitives of an accepted text are closed. -/
theorem lexeme_eq {payload : Bytes} {ls : List Lexeme}
    (hls : lexemes maxJsonTokens payload = some ls) {l : Lexeme} (hl : l ∈ ls) :
    l = ⟨l.kind, l.text, false⟩ := by
  have := (lexemes_eq_some_iff.1 hls).2 l hl
  obtain ⟨kind, text, isOpen⟩ := l
  dsimp only at this
  rw [this]

theorem commands_of_pair {payload : Bytes} {pre post : List Lexeme} {k v : Lexeme}
    (hls : lexemes maxJsonTokens payload = some (pre ++ k :: v :: post))
    (hodd : pre.length % 2 = 1) (hk : k.kind = .string) (hv : v.kind = .primitive)
    {w : StowWrite} (hw : w ∈ keyWrites k.text v.text) : Commands payload w := by
  obtain ⟨hkey, hvalue⟩ := mem_keyWrites.1 hw
  have hkeq : k = ⟨.string, w.cmd.key, false⟩ := by
    rw [lexeme_eq hls (show k ∈ pre ++ k :: v :: post by simp), hk, hkey]
  have hveq : v = ⟨.primitive, v.text, false⟩ := by
    rw [lexeme_eq hls (show v ∈ pre ++ k :: v :: post by simp), hv]
  have hspelled := lexemes_spelled hls
  simp only [List.reverse_append, List.reverse_cons, List.append_assoc, List.singleton_append]
    at hspelled
  obtain ⟨a, sep, b, hpayload, hsep, htext⟩ := hspelled.pair
  refine ⟨pre ++ k :: v :: post, pre.length, v.text, hls, hodd, ?_, ?_, hvalue, a, sep, b, ?_,
    hsep, htext hv⟩
  · simp [← hkeq]
  · simp [← hveq]
  · rw [hpayload, hkeq, hveq]
    rfl

/-- **Soundness of the command decoder.** With a NUL behind the payload, every
    assignment comes from the command's key in the payload, and without such a
    key the command keeps its value. -/
theorem stowWrite_sound (payload rest : Bytes) (tokens0 : Tokens) (ws : List StowWrite)
    (h0 : (0 : Byte) ∉ payload)
    (h : mqttCallbackWrites payload (0 :: rest) tokens0 = some ws) :
    (∀ w ∈ ws, Commands payload w ∨ EndsInKey payload w.cmd) ∧
      ∀ c, (∀ x, ¬ Commands payload ⟨c, x⟩) → ¬ EndsInKey payload c →
        ∀ cmds, applyWrites ws cmds c = cmds c := by
  have hmem : ∀ w ∈ ws, Commands payload w ∨ EndsInKey payload w.cmd := by
    intro w hw
    obtain ⟨ls, hls, hdecode⟩ := exists_decode_of_mem h hw
    rw [cString_memoryFrom_nul h0] at hls
    cases ls with
    | nil =>
      rw [← Option.some.inj hdecode] at hw
      cases hw
    | cons l ls =>
      rcases decode_mem hdecode hw with ⟨pre, k, v, post, hsplit, hlen, hk, hv, hkw⟩ |
        ⟨pre, k, ws', hsplit, hlen, hstale, hmem⟩
      · left
        rw [List.tail_cons] at hsplit
        rw [hsplit, ← List.cons_append] at hls
        exact commands_of_pair hls (by rw [List.length_cons]; omega) hk hv hkw
      · right
        obtain ⟨hk, hkey⟩ := staleWrites_mem hstale hmem
        rw [List.tail_cons] at hsplit
        rw [hsplit] at hls
        refine ⟨_, hls, by simp; omega, ?_⟩
        have hkeq := lexeme_eq hls (show k ∈ l :: (pre ++ [k]) by simp)
        rw [hk, hkey] at hkeq
        rw [← List.cons_append, List.getLast?_concat, ← hkeq]
  refine ⟨hmem, fun c hc hlast cmds => ?_⟩
  have hnone : ∀ w ∈ ws, w.cmd ≠ c := by
    rintro w hw rfl
    rcases hmem w hw with hcmd | hend
    · exact hc w.value hcmd
    · exact hlast hend
  rw [applyWrites_apply, lastValue_eq_none hnone]
  rfl

/-- A member of a nested object is obeyed. -/
example (tokens0 : Tokens) :
    mqttCallbackWrites (ascii "\x7b\"a\":\x7b\"stow_status\":1\x7d\x7d") [0] tokens0 =
      some [⟨.webApp, 1⟩] := by
  rw [mqttCallbackWrites_eq, cString_memoryFrom (by decide)]
  rfl

/-- So is a key in a text that is not JSON. -/
example (tokens0 : Tokens) :
    mqttCallbackWrites (ascii "x \"stow_status\" 1") [0] tokens0 = some [⟨.webApp, 1⟩] := by
  rw [mqttCallbackWrites_eq, cString_memoryFrom (by decide)]
  rfl

/-! ## A command in an array -/

/-- An array of a key and a number. -/
def arrayMessage : Bytes := ascii "[\"stow_status\",1]"

/-- `stowWrite_sound` for the array message. -/
theorem arrayMessage_sound : Commands arrayMessage ⟨.webApp, 1⟩ ∨ EndsInKey arrayMessage .webApp :=
  (stowWrite_sound arrayMessage [] zeroTokens [⟨.webApp, 1⟩] (by decide)
    (by rw [mqttCallbackWrites_eq, cString_memoryFrom (by decide)]; decide)).1 _ (by simp)

/-- A command need not come from an object's member: the array message assigns
    `StowCmd_WebApp`. -/
theorem arrayMessage_assigns : ¬ ∀ (payload rest : Bytes) (tokens0 : Tokens) (ws : List StowWrite),
    (0 : Byte) ∉ payload → mqttCallbackWrites payload (0 :: rest) tokens0 = some ws →
      ∀ w ∈ ws, ∃ v, Json.HasMember payload w.cmd.key [.primitive v] := by
  intro hall
  have hw : mqttCallbackWrites arrayMessage [0] zeroTokens =
      some [⟨.webApp, 1⟩] := by
    rw [mqttCallbackWrites_eq, cString_memoryFrom (by decide)]
    decide
  obtain ⟨v, w, e, w', ms, hblank, -, -, -, htext, -⟩ :=
    hall arrayMessage [] _ _ (by decide) hw ⟨.webApp, 1⟩ (by simp)
  -- an object starts with blanks and a brace, the payload with a bracket
  have hhead : arrayMessage.head? = some 91 := by decide
  rw [htext] at hhead
  cases w with
  | nil => exact absurd (show (some 123 : Option Byte) = some 91 from hhead) (by decide)
  | cons c w =>
    have hc : c = 91 := Option.some.inj hhead
    have := hblank c (by simp)
    rw [hc] at this
    exact absurd this (by decide)

end TrackerDemo.Mqtt

import TrackerDemo.Mqtt.Soundness

/-!
# The two stow channels

`ReportToBroker_thread` subscribes to two topics, one for each command
(`trackerDemo.c`, lines 309–325), and the library delivers the messages of both
to `MQTT_callback_message`. The callback reads neither the topic nor the id of a
message (the test of the id on line 249 is commented out): it tells the commands
apart by the keys in the payload.

Results:
* `quotedKey_of_write`: every assignment's key stands in the parsed text.
* `command_needs_key`: on every topic, a command changes only by its own key.
* `rulesEngineKey_on_webApp`: a topic does not confine a message to its command.
-/

namespace TrackerDemo.Mqtt

open TrackerDemo.CString TrackerDemo.Jsmn

/-- The fields of `struct mosquitto_message` that the callback prints or uses. -/
structure MosquittoMessage where
  mid : ℤ
  topic : Bytes
  payload : Bytes
  deriving DecidableEq, Repr

/-- `MQTT_callback_message` on a delivered message. -/
def MosquittoMessage.callback (message : MosquittoMessage) (after : Bytes) (tokens0 : Tokens)
    (cmds : StowCmds) : Option StowCmds :=
  mqttCallbackMessage message.payload after tokens0 cmds

/-- The key of a command with its quotes. -/
def StowCmd.quotedKey (c : StowCmd) : Bytes := 34 :: (c.key ++ [34])

/-- `{"key":1}`. -/
def StowCmd.message (c : StowCmd) : Bytes := ascii "\x7b" ++ c.quotedKey ++ ascii ":1\x7d"

/-! ## Keys in the text -/

/-- An assignment comes from a string that is its command's key. -/
theorem exists_key_of_decode {memory : Bytes} {tok : JsmnTok} {ls : List Lexeme}
    {ws : List StowWrite} (h : decode (staleWrites memory tok) ls = some ws) {w : StowWrite}
    (hw : w ∈ ws) : ∃ k ∈ ls, k.kind = .string ∧ k.text = w.cmd.key := by
  rcases decode_mem h hw with ⟨pre, k, v, post, rfl, -, hk, -, hkw⟩ | ⟨pre, k, ws', rfl, -, hs, hm⟩
  · exact ⟨k, by simp, hk, (mem_keyWrites.1 hkw).1⟩
  · obtain ⟨hk, hkey⟩ := staleWrites_mem hs hm
    exact ⟨k, by simp, hk, hkey⟩

/-- Every assignment's key stands in the text that is parsed. -/
theorem quotedKey_of_write {payload after : Bytes} {tokens0 : Tokens} {ws : List StowWrite}
    (h : mqttCallbackWrites payload after tokens0 = some ws) {w : StowWrite} (hw : w ∈ ws) :
    w.cmd.quotedKey <:+: cString (memoryFrom payload after) := by
  obtain ⟨ls, hls, hdecode⟩ := exists_decode_of_mem h hw
  obtain ⟨k, hk, hstring, hkey⟩ := exists_key_of_decode hdecode hw
  have hmem : k ∈ ls.reverse := List.mem_reverse.2 (List.mem_of_mem_tail hk)
  have hspelled := (lexemes_spelled hls).mem hmem
  unfold Lexeme.spelling at hspelled
  rw [hstring, hkey] at hspelled
  exact hspelled

/-- A message of just one command assigns it. -/
theorem mqttCallbackWrites_message (c : StowCmd) (rest : Bytes) (tokens0 : Tokens) :
    mqttCallbackWrites c.message (0 :: rest) tokens0 = some [⟨c, 1⟩] := by
  have h0 : (0 : Byte) ∉ c.message := by cases c <;> decide
  rw [mqttCallbackWrites_eq, cString_memoryFrom h0]
  cases c <;> rfl

/-- **The commands are told apart by key, not by topic.** Whatever topic a
    message is delivered on, it leaves a command alone whose quoted key is not in
    the parsed text, and the command's own message sets it. -/
theorem command_needs_key (c : StowCmd) :
    (∀ (message : MosquittoMessage) (after : Bytes) (tokens0 : Tokens) (cmds cmds' : StowCmds),
      message.callback after tokens0 cmds = some cmds' →
      ¬c.quotedKey <:+: cString (memoryFrom message.payload after) → cmds' c = cmds c) ∧
    ∀ (mid : ℤ) (topic rest : Bytes) (tokens0 : Tokens) (cmds : StowCmds),
      MosquittoMessage.callback ⟨mid, topic, c.message⟩ (0 :: rest) tokens0 cmds =
        some (Function.update cmds c 1) := by
  constructor
  · intro message after tokens0 cmds cmds' h hkey
    unfold MosquittoMessage.callback mqttCallbackMessage at h
    obtain ⟨ws, hws, rfl⟩ := Option.map_eq_some_iff.1 h
    have hnone : ∀ w ∈ ws, w.cmd ≠ c := by
      rintro w hw rfl
      exact hkey (quotedKey_of_write hws hw)
    rw [applyWrites_apply, lastValue_eq_none hnone]
    rfl
  · intro mid topic rest tokens0 cmds
    unfold MosquittoMessage.callback mqttCallbackMessage
    rw [mqttCallbackWrites_message]
    rfl

/-- `command_needs_key` for the web application's message on some other topic. -/
theorem command_needs_key_sample :
    ∃ cmds', MosquittoMessage.callback ⟨1, ascii "other", StowCmd.message .webApp⟩ [0]
      zeroTokens StowCmds.initial = some cmds' ∧ cmds' .rulesEngine = 0 := by
  have hset := (command_needs_key .webApp).2 1 (ascii "other") [] zeroTokens StowCmds.initial
  refine ⟨_, hset, (command_needs_key .rulesEngine).1 _ _ _ _ _ hset ?_⟩
  dsimp only
  rw [cString_memoryFrom (by decide)]
  decide

/-- A message with the rules engine's key on the web application's topic sets the
    rules engine's command. -/
theorem rulesEngineKey_on_webApp :
    ¬∀ (webApp rulesEngine : Bytes), webApp ≠ rulesEngine →
      ∀ (message : MosquittoMessage) (after : Bytes) (tokens0 : Tokens) (cmds cmds' : StowCmds),
        message.callback after tokens0 cmds = some cmds' →
        (message.topic = webApp → cmds' .rulesEngine = cmds .rulesEngine) ∧
        (message.topic = rulesEngine → cmds' .webApp = cmds .webApp) ∧
        (message.topic ≠ webApp → message.topic ≠ rulesEngine → cmds' = cmds) := by
  intro h
  have hset : MosquittoMessage.callback
      ⟨1, ascii "web-interface-stow-status", StowCmd.message .rulesEngine⟩ [0] zeroTokens
        StowCmds.initial = some (Function.update StowCmds.initial .rulesEngine 1) := by
    unfold MosquittoMessage.callback mqttCallbackMessage
    rw [mqttCallbackWrites_message]
    rfl
  have hkept := (h (ascii "web-interface-stow-status") (ascii "rules-engine-stow-status")
    (by decide) _ _ _ _ _ hset).1 rfl
  rw [Function.update_self] at hkept
  exact absurd hkept (by decide)

end TrackerDemo.Mqtt

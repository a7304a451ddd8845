import TrackerDemo.Mqtt.Insertion

/-!
# Flat command messages

A flat message is an object whose values are primitives and strings. Each member
has two tokens, so the pair loop of `MQTT_callback_message`
(`mosquittoClient.c`, lines 264–297) stays in step with the members, and up to
four members fit into the ten tokens.

Results:
* `lastValue_memberLexemes`: the last value that the pairs assign.
* `mqttCallbackMessage_flat`: a flat message is decoded exactly.
-/

namespace TrackerDemo.Mqtt

open TrackerDemo.CString TrackerDemo.Jsmn TrackerDemo.Json

/-! ## Flat members -/

/-- The value is a primitive with that text, or a string with those
    characters. -/
def ValueText (value : List Token) (text : Text) : Prop :=
  value = [.primitive text] ∨ value = [.string text]

/-- A key and a value without escapes, both shorter than the buffers. -/
structure FlatMember (m : Member) : Prop where
  valid : m.Valid
  key_plain : (92 : Byte) ∉ m.key
  key_length : m.key.length < maxJsonMsgLength
  value : ∃ text, ValueText m.value text ∧ (m.value = [.string text] → (92 : Byte) ∉ text) ∧
    text.length < maxJsonMsgLength

/-- The text of a primitive value. -/
def primitiveText (m : Member) : Option Text :=
  match m.value with
  | [.primitive text] => some text
  | _ => none

/-- The value text of the last member with that name and a primitive value. -/
def lastPrimitive (name : Text) (ms : List Member) : Option Text :=
  ms.reverse.findSome? fun m => if m.key = name then primitiveText m else none

theorem lastPrimitive_cons (name : Text) (m : Member) (ms : List Member) :
    lastPrimitive name (m :: ms) =
      (lastPrimitive name ms).or (if m.key = name then primitiveText m else none) := by
  unfold lastPrimitive
  rw [List.reverse_cons, List.findSome?_append]
  congr 1
  simp

/-! ## Their pairs -/

theorem lastValue_append (c : StowCmd) (ws ws' : List StowWrite) :
    lastValue c (ws ++ ws') = (lastValue c ws').or (lastValue c ws) := by
  induction ws with
  | nil => simp [lastValue]
  | cons w ws ih =>
    rw [List.cons_append, lastValue, lastValue, ih, Option.or_assoc]

/-- A pair assigns the value to the command that its key names. -/
theorem lastValue_keyWrites (c : StowCmd) (keyStr valueStr : Bytes) :
    lastValue c (keyWrites keyStr valueStr) =
      if keyStr = StowCmd.key c then some (atoi valueStr) else none := by
  have hne : StowCmd.key .webApp ≠ StowCmd.key .rulesEngine := by decide
  unfold keyWrites strcmpEq
  by_cases h : keyStr = StowCmd.key .webApp
  · subst h
    cases c <;> simp [hne, lastValue]
  · by_cases h' : keyStr = StowCmd.key .rulesEngine
    · subst h'
      cases c <;> simp [hne.symm, lastValue]
    · cases c <;> simp [h, h', lastValue]

/-- The two lexemes of a member with a primitive or string value. -/
theorem memberLexemes_flat {m : Member} {text : Text} (h : ValueText m.value text)
    (ms : List Member) :
    ∃ v : Lexeme, v.text = text ∧ (v.kind = .primitive ↔ m.value = [.primitive text]) ∧
      memberLexemes (m :: ms) = ⟨.string, m.key, false⟩ :: v :: memberLexemes ms := by
  rw [memberLexemes_cons]
  rcases h with h | h
  · refine ⟨⟨.primitive, text, false⟩, rfl, by simp [h], ?_⟩
    simp [memberLexemes, Member.tokens, h, lexemeOf]
  · refine ⟨⟨.string, text, false⟩, rfl, by simp [h], ?_⟩
    simp [memberLexemes, Member.tokens, h, lexemeOf]

theorem length_memberLexemes {ms : List Member} (h : ∀ m ∈ ms, FlatMember m) :
    (memberLexemes ms).length = 2 * ms.length := by
  induction ms with
  | nil => rfl
  | cons m ms ih =>
    obtain ⟨text, htext, -⟩ := (h m (by simp)).value
    obtain ⟨v, -, -, hlexemes⟩ := memberLexemes_flat htext ms
    have htail := ih fun m' hm' => h m' (List.mem_cons_of_mem m hm')
    rw [hlexemes, List.length_cons, List.length_cons, htail, List.length_cons]
    omega

theorem short_memberLexemes {ms : List Member} (h : ∀ m ∈ ms, FlatMember m) :
    Short (memberLexemes ms) := by
  induction ms with
  | nil => exact fun l hl => by cases hl
  | cons m ms ih =>
    obtain ⟨text, htext, -, hlen⟩ := (h m (by simp)).value
    obtain ⟨v, hv, -, hlexemes⟩ := memberLexemes_flat htext ms
    have htail := ih fun m' hm' => h m' (List.mem_cons_of_mem m hm')
    intro l hl
    rw [hlexemes] at hl
    simp only [List.mem_cons] at hl
    rcases hl with rfl | rfl | hl
    · exact (h m (by simp)).key_length
    · rw [hv]
      exact hlen
    · exact htail l hl

/-- **The last pair wins.** The pairs of flat members assign a command the value
    of the last primitive member with its name. -/
theorem lastValue_memberLexemes {ms : List Member} (h : ∀ m ∈ ms, FlatMember m) (c : StowCmd) :
    lastValue c (readPairs (memberLexemes ms)) = (lastPrimitive (StowCmd.key c) ms).map atoi := by
  induction ms with
  | nil => rfl
  | cons m ms ih =>
    obtain ⟨text, htext, -⟩ := (h m (by simp)).value
    obtain ⟨v, hv, hkind, hlexemes⟩ := memberLexemes_flat htext ms
    have htail := ih fun m' hm' => h m' (List.mem_cons_of_mem m hm')
    have hpair : lastValue c (if v.kind = .primitive then keyWrites m.key v.text else []) =
        (if m.key = StowCmd.key c then primitiveText m else none).map atoi := by
      rcases htext with hvalue | hvalue
      · rw [if_pos (hkind.2 hvalue), lastValue_keyWrites, hv, primitiveText, hvalue]
        split_ifs <;> rfl
      · rw [if_neg (by rw [hkind, hvalue]; simp), primitiveText, hvalue]
        split_ifs <;> rfl
    rw [hlexemes, readPairs, lastValue_append, htail, lastPrimitive_cons, Option.map_or, ← hpair]
    simp

/-- **Flat command messages are decoded exactly.** The text stands in the payload,
    or in the payload and the memory behind `JSONMsg`, with a NUL at its end. -/
theorem mqttCallbackMessage_flat {w e w' : Text} {ms : List Member} (hw : Blank w)
    (he : Blank e) (hw' : Blank w') (hms : ∀ m ∈ ms, FlatMember m) (hlen : ms.length ≤ 4)
    {payload after rest : Bytes} (hnul : payload ++ after = objectText w e w' ms ++ 0 :: rest)
    (tokens0 : Tokens) (cmds : StowCmds) :
    mqttCallbackMessage payload after tokens0 cmds =
      some fun c => ((lastPrimitive (StowCmd.key c) ms).map atoi).getD (cmds c) := by
  have hlength := length_memberLexemes hms
  have hd := derives_objectText hw he hw' fun m hm => (hms m hm).valid
  have htext : cString (memoryFrom payload after) = objectText w e w' ms := by
    rw [cString_memoryFrom_eq, hnul, cString_append_zero hd.zero_notMem]
  have hls : lexemes maxJsonTokens (objectText w e w' ms) =
      some (lexemeOf .object :: memberLexemes ms) := by
    rw [lexemes_of_derives hd]
    · rfl
    · rw [memberLexemes, List.length_map] at hlength
      rw [List.length_cons, hlength, maxJsonTokens]
      omega
  have hwrites : mqttCallbackWrites payload after tokens0 =
      some (readPairs (memberLexemes ms)) := by
    rw [mqttCallbackWrites_eq, htext, hls]
    show decode _ (memberLexemes ms) = _
    exact decode_eq_readPairs (short_memberLexemes hms) fun hodd => absurd hodd (by omega)
  unfold mqttCallbackMessage
  rw [hwrites, Option.map_some]
  congr 1
  funext c
  rw [applyWrites_apply, lastValue_memberLexemes hms]

/-- `mqttCallbackMessage_flat` for `{"stow_status":1}` sent with its NUL. -/
theorem mqttCallbackMessage_flat_stow :
    (mqttCallbackMessage (objectText [] [] [] [stowMember] ++ [0]) [] zeroTokens .initial).map
      (· .webApp) = some 1 := by
  have hflat : ∀ m ∈ [stowMember], FlatMember m := by
    intro m hm
    rw [List.mem_singleton.1 hm]
    exact ⟨stowMember_valid, by decide, by decide, ascii "1", .inl rfl, by decide, by decide⟩
  rw [mqttCallbackMessage_flat blank_nil blank_nil blank_nil hflat (by decide)
    (List.append_nil _)]
  decide

end TrackerDemo.Mqtt

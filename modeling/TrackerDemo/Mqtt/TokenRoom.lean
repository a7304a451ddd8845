import TrackerDemo.Jsmn.TokenLimit
import TrackerDemo.Mqtt.Insertion

/-!
# Room for the tokens of a message

`MQTT_callback_message` declares an array of `MAX_JSON_ELEMENT_LENGTH` tokens
(`mosquittoClient.c`, lines 238–240) and passes the number 10 to `jsmn_parse`
(line 251), so a JSON message with more than ten tokens is dropped.

Results:
* `callbackParse_nomem_iff`: when the call runs out of tokens, for any memory
  behind the message.
* `elevenTokens_dropped`: an object of five members is dropped.
-/

namespace TrackerDemo.Mqtt

open TrackerDemo.CString TrackerDemo.Jsmn TrackerDemo.Json

/-- `MAX_JSON_ELEMENT_LENGTH`. -/
def maxJsonElementLength : ℕ := 100

/-- What `jsmn_parse` returns to the callback. -/
def callbackParse (payload after : Bytes) (tokens0 : Tokens) : Except JsmnErr ℕ :=
  (jsmnParse (cString (memoryFrom payload after)) maxJsonTokens tokens0).1

/-- The number of tokens that jsmn fills of the whole array. -/
def tokensFound (text : Bytes) : ℕ := (scanText maxJsonElementLength text).toks.length

/-- The number of tokens of a JSON text that fits the array. -/
theorem tokensFound_of_derives {t : Text} {ts : List Token} (hd : Derives .element t ts)
    (hlen : ts.length ≤ maxJsonElementLength) : tokensFound t = ts.length :=
  length_scanText_of_derives hd hlen

/-- A JSON text that fits the ten tokens is accepted. -/
theorem jsmnParse_of_derives {t : Text} {ts : List Token} (hd : Derives .element t ts)
    (hlen : ts.length ≤ maxJsonTokens) (tokens0 : Tokens) :
    (jsmnParse t maxJsonTokens tokens0).1 = .ok ts.length := by
  refine (jsmnParse_eq_ok_iff maxJsonTokens hd.zero_notMem _).2 ?_
  exact ⟨_, lexemes_of_derives hd hlen, List.length_map _⟩

/-- **Room for the tokens.** A JSON payload that fits the declared array, in a
    memory that goes on with `u` behind it, does not run out of tokens iff jsmn
    finds at most ten in the text up to the next NUL. If that NUL follows the
    payload, the call returns the number of tokens, or the error from eleven
    on. -/
theorem callbackParse_nomem_iff {t : Text} {ts : List Token} (hd : Derives .element t ts)
    (hlen : ts.length ≤ maxJsonElementLength) {payload after u : Bytes}
    (hmemory : payload ++ after = t ++ u) (tokens0 : Tokens) :
    (callbackParse payload after tokens0 ≠ .error .nomem ↔
        tokensFound (t ++ cString u) ≤ maxJsonTokens) ∧
      (u.head? = some 0 → callbackParse payload after tokens0 =
        if ts.length ≤ maxJsonTokens then .ok ts.length else .error .nomem) := by
  have hroom : maxJsonTokens < maxJsonElementLength := by decide
  have htext : cString (memoryFrom payload after) = t ++ cString u := by
    rw [cString_memoryFrom_eq, hmemory, cString_append hd.zero_notMem]
  have h0 : (0 : Byte) ∉ t ++ cString u := htext ▸ zero_notMem_cString _
  have hnomem : callbackParse payload after tokens0 = .error .nomem ↔
      maxJsonTokens < tokensFound (t ++ cString u) := by
    unfold callbackParse
    rw [htext]
    exact jsmnParse_nomem_iff hroom h0 tokens0
  refine ⟨(not_congr hnomem).trans not_lt, fun hu => ?_⟩
  have hend : cString u = [] := by
    cases u with
    | nil => rfl
    | cons c u =>
      cases hu
      rfl
  rw [hend, List.append_nil] at htext
  rw [hend, List.append_nil, tokensFound_of_derives hd hlen] at hnomem
  split_ifs with hle
  · unfold callbackParse
    rw [htext]
    exact jsmnParse_of_derives hd hle tokens0
  · exact hnomem.2 (not_le.1 hle)

/-- `callbackParse_nomem_iff` for `{"stow_status":1}`. -/
theorem callbackParse_stow :
    callbackParse (objectText [] [] [] [stowMember]) [0] zeroTokens = .ok 3 := by
  have hv : ∀ m ∈ [stowMember], m.Valid := by simpa using stowMember_valid
  have hd := derives_objectText blank_nil blank_nil blank_nil hv
  rw [(@callbackParse_nomem_iff _ _ hd (by decide) _ [0] [0] rfl zeroTokens).2 rfl]
  rfl

/-- An object of five members has eleven tokens and is dropped. -/
theorem elevenTokens_dropped :
    ¬∀ (t : Text) (ts : List Token) (rest : Bytes) (tokens0 : Tokens), Derives .element t ts →
      ts.length ≤ maxJsonElementLength → callbackParse t (0 :: rest) tokens0 ≠ .error .nomem := by
  intro h
  have hv : ∀ m ∈ List.replicate 5 stowMember, m.Valid := by
    intro m hm
    rw [List.eq_of_mem_replicate hm]
    exact stowMember_valid
  have hd := derives_objectText blank_nil blank_nil blank_nil hv
  refine h _ _ [] zeroTokens hd (by decide) ?_
  have hroom : maxJsonTokens < maxJsonElementLength := by decide
  unfold callbackParse
  rw [cString_memoryFrom_nul hd.zero_notMem, jsmnParse_nomem_iff hroom hd.zero_notMem,
    length_scanText_of_derives hd (by decide)]
  decide

end TrackerDemo.Mqtt

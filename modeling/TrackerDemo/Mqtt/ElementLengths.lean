import TrackerDemo.Mqtt.Callback
import TrackerDemo.Jsmn.JsonText

/-!
# The lengths of keys and values

`MQTT_callback_message` copies the text of a key and of a value into arrays of
`MAX_JSON_MSG_LENGTH` bytes, without a check of their lengths
(`mosquittoClient.c`, lines 271–280).

Results:
* `fitsElement_iff`: a token fits iff its lexeme's text is shorter than the array.
* `elementsFit_iff`: when every copy of a message fits.
* `mqttCallbackWrites_isSome`: then the callback stays inside its arrays.
-/

namespace TrackerDemo.Mqtt

open TrackerDemo.CString TrackerDemo.Jsmn TrackerDemo.Json

/-! ## Copies that fit -/

/-- The text of the token and a NUL fit into `keyStr` and `valueStr`. -/
def FitsElement (tok : JsmnTok) : Prop :=
  0 ≤ tok.stop - tok.start ∧ tok.stop - tok.start ≤ (maxJsonMsgLength : ℤ) - 1

/-- The iteration of the loop with index `i` copies a key and a value. -/
def CopiesPair (tokens : Tokens) (numTokens i : ℕ) : Prop :=
  i % 2 = 1 ∧ i < numTokens ∧ (tokens i).type = .string ∧ (tokens (i + 1)).type = .primitive

/-- Whatever the array `tokens` holds before the call, all copies fit. -/
def ElementsFit (payload rest : Bytes) : Prop :=
  ∀ (tokens0 : Tokens) (numTokens : ℕ) (tokens : Tokens),
    jsmnParse (cString (memoryFrom payload (0 :: rest))) maxJsonTokens tokens0 =
      (.ok numTokens, tokens) →
    ∀ i, CopiesPair tokens numTokens i → FitsElement (tokens i) ∧ FitsElement (tokens (i + 1))

/-- A string at an odd index of an accepted payload is not its last token, and
    if a primitive follows it, the two texts have at most 1023 bytes. -/
def ShortElements (payload : Bytes) : Prop :=
  ∀ ls i k, lexemes maxJsonTokens payload = some ls → i % 2 = 1 → ls[i]? = some k →
    k.kind = .string → ∃ v, ls[i + 1]? = some v ∧ (v.kind = .primitive →
      k.text.length < maxJsonMsgLength ∧ v.text.length < maxJsonMsgLength)

/-- A filled token fits iff its text is shorter than the array. -/
theorem fitsElement_iff {js : Bytes} {tok : JsmnTok} {l : Lexeme} (h : Matches js tok l)
    (hk : l.kind = .string ∨ l.kind = .primitive) :
    FitsElement tok ↔ l.text.length < maxJsonMsgLength := by
  obtain ⟨a, b, hab, hb, hstart, hstop, htext⟩ := h.position hk
  unfold FitsElement
  rw [hstart, hstop, htext, length_slice hb]
  omega

theorem not_fitsElement_negativeToken : ¬FitsElement negativeToken := by
  unfold FitsElement negativeToken
  simp

/-- **Element lengths.** All copies of a message fit exactly when the payload's
    keys and values are short, and no key is without a value. -/
theorem elementsFit_iff (payload rest : Bytes) (h0 : (0 : Byte) ∉ payload) :
    ElementsFit payload rest ↔ ShortElements payload := by
  unfold ElementsFit
  simp only [cString_memoryFrom_nul h0]
  constructor
  · intro h ls i k hls hodd hk hstring
    obtain ⟨hi, rfl⟩ := List.getElem?_eq_some_iff.1 hk
    -- behind the parsed tokens, the array may hold a token of negative length
    obtain ⟨tokens, hparse, hmatch, huntouched⟩ :=
      @jsmnParse_of_lexemes _ (fun _ => negativeToken) _ h0 _ hls
    have hki := hmatch i hi
    have hcopied := h _ _ _ hparse i
    rcases Nat.lt_or_ge (i + 1) ls.length with hlt | hge
    · have hvi := hmatch (i + 1) hlt
      refine ⟨ls[i + 1], List.getElem?_eq_getElem hlt, fun hprim => ?_⟩
      obtain ⟨hkfit, hvfit⟩ := hcopied
        ⟨hodd, hi, by rw [hki.type_eq, hstring], by rw [hvi.type_eq, hprim]⟩
      exact ⟨(fitsElement_iff hki (.inl hstring)).1 hkfit,
        (fitsElement_iff hvi (.inr hprim)).1 hvfit⟩
    · have hstale := huntouched (i + 1) hge
      obtain ⟨-, hvfit⟩ := hcopied
        ⟨hodd, hi, by rw [hki.type_eq, hstring], by rw [hstale]; rfl⟩
      rw [hstale] at hvfit
      exact absurd hvfit not_fitsElement_negativeToken
  · rintro h tokens0 numTokens tokens hparse i ⟨hodd, hi, hks, hvp⟩
    have hok := congrArg Prod.fst hparse
    obtain ⟨ls, hls, rfl⟩ := (jsmnParse_eq_ok_iff maxJsonTokens h0 numTokens).1 hok
    obtain ⟨tokens', hparse', hmatch, -⟩ := @jsmnParse_of_lexemes _ tokens0 _ h0 _ hls
    obtain rfl : tokens' = tokens := congrArg Prod.snd (hparse'.symm.trans hparse)
    have hki := hmatch i hi
    rw [hki.type_eq] at hks
    obtain ⟨v, hv, hshort⟩ := h ls i _ hls hodd (List.getElem?_eq_getElem hi) hks
    obtain ⟨hlt, rfl⟩ := List.getElem?_eq_some_iff.1 hv
    have hvi := hmatch (i + 1) hlt
    rw [hvi.type_eq] at hvp
    obtain ⟨hk, hv⟩ := hshort hvp
    exact ⟨(fitsElement_iff hki (.inl hks)).2 hk, (fitsElement_iff hvi (.inr hvp)).2 hv⟩

/-- `elementsFit_iff` for a stow command. -/
theorem elementsFit_iff_sample : ElementsFit (ascii "\x7b\"stow_status\":1\x7d") [] := by
  refine (elementsFit_iff _ [] (by decide)).2 ?_
  intro ls i k hls hodd hk _
  have hsample : lexemes maxJsonTokens (ascii "\x7b\"stow_status\":1\x7d") =
      some [⟨.object, [], false⟩, ⟨.string, StowCmd.key .webApp, false⟩,
        ⟨.primitive, [49], false⟩] := by decide
  obtain rfl := Option.some.inj (hsample.symm.trans hls)
  have hi : i < 3 := (List.getElem?_eq_some_iff.1 hk).1
  obtain rfl : i = 1 := by omega
  obtain rfl := Option.some.inj hk
  exact ⟨_, rfl, fun _ => by decide⟩

/-! ## The callback stays inside its arrays -/

theorem callbackLoop_isSome {memory : Bytes} {tokens : Tokens} (n i : ℕ)
    (h : ∀ j < n, (callbackToken memory tokens (i + 2 * j)).isSome) :
    (callbackLoop memory tokens n i).isSome := by
  induction n generalizing i with
  | zero => rfl
  | succ n ih =>
    obtain ⟨ws, hws⟩ := Option.isSome_iff_exists.1 (h 0 (by omega))
    obtain ⟨ws', hws'⟩ := Option.isSome_iff_exists.1 (ih (i + 2) fun j hj => by
      have := h (j + 1) (by omega)
      rwa [show i + 2 * (j + 1) = i + 2 + 2 * j by ring] at this)
    rw [callbackLoop, show callbackToken memory tokens i = some ws from hws, hws']
    rfl

/-- With short elements, no copy leaves its array. -/
theorem mqttCallbackWrites_isSome {payload : Bytes} (rest : Bytes) (tokens0 : Tokens)
    (h0 : (0 : Byte) ∉ payload) (h : ShortElements payload) :
    (mqttCallbackWrites payload (0 :: rest) tokens0).isSome := by
  have htext := cString_memoryFrom_nul h0 rest
  unfold mqttCallbackWrites
  dsimp only
  rw [htext]
  cases hls : lexemes maxJsonTokens payload with
  | none =>
    obtain ⟨e, tokens, hr⟩ := @jsmnParse_of_rejected _ tokens0 _ h0 hls
    rw [hr]
    rfl
  | some ls =>
    obtain ⟨tokens, hr, hmatch, -⟩ := @jsmnParse_of_lexemes _ tokens0 _ h0 _ hls
    rw [hr]
    refine callbackLoop_isSome _ 1 fun j hj => ?_
    have hi : 1 + 2 * j < ls.length := by omega
    have hki := hmatch (1 + 2 * j) hi
    by_cases hstring : ls[1 + 2 * j].kind = .string
    · obtain ⟨v, hv, hshort⟩ :=
        h ls (1 + 2 * j) _ hls (by omega) (List.getElem?_eq_getElem hi) hstring
      obtain ⟨hlt, rfl⟩ := List.getElem?_eq_some_iff.1 hv
      have hvi := hmatch (1 + 2 * j + 1) hlt
      rw [← htext] at hki hvi
      rw [callbackToken_of_matches hki hvi]
      unfold pairWrites
      split_ifs with hkind hlen
      · rfl
      · exact absurd (hshort hkind.2) hlen
      · rfl
    · unfold callbackToken
      rw [if_neg (by rw [hki.type_eq]; exact hstring)]
      rfl

/-! ## A long key -/

/-- A key of 1024 bytes. -/
def longKey : Bytes := List.replicate 1024 97

/-- An object with the long key as its only member. -/
def longKeyMessage : Bytes :=
  objectText [] [] [] [⟨34 :: (longKey ++ 34 :: ([] ++ 58 :: [49])), longKey, [.primitive [49]]⟩]

theorem derives_longKeyMessage :
    Derives .element longKeyMessage [.object, .string longKey, .primitive [49]] := by
  have hvalue : Derives .element ([] ++ ([49] ++ [])) [.primitive [49]] := by
    refine Derives.element (by simp [Blank]) (Derives.primitive ?_) (by simp [Blank])
    exact .inr (.inr (.inr ⟨[], [49], [], [], rfl, .inl rfl, .inr ⟨49, [], rfl, by decide,
      by decide, by simp⟩, .inl rfl, .inl rfl⟩))
  have hbody : StringBody longKey := by
    refine stringBody_of_plain fun c hc => ?_
    rw [List.eq_of_mem_replicate hc]
    decide
  refine derives_objectText (by simp [Blank]) (by simp [Blank]) (by simp [Blank]) fun m hm => ?_
  rw [List.mem_singleton.1 hm]
  exact Derives.member (w := []) (by simp [Blank]) hbody (by simp [Blank]) hvalue

/-- The copy of the long key writes behind `keyStr`. -/
theorem longKeyMessage_not_fits :
    ¬∀ payload rest : Bytes, (0 : Byte) ∉ payload → ElementsFit payload rest := by
  intro h
  have h0 := derives_longKeyMessage.zero_notMem
  have hls := lexemes_of_derives (n := maxJsonTokens) derives_longKeyMessage (by decide)
  obtain ⟨tokens, hparse, hmatch, -⟩ := @jsmnParse_of_lexemes _ zeroTokens _ h0 _ hls
  have hfit := h longKeyMessage [] h0
  unfold ElementsFit at hfit
  rw [cString_memoryFrom_nul h0] at hfit
  have hkey := hmatch 1 (by simp)
  have hvalue := hmatch 2 (by simp)
  obtain ⟨hkfit, -⟩ := hfit _ _ _ hparse 1 ⟨rfl, by simp, hkey.type_eq, hvalue.type_eq⟩
  have hlt := (fitsElement_iff hkey (.inl rfl)).1 hkfit
  exact absurd hlt (by
    show ¬longKey.length < maxJsonMsgLength
    rw [longKey, List.length_replicate]
    decide)

end TrackerDemo.Mqtt

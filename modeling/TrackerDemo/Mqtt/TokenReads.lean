import TrackerDemo.Mqtt.Callback

/-!
# The tokens that the pair loop reads

The loop of `MQTT_callback_message` (`mosquittoClient.c`, lines 264–297) tests
`i < numTokens` and reads `tokens[i]`; if that is a string, it reads
`tokens[i+1]` as well. `jsmn_parse` has filled the tokens below `numTokens`
only.

Results:
* `callbackLoop_congr`: the loop depends on no other token than the listed ones.
* `mem_loopReads_iff`: the listed indices.
* `readsParsed_iff`: they are all below `numTokens` unless the last token is a
  string without a partner.
-/

namespace TrackerDemo.Mqtt

open TrackerDemo.CString TrackerDemo.Jsmn

/-! ## The indices -/

/-- The indices that the body of the loop reads. -/
def tokenReads (tokens : Tokens) (i : ℕ) : List ℕ :=
  if (tokens i).type = .string then [i, i + 1] else [i]

/-- The indices that `n` iterations read from `i` on. -/
def loopReads (tokens : Tokens) : ℕ → ℕ → List ℕ
  | 0, _ => []
  | n + 1, i => tokenReads tokens i ++ loopReads tokens n (i + 2)

theorem callbackToken_congr {memory : Bytes} {tokens tokens' : Tokens} {i : ℕ}
    (h : ∀ j ∈ tokenReads tokens i, tokens' j = tokens j) :
    callbackToken memory tokens' i = callbackToken memory tokens i := by
  unfold tokenReads at h
  unfold callbackToken
  by_cases hs : (tokens i).type = .string
  · rw [if_pos hs] at h
    rw [h i (by simp), h (i + 1) (by simp)]
  · rw [if_neg hs] at h
    dsimp only
    rw [h i (by simp), if_neg hs, if_neg hs]

/-- What the loop does depends on the tokens with these indices only. -/
theorem callbackLoop_congr {memory : Bytes} {tokens tokens' : Tokens} (n : ℕ) {i : ℕ}
    (h : ∀ j ∈ loopReads tokens n i, tokens' j = tokens j) :
    callbackLoop memory tokens' n i = callbackLoop memory tokens n i := by
  induction n generalizing i with
  | zero => rfl
  | succ n ih =>
    rw [loopReads] at h
    have hbody : callbackToken memory tokens' i = callbackToken memory tokens i :=
      callbackToken_congr fun j hj => h j (List.mem_append_left _ hj)
    have hrest := ih fun j hj => h j (List.mem_append_right _ hj)
    rw [callbackLoop, callbackLoop, hbody, hrest]

/-- Every second index, and the one behind it if the token is a string. -/
theorem mem_loopReads_iff {tokens : Tokens} {n i j : ℕ} :
    j ∈ loopReads tokens n i ↔
      ∃ k < n, j = i + 2 * k ∨ j = i + 2 * k + 1 ∧ (tokens (i + 2 * k)).type = .string := by
  induction n generalizing i with
  | zero => simp [loopReads]
  | succ n ih =>
    have hbody : j ∈ tokenReads tokens i ↔ j = i ∨ j = i + 1 ∧ (tokens i).type = .string := by
      unfold tokenReads
      split_ifs with hs <;> simp [hs]
    rw [loopReads, List.mem_append, hbody, ih]
    constructor
    · rintro (h | ⟨k, hk, h⟩)
      · exact ⟨0, by omega, h⟩
      · refine ⟨k + 1, by omega, ?_⟩
        rwa [show i + 2 * (k + 1) = i + 2 + 2 * k by ring]
    · rintro ⟨k, hk, h⟩
      cases k with
      | zero => exact .inl h
      | succ k =>
        refine .inr ⟨k, by omega, ?_⟩
        rwa [show i + 2 + 2 * k = i + 2 * (k + 1) by ring]

/-! ## Parsed tokens -/

/-- If `jsmn_parse` accepts the message, every index that the loop reads is below
    the number of tokens. -/
def ReadsParsed (payload after : Bytes) (tokens0 : Tokens) : Prop :=
  ∀ (numTokens : ℕ) (tokens : Tokens),
    jsmnParse (cString (memoryFrom payload after)) maxJsonTokens tokens0 = (.ok numTokens, tokens) →
      ∀ i ∈ loopReads tokens (numTokens / 2) 1, i < numTokens

/-- The number of tokens is even and the last one is a string: it stands where a
    key would, with no value behind it. -/
def EndsInLoneKey (ls : List Lexeme) : Prop :=
  ls.length % 2 = 0 ∧ ∃ l, ls.getLast? = some l ∧ l.kind = .string

/-- **The reads of the pair loop.** For every message and every contents of the
    array before the call, the loop reads parsed tokens only iff the message is
    rejected or does not end in a key without a value. -/
theorem readsParsed_iff (payload after : Bytes) (tokens0 : Tokens) :
    ReadsParsed payload after tokens0 ↔
      ∀ ls, lexemes maxJsonTokens (cString (memoryFrom payload after)) = some ls →
        ¬EndsInLoneKey ls := by
  have h0 := zero_notMem_cString (memoryFrom payload after)
  unfold ReadsParsed
  constructor
  · rintro h ls hls ⟨heven, l, hlast, hstring⟩
    obtain ⟨tokens, hparse, hmatch, -⟩ := @jsmnParse_of_lexemes _ tokens0 _ h0 _ hls
    have hpos : 0 < ls.length := List.length_pos_iff.2 fun he => by simp [he] at hlast
    rw [List.getLast?_eq_getElem?] at hlast
    obtain ⟨hi, rfl⟩ := List.getElem?_eq_some_iff.1 hlast
    have htype := (hmatch _ hi).type_eq
    rw [hstring] at htype
    -- the last iteration reads the token behind the last one
    obtain ⟨k, hk⟩ : ∃ k, ls.length = 2 * k + 2 := ⟨ls.length / 2 - 1, by omega⟩
    have hread : ls.length ∈ loopReads tokens (ls.length / 2) 1 := by
      refine mem_loopReads_iff.2 ⟨k, by omega, .inr ⟨by omega, ?_⟩⟩
      rwa [show 1 + 2 * k = ls.length - 1 by omega]
    exact absurd (h _ _ hparse _ hread) (lt_irrefl _)
  · intro h numTokens tokens hparse i hread
    have hok := congrArg Prod.fst hparse
    obtain ⟨ls, hls, rfl⟩ := (jsmnParse_eq_ok_iff maxJsonTokens h0 numTokens).1 hok
    obtain ⟨tokens', hparse', hmatch, -⟩ := @jsmnParse_of_lexemes _ tokens0 _ h0 _ hls
    obtain rfl : tokens' = tokens := congrArg Prod.snd (hparse'.symm.trans hparse)
    obtain ⟨k, hk, rfl | ⟨rfl, hstring⟩⟩ := mem_loopReads_iff.1 hread
    · omega
    · by_contra hge
      have hi : 1 + 2 * k < ls.length := by omega
      rw [(hmatch _ hi).type_eq] at hstring
      refine h ls hls ⟨by omega, ls[1 + 2 * k], ?_, hstring⟩
      rw [List.getLast?_eq_getElem?, show ls.length - 1 = 1 + 2 * k by omega]
      exact List.getElem?_eq_getElem hi

/-- `["a"]` -/
def loneKeyMessage : Bytes := ascii "[\"a\"]"

/-- Its only element is taken for a key, and the loop reads `tokens[2]` of two
    tokens. -/
theorem loneKeyMessage_reads_behind :
    ¬∀ (payload after : Bytes) (tokens0 : Tokens), (0 : Byte) ∈ payload ++ after →
      ReadsParsed payload after tokens0 := by
  intro h
  have hreads := h loneKeyMessage [0] zeroTokens (by decide)
  have hls : lexemes maxJsonTokens (cString (memoryFrom loneKeyMessage [0])) =
      some [⟨.array, [], false⟩, ⟨.string, ascii "a", false⟩] := by
    rw [cString_memoryFrom_nul (by decide)]
    decide
  obtain ⟨tokens, hparse, hmatch, -⟩ :=
    @jsmnParse_of_lexemes _ zeroTokens _ (zero_notMem_cString _) _ hls
  have hstring : (tokens 1).type = .string := (hmatch 1 (by decide)).type_eq
  have hread : 2 ∈ loopReads tokens (2 / 2) 1 :=
    mem_loopReads_iff.2 ⟨0, by decide, .inr ⟨rfl, hstring⟩⟩
  exact absurd (hreads _ _ hparse 2 hread) (by decide)

end TrackerDemo.Mqtt

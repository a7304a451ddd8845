import TrackerDemo.Mqtt.Callback

/-!
# What follows the payload in memory

`JSONMsg` has no terminating NUL, so `strlen` and `jsmn_parse` read on into the
memory behind it. A message acts by its payload alone iff nothing that may stand
there can complete the payload to a text that assigns a command or copies too
long an element: the byte 128 there always makes the parse fail, so the message
then has to have no effect at all.

Results:
* `TailHarmless.scanFrom`: no continuation of a harmless state has an effect.
* `completes_of_not_harmless`: every other state has one that does.
* `payloadOnly_iff`: the exact payloads that act by their text alone.
-/

namespace TrackerDemo.Mqtt

open TrackerDemo.CString TrackerDemo.Jsmn

/-- The message does the same to the command variables whatever follows its
    payload in memory. -/
def PayloadOnly (payload : Bytes) : Prop :=
  ∀ (after after' : Bytes) (tokens0 : Tokens) (cmds : StowCmds), 0 ∈ after → 0 ∈ after' →
    mqttCallbackMessage payload after tokens0 cmds =
      mqttCallbackMessage payload after' tokens0 cmds

/-- The pair is not copied, or is copied within the buffers and names no
    command. -/
def HarmlessPair (k v : Lexeme) : Prop :=
  k.kind = .string → v.kind = .primitive →
    k.text.length < maxJsonMsgLength ∧ v.text.length < maxJsonMsgLength ∧
      ∀ c, k.text ≠ StowCmd.key c

/-- Every pair is harmless, and a last lexeme without a partner is no string. -/
def HarmlessPairs : List Lexeme → Prop
  | [] => True
  | [k] => k.kind ≠ .string
  | k :: v :: ls => HarmlessPair k v ∧ HarmlessPairs ls

/-- Nothing that follows can have an effect: the parser has failed, or it has
    no token left and those it has are harmless. -/
def TailHarmless (s : Scan) : Prop :=
  match s.mode with
  | .failed _ => True
  | .string _ _ | .escape _ => maxJsonTokens ≤ s.toks.length
  | .primitive _ => maxJsonTokens ≤ s.toks.length ∨
      s.toks.length + 1 = maxJsonTokens ∧ HarmlessPairs s.toks.reverse.tail
  | .between => s.toks.length = maxJsonTokens ∧ HarmlessPairs s.toks.reverse.tail

/-! ## Decoding harmless lexemes -/

theorem keyWrites_eq_nil_iff (k v : Bytes) :
    keyWrites k v = [] ↔ ∀ c, k ≠ StowCmd.key c := by
  unfold keyWrites strcmpEq
  constructor
  · intro h c hc
    cases c <;> simp [hc] at h
  · intro h
    simp [h]

theorem pairWrites_eq_nil_iff (k v : Lexeme) :
    pairWrites k v = some [] ↔ HarmlessPair k v := by
  unfold pairWrites HarmlessPair
  split_ifs with h1 h2
  · rw [Option.some.injEq, keyWrites_eq_nil_iff]
    exact ⟨fun h _ _ => ⟨h2.1, h2.2, h⟩, fun h => (h h1.1 h1.2).2.2⟩
  · constructor
    · intro h
      cases h
    · intro h
      exact absurd ⟨(h h1.1 h1.2).1, (h h1.1 h1.2).2.1⟩ h2
  · exact ⟨fun _ hk hv => absurd ⟨hk, hv⟩ h1, fun _ => rfl⟩

/-- Harmless lexemes decode to no assignment. -/
theorem HarmlessPairs.decode_eq {ls : List Lexeme} (h : HarmlessPairs ls) (memory : Bytes)
    (tok : JsmnTok) : decode (staleWrites memory tok) ls = some [] := by
  fun_induction HarmlessPairs ls with
  | case1 => rfl
  | case2 k =>
    exact staleWrites_of_not_string memory tok h
  | case3 k v ls ih =>
    rw [decode, (pairWrites_eq_nil_iff k v).2 h.1, ih h.2]
    rfl

/-- If the uninitialised token has a negative length, only harmless lexemes
    decode to no assignment. -/
theorem harmlessPairs_of_decode {ls : List Lexeme} (memory : Bytes)
    (h : decode (staleWrites memory negativeToken) ls = some []) : HarmlessPairs ls := by
  fun_induction decode (staleWrites memory negativeToken) ls with
  | case1 => trivial
  | case2 k =>
    intro hk
    rw [staleWrites_negativeToken memory hk] at h
    cases h
  | case3 k v ls ih =>
    cases hp : pairWrites k v with
    | none => simp [hp] at h
    | some ws =>
      cases hd : decode (staleWrites memory negativeToken) ls with
      | none => simp [hp, hd] at h
      | some ws' =>
        simp only [hp, hd, Option.bind_eq_bind, Option.bind_some, Option.some.injEq,
          List.append_eq_nil_iff] at h
        exact ⟨(pairWrites_eq_nil_iff k v).1 (h.1 ▸ hp), ih (h.2 ▸ hd)⟩

/-! ## No continuation of a harmless state has an effect -/

/-- Only the kinds and texts of lexemes matter. -/
theorem HarmlessPairs.congr {ls ls' : List Lexeme}
    (he : ls.map (fun l => (l.kind, l.text)) = ls'.map fun l => (l.kind, l.text)) :
    HarmlessPairs ls ↔ HarmlessPairs ls' := by
  induction ls using HarmlessPairs.induct generalizing ls' with
  | case1 =>
    rw [List.map_nil, eq_comm, List.map_eq_nil_iff] at he
    rw [he]
  | case2 k =>
    rw [eq_comm, List.map_cons, List.map_eq_cons_iff] at he
    obtain ⟨k', ls', rfl, hk, he⟩ := he
    rw [List.map_nil, List.map_eq_nil_iff] at he
    simp only [Prod.mk.injEq] at hk
    rw [he]
    simp only [HarmlessPairs, hk.1]
  | case3 k v ls ih =>
    rw [eq_comm, List.map_cons, List.map_cons, List.map_eq_cons_iff] at he
    obtain ⟨k', ls', rfl, hk, he⟩ := he
    rw [List.map_eq_cons_iff] at he
    obtain ⟨v', ls', rfl, hv, he⟩ := he
    simp only [Prod.mk.injEq] at hk hv
    simp only [HarmlessPairs, HarmlessPair, hk.1, hk.2, hv.1, hv.2, ih he.symm]

theorem harmlessPairs_append_single {ls : List Lexeme} (hl : ls.length % 2 = 0) (k : Lexeme) :
    HarmlessPairs (ls ++ [k]) ↔ HarmlessPairs ls ∧ k.kind ≠ .string := by
  induction ls using HarmlessPairs.induct with
  | case1 => simp [HarmlessPairs]
  | case2 => simp at hl
  | case3 a b ls ih =>
    have hl' : ls.length % 2 = 0 := by
      simp only [List.length_cons] at hl
      omega
    simp [HarmlessPairs, ih hl', and_assoc]

/-- The tenth token has no partner. -/
theorem harmlessPairs_tenth {toks : List Lexeme} (hlen : toks.length + 1 = maxJsonTokens)
    (l : Lexeme) :
    HarmlessPairs (l :: toks).reverse.tail ↔
      HarmlessPairs toks.reverse.tail ∧ l.kind ≠ .string := by
  have hne : toks.reverse ≠ [] := by
    intro he
    rw [List.reverse_eq_nil_iff] at he
    rw [he] at hlen
    cases hlen
  have heven : toks.reverse.tail.length % 2 = 0 := by
    rw [List.length_tail, List.length_reverse]
    unfold maxJsonTokens at hlen
    omega
  rw [List.reverse_cons, List.tail_append_of_ne_nil hne]
  exact harmlessPairs_append_single heven l

theorem betweenByte_harmless {toks : List Lexeme} (h : TailHarmless ⟨.between, toks⟩) (c : Byte) :
    TailHarmless (betweenByte maxJsonTokens toks c) := by
  obtain ⟨hlen, hpairs⟩ := h
  have hadd : ∀ l, TailHarmless (addToken maxJsonTokens toks l) := by
    intro l
    rw [addToken_of_le hlen.ge]
    trivial
  have hclose : ∀ kind, TailHarmless (closeToken toks kind) := by
    intro kind
    unfold closeToken
    cases hc : closeLast kind toks with
    | none => trivial
    | some toks' =>
      have hmap := closeLast_map hc
      refine ⟨?_, ?_⟩
      · have := congrArg List.length hmap
        simp only [List.length_map] at this
        exact this.trans hlen
      · refine (HarmlessPairs.congr ?_).2 hpairs
        rw [List.map_tail, List.map_tail, List.map_reverse, List.map_reverse, hmap]
  unfold betweenByte
  split_ifs
  · exact hadd _
  · exact hadd _
  · exact hclose _
  · exact hclose _
  · exact hlen.ge
  · exact ⟨hlen, hpairs⟩
  · trivial
  · exact .inl hlen.ge

/-- The step lemma: a byte leaves a harmless state harmless. -/
theorem scanByte_harmless {s : Scan} (h : TailHarmless s) (c : Byte) :
    TailHarmless (scanByte maxJsonTokens s c) := by
  obtain ⟨mode, toks⟩ := s
  cases mode with
  | failed e => trivial
  | between => exact betweenByte_harmless h c
  | primitive acc =>
    show TailHarmless (if _ then _ else _)
    split_ifs with hends hout
    · rcases h with hfull | ⟨hlen, hpairs⟩
      · rw [addToken_of_le hfull]
        trivial
      · have hlt : toks.length < maxJsonTokens := by
          dsimp only at hlen
          omega
        rw [addToken_of_lt hlt]
        have hadded : TailHarmless ⟨.between, ⟨.primitive, acc, false⟩ :: toks⟩ :=
          ⟨hlen, (harmlessPairs_tenth hlen _).2 ⟨hpairs, by simp⟩⟩
        exact betweenByte_harmless hadded c
    · trivial
    · exact h
  | string acc hex =>
    have hfull : maxJsonTokens ≤ toks.length := h
    cases hex with
    | zero =>
      show TailHarmless (if _ then _ else _)
      split_ifs
      · rw [addToken_of_le hfull]
        trivial
      · exact hfull
      · exact hfull
    | succ hex =>
      show TailHarmless (if _ then _ else _)
      split_ifs
      · exact hfull
      · trivial
  | escape acc =>
    show TailHarmless (if _ then _ else _)
    split_ifs
    · exact h
    · exact h
    · trivial

/-- The run lemma. -/
theorem TailHarmless.scanFrom {s : Scan} (h : TailHarmless s) (u : Bytes) :
    TailHarmless (scanFrom maxJsonTokens s u) := by
  induction u generalizing s with
  | nil => exact h
  | cons c u ih => exact ih (scanByte_harmless h c)

/-- The lexemes of an accepted text that ends in a harmless state are
    harmless. -/
theorem TailHarmless.pairs {s : Scan} (h : TailHarmless s)
    (hf : (s.flush maxJsonTokens).finish = .ok ()) :
    HarmlessPairs (s.flush maxJsonTokens).toks.reverse.tail := by
  obtain ⟨mode, toks⟩ := s
  cases mode with
  | failed e => cases hf
  | between => exact h.2
  | primitive acc =>
    rcases h with hfull | ⟨hlen, hpairs⟩
    · rw [flush_primitive, addToken_of_le hfull] at hf
      cases hf
    · have hlt : toks.length < maxJsonTokens := by
        dsimp only at hlen
        omega
      rw [flush_primitive, addToken_of_lt hlt]
      exact (harmlessPairs_tenth hlen _).2 ⟨hpairs, by simp⟩
  | string acc hex => cases hf
  | escape acc => cases hf

/-- A harmless payload assigns nothing. -/
theorem mqttCallbackWrites_of_harmless {payload : Bytes} (h0 : (0 : Byte) ∉ payload)
    (h : TailHarmless (scanFrom maxJsonTokens .start payload)) (after : Bytes)
    (tokens0 : Tokens) : mqttCallbackWrites payload after tokens0 = some [] := by
  rw [mqttCallbackWrites_eq, cString_memoryFrom h0, lexemes]
  cases hf : (scanText maxJsonTokens (payload ++ cString after)).finish with
  | error e => rfl
  | ok u =>
    unfold scanText at hf ⊢
    rw [scanFrom_append] at hf ⊢
    exact ((h.scanFrom _).pairs hf).decode_eq _ _

/-! ## Every other state has a continuation with an effect -/

/-- Some bytes complete the text to an accepted one whose lexemes are not
    harmless. -/
def Completes (s : Scan) : Prop :=
  ∃ (u : Bytes) (toks : List Lexeme), (0 : Byte) ∉ u ∧
    scanFrom maxJsonTokens s u = ⟨.between, toks⟩ ∧ (∀ l ∈ toks, l.isOpen = false) ∧
    ¬ HarmlessPairs toks.reverse.tail

theorem Completes.of_scanFrom {s : Scan} {u : Bytes} (hu : (0 : Byte) ∉ u)
    (h : Completes (scanFrom maxJsonTokens s u)) : Completes s := by
  obtain ⟨u', toks, hu', hs, hc, hp⟩ := h
  refine ⟨u ++ u', toks, ?_, by rw [scanFrom_append, hs], hc, hp⟩
  intro h0
  rcases List.mem_append.1 h0 with h0 | h0
  · exact hu h0
  · exact hu' h0

/-- Lexemes that are not harmless only have to be closed. -/
theorem completes_of_pairs {toks : List Lexeme} (hw : WellFormed maxJsonTokens toks)
    (h : ¬ HarmlessPairs toks.reverse.tail) : Completes ⟨.between, toks⟩ := by
  refine ⟨closers toks, closedAll toks, zero_notMem_closers toks, scanFrom_closers hw,
    fun l hl => ?_, fun hp => h ((HarmlessPairs.congr ?_).1 hp)⟩
  · obtain ⟨l', -, rfl⟩ := List.mem_map.1 hl
    rfl
  · rw [List.map_tail, List.map_tail, List.map_reverse, List.map_reverse, closedAll_map]

/-- With a token left, the array can be filled up so that the tenth one is a
    string. -/
theorem completes_of_room (k : ℕ) {toks : List Lexeme} (hw : WellFormed maxJsonTokens toks)
    (hk : toks.length + k + 1 = maxJsonTokens) : Completes ⟨.between, toks⟩ := by
  induction k generalizing toks with
  | zero =>
    have hstep : scanFrom maxJsonTokens ⟨.between, toks⟩ (ascii "\"x\"") =
        ⟨.between, ⟨.string, ascii "x", false⟩ :: toks⟩ := by
      rw [← addToken_of_lt (show toks.length < maxJsonTokens by omega)]
      rfl
    have hadded := scanFrom_wellFormed (s := ⟨.between, toks⟩) hw (ascii "\"x\"")
    rw [hstep] at hadded
    apply Completes.of_scanFrom (u := ascii "\"x\"") (by decide)
    rw [hstep]
    apply completes_of_pairs hadded
    exact fun hp => ((harmlessPairs_tenth (by omega) _).1 hp).2 rfl
  | succ k ih =>
    have hlt : toks.length < maxJsonTokens := by omega
    have hstep : scanFrom maxJsonTokens ⟨.between, toks⟩ (ascii "1 ") =
        ⟨.between, ⟨.primitive, ascii "1", false⟩ :: toks⟩ := by
      rw [show ascii "1 " = [49, 32] by decide, scanFrom_cons, scanFrom_cons, scanFrom_nil]
      show scanByte maxJsonTokens ⟨.primitive [49], toks⟩ 32 = _
      rw [scanByte_primitive, if_pos (by decide), addToken_of_lt hlt]
      rfl
    have hadded := scanFrom_wellFormed (s := ⟨.between, toks⟩) hw (ascii "1 ")
    rw [hstep] at hadded
    apply Completes.of_scanFrom (u := ascii "1 ") (by decide)
    rw [hstep]
    apply ih hadded
    rw [List.length_cons]
    omega

/-- After a token was added, the text can be completed if there is room for
    another one, or if the lexemes are not harmless now. -/
theorem completes_of_added {toks : List Lexeme} (hw : WellFormed maxJsonTokens toks)
    (h : toks.length < maxJsonTokens ∨ ¬ HarmlessPairs toks.reverse.tail) :
    Completes ⟨.between, toks⟩ := by
  rcases h with hlt | hp
  · exact completes_of_room (maxJsonTokens - toks.length - 1) hw (by omega)
  · exact completes_of_pairs hw hp

theorem completes_string {toks : List Lexeme} (hw : WellFormed maxJsonTokens toks)
    (hlt : toks.length < maxJsonTokens) (hex : ℕ) (acc : Bytes) :
    Completes ⟨.string acc hex, toks⟩ := by
  induction hex generalizing acc with
  | zero =>
    have hadded := addToken_wellFormed hw (l := ⟨.string, acc, false⟩) fun ho => by cases ho
    apply Completes.of_scanFrom (u := [34]) (by decide)
    show Completes (addToken maxJsonTokens toks ⟨.string, acc, false⟩)
    rw [addToken_of_lt hlt] at hadded ⊢
    apply completes_of_added hadded
    by_cases hlast : toks.length + 1 = maxJsonTokens
    · exact .inr fun hp => ((harmlessPairs_tenth hlast _).1 hp).2 rfl
    · left
      rw [List.length_cons]
      omega
  | succ hex ih => exact Completes.of_scanFrom (u := [48]) (by decide) (ih (acc ++ [48]))

theorem completes_of_not_harmless {s : Scan} (hw : WellFormed maxJsonTokens s.toks)
    (h : ¬ TailHarmless s) : Completes s := by
  obtain ⟨mode, toks⟩ := s
  cases mode with
  | failed e => exact absurd trivial h
  | between =>
    apply completes_of_added hw
    have := hw.length_le
    dsimp only at this
    by_cases hlt : toks.length < maxJsonTokens
    · exact .inl hlt
    · exact .inr fun hp => h ⟨by dsimp only; omega, hp⟩
  | primitive acc =>
    have hlt : toks.length < maxJsonTokens := by
      by_contra hge
      exact h (.inl (by dsimp only; omega))
    have hadded := addToken_wellFormed hw (l := ⟨.primitive, acc, false⟩) fun ho => by cases ho
    dsimp only at hadded
    apply Completes.of_scanFrom (u := [32]) (by decide)
    rw [scanFrom_cons, scanByte_primitive, if_pos (by decide)]
    rw [addToken_of_lt hlt] at hadded ⊢
    apply completes_of_added hadded
    by_cases hlast : toks.length + 1 = maxJsonTokens
    · right
      intro hp
      exact h (.inr ⟨hlast, ((harmlessPairs_tenth hlast _).1 hp).1⟩)
    · left
      rw [List.length_cons]
      omega
  | string acc hex =>
    have hlt : toks.length < maxJsonTokens := by
      by_contra hge
      exact h (show maxJsonTokens ≤ toks.length by omega)
    exact completes_string hw hlt hex acc
  | escape acc =>
    have hlt : toks.length < maxJsonTokens := by
      by_contra hge
      exact h (show maxJsonTokens ≤ toks.length by omega)
    exact Completes.of_scanFrom (u := [110]) (by decide) (completes_string hw hlt 0 (acc ++ [110]))

/-! ## The exact payloads -/

/-- The byte 128 makes every text fail. -/
theorem lexemes_append_128 (n : ℕ) (js : Bytes) : lexemes n (js ++ [128]) = none := by
  have hflush : ∀ s : Scan, ∃ e toks, (scanByte n s 128).flush n = ⟨.failed e, toks⟩ := by
    rintro ⟨mode, toks⟩
    cases mode with
    | failed e => exact ⟨e, toks, rfl⟩
    | between => exact ⟨.inval, toks, rfl⟩
    | primitive acc => exact ⟨.inval, toks, rfl⟩
    | string acc hex =>
      cases hex with
      | zero => exact ⟨.part, toks, rfl⟩
      | succ hex => exact ⟨.inval, toks, rfl⟩
    | escape acc => exact ⟨.inval, toks, rfl⟩
  obtain ⟨e, toks, he⟩ := hflush (scanFrom n .start js)
  unfold lexemes scanText
  rw [scanFrom_append, scanFrom_cons, scanFrom_nil, he]
  rfl

/-- A payload that can be completed to a text with an effect has one, for some
    memory behind it and some uninitialised token. -/
theorem exists_writes_of_completes {payload : Bytes} (h0 : (0 : Byte) ∉ payload)
    (h : Completes (scanFrom maxJsonTokens .start payload)) :
    ∃ after, 0 ∈ after ∧ mqttCallbackWrites payload after (fun _ => negativeToken) ≠ some [] := by
  obtain ⟨u, toks, hu, hs, hc, hp⟩ := h
  rw [← scanFrom_append] at hs
  refine ⟨u ++ [0], by simp, fun hw => hp ?_⟩
  rw [mqttCallbackWrites_eq, cString_memoryFrom h0, cString_append_zero hu,
    lexemes_of_scanFrom hs hc] at hw
  exact harmlessPairs_of_decode _ hw

/-- A payload acts by its text alone iff it has no effect at all. -/
theorem payloadOnly_iff_writes {payload : Bytes} (h0 : (0 : Byte) ∉ payload) :
    PayloadOnly payload ↔ ∀ after tokens0, 0 ∈ after →
      mqttCallbackWrites payload after tokens0 = some [] := by
  constructor
  · intro h after tokens0 hafter
    have hfail : mqttCallbackWrites payload [128, 0] tokens0 = some [] := by
      rw [mqttCallbackWrites_eq, cString_memoryFrom h0, show cString [128, 0] = [128] by decide,
        lexemes_append_128]
    have hsame : ∀ cmds, (mqttCallbackWrites payload after tokens0).map
        (fun ws => applyWrites ws cmds) = some cmds := by
      intro cmds
      have := h after [128, 0] tokens0 cmds hafter (by decide)
      unfold mqttCallbackMessage at this
      rw [this, hfail]
      rfl
    cases hw : mqttCallbackWrites payload after tokens0 with
    | none =>
      have := hsame .initial
      rw [hw] at this
      cases this
    | some ws =>
      rw [hw] at hsame
      rw [(applyWrites_eq_self_iff ws).1 fun cmds => Option.some.inj (hsame cmds)]
  · intro h after after' tokens0 cmds hafter hafter'
    unfold mqttCallbackMessage
    rw [h after tokens0 hafter, h after' tokens0 hafter']

/-- **The effect of a message depends only on its payload** iff the payload
    itself rules out every effect: the parser fails within it, or it uses up the
    ten tokens and those are harmless. -/
theorem payloadOnly_iff (payload : Bytes) (h0 : (0 : Byte) ∉ payload) :
    PayloadOnly payload ↔ TailHarmless (scanFrom maxJsonTokens .start payload) := by
  rw [payloadOnly_iff_writes h0]
  constructor
  · intro h
    by_contra hn
    obtain ⟨after, hafter, hne⟩ := exists_writes_of_completes h0
      (completes_of_not_harmless (scanFrom_wellFormed (wellFormed_start _) _) hn)
    exact hne (h after _ hafter)
  · intro h after tokens0 _
    exact mqttCallbackWrites_of_harmless h0 h after tokens0

/-! ## The web app's stow message -/

/-- A stow command of the web app. -/
def stowMessage : Bytes := ascii "\x7b\"stow_status\":1\x7d"

/-- `payloadOnly_iff` for the stow message. -/
theorem stowMessage_payloadOnly_iff :
    PayloadOnly stowMessage ↔ TailHarmless (scanFrom maxJsonTokens .start stowMessage) :=
  payloadOnly_iff stowMessage (by decide)

/-- The stow message is obeyed or ignored depending on the byte behind it. -/
theorem stowMessage_depends_on_memory : ¬ ∀ payload : Bytes, (0 : Byte) ∉ payload →
    1 ≤ payload.length → PayloadOnly payload := by
  intro hall
  have h0 : (0 : Byte) ∉ stowMessage := by decide
  have h := (payloadOnly_iff_writes h0).1 (hall stowMessage h0 (by decide)) [0]
    (fun _ => negativeToken) (by decide)
  rw [mqttCallbackWrites_eq, cString_memoryFrom h0] at h
  revert h
  decide

end TrackerDemo.Mqtt

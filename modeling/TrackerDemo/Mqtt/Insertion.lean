import TrackerDemo.Mqtt.Callback
import TrackerDemo.Jsmn.JsonText

/-!
# Inserting an unrelated member

The callback pairs the tokens behind the root with stride 2. A member with an odd
number of tokens (its value an array or object, for example) turns the pairing
of everything behind it round, so that a stow command there is lost, or one that
was out of step is found.

Results:
* `decode_eq_readPairs`: what the callback assigns for short keys and values.
* `readPairs_append`: only the parity of what stands before matters.
* `insertMember_iff`: the insertions that leave the commands alone.
-/

namespace TrackerDemo.Mqtt

open TrackerDemo.CString TrackerDemo.Jsmn TrackerDemo.Json

/-! ## Pairs of lexemes -/

/-- The assignments of the pairs at even offsets. -/
def readPairs : List Lexeme → List StowWrite
  | [] => []
  | [_] => []
  | k :: v :: ls =>
    (if k.kind = .string ∧ v.kind = .primitive then keyWrites k.text v.text else []) ++
      readPairs ls

/-- The last lexeme is a string without a partner. -/
def UnpairedString (ls : List Lexeme) : Prop :=
  ls.length % 2 = 1 ∧ ∃ l, ls.getLast? = some l ∧ l.kind = .string

/-- All keys and values fit in the buffers. -/
def Short (ls : List Lexeme) : Prop := ∀ l ∈ ls, l.text.length < maxJsonMsgLength

/-- Short lexemes decode to the assignments of their pairs, if a last lexeme
    without a partner adds none. -/
theorem decode_eq_readPairs {stale : Lexeme → Option (List StowWrite)} {ls : List Lexeme}
    (hs : Short ls)
    (hstale : ls.length % 2 = 1 → ∀ l, ls.getLast? = some l → stale l = some []) :
    decode stale ls = some (readPairs ls) := by
  induction ls using readPairs.induct with
  | case1 => rfl
  | case2 k => exact hstale rfl k rfl
  | case3 k v ls ih =>
    have hk := hs k (by simp)
    have hv := hs v (by simp)
    have hrest : decode stale ls = some (readPairs ls) := by
      apply ih (fun l hl => hs l (by simp [hl]))
      intro hodd l hl
      apply hstale
      · simp only [List.length_cons]
        omega
      · cases ls with
        | nil => cases hl
        | cons l' ls => simpa using hl
    have hpair : pairWrites k v =
        some (if k.kind = .string ∧ v.kind = .primitive then keyWrites k.text v.text else []) := by
      unfold pairWrites
      split_ifs with h1 h2
      · rfl
      · exact absurd ⟨hk, hv⟩ h2
      · rfl
    rw [decode, hrest, hpair]
    rfl

/-- A last lexeme without a partner that faults makes the whole fault. -/
theorem decode_eq_none {stale : Lexeme → Option (List StowWrite)} {ls : List Lexeme} {l : Lexeme}
    (hodd : ls.length % 2 = 1) (hl : ls.getLast? = some l) (hstale : stale l = none) :
    decode stale ls = none := by
  induction ls using readPairs.induct with
  | case1 => cases hl
  | case2 k =>
    rw [List.getLast?_singleton, Option.some.injEq] at hl
    subst hl
    exact hstale
  | case3 k v ls ih =>
    have hrest : decode stale ls = none := by
      apply ih
      · simp only [List.length_cons] at hodd
        omega
      · cases ls with
        | nil => simp at hodd
        | cons l' ls => simpa using hl
    rw [decode, hrest]
    cases pairWrites k v <;> rfl

/-- The first lexeme, if there is one, is a key. -/
def StartsWithString (ls : List Lexeme) : Prop := ∀ l ∈ ls.head?, l.kind = .string

/-- What stands in front of a key matters by the parity of its length only. -/
theorem readPairs_append (a : List Lexeme) {b : List Lexeme} (hb : StartsWithString b) :
    readPairs (a ++ b) = readPairs a ++ readPairs (b.drop (a.length % 2)) := by
  induction a using readPairs.induct with
  | case1 => rfl
  | case2 k =>
    cases b with
    | nil => rfl
    | cons l b =>
      have hl := hb l (by simp)
      simp [readPairs, hl]
  | case3 k v a ih =>
    have hparity : (k :: v :: a).length % 2 = a.length % 2 := by
      simp only [List.length_cons]
      omega
    rw [hparity, List.cons_append, List.cons_append, readPairs, readPairs, ih, List.append_assoc]

/-- Lexemes that name no command assign nothing. -/
theorem readPairs_eq_nil {ls : List Lexeme}
    (h : ∀ l ∈ ls, l.kind = .string → ∀ c, l.text ≠ StowCmd.key c) : readPairs ls = [] := by
  induction ls using readPairs.induct with
  | case1 => rfl
  | case2 => rfl
  | case3 k v ls ih =>
    rw [readPairs, ih fun l hl => h l (by simp [hl]), List.append_nil]
    split_ifs with hkind
    · have hk := h k (by simp) hkind.1
      unfold keyWrites strcmpEq
      simp [hk]
    · rfl

/-! ## Payloads -/

/-- The lexemes of the members of an object. -/
def memberLexemes (ms : List Member) : List Lexeme := (ms.flatMap Member.tokens).map lexemeOf

theorem memberLexemes_append (ms ms' : List Member) :
    memberLexemes (ms ++ ms') = memberLexemes ms ++ memberLexemes ms' := by
  simp [memberLexemes]

theorem memberLexemes_cons (m : Member) (ms : List Member) :
    memberLexemes (m :: ms) = memberLexemes [m] ++ memberLexemes ms :=
  memberLexemes_append [m] ms

theorem memberLexemes_startsWithString (ms : List Member) :
    StartsWithString (memberLexemes ms) := by
  intro l hl
  cases ms with
  | nil => cases hl
  | cons m ms =>
    have : (lexemeOf (.string m.key)) = l := Option.some.inj hl
    rw [← this]
    rfl

/-- An object is decoded from its members' lexemes. -/
theorem mqttCallbackWrites_object {w e w' : Text} {ms : List Member} (hw : Blank w)
    (he : Blank e) (hw' : Blank w') (hv : ∀ m ∈ ms, m.Valid)
    (hn : (memberLexemes ms).length < maxJsonTokens) (rest : Bytes) (tokens0 : Tokens) :
    mqttCallbackWrites (objectText w e w' ms) (0 :: rest) tokens0 =
      decode (staleWrites (memoryFrom (objectText w e w' ms) (0 :: rest))
        (tokens0 ((memberLexemes ms).length + 1))) (memberLexemes ms) := by
  have hd := derives_objectText hw he hw' hv
  have hls : lexemes maxJsonTokens (objectText w e w' ms) =
      some (lexemeOf .object :: memberLexemes ms) := by
    rw [lexemes_of_derives hd]
    · rfl
    · rw [memberLexemes, List.length_map] at hn
      rw [List.length_cons]
      omega
  rw [mqttCallbackWrites_eq, cString_memoryFrom_nul hd.zero_notMem, hls]
  rfl

/-- The message does the same to the command variables with either payload. -/
def SameEffect (payload payload' : Bytes) : Prop :=
  ∀ (rest : Bytes) (tokens0 : Tokens) (cmds : StowCmds),
    mqttCallbackMessage payload (0 :: rest) tokens0 cmds =
      mqttCallbackMessage payload' (0 :: rest) tokens0 cmds

/-- The callback decodes the lexemes `ls` from the payload. -/
def DecodesTo (payload : Bytes) (ls : List Lexeme) : Prop :=
  ∀ (rest : Bytes) (tokens0 : Tokens), mqttCallbackWrites payload (0 :: rest) tokens0 =
    decode (staleWrites (memoryFrom payload (0 :: rest)) (tokens0 (ls.length + 1))) ls

/-- A token that is no primitive. -/
def plainToken : JsmnTok := ⟨.undefined, 0, 0, 0⟩

theorem staleWrites_plainToken (memory : Bytes) (k : Lexeme) :
    staleWrites memory plainToken k = some [] := by
  simp [staleWrites, plainToken]

/-- A string without a partner makes the effect depend on an uninitialised
    token, which another payload does not read. -/
theorem not_unpairedString {payload payload' : Bytes} {ls ls' : List Lexeme}
    (h : DecodesTo payload ls) (h' : DecodesTo payload' ls') (hs' : Short ls')
    (hlen : ls.length ≠ ls'.length)
    (hsame : ∀ tokens0, (mqttCallbackWrites payload [0] tokens0).isSome =
      (mqttCallbackWrites payload' [0] tokens0).isSome) : ¬ UnpairedString ls := by
  rintro ⟨hodd, l, hl, hk⟩
  let tokens0 : Tokens := fun i => if i = ls.length + 1 then negativeToken else plainToken
  have hnone : mqttCallbackWrites payload [0] tokens0 = none := by
    rw [h]
    apply decode_eq_none hodd hl
    rw [show tokens0 (ls.length + 1) = negativeToken from if_pos rfl]
    exact staleWrites_negativeToken _ hk
  have hsome : mqttCallbackWrites payload' [0] tokens0 = some (readPairs ls') := by
    rw [h']
    apply decode_eq_readPairs hs'
    intro _ l' _
    rw [show tokens0 (ls'.length + 1) = plainToken from if_neg (by omega)]
    exact staleWrites_plainToken _ l'
  have := hsame tokens0
  rw [hnone, hsome] at this
  cases this

theorem writes_eq_readPairs {payload : Bytes} {ls : List Lexeme} (h : DecodesTo payload ls)
    (hs : Short ls) (hu : ¬ UnpairedString ls) (rest : Bytes) (tokens0 : Tokens) :
    mqttCallbackWrites payload (0 :: rest) tokens0 = some (readPairs ls) := by
  rw [h]
  apply decode_eq_readPairs hs
  intro hodd l hl
  apply staleWrites_of_not_string
  intro hk
  exact hu ⟨hodd, l, hl, hk⟩

/-- Two payloads have the same effect iff neither ends in a string without a
    partner and their pairs assign each command the same last value. -/
theorem sameEffect_iff {payload payload' : Bytes} {ls ls' : List Lexeme}
    (h : DecodesTo payload ls) (h' : DecodesTo payload' ls') (hs : Short ls) (hs' : Short ls')
    (hlen : ls.length ≠ ls'.length) :
    SameEffect payload payload' ↔ ¬ UnpairedString ls ∧ ¬ UnpairedString ls' ∧
      ∀ c, lastValue c (readPairs ls) = lastValue c (readPairs ls') := by
  constructor
  · intro hsame
    have hsome : ∀ tokens0, (mqttCallbackWrites payload [0] tokens0).isSome =
        (mqttCallbackWrites payload' [0] tokens0).isSome := by
      intro tokens0
      have := congrArg Option.isSome (hsame [] tokens0 .initial)
      unfold mqttCallbackMessage at this
      simpa using this
    have hu := not_unpairedString h h' hs' hlen hsome
    have hu' := not_unpairedString h' h hs (Ne.symm hlen) fun tokens0 => (hsome tokens0).symm
    refine ⟨hu, hu', (applyWrites_eq_iff _ _).1 fun cmds => ?_⟩
    have := hsame [] (fun _ => plainToken) cmds
    unfold mqttCallbackMessage at this
    rw [writes_eq_readPairs h hs hu, writes_eq_readPairs h' hs' hu'] at this
    exact Option.some.inj this
  · rintro ⟨hu, hu', hlast⟩ rest tokens0 cmds
    unfold mqttCallbackMessage
    rw [writes_eq_readPairs h hs hu, writes_eq_readPairs h' hs' hu']
    exact congrArg some ((applyWrites_eq_iff _ _).2 hlast cmds)

/-- Inserting `x` between `a` and `b` keeps the pairing of `b`, or each command
    has the same last value in both pairings. -/
def AlignmentKept (a x b : List Lexeme) : Prop :=
  x.length % 2 = 0 ∨ ∀ c,
    lastValue c (readPairs a ++ readPairs (b.drop (a.length % 2))) =
      lastValue c (readPairs a ++ readPairs (b.drop ((a.length + 1) % 2)))

/-- The pairs of a payload with an unrelated member inserted. -/
theorem readPairs_insert (a : List Lexeme) {x b : List Lexeme} (hx : StartsWithString x)
    (hne : x ≠ []) (hb : StartsWithString b)
    (hkeys : ∀ l ∈ x, l.kind = .string → ∀ c, l.text ≠ StowCmd.key c) :
    readPairs (a ++ (x ++ b)) =
      readPairs a ++ readPairs (b.drop ((a.length + x.length) % 2)) := by
  have hxb : StartsWithString (x ++ b) := by
    cases x with
    | nil => exact absurd rfl hne
    | cons l x => exact hx
  have hlen : a.length % 2 ≤ x.length := by
    have := List.length_pos_iff.2 hne
    omega
  rw [readPairs_append a hxb, List.drop_append_of_le_length hlen, readPairs_append _ hb,
    readPairs_eq_nil fun l hl => hkeys l (List.mem_of_mem_drop hl), List.nil_append,
    List.length_drop]
  congr 3
  omega

/-- **Inserting an unrelated member** leaves the commands alone iff neither
    payload ends in a string without a partner, and the member has an even number
    of tokens or the commands behind it do not depend on the pairing. -/
theorem insertMember_iff {w e w' : Text} {before after : List Member} {x : Member}
    (hw : Blank w) (he : Blank e) (hw' : Blank w') (hv : ∀ m ∈ before ++ x :: after, m.Valid)
    (hn : (memberLexemes (before ++ x :: after)).length < maxJsonTokens)
    (hs : Short (memberLexemes (before ++ x :: after)))
    (hx : ∀ l ∈ memberLexemes [x], l.kind = .string → ∀ c, l.text ≠ StowCmd.key c) :
    SameEffect (objectText w e w' (before ++ after)) (objectText w e w' (before ++ x :: after)) ↔
      ¬ UnpairedString (memberLexemes (before ++ after)) ∧
      ¬ UnpairedString (memberLexemes (before ++ x :: after)) ∧
      AlignmentKept (memberLexemes before) (memberLexemes [x]) (memberLexemes after) := by
  have hsplit : memberLexemes (before ++ x :: after) =
      memberLexemes before ++ (memberLexemes [x] ++ memberLexemes after) := by
    rw [memberLexemes_append, memberLexemes_cons]
  have hxlen : 1 ≤ (memberLexemes [x]).length := by
    simp [memberLexemes, Member.tokens]
  have hlen := congrArg List.length hsplit
  have hlen' := congrArg List.length (memberLexemes_append before after)
  simp only [List.length_append] at hlen hlen'
  have hv' : ∀ m ∈ before ++ after, m.Valid := by
    intro m hm
    apply hv
    simp only [List.mem_append, List.mem_cons] at hm ⊢
    tauto
  have hs' : Short (memberLexemes (before ++ after)) := by
    intro l hl
    apply hs
    rw [memberLexemes_append, List.mem_append] at hl
    rw [hsplit, List.mem_append, List.mem_append]
    tauto
  rw [sameEffect_iff (mqttCallbackWrites_object hw he hw' hv' (by omega))
    (mqttCallbackWrites_object hw he hw' hv hn) hs' hs (by omega)]
  rw [hsplit, memberLexemes_append, readPairs_append _ (memberLexemes_startsWithString after),
    readPairs_insert _ (memberLexemes_startsWithString [x]) (List.length_pos_iff.1 hxlen)
      (memberLexemes_startsWithString after) hx]
  refine and_congr_right fun _ => and_congr_right fun _ => ?_
  unfold AlignmentKept
  generalize (memberLexemes before).length = m
  generalize (memberLexemes [x]).length = k
  by_cases hk : k % 2 = 0
  · rw [show (m + k) % 2 = m % 2 by omega]
    simp [hk]
  · rw [show (m + k) % 2 = (m + 1) % 2 by omega]
    simp [hk]

/-! ## An array in front of the command -/

/-- `"stow_status":1`. -/
def stowMember : Member :=
  ⟨ascii "\"stow_status\":1", ascii "stow_status", [.primitive (ascii "1")]⟩

/-- `"a":[1]`. -/
def arrayMember : Member := ⟨ascii "\"a\":[1]", ascii "a", [.array, .primitive (ascii "1")]⟩

theorem derives_one : Derives .element (ascii "1") [.primitive (ascii "1")] := by
  have hone : Json.Primitive (ascii "1") := by
    refine .inr (.inr (.inr ⟨[], ascii "1", [], [], by simp, .inl rfl, ?_, .inl rfl, .inl rfl⟩))
    exact .inr ⟨49, [], rfl, by decide, by decide, by simp⟩
  simpa using @Derives.element [] _ [] _ (by simp [Blank]) (.primitive hone)
    (by simp [Blank])

theorem stowMember_valid : stowMember.Valid :=
  @Derives.member [] _ [] _ _ (by simp [Blank])
    (stringBody_of_plain (t := ascii "stow_status") (by decide +kernel)) (by simp [Blank])
    derives_one

theorem arrayMember_valid : arrayMember.Valid :=
  @Derives.member [] _ [] _ _ (by simp [Blank])
    (stringBody_of_plain (t := ascii "a") (by decide +kernel)) (by simp [Blank])
    (@Derives.element [] _ [] _ (by simp [Blank]) (.array (.oneElement derives_one))
      (by simp [Blank]))

theorem arrayMember_unrelated :
    ∀ l ∈ memberLexemes [arrayMember], l.kind = .string → ∀ c, l.text ≠ StowCmd.key c := by
  intro l hl hk c
  revert l
  cases c <;> decide

theorem sampleMembers_valid : ∀ m ∈ [arrayMember, stowMember], m.Valid := by
  simpa using ⟨arrayMember_valid, stowMember_valid⟩

theorem blank_nil : Blank [] := by simp [Blank]

/-- `insertMember_iff` for the array member in front of the stow member. -/
theorem insertMember_iff_array :
    SameEffect (objectText [] [] [] [stowMember]) (objectText [] [] [] [arrayMember, stowMember]) ↔
      ¬ UnpairedString (memberLexemes [stowMember]) ∧
      ¬ UnpairedString (memberLexemes [arrayMember, stowMember]) ∧
      AlignmentKept [] (memberLexemes [arrayMember]) (memberLexemes [stowMember]) :=
  @insertMember_iff [] [] [] [] [stowMember] arrayMember blank_nil blank_nil blank_nil
    sampleMembers_valid (by decide) (by unfold Short; decide) arrayMember_unrelated

/-- The array member hides the stow member behind it. -/
theorem arrayMember_hides_stow : ¬ ∀ (w e w' : Text) (before after : List Member) (x : Member),
    Blank w → Blank e → Blank w' → (∀ m ∈ before ++ x :: after, m.Valid) →
    (memberLexemes (before ++ x :: after)).length < maxJsonTokens →
    Short (memberLexemes (before ++ x :: after)) →
    (∀ l ∈ memberLexemes [x], l.kind = .string → ∀ c, l.text ≠ StowCmd.key c) →
    SameEffect (objectText w e w' (before ++ after))
      (objectText w e w' (before ++ x :: after)) := by
  intro hall
  have hsame := hall [] [] [] [] [stowMember] arrayMember blank_nil blank_nil blank_nil
    sampleMembers_valid (by decide) (by unfold Short; decide) arrayMember_unrelated
  have hv : ∀ m ∈ [stowMember], m.Valid := by simpa using stowMember_valid
  have hlast := ((sameEffect_iff
    (mqttCallbackWrites_object blank_nil blank_nil blank_nil hv (by decide))
    (mqttCallbackWrites_object blank_nil blank_nil blank_nil sampleMembers_valid (by decide))
    (by unfold Short; decide) (by unfold Short; decide) (by decide)).1 hsame).2.2 .webApp
  revert hlast
  decide

end TrackerDemo.Mqtt

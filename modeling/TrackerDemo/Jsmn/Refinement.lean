import TrackerDemo.Jsmn.Scanner

/-!
# `jsmn_parse` computes the scanner

On a text without NUL, `jsmnParse` returns what the scanner finds, and the
tokens it allocated have the kinds and spell the texts of the scanner's
lexemes; the rest of the array is left alone.

Results:
* `jsmnSwitch_spec`: one iteration of the main loop.
* `jsmnParse_agrees`: the whole call.
* `jsmnParse_of_lexemes`, `jsmnParse_of_rejected`: the result and the array, by
  what the scanner finds.
-/

namespace TrackerDemo.Jsmn

open TrackerDemo.CString

/-! ## Tokens and lexemes -/

/-- The bytes from `a` up to `b`. -/
def slice (js : Bytes) (a b : ℕ) : Bytes := (js.drop a).take (b - a)

theorem length_slice {js : Bytes} {a b : ℕ} (hb : b ≤ js.length) :
    (slice js a b).length = b - a := by
  unfold slice
  rw [List.length_take, List.length_drop]
  omega

/-- A token of the array stands for a lexeme. Its `size` does not matter. -/
inductive Matches (js : Bytes) : JsmnTok → Lexeme → Prop
  | unclosed {kind : JsmnType} (hk : kind = .object ∨ kind = .array) (a : ℕ) (size : ℤ) :
      Matches js ⟨kind, a, -1, size⟩ ⟨kind, [], true⟩
  | closed {kind : JsmnType} (hk : kind = .object ∨ kind = .array) (a b : ℕ) (size : ℤ) :
      Matches js ⟨kind, a, b, size⟩ ⟨kind, [], false⟩
  | leaf {kind : JsmnType} (hk : kind = .string ∨ kind = .primitive) {a b : ℕ} (hab : a ≤ b)
      (hb : b ≤ js.length) (size : ℤ) :
      Matches js ⟨kind, a, b, size⟩ ⟨kind, slice js a b, false⟩

/-- The array holds the lexemes `ls`, latest first. -/
def TokensMatch (js : Bytes) (tokens : Tokens) : List Lexeme → Prop
  | [] => True
  | l :: ls => Matches js (tokens ls.length) l ∧ TokensMatch js tokens ls

variable {js : Bytes} {t : JsmnTok} {l : Lexeme}

theorem Matches.type_eq (h : Matches js t l) : t.type = l.kind := by cases h <;> rfl

/-- The token of a string or primitive holds the position of its text. -/
theorem Matches.position (h : Matches js t l) (hk : l.kind = .string ∨ l.kind = .primitive) :
    ∃ a b : ℕ, a ≤ b ∧ b ≤ js.length ∧ t.start = a ∧ t.stop = b ∧ l.text = slice js a b := by
  cases h with
  | unclosed hc => rcases hc with rfl | rfl <;> simp at hk
  | closed hc => rcases hc with rfl | rfl <;> simp at hk
  | @leaf _ _ a b hab hb => exact ⟨a, b, hab, hb, rfl, rfl, rfl⟩

theorem Matches.unclosed_iff (h : Matches js t l) : t.Unclosed ↔ l.isOpen = true := by
  cases h <;> simp [JsmnTok.Unclosed]

theorem Matches.withSize (h : Matches js t l) (size : ℤ) :
    Matches js { t with size := size } l := by
  cases h with
  | unclosed hk a _ => exact .unclosed hk a size
  | closed hk a b _ => exact .closed hk a b size
  | leaf hk hab hb _ => exact .leaf hk hab hb size

theorem Matches.close (h : Matches js t l) (ho : l.isOpen = true) (b : ℕ) :
    Matches js { t with stop := b } { l with isOpen := false } := by
  cases h with
  | unclosed hk a size => exact .closed hk a b size
  | closed => cases ho
  | leaf => cases ho

/-- Changes of `size` below `ls.length`, and any changes from there on, keep the
    lexemes. -/
theorem TokensMatch.congr {tokens tokens' : Tokens} {ls : List Lexeme}
    (h : TokensMatch js tokens ls)
    (hs : ∀ i < ls.length, ∃ size, tokens' i = { tokens i with size := size }) :
    TokensMatch js tokens' ls := by
  induction ls with
  | nil => trivial
  | cons l ls ih =>
    obtain ⟨hl, hls⟩ := h
    obtain ⟨size, he⟩ := hs ls.length (by simp)
    exact ⟨he ▸ hl.withSize size, ih hls fun i hi => hs i (by simp; omega)⟩

theorem TokensMatch.update_of_le {tokens : Tokens} {ls : List Lexeme}
    (h : TokensMatch js tokens ls) {i : ℕ} (hi : ls.length ≤ i) (t : JsmnTok) :
    TokensMatch js (Function.update tokens i t) ls :=
  h.congr fun j hj => ⟨(tokens j).size, by rw [Function.update_of_ne (by omega)]⟩

theorem lastToken_lt {p : JsmnTok → Prop} [DecidablePred p] {tokens : Tokens} {n k : ℕ}
    (h : lastToken p tokens n = some k) : k < n := by
  induction n with
  | zero => cases h
  | succ n ih =>
    rw [lastToken] at h
    split_ifs at h
    · rw [Option.some.injEq] at h
      omega
    · exact Nat.lt_succ_of_lt (ih h)

/-- The backward search for an unclosed token finds the scanner's latest open
    lexeme, and closing the one closes the other. -/
theorem lastToken_closeLast {tokens : Tokens} {ls : List Lexeme} (h : TokensMatch js tokens ls)
    (kind : JsmnType) :
    match lastToken JsmnTok.Unclosed tokens ls.length with
    | none => closeLast kind ls = none ∧ ls.any (·.isOpen) = false
    | some i => i < ls.length ∧ ls.any (·.isOpen) = true ∧
        if (tokens i).type = kind then
          ∃ ls', closeLast kind ls = some ls' ∧ ls'.length = ls.length ∧
            ∀ b : ℕ, TokensMatch js (Function.update tokens i { tokens i with stop := b }) ls'
        else closeLast kind ls = none := by
  induction ls with
  | nil => exact ⟨rfl, rfl⟩
  | cons l ls ih =>
    obtain ⟨hl, hls⟩ := h
    rw [List.length_cons, lastToken]
    by_cases hu : (tokens ls.length).Unclosed
    · have ho := hl.unclosed_iff.1 hu
      rw [if_pos hu]
      refine ⟨by omega, by simp [ho], ?_⟩
      rw [hl.type_eq]
      split_ifs with hk
      · refine ⟨{ l with isOpen := false } :: ls, by simp [closeLast, ho, hk], by simp, fun b => ?_⟩
        exact ⟨by simpa using hl.close ho b, hls.update_of_le le_rfl _⟩
      · simp [closeLast, ho, hk]
    · have ho : l.isOpen = false := by
        rw [← Bool.not_eq_true]; exact fun h => hu (hl.unclosed_iff.2 h)
      rw [if_neg hu]
      have := ih hls
      cases hlast : lastToken JsmnTok.Unclosed tokens ls.length with
      | none =>
        rw [hlast] at this
        exact ⟨by simp [closeLast, ho, this.1], by simp [ho, this.2]⟩
      | some i =>
        rw [hlast] at this
        obtain ⟨hi, hany, hc⟩ := this
        refine ⟨by omega, by simp [hany], ?_⟩
        split_ifs at hc ⊢ with hk
        · obtain ⟨ls', h1, h2, h3⟩ := hc
          refine ⟨l :: ls', by simp [closeLast, ho, h1], by simp [h2], fun b => ⟨?_, h3 b⟩⟩
          rw [h2, Function.update_of_ne (by omega)]
          exact hl
        · simp [closeLast, ho, hc]

/-! ## The simulation relation -/

/-- Between two tokens, the parser and the scanner have found the same. -/
structure Sim (js : Bytes) (tokens0 : Tokens) (st : JsmnState) (toks : List Lexeme) : Prop where
  toknext : st.toknext = toks.length
  super : ∀ k, st.toksuper = some k → k < st.toknext
  tokens : TokensMatch js st.tokens toks
  untouched : ∀ i, toks.length ≤ i → st.tokens i = tokens0 i

/-- A result of `jsmn_parse` is the one the scanner ends with. -/
structure Agrees (js : Bytes) (tokens0 : Tokens) (r : Except JsmnErr ℕ × Tokens) (s : Scan) :
    Prop where
  ret : r.1 = s.finish.map fun _ => s.toks.length
  tokens : TokensMatch js r.2 s.toks
  untouched : ∀ i, s.toks.length ≤ i → r.2 i = tokens0 i

variable {tokens0 : Tokens} {st : JsmnState} {toks : List Lexeme}

theorem sim_init : Sim js tokens0 (jsmnInit tokens0) [] :=
  ⟨rfl, fun _ h => by simp [jsmnInit] at h, trivial, fun _ _ => rfl⟩

@[simp] theorem bumpSuper_pos (st : JsmnState) : (bumpSuper st).pos = st.pos := by
  unfold bumpSuper; split <;> rfl

@[simp] theorem bumpSuper_toknext (st : JsmnState) : (bumpSuper st).toknext = st.toknext := by
  unfold bumpSuper; split <;> rfl

theorem bumpSuper_tokens (st : JsmnState) (i : ℕ) :
    ∃ size, (bumpSuper st).tokens i = { st.tokens i with size := size } := by
  unfold bumpSuper
  cases st.toksuper with
  | none => exact ⟨_, rfl⟩
  | some k =>
    by_cases hik : i = k
    · subst hik
      exact ⟨_, Function.update_self _ _ _⟩
    · exact ⟨(st.tokens i).size, Function.update_of_ne hik _ _⟩

theorem bumpSuper_tokens_of_ne {st : JsmnState} {i : ℕ} (h : ∀ k, st.toksuper = some k → k ≠ i) :
    (bumpSuper st).tokens i = st.tokens i := by
  unfold bumpSuper
  cases hs : st.toksuper with
  | none => rfl
  | some k => exact Function.update_of_ne (h k hs).symm _ _

@[simp] theorem bumpSuper_toksuper (st : JsmnState) : (bumpSuper st).toksuper = st.toksuper := by
  unfold bumpSuper; split <;> rfl

/-- `tokens[parser->toksuper].size++` changes no kind and no text. -/
theorem Sim.bumpSuper (h : Sim js tokens0 st toks) : Sim js tokens0 (bumpSuper st) toks := by
  refine ⟨by simpa using h.toknext, by simpa using h.super,
    h.tokens.congr fun i _ => bumpSuper_tokens st i, fun i hi => ?_⟩
  rw [← h.untouched i hi]
  refine bumpSuper_tokens_of_ne fun k hk => ?_
  have := h.super k hk
  have := h.toknext
  omega

/-- A new token whose slot stands for `l`. -/
theorem Sim.addSlot (h : Sim js tokens0 st toks) {l : Lexeme} {st' : JsmnState}
    (hnext : st'.toknext = st.toknext + 1)
    (hsuper : st'.toksuper = st.toksuper ∨ st'.toksuper = some st.toknext)
    (hslot : Matches js (st'.tokens st.toknext) l)
    (hbelow : ∀ i < st.toknext, ∃ size, st'.tokens i = { st.tokens i with size := size })
    (habove : ∀ i, st.toknext < i → st'.tokens i = st.tokens i) :
    Sim js tokens0 st' (l :: toks) := by
  have hlen := h.toknext
  refine ⟨by rw [hnext, hlen, List.length_cons], fun k hk => ?_, ⟨hlen ▸ hslot, ?_⟩,
    fun i hi => ?_⟩
  · rcases hsuper with hs | hs
    · have := h.super k (hs ▸ hk)
      omega
    · rw [hs, Option.some.injEq] at hk
      omega
  · exact h.tokens.congr fun i hi => hbelow i (by omega)
  · rw [List.length_cons] at hi
    rw [habove i (by omega)]
    exact h.untouched i (by omega)

theorem jsmnAllocToken_of_le {n : ℕ} (h : Sim js tokens0 st toks) (hn : n ≤ toks.length) :
    jsmnAllocToken n st = none := by
  unfold jsmnAllocToken; rw [if_pos (by rw [h.toknext]; exact hn)]

theorem jsmnAllocToken_of_lt {n : ℕ} (h : Sim js tokens0 st toks) (hn : toks.length < n) :
    jsmnAllocToken n st = some (st.toknext,
      { st with
        toknext := st.toknext + 1
        tokens := Function.update st.tokens st.toknext
          { st.tokens st.toknext with start := -1, stop := -1, size := 0 } }) := by
  unfold jsmnAllocToken; rw [if_neg (by rw [h.toknext]; omega)]

/-! ## Scanning loops -/

/-- The loop of `jsmn_parse_primitive` stops where the scanner leaves its
    primitive. -/
theorem primitiveScan_spec (n : ℕ) (toks : List Lexeme) :
    ∀ (rest : Bytes) (pos : ℕ) (acc : Bytes), (0 : Byte) ∉ rest →
      match primitiveScan rest pos with
      | none => scanFrom n ⟨.primitive acc, toks⟩ rest = ⟨.failed .inval, toks⟩
      | some p => ∃ k ≤ rest.length, p = pos + k ∧
          (∀ c ∈ (rest.drop k).head?, endsPrimitive c = true) ∧
          scanFrom n ⟨.primitive acc, toks⟩ rest =
            scanFrom n ⟨.primitive (acc ++ rest.take k), toks⟩ (rest.drop k) := by
  intro rest
  induction rest with
  | nil => intro pos acc _; exact ⟨0, le_rfl, rfl, by simp, by simp⟩
  | cons c rest ih =>
    intro pos acc h0
    simp only [List.mem_cons, not_or] at h0
    rw [primitiveScan, if_neg (Ne.symm h0.1)]
    by_cases he : endsPrimitive c = true
    · rw [if_pos he]
      exact ⟨0, by simp, rfl, by simpa using he, by simp⟩
    rw [if_neg he]
    by_cases ho : outsidePrimitive c = true
    · rw [if_pos ho]
      simp [scanByte, he, ho, scanFrom_failed]
    rw [if_neg ho]
    have hstep : scanByte n ⟨.primitive acc, toks⟩ c = ⟨.primitive (acc ++ [c]), toks⟩ := by
      simp [scanByte, he, ho]
    have := ih (pos + 1) (acc ++ [c]) h0.2
    cases hp : primitiveScan rest (pos + 1) with
    | none =>
      rw [hp] at this
      simpa [hstep] using this
    | some p =>
      rw [hp] at this
      obtain ⟨k, hk, rfl, hd, hs⟩ := this
      exact ⟨k + 1, by simpa using hk, by omega, by simpa using hd, by simpa [hstep] using hs⟩

/-- What the loop of `jsmn_parse_string` returns on `rest`, read from position
    `pos` on, is what the scanner does inside of a string. -/
def StringEnds (n : ℕ) (toks : List Lexeme) (acc : Bytes) (hex : ℕ) (rest : Bytes) (pos : ℕ) :
    Except JsmnErr ℕ → Prop
  | .error e => (scanFrom n ⟨.string acc hex, toks⟩ rest).flush n = ⟨.failed e, toks⟩
  | .ok p => ∃ k < rest.length, p = pos + k ∧
      scanFrom n ⟨.string acc hex, toks⟩ rest =
        scanFrom n (addToken n toks ⟨.string, acc ++ rest.take k, false⟩) (rest.drop (k + 1))

/-- Bytes inside of the string are skipped by both. -/
theorem StringEnds.skip {n : ℕ} {toks : List Lexeme} {acc rest : Bytes} {hex hex' pos : ℕ}
    {r : Except JsmnErr ℕ} (pre : Bytes)
    (h : StringEnds n toks (acc ++ pre) hex' rest (pos + pre.length) r)
    (hpre : scanFrom n ⟨.string acc hex, toks⟩ pre = ⟨.string (acc ++ pre) hex', toks⟩) :
    StringEnds n toks acc hex (pre ++ rest) pos r := by
  cases r with
  | error e =>
    show (scanFrom n _ (pre ++ rest)).flush n = _
    rw [scanFrom_append, hpre]
    exact h
  | ok p =>
    obtain ⟨k, hk, hp, hs⟩ := h
    refine ⟨pre.length + k, by simp; omega, by omega, ?_⟩
    rw [scanFrom_append, hpre, hs, List.take_length_add_append, Nat.add_assoc,
      List.drop_length_add_append, List.append_assoc]

/-- The loop of `jsmn_parse_string` finds the quote at which the scanner adds
    the string. -/
theorem stringScan_spec (n : ℕ) (toks : List Lexeme) (hex : ℕ) (rest : Bytes) (pos : ℕ) :
    ∀ acc : Bytes, (0 : Byte) ∉ rest →
      StringEnds n toks acc hex rest pos (stringScan hex rest pos) := by
  fun_induction stringScan hex rest pos with
  | case1 _ hex => intro acc _; rfl
  | case2 => intro acc h0; simp at h0
  | case3 hex c rest pos _ hx ih =>
    intro acc h0
    exact (ih (acc ++ [c]) fun h => h0 (by simp [h])).skip [c] (by simp [scanByte, hx])
  | case4 hex c rest pos _ hx =>
    intro acc _
    show (scanFrom n _ (c :: rest)).flush n = _
    rw [scanFrom_cons, show scanByte n ⟨.string acc (hex + 1), toks⟩ c = ⟨.failed .inval, toks⟩ by
      simp [scanByte, hx], scanFrom_failed]
    rfl
  | case5 => intro acc h0; simp at h0
  | case6 rest pos hc =>
    intro acc _
    exact ⟨0, by simp, rfl, by simp [scanByte]⟩
  | case7 => intro acc _; rfl
  | case8 pos e rest he _ _ ih =>
    intro acc h0
    exact (ih (acc ++ [92, e]) fun h => h0 (by simp [h])).skip [92, e]
      (by simp [scanByte, he])
  | case9 pos rest _ _ he ih =>
    intro acc h0
    exact (ih (acc ++ [92, 117]) fun h => h0 (by simp [h])).skip [92, 117]
      (by simp [scanByte, he])
  | case10 pos e rest he hu =>
    intro acc _
    have hstep : scanFrom n ⟨.string acc 0, toks⟩ [92, e] = ⟨.failed .inval, toks⟩ := by
      simp [scanByte, he, hu]
    show (scanFrom n _ ([92, e] ++ rest)).flush n = _
    rw [scanFrom_append, hstep, scanFrom_failed]
    rfl
  | case11 c rest pos _ hq hb ih =>
    intro acc h0
    exact (ih (acc ++ [c]) fun h => h0 (by simp [h])).skip [c]
      (by simp [scanByte, hq, hb])

/-! ## One iteration -/

/-- The text that starts at `pos`. -/
theorem drop_eq_cons {js : Bytes} {pos : ℕ} {c : Byte} (hc : js[pos]? = some c) :
    js.drop pos = c :: js.drop (pos + 1) := by
  obtain ⟨h, rfl⟩ := List.getElem?_eq_some_iff.1 hc
  exact List.drop_eq_getElem_cons h

/-- An iteration of the main loop that starts on the byte `c` between two
    tokens: what it returns is what the scanner does from there on. -/
def Iterates (js : Bytes) (tokens0 : Tokens) (n : ℕ) (st : JsmnState) (toks : List Lexeme) :
    Except JsmnErr (JsmnState × ℕ) → Prop
  | .error e => (scanFrom n ⟨.between, toks⟩ (js.drop st.pos)).flush n = ⟨.failed e, toks⟩
  | .ok (st', count') => ∃ toks', count' = toks'.length ∧ Sim js tokens0 st' toks' ∧
      st.pos ≤ st'.pos ∧
      (scanFrom n ⟨.between, toks⟩ (js.drop st.pos)).flush n =
        (scanFrom n ⟨.between, toks'⟩ (js.drop (st'.pos + 1))).flush n

theorem openContainer_spec {n : ℕ} {c : Byte} {type : JsmnType} (h : Sim js tokens0 st toks)
    (hc : js[st.pos]? = some c) (hk : type = .object ∨ type = .array)
    (hbyte : betweenByte n toks c = addToken n toks ⟨type, [], true⟩) :
    Iterates js tokens0 n st toks
      ((openContainer type n st).map fun st' => (st', toks.length + 1)) := by
  have hdrop := drop_eq_cons hc
  unfold openContainer
  rcases Nat.lt_or_ge toks.length n with hn | hn
  · rw [jsmnAllocToken_of_lt h hn]
    refine ⟨⟨type, [], true⟩ :: toks, rfl, ?_, ?_, ?_⟩
    · have hne : ∀ k, st.toksuper = some k → k ≠ st.toknext := fun k hk => (h.super k hk).ne
      refine h.addSlot (by simp) (.inr (by simp)) ?_ (fun i hi => ?_) (fun i hi => ?_)
      · simp only [Function.update_self]
        rw [bumpSuper_tokens_of_ne (by simpa using hne)]
        simpa using Matches.unclosed hk st.pos 0
      · obtain ⟨size, hsize⟩ := bumpSuper_tokens
          { st with
            toknext := st.toknext + 1
            tokens := Function.update st.tokens st.toknext
              { st.tokens st.toknext with start := -1, stop := -1, size := 0 } } i
        exact ⟨size, by simpa [Function.update_of_ne hi.ne] using hsize⟩
      · simp only [Function.update_of_ne hi.ne']
        refine (bumpSuper_tokens_of_ne ?_).trans ?_
        · intro k hk
          exact ((h.super k hk).trans hi).ne
        exact Function.update_of_ne hi.ne' _ _
    · simp
    · rw [hdrop, scanFrom_cons]
      show (scanFrom n (betweenByte n toks c) _).flush n = _
      rw [hbyte, addToken_of_lt hn]
      simp
  · rw [jsmnAllocToken_of_le h hn]
    show (scanFrom n _ (js.drop st.pos)).flush n = _
    rw [hdrop, scanFrom_cons]
    show (scanFrom n (betweenByte n toks c) _).flush n = _
    rw [hbyte, addToken_of_le hn, scanFrom_failed]
    rfl

theorem closeContainer_spec {n : ℕ} {c : Byte} {type : JsmnType} (h : Sim js tokens0 st toks)
    (hc : js[st.pos]? = some c) (hbyte : betweenByte n toks c = closeToken toks type) :
    Iterates js tokens0 n st toks
      ((closeContainer type st).map fun st' => (st', toks.length)) := by
  have hdrop := drop_eq_cons hc
  have hscan : scanFrom n ⟨.between, toks⟩ (js.drop st.pos) =
      scanFrom n (closeToken toks type) (js.drop (st.pos + 1)) := by
    rw [hdrop, scanFrom_cons, ← hbyte]
    rfl
  have hlast := lastToken_closeLast h.tokens type
  rw [← h.toknext] at hlast
  unfold closeContainer
  cases hl : lastToken JsmnTok.Unclosed st.tokens st.toknext with
  | none =>
    rw [hl] at hlast
    show (scanFrom n _ (js.drop st.pos)).flush n = _
    rw [hscan, closeToken, hlast.1]
    show (scanFrom n ⟨.failed .inval, toks⟩ _).flush n = _
    rw [scanFrom_failed]
    rfl
  | some i =>
    rw [hl] at hlast
    obtain ⟨hi, -, hclose⟩ := hlast
    by_cases ht : (st.tokens i).type = type
    · rw [if_pos ht] at hclose
      obtain ⟨toks', htoks', hlen, hmatch⟩ := hclose
      have hnext := h.toknext
      dsimp only
      rw [if_neg (not_not_intro ht)]
      refine ⟨toks', by omega, ⟨by show st.toknext = _; omega, fun k hk => ?_, ?_,
        fun j hj => ?_⟩, le_rfl, ?_⟩
      · have := lastToken_lt hk
        show k < st.toknext
        omega
      · exact_mod_cast hmatch (st.pos + 1)
      · exact (Function.update_of_ne (by omega) _ _).trans (h.untouched j (by omega))
      · rw [hscan, closeToken, htoks']
    · rw [if_neg ht] at hclose
      dsimp only
      rw [if_pos ht]
      show (scanFrom n _ (js.drop st.pos)).flush n = _
      rw [hscan, closeToken, hclose]
      show (scanFrom n ⟨.failed .inval, toks⟩ _).flush n = _
      rw [scanFrom_failed]
      rfl

/-- A new string or primitive. -/
theorem addLeaf_spec {n : ℕ} {kind : JsmnType} (hk : kind = .string ∨ kind = .primitive)
    (h : Sim js tokens0 st toks) {a b : ℕ} (hab : a ≤ b) (hb : b ≤ js.length) {pos : ℕ}
    (hpos : st.pos ≤ pos)
    (hscan : (scanFrom n ⟨.between, toks⟩ (js.drop st.pos)).flush n =
      (scanFrom n (addToken n toks ⟨kind, slice js a b, false⟩) (js.drop (pos + 1))).flush n) :
    Iterates js tokens0 n st toks
      ((match jsmnAllocToken n st with
        | none => .error .nomem
        | some (i, st') => .ok { st' with
            tokens := jsmnFillToken st'.tokens i kind a b
            pos := pos } : Except JsmnErr JsmnState).map
        fun st' => (bumpSuper st', toks.length + 1)) := by
  rcases Nat.lt_or_ge toks.length n with hn | hn
  · rw [jsmnAllocToken_of_lt h hn]
    refine ⟨⟨kind, slice js a b, false⟩ :: toks, rfl, Sim.bumpSuper ?_, by simpa using hpos, ?_⟩
    · refine h.addSlot rfl (.inl rfl) ?_ (fun i hi => ⟨(st.tokens i).size, ?_⟩) (fun i hi => ?_)
      · simpa [jsmnFillToken] using Matches.leaf hk hab hb 0
      · simp [jsmnFillToken, Function.update_of_ne hi.ne]
      · simp [jsmnFillToken, Function.update_of_ne hi.ne']
    · rw [hscan, addToken_of_lt hn]
      simp
  · rw [jsmnAllocToken_of_le h hn]
    show (scanFrom n _ (js.drop st.pos)).flush n = _
    rw [hscan, addToken_of_le hn, scanFrom_failed]
    rfl

theorem slice_eq_take_drop (js : Bytes) (a k : ℕ) : slice js a (a + k) = (js.drop a).take k := by
  unfold slice
  rw [Nat.add_sub_cancel_left]

theorem jsmnParseString_spec {n : ℕ} (h : Sim js tokens0 st toks) (h0 : (0 : Byte) ∉ js)
    (hc : js[st.pos]? = some 34) :
    Iterates js tokens0 n st toks
      ((jsmnParseString js n st).map fun st' => (bumpSuper st', toks.length + 1)) := by
  have hdrop := drop_eq_cons hc
  have hstring : scanFrom n ⟨.between, toks⟩ (js.drop st.pos) =
      scanFrom n ⟨.string [] 0, toks⟩ (js.drop (st.pos + 1)) := by
    rw [hdrop, scanFrom_cons]
    rfl
  have hend := stringScan_spec n toks 0 (js.drop (st.pos + 1)) (st.pos + 1) []
    fun hm => h0 (List.mem_of_mem_drop hm)
  unfold jsmnParseString
  cases hs : stringScan 0 (js.drop (st.pos + 1)) (st.pos + 1) with
  | error e =>
    rw [hs] at hend
    show (scanFrom n _ (js.drop st.pos)).flush n = _
    rw [hstring]
    exact hend
  | ok p =>
    rw [hs] at hend
    obtain ⟨k, hk, rfl, hscan⟩ := hend
    rw [List.length_drop] at hk
    refine addLeaf_spec (.inl rfl) h (by omega) (by omega) (by omega) ?_
    rw [hstring, hscan, slice_eq_take_drop, List.drop_drop]
    simp only [List.nil_append, Nat.add_assoc]

theorem jsmnParsePrimitive_spec {n : ℕ} {c : Byte} (h : Sim js tokens0 st toks)
    (h0 : (0 : Byte) ∉ js) (hc : js[st.pos]? = some c) (hd : endsPrimitive c = false)
    (hbyte : betweenByte n toks c =
      if outsidePrimitive c then ⟨.failed .inval, toks⟩ else ⟨.primitive [c], toks⟩) :
    Iterates js tokens0 n st toks
      ((jsmnParsePrimitive js n st).map fun st' => (bumpSuper st', toks.length + 1)) := by
  have hdrop := drop_eq_cons hc
  have hlt : st.pos < js.length := (List.getElem?_eq_some_iff.1 hc).1
  have hc0 : c ≠ 0 := fun he => h0 (he ▸ List.mem_of_getElem? hc)
  have hbetween : scanFrom n ⟨.between, toks⟩ (js.drop st.pos) =
      scanFrom n (betweenByte n toks c) (js.drop (st.pos + 1)) := by
    rw [hdrop, scanFrom_cons]
    rfl
  have hend := primitiveScan_spec n toks (js.drop (st.pos + 1)) (st.pos + 1) [c]
    fun hm => h0 (List.mem_of_mem_drop hm)
  unfold jsmnParsePrimitive
  rw [hdrop, primitiveScan, if_neg hc0, if_neg (by rw [hd]; decide)]
  by_cases ho : outsidePrimitive c = true
  · rw [if_pos ho]
    show (scanFrom n _ (js.drop st.pos)).flush n = _
    rw [hbetween, hbyte, if_pos ho, scanFrom_failed]
    rfl
  · rw [if_neg ho]
    cases hp : primitiveScan (js.drop (st.pos + 1)) (st.pos + 1) with
    | none =>
      rw [hp] at hend
      show (scanFrom n _ (js.drop st.pos)).flush n = _
      rw [hbetween, hbyte, if_neg ho, hend]
      rfl
    | some p =>
      rw [hp] at hend
      obtain ⟨k, hk, rfl, hdelim, hscan⟩ := hend
      rw [List.length_drop] at hk
      refine addLeaf_spec (.inr rfl) h (by omega) (by omega) (by omega) ?_
      rw [hbetween, hbyte, if_neg ho, hscan, scan_primitive_end _ _ _ hdelim, List.drop_drop]
      have htext : slice js st.pos (st.pos + 1 + k) = [c] ++ (js.drop (st.pos + 1)).take k := by
        rw [Nat.add_assoc, slice_eq_take_drop, hdrop, Nat.add_comm 1 k, List.take_succ_cons]
        rfl
      rw [htext]
      congr 3
      omega

/-- `case ':'` and `case ','` only choose another superior token. -/
theorem Sim.withSuper (h : Sim js tokens0 st toks) {super : Option ℕ}
    (hs : ∀ k, super = some k → k < st.toknext) :
    Sim js tokens0 { st with toksuper := super } toks :=
  ⟨h.toknext, hs, h.tokens, h.untouched⟩

theorem afterComma_eq (h : Sim js tokens0 st toks) :
    ∃ super, afterComma st = { st with toksuper := super } ∧
      ∀ k, super = some k → k < st.toknext := by
  unfold afterComma
  cases hs : st.toksuper with
  | none => exact ⟨st.toksuper, rfl, h.super⟩
  | some k =>
    dsimp only
    split_ifs with ht
    · cases hl : lastToken (fun t => (t.type = .array ∨ t.type = .object) ∧ t.Unclosed)
        st.tokens st.toknext with
      | none => exact ⟨st.toksuper, rfl, h.super⟩
      | some i =>
        refine ⟨some i, rfl, fun j hj => ?_⟩
        rw [Option.some.injEq] at hj
        exact hj ▸ lastToken_lt hl
    · exact ⟨st.toksuper, rfl, h.super⟩

/-- **One iteration.** The `switch` does to the tokens what the scanner does. -/
theorem jsmnSwitch_spec {n : ℕ} {c : Byte} (h : Sim js tokens0 st toks) (h0 : (0 : Byte) ∉ js)
    (hc : js[st.pos]? = some c) :
    Iterates js tokens0 n st toks (jsmnSwitch js n c st toks.length) := by
  have hskip : betweenByte n toks c = ⟨.between, toks⟩ →
      (scanFrom n ⟨.between, toks⟩ (js.drop st.pos)).flush n =
        (scanFrom n ⟨.between, toks⟩ (js.drop (st.pos + 1))).flush n := by
    intro hbyte
    rw [drop_eq_cons hc, scanFrom_cons]
    show (scanFrom n (betweenByte n toks c) _).flush n = _
    rw [hbyte]
  unfold jsmnSwitch
  by_cases h1 : c = 123
  · rw [if_pos h1]
    exact openContainer_spec h hc (.inl rfl) (by simp [betweenByte, h1])
  by_cases h2 : c = 91
  · rw [if_neg h1, if_pos h2]
    exact openContainer_spec h hc (.inr rfl) (by simp [betweenByte, h2])
  by_cases h3 : c = 125
  · rw [if_neg h1, if_neg h2, if_pos h3]
    exact closeContainer_spec h hc (by simp [betweenByte, h3])
  by_cases h4 : c = 93
  · rw [if_neg h1, if_neg h2, if_neg h3, if_pos h4]
    exact closeContainer_spec h hc (by simp [betweenByte, h4])
  rw [if_neg h1, if_neg h2, if_neg h3, if_neg h4]
  by_cases h5 : c = 34
  · rw [if_pos h5]
    exact jsmnParseString_spec h h0 (h5 ▸ hc)
  by_cases h6 : isBlank c = true
  · rw [if_neg h5, if_pos h6]
    exact ⟨toks, rfl, h, le_rfl, hskip (by simp [betweenByte, h1, h2, h3, h4, h5, h6])⟩
  by_cases h7 : c = 58
  · rw [if_neg h5, if_neg h6, if_pos h7]
    refine ⟨toks, rfl, h.withSuper fun k hk => ?_, le_rfl, hskip (by simp [betweenByte, h7])⟩
    split_ifs at hk
    rw [Option.some.injEq] at hk
    omega
  by_cases h8 : c = 44
  · rw [if_neg h5, if_neg h6, if_neg h7, if_pos h8]
    obtain ⟨super, heq, hsuper⟩ := afterComma_eq h
    rw [heq]
    exact ⟨toks, rfl, h.withSuper hsuper, le_rfl, hskip (by simp [betweenByte, h8])⟩
  · rw [if_neg h5, if_neg h6, if_neg h7, if_neg h8]
    exact jsmnParsePrimitive_spec h h0 hc (by simp [endsPrimitive, h3, h4, h6, h7, h8])
      (by simp [betweenByte, h1, h2, h3, h4, h5, h6, h7, h8])

/-! ## The whole call -/

theorem jsmnFinish_spec {n : ℕ} (h : Sim js tokens0 st toks) :
    Agrees js tokens0 (jsmnFinish st toks.length) ((⟨.between, toks⟩ : Scan).flush n) := by
  have hlast := lastToken_closeLast h.tokens .undefined
  rw [← h.toknext] at hlast
  unfold jsmnFinish
  cases hl : lastToken JsmnTok.Unclosed st.tokens st.toknext with
  | none =>
    rw [hl] at hlast
    exact ⟨by simp [Scan.finish, Scan.flush, hlast.2]; rfl, h.tokens, h.untouched⟩
  | some i =>
    rw [hl] at hlast
    exact ⟨by simp [Scan.finish, Scan.flush, hlast.2.1]; rfl, h.tokens, h.untouched⟩

/-- The loop lemma: from a state between two tokens on, the parser returns what
    the scanner finds in the rest of the text. -/
theorem jsmnParseLoop_spec {n : ℕ} (h0 : (0 : Byte) ∉ js) (fuel : ℕ) :
    ∀ {st : JsmnState} {toks : List Lexeme}, Sim js tokens0 st toks → js.length - st.pos ≤ fuel →
      Agrees js tokens0 (jsmnParseLoop js n fuel st toks.length)
        ((scanFrom n ⟨.between, toks⟩ (js.drop st.pos)).flush n) := by
  induction fuel with
  | zero =>
    intro st toks h hfuel
    rw [List.drop_of_length_le (by omega)]
    exact jsmnFinish_spec h
  | succ fuel ih =>
    intro st toks h hfuel
    rw [jsmnParseLoop]
    cases hc : js[st.pos]? with
    | none =>
      rw [List.drop_of_length_le (List.getElem?_eq_none_iff.1 hc)]
      exact jsmnFinish_spec h
    | some c =>
      have hc0 : c ≠ 0 := fun he => h0 (he ▸ List.mem_of_getElem? hc)
      have hlt : st.pos < js.length := (List.getElem?_eq_some_iff.1 hc).1
      have hswitch := jsmnSwitch_spec (n := n) h h0 hc
      dsimp only
      rw [if_neg hc0]
      cases hr : jsmnSwitch js n c st toks.length with
      | error e =>
        rw [hr] at hswitch
        have : (scanFrom n ⟨.between, toks⟩ (js.drop st.pos)).flush n = ⟨.failed e, toks⟩ := hswitch
        rw [this]
        exact ⟨rfl, h.tokens, h.untouched⟩
      | ok r =>
        obtain ⟨st', count'⟩ := r
        rw [hr] at hswitch
        obtain ⟨toks', rfl, hsim, hpos, hscan⟩ := hswitch
        rw [hscan]
        have hsim' : Sim js tokens0 { st' with pos := st'.pos + 1 } toks' :=
          ⟨hsim.toknext, hsim.super, hsim.tokens, hsim.untouched⟩
        apply ih hsim'
        show js.length - (st'.pos + 1) ≤ fuel
        omega

/-- **Refinement.** On a text without NUL, `jsmn_parse` returns what the scanner
    finds, and leaves the scanner's lexemes in the array. -/
theorem jsmnParse_agrees (n : ℕ) (h0 : (0 : Byte) ∉ js) :
    Agrees js tokens0 (jsmnParse js n tokens0) (scanText n js) :=
  jsmnParseLoop_spec h0 js.length sim_init (by simp [jsmnInit])

/-- The call returns `k` iff the scanner accepts the text with `k` lexemes. -/
theorem jsmnParse_eq_ok_iff (n : ℕ) (h0 : (0 : Byte) ∉ js) (k : ℕ) :
    (jsmnParse js n tokens0).1 = .ok k ↔ ∃ ls, lexemes n js = some ls ∧ ls.length = k := by
  rw [(jsmnParse_agrees n h0).ret, lexemes]
  cases (scanText n js).finish with
  | error e => simp [Except.map]
  | ok u => simp [Except.map]

/-- Every token of the array stands for its lexeme. -/
theorem TokensMatch.getElem {js : Bytes} {tokens : Tokens} {toks : List Lexeme}
    (h : TokensMatch js tokens toks) (i : ℕ) (hi : i < toks.reverse.length) :
    Matches js (tokens i) toks.reverse[i] := by
  induction toks with
  | nil => simp at hi
  | cons l ls ih =>
    obtain ⟨hl, hls⟩ := h
    rw [List.length_reverse, List.length_cons] at hi
    simp only [List.reverse_cons]
    by_cases he : i < ls.length
    · rw [List.getElem_append_left (by simpa using he)]
      exact ih hls (by simpa using he)
    · have hieq : i = ls.length := by omega
      subst hieq
      simpa using hl

/-- What a call leaves in the array when the text has the lexemes `ls`: their
    tokens, and the old contents behind them. -/
theorem jsmnParse_of_lexemes {n : ℕ} (h0 : (0 : Byte) ∉ js) {ls : List Lexeme}
    (hls : lexemes n js = some ls) :
    ∃ tokens, jsmnParse js n tokens0 = (.ok ls.length, tokens) ∧
      (∀ i (hi : i < ls.length), Matches js (tokens i) ls[i]) ∧
      ∀ i, ls.length ≤ i → tokens i = tokens0 i := by
  have hagree : Agrees js tokens0 _ _ := jsmnParse_agrees n h0
  have hret := (@jsmnParse_eq_ok_iff js tokens0 n h0 ls.length).2 ⟨ls, hls, rfl⟩
  have htoks : (scanText n js).toks = ls.reverse := by rw [(lexemes_eq_some_iff.1 hls).1]
  have hmatch := hagree.tokens
  have huntouched := hagree.untouched
  rw [htoks] at hmatch
  rw [htoks, List.length_reverse] at huntouched
  refine ⟨(jsmnParse js n tokens0).2, Prod.ext hret rfl, fun i hi => ?_, huntouched⟩
  have := hmatch.getElem i (by simpa using hi)
  simpa using this

/-- A text that the scanner rejects is an error. -/
theorem jsmnParse_of_rejected {n : ℕ} (h0 : (0 : Byte) ∉ js) (hls : lexemes n js = none) :
    ∃ e tokens, jsmnParse js n tokens0 = (.error e, tokens) := by
  cases hr : jsmnParse js n tokens0 with
  | mk ret tokens =>
    cases ret with
    | error e => exact ⟨e, tokens, rfl⟩
    | ok k =>
      obtain ⟨ls, hsome, -⟩ := (jsmnParse_eq_ok_iff n h0 k).1 (congrArg Prod.fst hr)
      rw [hls] at hsome
      cases hsome

end TrackerDemo.Jsmn

import TrackerDemo.Config.KeyValueLines

/-!
# Comments at the end of a parameter line

The header of the configuration file lets a parameter line end in a comment,
with a space in between. The reader hands the comment to jsmn with the rest of
the line, so it has to pass as tokens, and they have to fit the array.

Results:
* `lexemes_value_comment`: the comment's tokens come behind those of the value.
* `commentKept_iff`: when a line acts as it does without its comment.
* `commentHarmless_iff`: for a plain value, jsmn has to accept the comment with
  the eight tokens that are left.
-/

namespace TrackerDemo.Config

open TrackerDemo.CString TrackerDemo.Jsmn TrackerDemo.TextLines TrackerDemo.Json

/-! ## Comments -/

/-- Printable characters. -/
def CommentBytes (text : Bytes) : Prop := ∀ c ∈ text, 32 ≤ c ∧ c < 127

instance (text : Bytes) : Decidable (CommentBytes text) :=
  List.decidableBAll (fun c => 32 ≤ c ∧ c < 127) text

/-- `// text` or `/* text */`. -/
inductive TrailingComment : Bytes → Prop
  | line {text : Bytes} (h : CommentBytes text) : TrailingComment (47 :: 47 :: text)
  | block {text : Bytes} (h : CommentBytes text) :
      TrailingComment (47 :: 42 :: (text ++ [42, 47]))

/-- What stands behind the value: blanks, the last one a space, and the comment. -/
def commentTail (trailing comment : Bytes) : Bytes := trailing ++ 32 :: comment

/-- With and without the comment, the line assigns the same parameter the same
    value, whatever the reader's arrays hold. -/
def CommentKept (l : KeyValueLine) (trailing comment : Bytes) : Prop :=
  ∀ nl : Bytes, nl = [] ∨ nl = [10] →
    (l.text ++ (commentTail trailing comment ++ nl)).length < maxParameterTextLength →
      ∀ r : Reader, BuffersSafe r →
        r.lineAssignment (l.text ++ (commentTail trailing comment ++ nl)) =
          r.lineAssignment (l.text ++ (trailing ++ nl))

/-- jsmn accepts the comment with the tokens that key and value leave. A value
    that is no token of its own is looked at with the comment. -/
def CommentHarmless (l : KeyValueLine) (trailing comment : Bytes) : Prop :=
  match lexemes 9 l.value with
  | some (v :: vs) => v.kind = .primitive → (lexemes (8 - vs.length) comment).isSome
  | some [] => False
  | none => ∀ v vs, lexemes 9 (l.value ++ commentTail trailing comment) = some (v :: vs) →
      v.kind ≠ .primitive

theorem TrailingComment.bytes {comment : Bytes} (h : TrailingComment comment) :
    CommentBytes comment := by
  intro c hc
  cases h with
  | line h =>
    simp only [List.mem_cons] at hc
    obtain rfl | rfl | hc := hc
    · decide
    · decide
    · exact h c hc
  | block h =>
    simp only [List.mem_cons, List.mem_append, List.not_mem_nil, or_false] at hc
    obtain rfl | rfl | hc | rfl | rfl := hc
    · decide
    · decide
    · exact h c hc
    · decide
    · decide

theorem TrailingComment.slash_mem {comment : Bytes} (h : TrailingComment comment) :
    (47 : Byte) ∈ comment := by
  cases h <;> exact List.mem_cons_self

theorem TrailingComment.zero_notMem {comment : Bytes} (h : TrailingComment comment) :
    (0 : Byte) ∉ comment := fun hc => absurd (h.bytes 0 hc).1 (by decide)

/-! ## The line with its comment -/

section

variable {l : KeyValueLine} {trailing comment nl : Bytes} {r : Reader}

/-- The newline behind a comment. -/
theorem lexemes_commentTail (hnl : nl = [] ∨ nl = [10]) (n : ℕ) :
    lexemes n (l.value ++ (commentTail trailing comment ++ nl)) =
      lexemes n (l.value ++ commentTail trailing comment) := by
  rw [← List.append_assoc]
  exact lexemes_append_blank (blank_of_nl hnl) _

/-- The comment's tokens come behind those of the value. -/
theorem lexemes_value_comment (ht : LineBlank trailing) {n : ℕ} {vs : List Lexeme}
    (h : lexemes n l.value = some vs) :
    lexemes n (l.value ++ commentTail trailing comment) =
      (lexemes (n - vs.length) comment).map (vs ++ ·) := by
  have hblank : Blank (trailing ++ [32]) := ht.blank.append (by simp [Blank])
  have htail : commentTail trailing comment = (trailing ++ [32]) ++ comment := by
    simp [commentTail]
  rw [htail]
  exact lexemes_append_blanks l.quote_notMem_value hblank (by simp) h comment

/-- A comment has a token. -/
theorem lexemes_comment_ne_nil (hc : TrailingComment comment) (n : ℕ) (before : Bytes) :
    lexemes n (before ++ comment) ≠ some [] := by
  intro h
  have hslash := endsPrimitive_of_lexemes_nil h 47 (List.mem_append_right _ hc.slash_mem)
  exact absurd hslash (by decide)

/-- The comment makes sure that there is a token behind the colon. -/
theorem lineAssignment_comment (hc : TrailingComment comment) (ht : LineBlank trailing)
    (hnl : nl = [] ∨ nl = [10])
    (hlen : (l.text ++ (commentTail trailing comment ++ nl)).length < maxParameterTextLength) :
    r.lineAssignment (l.text ++ (commentTail trailing comment ++ nl)) =
      keyAssignment l.key (some none) (lexemes 9 (l.value ++ commentTail trailing comment)) := by
  have h0 : (0 : Byte) ∉ commentTail trailing comment ++ nl := by
    simp [commentTail, ht.blank.zero_notMem, hc.zero_notMem, (blank_of_nl hnl).zero_notMem]
  have hbefore : l.value ++ commentTail trailing comment =
      (l.value ++ (trailing ++ [32])) ++ comment := by
    simp [commentTail]
  have hne : lexemes 9 (l.value ++ commentTail trailing comment) ≠ some [] := by
    rw [hbefore]
    exact lexemes_comment_ne_nil hc 9 _
  rw [l.lineAssignment_text h0 hlen, lexemes_commentTail hnl]
  match h : lexemes 9 (l.value ++ commentTail trailing comment) with
  | some (v :: vs) => rfl
  | some [] => exact absurd h hne
  | none => rfl

/-- The copies of a key that names no parameter stay in bounds. -/
theorem staleAssignment_of_branchOf_none (hr : BuffersSafe r) {piece : Bytes}
    (hlen : piece.length < maxParameterTextLength) {k : Lexeme} (hk : branchOf k.text = none) :
    staleAssignment (fgetsInto r.configLine piece) (r.tokens 1) k = some none := by
  unfold staleAssignment
  split_ifs with h
  · have hmem : (fgetsInto r.configLine piece).length = maxParameterTextLength := by
      rw [length_fgetsInto _ (by rw [hr.configLine]; exact hlen), hr.configLine]
    obtain ⟨v, hv⟩ := copyToken_of_inLine (hr.inLine 1 (.inr h.2)) hmem
    rw [hv, hk]
    rfl
  · rfl

/-- Arrays in which an empty primitive is left. -/
def staleReader : Reader where
  tokens := fun _ => ⟨.primitive, 0, 0, 0⟩
  configLine := List.replicate maxParameterTextLength 0

theorem buffersSafe_staleReader : BuffersSafe staleReader where
  inLine _ _ := ⟨le_refl 0, le_refl 0, Int.natCast_pos.2 (Nat.succ_pos _)⟩
  configLine := List.length_replicate

/-- Behind it, a lone key is assigned the empty text. -/
theorem staleAssignment_staleReader (piece : Bytes) {k : Lexeme} (hk : k.kind = .string) :
    staleAssignment (fgetsInto staleReader.configLine piece) (staleReader.tokens 1) k =
      some ((branchOf k.text).map fun branch => ⟨branch, [], 0⟩) := by
  have hcopy : copyToken maxParameterTextLength (fgetsInto staleReader.configLine piece)
      (staleReader.tokens 1) = some [] := by
    unfold copyToken
    rw [if_pos ⟨le_refl 0, le_refl 0, by decide, .inr (by simp [staleReader])⟩]
    rfl
  unfold staleAssignment
  rw [if_pos ⟨hk, rfl⟩, hcopy]
  rfl

end

/-! ## Main result -/

section

variable {l : KeyValueLine} {trailing comment : Bytes}

theorem length_plain_lt {nl : Bytes}
    (h : (l.text ++ (commentTail trailing comment ++ nl)).length < maxParameterTextLength) :
    (l.text ++ (trailing ++ nl)).length < maxParameterTextLength := by
  simp only [commentTail, List.length_append, List.length_cons] at h ⊢
  omega

/-- A comment that does not pass costs the line its assignment. -/
theorem commentHarmless_of_kept (hc : TrailingComment comment) (ht : LineBlank trailing)
    (hlen : (l.text ++ commentTail trailing comment).length < maxParameterTextLength)
    (hkept : CommentKept l trailing comment) (hb : branchOf l.key ≠ none) :
    CommentHarmless l trailing comment := by
  have hlen' : (l.text ++ (commentTail trailing comment ++ [])).length <
      maxParameterTextLength := by
    rw [List.append_nil]
    exact hlen
  have heq := hkept [] (.inl rfl) hlen' staleReader buffersSafe_staleReader
  rw [lineAssignment_comment hc ht (.inl rfl) hlen',
    lineAssignment_plain ht (.inl rfl) (length_plain_lt hlen')] at heq
  obtain ⟨b, hb⟩ := Option.ne_none_iff_exists'.1 hb
  have hpair : ∀ v, v.kind = .primitive →
      pairAssignment ⟨.string, l.key, false⟩ v = some ⟨b, v.text, v.text.length⟩ :=
    fun v hv => (pairAssignment_eq_some_iff rfl).2 ⟨hv, b, hb, rfl⟩
  unfold CommentHarmless
  match hls : lexemes 9 l.value with
  | some (v :: vs) =>
    intro hv
    rw [lexemes_value_comment ht hls, hls, List.length_cons, Nat.add_sub_add_right 8 1] at heq
    by_contra hnone
    rw [Option.not_isSome_iff_eq_none] at hnone
    simp [hnone, hpair v hv] at heq
  | some [] =>
    -- the key is alone on its line: it is assigned the empty text, which is no token's
    rw [hls, keyAssignment_nil, staleAssignment_staleReader _ rfl, hb, Option.map_some,
      keyAssignment_eq_some_iff] at heq
    obtain ⟨v, vs, hvs, hassign⟩ | ⟨-, habsurd⟩ := heq
    · obtain ⟨hv, b', -, hfields⟩ := (pairAssignment_eq_some_iff rfl).1 hassign
      obtain ⟨-, -, -, -, -, -, htoken, -⟩ := lexemes_cons_primitive hvs hv
      exact htoken.ne_nil (congrArg Assignment.parameterValue hfields).symm
    · cases Option.some.inj habsurd
  | none =>
    intro v vs hvs hv
    rw [hvs, hls] at heq
    simp [hpair v hv] at heq

/-- No line of a key without a parameter assigns anything. -/
theorem commentKept_of_branchOf_none (hc : TrailingComment comment) (ht : LineBlank trailing)
    (hb : branchOf l.key = none) : CommentKept l trailing comment := by
  intro nl hnl hlen r hr
  have hplain := length_plain_lt hlen
  have hstale := @staleAssignment_of_branchOf_none r hr _ hplain ⟨.string, l.key, false⟩ hb
  rw [lineAssignment_comment hc ht hnl hlen, lineAssignment_plain ht hnl hplain,
    keyAssignment_of_branchOf_none hb rfl, keyAssignment_of_branchOf_none hb hstale]

/-- A comment that passes leaves the first token behind the colon. -/
theorem commentKept_of_harmless (hc : TrailingComment comment) (ht : LineBlank trailing)
    (h : CommentHarmless l trailing comment) : CommentKept l trailing comment := by
  intro nl hnl hlen r hr
  have hpair : ∀ v, v.kind ≠ .primitive → pairAssignment ⟨.string, l.key, false⟩ v = none :=
    fun v hv => (pairAssignment_eq_none_iff rfl).2 (.inl hv)
  rw [lineAssignment_comment hc ht hnl hlen, lineAssignment_plain ht hnl (length_plain_lt hlen)]
  unfold CommentHarmless at h
  match hls : lexemes 9 l.value with
  | some (v :: vs) =>
    rw [hls] at h
    rw [lexemes_value_comment ht hls, List.length_cons, Nat.add_sub_add_right 8 1]
    by_cases hv : v.kind = .primitive
    · obtain ⟨us, hus⟩ := Option.isSome_iff_exists.1 (h hv)
      rw [hus]
      rfl
    · cases lexemes (8 - vs.length) comment with
      | none => simp [hpair v hv]
      | some us => simp
  | some [] =>
    rw [hls] at h
    exact h.elim
  | none =>
    rw [hls] at h
    match hvs : lexemes 9 (l.value ++ commentTail trailing comment) with
    | some (v :: vs) => simp [hpair v (h v vs hvs)]
    | some [] => rfl
    | none => rfl

/-- **When a comment does not change a parameter.** -/
theorem commentKept_iff (hc : TrailingComment comment) (ht : LineBlank trailing)
    (hlen : (l.text ++ commentTail trailing comment).length < maxParameterTextLength) :
    CommentKept l trailing comment ↔
      branchOf l.key = none ∨ CommentHarmless l trailing comment := by
  constructor
  · intro hkept
    by_cases hb : branchOf l.key = none
    · exact .inl hb
    · exact .inr (commentHarmless_of_kept hc ht hlen hkept hb)
  · rintro (hb | hharmless)
    · exact commentKept_of_branchOf_none hc ht hb
    · exact commentKept_of_harmless hc ht hharmless

/-- For an unquoted token, the comment alone decides. -/
theorem commentHarmless_iff (h : PrimitiveToken l.value) :
    CommentHarmless l trailing comment ↔ (lexemes 8 comment).isSome := by
  unfold CommentHarmless
  rw [lexemes_primitiveToken h]
  exact ⟨fun h => h rfl, fun h _ => h⟩

end

/-- The port's line. -/
def portKeyValue : KeyValueLine where
  indent := []
  key := ascii "MQTT_PORT"
  beforeColon := [32]
  afterColon := [32]
  value := ascii "1883"
  indent_blank := lineBlank_nil
  key_plain := (branches_plain ("MQTT_PORT", .int .mqttPort) (by decide)).1
  beforeColon_blank := lineBlank_space
  afterColon_blank := lineBlank_space
  value_ne_nil := by decide
  value_bytes := by decide

theorem commentKept_iff_portKeyValue :
    CommentKept portKeyValue [] (ascii "// broker port") ↔
      branchOf portKeyValue.key = none ∨
        CommentHarmless portKeyValue [] (ascii "// broker port") :=
  commentKept_iff (@TrailingComment.line (ascii " broker port") (by decide)) (by decide) (by decide)

/-- More words than jsmn has tokens for. -/
def wordyComment : Bytes := ascii "// set this to the port number of your broker"

theorem wordyComment_drops_port :
    ¬∀ (l : KeyValueLine) (trailing comment : Bytes), TrailingComment comment →
      LineBlank trailing →
        (l.text ++ commentTail trailing comment).length < maxParameterTextLength →
          CommentKept l trailing comment := by
  intro h
  have hcomment : TrailingComment wordyComment :=
    @TrailingComment.line (ascii " set this to the port number of your broker") (by decide)
  have hkept := h portKeyValue [] wordyComment hcomment (by decide) (by decide)
  have heq := hkept [] (.inl rfl) (by decide) .zeroed fresh_zeroed.buffersSafe
  have hwith : ¬LoneString (portKeyValue.text ++ (commentTail [] wordyComment ++ [])) := by decide
  have hwithout : ¬LoneString (portKeyValue.text ++ ([] ++ [])) := by decide
  rw [lineAssignment_of_not_loneString (by decide) hwith,
    lineAssignment_of_not_loneString (by decide) hwithout] at heq
  revert heq
  decide

end TrackerDemo.Config

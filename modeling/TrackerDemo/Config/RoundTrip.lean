import TrackerDemo.Config.KeyValueLines

/-!
# Round trip of the string parameters

A file of one line `"Key" : Value` is read back into a string parameter. On the
way the value passes `fgets`, jsmn's scanner for primitives and two `strncpy`.

Results:
* `fgetsPieces_parameterFile`: the line is cut behind the first 1023 bytes, and
  only the first piece has a quote.
* `loaded_parameterFile`: the file acts by the first token of that piece's value.
* `roundTrips_iff`: the values that come back.
-/

namespace TrackerDemo.Config

open TrackerDemo.CString TrackerDemo.Jsmn TrackerDemo.TextLines TrackerDemo.Json

/-! ## The file -/

/-- `"Key" : Value`. -/
def parameterText (name : String) (value : Bytes) : Bytes :=
  34 :: (ascii name ++ 34 :: 32 :: 58 :: 32 :: value)

/-- The file that consists of this line. -/
def parameterFile (name : String) (value : Bytes) : Bytes := parameterText name value ++ [10]

/-- Printable text without blanks and quotes that fits a string parameter. -/
structure StringValue (value : Bytes) : Prop where
  ne_nil : value ≠ []
  bytes : ValueBytes value
  length_lt : value.length < maxParameterTextLength

/-- Reading the file leaves the value in the parameter. -/
def RoundTrips (name : String) (s : StringParam) (value : Bytes) : Prop :=
  ∀ r : Reader, ∃ p,
    readAndAssignConfigurationDetails r (some (parameterFile name value)) .initial =
      some (.success, p) ∧ arrayString maxParameterTextLength (p.string s) = value

/-- Nothing in the value ends a primitive, and it does not begin with a bracket. -/
structure OneToken (value : Bytes) : Prop where
  bytes : ∀ c ∈ value, c ≠ 58 ∧ c ≠ 44 ∧ c ≠ 93 ∧ c ≠ 125
  head : ∀ c ∈ value.head?, c ≠ 123 ∧ c ≠ 91

section

variable {name : String} {value : Bytes}

theorem oneToken_iff (h : StringValue value) : PrimitiveToken value ↔ OneToken value := by
  have hbyte : ∀ c ∈ value, (endsPrimitive c = false ∧ outsidePrimitive c = false) ↔
      c ≠ 58 ∧ c ≠ 44 ∧ c ≠ 93 ∧ c ≠ 125 := by
    intro c hc
    have hprintable := h.bytes c hc
    simp only [endsPrimitive, isBlank, outsidePrimitive, decide_eq_false_iff_not, decide_eq_true_eq,
      UInt8.lt_iff_toNat_lt, UInt8.le_iff_toNat_le, ← UInt8.toNat_inj, UInt8.reduceToNat,
      ne_eq] at hprintable ⊢
    omega
  constructor
  · intro ht
    refine ⟨fun c hc => (hbyte c hc).1 (ht.bytes c hc), fun c hc => ?_⟩
    exact ⟨(ht.head c hc).1, (ht.head c hc).2.1⟩
  · intro ht
    refine ⟨h.ne_nil, fun c hc => (hbyte c hc).2 (ht.bytes c hc), fun c hc => ?_⟩
    exact ⟨(ht.head c hc).1, (ht.head c hc).2, (h.bytes c (List.mem_of_mem_head? hc)).2.2⟩

theorem length_parameterText (name : String) (value : Bytes) :
    (parameterText name value).length = (ascii name).length + 5 + value.length := by
  simp [parameterText]
  omega

theorem parameterText_eq {b : Branch} (hname : (name, b) ∈ branches) (hne : value ≠ [])
    (hbytes : ValueBytes value) :
    ∃ l : KeyValueLine, l.text = parameterText name value ∧ l.key = ascii name ∧
      l.value = value :=
  ⟨{  indent := [], key := ascii name, beforeColon := [32], afterColon := [32], value := value
      indent_blank := lineBlank_nil
      key_plain := (branches_plain _ hname).1
      beforeColon_blank := lineBlank_space
      afterColon_blank := lineBlank_space
      value_ne_nil := hne
      value_bytes := hbytes }, rfl, rfl, rfl⟩

/-! ## Its pieces -/

theorem ten_notMem_parameterText {b : Branch} (hname : (name, b) ∈ branches)
    (hvalue : ValueBytes value) : (10 : Byte) ∉ parameterText name value := by
  have hkey : (10 : Byte) ∉ ascii name :=
    fun hc => absurd ((branches_plain _ hname).1 10 hc).1 (by decide)
  have hten : (10 : Byte) ∉ value := fun hc => absurd (hvalue 10 hc).1 (by decide)
  simp [parameterText, hkey, hten]

/-- A line that fits the buffer with its newline is one piece. -/
theorem fgetsPieces_short {b : Branch} (hname : (name, b) ∈ branches) (hvalue : ValueBytes value)
    (hfits : (parameterText name value).length + 1 < maxParameterTextLength) :
    fgetsPieces (parameterFile name value) = [parameterText name value ++ [10]] := by
  show fgetsAll maxParameterTextLength (parameterText name value ++ [10]) = _
  refine fgetsAll_line ⟨by simp, ?_⟩ ?_
  · rw [List.dropLast_concat]
    exact ten_notMem_parameterText hname hvalue
  · rw [List.length_append, List.length_singleton]
    exact hfits

/-- Any other line is cut where the buffer is full, behind the first `k` bytes of
    the value. -/
theorem fgetsPieces_long {b : Branch} (hname : (name, b) ∈ branches) (hvalue : ValueBytes value)
    {k : ℕ} (hk : (ascii name).length + 5 + k + 1 = maxParameterTextLength)
    (hle : k ≤ value.length) :
    fgetsPieces (parameterFile name value) =
      parameterText name (value.take k) ::
        fgetsAll maxParameterTextLength (value.drop k ++ [10]) := by
  have hsplit : parameterFile name value =
      parameterText name (value.take k) ++ (value.drop k ++ [10]) := by
    unfold parameterFile parameterText
    conv_lhs => rw [← List.take_append_drop k value]
    simp only [List.cons_append, List.append_assoc]
  have htake : ValueBytes (value.take k) := fun c hc => hvalue c (List.mem_of_mem_take hc)
  rw [hsplit]
  refine fgetsAll_cut (by simp [parameterText]) (ten_notMem_parameterText hname htake) ?_ _
  rw [length_parameterText, List.length_take]
  omega

/-- The file's first piece has the whole value or a shorter one, and no other
    piece has a quote. -/
theorem fgetsPieces_parameterFile {b : Branch} (hname : (name, b) ∈ branches)
    (h : StringValue value) :
    ∃ v nl rest, fgetsPieces (parameterFile name value) = (parameterText name v ++ nl) :: rest ∧
      v ≠ [] ∧ v <+: value ∧ (nl = [] ∨ nl = [10]) ∧ (∀ piece ∈ rest, (34 : Byte) ∉ piece) ∧
      ((parameterText name value).length < maxParameterTextLength ↔ v = value) := by
  have hshort : (ascii name).length < 100 := (branches_plain _ hname).2
  have hlen := length_parameterText name value
  have hmax : maxParameterTextLength = 1024 := rfl
  by_cases hfits : (parameterText name value).length + 1 < maxParameterTextLength
  · refine ⟨value, [10], [], fgetsPieces_short hname h.bytes hfits, h.ne_nil, List.prefix_refl _,
      .inr rfl, by simp, fun _ => rfl, fun _ => by omega⟩
  · obtain ⟨k, hk⟩ : ∃ k, (ascii name).length + 5 + k + 1 = maxParameterTextLength :=
      ⟨maxParameterTextLength - 1 - ((ascii name).length + 5), by omega⟩
    have hle : k ≤ value.length := by omega
    have hpieces := fgetsPieces_long hname h.bytes hk hle
    rw [← List.append_nil (parameterText name (value.take k))] at hpieces
    refine ⟨_, [], _, hpieces, ?_, List.take_prefix _ _, .inl rfl, ?_, ?_⟩
    · rw [← List.length_pos_iff, List.length_take]
      omega
    · intro piece hp hm
      have hflat : (fgetsAll maxParameterTextLength (value.drop k ++ [10])).flatten =
          value.drop k ++ [10] := flatten_piecesFrom [] _
      have hmem : (34 : Byte) ∈ value.drop k ++ [10] := by
        rw [← hflat]
        exact List.mem_flatten_of_mem hp hm
      rcases List.mem_append.1 hmem with hin | hin
      · exact (h.bytes 34 (List.mem_of_mem_drop hin)).2.2 rfl
      · simp at hin
    · rw [List.take_eq_self_iff]
      omega

/-- Pieces without quotes assign nothing. -/
theorem lineAssignments_quoteFree (r : Reader) {pieces : List Bytes}
    (hlen : ∀ piece ∈ pieces, piece.length < maxParameterTextLength)
    (h : ∀ piece ∈ pieces, (34 : Byte) ∉ piece) : lineAssignments r pieces = some [] := by
  have hhead : ∀ piece ∈ pieces, textAssignment piece = none ∧ ¬LoneString piece := by
    intro piece hp
    have hquote : (34 : Byte) ∉ cString piece :=
      fun hm => h piece hp ((List.takeWhile_prefix _).subset hm)
    exact textAssignment_of_head fun k ls => lexemes_head_of_quoteFree hquote
  rw [lineAssignments_eq_filterMap r hlen fun piece hp => (hhead piece hp).2,
    List.filterMap_eq_nil_iff.2 fun piece hp => (hhead piece hp).1]

/-- The file acts by its first piece. -/
theorem loaded_of_pieces {file piece : Bytes} {rest : List Bytes}
    (hfile : fgetsPieces file = piece :: rest) (hrest : ∀ q ∈ rest, (34 : Byte) ∉ q)
    (r : Reader) (p : Params) :
    loaded r file p = r.lineAssignment piece >>= fun a => assignAll a.toList p := by
  have hlen : ∀ q ∈ rest, q.length < maxParameterTextLength := by
    intro q hq
    have hmem : q ∈ fgetsPieces file := by
      rw [hfile]
      exact List.mem_cons_of_mem piece hq
    exact length_lt_of_mem_fgetsPieces hmem
  unfold loaded
  rw [hfile, lineAssignments]
  cases r.lineAssignment piece with
  | none => rfl
  | some a =>
    show (lineAssignments (r.next piece) rest >>= fun as => some (a.toList ++ as)) >>= _ = _
    rw [lineAssignments_quoteFree _ hlen hrest]
    show assignAll (a.toList ++ []) p = assignAll a.toList p
    rw [List.append_nil]

/-! ## What the parameter holds -/

/-- A string parameter that has been assigned once. -/
theorem arrayString_assigned {s : StringParam} {text : Bytes} (h0 : (0 : Byte) ∉ text)
    (hlen : text.length < maxParameterTextLength) {p : Params}
    (h : assignAll [⟨.string s, text, text.length⟩] .initial = some p) :
    arrayString maxParameterTextLength (p.string s) = text := by
  have hstring : p.string s = strncpy (Params.initial.string s) text text.length := by
    rw [assignAll_string h]
    show Function.update _ s _ s = _
    rw [Function.update_self]
  rw [hstring, arrayString_strncpy_iff h0 hlen]
  rfl

/-- The file is loaded by the first token of what the first piece has of the value. -/
theorem loaded_parameterFile {b : Branch} (hname : (name, b) ∈ branches) (h : StringValue value) :
    ∃ v piece, v ≠ [] ∧ v <+: value ∧
      ((parameterText name value).length < maxParameterTextLength ↔ v = value) ∧
      ∀ r p, loaded r (parameterFile name value) p =
        keyAssignment (ascii name) (staleAssignment (fgetsInto r.configLine piece) (r.tokens 1)
          ⟨.string, ascii name, false⟩) (lexemes 9 v) >>= fun a => assignAll a.toList p := by
  obtain ⟨v, nl, rest, hpieces, hne, hpre, hnl, hrest, hwhole⟩ :=
    fgetsPieces_parameterFile hname h
  obtain ⟨l, htext, hkey, hvalue⟩ :=
    parameterText_eq hname hne fun c hc => h.bytes c (hpre.subset hc)
  have hlen : (l.text ++ ([] ++ nl)).length < maxParameterTextLength := by
    rw [htext, List.nil_append]
    apply @length_lt_of_mem_fgetsPieces (parameterFile name value)
    rw [hpieces]
    exact List.mem_cons_self
  refine ⟨v, parameterText name v ++ nl, hne, hpre, hwhole, fun r p => ?_⟩
  have hline := @lineAssignment_plain l [] nl r lineBlank_nil hnl hlen
  rw [htext, List.nil_append, hvalue, hkey] at hline
  rw [loaded_of_pieces hpieces hrest, hline]

/-- The parameter holds a token of the first piece: a value that comes back was
    read whole, and is one token. -/
theorem oneToken_of_roundTrips {s : StringParam} (hname : (name, .string s) ∈ branches)
    (h : StringValue value) (hround : RoundTrips name s value) :
    PrimitiveToken value ∧ (parameterText name value).length < maxParameterTextLength := by
  obtain ⟨v, piece, hne, hpre, hwhole, hloaded⟩ := loaded_parameterFile hname h
  obtain ⟨p, hp, hstored⟩ := hround .zeroed
  rw [readAndAssignConfigurationDetails_eq, hloaded, Option.map_eq_some_iff] at hp
  obtain ⟨p', hp, heq⟩ := hp
  obtain rfl : p' = p := congrArg Prod.snd heq
  rw [Option.bind_eq_bind, Option.bind_eq_some_iff] at hp
  obtain ⟨a, ha, hassign⟩ := hp
  cases a with
  | none =>
    -- nothing was assigned
    have hempty : p' = .initial := (Option.some.inj hassign).symm
    have hnil : arrayString maxParameterTextLength (Params.initial.string s) = [] :=
      (arrayString_eq_nil_iff (by decide) _).2 rfl
    rw [hempty, hnil] at hstored
    exact absurd hstored.symm h.ne_nil
  | some a =>
    obtain ⟨u, us, hus, hpair⟩ | ⟨-, hstale⟩ := keyAssignment_eq_some_iff.1 ha
    · obtain ⟨hkind, b, hb, rfl⟩ := (pairAssignment_eq_some_iff rfl).1 hpair
      obtain rfl : Branch.string s = b := Option.some.inj ((branchOf_name _ hname).symm.trans hb)
      obtain ⟨-, sep, after, -, hv, -, htoken, -⟩ := lexemes_cons_primitive hus hkind
      have hsub : u.text.length ≤ v.length := by
        rw [hv]
        simp only [List.length_append]
        omega
      have hle : v.length ≤ value.length := hpre.length_le
      have hlt := h.length_lt
      rw [arrayString_assigned htoken.zero_notMem (by omega) hassign] at hstored
      rw [hstored] at htoken hsub
      exact ⟨htoken, hwhole.2 (hpre.eq_of_length (by omega))⟩
    · -- the zeroed token has no type
      cases Option.some.inj hstale

/-- One token that is read whole is copied whole. -/
theorem roundTrips_of_primitiveToken {s : StringParam} (hname : (name, .string s) ∈ branches)
    (h : StringValue value) (htoken : PrimitiveToken value)
    (hfits : (parameterText name value).length < maxParameterTextLength) :
    RoundTrips name s value := by
  obtain ⟨v, piece, -, -, hwhole, hloaded⟩ := loaded_parameterFile hname h
  obtain rfl : v = value := hwhole.1 hfits
  have hpair : pairAssignment ⟨.string, ascii name, false⟩ ⟨.primitive, v, false⟩ =
      some ⟨.string s, v, v.length⟩ :=
    (pairAssignment_eq_some_iff rfl).2 ⟨rfl, _, branchOf_name _ hname, rfl⟩
  obtain ⟨p, hp⟩ := Option.isSome_iff_exists.1
    ((assign_isSome_iff ⟨.string s, v, v.length⟩ .initial).2 (by simp [Branch.indexedBy]))
  rw [← assignAll_singleton] at hp
  intro r
  refine ⟨p, ?_, arrayString_assigned htoken.zero_notMem h.length_lt hp⟩
  rw [readAndAssignConfigurationDetails_eq, hloaded, lexemes_primitiveToken htoken,
    keyAssignment_cons, hpair]
  exact congrArg (Option.map fun p => (ErrorCode.success, p)) hp

/-- **Round trip.** A value comes back exactly when it is one token for jsmn and
    its line fits the buffer. -/
theorem roundTrips_iff {s : StringParam} (hname : (name, .string s) ∈ branches)
    (h : StringValue value) :
    RoundTrips name s value ↔
      OneToken value ∧ (parameterText name value).length < maxParameterTextLength := by
  rw [← oneToken_iff h]
  constructor
  · exact oneToken_of_roundTrips hname h
  · rintro ⟨htoken, hfits⟩
    exact roundTrips_of_primitiveToken hname h htoken hfits

end

theorem roundTrips_iff_hostName :
    RoundTrips "MQTT_HOST_NAME" .mqttHostName (ascii "broker.local") ↔
      OneToken (ascii "broker.local") ∧
        (parameterText "MQTT_HOST_NAME" (ascii "broker.local")).length < maxParameterTextLength :=
  roundTrips_iff (by decide) ⟨by decide, by decide, by decide⟩

/-- A password with a colon is cut there. -/
theorem colonPassword_not_roundTrips :
    ¬∀ (name : String) (s : StringParam) (value : Bytes), (name, .string s) ∈ branches →
      StringValue value → RoundTrips name s value := by
  intro h
  have hname : ("MQTT_PASSWORD", .string .mqttPassword) ∈ branches := by decide
  have hvalue : StringValue (ascii "pass:word") := ⟨by decide, by decide, by decide⟩
  have htoken := (oneToken_of_roundTrips hname hvalue (h _ _ _ hname hvalue)).1
  exact absurd (htoken.bytes 58 (by decide)).1 (by decide)

end TrackerDemo.Config

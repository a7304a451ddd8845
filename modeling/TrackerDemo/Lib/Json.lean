import Mathlib.Data.List.Basic
import Mathlib.Tactic.Common

/-!
# JSON texts

The JSON grammar on bytes, as derivations. A derivation records the tokens of
the text in order: one for each object, array, string and primitive. A string's
token has the characters between the quotes as they stand in the text. Bytes
from 128 on may stand in a string, so every valid UTF-8 text is covered.

Results:
* `Primitive.bytes`: what a number or literal may consist of.
* `Derives.zero_notMem`: a JSON text has no NUL.
* `derives_objectText`: an object written from a list of members.
-/

namespace TrackerDemo.Json

abbrev Text := List UInt8

/-! ## Blanks, literals, numbers, strings -/

/-- Insignificant white space. -/
def Blank (w : Text) : Prop := ∀ c ∈ w, c = 32 ∨ c = 9 ∨ c = 10 ∨ c = 13

theorem Blank.append {w w' : Text} (h : Blank w) (h' : Blank w') : Blank (w ++ w') := by
  intro c hc
  rcases List.mem_append.1 hc with hmem | hmem
  · exact h c hmem
  · exact h' c hmem

def IsDigit (c : UInt8) : Prop := 48 ≤ c ∧ c ≤ 57

/-- `int`: no leading zeros. -/
def IntPart (t : Text) : Prop :=
  t = [48] ∨ ∃ d ds, t = d :: ds ∧ 49 ≤ d ∧ d ≤ 57 ∧ ∀ c ∈ ds, IsDigit c

/-- `frac`, if there is one. -/
def FracPart (t : Text) : Prop :=
  t = [] ∨ ∃ d ds, t = 46 :: d :: ds ∧ ∀ c ∈ d :: ds, IsDigit c

/-- `exp`, if there is one. -/
def ExpPart (t : Text) : Prop :=
  t = [] ∨ ∃ e sign d ds, t = e :: (sign ++ d :: ds) ∧ (e = 101 ∨ e = 69) ∧
    (sign = [] ∨ sign = [43] ∨ sign = [45]) ∧ ∀ c ∈ d :: ds, IsDigit c

/-- A number. -/
def Number (t : Text) : Prop :=
  ∃ minus int frac exp, t = minus ++ (int ++ (frac ++ exp)) ∧ (minus = [] ∨ minus = [45]) ∧
    IntPart int ∧ FracPart frac ∧ ExpPart exp

/-- `false`, `null`, `true` or a number. -/
def Primitive (t : Text) : Prop :=
  t = [102, 97, 108, 115, 101] ∨ t = [110, 117, 108, 108] ∨ t = [116, 114, 117, 101] ∨ Number t

def IsHexDigit (c : UInt8) : Prop :=
  (48 ≤ c ∧ c ≤ 57) ∨ (65 ≤ c ∧ c ≤ 70) ∨ (97 ≤ c ∧ c ≤ 102)

/-- The characters that may follow a backslash, `u` apart. -/
def IsEscaped (c : UInt8) : Prop :=
  c = 34 ∨ c = 92 ∨ c = 47 ∨ c = 98 ∨ c = 102 ∨ c = 110 ∨ c = 114 ∨ c = 116

/-- What may stand between the quotes of a string. -/
inductive StringBody : Text → Prop
  | nil : StringBody []
  | plain {c : UInt8} {t : Text} (hc : 32 ≤ c) (hq : c ≠ 34) (hb : c ≠ 92) (ht : StringBody t) :
      StringBody (c :: t)
  | escape {c : UInt8} {t : Text} (hc : IsEscaped c) (ht : StringBody t) :
      StringBody (92 :: c :: t)
  | unicode {a b c d : UInt8} {t : Text} (ha : IsHexDigit a) (hb : IsHexDigit b)
      (hc : IsHexDigit c) (hd : IsHexDigit d) (ht : StringBody t) :
      StringBody (92 :: 117 :: a :: b :: c :: d :: t)

/-! ## Values -/

/-- A token of a JSON text. -/
inductive Token
  | object | array
  | string (body : Text)
  | primitive (text : Text)
  deriving DecidableEq

/-- The nonterminals: an element is a value with blanks around it. -/
inductive Nonterminal
  | value | element | elements | member | members

/-- `Derives s t ts`: the text `t` is an `s` with the tokens `ts`. -/
inductive Derives : Nonterminal → Text → List Token → Prop
  | primitive {t : Text} : Primitive t → Derives .value t [.primitive t]
  | string {b : Text} : StringBody b → Derives .value (34 :: (b ++ [34])) [.string b]
  | emptyArray {w : Text} : Blank w → Derives .value (91 :: (w ++ [93])) [.array]
  | array {t : Text} {ts : List Token} :
      Derives .elements t ts → Derives .value (91 :: (t ++ [93])) (.array :: ts)
  | emptyObject {w : Text} : Blank w → Derives .value (123 :: (w ++ [125])) [.object]
  | object {t : Text} {ts : List Token} :
      Derives .members t ts → Derives .value (123 :: (t ++ [125])) (.object :: ts)
  | element {w t w' : Text} {ts : List Token} :
      Blank w → Derives .value t ts → Blank w' → Derives .element (w ++ (t ++ w')) ts
  | oneElement {t : Text} {ts : List Token} : Derives .element t ts → Derives .elements t ts
  | moreElements {t t' : Text} {ts ts' : List Token} :
      Derives .element t ts → Derives .elements t' ts' →
        Derives .elements (t ++ 44 :: t') (ts ++ ts')
  | member {w b w' t : Text} {ts : List Token} :
      Blank w → StringBody b → Blank w' → Derives .element t ts →
        Derives .member (w ++ 34 :: (b ++ 34 :: (w' ++ 58 :: t))) (.string b :: ts)
  | oneMember {t : Text} {ts : List Token} : Derives .member t ts → Derives .members t ts
  | moreMembers {t t' : Text} {ts ts' : List Token} :
      Derives .member t ts → Derives .members t' ts' →
        Derives .members (t ++ 44 :: t') (ts ++ ts')

/-! ## The bytes of a primitive -/

/-- Letters, digits, `+`, `-` and `.`. -/
def IsPrimitiveByte (c : UInt8) : Prop :=
  c = 43 ∨ c = 45 ∨ c = 46 ∨ IsDigit c ∨ (65 ≤ c ∧ c ≤ 90) ∨ (97 ≤ c ∧ c ≤ 122)

theorem IsDigit.primitiveByte {c : UInt8} (h : IsDigit c) : IsPrimitiveByte c :=
  .inr (.inr (.inr (.inl h)))

theorem IntPart.bytes {t : Text} (h : IntPart t) : t ≠ [] ∧ ∀ c ∈ t, IsPrimitiveByte c := by
  rcases h with rfl | ⟨d, ds, rfl, hd, hd', hds⟩
  · refine ⟨by simp, fun c hc => IsDigit.primitiveByte ?_⟩
    rw [List.mem_singleton.1 hc]
    exact ⟨by decide, by decide⟩
  · refine ⟨by simp, fun c hc => IsDigit.primitiveByte ?_⟩
    rcases List.mem_cons.1 hc with rfl | hmem
    · exact ⟨UInt8.le_trans (by decide) hd, hd'⟩
    · exact hds c hmem

theorem FracPart.bytes {t : Text} (h : FracPart t) : ∀ c ∈ t, IsPrimitiveByte c := by
  rcases h with rfl | ⟨d, ds, rfl, hds⟩
  · simp
  · intro c hc
    rcases List.mem_cons.1 hc with rfl | hmem
    · exact .inr (.inr (.inl rfl))
    · exact (hds c hmem).primitiveByte

theorem ExpPart.bytes {t : Text} (h : ExpPart t) : ∀ c ∈ t, IsPrimitiveByte c := by
  rcases h with rfl | ⟨e, sign, d, ds, rfl, he, hsign, hds⟩
  · simp
  · intro c hc
    rcases List.mem_cons.1 hc with rfl | hmem
    · rcases he with rfl | rfl
      · exact .inr (.inr (.inr (.inr (.inr ⟨by decide, by decide⟩))))
      · exact .inr (.inr (.inr (.inr (.inl ⟨by decide, by decide⟩))))
    · rcases List.mem_append.1 hmem with hmem | hmem
      · rcases hsign with rfl | rfl | rfl
        · cases hmem
        · exact .inl (List.mem_singleton.1 hmem)
        · exact .inr (.inl (List.mem_singleton.1 hmem))
      · exact (hds c hmem).primitiveByte

theorem Number.bytes {t : Text} (h : Number t) : t ≠ [] ∧ ∀ c ∈ t, IsPrimitiveByte c := by
  obtain ⟨minus, int, frac, exp, rfl, hminus, hint, hfrac, hexp⟩ := h
  refine ⟨by simp [hint.bytes.1], fun c hc => ?_⟩
  rcases List.mem_append.1 hc with hmem | hmem
  · rcases hminus with rfl | rfl
    · cases hmem
    · exact .inr (.inl (List.mem_singleton.1 hmem))
  rcases List.mem_append.1 hmem with hmem | hmem
  · exact hint.bytes.2 c hmem
  rcases List.mem_append.1 hmem with hmem | hmem
  · exact hfrac.bytes c hmem
  · exact hexp.bytes c hmem

/-- A primitive is not empty, and it has no quote, bracket, separator or
    blank. -/
theorem Primitive.bytes {t : Text} (h : Primitive t) : t ≠ [] ∧ ∀ c ∈ t, IsPrimitiveByte c := by
  have hletters : ∀ t : Text, (∀ c ∈ t, 97 ≤ c ∧ c ≤ 122) → ∀ c ∈ t, IsPrimitiveByte c :=
    fun t ht c hc => .inr (.inr (.inr (.inr (.inr (ht c hc)))))
  rcases h with rfl | rfl | rfl | h
  · exact ⟨by simp, hletters _ (by simp)⟩
  · exact ⟨by simp, hletters _ (by simp)⟩
  · exact ⟨by simp, hletters _ (by simp)⟩
  · exact h.bytes

/-! ## JSON texts have no NUL -/

theorem Blank.zero_notMem {w : Text} (h : Blank w) : 0 ∉ w := by
  intro h0
  have := h 0 h0
  revert this
  decide

theorem Primitive.zero_notMem {t : Text} (h : Primitive t) : 0 ∉ t := by
  intro h0
  have := h.bytes.2 0 h0
  revert this
  unfold IsPrimitiveByte IsDigit
  decide

theorem StringBody.zero_notMem {t : Text} (h : StringBody t) : 0 ∉ t := by
  have hhex : ∀ {c}, IsHexDigit c → (0 : UInt8) ≠ c := by
    rintro c hc rfl
    unfold IsHexDigit at hc
    revert hc
    decide
  induction h with
  | nil => simp
  | plain hc _ _ _ ih =>
    rw [List.mem_cons, not_or]
    refine ⟨?_, ih⟩
    rintro rfl
    exact absurd hc (by decide)
  | escape hc _ ih =>
    simp only [List.mem_cons, not_or]
    refine ⟨by decide, ?_, ih⟩
    rintro rfl
    unfold IsEscaped at hc
    exact absurd hc (by decide)
  | unicode ha hb hc hd _ ih =>
    simp only [List.mem_cons, not_or]
    exact ⟨by decide, by decide, hhex ha, hhex hb, hhex hc, hhex hd, ih⟩

theorem Derives.zero_notMem {s : Nonterminal} {t : Text} {ts : List Token}
    (h : Derives s t ts) : 0 ∉ t := by
  induction h with
  | primitive hp => exact hp.zero_notMem
  | string hb => simpa using hb.zero_notMem
  | emptyArray hw => simpa using hw.zero_notMem
  | array _ ih => simpa using ih
  | emptyObject hw => simpa using hw.zero_notMem
  | object _ ih => simpa using ih
  | element hw _ hw' ih => simp [hw.zero_notMem, hw'.zero_notMem, ih]
  | oneElement _ ih => exact ih
  | moreElements _ _ ih ih' => simp [ih, ih']
  | member hw hb hw' _ ih =>
    simp [hw.zero_notMem, hb.zero_notMem, hw'.zero_notMem, ih]
  | oneMember _ ih => exact ih
  | moreMembers _ _ ih ih' => simp [ih, ih']

/-- A string without escapes. -/
theorem stringBody_of_plain {t : Text} (h : ∀ c ∈ t, 32 ≤ c ∧ c ≠ 34 ∧ c ≠ 92) :
    StringBody t := by
  induction t with
  | nil => exact .nil
  | cons c t ih =>
    obtain ⟨h1, h2, h3⟩ := h c (by simp)
    exact .plain h1 h2 h3 (ih fun c' hc' => h c' (List.mem_cons_of_mem c hc'))

/-! ## Objects as lists of members -/

/-- A member with its text and tokens. -/
structure Member where
  text : Text
  key : Text
  value : List Token

/-- The text is one of a member with that key, whose value has those tokens. -/
def Member.Valid (m : Member) : Prop := Derives .member m.text (.string m.key :: m.value)

/-- The tokens of a member. -/
def Member.tokens (m : Member) : List Token := .string m.key :: m.value

/-- Members separated by commas. -/
def joinMembers : List Member → Text
  | [] => []
  | [m] => m.text
  | m :: ms => m.text ++ 44 :: joinMembers ms

/-- An object with its members, the blanks `w` before it, `e` in it if it has no
    member, and `w'` after it. -/
def objectText (w e w' : Text) (ms : List Member) : Text :=
  w ++ (123 :: ((if ms.isEmpty then e else joinMembers ms) ++ [125]) ++ w')

theorem derives_joinMembers {ms : List Member} (hne : ms ≠ []) (hv : ∀ m ∈ ms, m.Valid) :
    Derives .members (joinMembers ms) (ms.flatMap Member.tokens) := by
  induction ms with
  | nil => exact absurd rfl hne
  | cons m ms ih =>
    have hm : Derives .member m.text m.tokens := hv m (by simp)
    cases ms with
    | nil => simpa [joinMembers] using Derives.oneMember hm
    | cons m' ms =>
      have hms := ih (by simp) fun m'' hm'' => hv m'' (List.mem_cons_of_mem m hm'')
      exact Derives.moreMembers hm hms

/-- An object of valid members is a JSON text, with its members' tokens in
    order. -/
theorem derives_objectText {w e w' : Text} {ms : List Member} (hw : Blank w) (he : Blank e)
    (hw' : Blank w') (hv : ∀ m ∈ ms, m.Valid) :
    Derives .element (objectText w e w' ms) (.object :: ms.flatMap Member.tokens) := by
  unfold objectText
  apply Derives.element hw _ hw'
  cases ms with
  | nil => exact Derives.emptyObject he
  | cons m ms => exact Derives.object (derives_joinMembers (by simp) hv)

/-- A text is an object whose members include one with that key and those value
    tokens. -/
def HasMember (t key : Text) (value : List Token) : Prop :=
  ∃ w e w' ms, Blank w ∧ Blank e ∧ Blank w' ∧ (∀ m ∈ ms, Member.Valid m) ∧
    t = objectText w e w' ms ∧ ∃ m ∈ ms, m.key = key ∧ m.value = value

end TrackerDemo.Json

import TrackerDemo.Lib.CString
import Mathlib.Logic.Function.Basic

/-!
# The jsmn tokenizer

Model of `jsmn.c` and `jsmn.h` as the program builds them: without
`JSMN_STRICT` and `JSMN_PARENT_LINKS`, always on a fresh parser (`jsmn_init`)
and with a token array (the branches for `tokens == NULL` are left out). The
array keeps its old contents between calls, so it is an argument and part of
the result.

* `js` is the text up to its length `len`: every index the code reads is below
  `len`.
* `toksuper == -1` is `none`.
* Both signed and unsigned `char` give the same tests: the bytes from 127 on are
  rejected as `< 32` or as `>= 127`.
* A call that returns an error leaves the tokens allocated so far in the array.
-/

namespace TrackerDemo.Jsmn

open TrackerDemo.CString

/-- `jsmntype_t`. -/
inductive JsmnType
  | undefined | object | array | string | primitive
  deriving DecidableEq, Repr

/-- `enum jsmnerr`. -/
inductive JsmnErr
  | nomem | inval | part
  deriving DecidableEq, Repr

/-- `jsmntok_t`; `stop` is the field `end`. -/
structure JsmnTok where
  type : JsmnType
  start : ℤ
  stop : ℤ
  size : ℤ
  deriving DecidableEq, Repr

/-- A token array. -/
abbrev Tokens := ℕ → JsmnTok

/-- A zeroed array: `JSMN_UNDEFINED` is 0. -/
def zeroTokens : Tokens := fun _ => ⟨.undefined, 0, 0, 0⟩

/-- `jsmn_parser`, with the array it fills. -/
structure JsmnState where
  pos : ℕ
  toknext : ℕ
  toksuper : Option ℕ
  tokens : Tokens

/-- `jsmn_init`. -/
def jsmnInit (tokens : Tokens) : JsmnState := ⟨0, 0, none, tokens⟩

/-! ## Allocating and filling tokens -/

/-- `jsmn_alloc_token` (lines 6–19): the index of the new token. Its type is not
    reset. -/
def jsmnAllocToken (numTokens : ℕ) (st : JsmnState) : Option (ℕ × JsmnState) :=
  if st.toknext ≥ numTokens then none
  else
    some (st.toknext,
      { st with
        toknext := st.toknext + 1
        tokens := Function.update st.tokens st.toknext
          { st.tokens st.toknext with start := -1, stop := -1, size := 0 } })

/-- `jsmn_fill_token` (lines 24–30). -/
def jsmnFillToken (tokens : Tokens) (i : ℕ) (type : JsmnType) (start stop : ℕ) : Tokens :=
  Function.update tokens i ⟨type, start, stop, 0⟩

/-- `tokens[parser->toksuper].size++`, when there is a superior token. -/
def bumpSuper (st : JsmnState) : JsmnState :=
  match st.toksuper with
  | none => st
  | some k =>
    { st with
      tokens := Function.update st.tokens k
        { st.tokens k with size := (st.tokens k).size + 1 } }

/-- `token->start != -1 && token->end == -1`: an object or array not closed
    yet. -/
def JsmnTok.Unclosed (t : JsmnTok) : Prop := t.start ≠ -1 ∧ t.stop = -1

instance (t : JsmnTok) : Decidable t.Unclosed := inferInstanceAs (Decidable (_ ∧ _))

/-- The loop `for (i = n - 1; i >= 0; i--)` that stops at the first token with
    `p`. -/
def lastToken (p : JsmnTok → Prop) [DecidablePred p] (tokens : Tokens) : ℕ → Option ℕ
  | 0 => none
  | n + 1 => if p (tokens n) then some n else lastToken p tokens n

/-! ## Primitives and strings -/

/-- `'\t'`, `'\r'`, `'\n'`, `' '`. -/
def isBlank (c : Byte) : Bool := c = 9 ∨ c = 13 ∨ c = 10 ∨ c = 32

/-- The characters that end a primitive. -/
def endsPrimitive (c : Byte) : Bool := c = 58 ∨ isBlank c ∨ c = 44 ∨ c = 93 ∨ c = 125

/-- `c < 32 || c >= 127`. -/
def outsidePrimitive (c : Byte) : Bool := c < 32 ∨ 127 ≤ c

/-- The loop of `jsmn_parse_primitive` (lines 42–55) on the text from `pos` on:
    the position after the primitive, `none` at an invalid character. -/
def primitiveScan : Bytes → ℕ → Option ℕ
  | [], pos => some pos
  | c :: rest, pos =>
    if c = 0 then some pos
    else if endsPrimitive c then some pos
    else if outsidePrimitive c then none
    else primitiveScan rest (pos + 1)

/-- `jsmn_parse_primitive` (lines 35–79). -/
def jsmnParsePrimitive (js : Bytes) (numTokens : ℕ) (st : JsmnState) :
    Except JsmnErr JsmnState :=
  match primitiveScan (js.drop st.pos) st.pos with
  | none => .error .inval
  | some pos =>
    match jsmnAllocToken numTokens st with
    | none => .error .nomem
    | some (i, st') =>
      .ok { st' with
        tokens := jsmnFillToken st'.tokens i .primitive st.pos pos
        pos := pos - 1 }

/-- The characters that may follow a backslash, `u` apart. -/
def isSimpleEscape (c : Byte) : Bool :=
  c = 34 ∨ c = 47 ∨ c = 92 ∨ c = 98 ∨ c = 102 ∨ c = 114 ∨ c = 110 ∨ c = 116

/-- A hexadecimal digit. -/
def isHex (c : Byte) : Bool := (48 ≤ c ∧ c ≤ 57) ∨ (65 ≤ c ∧ c ≤ 70) ∨ (97 ≤ c ∧ c ≤ 102)

/-- The loop of `jsmn_parse_string` (lines 94–143) on the text from `pos` on:
    the position of the closing quote. `hex` counts the digits of a `\u` escape
    that the inner loop may still read. -/
def stringScan : ℕ → Bytes → ℕ → Except JsmnErr ℕ
  | _, [], _ => .error .part
  | hex + 1, c :: rest, pos =>
    if c = 0 then .error .part
    else if isHex c then stringScan hex rest (pos + 1)
    else .error .inval
  | 0, c :: rest, pos =>
    if c = 0 then .error .part
    else if c = 34 then .ok pos
    else if c = 92 then
      match rest with
      | [] => .error .part
      | e :: rest =>
        if isSimpleEscape e then stringScan 0 rest (pos + 2)
        else if e = 117 then stringScan 4 rest (pos + 2)
        else .error .inval
    else stringScan 0 rest (pos + 1)

/-- `jsmn_parse_string` (lines 84–146). -/
def jsmnParseString (js : Bytes) (numTokens : ℕ) (st : JsmnState) : Except JsmnErr JsmnState :=
  match stringScan 0 (js.drop (st.pos + 1)) (st.pos + 1) with
  | .error e => .error e
  | .ok pos =>
    match jsmnAllocToken numTokens st with
    | none => .error .nomem
    | some (i, st') =>
      .ok { st' with
        tokens := jsmnFillToken st'.tokens i .string (st.pos + 1) pos
        pos := pos }

/-! ## The main loop -/

/-- `case '{': case '['` (lines 164–181). -/
def openContainer (type : JsmnType) (numTokens : ℕ) (st : JsmnState) :
    Except JsmnErr JsmnState :=
  match jsmnAllocToken numTokens st with
  | none => .error .nomem
  | some (i, st') =>
    let st' := bumpSuper st'
    .ok { st' with
      tokens := Function.update st'.tokens i
        { st'.tokens i with type := type, start := st'.pos }
      toksuper := some (st'.toknext - 1) }

/-- `case '}': case ']'` (lines 182–230): close the last unclosed token, then
    find the one around it. -/
def closeContainer (type : JsmnType) (st : JsmnState) : Except JsmnErr JsmnState :=
  match lastToken JsmnTok.Unclosed st.tokens st.toknext with
  | none => .error .inval
  | some i =>
    if (st.tokens i).type ≠ type then .error .inval
    else
      let tokens := Function.update st.tokens i { st.tokens i with stop := st.pos + 1 }
      .ok { st with
        tokens := tokens
        toksuper := lastToken JsmnTok.Unclosed tokens (i + 1) }

/-- `case ','` (lines 242–258). -/
def afterComma (st : JsmnState) : JsmnState :=
  match st.toksuper with
  | none => st
  | some k =>
    if (st.tokens k).type ≠ .array ∧ (st.tokens k).type ≠ .object then
      match lastToken (fun t => (t.type = .array ∨ t.type = .object) ∧ t.Unclosed)
          st.tokens st.toknext with
      | none => st
      | some i => { st with toksuper := some i }
    else st

/-- The `switch (c)` of `jsmn_parse` (lines 163–289), with `count`. -/
def jsmnSwitch (js : Bytes) (numTokens : ℕ) (c : Byte) (st : JsmnState) (count : ℕ) :
    Except JsmnErr (JsmnState × ℕ) :=
  if c = 123 then return (← openContainer .object numTokens st, count + 1)
  else if c = 91 then return (← openContainer .array numTokens st, count + 1)
  else if c = 125 then return (← closeContainer .object st, count)
  else if c = 93 then return (← closeContainer .array st, count)
  else if c = 34 then return (bumpSuper (← jsmnParseString js numTokens st), count + 1)
  else if isBlank c then return (st, count)
  else if c = 58 then
    return ({ st with toksuper := if st.toknext = 0 then none else some (st.toknext - 1) }, count)
  else if c = 44 then return (afterComma st, count)
  else return (bumpSuper (← jsmnParsePrimitive js numTokens st), count + 1)

/-- The end of `jsmn_parse` (lines 292–301): an unclosed token is an error. -/
def jsmnFinish (st : JsmnState) (count : ℕ) : Except JsmnErr ℕ × Tokens :=
  if (lastToken JsmnTok.Unclosed st.tokens st.toknext).isSome then (.error .part, st.tokens)
  else (.ok count, st.tokens)

/-- The loop of `jsmn_parse` (lines 158–290). Every iteration advances `pos`, so
    `js.length` iterations reach the end of the text. -/
def jsmnParseLoop (js : Bytes) (numTokens : ℕ) : ℕ → JsmnState → ℕ → Except JsmnErr ℕ × Tokens
  | 0, st, count => jsmnFinish st count
  | fuel + 1, st, count =>
    match js[st.pos]? with
    | none => jsmnFinish st count
    | some c =>
      if c = 0 then jsmnFinish st count
      else
        match jsmnSwitch js numTokens c st count with
        | .error e => (.error e, st.tokens)
        | .ok (st', count') =>
          jsmnParseLoop js numTokens fuel { st' with pos := st'.pos + 1 } count'

/-- `jsmn_parse` on a fresh parser (lines 151–303): what it returns, and the
    token array afterwards. -/
def jsmnParse (js : Bytes) (numTokens : ℕ) (tokens : Tokens) : Except JsmnErr ℕ × Tokens :=
  jsmnParseLoop js numTokens js.length (jsmnInit tokens) 0

end TrackerDemo.Jsmn

import Mathlib.Tactic.NormNum
import Mathlib.Tactic.Positivity
import TrackerDemo.Lib.Decimal

/-!
# The A/D inputs

Model of `AtoD_read` (`hw/BBGW/GPIO/GPIO.c`, lines 162–193) on the target. The
array `AnalogStr` is not initialised: it has what the stack had there, and
`atoi` reads on into the stack behind it until it finds a byte that is no digit.

Results:
* `analogPinFilePath_inj`: each input has a file of its own.
* `atodRead_of_code`: a raw code is converted to volts whatever was on the stack.
* `atodRead_of_unread`: without a read the bytes on the stack are converted.
* `atodRead_documented_iff`: the function returns what its header says iff the
  input was read, or the stack had the text of -2275.
-/

namespace TrackerDemo.Hw

open TrackerDemo.CString

/-! ## Reading an input -/

/-- `MAX_A2D_VALUE`. -/
def maxA2dValue : ℕ := 4095

/-- `MAX_A2D_VOLTAGE`. -/
def maxA2dVoltage : ℚ := 1.8

/-- `MAX_A2D_STRING_LENGTH`. -/
def maxA2dStringLength : ℕ := 10

/-- `MAX_SYSTEM_FILEPATH` (`GPIO.h`, line 43). -/
def maxSystemFilepath : ℕ := 256

/-- What `open` and `read` do on a file: `open` fails, `read` returns -1, or
    `read` finds these bytes. -/
inductive FileRead
  | notOpened
  | failed
  | bytes (data : Bytes)
  deriving DecidableEq

/-- The path of line 176. -/
def analogPinFilePath (a2dInput : ℕ) : Bytes :=
  snprintf maxSystemFilepath
    (ascii "/sys/bus/iio/devices/iio:device0/in_voltage" ++ formatInt (toInt a2dInput) ++
      ascii "_raw")

/-- The path has room in its buffer. -/
theorem analogPinFilePath_eq {a2dInput : ℕ} (h : a2dInput < 2 ^ 32) :
    analogPinFilePath a2dInput =
      ascii "/sys/bus/iio/devices/iio:device0/in_voltage" ++ formatInt (toInt a2dInput) ++
        ascii "_raw" := by
  have hlen := length_formatInt_toInt_le h
  have hstart : (ascii "/sys/bus/iio/devices/iio:device0/in_voltage").length = 43 := by decide
  have hend : (ascii "_raw").length = 4 := by decide
  refine snprintf_eq_self ?_
  unfold maxSystemFilepath
  rw [List.length_append, List.length_append]
  omega

/-- Different inputs have different files. -/
theorem analogPinFilePath_inj {a b : ℕ} (ha : a < 2 ^ 32) (hb : b < 2 ^ 32)
    (h : analogPinFilePath a = analogPinFilePath b) : a = b := by
  rw [analogPinFilePath_eq ha, analogPinFilePath_eq hb] at h
  exact toInt_inj ha hb (formatInt_injective
    (List.append_cancel_left (List.append_cancel_right h)))

/-- `AnalogStr` and the stack behind it after `read(…, AnalogStr, 10)`. -/
def readInto (file : FileRead) (analogStr : Bytes) : Bytes :=
  match file with
  | .notOpened => analogStr
  | .failed => analogStr
  | .bytes data =>
    let data := data.take maxA2dStringLength
    data ++ analogStr.drop data.length

/-- Line 190. -/
def analogValue (analogStr : Bytes) : ℚ :=
  (atoi (cString analogStr) : ℚ) / maxA2dValue * maxA2dVoltage

/-- `AtoD_read`. `files` is the file system, and `analogStr` the stack from
    `AnalogStr` on. -/
def atodRead (files : Bytes → FileRead) (a2dInput : ℕ) (analogStr : Bytes) : ℚ :=
  analogValue (readInto (files (analogPinFilePath a2dInput)) analogStr)

/-! ## What it should return -/

/-- The outcomes of an access, with the raw code if there is one: a code is
    printed in decimal, with a newline. -/
inductive Outcome : FileRead → Option ℕ → Prop
  | notOpened : Outcome .notOpened none
  | failed : Outcome .failed none
  | endOfFile : Outcome (.bytes []) none
  | code {raw : ℕ} (h : raw ≤ maxA2dValue) : Outcome (.bytes (decimal raw ++ [10])) (some raw)

/-- The voltage of a raw code. -/
def voltsOf (raw : ℕ) : ℚ := (raw : ℚ) / maxA2dValue * maxA2dVoltage

/-- The read value, or -1.0 if we couldn't read the value (`GPIO.h`, line 148). -/
def documentedValue : Option ℕ → ℚ
  | none => -1
  | some raw => voltsOf raw

/-- A voltage is in the range of the converter. -/
theorem voltsOf_mem {raw : ℕ} (h : raw ≤ maxA2dValue) : 0 ≤ voltsOf raw ∧ voltsOf raw ≤ 1.8 := by
  have hraw : (raw : ℚ) ≤ 4095 := by exact_mod_cast h
  unfold voltsOf maxA2dValue maxA2dVoltage
  constructor
  · positivity
  · norm_num
    linarith

/-! ## What it returns -/

section

variable {files : Bytes → FileRead} {a2dInput : ℕ} {analogStr : Bytes}

/-- A read code is converted, whatever was on the stack. -/
theorem atodRead_of_code {raw : ℕ} (hraw : raw ≤ maxA2dValue)
    (h : files (analogPinFilePath a2dInput) = .bytes (decimal raw ++ [10])) :
    atodRead files a2dInput analogStr = voltsOf raw := by
  have hlen : (decimal raw).length ≤ 4 :=
    length_decimal_le (by omega) (by unfold maxA2dValue at hraw; omega)
  have hfits : (decimal raw ++ [10]).take maxA2dStringLength = decimal raw ++ [10] :=
    List.take_of_length_le (by unfold maxA2dStringLength; simp; omega)
  have hdigits : (0 : Byte) ∉ decimal raw ++ [10] := by
    intro hmem
    rcases List.mem_append.1 hmem with hmem | hmem
    · exact absurd (isDigit_decimal raw 0 hmem) (by decide)
    · exact absurd (List.mem_singleton.1 hmem) (by decide)
  have hformat : decimal raw = formatInt raw := by
    unfold formatInt
    rw [if_neg (by omega), Int.natAbs_natCast]
  have hatoi : ∀ rest, atoi (decimal raw ++ 10 :: rest) = raw := by
    intro rest
    rw [hformat]
    unfold maxA2dValue at hraw
    refine atoi_formatInt (by omega) (by omega) ?_
    rintro c ⟨⟩
    rfl
  unfold atodRead readInto analogValue
  rw [h]
  dsimp only
  rw [hfits, cString_append hdigits, List.append_assoc, List.singleton_append, hatoi]
  rfl

/-- Without a read, the bytes on the stack are converted. -/
theorem atodRead_of_unread (h : Outcome (files (analogPinFilePath a2dInput)) none) :
    atodRead files a2dInput analogStr = analogValue analogStr := by
  unfold atodRead readInto
  generalize files (analogPinFilePath a2dInput) = file at h
  cases h with
  | notOpened => rfl
  | failed => rfl
  | endOfFile => rfl

/-- The text of -2275 converts to -1.0. -/
theorem analogValue_eq_neg_one_iff :
    analogValue analogStr = -1 ↔ atoi (cString analogStr) = -2275 := by
  unfold analogValue maxA2dValue maxA2dVoltage
  generalize atoi (cString analogStr) = v
  constructor
  · intro h
    have hv : (v : ℚ) = -2275 := by
      push_cast at h
      linarith
    exact_mod_cast hv
  · rintro rfl
    norm_num

/-- **Reading an input.** The function returns the documented value iff the
    input was read, or the stack happens to have the text of -2275; it returns
    it for all stacks iff the input was read. The value is then in range. -/
theorem atodRead_documented_iff {raw : Option ℕ}
    (h : Outcome (files (analogPinFilePath a2dInput)) raw) :
    (∀ analogStr, atodRead files a2dInput analogStr = documentedValue raw ↔
      raw.isSome ∨ atoi (cString analogStr) = -2275) ∧
    ((∀ analogStr, atodRead files a2dInput analogStr = documentedValue raw) ↔ raw.isSome) ∧
    ∀ code ∈ raw, 0 ≤ voltsOf code ∧ voltsOf code ≤ 1.8 := by
  have hvalue : ∀ analogStr, atodRead files a2dInput analogStr = documentedValue raw ↔
      raw.isSome ∨ atoi (cString analogStr) = -2275 := by
    intro analogStr
    cases raw with
    | none =>
      rw [atodRead_of_unread h, documentedValue, analogValue_eq_neg_one_iff]
      simp
    | some raw =>
      have hread : atodRead files a2dInput analogStr = voltsOf raw := by
        generalize hfile : files (analogPinFilePath a2dInput) = file at h
        cases h with
        | code hraw => exact atodRead_of_code hraw hfile
      exact iff_of_true hread (.inl rfl)
  refine ⟨hvalue, ⟨?_, ?_⟩, ?_⟩
  · intro hall
    -- an empty string on the stack is read as 0
    exact ((hvalue []).1 (hall [])).resolve_right (by decide)
  · exact fun hsome analogStr => (hvalue analogStr).2 (.inl hsome)
  · rintro code hcode
    obtain rfl : raw = some code := hcode
    generalize files (analogPinFilePath a2dInput) = file at h
    cases h with
    | code hraw => exact voltsOf_mem hraw

/-- `atodRead_documented_iff` for an input at half of its range. -/
theorem atodRead_documented_iff_half :
    atodRead (fun _ => .bytes (decimal 2048 ++ [10])) 3 (ascii "4095") = voltsOf 2048 :=
  (@atodRead_documented_iff (fun _ => .bytes (decimal 2048 ++ [10])) 3 (some 2048)
    (.code (by decide))).2.1.2 rfl (ascii "4095")

end

/-- With no input file the function returns what the last call left on the stack:
    here a reading of full scale. -/
theorem missingInput_fullScale :
    Outcome .notOpened none ∧
      atodRead (fun _ => .notOpened) 0 (ascii "4095\n" ++ List.replicate 5 0) = 1.8 ∧
      ¬∀ (files : Bytes → FileRead) (a2dInput : ℕ) (raw : Option ℕ) (analogStr : Bytes),
        Outcome (files (analogPinFilePath a2dInput)) raw →
          atodRead files a2dInput analogStr = documentedValue raw := by
  have hvalue : atodRead (fun _ => .notOpened) 0 (ascii "4095\n" ++ List.replicate 5 0) = 1.8 := by
    decide +kernel
  refine ⟨.notOpened, hvalue, fun h => ?_⟩
  have hdoc := h (fun _ => .notOpened) 0 none (ascii "4095\n" ++ List.replicate 5 0) .notOpened
  rw [hvalue] at hdoc
  norm_num [documentedValue] at hdoc

end TrackerDemo.Hw

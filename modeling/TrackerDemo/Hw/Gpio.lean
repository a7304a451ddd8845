import TrackerDemo.Lib.Decimal
import TrackerDemo.Lib.Transition
import TrackerDemo.Stow.FailedReads

/-!
# The discrete I/O driver

Model of `DiscreteIO_init`, `DiscreteIO_write` and `DiscreteIO_read`
(`hw/BBGW/GPIO/GPIO.c`, lines 39–143) on the sysfs files of the GPIO pins. A pin
has its direction and value files while it is exported. `DiscreteIO_init` puts
`in` or `out` in a buffer and writes the string literal `"systemMsg"` instead.

Results:
* `GPIOFile.path_injective`: different files have different paths.
* `gpioCall_pin`: what a call does to every pin.
* `gpioRun_pin`: what any sequence of calls does to a pin.
* `gpioReadBack_iff`: an output reads back what was written iff it was an output
  before, or has that level anyway.
-/

namespace TrackerDemo.Hw

open TrackerDemo.CString TrackerDemo.Stow TrackerDemo.Transition

/-! ## The files of the pins -/

/-- `GPIO_Direction`. -/
inductive GPIODirection
  | input | output
  deriving DecidableEq, Repr

/-- A pin: whether it is exported, its direction, and its level. -/
structure GPIOPin where
  exported : Bool
  direction : GPIODirection
  value : GPIOState
  deriving DecidableEq, Repr

/-- `/sys/class/gpio`: whether its export file can be opened, and the pins that
    exist, by number. -/
structure GPIOSysfs where
  available : Bool
  pins : ℤ → Option GPIOPin

/-- The files that the driver opens. -/
inductive GPIOFile
  | exportFile
  | direction (number : ℤ)
  | value (number : ℤ)
  deriving DecidableEq, Repr

def GPIOFile.path : GPIOFile → Bytes
  | .exportFile => ascii "/sys/class/gpio/export"
  | .direction number => ascii "/sys/class/gpio/gpio" ++ formatInt number ++ ascii "/direction"
  | .value number => ascii "/sys/class/gpio/gpio" ++ formatInt number ++ ascii "/value"

/-- Whether a file can be opened. -/
def GPIOSysfs.opens (s : GPIOSysfs) : GPIOFile → Bool
  | .exportFile => s.available
  | .direction number | .value number => (s.pins number).any GPIOPin.exported

/-- Change a pin, if it exists. -/
def GPIOSysfs.modify (s : GPIOSysfs) (number : ℤ) (f : GPIOPin → GPIOPin) : GPIOSysfs :=
  { s with pins := Function.update s.pins number ((s.pins number).map f) }

/-- What bytes in the direction file do. -/
def GPIOPin.writeDirection (bytes : Bytes) (q : GPIOPin) : GPIOPin :=
  if bytes = ascii "in" then { q with direction := .input }
  else if bytes = ascii "out" then { q with direction := .output }
  else q

/-- What bytes in the value file do: only an output takes a value. -/
def GPIOPin.writeValue (bytes : Bytes) (q : GPIOPin) : GPIOPin :=
  if q.direction = .output then
    { q with value := if bytes = ascii "0" then .low else .high }
  else q

/-- Bytes written to a file. -/
def GPIOSysfs.write (s : GPIOSysfs) (bytes : Bytes) : GPIOFile → GPIOSysfs
  | .exportFile => s.modify (atoi bytes) fun q => { q with exported := true }
  | .direction number => s.modify number (GPIOPin.writeDirection bytes)
  | .value number => s.modify number (GPIOPin.writeValue bytes)

/-- The value file, if it can be opened: `0` or `1`. -/
def GPIOSysfs.readValue (s : GPIOSysfs) (number : ℤ) : ValueRead :=
  if s.opens (.value number) then
    match s.pins number with
    | none => .notRead
    | some q => .byte (if q.value = .low then 48 else 49)
  else .notOpened

/-! ## The functions of the driver -/

/-- `MAX_SYSTEM_MSG_SIZE`. -/
def maxSystemMsgSize : ℕ := 1024

/-- The number of a pin in a path: `%d` of an `unsigned int`. -/
def pathNumber (pinNumber : UInt32) : ℤ := toInt pinNumber.toNat

/-- The bytes of `fwrite("systemMsg", 1, MAX_SYSTEM_MSG_SIZE, …)`: the literal,
    its NUL, and the memory behind it. -/
def literalBytes (behind : Bytes) : Bytes :=
  (ascii "systemMsg" ++ 0 :: behind).take maxSystemMsgSize

/-- `DiscreteIO_init` (lines 39–81). -/
def discreteIOInit (behind : Bytes) (pinNumber : UInt32) (direction : GPIODirection)
    (s : GPIOSysfs) : GPIOSysfs :=
  if s.opens .exportFile then
    let systemMsg := snprintf maxSystemMsgSize (formatInt (pathNumber pinNumber))
    let s := s.write systemMsg .exportFile
    if s.opens (.direction (pathNumber pinNumber)) then
      -- the text put in the buffer here is not what is written
      let _systemMsg := if direction = .input then ascii "in" else ascii "out"
      s.write (literalBytes behind) (.direction (pathNumber pinNumber))
    else s
  else s

/-- `DiscreteIO_write` (lines 83–106). -/
def discreteIOWrite (pinNumber : UInt32) (pinState : GPIOState) (s : GPIOSysfs) : GPIOSysfs :=
  if s.opens (.value (pathNumber pinNumber)) then
    s.write (if pinState = .low then ascii "0" else ascii "1") (.value (pathNumber pinNumber))
  else s

/-- `DiscreteIO_read` of a pin. -/
def discreteIOReadPin (pinNumber : UInt32) (s : GPIOSysfs) : GPIOState :=
  discreteIORead (s.readValue (pathNumber pinNumber))

/-- The calls of the driver's interface. -/
inductive GPIOCall
  | init (direction : GPIODirection)
  | write (pinState : GPIOState)
  | read
  deriving DecidableEq, Repr

/-- The files after a call. -/
def gpioCall (behind : Bytes) (pinNumber : UInt32) (s : GPIOSysfs) : GPIOCall → GPIOSysfs
  | .init direction => discreteIOInit behind pinNumber direction s
  | .write pinState => discreteIOWrite pinNumber pinState s
  | .read => s

/-- The driver as a transition system; its labels are a pin and a call. -/
def gpioStep (behind : Bytes) (s : GPIOSysfs) (l : UInt32 × GPIOCall) (s' : GPIOSysfs) : Prop :=
  gpioCall behind l.1 s l.2 = s'

/-! ## Paths and numbers -/

theorem pathNumber_injective : Function.Injective pathNumber := by
  intro p q h
  exact UInt32.toNat_inj.1 (toInt_inj p.toNat_lt q.toNat_lt h)

/-- Different files of the model are different files of the system. -/
theorem GPIOFile.path_injective : Function.Injective GPIOFile.path := by
  have hexport : ∀ rest, ascii "/sys/class/gpio/export" ≠ ascii "/sys/class/gpio/gpio" ++ rest := by
    intro rest h
    have hat := congrArg (fun l : Bytes => l[16]?) h
    rw [List.getElem?_append_left (by decide)] at hat
    exact absurd hat (by decide)
  have hend : ∀ a b : Bytes, a ++ ascii "/direction" ≠ b ++ ascii "/value" := by
    intro a b h
    have hlast := congrArg List.getLast? h
    rw [List.getLast?_append_of_ne_nil _ (by decide), List.getLast?_append_of_ne_nil _ (by decide)]
      at hlast
    exact absurd hlast (by decide)
  have hnumber : ∀ {n m : ℤ} {file : Bytes},
      ascii "/sys/class/gpio/gpio" ++ formatInt n ++ file =
        ascii "/sys/class/gpio/gpio" ++ formatInt m ++ file → n = m :=
    fun h => formatInt_injective (List.append_cancel_left (List.append_cancel_right h))
  intro f g h
  cases f with
  | exportFile =>
    cases g with
    | exportFile => rfl
    | direction m => exact absurd (h.trans (List.append_assoc ..)) (hexport _)
    | value m => exact absurd (h.trans (List.append_assoc ..)) (hexport _)
  | direction n =>
    cases g with
    | exportFile => exact absurd (h.symm.trans (List.append_assoc ..)) (hexport _)
    | direction m => rw [hnumber h]
    | value m => exact absurd h (hend _ _)
  | value n =>
    cases g with
    | exportFile => exact absurd (h.symm.trans (List.append_assoc ..)) (hexport _)
    | direction m => exact absurd h.symm (hend _ _)
    | value m => rw [hnumber h]

/-! ## What a call does -/

/-- A printed pin number has room in its buffer, and is the number exported. -/
theorem write_export (s : GPIOSysfs) (pinNumber : UInt32) :
    s.write (snprintf maxSystemMsgSize (formatInt (pathNumber pinNumber))) .exportFile =
      s.modify (pathNumber pinNumber) fun q => { q with exported := true } := by
  have hlen := length_formatInt_toInt_le pinNumber.toNat_lt
  have hfits : snprintf maxSystemMsgSize (formatInt (pathNumber pinNumber)) =
      formatInt (pathNumber pinNumber) := by
    refine snprintf_eq_self ?_
    unfold maxSystemMsgSize pathNumber
    omega
  obtain ⟨hmin, hmax⟩ := toInt_bounds pinNumber.toNat_lt
  have hatoi : atoi (formatInt (toInt pinNumber.toNat) ++ []) = toInt pinNumber.toNat :=
    atoi_formatInt hmin hmax (by simp [EndsNumber])
  rw [List.append_nil] at hatoi
  rw [hfits]
  unfold GPIOSysfs.write
  unfold pathNumber
  rw [hatoi]

/-- The literal is neither `in` nor `out`. -/
theorem writeDirection_literalBytes (behind : Bytes) :
    GPIOPin.writeDirection (literalBytes behind) = id := by
  have hne : ∀ text : Bytes, text.head? ≠ some 115 → literalBytes behind ≠ text := by
    intro text htext heq
    rw [← heq] at htext
    exact htext rfl
  funext q
  unfold GPIOPin.writeDirection
  rw [if_neg (hne _ (by decide)), if_neg (hne _ (by decide))]
  rfl

/-- What a call does to its pin. -/
def GPIOPin.after (available : Bool) (q : GPIOPin) : GPIOCall → GPIOPin
  | .init _ => { q with exported := q.exported || available }
  | .write v => if q.exported = true ∧ q.direction = .output then { q with value := v } else q
  | .read => q

@[simp] theorem modify_available (s : GPIOSysfs) (number : ℤ) (f : GPIOPin → GPIOPin) :
    (s.modify number f).available = s.available := rfl

theorem modify_pins (s : GPIOSysfs) (number n : ℤ) (f : GPIOPin → GPIOPin) :
    (s.modify number f).pins n = if n = number then (s.pins n).map f else s.pins n := by
  unfold GPIOSysfs.modify
  by_cases h : n = number
  · subst h
    simp
  · simp [h]

theorem modify_id (s : GPIOSysfs) (number : ℤ) : s.modify number id = s := by
  unfold GPIOSysfs.modify
  rw [Option.map_id, id, Function.update_eq_self]

/-- `DiscreteIO_init` exports the pin, and does nothing else. -/
theorem discreteIOInit_eq (behind : Bytes) (pinNumber : UInt32) (direction : GPIODirection)
    (s : GPIOSysfs) :
    discreteIOInit behind pinNumber direction s =
      if s.available then
        s.modify (pathNumber pinNumber) fun q => { q with exported := true }
      else s := by
  unfold discreteIOInit
  dsimp only
  rw [write_export]
  have hdirection : ∀ t : GPIOSysfs,
      t.write (literalBytes behind) (.direction (pathNumber pinNumber)) = t := by
    intro t
    unfold GPIOSysfs.write
    dsimp only
    rw [writeDirection_literalBytes, modify_id]
  rw [hdirection, ite_self]
  rfl

/-- The byte of a level. -/
theorem writeValue_level (v : GPIOState) (q : GPIOPin) :
    q.writeValue (if v = .low then ascii "0" else ascii "1") =
      if q.direction = .output then { q with value := v } else q := by
  unfold GPIOPin.writeValue
  cases v <;> rfl

/-- `DiscreteIO_write` sets the level of an exported output. -/
theorem discreteIOWrite_eq (pinNumber : UInt32) (v : GPIOState) (s : GPIOSysfs) :
    discreteIOWrite pinNumber v s =
      s.modify (pathNumber pinNumber) fun q => q.after s.available (.write v) := by
  have hsame : ∀ f : GPIOPin → GPIOPin, (∀ q ∈ s.pins (pathNumber pinNumber), f q = q) →
      s.modify (pathNumber pinNumber) f = s := by
    intro f hf
    conv_rhs => rw [← modify_id s (pathNumber pinNumber)]
    unfold GPIOSysfs.modify
    rw [Option.map_congr hf]
    rfl
  unfold discreteIOWrite GPIOSysfs.opens
  by_cases hopen : (s.pins (pathNumber pinNumber)).any GPIOPin.exported = true
  · rw [if_pos hopen]
    have hpin : (s.pins (pathNumber pinNumber)).map
          (GPIOPin.writeValue (if v = .low then ascii "0" else ascii "1")) =
        (s.pins (pathNumber pinNumber)).map fun q => q.after s.available (.write v) := by
      refine Option.map_congr fun q hq => ?_
      rw [hq, Option.any_some] at hopen
      rw [writeValue_level]
      simp [GPIOPin.after, hopen]
    unfold GPIOSysfs.write GPIOSysfs.modify
    dsimp only
    rw [hpin]
  · rw [if_neg hopen, hsame]
    intro q hq
    rw [hq, Option.any_some] at hopen
    simp [GPIOPin.after, hopen]

/-- **One call.** The other pins are left alone. -/
theorem gpioCall_pin (behind : Bytes) (pinNumber : UInt32) (s : GPIOSysfs) (c : GPIOCall)
    (q : UInt32) :
    (gpioCall behind pinNumber s c).pins (pathNumber q) =
      if q = pinNumber then (s.pins (pathNumber q)).map fun r => r.after s.available c
      else s.pins (pathNumber q) := by
  have hiff : pathNumber q = pathNumber pinNumber ↔ q = pinNumber := pathNumber_injective.eq_iff
  cases c with
  | init direction =>
    show (discreteIOInit behind pinNumber direction s).pins _ = _
    rw [discreteIOInit_eq]
    cases ha : s.available with
    | true => simp [modify_pins, hiff, GPIOPin.after]
    | false => simp [GPIOPin.after]
  | write v =>
    show (discreteIOWrite pinNumber v s).pins _ = _
    rw [discreteIOWrite_eq, modify_pins]
    simp only [hiff]
  | read =>
    show s.pins _ = _
    simp [GPIOPin.after]

theorem gpioCall_available (behind : Bytes) (pinNumber : UInt32) (s : GPIOSysfs) (c : GPIOCall) :
    (gpioCall behind pinNumber s c).available = s.available := by
  cases c with
  | init direction =>
    show (discreteIOInit behind pinNumber direction s).available = _
    rw [discreteIOInit_eq]
    split_ifs <;> rfl
  | write v =>
    show (discreteIOWrite pinNumber v s).available = _
    rw [discreteIOWrite_eq]
    rfl
  | read => rfl

/-! ## Sequences of calls -/

/-- The state that a call writes to the pin, if any. -/
def writtenBy (pinNumber : UInt32) : UInt32 × GPIOCall → Option GPIOState
  | (p, .write v) => if p = pinNumber then some v else none
  | (_, .init _) | (_, .read) => none

/-- The state that the last `DiscreteIO_write` on the pin wrote. -/
def lastWritten (pinNumber : UInt32) : List (UInt32 × GPIOCall) → Option GPIOState
  | [] => none
  | l :: ls => (lastWritten pinNumber ls).or (writtenBy pinNumber l)

theorem lastWritten_concat (pinNumber : UInt32) (ls : List (UInt32 × GPIOCall))
    (l : UInt32 × GPIOCall) :
    lastWritten pinNumber (ls ++ [l]) = (writtenBy pinNumber l).or (lastWritten pinNumber ls) := by
  induction ls with
  | nil => simp [lastWritten]
  | cons l' ls ih => rw [List.cons_append, lastWritten, lastWritten, ih, Option.or_assoc]

/-- A pin after a state was written to it, if any. -/
def GPIOPin.driven (q : GPIOPin) (v : Option GPIOState) : GPIOPin :=
  if q.exported = true ∧ q.direction = .output then { q with value := v.getD q.value } else q

/-- A further call on a pin that needs no export. -/
theorem GPIOPin.after_driven {available : Bool} {q : GPIOPin}
    (hexported : available = true → q.exported = true) (pinNumber : UInt32) (c : GPIOCall)
    (v : Option GPIOState) :
    (q.driven v).after available c = q.driven ((writtenBy pinNumber (pinNumber, c)).or v) := by
  cases c with
  | init direction =>
    have hor : (q.exported || available) = q.exported := by
      cases available with
      | true => rw [hexported rfl, Bool.or_true]
      | false => exact Bool.or_false _
    unfold GPIOPin.after GPIOPin.driven writtenBy
    split_ifs <;> simp [hor]
  | write w =>
    unfold GPIOPin.after GPIOPin.driven writtenBy
    split_ifs <;> simp_all
  | read => simp [GPIOPin.after, writtenBy]

/-- **A sequence of calls**, after a call of `DiscreteIO_init` on the pin: an
    output has the state last written, and nothing else changes. -/
theorem gpioRun_pin {behind : Bytes} {pinNumber : UInt32} {s s' : GPIOSysfs}
    {ls : List (UInt32 × GPIOCall)} (hr : Run (gpioStep behind) s ls s')
    (hexported : ∀ q ∈ s.pins (pathNumber pinNumber), s.available = true → q.exported = true) :
    s'.available = s.available ∧ s'.pins (pathNumber pinNumber) =
      (s.pins (pathNumber pinNumber)).map fun q => q.driven (lastWritten pinNumber ls) := by
  refine Run.reverseInduction (P := fun ls s' => s'.available = s.available ∧
    s'.pins (pathNumber pinNumber) =
      (s.pins (pathNumber pinNumber)).map fun q => q.driven (lastWritten pinNumber ls)) ?_ ?_ hr
  · refine ⟨rfl, ?_⟩
    cases s.pins (pathNumber pinNumber) with
    | none => rfl
    | some q => simp [GPIOPin.driven, lastWritten]
  · rintro ls t ⟨p, c⟩ t' - ⟨havailable, hpin⟩ rfl
    refine ⟨(gpioCall_available behind p t c).trans havailable, ?_⟩
    rw [gpioCall_pin, hpin, havailable]
    by_cases hp : pinNumber = p
    · subst hp
      rw [if_pos rfl, Option.map_map]
      refine Option.map_congr fun q hq => ?_
      rw [lastWritten_concat, ← GPIOPin.after_driven (hexported q hq)]
      rfl
    · have hnone : writtenBy pinNumber (p, c) = none := by
        cases c with
        | write v => exact if_neg (Ne.symm hp)
        | init _ => rfl
        | read => rfl
      rw [if_neg hp, lastWritten_concat, hnone, Option.none_or]

/-- The same from before the initialisation. -/
theorem gpioRun_init_pin {behind : Bytes} {pinNumber : UInt32} {direction : GPIODirection}
    {s0 s : GPIOSysfs} {ls : List (UInt32 × GPIOCall)}
    (hr : Run (gpioStep behind) (discreteIOInit behind pinNumber direction s0) ls s) :
    s.pins (pathNumber pinNumber) = (s0.pins (pathNumber pinNumber)).map fun q =>
      (q.after s0.available (.init direction)).driven (lastWritten pinNumber ls) := by
  have hinit : (discreteIOInit behind pinNumber direction s0).pins (pathNumber pinNumber) =
      (s0.pins (pathNumber pinNumber)).map fun q => q.after s0.available (.init direction) := by
    have hcall := gpioCall_pin behind pinNumber s0 (.init direction) pinNumber
    rwa [if_pos rfl] at hcall
  have havailable : (discreteIOInit behind pinNumber direction s0).available = s0.available :=
    gpioCall_available behind pinNumber s0 (.init direction)
  have hexported : ∀ q ∈ (discreteIOInit behind pinNumber direction s0).pins (pathNumber pinNumber),
      (discreteIOInit behind pinNumber direction s0).available = true → q.exported = true := by
    rw [hinit, havailable]
    intro q hq hs0
    obtain ⟨q0, -, rfl⟩ := Option.map_eq_some_iff.1 hq
    exact Bool.or_eq_true_iff.2 (.inr hs0)
  rw [(gpioRun_pin hr hexported).2, hinit, Option.map_map]
  rfl

/-! ## Reading back -/

/-- The level that is read of a pin once it was initialised: none can be read of
    a pin that is missing or not exported, which counts as low. -/
def levelRead (available : Bool) : Option GPIOPin → GPIOState
  | none => .low
  | some q => if q.exported || available then q.value else .low

/-- A pin that a `DiscreteIO_write` sets once it was initialised: it can be
    exported, and is an output already. -/
def IsOutput (available : Bool) : Option GPIOPin → Prop
  | none => False
  | some q => (q.exported || available) = true ∧ q.direction = .output

theorem discreteIOReadPin_eq (pinNumber : UInt32) (s : GPIOSysfs) :
    discreteIOReadPin pinNumber s = levelRead false (s.pins (pathNumber pinNumber)) := by
  obtain ⟨pin, hpin⟩ : ∃ pin, s.pins (pathNumber pinNumber) = pin := ⟨_, rfl⟩
  unfold discreteIOReadPin GPIOSysfs.readValue GPIOSysfs.opens
  cases pin with
  | none => simp [hpin, discreteIORead, levelRead]
  | some q => cases hvalue : q.value <;> cases he : q.exported <;>
      simp [hpin, discreteIORead, levelRead, hvalue, he]

/-- **Reading back an output.** After `DiscreteIO_init(p, GPIO_OUTPUT)` and any
    calls with a write to `p` among them, the pin reads as last written iff it
    was an output before the initialisation, or has that level in any case. No
    call changes another pin. -/
theorem gpioReadBack_iff {behind : Bytes} {pinNumber : UInt32} {s0 s : GPIOSysfs}
    {ls : List (UInt32 × GPIOCall)} {v : GPIOState}
    (hr : Run (gpioStep behind) (discreteIOInit behind pinNumber .output s0) ls s)
    (hlast : lastWritten pinNumber ls = some v) :
    (discreteIOReadPin pinNumber s = v ↔
      IsOutput s0.available (s0.pins (pathNumber pinNumber)) ∨
        levelRead s0.available (s0.pins (pathNumber pinNumber)) = v) ∧
    ∀ (p : UInt32) (c : GPIOCall) (q : UInt32), q ≠ p →
      (gpioCall behind p s c).pins (pathNumber q) = s.pins (pathNumber q) := by
  constructor
  · rw [discreteIOReadPin_eq, gpioRun_init_pin hr, hlast]
    cases s0.pins (pathNumber pinNumber) with
    | none => simp [levelRead, IsOutput]
    | some q =>
      simp only [Option.map_some, levelRead, IsOutput, GPIOPin.after, GPIOPin.driven,
        Option.getD_some, Bool.or_false]
      by_cases hexported : (q.exported || s0.available) = true
      · by_cases hdirection : q.direction = .output
        · simp [hexported, hdirection]
        · simp [hexported, hdirection]
      · simp [hexported]
  · intro p c q hne
    rw [gpioCall_pin, if_neg hne]

/-- The pins of a board at power-up: one pin, an input at low. -/
def freshPins : GPIOSysfs where
  available := true
  pins number := if number = 48 then some ⟨false, .input, .low⟩ else none

/-- The same board, with a second pin that is an output already. -/
def outputPin : GPIOSysfs :=
  { freshPins with
    pins := Function.update freshPins.pins 49 (some ⟨true, .output, .low⟩) }

/-- Calls on both pins; the last write to the output is a high level. -/
def mixedCalls : List (UInt32 × GPIOCall) :=
  [(49, .write .high), (48, .init .output), (49, .write .low), (48, .write .low), (49, .read),
    (49, .write .high), (48, .read)]

/-- `gpioReadBack_iff` for the output. -/
theorem gpioReadBack_iff_output : ∃ s,
    Run (gpioStep []) (discreteIOInit [] 49 .output outputPin) mixedCalls s ∧
      discreteIOReadPin 49 s = .high := by
  have hrun : Run (gpioStep []) (discreteIOInit [] 49 .output outputPin) mixedCalls _ :=
    .cons rfl (.cons rfl (.cons rfl (.cons rfl (.cons rfl (.cons rfl (.cons rfl (.nil _)))))))
  exact ⟨_, hrun, (gpioReadBack_iff hrun rfl).1.2 (.inl ⟨rfl, rfl⟩)⟩

/-- A pin made an output and set high reads as low: it is still an input. -/
theorem outputHigh_readsLow :
    discreteIOReadPin 48
      (discreteIOWrite 48 .high (discreteIOInit [] 48 .output freshPins)) = .low ∧
    ¬∀ (behind : Bytes) (pinNumber : UInt32) (s0 s : GPIOSysfs) (ls : List (UInt32 × GPIOCall))
        (v : GPIOState), (pinNumber, .init .input) ∉ ls →
      Run (gpioStep behind) (discreteIOInit behind pinNumber .output s0) ls s →
        lastWritten pinNumber ls = some v → discreteIOReadPin pinNumber s = v := by
  have hlow : discreteIOReadPin 48
      (discreteIOWrite 48 .high (discreteIOInit [] 48 .output freshPins)) = .low := by
    decide +kernel
  refine ⟨hlow, fun h => ?_⟩
  have hhigh := h [] 48 freshPins _ [(48, .write .high)] .high (by decide) (.cons rfl (.nil _)) rfl
  exact absurd (hlow.symm.trans hhigh) (by decide)

end TrackerDemo.Hw

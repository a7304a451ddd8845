import TrackerDemo.Lib.CString
import TrackerDemo.Stow.Debounce

/-!
# Failed reads of the stow button

`DiscreteIO_read` (`GPIO.c`, lines 108–143) opens and reads the value file of
the pin, and returns `GPIO_LOW` when either fails. The monitor thread takes that
for a level, so a run of failed reads looks like a released button.

Results:
* `referenceFilter_of_settles`: the state that a completed settle leaves.
* `genuineChange_iff`: a change of the button's state rests on four successful
  reads unless a failed read is part of a release.
* `press_genuine`: a failed read never presses the button.
* `buttonChanges_genuine_iff`: the same for all changes of a sequence of reads.
-/

namespace TrackerDemo.Stow

open TrackerDemo.CString

/-! ## Reading the pin -/

/-- An access to the value file: it does not open, nothing can be read from it, or
    its first byte is read. -/
inductive ValueRead
  | notOpened
  | notRead
  | byte (c : Byte)
  deriving DecidableEq

/-- `DiscreteIO_read`. -/
def discreteIORead : ValueRead → GPIOState
  | .notOpened => .low
  | .notRead => .low
  | .byte c => if c = 48 then .low else .high

/-- The access gave no byte. -/
def ValueRead.Failed (r : ValueRead) : Prop := r = .notOpened ∨ r = .notRead

instance (r : ValueRead) : Decidable r.Failed := inferInstanceAs (Decidable (_ ∨ _))

/-- A failed read returns the level of a released button. -/
theorem discreteIORead_of_failed {r : ValueRead} (h : r.Failed) : discreteIORead r = .low := by
  obtain rfl | rfl := h <;> rfl

/-- The samples of the monitor: read 0 is the one before its loop. -/
def samples (reads : ℕ → ValueRead) (n : ℕ) : GPIOState := discreteIORead (reads n)

/-! ## Changes of the button's state -/

section

variable (reads : ℕ → ValueRead) (n : ℕ)

/-- If pass `n + 1` changes the button's state, it and the three reads before it
    succeeded and gave the new level. -/
def GenuineChange : Prop :=
  buttonAfter (samples reads) (n + 1) ≠ buttonAfter (samples reads) n →
    3 ≤ n ∧ ∀ j, n - 2 ≤ j → j ≤ n + 1 →
      ¬(reads j).Failed ∧
        (discreteIORead (reads j) = .high ↔ buttonAfter (samples reads) (n + 1) = true)

/-- The four reads that complete a settle have a failed one among them, and the
    level settled last was high. -/
def FailedRelease (t : ℕ) : Prop :=
  SettlesAt (samples reads) t ∧ referenceFilter (samples reads) (t - 1) = true ∧
    ∃ j, t - 3 ≤ j ∧ j ≤ t ∧ (reads j).Failed

end

/-- A completed settle decides the button's state. -/
theorem referenceFilter_of_settles {s : ℕ → GPIOState} {n : ℕ} (h : SettlesAt s (n + 1)) :
    referenceFilter s (n + 1) = decide (s (n + 1) = .high) := by
  rw [referenceFilter_succ, if_pos h]

/-- The samples that complete a settle are equal. -/
theorem SettlesAt.sample_eq {s : ℕ → GPIOState} {t : ℕ} (h : SettlesAt s t) {j : ℕ}
    (h1 : t - 3 ≤ j) (h2 : j ≤ t) : s j = s t := by
  obtain ⟨h4, -, e3, e2, e1⟩ := h
  obtain rfl | rfl | rfl | rfl : j = t - 3 ∨ j = t - 2 ∨ j = t - 1 ∨ j = t := by omega
  · exact e3.trans (e2.trans e1)
  · exact e2.trans e1
  · exact e1
  · rfl

variable {reads : ℕ → ValueRead} {n : ℕ}

/-- A change is genuine unless it is a release with a failed read. -/
theorem genuineChange_iff : GenuineChange reads n ↔ ¬FailedRelease reads (n + 1) := by
  unfold GenuineChange
  rw [(debounce_eq_reference _ n).1, (debounce_eq_reference _ (n + 1)).1]
  constructor
  · rintro h ⟨hsettles, hpressed, j, h1, h2, hfailed⟩
    have hlow : samples reads (n + 1) = .low := by
      rw [← hsettles.sample_eq h1 h2]
      exact discreteIORead_of_failed hfailed
    have hreleased : referenceFilter (samples reads) (n + 1) = false := by
      rw [referenceFilter_of_settles hsettles, hlow]
      rfl
    have hchange : referenceFilter (samples reads) (n + 1) ≠ referenceFilter (samples reads) n := by
      rw [hreleased, ← Nat.add_sub_cancel n 1, hpressed]
      decide
    exact ((h hchange).2 j (by omega) h2).1 hfailed
  · intro h hchange
    have hsettles : SettlesAt (samples reads) (n + 1) := by
      by_contra hs
      rw [referenceFilter_succ, if_neg hs] at hchange
      exact hchange rfl
    have h4 := hsettles.1
    rw [referenceFilter_of_settles hsettles] at hchange ⊢
    refine ⟨by omega, fun j h1 h2 => ⟨fun hfailed => ?_, ?_⟩⟩
    · refine h ⟨hsettles, ?_, j, by omega, h2, hfailed⟩
      -- the level is low, so the button was pressed before
      have hlow : samples reads (n + 1) = .low := by
        rw [← hsettles.sample_eq (by omega) h2]
        exact discreteIORead_of_failed hfailed
      rw [hlow] at hchange
      show referenceFilter (samples reads) n = true
      simpa using hchange.symm
    · rw [decide_eq_true_iff, ← hsettles.sample_eq (by omega) h2]
      rfl

/-- **Failed reads.** Every change of the button's state rests on four successful
    reads of the new level iff no failed read takes part in a release. -/
theorem buttonChanges_genuine_iff (reads : ℕ → ValueRead) :
    (∀ n, GenuineChange reads n) ↔ ∀ t, ¬FailedRelease reads t := by
  constructor
  · intro h t hrelease
    obtain ⟨n, rfl⟩ : ∃ n, t = n + 1 := ⟨t - 1, by have := hrelease.1.1; omega⟩
    exact genuineChange_iff.1 (h n) hrelease
  · exact fun h n => genuineChange_iff.2 (h (n + 1))

/-- A failed read never presses a released button. -/
theorem press_genuine (h : buttonAfter (samples reads) n = false) : GenuineChange reads n := by
  rw [genuineChange_iff]
  rintro ⟨-, hpressed, -⟩
  rw [(debounce_eq_reference _ n).1] at h
  exact absurd (hpressed.symm.trans h) (by decide)

/-- The button is pressed, and then its value file does not open any more. -/
def pressedThenFailing (n : ℕ) : ValueRead :=
  if n = 0 then .byte 48 else if n ≤ 4 then .byte 49 else .notOpened

/-- The fourth failed read releases it. -/
theorem pressedThenFailing_released :
    buttonAfter (samples pressedThenFailing) 7 = true ∧
      buttonAfter (samples pressedThenFailing) 8 = false ∧
      ¬∀ (reads : ℕ → ValueRead) (n : ℕ), GenuineChange reads n := by
  have hpressed : buttonAfter (samples pressedThenFailing) 7 = true := by decide
  have hreleased : buttonAfter (samples pressedThenFailing) 8 = false := by decide
  refine ⟨hpressed, hreleased, fun h => ?_⟩
  have hchange := h pressedThenFailing 7 (by rw [hpressed, hreleased]; decide)
  exact (hchange.2 8 (by omega) le_rfl).1 (by decide)

end TrackerDemo.Stow

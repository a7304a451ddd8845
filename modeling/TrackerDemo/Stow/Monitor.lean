import Mathlib.Tactic.Common

/-!
# The stow button monitor

Model of the debouncing in `MonitorStowPushbutton_thread` (`trackerDemo.c`,
lines 396–448): the thread's locals with `stowButtonIsPressed`, which only this
thread writes, and what one sample of the button does to them.

Results:
* `monitorSample_button`: the button's state follows the sample of a pass that
  completes a debounce, and no other.
* `monitorSample_count_le`: the counter stays at most `STOW_INPUT_DEBOUNCE`.
-/

namespace TrackerDemo.Stow

/-- `GPIO_State`. -/
inductive GPIOState
  | low | high
  deriving DecidableEq, Repr

/-- `STOW_INPUT_DEBOUNCE`. -/
def stowInputDebounce : ℕ := 3

/-- The locals of the thread, and `stowButtonIsPressed`. -/
structure MonitorState where
  previousStowInput : GPIOState
  stowDebounceCount : ℕ
  debounceInProgress : Bool
  stowButtonIsPressed : Bool
  deriving DecidableEq, Repr

/-- Lines 399–408: the state after the initial read. -/
def MonitorState.initial (stowInput : GPIOState) : MonitorState := ⟨stowInput, 0, false, false⟩

/-- Lines 418–424: a changed input restarts the debounce. -/
def noteChange (currentStowInput : GPIOState) (m : MonitorState) : MonitorState :=
  if currentStowInput ≠ m.previousStowInput then
    { m with stowDebounceCount := 0, debounceInProgress := true }
  else m

/-- Lines 426–447: one pass of the debounce. -/
def debounce (currentStowInput : GPIOState) (m : MonitorState) : MonitorState :=
  if m.debounceInProgress then
    if m.stowDebounceCount < stowInputDebounce then
      { m with stowDebounceCount := m.stowDebounceCount + 1 }
    else
      { m with debounceInProgress := false, stowButtonIsPressed := currentStowInput = .high }
  else m

/-- One sample of the button (lines 418–448). -/
def monitorSample (currentStowInput : GPIOState) (m : MonitorState) : MonitorState :=
  { debounce currentStowInput (noteChange currentStowInput m) with
    previousStowInput := currentStowInput }

/-- The pass completes a debounce: the input is unchanged and was counted. -/
def Completes (currentStowInput : GPIOState) (m : MonitorState) : Prop :=
  currentStowInput = m.previousStowInput ∧ m.debounceInProgress = true ∧
    stowInputDebounce ≤ m.stowDebounceCount

instance (g : GPIOState) (m : MonitorState) : Decidable (Completes g m) :=
  inferInstanceAs (Decidable (_ ∧ _ ∧ _))

/-- The button's state follows the sample that completes a debounce. -/
theorem monitorSample_button (g : GPIOState) (m : MonitorState) :
    (monitorSample g m).stowButtonIsPressed =
      if Completes g m then decide (g = .high) else m.stowButtonIsPressed := by
  unfold monitorSample debounce noteChange Completes
  by_cases hg : g = m.previousStowInput
  · by_cases hp : m.debounceInProgress = true
    · by_cases hc : m.stowDebounceCount < stowInputDebounce
      · simp [hg, hp, hc, Nat.not_le.2 hc]
      · simp [hg, hp, hc, Nat.not_lt.1 hc]
    · simp [hg, hp]
  · simp [hg, stowInputDebounce]

theorem monitorSample_count_le (g : GPIOState) {m : MonitorState}
    (h : m.stowDebounceCount ≤ stowInputDebounce) :
    (monitorSample g m).stowDebounceCount ≤ stowInputDebounce := by
  unfold monitorSample debounce noteChange
  grind [stowInputDebounce]

end TrackerDemo.Stow

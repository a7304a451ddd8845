import TrackerDemo.Lib.Transition
import Mathlib.Data.List.Nodup
import Mathlib.Data.Set.Insert

/-!
# At-least-once delivery

A sender keeps every message, under an id, until somebody claims that the id has been
received; copies of a message that are on their way are offers. Offers and claims get
lost at any time, a message that is kept may be offered again, and an id may be used
again when nothing is left that names it.

Results:
* `Safe.step`, `Safe.run`: a claim is never made for a message that has not been
  received, so that a message which is not kept any more has been received.
* `Transfer.Within.step`: only a new message brings a new id.
-/

namespace TrackerDemo.Delivery

open TrackerDemo.Transition

variable {ι α : Type*}

/-- The state of a transfer: what the sender keeps, the offers and claims that are on
    their way, and what has been received and published so far. What is `held` is kept and
    not offered yet. -/
structure Transfer (ι α : Type*) where
  kept : List (ι × α)
  offers : Set (ι × α)
  claims : Set ι
  held : Set ι
  received : List α
  published : List α

namespace Transfer

/-- Before the first message. -/
def initial : Transfer ι α := ⟨[], ∅, ∅, ∅, [], []⟩

/-- Nothing names the id. -/
structure Free (t : Transfer ι α) (i : ι) : Prop where
  kept : ∀ x, (i, x) ∉ t.kept
  offers : ∀ x, (i, x) ∉ t.offers
  claims : i ∉ t.claims

/-- What may become of offers and claims in any step: some get lost, and messages that
    are kept, and not held back, are offered. -/
structure Loses (t t' : Transfer ι α) : Prop where
  offers : ∀ o ∈ t'.offers, o ∈ t.offers ∨ o ∈ t'.kept ∧ o.1 ∉ t'.held
  claims : t'.claims ⊆ t.claims

theorem Loses.offers_kept {t t' : Transfer ι α} (h : t.Loses t') {o : ι × α} (ho : o ∈ t'.offers) :
    o ∈ t.offers ∨ o ∈ t'.kept :=
  (h.offers o ho).imp_right And.left

end Transfer

/-- A step, in which a new message may get an id out of `new`. -/
inductive Step (new : Set ι) (t t' : Transfer ι α) : Prop
  /-- Nothing but losses and new offers. -/
  | quiet (hloses : t.Loses t') (hheld : t'.held ⊆ t.held) (hkept : t'.kept = t.kept)
      (hreceived : t'.received = t.received) (hpublished : t'.published = t.published)
  /-- A new message under a free id. -/
  | publish (i : ι) (x : α) (hnew : i ∈ new) (hfree : t.Free i)
      (hloses : t.Loses t') (hheld : ∀ j ∈ t'.held, j ∈ t.held ∨ j = i)
      (hkept : t'.kept = t.kept ++ [(i, x)]) (hreceived : t'.received = t.received)
      (hpublished : t'.published = t.published ++ [x])
  /-- An offer is received, and may now be claimed. -/
  | receive (i : ι) (x : α) (hoffer : (i, x) ∈ t.offers) (hoffers : t'.offers ⊆ t.offers)
      (hclaims : ∀ j ∈ t'.claims, j ∈ t.claims ∨ j = i) (hheld : t'.held ⊆ t.held)
      (hkept : t'.kept = t.kept) (hreceived : t'.received = t.received ++ [x])
      (hpublished : t'.published = t.published)
  /-- A claim ends the keeping of its message. -/
  | settle (i : ι) (x : α) (pre post : List (ι × α)) (hclaim : i ∈ t.claims)
      (hloses : t.Loses t') (hheld : t'.held ⊆ t.held) (hkept : t.kept = pre ++ (i, x) :: post)
      (hkept' : t'.kept = pre ++ post) (hreceived : t'.received = t.received)
      (hpublished : t'.published = t.published)

/-- What every step keeps. -/
structure Safe (t : Transfer ι α) : Prop where
  /-- An id stands for one message. -/
  kept_nodup : (t.kept.map Prod.fst).Nodup
  offers_eq : ∀ i x y, (i, x) ∈ t.offers → (i, y) ∈ t.kept → x = y
  claims_received : ∀ i x, i ∈ t.claims → (i, x) ∈ t.kept → x ∈ t.received
  /-- What is held back is not under way. -/
  held_offers : ∀ i x, i ∈ t.held → (i, x) ∉ t.offers
  held_claims : ∀ i ∈ t.held, i ∉ t.claims
  /-- Nothing is lost. -/
  published : ∀ x ∈ t.published, x ∈ t.received ∨ ∃ i, (i, x) ∈ t.kept
  /-- Nothing is made up. -/
  kept_published : ∀ i x, (i, x) ∈ t.kept → x ∈ t.published
  offers_published : ∀ i x, (i, x) ∈ t.offers → x ∈ t.published
  received_published : ∀ x ∈ t.received, x ∈ t.published

theorem safe_initial : Safe (Transfer.initial : Transfer ι α) := by
  constructor <;> simp [Transfer.initial]

section Steps

variable {new : Set ι} {t t' : Transfer ι α}

theorem Safe.kept_inj (h : Safe t) {i : ι} {x y : α} (hx : (i, x) ∈ t.kept)
    (hy : (i, y) ∈ t.kept) : x = y :=
  congrArg Prod.snd (List.inj_on_of_nodup_map h.kept_nodup hx hy rfl)

/-- Losses and new offers are harmless when nothing else changes. -/
theorem Safe.loses (h : Safe t) (hloses : t.Loses t') (hheld : t'.held ⊆ t.held)
    (hsub : t'.kept.Sublist t.kept) (hpublished : t'.published = t.published)
    (hreceived : t'.received = t.received)
    (hkept : ∀ x ∈ t.published, x ∈ t.received ∨ ∃ i, (i, x) ∈ t'.kept) : Safe t' where
  kept_nodup := h.kept_nodup.sublist (hsub.map Prod.fst)
  offers_eq i x y hx hy := by
    rcases hloses.offers_kept hx with hx | hx
    · exact h.offers_eq i x y hx (hsub.mem hy)
    · exact h.kept_inj (hsub.mem hx) (hsub.mem hy)
  claims_received i x hi hx := by
    rw [hreceived]
    exact h.claims_received i x (hloses.claims hi) (hsub.mem hx)
  held_offers i x hi hx := by
    rcases hloses.offers _ hx with hx | hx
    · exact h.held_offers i x (hheld hi) hx
    · exact hx.2 hi
  held_claims i hi hclaim := h.held_claims i (hheld hi) (hloses.claims hclaim)
  published x hx := by
    rw [hpublished] at hx
    rw [hreceived]
    exact hkept x hx
  kept_published i x hx := by
    rw [hpublished]
    exact h.kept_published i x (hsub.mem hx)
  offers_published i x hx := by
    rw [hpublished]
    rcases hloses.offers_kept hx with hx | hx
    · exact h.offers_published i x hx
    · exact h.kept_published i x (hsub.mem hx)
  received_published x hx := by
    rw [hreceived] at hx
    rw [hpublished]
    exact h.received_published x hx

theorem Safe.publish (h : Safe t) {i : ι} {x : α} (hfree : t.Free i) (hloses : t.Loses t')
    (hheld : ∀ j ∈ t'.held, j ∈ t.held ∨ j = i) (hkept : t'.kept = t.kept ++ [(i, x)])
    (hreceived : t'.received = t.received)
    (hpublished : t'.published = t.published ++ [x]) : Safe t' := by
  have mem_kept : ∀ {j y}, (j, y) ∈ t'.kept → (j, y) ∈ t.kept ∨ j = i ∧ y = x := by
    intro j y hy
    rw [hkept] at hy
    simpa using hy
  have mem_published : ∀ {y}, y ∈ t.published → y ∈ t'.published := by
    intro y hy
    rw [hpublished]
    exact List.mem_append_left _ hy
  have mem_new : x ∈ t'.published := by simp [hpublished]
  have kept_published : ∀ j y, (j, y) ∈ t'.kept → y ∈ t'.published := by
    intro j y hy
    rcases mem_kept hy with hy | ⟨-, rfl⟩
    · exact mem_published (h.kept_published j y hy)
    · exact mem_new
  have kept_nodup : (t'.kept.map Prod.fst).Nodup := by
    rw [hkept, List.map_append, List.map_singleton]
    apply h.kept_nodup.append (List.nodup_singleton i)
    rw [List.disjoint_singleton]
    intro hi
    obtain ⟨⟨j, y⟩, hy, rfl⟩ := List.mem_map.1 hi
    exact hfree.kept y hy
  refine ⟨kept_nodup, ?_, ?_, ?_, ?_, ?_, kept_published, ?_, ?_⟩
  · intro j y z hy hz
    rcases hloses.offers_kept hy with hy | hy
    · rcases mem_kept hz with hz | ⟨rfl, rfl⟩
      · exact h.offers_eq j y z hy hz
      · exact absurd hy (hfree.offers y)
    · exact congrArg Prod.snd (List.inj_on_of_nodup_map kept_nodup hy hz rfl)
  · intro j y hj hy
    rw [hreceived]
    rcases mem_kept hy with hy | ⟨rfl, rfl⟩
    · exact h.claims_received j y (hloses.claims hj) hy
    · exact absurd (hloses.claims hj) hfree.claims
  · intro j y hj hy
    rcases hloses.offers _ hy with hy | hy
    · rcases hheld j hj with hj | rfl
      · exact h.held_offers j y hj hy
      · exact hfree.offers y hy
    · exact hy.2 hj
  · intro j hj hclaim
    rcases hheld j hj with hj | rfl
    · exact h.held_claims j hj (hloses.claims hclaim)
    · exact hfree.claims (hloses.claims hclaim)
  · intro y hy
    rw [hpublished, List.mem_append, List.mem_singleton] at hy
    rw [hreceived, hkept]
    rcases hy with hy | rfl
    · rcases h.published y hy with hy | ⟨j, hj⟩
      · exact .inl hy
      · exact .inr ⟨j, List.mem_append_left _ hj⟩
    · exact .inr ⟨i, by simp⟩
  · intro j y hy
    rcases hloses.offers_kept hy with hy | hy
    · exact mem_published (h.offers_published j y hy)
    · exact kept_published j y hy
  · intro y hy
    rw [hreceived] at hy
    exact mem_published (h.received_published y hy)

theorem Safe.receive (h : Safe t) {i : ι} {x : α} (hoffer : (i, x) ∈ t.offers)
    (hoffers : t'.offers ⊆ t.offers) (hclaims : ∀ j ∈ t'.claims, j ∈ t.claims ∨ j = i)
    (hheld : t'.held ⊆ t.held) (hkept : t'.kept = t.kept)
    (hreceived : t'.received = t.received ++ [x])
    (hpublished : t'.published = t.published) : Safe t' := by
  have mem_received : ∀ {y}, y ∈ t.received → y ∈ t'.received := by
    intro y hy
    rw [hreceived]
    exact List.mem_append_left _ hy
  constructor
  · rw [hkept]
    exact h.kept_nodup
  · intro j y z hy hz
    rw [hkept] at hz
    exact h.offers_eq j y z (hoffers hy) hz
  · intro j y hj hy
    rw [hkept] at hy
    rcases hclaims j hj with hj | rfl
    · exact mem_received (h.claims_received j y hj hy)
    · -- the offer that is received has the contents of the message that is kept
      obtain rfl := h.offers_eq j x y hoffer hy
      simp [hreceived]
  · exact fun j y hj hy => h.held_offers j y (hheld hj) (hoffers hy)
  · intro j hj hclaim
    rcases hclaims j hclaim with hclaim | rfl
    · exact h.held_claims j (hheld hj) hclaim
    · exact h.held_offers j x (hheld hj) hoffer
  · intro y hy
    rw [hpublished] at hy
    rw [hkept]
    rcases h.published y hy with hy | hy
    · exact .inl (mem_received hy)
    · exact .inr hy
  · rw [hkept, hpublished]
    exact h.kept_published
  · intro j y hy
    rw [hpublished]
    exact h.offers_published j y (hoffers hy)
  · intro y hy
    rw [hreceived, List.mem_append, List.mem_singleton] at hy
    rw [hpublished]
    rcases hy with hy | rfl
    · exact h.received_published y hy
    · exact h.offers_published i y hoffer

/-- The step lemma. -/
theorem Safe.step (h : Safe t) (hstep : Step new t t') : Safe t' := by
  cases hstep with
  | quiet hloses hheld hkept hreceived hpublished =>
    apply h.loses hloses hheld (hkept ▸ .refl _) hpublished hreceived
    rw [hkept]
    exact h.published
  | publish i x _ hfree hloses hheld hkept hreceived hpublished =>
    exact h.publish hfree hloses hheld hkept hreceived hpublished
  | receive i x hoffer hoffers hclaims hheld hkept hreceived hpublished =>
    exact h.receive hoffer hoffers hclaims hheld hkept hreceived hpublished
  | settle i x pre post hclaim hloses hheld hkept hkept' hreceived hpublished =>
    have hsub : t'.kept.Sublist t.kept := by
      rw [hkept, hkept']
      exact (List.sublist_cons_self _ post).append_left pre
    apply h.loses hloses hheld hsub hpublished hreceived
    intro y hy
    rcases h.published y hy with hy | ⟨j, hj⟩
    · exact .inl hy
    · rw [hkept, List.mem_append, List.mem_cons] at hj
      rw [hkept']
      rcases hj with hj | hj | hj
      · exact .inr ⟨j, List.mem_append_left _ hj⟩
      · -- the message that is settled has been received
        obtain ⟨rfl, rfl⟩ := Prod.mk.inj hj
        exact .inl (h.claims_received j y hclaim (by simp [hkept]))
      · exact .inr ⟨j, List.mem_append_right _ hj⟩

end Steps

/-- The rule for a system whose steps, from states that meet an invariant of its own, are
    steps of the transfer. -/
theorem Safe.run {σ κ : Type*} {step : σ → κ → σ → Prop} {inv : σ → Prop}
    {new : σ → κ → Set ι} (abs : σ → Transfer ι α)
    (hinv : ∀ s l s', Safe (abs s) → inv s → step s l s' → inv s')
    (hstep : ∀ s l s', Safe (abs s) → inv s → step s l s' → Step (new s l) (abs s) (abs s'))
    {s s' : σ} {ls : List κ} (hs : Safe (abs s)) (hi : inv s) (hr : Run step s ls s') :
    Safe (abs s') ∧ inv s' :=
  hr.invariant (P := fun s => Safe (abs s) ∧ inv s)
    (fun s l s' h hl => ⟨h.1.step (hstep s l s' h.1 h.2 hl), hinv s l s' h.1 h.2 hl⟩) ⟨hs, hi⟩

/-! ## Ids -/

/-- All ids in use are among `S`. -/
structure Transfer.Within (t : Transfer ι α) (S : Set ι) : Prop where
  kept : ∀ o ∈ t.kept, o.1 ∈ S
  offers : ∀ o ∈ t.offers, o.1 ∈ S
  claims : t.claims ⊆ S

theorem within_initial : (Transfer.initial : Transfer ι α).Within ∅ := by
  constructor <;> simp [Transfer.initial]

section Ids

variable {S S' new : Set ι} {t t' : Transfer ι α}

theorem Transfer.Within.mono (h : t.Within S) (hsub : S ⊆ S') : t.Within S' :=
  ⟨fun o ho => hsub (h.kept o ho), fun o ho => hsub (h.offers o ho), h.claims.trans hsub⟩

theorem Transfer.Within.free (h : t.Within S) {i : ι} (hi : i ∉ S) : t.Free i :=
  ⟨fun _ hx => hi (h.kept _ hx), fun _ hx => hi (h.offers _ hx), fun hx => hi (h.claims hx)⟩

theorem Transfer.Within.loses (h : t.Within S) (hloses : t.Loses t')
    (hkept : ∀ o ∈ t'.kept, o.1 ∈ S) : t'.Within S := by
  refine ⟨hkept, fun o ho => ?_, hloses.claims.trans h.claims⟩
  rcases hloses.offers_kept ho with ho | ho
  · exact h.offers o ho
  · exact hkept o ho

/-- Only a new message brings a new id. -/
theorem Transfer.Within.step (h : t.Within S) (hstep : Step new t t') : t'.Within (S ∪ new) := by
  cases hstep with
  | quiet hloses _ hkept _ _ =>
    apply (h.mono Set.subset_union_left).loses hloses
    rw [hkept]
    exact fun o ho => .inl (h.kept o ho)
  | publish i x hnew _ hloses _ hkept _ _ =>
    apply (h.mono Set.subset_union_left).loses hloses
    rw [hkept]
    intro o ho
    rcases List.mem_append.1 ho with ho | ho
    · exact .inl (h.kept o ho)
    · rw [List.mem_singleton.1 ho]
      exact .inr hnew
  | receive i x hoffer hoffers hclaims _ hkept _ _ =>
    apply Transfer.Within.mono _ Set.subset_union_left
    refine ⟨hkept ▸ h.kept, fun o ho => h.offers o (hoffers ho), fun j hj => ?_⟩
    rcases hclaims j hj with hj | rfl
    · exact h.claims hj
    · exact h.offers _ hoffer
  | settle i x pre post _ hloses _ hkept hkept' _ _ =>
    apply (h.mono Set.subset_union_left).loses hloses
    rw [hkept']
    intro o ho
    apply Or.inl
    apply h.kept o
    rw [hkept]
    rcases List.mem_append.1 ho with ho | ho
    · exact List.mem_append_left _ ho
    · exact List.mem_append_right _ (List.mem_cons_of_mem _ ho)

end Ids

end TrackerDemo.Delivery

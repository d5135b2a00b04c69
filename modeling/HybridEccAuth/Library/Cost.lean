import HybridEccAuth.Library.StateExcept
import Mathlib.Algebra.Group.Action.Defs
import Mathlib.Algebra.Order.Monoid.Canonical.Defs

/-!
# Costs of stateful computations

When costs act on the state, so that `k +ᵥ s` is the state `s` with the cost `k` charged
to it, a computation that only charges its state has a cost.  `Charges x b R` says that
`x` charges at most `b`, whether it returns or raises, and that the value it returns and
the cost it charged are related by `R`.

There is one rule for each shape of a program.  A loop whose rounds charge a fixed cost
charges that cost for every round (`Charges.foldlM`, `Charges.mapM`), and a search that
finds nothing charges the sum of its rounds (`Charges.findSomeM?`).
-/

namespace StateExcept

variable {ε σ α β κ : Type} [AddCommMonoid κ] [PartialOrder κ] [AddAction κ σ]

/-- The computation charges at most `b`, and what it returns and what it charged are related. -/
def Charges (x : StateExcept ε σ α) (b : κ) (R : α → κ → Prop) : Prop :=
  ∀ s, ∃ r k, x.outcome s = (r, k +ᵥ s) ∧ k ≤ b ∧ ∀ a, r = .ok a → R a k

variable {x : StateExcept ε σ α} {b b' : κ} {R R' : α → κ → Prop}

/-- The bound and the relation may be weakened. -/
lemma Charges.imp (h : Charges x b R) (hb : b ≤ b') (hR : ∀ a k, R a k → R' a k) :
    Charges x b' R' := by
  intro s
  obtain ⟨r, k, hrun, hk, hr⟩ := h s
  exact ⟨r, k, hrun, le_trans hk hb, fun a ha => hR a k (hr a ha)⟩

/-- A result that does not depend on the state is free. -/
lemma charges_lift (r : Except ε α) :
    Charges (StateExcept.lift r : StateExcept ε σ α) (0 : κ) fun a k => r = .ok a ∧ k = 0 :=
  fun s => ⟨r, 0, by rw [zero_vadd]; rfl, le_refl _, fun _ ha => ⟨ha, rfl⟩⟩

/-- Returning a value is free. -/
lemma charges_pure (a : α) :
    Charges (pure a : StateExcept ε σ α) (0 : κ) fun a' k => a' = a ∧ k = 0 :=
  (charges_lift (.ok a)).imp (le_refl _) fun _ _ h => ⟨(Except.ok.inj h.1).symm, h.2⟩

/-- Charging the state. -/
lemma charges_modifyState {f : σ → σ} {b : κ} (hf : ∀ s, f s = b +ᵥ s) :
    Charges (StateExcept.modifyState f : StateExcept ε σ Unit) b fun _ k => k = b :=
  fun s => ⟨.ok (), b, by rw [← hf]; rfl, le_refl _, fun _ _ => rfl⟩

/-- When the outcome does not depend on the state, a value that is returned is the outcome from
every state. -/
lemma Charges.yields (hx : Charges x b R) (hy : ∃ r, Yields x r) :
    Charges x b fun a k => R a k ∧ Yields x (.ok a) := by
  intro s
  obtain ⟨r, k, hrun, hk, hr⟩ := hx s
  obtain ⟨r', hr'⟩ := hy
  have hsame := hr' s
  rw [hrun] at hsame
  obtain rfl : r = r' := hsame
  exact ⟨r, k, hrun, hk, fun a ha => ⟨hr a ha, ha ▸ hr'⟩⟩

variable [IsOrderedAddMonoid κ] [CanonicallyOrderedAdd κ]

/-- The costs of one computation after the other add up. -/
lemma Charges.bind {f : α → StateExcept ε σ β} {c : κ} {S : α → β → κ → Prop}
    (hx : Charges x b R) (hf : ∀ a, Charges (f a) c (S a)) :
    Charges (x >>= f) (b + c) fun y k => ∃ a j l, R a j ∧ S a y l ∧ k = j + l := by
  intro s
  obtain ⟨r, j, hrun, hj, hr⟩ := hx s
  rw [outcome_bind, hrun]
  rcases r with e | a
  · exact ⟨.error e, j, rfl, le_trans hj (le_add_of_nonneg_right zero_le), fun _ h => by cases h⟩
  · obtain ⟨r', l, hrun', hl, hr'⟩ := hf a (j +ᵥ s)
    refine ⟨r', j + l, ?_, add_le_add hj hl, fun y hy => ⟨a, j, l, hr a rfl, hr' y hy, rfl⟩⟩
    dsimp only
    rw [hrun', add_comm, add_vadd]

/-- A loop that passes a value along, each of whose rounds charges the same. -/
lemma Charges.foldlM {f : β → α → StateExcept ε σ β} {as : List α}
    (h : ∀ a ∈ as, ∀ y, Charges (f y a) b fun _ k => k = b) (y : β) :
    Charges (as.foldlM f y) (as.length • b) fun _ k => k = as.length • b := by
  induction as generalizing y with
  | nil =>
    rw [List.length_nil, zero_nsmul]
    exact (charges_pure y).imp (le_refl _) fun _ _ h => h.2
  | cons a as ih =>
    obtain ⟨ha, has⟩ := List.forall_mem_cons.mp h
    rw [List.foldlM_cons, List.length_cons, succ_nsmul']
    refine ((ha y).bind fun y' => ih has y').imp (le_refl _) ?_
    rintro _ _ ⟨_, _, _, rfl, rfl, rfl⟩
    rfl

/-- A loop that collects one result for each item, each of whose rounds charges the same. -/
lemma Charges.mapM {f : α → StateExcept ε σ β} {as : List α}
    (h : ∀ a ∈ as, Charges (f a) b fun _ k => k = b) :
    Charges (as.mapM f) (as.length • b) fun _ k => k = as.length • b := by
  induction as with
  | nil =>
    rw [List.length_nil, zero_nsmul]
    exact (charges_pure []).imp (le_refl _) fun _ _ h => h.2
  | cons a as ih =>
    obtain ⟨ha, has⟩ := List.forall_mem_cons.mp h
    rw [List.mapM_cons, List.length_cons, succ_nsmul']
    refine (ha.bind fun y => (ih has).bind fun ys => charges_pure (y :: ys)).imp
      (by rw [add_zero]) ?_
    rintro _ _ ⟨_, _, _, rfl, ⟨_, _, _, rfl, ⟨-, rfl⟩, rfl⟩, rfl⟩
    rw [add_zero]

/-- A search charges at most the bound of each round, and when it finds nothing, the sum of what the
rounds charge then. -/
lemma Charges.findSomeM? {f : α → StateExcept ε σ (Option β)} {g : α → κ} {as : List α}
    (h : ∀ a ∈ as, Charges (f a) b fun r k => r = none → k = g a) :
    Charges (as.findSomeM? f) (as.length • b) fun r k => r = none → k = (as.map g).sum := by
  induction as with
  | nil =>
    rw [List.length_nil, zero_nsmul]
    exact (charges_pure none).imp (le_refl _) fun _ _ h _ => h.2
  | cons a as ih =>
    obtain ⟨ha, has⟩ := List.forall_mem_cons.mp h
    rw [List.length_cons, succ_nsmul', List.map_cons, List.sum_cons, List.findSomeM?]
    intro s
    obtain ⟨r, j, hrun, hj, hr⟩ := ha s
    rw [outcome_bind, hrun]
    rcases r with e | _ | y
    · exact ⟨.error e, j, rfl, le_trans hj (le_add_of_nonneg_right zero_le), fun _ h => by cases h⟩
    · obtain ⟨r', l, hrun', hl, hr'⟩ := ih has (j +ᵥ s)
      refine ⟨r', j + l, ?_, add_le_add hj hl, fun y hy hnone => ?_⟩
      · dsimp only
        rw [hrun', add_comm, add_vadd]
      · rw [hr' y hy hnone, hr none rfl rfl]
    · refine ⟨.ok (some y), j, rfl, le_trans hj (le_add_of_nonneg_right zero_le), ?_⟩
      rintro r h hnone
      cases h
      cases hnone

end StateExcept

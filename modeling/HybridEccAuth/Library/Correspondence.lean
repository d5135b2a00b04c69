import Mathlib.Algebra.Order.Group.Nat
import Mathlib.Tactic.Common

/-!
# Correspondence of events

A history is a list of events.  `Agrees R IsEnd h` says that every event of `h` that
satisfies `IsEnd` has an earlier event which it agrees with, in the sense of a relation
`R` of beginnings and ends, and `InjectivelyAgrees R IsEnd h` that such events can be
chosen differently for different ends.

Histories grow at their end: `agrees_append` and `List.pairwise_append` are the rules
for the events that a step adds.  An agreement is injective as soon as no event begins
two ends (`Agrees.injectively`).
-/

namespace Correspondence

variable {ε : Type*} {R : ε → ε → Prop} {IsEnd : ε → Prop} {h new : List ε}

/-- Every end has an earlier beginning. -/
def Agrees (R : ε → ε → Prop) (IsEnd : ε → Prop) (h : List ε) : Prop :=
  ∀ (i : ℕ) (e : ε), h[i]? = some e → IsEnd e → ∃ (j : ℕ) (b : ε), j < i ∧ h[j]? = some b ∧ R b e

/-- Every end has an earlier beginning, and different ends have different ones. -/
def InjectivelyAgrees (R : ε → ε → Prop) (IsEnd : ε → Prop) (h : List ε) : Prop :=
  ∃ f : ℕ → ℕ,
    (∀ (i : ℕ) (e : ε), h[i]? = some e → IsEnd e → f i < i ∧ ∃ b, h[f i]? = some b ∧ R b e) ∧
    ∀ (i j : ℕ) (e e' : ε), h[i]? = some e → IsEnd e → h[j]? = some e' → IsEnd e' →
    f i = f j → i = j

/-- Nothing has happened yet. -/
lemma agrees_nil : Agrees R IsEnd [] := by
  intro i e he
  rw [List.getElem?_nil] at he
  exact absurd he (by simp)

/-- The events of a step agree when each of its ends has a beginning before the step. -/
lemma agrees_append (hagree : Agrees R IsEnd h) (hnew : ∀ e ∈ new, IsEnd e → ∃ b ∈ h, R b e) :
    Agrees R IsEnd (h ++ new) := by
  intro i e he hend
  by_cases hi : i < h.length
  · rw [List.getElem?_append_left hi] at he
    obtain ⟨j, b, hj, hb, hR⟩ := hagree i e he hend
    refine ⟨j, b, hj, ?_, hR⟩
    rw [List.getElem?_append_left (lt_trans hj hi)]
    exact hb
  · rw [List.getElem?_append_right (not_lt.mp hi)] at he
    obtain ⟨b, hb, hR⟩ := hnew e (List.mem_of_getElem? he) hend
    obtain ⟨j, hj⟩ := List.mem_iff_getElem?.mp hb
    have hlt : j < h.length := by
      obtain ⟨hlt, -⟩ := List.getElem?_eq_some_iff.mp hj
      exact hlt
    refine ⟨j, b, lt_of_lt_of_le hlt (not_lt.mp hi), ?_, hR⟩
    rw [List.getElem?_append_left hlt]
    exact hj

/-- An agreement is injective when no event begins two ends. -/
theorem Agrees.injectively (hagree : Agrees R IsEnd h)
    (hpair : h.Pairwise fun e e' => IsEnd e → IsEnd e' → ∀ b, R b e → ¬ R b e') :
    InjectivelyAgrees R IsEnd h := by
  classical
  -- the beginning of an end is any one that it has, and other positions do not matter
  have hbegin : ∀ i : ℕ, ∃ j : ℕ, ∀ e, h[i]? = some e → IsEnd e →
      j < i ∧ ∃ b, h[j]? = some b ∧ R b e := by
    intro i
    by_cases hi : ∃ e, h[i]? = some e ∧ IsEnd e
    · obtain ⟨e, he, hend⟩ := hi
      obtain ⟨j, b, hj, hb, hR⟩ := hagree i e he hend
      refine ⟨j, fun e' he' _ => ⟨hj, b, hb, ?_⟩⟩
      obtain rfl := Option.some_inj.mp (he.symm.trans he')
      exact hR
    · exact ⟨0, fun e he hend => absurd ⟨e, he, hend⟩ hi⟩
  choose f hf using hbegin
  refine ⟨f, hf, ?_⟩
  have hlt : ∀ (i j : ℕ) (e e' : ε), h[i]? = some e → IsEnd e → h[j]? = some e' → IsEnd e' →
      f i = f j → ¬ i < j := by
    intro i j e e' he hend he' hend' heq hij
    obtain ⟨-, b, hb, hR⟩ := hf i e he hend
    obtain ⟨-, b', hb', hR'⟩ := hf j e' he' hend'
    rw [heq] at hb
    obtain rfl := Option.some_inj.mp (hb.symm.trans hb')
    obtain ⟨hi, rfl⟩ := List.getElem?_eq_some_iff.mp he
    obtain ⟨hj, rfl⟩ := List.getElem?_eq_some_iff.mp he'
    exact List.pairwise_iff_getElem.mp hpair i j hi hj hij hend hend' b hR hR'
  intro i j e e' he hend he' hend' heq
  apply le_antisymm
  · exact not_lt.mp (hlt j i e' e he' hend' he hend heq.symm)
  · exact not_lt.mp (hlt i j e e' he hend he' hend' heq)

end Correspondence

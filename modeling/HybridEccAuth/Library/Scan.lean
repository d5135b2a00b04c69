import Mathlib.Algebra.BigOperators.Group.List.Basic
import Mathlib.Data.Rat.Cast.Lemmas
import Mathlib.Tactic.FieldSimp
import Mathlib.Tactic.Linarith

/-!
# The cost of a linear search

`examined p as` is how many items of `as` a search from the front looks at, up to the first
one that satisfies `p`.  When the list is made of blocks of equal width, the place of the item
gives the cost (`examined_flatMap`), and the mean of these costs over all blocks is half the
blocks before, and the place in the block (`mean_of_places`).
-/

namespace Scan

variable {α β : Type*}

/-- How many items are examined, up to the first one that satisfies `p`. -/
def examined (p : α → Prop) [DecidablePred p] : List α → ℕ
  | [] => 0
  | a :: as => if p a then 1 else 1 + examined p as

variable {p : α → Prop} [DecidablePred p] {as bs : List α} {a : α}

/-- A search that finds nothing in the first part goes on in the second one. -/
lemma examined_append (h : ∀ a ∈ as, ¬ p a) :
    examined p (as ++ bs) = as.length + examined p bs := by
  induction as with
  | nil => exact (Nat.zero_add _).symm
  | cons a as ih =>
    obtain ⟨ha, has⟩ := List.forall_mem_cons.mp h
    rw [List.cons_append, examined, if_neg ha, ih has, List.length_cons]
    omega

/-- A search that finds something in the first part ends there. -/
lemma examined_append_of_mem (h : ∃ a ∈ as, p a) : examined p (as ++ bs) = examined p as := by
  induction as with
  | nil =>
    obtain ⟨a, ha, -⟩ := h
    exact absurd ha List.not_mem_nil
  | cons a as ih =>
    rw [List.cons_append, examined, examined]
    by_cases ha : p a
    · rw [if_pos ha, if_pos ha]
    · have hrest : ∃ b ∈ as, p b := by
        obtain ⟨b, hb, hpb⟩ := h
        exact ⟨b, (List.mem_cons.mp hb).resolve_left fun hab => ha (hab ▸ hpb), hpb⟩
      rw [if_neg ha, if_neg ha, ih hrest]

/-- A search that finds nothing examines everything. -/
lemma examined_of_none (h : ∀ a ∈ as, ¬ p a) : examined p as = as.length := by
  have hall : examined p (as ++ []) = as.length + examined p [] := examined_append h
  rwa [List.append_nil, examined, Nat.add_zero] at hall

/-- A search ends at the first item that it looks for. -/
lemma examined_append_cons (h : ∀ a ∈ as, ¬ p a) (ha : p a) :
    examined p (as ++ a :: bs) = as.length + 1 := by
  rw [examined_append h, examined, if_pos ha]

/-- In blocks of equal width, the item that is looked for is in the block with number `i`, behind
the items `before`. -/
theorem examined_flatMap {f : β → List α} {ys : List β} {w i : ℕ} {before after : List α}
    (hw : ∀ y ∈ ys, (f y).length = w) (hi : i < ys.length) (hsplit : f ys[i] = before ++ a :: after)
    (ha : p a) (hblocks : ∀ k (hk : k < i), ∀ x ∈ f ys[k], ¬ p x) (hbefore : ∀ x ∈ before, ¬ p x) :
    examined p (ys.flatMap f) = i * w + before.length + 1 := by
  induction ys generalizing i with
  | nil => cases hi
  | cons y ys ih =>
    obtain ⟨hy, hys⟩ := List.forall_mem_cons.mp hw
    rw [List.flatMap_cons]
    rcases i with _ | i
    · have hfirst : f y = before ++ a :: after := hsplit
      rw [hfirst, List.append_assoc, List.cons_append, examined_append_cons hbefore ha,
        Nat.zero_mul,
        Nat.zero_add]
    · have hnone : ∀ x ∈ f y, ¬ p x := hblocks 0 (Nat.succ_pos i)
      have hrest := ih hys (Nat.lt_of_succ_lt_succ hi) hsplit
        fun k hk => hblocks (k + 1) (Nat.succ_lt_succ hk)
      rw [examined_append hnone, hy, hrest, Nat.succ_mul]
      omega

/-- The sum of costs that grow by the same width from one place to the next. -/
lemma sum_places (n w k : ℕ) :
    2 * (((List.range n).map fun i => i * w + k).sum : ℚ) = n * ((n - 1) * w + 2 * k) := by
  induction n with
  | zero => simp
  | succ n ih =>
    rw [List.range_succ, List.map_append, List.sum_append, List.map_singleton, List.sum_singleton]
    push_cast at ih ⊢
    linarith

/-- The mean of costs that grow by the same width from one place to the next. -/
theorem mean_of_places {cost : β → ℕ} {ys : List β} {w k : ℕ}
    (h : ∀ i (hi : i < ys.length), cost ys[i] = i * w + k) (hys : ys ≠ []) :
    ((ys.map cost).sum : ℚ) / ys.length = (ys.length - 1) * w / 2 + k := by
  have hmap : ys.map cost = (List.range ys.length).map fun i => i * w + k :=
    List.ext_getElem (by simp) fun i hi _ => by simp [h i (by simpa using hi)]
  have hsum := sum_places ys.length w k
  have hpos : (ys.length : ℚ) ≠ 0 := by
    rw [Nat.cast_ne_zero]
    intro hzero
    exact hys (List.length_eq_zero_iff.mp hzero)
  rw [hmap]
  field_simp
  linarith

end Scan

import Mathlib.Data.List.Infix
import Mathlib.Tactic.Common

/-!
# Searching a list

`afterFirst pat s` is what follows the first occurrence of `pat` in `s`.  Two rules
move a search forward: over a part in which no occurrence begins
(`afterFirst_append_of_apart`), and over a quoted text, in which every quotation mark
is guarded by an escape mark before it (`afterFirst_quoted`).  A pattern that is
itself a quoted word, possibly followed by something, is found in such a text only at
its end, namely when the text ends with the word and a quotation mark before it.
-/

namespace Search

/-! ## Quoted texts -/

section Guarded

variable {α : Type*} {q e : α}

/-- After `prev`, every `q` of the text has an `e` before it. -/
def Guarded (q e : α) : α → List α → Prop
  | _, [] => True
  | prev, c :: s => (c = q → prev = e) ∧ Guarded q e c s

/-- A concatenation is guarded when its parts are, the second one after the end of the first. -/
lemma guarded_append {prev : α} {s t : List α} :
    Guarded q e prev (s ++ t) ↔ Guarded q e prev s ∧ Guarded q e (s.getLastD prev) t := by
  induction s generalizing prev with
  | nil => simp [Guarded]
  | cons c s ih =>
    rw [List.cons_append, Guarded, Guarded, ih, and_assoc, List.getLastD_cons]

/-- A text without quotation marks is guarded. -/
lemma guarded_of_not_mem {s : List α} (h : q ∉ s) (prev : α) : Guarded q e prev s := by
  induction s generalizing prev with
  | nil => trivial
  | cons c s ih =>
    rw [List.mem_cons, not_or] at h
    exact ⟨fun hc => absurd hc.symm h.1, ih h.2 c⟩

/-- After a mark that does not guard, a word and its closing quotation mark are read from a guarded
text exactly when the text is the word. -/
lemma prefix_quoted_iff {prev : α} (hprev : prev ≠ e) {key tail w rest : List α}
    (hq : q ∉ key) (he : e ∉ key) (hw : Guarded q e prev w) :
    key ++ q :: tail <+: w ++ q :: rest ↔ w = key ∧ tail <+: rest := by
  induction key generalizing prev w with
  | nil =>
    cases w with
    | nil => simp
    | cons c w =>
      have hc : c ≠ q := fun h => hprev (hw.1 h)
      simp [List.cons_prefix_cons, hc.symm]
  | cons k key ih =>
    rw [List.mem_cons, not_or] at hq he
    cases w with
    | nil => simp [List.cons_prefix_cons, Ne.symm hq.1]
    | cons c w =>
      rw [List.cons_append, List.cons_append, List.cons_prefix_cons, List.cons.injEq, and_assoc,
        eq_comm (a := k)]
      apply and_congr_right
      intro hck
      exact ih (hck ▸ Ne.symm he.1) hq.2 he.2 hw.2

end Guarded

/-! ## The first occurrence -/

variable {α : Type*} [DecidableEq α]

/-- What follows the first occurrence of a pattern. -/
def afterFirst (pat s : List α) : Option (List α) := (s.dropInfix? pat).map Prod.snd

/-- The search does not depend on what it has passed. -/
lemma map_snd_go (pat s acc acc' : List α) :
    (List.dropInfix?.go pat s acc).map Prod.snd = (List.dropInfix?.go pat s acc').map Prod.snd := by
  induction s generalizing acc acc' with
  | nil =>
    unfold List.dropInfix?.go
    split_ifs <;> rfl
  | cons a s ih =>
    unfold List.dropInfix?.go
    split
    · exact ih _ _
    · rfl

/-- Only the empty pattern occurs in the empty list. -/
lemma afterFirst_nil {pat : List α} (h : pat ≠ []) : afterFirst pat [] = none := by
  have hempty : pat.isEmpty = false := by simpa using h
  simp [afterFirst, List.dropInfix?, List.dropInfix?.go, hempty]

/-- An occurrence begins at the head, or it is found in the tail. -/
lemma afterFirst_cons (pat : List α) (a : α) (s : List α) :
    afterFirst pat (a :: s) =
      if pat <+: a :: s then some ((a :: s).drop pat.length) else afterFirst pat s := by
  have hgo : afterFirst pat (a :: s) = match (a :: s).dropPrefix? pat with
      | none => afterFirst pat s
      | some r => some r := by
    rw [afterFirst, List.dropInfix?, List.dropInfix?.go]
    split
    · rename_i hdrop
      rw [hdrop]
      exact map_snd_go pat s _ _
    · rename_i r hdrop
      rw [hdrop]
      rfl
  rw [hgo]
  split_ifs with h
  · obtain ⟨r, hr⟩ := h
    have hdrop : (a :: s).dropPrefix? pat = some r :=
      List.dropPrefix?_eq_some_iff.mpr ⟨pat, hr.symm, beq_self_eq_true pat⟩
    rw [hdrop, ← hr, List.drop_left]
  · have hdrop : (a :: s).dropPrefix? pat = none := by
      rw [Option.eq_none_iff_forall_not_mem]
      rintro r hr
      obtain ⟨pat', heq, hbeq⟩ := List.dropPrefix?_eq_some_iff.mp hr
      rw [eq_of_beq hbeq] at heq
      exact h ⟨r, heq.symm⟩
    rw [hdrop]

/-- What follows an occurrence follows it. -/
lemma append_of_afterFirst {pat s r : List α} (h : afterFirst pat s = some r) :
    ∃ p, s = p ++ pat ++ r := by
  obtain ⟨⟨p, r'⟩, hdrop, rfl⟩ := Option.map_eq_some_iff.mp h
  obtain ⟨⟨pat', heq, hbeq⟩, -⟩ := List.dropInfix?_eq_some_iff.mp hdrop
  rw [eq_of_beq hbeq] at heq
  exact ⟨p, heq⟩

/-- A pattern at the start is its first occurrence. -/
lemma afterFirst_append_self {pat : List α} (h : pat ≠ []) (s : List α) :
    afterFirst pat (pat ++ s) = some s := by
  obtain ⟨a, pat', rfl⟩ := List.exists_cons_of_ne_nil h
  rw [List.cons_append, afterFirst_cons, if_pos ⟨s, rfl⟩, ← List.cons_append, List.drop_left]

/-! ## Parts without an occurrence -/

/-- No part at the end of `lit` begins with the pattern, nor does the pattern begin with one. -/
def Apart (pat lit : List α) : Prop := ∀ u ∈ lit.tails, u ≠ [] → ¬ u <+: pat ∧ ¬ pat <+: u

instance (pat lit : List α) : Decidable (Apart pat lit) := by unfold Apart; infer_instance

/-- A search passes a part in which no occurrence begins, whatever comes after it. -/
theorem afterFirst_append_of_apart {pat lit : List α} (h : Apart pat lit) (s : List α) :
    afterFirst pat (lit ++ s) = afterFirst pat s := by
  induction lit with
  | nil => rfl
  | cons a lit ih =>
    have hhead := h (a :: lit) (by simp) (by simp)
    have htail : Apart pat lit := fun u hu => h u (by
      rw [List.mem_tails] at hu ⊢
      exact hu.trans (List.suffix_cons a lit))
    rw [List.cons_append, afterFirst_cons, if_neg, ih htail]
    -- of two beginnings of one list one is a beginning of the other
    intro hpat
    rcases List.prefix_or_prefix_of_prefix hpat (List.prefix_append (a :: lit) s) with hp | hp
    · exact hhead.2 hp
    · exact hhead.1 hp

/-- The same, with the first element apart. -/
lemma afterFirst_cons_append_of_apart {pat lit : List α} {a : α} (h : Apart pat (a :: lit))
    (s : List α) : afterFirst pat (a :: (lit ++ s)) = afterFirst pat s :=
  afterFirst_append_of_apart h s

/-! ## Occurrences in quoted texts -/

/-- In a guarded text before a quotation mark, a quoted word and what must follow it are found only
at the end; otherwise the search goes on at that quotation mark. -/
theorem afterFirst_quoted {q e : α} (hqe : q ≠ e) {prev : α} {key tail w rest : List α}
    (hq : q ∉ key)
    (he : e ∉ key) (hw : Guarded q e prev w) :
    afterFirst (q :: (key ++ q :: tail)) (w ++ q :: rest) =
      if q :: key <:+ w ∧ tail <+: rest then some (rest.drop tail.length)
      else afterFirst (q :: (key ++ q :: tail)) (q :: rest) := by
  induction w generalizing prev with
  | nil => simp
  | cons c w ih =>
    have hsuffix : q :: key <:+ c :: w ↔ (q = c ∧ key = w) ∨ q :: key <:+ w := by
      rw [List.suffix_cons_iff, List.cons.injEq]
    have hpat : q :: (key ++ q :: tail) <+: c :: (w ++ q :: rest) ↔
        (q = c ∧ key = w) ∧ tail <+: rest := by
      rw [List.cons_prefix_cons, and_assoc]
      apply and_congr_right
      intro hc
      rw [prefix_quoted_iff (hc ▸ hqe) hq he hw.2, eq_comm]
    rw [List.cons_append, afterFirst_cons _ c, ih hw.2]
    by_cases hfirst : (q = c ∧ key = w) ∧ tail <+: rest
    · rw [if_pos (hpat.mpr hfirst), if_pos ⟨hsuffix.mpr (Or.inl hfirst.1), hfirst.2⟩]
      obtain ⟨⟨rfl, rfl⟩, -⟩ := hfirst
      simp [List.drop_append, List.drop_eq_nil_of_le]
    · rw [if_neg (mt hpat.mp hfirst)]
      refine if_congr ?_ rfl rfl
      constructor
      · intro h
        exact ⟨hsuffix.mpr (Or.inr h.1), h.2⟩
      · rintro ⟨hw', htail⟩
        rcases hsuffix.mp hw' with h | h
        · exact absurd ⟨h, htail⟩ hfirst
        · exact ⟨h, htail⟩

end Search

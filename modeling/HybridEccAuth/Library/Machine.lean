import Mathlib.Data.List.Forall2
import Mathlib.Tactic.Common

/-!
# Deterministic machines

A machine is a function `step : σ → ι → ο × σ` from a state and an input to an output
and the next state.  `trace step s is` lists what comes out of a run on the inputs
`is`, each output with the state it is given in, `final step s is` is the state a run
ends in, and `AllSteps step P s is` says that a condition `P` on the state before a
step and on its input holds at every step of the run.

The rules: what every step keeps holds along every run (`invariant`), two machines whose steps agree
have runs that agree (`simulation`), and an invariant of the state and of what was observed so far
relates the observations of a run pairwise (`pairwise_events`), and a measure grows at most by what
is observed (`measure_final`).  All may assume a condition of every step.
-/

namespace Machine

variable {σ τ ι ο ο' : Type*}

/-- The outputs of a run, each with the state after it. -/
def trace (step : σ → ι → ο × σ) : σ → List ι → List (ο × σ)
  | _, [] => []
  | s, i :: is => step s i :: trace step (step s i).2 is

/-- The state a run ends in. -/
def final (step : σ → ι → ο × σ) (s : σ) (is : List ι) : σ := is.foldl (fun s i => (step s i).2) s

/-- A condition holds at every step of a run. -/
def AllSteps (step : σ → ι → ο × σ) (P : σ → ι → Prop) : σ → List ι → Prop
  | _, [] => True
  | s, i :: is => P s i ∧ AllSteps step P (step s i).2 is

/-- What an observer `f` of the steps sees along a run. -/
def events {α : Type*} (f : σ → ι → Option α) (step : σ → ι → ο × σ) : σ → List ι → List α
  | _, [] => []
  | s, i :: is => (f s i).toList ++ events f step (step s i).2 is

variable {step : σ → ι → ο × σ} {step' : τ → ι → ο' × τ} {P P' : σ → ι → Prop}

/-- A run in two parts. -/
lemma final_append (s : σ) (is js : List ι) :
    final step s (is ++ js) = final step (final step s is) js :=
  List.foldl_append

/-- A condition on a run in two parts. -/
lemma allSteps_append {s : σ} {is js : List ι} : AllSteps step P s (is ++ js) ↔
    AllSteps step P s is ∧ AllSteps step P (final step s is) js := by
  induction is generalizing s with
  | nil => simp [AllSteps, final]
  | cons i is ih =>
    rw [List.cons_append, AllSteps, AllSteps, ih, and_assoc]
    rfl

/-- A condition may be weakened. -/
lemma AllSteps.imp {s : σ} {is : List ι} (h : AllSteps step P s is)
    (himp : ∀ s i, P s i → P' s i) : AllSteps step P' s is := by
  induction is generalizing s with
  | nil => trivial
  | cons i is ih => exact ⟨himp s i h.1, ih h.2⟩

/-- Two conditions hold at every step when each does. -/
lemma allSteps_and {s : σ} {is : List ι} (h : AllSteps step P s is) (h' : AllSteps step P' s is) :
    AllSteps step (fun s i => P s i ∧ P' s i) s is := by
  induction is generalizing s with
  | nil => trivial
  | cons i is ih => exact ⟨⟨h.1, h'.1⟩, ih h.2 h'.2⟩

/-- What holds after every step is a condition on the steps. -/
lemma allSteps_of_trace {Q : ο × σ → Prop} {s : σ} {is : List ι} (h : ∀ x ∈ trace step s is, Q x) :
    AllSteps step (fun s i => Q (step s i)) s is := by
  induction is generalizing s with
  | nil => trivial
  | cons i is ih =>
    rw [trace, List.forall_mem_cons] at h
    exact ⟨h.1, ih h.2⟩

/-- A condition on the inputs alone is a condition on the steps. -/
lemma allSteps_of_inputs {Q : ι → Prop} {s : σ} {is : List ι} (h : ∀ i ∈ is, Q i) :
    AllSteps step (fun _ i => Q i) s is := by
  induction is generalizing s with
  | nil => trivial
  | cons i is ih =>
    rw [List.forall_mem_cons] at h
    exact ⟨h.1, ih h.2⟩

/-- What every step keeps holds in the state a run ends in. -/
theorem invariant_final {Inv : σ → Prop} (hstep : ∀ s i, Inv s → P s i → Inv (step s i).2) {s : σ}
    {is : List ι} (hs : Inv s) (hP : AllSteps step P s is) : Inv (final step s is) := by
  induction is generalizing s with
  | nil => exact hs
  | cons i is ih => exact ih (hstep s i hs hP.1) hP.2

/-- What every step keeps holds at every step of a run. -/
theorem invariant_allSteps {Inv : σ → Prop}
    (hstep : ∀ s i, Inv s → P s i → Inv (step s i).2) {s : σ}
    {is : List ι} (hs : Inv s) (hP : AllSteps step P s is) :
    AllSteps step (fun s i => Inv s ∧ P s i) s is := by
  induction is generalizing s with
  | nil => trivial
  | cons i is ih => exact ⟨⟨hs, hP.1⟩, ih (hstep s i hs hP.1) hP.2⟩

/-- Two machines whose steps agree have runs that agree, output by output and state by state. -/
theorem simulation {R : σ → τ → Prop} {A : ο → ο' → Prop}
    (hstep : ∀ s t i, R s t → P s i → A (step s i).1 (step' t i).1 ∧ R (step s i).2 (step' t i).2)
    {s : σ} {t : τ} {is : List ι} (hst : R s t) (hP : AllSteps step P s is) :
    List.Forall₂ (fun x y => A x.1 y.1 ∧ R x.2 y.2) (trace step s is) (trace step' t is) := by
  induction is generalizing s t with
  | nil => exact List.Forall₂.nil
  | cons i is ih =>
    obtain ⟨hout, hnext⟩ := hstep s t i hst hP.1
    exact List.Forall₂.cons ⟨hout, hnext⟩ (ih hnext hP.2)

/-- Two machines whose steps agree end their runs in states that agree. -/
theorem simulation_final {R : σ → τ → Prop}
    (hstep : ∀ s t i, R s t → P s i → R (step s i).2 (step' t i).2) {s : σ} {t : τ} {is : List ι}
    (hst : R s t) (hP : AllSteps step P s is) : R (final step s is) (final step' t is) := by
  induction is generalizing s t with
  | nil => exact hst
  | cons i is ih => exact ih (hstep s t i hst hP.1) hP.2

/-- An observer that sees what comes out of a step sees what comes out of a run. -/
lemma map_events {α β : Type*} {f : σ → ι → Option α} {g : α → β} {h : ο → Option β}
    (hstep : ∀ s i, (f s i).map g = h (step s i).1) (s : σ) (is : List ι) :
    (events f step s is).map g = (trace step s is).filterMap fun x => h x.1 := by
  induction is generalizing s with
  | nil => rfl
  | cons i is ih =>
    rw [events, trace, List.map_append, ih, List.filterMap_cons, ← hstep s i]
    rcases f s i with _ | a <;> rfl

/-- A condition on the states that no step establishes holds at every step when it holds in the
state a run ends in. -/
lemma allSteps_of_final {Q : σ → Prop} (hstep : ∀ s i, Q (step s i).2 → Q s) {s : σ} {is : List ι}
    (h : Q (final step s is)) : Q s ∧ AllSteps step (fun s _ => Q s) s is := by
  induction is generalizing s with
  | nil => exact ⟨h, trivial⟩
  | cons i is ih =>
    obtain ⟨hnext, hrest⟩ := ih h
    exact ⟨hstep s i hnext, hstep s i hnext, hrest⟩

/-- Deleting inputs from a run.  If the inputs that are kept give the same outputs in related
states, and every input keeps the state related, to the other one's next state or, when it is
deleted, to the other one as it is, then the outputs of the kept inputs and the relation of the
final states do not depend on the deleted ones. -/
theorem delete_inputs {R : σ → σ → Prop} {keep : ι → Prop} [DecidablePred keep]
    (hkeep : ∀ s t i, R s t → P s i → keep i →
      (step s i).1 = (step t i).1 ∧ R (step s i).2 (step t i).2)
    (hdelete : ∀ s t i, R s t → P s i → ¬ keep i → R (step s i).2 t) {s t : σ} {is : List ι}
    (hst : R s t) (hP : AllSteps step P s is) :
    events (fun s i => if keep i then some (step s i).1 else none) step s is =
        (trace step t (is.filter keep)).map Prod.fst ∧
      R (final step s is) (final step t (is.filter keep)) := by
  induction is generalizing s t with
  | nil => exact ⟨rfl, hst⟩
  | cons i is ih =>
    by_cases hi : keep i
    · obtain ⟨hout, hnext⟩ := hkeep s t i hst hP.1 hi
      obtain ⟨houts, hfinal⟩ := ih hnext hP.2
      rw [List.filter_cons_of_pos (by simpa using hi), events, if_pos hi, houts, trace, hout]
      exact ⟨rfl, hfinal⟩
    · obtain ⟨houts, hfinal⟩ := ih (hdelete s t i hst hP.1 hi) hP.2
      rw [List.filter_cons_of_neg (by simpa using hi), events, if_neg hi, houts]
      exact ⟨rfl, hfinal⟩

/-- What is seen along a run is pairwise related, if an invariant of the state and of what was seen
before relates every new event to the earlier ones. -/
theorem pairwise_events {α : Type*} {f : σ → ι → Option α} {R : α → α → Prop}
    {Inv : List α → σ → Prop}
    (hstep : ∀ seen s i, Inv seen s → P s i →
      (∀ a, f s i = some a → ∀ b ∈ seen, R b a) ∧ Inv (seen ++ (f s i).toList) (step s i).2)
    {s : σ} {is : List ι} (hs : Inv [] s) (hP : AllSteps step P s is) :
    (events f step s is).Pairwise R := by
  have hrun : ∀ seen : List α, seen.Pairwise R → Inv seen s →
      (seen ++ events f step s is).Pairwise R := by
    clear hs
    induction is generalizing s with
    | nil =>
      intro seen hseen _
      rwa [events, List.append_nil]
    | cons i is ih =>
      intro seen hseen hinv
      obtain ⟨hnew, hnext⟩ := hstep seen s i hinv hP.1
      have hseen' : (seen ++ (f s i).toList).Pairwise R := by
        rw [List.pairwise_append]
        refine ⟨hseen, ?_, fun b hb a ha => hnew a (Option.mem_toList.mp ha) b hb⟩
        rcases f s i with _ | a
        · exact List.Pairwise.nil
        · exact List.pairwise_singleton R a
      rw [events, ← List.append_assoc]
      exact ih hP.2 _ hseen' hnext
  exact hrun [] List.Pairwise.nil hs

/-- An invariant of the state and of what was seen before holds of the state a run ends in and of
everything that was seen. -/
theorem invariant_events {α : Type*} {f : σ → ι → Option α} {Inv : List α → σ → Prop}
    (hstep : ∀ seen s i, Inv seen s → P s i → Inv (seen ++ (f s i).toList) (step s i).2) {s : σ}
    {is : List ι} (hs : Inv [] s) (hP : AllSteps step P s is) :
    Inv (events f step s is) (final step s is) := by
  have hrun : ∀ seen, Inv seen s → Inv (seen ++ events f step s is) (final step s is) := by
    clear hs
    induction is generalizing s with
    | nil =>
      intro seen hseen
      rwa [events, List.append_nil]
    | cons i is ih =>
      intro seen hseen
      rw [events, ← List.append_assoc]
      exact ih hP.2 _ (hstep seen s i hseen hP.1)
  exact hrun [] hs

/-- What is seen along a run in two parts. -/
lemma events_append {α : Type*} {f : σ → ι → Option α} (s : σ) (is js : List ι) :
    events f step s (is ++ js) = events f step s is ++ events f step (final step s is) js := by
  induction is generalizing s with
  | nil => rfl
  | cons i is ih =>
    rw [List.cons_append, events, events, ih, List.append_assoc]
    rfl

/-- What is seen of what an observer sees. -/
lemma filterMap_events {α β : Type*} {f : σ → ι → Option α} {g : α → Option β} (s : σ)
    (is : List ι) :
    (events f step s is).filterMap g = events (fun s i => (f s i).bind g) step s is := by
  induction is generalizing s with
  | nil => rfl
  | cons i is ih =>
    rw [events, events, List.filterMap_append, ih]
    rcases f s i with _ | a
    · rfl
    · rw [Option.toList_some, Option.bind_some, List.filterMap_cons, List.filterMap_nil]
      rcases g a with _ | b <;> rfl

/-- Where in a run an observation was made. -/
lemma exists_of_events_eq_append_cons {α : Type*} {f : σ → ι → Option α} {s : σ} {is : List ι}
    {xs ys : List α} {a : α} (h : events f step s is = xs ++ a :: ys) :
    ∃ is₁ i is₂, is = is₁ ++ i :: is₂ ∧ events f step s is₁ = xs ∧
      f (final step s is₁) i = some a ∧ events f step (step (final step s is₁) i).2 is₂ = ys := by
  induction is generalizing s xs with
  | nil => simp [events] at h
  | cons i is ih =>
    rw [events] at h
    rcases hseen : f s i with _ | b
    · rw [hseen, Option.toList_none, List.nil_append] at h
      obtain ⟨is₁, j, is₂, rfl, hxs, hj, hys⟩ := ih h
      refine ⟨i :: is₁, j, is₂, rfl, ?_, hj, hys⟩
      rw [events, hseen, Option.toList_none, List.nil_append, hxs]
    · rw [hseen, Option.toList_some, List.singleton_append] at h
      rcases xs with _ | ⟨x, xs⟩
      · obtain ⟨rfl, rfl⟩ := List.cons.inj h
        exact ⟨[], i, is, rfl, rfl, hseen, rfl⟩
      · obtain ⟨rfl, hrest⟩ := List.cons.inj h
        obtain ⟨is₁, j, is₂, rfl, hxs, hj, hys⟩ := ih hrest
        refine ⟨i :: is₁, j, is₂, rfl, ?_, hj, hys⟩
        rw [events, hseen, hxs]
        rfl

/-- A measure that no step decreases, and that a step raises by at most one and only if something of
a kind is seen then, grows along a run by at most the number of these observations. -/
theorem measure_final {α : Type*} {f : σ → ι → Option α} {p : α → Bool} {μ : σ → ℕ} {Inv : σ → Prop}
    (hstep : ∀ s i, Inv s → P s i → Inv (step s i).2 ∧ μ s ≤ μ (step s i).2 ∧
      μ (step s i).2 ≤ μ s + (f s i).toList.countP p)
    {s : σ} {is : List ι} (hs : Inv s) (hP : AllSteps step P s is) :
    μ s ≤ μ (final step s is) ∧ μ (final step s is) ≤ μ s + (events f step s is).countP p := by
  induction is generalizing s with
  | nil => exact ⟨Nat.le_refl _, Nat.le_refl _⟩
  | cons i is ih =>
    obtain ⟨hnext, hlow, hhigh⟩ := hstep s i hs hP.1
    obtain ⟨hlow', hhigh'⟩ := ih hnext hP.2
    have hfinal : final step s (i :: is) = final step (step s i).2 is := rfl
    rw [hfinal, events, List.countP_append]
    exact ⟨Nat.le_trans hlow hlow', by omega⟩

end Machine

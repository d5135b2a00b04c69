import Mathlib.Tactic.Common

/-!
# Stateful computations that may raise

A computation of type `StateExcept ε σ α` reads and writes a state `σ` and either
returns an `α` or raises an `ε`; the state that was reached is kept in both cases.

`Triple P x Q E` says that from a state with `P` the computation `x` returns with `Q`
or raises with `E`.  The rules below follow the shape of a program: `Triple.pure`,
`Triple.lift`, `Triple.bind`, the rule of consequence `Triple.imp`, and one rule for
each of the loops `List.foldlM`, `List.mapM` and `List.findSomeM?`.

`Yields x r` says that the outcome of `x` is `r` from every state, so that the state only
counts what happens; it has rules of the same shapes.
-/

/-- Computations with a state that is kept when an exception is raised. -/
abbrev StateExcept (ε σ : Type) := ExceptT ε (StateM σ)

namespace StateExcept

variable {ε σ α β : Type}

/-- The outcome and the state it is reached in. -/
def outcome (x : StateExcept ε σ α) (s : σ) : Except ε α × σ := x.run.run s

/-- Changes the state. -/
def modifyState (f : σ → σ) : StateExcept ε σ Unit := fun s => (.ok (), f s)

/-- A result that does not depend on the state. -/
def lift (x : Except ε α) : StateExcept ε σ α := fun s => (x, s)

/-- From a state with `P`, the computation returns with `Q` or raises with `E`. -/
def Triple (P : σ → Prop) (x : StateExcept ε σ α) (Q : α → σ → Prop) (E : ε → σ → Prop) : Prop :=
  ∀ s, P s → (∃ a s', x.outcome s = (.ok a, s') ∧ Q a s') ∨
    ∃ e s', x.outcome s = (.error e, s') ∧ E e s'

variable {P P' : σ → Prop} {Q Q' : α → σ → Prop} {R : β → σ → Prop} {E E' : ε → σ → Prop}
  {x : StateExcept ε σ α} {f : α → StateExcept ε σ β}

/-- What the outcome of a bound computation is, by the outcome of its first part. -/
lemma outcome_bind (x : StateExcept ε σ α) (f : α → StateExcept ε σ β) (s : σ) :
    (x >>= f).outcome s = match x.outcome s with
      | (.ok a, s') => (f a).outcome s'
      | (.error e, s') => (.error e, s') := by
  show ExceptT.bind x f s = _
  unfold ExceptT.bind outcome ExceptT.mk ExceptT.run
  simp only [bind, StateT.bind, StateT.run]
  rcases x s with ⟨r, s'⟩
  cases r <;> rfl

/-- A result that is returned is passed on. -/
lemma lift_ok_bind (a : α) (f : α → StateExcept ε σ β) :
    (StateExcept.lift (.ok a) : StateExcept ε σ α) >>= f = f a := rfl

/-- A search ends with the exception that its first round raises. -/
lemma outcome_findSomeM?_cons_error {f : α → StateExcept ε σ (Option β)} {a : α} {as : List α}
    {e : ε} {s s' : σ} (h : (f a).outcome s = (.error e, s')) :
    ((a :: as).findSomeM? f).outcome s = (.error e, s') := by
  rw [List.findSomeM?, outcome_bind, h]

/-- A search none of whose rounds finds or changes anything finds and changes nothing. -/
lemma outcome_findSomeM?_none {f : α → StateExcept ε σ (Option β)} {as : List α}
    (h : ∀ a ∈ as, ∀ s, (f a).outcome s = (.ok none, s)) (s : σ) :
    (as.findSomeM? f).outcome s = (.ok none, s) := by
  induction as with
  | nil => rfl
  | cons a as ih =>
    obtain ⟨ha, has⟩ := List.forall_mem_cons.mp h
    rw [List.findSomeM?, outcome_bind, ha]
    exact ih has

/-- A search that finds nothing at first goes on from the state it has reached. -/
lemma outcome_findSomeM?_append {f : α → StateExcept ε σ (Option β)} {as : List α} {s s' : σ}
    (h : (as.findSomeM? f).outcome s = (.ok none, s')) (bs : List α) :
    ((as ++ bs).findSomeM? f).outcome s = (bs.findSomeM? f).outcome s' := by
  induction as generalizing s with
  | nil =>
    cases h
    rfl
  | cons a as ih =>
    rw [List.findSomeM?, outcome_bind] at h
    rw [List.cons_append, List.findSomeM?, outcome_bind]
    rcases hrun : (f a).outcome s with ⟨e | _ | b, s₁⟩
    · rw [hrun] at h
      cases h
    · rw [hrun] at h
      exact ih h
    · rw [hrun] at h
      cases h

/-- The rule of returning a value. -/
lemma Triple.pure {a : α} (h : ∀ s, P s → Q a s) : Triple P (pure a : StateExcept ε σ α) Q E :=
  fun s hs => Or.inl ⟨a, s, rfl, h s hs⟩

/-- The rule of a result that does not depend on the state. -/
lemma Triple.lift {r : Except ε α} (hok : ∀ a s, r = .ok a → P s → Q a s)
    (herr : ∀ e s, r = .error e → P s → E e s) :
    Triple P (StateExcept.lift r : StateExcept ε σ α) Q E := by
  intro s hs
  cases r with
  | ok a => exact Or.inl ⟨a, s, rfl, hok a s rfl hs⟩
  | error e => exact Or.inr ⟨e, s, rfl, herr e s rfl hs⟩

/-- The rule of changing the state. -/
lemma Triple.modifyState {f : σ → σ} {Q : Unit → σ → Prop} (h : ∀ s, P s → Q () (f s)) :
    Triple P (StateExcept.modifyState f : StateExcept ε σ Unit) Q E :=
  fun s hs => Or.inl ⟨(), f s, rfl, h s hs⟩

/-- The rule of one computation after the other. -/
lemma Triple.bind (hx : Triple P x Q E) (hf : ∀ a, Triple (Q a) (f a) R E) :
    Triple P (x >>= f) R E := by
  intro s hs
  rw [outcome_bind]
  rcases hx s hs with ⟨a, s', hrun, hq⟩ | ⟨e, s', hrun, he⟩
  · rw [hrun]
    exact hf a s' hq
  · rw [hrun]
    exact Or.inr ⟨e, s', rfl, he⟩

/-- The rule of consequence. -/
lemma Triple.imp (h : Triple P x Q E) (hP : ∀ s, P' s → P s) (hQ : ∀ a s, Q a s → Q' a s)
    (hE : ∀ e s, E e s → E' e s) : Triple P' x Q' E' := by
  intro s hs
  rcases h s (hP s hs) with ⟨a, s', hrun, hq⟩ | ⟨e, s', hrun, he⟩
  · exact Or.inl ⟨a, s', hrun, hQ a s' hq⟩
  · exact Or.inr ⟨e, s', hrun, hE e s' he⟩

/-- A loop that passes a value along keeps an invariant that each of its rounds keeps. -/
lemma Triple.foldlM {f : β → α → StateExcept ε σ β} {I : β → σ → Prop} {as : List α}
    (h : ∀ a ∈ as, ∀ b, Triple (I b) (f b a) I E) (b : β) :
    Triple (I b) (as.foldlM f b) I E := by
  induction as generalizing b with
  | nil => exact Triple.pure fun s hs => hs
  | cons a as ih =>
    obtain ⟨ha, has⟩ := List.forall_mem_cons.mp h
    rw [List.foldlM_cons]
    exact (ha b).bind fun b' => ih has b'

/-- A loop that collects one result for each item. -/
lemma Triple.mapM {f : α → StateExcept ε σ β} {as : List α} {S : α → β → Prop}
    (h : ∀ a ∈ as, Triple (fun _ => True) (f a) (fun b _ => S a b) E) :
    Triple (fun _ => True) (as.mapM f) (fun bs _ => List.Forall₂ S as bs) E := by
  induction as with
  | nil => exact Triple.pure fun _ _ => .nil
  | cons a as ih =>
    obtain ⟨ha, has⟩ := List.forall_mem_cons.mp h
    rw [List.mapM_cons]
    apply ha.bind
    intro b s hb
    exact Triple.bind (ih has) (fun bs => Triple.pure fun s hbs => .cons hb hbs) s trivial

/-- A search keeps an invariant that each round without a result keeps; what it finds satisfies what
the round that found it ensures. -/
lemma Triple.findSomeM? {f : α → StateExcept ε σ (Option β)} {I : σ → Prop} {as : List α}
    (h : ∀ a ∈ as, Triple I (f a) (fun r s => I s ∧ ∀ b, r = some b → R b s) E) :
    Triple I (as.findSomeM? f) (fun r s => I s ∧ ∀ b, r = some b → R b s) E := by
  induction as with
  | nil => exact Triple.pure fun s hs => ⟨hs, by simp⟩
  | cons a as ih =>
    obtain ⟨ha, has⟩ := List.forall_mem_cons.mp h
    apply ha.bind
    intro r
    cases r with
    | none => exact (ih has).imp (fun s hs => hs.1) (fun _ _ hq => hq) (fun _ _ he => he)
    | some b => exact Triple.pure fun s hs => hs

/-! ## Outcomes that do not depend on the state -/

/-- From every state the computation has the outcome `r`. -/
def Yields (x : StateExcept ε σ α) (r : Except ε α) : Prop := ∀ s, (x.outcome s).1 = r

/-- A returned value is the outcome. -/
lemma yields_pure (a : α) : Yields (Pure.pure a : StateExcept ε σ α) (.ok a) := fun _ => rfl

/-- A lifted result is the outcome. -/
lemma yields_lift (r : Except ε α) :
    Yields (StateExcept.lift r : StateExcept ε σ α) r := fun _ => rfl

/-- Changing the state succeeds. -/
lemma yields_modifyState (f : σ → σ) :
    Yields (StateExcept.modifyState f : StateExcept ε σ Unit) (.ok ()) := fun _ => rfl

/-- The outcome of one computation after a successful one. -/
lemma Yields.bind {a : α} {r : Except ε β} (hx : Yields x (.ok a)) (hf : Yields (f a) r) :
    Yields (x >>= f) r := by
  intro s
  have ha := hx s
  rw [outcome_bind]
  rcases hrun : x.outcome s with ⟨y, s'⟩
  rw [hrun] at ha
  obtain rfl : y = .ok a := ha
  exact hf s'

/-- What raises is not continued. -/
lemma Yields.bind_error {e : ε} (hx : Yields x (.error e)) : Yields (x >>= f) (.error e) := by
  intro s
  have he := hx s
  rw [outcome_bind]
  rcases hrun : x.outcome s with ⟨y, s'⟩
  rw [hrun] at he
  obtain rfl : y = .error e := he
  rfl

/-- One computation after the other, when the outcomes of both do not depend on the state. -/
lemma exists_yields_bind (hx : ∃ r, Yields x r) (hf : ∀ a, ∃ r, Yields (f a) r) :
    ∃ r, Yields (x >>= f) r := by
  obtain ⟨e | a, hr⟩ := hx
  · exact ⟨_, hr.bind_error⟩
  · obtain ⟨r, hr'⟩ := hf a
    exact ⟨r, hr.bind hr'⟩

/-- A loop that passes a value along. -/
lemma exists_yields_foldlM {f : β → α → StateExcept ε σ β} (h : ∀ b a, ∃ r, Yields (f b a) r)
    (as : List α) (b : β) : ∃ r, Yields (as.foldlM f b) r := by
  induction as generalizing b with
  | nil => exact ⟨_, yields_pure b⟩
  | cons a as ih =>
    rw [List.foldlM_cons]
    exact exists_yields_bind (h b a) ih

/-- A search. -/
lemma exists_yields_findSomeM? {f : α → StateExcept ε σ (Option β)} (h : ∀ a, ∃ r, Yields (f a) r)
    (as : List α) : ∃ r, Yields (as.findSomeM? f) r := by
  induction as with
  | nil => exact ⟨_, yields_pure none⟩
  | cons a as ih =>
    apply exists_yields_bind (h a)
    intro r
    rcases r with _ | b
    · exact ih
    · exact ⟨_, yields_pure (some b)⟩

/-- A loop that passes a value along, when each round returns, as long as the value satisfies what
the rounds keep. -/
lemma Yields.foldlM {f : β → α → StateExcept ε σ β} {g : β → α → β} {P : β → Prop} {as : List α}
    (h : ∀ a ∈ as, ∀ b, P b → Yields (f b a) (.ok (g b a)) ∧ P (g b a)) {b : β} (hb : P b) :
    Yields (as.foldlM f b) (.ok (as.foldl g b)) := by
  induction as generalizing b with
  | nil => exact yields_pure b
  | cons a as ih =>
    obtain ⟨ha, has⟩ := List.forall_mem_cons.mp h
    obtain ⟨hyields, hnext⟩ := ha b hb
    rw [List.foldlM_cons]
    exact hyields.bind (ih has hnext)

/-- A search, when each round returns. -/
lemma Yields.findSomeM? {f : α → StateExcept ε σ (Option β)} {g : α → Option β} {as : List α}
    (h : ∀ a ∈ as, Yields (f a) (.ok (g a))) :
    Yields (as.findSomeM? f) (.ok (as.findSome? g)) := by
  induction as with
  | nil => exact yields_pure none
  | cons a as ih =>
    obtain ⟨ha, has⟩ := List.forall_mem_cons.mp h
    apply ha.bind
    rw [List.findSome?_cons]
    rcases g a with _ | b
    · exact ih has
    · exact yields_pure (some b)

/-- A computation returns its value. -/
lemma Yields.triple {a : α} (hx : Yields x (.ok a)) : Triple P x (fun b _ => b = a) E := by
  intro s _
  have ha := hx s
  rcases hrun : x.outcome s with ⟨r, s'⟩
  rw [hrun] at ha
  obtain rfl : r = .ok a := ha
  exact Or.inl ⟨a, s', rfl, rfl⟩

end StateExcept

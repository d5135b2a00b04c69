import Mathlib.Data.Set.Basic

/-!
# Symbolic derivations

Terms over names, one-way functions, pairs and encryption, and what can be derived from a
set of known terms.  From terms that hide their parts, a value of a one-way function is derived
only when it is known or computed from its arguments (`derives_apply_iff`), and a
name only when it is known (`derives_name_iff`).
-/

namespace Symbolic

variable {ν φ : Type*}

/-- Terms over names `ν` and one-way functions `φ` of two arguments. -/
inductive Term (ν φ : Type*)
  | name (n : ν)
  | apply (f : φ) (a b : Term ν φ)
  | pair (a b : Term ν φ)
  | encrypt (key message : Term ν φ)

/-- What can be derived from known terms. -/
inductive Derives (known : Set (Term ν φ)) : Term ν φ → Prop
  | known {t : Term ν φ} : t ∈ known → Derives known t
  | apply (f : φ) {a b : Term ν φ} :
    Derives known a → Derives known b → Derives known (.apply f a b)
  | pair {a b : Term ν φ} : Derives known a → Derives known b → Derives known (.pair a b)
  | fst {a b : Term ν φ} : Derives known (.pair a b) → Derives known a
  | snd {a b : Term ν φ} : Derives known (.pair a b) → Derives known b
  | encrypt {key message : Term ν φ} : Derives known key → Derives known message →
      Derives known (.encrypt key message)
  | decrypt {key message : Term ν φ} : Derives known (.encrypt key message) → Derives known key →
      Derives known message

/-- Terms that hide their parts: names and values of one-way functions. -/
def Term.Sealed : Term ν φ → Prop
  | name _ | apply _ _ _ => True
  | pair _ _ | encrypt _ _ => False

/-- What can be composed from known terms, without taking any apart. -/
def Composes (known : Set (Term ν φ)) : Term ν φ → Prop
  | .name n => .name n ∈ known
  | .apply f a b => .apply f a b ∈ known ∨ Composes known a ∧ Composes known b
  | .pair a b => Composes known a ∧ Composes known b
  | .encrypt key message => Composes known key ∧ Composes known message

variable {known : Set (Term ν φ)}

/-- A known term that hides its parts is composed. -/
lemma composes_of_mem {t : Term ν φ} (hsealed : t.Sealed) (h : t ∈ known) : Composes known t := by
  cases t with
  | name n => exact h
  | apply f a b => exact Or.inl h
  | pair a b => exact hsealed.elim
  | encrypt key message => exact hsealed.elim

/-- What is composed is derived. -/
lemma Composes.derives {t : Term ν φ} (h : Composes known t) : Derives known t := by
  induction t with
  | name n => exact .known h
  | apply f a b iha ihb =>
    rcases h with h | ⟨ha, hb⟩
    · exact .known h
    · exact .apply f (iha ha) (ihb hb)
  | pair a b iha ihb => exact .pair (iha h.1) (ihb h.2)
  | encrypt key message ihk ihm => exact .encrypt (ihk h.1) (ihm h.2)

/-- From terms that hide their parts, everything that is derived is composed: taking apart what was
composed gives nothing new. -/
theorem derives_iff_composes (hsealed : ∀ t ∈ known, t.Sealed) {t : Term ν φ} :
    Derives known t ↔ Composes known t := by
  refine ⟨fun h => ?_, Composes.derives⟩
  induction h with
  | known h => exact composes_of_mem (hsealed _ h) h
  | apply f _ _ iha ihb => exact Or.inr ⟨iha, ihb⟩
  | pair _ _ iha ihb => exact ⟨iha, ihb⟩
  | fst _ ih => exact ih.1
  | snd _ ih => exact ih.2
  | encrypt _ _ ihk ihm => exact ⟨ihk, ihm⟩
  | decrypt _ _ ih _ => exact ih.2

/-- A name is derived only when it is known. -/
lemma derives_name_iff (hsealed : ∀ t ∈ known, t.Sealed) {n : ν} :
    Derives known (.name n) ↔ .name n ∈ known :=
  derives_iff_composes hsealed

/-- A value of a one-way function is derived only when it is known, or when its arguments are. -/
theorem derives_apply_iff (hsealed : ∀ t ∈ known, t.Sealed) {f : φ} {a b : Term ν φ} :
    Derives known (.apply f a b) ↔
      .apply f a b ∈ known ∨ Derives known a ∧ Derives known b := by
  rw [derives_iff_composes hsealed, Composes, derives_iff_composes hsealed,
    derives_iff_composes hsealed]

/-- A pair is derived exactly when both of its parts are. -/
lemma derives_pair_iff {a b : Term ν φ} :
    Derives known (.pair a b) ↔ Derives known a ∧ Derives known b :=
  ⟨fun h => ⟨.fst h, .snd h⟩, fun h => .pair h.1 h.2⟩

/-- An encryption is derived only when its key and its message are. -/
lemma derives_encrypt_iff (hsealed : ∀ t ∈ known, t.Sealed) {key message : Term ν φ} :
    Derives known (.encrypt key message) ↔ Derives known key ∧ Derives known message := by
  rw [derives_iff_composes hsealed, Composes, derives_iff_composes hsealed,
    derives_iff_composes hsealed]

end Symbolic

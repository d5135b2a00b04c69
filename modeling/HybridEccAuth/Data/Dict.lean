import Mathlib.Algebra.GroupWithZero.Nat
import Mathlib.Data.List.Nodup
import Mathlib.Data.List.Basic
import Mathlib.Tactic.Common

/-!
# Insertion-ordered dictionaries

A `Dict K V` is a finite map that remembers the order in which its keys were
first written, as the built-in dictionary of Python does: writing a present key
replaces its value in place, writing a fresh key appends it, and iteration runs
over the entries in order.  Uniqueness of the keys is a field of the structure,
so `get` and membership in `entries` say the same thing (`mem_entries_iff`).

All laws are stated through `get`; the laws of the writes are rewriting rules
(`get_set`, `get_erase`, `get_eraseIf`) tagged `simp`.
-/

namespace HybridEccAuth

/-- A finite map with unique keys, in the order in which the keys were first written. -/
structure Dict (K V : Type*) where
  /-- The key-value pairs, oldest key first. -/
  entries : List (K × V)
  /-- No key occurs twice. -/
  nodup : (entries.map Prod.fst).Nodup
  deriving DecidableEq

namespace Dict

variable {K V : Type*} [DecidableEq K]

/-- The dictionary without entries. -/
def empty : Dict K V := ⟨[], List.nodup_nil⟩

instance : Inhabited (Dict K V) := ⟨empty⟩

/-- The keys in the order of insertion. -/
def keys (d : Dict K V) : List K := d.entries.map Prod.fst

/-- The number of entries. -/
def size (d : Dict K V) : ℕ := d.entries.length

/-- The value stored under a key, if any. -/
def get (d : Dict K V) (k : K) : Option V :=
  (d.entries.find? fun p => p.1 = k).map Prod.snd

/-- The list of entries after writing `v` under `k`. -/
def setEntries (k : K) (v : V) : List (K × V) → List (K × V)
  | [] => [(k, v)]
  | p :: ps => if p.1 = k then (k, v) :: ps else p :: setEntries k v ps

/-- Writing keeps every other key and adds `k` at the end when it is new. -/
lemma mem_map_fst_setEntries {k k' : K} {v : V} {l : List (K × V)} :
    k' ∈ (setEntries k v l).map Prod.fst ↔ k' = k ∨ k' ∈ l.map Prod.fst := by
  induction l with
  | nil => simp [setEntries]
  | cons p ps ih =>
    unfold setEntries
    split_ifs with h
    · simp [h]
    · simp only [List.map_cons, List.mem_cons, ih]
      tauto

/-- Writing does not duplicate a key. -/
lemma nodup_setEntries {k : K} {v : V} {l : List (K × V)} (hl : (l.map Prod.fst).Nodup) :
    ((setEntries k v l).map Prod.fst).Nodup := by
  induction l with
  | nil => simp [setEntries]
  | cons p ps ih =>
    rw [List.map_cons, List.nodup_cons] at hl
    unfold setEntries
    split_ifs with h
    · rw [List.map_cons, List.nodup_cons]
      exact ⟨h ▸ hl.1, hl.2⟩
    · rw [List.map_cons, List.nodup_cons, mem_map_fst_setEntries]
      refine ⟨?_, ih hl.2⟩
      rintro (hk | hk)
      · exact h hk
      · exact hl.1 hk

/-- Write `v` under `k`, in place when `k` is present and at the end otherwise. -/
def set (d : Dict K V) (k : K) (v : V) : Dict K V :=
  ⟨setEntries k v d.entries, nodup_setEntries d.nodup⟩

/-- Remove every entry whose key and value satisfy `p`. -/
def eraseIf (d : Dict K V) (p : K → V → Bool) : Dict K V :=
  ⟨d.entries.filter fun e => !p e.1 e.2, d.nodup.sublist (List.filter_sublist.map Prod.fst)⟩

/-- Remove the entry of `k`, if any. -/
def erase (d : Dict K V) (k : K) : Dict K V := d.eraseIf fun k' _ => k' = k

/-- Nothing is stored in the empty dictionary. -/
@[simp] lemma get_empty (k : K) : (empty : Dict K V).get k = none := rfl

/-- Being an entry and being found by `get` are the same thing. -/
lemma mem_entries_iff {d : Dict K V} {k : K} {v : V} : (k, v) ∈ d.entries ↔ d.get k = some v := by
  obtain ⟨l, hl⟩ := d
  unfold get
  simp only
  induction l with
  | nil => simp
  | cons p ps ih =>
    rw [List.map_cons, List.nodup_cons] at hl
    by_cases h : p.1 = k
    · have hmem : (k, v) ∉ ps := fun hv => hl.1 (h ▸ List.mem_map_of_mem (f := Prod.fst) hv)
      simp only [List.mem_cons, hmem, or_false, List.find?_cons, h, decide_true, Option.map_some,
        Option.some.injEq]
      exact ⟨fun e => e ▸ rfl, fun e => Prod.ext h.symm e.symm⟩
    · have hne : (k, v) ≠ p := fun e => h (e ▸ rfl)
      simp only [List.mem_cons, hne, false_or, List.find?_cons, h, decide_false, ih hl.2]

/-- A key is listed exactly when something is stored under it. -/
lemma mem_keys_iff {d : Dict K V} {k : K} : k ∈ d.keys ↔ ∃ v, d.get k = some v := by
  simp only [keys, List.mem_map, Prod.exists, exists_and_right, exists_eq_right, mem_entries_iff]

/-- After a write of `k`, the entry of `k` is new and the others are as before. -/
@[simp] lemma get_set (d : Dict K V) (k k' : K) (v : V) :
    (d.set k v).get k' = if k' = k then some v else d.get k' := by
  obtain ⟨l, hl⟩ := d
  unfold get set
  simp only
  induction l with
  | nil =>
    by_cases h : k' = k
    · simp [setEntries, h]
    · have h' : ¬ k = k' := fun e => h e.symm
      simp [setEntries, h, h']
  | cons p ps ih =>
    rw [List.map_cons, List.nodup_cons] at hl
    unfold setEntries
    by_cases hp : p.1 = k
    · rw [if_pos hp]
      by_cases h : k' = k
      · simp [h]
      · have h' : ¬ k = k' := fun e => h e.symm
        simp [h, h', hp]
    · rw [if_neg hp]
      by_cases hk : p.1 = k'
      · have h : ¬ k' = k := fun e => hp (hk.trans e)
        simp [hk, h]
      · simpa only [List.find?_cons, hk, decide_false] using ih hl.2

/-- What a dictionary of one key holds. -/
lemma get_singleton_iff {key key' : K} {value value' : V} :
    ((empty : Dict K V).set key value).get key' = some value' ↔ key' = key ∧ value = value' := by
  rw [get_set]
  split_ifs with h
  · simp [h]
  · simp [h]

/-- The entry written last is the one found. -/
lemma get_set_self (d : Dict K V) (k : K) (v : V) : (d.set k v).get k = some v := by simp

/-- A write of another key is not seen. -/
lemma get_set_of_ne (d : Dict K V) {k k' : K} (v : V) (h : k' ≠ k) :
    (d.set k v).get k' = d.get k' := by simp [h]

/-- Writing what is there changes nothing. -/
lemma set_of_get {d : Dict K V} {k : K} {v : V} (h : d.get k = some v) : d.set k v = d := by
  have hset : ∀ l : List (K × V), (l.find? fun p => p.1 = k).map Prod.snd = some v →
      setEntries k v l = l := by
    intro l
    induction l with
    | nil => exact fun h => by cases h
    | cons p l ih =>
      intro hl
      by_cases hp : p.1 = k
      · have hv : p.2 = v := by simpa [hp] using hl
        rw [setEntries, if_pos hp, ← hp, ← hv]
      · rw [setEntries, if_neg hp, ih (by simpa [hp] using hl)]
  obtain ⟨l, hl⟩ := d
  simp only [set, hset l h]

/-- A new key is added at the end. -/
lemma entries_set_of_new {d : Dict K V} {k : K} (v : V) (hk : k ∉ d.entries.map Prod.fst) :
    (d.set k v).entries = d.entries ++ [(k, v)] := by
  have hset : ∀ l : List (K × V), k ∉ l.map Prod.fst → setEntries k v l = l ++ [(k, v)] := by
    intro l
    induction l with
    | nil => exact fun _ => rfl
    | cons p l ih =>
      intro hl
      rw [List.map_cons, List.mem_cons, not_or] at hl
      rw [setEntries, if_neg (Ne.symm hl.1), ih hl.2, List.cons_append]
  exact hset _ hk

/-- A write changes a sum over the values by the value under its key. -/
lemma sum_set (f : V → ℕ) (d : Dict K V) (k : K) (v : V) :
    ((d.set k v).entries.map fun p => f p.2).sum + ((d.get k).map f).getD 0 =
      (d.entries.map fun p => f p.2).sum + f v := by
  have hsum : ∀ l : List (K × V), ((setEntries k v l).map fun p => f p.2).sum +
      (((l.find? fun p => p.1 = k).map Prod.snd).map f).getD 0 =
        (l.map fun p => f p.2).sum + f v := by
    intro l
    induction l with
    | nil => simp [setEntries]
    | cons p l ih =>
      by_cases hp : p.1 = k
      · rw [setEntries, if_pos hp]
        simp only [List.map_cons, List.sum_cons, List.find?_cons, hp, decide_true, Option.map_some,
          Option.getD_some]
        omega
      · rw [setEntries, if_neg hp]
        simp only [List.map_cons, List.sum_cons, List.find?_cons, hp, decide_false]
        omega
  exact hsum d.entries

/-- Removal keeps exactly the entries that do not satisfy the test. -/
@[simp] lemma get_eraseIf (d : Dict K V) (p : K → V → Bool) (k : K) :
    (d.eraseIf p).get k = (d.get k).filter fun v => !p k v := by
  apply Option.ext
  intro v
  rw [← mem_entries_iff, eraseIf, List.mem_filter, mem_entries_iff]
  cases d.get k with
  | none => simp
  | some w =>
    simp only [Option.some.injEq, Option.filter_eq_some_iff]

/-- After removing `k` nothing is stored under it, and the rest is as before. -/
@[simp] lemma get_erase (d : Dict K V) (k k' : K) :
    (d.erase k).get k' = if k' = k then none else d.get k' := by
  rw [erase, get_eraseIf]
  by_cases h : k' = k
  · simp [h]
  · cases d.get k' <;> simp [h]

/-! ## Dictionaries and relations

`d.Within R` says that every entry of `d` satisfies `R`, and `d.Represents R` that
the entries are exactly the pairs that satisfy it. -/

/-- Every entry satisfies the relation. -/
def Within (d : Dict K V) (R : K → V → Prop) : Prop := ∀ k v, d.get k = some v → R k v

/-- The entries are exactly the pairs of the relation. -/
def Represents (d : Dict K V) (R : K → V → Prop) : Prop := ∀ k v, d.get k = some v ↔ R k v

variable {d : Dict K V} {R R' : K → V → Prop}

/-- The empty dictionary is within every relation. -/
lemma within_empty : (empty : Dict K V).Within R := by
  intro k v h
  cases h

/-- A relation may be weakened. -/
lemma Within.mono (h : d.Within R) (himp : ∀ k v, R k v → R' k v) : d.Within R' :=
  fun k v hv => himp k v (h k v hv)

/-- Writing a pair of the relation keeps the entries within it. -/
lemma Within.set (h : d.Within R) {k : K} {v : V} (hv : R k v) : (d.set k v).Within R := by
  intro k' v' hget
  rw [get_set] at hget
  split_ifs at hget with hk
  · cases hget
    exact hk ▸ hv
  · exact h k' v' hget

/-- Removing entries keeps the others, and they fail the test. -/
lemma Within.eraseIf (h : d.Within R) (p : K → V → Bool) :
    (d.eraseIf p).Within fun k v => R k v ∧ p k v = false := by
  intro k v hget
  rw [get_eraseIf, Option.filter_eq_some_iff] at hget
  exact ⟨h k v hget.1, by simpa using hget.2⟩

/-- The empty dictionary represents the empty relation. -/
lemma represents_empty : (empty : Dict K V).Represents fun _ _ => False := by
  intro k v
  simp

/-- Equivalent relations are represented alike. -/
lemma Represents.congr (h : d.Represents R) (hiff : ∀ k v, R k v ↔ R' k v) : d.Represents R' :=
  fun k v => (h k v).trans (hiff k v)

/-- Writing a pair adds it to the relation, provided its key stood for no other value. -/
lemma Represents.set (h : d.Represents R) {k : K} {v : V} (hfun : ∀ w, R k w → w = v) :
    (d.set k v).Represents fun k' v' => R k' v' ∨ (k' = k ∧ v' = v) := by
  intro k' v'
  rw [get_set]
  split_ifs with hk
  · subst hk
    rw [Option.some.injEq]
    constructor
    · rintro rfl
      exact Or.inr ⟨rfl, rfl⟩
    · rintro (hr | ⟨-, rfl⟩)
      · exact (hfun v' hr).symm
      · rfl
  · rw [h]
    exact ⟨Or.inl, fun hor => hor.resolve_right fun hc => hk hc.1⟩

/-- Removing entries removes their pairs from the relation. -/
lemma Represents.eraseIf (h : d.Represents R) (p : K → V → Bool) :
    (d.eraseIf p).Represents fun k v => R k v ∧ p k v = false := by
  intro k v
  rw [get_eraseIf, Option.filter_eq_some_iff, h]
  simp

/-- A dictionary has as many entries as there are values, when every value has one key. -/
lemma Represents.size_eq (h : d.Represents R) {values : List V} (hnodup : values.Nodup)
    (hvalues : ∀ v, v ∈ values ↔ ∃ k, R k v) (hinj : ∀ k k' v, R k v → R k' v → k = k') :
    d.size = values.length := by
  have hentry : ∀ x : K × V, x ∈ d.entries ↔ R x.1 x.2 := fun x => mem_entries_iff.trans (h x.1 x.2)
  have hmap : (d.entries.map Prod.snd).Nodup := by
    refine List.Nodup.map_on (fun x hx y hy hxy => Prod.ext ?_ hxy) (List.Nodup.of_map _ d.nodup)
    have hy' := (hentry y).mp hy
    rw [← hxy] at hy'
    exact hinj _ _ _ ((hentry x).mp hx) hy'
  have hperm : (d.entries.map Prod.snd).Perm values := by
    apply (List.perm_ext_iff_of_nodup hmap hnodup).mpr
    intro v
    rw [hvalues, List.mem_map]
    constructor
    · rintro ⟨x, hx, rfl⟩
      exact ⟨x.1, (hentry x).mp hx⟩
    · rintro ⟨k, hk⟩
      exact ⟨(k, v), (hentry (k, v)).mpr hk, rfl⟩
  rw [size, ← hperm.length_eq, List.length_map]

end Dict

end HybridEccAuth

import Mathlib.Data.Set.Function
import Mathlib.Tactic.Common

/-!
# Rainbow tables

A chain goes from a point to its digest under `f`, and from a digest back to a point by
a reduction that depends on the column.  A table stores the start of a chain under its
end.  A digest is searched by walking from each column in which it may be to the end of
its chain, and then from the start that is stored for this end to that column again.

`search_eq_some_iff` says that a search in sound tables finds exactly the points of
their chains: on the way from the digest of a point of a chain the chain is met again
(`finish_chain`), and what another chain offers is compared with the digest, so that it
is this point or not taken.
-/

namespace Rainbow

variable {α β : Type*} (f : α → β) (reduce : ℕ → β → α) (n : ℕ)

/-- One column of a chain. -/
def hop (x : α) (column : ℕ) : α := reduce column (f x)

/-- The point in a column of the chain from a start. -/
def chain (start : α) (column : ℕ) : α := (List.range column).foldl (hop f reduce) start

/-- The end of the chain of `n` columns that has a digest in a column. -/
def finish (column : ℕ) (d : β) : α :=
  (List.range' (column + 1) (n - (column + 1))).foldl (hop f reduce) (reduce column d)

/-- A table: its reductions, and the start that it stores for an end. -/
structure Table (α β : Type*) where
  reduce : ℕ → β → α
  start : α → Option α

/-- The search of one column. -/
def probe [DecidableEq β] (t : Table α β) (d : β) (column : ℕ) : Option α :=
  (t.start (finish f t.reduce n column d)).bind fun start =>
    let x := chain f t.reduce start column
    if f x = d then some x else none

/-- The search of the tables, in each of them from the last column to the first. -/
def search [DecidableEq β] (tables : List (Table α β)) (d : β) : Option α :=
  tables.findSome? fun t => (List.range n).reverse.findSome? (probe f n t d)

/-- Every stored start has a chain that ends where it is stored. -/
def Table.Sound (t : Table α β) : Prop :=
  ∀ last start, t.start last = some start → chain f t.reduce start n = last

/-- A point in a column of a stored chain. -/
def Covered (tables : List (Table α β)) (x : α) : Prop :=
  ∃ t ∈ tables, ∃ last start, t.start last = some start ∧
    ∃ column < n, chain f t.reduce start column = x

variable {f reduce n}

/-- A chain is continued column by column. -/
lemma chain_succ (start : α) (column : ℕ) :
    chain f reduce start (column + 1) = hop f reduce (chain f reduce start column) column := by
  rw [chain, List.range_succ, List.foldl_append]
  rfl

/-- The walk from a digest of a chain reaches the end of the chain. -/
lemma finish_chain {column : ℕ} (hcolumn : column < n) (start : α) :
    finish f reduce n column (f (chain f reduce start column)) = chain f reduce start n := by
  have hsplit : List.range n =
      List.range (column + 1) ++ List.range' (column + 1) (n - (column + 1)) := by
    have happend := List.range'_append_1 (s := 0) (m := column + 1) (n := n - (column + 1))
    rw [Nat.zero_add, Nat.add_sub_cancel' hcolumn] at happend
    rw [List.range_eq_range', List.range_eq_range', happend]
  have hfirst : (List.range (column + 1)).foldl (hop f reduce) start =
      reduce column (f (chain f reduce start column)) := chain_succ start column
  have hend : chain f reduce start n = (List.range n).foldl (hop f reduce) start := rfl
  rw [hend, hsplit, List.foldl_append, hfirst, finish]

/-- A chain whose reductions and start are in a set stays in it. -/
lemma chain_mem {s : Set α} (hreduce : ∀ column d, reduce column d ∈ s) {start : α}
    (hstart : start ∈ s) (column : ℕ) : chain f reduce start column ∈ s := by
  cases column with
  | zero => exact hstart
  | succ column =>
    rw [chain_succ]
    exact hreduce column _

section Search

variable [DecidableEq β] {t : Table α β} {tables : List (Table α β)} {d : β} {x : α}

/-- What is found in a column has the digest, and lies in a stored chain. -/
lemma probe_eq_some {column : ℕ} (h : probe f n t d column = some x) :
    f x = d ∧ ∃ last start, t.start last = some start ∧ chain f t.reduce start column = x := by
  obtain ⟨start, hstart, hx⟩ := Option.bind_eq_some_iff.mp h
  dsimp only at hx
  split_ifs at hx with hd
  obtain rfl := Option.some.inj hx
  exact ⟨hd, _, start, hstart, rfl⟩

/-- What is found has the digest, and is covered. -/
theorem search_eq_some (h : search f n tables d = some x) : f x = d ∧ Covered f n tables x := by
  obtain ⟨t, ht, hcolumns⟩ := List.exists_of_findSome?_eq_some h
  obtain ⟨column, hcolumn, hprobe⟩ := List.exists_of_findSome?_eq_some hcolumns
  obtain ⟨hd, last, start, hstart, hx⟩ := probe_eq_some hprobe
  rw [List.mem_reverse, List.mem_range] at hcolumn
  exact ⟨hd, t, ht, last, start, hstart, column, hcolumn, hx⟩

/-- In a sound table a point is found in the column in which it lies. -/
lemma probe_chain (ht : t.Sound f n) {last start : α} (hstart : t.start last = some start)
    {column : ℕ} (hcolumn : column < n) :
    probe f n t (f (chain f t.reduce start column)) column =
      some (chain f t.reduce start column) := by
  rw [probe, finish_chain hcolumn, ht last start hstart, hstart]
  exact if_pos rfl

/-- For a covered point something is found. -/
theorem exists_search_eq_some (htables : ∀ t ∈ tables, t.Sound f n) (hx : Covered f n tables x) :
    ∃ y, search f n tables (f x) = some y := by
  obtain ⟨t, ht, last, start, hstart, column, hcolumn, rfl⟩ := hx
  apply Option.ne_none_iff_exists'.mp
  intro hnone
  rw [search, List.findSome?_eq_none_iff] at hnone
  have hcolumns := hnone t ht
  rw [List.findSome?_eq_none_iff] at hcolumns
  have hprobe := hcolumns column (List.mem_reverse.mpr (List.mem_range.mpr hcolumn))
  rw [probe_chain (htables t ht) hstart hcolumn] at hprobe
  cases hprobe

/-- A search in sound tables finds a point, by its digest, exactly when the point is covered: when
the digests of the points differ, nothing else is found. -/
theorem search_eq_some_iff {s : Set α} (hf : Set.InjOn f s)
    (hreduce : ∀ t ∈ tables, ∀ column d, t.reduce column d ∈ s)
    (hstart : ∀ t ∈ tables, ∀ last start, t.start last = some start → start ∈ s)
    (htables : ∀ t ∈ tables, t.Sound f n) (hx : x ∈ s) {y : α} :
    search f n tables (f x) = some y ↔ y = x ∧ Covered f n tables x := by
  have hmem : ∀ {y}, Covered f n tables y → y ∈ s := by
    rintro y ⟨t, ht, last, start, hs, column, -, rfl⟩
    exact chain_mem (hreduce t ht) (hstart t ht last start hs) column
  have hfound : ∀ {y}, search f n tables (f x) = some y → y = x ∧ Covered f n tables x := by
    intro y hy
    obtain ⟨hd, hcovered⟩ := search_eq_some hy
    obtain rfl := hf (hmem hcovered) hx hd
    exact ⟨rfl, hcovered⟩
  constructor
  · exact hfound
  · rintro ⟨rfl, hcovered⟩
    obtain ⟨z, hz⟩ := exists_search_eq_some htables hcovered
    rw [hz, (hfound hz).1]

end Search

end Rainbow

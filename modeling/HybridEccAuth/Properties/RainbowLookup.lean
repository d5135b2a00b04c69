import HybridEccAuth.Library.Rainbow
import HybridEccAuth.Resolution.TimeMemory

/-!
# What the time-memory table finds

The time-memory table searches, column by column, as a rainbow table over its points
does (`yields_lookup`), and the tables that `attach` builds are sound
(`sound_of_attach`).  So a pseudonym of a point is found exactly when the point is
covered (`lookup_finds_covered`).
-/

namespace HybridEccAuth.TimeMemoryTable

open StateExcept

variable {C : Crypto} {peers : Dict String Lam} {T : TimeMemoryTable}

/-- H2 is defined on the points of a table, and injective. -/
structure PointsInjective (C : Crypto) (T : TimeMemoryTable) : Prop where
  defined : ∀ x < T.space, ∃ pid, T.NamesPoint C pid x
  injective : ∀ pid, ∀ x < T.space, ∀ y < T.space, T.NamesPoint C pid x →
    T.NamesPoint C pid y → x = y

/-- A point lies in a column of a chain that is kept. -/
def Covered (C : Crypto) (T : TimeMemoryTable) (x : ℕ) : Prop :=
  ∃ ends table, T.ends[table]? = some ends ∧ ∃ last start, ends.get last = some start ∧
    ∃ column < T.chainLength, Yields (T.walk C true table (List.range column) start) (.ok x)

/-! ## The table as a rainbow table -/

/-- The pseudonym of a point. -/
def digest (C : Crypto) (T : TimeMemoryTable) (x : ℕ) : Bytes :=
  match T.point x with
  | .error _ => []
  | .ok (lam, epoch) =>
    match h2Pseudonym C lam epoch with
    | .error _ => []
    | .ok pid => pid

/-- The reductions of a table. -/
def reduction (T : TimeMemoryTable) (table column : ℕ) (digest : Bytes) : ℕ :=
  (fromBytesBE (digest.take 8) + column + table * 1000003) % T.space

/-- One of the tables. -/
def rainbow (T : TimeMemoryTable) (t : Dict ℕ ℕ × ℕ) : Rainbow.Table ℕ Bytes where
  reduce := T.reduction t.2
  start := t.1.get

/-- All tables. -/
def rainbows (T : TimeMemoryTable) : List (Rainbow.Table ℕ Bytes) := T.ends.zipIdx.map T.rainbow

/-- The pseudonym of a point is its digest. -/
lemma NamesPoint.eq_digest {pid : Bytes} {x : ℕ} (h : T.NamesPoint C pid x) :
    pid = T.digest C x := by
  obtain ⟨lam, epoch, hpoint, hpid⟩ := h
  rw [digest, hpoint]
  dsimp only
  rw [hpid]

/-- Points have different digests. -/
lemma PointsInjective.injOn (hpoints : PointsInjective C T) :
    Set.InjOn (T.digest C) (Set.Iio T.space) := by
  intro x hx y hy hxy
  obtain ⟨pid, hpid⟩ := hpoints.defined x hx
  obtain ⟨pid', hpid'⟩ := hpoints.defined y hy
  obtain rfl : pid = pid' := hpid.eq_digest.trans (hxy.trans hpid'.eq_digest.symm)
  exact hpoints.injective pid x hx y hy hpid hpid'

section Walks

variable (hspace : 0 < T.space) (hdefined : ∀ x < T.space, ∃ pid, T.NamesPoint C pid x)

include hdefined in
/-- `f` returns the digest of a point. -/
lemma yields_f (precompute : Bool) {x : ℕ} (hx : x < T.space) :
    Yields (T.f C precompute x) (.ok (T.digest C x)) := by
  obtain ⟨pid, hpid⟩ := hdefined x hx
  rw [← hpid.eq_digest]
  obtain ⟨lam, epoch, hpoint, hhash⟩ := hpid
  apply Yields.bind (a := (lam, epoch)) (hpoint ▸ yields_lift _)
  intro s
  rw [outcome_h2]
  exact hhash

include hspace

/-- `reduce` returns the reduced digest. -/
lemma reduce_eq (pid : Bytes) (column table : ℕ) :
    T.reduce pid column table = .ok (T.reduction table column pid) :=
  if_neg hspace.ne'

/-- Reduced digests are points. -/
lemma reduction_lt (table column : ℕ) (pid : Bytes) : T.reduction table column pid < T.space :=
  Nat.mod_lt _ hspace

/-- The chains from points stay among the points. -/
lemma chain_lt (table column : ℕ) {start : ℕ} (hstart : start < T.space) :
    Rainbow.chain (T.digest C) (T.reduction table) start column < T.space :=
  Rainbow.chain_mem (s := Set.Iio T.space) (fun column d => reduction_lt hspace table column d)
    hstart column

include hdefined

/-- A hop is one column of a chain. -/
lemma yields_hop (precompute : Bool) (table : ℕ) {x : ℕ} (hx : x < T.space) (column : ℕ) :
    Yields (T.hop C precompute table x column)
      (.ok (Rainbow.hop (T.digest C) (T.reduction table) x column)) := by
  rw [Rainbow.hop]
  apply (yields_f hdefined precompute hx).bind
  rw [reduce_eq hspace]
  exact yields_lift _

/-- A walk goes along a chain. -/
lemma yields_walk (precompute : Bool) (table : ℕ) (columns : List ℕ) {x : ℕ}
    (hx : x < T.space) : Yields (T.walk C precompute table columns x)
      (.ok (columns.foldl (Rainbow.hop (T.digest C) (T.reduction table)) x)) := by
  refine Yields.foldlM (P := (· < T.space)) (fun column _ y hy => ?_) hx
  refine ⟨yields_hop hspace hdefined precompute table hy column, ?_⟩
  rw [Rainbow.hop]
  exact reduction_lt hspace table column _

/-- A walk from the first column on goes to a point of the chain. -/
lemma yields_walk_range (precompute : Bool) (table column : ℕ) {start : ℕ}
    (hstart : start < T.space) : Yields (T.walk C precompute table (List.range column) start)
      (.ok (Rainbow.chain (T.digest C) (T.reduction table) start column)) :=
  yields_walk hspace hdefined precompute table _ hstart

/-- The search of a column is that of the rainbow table. -/
lemma yields_probeColumn (pid : Bytes) {t : Dict ℕ ℕ × ℕ}
    (ht : t.1.Within fun _ start => start < T.space) (column : ℕ) :
    Yields (T.probeColumn C pid t.1 t.2 column)
      (.ok (Rainbow.probe (T.digest C) T.chainLength (T.rainbow t) pid column)) := by
  have hreduce : Yields (StateExcept.lift (T.reduce pid column t.2) : StateExcept Exc LookupCost ℕ)
      (.ok (T.reduction t.2 column pid)) := by
    rw [reduce_eq hspace]
    exact yields_lift _
  have hwalk : Yields (T.walk C false t.2
      (List.range' (column + 1) (T.chainLength - (column + 1))) (T.reduction t.2 column pid))
      (.ok (Rainbow.finish (T.digest C) (T.reduction t.2) T.chainLength column pid)) :=
    yields_walk hspace hdefined false t.2 _ (reduction_lt hspace t.2 column pid)
  have hprobe : Rainbow.probe (T.digest C) T.chainLength (T.rainbow t) pid column =
      (t.1.get (Rainbow.finish (T.digest C) (T.reduction t.2) T.chainLength column pid)).bind
        fun start =>
          if T.digest C (Rainbow.chain (T.digest C) (T.reduction t.2) start column) = pid then
            some (Rainbow.chain (T.digest C) (T.reduction t.2) start column)
          else none := rfl
  refine hreduce.bind (hwalk.bind ?_)
  rw [hprobe]
  rcases hget : t.1.get (Rainbow.finish (T.digest C) (T.reduction t.2) T.chainLength column pid)
    with _ | start
  · exact yields_pure none
  · have hstart : start < T.space := ht _ _ hget
    refine (yields_walk_range hspace hdefined false t.2 column hstart).bind
      ((yields_f hdefined false (chain_lt hspace t.2 column hstart)).bind ?_)
    dsimp only [Option.bind_some]
    split_ifs with hpid
    · exact yields_pure _
    · exact (yields_modifyState _).bind (yields_pure none)

/-- The search is that of the rainbow tables. -/
theorem yields_lookup (hstarts : ∀ ends ∈ T.ends, ends.Within fun _ start => start < T.space)
    (pid : Bytes) : Yields (T.lookup C pid)
      (.ok (Rainbow.search (T.digest C) T.chainLength T.rainbows pid)) := by
  have hsearch : Rainbow.search (T.digest C) T.chainLength T.rainbows pid =
      T.ends.zipIdx.findSome? fun t => (List.range T.chainLength).reverse.findSome?
        (Rainbow.probe (T.digest C) T.chainLength (T.rainbow t) pid) := by
    rw [Rainbow.search, rainbows, List.findSome?_map]
    rfl
  rw [hsearch]
  refine Yields.findSomeM? fun t ht => Yields.findSomeM? fun column _ => ?_
  obtain ⟨-, -, hget⟩ := List.mem_zipIdx ht
  exact yields_probeColumn hspace hdefined pid (hstarts _ (hget ▸ List.getElem_mem _)) column

/-! ## The tables that are built -/

/-- The chains that a table keeps end where they are stored. -/
lemma triple_buildTable_sound (table : ℕ) : Triple (fun _ => True) (T.buildTable C table)
    (fun ends _ => ends.Within fun last start =>
      Rainbow.chain (T.digest C) (T.reduction table) start T.chainLength = last)
    (fun _ _ => True) := by
  apply Triple.bind (triple_true _)
  intro m
  refine (Triple.foldlM (I := fun (ends : Dict ℕ ℕ) _ => ends.Within fun last start =>
    Rainbow.chain (T.digest C) (T.reduction table) start T.chainLength = last)
      (fun start hstart ends => ?_) Dict.empty).imp
        (fun _ _ => Dict.within_empty) (fun _ _ h => h) fun _ _ h => h
  have hlt := T.starts.sample_lt _ _ _ _ hstart
  have hwalk := yields_walk_range hspace hdefined true table T.chainLength hlt
  intro s hends
  refine Triple.bind (P := fun _ => True) hwalk.triple (fun x => ?_) s trivial
  apply Triple.pure
  intro s hx
  split_ifs with hkept
  · exact hends
  · exact hends.set hx.symm

/-- The tables that are built are sound, each with its own number. -/
lemma within_buildTables {tables : List (Dict ℕ ℕ)} {s s' : LookupCost}
    (h : (T.buildTables C).outcome s = (.ok tables, s')) {table : ℕ} {ends : Dict ℕ ℕ}
    (hends : tables[table]? = some ends) : ends.Within fun last start =>
      Rainbow.chain (T.digest C) (T.reduction table) start T.chainLength = last := by
  rcases Triple.mapM (fun table _ => triple_buildTable_sound hspace hdefined table) s trivial with
    ⟨bs, s₁, hbs, hall⟩ | ⟨e, s₁, he, -⟩
  · rw [buildTables, hbs] at h
    cases h
    obtain ⟨hlt, rfl⟩ := List.getElem?_eq_some_iff.mp hends
    have hget := hall.get (by rw [hall.length_eq]; exact hlt) hlt
    simpa using hget
  · rw [buildTables, he] at h
    cases h

end Walks

/-- One of the tables, with its number. -/
lemma mem_rainbows {t : Rainbow.Table ℕ Bytes} :
    t ∈ T.rainbows ↔ ∃ table ends, T.ends[table]? = some ends ∧ T.rainbow (ends, table) = t := by
  rw [rainbows, List.mem_map]
  constructor
  · rintro ⟨⟨ends, table⟩, hmem, rfl⟩
    exact ⟨table, ends, List.mem_zipIdx_iff_getElem?.mp hmem, rfl⟩
  · rintro ⟨table, ends, hget, rfl⟩
    exact ⟨(ends, table), List.mem_zipIdx_iff_getElem?.mpr hget, rfl⟩

/-- What `attach` leaves when it does not raise. -/
lemma tables_of_attach {T' : TimeMemoryTable} (h : T.attach C peers = (.ok (), T')) :
    ∃ (T₀ : TimeMemoryTable) (cost : LookupCost) (tables : List (Dict ℕ ℕ)),
      T₀.lifetime = T.lifetime ∧ (T₀.buildTables C).outcome T.cost = (.ok tables, cost) ∧
        T' = { T₀ with cost := cost, ends := tables } := by
  unfold attach at h
  dsimp only at h
  split at h
  · cases h
  · rename_i tables cost hrun
    cases h
    refine ⟨_, cost, tables, ?_, hrun, rfl⟩
    rfl

/-- The tables that are built are sound. -/
theorem sound_of_attach {T' : TimeMemoryTable} (h : T.attach C peers = (.ok (), T'))
    (hspace : 0 < T'.space) (hdefined : ∀ x < T'.space, ∃ pid, T'.NamesPoint C pid x) :
    ∀ t ∈ T'.rainbows, t.Sound (T'.digest C) T'.chainLength := by
  obtain ⟨T₀, cost, tables, -, hrun, rfl⟩ := tables_of_attach h
  intro t ht
  obtain ⟨table, ends, hends, rfl⟩ := mem_rainbows.mp ht
  exact within_buildTables (T := T₀) hspace hdefined hrun hends

/-! ## Covered points -/

/-- One column of a chain, added to a set. -/
def addColumn (C : Crypto) (T : TimeMemoryTable) (table : ℕ) (r : Finset ℕ × ℕ) (column : ℕ) :
    Finset ℕ × ℕ :=
  (insert r.2 r.1, Rainbow.hop (T.digest C) (T.reduction table) r.2 column)

/-- The columns of a chain, added to a set. -/
def addChain (C : Crypto) (T : TimeMemoryTable) (table : ℕ) (s : Finset ℕ) (start : ℕ) :
    Finset ℕ :=
  ((List.range T.chainLength).foldl (T.addColumn C table) (s, start)).1

/-- The points of all chains. -/
def chainPoints (C : Crypto) (T : TimeMemoryTable) : Finset ℕ :=
  T.ends.zipIdx.foldl (fun s t => (t.1.entries.map Prod.snd).foldl (T.addChain C t.2) s) ∅

/-- The columns that are added are those of the chain. -/
lemma foldl_addColumn (table n : ℕ) (s : Finset ℕ) (start : ℕ) :
    ((List.range n).foldl (T.addColumn C table) (s, start)).2 =
        Rainbow.chain (T.digest C) (T.reduction table) start n ∧
      ∀ x, x ∈ ((List.range n).foldl (T.addColumn C table) (s, start)).1 ↔
        x ∈ s ∨ ∃ column < n, Rainbow.chain (T.digest C) (T.reduction table) start column = x := by
  induction n with
  | zero => exact ⟨rfl, fun x => by simp⟩
  | succ n ih =>
    obtain ⟨hlast, hmem⟩ := ih
    rw [List.range_succ, List.foldl_append, List.foldl_cons, List.foldl_nil, addColumn, hlast]
    constructor
    · rw [Rainbow.chain_succ]
    · intro x
      rw [Finset.mem_insert, hmem, Nat.exists_lt_succ_right, eq_comm, or_comm, or_assoc]

/-- A loop that adds points to a set. -/
lemma mem_foldl {A : Type} {g : Finset ℕ → A → Finset ℕ} {Q : A → Prop} {x : ℕ} {as : List A}
    (h : ∀ a ∈ as, ∀ s, (x ∈ g s a ↔ x ∈ s ∨ Q a)) (s : Finset ℕ) :
    x ∈ as.foldl g s ↔ x ∈ s ∨ ∃ a ∈ as, Q a := by
  induction as generalizing s with
  | nil => simp
  | cons a as ih =>
    obtain ⟨ha, has⟩ := List.forall_mem_cons.mp h
    rw [List.foldl_cons, ih has, ha, List.exists_mem_cons_iff, or_assoc]

/-- The points of all chains are those of the rainbow tables. -/
lemma mem_chainPoints {x : ℕ} :
    x ∈ T.chainPoints C ↔ Rainbow.Covered (T.digest C) T.chainLength T.rainbows x := by
  have hchain : ∀ t : Dict ℕ ℕ × ℕ, ∀ s,
    (x ∈ (t.1.entries.map Prod.snd).foldl (T.addChain C t.2) s ↔
      x ∈ s ∨ ∃ start ∈ t.1.entries.map Prod.snd, ∃ column < T.chainLength,
        Rainbow.chain (T.digest C) (T.reduction t.2) start column = x) := fun t =>
    mem_foldl fun start _ s => (foldl_addColumn t.2 T.chainLength s start).2 x
  rw [chainPoints, mem_foldl fun t _ => hchain t]
  simp only [Finset.notMem_empty, false_or, Rainbow.Covered]
  constructor
  · rintro ⟨⟨ends, table⟩, ht, start, hstart, hcolumn⟩
    obtain ⟨⟨last, _⟩, hentry, rfl⟩ := List.mem_map.mp hstart
    exact ⟨_, mem_rainbows.mpr ⟨table, ends, List.mem_zipIdx_iff_getElem?.mp ht, rfl⟩, last, _,
      Dict.mem_entries_iff.mp hentry, hcolumn⟩
  · rintro ⟨t, ht, last, start, hstart, hcolumn⟩
    obtain ⟨table, ends, hends, rfl⟩ := mem_rainbows.mp ht
    exact ⟨(ends, table), List.mem_zipIdx_iff_getElem?.mpr hends, start,
      List.mem_map.mpr ⟨(last, start), Dict.mem_entries_iff.mpr hstart, rfl⟩, hcolumn⟩

section Covered

variable (hspace : 0 < T.space) (hdefined : ∀ x < T.space, ∃ pid, T.NamesPoint C pid x)
  (hstarts : ∀ ends ∈ T.ends, ends.Within fun _ start => start < T.space)
include hspace hdefined hstarts

/-- The points that `coverage` counts are those of all chains. -/
lemma yields_coveredPoints : Yields (T.coveredPoints C) (.ok (T.chainPoints C)) := by
  refine Yields.foldlM (P := fun _ => True) (fun t ht s _ => ⟨?_, trivial⟩) trivial
  refine Yields.foldlM (P := fun _ => True) (fun start hstart s _ => ⟨?_, trivial⟩) trivial
  have hlt : start < T.space := by
    obtain ⟨⟨last, _⟩, hentry, rfl⟩ := List.mem_map.mp hstart
    obtain ⟨-, -, hget⟩ := List.mem_zipIdx ht
    exact hstarts _ (hget ▸ List.getElem_mem _) _ _ (Dict.mem_entries_iff.mp hentry)
  have hcolumns : Yields ((List.range T.chainLength).foldlM (fun (r : Finset ℕ × ℕ) column => do
      let x ← T.hop C true t.2 r.2 column
      return (insert r.2 r.1, x)) (s, start) : StateExcept Exc LookupCost (Finset ℕ × ℕ))
      (.ok ((List.range T.chainLength).foldl (T.addColumn C t.2) (s, start))) := by
    refine Yields.foldlM (P := fun r => r.2 < T.space) (fun column _ r hr => ⟨?_, ?_⟩) hlt
    · exact (yields_hop hspace hdefined true t.2 hr column).bind (yields_pure _)
    · rw [addColumn, Rainbow.hop]
      exact reduction_lt hspace t.2 column _
  exact hcolumns.bind (yields_pure _)

/-- `coverage` is the fraction of the points that are in a chain. -/
theorem coverage_eq : T.coverage C = .ok ((T.chainPoints C).card / T.space) := by
  have hyields := yields_coveredPoints hspace hdefined hstarts T.cost
  rw [coverage, hyields]
  exact if_neg hspace.ne'

/-- A point is covered by the rainbow tables. -/
lemma covered_iff {x : ℕ} :
    T.Covered C x ↔ Rainbow.Covered (T.digest C) T.chainLength T.rainbows x := by
  constructor
  · rintro ⟨ends, table, hends, last, start, hstart, column, hcolumn, hx⟩
    have hlt := hstarts ends (List.mem_of_getElem? hends) _ _ hstart
    have hchain := yields_walk_range hspace hdefined true table column hlt
    have heq : Except.ok x = Except.ok _ := (hx {}).symm.trans (hchain {})
    exact ⟨_, mem_rainbows.mpr ⟨table, ends, hends, rfl⟩, last, start, hstart, column, hcolumn,
      (Except.ok.inj heq).symm⟩
  · rintro ⟨t, ht, last, start, hstart, column, hcolumn, rfl⟩
    obtain ⟨table, ends, hends, rfl⟩ := mem_rainbows.mp ht
    have hlt := hstarts ends (List.mem_of_getElem? hends) _ _ hstart
    exact ⟨ends, table, hends, last, start, hstart, column, hcolumn,
      yields_walk_range hspace hdefined true table column hlt⟩

end Covered

/-! ## What is found -/

/-- The point of a peer at an epoch. -/
def pointOf (T : TimeMemoryTable) (peer : String) (epoch : ℕ) : ℕ :=
  T.peers.idxOf peer * T.lifetime + epoch

/-- The point of an enrolled peer at an epoch within the lifetime is a point, has the pseudonym of
the peer, and stands for the peer. -/
lemma Attached.pointOf_spec (hT : T.Attached peers) {peer : String} {lam : Lam} {epoch : ℕ}
    (hpeer : peers.get peer = some lam) (hepoch : epoch < T.lifetime) :
    T.pointOf peer epoch < T.space ∧ T.point (T.pointOf peer epoch) = .ok (lam, epoch) ∧
      ∀ log, T.identify log (T.pointOf peer epoch) =
        if log.isStaleEpoch peer epoch then .error (staleError peer epoch) else .ok
        (peer, epoch) := by
  have hmem : peer ∈ T.peers := hT.peers_eq ▸ Dict.mem_keys_iff.mpr ⟨lam, hpeer⟩
  have hindex : T.peers.idxOf peer < T.peers.length := List.idxOf_lt_length_iff.mpr hmem
  have hname : T.peers[T.peers.idxOf peer]? = some peer := by
    rw [List.getElem?_eq_getElem hindex, List.getElem_idxOf]
  have hpos : 0 < T.lifetime := Nat.zero_lt_of_lt hepoch
  have hlam : T.lams[T.peers.idxOf peer]? = some lam := by
    have hkeys := hname
    rw [hT.peers_eq, Dict.keys, List.getElem?_map, ← Dict.keys, ← hT.peers_eq] at hkeys
    obtain ⟨q, hq, hfst⟩ := Option.map_eq_some_iff.mp hkeys
    have hget := Dict.mem_entries_iff.mp (List.mem_of_getElem? hq)
    rw [hfst, hpeer] at hget
    rw [hT.lams_eq, List.getElem?_map, hq]
    exact hget.symm
  have hsplit : T.split (T.pointOf peer epoch) = .ok (T.peers.idxOf peer, epoch) := by
    rw [split, if_neg hpos.ne', pointOf, Nat.mul_comm, Nat.mul_add_div hpos,
      Nat.div_eq_of_lt hepoch, Nat.mul_add_mod, Nat.mod_eq_of_lt hepoch, Nat.add_zero]
  refine ⟨?_, ?_, ?_⟩
  · calc T.pointOf peer epoch < T.peers.idxOf peer * T.lifetime + T.lifetime :=
        Nat.add_lt_add_left hepoch _
      _ = (T.peers.idxOf peer + 1) * T.lifetime := (Nat.succ_mul _ _).symm
      _ ≤ T.space := Nat.mul_le_mul_right _ hindex
  · rw [point, hsplit]
    simp only [hlam]
  · intro log
    rw [identify, hsplit]
    simp only [hname]

/-- A table that was attached to peers has points, when it has a lifetime. -/
lemma space_pos_of_attach {T' : TimeMemoryTable} (h : T.attach C peers = (.ok (), T'))
    (hkeys : peers.keys ≠ []) (hlife : 0 < T.lifetime) : 0 < T'.space := by
  have hpeers := (attached_of_attach h).peers_eq
  obtain ⟨T₀, cost, tables, hlifetime, -, rfl⟩ := tables_of_attach h
  refine Nat.mul_pos ?_ (hlifetime ▸ hlife)
  rw [hpeers]
  exact List.length_pos_iff.mpr hkeys

section Found

variable {T' : TimeMemoryTable} (hattach : T.attach C peers = (.ok (), T')) (hspace : 0 < T'.space)
  (hpoints : PointsInjective C T')
include hattach hspace hpoints

/-- The search for the pseudonym of a point finds that point, exactly when it is covered. -/
lemma yields_lookup_point {x : ℕ} (hx : x < T'.space) {pid : Bytes} (hpid : T'.NamesPoint C pid x) :
    (T'.Covered C x → Yields (T'.lookup C pid) (.ok (some x))) ∧
      (¬ T'.Covered C x → Yields (T'.lookup C pid) (.ok none)) := by
  have hstarts := (attached_of_attach hattach).start_lt
  have hyields := yields_lookup hspace hpoints.defined hstarts pid
  have hfound : ∀ y, Rainbow.search (T'.digest C) T'.chainLength T'.rainbows pid = some y ↔
      y = x ∧ T'.Covered C x := by
    intro y
    rw [covered_iff hspace hpoints.defined hstarts, hpid.eq_digest]
    refine Rainbow.search_eq_some_iff hpoints.injOn (fun t ht column d => ?_)
      (fun t ht last start hstart => ?_) (sound_of_attach hattach hspace hpoints.defined) hx
    · obtain ⟨table, ends, -, rfl⟩ := mem_rainbows.mp ht
      exact reduction_lt hspace table column d
    · obtain ⟨table, ends, hends, rfl⟩ := mem_rainbows.mp ht
      exact hstarts ends (List.mem_of_getElem? hends) last start hstart
  constructor
  · intro hcovered
    rwa [(hfound x).mpr ⟨rfl, hcovered⟩] at hyields
  · intro hcovered
    rcases hsearch : Rainbow.search (T'.digest C) T'.chainLength T'.rainbows pid with _ | y
    · rwa [hsearch] at hyields
    · exact absurd ((hfound y).mp hsearch).2 hcovered

/-- The search for what is the pseudonym of no point finds nothing. -/
lemma yields_lookup_none {pid : Bytes} (hpid : ∀ x < T'.space, ¬ T'.NamesPoint C pid x) :
    Yields (T'.lookup C pid) (.ok none) := by
  have hyields := yields_lookup hspace hpoints.defined (attached_of_attach hattach).start_lt pid
  rcases hsearch : Rainbow.search (T'.digest C) T'.chainLength T'.rainbows pid with _ | y
  · rwa [hsearch] at hyields
  · obtain ⟨hdigest, hcovered⟩ := Rainbow.search_eq_some hsearch
    have hy : y < T'.space := by
      obtain ⟨t, ht, last, start, hstart, column, -, rfl⟩ := hcovered
      obtain ⟨table, ends, hends, rfl⟩ := mem_rainbows.mp ht
      have hlt := (attached_of_attach hattach).start_lt ends (List.mem_of_getElem? hends) _ _ hstart
      exact chain_lt hspace table column hlt
    obtain ⟨pid', hnames⟩ := hpoints.defined y hy
    rw [← hdigest, ← hnames.eq_digest] at hpid
    exact absurd hnames (hpid y hy)

end Found

/-- Points have different pseudonyms when the peers at different epochs have, and a lifetime fits
into the epochs of 64 bits. -/
lemma Attached.pointsInjective (hT : T.Attached peers) (hlife : T.lifetime ≤ 2 ^ 64)
    (hinj : PseudonymsInjective C peers) : PointsInjective C T := by
  have hpos : ∀ {x}, x < T.space → 0 < T.lifetime := fun h =>
      Nat.pos_of_mul_pos_left (Nat.zero_lt_of_lt h)
  constructor
  · intro x hx
    obtain ⟨-, -, lam, hpoint⟩ := hT.split_point hx
    have hlt := Nat.mod_lt x (hpos hx)
    obtain ⟨pid, hpid⟩ := exists_h2Pseudonym C lam (Int.natCast_nonneg (x % T.lifetime))
      (by exact_mod_cast lt_of_lt_of_le hlt hlife)
    exact ⟨pid, lam, _, hpoint, hpid⟩
  · rintro pid x hx y hy ⟨lam, e, hxpoint, hxpid⟩ ⟨lam', e', hypoint, hypid⟩
    obtain ⟨hxsplit, ⟨peer, hxpeer⟩, -⟩ := hT.split_point hx
    obtain ⟨hysplit, ⟨peer', hypeer⟩, -⟩ := hT.split_point hy
    obtain ⟨hlam, rfl⟩ := hT.get_of_point hxsplit hxpeer hxpoint
    obtain ⟨hlam', rfl⟩ := hT.get_of_point hysplit hypeer hypoint
    obtain ⟨rfl, hepoch⟩ := hinj ⟨lam, hlam, hxpid⟩ ⟨lam', hlam', hypid⟩
    have hnodup : T.peers.Nodup := hT.peers_eq ▸ peers.nodup
    obtain ⟨hi, hxget⟩ := List.getElem?_eq_some_iff.mp hxpeer
    obtain ⟨hj, hyget⟩ := List.getElem?_eq_some_iff.mp hypeer
    have hindex : x / T.lifetime = y / T.lifetime :=
      (hnodup.getElem_inj_iff).mp (hxget.trans hyget.symm)
    rw [← Nat.div_add_mod x T.lifetime, ← Nat.div_add_mod y T.lifetime, hindex,
      Nat.cast_inj.mp hepoch]

/-- What resolves, by the outcome of the search. -/
lemma resolve_of_yields {log : SessionLog} {pid : Bytes} {r : Option ℕ}
    (hr : Yields (T.lookup C pid) (.ok r)) (cost : LookupCost) :
    (({ T with cost := cost } : TimeMemoryTable).resolve C log pid).1 =
      r.elim (.error notCoveredError) (T.identify log) := by
  have hlookup : ({ T with cost := cost } : TimeMemoryTable).lookup C pid = T.lookup C pid := rfl
  have hrun := hr cost
  rw [resolve, hlookup]
  dsimp only
  rcases hout : (T.lookup C pid).outcome cost with ⟨x, s⟩
  rw [hout] at hrun
  obtain rfl : x = .ok r := hrun
  cases r with
  | none => rfl
  | some x => rfl

/-- A time-memory table that was attached to peers finds the covered points, by their pseudonyms,
and nothing else; the covered points are those that `coverage` counts.  So the pseudonym of a peer
at an epoch within the lifetime resolves when its point is covered and the epoch is new, whatever
the log and the counters are, and is otherwise stale or unknown. -/
theorem lookup_finds_covered {T' : TimeMemoryTable} (hkeys : peers.keys ≠ [])
    (hlife : 0 < T.lifetime)
    (hattach : T.attach C peers = (.ok (), T')) (hpoints : PointsInjective C T') :
    (∀ x < T'.space, ∀ pid, T'.NamesPoint C pid x →
      (T'.Covered C x → Yields (T'.lookup C pid) (.ok (some x))) ∧
      (¬ T'.Covered C x → Yields (T'.lookup C pid) (.ok none))) ∧
    (∀ pid, (∀ x < T'.space, ¬ T'.NamesPoint C pid x) → Yields (T'.lookup C pid) (.ok none)) ∧
    (∃ points, Yields (T'.coveredPoints C) (.ok points) ∧ ∀ x, x ∈ points ↔ T'.Covered C x) ∧
    ∀ (log : SessionLog) (cost : LookupCost) peer lam pid, ∀ epoch < T'.lifetime,
      peers.get peer = some lam → h2Pseudonym C lam epoch = .ok pid →
      ((({ T' with cost := cost } : TimeMemoryTable).resolve C log pid).1 =
        .ok (peer, (epoch : ℤ)) ↔
        T'.Covered C (T'.pointOf peer epoch) ∧ log.last peer < epoch) ∧
      (T'.Covered C (T'.pointOf peer epoch) → epoch ≤ log.last peer →
        (({ T' with cost := cost } : TimeMemoryTable).resolve C log pid).1 =
          .error (staleError peer epoch)) ∧
      (¬ T'.Covered C (T'.pointOf peer epoch) →
        (({ T' with cost := cost } : TimeMemoryTable).resolve C log pid).1 =
          .error notCoveredError) := by
  have hspace := space_pos_of_attach hattach hkeys hlife
  have hT := attached_of_attach hattach
  refine ⟨fun x hx pid hpid => yields_lookup_point hattach hspace hpoints hx hpid,
    fun pid hpid => yields_lookup_none hattach hspace hpoints hpid,
    ⟨_, yields_coveredPoints hspace hpoints.defined hT.start_lt, fun x => ?_⟩, ?_⟩
  · rw [mem_chainPoints, covered_iff hspace hpoints.defined hT.start_lt]
  · intro log cost peer lam pid epoch hepoch hpeer hpid
    obtain ⟨hlt, hpoint, hidentify⟩ := hT.pointOf_spec hpeer hepoch
    obtain ⟨hfound, hmissed⟩ :=
      yields_lookup_point hattach hspace hpoints hlt ⟨lam, epoch, hpoint, hpid⟩
    by_cases hcovered : T'.Covered C (T'.pointOf peer epoch)
    · rw [resolve_of_yields (hfound hcovered), Option.elim_some, hidentify]
      have hstale : log.isStaleEpoch peer epoch = true ↔ (epoch : ℤ) ≤ log.last peer :=
        SessionLog.isStaleEpoch_iff
      by_cases hold : (epoch : ℤ) ≤ log.last peer
      · rw [if_pos (hstale.mpr hold)]
        refine ⟨⟨nofun, fun h => absurd h.2 (not_lt.mpr hold)⟩, fun _ _ => rfl,
          fun h => absurd hcovered h⟩
      · rw [if_neg fun h => hold (hstale.mp h)]
        exact ⟨⟨fun _ => ⟨hcovered, not_le.mp hold⟩, fun _ => rfl⟩, fun _ h => absurd h hold,
          fun h => absurd hcovered h⟩
    · rw [resolve_of_yields (hmissed hcovered), Option.elim_none]
      exact ⟨⟨nofun, fun h => absurd h.1 hcovered⟩, fun h => absurd h hcovered, fun _ => rfl⟩

/-- The first points of the space. -/
def firstStarts : ChainStarts where
  sample _ space m := List.range (min m space)
  sample_lt _ space m x hx := lt_of_lt_of_le (List.mem_range.mp hx) (min_le_right m space)
  nodup_sample _ _ _ := List.nodup_range
  length_sample _ space m hm := by rw [List.length_range, min_eq_left hm]

/-- A table of one chain, for the epochs 0 and 1. -/
def oneChain : TimeMemoryTable :=
  { lifetime := 2, nTables := 1, chainLength? := some 2, chainsPerTable? := some 1, starts :=
    firstStarts }

/-- With a single peer its chain covers the first epoch, which is found, but not the second. -/
theorem lookup_finds_covered_oneChain : ∃ T',
    oneChain.attach .plain serverA.peerSecrets = (.ok (), T') ∧
      ∃ pid, h2Pseudonym .plain 1 0 = .ok pid ∧
        (T'.resolve .plain {} pid).1 = .ok ("device-1", 0) := by
  have hok : (oneChain.attach .plain serverA.peerSecrets).1 = .ok () :=
    toOption_eq_some_iff.mp (by decide +kernel)
  have hends : (oneChain.attach .plain serverA.peerSecrets).2.ends.map Dict.entries =
      [[(1, 0)]] := by
    decide +kernel
  have hlife : (oneChain.attach .plain serverA.peerSecrets).2.lifetime = 2 := by decide +kernel
  have hlength : (oneChain.attach .plain serverA.peerSecrets).2.chainLength = 2 := by decide +kernel
  have hpoint : (oneChain.attach .plain serverA.peerSecrets).2.pointOf "device-1" 0 = 0 := by
    decide +kernel
  have hpair : ∀ r : Except Exc Unit × TimeMemoryTable, r.1 = .ok () → ∃ T', r = (.ok (), T') :=
    fun r hr => ⟨r.2, Prod.ext hr rfl⟩
  obtain ⟨T', hattach⟩ := hpair _ hok
  rw [hattach] at hends hlife hlength hpoint
  obtain ⟨ends, hmap, hentries⟩ : ∃ ends, T'.ends = [ends] ∧ ends.entries = [(1, 0)] := by
    obtain ⟨ends, rest, hsplit, hentries, hrest⟩ := List.map_eq_cons_iff.mp hends
    exact ⟨ends, by rw [hsplit, List.map_eq_nil_iff.mp hrest], hentries⟩
  have hcovered : T'.Covered .plain 0 := by
    refine ⟨ends, 0, by rw [hmap]; rfl, 1, 0, ?_, 0, by rw [hlength]; decide, yields_pure 0⟩
    exact Dict.mem_entries_iff.mp (hentries ▸ List.mem_singleton_self _)
  obtain ⟨pid, hpid⟩ := exists_h2Pseudonym .plain 1 (le_refl (0 : ℤ)) (by decide)
  have hpoints := (attached_of_attach hattach).pointsInjective (by rw [hlife]; decide)
    pseudonymsInjective_serverA
  have hcoveredPoint : T'.Covered .plain (T'.pointOf "device-1" 0) := by
    rw [show T'.pointOf "device-1" 0 = 0 from hpoint]
    exact hcovered
  refine ⟨T', hattach, pid, hpid, ?_⟩
  exact ((lookup_finds_covered (by decide) (by decide) hattach hpoints).2.2.2
    {} T'.cost "device-1" 1
    pid 0 (by rw [hlife]; decide) rfl hpid).1.mpr ⟨hcoveredPoint, by decide⟩

end HybridEccAuth.TimeMemoryTable

import HybridEccAuth.Library.StateExcept
import HybridEccAuth.Resolution.Probing
import Mathlib.Data.Finset.Card
import Mathlib.Data.Nat.Find

/-!
# The time-memory table

`TimeMemoryTable` is a rainbow table over the points `x` below `space`: the point `x`
stands for the peer `x // lifetime` at the epoch `x % lifetime`.  A chain goes from a
point to the pseudonym of that point (`f`) and back to a point (`reduce`), column by
column, and the table stores the end and the start of each chain.  The starts are
drawn by the seeded generator of the language, which is a parameter (`ChainStarts`).

The loops are written in `StateExcept` over the counters.  `resolve_sound` holds
whatever is stored, since a candidate is compared with the pseudonym; `ok_lookup` says
that nothing is raised when there is a point, and `error_lookup` what is raised when
there is none.
-/

namespace HybridEccAuth

open StateExcept

/-- The chain starts that the generator draws for a table: distinct points of the space. -/
structure ChainStarts where
  /-- The sample for a table, a size of the space and a number of points. -/
  sample : ℕ → ℕ → ℕ → List ℕ
  sample_lt : ∀ table space m, ∀ x ∈ sample table space m, x < space
  nodup_sample : ∀ table space m, (sample table space m).Nodup
  length_sample : ∀ table space m, m ≤ space → (sample table space m).length = m

/-- The counters of the table. -/
structure LookupCost where
  count : Probes := {}
  falseAlarms : ℕ := 0

/-- The nearest integer to the cube root: the largest `k` with `(k - 1/2)^3 ≤ n`. -/
def roundCubeRoot (n : ℕ) : ℕ := Nat.findGreatest (fun k => (2 * k - 1) ^ 3 ≤ 8 * n) n

/-- The state of the resolver. -/
structure TimeMemoryTable where
  lifetime : ℕ := 128
  nTables : ℕ := 6
  chainLength? : Option ℕ := none
  chainsPerTable? : Option ℕ := none
  starts : ChainStarts
  cost : LookupCost := {}
  peers : List String := []
  lams : List Lam := []
  /-- For each table, the start of the chain that is kept for an end point. -/
  ends : List (Dict ℕ ℕ) := []

namespace TimeMemoryTable

/-- The number of points. -/
def space (T : TimeMemoryTable) : ℕ := T.peers.length * T.lifetime

/-- The number of columns of a chain. -/
def chainLength (T : TimeMemoryTable) : ℕ := T.chainLength?.getD (max 1 (roundCubeRoot T.space))

/-- The number of chains of a table: by default twice the space over the chain length, rounded
up. -/
def chainsPerTable (T : TimeMemoryTable) : Except Exc ℕ :=
  match T.chainsPerTable? with
  | some m => .ok m
  | none =>
    if T.chainLength = 0 then .error (.ofLibrary .zeroDivisionError)
    else .ok (max 1 ((2 * T.space + T.chainLength - 1) / T.chainLength))

/-- The number of the peer and the epoch of a point. -/
def split (T : TimeMemoryTable) (x : ℕ) : Except Exc (ℕ × ℕ) :=
  if T.lifetime = 0 then .error (.ofLibrary .zeroDivisionError)
  else .ok (x / T.lifetime, x % T.lifetime)

/-- The secret and the epoch of a point. -/
def point (T : TimeMemoryTable) (x : ℕ) : Except Exc (Lam × ℤ) :=
  match T.split x with
  | .error e => .error e
  | .ok (i, epoch) =>
    match T.lams[i]? with
    | some lam => .ok (lam, epoch)
    | none => .error (.ofLibrary .indexError)

/-- `_h2` on the counters of the table. -/
def h2 (C : Crypto) (lam : Lam) (epoch : ℤ) (precompute : Bool) :
    StateExcept Exc LookupCost Bytes := fun s =>
  match s.count.h2 C lam epoch precompute with
  | (r, n) => (r, { s with count := n })

/-- `_f`: the pseudonym of a point. -/
def f (C : Crypto) (T : TimeMemoryTable) (precompute : Bool) (x : ℕ) :
    StateExcept Exc LookupCost Bytes := do
  let (lam, epoch) ← StateExcept.lift (T.point x)
  h2 C lam epoch precompute

/-- `_reduce`: the point of a pseudonym, by column and table. -/
def reduce (T : TimeMemoryTable) (digest : Bytes) (column table : ℕ) : Except Exc ℕ :=
  if T.space = 0 then .error (.ofLibrary .zeroDivisionError)
  else .ok ((fromBytesBE (digest.take 8) + column + table * 1000003) % T.space)

/-- One column of a chain. -/
def hop (C : Crypto) (T : TimeMemoryTable) (precompute : Bool) (table x column : ℕ) :
    StateExcept Exc LookupCost ℕ := do
  let digest ← T.f C precompute x
  StateExcept.lift (T.reduce digest column table)

/-- Some columns of a chain. -/
def walk (C : Crypto) (T : TimeMemoryTable) (precompute : Bool) (table : ℕ) (columns : List ℕ)
    (x : ℕ) : StateExcept Exc LookupCost ℕ :=
  columns.foldlM (T.hop C precompute table) x

/-- The chains of one table; the first chain to reach an end point is kept. -/
def buildTable (C : Crypto) (T : TimeMemoryTable) (table : ℕ) :
    StateExcept Exc LookupCost (Dict ℕ ℕ) := do
  let m ← StateExcept.lift T.chainsPerTable
  (T.starts.sample table T.space (min m T.space)).foldlM (fun ends start => do
    let x ← T.walk C true table (List.range T.chainLength) start
    return if (ends.get x).isSome then ends else ends.set x start) Dict.empty

/-- All tables. -/
def buildTables (C : Crypto) (T : TimeMemoryTable) : StateExcept Exc LookupCost (List (Dict ℕ ℕ)) :=
  (List.range T.nTables).mapM (T.buildTable C)

/-- `TimeMemoryTable.attach`. -/
def attach (C : Crypto) (peers : Dict String Lam) (T : TimeMemoryTable) :
    Except Exc Unit × TimeMemoryTable :=
  let T := { T with peers := peers.keys, lams := peers.entries.map Prod.snd, ends := [] }
  match (T.buildTables C).outcome T.cost with
  | (.error e, cost) => (.error e, { T with cost := cost })
  | (.ok ends, cost) => (.ok (), { T with cost := cost, ends := ends })

/-- The search of one column of one table: the chain through the pseudonym in that column, if one is
stored, is walked from its start, and the point found there is checked. -/
def probeColumn (C : Crypto) (T : TimeMemoryTable) (pid : Bytes) (ends : Dict ℕ ℕ)
    (table column : ℕ) : StateExcept Exc LookupCost (Option ℕ) := do
  let z ← StateExcept.lift (T.reduce pid column table)
  let z ← T.walk C false table (List.range' (column + 1) (T.chainLength - (column + 1))) z
  match ends.get z with
  | none => return none
  | some start => do
    let x ← T.walk C false table (List.range column) start
    let digest ← T.f C false x
    if digest = pid then return some x
    else do
      StateExcept.modifyState fun s => { s with falseAlarms := s.falseAlarms + 1 }
      return none

/-- `_lookup`: the tables in order, in each of them the columns from the last to the first. -/
def lookup (C : Crypto) (T : TimeMemoryTable) (pid : Bytes) :
    StateExcept Exc LookupCost (Option ℕ) :=
  T.ends.zipIdx.findSomeM? fun t =>
    (List.range T.chainLength).reverse.findSomeM? (T.probeColumn C pid t.1 t.2)

/-- The peer and the epoch of a point that was found, unless the epoch is stale. -/
def identify (T : TimeMemoryTable) (log : SessionLog) (x : ℕ) : Except Exc (String × ℤ) :=
  match T.split x with
  | .error e => .error e
  | .ok (i, epoch) =>
    match T.peers[i]? with
    | none => .error (.ofLibrary .indexError)
    | some peer =>
      if log.isStaleEpoch peer epoch then .error (staleError peer epoch) else .ok (peer, epoch)

/-- The error for a pseudonym that is not found. -/
def notCoveredError : Exc :=
  ⟨.unknownPeerError, [.lit "pseudonym is not covered by the time-memory tables"]⟩

/-- The text about a pseudonym that is not covered is short. -/
lemma brief_notCoveredError (names : List String) : notCoveredError.Brief names :=
  Exc.brief_of_lit _ _ (by decide)

/-- `TimeMemoryTable.resolve`. -/
def resolve (C : Crypto) (log : SessionLog) (T : TimeMemoryTable) (pid : Bytes) :
    Except Exc (String × ℤ) × TimeMemoryTable :=
  match (T.lookup C pid).outcome T.cost with
  | (.error e, cost) => (.error e, { T with cost := cost })
  | (.ok none, cost) => (.error notCoveredError, { T with cost := cost })
  | (.ok (some x), cost) => (T.identify log x, { T with cost := cost })

/-- The points of the chains of one table, added to a set of points. -/
def coverTable (C : Crypto) (T : TimeMemoryTable) (covered : Finset ℕ) (t : Dict ℕ ℕ × ℕ) :
    StateExcept Exc LookupCost (Finset ℕ) :=
  (t.1.entries.map Prod.snd).foldlM (fun covered start => do
    let r ← (List.range T.chainLength).foldlM (fun (r : Finset ℕ × ℕ) column => do
      let x ← T.hop C true t.2 r.2 column
      return (insert r.2 r.1, x)) (covered, start)
    return r.1) covered

/-- The points that `coverage` counts. -/
def coveredPoints (C : Crypto) (T : TimeMemoryTable) : StateExcept Exc LookupCost (Finset ℕ) :=
  T.ends.zipIdx.foldlM (T.coverTable C) ∅

/-- `coverage`: the covered fraction of the points.  The counters are restored. -/
def coverage (C : Crypto) (T : TimeMemoryTable) : Except Exc ℚ :=
  match ((T.coveredPoints C).outcome T.cost).1 with
  | .error e => .error e
  | .ok covered =>
    if T.space = 0 then .error (.ofLibrary .zeroDivisionError)
    else .ok (covered.card / T.space)

/-- The table belongs to a set of peers: its points are theirs, there are as many tables as were
asked for, and every stored start is a point. -/
structure Attached (peers : Dict String Lam) (T : TimeMemoryTable) : Prop where
  peers_eq : T.peers = peers.keys
  lams_eq : T.lams = peers.entries.map Prod.snd
  length_ends : T.ends.length = T.nTables
  start_lt : ∀ ends ∈ T.ends, ends.Within fun _ start => start < T.space

/-! ## Soundness -/

section Sound

variable {C : Crypto} {peers : Dict String Lam} {log : SessionLog} {T : TimeMemoryTable}
  {pid : Bytes}

/-- The pseudonym of a point of the table. -/
def NamesPoint (C : Crypto) (T : TimeMemoryTable) (pid : Bytes) (x : ℕ) : Prop :=
  ∃ lam epoch, T.point x = .ok (lam, epoch) ∧ h2Pseudonym C lam epoch = .ok pid

/-- The outcome of H2 on the counters. -/
lemma outcome_h2 (lam : Lam) (epoch : ℤ) (precompute : Bool) (s : LookupCost) :
    (h2 C lam epoch precompute).outcome s = (h2Pseudonym C lam epoch,
      { s with count := (s.count.h2 C lam epoch precompute).2 }) := rfl

/-- Evaluating `f` gives the pseudonym of the point. -/
lemma triple_f (precompute : Bool) (x : ℕ) : Triple (fun _ => True) (T.f C precompute x)
    (fun digest _ => T.NamesPoint C digest x) (fun _ _ => True) := by
  refine Triple.bind (Q := fun q _ => T.point x = .ok q)
    (Triple.lift (fun _ _ h _ => h) fun _ _ _ _ => trivial) ?_
  rintro ⟨lam, epoch⟩ s hpoint
  rcases hhash : h2Pseudonym C lam epoch with e | digest
  · exact Or.inr ⟨e, _, (outcome_h2 lam epoch precompute s).trans (by rw [hhash]), trivial⟩
  · exact Or.inl ⟨digest, _, (outcome_h2 lam epoch precompute s).trans (by rw [hhash]), lam, epoch,
      hpoint, hhash⟩

/-- A computation of which nothing is asked. -/
lemma triple_true {α : Type} (x : StateExcept Exc LookupCost α) :
    Triple (fun _ => True) x (fun _ _ => True) (fun _ _ => True) := by
  intro s _
  rcases h : x.outcome s with ⟨e | a, s'⟩
  · exact Or.inr ⟨e, s', rfl, trivial⟩
  · exact Or.inl ⟨a, s', rfl, trivial⟩

/-- A point that the search finds has the pseudonym that was looked up. -/
lemma triple_probeColumn (pid : Bytes) (ends : Dict ℕ ℕ) (table column : ℕ) :
    Triple (fun _ => True) (T.probeColumn C pid ends table column)
      (fun r _ => True ∧ ∀ x, r = some x → T.NamesPoint C pid x) (fun _ _ => True) := by
  refine Triple.bind (triple_true _) fun z => Triple.bind (triple_true _) fun z => ?_
  split
  · exact Triple.pure fun _ _ => ⟨trivial, by simp⟩
  · refine Triple.bind (triple_true _) fun x => Triple.bind (triple_f false x) fun digest => ?_
    split_ifs with hpid
    · refine Triple.pure fun s hnames => ⟨trivial, ?_⟩
      intro y hy
      obtain rfl := Option.some_inj.mp hy
      exact hpid ▸ hnames
    · refine Triple.bind ((triple_true _).imp (fun _ _ => trivial) (fun _ _ h => h) fun _ _ h => h)
        fun _ => Triple.pure fun _ _ => ⟨trivial, by simp⟩

/-- What the search finds has the pseudonym that was looked up. -/
lemma namesPoint_of_lookup {x : ℕ} {s s' : LookupCost}
    (h : (T.lookup C pid).outcome s = (.ok (some x), s')) : T.NamesPoint C pid x := by
  have htriple : Triple (fun _ => True) (T.lookup C pid)
      (fun r _ => True ∧ ∀ x, r = some x → T.NamesPoint C pid x) (fun _ _ => True) :=
    Triple.findSomeM? fun t _ =>
      Triple.findSomeM? fun column _ => triple_probeColumn pid t.1 t.2 column
  rcases htriple s trivial with ⟨r, s₁, hrun, -, hr⟩ | ⟨e, s₁, hrun, -⟩
  · rw [hrun] at h
    cases h
    exact hr x rfl
  · rw [hrun] at h
    cases h

/-- The secret of a point is the secret of its peer. -/
lemma Attached.get_of_point (hT : T.Attached peers) {x i : ℕ} {epoch : ℕ} {lam : Lam} {e : ℤ}
    {peer : String} (hsplit : T.split x = .ok (i, epoch)) (hpeer : T.peers[i]? = some peer)
    (hpoint : T.point x = .ok (lam, e)) : peers.get peer = some lam ∧ e = epoch := by
  unfold point at hpoint
  rw [hsplit] at hpoint
  dsimp only at hpoint
  rcases hlam : T.lams[i]? with _ | lam'
  · rw [hlam] at hpoint
    cases hpoint
  · rw [hlam] at hpoint
    cases hpoint
    rw [hT.lams_eq, List.getElem?_map] at hlam
    rw [hT.peers_eq, Dict.keys, List.getElem?_map] at hpeer
    obtain ⟨q, hq, rfl⟩ := Option.map_eq_some_iff.mp hlam
    rw [hq] at hpeer
    cases hpeer
    exact ⟨Dict.mem_entries_iff.mp (List.mem_of_getElem? hq), rfl⟩

/-- A resolved pair is named by the pseudonym, and its epoch is new. -/
theorem Attached.resolve_sound (hT : T.Attached peers) {peer : String} {epoch : ℤ}
    (h : (T.resolve C log pid).1 = .ok (peer, epoch)) :
    Names C peers pid peer epoch ∧ log.last peer < epoch := by
  unfold resolve at h
  split at h
  · cases h
  · cases h
  · rename_i x cost hrun
    obtain ⟨lam, e, hpoint, hpid⟩ := namesPoint_of_lookup hrun
    dsimp only at h
    unfold identify at h
    split at h
    · cases h
    · rename_i i n hsplit
      split at h
      · cases h
      · rename_i p hp
        obtain ⟨hlam, rfl⟩ := hT.get_of_point hsplit hp hpoint
        split_ifs at h with hstale
        cases h
        rw [SessionLog.isStaleEpoch_iff, not_le] at hstale
        exact ⟨⟨lam, hlam, hpid⟩, hstale⟩

/-- Resolving changes the counters only. -/
lemma resolve_frame : ∃ cost, (T.resolve C log pid).2 = { T with cost := cost } := by
  unfold resolve
  split <;> exact ⟨_, rfl⟩

/-- The outcome of a hop does not depend on the counters. -/
lemma exists_yields_f (precompute : Bool) (x : ℕ) : ∃ r, Yields (T.f C precompute x) r :=
  exists_yields_bind ⟨_, yields_lift _⟩ fun q =>
    ⟨h2Pseudonym C q.1 q.2, fun s => congrArg Prod.fst (outcome_h2 q.1 q.2 precompute s)⟩

/-- The outcome of a walk does not depend on the counters. -/
lemma exists_yields_walk (precompute : Bool) (table : ℕ) (columns : List ℕ) (x : ℕ) :
    ∃ r, Yields (T.walk C precompute table columns x) r :=
  exists_yields_foldlM (fun x _ => exists_yields_bind (exists_yields_f precompute x)
    fun _ => ⟨_, yields_lift _⟩) columns x

/-- The outcome of the search of a column does not depend on the counters. -/
lemma exists_yields_probeColumn (pid : Bytes) (ends : Dict ℕ ℕ) (table column : ℕ) :
    ∃ r, Yields (T.probeColumn C pid ends table column) r := by
  refine exists_yields_bind ⟨_, yields_lift _⟩ fun z =>
    exists_yields_bind (exists_yields_walk false table _ z) fun z => ?_
  split
  · exact ⟨_, yields_pure none⟩
  · refine exists_yields_bind (exists_yields_walk false table _ _) fun x =>
      exists_yields_bind (exists_yields_f false x) fun digest => ?_
    split_ifs
    · exact ⟨_, yields_pure _⟩
    · exact exists_yields_bind ⟨_, yields_modifyState _⟩ fun _ => ⟨_, yields_pure _⟩

/-- The outcome of a search does not depend on the counters. -/
lemma exists_yields_lookup (pid : Bytes) : ∃ r, Yields (T.lookup C pid) r := by
  refine exists_yields_findSomeM? (fun t => exists_yields_findSomeM? (fun column => ?_) _) _
  have hcolumn : ∃ r, Yields (T.probeColumn C pid t.1 t.2 column) r :=
    exists_yields_probeColumn pid t.1 t.2 column
  exact hcolumn

/-- What a pseudonym resolves to depends on the last accepted epochs, but not on the counters. -/
lemma resolve_fst_congr {log' : SessionLog} (hlast : ∀ p, log'.last p = log.last p)
    (cost : LookupCost) :
    (({ T with cost := cost } : TimeMemoryTable).resolve C log' pid).1 =
    (T.resolve C log pid).1 := by
  have hyields : ∃ r, Yields (T.lookup C pid) r := exists_yields_lookup pid
  obtain ⟨r, hr⟩ := hyields
  have hidentify : ∀ x, ({ T with cost := cost } : TimeMemoryTable).identify log' x =
      T.identify log x := by
    intro x
    simp only [identify, split, SessionLog.isStaleEpoch, hlast]
    rfl
  have hlookup : ({ T with cost := cost } : TimeMemoryTable).lookup C pid = T.lookup C pid := rfl
  have h₁ := hr cost
  have h₂ := hr T.cost
  unfold resolve
  rw [hlookup]
  dsimp only
  rcases hx : (T.lookup C pid).outcome cost with ⟨x, c⟩
  rcases hy : (T.lookup C pid).outcome T.cost with ⟨y, c'⟩
  rw [hx] at h₁
  rw [hy] at h₂
  obtain rfl : x = r := h₁
  obtain rfl : y = x := h₂
  rcases y with e | _ | x
  · rfl
  · rfl
  · exact hidentify x

/-- Resolving keeps the table attached. -/
lemma Attached.resolve (hT : T.Attached peers) : (T.resolve C log pid).2.Attached peers := by
  have hframe : ∃ cost, (T.resolve C log pid).2 = { T with cost := cost } := resolve_frame
  obtain ⟨cost, hcost⟩ := hframe
  rw [hcost]
  exact ⟨hT.peers_eq, hT.lams_eq, hT.length_ends, hT.start_lt⟩

end Sound

/-! ## Attaching -/

section Attach

variable {C : Crypto} {peers : Dict String Lam} {T : TimeMemoryTable}

/-- The starts that a table stores are points. -/
lemma triple_buildTable (table : ℕ) : Triple (fun _ => True) (T.buildTable C table)
    (fun ends _ => ends.Within fun _ start => start < T.space) (fun _ _ => True) := by
  apply Triple.bind (triple_true _)
  intro m
  refine (Triple.foldlM (I := fun (ends : Dict ℕ ℕ) _ => ends.Within fun _ start =>
    start < T.space) (fun start hstart ends => ?_) Dict.empty).imp
      (fun _ _ => Dict.within_empty) (fun _ _ h => h) fun _ _ h => h
  intro s hends
  refine Triple.bind (triple_true _) (fun x => Triple.pure fun _ _ => ?_) s trivial
  split_ifs
  · exact hends
  · exact hends.set (T.starts.sample_lt _ _ _ _ hstart)

/-- A table that was attached to peers belongs to them. -/
theorem attached_of_attach {T' : TimeMemoryTable} (h : T.attach C peers = (.ok (), T')) :
    T'.Attached peers := by
  unfold attach at h
  dsimp only at h
  split at h
  · cases h
  · rename_i tables cost hrun
    cases h
    rcases Triple.mapM (fun table _ => triple_buildTable (C := C) table) T.cost trivial with
      ⟨bs, s', hbs, hall⟩ | ⟨e, s', he, -⟩
    · rw [buildTables, hbs] at hrun
      cases hrun
      refine ⟨rfl, rfl, hall.length_eq.symm.trans List.length_range, fun ends hends => ?_⟩
      obtain ⟨i, hi, rfl⟩ := List.mem_iff_getElem.mp hends
      exact hall.get (hall.length_eq ▸ hi) hi
    · rw [buildTables, he] at hrun
      cases hrun

end Attach

/-! ## Failures -/

section Failures

variable {C : Crypto} {peers : Dict String Lam} {log : SessionLog} {T : TimeMemoryTable}
  {pid : Bytes}

/-- A reduced digest is a point. -/
lemma triple_reduce (hspace : 0 < T.space) (digest : Bytes) (column table : ℕ)
    {P : LookupCost → Prop} : Triple P (StateExcept.lift (T.reduce digest column table))
      (fun y _ => y < T.space) (fun _ _ => False) := by
  have hreduce : T.reduce digest column table =
      .ok ((fromBytesBE (digest.take 8) + column + table * 1000003) % T.space) :=
    if_neg (Nat.ne_of_gt hspace)
  refine Triple.lift (fun y s hy _ => ?_) (fun e s he _ => ?_)
  · rw [hreduce] at hy
    cases hy
    exact Nat.mod_lt _ hspace
  · rw [hreduce] at he
    cases he

/-- The peer and the secret of a point below the space. -/
lemma Attached.split_point (hT : T.Attached peers) {x : ℕ} (hx : x < T.space) :
    T.split x = .ok (x / T.lifetime, x % T.lifetime) ∧
      (∃ peer, T.peers[x / T.lifetime]? = some peer) ∧
      ∃ lam, T.point x = .ok (lam, ((x % T.lifetime : ℕ) : ℤ)) := by
  have hlife : T.lifetime ≠ 0 := by
    rintro h0
    rw [space, h0] at hx
    omega
  have hindex : x / T.lifetime < T.peers.length :=
    Nat.div_lt_of_lt_mul (by rwa [Nat.mul_comm])
  have hlength : T.lams.length = T.peers.length := by
    rw [hT.lams_eq, hT.peers_eq, Dict.keys, List.length_map, List.length_map]
  have hsplit : T.split x = .ok (x / T.lifetime, x % T.lifetime) := if_neg hlife
  refine ⟨hsplit, ⟨_, List.getElem?_eq_getElem hindex⟩, T.lams[x / T.lifetime], ?_⟩
  rw [point, hsplit]
  simp only [List.getElem?_eq_getElem (hlength ▸ hindex)]

/-- When there are no points, a search that has a column to probe divides by zero, and one that has
none finds nothing. -/
theorem resolve_of_space_eq_zero (hT : T.Attached peers) (hspace : T.space = 0) :
    (T.resolve C log pid).1 = if 0 < T.nTables ∧ 0 < T.chainLength then
      .error (.ofLibrary .zeroDivisionError) else .error notCoveredError := by
  have hreduce : ∀ column table, T.reduce pid column table =
      .error (.ofLibrary .zeroDivisionError) := fun column table => if_pos hspace
  have hprobe : ∀ ends table column s, (T.probeColumn C pid ends table column).outcome s =
      (.error (.ofLibrary .zeroDivisionError), s) := by
    intro ends table column s
    rw [probeColumn, outcome_bind, hreduce]
    rfl
  split_ifs with hcase
  · obtain ⟨ends, rest, hends⟩ := List.exists_cons_of_ne_nil
      (List.ne_nil_of_length_pos (hT.length_ends.symm ▸ hcase.1))
    obtain ⟨n, hn⟩ := Nat.exists_eq_succ_of_ne_zero (Nat.ne_of_gt hcase.2)
    have hcolumns : (List.range T.chainLength).reverse = n :: (List.range n).reverse := by
      rw [hn, List.range_succ, List.reverse_append]
      rfl
    have hrun : (T.lookup C pid).outcome T.cost =
        (.error (.ofLibrary .zeroDivisionError), T.cost) := by
      rw [lookup, hends, hcolumns, List.zipIdx_cons]
      exact outcome_findSomeM?_cons_error (outcome_findSomeM?_cons_error (hprobe _ _ _ _))
    rw [resolve, hrun]
  · have hrun : (T.lookup C pid).outcome T.cost = (.ok none, T.cost) := by
      refine outcome_findSomeM?_none (fun t ht s => ?_) T.cost
      have htables : 0 < T.nTables := by
        rw [← hT.length_ends]
        exact List.length_pos_of_mem ((List.mem_zipIdx ht).2.2 ▸ List.getElem_mem _)
      have hlength : T.chainLength = 0 := Nat.eq_zero_of_not_pos fun h => hcase ⟨htables, h⟩
      rw [hlength]
      rfl
    rw [resolve, hrun]

variable (hT : T.Attached peers) (hspace : 0 < T.space) (hlife : T.lifetime ≤ 2 ^ 64)

include hT hlife in
/-- Evaluating `f` at a point raises nothing. -/
lemma triple_f_of_lt (precompute : Bool) {x : ℕ} (hx : x < T.space) :
    Triple (fun _ => True) (T.f C precompute x) (fun _ _ => True) (fun _ _ => False) := by
  obtain ⟨-, -, lam, hpoint⟩ := hT.split_point hx
  have hlt : x % T.lifetime < T.lifetime := by
    refine Nat.mod_lt _ (Nat.pos_of_ne_zero ?_)
    rintro h0
    rw [space, h0] at hx
    omega
  obtain ⟨digest, hdigest⟩ := exists_h2Pseudonym C lam (Int.natCast_nonneg (x % T.lifetime))
    (by exact_mod_cast lt_of_lt_of_le hlt hlife)
  refine Triple.bind (Q := fun q _ => q = (lam, ((x % T.lifetime : ℕ) : ℤ)))
    (Triple.lift (fun q s hq _ => ?_) fun e s he _ => ?_) ?_
  · rw [hpoint] at hq
    exact (Except.ok.inj hq).symm
  · rw [hpoint] at he
    cases he
  · rintro q s rfl
    exact Or.inl ⟨digest, _, (outcome_h2 lam _ precompute s).trans (by rw [hdigest]), trivial⟩

include hT hspace hlife

/-- A walk from a point raises nothing and ends in a point. -/
lemma triple_walk (precompute : Bool) (table : ℕ) (columns : List ℕ) (x : ℕ) :
    Triple (fun _ => x < T.space) (T.walk C precompute table columns x)
      (fun y _ => y < T.space) (fun _ _ => False) := by
  refine Triple.foldlM (I := fun y _ => y < T.space) (fun column _ y s hy => ?_) x
  exact Triple.bind (triple_f_of_lt hT hlife precompute hy)
    (fun digest => triple_reduce hspace digest column table) s trivial

/-- The search of a column raises nothing, and what it finds is a point. -/
lemma triple_probeColumn_of_pos (pid : Bytes) {ends : Dict ℕ ℕ} (hends : ends ∈ T.ends)
    (table column : ℕ) : Triple (fun _ => True) (T.probeColumn C pid ends table column)
      (fun r _ => True ∧ ∀ x, r = some x → x < T.space) (fun _ _ => False) := by
  refine Triple.bind (triple_reduce hspace pid column table) fun z =>
    Triple.bind (triple_walk hT hspace hlife false table _ z) fun z => ?_
  split
  · exact Triple.pure fun _ _ => ⟨trivial, by simp⟩
  · rename_i start hstart
    have hlt := hT.start_lt ends hends _ _ hstart
    refine Triple.bind ((triple_walk hT hspace hlife false table _ start).imp (fun _ _ => hlt)
      (fun _ _ h => h) fun _ _ h => h) fun x => ?_
    intro s hx
    refine Triple.bind (triple_f_of_lt hT hlife false hx) (fun digest => ?_) s trivial
    split_ifs
    · refine Triple.pure fun s _ => ⟨trivial, ?_⟩
      intro y hy
      obtain rfl := Option.some_inj.mp hy
      exact hx
    · refine Triple.bind (Q := fun _ _ => True) (Triple.modifyState fun _ _ => trivial) fun _ => ?_
      exact Triple.pure fun _ _ => ⟨trivial, by simp⟩

/-- When there are points, a search raises nothing, and what it finds is a point. -/
theorem ok_lookup (s : LookupCost) : ∃ r s', (T.lookup C pid).outcome s = (.ok r, s') ∧
    ∀ x, r = some x → x < T.space := by
  have htriple : Triple (fun _ => True) (T.lookup C pid)
      (fun r _ => True ∧ ∀ x, r = some x → x < T.space) (fun _ _ => False) := by
    refine Triple.findSomeM? fun t ht => Triple.findSomeM? fun column _ => ?_
    obtain ⟨-, -, hget⟩ := List.mem_zipIdx ht
    exact triple_probeColumn_of_pos hT hspace hlife pid (hget ▸ List.getElem_mem _) t.2 column
  rcases htriple s trivial with ⟨r, s', hrun, -, hr⟩ | ⟨e, s', -, hfalse⟩
  · exact ⟨r, s', hrun, hr⟩
  · exact hfalse.elim

/-- When there are points, what is not resolved is unknown or stale. -/
theorem kind_of_resolve {x : Exc} (h : (T.resolve C log pid).1 = .error x) :
    (x.kind = .replayDetected ∨ x.kind = .unknownPeerError) ∧ x.Brief peers.keys := by
  obtain ⟨r, s', hrun, hr⟩ : ∃ r s', (T.lookup C pid).outcome T.cost = (.ok r, s') ∧
      ∀ x, r = some x → x < T.space := ok_lookup hT hspace hlife T.cost
  unfold resolve at h
  rw [hrun] at h
  rcases r with _ | y
  · cases h
    exact ⟨Or.inr rfl, brief_notCoveredError _⟩
  · obtain ⟨hsplit, ⟨peer, hpeer⟩, -⟩ := hT.split_point (hr y rfl)
    have hmem : peer ∈ peers.keys := hT.peers_eq ▸ List.mem_of_getElem? hpeer
    have hpos : 0 < T.lifetime := Nat.pos_of_mul_pos_left hspace
    have hlt : y % T.lifetime < 2 ^ 64 := lt_of_lt_of_le (Nat.mod_lt _ hpos) hlife
    dsimp only at h
    simp only [identify, hsplit, hpeer] at h
    split_ifs at h
    cases h
    exact ⟨Or.inl rfl, brief_staleError hmem ⟨Int.natCast_nonneg _, by exact_mod_cast hlt⟩⟩

end Failures

end TimeMemoryTable

end HybridEccAuth

import HybridEccAuth.Library.Cost
import HybridEccAuth.Properties.RainbowLookup
import Mathlib.Algebra.BigOperators.Intervals
import Mathlib.Algebra.Order.Monoid.Prod

/-!
# What the time-memory table costs

A cost is a number of probes for incoming messages, a number of probes made offline, and
a number of false alarms; it acts on the counters.  A walk costs one probe for every
column (`charges_walk`).  The search of a column walks to the end of the chain, and
starts again from its beginning when that end is stored; so it costs the columns behind
it, and with a false alarm all columns (`charges_probeColumn`).  Summed over all columns
of all tables this is the cost of a look-up that finds nothing (`lookup_cost`).
-/

namespace HybridEccAuth.TimeMemoryTable

open StateExcept

/-- A cost: probes for incoming messages, probes made offline, false alarms. -/
abbrev Cost := ℕ × ℕ × ℕ

/-- A cost is added to the counters. -/
instance chargeCounters : AddAction Cost LookupCost where
  vadd k s :=
    { count := ⟨s.count.probes + k.1, s.count.precomputeProbes + k.2.1⟩
      falseAlarms := s.falseAlarms + k.2.2 }
  zero_vadd _ := rfl
  add_vadd k l s := by
    have hprobes : s.count.probes + (k.1 + l.1) = s.count.probes + l.1 + k.1 := by omega
    have hoffline : s.count.precomputeProbes + (k.2.1 + l.2.1) =
        s.count.precomputeProbes + l.2.1 + k.2.1 := by omega
    have halarms : s.falseAlarms + (k.2.2 + l.2.2) = s.falseAlarms + l.2.2 + k.2.2 := by omega
    show LookupCost.mk ⟨s.count.probes + (k.1 + l.1), s.count.precomputeProbes + (k.2.1 + l.2.1)⟩
      (s.falseAlarms + (k.2.2 + l.2.2)) = _
    rw [hprobes, hoffline, halarms]
    rfl

/-- One probe. -/
def probe (precompute : Bool) : Cost := if precompute then (0, 1, 0) else (1, 0, 0)

variable {C : Crypto} {peers : Dict String Lam} {T : TimeMemoryTable}

/-- The counters with a cost. -/
lemma vadd_eq (k : Cost) (s : LookupCost) : k +ᵥ s =
    { count := ⟨s.count.probes + k.1, s.count.precomputeProbes + k.2.1⟩
      falseAlarms := s.falseAlarms + k.2.2 } := rfl

/-! ## Walks -/

/-- H2 costs one probe. -/
lemma charges_h2 (lam : Lam) (epoch : ℤ) (precompute : Bool) :
    Charges (h2 C lam epoch precompute) (probe precompute) fun _ k => k = probe precompute := by
  intro s
  refine ⟨h2Pseudonym C lam epoch, probe precompute, ?_, le_refl _, fun _ _ => rfl⟩
  rw [outcome_h2]
  cases precompute <;> rfl

/-- The pseudonym of a point costs one probe. -/
lemma charges_f (precompute : Bool) (x : ℕ) :
    Charges (T.f C precompute x) (probe precompute) fun _ k => k = probe precompute := by
  refine Charges.imp ((charges_lift (T.point x)).bind fun q => charges_h2 q.1 q.2 precompute)
    (by rw [zero_add]) ?_
  rintro _ _ ⟨_, _, _, ⟨-, rfl⟩, rfl, rfl⟩
  rw [zero_add]

/-- A hop costs one probe. -/
lemma charges_hop (precompute : Bool) (table x column : ℕ) :
    Charges (T.hop C precompute table x column) (probe precompute)
      fun _ k => k = probe precompute := by
  refine Charges.imp ((charges_f precompute x).bind fun digest =>
    charges_lift (T.reduce digest column table)) (by rw [add_zero]) ?_
  rintro _ _ ⟨_, _, _, rfl, ⟨-, rfl⟩, rfl⟩
  rw [add_zero]

/-- A walk costs one probe for every column. -/
lemma charges_walk (precompute : Bool) (table : ℕ) (columns : List ℕ) (x : ℕ) :
    Charges (T.walk C precompute table columns x) (columns.length • probe precompute)
      fun _ k => k = columns.length • probe precompute :=
  Charges.foldlM (fun column _ x => charges_hop precompute table x column) x

/-! ## Attaching -/

/-- A table costs one probe for every column of each of its chains. -/
lemma charges_buildTable {m : ℕ} (hm : T.chainsPerTable = .ok m) (table : ℕ) :
    Charges (T.buildTable C table) (min m T.space • T.chainLength • probe true)
      fun _ k => k = min m T.space • T.chainLength • probe true := by
  have hlength : (T.starts.sample table T.space (min m T.space)).length = min m T.space :=
    T.starts.length_sample _ _ _ (min_le_right _ _)
  rw [buildTable, hm, lift_ok_bind]
  have hround : ∀ start (ends : Dict ℕ ℕ), Charges (do
      let x ← T.walk C true table (List.range T.chainLength) start
      return if (ends.get x).isSome then ends else ends.set x start)
      (T.chainLength • probe true) fun _ k => k = T.chainLength • probe true := by
    intro start ends
    refine Charges.imp ((charges_walk true table (List.range T.chainLength) start).bind
      fun x => charges_pure _) (by rw [add_zero, List.length_range]) ?_
    rintro _ _ ⟨_, _, _, rfl, ⟨-, rfl⟩, rfl⟩
    rw [add_zero, List.length_range]
  have hall := Charges.foldlM (fun start
    (_ : start ∈ T.starts.sample table T.space (min m T.space)) ends =>
    hround start ends) Dict.empty
  rw [hlength] at hall
  exact hall

/-- Attaching costs one probe for every column of each chain of every table. -/
lemma cost_attach {T' : TimeMemoryTable} (h : T.attach C peers = (.ok (), T')) {m : ℕ}
    (hm : T'.chainsPerTable = .ok m) :
    T'.cost = (T'.nTables • min m T'.space • T'.chainLength • probe true) +ᵥ T.cost := by
  unfold attach at h
  dsimp only at h
  split at h
  · cases h
  · rename_i tables cost hrun
    cases h
    have htables := Charges.mapM fun table (_ : table ∈ List.range T.nTables) =>
      charges_buildTable (C := C)
        (T := { T with peers := peers.keys, lams := peers.entries.map Prod.snd, ends := [] })
        hm table
    obtain ⟨r, k, hcost, -, hk⟩ := htables T.cost
    rw [buildTables, hcost] at hrun
    obtain ⟨rfl, rfl⟩ := Prod.mk.inj hrun
    rw [hk tables rfl, List.length_range]
    rfl

/-- The tables are not built when the number of chains is not defined. -/
lemma outcome_buildTables_error {e : Exc} (hm : T.chainsPerTable = .error e)
    (htables : 0 < T.nTables) (s : LookupCost) : (T.buildTables C).outcome s = (.error e, s) := by
  obtain ⟨n, hn⟩ := Nat.exists_eq_succ_of_ne_zero (Nat.ne_of_gt htables)
  rw [buildTables, hn, List.range_succ_eq_map, List.mapM_cons, outcome_bind, buildTable, hm]
  rfl

/-- Attaching a table returns only when the number of chains is defined. -/
lemma exists_chainsPerTable {T' : TimeMemoryTable} (h : T.attach C peers = (.ok (), T'))
    (htables : 0 < T'.nTables) : ∃ m, T'.chainsPerTable = .ok m := by
  rcases hm : T'.chainsPerTable with e | m
  · unfold attach at h
    dsimp only at h
    split at h
    · cases h
    · rename_i tables cost hrun
      cases h
      have herror := outcome_buildTables_error (C := C)
        (T := { T with peers := peers.keys, lams := peers.entries.map Prod.snd, ends := [] })
        hm htables T.cost
      rw [herror] at hrun
      cases hrun
  · exact ⟨m, rfl⟩

/-! ## The search of a column -/

/-- The end of the chain through a pseudonym in a column. -/
def chainEnd (C : Crypto) (T : TimeMemoryTable) (pid : Bytes) (table column : ℕ) :
    StateExcept Exc LookupCost ℕ := do
  let z ← StateExcept.lift (T.reduce pid column table)
  T.walk C false table (List.range' (column + 1) (T.chainLength - (column + 1))) z

/-- The search of a column raises a false alarm. -/
def falseAlarm (C : Crypto) (T : TimeMemoryTable) (pid : Bytes) (ends : Dict ℕ ℕ)
    (table column : ℕ) : Bool :=
  0 < ((T.probeColumn C pid ends table column).outcome {}).2.falseAlarms

/-- The columns in which a look-up that finds nothing raises a false alarm. -/
def falseAlarmColumns (C : Crypto) (T : TimeMemoryTable) (pid : Bytes) : List ℕ :=
  T.ends.zipIdx.flatMap fun t =>
    (List.range T.chainLength).reverse.filter (T.falseAlarm C pid t.1 t.2)

variable (pid : Bytes) (ends : Dict ℕ ℕ) (table : ℕ)

/-- The end of a chain costs the columns behind the one it starts in. -/
lemma charges_chainEnd (column : ℕ) :
    Charges (T.chainEnd C pid table column) ((T.chainLength - (column + 1), 0, 0) : Cost)
      fun z k => k = (T.chainLength - (column + 1), 0, 0) ∧
        Yields (T.chainEnd C pid table column) (.ok z) := by
  have hprobes : (List.range' (column + 1) (T.chainLength - (column + 1))).length • probe false =
      (T.chainLength - (column + 1), 0, 0) := by
    rw [List.length_range']
    simp [probe]
  have hyields : ∃ r, Yields (T.chainEnd C pid table column) r :=
    exists_yields_bind ⟨_, yields_lift _⟩ fun z => exists_yields_walk false table _ z
  refine Charges.yields (Charges.imp ((charges_lift (T.reduce pid column table)).bind fun z =>
    charges_walk false table _ z) (by rw [zero_add, hprobes]) ?_) hyields
  rintro _ _ ⟨_, _, _, ⟨-, rfl⟩, rfl, rfl⟩
  rw [zero_add, hprobes]

/-- What the search of a column does with the end of the chain. -/
def checkEnd (C : Crypto) (T : TimeMemoryTable) (pid : Bytes) (ends : Dict ℕ ℕ)
    (table column z : ℕ) : StateExcept Exc LookupCost (Option ℕ) :=
  match ends.get z with
  | none => return none
  | some start => do
    let x ← T.walk C false table (List.range column) start
    let digest ← T.f C false x
    if digest = pid then return some x
    else do
      StateExcept.modifyState fun s => { s with falseAlarms := s.falseAlarms + 1 }
      return none

/-- The search of a column, in two parts. -/
lemma probeColumn_eq (column : ℕ) : T.probeColumn C pid ends table column =
    T.chainEnd C pid table column >>= T.checkEnd C pid ends table column := by
  rw [chainEnd, bind_assoc]
  rfl

/-- An end that is stored is paid for with the columns up to the pseudonym and, unless the pseudonym
is found, a false alarm. -/
lemma charges_checkEnd (column z : ℕ) :
    Charges (T.checkEnd C pid ends table column z) ((column + 1, 0, 1) : Cost)
      fun r k => r = none → k = if (ends.get z).isSome then (column + 1, 0, 1) else 0 := by
  unfold checkEnd
  rcases hstart : ends.get z with _ | start
  · apply Charges.imp (charges_pure none) zero_le
    rintro _ _ ⟨-, rfl⟩ -
    rfl
  · dsimp only
    have hcompare : ∀ (x : ℕ) (digest : Bytes), Charges (if digest = pid then return some x else do
        StateExcept.modifyState fun s => { s with falseAlarms := s.falseAlarms + 1 }
        return none : StateExcept Exc LookupCost (Option ℕ)) ((0, 0, 1) : Cost)
          fun r k => r = none → k = (0, 0, 1) := by
      intro x digest
      split_ifs
      · apply Charges.imp (charges_pure (some x)) zero_le
        rintro _ _ ⟨rfl, -⟩ h
        cases h
      · have hraise : ∀ s : LookupCost, ({ s with falseAlarms := s.falseAlarms + 1 } : LookupCost) =
            ((0, 0, 1) : Cost) +ᵥ s := fun s => rfl
        refine Charges.imp ((charges_modifyState hraise).bind fun _ => charges_pure none)
          (by rw [add_zero]) ?_
        rintro _ _ ⟨_, _, _, rfl, ⟨-, rfl⟩, rfl⟩ -
        rw [add_zero]
    have hsum : ((List.range column).length • probe false + (probe false + (0, 0, 1)) : Cost) =
        (column + 1, 0, 1) := by
      rw [List.length_range]
      simp [probe]
    refine Charges.imp ((charges_walk false table (List.range column) start).bind fun x =>
      (charges_f false x).bind fun digest => hcompare x digest) (by rw [hsum]) ?_
    rintro _ _ ⟨_, _, _, rfl, ⟨_, _, _, rfl, h, rfl⟩, rfl⟩ hnone
    rw [h hnone, hsum]
    rfl

/-- The cost of a column in which nothing is found. -/
def columnCost (C : Crypto) (T : TimeMemoryTable) (pid : Bytes) (ends : Dict ℕ ℕ)
    (table column : ℕ) : Cost :=
  if T.falseAlarm C pid ends table column then (T.chainLength, 0, 1)
  else (T.chainLength - (column + 1), 0, 0)

/-- The search of a column costs at most all columns; when it finds nothing, it costs the columns
behind it, or all of them with a false alarm. -/
lemma charges_probeColumn {column : ℕ} (hcolumn : column < T.chainLength) :
    Charges (T.probeColumn C pid ends table column) ((T.chainLength, 0, 1) : Cost)
      fun r k => r = none → k = T.columnCost C pid ends table column := by
  have hsum : ((T.chainLength - (column + 1), 0, 0) + (column + 1, 0, 1) : Cost) =
      (T.chainLength, 0, 1) := by
    refine Prod.ext ?_ rfl
    show T.chainLength - (column + 1) + (column + 1) = T.chainLength
    omega
  have hparts : Charges (T.probeColumn C pid ends table column) ((T.chainLength, 0, 1) : Cost)
      fun r k => r = none → ∃ z, Yields (T.chainEnd C pid table column) (.ok z) ∧
        k = if (ends.get z).isSome then (T.chainLength, 0, 1)
          else (T.chainLength - (column + 1), 0, 0) := by
    rw [probeColumn_eq]
    refine Charges.imp ((charges_chainEnd pid table column).bind fun z =>
      charges_checkEnd pid ends table column z) (by rw [hsum]) ?_
    rintro r _ ⟨z, _, l, ⟨rfl, hz⟩, h, rfl⟩ hnone
    refine ⟨z, hz, ?_⟩
    rw [h hnone]
    split_ifs
    · exact hsum
    · rw [add_zero]
  intro s
  obtain ⟨r, k, hrun, hk, hr⟩ := hparts s
  refine ⟨r, k, hrun, hk, ?_⟩
  rintro a rfl rfl
  obtain ⟨z, hz, hcost⟩ := hr none rfl rfl
  -- the false alarm is defined by the outcome from fresh counters, which is the same
  obtain ⟨r', k', hrun', -, hr'⟩ := hparts {}
  have hyields : ∃ r, Yields (T.probeColumn C pid ends table column) r :=
    exists_yields_probeColumn pid ends table column
  obtain ⟨r₀, hr₀⟩ := hyields
  have h₁ := hr₀ s
  have h₂ := hr₀ {}
  rw [hrun] at h₁
  rw [hrun'] at h₂
  obtain rfl : r₀ = .ok none := h₁.symm
  obtain rfl : r' = .ok none := h₂
  obtain ⟨z', hz', hcost'⟩ := hr' none rfl rfl
  obtain rfl : z = z' := Except.ok.inj ((hz s).symm.trans (hz' s))
  have hsame : k' = k := hcost'.trans hcost.symm
  rw [columnCost, falseAlarm, hrun', hsame, vadd_eq, hcost]
  split_ifs <;> simp_all

/-! ## A look-up -/

/-- The columns behind each column of a chain, added up. -/
lemma sum_columns_behind (n : ℕ) :
    ((List.range n).reverse.map fun column => n - (column + 1)).sum = n * (n - 1) / 2 := by
  rw [List.map_reverse, List.sum_reverse, ← Finset.sum_range_id, ← Finset.sum_range_reflect]
  refine congrArg List.sum (List.map_congr_left fun column _ => ?_)
  omega

/-- The cost of some columns of a table in which nothing is found. -/
lemma sum_columnCost {columns : List ℕ} (h : ∀ column ∈ columns, column < T.chainLength) :
    (columns.map (T.columnCost C pid ends table)).sum =
      ((columns.map fun column => T.chainLength - (column + 1)).sum +
          ((columns.filter (T.falseAlarm C pid ends table)).map (· + 1)).sum,
        0, (columns.filter (T.falseAlarm C pid ends table)).length) := by
  induction columns with
  | nil => rfl
  | cons column columns ih =>
    obtain ⟨hcolumn, hcolumns⟩ := List.forall_mem_cons.mp h
    rw [List.map_cons, List.sum_cons, ih hcolumns, columnCost, List.map_cons, List.sum_cons]
    by_cases halarm : T.falseAlarm C pid ends table column = true
    · rw [if_pos halarm, List.filter_cons_of_pos halarm, List.map_cons, List.sum_cons,
        List.length_cons]
      refine Prod.ext ?_ (Prod.ext rfl ?_)
      · dsimp only [Prod.fst_add]
        omega
      · exact Nat.add_comm _ _
    · rw [if_neg halarm, List.filter_cons_of_neg halarm]
      refine Prod.ext ?_ (Prod.ext rfl ?_)
      · dsimp only [Prod.fst_add]
        omega
      · exact Nat.zero_add _

/-- The cost of some tables in which nothing is found. -/
lemma sum_tableCost (tables : List (Dict ℕ ℕ × ℕ)) :
    (tables.map fun t =>
        ((List.range T.chainLength).reverse.map (T.columnCost C pid t.1 t.2)).sum).sum =
      (tables.length * (T.chainLength * (T.chainLength - 1) / 2) +
          ((tables.flatMap fun t => (List.range T.chainLength).reverse.filter
            (T.falseAlarm C pid t.1 t.2)).map (· + 1)).sum,
        0, (tables.flatMap fun t => (List.range T.chainLength).reverse.filter
          (T.falseAlarm C pid t.1 t.2)).length) := by
  have hcolumns : ∀ column ∈ (List.range T.chainLength).reverse, column < T.chainLength :=
    fun column hmem => List.mem_range.mp (List.mem_reverse.mp hmem)
  induction tables with
  | nil => simp; rfl
  | cons t tables ih =>
    rw [List.map_cons, List.sum_cons, ih, sum_columnCost pid t.1 t.2 hcolumns, sum_columns_behind,
      List.flatMap_cons, List.map_append, List.sum_append, List.length_append, List.length_cons,
      Nat.add_one_mul]
    refine Prod.ext ?_ (Prod.ext rfl rfl)
    dsimp only [Prod.fst_add]
    omega

/-- A look-up costs at most all columns for each column of each table; when it finds nothing, it
costs the columns behind each of them, and those up to each false alarm. -/
lemma charges_lookup : Charges (T.lookup C pid)
    (T.ends.length • T.chainLength • (T.chainLength, 0, 1) : Cost) fun r k => r = none → k =
      (T.ends.length * (T.chainLength * (T.chainLength - 1) / 2) +
        ((T.falseAlarmColumns C pid).map (· + 1)).sum, 0, (T.falseAlarmColumns C pid).length) := by
  have htable : ∀ t ∈ T.ends.zipIdx, Charges ((List.range T.chainLength).reverse.findSomeM?
      (T.probeColumn C pid t.1 t.2)) (T.chainLength • (T.chainLength, 0, 1) : Cost)
        fun r k => r = none →
          k = ((List.range T.chainLength).reverse.map (T.columnCost C pid t.1 t.2)).sum := by
    intro t _
    have hsearch := Charges.findSomeM? fun column
      (hmem : column ∈ (List.range T.chainLength).reverse) =>
        charges_probeColumn (C := C) (T := T) pid t.1 t.2
          (List.mem_range.mp (List.mem_reverse.mp hmem))
    rw [List.length_reverse, List.length_range] at hsearch
    exact hsearch
  have hall := Charges.findSomeM? htable
  rw [List.length_zipIdx, sum_tableCost, List.length_zipIdx] at hall
  exact hall

/-- Attaching a time-memory table costs one probe for each column of each chain.  A look-up,
whatever its bytes and whatever the counters are, costs at most the square of the chain length for
each table; when it finds nothing, it costs the columns behind each column of each table, and for
each false alarm the columns up to it. -/
theorem lookup_cost {T' : TimeMemoryTable} (h : T.attach C peers = (.ok (), T')) :
    ((0 < T'.nTables → ∃ m, T'.chainsPerTable = .ok m) ∧
      ∀ m, T'.chainsPerTable = .ok m → T'.cost.count.probes = T.cost.count.probes ∧
        T'.cost.count.precomputeProbes = T.cost.count.precomputeProbes +
          T'.nTables * T'.chainLength * min m T'.space) ∧
    ∀ (log : SessionLog) (cost : LookupCost) (pid : Bytes),
      (({ T' with cost := cost } : TimeMemoryTable).resolve C log pid).2.cost.count.probes ≤
        cost.count.probes + T'.nTables * T'.chainLength * T'.chainLength ∧
      ∀ cost', (T'.lookup C pid).outcome cost = (.ok none, cost') →
        ({ T' with cost := cost } : TimeMemoryTable).resolve C log pid =
          (.error notCoveredError, { T' with cost := cost' }) ∧
        cost'.count.probes = cost.count.probes +
          (T'.nTables * T'.chainLength * (T'.chainLength - 1) / 2 +
            ((T'.falseAlarmColumns C pid).map (· + 1)).sum) ∧
        cost'.falseAlarms = cost.falseAlarms + (T'.falseAlarmColumns C pid).length := by
  have hT := attached_of_attach h
  refine ⟨⟨exists_chainsPerTable h, fun m hm => ?_⟩, fun log cost pid => ?_⟩
  · rw [cost_attach h hm, vadd_eq]
    simp [probe, Nat.mul_assoc, Nat.mul_comm]
  · obtain ⟨r, k, hrun, hk, hr⟩ := charges_lookup (C := C) (T := T') pid cost
    rw [hT.length_ends] at hk hr
    have hlookup : ({ T' with cost := cost } : TimeMemoryTable).lookup C pid =
        T'.lookup C pid := rfl
    constructor
    · have hcost : (({ T' with cost := cost } : TimeMemoryTable).resolve C log pid).2.cost =
          k +ᵥ cost := by
        rw [resolve, hlookup]
        dsimp only
        rw [hrun]
        rcases r with e | _ | x <;> rfl
      rw [hcost, vadd_eq]
      have hbound : k.1 ≤ T'.nTables * (T'.chainLength * T'.chainLength) := by simpa using hk.1
      dsimp only
      rw [Nat.mul_assoc]
      omega
    · intro cost' hnone
      rw [hrun] at hnone
      obtain ⟨rfl, rfl⟩ := Prod.mk.inj hnone
      have heven : 2 ∣ T'.chainLength * (T'.chainLength - 1) :=
        (Nat.even_mul_pred_self T'.chainLength).two_dvd
      rw [vadd_eq, hr none rfl rfl, Nat.mul_assoc, Nat.mul_div_assoc _ heven]
      refine ⟨?_, rfl, rfl⟩
      rw [resolve, hlookup]
      dsimp only
      rw [hrun, hr none rfl rfl]
      rfl

/-- One chain of two columns costs two probes offline, and at most four for any pseudonym. -/
theorem lookup_cost_oneChain : ∃ T',
    oneChain.attach .plain serverA.peerSecrets = (.ok (), T') ∧
      T'.cost.count.precomputeProbes = 2 ∧
      ∀ pid, (T'.resolve .plain {} pid).2.cost.count.probes ≤ 4 := by
  have hok : (oneChain.attach .plain serverA.peerSecrets).1 = .ok () :=
    toOption_eq_some_iff.mp (by decide +kernel)
  have htables : (oneChain.attach .plain serverA.peerSecrets).2.nTables = 1 := by decide +kernel
  have hlength : (oneChain.attach .plain serverA.peerSecrets).2.chainLength = 2 := by decide +kernel
  have hspace : (oneChain.attach .plain serverA.peerSecrets).2.space = 2 := by decide +kernel
  have hchains : (oneChain.attach .plain serverA.peerSecrets).2.chainsPerTable = .ok 1 :=
    toOption_eq_some_iff.mp (by decide +kernel)
  have hpair : ∀ r : Except Exc Unit × TimeMemoryTable, r.1 = .ok () → ∃ T', r = (.ok (), T') :=
    fun r hr => ⟨r.2, Prod.ext hr rfl⟩
  obtain ⟨T', hattach⟩ := hpair _ hok
  rw [hattach] at htables hlength hspace hchains
  dsimp only at htables hlength hspace hchains
  obtain ⟨⟨-, hoffline⟩, hresolve⟩ := lookup_cost hattach
  obtain ⟨hprobes, hprecompute⟩ := hoffline 1 hchains
  rw [htables, hlength, hspace] at hprecompute
  refine ⟨T', hattach, hprecompute, fun pid => ?_⟩
  have hbound : (T'.resolve .plain {} pid).2.cost.count.probes ≤
      T'.cost.count.probes + T'.nTables * T'.chainLength * T'.chainLength :=
    (hresolve {} T'.cost pid).1
  rw [htables, hlength, hprobes] at hbound
  exact hbound

end HybridEccAuth.TimeMemoryTable

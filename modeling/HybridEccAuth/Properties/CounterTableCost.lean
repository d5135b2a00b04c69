import HybridEccAuth.Library.Machine
import HybridEccAuth.Resolution.CounterTable
import Mathlib.Algebra.BigOperators.Group.Finset.Basic

/-!
# What the counter table costs

`CounterTable` is used through look-ups and through `accept` for pairs that are in the
table.  `Usage` is such a use: the table, the session log that goes with it, and every
pair whose pseudonym was computed so far.

`Accounts` is what holds between the calls.  The pairs hashed so far are those from the
first window of each peer up to its present one, none of them twice; so the probes made
offline are the first windows, and the probes made online the distances that the last
accepted epochs have moved (`Accounts.accept`, `amortised_cost`).
-/

open Finset

namespace HybridEccAuth.CounterTable

/-- The pairs that a fill for a peer hashes. -/
def hashedByFill (peers : Dict String Lam) (log : SessionLog) (r : CounterTable) (peer : String) :
    List (String × Lam × ℤ) :=
  (peers.get peer).elim [] (r.missingPairs log peer)

/-- The pairs that fills for one peer after the other hash. -/
def hashedByFills (C : Crypto) (peers : Dict String Lam) (log : SessionLog) :
    List String → CounterTable → List (String × Lam × ℤ)
  | [], _ => []
  | peer :: rest, r =>
    r.hashedByFill peers log peer ++ hashedByFills C peers log rest (r.fill C peers log peer true).2

/-- A table in use, its session log, and the pairs that were hashed so far. -/
structure Usage where
  table : CounterTable
  log : SessionLog
  hashed : List (String × Lam × ℤ)

/-- The calls that the server makes. -/
inductive Call
  | resolve (pid : Bytes)
  | accept (peer : String) (epoch : ℤ)

namespace Usage

/-- The use of a table begins when it is attached. -/
def start (C : Crypto) (peers : Dict String Lam) (log : SessionLog) (r : CounterTable) : Usage where
  table := (r.attach C peers log).2
  log := log
  hashed := hashedByFills C peers log peers.keys { r with table := .empty, hi := .empty }

/-- One call: what it returns, and the state after it. -/
def step (C : Crypto) (peers : Dict String Lam) (u : Usage) :
    Call → Except Exc (Option (String × ℤ)) × Usage
  | .resolve pid => ((u.table.resolve pid).map some, u)
  | .accept peer epoch =>
    let log := u.log.acceptEpoch peer epoch
    ((u.table.accept C peers u.log peer epoch).1.map fun _ => none,
      { table := (u.table.accept C peers u.log peer epoch).2.1
        log := (u.table.accept C peers u.log peer epoch).2.2
        hashed := u.hashed ++ (u.table.dropAccepted log peer).hashedByFill peers log peer })

/-- A pair is in the table. -/
def Holds (u : Usage) (peer : String) (epoch : ℤ) : Prop :=
  ∃ pid, u.table.table.get pid = some (peer, epoch)

/-- What may be called: any look-up, and accepting a pair of the table whose next window has 64
bits. -/
def Permits (u : Usage) : Call → Prop
  | .resolve _ => True
  | .accept peer epoch => u.Holds peer epoch ∧ epoch + u.table.forward u.log < 2 ^ 64

end Usage

/-- The accounts of a table that was attached as `r₀` over the log `log₀`. -/
structure Accounts (C : Crypto) (peers : Dict String Lam) (r₀ : CounterTable) (log₀ : SessionLog)
    (u : Usage) : Prop where
  exact : u.table.Exact C peers u.log
  forward_eq : u.table.forward u.log = r₀.forward log₀
  below : ∀ p ∈ peers.keys, u.log.last p + r₀.forward log₀ < 2 ^ 64
  grown : ∀ p, log₀.last p ≤ u.log.last p
  precompute : u.table.count.precomputeProbes =
    r₀.count.precomputeProbes + peers.keys.length * r₀.forward log₀
  online : (u.table.count.probes : ℤ) =
    r₀.count.probes + ∑ p ∈ peers.keys.toFinset, (u.log.last p - log₀.last p)
  mem_hashed : ∀ q, q ∈ u.hashed ↔ peers.get q.1 = some q.2.1 ∧
    log₀.last q.1 < q.2.2 ∧ q.2.2 ≤ u.log.last q.1 + r₀.forward log₀
  nodup : u.hashed.Nodup
  length_hashed : u.hashed.length + r₀.count.probes + r₀.count.precomputeProbes =
    u.table.count.probes + u.table.count.precomputeProbes

variable {C : Crypto} {peers : Dict String Lam} {log : SessionLog} {r : CounterTable}
  {peer : String} {lam : Lam}

/-! ## The first windows -/

/-- The pairs that a fill enters are not repeated. -/
lemma nodup_missingPairs : (r.missingPairs log peer lam).Nodup :=
  (nodup_pyRange _ _).map fun _ _ h => (Prod.mk.inj (Prod.mk.inj h).2).2

/-- A fill for an enrolled peer spends one probe on each pair. -/
lemma count_fill (hlam : peers.get peer = some lam)
    (hbelow : log.last peer + r.forward log < 2 ^ 64) (precompute : Bool) :
    (r.fill C peers log peer precompute).2.count =
      r.count.spend precompute (r.missing log peer).length := by
  rw [fill_eq hlam hbelow precompute]
  dsimp only
  rw [count_enterPairs precompute r.count r.table (range_of_mem_missingPairs lam hbelow),
    missingPairs, List.length_map]

/-- The epochs that a fill enters for a peer that has none in the table. -/
lemma missing_of_hi_none (log : SessionLog) (h : r.hi.get peer = none) :
    r.missing log peer = pyRange (log.last peer + 1) (log.last peer + r.forward log + 1) := by
  rw [missing, top, h, Option.getD_none, max_self]

/-- What attaching spends and hashes: the whole window of every peer. -/
lemma fillPeers_accounts (ps : List String) (hnodup : ps.Nodup) (hps : ∀ p ∈ ps, p ∈ peers.keys)
    (hnone : ∀ p ∈ ps, r.hi.get p = none)
    (hbelow : ∀ p ∈ peers.keys, log.last p + r.forward log < 2 ^ 64) :
    (fillPeers C peers log ps r).2.count = r.count.spend true (ps.length * r.forward log) ∧
      (hashedByFills C peers log ps r).length = ps.length * r.forward log ∧
      (hashedByFills C peers log ps r).Nodup ∧
      ∀ q, q ∈ hashedByFills C peers log ps r ↔ q.1 ∈ ps ∧ peers.get q.1 = some q.2.1 ∧
        log.last q.1 < q.2.2 ∧ q.2.2 ≤ log.last q.1 + r.forward log := by
  induction ps generalizing r with
  | nil => simp [fillPeers, hashedByFills]
  | cons p ps ih =>
    obtain ⟨hp, hps⟩ := List.forall_mem_cons.mp hps
    obtain ⟨hpnone, hnone⟩ := List.forall_mem_cons.mp hnone
    obtain ⟨hfresh, hnodup⟩ := List.nodup_cons.mp hnodup
    obtain ⟨lam, hlam⟩ := Dict.mem_keys_iff.mp hp
    have hfill := fill_eq (C := C) hlam (hbelow p hp) true
    have hforward : (r.fill C peers log p true).2.forward log = r.forward log := by
      rw [hfill]
      rfl
    have hhi : ∀ p' ∈ ps, (r.fill C peers log p true).2.hi.get p' = none := by
      intro p' hp'
      have hne : p' ≠ p := fun h => hfresh (h ▸ hp')
      rw [hfill]
      exact (Dict.get_set_of_ne _ _ hne).trans (hnone p' hp')
    obtain ⟨hcount, hlength, hnodups, hmem⟩ := ih hnodup hps hhi (by rwa [hforward])
    rw [hforward] at hcount hlength hmem
    have hmissing := missing_of_hi_none log hpnone
    have hwindow : (r.missing log p).length = r.forward log := by
      rw [hmissing, length_pyRange]
      omega
    have hfirst : r.hashedByFill peers log p = r.missingPairs log p lam := by
      rw [hashedByFill, hlam]
      rfl
    have hmemFirst : ∀ q, q ∈ r.missingPairs log p lam ↔ q.1 = p ∧ peers.get q.1 = some q.2.1 ∧
        log.last q.1 < q.2.2 ∧ q.2.2 ≤ log.last q.1 + r.forward log := by
      rintro ⟨p', lam', e⟩
      rw [mem_missingPairs, hmissing, mem_pyRange]
      dsimp only
      constructor
      · rintro ⟨rfl, rfl, h₁, h₂⟩
        exact ⟨rfl, hlam, by omega, by omega⟩
      · rintro ⟨rfl, h, h₁, h₂⟩
        exact ⟨rfl, (Option.some.inj (hlam.symm.trans h)).symm, by omega, by omega⟩
    have hstep : fillPeers C peers log (p :: ps) r =
        fillPeers C peers log ps (r.fill C peers log p true).2 := by
      rw [fillPeers, hfill]
    rw [hstep, hashedByFills, hfirst]
    refine ⟨?_, ?_, ?_, ?_⟩
    · rw [hcount, count_fill hlam (hbelow p hp), hwindow, Probes.spend_spend, List.length_cons,
        Nat.add_one_mul, Nat.add_comm]
    · rw [List.length_append, hlength, missingPairs, List.length_map, hwindow, List.length_cons,
        Nat.add_one_mul, Nat.add_comm]
    · refine List.nodup_append.mpr ⟨nodup_missingPairs, hnodups, fun q hq q' hq' => ?_⟩
      rintro rfl
      exact hfresh (((hmemFirst q).mp hq).1 ▸ ((hmem q).mp hq').1)
    · intro q
      rw [List.mem_append, hmemFirst, hmem, List.mem_cons]
      tauto

/-- The accounts hold when the table has been attached. -/
theorem accounts_start (hinj : PseudonymsInjective C peers)
    (hbelow : ∀ p ∈ peers.keys, log.last p + r.forward log < 2 ^ 64) :
    Accounts C peers r log (Usage.start C peers log r) := by
  obtain ⟨-, hexact, hforward⟩ := exact_attach hinj r hbelow
  obtain ⟨hcount, hlength, hnodup, hmem⟩ := fillPeers_accounts (C := C)
    (r := { r with table := .empty, hi := .empty }) peers.keys peers.nodup (fun _ h => h)
    (fun _ _ => rfl) hbelow
  have hcount' : (Usage.start C peers log r).table.count =
      r.count.spend true (peers.keys.length * r.forward log) := hcount
  refine ⟨hexact, ?_, hbelow, fun p => le_refl _, ?_, ?_, fun q => (hmem q).trans ?_, hnodup, ?_⟩
  · rw [forward, forward]
    exact congrArg (fun f => Option.getD f _) hforward
  · rw [hcount']
    rfl
  · rw [hcount']
    have hzero : ∑ p ∈ peers.keys.toFinset, (log.last p - log.last p) = 0 :=
      sum_eq_zero fun p _ => sub_self _
    rw [Usage.start, hzero, add_zero]
    rfl
  · refine ⟨fun h => h.2, fun h => ⟨Dict.mem_keys_iff.mpr ⟨_, h.1⟩, h⟩⟩
  · have hhashed : (Usage.start C peers log r).hashed.length = peers.keys.length * r.forward log :=
      hlength
    have hspent : (Usage.start C peers log r).table.count.precomputeProbes =
        r.count.precomputeProbes + peers.keys.length * r.forward log := by
      rw [hcount']
      rfl
    have hkept : (Usage.start C peers log r).table.count.probes = r.count.probes := by
      rw [hcount']
      rfl
    omega

/-! ## One call -/

variable {r₀ : CounterTable} {log₀ : SessionLog} {u : Usage} {epoch : ℤ}

/-- A pair of the table is an enrolled peer and an epoch of its forward window. -/
lemma Accounts.of_holds (h : Accounts C peers r₀ log₀ u) (hheld : u.Holds peer epoch) :
    (∃ lam, peers.get peer = some lam) ∧ u.log.last peer < epoch ∧
      epoch ≤ u.log.last peer + r₀.forward log₀ := by
  obtain ⟨pid, hget⟩ := hheld
  obtain ⟨hnames, hnew, htop⟩ := (h.exact.tabled pid (peer, epoch)).mp hget
  obtain ⟨lam, hlam, -⟩ := hnames
  have hpeer : peer ∈ peers.keys := Dict.mem_keys_iff.mpr ⟨lam, hlam⟩
  rw [h.exact.top_eq hpeer, h.forward_eq] at htop
  exact ⟨⟨lam, hlam⟩, hnew, htop⟩

/-- The last accepted epochs after a new epoch is accepted. -/
lemma last_accept (hnew : log.last peer < epoch) (p : String) :
    (log.acceptEpoch peer epoch).last p = if p = peer then epoch else log.last p := by
  rw [SessionLog.last_acceptEpoch, max_eq_right (le_of_lt hnew)]

/-- Accepting a new epoch moves the sum of the distances by the distance of that epoch. -/
lemma sum_last_accept {s : Finset String} (hpeer : peer ∈ s) (hnew : log.last peer < epoch)
    (f : String → ℤ) : ∑ p ∈ s, ((log.acceptEpoch peer epoch).last p - f p) =
      ∑ p ∈ s, (log.last p - f p) + (epoch - log.last peer) := by
  rw [← add_sum_erase s _ hpeer, ← add_sum_erase s (fun p => log.last p - f p) hpeer]
  have hothers : ∑ p ∈ s.erase peer, ((log.acceptEpoch peer epoch).last p - f p) =
      ∑ p ∈ s.erase peer, (log.last p - f p) :=
    sum_congr rfl fun p hp => by rw [last_accept hnew, if_neg (ne_of_mem_erase hp)]
  rw [hothers, last_accept hnew, if_pos rfl]
  omega

/-- The epochs that are entered when an epoch of the window is accepted: as many as the window
moves, behind the old window. -/
lemma Accounts.missing_accept (h : Accounts C peers r₀ log₀ u) (hheld : u.Holds peer epoch) :
    (u.table.dropAccepted (u.log.acceptEpoch peer epoch) peer).missing
        (u.log.acceptEpoch peer epoch) peer =
      pyRange (u.log.last peer + r₀.forward log₀ + 1) (epoch + r₀.forward log₀ + 1) := by
  obtain ⟨⟨lam, hlam⟩, hnew, htol⟩ := h.of_holds hheld
  have hforward : (u.table.dropAccepted (u.log.acceptEpoch peer epoch) peer).forward
      (u.log.acceptEpoch peer epoch) = r₀.forward log₀ := by
    rw [← h.forward_eq, forward, forward, SessionLog.acceptEpoch_frame.2.1]
    rfl
  have htop : (u.table.dropAccepted (u.log.acceptEpoch peer epoch) peer).top
      (u.log.acceptEpoch peer epoch) peer = u.log.last peer + r₀.forward log₀ := by
    rw [top, ← h.forward_eq]
    show (u.table.hi.get peer).getD _ = _
    rw [h.exact.hi_eq peer (Dict.mem_keys_iff.mpr ⟨lam, hlam⟩)]
    rfl
  rw [missing, htop, hforward, last_accept hnew, if_pos rfl, max_eq_left htol]

/-- Accepting an epoch of the window succeeds and costs the distance of the epoch. -/
theorem Accounts.count_accept (hinj : PseudonymsInjective C peers)
    (h : Accounts C peers r₀ log₀ u) (hcall : u.Permits (.accept peer epoch)) :
    (u.table.accept C peers u.log peer epoch).1 = .ok () ∧
      (u.table.accept C peers u.log peer epoch).2.1.count =
        u.table.count.spend false (epoch - u.log.last peer).toNat := by
  obtain ⟨hheld, hbelow⟩ := hcall
  obtain ⟨⟨lam, hlam⟩, hnew, htol⟩ := h.of_holds hheld
  have hpeer : peer ∈ peers.keys := Dict.mem_keys_iff.mpr ⟨lam, hlam⟩
  obtain ⟨hok, -⟩ := h.exact.accept hinj hpeer hnew (by rw [h.forward_eq]; exact htol) hbelow
  refine ⟨hok, ?_⟩
  have hlast : (u.log.acceptEpoch peer epoch).last peer = epoch := by
    rw [last_accept hnew, if_pos rfl]
  have hforward : (u.table.dropAccepted (u.log.acceptEpoch peer epoch) peer).forward
      (u.log.acceptEpoch peer epoch) = u.table.forward u.log := by
    rw [forward, forward, SessionLog.acceptEpoch_frame.2.1]
    rfl
  have hbelow' : (u.log.acceptEpoch peer epoch).last peer +
      (u.table.dropAccepted (u.log.acceptEpoch peer epoch) peer).forward
        (u.log.acceptEpoch peer epoch) < 2 ^ 64 := by
    rw [hlast, hforward]
    exact hbelow
  have hcount := count_fill (C := C) hlam hbelow' false
  have hdistance : (epoch + r₀.forward log₀ + 1 - (u.log.last peer + r₀.forward log₀ + 1)).toNat =
      (epoch - u.log.last peer).toNat := by
    congr 1
    omega
  rw [h.missing_accept hheld, length_pyRange, hdistance] at hcount
  exact hcount

/-- A permitted call keeps the accounts. -/
theorem Accounts.step (hinj : PseudonymsInjective C peers) (h : Accounts C peers r₀ log₀ u)
    {call : Call} (hcall : u.Permits call) :
    Accounts C peers r₀ log₀ (u.step C peers call).2 := by
  rcases call with pid | ⟨peer, epoch⟩
  · exact h
  obtain ⟨hheld, hbelow⟩ := id hcall
  obtain ⟨⟨lam, hlam⟩, hnew, htol⟩ := h.of_holds hheld
  have hpeer : peer ∈ peers.keys := Dict.mem_keys_iff.mpr ⟨lam, hlam⟩
  obtain ⟨-, hexact, hforward⟩ :=
    h.exact.accept hinj hpeer hnew (by rw [h.forward_eq]; exact htol) hbelow
  obtain ⟨-, hcount⟩ := h.count_accept hinj hcall
  have hhashed : (u.table.dropAccepted (u.log.acceptEpoch peer epoch) peer).hashedByFill peers
      (u.log.acceptEpoch peer epoch) peer =
        (pyRange (u.log.last peer + r₀.forward log₀ + 1) (epoch + r₀.forward log₀ + 1)).map
          fun e => (peer, lam, e) := by
    rw [hashedByFill, hlam, Option.elim_some, missingPairs, h.missing_accept hheld]
  have hlength : ((u.table.dropAccepted (u.log.acceptEpoch peer epoch) peer).hashedByFill peers
      (u.log.acceptEpoch peer epoch) peer).length = (epoch - u.log.last peer).toNat := by
    rw [hhashed, List.length_map, length_pyRange]
    congr 1
    omega
  have hkeep := h.length_hashed
  have honline := h.online
  refine ⟨hexact, ?_, fun p hp => ?_, fun p => ?_, ?_, ?_, ?_, ?_, ?_⟩
  · show (u.table.accept C peers u.log peer epoch).2.1.forward (u.log.acceptEpoch peer epoch) = _
    rw [← h.forward_eq, forward, forward, hforward, SessionLog.acceptEpoch_frame.2.1]
  · show (u.log.acceptEpoch peer epoch).last p + _ < _
    rw [last_accept hnew]
    split_ifs
    · rw [← h.forward_eq]
      exact hbelow
    · exact h.below p hp
  · exact le_trans (h.grown p) SessionLog.last_le_last_acceptEpoch
  · show (u.table.accept C peers u.log peer epoch).2.1.count.precomputeProbes = _
    rw [hcount]
    exact h.precompute
  · show ((u.table.accept C peers u.log peer epoch).2.1.count.probes : ℤ) =
      _ + ∑ p ∈ peers.keys.toFinset, ((u.log.acceptEpoch peer epoch).last p - log₀.last p)
    rw [hcount, sum_last_accept (List.mem_toFinset.mpr hpeer) hnew]
    show ((u.table.count.probes + (epoch - u.log.last peer).toNat : ℕ) : ℤ) = _
    push_cast
    omega
  · rintro ⟨p, lam', e⟩
    show _ ∈ u.hashed ++ _ ↔ _ ∧ _ ∧ _ ≤ (u.log.acceptEpoch peer epoch).last p + _
    rw [List.mem_append, h.mem_hashed, hhashed, List.mem_map, last_accept hnew]
    have hgrown := h.grown p
    simp only [mem_pyRange, Prod.mk.injEq]
    constructor
    · rintro (⟨hp, h₁, h₂⟩ | ⟨e', he', rfl, rfl, rfl⟩)
      · refine ⟨hp, h₁, ?_⟩
        split_ifs with heq
        · subst heq
          omega
        · exact h₂
      · rw [if_pos rfl]
        exact ⟨hlam, by omega, by omega⟩
    · rintro ⟨hp, h₁, h₂⟩
      by_cases hold : e ≤ u.log.last p + r₀.forward log₀
      · exact Or.inl ⟨hp, h₁, hold⟩
      · split_ifs at h₂ with heq
        · subst heq
          exact Or.inr ⟨e, ⟨by omega, by omega⟩, rfl, Option.some.inj (hlam.symm.trans hp), rfl⟩
        · exact absurd h₂ hold
  · show (u.hashed ++ _).Nodup
    refine List.nodup_append.mpr ⟨h.nodup, ?_, fun q hq q' hq' => ?_⟩
    · rw [hashedByFill, hlam]
      exact nodup_missingPairs
    · rintro rfl
      rw [hhashed, List.mem_map] at hq'
      obtain ⟨e, he, rfl⟩ := hq'
      have hold := ((h.mem_hashed _).mp hq).2.2
      rw [mem_pyRange] at he
      dsimp only at hold
      omega
  · show (u.hashed ++ _).length + _ + _ =
      (u.table.accept C peers u.log peer epoch).2.1.count.probes +
        (u.table.accept C peers u.log peer epoch).2.1.count.precomputeProbes
    rw [hcount, List.length_append, hlength]
    show _ = u.table.count.probes + (epoch - u.log.last peer).toNat +
      u.table.count.precomputeProbes
    omega

/-! ## Every run -/

/-- The table has an entry for every peer and every epoch of its forward window. -/
lemma Accounts.size_table (h : Accounts C peers r₀ log₀ u) :
    u.table.table.size = peers.keys.length * r₀.forward log₀ := by
  let window (p : String) : List (String × ℤ) :=
    (pyRange (u.log.last p + 1) (u.log.last p + r₀.forward log₀ + 1)).map fun e => (p, e)
  have hmem : ∀ p v, v ∈ window p ↔ v.1 = p ∧ u.log.last p < v.2 ∧
      v.2 ≤ u.log.last p + r₀.forward log₀ := by
    rintro p ⟨p', e⟩
    simp only [window, List.mem_map, mem_pyRange, Prod.mk.injEq]
    constructor
    · rintro ⟨e', he', rfl, rfl⟩
      exact ⟨rfl, by omega, by omega⟩
    · rintro ⟨rfl, h₁, h₂⟩
      exact ⟨e, ⟨by omega, by omega⟩, rfl, rfl⟩
  have hnodup : (peers.keys.flatMap window).Nodup := by
    refine List.nodup_flatMap.mpr ⟨fun p _ => ?_, ?_⟩
    · exact (nodup_pyRange _ _).map fun _ _ he => (Prod.mk.inj he).2
    · refine List.Pairwise.imp (fun {p p'} hne => ?_) peers.nodup
      intro v hv hv'
      exact hne (((hmem p v).mp hv).1.symm.trans ((hmem p' v).mp hv').1)
  have hlength : (peers.keys.flatMap window).length = peers.keys.length * r₀.forward log₀ := by
    have hwindow : ∀ p ∈ peers.keys, (window p).length = r₀.forward log₀ := by
      intro p _
      rw [List.length_map, length_pyRange]
      omega
    rw [List.length_flatMap, List.map_congr_left hwindow, List.map_const',
      List.sum_replicate_nat]
  rw [← hlength]
  refine Dict.Represents.size_eq h.exact.tabled hnodup (fun v => ?_) ?_
  · rw [List.mem_flatMap]
    constructor
    · rintro ⟨p, hp, hv⟩
      obtain ⟨rfl, hnew, htol⟩ := (hmem p v).mp hv
      obtain ⟨lam, hlam⟩ := Dict.mem_keys_iff.mp hp
      have hlast := u.log.neg_one_le_last v.1
      have hbelow := h.below v.1 hp
      obtain ⟨pid, hpid⟩ := exists_h2Pseudonym C lam (show 0 ≤ v.2 by omega) (by omega)
      refine ⟨pid, ⟨lam, hlam, hpid⟩, hnew, ?_⟩
      rwa [h.exact.top_eq hp, h.forward_eq]
    · rintro ⟨pid, ⟨lam, hlam, -⟩, hnew, htop⟩
      have hp : v.1 ∈ peers.keys := Dict.mem_keys_iff.mpr ⟨lam, hlam⟩
      rw [h.exact.top_eq hp, h.forward_eq] at htop
      exact ⟨v.1, hp, (hmem v.1 v).mpr ⟨rfl, hnew, htop⟩⟩
  · rintro pid pid' v ⟨⟨lam, hlam, hpid⟩, -⟩ ⟨⟨lam', hlam', hpid'⟩, -⟩
    obtain rfl := Option.some.inj (hlam.symm.trans hlam')
    exact Except.ok.inj (hpid.symm.trans hpid')

/-- No pseudonym was computed twice. -/
lemma Accounts.nodup_pseudonyms (hinj : PseudonymsInjective C peers)
    (h : Accounts C peers r₀ log₀ u) :
    (u.hashed.map fun q => h2Pseudonym C q.2.1 q.2.2).Nodup := by
  refine List.Nodup.map_on ?_ h.nodup
  rintro ⟨p, lam, e⟩ hq ⟨p', lam', e'⟩ hq' heq
  obtain ⟨hp, hnew, htol⟩ := (h.mem_hashed _).mp hq
  obtain ⟨hp', -, -⟩ := (h.mem_hashed _).mp hq'
  dsimp only at hp hnew htol hp' heq
  have hlast := log₀.neg_one_le_last p
  have hbelow := h.below p (Dict.mem_keys_iff.mpr ⟨lam, hp⟩)
  obtain ⟨pid, hpid⟩ := exists_h2Pseudonym C lam (show 0 ≤ e by omega) (by omega)
  obtain ⟨rfl, rfl⟩ := hinj ⟨lam, hp, hpid⟩ ⟨lam', hp', heq ▸ hpid⟩
  obtain rfl := Option.some.inj (hp.symm.trans hp')
  rfl

/-- In every run of look-ups and of `accept` for pairs of the table, whose windows have 64 bits, the
table has all the pairs of the forward windows; what was spent offline is the first windows; what
was spent online is how far the last accepted epochs have moved, each `accept` its own distance of
one up to the tolerance; no pseudonym was computed twice; and a look-up costs nothing. -/
theorem amortised_cost (hinj : PseudonymsInjective C peers) (forward? : Option ℕ)
    (hbelow : ∀ p ∈ peers.keys,
      log.last p + ({ forward? := forward? } : CounterTable).forward log < 2 ^ 64)
    {calls : List Call}
    (hcalls : Machine.AllSteps (Usage.step C peers) Usage.Permits
      (Usage.start C peers log { forward? := forward? }) calls) :
    let F := ({ forward? := forward? } : CounterTable).forward log
    let u := Machine.final (Usage.step C peers)
      (Usage.start C peers log { forward? := forward? }) calls
    u.table.table.size = peers.keys.length * F ∧
      u.table.count.precomputeProbes = peers.keys.length * F ∧
      (u.table.count.probes : ℤ) = ∑ p ∈ peers.keys.toFinset, (u.log.last p - log.last p) ∧
      (∀ peer epoch, u.Permits (.accept peer epoch) →
        (u.step C peers (.accept peer epoch)).1 = .ok none ∧
        (1 ≤ epoch - u.log.last peer ∧ epoch - u.log.last peer ≤ F) ∧
        (u.step C peers (.accept peer epoch)).2.table.count =
          { u.table.count with
            probes := u.table.count.probes + (epoch - u.log.last peer).toNat }) ∧
      (∀ pid, (u.step C peers (.resolve pid)).2 = u) ∧
      (u.hashed.map fun q => h2Pseudonym C q.2.1 q.2.2).Nodup ∧
      u.hashed.length = u.table.count.probes + u.table.count.precomputeProbes := by
  intro F u
  have h : Accounts C peers { forward? := forward? } log u :=
    Machine.invariant_final (fun _ _ hu hcall => hu.step hinj hcall) (accounts_start hinj hbelow)
      hcalls
  refine ⟨h.size_table, ?_, ?_, fun peer epoch hcall => ?_, fun pid => rfl,
    h.nodup_pseudonyms hinj, ?_⟩
  · rw [h.precompute]
    exact Nat.zero_add _
  · rw [h.online]
    exact zero_add _
  · obtain ⟨hok, hcount⟩ := h.count_accept hinj hcall
    obtain ⟨-, hnew, htol⟩ := h.of_holds hcall.1
    refine ⟨?_, ⟨by omega, by omega⟩, hcount⟩
    rw [Usage.step, hok]
    rfl
  · rw [← h.length_hashed]
    rfl

/-- Two devices and their secrets. -/
def twoPeers : Dict String Lam := (Dict.empty.set "device-1" 1).set "device-2" 2

/-- Under the plain suite no pseudonym names both devices. -/
lemma pseudonymsInjective_twoPeers : PseudonymsInjective .plain twoPeers := by
  have hcases : ∀ p lam, twoPeers.get p = some lam →
      (p = "device-1" ∧ lam = 1) ∨ (p = "device-2" ∧ lam = 2) := by
    intro p lam hlam
    rw [twoPeers, Dict.get_set] at hlam
    split_ifs at hlam with hp
    · exact Or.inr ⟨hp, (Option.some_inj.mp hlam).symm⟩
    · obtain ⟨hp', hlam'⟩ := Dict.get_singleton_iff.mp hlam
      exact Or.inl ⟨hp', hlam'.symm⟩
  apply pseudonymsInjective_plain
  intro p p' lam lam' hlam hlam' hlow
  rcases hcases p lam hlam with ⟨rfl, rfl⟩ | ⟨rfl, rfl⟩ <;>
    rcases hcases p' lam' hlam' with ⟨rfl, rfl⟩ | ⟨rfl, rfl⟩
  · rfl
  · exact absurd hlow (by decide)
  · exact absurd hlow (by decide)
  · rfl

/-- With a tolerance of two, the first device jumps over an epoch and the second one does not: three
probes in addition to the first four. -/
theorem amortised_cost_twoPeers :
    let u := Machine.final (Usage.step .plain twoPeers)
      (Usage.start .plain twoPeers {} { forward? := some 2 })
      [.accept "device-1" 1, .resolve [], .accept "device-2" 0]
    u.table.table.size = 4 ∧ u.table.count.precomputeProbes = 4 ∧ u.table.count.probes = 3 ∧
      u.hashed.length = 7 := by
  have hbelow : ∀ p ∈ twoPeers.keys, ({} : SessionLog).last p +
      ({ forward? := some 2 } : CounterTable).forward {} < 2 ^ 64 := by decide +kernel
  have hcalls : Machine.AllSteps (Usage.step .plain twoPeers) Usage.Permits
      (Usage.start .plain twoPeers {} { forward? := some 2 })
      [.accept "device-1" 1, .resolve [], .accept "device-2" 0] :=
    ⟨⟨⟨toBytesBE 32 (2 ^ 64 + 1), by decide +kernel⟩, by decide +kernel⟩, trivial,
      ⟨⟨toBytesBE 32 (2 * 2 ^ 64), by decide +kernel⟩, by decide +kernel⟩, trivial⟩
  obtain ⟨hsize, hoffline, honline, -, -, -, hhashed⟩ :=
    amortised_cost pseudonymsInjective_twoPeers (some 2) hbelow hcalls
  have hprobes : (Machine.final (Usage.step .plain twoPeers)
      (Usage.start .plain twoPeers {} { forward? := some 2 })
      [.accept "device-1" 1, .resolve [], .accept "device-2" 0]).table.count.probes = 3 := by
    decide +kernel
  exact ⟨hsize, hoffline, hprobes, by rw [hhashed, hprobes, hoffline]; rfl⟩

/-- A table of one peer that has been accepted up to 2 ^ 64 - 3, with a tolerance of one. -/
def almostExhausted : Usage :=
  Usage.start .plain serverA.peerSecrets
    (({ forwardTolerance := 1 } : SessionLog).acceptEpoch "device-1" (2 ^ 64 - 3)) {}

/-- Accepting the last epoch of 64 bits leaves the table without an entry. -/
theorem exhausted_table_is_short :
    let u := Machine.final (Usage.step .plain serverA.peerSecrets) almostExhausted
      [.accept "device-1" (2 ^ 64 - 2)]
    PseudonymsInjective .plain serverA.peerSecrets ∧ u.Holds "device-1" (2 ^ 64 - 1) ∧
      (u.step .plain serverA.peerSecrets (.accept "device-1" (2 ^ 64 - 1))).2.table.table.size ≠
        serverA.peerSecrets.keys.length * 1 := by
  exact ⟨pseudonymsInjective_serverA,
    ⟨toBytesBE 32 (2 ^ 64 + (2 ^ 64 - 1)), by decide +kernel⟩, by decide +kernel⟩

end HybridEccAuth.CounterTable

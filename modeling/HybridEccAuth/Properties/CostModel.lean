import HybridEccAuth.Library.Scan
import HybridEccAuth.Properties.ClockCompleteness
import HybridEccAuth.Properties.CounterTableCost
import HybridEccAuth.Resolution.CostModel

/-!
# The closed forms hold

In a steady state every window is complete: the last accepted epochs are at least the lookback, and
the current epoch at least the drift.  There, the mean over all peers of what an honest
sample costs is the closed form of the strategy, and so is what a forged one costs and what is
stored (`Bench.closed_forms_of_run`): in every state that a run of honest samples reaches.
-/

namespace HybridEccAuth

open Scan (examined)

/-! ## What a search costs -/

/-- The pseudonym of a secret at an epoch. -/
def Hits (C : Crypto) (pid : Bytes) (x : Lam × ℤ) : Prop := h2Pseudonym C x.1 x.2 = .ok pid

instance (C : Crypto) (pid : Bytes) : DecidablePred (Hits C pid) := fun x =>
  decidable_of_iff ((h2Pseudonym C x.1 x.2).toOption = some pid) toOption_eq_some_iff

/-- What a search over peers and their windows probes, in order. -/
def probed (window : String → List ℤ) (peers : List (String × Lam)) : List (Lam × ℤ) :=
  peers.flatMap fun q => (window q.1).map fun e => (q.2, e)

section Search

variable {C : Crypto} {lam : Lam} {pid : Bytes} {window : String → List ℤ}

/-- A search over epochs that have 64 bits counts what it examines. -/
lemma count_probeEpochs (C : Crypto) (lam : Lam) (pid : Bytes) {epochs : List ℤ}
    (hrange : ∀ e ∈ epochs, 0 ≤ e ∧ e < 2 ^ 64) (n : Probes) :
    (probeEpochs C lam pid epochs n).2 =
      n.spend false (examined (Hits C pid) (epochs.map fun e => (lam, e))) := by
  induction epochs generalizing n with
  | nil => rfl
  | cons e es ih =>
    obtain ⟨he, hes⟩ := List.forall_mem_cons.mp hrange
    obtain ⟨hash, hhash⟩ := exists_h2Pseudonym C lam he.1 he.2
    have hiff : Hits C pid (lam, e) ↔ hash = pid := by
      rw [Hits, hhash]
      exact Except.ok.injEq hash pid ▸ Iff.rfl
    have hstep : n.h2 C lam e false = (.ok hash, n.spend false 1) :=
      Prod.ext hhash (n.h2_snd C lam e false)
    rw [probeEpochs, hstep, List.map_cons, examined]
    dsimp only
    by_cases hpid : hash = pid
    · rw [if_pos hpid, if_pos (hiff.mpr hpid)]
    · rw [if_neg hpid, if_neg (mt hiff.mp hpid), ih hes, Probes.spend_spend]

/-- A search over peers whose windows have 64 bits counts what it examines. -/
lemma count_probePeers (C : Crypto) (window : String → List ℤ) (pid : Bytes)
    {peers : List (String × Lam)}
    (hrange : ∀ q ∈ peers, ∀ e ∈ window q.1, 0 ≤ e ∧ e < 2 ^ 64) (n : Probes) :
    (probePeers C window pid peers n).2 =
      n.spend false (examined (Hits C pid) (probed window peers)) := by
  induction peers generalizing n with
  | nil => rfl
  | cons q peers ih =>
    obtain ⟨hq, hpeers⟩ := List.forall_mem_cons.mp hrange
    have hcount := count_probeEpochs C q.2 pid hq n
    rw [probePeers, probed, List.flatMap_cons]
    rcases hprobe : probeEpochs C q.2 pid (window q.1) n with ⟨e | _ | epoch, n'⟩
    · obtain ⟨e', he', hout⟩ := probeEpochs_error hprobe
      exact absurd (hq e' he') hout
    · rw [hprobe] at hcount
      have hnone : ∀ x ∈ (window q.1).map fun e => (q.2, e), ¬ Hits C pid x := by
        rw [List.forall_mem_map]
        exact probeEpochs_not_found hprobe
      rw [Scan.examined_append hnone, ← Scan.examined_of_none hnone, ← Probes.spend_spend, ← hcount]
      exact ih hpeers n'
    · rw [hprobe] at hcount
      obtain ⟨hmem, hpid⟩ := probeEpochs_found hprobe
      rw [Scan.examined_append_of_mem ⟨(q.2, epoch), List.mem_map_of_mem hmem, hpid⟩]
      exact hcount

variable {peers : Dict String Lam} {w i : ℕ} {e : ℤ} {before after : List ℤ}

/-- In windows of equal width, what a search for a pseudonym of the peer with number `i`
examines. -/
lemma examined_of_hit (hinj : PseudonymsInjective C peers)
    (hw : ∀ q ∈ peers.entries, (window q.1).length = w) (hi : i < peers.entries.length)
    (hsplit : window peers.entries[i].1 = before ++ e :: after) (he : e ∉ before)
    (hpid : h2Pseudonym C peers.entries[i].2 e = .ok pid) :
    examined (Hits C pid) (probed window peers.entries) = i * w + before.length + 1 := by
  have hnames : ∀ k (hk : k < peers.entries.length) e', Hits C pid (peers.entries[k].2, e') →
      Names C peers pid peers.entries[k].1 e' := fun k hk e' hhit =>
    ⟨_, Dict.mem_entries_iff.mp (List.getElem_mem hk), hhit⟩
  have hi' := hnames i hi e hpid
  have hlength : (before.map fun e => (peers.entries[i].2, e)).length = before.length :=
    List.length_map _
  rw [probed, ← hlength]
  refine Scan.examined_flatMap (a := (peers.entries[i].2, e)) (fun q hq => ?_) hi
    (by rw [hsplit, List.map_append, List.map_cons]) hpid ?_ ?_
  · rw [List.length_map, hw q hq]
  · intro k hk x hx hhit
    obtain ⟨e', -, rfl⟩ := List.mem_map.mp hx
    obtain ⟨hpeer, -⟩ := hinj (hnames k (lt_trans hk hi) e' hhit) hi'
    have hdistinct := List.pairwise_iff_getElem.mp (List.pairwise_map.mp peers.nodup)
    exact hdistinct k i (lt_trans hk hi) hi hk hpeer
  · intro x hx hhit
    obtain ⟨e', he', rfl⟩ := List.mem_map.mp hx
    obtain ⟨-, rfl⟩ := hinj (hnames i hi e' hhit) hi'
    exact he he'

/-- In windows of equal width, what a search for a pseudonym that no peer has in its window
examines. -/
lemma examined_of_unknown (hw : ∀ q ∈ peers.entries, (window q.1).length = w)
    (hnone : ∀ p e, Names C peers pid p e → e ∉ window p) :
    examined (Hits C pid) (probed window peers.entries) = peers.size * w := by
  have hmiss : ∀ x ∈ probed window peers.entries, ¬ Hits C pid x := by
    intro x hx hhit
    obtain ⟨q, hq, hx⟩ := List.mem_flatMap.mp hx
    obtain ⟨e, he, rfl⟩ := List.mem_map.mp hx
    exact hnone q.1 e ⟨q.2, Dict.mem_entries_iff.mp hq, hhit⟩ he
  have hlength : ∀ q ∈ peers.entries, ((window q.1).map fun e => (q.2, e)).length = w := by
    intro q hq
    rw [List.length_map, hw q hq]
  rw [Scan.examined_of_none hmiss, probed, List.length_flatMap, List.map_congr_left hlength,
    List.map_const', List.sum_replicate_nat]
  rfl

end Search

/-- From reset counters, what was spent is read off them. -/
lemma Probes.total_spend (precompute : Bool) (k : ℕ) :
    (({} : Probes).spend precompute k).probes +
    (({} : Probes).spend precompute k).precomputeProbes =
      k := by
  cases precompute
  · exact (Nat.add_zero _).trans (Nat.zero_add k)
  · exact (Nat.zero_add _).trans (Nat.zero_add k)

/-- From reset counters, what was spent on messages is read off them. -/
lemma Probes.probes_spend (k : ℕ) : (({} : Probes).spend false k).probes = k := Nat.zero_add k

/-- What a linear scan counts. -/
lemma LinearScan.count_resolve (C : Crypto) (peers : Dict String Lam) (log : SessionLog)
    (r : LinearScan) (pid : Bytes) : (r.resolve C peers log pid).2.count =
      (probePeers C log.epochSearchWindow pid peers.entries r.count).2 := by
  unfold resolve
  split <;> rename_i heq
  · rw [heq]
  · rw [heq]
  · split_ifs <;> rw [heq]

/-- What a scan of clock epochs counts. -/
lemma ClockScan.count_resolve (C : Crypto) (peers : Dict String Lam) (r : ClockScan) (reading : ℚ)
    (pid : Bytes) : (r.resolve C peers reading pid).2.count =
      (probePeers C (fun _ => r.settings.window reading) pid peers.entries r.count).2 := by
  unfold ClockScan.resolve
  split <;> rename_i heq <;> rw [heq]

/-- A table of the pairs of windows of equal width has an entry for every peer and place. -/
lemma size_windows (C : Crypto) {peers : Dict String Lam} (window : String → List ℤ) {w : ℕ}
    {table : PidTable} (hwindow : ∀ p ∈ peers.keys, (window p).Nodup ∧ (window p).length = w ∧
      ∀ e ∈ window p, 0 ≤ e ∧ e < 2 ^ 64)
    (h : table.Represents fun pid v => Names C peers pid v.1 v.2 ∧ v.2 ∈ window v.1) :
    table.size = peers.size * w := by
  let pairs (p : String) : List (String × ℤ) := (window p).map fun e => (p, e)
  have hnodup : (peers.keys.flatMap pairs).Nodup := by
    refine List.nodup_flatMap.mpr ⟨fun p hp => ?_, peers.nodup.imp fun {p p'} hne => ?_⟩
    · exact (hwindow p hp).1.map fun _ _ he => (Prod.mk.inj he).2
    · intro v hv hv'
      obtain ⟨e, -, rfl⟩ := List.mem_map.mp hv
      obtain ⟨e', -, heq⟩ := List.mem_map.mp hv'
      exact hne (Prod.mk.inj heq).1.symm
  have hlength : (peers.keys.flatMap pairs).length = peers.size * w := by
    have hpairs : ∀ p ∈ peers.keys, (pairs p).length = w := fun p hp =>
      (List.length_map _).trans (hwindow p hp).2.1
    rw [List.length_flatMap, List.map_congr_left hpairs, List.map_const', List.sum_replicate_nat,
      Dict.keys, List.length_map]
    rfl
  rw [← hlength]
  refine Dict.Represents.size_eq h hnodup (fun v => ?_) ?_
  · rw [List.mem_flatMap]
    constructor
    · rintro ⟨p, hp, hv⟩
      obtain ⟨e, he, rfl⟩ := List.mem_map.mp hv
      obtain ⟨lam, hlam⟩ := Dict.mem_keys_iff.mp hp
      obtain ⟨hlo, hhi⟩ := (hwindow p hp).2.2 e he
      obtain ⟨pid, hpid⟩ := exists_h2Pseudonym C lam hlo hhi
      exact ⟨pid, ⟨lam, hlam, hpid⟩, he⟩
    · rintro ⟨pid, ⟨lam, hlam, -⟩, he⟩
      exact ⟨v.1, Dict.mem_keys_iff.mpr ⟨lam, hlam⟩, List.mem_map.mpr ⟨v.2, he, rfl⟩⟩
  · rintro pid pid' v ⟨⟨lam, hlam, hpid⟩, -⟩ ⟨⟨lam', hlam', hpid'⟩, -⟩
    obtain rfl := Option.some.inj (hlam.symm.trans hlam')
    exact Except.ok.inj (hpid.symm.trans hpid')

/-! ## Complete windows -/

/-- The first integer of a range, and the rest. -/
lemma pyRange_cons {lo hi : ℤ} (h : lo < hi) : pyRange lo hi = lo :: pyRange (lo + 1) hi := by
  have hnat : (hi - lo).toNat = (hi - (lo + 1)).toNat + 1 := by omega
  rw [pyRange, hnat, List.range_succ_eq_map, List.map_cons, List.map_map, pyRange]
  congr 1
  · exact add_zero lo
  · apply List.map_congr_left
    intro i _
    rw [Function.comp_apply, Nat.cast_succ]
    omega

/-- A range in two parts. -/
lemma pyRange_append {lo mid hi : ℤ} (h : lo ≤ mid) (h' : mid ≤ hi) :
    pyRange lo hi = pyRange lo mid ++ pyRange mid hi := by
  have hnat : (hi - lo).toNat = (mid - lo).toNat + (hi - mid).toNat := by omega
  rw [pyRange, hnat, List.range_add, List.map_append, List.map_map, pyRange, pyRange]
  congr 1
  apply List.map_congr_left
  intro i _
  rw [Function.comp_apply, Nat.cast_add]
  omega

/-- A log whose windows are complete and have 64 bits, also the next ones. -/
structure SteadyLog (s : CostSettings) (peers : Dict String Lam) (log : SessionLog) : Prop where
  forward_pos : 1 ≤ s.forward
  lookback : log.replayLookback = s.lookback
  last : ∀ p ∈ peers.keys, (s.lookback : ℤ) ≤ log.last p ∧ log.last p + 1 + s.forward < 2 ^ 64

namespace SteadyLog

variable {s : CostSettings} {peers : Dict String Lam} {log : SessionLog} {p : String}

/-- A complete window: the lookback, the next epoch, and what follows it. -/
lemma window_split (h : SteadyLog s peers log)
    (hforward : log.forwardTolerance = s.forward) (hp : p ∈ peers.keys) :
    log.epochSearchWindow p = pyRange (log.last p - s.lookback) (log.last p + 1) ++
      (log.last p + 1) :: pyRange (log.last p + 2) (log.last p + s.forward + 1) := by
  obtain ⟨hlast, -⟩ := h.last p hp
  have hpos := h.forward_pos
  rw [SessionLog.epochSearchWindow, h.lookback, hforward, max_eq_right (by omega),
    pyRange_append (show log.last p - s.lookback ≤ log.last p + 1 by omega) (by omega),
    pyRange_cons (show log.last p + 1 < log.last p + s.forward + 1 by omega),
    add_assoc (log.last p) 1 1]
  rfl

/-- The width of a complete window of counter epochs. -/
lemma length_window (h : SteadyLog s peers log)
    (hforward : log.forwardTolerance = s.forward) (hp : p ∈ peers.keys) :
    (log.epochSearchWindow p).length = s.w1 := by
  have hpos := h.forward_pos
  rw [h.window_split hforward hp, List.length_append, List.length_cons, length_pyRange,
    length_pyRange, CostSettings.w1]
  omega

/-- The epochs of a complete window have 64 bits. -/
lemma window_range (h : SteadyLog s peers log)
    (hforward : log.forwardTolerance = s.forward) (hp : p ∈ peers.keys) :
    ∀ e ∈ log.epochSearchWindow p, 0 ≤ e ∧ e < 2 ^ 64 := by
  intro e he
  obtain ⟨-, hlast⟩ := h.last p hp
  obtain ⟨⟨hlo, -⟩, hhi⟩ := SessionLog.mem_epochSearchWindow.mp he
  rw [hforward] at hhi
  omega

/-- The windows stay complete when the next epoch of a peer is accepted, as long as they have 64
bits. -/
lemma accept (h : SteadyLog s peers log) (hp : p ∈ peers.keys)
    (hnext : log.last p + 2 + s.forward < 2 ^ 64) :
    SteadyLog s peers (log.acceptEpoch p (log.last p + 1)) := by
  refine ⟨h.forward_pos, SessionLog.acceptEpoch_frame.2.2.1.trans h.lookback, fun q hq => ?_⟩
  obtain ⟨hlo, hhi⟩ := h.last q hq
  rw [SessionLog.last_acceptEpoch]
  split_ifs with hqp
  · subst hqp
    omega
  · exact ⟨hlo, hhi⟩

end SteadyLog

/-- The settings and the reading of a clock whose window is complete and has 64 bits. -/
structure ClockSettings.Steady (c : ClockSettings) (s : CostSettings) (reading : ℚ) : Prop where
  drift : c.drift = s.drift
  readable : c.Readable reading
  complete : (s.drift : ℤ) ≤ c.currentEpoch reading

namespace ClockSettings.Steady

variable {c : ClockSettings} {s : CostSettings} {reading : ℚ}

/-- The neighbours of the current epoch are not negative. -/
lemma window_eq (h : c.Steady s reading) : c.window reading = c.currentEpoch reading ::
    (List.range' 1 s.drift).flatMap fun k : ℕ =>
      [c.currentEpoch reading + -(k : ℤ), c.currentEpoch reading + (k : ℤ)] := by
  obtain ⟨hdrift, -, hcomplete⟩ := h
  rw [window, hdrift]
  congr 1
  refine List.flatMap_congr fun k hk => List.filter_eq_self.mpr fun e he => ?_
  rw [List.mem_range'_1] at hk
  rw [decide_eq_true_eq]
  rcases List.mem_cons.mp he with rfl | he
  · omega
  · rw [List.mem_singleton.mp he]
    omega

/-- The width of a complete window of clock epochs. -/
lemma length_window (h : c.Steady s reading) : (c.window reading).length = s.wt := by
  have hpair : ∀ k ∈ List.range' 1 s.drift,
      [c.currentEpoch reading + -(k : ℤ), c.currentEpoch reading + (k : ℤ)].length = 2 :=
    fun _ _ => rfl
  rw [h.window_eq, List.length_cons, List.length_flatMap, List.map_congr_left hpair,
    List.map_const',
    List.sum_replicate_nat, List.length_range', CostSettings.wt, Nat.mul_comm]

/-- No epoch is in the window twice. -/
lemma nodup_window (h : c.Steady s reading) : (c.window reading).Nodup := by
  rw [h.window_eq, List.nodup_cons, List.nodup_flatMap]
  refine ⟨?_, ?_, ?_⟩
  · intro hmem
    obtain ⟨k, hk, he⟩ := List.mem_flatMap.mp hmem
    rw [List.mem_range'_1] at hk
    simp only [List.mem_cons, List.not_mem_nil, or_false] at he
    omega
  · intro k hk
    rw [List.mem_range'_1] at hk
    simp only [List.nodup_cons, List.mem_cons, List.not_mem_nil, or_false, not_false_eq_true,
      List.nodup_nil, and_self, and_true]
    omega
  · refine List.Pairwise.imp ?_ List.pairwise_lt_range'
    intro k k' hlt e he he'
    simp only [List.mem_cons, List.not_mem_nil, or_false] at he he'
    omega

end ClockSettings.Steady

/-- Accepting the next epoch of a peer enters one pair. -/
lemma CounterTable.Exact.count_next {C : Crypto} {peers : Dict String Lam} {log : SessionLog}
    {r : CounterTable} (h : r.Exact C peers log) {p : String} {lam : Lam}
    (hlam : peers.get p = some lam)
    (hpos : 1 ≤ r.forward log) (hbelow : log.last p + 1 + r.forward log < 2 ^ 64) :
    (r.accept C peers log p (log.last p + 1)).2.1.count = r.count.spend false 1 := by
  have hlast : (log.acceptEpoch p (log.last p + 1)).last p = log.last p + 1 := by
    rw [SessionLog.last_acceptEpoch, if_pos rfl, max_eq_right (by omega)]
  have hforward : (r.dropAccepted (log.acceptEpoch p (log.last p + 1)) p).forward
      (log.acceptEpoch p (log.last p + 1)) = r.forward log := by
    rw [forward, forward, SessionLog.acceptEpoch_frame.2.1]
    rfl
  have htop : (r.dropAccepted (log.acceptEpoch p (log.last p + 1)) p).top
      (log.acceptEpoch p (log.last p + 1)) p = log.last p + r.forward log := by
    show (r.hi.get p).getD _ = _
    rw [h.hi_eq p (Dict.mem_keys_iff.mpr ⟨lam, hlam⟩)]
    rfl
  have hmissing : ((r.dropAccepted (log.acceptEpoch p (log.last p + 1)) p).missing
      (log.acceptEpoch p (log.last p + 1)) p).length = 1 := by
    rw [missing, htop, hforward, hlast, length_pyRange]
    omega
  have hcount := count_fill (C := C) hlam (by rw [hlast, hforward]; exact hbelow) false
  rw [hmissing] at hcount
  exact hcount

section Unknown

variable {C : Crypto} {peers : Dict String Lam} {reading : ℚ} {pid : Bytes}
  (hunknown : ∀ p e, ¬ Names C peers pid p e)

include hunknown

/-- A pseudonym that no peer has is unknown to a linear scan. -/
lemma LinearScan.resolve_unknown {log : SessionLog} (r : LinearScan)
    (hrange : ∀ p ∈ peers.keys, ∀ e ∈ log.epochSearchWindow p, 0 ≤ e ∧ e < 2 ^ 64) :
    ∃ x, (r.resolve C peers log pid).1 = .error x ∧ x.kind = .unknownPeerError := by
  unfold resolve
  split <;> rename_i hprobe
  · obtain ⟨q, hq, e, he, hout⟩ := probePeers_error hprobe
    exact absurd (hrange q.1 (List.mem_map_of_mem hq) e he) hout
  · exact ⟨_, rfl, rfl⟩
  · obtain ⟨lam, hmem, -, hpid⟩ := probePeers_found hprobe
    exact absurd ⟨lam, Dict.mem_entries_iff.mp hmem, hpid⟩ (hunknown _ _)

/-- A pseudonym that no peer has is unknown to a counter table. -/
lemma CounterTable.Exact.resolve_unknown {log : SessionLog} {r : CounterTable}
    (h : r.Exact C peers log) : ∃ x, r.resolve pid = .error x ∧ x.kind = .unknownPeerError := by
  rcases hres : r.resolve pid with x | hit
  · exact ⟨x, rfl, (kind_of_resolve [] hres).1⟩
  · exact absurd (h.resolve_eq_ok_iff.mp hres).1 (hunknown _ _)

/-- A pseudonym that no peer has is unknown to a scan of clock epochs. -/
lemma ClockScan.resolve_unknown (r : ClockScan)
    (hrange : ∀ e ∈ r.settings.window reading, 0 ≤ e ∧ e < 2 ^ 64) :
    ∃ x, (r.resolve C peers reading pid).1 = .error x ∧ x.kind = .unknownPeerError := by
  rcases hres : (r.resolve C peers reading pid).1 with x | hit
  · exact ⟨x, rfl, (ClockScan.kind_of_resolve hrange [] hres).1⟩
  · exact absurd (ClockScan.resolve_sound hres).1 (hunknown _ _)

/-- A pseudonym that no peer has is unknown to a table of clock epochs. -/
lemma ClockTable.resolve_unknown (r : ClockTable) (h : r.Named C peers)
    (hrange : ∀ e ∈ r.settings.window reading, 0 ≤ e ∧ e < 2 ^ 64) :
    ∃ x, (r.resolve C peers reading pid).1 = .error x ∧ x.kind = .unknownPeerError := by
  rcases hres : (r.resolve C peers reading pid).1 with x | hit
  · exact ⟨x, rfl, (kind_of_resolve hrange [] hres).1⟩
  · exact absurd (h.resolve_sound hres) (hunknown _ _)

end Unknown

/-- The pairs that the window of a reading adds: one for each peer and new epoch. -/
lemma ClockTable.length_newPairs (peers : Dict String Lam) (r : ClockTable) (reading : ℚ) :
    (r.newPairs peers reading).length =
      ((r.settings.window reading).filter fun e => e ∉ r.tabled).length * peers.size := by
  have hpairs :
      ∀ e ∈ ((r.settings.window reading).filter fun e => e ∉ r.tabled).insertionSort (· ≤ ·),
        (peers.entries.map fun p => (p.1, p.2, e)).length = peers.size :=
    fun _ _ => List.length_map _
  rw [newPairs, List.length_flatMap, List.map_congr_left hpairs, List.map_const',
    List.sum_replicate_nat, List.length_insertionSort]

/-- What a table of clock epochs counts: the pairs that are added, and nothing for a look-up. -/
lemma ClockTable.count_resolve (C : Crypto) (peers : Dict String Lam) {r : ClockTable} {reading : ℚ}
    (hrange : ∀ e ∈ r.settings.window reading, 0 ≤ e ∧ e < 2 ^ 64) (pid : Bytes) :
    (r.resolve C peers reading pid).2.count =
      r.count.spend true (r.newPairs peers reading).length := by
  have hnew : ∀ q ∈ r.newPairs peers reading, 0 ≤ q.2.2 ∧ q.2.2 < 2 ^ 64 :=
    fun q hq => hrange _ (mem_newPairs.mp hq).2.1
  have hcount := count_enterPairs (C := C) true r.count r.table hnew
  have hadvance : (r.advance C peers reading).2.count =
      r.count.spend true (r.newPairs peers reading).length := by
    unfold ClockTable.advance
    dsimp only
    split <;> rename_i heq <;> rw [heq] at hcount <;> exact hcount
  unfold ClockTable.resolve
  split <;> rename_i heq <;> rw [heq] at hadvance
  · exact hadvance
  · split <;> exact hadvance

/-- A table that has the epochs of the window adds nothing. -/
lemma ClockTable.length_newPairs_within (peers : Dict String Lam) {r : ClockTable} {reading : ℚ}
    (htabled : r.tabled = (r.settings.window reading).toFinset) :
    (r.newPairs peers reading).length = 0 := by
  have hnone : (r.settings.window reading).filter (fun e => e ∉ r.tabled) = [] := by
    rw [List.filter_eq_nil_iff, htabled]
    intro e he
    simpa using he
  rw [length_newPairs, hnone, List.length_nil, Nat.zero_mul]

/-- A look-up in such a table counts nothing. -/
lemma ClockTable.count_within (C : Crypto) (peers : Dict String Lam) (r : ClockTable) {reading : ℚ}
    (htabled : r.tabled = (r.settings.window reading).toFinset)
    (hrange : ∀ e ∈ r.settings.window reading, 0 ≤ e ∧ e < 2 ^ 64) (pid : Bytes) :
    (r.resolve C peers reading pid).2.count = r.count.spend true 0 := by
  rw [count_resolve C peers hrange pid, length_newPairs_within peers htabled]

/-- A nonce that is not remembered is accepted. -/
lemma exists_acceptNonce (c : ClockSettings) (reading : ℚ) (log : SessionLog) {nonces : NonceCache}
    {peer : String} {epoch : ℤ} {nI : Bytes} (h : nonceTag peer nI ∉ nonces.seen epoch) :
    ∃ nonces' log', acceptNonce c reading nonces log peer epoch nI = (.ok (), nonces', log') :=
  ⟨_, _, Prod.ext (acceptNonce_of_fresh h) rfl⟩

/-- A cache without nonces has none for any epoch. -/
lemma NonceCache.seen_of_entryCount_eq_zero {nonces : NonceCache}
    (h : nonces.entryCount = 0) (e : ℤ) :
    nonces.seen e = ∅ := by
  rw [entryCount, List.sum_eq_zero_iff_forall_eq_nat] at h
  rcases hget : nonces.get e with _ | tags
  · rw [seen, hget, Option.getD_none]
  · have hcard := h _ (List.mem_map_of_mem (f := fun q => q.2.card) (Dict.mem_entries_iff.mpr hget))
    rw [seen, hget, Option.getD_some]
    exact Finset.card_eq_zero.mp hcard

/-- Purging epochs that have no nonces loses none. -/
lemma NonceCache.entryCount_purge {nonces : NonceCache} {lo : ℤ} (h : ∀ e < lo, nonces.seen e = ∅) :
    (nonces.purge lo).entryCount = nonces.entryCount := by
  have hsum : ∀ l : List (ℤ × Finset Bytes), (∀ q ∈ l, q.1 < lo → q.2 = ∅) →
      ((l.filter fun q => !decide (q.1 < lo)).map fun q => q.2.card).sum =
        (l.map fun q => q.2.card).sum := by
    intro l
    induction l with
    | nil => exact fun _ => rfl
    | cons q l ih =>
      intro hl
      obtain ⟨hq, hl⟩ := List.forall_mem_cons.mp hl
      by_cases hlo : q.1 < lo
      · simp [hlo, hq hlo, ih hl]
      · simp [hlo, ih hl]
  apply hsum nonces.entries
  intro q hq hlo
  have hseen := h q.1 hlo
  rwa [seen, Dict.mem_entries_iff.mp hq, Option.getD_some] at hseen

/-- An accepted nonce is one more, and then the epochs that left the window have none. -/
lemma entryCount_acceptNonce {c : ClockSettings} {reading : ℚ} (log : SessionLog)
    {nonces : NonceCache} {peer : String} {nI : Bytes}
    (hempty : ∀ e < c.currentEpoch reading - c.drift, nonces.seen e = ∅)
    (hfresh : nonceTag peer nI ∉ nonces.seen (c.currentEpoch reading)) :
    let nonces' := (acceptNonce c reading nonces log peer (c.currentEpoch reading) nI).2.1
    nonces'.entryCount = nonces.entryCount + 1 ∧
      ∀ e < c.currentEpoch reading - c.drift, nonces'.seen e = ∅ := by
  have hcur : c.currentEpoch reading - c.drift ≤ c.currentEpoch reading := by omega
  have hpurged := nonces.seen_purge hcur
  rw [acceptNonce]
  dsimp only
  rw [if_neg (hpurged ▸ hfresh)]
  dsimp only
  constructor
  · have hsum := Dict.sum_set Finset.card (nonces.purge (c.currentEpoch reading - c.drift))
      (c.currentEpoch reading) (insert (nonceTag peer nI)
        ((nonces.purge (c.currentEpoch reading - c.drift)).seen (c.currentEpoch reading)))
    have hold :
        (((nonces.purge (c.currentEpoch reading - c.drift)).get (c.currentEpoch reading)).map
          Finset.card).getD 0 =
        ((nonces.purge (c.currentEpoch reading - c.drift)).seen
          (c.currentEpoch reading)).card := by
      rw [NonceCache.seen]
      cases (nonces.purge (c.currentEpoch reading - c.drift)).get (c.currentEpoch reading) <;> rfl
    have hcount := NonceCache.entryCount_purge hempty
    rw [hold, Finset.card_insert_of_notMem (hpurged ▸ hfresh)] at hsum
    rw [NonceCache.entryCount] at hcount ⊢
    omega
  · intro e he
    rw [NonceCache.seen_set, if_neg (by omega)]
    rw [NonceCache.seen, NonceCache.purge, Dict.get_eraseIf]
    cases nonces.get e <;> simp [he, Option.filter]

/-! ## Steady states -/

/-- A steady state of a strategy; the randomized hash lock is no resolver. -/
def Bench.Steady (C : Crypto) (peers : Dict String Lam) (s : CostSettings) (reading : ℚ) :
    Strategy → Bench → Prop
  | .o1, B => SteadyLog s peers B.log ∧ B.log.forwardTolerance = s.forward ∧
      ∃ r, B.resolver = .linearScan r
  | .o2, B => SteadyLog s peers B.log ∧
      ∃ r, B.resolver = .counterTable r ∧ r.forward B.log = s.forward ∧ r.Exact C peers B.log
  | .o3, B => ∃ r, B.resolver = .clockScan r ∧ r.settings.Steady s reading
  | .o4, B => ∃ r, B.resolver = .clockTable r ∧ r.settings.Steady s reading ∧ r.Exact C peers ∧
      r.tabled = (r.settings.window reading).toFinset
  | .cr, _ => False

/-- The epoch of the next honest pseudonym of a peer. -/
def Bench.epochOf (reading : ℚ) (B : Bench) (peer : String) : ℤ :=
  match B.resolver with
  | .linearScan _ | .counterTable _ | .timeMemory _ => B.log.last peer + 1
  | .clockScan r => r.settings.currentEpoch reading
  | .clockTable r => r.settings.currentEpoch reading

/-- The nonce is not one that was accepted from the peer in this epoch. -/
def Bench.Fresh (reading : ℚ) (B : Bench) (peer : String) (nI : Bytes) : Prop :=
  match B.resolver with
  | .linearScan _ | .counterTable _ | .timeMemory _ => True
  | .clockScan r => nonceTag peer nI ∉ r.nonces.seen (r.settings.currentEpoch reading)
  | .clockTable r => nonceTag peer nI ∉ r.nonces.seen (r.settings.currentEpoch reading)

instance (reading : ℚ) (peer : String) (nI : Bytes) :
    (B : Bench) → Decidable (B.Fresh reading peer nI)
  | ⟨.linearScan _, _⟩ | ⟨.counterTable _, _⟩ | ⟨.timeMemory _, _⟩ => .isTrue trivial
  | ⟨.clockScan r, _⟩ =>
    inferInstanceAs (Decidable (nonceTag peer nI ∉ r.nonces.seen (r.settings.currentEpoch reading)))
  | ⟨.clockTable r, _⟩ =>
    inferInstanceAs (Decidable (nonceTag peer nI ∉ r.nonces.seen (r.settings.currentEpoch reading)))

/-- No nonce is remembered for an epoch that has left the window. -/
def Bench.Current (reading : ℚ) (B : Bench) : Prop :=
  match B.resolver with
  | .linearScan _ | .counterTable _ | .timeMemory _ => True
  | .clockScan r => ∀ e < r.settings.currentEpoch reading - r.settings.drift, r.nonces.seen e = ∅
  | .clockTable r => ∀ e < r.settings.currentEpoch reading - r.settings.drift, r.nonces.seen e = ∅

/-- The next window of the peer still has 64 bits. -/
def Bench.Fits (s : CostSettings) (B : Bench) (peer : String) : Prop :=
  B.resolver.IsCounter → B.log.last peer + 2 + s.forward < 2 ^ 64

namespace Strategy

/-- What a peer adds to the cost for the peers after it. -/
def width (s : CostSettings) : Strategy → ℕ
  | o1 => s.w1
  | o2 => 0
  | o3 => s.wt
  | o4 => 0
  | cr => 1

/-- The cost for the first peer. -/
def place (s : CostSettings) : Strategy → ℕ
  | o1 => s.lookback + 2
  | o2 => 1
  | o3 => 1
  | o4 => 0
  | cr => 1

/-- The closed form for honest pseudonyms is a mean over the peers. -/
lemma honest_closed (s : CostSettings) (S : Strategy) {n : ℕ} (hn : n ≠ 0) :
    (s.closed S n).honest = ((n : ℚ) - 1) * (S.width s : ℚ) / 2 + S.place s := by
  unfold CostSettings.closed
  rw [if_neg hn]
  cases S with
  | o1 => simp [width, place]
  | o2 => simp [width, place]
  | o3 => simp [width, place]
  | o4 => simp [width, place]
  | cr =>
    simp only [width, place, Nat.cast_one, mul_one]
    ring

/-- The closed form for a forged pseudonym is the width for every peer. -/
lemma forged_closed (s : CostSettings) (S : Strategy) (n : ℕ) :
    (s.closed S n).forged = n * S.width s := by
  unfold CostSettings.closed
  split_ifs with hn
  · rw [hn, Nat.zero_mul]
  · cases S with
    | o1 => rfl
    | o2 => exact (Nat.mul_zero n).symm
    | o3 => rfl
    | o4 => exact (Nat.mul_zero n).symm
    | cr => exact (Nat.mul_one n).symm

/-- What is stored for one peer. -/
def stateBytes (s : CostSettings) : Strategy → ℕ
  | o1 => counterBytes
  | o2 => tableEntryBytes * s.forward + counterBytes
  | o3 => nonceCacheEntryBytes
  | o4 => tableEntryBytes * s.wt + nonceCacheEntryBytes
  | cr => 0

/-- The closed form for the state is the same for every peer. -/
lemma stateBytes_closed (s : CostSettings) (S : Strategy) (n : ℕ) :
    (s.closed S n).stateBytes = S.stateBytes s * n := by
  unfold CostSettings.closed
  split_ifs with hn
  · rw [hn, Nat.mul_zero]
  · cases S with
    | cr => exact (Nat.zero_mul n).symm
    | _ => rfl

/-- What is stored for one peer, but for nonces. -/
def peerBytes (s : CostSettings) : Strategy → ℕ
  | o1 => counterBytes
  | o2 => tableEntryBytes * s.forward + counterBytes
  | o4 => tableEntryBytes * s.wt
  | o3 | cr => 0

/-- Nothing is charged for no peer. -/
lemma closed_zero (s : CostSettings) (S : Strategy) : s.closed S 0 = {} := if_pos rfl

end Strategy

namespace Bench

variable {C : Crypto} {peers : Dict String Lam} {s : CostSettings} {reading : ℚ} {B : Bench}
  {S : Strategy} {i : ℕ} {nI pid : Bytes}

/-- A sample in which the pseudonym is resolved and accepted. -/
lemma honest_eq {peer : String} {lam : Lam} {epoch : ℤ} {r r' : Resolver} {log : SessionLog}
    (hlam : peers.get peer = some lam) (hpid : h2Pseudonym C lam epoch = .ok pid)
    (hres : B.resolver.resetCounters.resolve C peers B.log reading pid = (.ok (peer, epoch), r))
    (hacc : r.accept C peers B.log reading peer epoch nI = (.ok (), r', log)) :
    B.honest C peers reading peer epoch nI =
      (some (r'.count.probes + r'.count.precomputeProbes), ⟨r', log⟩) := by
  rw [honest, hlam, Option.map_some, hpid]
  dsimp only
  rw [hres]
  dsimp only
  rw [if_neg (not_not.mpr rfl), hacc]

/-- The peer with a number. -/
lemma get_entry (hi : i < peers.entries.length) :
    peers.get peers.entries[i].1 = some peers.entries[i].2 ∧ peers.entries[i].1 ∈ peers.keys :=
  ⟨Dict.mem_entries_iff.mp (List.getElem_mem hi), List.mem_map_of_mem (List.getElem_mem hi)⟩

/-- An honest sample of the linear scan. -/
lemma honest_linearScan (hinj : PseudonymsInjective C peers) (h : B.Steady C peers s reading .o1)
    (hi : i < peers.entries.length) (nI : Bytes) : ∃ r,
    B.honest C peers reading peers.entries[i].1 (B.epochOf reading peers.entries[i].1) nI =
      (some (i * s.w1 + (s.lookback + 2)), ⟨.linearScan r,
        B.log.acceptEpoch peers.entries[i].1 (B.log.last peers.entries[i].1 + 1)⟩) := by
  obtain ⟨hlog, hforward, r, hr⟩ := h
  obtain ⟨hlam, hp⟩ := get_entry hi
  obtain ⟨hlo, hhi⟩ := hlog.last _ hp
  have hpos := hlog.forward_pos
  have hepoch : B.epochOf reading peers.entries[i].1 = B.log.last peers.entries[i].1 + 1 := by
    rw [epochOf, hr]
  obtain ⟨pid, hpid⟩ := exists_h2Pseudonym C peers.entries[i].2
    (show 0 ≤ B.log.last peers.entries[i].1 + 1 by omega) (by omega)
  have hkeys : ∀ q ∈ peers.entries, q.1 ∈ peers.keys := fun q hq => List.mem_map_of_mem hq
  have hrange : ∀ q ∈ peers.entries, ∀ e ∈ B.log.epochSearchWindow q.1, 0 ≤ e ∧ e < 2 ^ 64 :=
    fun q hq => hlog.window_range hforward (hkeys q hq)
  have hcount := count_probePeers C B.log.epochSearchWindow pid hrange {}
  rw [examined_of_hit hinj (fun q hq => hlog.length_window hforward (hkeys q hq)) hi
    (hlog.window_split hforward hp) (by rw [mem_pyRange]; omega) hpid, length_pyRange] at hcount
  have hres : (LinearScan.resolve C peers B.log {} pid).1 =
      .ok (peers.entries[i].1, B.log.last peers.entries[i].1 + 1) := by
    refine LinearScan.resolve_complete hinj (fun q hq => ?_) ⟨_, hlam, hpid⟩ (lt_add_one _) ?_
    · obtain ⟨-, hbelow⟩ := hlog.last q hq
      rw [hforward]
      omega
    · rw [hforward]
      omega
  have hstep : (Resolver.linearScan r).resetCounters.resolve C peers B.log reading pid =
      (.ok (peers.entries[i].1, B.log.last peers.entries[i].1 + 1),
        .linearScan (LinearScan.resolve C peers B.log {} pid).2) := by
    rw [← hres]
    rfl
  refine ⟨(LinearScan.resolve C peers B.log {} pid).2, ?_⟩
  rw [hepoch, honest_eq hlam hpid (hr ▸ hstep) rfl, Resolver.count,
    LinearScan.count_resolve, hcount,
    Probes.total_spend]
  congr 2
  omega

/-- An honest sample of the counter table. -/
lemma honest_counterTable (hinj : PseudonymsInjective C peers)
    (h : B.Steady C peers s reading .o2) (hi : i < peers.entries.length) (nI : Bytes) : ∃ r,
    B.honest C peers reading peers.entries[i].1 (B.epochOf reading peers.entries[i].1) nI =
      (some 1, ⟨.counterTable r,
        B.log.acceptEpoch peers.entries[i].1 (B.log.last peers.entries[i].1 + 1)⟩) ∧
    r.forward (B.log.acceptEpoch peers.entries[i].1 (B.log.last peers.entries[i].1 + 1)) =
      s.forward ∧
    r.Exact C peers (B.log.acceptEpoch peers.entries[i].1 (B.log.last peers.entries[i].1 + 1)) := by
  obtain ⟨hlog, r, hr, hforward, hexact⟩ := h
  obtain ⟨hlam, hp⟩ := get_entry hi
  obtain ⟨hlo, hhi⟩ := hlog.last _ hp
  have hpos := hlog.forward_pos
  have hepoch : B.epochOf reading peers.entries[i].1 = B.log.last peers.entries[i].1 + 1 := by
    rw [epochOf, hr]
  obtain ⟨pid, hpid⟩ := exists_h2Pseudonym C peers.entries[i].2
    (show 0 ≤ B.log.last peers.entries[i].1 + 1 by omega) (by omega)
  -- the table without its counters
  let t : CounterTable := { r with count := {} }
  have ht : t.Exact C peers B.log := ⟨hexact.tabled, hexact.hi_eq⟩
  have htforward : t.forward B.log = s.forward := hforward
  have hres : t.resolve pid = .ok (peers.entries[i].1, B.log.last peers.entries[i].1 + 1) :=
    ht.resolve_eq_ok_iff.mpr ⟨⟨_, hlam, hpid⟩, lt_add_one _, by rw [htforward]; omega⟩
  obtain ⟨hok, hexact', hforward'⟩ := ht.accept hinj hp (lt_add_one _)
    (by rw [htforward]; omega) (by rw [htforward]; exact hhi)
  have hkept : (t.accept C peers B.log peers.entries[i].1
      (B.log.last peers.entries[i].1 + 1)).2.1.forward
        (B.log.acceptEpoch peers.entries[i].1 (B.log.last peers.entries[i].1 + 1)) = s.forward := by
    rw [CounterTable.forward, hforward', SessionLog.acceptEpoch_frame.2.1]
    exact hforward
  have hcount := ht.count_next hlam (by rw [htforward]; exact hpos) (by rw [htforward]; exact hhi)
  have hstep : (Resolver.counterTable r).resetCounters.resolve C peers B.log reading pid =
      (.ok (peers.entries[i].1, B.log.last peers.entries[i].1 + 1), .counterTable t) := by
    rw [← hres]
    rfl
  have hacc : (Resolver.counterTable t).accept C peers B.log reading peers.entries[i].1
      (B.log.last peers.entries[i].1 + 1) nI = (.ok (), .counterTable
        (t.accept C peers B.log peers.entries[i].1 (B.log.last peers.entries[i].1 + 1)).2.1,
        B.log.acceptEpoch peers.entries[i].1 (B.log.last peers.entries[i].1 + 1)) := by
    rw [← hok]
    rfl
  refine ⟨_, ?_, hkept, hexact'⟩
  rw [hepoch, honest_eq hlam hpid (hr ▸ hstep) hacc, Resolver.count, hcount, Probes.total_spend]

/-- An honest sample of the scan of clock epochs. -/
lemma honest_clockScan (hinj : PseudonymsInjective C peers) (h : B.Steady C peers s reading .o3)
    (hi : i < peers.entries.length) (hfresh : B.Fresh reading peers.entries[i].1 nI) :
    ∃ r r' log, B.resolver = .clockScan r ∧
      B.honest C peers reading peers.entries[i].1 (B.epochOf reading peers.entries[i].1) nI =
        (some (i * s.wt + 1), ⟨.clockScan r', log⟩) ∧ r'.settings.Steady s reading ∧
      r'.settings = r.settings ∧ r'.nonces = (acceptNonce r.settings reading r.nonces B.log
        peers.entries[i].1 (r.settings.currentEpoch reading) nI).2.1 := by
  obtain ⟨r, hr, hclock⟩ := h
  obtain ⟨hlam, hp⟩ := get_entry hi
  have hrange := ClockSettings.window_range hclock.readable
  have hepoch : B.epochOf reading peers.entries[i].1 = r.settings.currentEpoch reading := by
    rw [epochOf, hr]
  have hfresh' : nonceTag peers.entries[i].1 nI ∉
      r.nonces.seen (r.settings.currentEpoch reading) := by
    rwa [Fresh, hr] at hfresh
  have hcur : r.settings.currentEpoch reading ∈ r.settings.window reading := List.mem_cons_self
  obtain ⟨pid, hpid⟩ := exists_h2Pseudonym C peers.entries[i].2 (hrange _ hcur).1 (hrange _ hcur).2
  have hcount := count_probePeers C (fun _ => r.settings.window reading) pid
    (fun q (_ : q ∈ peers.entries) => hrange) {}
  rw [examined_of_hit hinj (fun _ _ => hclock.length_window) hi hclock.window_eq List.not_mem_nil
    hpid] at hcount
  let t : ClockScan := { r with count := {} }
  have hres : (t.resolve C peers reading pid).1 =
      .ok (peers.entries[i].1, r.settings.currentEpoch reading) :=
    (ClockScan.resolve_eq_ok_iff (r := t) hrange hinj).mpr ⟨⟨_, hlam, hpid⟩, hcur⟩
  obtain ⟨hsettings, hnonces⟩ : (t.resolve C peers reading pid).2.settings = t.settings ∧
      (t.resolve C peers reading pid).2.nonces = t.nonces := ClockScan.resolve_frame
  have hstep : (Resolver.clockScan r).resetCounters.resolve C peers B.log reading pid =
      (.ok (peers.entries[i].1, r.settings.currentEpoch reading),
        .clockScan (t.resolve C peers reading pid).2) := by
    rw [← hres]
    rfl
  obtain ⟨nonces, log, hacc⟩ := exists_acceptNonce r.settings reading B.log hfresh'
  have haccept : acceptNonce (t.resolve C peers reading pid).2.settings reading
      (t.resolve C peers reading pid).2.nonces B.log peers.entries[i].1
      (r.settings.currentEpoch reading) nI = (.ok (), nonces, log) := by
    rw [hsettings, hnonces]
    exact hacc
  have hacc' : (Resolver.clockScan (t.resolve C peers reading pid).2).accept C peers B.log reading
      peers.entries[i].1 (r.settings.currentEpoch reading) nI = (.ok (),
        .clockScan { (t.resolve C peers reading pid).2 with nonces := nonces }, log) := by
    rw [Resolver.accept, haccept]
  refine ⟨r, { (t.resolve C peers reading pid).2 with nonces := nonces }, log, hr, ?_,
    hsettings ▸ hclock, hsettings, by rw [hacc]⟩
  rw [hepoch, honest_eq hlam hpid (hr ▸ hstep) hacc', Resolver.count,
    ClockScan.count_resolve, hcount,
    Probes.total_spend]
  rfl

/-- An honest sample of the table of clock epochs, at a reading whose epochs it may lack. -/
lemma honest_clockTable_at (hinj : PseudonymsInjective C peers) {r : ClockTable}
    (hr : B.resolver = .clockTable r) (hclock : r.settings.Steady s reading)
    (hexact : r.Exact C peers) (hi : i < peers.entries.length)
    (hfresh : B.Fresh reading peers.entries[i].1 nI) : ∃ r' log,
    B.honest C peers reading peers.entries[i].1 (B.epochOf reading peers.entries[i].1) nI =
      (some (r.newPairs peers reading).length, ⟨.clockTable r', log⟩) ∧
    r'.settings.Steady s reading ∧ r'.Exact C peers ∧
    r'.tabled = (r'.settings.window reading).toFinset ∧
    r'.settings = r.settings ∧ r'.nonces = (acceptNonce r.settings reading r.nonces B.log
      peers.entries[i].1 (r.settings.currentEpoch reading) nI).2.1 := by
  obtain ⟨hlam, hp⟩ := get_entry hi
  have hrange := ClockSettings.window_range hclock.readable
  have hepoch : B.epochOf reading peers.entries[i].1 = r.settings.currentEpoch reading := by
    rw [epochOf, hr]
  have hfresh' : nonceTag peers.entries[i].1 nI ∉
      r.nonces.seen (r.settings.currentEpoch reading) := by
    rwa [Fresh, hr] at hfresh
  have hcur : r.settings.currentEpoch reading ∈ r.settings.window reading := List.mem_cons_self
  obtain ⟨pid, hpid⟩ := exists_h2Pseudonym C peers.entries[i].2 (hrange _ hcur).1 (hrange _ hcur).2
  let t : ClockTable := { r with count := {} }
  have ht : t.Exact C peers := hexact
  have hcount : (t.resolve C peers reading pid).2.count =
      ({} : Probes).spend true (r.newPairs peers reading).length :=
    ClockTable.count_resolve C peers (r := t) hrange pid
  have hres : (t.resolve C peers reading pid).1 =
      .ok (peers.entries[i].1, r.settings.currentEpoch reading) :=
    (ht.resolve_eq_ok_iff hinj hrange).mpr ⟨⟨_, hlam, hpid⟩, hcur⟩
  obtain ⟨hexact', htabled'⟩ := ht.resolve hinj hrange pid
  obtain ⟨hsettings, hnonces⟩ : (t.resolve C peers reading pid).2.settings = t.settings ∧
      (t.resolve C peers reading pid).2.nonces = t.nonces := ClockTable.resolve_frame
  have hstep : (Resolver.clockTable r).resetCounters.resolve C peers B.log reading pid =
      (.ok (peers.entries[i].1, r.settings.currentEpoch reading),
        .clockTable (t.resolve C peers reading pid).2) := by
    rw [← hres]
    rfl
  obtain ⟨nonces, log, hacc⟩ := exists_acceptNonce r.settings reading B.log hfresh'
  have haccept : acceptNonce (t.resolve C peers reading pid).2.settings reading
      (t.resolve C peers reading pid).2.nonces B.log peers.entries[i].1
      (r.settings.currentEpoch reading) nI = (.ok (), nonces, log) := by
    rw [hsettings, hnonces]
    exact hacc
  have hacc' : (Resolver.clockTable (t.resolve C peers reading pid).2).accept C peers B.log reading
      peers.entries[i].1 (r.settings.currentEpoch reading) nI = (.ok (),
        .clockTable { (t.resolve C peers reading pid).2 with nonces := nonces }, log) := by
    rw [Resolver.accept, haccept]
  refine ⟨{ (t.resolve C peers reading pid).2 with nonces := nonces }, log, ?_,
    hsettings ▸ hclock, hexact', ?_, hsettings, by rw [hacc]⟩
  · rw [hepoch, honest_eq hlam hpid (hr ▸ hstep) hacc', Resolver.count, hcount, Probes.total_spend]
  · exact htabled'.trans (by rw [hsettings])

/-- An honest sample of the table of clock epochs. -/
lemma honest_clockTable (hinj : PseudonymsInjective C peers) (h : B.Steady C peers s reading .o4)
    (hi : i < peers.entries.length) (hfresh : B.Fresh reading peers.entries[i].1 nI) :
    ∃ r r' log, B.resolver = .clockTable r ∧
      B.honest C peers reading peers.entries[i].1 (B.epochOf reading peers.entries[i].1) nI =
        (some 0, ⟨.clockTable r', log⟩) ∧ r'.settings.Steady s reading ∧ r'.Exact C peers ∧
      r'.tabled = (r'.settings.window reading).toFinset ∧
      r'.settings = r.settings ∧ r'.nonces = (acceptNonce r.settings reading r.nonces B.log
        peers.entries[i].1 (r.settings.currentEpoch reading) nI).2.1 := by
  obtain ⟨r, hr, hclock, hexact, htabled⟩ := h
  obtain ⟨r', log, hstep, hrest⟩ := honest_clockTable_at hinj hr hclock hexact hi hfresh
  rw [ClockTable.length_newPairs_within peers htabled] at hstep
  exact ⟨r, r', log, hr, hstep, hrest⟩

/-- In a steady state, what an honest sample costs depends on the place of the peer; and the state
after it is steady, as long as the windows have 64 bits. -/
theorem Steady.honest (hinj : PseudonymsInjective C peers) (h : B.Steady C peers s reading S)
    (hi : i < peers.entries.length) (hfresh : B.Fresh reading peers.entries[i].1 nI) :
    ∃ B', B.honest C peers reading peers.entries[i].1 (B.epochOf reading peers.entries[i].1) nI =
      (some (i * S.width s + S.place s), B') ∧
      (B.Fits s peers.entries[i].1 → B'.Steady C peers s reading S) := by
  obtain ⟨-, hp⟩ := get_entry hi
  cases S with
  | o1 =>
    obtain ⟨r, hstep⟩ := honest_linearScan hinj h hi nI
    obtain ⟨hlog, hforward, r', hr⟩ := h
    refine ⟨_, hstep, fun hfits => ⟨hlog.accept hp (hfits ?_),
      SessionLog.acceptEpoch_frame.2.1.trans hforward, r, rfl⟩⟩
    rw [hr]
    trivial
  | o2 =>
    obtain ⟨r, hstep, hforward, hexact⟩ := honest_counterTable hinj h hi nI
    obtain ⟨hlog, r', hr, -⟩ := h
    refine ⟨_, hstep.trans (by rw [Strategy.width, Strategy.place, Nat.mul_zero, Nat.zero_add]),
      fun hfits => ⟨hlog.accept hp (hfits ?_), r, rfl, hforward, hexact⟩⟩
    rw [hr]
    trivial
  | o3 =>
    obtain ⟨r, r', log, -, hstep, hclock, -⟩ := honest_clockScan hinj h hi hfresh
    exact ⟨_, hstep, fun _ => ⟨r', rfl, hclock⟩⟩
  | o4 =>
    obtain ⟨r, r', log, -, hstep, hclock, hexact, htabled, -⟩ := honest_clockTable hinj h hi hfresh
    exact ⟨_, hstep, fun _ => ⟨r', rfl, hclock, hexact, htabled⟩⟩
  | cr => exact h.elim

/-- With clock epochs, an honest sample remembers one more nonce. -/
lemma Steady.nonceEntries_honest (hinj : PseudonymsInjective C peers)
    (h : B.Steady C peers s reading S) (hS : S = .o3 ∨ S = .o4) (hcurrent : B.Current reading)
    (hi : i < peers.entries.length) (hfresh : B.Fresh reading peers.entries[i].1 nI) :
    let B' := (B.honest C peers reading peers.entries[i].1
      (B.epochOf reading peers.entries[i].1) nI).2
    B'.Current reading ∧ B'.resolver.nonceEntries = B.resolver.nonceEntries + 1 := by
  dsimp only
  rcases hS with rfl | rfl
  · obtain ⟨r, r', log, hr, hstep, -, hsettings, hnonces⟩ := honest_clockScan hinj h hi hfresh
    rw [Current, hr] at hcurrent
    rw [Fresh, hr] at hfresh
    obtain ⟨hcount, hempty⟩ := entryCount_acceptNonce B.log hcurrent hfresh
    rw [hstep, Current, Resolver.nonceEntries, hr, Resolver.nonceEntries]
    dsimp only
    rw [hsettings, hnonces]
    exact ⟨hempty, hcount⟩
  · obtain ⟨r, r', log, hr, hstep, -, -, -, hsettings, hnonces⟩ :=
      honest_clockTable hinj h hi hfresh
    rw [Current, hr] at hcurrent
    rw [Fresh, hr] at hfresh
    obtain ⟨hcount, hempty⟩ := entryCount_acceptNonce B.log hcurrent hfresh
    rw [hstep, Current, Resolver.nonceEntries, hr, Resolver.nonceEntries]
    dsimp only
    rw [hsettings, hnonces]
    exact ⟨hempty, hcount⟩

/-- In a steady state, the mean of the honest samples over all peers is the closed form. -/
theorem Steady.honest_mean (hinj : PseudonymsInjective C peers) (h : B.Steady C peers s reading S)
    (nonces : String → Bytes) (hfresh : ∀ p ∈ peers.keys, B.Fresh reading p (nonces p)) :
    ∃ cost : String × Lam → ℕ,
      (∀ q ∈ peers.entries,
        (B.honest C peers reading q.1 (B.epochOf reading q.1) (nonces q.1)).1 = some (cost q)) ∧
      ((peers.entries.map cost).sum : ℚ) / peers.size = (s.closed S peers.size).honest := by
  have hcost : ∀ i (hi : i < peers.entries.length), (B.honest C peers reading peers.entries[i].1
      (B.epochOf reading peers.entries[i].1) (nonces peers.entries[i].1)).1 =
        some (i * S.width s + S.place s) := by
    intro i hi
    obtain ⟨B', hstep, -⟩ := h.honest hinj hi (hfresh _ (get_entry hi).2)
    rw [hstep]
  refine ⟨fun q => ((B.honest C peers reading q.1 (B.epochOf reading q.1)
      (nonces q.1)).1).getD 0,
    fun q hq => ?_, ?_⟩
  · obtain ⟨i, hi, rfl⟩ := List.getElem_of_mem hq
    dsimp only
    rw [hcost i hi, Option.getD_some]
  · by_cases hpeers : peers.entries = []
    · rw [Dict.size, hpeers, List.length_nil, Strategy.closed_zero]
      simp
    · have hsize : peers.size ≠ 0 := fun hzero => hpeers (List.length_eq_zero_iff.mp hzero)
      rw [Strategy.honest_closed s S hsize]
      refine Scan.mean_of_places (fun i hi => ?_) hpeers
      rw [hcost i hi, Option.getD_some]

/-- A sample in which the pseudonym is unknown. -/
lemma forged_eq {x : Exc} {r : Resolver}
    (hres : B.resolver.resetCounters.resolve C peers B.log reading pid = (.error x, r))
    (hkind : x.kind = .unknownPeerError) :
    B.forged C peers reading pid = (some r.count.probes, { B with resolver := r }) := by
  rw [forged, hres]
  dsimp only
  rw [if_pos hkind]

/-- A forged sample of the linear scan. -/
lemma forged_linearScan (h : B.Steady C peers s reading .o1)
    (hunknown : ∀ p e, ¬ Names C peers pid p e) :
    ∃ B', B.forged C peers reading pid = (some (peers.size * s.w1), B') ∧
      B'.Steady C peers s reading .o1 := by
  obtain ⟨hlog, hforward, r, hr⟩ := h
  have hkeys : ∀ q ∈ peers.entries, q.1 ∈ peers.keys := fun q hq => List.mem_map_of_mem hq
  have hcount := count_probePeers C B.log.epochSearchWindow pid
    (fun q hq => hlog.window_range hforward (hkeys q hq)) {}
  rw [examined_of_unknown (fun q hq => hlog.length_window hforward (hkeys q hq))
    fun p e hnames => absurd hnames (hunknown p e)] at hcount
  let t : LinearScan := {}
  obtain ⟨x, hx, hkind⟩ := t.resolve_unknown hunknown fun p hp => hlog.window_range hforward hp
  have hstep : B.resolver.resetCounters.resolve C peers B.log reading pid =
      (.error x, .linearScan (t.resolve C peers B.log pid).2) := by
    rw [hr, ← hx]
    rfl
  refine ⟨{ B with resolver := .linearScan (t.resolve C peers B.log pid).2 }, ?_, hlog,
    hforward, (t.resolve C peers B.log pid).2, rfl⟩
  rw [forged_eq hstep hkind, Resolver.count, LinearScan.count_resolve, hcount,
    Probes.probes_spend]

/-- A forged sample of the table of counter epochs. -/
lemma forged_counterTable (h : B.Steady C peers s reading .o2)
    (hunknown : ∀ p e, ¬ Names C peers pid p e) :
    ∃ B', B.forged C peers reading pid = (some 0, B') ∧ B'.Steady C peers s reading .o2 := by
  obtain ⟨hlog, r, hr, hforward, hexact⟩ := h
  let t : CounterTable := { r with count := {} }
  have ht : t.Exact C peers B.log := ⟨hexact.tabled, hexact.hi_eq⟩
  obtain ⟨x, hx, hkind⟩ := ht.resolve_unknown hunknown
  have hstep : B.resolver.resetCounters.resolve C peers B.log reading pid =
      (.error x, .counterTable t) := by
    rw [hr, ← hx]
    rfl
  exact ⟨_, forged_eq hstep hkind, hlog, t, rfl, hforward, ht⟩

/-- A forged sample of the scan of clock epochs. -/
lemma forged_clockScan (h : B.Steady C peers s reading .o3)
    (hunknown : ∀ p e, ¬ Names C peers pid p e) :
    ∃ B', B.forged C peers reading pid = (some (peers.size * s.wt), B') ∧
      B'.Steady C peers s reading .o3 := by
  obtain ⟨r, hr, hclock⟩ := h
  have hrange := ClockSettings.window_range hclock.readable
  have hcount := count_probePeers C (fun _ => r.settings.window reading) pid
    (fun q (_ : q ∈ peers.entries) => hrange) {}
  rw [examined_of_unknown (fun _ _ => hclock.length_window)
    fun p e hnames => absurd hnames (hunknown p e)] at hcount
  let t : ClockScan := { r with count := {} }
  obtain ⟨x, hx, hkind⟩ := t.resolve_unknown hunknown hrange
  have hstep : B.resolver.resetCounters.resolve C peers B.log reading pid =
      (.error x, .clockScan (t.resolve C peers reading pid).2) := by
    rw [hr, ← hx]
    rfl
  have hsettings : (t.resolve C peers reading pid).2.settings = r.settings :=
    ClockScan.resolve_frame.1
  refine ⟨{ B with resolver := .clockScan (t.resolve C peers reading pid).2 }, ?_,
    (t.resolve C peers reading pid).2, rfl, hsettings ▸ hclock⟩
  rw [forged_eq hstep hkind, Resolver.count, ClockScan.count_resolve, hcount,
    Probes.probes_spend]

/-- A forged sample of the table of clock epochs. -/
lemma forged_clockTable (hinj : PseudonymsInjective C peers) (h : B.Steady C peers s reading .o4)
    (hunknown : ∀ p e, ¬ Names C peers pid p e) :
    ∃ B', B.forged C peers reading pid = (some 0, B') ∧ B'.Steady C peers s reading .o4 := by
  obtain ⟨r, hr, hclock, hexact, htabled⟩ := h
  have hrange := ClockSettings.window_range hclock.readable
  let t : ClockTable := { r with count := {} }
  have ht : t.Exact C peers := hexact
  obtain ⟨x, hx, hkind⟩ :=
    t.resolve_unknown hunknown (fun pid v hv => ((ht pid v).mp hv).1) hrange
  have hstep : B.resolver.resetCounters.resolve C peers B.log reading pid =
      (.error x, .clockTable (t.resolve C peers reading pid).2) := by
    rw [hr, ← hx]
    rfl
  have hsettings : (t.resolve C peers reading pid).2.settings = r.settings :=
    ClockTable.resolve_frame.1
  obtain ⟨hexact', htabled'⟩ := ht.resolve hinj hrange pid
  refine ⟨{ B with resolver := .clockTable (t.resolve C peers reading pid).2 }, ?_,
    (t.resolve C peers reading pid).2, rfl, hsettings ▸ hclock, hexact',
    htabled'.trans (by rw [hsettings])⟩
  rw [forged_eq hstep hkind, Resolver.count, t.count_within C peers htabled hrange pid]
  rfl

/-- In a steady state, a pseudonym that no peer has costs the closed form, and the state after it is
steady. -/
theorem Steady.forged (hinj : PseudonymsInjective C peers) (h : B.Steady C peers s reading S)
    (hunknown : ∀ p e, ¬ Names C peers pid p e) :
    ∃ B', B.forged C peers reading pid = (some (s.closed S peers.size).forged, B') ∧
      B'.Steady C peers s reading S := by
  rw [Strategy.forged_closed]
  cases S with
  | o1 => exact forged_linearScan h hunknown
  | o2 => exact forged_counterTable h hunknown
  | o3 => exact forged_clockScan h hunknown
  | o4 => exact forged_clockTable hinj h hunknown
  | cr => exact h.elim

/-- In a steady state, what is stored is the same for every peer, and one entry for every nonce that
is remembered. -/
lemma Steady.storage (h : B.Steady C peers s reading S) :
    B.resolver.storageBytes peers =
      S.peerBytes s * peers.size + nonceCacheEntryBytes * B.resolver.nonceEntries := by
  cases S with
  | o1 =>
    obtain ⟨hlog, -, r, hr⟩ := h
    rw [hr]
    rfl
  | o2 =>
    obtain ⟨hlog, r, hr, hwidth, hexact⟩ := h
    have hsize : r.table.size = peers.size * s.forward := by
      refine size_windows C (fun p => pyRange (B.log.last p + 1) (B.log.last p + s.forward + 1))
        (fun p hp => ⟨nodup_pyRange _ _, ?_, fun e he => ?_⟩) ?_
      · rw [length_pyRange]
        omega
      · have hlast := hlog.last p hp
        rw [mem_pyRange] at he
        omega
      · refine Dict.Represents.congr hexact.tabled fun pid v => and_congr_right fun hnames => ?_
        obtain ⟨lam, hlam, -⟩ := hnames
        rw [hexact.top_eq (Dict.mem_keys_iff.mpr ⟨lam, hlam⟩), hwidth, mem_pyRange]
        omega
    rw [hr, Resolver.storageBytes, hsize, Resolver.nonceEntries, Strategy.peerBytes]
    ring
  | o3 =>
    obtain ⟨r, hr, -⟩ := h
    rw [hr, Strategy.peerBytes, Nat.zero_mul, Nat.zero_add]
    rfl
  | o4 =>
    obtain ⟨r, hr, hclock, hexact, htabled⟩ := h
    have hsize : r.table.size = peers.size * s.wt := by
      refine size_windows C (fun _ => r.settings.window reading) (fun p _ =>
        ⟨hclock.nodup_window, hclock.length_window, ClockSettings.window_range hclock.readable⟩) ?_
      apply Dict.Represents.congr hexact
      intro pid v
      rw [htabled, List.mem_toFinset]
    rw [hr, Resolver.storageBytes, hsize, Resolver.nonceEntries, Strategy.peerBytes]
    ring
  | cr => exact h.elim

/-- With counter epochs, no nonces are remembered, and what is stored is the closed form. -/
lemma Steady.storage_counter (h : B.Steady C peers s reading S) (hS : S = .o1 ∨ S = .o2) :
    B.resolver.storageBytes peers = (s.closed S peers.size).stateBytes := by
  have hcounter : B.resolver.nonceEntries = 0 ∧ S.peerBytes s = S.stateBytes s := by
    rcases hS with rfl | rfl
    · obtain ⟨-, -, r, hr⟩ := h
      rw [hr]
      exact ⟨rfl, rfl⟩
    · obtain ⟨-, r, hr, -⟩ := h
      rw [hr]
      exact ⟨rfl, rfl⟩
  rw [h.storage, hcounter.1, hcounter.2, Nat.mul_zero, Nat.add_zero, Strategy.stateBytes_closed]

/-- When the clock enters the next epoch, the table of clock epochs adds one pair for each peer,
which is the closed form, and is steady again. -/
theorem Steady.next_epoch (hinj : PseudonymsInjective C peers) (h : B.Steady C peers s reading .o4)
    {reading' : ℚ} {r : ClockTable} (hr : B.resolver = .clockTable r)
    (hreadable : r.settings.Readable reading')
    (hnext : r.settings.currentEpoch reading' = r.settings.currentEpoch reading + 1) (pid : Bytes) :
    ∃ x t, B.resolver.resetCounters.resolve C peers B.log reading' pid = (x, .clockTable t) ∧
      t.count = { precomputeProbes := (s.closed .o4 peers.size).perEpoch } ∧
      Bench.Steady C peers s reading' .o4 { B with resolver := .clockTable t } := by
  obtain ⟨r', hr', hclock, hexact, htabled⟩ := h
  obtain rfl : r' = r := by
    rw [hr] at hr'
    injection hr' with hr'
    exact hr'.symm
  have hcomplete := hclock.complete
  have hclock' : r'.settings.Steady s reading' := ⟨hclock.drift, hreadable, by omega⟩
  have hrange := ClockSettings.window_range hreadable
  -- the only epoch that is new is the last one of the window
  have hadded : ((r'.settings.window reading').filter fun e => e ∉ r'.tabled).length = 1 := by
    have hset : ((r'.settings.window reading').filter fun e => e ∉ r'.tabled).toFinset =
        {r'.settings.currentEpoch reading' + s.drift} := by
      ext e
      have hdrift := hclock.drift
      simp only [List.mem_toFinset, List.mem_filter, htabled, decide_eq_true_eq,
        Finset.mem_singleton, ClockSettings.mem_window_of_nonneg hreadable.1,
        ClockSettings.mem_window_of_nonneg hclock.readable.1]
      omega
    rw [← List.toFinset_card_of_nodup (hclock'.nodup_window.filter _), hset, Finset.card_singleton]
  let t : ClockTable := { r' with count := {} }
  have ht : t.Exact C peers := hexact
  have hcount : (t.resolve C peers reading' pid).2.count =
      ({} : Probes).spend true (1 * peers.size) := by
    rw [← hadded, ← ClockTable.length_newPairs]
    exact ClockTable.count_resolve C peers (r := t) hrange pid
  have hsettings : (t.resolve C peers reading' pid).2.settings = r'.settings :=
    ClockTable.resolve_frame.1
  obtain ⟨hexact', htabled'⟩ := ht.resolve hinj hrange pid
  refine ⟨(t.resolve C peers reading' pid).1, (t.resolve C peers reading' pid).2, ?_, ?_,
    (t.resolve C peers reading' pid).2, rfl, hsettings ▸ hclock', hexact',
    htabled'.trans (by rw [hsettings])⟩
  · rw [hr]
    rfl
  · rw [hcount, Nat.one_mul, Probes.spend, if_pos rfl, Nat.zero_add]
    congr 1
    unfold CostSettings.closed
    split_ifs with hzero
    · exact hzero
    · rfl

/-! ## Every run -/

/-- One honest sample of a peer with a nonce. -/
def step (C : Crypto) (peers : Dict String Lam) (reading : ℚ) (B : Bench) (x : String × Bytes) :
    Option ℕ × Bench :=
  B.honest C peers reading x.1 (B.epochOf reading x.1) x.2

/-- The premises about a sample: an enrolled peer, a fresh nonce and a next window of 64 bits. -/
def Permits (peers : Dict String Lam) (s : CostSettings) (reading : ℚ) (B : Bench)
    (x : String × Bytes) : Prop :=
  x.1 ∈ peers.keys ∧ B.Fresh reading x.1 x.2 ∧ B.Fits s x.1

/-- A resolver that is attached to a log with complete windows is in a steady state. -/
theorem steady_attach (hinj : PseudonymsInjective C peers) {log : SessionLog}
    (hlog : SteadyLog s peers log) (hforward : log.forwardTolerance = s.forward)
    {c : ClockSettings} (hclock : c.Steady s reading) :
    Bench.Steady C peers s reading .o1 ⟨.linearScan {}, log⟩ ∧
    Bench.Steady C peers s reading .o2
      ⟨((Resolver.counterTable {}).attach C peers log reading).2, log⟩ ∧
    Bench.Steady C peers s reading .o3 ⟨.clockScan { settings := c }, log⟩ ∧
    Bench.Steady C peers s reading .o4
      ⟨((Resolver.clockTable { settings := c }).attach C peers log reading).2, log⟩ := by
  have hrange := ClockSettings.window_range hclock.readable
  refine ⟨⟨hlog, hforward, _, rfl⟩, ?_, ⟨_, rfl, hclock⟩, ?_⟩
  · have hfit : ∀ p ∈ peers.keys, log.last p + ({} : CounterTable).forward log < 2 ^ 64 := by
      intro p hp
      obtain ⟨-, hlast⟩ := hlog.last p hp
      rw [CounterTable.forward, Option.getD_none, hforward]
      omega
    obtain ⟨-, hexact, hnone⟩ := CounterTable.exact_attach hinj {} hfit
    have hown : (CounterTable.attach C peers log {}).2.forward log = s.forward := by
      rw [CounterTable.forward, hnone]
      exact hforward
    exact ⟨hlog, _, rfl, hown, hexact⟩
  · have hempty : ClockTable.Exact C peers { settings := c } :=
      Dict.represents_empty.congr fun pid v => by simp
    obtain ⟨-, hexact, htabled⟩ := hempty.advance hinj hrange
    have hsettings : (ClockTable.advance C peers { settings := c } reading).2.settings = c :=
      ClockTable.advance_frame.1
    refine ⟨(ClockTable.advance C peers { settings := c } reading).2, rfl, ?_, hexact, ?_⟩
    · rw [hsettings]
      exact hclock
    · rw [hsettings]
      exact htabled

/-- A permitted sample keeps the state steady. -/
theorem Steady.step (hinj : PseudonymsInjective C peers) (h : B.Steady C peers s reading S)
    {x : String × Bytes} (hx : B.Permits peers s reading x) :
    (B.step C peers reading x).2.Steady C peers s reading S := by
  obtain ⟨hp, hfresh, hfits⟩ := hx
  obtain ⟨q, hq, hpeer⟩ := List.mem_map.mp hp
  obtain ⟨i, hi, rfl⟩ := List.getElem_of_mem hq
  rw [← hpeer] at hfresh hfits
  obtain ⟨B', hstep, hnext⟩ := h.honest hinj hi hfresh
  rw [Bench.step, ← hpeer, hstep]
  exact hnext hfits

/-- With clock epochs, a run of honest samples remembers one nonce for each of them. -/
lemma Steady.nonceEntries_of_run (hinj : PseudonymsInjective C peers)
    (h : B.Steady C peers s reading S) (hS : S = .o3 ∨ S = .o4) (hcurrent : B.Current reading)
    {samples : List (String × Bytes)}
    (hrun : Machine.AllSteps (Bench.step C peers reading) (Bench.Permits peers s reading)
      B samples) :
    (Machine.final (Bench.step C peers reading) B samples).resolver.nonceEntries =
      B.resolver.nonceEntries + samples.length := by
  induction samples generalizing B with
  | nil => rfl
  | cons x samples ih =>
    obtain ⟨⟨hp, hfresh, hfits⟩, hrest⟩ := hrun
    obtain ⟨q, hq, hpeer⟩ := List.mem_map.mp hp
    obtain ⟨i, hi, rfl⟩ := List.getElem_of_mem hq
    have hnext := h.step hinj ⟨hp, hfresh, hfits⟩
    rw [← hpeer] at hfresh
    obtain ⟨hcurrent', hcount⟩ := h.nonceEntries_honest hinj hS hcurrent hi hfresh
    rw [hpeer] at hcurrent' hcount
    have hrec := ih hnext hcurrent' hrest
    rw [Machine.final, List.foldl_cons, ← Machine.final, hrec, List.length_cons, Bench.step, hcount]
    omega

/-- A resolver that remembers no nonces remembers none for an epoch that has left the window. -/
lemma current_of_nonceEntries_eq_zero (h : B.resolver.nonceEntries = 0) : B.Current reading := by
  unfold Current
  rcases hr : B.resolver with r | r | r | r | T
  · trivial
  · trivial
  · rw [hr] at h
    intro e _
    exact NonceCache.seen_of_entryCount_eq_zero h e
  · rw [hr] at h
    intro e _
    exact NonceCache.seen_of_entryCount_eq_zero h e
  · trivial

/-- Every state that a run of honest samples reaches from a steady one is steady, and the closed
forms hold there: of the mean over all peers for honest samples, of forged samples, of what is
stored with counter epochs, and, for a table of clock epochs, of the next epoch.  With clock epochs,
the nonce of every sample is stored, where the closed form charges one nonce for every peer, and the
table besides. -/
theorem closed_forms_of_run (hinj : PseudonymsInjective C peers) (h : B.Steady C peers s reading S)
    {samples : List (String × Bytes)}
    (hrun : Machine.AllSteps (Bench.step C peers reading) (Bench.Permits peers s reading)
      B samples) :
    let B' := Machine.final (Bench.step C peers reading) B samples
    B'.Steady C peers s reading S ∧
    (∀ nI, (∀ p ∈ peers.keys, B'.Fresh reading p nI) → ∃ cost : String × Lam → ℕ,
      (∀ q ∈ peers.entries,
        (B'.honest C peers reading q.1 (B'.epochOf reading q.1) nI).1 = some (cost q)) ∧
      ((peers.entries.map cost).sum : ℚ) / peers.size = (s.closed S peers.size).honest) ∧
    (∀ pid, (∀ p e, ¬ Names C peers pid p e) →
      (B'.forged C peers reading pid).1 = some (s.closed S peers.size).forged) ∧
    (S = .o1 ∨ S = .o2 → B'.resolver.storageBytes peers = (s.closed S peers.size).stateBytes) ∧
    (S = .o3 → B.resolver.nonceEntries = 0 →
      B'.resolver.storageBytes peers = nonceCacheEntryBytes * samples.length) ∧
    (S = .o4 → B.resolver.nonceEntries = 0 → B'.resolver.storageBytes peers =
      tableEntryBytes * s.wt * peers.size + nonceCacheEntryBytes * samples.length) ∧
    (S = .o4 → ∀ r reading' pid, B'.resolver = .clockTable r → r.settings.Readable reading' →
      r.settings.currentEpoch reading' = r.settings.currentEpoch reading + 1 →
      (B'.resolver.resetCounters.resolve C peers B'.log reading' pid).2.count =
        { precomputeProbes := (s.closed S peers.size).perEpoch }) := by
  intro B'
  have hstep : ∀ (B : Bench) x, B.Steady C peers s reading S → B.Permits peers s reading x →
      (B.step C peers reading x).2.Steady C peers s reading S := fun _ _ hB hx => hB.step hinj hx
  have hsteady : B'.Steady C peers s reading S := Machine.invariant_final hstep h hrun
  -- with clock epochs, one nonce is remembered for each sample
  have hstorage (hS : S = .o3 ∨ S = .o4) (hzero : B.resolver.nonceEntries = 0) :
      B'.resolver.storageBytes peers =
        S.peerBytes s * peers.size + nonceCacheEntryBytes * samples.length := by
    have hcount := h.nonceEntries_of_run hinj hS (current_of_nonceEntries_eq_zero hzero) hrun
    rw [hzero, Nat.zero_add] at hcount
    rw [hsteady.storage, hcount]
  refine ⟨hsteady, fun nI hfresh => hsteady.honest_mean hinj (fun _ => nI) hfresh, ?_,
    hsteady.storage_counter, ?_, ?_, ?_⟩
  · intro pid hunknown
    obtain ⟨B'', hstep, -⟩ := hsteady.forged hinj hunknown
    rw [hstep]
  · rintro rfl hzero
    rw [hstorage (Or.inl rfl) hzero, Strategy.peerBytes, Nat.zero_mul, Nat.zero_add]
  · rintro rfl hzero
    exact hstorage (Or.inr rfl) hzero
  · rintro rfl r reading' pid hr hreadable hnext
    obtain ⟨x, t, hstep, hcount, -⟩ := hsteady.next_epoch hinj hr hreadable hnext pid
    rw [hstep]
    exact hcount

/-- The closed forms of the linear scan, for the sample server with its one device; and two samples
with clock epochs, which store two nonces. -/
theorem closed_forms_of_run_serverA :
    (let B : Bench := ⟨.linearScan {}, ({} : SessionLog).acceptEpoch "device-1" 100⟩
    let B' := Machine.final (Bench.step .plain serverA.peerSecrets 0) B [("device-1", [])]
    B'.resolver.storageBytes serverA.peerSecrets = 8 ∧
      ∃ cost : String × Lam → ℕ, (∀ q ∈ serverA.peerSecrets.entries,
        (B'.honest .plain serverA.peerSecrets 0 q.1 (B'.epochOf 0 q.1) []).1 = some (cost q)) ∧
      ((serverA.peerSecrets.entries.map cost).sum : ℚ) / serverA.peerSecrets.size = 18) ∧
    (Machine.final (Bench.step .plain serverA.peerSecrets 60) ⟨.clockScan { settings := {} }, {}⟩
      [("device-1", []), ("device-1", [0])]).resolver.storageBytes serverA.peerSecrets = 48 := by
  constructor
  · intro B B'
    have hlog : SteadyLog {} serverA.peerSecrets B.log := by
      refine ⟨by decide, rfl, fun p hp => ?_⟩
      obtain rfl : p = "device-1" := List.mem_singleton.mp hp
      decide +kernel
    have hsteady : B.Steady .plain serverA.peerSecrets {} 0 .o1 := ⟨hlog, rfl, {}, rfl⟩
    have hrun : Machine.AllSteps (Bench.step .plain serverA.peerSecrets 0)
        (Bench.Permits serverA.peerSecrets {} 0) B [("device-1", [])] :=
      ⟨⟨by decide, trivial, fun _ => by decide +kernel⟩, trivial⟩
    obtain ⟨⟨-, -, r, hr⟩, hmean, -, hstorage, -⟩ :=
      closed_forms_of_run pseudonymsInjective_serverA hsteady hrun
    have hresolver : B'.resolver = .linearScan r := hr
    obtain ⟨cost, hcost, hmean⟩ := hmean [] fun p _ => by
      show B'.Fresh 0 p []
      rw [Bench.Fresh, hresolver]
      trivial
    refine ⟨hstorage (Or.inl rfl), cost, hcost, hmean.trans ?_⟩
    show (({} : CostSettings).closed .o1 1).honest = 18
    norm_num [CostSettings.closed]
  · have hclock : ({ settings := {} } : ClockScan).settings.Steady {} 60 :=
      ⟨rfl, ⟨by norm_num, by decide +kernel⟩, by decide +kernel⟩
    have hsteady : Bench.Steady .plain serverA.peerSecrets {} 60 .o3
        ⟨.clockScan { settings := {} }, {}⟩ := ⟨_, rfl, hclock⟩
    have hmem : "device-1" ∈ serverA.peerSecrets.keys := by decide
    have hfits : ∀ B : Bench, ¬ B.resolver.IsCounter → B.Fits {} "device-1" :=
      fun _ hcounter hB => absurd hB hcounter
    have hsecond : (Bench.step .plain serverA.peerSecrets 60 ⟨.clockScan { settings := {} }, {}⟩
        ("device-1", [])).2.Fresh 60 "device-1" [0] := by
      decide +kernel
    have hfirst : Bench.Permits serverA.peerSecrets {} 60 ⟨.clockScan { settings := {} }, {}⟩
        ("device-1", []) := ⟨hmem, by decide +kernel, hfits _ not_false⟩
    obtain ⟨r, hr, -⟩ := hsteady.step pseudonymsInjective_serverA hfirst
    have hrun : Machine.AllSteps (Bench.step .plain serverA.peerSecrets 60)
        (Bench.Permits serverA.peerSecrets {} 60) ⟨.clockScan { settings := {} }, {}⟩
        [("device-1", []), ("device-1", [0])] :=
      ⟨hfirst, ⟨hmem, hsecond, hfits _ (by rw [hr]; exact not_false)⟩, trivial⟩
    obtain ⟨-, -, -, -, hstorage, -⟩ :=
      closed_forms_of_run pseudonymsInjective_serverA hsteady hrun
    exact hstorage rfl rfl

end Bench

/-! ## The randomized hash lock -/

namespace RandomizedHashLock

variable {C : Crypto} {L : RandomizedHashLock} {r tag : Bytes}

/-- Trying keys counts what it examines. -/
lemma probeKeys_eq (keys : List (String × Bytes)) (n : ℕ) : probeKeys C r tag keys n =
    ((keys.find? fun q => keyedHash C q.2 r = tag).map Prod.fst,
      n + examined (fun q => keyedHash C q.2 r = tag) keys) := by
  induction keys generalizing n with
  | nil => rfl
  | cons q keys ih =>
    rw [probeKeys, examined, List.find?_cons]
    by_cases hq : keyedHash C q.2 r = tag
    · rw [if_pos hq, if_pos hq, decide_eq_true hq]
      rfl
    · rw [if_neg hq, if_neg hq, decide_eq_false hq, ih, Nat.add_assoc]

/-- When no two keys have the same hash of the fresh value, a message of the peer with number `i` is
resolved to it after as many keys as stand before its own, and that one. -/
lemma probeKeys_honest (L : RandomizedHashLock) {fresh : Bytes}
    (hinj : ∀ p p' key key', L.keys.get p = some key → L.keys.get p' = some key' →
      keyedHash C key fresh = keyedHash C key' fresh → p = p') {i : ℕ}
    (hi : i < L.keys.entries.length) :
    probeKeys C fresh (keyedHash C L.keys.entries[i].2 fresh) L.keys.entries L.probes =
      (some L.keys.entries[i].1, L.probes + (i + 1)) := by
  have hsplit : L.keys.entries =
      L.keys.entries.take i ++ L.keys.entries[i] :: L.keys.entries.drop (i + 1) := by
    rw [← List.drop_eq_getElem_cons hi, List.take_append_drop]
  have hbefore : ∀ q ∈ L.keys.entries.take i,
      ¬ keyedHash C q.2 fresh =
      keyedHash C L.keys.entries[i].2 fresh := by
    intro q hq heq
    obtain ⟨k, hk, rfl⟩ := List.getElem_of_mem hq
    rw [List.length_take, lt_min_iff] at hk
    rw [List.getElem_take] at heq
    have hdistinct := List.pairwise_iff_getElem.mp (List.pairwise_map.mp L.keys.nodup)
    exact hdistinct k i hk.2 hi hk.1
      (hinj _ _ _ _ (Dict.mem_entries_iff.mp (List.getElem_mem hk.2))
      (Dict.mem_entries_iff.mp (List.getElem_mem hi)) heq)
  have hnone : (L.keys.entries.take i).find? (fun q => keyedHash C q.2 fresh =
      keyedHash C L.keys.entries[i].2 fresh) = none := by
    rw [List.find?_eq_none]
    intro q hq
    exact by simpa using hbefore q hq
  rw [probeKeys_eq]
  generalize hkeys : L.keys.entries[i] = q at hsplit hbefore hnone ⊢
  rw [hsplit, List.find?_append, hnone, Option.none_or, List.find?_cons_of_pos (by simp),
    Scan.examined_append_cons hbefore rfl, List.length_take, min_eq_left (le_of_lt hi)]
  rfl

/-- The mean of what messages of the devices cost is the closed form. -/
lemma honest_mean (L : RandomizedHashLock) (s : CostSettings) (rnd : String → Urandom)
    (hinj : ∀ device p p' key key', L.keys.get p = some key → L.keys.get p' = some key' →
      keyedHash C key ((rnd device).draw rBytes) = keyedHash C key' ((rnd device).draw rBytes) →
        p = p') :
    ((L.keys.entries.map fun q => (resolve C L (deviceMessage C q.2 (rnd q.1)).1
      (deviceMessage C q.2 (rnd q.1)).2).2.probes - L.probes).sum : ℚ) / L.keys.size =
      (s.closed .cr L.keys.size).honest := by
  by_cases hkeys : L.keys.entries = []
  · rw [Dict.size, hkeys, List.length_nil, Strategy.closed_zero]
    simp
  · have hsize : L.keys.size ≠ 0 := fun hzero => hkeys (List.length_eq_zero_iff.mp hzero)
    rw [Strategy.honest_closed s .cr hsize]
    refine Scan.mean_of_places (fun i hi => ?_) hkeys
    show (resolve C L ((rnd L.keys.entries[i].1).draw rBytes) (keyedHash C L.keys.entries[i].2
      ((rnd L.keys.entries[i].1).draw rBytes))).2.probes - L.probes = _
    rw [resolve, probeKeys_honest L (hinj L.keys.entries[i].1) hi]
    dsimp only
    rw [Nat.add_sub_cancel_left, Strategy.width, Strategy.place, Nat.mul_one]

/-- A tag that no key gives costs the closed form. -/
lemma resolve_forged (L : RandomizedHashLock) (s : CostSettings) {r tag : Bytes}
    (htag : ∀ p key, L.keys.get p = some key → keyedHash C key r ≠ tag) :
    resolve C L r tag =
      (none, { L with probes := L.probes + (s.closed .cr L.keys.size).forged }) := by
  have hnone : ∀ q ∈ L.keys.entries, ¬ keyedHash C q.2 r = tag := fun q hq =>
    htag q.1 q.2 (Dict.mem_entries_iff.mp hq)
  have hfind : L.keys.entries.find? (fun q => keyedHash C q.2 r = tag) = none := by
    rw [List.find?_eq_none]
    intro q hq
    exact by simpa using hnone q hq
  rw [Strategy.forged_closed, Strategy.width, Nat.mul_one, resolve, probeKeys_eq, hfind,
    Scan.examined_of_none hnone]
  rfl

/-- When no two keys have the same hash of the fresh value, every message of a device is resolved to
it, the mean of what this costs over all peers is the closed form, and so are what a tag of no peer
costs, the storage and what is added to a request. -/
theorem closed_forms (L : RandomizedHashLock) (s : CostSettings) (rnd : Urandom)
    (hinj : ∀ p p' key key', L.keys.get p = some key → L.keys.get p' = some key' →
      keyedHash C key (rnd.draw rBytes) = keyedHash C key' (rnd.draw rBytes) → p = p') :
    let cost (q : String × Bytes) : ℕ :=
      (resolve C L (deviceMessage C q.2 rnd).1 (deviceMessage C q.2 rnd).2).2.probes - L.probes
    (∀ q ∈ L.keys.entries,
      (resolve C L (deviceMessage C q.2 rnd).1 (deviceMessage C q.2 rnd).2).1 = some q.1) ∧
    ((L.keys.entries.map cost).sum : ℚ) / L.keys.size = (s.closed .cr L.keys.size).honest ∧
    (∀ r tag, (∀ p key, L.keys.get p = some key → keyedHash C key r ≠ tag) →
      resolve C L r tag =
        (none, { L with probes := L.probes + (s.closed .cr L.keys.size).forged })) ∧
    L.storageBytes = (s.closed .cr L.keys.size).stateBytes ∧
    (L.keys.size ≠ 0 →
      8 * extraM1Bytes L.keys.size = (s.closed .cr L.keys.size).extraM1Bits) := by
  intro cost
  refine ⟨?_, ?_, ?_, ?_, ?_⟩
  · intro q hq
    obtain ⟨i, hi, rfl⟩ := List.getElem_of_mem hq
    rw [resolve, deviceMessage, probeKeys_honest L hinj hi]
  · exact honest_mean L s (fun _ => rnd) fun _ => hinj
  · intro r tag htag
    exact resolve_forged L s htag
  · rw [Strategy.stateBytes_closed]
    exact (Nat.zero_mul _).symm
  · intro hsize
    unfold CostSettings.closed
    rw [if_neg hsize]
    rfl

/-- A lock with two keys. -/
def twoKeys : RandomizedHashLock where
  keys := (Dict.empty.set "a" (List.replicate 32 0)).set "b" (List.replicate 32 1)

/-- The closed forms of that lock: each of its peers is found, with one probe or two. -/
theorem closed_forms_twoKeys :
    (∀ q ∈ twoKeys.keys.entries, (resolve .plain twoKeys (deviceMessage .plain q.2 .zeros).1
      (deviceMessage .plain q.2 .zeros).2).1 = some q.1) ∧
    ((twoKeys.keys.entries.map fun q => (resolve .plain twoKeys (deviceMessage .plain q.2 .zeros).1
      (deviceMessage .plain q.2 .zeros).2).2.probes - twoKeys.probes).sum : ℚ) /
        twoKeys.keys.size = 3 / 2 := by
  have hdistinct : ∀ q ∈ twoKeys.keys.entries, ∀ q' ∈ twoKeys.keys.entries,
      keyedHash .plain q.2 (Urandom.zeros.draw rBytes) =
        keyedHash .plain q'.2 (Urandom.zeros.draw rBytes) → q.1 = q'.1 := by
    decide +kernel
  have hinj : ∀ p p' key key', twoKeys.keys.get p = some key → twoKeys.keys.get p' = some key' →
      keyedHash .plain key (Urandom.zeros.draw rBytes) =
        keyedHash .plain key' (Urandom.zeros.draw rBytes) → p = p' := fun p p' key key' hp hp' =>
    hdistinct (p, key) (Dict.mem_entries_iff.mpr hp) (p', key') (Dict.mem_entries_iff.mpr hp')
  obtain ⟨hfound, hmean, -⟩ := closed_forms twoKeys {} .zeros hinj
  refine ⟨hfound, hmean.trans ?_⟩
  show (({} : CostSettings).closed .cr 2).honest = 3 / 2
  norm_num [CostSettings.closed]

end RandomizedHashLock

end HybridEccAuth

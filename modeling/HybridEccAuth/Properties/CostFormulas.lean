import HybridEccAuth.Properties.CostModel

/-!
# The formulas of the cost model

What resolving costs, as formulas in the number of peers and the parameters of the windows: for
every state that honest samples reach from a steady one, at any readings of the clock
(`Bench.cost_formulas`).  Epochs have 64 bits, so a table of counter epochs whose last epoch
is reached has no next sample (`Bench.exhausted_table_has_no_sample`).
-/

namespace HybridEccAuth

variable {C : Crypto} {peers : Dict String Lam} {s : CostSettings}

/-- The closed forms of the means and of forged pseudonyms. -/
lemma CostSettings.closed_costs (s : CostSettings) {n : ℕ} (hn : n ≠ 0) :
    ((s.closed .o1 n).honest =
        ((n : ℚ) - 1) * (s.lookback + s.forward + 1) / 2 + (s.lookback + 2) ∧
      (s.closed .o1 n).forged = n * (s.lookback + s.forward + 1)) ∧
    ((s.closed .o2 n).honest = 1 ∧ (s.closed .o2 n).forged = 0) ∧
    ((s.closed .o3 n).honest = ((n : ℚ) - 1) * (2 * s.drift + 1) / 2 + 1 ∧
      (s.closed .o3 n).forged = n * (2 * s.drift + 1)) ∧
    ((s.closed .o4 n).honest = 0 ∧ (s.closed .o4 n).forged = 0) ∧
    (s.closed .cr n).honest = ((n : ℚ) + 1) / 2 ∧ (s.closed .cr n).forged = n := by
  have hw : (s.w1 : ℚ) = s.lookback + s.forward + 1 := by
    rw [w1]
    push_cast
    ring
  have ht : (s.wt : ℚ) = 2 * s.drift + 1 := by
    rw [wt]
    push_cast
    ring
  rw [← hw, ← ht]
  simp [closed, hn, w1, wt]

namespace Bench

/-! ## Samples at any time -/

/-- An honest sample: the reading of the clock, the peer and the nonce of its request. -/
structure Sample where
  reading : ℚ
  peer : String
  nI : Bytes

/-- One sample; the reading of the last one is kept. -/
def sample (C : Crypto) (peers : Dict String Lam) (q : ℚ × Bench) (x : Sample) :
    Option ℕ × (ℚ × Bench) :=
  let result := q.2.honest C peers x.reading x.peer (q.2.epochOf x.reading x.peer) x.nI
  (result.1, x.reading, result.2)

/-- The window of clock epochs at a reading is complete and has 64 bits. -/
def Timely (s : CostSettings) (reading : ℚ) (B : Bench) : Prop :=
  match B.resolver with
  | .linearScan _ | .counterTable _ | .timeMemory _ => True
  | .clockScan r => r.settings.Steady s reading
  | .clockTable r => r.settings.Steady s reading

/-- The premises about a sample: an enrolled peer, a fresh nonce and windows of 64 bits. -/
def Admits (peers : Dict String Lam) (s : CostSettings) (q : ℚ × Bench) (x : Sample) : Prop :=
  x.peer ∈ peers.keys ∧ q.2.Timely s x.reading ∧ q.2.Fresh x.reading x.peer x.nI ∧
    q.2.Fits s x.peer

/-- An honest sample is resolved and accepted, and the state after it is steady, at whatever reading
it comes. -/
theorem Steady.sample (hinj : PseudonymsInjective C peers) {q : ℚ × Bench} {S : Strategy}
    (h : q.2.Steady C peers s q.1 S) {x : Sample} (hx : Admits peers s q x) :
    (Bench.sample C peers q x).1 ≠ none ∧
      (Bench.sample C peers q x).2.2.Steady C peers s (Bench.sample C peers q x).2.1 S := by
  obtain ⟨hp, htimely, hfresh, hfits⟩ := hx
  obtain ⟨p, hq, hpeer⟩ := List.mem_map.mp hp
  obtain ⟨i, hi, rfl⟩ := List.getElem_of_mem hq
  rw [← hpeer] at hfresh hfits
  -- but for the table of clock epochs, the state is steady at the new reading already
  have hsteady (h' : q.2.Steady C peers s x.reading S) : (Bench.sample C peers q x).1 ≠ none ∧
      (Bench.sample C peers q x).2.2.Steady C peers s (Bench.sample C peers q x).2.1 S := by
    obtain ⟨B', hstep, hnext⟩ := h'.honest hinj hi hfresh
    rw [Bench.sample, ← hpeer, hstep]
    exact ⟨Option.some_ne_none _, hnext hfits⟩
  cases S with
  | o1 => exact hsteady h
  | o2 => exact hsteady h
  | o3 =>
    obtain ⟨r, hr, -⟩ := h
    rw [Timely, hr] at htimely
    exact hsteady ⟨r, hr, htimely⟩
  | o4 =>
    obtain ⟨r, hr, -, hexact, -⟩ := h
    rw [Timely, hr] at htimely
    obtain ⟨r', log, hstep, hclock, hexact', htabled, -⟩ :=
      honest_clockTable_at hinj hr htimely hexact hi hfresh
    rw [Bench.sample, ← hpeer, hstep]
    exact ⟨Option.some_ne_none _, r', rfl, hclock, hexact', htabled⟩
  | cr => exact h.elim

/-- A state that honest samples reach from a steady one, and the reading of the last sample. -/
def Reaches (C : Crypto) (peers : Dict String Lam) (s : CostSettings) (S : Strategy)
    (q : ℚ × Bench) : Prop :=
  ∃ q₀ samples, q₀.2.Steady C peers s q₀.1 S ∧
    Machine.AllSteps (Bench.sample C peers) (Admits peers s) q₀ samples ∧
    Machine.final (Bench.sample C peers) q₀ samples = q

/-- Every state that is reached is steady. -/
theorem Reaches.steady (hinj : PseudonymsInjective C peers) {q : ℚ × Bench} {S : Strategy}
    (h : Reaches C peers s S q) : q.2.Steady C peers s q.1 S := by
  obtain ⟨q₀, samples, hsteady, hsamples, rfl⟩ := h
  have hstep : ∀ (q : ℚ × Bench) x, q.2.Steady C peers s q.1 S → Admits peers s q x →
      (Bench.sample C peers q x).2.2.Steady C peers s (Bench.sample C peers q x).2.1 S :=
    fun _ _ hq hx => (hq.sample hinj hx).2
  exact Machine.invariant_final hstep hsteady hsamples

/-! ## The formulas -/

/-- What resolving costs in a state, at a reading of the clock: the mean of the probes for the next
honest pseudonym over all peers, each with a fresh nonce, and the probes for a pseudonym that no
peer has. -/
def Costs (C : Crypto) (peers : Dict String Lam) (q : ℚ × Bench) (honest : ℚ) (forged : ℕ) :
    Prop :=
  (∀ nonces : String → Bytes, (∀ p ∈ peers.keys, q.2.Fresh q.1 p (nonces p)) →
    ∃ cost : String × Lam → ℕ,
      (∀ p ∈ peers.entries,
        (q.2.honest C peers q.1 p.1 (q.2.epochOf q.1 p.1) (nonces p.1)).1 = some (cost p)) ∧
      ((peers.entries.map cost).sum : ℚ) / peers.size = honest) ∧
  ∀ pid, (∀ p e, ¬ Names C peers pid p e) → (q.2.forged C peers q.1 pid).1 = some forged

/-- In a steady state, the costs are the closed forms. -/
lemma Steady.costs (hinj : PseudonymsInjective C peers) {q : ℚ × Bench} {S : Strategy}
    (h : q.2.Steady C peers s q.1 S) :
    Costs C peers q (s.closed S peers.size).honest (s.closed S peers.size).forged := by
  refine ⟨fun nonces hfresh => h.honest_mean hinj nonces hfresh, fun pid hunknown => ?_⟩
  obtain ⟨B', hstep, -⟩ := h.forged hinj hunknown
  rw [hstep]

/-- What honest and forged pseudonyms of `n` peers cost in every state that honest samples reach
from a steady one, when windows have 64 bits: for linear scans and tables of counter and clock
epochs, with what is stored for counter epochs and what the next clock epoch costs; and for a
randomized hash lock with `n` keys.  The states are steady, and the costs are the closed forms
(`CostSettings.closed_costs`). -/
theorem cost_formulas (hinj : PseudonymsInjective C peers) (s : CostSettings) {n : ℕ}
    (hsize : peers.size = n) (hn : 1 ≤ n) :
    (∀ q, Reaches C peers s .o1 q → q.2.Steady C peers s q.1 .o1 ∧
      Costs C peers q (((n : ℚ) - 1) * (s.lookback + s.forward + 1) / 2 + (s.lookback + 2))
        (n * (s.lookback + s.forward + 1)) ∧
      q.2.resolver.storageBytes peers = 8 * n) ∧
    (∀ q, Reaches C peers s .o2 q → q.2.Steady C peers s q.1 .o2 ∧ Costs C peers q 1 0 ∧
      q.2.resolver.storageBytes peers = (40 * s.forward + 8) * n) ∧
    (∀ q, Reaches C peers s .o3 q → q.2.Steady C peers s q.1 .o3 ∧
      Costs C peers q (((n : ℚ) - 1) * (2 * s.drift + 1) / 2 + 1) (n * (2 * s.drift + 1))) ∧
    (∀ q, Reaches C peers s .o4 q → q.2.Steady C peers s q.1 .o4 ∧ Costs C peers q 0 0 ∧
      ∀ r reading pid, q.2.resolver = .clockTable r → r.settings.Readable reading →
        r.settings.currentEpoch reading = r.settings.currentEpoch q.1 + 1 →
        (q.2.resolver.resetCounters.resolve C peers q.2.log reading pid).2.count =
          { precomputeProbes := n }) ∧
    ∀ (L : RandomizedHashLock) (rnd : String → Urandom), L.keys.size = n →
      (∀ device p p' key key', L.keys.get p = some key → L.keys.get p' = some key' →
        keyedHash C key ((rnd device).draw rBytes) = keyedHash C key' ((rnd device).draw rBytes) →
          p = p') →
      ((L.keys.entries.map fun q =>
        (L.resolve C (RandomizedHashLock.deviceMessage C q.2 (rnd q.1)).1
          (RandomizedHashLock.deviceMessage C q.2 (rnd q.1)).2).2.probes - L.probes).sum : ℚ) / n =
        ((n : ℚ) + 1) / 2 ∧
      ∀ r tag, (∀ p key, L.keys.get p = some key → keyedHash C key r ≠ tag) →
        L.resolve C r tag = (none, { L with probes := L.probes + n }) := by
  obtain ⟨⟨h₁, f₁⟩, ⟨h₂, f₂⟩, ⟨h₃, f₃⟩, ⟨h₄, f₄⟩, h₅, f₅⟩ :=
    s.closed_costs (Nat.one_le_iff_ne_zero.mp hn)
  refine ⟨fun q hq => ?_, fun q hq => ?_, fun q hq => ?_, fun q hq => ?_,
    fun L rnd hkeys hdistinct => ?_⟩
  · have hsteady := hq.steady hinj
    have hcosts := hsteady.costs hinj
    have hstorage := hsteady.storage_counter (Or.inl rfl)
    rw [hsize, h₁, f₁] at hcosts
    rw [hsize, Strategy.stateBytes_closed] at hstorage
    exact ⟨hsteady, hcosts, hstorage⟩
  · have hsteady := hq.steady hinj
    have hcosts := hsteady.costs hinj
    have hstorage := hsteady.storage_counter (Or.inr rfl)
    rw [hsize, h₂, f₂] at hcosts
    rw [hsize, Strategy.stateBytes_closed] at hstorage
    exact ⟨hsteady, hcosts, hstorage⟩
  · have hsteady := hq.steady hinj
    have hcosts := hsteady.costs hinj
    rw [hsize, h₃, f₃] at hcosts
    exact ⟨hsteady, hcosts⟩
  · have hsteady := hq.steady hinj
    have hcosts := hsteady.costs hinj
    rw [hsize, h₄, f₄] at hcosts
    refine ⟨hsteady, hcosts, fun r reading pid hr hreadable hnext => ?_⟩
    obtain ⟨x, t, hstep, hcount, -⟩ := hsteady.next_epoch hinj hr hreadable hnext pid
    have hnew : (s.closed .o4 n).perEpoch = n :=
      congrArg ClosedForm.perEpoch (if_neg (Nat.one_le_iff_ne_zero.mp hn))
    rw [hstep]
    rw [hsize, hnew] at hcount
    exact hcount
  · have hmean := RandomizedHashLock.honest_mean L s rnd hdistinct
    rw [hkeys, h₅] at hmean
    refine ⟨hmean, fun r tag htag => ?_⟩
    rw [RandomizedHashLock.resolve_forged L s htag, hkeys, f₅]

/-- A log in which both devices are steady. -/
def steadyLog : SessionLog :=
  (({} : SessionLog).acceptEpoch "device-1" 100).acceptEpoch "device-2" 100

/-- The formulas for two peers: the costs of a linear scan after a sample, and of the next epoch for
a table of clock epochs. -/
theorem cost_formulas_twoPeers :
    (let q := Machine.final (Bench.sample .plain CounterTable.twoPeers)
      (0, ⟨.linearScan {}, steadyLog⟩) [⟨0, "device-1", []⟩]
    Costs .plain CounterTable.twoPeers q (61 / 2) 50 ∧
      q.2.resolver.storageBytes CounterTable.twoPeers = 16) ∧
    (let r := ((Resolver.clockTable { settings := {} }).attach .plain CounterTable.twoPeers
      steadyLog 60).2
    (r.resetCounters.resolve .plain CounterTable.twoPeers steadyLog 120 []).2.count =
      { precomputeProbes := 2 }) := by
  obtain ⟨hscan, -, -, htable, -⟩ :=
    cost_formulas CounterTable.pseudonymsInjective_twoPeers {} rfl (by decide)
  have hlog : SteadyLog {} CounterTable.twoPeers steadyLog := ⟨by decide, rfl, by decide +kernel⟩
  have hclock : ({} : ClockSettings).Steady {} 60 :=
    ⟨rfl, ⟨by norm_num, by decide +kernel⟩, by decide +kernel⟩
  obtain ⟨hfirst, -, -, hfourth⟩ :=
    steady_attach CounterTable.pseudonymsInjective_twoPeers hlog rfl hclock
  constructor
  · have hsamples : Machine.AllSteps (Bench.sample .plain CounterTable.twoPeers)
        (Admits CounterTable.twoPeers {}) (0, ⟨.linearScan {}, steadyLog⟩)
        [⟨0, "device-1", []⟩] :=
      ⟨⟨by decide, trivial, trivial, fun _ => by decide +kernel⟩, trivial⟩
    obtain ⟨-, hcosts, hstorage⟩ := hscan _ ⟨_, _, hfirst, hsamples, rfl⟩
    have hmean : (((2 : ℕ) : ℚ) - 1) * (((16 : ℕ) : ℚ) + (8 : ℕ) + 1) / 2 +
        (((16 : ℕ) : ℚ) + 2) = 61 / 2 := by norm_num
    exact ⟨hmean ▸ hcosts, hstorage⟩
  · obtain ⟨-, -, hnext⟩ := htable (60, _) ⟨_, [], hfourth, trivial, rfl⟩
    let t := (ClockTable.advance .plain CounterTable.twoPeers { settings := {} } 60).2
    have hsettings : t.settings = {} := ClockTable.advance_frame.1
    have hreadable : t.settings.Readable 120 := by
      rw [hsettings]
      exact ⟨by norm_num, by decide +kernel⟩
    have hepoch : t.settings.currentEpoch 120 = t.settings.currentEpoch 60 + 1 := by
      rw [hsettings]
      decide +kernel
    exact hnext t 120 [] rfl hreadable hepoch

/-- A table of one peer whose last accepted epoch is the last but one: its next honest pseudonym is
resolved, but not accepted, since the epoch that is added next does not have 64 bits. -/
theorem exhausted_table_has_no_sample :
    let log := ({ forwardTolerance := 1 } : SessionLog).acceptEpoch "device-1" (2 ^ 64 - 2)
    let attached := (Resolver.counterTable {}).attach .plain serverA.peerSecrets log 0
    PseudonymsInjective .plain serverA.peerSecrets ∧ attached.1 = .ok () ∧
      (log.replayLookback : ℤ) ≤ log.last "device-1" ∧
      (∃ pid, Names .plain serverA.peerSecrets pid "device-1" (log.last "device-1" + 1)) ∧
      (Bench.honest .plain serverA.peerSecrets 0 ⟨attached.2, log⟩ "device-1"
        (log.last "device-1" + 1) []).1 = none := by
  intro log attached
  obtain ⟨pid, hpid⟩ := exists_h2Pseudonym .plain 1
    (show 0 ≤ log.last "device-1" + 1 by decide +kernel) (by decide +kernel)
  exact ⟨pseudonymsInjective_serverA, toOption_eq_some_iff.mp (by decide +kernel),
    by decide +kernel, ⟨pid, 1, rfl, hpid⟩, by decide +kernel⟩

end Bench

end HybridEccAuth

import HybridEccAuth.Resolution.Resolver
import HybridEccAuth.Resolution.RfidSchemes

/-!
# The cost model of the resolvers

The closed forms of what resolving costs, and the measurement that they are compared with:
from a state of a resolver, one pseudonym of a peer is resolved and accepted, or one that no peer
has is resolved, and the counters are read.
-/

namespace HybridEccAuth

/-! ## Storage and counters -/

/-- The size charged for an entry of a table of pseudonyms. -/
def tableEntryBytes : ℕ := 40

/-- The size of the last accepted epoch of a peer. -/
def counterBytes : ℕ := 8

/-- The size charged for a chain of a time-memory table. -/
def chainRecordBytes : ℕ := 8

/-- The size charged for an accepted nonce. -/
def nonceCacheEntryBytes : ℕ := 24

/-- `nonce_cache_entries`. -/
def NonceCache.entryCount (nonces : NonceCache) : ℕ := (nonces.entries.map fun q => q.2.card).sum

namespace Resolver

/-- The counters of a resolver. -/
def count : Resolver → Probes
  | linearScan r => r.count
  | counterTable r => r.count
  | clockScan r => r.count
  | clockTable r => r.count
  | timeMemory T => T.cost.count

/-- `reset_counters`. -/
def resetCounters : Resolver → Resolver
  | linearScan r => linearScan { r with count := {} }
  | counterTable r => counterTable { r with count := {} }
  | clockScan r => clockScan { r with count := {} }
  | clockTable r => clockTable { r with count := {} }
  | timeMemory T => timeMemory { T with cost := { T.cost with count := {} } }

/-- The nonces that a resolver remembers. -/
def nonceEntries : Resolver → ℕ
  | clockScan r => r.nonces.entryCount
  | clockTable r => r.nonces.entryCount
  | linearScan _ | counterTable _ | timeMemory _ => 0

/-- `storage_bytes`. -/
def storageBytes (peers : Dict String Lam) : Resolver → ℕ
  | linearScan _ => counterBytes * peers.size
  | counterTable r => tableEntryBytes * r.table.size + counterBytes * peers.size
  | clockScan r => nonceCacheEntryBytes * r.nonces.entryCount
  | clockTable r => tableEntryBytes * r.table.size + nonceCacheEntryBytes * r.nonces.entryCount
  | timeMemory T => chainRecordBytes * (T.ends.map Dict.size).sum + counterBytes * T.peers.length

end Resolver

/-! ## Closed forms -/

/-- The strategies that have closed forms. -/
inductive Strategy
  /-- Counter epochs, scanned. -/
  | o1
  /-- Counter epochs, tabled. -/
  | o2
  /-- Clock epochs, scanned. -/
  | o3
  /-- Clock epochs, tabled. -/
  | o4
  /-- The randomized hash lock. -/
  | cr
  deriving DecidableEq

/-- The parameters of the cost model. -/
structure CostSettings where
  lookback : ℕ := 16
  forward : ℕ := 8
  drift : ℕ := 1

/-- What a strategy costs: the mean of the probes for a pseudonym of a peer, the probes for one that
no peer has, those for a new epoch, the bytes of its state, and what it adds to a request in
bits. -/
structure ClosedForm where
  honest : ℚ := 0
  forged : ℕ := 0
  perEpoch : ℕ := 0
  stateBytes : ℕ := 0
  extraM1Bits : ℕ := 0

namespace CostSettings

/-- `W1`: the width of a window of counter epochs. -/
def w1 (s : CostSettings) : ℕ := s.lookback + s.forward + 1

/-- `WT`: the width of a window of clock epochs. -/
def wt (s : CostSettings) : ℕ := 2 * s.drift + 1

/-- `closed`: the costs of a strategy for `n` peers. -/
def closed (s : CostSettings) (strategy : Strategy) (n : ℕ) : ClosedForm :=
  if n = 0 then {}
  else
    match strategy with
    | .o1 => { honest := (n - 1) * s.w1 / 2 + (s.lookback + 2), forged := n * s.w1,
               stateBytes := counterBytes * n }
    | .o2 => { honest := 1, stateBytes := (tableEntryBytes * s.forward + counterBytes) * n }
    | .o3 => { honest := (n - 1) * s.wt / 2 + 1, forged := n * s.wt,
               stateBytes := nonceCacheEntryBytes * n }
    | .o4 => { perEpoch := n, stateBytes := (tableEntryBytes * s.wt + nonceCacheEntryBytes) * n }
    | .cr => { honest := (n + 1) / 2, forged := n, extraM1Bits := 8 * 16 }

end CostSettings

/-! ## The measurement -/

/-- A resolver and the session log that it was attached to. -/
structure Bench where
  resolver : Resolver
  log : SessionLog

namespace Bench

/-- One honest sample of `measure_wire`: the probes for the pseudonym of a peer at an epoch, which
is resolved and accepted.  An unknown pseudonym is a miss; when another pair is resolved, or
anything else fails, the script stops, and there is no sample. -/
def honest (C : Crypto) (peers : Dict String Lam) (reading : ℚ) (B : Bench) (peer : String)
    (epoch : ℤ) (nI : Bytes) : Option ℕ × Bench :=
  let r := B.resolver.resetCounters
  match (peers.get peer).map fun lam => h2Pseudonym C lam epoch with
  | none | some (.error _) => (none, { B with resolver := r })
  | some (.ok pid) =>
    match r.resolve C peers B.log reading pid with
    | (.error x, r) =>
      (if x.kind = .unknownPeerError then some (r.count.probes + r.count.precomputeProbes)
        else none, { B with resolver := r })
    | (.ok hit, r) =>
      if hit ≠ (peer, epoch) then (none, { B with resolver := r })
      else
        match r.accept C peers B.log reading peer epoch nI with
        | (.error _, r, log) => (none, ⟨r, log⟩)
        | (.ok (), r, log) => (some (r.count.probes + r.count.precomputeProbes), ⟨r, log⟩)

/-- One forged sample of `measure_wire`: the probes for a pseudonym that must be unknown. -/
def forged (C : Crypto) (peers : Dict String Lam) (reading : ℚ) (B : Bench) (pid : Bytes) :
    Option ℕ × Bench :=
  match B.resolver.resetCounters.resolve C peers B.log reading pid with
  | (.error x, r) =>
    (if x.kind = .unknownPeerError then some r.count.probes else none, { B with resolver := r })
  | (.ok _, r) => (none, { B with resolver := r })

end Bench

end HybridEccAuth

import HybridEccAuth.Resolution.Clock
import HybridEccAuth.Resolution.CounterTable
import HybridEccAuth.Resolution.TimeMemory

/-!
# Resolvers

The five resolvers behind one interface: `attach`, `resolve` and `accept`.  The peer
secrets and the session log, which the resolvers share with their server, are
arguments; a clock resolver reads the clock once in `attach`, `resolve` and `accept`,
and the reading is an argument too.

`Resolver.Valid` is the invariant of a resolver that was attached.  Under it, what is
resolved is named by the pseudonym (`Valid.resolve_sound`), and for counter epochs it
is above the last accepted epoch (`Valid.resolve_new`).
-/

namespace HybridEccAuth

/-- The resolvers that accept the wire format of the protocol. -/
inductive Resolver
  | linearScan (r : LinearScan)
  | counterTable (r : CounterTable)
  | clockScan (r : ClockScan)
  | clockTable (r : ClockTable)
  | timeMemory (T : TimeMemoryTable)

namespace Resolver

/-- Whether epochs are counters rather than numbers of time slots. -/
def IsCounter : Resolver → Prop
  | linearScan _ | counterTable _ | timeMemory _ => True
  | clockScan _ | clockTable _ => False

instance (r : Resolver) : Decidable r.IsCounter := by
  cases r <;> unfold IsCounter <;> infer_instance

/-- `attach`. -/
def attach (C : Crypto) (peers : Dict String Lam) (log : SessionLog) (reading : ℚ) :
    Resolver → Except Exc Unit × Resolver
  | linearScan r => (.ok (), linearScan r)
  | counterTable r =>
    match r.attach C peers log with
    | (x, r) => (x, counterTable r)
  | clockScan r => (.ok (), clockScan r)
  | clockTable r =>
    match r.attach C peers reading with
    | (x, r) => (x, clockTable r)
  | timeMemory T =>
    match T.attach C peers with
    | (x, T) => (x, timeMemory T)

/-- `resolve`. -/
def resolve (C : Crypto) (peers : Dict String Lam) (log : SessionLog) (reading : ℚ) (pid : Bytes) :
    Resolver → Except Exc (String × ℤ) × Resolver
  | linearScan r =>
    match r.resolve C peers log pid with
    | (x, r) => (x, linearScan r)
  | counterTable r => (r.resolve pid, counterTable r)
  | clockScan r =>
    match r.resolve C peers reading pid with
    | (x, r) => (x, clockScan r)
  | clockTable r =>
    match r.resolve C peers reading pid with
    | (x, r) => (x, clockTable r)
  | timeMemory T =>
    match T.resolve C log pid with
    | (x, T) => (x, timeMemory T)

/-- `accept`. -/
def accept (C : Crypto) (peers : Dict String Lam) (log : SessionLog) (reading : ℚ) (peer : String)
    (epoch : ℤ) (nI : Bytes) : Resolver → Except Exc Unit × Resolver × SessionLog
  | linearScan r => (.ok (), linearScan r, log.acceptEpoch peer epoch)
  | counterTable r =>
    match r.accept C peers log peer epoch with
    | (x, r, log) => (x, counterTable r, log)
  | clockScan r =>
    match acceptNonce r.settings reading r.nonces log peer epoch nI with
    | (x, nonces, log) => (x, clockScan { r with nonces := nonces }, log)
  | clockTable r =>
    match acceptNonce r.settings reading r.nonces log peer epoch nI with
    | (x, nonces, log) => (x, clockTable { r with nonces := nonces }, log)
  | timeMemory T => (.ok (), timeMemory T, log.acceptEpoch peer epoch)

/-- The invariant of a resolver that was attached to peers and a log. -/
def Valid (C : Crypto) (peers : Dict String Lam) (log : SessionLog) : Resolver → Prop
  | linearScan _ | clockScan _ => True
  | counterTable r => r.Sound C peers log
  | clockTable r => r.Named C peers
  | timeMemory T => T.Attached peers

section Valid

variable {C : Crypto} {peers : Dict String Lam} {log : SessionLog} {reading : ℚ} {r : Resolver}
  {pid nI : Bytes} {peer : String} {epoch : ℤ}

/-- A resolver that was attached is valid. -/
lemma valid_attach {r' : Resolver} (h : r.attach C peers log reading = (.ok (), r')) :
    r'.Valid C peers log := by
  rcases r with r | r | r | r | T <;> unfold attach at h
  · obtain ⟨-, rfl⟩ := Prod.mk.inj h
    trivial
  · obtain ⟨-, rfl⟩ := Prod.mk.inj h
    exact CounterTable.sound_attach r
  · obtain ⟨-, rfl⟩ := Prod.mk.inj h
    trivial
  · obtain ⟨-, rfl⟩ := Prod.mk.inj h
    exact ClockTable.named_attach
  · obtain ⟨hok, rfl⟩ := Prod.mk.inj h
    exact TimeMemoryTable.attached_of_attach (Prod.ext hok rfl)

/-- Validity reads the last accepted epochs only. -/
lemma Valid.congr {log' : SessionLog} (h : r.Valid C peers log)
    (hlast : ∀ p, log'.last p = log.last p) : r.Valid C peers log' := by
  rcases r with r | r | r | r | T
  · trivial
  · exact Dict.Within.mono h fun pid v hv => ⟨hv.1, (hlast v.1).symm ▸ hv.2⟩
  · trivial
  · exact h
  · exact h

/-- Resolving keeps a resolver valid. -/
lemma Valid.resolve (h : r.Valid C peers log) :
    (r.resolve C peers log reading pid).2.Valid C peers log := by
  rcases r with r | r | r | r | T
  · trivial
  · exact h
  · trivial
  · exact ClockTable.Named.resolve h
  · exact TimeMemoryTable.Attached.resolve h

/-- What is resolved is named by the pseudonym. -/
theorem Valid.resolve_sound (h : r.Valid C peers log)
    (hres : (r.resolve C peers log reading pid).1 = .ok (peer, epoch)) :
    Names C peers pid peer epoch := by
  rcases r with r | r | r | r | T
  · exact (LinearScan.resolve_sound hres).1
  · exact (CounterTable.Sound.resolve h hres).1
  · exact (ClockScan.resolve_sound hres).1
  · exact ClockTable.Named.resolve_sound h hres
  · exact (TimeMemoryTable.Attached.resolve_sound h hres).1

/-- With counter epochs, what is resolved is above the last accepted epoch. -/
theorem Valid.resolve_new (h : r.Valid C peers log) (hr : r.IsCounter)
    (hres : (r.resolve C peers log reading pid).1 = .ok (peer, epoch)) : log.last peer < epoch := by
  rcases r with r | r | r | r | T
  · exact (LinearScan.resolve_sound hres).2.1
  · exact (CounterTable.Sound.resolve h hres).2
  · exact hr.elim
  · exact hr.elim
  · exact (TimeMemoryTable.Attached.resolve_sound h hres).2

/-- Attaching does not change the kind of a resolver. -/
lemma isCounter_attach : (r.attach C peers log reading).2.IsCounter ↔ r.IsCounter := by
  rcases r with r | r | r | r | T <;> rfl

/-- Resolving does not change the kind of a resolver. -/
lemma isCounter_resolve : (r.resolve C peers log reading pid).2.IsCounter ↔ r.IsCounter := by
  rcases r with r | r | r | r | T <;> rfl

/-- Accepting does not change the kind of a resolver. -/
lemma isCounter_accept :
    (r.accept C peers log reading peer epoch nI).2.1.IsCounter ↔ r.IsCounter := by
  rcases r with r | r | r | r | T <;> rfl

/-- Accepting with counter epochs accepts the epoch in the log. -/
lemma log_accept (hr : r.IsCounter) :
    (r.accept C peers log reading peer epoch nI).2.2 = log.acceptEpoch peer epoch := by
  rcases r with r | r | r | r | T
  · rfl
  · rfl
  · exact hr.elim
  · exact hr.elim
  · rfl

/-- Accepting changes nothing of the log but the epoch. -/
lemma log_accept_cases : (r.accept C peers log reading peer epoch nI).2.2 = log ∨
    (r.accept C peers log reading peer epoch nI).2.2 = log.acceptEpoch peer epoch := by
  have hnonce : ∀ s nonces, (acceptNonce s reading nonces log peer epoch nI).2.2 = log ∨
      (acceptNonce s reading nonces log peer epoch nI).2.2 = log.acceptEpoch peer epoch := by
    intro s nonces
    unfold acceptNonce
    dsimp only
    split_ifs
    · exact Or.inl rfl
    · exact Or.inr rfl
  rcases r with r | r | r | r | T
  · exact Or.inr rfl
  · exact Or.inr rfl
  · exact hnonce _ _
  · exact hnonce _ _
  · exact Or.inr rfl

/-- An accept that succeeds accepts the epoch in the log. -/
lemma log_accept_of_ok {r' : Resolver} {log' : SessionLog}
    (h : r.accept C peers log reading peer epoch nI = (.ok (), r', log')) :
    log' = log.acceptEpoch peer epoch := by
  have hnonce : ∀ s nonces, (acceptNonce s reading nonces log peer epoch nI).1 = .ok () →
      (acceptNonce s reading nonces log peer epoch nI).2.2 = log.acceptEpoch peer epoch := by
    intro s nonces hok
    unfold acceptNonce at hok ⊢
    dsimp only at hok ⊢
    split_ifs at hok ⊢
    rfl
  obtain ⟨hok, hr⟩ := Prod.mk.inj h
  obtain ⟨-, rfl⟩ := Prod.mk.inj hr
  rcases r with r | r | r | r | T
  · rfl
  · rfl
  · exact hnonce _ _ hok
  · exact hnonce _ _ hok
  · rfl

/-- Resolving changes nothing of a resolver with counter epochs but its counters: afterwards every
pseudonym resolves as before, as long as the last accepted epochs and the settings are the same. -/
lemma resolve_resolve (hr : r.IsCounter) {log' : SessionLog} (hlast : ∀ p, log'.last p = log.last p)
    (hforward : log'.forwardTolerance = log.forwardTolerance)
    (hback : log'.replayLookback = log.replayLookback) (reading' reading'' : ℚ) (pid' : Bytes) :
    ((r.resolve C peers log reading pid).2.resolve C peers log' reading' pid').1 =
      (r.resolve C peers log reading'' pid').1 := by
  rcases r with r | r | r | r | T
  · exact LinearScan.resolve_fst_congr hlast hforward hback _
  · rfl
  · exact hr.elim
  · exact hr.elim
  · have hframe : ∃ cost, (T.resolve C log pid).2 = { T with cost := cost } :=
      TimeMemoryTable.resolve_frame
    obtain ⟨cost, heq⟩ := hframe
    have hcongr : ((T.resolve C log pid).2.resolve C log' pid').1 = (T.resolve C log pid').1 := by
      rw [heq]
      exact TimeMemoryTable.resolve_fst_congr hlast cost
    exact hcongr

/-- The same without resolving. -/
lemma resolve_fst_congr (hr : r.IsCounter) {log' : SessionLog}
    (hlast : ∀ p, log'.last p = log.last p)
    (hforward : log'.forwardTolerance = log.forwardTolerance)
    (hback : log'.replayLookback = log.replayLookback) (reading' : ℚ) :
    (r.resolve C peers log' reading' pid).1 = (r.resolve C peers log reading pid).1 := by
  rcases r with r | r | r | r | T
  · exact LinearScan.resolve_fst_congr hlast hforward hback _
  · rfl
  · exact hr.elim
  · exact hr.elim
  · have hcongr : (T.resolve C log' pid).1 = (T.resolve C log pid).1 :=
      TimeMemoryTable.resolve_fst_congr hlast T.cost
    exact hcongr

/-- Accepting keeps a resolver valid. -/
lemma Valid.accept (h : r.Valid C peers log) :
    (r.accept C peers log reading peer epoch nI).2.1.Valid C peers
      (r.accept C peers log reading peer epoch nI).2.2 := by
  rcases r with r | r | r | r | T
  · trivial
  · exact CounterTable.Sound.accept h peer epoch
  · trivial
  · exact h
  · exact h

end Valid

/-! ## Failures -/

/-- The epochs that a resolver works with have 64 bits. -/
def EpochsFit (peers : Dict String Lam) (log : SessionLog) : Resolver → Prop
  | linearScan _ => EpochsBelow peers log
  | counterTable r => ∀ peer ∈ peers.keys, log.last peer + r.forward log < 2 ^ 64
  | clockScan _ | clockTable _ => True
  | timeMemory T => T.lifetime ≤ 2 ^ 64

/-- The clock is within the range of a clock resolver. -/
def ReadingFits (reading : ℚ) : Resolver → Prop
  | clockScan r => r.settings.Readable reading
  | clockTable r => r.settings.Readable reading
  | _ => True

/-- Without a clock there is no condition on its readings. -/
lemma IsCounter.readingFits {r : Resolver} (h : r.IsCounter) (reading : ℚ) :
    r.ReadingFits reading := by
  rcases r with r | r | r | r | T
  · trivial
  · trivial
  · exact h.elim
  · exact h.elim
  · trivial

/-- A time-memory table without points, in which a look-up has a column to probe. -/
def Barren : Resolver → Prop
  | timeMemory T => T.space = 0 ∧ 0 < T.nTables ∧ 0 < T.chainLength
  | _ => False

section Failures

variable {C : Crypto} {peers : Dict String Lam} {log : SessionLog} {reading : ℚ} {r : Resolver}
  {pid nI : Bytes} {peer : String} {epoch : ℤ}

/-- The bound on the epochs reads the last accepted epochs and the tolerance only. -/
lemma EpochsFit.congr {log' : SessionLog} (h : r.EpochsFit peers log)
    (hlast : ∀ p, log'.last p = log.last p) (htol : log'.forwardTolerance = log.forwardTolerance) :
    r.EpochsFit peers log' := by
  rcases r with r | r | r | r | T
  · exact EpochsBelow.congr h hlast htol
  · intro p hp
    rw [hlast, CounterTable.forward, htol]
    exact h p hp
  · trivial
  · trivial
  · exact h

/-- Resolving keeps the epochs of any log within their bound. -/
lemma EpochsFit.resolve {log' : SessionLog} (h : r.EpochsFit peers log') :
    (r.resolve C peers log reading pid).2.EpochsFit peers log' := by
  rcases r with r | r | r | r | T
  · exact h
  · exact h
  · trivial
  · trivial
  · have hframe : ∃ cost, (T.resolve C log pid).2 = { T with cost := cost } :=
      TimeMemoryTable.resolve_frame
    obtain ⟨cost, heq⟩ := hframe
    have hlife : (T.resolve C log pid).2.lifetime ≤ 2 ^ 64 := by
      rw [heq]
      exact h
    exact hlife

/-- So does accepting. -/
lemma EpochsFit.accept {log' : SessionLog} (h : r.EpochsFit peers log') :
    (r.accept C peers log reading peer epoch nI).2.1.EpochsFit peers log' := by
  rcases r with r | r | r | r | T
  · exact h
  · intro p hp
    have hforward : ((r.accept C peers log peer epoch).2.1).forward log' = r.forward log' := by
      rw [CounterTable.forward, CounterTable.forward?_accept, CounterTable.forward]
    exact (congrArg (log'.last p + Nat.cast ·) hforward).trans_lt (h p hp)
  · trivial
  · trivial
  · exact h

/-- Looking up a pseudonym in a table without points divides by zero. -/
lemma Valid.resolve_of_barren (h : r.Valid C peers log) (hbarren : r.Barren) :
    (r.resolve C peers log reading pid).1 = .error (.ofLibrary .zeroDivisionError) := by
  rcases r with r | r | r | r | T
  · exact hbarren.elim
  · exact hbarren.elim
  · exact hbarren.elim
  · exact hbarren.elim
  · have hzero : (T.resolve C log pid).1 = _ :=
      TimeMemoryTable.resolve_of_space_eq_zero h hbarren.1
    rw [if_pos hbarren.2] at hzero
    exact hzero

/-- Otherwise, a pseudonym that is not resolved is rejected. -/
theorem Valid.resolve_error (h : r.Valid C peers log) (hfit : r.EpochsFit peers log)
    (hread : r.ReadingFits reading) (hbarren : ¬ r.Barren) {x : Exc}
    (hres : (r.resolve C peers log reading pid).1 = .error x) : x.IsRejection peers.keys := by
  have hauth : ∀ k : ExcKind, k = .replayDetected ∨ k = .unknownPeerError →
      k.isAuthenticationError = true := by
    rintro k (rfl | rfl) <;> rfl
  rcases r with r | r | r | r | T
  · obtain ⟨hkind, hbrief⟩ := LinearScan.kind_of_resolve hfit hres
    exact ⟨hauth _ hkind, hbrief⟩
  · obtain ⟨hkind, hbrief⟩ := CounterTable.kind_of_resolve peers.keys hres
    exact ⟨hauth _ (Or.inr hkind), hbrief⟩
  · obtain ⟨hkind, hbrief⟩ :=
      ClockScan.kind_of_resolve (ClockSettings.window_range hread) peers.keys hres
    exact ⟨hauth _ (Or.inr hkind), hbrief⟩
  · obtain ⟨hkind, hbrief⟩ :=
      ClockTable.kind_of_resolve (ClockSettings.window_range hread) peers.keys hres
    exact ⟨hauth _ (Or.inr hkind), hbrief⟩
  · rcases Nat.eq_zero_or_pos T.space with hspace | hspace
    · have hzero : (T.resolve C log pid).1 = _ :=
        TimeMemoryTable.resolve_of_space_eq_zero h hspace
      rw [if_neg fun hcase => hbarren ⟨hspace, hcase⟩] at hzero
      obtain rfl := Except.error.inj (hzero.symm.trans hres)
      exact ⟨rfl, TimeMemoryTable.brief_notCoveredError _⟩
    · obtain ⟨hkind, hbrief⟩ := TimeMemoryTable.kind_of_resolve h hspace hfit hres
      exact ⟨hauth _ hkind, hbrief⟩

/-- With counter epochs, an epoch of an enrolled peer is accepted, if the epochs afterwards have 64
bits. -/
theorem accept_ok (hr : r.IsCounter) (hpeer : peer ∈ peers.keys)
    (hfit : (r.accept C peers log reading peer epoch nI).2.1.EpochsFit peers
      (r.accept C peers log reading peer epoch nI).2.2) :
    (r.accept C peers log reading peer epoch nI).1 = .ok () := by
  rcases r with r | r | r | r | T
  · rfl
  · obtain ⟨lam, hlam⟩ := Dict.mem_keys_iff.mp hpeer
    have hbelow : (log.acceptEpoch peer epoch).last peer +
        (r.accept C peers log peer epoch).2.1.forward (log.acceptEpoch peer epoch) < 2 ^ 64 :=
      hfit peer hpeer
    rw [CounterTable.forward, CounterTable.forward?_accept] at hbelow
    exact CounterTable.accept_fst hlam hbelow
  · exact hr.elim
  · exact hr.elim
  · rfl

/-- An epoch of an enrolled peer that is not accepted is rejected, if the epochs afterwards have 64
bits. -/
theorem accept_error (hpeer : peer ∈ peers.keys) (hepoch : 0 ≤ epoch ∧ epoch < 2 ^ 64)
    (hfit : (r.accept C peers log reading peer epoch nI).2.1.EpochsFit peers
      (r.accept C peers log reading peer epoch nI).2.2) {x : Exc}
    (hacc : (r.accept C peers log reading peer epoch nI).1 = .error x) :
    x.IsRejection peers.keys := by
  by_cases hr : r.IsCounter
  · rw [accept_ok hr hpeer hfit] at hacc
    cases hacc
  · rcases r with r | r | r | r | T
    · exact absurd trivial hr
    · exact absurd trivial hr
    · exact acceptNonce_error hpeer hepoch hacc
    · exact acceptNonce_error hpeer hepoch hacc
    · exact absurd trivial hr

end Failures

end Resolver

end HybridEccAuth

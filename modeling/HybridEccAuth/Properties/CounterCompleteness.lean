import HybridEccAuth.Properties.HonestRequests
import HybridEccAuth.Properties.PeerIndependence

/-!
# Requests with counter epochs

As long as its epochs have 64 bits, a linear scan or a counter table resolves exactly the
pseudonyms of each peer's forward window: the epochs above the last accepted one, up to
the forward tolerance (`Resolver.ExactCounter.resolve_eq_ok_iff`).  Every request keeps a
server in such a state (`Server.Counts.step`), so in every state reached, a request of
an enrolled device is answered exactly when its epoch lies in the window
(`Server.Counts.answered_iff`).
-/

namespace HybridEccAuth

namespace Resolver

variable {C : Crypto} {peers : Dict String Lam} {log log' : SessionLog} {reading : ℚ} {r : Resolver}
  {pid nI : Bytes} {peer : String} {epoch : ℤ}

/-! ## The forward windows -/

/-- How far a resolver with counter epochs looks ahead. -/
def tolerance (log : SessionLog) : Resolver → ℕ
  | counterTable r => r.forward log
  | _ => log.forwardTolerance

/-- A linear scan, or a counter table that is exact. -/
def ExactCounter (C : Crypto) (peers : Dict String Lam) (log : SessionLog) : Resolver → Prop
  | linearScan _ => True
  | counterTable r => r.Exact C peers log
  | _ => False

/-- The kind of an exact resolver. -/
lemma ExactCounter.separates (h : r.ExactCounter C peers log) : r.Separates := by
  rcases r with r | r | r | r | T
  · trivial
  · trivial
  · exact h.elim
  · exact h.elim
  · exact h.elim

/-- The epochs of such a resolver have 64 bits when the forward windows have. -/
lemma epochsFit_iff (h : r.Separates) :
    r.EpochsFit peers log ↔ ∀ p ∈ peers.keys, log.last p + r.tolerance log < 2 ^ 64 := by
  rcases r with r | r | r | r | T
  · rfl
  · rfl
  · exact h.elim
  · exact h.elim
  · exact h.elim

/-- The tolerance reads that of the log only. -/
lemma tolerance_congr (htol : log'.forwardTolerance = log.forwardTolerance) :
    r.tolerance log' = r.tolerance log := by
  rcases r with r | r | r | r | T <;> simp only [tolerance, CounterTable.forward, htol]

/-- Exactness reads the last accepted epochs and the tolerance only. -/
lemma ExactCounter.congr (h : r.ExactCounter C peers log) (hlast : ∀ p, log'.last p = log.last p)
    (htol : log'.forwardTolerance = log.forwardTolerance) : r.ExactCounter C peers log' := by
  rcases r with r | r | r | r | T
  · trivial
  · exact CounterTable.Exact.congr h hlast htol
  · exact h
  · exact h
  · exact h

/-- A linear scan or a counter table whose windows have 64 bits can be attached, and is exact
then. -/
lemma exactCounter_attach (hr : r.Separates) (hinj : PseudonymsInjective C peers)
    (hfit : r.EpochsFit peers log) :
    (r.attach C peers log reading).1 = .ok () ∧
      (r.attach C peers log reading).2.ExactCounter C peers log ∧
      (r.attach C peers log reading).2.tolerance log = r.tolerance log := by
  rcases r with r | r | r | r | T
  · exact ⟨rfl, trivial, rfl⟩
  · obtain ⟨hok, hexact, hforward⟩ := CounterTable.exact_attach hinj r hfit
    have htol : (r.attach C peers log).2.forward log = r.forward log := by
      rw [CounterTable.forward, CounterTable.forward, hforward]
    exact ⟨hok, hexact, htol⟩
  · exact hr.elim
  · exact hr.elim
  · exact hr.elim

/-- Resolving keeps a resolver exact, and its tolerance. -/
lemma ExactCounter.resolve (h : r.ExactCounter C peers log) :
    (r.resolve C peers log reading pid).2.ExactCounter C peers log ∧
      (r.resolve C peers log reading pid).2.tolerance log = r.tolerance log := by
  rcases r with r | r | r | r | T
  · exact ⟨trivial, rfl⟩
  · exact ⟨h, rfl⟩
  · exact h.elim
  · exact h.elim
  · exact h.elim

/-- What is resolved: the named pairs of the forward windows. -/
theorem ExactCounter.resolve_eq_ok_iff (h : r.ExactCounter C peers log)
    (hinj : PseudonymsInjective C peers) (hfit : r.EpochsFit peers log) :
    (r.resolve C peers log reading pid).1 = .ok (peer, epoch) ↔
      Names C peers pid peer epoch ∧ log.last peer < epoch ∧
        epoch ≤ log.last peer + r.tolerance log := by
  rcases r with r | r | r | r | T
  · refine ⟨fun hres => LinearScan.resolve_sound hres, fun ⟨hnames, hnew, htol⟩ => ?_⟩
    exact LinearScan.resolve_complete hinj hfit hnames hnew htol
  · exact CounterTable.Exact.resolve_eq_ok_iff h
  · exact h.elim
  · exact h.elim
  · exact h.elim

/-- Accepting an epoch of the forward window succeeds and keeps a resolver exact, as long as the
next window has 64 bits. -/
theorem ExactCounter.accept (h : r.ExactCounter C peers log) (hinj : PseudonymsInjective C peers)
    (hpeer : peer ∈ peers.keys) (hnew : log.last peer < epoch)
    (htol : epoch ≤ log.last peer + r.tolerance log) (hnext : epoch + r.tolerance log < 2 ^ 64) :
    (r.accept C peers log reading peer epoch nI).1 = .ok () ∧
      (r.accept C peers log reading peer epoch nI).2.1.ExactCounter C peers
        (log.acceptEpoch peer epoch) := by
  rcases r with r | r | r | r | T
  · exact ⟨rfl, trivial⟩
  · obtain ⟨hok, hexact, -⟩ := CounterTable.Exact.accept hinj h hpeer hnew htol hnext
    exact ⟨hok, hexact⟩
  · exact h.elim
  · exact h.elim
  · exact h.elim

/-- Accepting does not change the kind of a resolver. -/
lemma separates_accept :
    (r.accept C peers log reading peer epoch nI).2.1.Separates ↔ r.Separates := by
  rcases r with r | r | r | r | T <;> rfl

/-- Accepting keeps the tolerance. -/
lemma tolerance_accept (log₀ : SessionLog) :
    (r.accept C peers log reading peer epoch nI).2.1.tolerance log₀ = r.tolerance log₀ := by
  rcases r with r | r | r | r | T
  · rfl
  · have hforward : (r.accept C peers log peer epoch).2.1.forward log₀ = r.forward log₀ := by
      rw [CounterTable.forward, CounterTable.forward, CounterTable.forward?_accept]
    exact hforward
  · rfl
  · rfl
  · rfl

end Resolver

/-! ## States of the server -/

namespace Server

variable {C : Crypto} {S : Server C}

/-- How far the server looks ahead. -/
def tolerance (S : Server C) : ℕ := S.resolver.tolerance S.sessionLog

/-- The server resolves exactly the forward windows, and these have 64 bits. -/
structure Counts (S : Server C) : Prop where
  exact : S.resolver.ExactCounter C S.peers S.sessionLog
  fits : S.EpochsFit

/-- A server with a linear scan or a counter table can be created when its windows have 64 bits. -/
lemma exists_create {cred : Credential Lam Bytes} (nonceBits : ℕ) {log : SessionLog} {r : Resolver}
    (reading : ℚ) (hr : r.Separates) (hrole : cred.role = .server)
    (hinj : PseudonymsInjective C cred.peerSecrets) (hfit : r.EpochsFit cred.peerSecrets log) :
    ∃ S : Server C, create cred nonceBits log r reading = .ok S :=
  ⟨_, create_of_attach nonceBits hrole (Resolver.exactCounter_attach hr hinj hfit).1⟩

/-- A server that was created with a linear scan or a counter table. -/
theorem counts_create {cred : Credential Lam Bytes} {nonceBits : ℕ} {log : SessionLog}
    {r : Resolver}
    {reading : ℚ} (hr : r.Separates) (hS : create cred nonceBits log r reading = .ok S)
    (hinj : PseudonymsInjective C cred.peerSecrets) (hfit : r.EpochsFit cred.peerSecrets log) :
    S.Counts ∧ S.tolerance = r.tolerance log := by
  obtain ⟨-, hcred, -, hlog, -, hatt⟩ := valid_create hS
  have hresolver : (r.attach C cred.peerSecrets log reading).2 = S.resolver :=
      congrArg Prod.snd hatt
  obtain ⟨-, hexact, htol⟩ : (r.attach C cred.peerSecrets log reading).1 = .ok () ∧ _ :=
    Resolver.exactCounter_attach hr hinj hfit
  rw [hresolver] at hexact htol
  subst hcred hlog
  refine ⟨⟨hexact, ?_⟩, htol⟩
  rw [EpochsFit, Resolver.epochsFit_iff hexact.separates, htol]
  exact (Resolver.epochsFit_iff hr).mp hfit

/-- Opening a request keeps the server in such a state, with the same last accepted epochs. -/
lemma Counts.openRequest (h : S.Counts) (env : ServerEnv) (data : Bytes) :
    (S.openRequest env data).2.Counts ∧ (S.openRequest env data).2.tolerance = S.tolerance ∧
      ∀ p, (S.openRequest env data).2.sessionLog.last p = S.sessionLog.last p := by
  obtain ⟨hcred, -, hres, hlog⟩ := S.openRequest_frame env data
  have hpeers : (S.openRequest env data).2.peers = S.peers := congrArg Credential.peerSecrets hcred
  have hsame : (∀ p, (S.openRequest env data).2.sessionLog.last p = S.sessionLog.last p) ∧
      (S.openRequest env data).2.sessionLog.forwardTolerance = S.sessionLog.forwardTolerance := by
    rcases hlog with heq | ⟨peer, heq⟩
    · rw [heq]
      exact ⟨fun _ => rfl, rfl⟩
    · rw [heq]
      exact ⟨fun p => SessionLog.last_recordFailure, SessionLog.recordFailure_frame.2.2.1⟩
  have hresolver : (S.openRequest env data).2.resolver.ExactCounter C S.peers S.sessionLog ∧
      (S.openRequest env data).2.resolver.tolerance S.sessionLog = S.tolerance := by
    rcases hres with heq | ⟨pid, heq⟩
    · rw [heq]
      exact ⟨h.exact, rfl⟩
    · rw [heq]
      exact h.exact.resolve
  have hexact := hresolver.1.congr hsame.1 hsame.2
  exact ⟨⟨hpeers.symm ▸ hexact, h.fits.openRequest env data⟩,
    (Resolver.tolerance_congr hsame.2).trans hresolver.2, hsame.1⟩

/-- What a request that is opened was resolved to lies in the forward window. -/
lemma Counts.window_of_opens (h : S.Counts) (hinj : PseudonymsInjective C S.peers) {env : ServerEnv}
    {data : Bytes} {o : Opened} {msg1 : Message1} {lam : Lam} {plaintext : Bytes}
    (ho : S.Opens env data o msg1 lam plaintext) :
    Names C S.peers msg1.pid o.peer o.epoch ∧ S.sessionLog.last o.peer < o.epoch ∧
      o.epoch ≤ S.sessionLog.last o.peer + S.tolerance :=
  (h.exact.resolve_eq_ok_iff hinj h.fits).mp ho.resolved

/-- Finishing a request that was resolved to an epoch of the forward window keeps the server in such
a state, as long as the windows afterwards have 64 bits. -/
lemma Counts.finish (h : S.Counts) (hinj : PseudonymsInjective C S.peers) (env : ServerEnv)
    {o : Opened}
    (hpeer : o.peer ∈ S.peers.keys) (hnew : S.sessionLog.last o.peer < o.epoch)
    (htol : o.epoch ≤ S.sessionLog.last o.peer + S.tolerance)
    (hfits : (S.finish env o).2.EpochsFit) :
    (S.finish env o).2.Counts ∧ (S.finish env o).2.tolerance = S.tolerance := by
  obtain ⟨hcred, -, hres, -⟩ := S.finish_frame env o
  have hpeers : (S.finish env o).2.peers = S.peers := congrArg Credential.peerSecrets hcred
  have hsame : (∀ p, (S.finish env o).2.sessionLog.last p =
        (S.sessionLog.acceptEpoch o.peer o.epoch).last p) ∧
      (S.finish env o).2.sessionLog.forwardTolerance =
        (S.sessionLog.acceptEpoch o.peer o.epoch).forwardTolerance := by
    rcases S.sessionLog_finish h.exact.separates.isCounter env o with heq | heq
    · rw [heq]
      exact ⟨fun _ => rfl, rfl⟩
    · rw [heq]
      exact ⟨fun p => SessionLog.last_recordSuccess, rfl⟩
  have htolerance : (S.finish env o).2.tolerance = S.tolerance := by
    have hforward := hsame.2.trans SessionLog.acceptEpoch_frame.2.1
    rw [tolerance, Resolver.tolerance_congr hforward, hres]
    exact Resolver.tolerance_accept _
  have hseparates : (S.finish env o).2.resolver.Separates := by
    rw [hres]
    exact Resolver.separates_accept.mpr h.exact.separates
  -- the windows afterwards include the next one of the peer
  have hnext : o.epoch + S.tolerance < 2 ^ 64 := by
    have hwindow :
        (S.finish env o).2.sessionLog.last o.peer + (S.finish env o).2.tolerance < 2 ^ 64 :=
      (Resolver.epochsFit_iff hseparates).mp hfits o.peer (hpeers.symm ▸ hpeer)
    rwa [htolerance, hsame.1, SessionLog.last_acceptEpoch, if_pos rfl, max_eq_right (le_of_lt hnew)]
      at hwindow
  obtain ⟨-, hexact⟩ : (S.resolver.accept C S.peers S.sessionLog env.acceptReading o.peer o.epoch
      o.nI).1 = .ok () ∧ _ := h.exact.accept hinj hpeer hnew htol hnext
  rw [← hres] at hexact
  exact ⟨⟨hpeers.symm ▸ hexact.congr hsame.1 hsame.2, hfits⟩, htolerance⟩

/-- The windows afterwards have 64 bits when that of the peer has. -/
lemma Counts.epochsFit_finish (h : S.Counts) (env : ServerEnv) {o : Opened}
    (hnew : S.sessionLog.last o.peer < o.epoch) (hnext : o.epoch + S.tolerance < 2 ^ 64) :
    (S.finish env o).2.EpochsFit := by
  obtain ⟨hcred, -, hres, hlast⟩ := S.finish_frame env o
  have hpeers : (S.finish env o).2.peers = S.peers := congrArg Credential.peerSecrets hcred
  have hseparates : (S.finish env o).2.resolver.Separates := by
    rw [hres]
    exact Resolver.separates_accept.mpr h.exact.separates
  obtain ⟨heq, hforward⟩ : (∀ p, (S.finish env o).2.sessionLog.last p =
        (S.sessionLog.acceptEpoch o.peer o.epoch).last p) ∧
      (S.finish env o).2.sessionLog.forwardTolerance = S.sessionLog.forwardTolerance := by
    rcases S.sessionLog_finish h.exact.separates.isCounter env o with heq | heq
    · rw [heq]
      exact ⟨fun _ => rfl, SessionLog.acceptEpoch_frame.2.1⟩
    · rw [heq]
      exact ⟨fun p => SessionLog.last_recordSuccess, SessionLog.acceptEpoch_frame.2.1⟩
  have htol : (S.finish env o).2.resolver.tolerance (S.finish env o).2.sessionLog =
      S.tolerance := by
    rw [Resolver.tolerance_congr hforward, hres]
    exact Resolver.tolerance_accept _
  rw [EpochsFit, Resolver.epochsFit_iff hseparates]
  intro p hp
  rw [htol, heq, SessionLog.last_acceptEpoch]
  split_ifs with hpeer
  · rwa [max_eq_right (le_of_lt hnew)]
  · rw [hpeers] at hp
    exact (Resolver.epochsFit_iff h.exact.separates).mp h.fits p hp

/-- A request keeps the server in such a state, as long as the windows afterwards have 64 bits. -/
theorem Counts.step (h : S.Counts) (hinj : PseudonymsInjective C S.peers) {i : ServerEnv × Bytes}
    (hfits : (S.step i).2.EpochsFit) :
    (S.step i).2.Counts ∧ (S.step i).2.tolerance = S.tolerance := by
  obtain ⟨hopen, htol, hlast⟩ := h.openRequest i.1 i.2
  have hpeers : (S.openRequest i.1 i.2).2.peers = S.peers :=
    congrArg Credential.peerSecrets (S.openRequest_frame i.1 i.2).1
  unfold Server.step at hfits ⊢
  rcases S.handleAuthRequest_cases i.1 i.2 with ⟨e, -, heq⟩ | ⟨o, ho, heq⟩
  · rw [heq]
    exact ⟨hopen, htol⟩
  · rw [heq] at hfits ⊢
    obtain ⟨⟨msg1, lam, plaintext, hopens, -⟩, -⟩ := openRequest_ok (Prod.ext ho rfl)
    obtain ⟨⟨lam', hlam, -⟩, hnew, hwindow⟩ := h.window_of_opens hinj hopens
    have hpeer : o.peer ∈ S.peers.keys := Dict.mem_keys_iff.mpr ⟨lam', hlam⟩
    obtain ⟨hcounts, htol'⟩ := hopen.finish (hpeers.symm ▸ hinj) i.1 (hpeers.symm ▸ hpeer)
      (by rwa [hlast]) (by rwa [hlast, htol]) hfits
    exact ⟨hcounts, htol'.trans htol⟩

/-- A run keeps the server in such a state, as long as the windows after every request have 64
bits. -/
theorem Counts.final {cred : Credential Lam Bytes} (h : S.Counts) (hcred : S.credential = cred)
    (hinj : PseudonymsInjective C cred.peerSecrets) {requests : List (ServerEnv × Bytes)}
    (hfits : ∀ x ∈ Machine.trace Server.step S requests, x.2.EpochsFit) :
    (Machine.final Server.step S requests).Counts ∧
      (Machine.final Server.step S requests).credential = cred ∧
      (Machine.final Server.step S requests).tolerance = S.tolerance := by
  have hstep : ∀ (T : Server C) i, (T.Counts ∧ T.credential = cred ∧ T.tolerance = S.tolerance) →
      (T.step i).2.EpochsFit →
      (T.step i).2.Counts ∧ (T.step i).2.credential = cred ∧ (T.step i).2.tolerance =
      S.tolerance := by
    rintro T i ⟨hcounts, rfl, htol⟩ hfits
    obtain ⟨hcounts', htol'⟩ := hcounts.step hinj hfits
    exact ⟨hcounts', (T.handleAuthRequest_frame i.1 i.2).1, htol'.trans htol⟩
  exact Machine.invariant_final hstep ⟨h, hcred, rfl⟩ (Machine.allSteps_of_trace hfits)

/-- The states that a server with a forward tolerance reaches, with a linear scan or a counter table
and from any log, as long as the epochs of its windows have 64 bits. -/
def CountsFrom (cred : Credential Lam Bytes) (nonceBits F : ℕ) (S : Server C) : Prop :=
  ∃ (log : SessionLog) (r : Resolver) (reading : ℚ) (S₀ : Server C)
    (requests : List (ServerEnv × Bytes)), r.Separates ∧ r.tolerance log = F ∧
    r.EpochsFit cred.peerSecrets log ∧ create cred nonceBits log r reading = .ok S₀ ∧
    (∀ x ∈ Machine.trace Server.step S₀ requests, x.2.EpochsFit) ∧
    S = Machine.final Server.step S₀ requests

/-- The server as it was created. -/
lemma countsFrom_create {cred : Credential Lam Bytes} {nonceBits : ℕ} {log : SessionLog}
    {r : Resolver}
    {reading : ℚ} (hr : r.Separates) (hfit : r.EpochsFit cred.peerSecrets log)
    (hS : create cred nonceBits log r reading = .ok S) :
    S.CountsFrom cred nonceBits (r.tolerance log) :=
  ⟨log, r, reading, S, [], hr, rfl, hfit, hS, fun _ hx => absurd hx List.not_mem_nil, rfl⟩

/-- What is known of such a state. -/
theorem CountsFrom.counts {cred : Credential Lam Bytes} {nonceBits F : ℕ}
    (h : S.CountsFrom cred nonceBits F) (hinj : PseudonymsInjective C cred.peerSecrets) :
    S.Counts ∧ S.credential = cred ∧ S.nonceBits = nonceBits ∧ S.tolerance = F := by
  obtain ⟨log, r, reading, S₀, requests, hr, rfl, hfit, hS₀, hfits, rfl⟩ := h
  obtain ⟨hvalid, hcred, hbits, -⟩ := valid_create hS₀
  obtain ⟨hcounts, htol⟩ := counts_create hr hS₀ hinj hfit
  obtain ⟨hcounts', hcred', htol'⟩ := hcounts.final hcred hinj hfits
  exact ⟨hcounts', hcred', (Valid.final ⟨hvalid, hcred, hbits⟩ requests).2.2, htol'.trans htol⟩

/-! ## When a request is answered -/

section Requests

variable {D D' : Device C} {V R : String} {env : BuildEnv} {data : Bytes} {session : PendingSession}
  {serverEnv : ServerEnv}

/-- What a request of an enrolled device is opened as lies in the forward window of the device. -/
lemma Counts.window_of_request (h : S.Counts) (hinj : PseudonymsInjective C S.peers)
    (hpaired : Paired D V S R) (hbuild : D.buildAuthRequest env R = (.ok data, D'))
    (hsession : D'.pending.get R = some session) {o : Opened} {msg1 : Message1} {lam : Lam}
    {plaintext : Bytes} (ho : S.Opens serverEnv data o msg1 lam plaintext) :
    o.peer = V ∧ o.epoch = session.epoch ∧ S.sessionLog.last V < session.epoch ∧
      session.epoch ≤ S.sessionLog.last V + S.tolerance := by
  obtain ⟨msg1', hparse, hpid⟩ := hpaired.pid_of_build hbuild hsession
  obtain rfl := Except.ok.inj (ho.parsed.symm.trans hparse)
  obtain ⟨hnames, hnew, htol⟩ := h.window_of_opens hinj ho
  rw [hpid] at hnames
  obtain ⟨hV, hepoch⟩ := hinj hnames (hpaired.names_of_build hbuild hsession)
  exact ⟨hV, hepoch, hV ▸ hepoch ▸ hnew, hV ▸ hepoch ▸ htol⟩

/-- A request of an enrolled device whose epoch lies in the forward window of the device is
answered, as long as the device is neither blocked nor out of range and the window after the epoch
has 64 bits. -/
theorem Counts.answered (h : S.Counts) (hinj : PseudonymsInjective C S.peers)
    (hbits : S.nonceBits ∈ supportedNonceBits) (hpaired : Paired D V S R)
    (hbuild : D.buildAuthRequest env R = (.ok data, D'))
    (hsession : D'.pending.get R = some session) (hblocked : S.sessionLog.isBlocked V = false)
    (hcoverage : serverEnv.coverage V = true) (hnew : S.sessionLog.last V < session.epoch)
    (htol : session.epoch ≤ S.sessionLog.last V + S.tolerance)
    (hnext : session.epoch + S.tolerance < 2 ^ 64) :
    ∃ result, (S.handleAuthRequest serverEnv data).1 = .ok result ∧
      respond C S.credential.identity S.nonceBits serverEnv
        ⟨session.pid, V, session.epoch, session.nI, session.kStar⟩ = .ok result ∧
      result.peerIdentity = V := by
  have hnames := hpaired.names_of_build hbuild hsession
  have hpeer : V ∈ S.peers.keys := Dict.mem_keys_iff.mpr ⟨_, hpaired.device_secret⟩
  have hres : (S.resolver.resolve C S.peers S.sessionLog serverEnv.resolveReading session.pid).1 =
      .ok (V, session.epoch) :=
    (h.exact.resolve_eq_ok_iff hinj h.fits).mpr ⟨hnames, hnew, htol⟩
  obtain ⟨msg1, plaintext, hmsg, hopens⟩ := hpaired.opens hbuild hsession hres hblocked hcoverage
  obtain ⟨hexact, htolerance⟩ : (S.resolver.resolve C S.peers S.sessionLog serverEnv.resolveReading
      msg1.pid).2.ExactCounter C S.peers S.sessionLog ∧ _ := h.exact.resolve
  rw [← tolerance] at htolerance
  rw [← htolerance] at htol hnext
  have hacc :
    ((S.resolver.resolve C S.peers S.sessionLog serverEnv.resolveReading msg1.pid).2.accept
      C S.peers S.sessionLog serverEnv.acceptReading V session.epoch session.nI).1 = .ok () :=
    (hexact.accept hinj hpeer hnew htol hnext).1
  exact hopens.answered hbits hnames.epoch_range hacc

/-- A request of an enrolled device is answered exactly when its epoch lies in the forward window of
the device, as long as the device is neither blocked nor out of range and the window after the epoch
has 64 bits. -/
theorem Counts.answered_iff (h : S.Counts) (hinj : PseudonymsInjective C S.peers)
    (hbits : S.nonceBits ∈ supportedNonceBits) (hpaired : Paired D V S R)
    (hbuild : D.buildAuthRequest env R = (.ok data, D'))
    (hsession : D'.pending.get R = some session) (hblocked : S.sessionLog.isBlocked V = false)
    (hcoverage : serverEnv.coverage V = true) (hnext : session.epoch + S.tolerance < 2 ^ 64) :
    (∃ result, (S.handleAuthRequest serverEnv data).1 = .ok result) ↔
      S.sessionLog.last V < session.epoch ∧
        session.epoch ≤ S.sessionLog.last V + S.tolerance := by
  constructor
  · rintro ⟨result, hok⟩
    obtain ⟨o, msg1, lam, plaintext, -, hopens, -, -⟩ := handleAuthRequest_ok (Prod.ext hok rfl)
    exact (h.window_of_request hinj hpaired hbuild hsession hopens).2.2
  · rintro ⟨hnew, htol⟩
    obtain ⟨result, hok, -⟩ :=
      h.answered hinj hbits hpaired hbuild hsession hblocked hcoverage hnew htol hnext
    exact ⟨result, hok⟩

/-- A request whose epoch lies in the forward window is accepted: its epoch becomes the last
accepted one of the device, and nothing else of the log changes but the count of its failures. -/
theorem Counts.accepts (h : S.Counts) (hinj : PseudonymsInjective C S.peers)
    (hbits : S.nonceBits ∈ supportedNonceBits) (hpaired : Paired D V S R)
    (hbuild : D.buildAuthRequest env R = (.ok data, D'))
    (hsession : D'.pending.get R = some session) (hblocked : S.sessionLog.isBlocked V = false)
    (hcoverage : serverEnv.coverage V = true) (hnew : S.sessionLog.last V < session.epoch)
    (htol : session.epoch ≤ S.sessionLog.last V + S.tolerance)
    (hnext : session.epoch + S.tolerance < 2 ^ 64) :
    ∃ result S', S.handleAuthRequest serverEnv data = (.ok result, S') ∧
      respond C S.credential.identity S.nonceBits serverEnv
        ⟨session.pid, V, session.epoch, session.nI, session.kStar⟩ = .ok result ∧
      S'.Counts ∧ S'.tolerance = S.tolerance ∧
      S'.sessionLog = (S.sessionLog.acceptEpoch V session.epoch).recordSuccess V := by
  obtain ⟨result, hok, hresp, -⟩ :=
    h.answered hinj hbits hpaired hbuild hsession hblocked hcoverage hnew htol hnext
  refine ⟨result, _, Prod.ext hok rfl, hresp, ?_⟩
  obtain ⟨o, msg1, lam, plaintext, hopen, hopens, -, hlog⟩ :=
    handleAuthRequest_ok (Prod.ext hok rfl)
  obtain ⟨hV, hepoch, -, -⟩ := h.window_of_request hinj hpaired hbuild hsession hopens
  have hfits : (S.step (serverEnv, data)).2.EpochsFit := by
    obtain ⟨hopened, htolerance, hlast⟩ := h.openRequest serverEnv data
    rcases S.handleAuthRequest_cases serverEnv data with ⟨e, herr, -⟩ | ⟨o', ho', heq⟩
    · rw [hopen] at herr
      cases herr
    · obtain rfl := Except.ok.inj (hopen.symm.trans ho')
      rw [Server.step, heq]
      refine hopened.epochsFit_finish serverEnv ?_ ?_
      · rw [hlast, hV, hepoch]
        exact hnew
      · rw [htolerance, hepoch]
        exact hnext
  obtain ⟨hcounts, htolerance⟩ := h.step hinj hfits
  rw [hV, hepoch] at hlog
  exact ⟨hcounts, htolerance, hlog⟩

/-- In every state that a server with a forward tolerance reaches, whatever it was sent before, a
request of an enrolled device that is neither blocked nor out of range is answered exactly when its
epoch lies in the forward window of the device. -/
theorem window_decides {cred : Credential Lam Bytes} {nonceBits F : ℕ}
    (h : S.CountsFrom cred nonceBits F) (hinj : PseudonymsInjective C cred.peerSecrets)
    (hbits : nonceBits ∈ supportedNonceBits) (hpaired : Paired D V S R)
    (hbuild : D.buildAuthRequest env R = (.ok data, D'))
    (hsession : D'.pending.get R = some session) (hblocked : S.sessionLog.isBlocked V = false)
    (hcoverage : serverEnv.coverage V = true) (hnext : session.epoch + F < 2 ^ 64) :
    (∃ result, (S.handleAuthRequest serverEnv data).1 = .ok result) ↔
      S.sessionLog.last V < session.epoch ∧ session.epoch ≤ S.sessionLog.last V + F := by
  obtain ⟨hcounts, rfl, rfl, rfl⟩ := h.counts hinj
  exact hcounts.answered_iff hinj hbits hpaired hbuild hsession hblocked hcoverage hnext

/-- The sample server with a table of counter epochs accepts the first request of the device. -/
lemma exists_served_serverA {D D₁ : Device .plain} {env : BuildEnv} {first : Bytes}
    (hcred : D.credential = deviceOne)
    (hbuild : D.buildAuthRequest env "server-A" = (.ok first, D₁))
    (hepoch : D.requestEpoch env "server-A" = 0) :
    ∃ (S S₁ : Server .plain) (result : AuthResult),
      S.handleAuthRequest (.read 0 0) first = (.ok result, S₁) ∧ S₁.CountsFrom serverA 128 8 ∧
      S₁.sessionLog.last "device-1" = 0 ∧ S₁.sessionLog.isBlocked "device-1" = false := by
  have hr : (Resolver.counterTable {}).Separates := trivial
  have hinj := pseudonymsInjective_serverA
  have hlast : (SessionLog.create 3 8 16).last "device-1" = -1 := SessionLog.last_fresh _ _ _ _
  have hfit : (Resolver.counterTable {}).EpochsFit serverA.peerSecrets
      (SessionLog.create 3 8 16) := by
    rw [Resolver.epochsFit_iff hr]
    intro p _
    rw [show (SessionLog.create 3 8 16).last p = -1 from SessionLog.last_fresh _ _ _ _]
    decide
  obtain ⟨S, hS⟩ := exists_create (C := .plain) (r := .counterTable {}) 128 0 hr rfl hinj hfit
  obtain ⟨-, hcredS, hbits, hlog, -⟩ := valid_create hS
  obtain ⟨hcounts, htol⟩ := counts_create hr hS hinj hfit
  have htolerance : S.tolerance = 8 := htol
  have hinj' : PseudonymsInjective .plain S.peers := by
    rw [peers, hcredS]
    exact hinj
  have hpaired : Paired D "device-1" S "server-A" := .of_samplePair hcred hcredS
  obtain ⟨session, hsession, -, hsepoch, -⟩ := hpaired.session_of_build hbuild
  have hzero : session.epoch = 0 := hsepoch.trans hepoch
  obtain ⟨result, S₁, hanswer, -, hcounts₁, htolerance₁, hlog₁⟩ :=
    hcounts.accepts hinj' (by rw [hbits]; decide) hpaired hbuild hsession (by rw [hlog]; rfl)
      (show (ServerEnv.read 0 0).coverage "device-1" = true from rfl)
      (by rw [hlog, hlast, hzero]; decide) (by rw [hlog, hlast, hzero, htolerance]; decide)
      (by rw [hzero, htolerance]; decide)
  have hfinal : S₁ = Machine.final Server.step S [(.read 0 0, first)] :=
    (congrArg Prod.snd hanswer).symm
  refine ⟨S, S₁, result, hanswer,
    ⟨_, _, 0, S, [(.read 0 0, first)], hr, rfl, hfit, hS, ?_, hfinal⟩, ?_, ?_⟩
  · intro x hx
    obtain rfl := List.mem_singleton.mp hx
    show (Machine.final Server.step S [(.read 0 0, first)]).EpochsFit
    exact hfinal ▸ hcounts₁.fits
  · rw [hlog₁, SessionLog.last_recordSuccess, SessionLog.last_acceptEpoch, if_pos rfl, hzero, hlog,
      hlast]
    decide
  · rw [hlog₁, hlog, hzero]
    decide +kernel

/-- After an accepted request, the next request of the device is answered and the first one, sent
again, is not. -/
theorem window_decides_second : ∃ (D D₁ D₂ : Device .plain) (S S₁ : Server .plain) (env : BuildEnv)
    (first second : Bytes) (result : AuthResult),
    D.buildAuthRequest env "server-A" = (.ok first, D₁) ∧
    S.handleAuthRequest (.read 0 0) first = (.ok result, S₁) ∧
    D₁.buildAuthRequest env "server-A" = (.ok second, D₂) ∧
    (∃ result, (S₁.handleAuthRequest (.read 0 0) second).1 = .ok result) ∧
    ¬ ∃ result, (S₁.handleAuthRequest (.read 0 0) first).1 = .ok result := by
  let D : Device .plain := { entity := { credential := deviceOne } }
  let env : BuildEnv := ⟨fun _ => true, 0, .zeros, .zeros, 0⟩
  -- the first request is accepted
  have hepoch : D.requestEpoch env "server-A" = 0 := rfl
  have hserver : D.credential.peerSecrets.get "server-A" = some 2 := by decide
  obtain ⟨first, D₁, hbuild⟩ : ∃ data D', D.buildAuthRequest env "server-A" = (.ok data, D') :=
    Device.exists_buildAuthRequest rfl rfl hserver (by decide) (by decide)
  obtain ⟨S, S₁, result, hanswer, hreached, hlast, hblocked⟩ :=
    exists_served_serverA rfl hbuild hepoch
  have hcred : S₁.credential = serverA := (hreached.counts pseudonymsInjective_serverA).2.1
  have hpaired : Paired D "device-1" S₁ "server-A" := .of_samplePair rfl hcred
  obtain ⟨session, hsession, -, hsepoch, -⟩ := hpaired.session_of_build hbuild
  have hzero : session.epoch = 0 := hsepoch.trans hepoch
  -- the second one is in the window, and the first one is not any more
  obtain ⟨-, -, -, -, -, -, hcredD, hbitsD, -, hlogD, hclockD, -⟩ :=
    Device.buildAuthRequest_ok hbuild
  have hnext : D₁.requestEpoch env "server-A" = 1 := by
    rw [Device.requestEpoch, hclockD, if_neg Bool.false_ne_true,
      Device.nextEpoch_of_build hbuild rfl]
    rfl
  have hpaired₁ : Paired D₁ "device-1" S₁ "server-A" := .of_samplePair hcredD hcred
  obtain ⟨second, D₂, hbuild₁⟩ : ∃ data D', D₁.buildAuthRequest env "server-A" = (.ok data, D') :=
    Device.exists_buildAuthRequest (by rw [hlogD]; rfl) rfl hpaired₁.server_secret
      (by rw [hbitsD]; decide) (by rw [hnext]; decide)
  obtain ⟨session₁, hsession₁, -, hsepoch₁, -⟩ := hpaired₁.session_of_build hbuild₁
  have hone : session₁.epoch = 1 := hsepoch₁.trans hnext
  refine ⟨D, D₁, D₂, S, S₁, env, first, second, result, hbuild, hanswer, hbuild₁, ?_, ?_⟩
  · rw [window_decides hreached pseudonymsInjective_serverA (by decide) hpaired₁ hbuild₁ hsession₁
      hblocked rfl (by rw [hone]; decide), hlast, hone]
    decide
  · rw [window_decides hreached pseudonymsInjective_serverA (by decide) hpaired hbuild hsession
      hblocked rfl (by rw [hzero]; decide), hlast, hzero]
    decide

/-- A request whose epoch does not lie in the forward window is rejected by the resolver, and the
log does not change. -/
theorem Counts.rejects (h : S.Counts) (hinj : PseudonymsInjective C S.peers)
    (hpaired : Paired D V S R) (hbuild : D.buildAuthRequest env R = (.ok data, D'))
    (hsession : D'.pending.get R = some session)
    (hout : ¬ (S.sessionLog.last V < session.epoch ∧
      session.epoch ≤ S.sessionLog.last V + S.tolerance)) :
    ∃ e S', S.handleAuthRequest serverEnv data = (.error e, S') ∧
      (S.resolver.resolve C S.peers S.sessionLog serverEnv.resolveReading
        session.pid).1 = .error e ∧
      S'.Counts ∧ S'.tolerance = S.tolerance ∧ S'.sessionLog = S.sessionLog := by
  obtain ⟨msg1, hparse, hpid⟩ := hpaired.pid_of_build hbuild hsession
  have hnames := hpaired.names_of_build hbuild hsession
  obtain ⟨hcounts, htolerance, -⟩ := h.openRequest serverEnv data
  rcases hres : S.resolver.resolve C S.peers S.sessionLog serverEnv.resolveReading msg1.pid
    with ⟨e | ⟨peer, epoch⟩, r⟩
  · have hopen : S.openRequest serverEnv data = (.error e, { S with resolver := r }) := by
      rw [Server.openRequest, hparse]
      dsimp only
      rw [resolvePseudonym, hres]
    rw [hopen] at hcounts htolerance
    refine ⟨e, { S with resolver := r }, ?_, ?_, hcounts, htolerance, rfl⟩
    · rw [handleAuthRequest, hopen]
    · rw [← hpid, hres]
  · have hfst : (S.resolver.resolve C S.peers S.sessionLog serverEnv.resolveReading msg1.pid).1 =
        .ok (peer, epoch) := by rw [hres]
    obtain ⟨hnames', hnew, htol⟩ := (h.exact.resolve_eq_ok_iff hinj h.fits).mp hfst
    rw [hpid] at hnames'
    obtain ⟨rfl, rfl⟩ := hinj hnames' hnames
    exact absurd ⟨hnew, htol⟩ hout

/-- With a counter table, a request whose next window goes beyond 64 bits is not answered. -/
theorem Counts.not_answered_beyond (h : S.Counts) (hinj : PseudonymsInjective C S.peers)
    {r : CounterTable} (hr : S.resolver = .counterTable r) (hpaired : Paired D V S R)
    (hbuild : D.buildAuthRequest env R = (.ok data, D'))
    (hsession : D'.pending.get R = some session) (hbeyond : 2 ^ 64 ≤ session.epoch + S.tolerance)
    (result : AuthResult) : (S.handleAuthRequest serverEnv data).1 ≠ .ok result := by
  intro hok
  rcases S.handleAuthRequest_cases serverEnv data with ⟨e, -, heq⟩ | ⟨o, ho, heq⟩
  · rw [heq] at hok
    cases hok
  · rw [heq] at hok
    obtain ⟨⟨msg1, lam, plaintext, hopens, hres⟩, hlog, hcred, -⟩ :=
      openRequest_ok (Prod.ext ho rfl)
    obtain ⟨hV, hepoch, hnew, htol⟩ := h.window_of_request hinj hpaired hbuild hsession hopens
    obtain ⟨⟨r', hacc, -⟩, -⟩ := finish_ok (Prod.ext hok rfl)
    have hpeer : V ∈ S.peers.keys := Dict.mem_keys_iff.mpr ⟨_, hpaired.device_secret⟩
    have hpeers : (S.openRequest serverEnv data).2.peers = S.peers :=
      congrArg Credential.peerSecrets hcred
    have hexact : r.Exact C S.peers S.sessionLog := by
      have hexact := h.exact
      rwa [hr] at hexact
    have htolerance : S.tolerance = r.forward S.sessionLog := by rw [tolerance, hr]; rfl
    rw [htolerance] at htol hbeyond
    have herr := hexact.accept_beyond hpeer hnew htol hbeyond
    rw [hres, hr, hpeers, hlog, hV, hepoch] at hacc
    have hok : (r.accept C S.peers S.sessionLog V session.epoch).1 = .ok () :=
        congrArg Prod.fst hacc
    cases herr.symm.trans hok

end Requests

end Server

end HybridEccAuth

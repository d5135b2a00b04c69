import HybridEccAuth.Protocol.Server

/-!
# Tables refine scans

A server with a table of pseudonyms behaves as the server that scans for them.

`Resolver.Simulates` relates two resolvers over one session log: they resolve alike,
and accepting what was resolved leaves them related.  `Server.Twin` relates two
servers that share everything but their resolvers.  The step lemma
`Server.Twin.handleAuthRequest` lifts a simulation of resolvers to one request, and
`Machine.simulation` to whole runs.  The two instances are the counter table over the
linear scan (`counterSimulation`) and the clock table over the clock scan
(`clockSimulation`).
-/

namespace HybridEccAuth

/-- Two outcomes agree: they return the same, or they raise exceptions of related kinds. -/
def OutcomesAgree {α : Type} (rel : ExcKind → ExcKind → Prop) :
    Except Exc α → Except Exc α → Prop
  | .ok a, .ok b => a = b
  | .error e, .error e' => rel e.kind e'.kind
  | _, _ => False

/-- Equal outcomes agree when every kind is related to itself. -/
lemma outcomesAgree_refl {α : Type} {rel : ExcKind → ExcKind → Prop} (hrefl : ∀ k, rel k k)
    (x : Except Exc α) : OutcomesAgree rel x x := by
  cases x with
  | ok a => exact rfl
  | error e => exact hrefl e.kind

namespace Resolver

/-- Two resolvers simulate each other under a relation `Sim` over the log that they share.  For a
request in surroundings with `EnvOk` they resolve alike; what they resolve is `Ready`; and they
accept alike what is ready, provided the log with the new epoch satisfies `Fits`. -/
structure Simulates (C : Crypto) (peers : Dict String Lam) (rel : ExcKind → ExcKind → Prop)
    (Sim : SessionLog → Resolver → Resolver → Prop) (EnvOk : ServerEnv → Prop)
    (Fits : SessionLog → Prop) (Ready : SessionLog → String → ℤ → Prop) : Prop where
  rel_refl : ∀ k, rel k k
  congr : ∀ {log log' r r'}, Sim log r r' → (∀ p, log'.last p = log.last p) →
    log'.forwardTolerance = log.forwardTolerance → Sim log' r r'
  resolve : ∀ {env log r r'} pid, EnvOk env → Fits log → Sim log r r' →
    OutcomesAgree rel (r.resolve C peers log env.resolveReading pid).1
      (r'.resolve C peers log env.resolveReading pid).1 ∧
    Sim log (r.resolve C peers log env.resolveReading pid).2
      (r'.resolve C peers log env.resolveReading pid).2
  ready : ∀ {env log r r'} pid peer epoch, EnvOk env → Fits log → Sim log r r' →
    (r.resolve C peers log env.resolveReading pid).1 = .ok (peer, epoch) → Ready log peer epoch
  accept : ∀ {log r r' peer epoch} reading nI, Sim log r r' → Ready log peer epoch →
    Fits (log.acceptEpoch peer epoch) →
    (r.accept C peers log reading peer epoch nI).1 =
      (r'.accept C peers log reading peer epoch nI).1 ∧
    (r.accept C peers log reading peer epoch nI).2.2 =
      (r'.accept C peers log reading peer epoch nI).2.2 ∧
    Sim (r.accept C peers log reading peer epoch nI).2.2
      (r.accept C peers log reading peer epoch nI).2.1
      (r'.accept C peers log reading peer epoch nI).2.1

end Resolver

namespace Server

variable {C : Crypto} {peers : Dict String Lam} {rel : ExcKind → ExcKind → Prop}
  {Sim : SessionLog → Resolver → Resolver → Prop} {EnvOk : ServerEnv → Prop}
  {Fits : SessionLog → Prop} {Ready : SessionLog → String → ℤ → Prop}

/-- Two servers that share everything but their resolvers, which are related. -/
structure Twin (peers : Dict String Lam) (Sim : SessionLog → Resolver → Resolver → Prop)
    (S T : Server C) : Prop where
  peers_eq : S.peers = peers
  eq_with : T = { S with resolver := T.resolver }
  sim : Sim S.sessionLog S.resolver T.resolver

/-- A server has a twin when the other resolver attaches and is related to its own. -/
lemma exists_twin {cred : Credential Lam Bytes} {nonceBits : ℕ} {log : SessionLog}
    {r r' r₁ : Resolver} {reading : ℚ} {S : Server C}
    (hS : create cred nonceBits log r reading = .ok S)
    (hatt : r'.attach C cred.peerSecrets log reading = (.ok (), r₁))
    (hsim : Sim log S.resolver r₁) :
    ∃ T, create (C := C) cred nonceBits log r' reading = .ok T ∧ Twin cred.peerSecrets Sim S T := by
  unfold create at hS ⊢
  split_ifs at hS ⊢
  rcases hr : r.attach C cred.peerSecrets log reading with ⟨e | u, r₂⟩
  · rw [hr] at hS
    cases hS
  · rw [hr] at hS
    obtain rfl := Except.ok.inj hS
    rw [hatt]
    exact ⟨_, rfl, rfl, rfl, hsim⟩

/-- Twins open a request alike. -/
lemma Twin.openRequest (hsim : Resolver.Simulates C peers rel Sim EnvOk Fits Ready)
    {S T : Server C} (h : Twin peers Sim S T) {env : ServerEnv} (data : Bytes) (henv : EnvOk env)
    (hfits : Fits S.sessionLog) :
    OutcomesAgree rel (S.openRequest env data).1 (T.openRequest env data).1 ∧
      Twin peers Sim (S.openRequest env data).2 (T.openRequest env data).2 ∧
      ∀ o, (S.openRequest env data).1 = .ok o → Ready S.sessionLog o.peer o.epoch := by
  obtain ⟨rfl, hT, hr⟩ := h
  obtain ⟨E, nonceBits, log, r⟩ := S
  obtain ⟨E', nonceBits', log', r'⟩ := T
  cases hT
  rcases hparse : Message1.fromBytes data with e | msg1
  · simp only [Server.openRequest, hparse]
    exact ⟨hsim.rel_refl _, ⟨rfl, rfl, hr⟩, fun o ho => by cases ho⟩
  · obtain ⟨hagree, hr₁⟩ := hsim.resolve msg1.pid henv hfits hr
    have hready := fun p e => hsim.ready msg1.pid p e henv hfits hr
    rcases hres : r.resolve C E.credential.peerSecrets log env.resolveReading msg1.pid with ⟨x, r₁⟩
    rcases hres' : r'.resolve C E.credential.peerSecrets log env.resolveReading msg1.pid with
      ⟨x', r₁'⟩
    dsimp only at hagree hr₁ hready hr hfits
    unfold Server.peers Server.credential at *
    simp only [hres, hres'] at hagree hr₁ hready
    simp only [Server.openRequest, hparse, resolvePseudonym, Server.peers, Server.credential, hres,
      hres']
    rcases x with e | ⟨p, e⟩ <;> rcases x' with e' | q
    · exact ⟨hagree, ⟨rfl, rfl, hr₁⟩, fun o ho => by cases ho⟩
    · exact hagree.elim
    · exact hagree.elim
    · obtain rfl : (p, e) = q := hagree
      dsimp only
      obtain ⟨hcred, hlog⟩ := verify_frame C E log env.coverage msg1 p e
      rcases hver : verify C E log env.coverage msg1 p e with ⟨y, E₁, log₁⟩
      rw [hver] at hcred hlog
      dsimp only at hcred hlog ⊢
      refine ⟨outcomesAgree_refl hsim.rel_refl y,
        ⟨congrArg Credential.peerSecrets hcred, rfl, ?_⟩, ?_⟩
      · rcases hlog with rfl | rfl
        · exact hr₁
        · exact hsim.congr hr₁ (fun _ => SessionLog.last_recordFailure)
            SessionLog.recordFailure_frame.2.2.1
      · rintro o rfl
        obtain ⟨-, -, -, -, -, rfl, rfl, -⟩ := verify_ok hver
        exact hready _ _ rfl

/-- Twins finish a request alike, when what was opened is ready. -/
lemma Twin.finish (hsim : Resolver.Simulates C peers rel Sim EnvOk Fits Ready)
    {S T : Server C} (h : Twin peers Sim S T) (env : ServerEnv) {o : Opened}
    (hready : Ready S.sessionLog o.peer o.epoch)
    (hfits : Fits (S.sessionLog.acceptEpoch o.peer o.epoch)) :
    (S.finish env o).1 = (T.finish env o).1 ∧
      Twin peers Sim (S.finish env o).2 (T.finish env o).2 := by
  obtain ⟨rfl, hT, hr⟩ := h
  obtain ⟨E, nonceBits, log, r⟩ := S
  obtain ⟨E', nonceBits', log', r'⟩ := T
  cases hT
  obtain ⟨hx, hlog, hr₁⟩ := hsim.accept env.acceptReading o.nI hr hready hfits
  unfold Server.peers Server.credential at *
  dsimp only at hx hlog hr₁
  unfold Server.finish Server.peers Server.credential
  dsimp only
  rcases hacc : r.accept C E.credential.peerSecrets log env.acceptReading o.peer o.epoch o.nI with
    ⟨x, r₁, log₁⟩
  rcases hacc' : r'.accept C E.credential.peerSecrets log env.acceptReading o.peer o.epoch o.nI with
    ⟨x', r₁', log₁'⟩
  rw [hacc, hacc'] at hx hlog hr₁
  dsimp only at hx hlog hr₁
  subst hx hlog
  rcases x with e | u
  · exact ⟨rfl, rfl, rfl, hr₁⟩
  · exact ⟨rfl, rfl, rfl, hsim.congr hr₁ (fun _ => SessionLog.last_recordSuccess) rfl⟩

/-- Twins handle a request alike, provided the log with the epoch that is accepted fits. -/
theorem Twin.handleAuthRequest (hsim : Resolver.Simulates C peers rel Sim EnvOk Fits Ready)
    {S T : Server C} (h : Twin peers Sim S T) {env : ServerEnv} {data : Bytes} (henv : EnvOk env)
    (hfits : Fits S.sessionLog) (hnext : ∀ o, (S.openRequest env data).1 = .ok o →
      Fits (S.sessionLog.acceptEpoch o.peer o.epoch)) :
    OutcomesAgree rel (S.handleAuthRequest env data).1 (T.handleAuthRequest env data).1 ∧
      Twin peers Sim (S.handleAuthRequest env data).2 (T.handleAuthRequest env data).2 := by
  obtain ⟨hagree, htwin, hready⟩ := h.openRequest hsim data henv hfits
  rcases hS : S.openRequest env data with ⟨x, S₁⟩
  rcases hT : T.openRequest env data with ⟨y, T₁⟩
  rw [hS, hT] at hagree htwin
  rw [hS] at hready hnext
  unfold Server.handleAuthRequest
  rw [hS, hT]
  rcases x with e | o <;> rcases y with e' | o'
  · exact ⟨hagree, htwin⟩
  · exact hagree.elim
  · exact hagree.elim
  · obtain rfl : o = o' := hagree
    have hlog := (openRequest_ok hS).2.1
    obtain ⟨hres, htwin'⟩ := htwin.finish hsim env (hlog ▸ hready o rfl) (hlog ▸ hnext o rfl)
    refine ⟨?_, htwin'⟩
    dsimp only
    rw [hres]
    exact outcomesAgree_refl hsim.rel_refl _

end Server

/-! ## The counter table and the linear scan -/

/-- The kinds of exceptions are the same, except that a stale pseudonym may be unknown. -/
def SameOrStale (k k' : ExcKind) : Prop := k = k' ∨ (k = .replayDetected ∧ k' = .unknownPeerError)

/-- A linear scan, and a counter table that is exact for the same log. -/
def ScanAndTable (C : Crypto) (peers : Dict String Lam) (log : SessionLog) (r r' : Resolver) :
    Prop :=
  ∃ l t, r = .linearScan l ∧ r' = .counterTable t ∧ t.forward? = none ∧ t.Exact C peers log

/-- The counter table with the default forward window simulates the linear scan. -/
theorem counterSimulation {C : Crypto} {peers : Dict String Lam}
    (hinj : PseudonymsInjective C peers) :
    Resolver.Simulates C peers SameOrStale (ScanAndTable C peers) (fun _ => True)
      (EpochsBelow peers) fun log peer epoch =>
        peer ∈ peers.keys ∧ log.last peer < epoch ∧
          epoch ≤ log.last peer + log.forwardTolerance where
  rel_refl k := Or.inl rfl
  congr := by
    rintro log log' - - ⟨l, t, rfl, rfl, hfwd, hexact⟩ hlast htol
    exact ⟨l, t, rfl, rfl, hfwd, hexact.congr hlast htol⟩
  resolve := by
    rintro env log - - pid - hbelow ⟨l, t, rfl, rfl, hfwd, hexact⟩
    refine ⟨?_, ⟨_, t, rfl, rfl, hfwd, hexact⟩⟩
    have hforward : t.forward log = log.forwardTolerance := by rw [CounterTable.forward, hfwd]; rfl
    dsimp only [Resolver.resolve]
    rcases hscan : (l.resolve C peers log pid).1 with e | ⟨p, ep⟩ <;>
      rcases htable : t.resolve pid with e' | ⟨p', ep'⟩
    · obtain ⟨hkind, -⟩ := CounterTable.kind_of_resolve peers.keys htable
      rcases (LinearScan.kind_of_resolve hbelow hscan).1 with hk | hk
      · exact Or.inr ⟨hk, hkind⟩
      · exact Or.inl (hk.trans hkind.symm)
    · -- what the table resolves is new and within the tolerance, so the scan resolves it
      obtain ⟨hnames, hnew, htol⟩ := hexact.resolve_eq_ok_iff.mp htable
      rw [LinearScan.resolve_complete hinj hbelow hnames hnew (hforward ▸ htol)] at hscan
      cases hscan
    · obtain ⟨hnames, hnew, htol⟩ := LinearScan.resolve_sound hscan
      rw [hexact.resolve_eq_ok_iff.mpr ⟨hnames, hnew, hforward.symm ▸ htol⟩] at htable
      cases htable
    · obtain ⟨hnames, -, -⟩ := LinearScan.resolve_sound hscan
      obtain ⟨hnames', -, -⟩ := hexact.resolve_eq_ok_iff.mp htable
      obtain ⟨rfl, rfl⟩ := hinj hnames hnames'
      exact rfl
  ready := by
    rintro env log - - pid peer epoch - - ⟨l, t, rfl, rfl, -, -⟩ hres
    obtain ⟨⟨lam, hlam, -⟩, hnew, htol⟩ := LinearScan.resolve_sound hres
    exact ⟨Dict.mem_keys_iff.mpr ⟨lam, hlam⟩, hnew, htol⟩
  accept := by
    rintro log - - peer epoch reading nI ⟨l, t, rfl, rfl, hfwd, hexact⟩ ⟨hpeer, hnew, htol⟩ hbelow
    have hforward : t.forward log = log.forwardTolerance := by rw [CounterTable.forward, hfwd]; rfl
    have hnext : epoch + t.forward log < 2 ^ 64 := by
      have h := hbelow peer hpeer
      rw [SessionLog.last_acceptEpoch, if_pos rfl, max_eq_right (le_of_lt hnew),
        SessionLog.acceptEpoch_frame.2.1] at h
      rwa [hforward]
    obtain ⟨hok, hexact', hfwd'⟩ := hexact.accept hinj hpeer hnew (hforward ▸ htol) hnext
    exact ⟨hok.symm, rfl, ⟨l, _, rfl, rfl, hfwd'.trans hfwd, hexact'⟩⟩

/-- Attaching the two resolvers relates them. -/
lemma scanAndTable_attach {C : Crypto} {peers : Dict String Lam} {log : SessionLog}
    (hinj : PseudonymsInjective C peers) (hbelow : EpochsBelow peers log) (reading : ℚ) :
    ∃ r', (Resolver.counterTable {}).attach C peers log reading = (.ok (), r') ∧
      ScanAndTable C peers log (.linearScan {}) r' := by
  have hattach : (CounterTable.attach C peers log {}).1 = .ok () ∧
      (CounterTable.attach C peers log {}).2.Exact C peers log ∧
      (CounterTable.attach C peers log {}).2.forward? = none :=
    CounterTable.exact_attach hinj {} hbelow
  obtain ⟨hok, hexact, hfwd⟩ := hattach
  exact ⟨_, Prod.ext hok rfl, ⟨{}, _, rfl, rfl, hfwd, hexact⟩⟩

/-- If the log fits after a request, it fits after the epoch of that request was accepted. -/
lemma Server.epochsBelow_acceptEpoch {C : Crypto} {S : Server C} {peers : Dict String Lam}
    (hcounter : S.resolver.IsCounter) {env : ServerEnv} {data : Bytes} {o : Opened}
    (hok : (S.openRequest env data).1 = .ok o)
    (hbelow : EpochsBelow peers (S.handleAuthRequest env data).2.sessionLog) :
    EpochsBelow peers (S.sessionLog.acceptEpoch o.peer o.epoch) := by
  rcases hopen : S.openRequest env data with ⟨x, S₁⟩
  rw [hopen] at hok
  obtain rfl : x = .ok o := hok
  obtain ⟨⟨msg1, lam, plaintext, -, hres⟩, hlog, -, -⟩ := openRequest_ok hopen
  have hcounter₁ : S₁.resolver.IsCounter := by
    rw [hres]
    exact Resolver.isCounter_resolve.mpr hcounter
  have hfinish : (S.handleAuthRequest env data).2 = (S₁.finish env o).2 := by
    rw [handleAuthRequest, hopen]
  rw [hfinish] at hbelow
  rcases S₁.sessionLog_finish hcounter₁ env o with heq | heq
  · rwa [heq, hlog] at hbelow
  · rw [heq, hlog] at hbelow
    exact hbelow.congr (fun p => SessionLog.last_recordSuccess.symm) rfl

/-- The counter table refines the linear scan.  From any session log, and as long as the epochs
stay below the bound, the server with the table accepts exactly what the server that scans accepts,
with the same results, and the two session logs are the same after every request. -/
theorem counterTable_refines_linearScan {C : Crypto} {cred : Credential Lam Bytes}
    {nonceBits : ℕ} {log : SessionLog} {reading : ℚ} {S : Server C}
    (hinj : PseudonymsInjective C cred.peerSecrets) (hlog : EpochsBelow cred.peerSecrets log)
    (hS : Server.create cred nonceBits log (.linearScan {}) reading = .ok S) :
    ∃ T, Server.create (C := C) cred nonceBits log (.counterTable {}) reading = .ok T ∧
      ∀ requests, (∀ x ∈ Machine.trace Server.step S requests,
          EpochsBelow cred.peerSecrets x.2.sessionLog) →
        List.Forall₂
          (fun x y => OutcomesAgree SameOrStale x.1 y.1 ∧ x.2.sessionLog = y.2.sessionLog)
          (Machine.trace Server.step S requests) (Machine.trace Server.step T requests) := by
  obtain ⟨r', hatt, hsim⟩ := scanAndTable_attach hinj hlog reading
  obtain ⟨-, -, -, hlogS, -, hattS⟩ := Server.valid_create hS
  obtain ⟨T, hT, htwin⟩ := Server.exists_twin hS hatt ((Prod.mk.inj hattS).2 ▸ hsim)
  refine ⟨T, hT, fun requests hfits => ?_⟩
  -- the scan side stays below the bound, and the table side stays its twin
  have hstep : ∀ (S T : Server C) i,
      (Server.Twin cred.peerSecrets (ScanAndTable C cred.peerSecrets) S T ∧
        EpochsBelow cred.peerSecrets S.sessionLog) →
      EpochsBelow cred.peerSecrets (S.step i).2.sessionLog →
      OutcomesAgree SameOrStale (S.step i).1 (T.step i).1 ∧
        Server.Twin cred.peerSecrets (ScanAndTable C cred.peerSecrets) (S.step i).2 (T.step i).2 ∧
        EpochsBelow cred.peerSecrets (S.step i).2.sessionLog := by
    rintro S T ⟨env, data⟩ ⟨htwin, hbelow⟩ hnext
    obtain ⟨l, t, hl, -⟩ := htwin.sim
    have hcounter : S.resolver.IsCounter := by
      rw [hl]
      trivial
    obtain ⟨hagree, htwin'⟩ := htwin.handleAuthRequest (counterSimulation hinj) trivial hbelow
      (fun o hok => Server.epochsBelow_acceptEpoch hcounter hok hnext)
    exact ⟨hagree, htwin', hnext⟩
  refine (Machine.simulation hstep ⟨htwin, hlogS ▸ hlog⟩ (Machine.allSteps_of_trace hfits)).imp ?_
  rintro x y ⟨hagree, htwin, -⟩
  exact ⟨hagree, by rw [htwin.eq_with]⟩

/-- The refinement for the server of the sample pair, which starts with a fresh log. -/
theorem counterTable_refines_linearScan_serverA :
    ∃ T, Server.create (C := .plain) serverA 128 {} (.counterTable {}) 0 = .ok T ∧
      ∀ requests, (∀ x ∈ Machine.trace Server.step
          (⟨{ credential := serverA }, 128, {}, .linearScan {}⟩ : Server .plain) requests,
          EpochsBelow serverA.peerSecrets x.2.sessionLog) →
        List.Forall₂
          (fun x y => OutcomesAgree SameOrStale x.1 y.1 ∧ x.2.sessionLog = y.2.sessionLog)
          (Machine.trace Server.step
            (⟨{ credential := serverA }, 128, {}, .linearScan {}⟩ : Server .plain) requests)
          (Machine.trace Server.step T requests) :=
  counterTable_refines_linearScan pseudonymsInjective_serverA
    (fun p _ => by rw [SessionLog.last_fresh]; decide) rfl

/-! ## The clock table and the clock scan -/

/-- A clock scan, and a clock table that is exact, with the same settings and the same nonces. -/
def ClockScanAndTable (C : Crypto) (peers : Dict String Lam) (settings : ClockSettings)
    (_ : SessionLog) (r r' : Resolver) : Prop :=
  ∃ s t, r = .clockScan s ∧ r' = .clockTable t ∧ s.settings = settings ∧ t.settings = settings ∧
    s.nonces = t.nonces ∧ t.Exact C peers

/-- The clock table simulates the clock scan. -/
theorem clockSimulation {C : Crypto} {peers : Dict String Lam} (settings : ClockSettings)
    (hinj : PseudonymsInjective C peers) :
    Resolver.Simulates C peers Eq (ClockScanAndTable C peers settings)
      (fun env => settings.Readable env.resolveReading) (fun _ => True) (fun _ _ _ => True) where
  rel_refl _ := rfl
  congr h _ _ := h
  resolve := by
    rintro env log - - pid hread - ⟨s, t, rfl, rfl, hs, ht, hnonces, hexact⟩
    have hrange : ∀ e ∈ t.settings.window env.resolveReading, 0 ≤ e ∧ e < 2 ^ 64 := by
      rw [ht]
      exact ClockSettings.window_range hread
    have hframe : (s.resolve C peers env.resolveReading pid).2.settings = s.settings ∧
        (s.resolve C peers env.resolveReading pid).2.nonces = s.nonces := ClockScan.resolve_frame
    have hframe' : (t.resolve C peers env.resolveReading pid).2.settings = t.settings ∧
        (t.resolve C peers env.resolveReading pid).2.nonces = t.nonces := ClockTable.resolve_frame
    refine ⟨?_, _, _, rfl, rfl, hframe.1.trans hs, hframe'.1.trans ht,
      hframe.2.trans (hnonces.trans hframe'.2.symm), (hexact.resolve hinj hrange pid).1⟩
    dsimp only [Resolver.resolve]
    rcases hexact.resolve_scan hinj hrange (hs.trans ht.symm) pid with
      ⟨hit, hscan, htable⟩ | ⟨e, e', hscan, hkind, htable, hkind'⟩
    · rw [hscan, htable]
      exact rfl
    · rw [hscan, htable]
      exact hkind.trans hkind'.symm
  ready _ _ _ _ _ _ _ := trivial
  accept := by
    rintro log - - peer epoch reading nI ⟨s, t, rfl, rfl, hs, ht, hnonces, hexact⟩ - -
    dsimp only [Resolver.accept]
    rw [hs, ht, hnonces]
    exact ⟨rfl, rfl, _, _, rfl, rfl, rfl, rfl, rfl, hexact⟩

/-- Attaching the two clock resolvers at the same reading relates them. -/
lemma clockScanAndTable_attach {C : Crypto} {peers : Dict String Lam} {log : SessionLog}
    {settings : ClockSettings} {reading : ℚ} (hinj : PseudonymsInjective C peers)
    (hreading : settings.Readable reading) :
    ∃ r', (Resolver.clockTable { settings := settings }).attach C peers log reading =
        (.ok (), r') ∧
      ClockScanAndTable C peers settings log (.clockScan { settings := settings }) r' := by
  have hrange := ClockSettings.window_range hreading
  have hattach : (ClockTable.attach C peers { settings := settings } reading).1 = .ok () ∧
      (ClockTable.attach C peers { settings := settings } reading).2.Exact C peers :=
    ClockTable.exact_attach hinj hrange
  have hframe : (ClockTable.attach C peers { settings := settings } reading).2.settings = settings ∧
      (ClockTable.attach C peers { settings := settings } reading).2.nonces = .empty :=
    ClockTable.advance_frame
  obtain ⟨hok, hexact⟩ := hattach
  obtain ⟨hset, hnonces⟩ := hframe
  exact ⟨_, Prod.ext hok rfl, ⟨_, _, rfl, rfl, rfl, hset, hnonces.symm, hexact⟩⟩

/-- Two clock servers are in the same state: the same session log and the same accepted nonces. -/
def SameClockState {C : Crypto} (S T : Server C) : Prop :=
  S.sessionLog = T.sessionLog ∧
    ∃ s t, S.resolver = .clockScan s ∧ T.resolver = .clockTable t ∧ s.nonces = t.nonces

/-- The table of a clock server holds exactly the pseudonyms of the peers at the given epochs. -/
def TableHolds {C : Crypto} (T : Server C) (epochs : List ℤ) : Prop :=
  ∃ t, T.resolver = .clockTable t ∧
    t.table.Represents fun pid v => Names C T.peers pid v.1 v.2 ∧ v.2 ∈ epochs

/-- Twin clock servers resolve every pseudonym alike, and the table then holds the window. -/
lemma Server.Twin.resolvePseudonym_clock {C : Crypto} {peers : Dict String Lam}
    {settings : ClockSettings} {S T : Server C}
    (h : Server.Twin peers (ClockScanAndTable C peers settings) S T)
    (hinj : PseudonymsInjective C peers) (env : ServerEnv) (pid : Bytes)
    (hread : settings.Readable env.resolveReading) :
    ((∃ q, (S.resolvePseudonym env pid).1 = .ok q ∧ (T.resolvePseudonym env pid).1 = .ok q) ∨
      ∃ e e', (S.resolvePseudonym env pid).1 = .error e ∧ e.kind = .unknownPeerError ∧
        (T.resolvePseudonym env pid).1 = .error e' ∧ e'.kind = .unknownPeerError) ∧
      TableHolds (T.resolvePseudonym env pid).2 (settings.window env.resolveReading) := by
  obtain ⟨rfl, hT, s, t, hs, ht, hset, hset', -, hexact⟩ := h
  have hpeers : T.peers = S.peers := by rw [hT]
  have hlog : T.sessionLog = S.sessionLog := by rw [hT]
  have hrange : ∀ e ∈ t.settings.window env.resolveReading, 0 ≤ e ∧ e < 2 ^ 64 := by
    rw [hset']
    exact ClockSettings.window_range hread
  have hS₁ : (S.resolvePseudonym env pid).1 =
      (s.resolve C S.peers env.resolveReading pid).1 := by
    rw [Server.resolvePseudonym, hs]
    rfl
  have hT₁ : (T.resolvePseudonym env pid).1 =
      (t.resolve C S.peers env.resolveReading pid).1 := by
    rw [Server.resolvePseudonym, ht, hpeers]
    rfl
  have hT₂ : (T.resolvePseudonym env pid).2.resolver =
      .clockTable (t.resolve C S.peers env.resolveReading pid).2 := by
    rw [Server.resolvePseudonym, ht, hpeers]
    rfl
  obtain ⟨hexact', htabled⟩ := hexact.resolve hinj hrange pid
  refine ⟨?_, _, hT₂, ?_⟩
  · rw [hS₁, hT₁]
    exact hexact.resolve_scan hinj hrange (hset.trans hset'.symm) pid
  · have hpeers' : (T.resolvePseudonym env pid).2.peers = S.peers := hpeers
    rw [hpeers']
    apply Dict.Represents.congr hexact'
    intro pid v
    rw [htabled, hset', List.mem_toFinset]

/-- The clock table refines the clock scan, as long as the windows have 64 bits.  The two servers
give the same outcomes and keep the same logs and nonces, and in every state reached they resolve
every pseudonym alike, after which the table holds exactly the pseudonyms of the window. -/
theorem clockTable_refines_clockScan {C : Crypto} {cred : Credential Lam Bytes} {nonceBits : ℕ}
    {log : SessionLog} {settings : ClockSettings} {reading : ℚ} {S : Server C}
    (hinj : PseudonymsInjective C cred.peerSecrets) (hreading : settings.Readable reading)
    (hS : Server.create cred nonceBits log (.clockScan { settings := settings }) reading = .ok S) :
    ∃ T, Server.create (C := C) cred nonceBits log (.clockTable { settings := settings }) reading =
        .ok T ∧
      ∀ requests : List (ServerEnv × Bytes),
        (∀ i ∈ requests, settings.Readable i.1.resolveReading) →
        List.Forall₂ (fun x y => OutcomesAgree Eq x.1 y.1 ∧ SameClockState x.2 y.2)
            (Machine.trace Server.step S requests) (Machine.trace Server.step T requests) ∧
          ∀ env pid, settings.Readable env.resolveReading →
            let hit := ((Machine.final Server.step S requests).resolvePseudonym env pid).1
            let hit' := ((Machine.final Server.step T requests).resolvePseudonym env pid).1
            ((∃ q, hit = .ok q ∧ hit' = .ok q) ∨
              ∃ e e', hit = .error e ∧ e.kind = .unknownPeerError ∧
                hit' = .error e' ∧ e'.kind = .unknownPeerError) ∧
            TableHolds ((Machine.final Server.step T requests).resolvePseudonym env pid).2
              (settings.window env.resolveReading) := by
  obtain ⟨r', hatt, hsim⟩ := clockScanAndTable_attach hinj hreading
  obtain ⟨-, -, -, -, -, hattS⟩ := Server.valid_create hS
  obtain ⟨T, hT, htwin⟩ := Server.exists_twin hS hatt ((Prod.mk.inj hattS).2 ▸ hsim)
  refine ⟨T, hT, fun requests hreadings => ?_⟩
  have hstep : ∀ (S T : Server C) (i : ServerEnv × Bytes),
      Server.Twin cred.peerSecrets (ClockScanAndTable C cred.peerSecrets settings) S T →
      settings.Readable i.1.resolveReading →
      OutcomesAgree Eq (S.step i).1 (T.step i).1 ∧
        Server.Twin cred.peerSecrets (ClockScanAndTable C cred.peerSecrets settings)
          (S.step i).2 (T.step i).2 := fun S T i htwin hread =>
    htwin.handleAuthRequest (clockSimulation settings hinj) hread trivial fun _ _ => trivial
  have hsteps : Machine.AllSteps Server.step (fun _ i => settings.Readable i.1.resolveReading) S
      requests := Machine.allSteps_of_inputs hreadings
  refine ⟨(Machine.simulation hstep htwin hsteps).imp ?_, ?_⟩
  · rintro x y ⟨hagree, htwin⟩
    obtain ⟨s, t, hs, ht, -, -, hnonces, -⟩ := htwin.sim
    exact ⟨hagree, by rw [htwin.eq_with], s, t, hs, ht, hnonces⟩
  · intro env pid hread
    have hfinal := Machine.simulation_final (fun S T i h hP => (hstep S T i h hP).2) htwin hsteps
    exact hfinal.resolvePseudonym_clock hinj env pid hread

/-- The refinement for the server of the sample pair, with a minute for an epoch. -/
theorem clockTable_refines_clockScan_serverA :
    ∃ T, Server.create (C := .plain) serverA 128 {} (.clockTable { settings := {} }) 0 = .ok T ∧
      ∀ requests : List (ServerEnv × Bytes),
        (∀ i ∈ requests, ClockSettings.Readable {} i.1.resolveReading) →
        List.Forall₂ (fun x y => OutcomesAgree Eq x.1 y.1 ∧ SameClockState x.2 y.2)
            (Machine.trace Server.step
              (⟨{ credential := serverA }, 128, {}, .clockScan { settings := {} }⟩ : Server .plain)
              requests) (Machine.trace Server.step T requests) := by
  have hreading : ClockSettings.Readable {} 0 := by
    unfold ClockSettings.Readable
    decide +kernel
  obtain ⟨T, hT, hrun⟩ := clockTable_refines_clockScan (S := ⟨{ credential := serverA }, 128, {},
    .clockScan { settings := {} }⟩) (C := .plain) pseudonymsInjective_serverA hreading rfl
  exact ⟨T, hT, fun requests hreadings => (hrun requests hreadings).1⟩

/-- Beyond that bound the two part.  At the last epoch of 64 bits the scan finds the pseudonym of
the current epoch first, but the table cannot be brought up to the end of the window. -/
theorem clockScan_resolves_where_clockTable_fails :
    let settings : ClockSettings := { epochSeconds := 1, epochSeconds_pos := zero_lt_one }
    let last : ℤ := 2 ^ 64 - 1
    let pid := toBytesBE 32 (2 ^ 64 + last.toNat)
    let scan : Except Exc (Server .plain) :=
      Server.create serverA 128 {} (.clockScan { settings := settings }) 0
    let table : Except Exc (Server .plain) :=
      Server.create serverA 128 {} (.clockTable { settings := settings }) 0
    PseudonymsInjective .plain serverA.peerSecrets ∧
    ∃ S T, scan = .ok S ∧ table = .ok T ∧ ∀ env : ServerEnv, env.resolveReading = 2 ^ 64 - 1 →
      (S.resolvePseudonym env pid).1 = .ok ("device-1", last) ∧
      ∃ e, (T.resolvePseudonym env pid).1 = .error e ∧ e.kind = .structError := by
  refine ⟨pseudonymsInjective_serverA, _, _, rfl,
    Server.create_of_attach 128 rfl (toOption_eq_some_iff.mp (by decide +kernel)), ?_⟩
  intro env henv
  unfold Server.resolvePseudonym
  rw [henv, ← toOption_eq_some_iff, ← raised?_eq_some_iff]
  exact ⟨by decide +kernel, by decide +kernel⟩

end HybridEccAuth

import HybridEccAuth.Properties.LossyRuns
import HybridEccAuth.Properties.PeerIndependence
import HybridEccAuth.Protocol.DesyncCheck

/-!
# Lost requests and restarts

Between a device and a server with a linear scan, two numbers decide the outcome of every handshake:
the next epoch of the device and the last one that the server accepted (`InStep.outcomes_eq`).  From
this follow the outcomes after dropped requests (`dropped_m1`) and after a restart of the device
(`device_restart`), for any number of handshakes.
-/

namespace HybridEccAuth

variable {C : Crypto} {V R : String} {F L n : ℕ} {l : ℤ} {T : ℚ} {D D' : Device C} {S : Server C}

/-- A handshake does not change the credential of the server. -/
lemma handshake_credential (s : Device C × Server C) (x : HandshakeEnv) :
    (handshake R s x).2.2.credential = s.2.credential := by
  unfold handshake
  split
  · rfl
  · rename_i data _ _
    have hframe := (s.2.handleAuthRequest_frame x.serve data).1
    split <;> rename_i hserve <;> rw [hserve] at hframe
    · exact hframe
    · split <;> exact hframe

/-- Handshakes do not change the credential of the server. -/
lemma final_credential (s : Device C × Server C) (xs : List HandshakeEnv) :
    (Machine.final (handshake R) s xs).2.credential = s.2.credential := by
  induction xs generalizing s with
  | nil => rfl
  | cons x xs ih => exact (ih _).trans (handshake_credential s x)

/-- A server with a linear scan that is ready, and looks `F` epochs ahead and `L` back. -/
structure Server.Serves (S : Server C) (R : String) (F L : ℕ) : Prop where
  ready : S.Ready R
  scan : ∃ r, S.resolver = .linearScan r
  tolerance : S.tolerance = F
  lookback : S.sessionLog.replayLookback = L

/-- A device whose next epoch is `n`, and a server that accepted `l` last. -/
structure InStep (V R : String) (F L : ℕ) (T : ℚ) (n : ℕ) (l : ℤ) (D : Device C) (S : Server C) :
    Prop where
  paired : Paired D V S R
  serves : S.Serves R F L
  counter : D.epochClock = false
  bits : D.nonceBits ∈ supportedNonceBits
  unblocked : D.sessionLog.isBlocked R = false
  timeout : D.sessionTimeout = T
  next : D.nextEpoch R = n
  last : S.sessionLog.last V = l

/-- Both are in range, and the response arrives in time. -/
def HandshakeEnv.Fair (V R : String) (T : ℚ) (x : HandshakeEnv) : Prop :=
  x.build.coverage R = true ∧ x.serve.coverage V = true ∧ x.monotonic - x.build.monotonic ≤ T

/-- The outcome of a handshake by the next epoch and the last accepted one. -/
def outcome (F L : ℕ) (n : ℕ) (l : ℤ) : String :=
  if l < n ∧ (n : ℤ) ≤ l + F then "ok"
  else if l - L ≤ n ∧ (n : ℤ) ≤ l then "ReplayDetected"
  else "UnknownPeerError"

/-- What a linear scan says about a named epoch that it does not accept. -/
lemma LinearScan.kind_of_names {peers : Dict String Lam} {log : SessionLog} {r : LinearScan}
    {pid : Bytes} (hinj : PseudonymsInjective C peers) (hbelow : EpochsBelow peers log) {p : String}
    {e : ℤ} (hnames : Names C peers pid p e)
    (hout : ¬ (log.last p < e ∧ e ≤ log.last p + log.forwardTolerance)) {x : Exc}
    (hx : (r.resolve C peers log pid).1 = .error x) :
    x.kind = if log.last p - log.replayLookback ≤ e ∧ e ≤ log.last p then .replayDetected
      else .unknownPeerError := by
  obtain ⟨lam, hlam, hpid⟩ := id hnames
  have hrange := hnames.epoch_range
  unfold resolve at hx
  split at hx <;> rename_i hprobe
  · obtain ⟨q, hq, e', he', hrange'⟩ := probePeers_error hprobe
    exact absurd (hbelow.window_range (List.mem_map_of_mem hq) he') hrange'
  · have hwindow : e ∉ log.epochSearchWindow p := fun hmem =>
      probePeers_not_found hprobe _ (Dict.mem_entries_iff.mpr hlam) e hmem hpid
    cases hx
    rw [SessionLog.mem_epochSearchWindow] at hwindow
    rw [if_neg (by omega)]
  · obtain ⟨lam', hmem, hwindow, hpid'⟩ := probePeers_found hprobe
    obtain ⟨rfl, rfl⟩ := hinj ⟨lam', Dict.mem_entries_iff.mp hmem, hpid'⟩ hnames
    rw [SessionLog.mem_epochSearchWindow] at hwindow
    split_ifs at hx with hstale
    · cases hx
      rw [if_pos (by omega)]
      rfl

namespace Server.Serves

variable {env : BuildEnv} {data : Bytes} {s : PendingSession} {serverEnv : ServerEnv}

/-- A request whose epoch lies in the window is accepted. -/
lemma accepts (h : S.Serves R F L) (hpaired : Paired D V S R)
    (hbuild : D.buildAuthRequest env R = (.ok data, D')) (hsession : D'.pending.get R = some s)
    (hcoverage : serverEnv.coverage V = true)
    (hin : S.sessionLog.last V < s.epoch ∧ s.epoch ≤ S.sessionLog.last V + F)
    (hnext : s.epoch + F < 2 ^ 64) :
    ∃ result S', S.handleAuthRequest serverEnv data = (.ok result, S') ∧
      respond C R S.nonceBits serverEnv (s.opened V) = .ok result ∧ S'.Serves R F L ∧
      S'.credential = S.credential ∧
      ∀ p, S'.sessionLog.last p = if p = V then s.epoch else S.sessionLog.last p := by
  rw [← h.tolerance] at hin hnext
  obtain ⟨result, S', hstep, hresp, hready, hcred, htolerance, hlookback, hlast⟩ :=
    h.ready.accepts hpaired hbuild hsession hcoverage hin.1 hin.2 hnext
  obtain ⟨r, hr⟩ := h.scan
  have hscan := (S.forwardTolerance_step (serverEnv, data)).2 r hr
  rw [Server.step, hstep] at hscan
  exact ⟨result, S', hstep, hresp, ⟨hready, hscan, htolerance.trans h.tolerance,
    hlookback.trans h.lookback⟩, hcred, hlast⟩

/-- A request whose epoch does not lie in the window is rejected, as a replay if it is stale and not
too far behind. -/
lemma rejects (h : S.Serves R F L) (hpaired : Paired D V S R)
    (hbuild : D.buildAuthRequest env R = (.ok data, D')) (hsession : D'.pending.get R = some s)
    (serverEnv : ServerEnv)
    (hout : ¬ (S.sessionLog.last V < s.epoch ∧ s.epoch ≤ S.sessionLog.last V + F)) :
    ∃ e S', S.handleAuthRequest serverEnv data = (.error e, S') ∧
      e.kind = (if S.sessionLog.last V - L ≤ s.epoch ∧ s.epoch ≤ S.sessionLog.last V then
        .replayDetected else .unknownPeerError) ∧
      e.Brief S.peers.keys ∧ S'.Serves R F L ∧ S'.credential = S.credential ∧
      S'.sessionLog = S.sessionLog := by
  rw [← h.tolerance] at hout
  obtain ⟨e, S', hstep, hres, hready, hcred, htolerance, hlog⟩ :=
    h.ready.rejects hpaired hbuild hsession serverEnv hout
  obtain ⟨r, hr⟩ := h.scan
  have hscan := (S.forwardTolerance_step (serverEnv, data)).2 r hr
  rw [Server.step, hstep] at hscan
  have hbelow : EpochsBelow S.peers S.sessionLog := by
    have hfits := h.ready.counts.fits
    rw [Server.EpochsFit, hr] at hfits
    exact hfits
  have hforward : S.tolerance = S.sessionLog.forwardTolerance := by
    rw [Server.tolerance, hr]
    rfl
  rw [hr] at hres
  have hkind := LinearScan.kind_of_names h.ready.injective hbelow
    (hpaired.names_of_build hbuild hsession) (by rwa [← hforward]) hres
  rw [h.lookback] at hkind
  exact ⟨e, S', hstep, hkind, (LinearScan.kind_of_resolve hbelow hres).2,
    ⟨hready, hscan, htolerance.trans h.tolerance, hlog ▸ h.lookback⟩, hcred, hlog⟩

end Server.Serves

namespace InStep

/-- A request advances the device. -/
lemma build (h : InStep V R F L T n l D S) {env : BuildEnv} (hcoverage : env.coverage R = true)
    (hsmall : n + F < 2 ^ 64) : ∃ data D' s, D.buildAuthRequest env R = (.ok data, D') ∧
      D'.pending.get R = some s ∧ s.peerIdentity = R ∧ s.epoch = n ∧ s.createdAt = env.monotonic ∧
      s.kStar.length = keyLen ∧ InStep V R F L T (n + 1) l D' S := by
  have hepoch : D.requestEpoch env R = n := by
    rw [Device.requestEpoch, h.counter, if_neg Bool.false_ne_true, h.next]
  obtain ⟨data, D', hbuild⟩ := Device.exists_buildAuthRequest h.unblocked hcoverage
    h.paired.server_secret h.bits (by omega)
  obtain ⟨s, hpending, hpeer, hse, hcreated, -, -, hroot, -⟩ := h.paired.session_of_build hbuild
  obtain ⟨lam, t, msg1, -, -, -, hcred, hbits, htimeout, hlog, hclock, hpending', hnext⟩ :=
    Device.buildAuthRequest_ok hbuild
  rw [hpending', Dict.get_set_self] at hpending
  obtain rfl := Option.some.inj hpending
  rw [hepoch] at hse
  refine ⟨data, D', t, hbuild, by rw [hpending', Dict.get_set_self], hpeer, hse, hcreated, ?_, ?_⟩
  · rw [hroot]
    exact Credential.length_pairwiseRoot C _ _
  · refine { h with
      paired := h.paired.congr hcred rfl, counter := hclock.trans h.counter, bits := hbits ▸ h.bits,
      unblocked := hlog ▸ h.unblocked, timeout := htimeout.trans h.timeout, next := ?_ }
    rw [Device.nextEpoch, hnext, h.counter, if_neg Bool.false_ne_true, Dict.get_set_self, hse]
    rfl

/-- The outcome of a handshake, and the two numbers after it. -/
theorem handshake (h : InStep V R F L T n l D S) {x : HandshakeEnv} (hx : x.Fair V R T)
    (hsmall : n + F < 2 ^ 64) :
    ∃ D' S', HybridEccAuth.handshake R (D, S) x = (outcome F L n l, D', S') ∧
      InStep V R F L T (n + 1) (if l < n ∧ (n : ℤ) ≤ l + F then n else l) D' S' := by
  obtain ⟨hcoverage, hcoverage', htime⟩ := hx
  obtain ⟨data, D', s, hbuild, hpending, hpeer, hse, hcreated, hlength, h'⟩ :=
    h.build hcoverage hsmall
  have hlast : S.sessionLog.last V = l := h.last
  by_cases hin : l < n ∧ (n : ℤ) ≤ l + F
  · obtain ⟨result, S', hstep, hresp, hserves, hcred, hlast'⟩ :=
      h.serves.accepts h.paired hbuild hpending hcoverage' (by rwa [hlast, hse])
        (by rw [hse]; exact_mod_cast hsmall)
    have hcomplete := Device.completeAuth_answer hlength hresp hpending hpeer
      (show ¬ D'.sessionTimeout < x.monotonic - s.createdAt by
        rw [h'.timeout, hcreated]
        exact not_lt.mpr htime)
    refine ⟨D'.succeeded R, S', ?_, ?_⟩
    · rw [HybridEccAuth.handshake, hbuild]
      dsimp only
      rw [hstep]
      dsimp only
      rw [hcomplete, outcome, if_pos hin]
    · rw [if_pos hin]
      exact { h' with
        paired := h'.paired.congr rfl hcred, serves := hserves,
        last := by rw [hlast', if_pos rfl, hse] }
  · obtain ⟨e, S', hstep, hkind, -, hserves, hcred, hlog⟩ :=
      h.serves.rejects h.paired hbuild hpending x.serve (by rwa [hlast, hse])
    rw [hlast, hse] at hkind
    refine ⟨D', S', ?_, ?_⟩
    · rw [HybridEccAuth.handshake, hbuild]
      dsimp only
      rw [hstep, outcome, if_neg hin]
      dsimp only
      rw [hkind, apply_ite ExcKind.typeName]
      rfl
    · rw [if_neg hin]
      exact { h' with
        paired := h'.paired.congr rfl hcred, serves := hserves, last := hlog ▸ h.last }

/-- The outcome of the handshake with number `k` from now on. -/
def outcomeAfter (F L n : ℕ) (l : ℤ) (k : ℕ) : String :=
  if l + F < n then "UnknownPeerError"
  else if l < n + k then "ok"
  else if l - L ≤ n + k then "ReplayDetected"
  else "UnknownPeerError"

/-- The last accepted epoch after some handshakes. -/
def lastAfter (F n : ℕ) (l : ℤ) : ℕ → ℤ
  | 0 => l
  | k + 1 => if l + F < n then l else max l (n + k)

/-- From the start, every handshake succeeds. -/
lemma outcomes_start (hF : 1 ≤ F) (m : ℕ) :
    (List.range m).map (outcomeAfter F L 0 (-1)) = List.replicate m "ok" := by
  rw [List.map_eq_replicate_iff.mpr, List.length_range]
  intro k _
  rw [outcomeAfter]
  split_ifs <;> first | rfl | omega

/-- From the start, the last accepted epoch is the one of the last handshake. -/
lemma lastAfter_start (hF : 1 ≤ F) (m : ℕ) : lastAfter F 0 (-1) m = m - 1 := by
  rcases m with _ | m
  · rfl
  · rw [lastAfter]
    push_cast
    split_ifs <;> omega

/-- The two numbers decide the outcomes of all handshakes. -/
theorem outcomes_eq (h : InStep V R F L T n l D S) (hF : 1 ≤ F) {xs : List HandshakeEnv}
    (hxs : ∀ x ∈ xs, x.Fair V R T) (hsmall : n + xs.length + F ≤ 2 ^ 64) :
    outcomes R (D, S) xs = (List.range xs.length).map (outcomeAfter F L n l) ∧
      InStep V R F L T (n + xs.length) (lastAfter F n l xs.length)
        (Machine.final (HybridEccAuth.handshake R) (D, S) xs).1
        (Machine.final (HybridEccAuth.handshake R) (D, S) xs).2 := by
  induction xs generalizing n l D S with
  | nil => exact ⟨rfl, h⟩
  | cons x xs ih =>
    obtain ⟨hx, hxs⟩ := List.forall_mem_cons.mp hxs
    rw [List.length_cons] at hsmall
    obtain ⟨D', S', hstep, h'⟩ := h.handshake hx (by omega)
    obtain ⟨houtcomes, hfinal⟩ := ih h' hxs (by omega)
    -- the numbers after the first handshake decide what follows it
    have houtcome : ∀ k, outcomeAfter F L (n + 1) (if l < n ∧ (n : ℤ) ≤ l + F then n else l) k =
        outcomeAfter F L n l (k + 1) := by
      intro k
      unfold outcomeAfter
      push_cast
      split_ifs <;> first | rfl | omega
    have hlast : lastAfter F (n + 1) (if l < n ∧ (n : ℤ) ≤ l + F then n else l) xs.length =
        lastAfter F n l (xs.length + 1) := by
      rcases xs.length with _ | k
      · simp only [lastAfter, Nat.cast_zero]
        split_ifs <;> omega
      · simp only [lastAfter, Nat.cast_add, Nat.cast_one]
        split_ifs <;> omega
    have hfirst : outcome F L n l = outcomeAfter F L n l 0 := by
      unfold outcome outcomeAfter
      split_ifs <;> first | rfl | omega
    have hsum : n + 1 + xs.length = n + (xs.length + 1) := by omega
    have hrest : Machine.final (HybridEccAuth.handshake R) (D, S) (x :: xs) =
        Machine.final (HybridEccAuth.handshake R) (D', S') xs := by
      rw [Machine.final, List.foldl_cons, hstep]
      rfl
    rw [hlast, hsum] at hfinal
    rw [List.length_cons, hrest]
    refine ⟨?_, hfinal⟩
    rw [outcomes, Machine.trace, List.map_cons, hstep, List.range_succ_eq_map, List.map_cons,
      List.map_map, hfirst]
    congr 1
    refine houtcomes.trans (List.map_congr_left fun k _ => houtcome k)

/-- Requests that are dropped advance the device. -/
lemma dropRequests (h : InStep V R F L T n l D S) {envs : List BuildEnv}
    (henvs : ∀ env ∈ envs, env.coverage R = true) (hsmall : n + envs.length + F ≤ 2 ^ 64) :
    InStep V R F L T (n + envs.length) l (HybridEccAuth.dropRequests R D envs) S := by
  induction envs generalizing n D with
  | nil => exact h
  | cons env envs ih =>
    obtain ⟨henv, henvs⟩ := List.forall_mem_cons.mp henvs
    rw [List.length_cons] at hsmall
    obtain ⟨data, D', s, hbuild, -, -, -, -, -, h'⟩ := h.build henv (by omega)
    have hrest := ih h' henvs (by omega)
    have hsum : n + 1 + envs.length = n + (envs.length + 1) := by omega
    rw [HybridEccAuth.dropRequests, List.foldl_cons, hbuild, List.length_cons, ← hsum]
    exact hrest

/-- Another device takes the place of the first one. -/
lemma restart {n' : ℕ} {l' : ℤ} {S' : Server C} (h : InStep V R F L T n l D S)
    (h' : InStep V R F L T n' l' D' S') (hcred : S.credential = S'.credential) :
    InStep V R F L T n' l D' S :=
  { h with
    paired := h'.paired.congr rfl hcred, counter := h'.counter, bits := h'.bits,
    unblocked := h'.unblocked, timeout := h'.timeout, next := h'.next }

end InStep

/-- The surroundings of a handshake. -/
def pairHandshake : HandshakeEnv := ⟨LossyNetwork.pairEnv, .read 0 0, 0⟩

/-- They are fair. -/
lemma pairHandshake_fair : pairHandshake.Fair "device-1" "server-A" 5 :=
  ⟨rfl, rfl, by norm_num [pairHandshake, LossyNetwork.pairEnv]⟩

/-- The device and the server of the script, under the plain suite. -/
lemma exists_create_onePair :
    ∃ (V R : Credential Lam Bytes) (D : Device .plain) (S : Server .plain),
    TrustedAuthority.provision (taPrimitives .plain fun _ => []) [] LossyNetwork.onePair =
      .ok [V, R] ∧ (∀ cred ∈ [V, R], PseudonymsInjective .plain cred.peerSecrets) ∧
      V.identity = "device-1" ∧ R.identity = "server-A" ∧
      Device.create V 128 5 3 false = .ok D ∧
      Server.create R 128 (SessionLog.create 3 8 16) (.linearScan {}) 0 = .ok S := by
  obtain ⟨V, R, hprov, ⟨hV, hVrole⟩, ⟨hR, hRrole⟩, hinj⟩ := LossyNetwork.exists_provision_onePair
  have hfit : (Resolver.linearScan {}).EpochsFit R.peerSecrets (SessionLog.create 3 8 16) := by
    intro p _
    rw [show (SessionLog.create 3 8 16).last p = -1 from SessionLog.last_fresh _ _ _ _]
    decide
  obtain ⟨S, hS⟩ := Server.exists_create (C := .plain) (r := .linearScan {}) 128 0 trivial hRrole
    (hinj R (by simp)) hfit
  exact ⟨V, R, _, S, hprov, hinj, hV, hR, if_neg (not_not.mpr hVrole), hS⟩

section Script

variable {scalarToPublicPoint : Lam → Bytes} {masterSecret : Bytes} {manifest : List ManifestEntry}
  {creds : List (Credential Lam Bytes)} {credV credR : Credential Lam Bytes}
  {nonceBits nonceBits' maxAttempts maxAttempts' : ℕ} {reading : ℚ}

/-- A device that was created has its credential, which is one of a device. -/
lemma Device.create_ok {epochClock : Bool}
    (hD : Device.create credV nonceBits T maxAttempts epochClock = .ok D) :
    D.credential = credV ∧ credV.role = .device := by
  unfold create at hD
  split_ifs at hD with hrole
  cases hD
  exact ⟨rfl, not_not.mp hrole⟩

/-- A server that was created with a linear scan. -/
lemma Server.serves_create (hinj : PseudonymsInjective C credR.peerSecrets)
    (hbits' : nonceBits' ∈ supportedNonceBits) (hsmall : F ≤ 2 ^ 64)
    (hS : Server.create credR nonceBits' (SessionLog.create maxAttempts' F L)
      (.linearScan {}) reading =
      .ok S) : S.Serves credR.identity F L ∧ S.credential = credR ∧ credR.role = .server ∧
      ∀ p, S.sessionLog.last p = -1 := by
  have hseparates : (Resolver.linearScan {}).Separates := trivial
  obtain ⟨hready, hcred, hrole, htolerance, hlog⟩ :=
    ready_create hbits' hinj hseparates rfl hsmall hS
  obtain ⟨-, -, -, -, -, hatt⟩ := valid_create hS
  refine ⟨⟨hready, ⟨_, (congrArg Prod.snd hatt).symm⟩, htolerance, by rw [hlog]; rfl⟩, hcred, hrole,
    fun p => ?_⟩
  rw [hlog]
  rfl

/-- A device and a server before their first handshake. -/
lemma inStep_create {V : String} (hpaired : Paired D V S credR.identity)
    (hinj : PseudonymsInjective C credR.peerSecrets) (hbits : nonceBits ∈ supportedNonceBits)
    (hbits' : nonceBits' ∈ supportedNonceBits) (hsmall : F ≤ 2 ^ 64)
    (hD : Device.create credV nonceBits T maxAttempts false = .ok D)
    (hS : Server.create credR nonceBits' (SessionLog.create maxAttempts' F L)
      (.linearScan {}) reading =
      .ok S) : InStep V credR.identity F L T 0 (-1) D S := by
  obtain ⟨hserves, -, -, hlast⟩ := Server.serves_create hinj hbits' hsmall hS
  unfold Device.create at hD
  split_ifs at hD
  cases hD
  exact ⟨hpaired, hserves, rfl, hbits, rfl, rfl, rfl, hlast V⟩

/-- A provisioned device and server before their first handshake. -/
lemma inStep_provisioned (hprov : TrustedAuthority.provision (taPrimitives C scalarToPublicPoint)
      masterSecret manifest = .ok creds)
    (hinj : ∀ cred ∈ creds, PseudonymsInjective C cred.peerSecrets) (hV : credV ∈ creds)
    (hR : credR ∈ creds) (hbits : nonceBits ∈ supportedNonceBits)
    (hbits' : nonceBits' ∈ supportedNonceBits) (hsmall : F ≤ 2 ^ 64)
    (hD : Device.create credV nonceBits T maxAttempts false = .ok D)
    (hS : Server.create credR nonceBits' (SessionLog.create maxAttempts' F L)
      (.linearScan {}) reading =
      .ok S) : InStep credV.identity credR.identity F L T 0 (-1) D S := by
  obtain ⟨hcredD, hDrole⟩ := Device.create_ok hD
  obtain ⟨-, hcredS, -, -, hSrole, -⟩ := Server.valid_create hS
  have hpaired : Paired D credV.identity S credR.identity := by
    rw [← hcredD, ← hcredS]
    exact .of_provision hprov (hcredD ▸ hV) (hcredS ▸ hR) (hcredD ▸ hDrole) (hcredS ▸ hSrole)
  exact inStep_create hpaired (hinj _ hR) hbits hbits' hsmall hD hS

/-- After any number of handshakes, all of which succeed, and of dropped requests, all handshakes
succeed if fewer requests were dropped than the server looks ahead, and none does otherwise. -/
theorem dropped_m1 (hprov : TrustedAuthority.provision (taPrimitives C scalarToPublicPoint)
      masterSecret manifest = .ok creds)
    (hinj : ∀ cred ∈ creds, PseudonymsInjective C cred.peerSecrets) (hV : credV ∈ creds)
    (hR : credR ∈ creds) (hbits : nonceBits ∈ supportedNonceBits)
    (hbits' : nonceBits' ∈ supportedNonceBits)
    (hD : Device.create credV nonceBits T maxAttempts false = .ok D)
    (hS : Server.create credR nonceBits' (SessionLog.create maxAttempts' F L)
      (.linearScan {}) reading =
      .ok S) (hF : 1 ≤ F) {prior later : List HandshakeEnv} {drops : List BuildEnv}
    (hprior : ∀ x ∈ prior, x.Fair credV.identity credR.identity T)
    (hlater : ∀ x ∈ later, x.Fair credV.identity credR.identity T)
    (hdrops : ∀ env ∈ drops, env.coverage credR.identity = true)
    (hsmall : prior.length + drops.length + later.length + F ≤ 2 ^ 64) :
    droppedM1 credR.identity (D, S) prior drops later = (List.replicate prior.length "ok",
      List.replicate later.length (if drops.length < F then "ok" else "UnknownPeerError")) := by
  have h := inStep_provisioned hprov hinj hV hR hbits hbits' (by omega) hD hS
  obtain ⟨hfirst, hmid⟩ := h.outcomes_eq hF hprior (by omega)
  rw [Nat.zero_add] at hmid
  obtain ⟨hsecond, -⟩ := (hmid.dropRequests hdrops (by omega)).outcomes_eq hF hlater (by omega)
  have hlast := InStep.lastAfter_start hF prior.length
  rw [droppedM1]
  refine Prod.ext (hfirst.trans (InStep.outcomes_start hF _)) (hsecond.trans ?_)
  rw [List.map_eq_replicate_iff.mpr, List.length_range]
  intro k _
  rw [InStep.outcomeAfter, hlast]
  push_cast
  split_ifs <;> first | rfl | omega

/-- After eight dropped requests the device is locked out. -/
theorem dropped_m1_onePair : ∃ (D : Device .plain) (S : Server .plain),
    droppedM1 "server-A" (D, S) [pairHandshake] (List.replicate 8 LossyNetwork.pairEnv)
      (List.replicate 3 pairHandshake) = (["ok"], List.replicate 3 "UnknownPeerError") := by
  obtain ⟨V, R, D, S, hprov, hinj, hV, hR, hD, hS⟩ := exists_create_onePair
  have hfair : pairHandshake.Fair V.identity R.identity 5 := by
    rw [hV, hR]
    exact pairHandshake_fair
  have hprior : ∀ x ∈ [pairHandshake], x.Fair V.identity R.identity 5 :=
    List.forall_mem_singleton.mpr hfair
  have hlater : ∀ x ∈ List.replicate 3 pairHandshake, x.Fair V.identity R.identity 5 :=
    fun x hx => List.eq_of_mem_replicate hx ▸ hfair
  have hdrops : ∀ env ∈ List.replicate 8 LossyNetwork.pairEnv, env.coverage R.identity = true :=
    fun env henv => List.eq_of_mem_replicate henv ▸ rfl
  have hrun := dropped_m1 hprov hinj (by simp) (by simp) (by decide) (by decide) hD hS (by decide)
    hprior hlater hdrops (by decide)
  rw [hR] at hrun
  exact ⟨D, S, hrun⟩

/-- After any number of handshakes, all of which succeed, a device that restarts is rejected as many
times, with stale epochs as far back as the server looks and unknown pseudonyms before; after that
all handshakes succeed. -/
theorem device_restart (hprov : TrustedAuthority.provision (taPrimitives C scalarToPublicPoint)
      masterSecret manifest = .ok creds)
    (hinj : ∀ cred ∈ creds, PseudonymsInjective C cred.peerSecrets) (hV : credV ∈ creds)
    (hR : credR ∈ creds) (hbits : nonceBits ∈ supportedNonceBits)
    (hbits' : nonceBits' ∈ supportedNonceBits)
    (hD : Device.create credV nonceBits T maxAttempts false = .ok D)
    (hD' : Device.create credV nonceBits T maxAttempts false = .ok D')
    (hS : Server.create credR nonceBits' (SessionLog.create maxAttempts' F L)
      (.linearScan {}) reading =
      .ok S) (hF : 1 ≤ F) {prior later : List HandshakeEnv}
    (hprior : ∀ x ∈ prior, x.Fair credV.identity credR.identity T)
    (hlater : ∀ x ∈ later, x.Fair credV.identity credR.identity T)
    (hsmall : prior.length + later.length + F ≤ 2 ^ 64) :
    deviceRestart credR.identity (D, S) prior D' later = (List.replicate prior.length "ok",
      (List.range later.length).map fun k =>
        if prior.length ≤ k then "ok"
        else if prior.length ≤ k + L + 1 then "ReplayDetected"
        else "UnknownPeerError") := by
  have h := inStep_provisioned hprov hinj hV hR hbits hbits' (by omega) hD hS
  have h' := inStep_provisioned hprov hinj hV hR hbits hbits' (by omega) hD' hS
  obtain ⟨hfirst, hmid⟩ := h.outcomes_eq hF hprior (by omega)
  have hrestart := hmid.restart h' (final_credential _ _)
  obtain ⟨hsecond, -⟩ := hrestart.outcomes_eq hF hlater (by omega)
  have hlast := InStep.lastAfter_start hF prior.length
  rw [deviceRestart]
  refine Prod.ext (hfirst.trans (InStep.outcomes_start hF _)) (hsecond.trans ?_)
  apply List.map_congr_left
  intro k _
  rw [InStep.outcomeAfter, hlast]
  push_cast
  split_ifs <;> first | rfl | omega

/-- After three handshakes and a restart the device is rejected. -/
theorem device_restart_onePair : ∃ (D : Device .plain) (S : Server .plain),
    deviceRestart "server-A" (D, S) (List.replicate 3 pairHandshake) D [pairHandshake] =
      (List.replicate 3 "ok", ["ReplayDetected"]) := by
  obtain ⟨V, R, D, S, hprov, hinj, hV, hR, hD, hS⟩ := exists_create_onePair
  have hfair : pairHandshake.Fair V.identity R.identity 5 := by
    rw [hV, hR]
    exact pairHandshake_fair
  have hprior : ∀ x ∈ List.replicate 3 pairHandshake, x.Fair V.identity R.identity 5 :=
    fun x hx => List.eq_of_mem_replicate hx ▸ hfair
  have hlater : ∀ x ∈ [pairHandshake], x.Fair V.identity R.identity 5 :=
    List.forall_mem_singleton.mpr hfair
  have hrun := device_restart hprov hinj (by simp) (by simp) (by decide) (by decide) hD hD hS
    (by decide) hprior hlater (by decide)
  rw [hR] at hrun
  exact ⟨D, S, hrun⟩

end Script

end HybridEccAuth

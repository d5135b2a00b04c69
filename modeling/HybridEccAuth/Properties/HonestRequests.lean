import HybridEccAuth.Protocol.Device
import HybridEccAuth.Protocol.Server

/-!
# Requests of honest devices

A device and a server that were enrolled together (`Paired`) know each other's secret.
When the server resolves the pseudonym of a request that such a device has built to that
device and the epoch of the request, the request meets all the other checks
(`Paired.opens`); what is left is that the epoch is accepted.
-/

namespace HybridEccAuth

variable {C : Crypto}

/-- A request that meets all the checks, and whose epoch is accepted, is answered for its peer. -/
lemma Server.Opens.answered {S : Server C} {env : ServerEnv} {data : Bytes} {o : Opened}
    {msg1 : Message1} {lam : Lam} {plaintext : Bytes}
    (h : S.Opens env data o msg1 lam plaintext) (hbits : S.nonceBits ∈ supportedNonceBits)
    (hrange : 0 ≤ o.epoch ∧ o.epoch < 2 ^ 64)
    (hacc : ((S.resolver.resolve C S.peers S.sessionLog env.resolveReading msg1.pid).2.accept C
      S.peers S.sessionLog env.acceptReading o.peer o.epoch o.nI).1 = .ok ()) :
    ∃ result, (S.handleAuthRequest env data).1 = .ok result ∧
      respond C S.credential.identity S.nonceBits env o = .ok result ∧
      result.peerIdentity = o.peer := by
  have hkey : o.kStar.length = keyLen := by
    rw [h.kStar_eq]
    exact Credential.length_pairwiseRoot C _ lam
  obtain ⟨E, -, hanswer⟩ := h.handleAuthRequest_eq (Prod.ext hacc rfl)
  rw [respond_eq hbits hrange hkey] at hanswer
  exact ⟨_, congrArg Prod.fst hanswer, respond_eq hbits hrange hkey, rfl⟩

/-- The device `V` and the server `R` hold each other's secret. -/
structure Paired (D : Device C) (V : String) (S : Server C) (R : String) : Prop where
  device_role : D.credential.role = .device
  server_role : S.credential.role = .server
  device_secret : S.peers.get V = some D.credential.lam
  server_secret : D.credential.peerSecrets.get R = some S.credential.lam

namespace Paired

variable {D D' : Device C} {V : String} {S S' : Server C} {R : String}

/-- The secrets are those of the credentials. -/
lemma congr (h : Paired D V S R) (hD : D'.credential = D.credential)
    (hS : S'.credential = S.credential) : Paired D' V S' R := by
  obtain ⟨h₁, h₂, h₃, h₄⟩ := h
  exact ⟨hD ▸ h₁, hS ▸ h₂, by rw [Server.peers, hS, hD]; exact h₃, by rw [hS, hD]; exact h₄⟩

/-- Both derive the same pairwise root. -/
lemma pairwiseRoot_eq (h : Paired D V S R) :
    S.credential.pairwiseRoot C D.credential.lam =
    D.credential.pairwiseRoot C S.credential.lam := by
  rw [Credential.pairwiseRoot, Credential.pairwiseRoot, h.device_role, h.server_role]

/-- What the device remembers of a request that it has built. -/
lemma session_of_build (h : Paired D V S R) {env : BuildEnv} {data : Bytes}
    (hbuild : D.buildAuthRequest env R = (.ok data, D')) :
    ∃ session, D'.pending.get R = some session ∧ session.peerIdentity = R ∧
      session.epoch = D.requestEpoch env R ∧ session.createdAt = env.monotonic ∧
      session.nI = env.nonce.draw (D.nonceBits / 8) ∧ D.nonceBits ∈ supportedNonceBits ∧
      session.kStar = D.credential.pairwiseRoot C S.credential.lam ∧
      h2Pseudonym C D.credential.lam session.epoch = .ok session.pid := by
  obtain ⟨lam, session, msg1, hlam, hcompose, -, -, -, -, -, -, hpending, -⟩ :=
    Device.buildAuthRequest_ok hbuild
  obtain rfl := Option.some_inj.mp (hlam.symm.trans h.server_secret)
  obtain ⟨hpid, hbits, hsession, -⟩ :=
    Device.compose_eq (Credential.length_pairwiseRoot C D.credential _) hcompose
  refine ⟨session, by rw [hpending, Dict.get_set_self], ?_⟩
  rw [hsession]
  exact ⟨rfl, rfl, rfl, rfl, hbits, rfl, hpid⟩

/-- The pseudonym of a request names the device and the epoch. -/
lemma names_of_build (h : Paired D V S R) {env : BuildEnv} {data : Bytes}
    (hbuild : D.buildAuthRequest env R = (.ok data, D')) {session : PendingSession}
    (hsession : D'.pending.get R = some session) :
    Names C S.peers session.pid V session.epoch := by
  obtain ⟨session', hsession', -, -, -, -, -, -, hpid⟩ := h.session_of_build hbuild
  obtain rfl := Option.some_inj.mp (hsession.symm.trans hsession')
  exact ⟨D.credential.lam, h.device_secret, hpid⟩

/-- The bytes of a request carry its pseudonym. -/
lemma pid_of_build (h : Paired D V S R) {env : BuildEnv} {data : Bytes}
    (hbuild : D.buildAuthRequest env R = (.ok data, D')) {session : PendingSession}
    (hsession : D'.pending.get R = some session) :
    ∃ msg1, Message1.fromBytes data = .ok msg1 ∧ msg1.pid = session.pid := by
  obtain ⟨lam, session', msg1, hlam, hcompose, hdata, -, -, -, -, -, hpending, -⟩ :=
    Device.buildAuthRequest_ok hbuild
  obtain rfl := Option.some_inj.mp (hlam.symm.trans h.server_secret)
  rw [hpending, Dict.get_set_self] at hsession
  obtain rfl := Option.some_inj.mp hsession
  obtain ⟨-, -, -, hmsg1⟩ :=
    Device.compose_eq (Credential.length_pairwiseRoot C D.credential _) hcompose
  rw [hdata]
  exact ⟨msg1, Message1.fromBytes_toBytes msg1, by rw [hmsg1]⟩

/-- A request of the device whose pseudonym is resolved to the device and the epoch is opened. -/
theorem opens (h : Paired D V S R) {env : BuildEnv} {data : Bytes}
    (hbuild : D.buildAuthRequest env R = (.ok data, D')) {session : PendingSession}
    (hsession : D'.pending.get R = some session) {serverEnv : ServerEnv}
    (hres : (S.resolver.resolve C S.peers S.sessionLog serverEnv.resolveReading session.pid).1 =
      .ok (V, session.epoch))
    (hblocked : S.sessionLog.isBlocked V = false) (hcoverage : serverEnv.coverage V = true) :
    ∃ msg1 plaintext, msg1.pid = session.pid ∧ S.Opens serverEnv data
      ⟨session.pid, V, session.epoch, session.nI, session.kStar⟩ msg1 D.credential.lam
      plaintext := by
  obtain ⟨lam, session', msg1, hlam, hcompose, hdata, -, -, -, -, -, hpending, -⟩ :=
    Device.buildAuthRequest_ok hbuild
  obtain rfl := Option.some_inj.mp (hlam.symm.trans h.server_secret)
  rw [hpending, Dict.get_set_self] at hsession
  obtain rfl := Option.some_inj.mp hsession
  have hroot := Credential.length_pairwiseRoot C D.credential S.credential.lam
  obtain ⟨hpid, hbits, hsession', hmsg1⟩ := Device.compose_eq hroot hcompose
  have hepoch : session'.epoch = D.requestEpoch env R := by rw [hsession']
  have hkey : session'.kStar = D.credential.pairwiseRoot C S.credential.lam := by rw [hsession']
  obtain ⟨hnonneg, hlt⟩ := epoch_of_h2Pseudonym hpid
  have hlength : session'.pid.length = 32 := length_of_h2Pseudonym hpid
  have hmsg : msg1.pid = session'.pid := by rw [hmsg1]
  refine ⟨msg1, session'.pid ++ session'.nI ++ toBytesBE 8 (D.requestEpoch env R).toNat, hmsg,
    ?_, ?_, hmsg.symm, hblocked, hcoverage, h.device_secret, ?_, ?_, ?_, ?_, ?_⟩
  · rw [hdata]
    exact Message1.fromBytes_toBytes msg1
  · rw [hmsg]
    exact hres
  · rw [h.pairwiseRoot_eq]
    exact hkey
  · dsimp only
    rw [hmsg1, hkey]
    exact aeadDecrypt_eq_ok_iff.mpr ⟨hroot, by rw [env.iv.length_draw]; decide, rfl⟩
  · rw [List.append_assoc, List.take_left' hlength]
  · rw [lastBytes_append (length_toBytesBE 8 _), fromBytesBE_toBytesBE_of_lt (by omega)]
    exact (Int.toNat_of_nonneg hnonneg).trans hepoch.symm
  · rw [dropLastBytes_append (length_toBytesBE 8 _), List.drop_left' hlength]

/-- The sample pair. -/
lemma of_samplePair {D : Device C} {S : Server C} (hD : D.credential = deviceOne)
    (hS : S.credential = serverA) : Paired D "device-1" S "server-A" where
  device_role := by rw [hD]; decide
  server_role := by rw [hS]; decide
  device_secret := by rw [Server.peers, hS, hD]; decide
  server_secret := by rw [hD, hS]; decide

end Paired

end HybridEccAuth

import HybridEccAuth.Library.Machine
import HybridEccAuth.Protocol.Entity
import HybridEccAuth.Protocol.Messages
import HybridEccAuth.Resolution.Resolver

/-!
# The server

`Server.handleAuthRequest` in two parts: `openRequest` resolves the pseudonym of M1,
gates the peer, decrypts and checks the message, and `finish` accepts the epoch and
builds M2.  Each part returns the state it leaves, also when it raises.  What varies
from call to call without being part of the state (the coverage predicate, the two
readings of the clock, and what the random generator returns) is a `ServerEnv`.

`verify_ok` and `openRequest_ok` say what a request that was opened satisfies,
`handleAuthRequest_ok` what an `AuthResult` was computed from, and
`Server.Valid.handleAuthRequest` that the invariant of an attached server is kept.
-/

namespace HybridEccAuth

/-- What one request finds in the surroundings of the server. -/
structure ServerEnv where
  coverage : String → Bool
  /-- The reading of the clock in `resolve`. -/
  resolveReading : ℚ
  /-- The reading of the clock in `accept`. -/
  acceptReading : ℚ
  /-- The random bytes of `N_j`. -/
  nonce : Urandom
  /-- The random bytes of the IV of M2. -/
  iv : Urandom

/-- Surroundings in which every peer is in range, with the two readings of the clock. -/
def ServerEnv.read (resolveReading acceptReading : ℚ) : ServerEnv :=
  ⟨fun _ => true, resolveReading, acceptReading, .zeros, .zeros⟩

/-- What a successful request returns. -/
structure AuthResult where
  responseBytes : Bytes
  sessionKey : Bytes
  peerIdentity : String
  deriving DecidableEq

/-- The state of a server. -/
structure Server (C : Crypto) where
  entity : Entity C
  nonceBits : ℕ := defaultNonceBits
  sessionLog : SessionLog
  resolver : Resolver

/-- What the checks of M1 establish: whose request it is, and what was found in it. -/
structure Opened where
  pid : Bytes
  peer : String
  epoch : ℤ
  nI : Bytes
  kStar : Bytes
  deriving DecidableEq

/-- The error for a peer on the block-list. -/
def blockedError (peer : String) : Exc :=
  ⟨.blockedEntity, [.str peer, .lit " is block-listed after repeated failed attempts"]⟩

/-- The error for a peer out of range. -/
def coverageError (peer : String) : Exc :=
  ⟨.coverageError, [.str peer, .lit " is out of coverage range (cov_ij(t) = False)"]⟩

/-- The error for an M1 that does not decrypt. -/
def mu1Error (peer : String) : Exc :=
  ⟨.integrityError, [.lit "mu_1 verification failed for ", .str peer]⟩

/-- The error for an M1 whose plaintext belongs to another header. -/
def headerError (peer : String) : Exc :=
  ⟨.integrityError,
    [.lit "decrypted PID/epoch does not match message header for ", .str peer]⟩

section Verify

variable (C : Crypto)

/-- Decrypts M1 under the pairwise root and checks its plaintext against the header and the resolved
epoch. -/
def decryptRequest (log : SessionLog) (msg1 : Message1) (peer : String) (epoch : ℤ)
    (kStar : Bytes) : Except Exc Opened × SessionLog :=
  match aeadDecrypt C kStar msg1.gcmNonce msg1.ciphertext msg1.tag [] with
  | .error e =>
    if e.kind = .invalidTag then (.error (mu1Error peer), (log.recordFailure peer).2)
    else (.error e, log)
  | .ok plaintext =>
    let epochBytes := lastBytes 8 plaintext
    let pidInPlaintext := plaintext.take 32
    let nI := (dropLastBytes 8 plaintext).drop 32
    let epochInPlaintext : ℤ := fromBytesBE epochBytes
    if pidInPlaintext ≠ msg1.pid ∨ epochInPlaintext ≠ epoch then
      (.error (headerError peer), (log.recordFailure peer).2)
    else (.ok ⟨msg1.pid, peer, epoch, nI, kStar⟩, log)

/-- Gates the resolved peer, then decrypts and checks M1. -/
def verify (E : Entity C) (log : SessionLog) (coverage : String → Bool) (msg1 : Message1)
    (peer : String) (epoch : ℤ) : Except Exc Opened × Entity C × SessionLog :=
  if log.isBlocked peer then (.error (blockedError peer), E, log)
  else if coverage peer = false then
    (.error (coverageError peer), E, (log.recordFailure peer).2)
  else
    match E.getPairwiseRoot peer with
    | (.error e, E) => (.error e, E, log)
    | (.ok kStar, E) =>
      match decryptRequest C log msg1 peer epoch kStar with
      | (x, log) => (x, E, log)

/-- Draws `N_j`, derives the session key and builds M2. -/
def respond (identity : String) (nonceBits : ℕ) (env : ServerEnv) (o : Opened) :
    Except Exc AuthResult := do
  let nJ ← generateNonce nonceBits env.nonce
  let sessionKey ← deriveSessionKey C o.kStar o.nI nJ o.epoch
  let aad := o.pid ++ o.nI
  let epochBytes ← epochToBytes o.epoch
  let (gcmNonce, ciphertext, tag) ← aeadEncrypt C o.kStar (nJ ++ epochBytes) aad env.iv
  let msg2 : Message2 String := ⟨identity, gcmNonce, ciphertext, tag⟩
  return ⟨msg2.toBytes, sessionKey, o.peer⟩

end Verify

namespace Server

variable {C : Crypto}

/-- The credential of a server. -/
abbrev credential (S : Server C) : Credential Lam Bytes := S.entity.credential

/-- The peer secrets of a server. -/
abbrev peers (S : Server C) : Dict String Lam := S.credential.peerSecrets

/-- The constructor over a session log; the log is fresh unless the server resumes. -/
def create (credential : Credential Lam Bytes) (nonceBits : ℕ) (log : SessionLog)
    (resolver : Resolver) (reading : ℚ) : Except Exc (Server C) :=
  if credential.role ≠ .server then
    .error ⟨.valueError, [.lit "Server requires a credential with role='server', got ",
      .reprStr credential.role.text]⟩
  else
    match resolver.attach C credential.peerSecrets log reading with
    | (.error e, _) => .error e
    | (.ok (), resolver) =>
      .ok { entity := { credential := credential }, nonceBits := nonceBits, sessionLog := log,
            resolver := resolver }

/-- `resolve_pseudonym`. -/
def resolvePseudonym (S : Server C) (env : ServerEnv) (pid : Bytes) :
    Except Exc (String × ℤ) × Server C :=
  match S.resolver.resolve C S.peers S.sessionLog env.resolveReading pid with
  | (x, r) => (x, { S with resolver := r })

/-- The first part of `handle_auth_request`: up to the checks of the plaintext of M1. -/
def openRequest (S : Server C) (env : ServerEnv) (data : Bytes) : Except Exc Opened × Server C :=
  match Message1.fromBytes data with
  | .error e => (.error e, S)
  | .ok msg1 =>
    match S.resolvePseudonym env msg1.pid with
    | (.error e, S) => (.error e, S)
    | (.ok (peer, epoch), S) =>
      match verify C S.entity S.sessionLog env.coverage msg1 peer epoch with
      | (x, E, log) => (x, { S with entity := E, sessionLog := log })

/-- The second part of `handle_auth_request`: from the acceptance of the epoch on. -/
def finish (S : Server C) (env : ServerEnv) (o : Opened) : Except Exc AuthResult × Server C :=
  match S.resolver.accept C S.peers S.sessionLog env.acceptReading o.peer o.epoch o.nI with
  | (.error e, r, log) => (.error e, { S with resolver := r, sessionLog := log })
  | (.ok (), r, log) =>
    (respond C S.credential.identity S.nonceBits env o,
      { S with resolver := r, sessionLog := log.recordSuccess o.peer })

/-- `handle_auth_request`. -/
def handleAuthRequest (S : Server C) (env : ServerEnv) (data : Bytes) :
    Except Exc AuthResult × Server C :=
  match S.openRequest env data with
  | (.error e, S) => (.error e, S)
  | (.ok o, S) => S.finish env o

/-- A server as a machine: its inputs are requests, each with its surroundings. -/
def step (S : Server C) (i : ServerEnv × Bytes) : Except Exc AuthResult × Server C :=
  S.handleAuthRequest i.1 i.2

/-- The states of a server that was created over a credential and a log, with a resolver that was
attached, and has handled any requests. -/
def Reachable (cred : Credential Lam Bytes) (nonceBits : ℕ) (S : Server C) : Prop :=
  ∃ log r reading S₀ requests, create cred nonceBits log r reading = .ok S₀ ∧
    S = Machine.final step S₀ requests

end Server

/-! ## What the parts establish -/

section Spec

variable {C : Crypto}

/-- What an M1 that decrypts satisfies. -/
lemma decryptRequest_ok {log log' : SessionLog} {msg1 : Message1} {peer : String} {epoch : ℤ}
    {kStar : Bytes} {o : Opened}
    (h : decryptRequest C log msg1 peer epoch kStar = (.ok o, log')) :
    ∃ plaintext, aeadDecrypt C kStar msg1.gcmNonce msg1.ciphertext msg1.tag [] = .ok plaintext ∧
      plaintext.take 32 = msg1.pid ∧ (fromBytesBE (lastBytes 8 plaintext) : ℤ) = epoch ∧
      o = ⟨msg1.pid, peer, epoch, (dropLastBytes 8 plaintext).drop 32, kStar⟩ ∧ log' = log := by
  unfold decryptRequest at h
  split at h
  · split_ifs at h <;> cases h
  · rename_i plaintext hdec
    dsimp only at h
    split_ifs at h with hbad
    · cases h
    · cases h
      rw [not_or, not_not, not_not] at hbad
      exact ⟨plaintext, hdec, hbad.1, hbad.2, rfl, rfl⟩

/-- What is left of the log when M1 does not pass. -/
lemma decryptRequest_error {log : SessionLog} {msg1 : Message1} {peer : String} {epoch : ℤ}
    {kStar : Bytes} {e : Exc} (h : (decryptRequest C log msg1 peer epoch kStar).1 = .error e) :
    ((decryptRequest C log msg1 peer epoch kStar).2 = (log.recordFailure peer).2 ∧
      (e = mu1Error peer ∨ e = headerError peer)) ∨
    (aeadDecrypt C kStar msg1.gcmNonce msg1.ciphertext msg1.tag [] = .error e ∧
      e.kind ≠ .invalidTag ∧ (decryptRequest C log msg1 peer epoch kStar).2 = log) := by
  rcases hdec : aeadDecrypt C kStar msg1.gcmNonce msg1.ciphertext msg1.tag [] with e' | plaintext
  · simp only [decryptRequest, hdec] at h ⊢
    split_ifs at h ⊢ with hkind
    · cases h
      exact Or.inl ⟨rfl, Or.inl rfl⟩
    · cases h
      exact Or.inr ⟨rfl, hkind, rfl⟩
  · simp only [decryptRequest, hdec] at h ⊢
    split_ifs at h ⊢
    cases h
    exact Or.inl ⟨rfl, Or.inr rfl⟩

/-- What a request that passes all checks satisfies. -/
lemma verify_ok {E E' : Entity C} {log log' : SessionLog} {coverage : String → Bool}
    {msg1 : Message1} {peer : String} {epoch : ℤ} {o : Opened}
    (h : verify C E log coverage msg1 peer epoch = (.ok o, E', log')) :
    log.isBlocked peer = false ∧ coverage peer = true ∧
      (∃ lam, E.credential.peerSecrets.get peer = some lam ∧
        o.kStar = E.credential.pairwiseRoot C lam) ∧
      (∃ plaintext, aeadDecrypt C o.kStar msg1.gcmNonce msg1.ciphertext msg1.tag [] =
          .ok plaintext ∧ plaintext.take 32 = msg1.pid ∧
        (fromBytesBE (lastBytes 8 plaintext) : ℤ) = epoch ∧
        o.nI = (dropLastBytes 8 plaintext).drop 32) ∧
      o.pid = msg1.pid ∧ o.peer = peer ∧ o.epoch = epoch ∧ log' = log ∧
      E'.credential = E.credential := by
  have hroot := E.getPairwiseRoot_fst peer
  have hcred := E.credential_getPairwiseRoot peer
  unfold verify at h
  split_ifs at h with hblocked hcov
  · cases h
  · cases h
  · split at h <;> rename_i hget
    · cases h
    · rename_i kStar E₁
      rw [hget] at hroot hcred
      obtain ⟨hx, hE⟩ := Prod.mk.inj h
      obtain ⟨rfl, hlog⟩ := Prod.mk.inj hE
      obtain ⟨plaintext, hdec, hpid, hepoch, rfl, hlog'⟩ := decryptRequest_ok (Prod.ext hx rfl)
      refine ⟨by simpa using hblocked, by simpa using hcov, ?_,
        ⟨plaintext, hdec, hpid, hepoch, rfl⟩,
        rfl, rfl, rfl, hlog.symm.trans hlog', hcred⟩
      rcases hlam : E.credential.peerSecrets.get peer with _ | lam
      · rw [hlam] at hroot
        cases hroot
      · rw [hlam] at hroot
        exact ⟨lam, rfl, Except.ok.inj hroot⟩

/-- An enrolled peer whose request does not pass the checks is rejected, unless its message reaches
the decryption with a nonce that the library does not take: then the check raises a `ValueError`. -/
lemma verify_error {E : Entity C} {log : SessionLog} {coverage : String → Bool} {msg1 : Message1}
    {peer : String} {epoch : ℤ} {lam : Lam} (hlam : E.credential.peerSecrets.get peer = some lam) :
    ((log.isBlocked peer = false ∧ coverage peer = true ∧
        ¬ (8 ≤ msg1.gcmNonce.length ∧ msg1.gcmNonce.length ≤ 128)) →
      ∃ e, (verify C E log coverage msg1 peer epoch).1 = .error e ∧ e.kind = .valueError) ∧
    (¬ (log.isBlocked peer = false ∧ coverage peer = true ∧
        ¬ (8 ≤ msg1.gcmNonce.length ∧ msg1.gcmNonce.length ≤ 128)) →
      ∀ e, (verify C E log coverage msg1 peer epoch).1 = .error e →
        e.IsRejection E.credential.peerSecrets.keys) := by
  have hpeer : peer ∈ E.credential.peerSecrets.keys := Dict.mem_keys_iff.mpr ⟨lam, hlam⟩
  have hroot := E.getPairwiseRoot_fst peer
  rw [hlam] at hroot
  rcases hget : E.getPairwiseRoot peer with ⟨y, E'⟩
  rw [hget] at hroot
  obtain rfl : y = .ok (E.credential.pairwiseRoot C lam) := hroot
  have hlen : (E.credential.pairwiseRoot C lam).length = keyLen :=
    Credential.length_pairwiseRoot C _ lam
  unfold verify
  rw [hget]
  by_cases hblocked : log.isBlocked peer = true
  · rw [if_pos hblocked]
    constructor
    · intro h
      rw [hblocked] at h
      cases h.1
    · intro _ e he
      cases he
      exact ⟨rfl, (Exc.brief_of_identity _ hpeer (by decide)).1⟩
  rw [if_neg hblocked]
  by_cases hcov : coverage peer = false
  · rw [if_pos hcov]
    constructor
    · intro h
      rw [hcov] at h
      cases h.2.1
    · intro _ e he
      cases he
      exact ⟨rfl, (Exc.brief_of_identity _ hpeer (by decide)).1⟩
  rw [if_neg hcov]
  dsimp only
  rw [Bool.not_eq_true] at hblocked
  rw [Bool.not_eq_false] at hcov
  constructor
  · rintro ⟨_, _, hnonce⟩
    obtain ⟨e, hdec, hkind⟩ :=
      aeadDecrypt_of_bad_nonce (C := C) msg1.ciphertext msg1.tag [] hlen hnonce
    have hvalue : e.kind ≠ .invalidTag := by
      rw [hkind]
      decide
    refine ⟨e, ?_, hkind⟩
    rw [decryptRequest, hdec]
    dsimp only
    rw [if_neg hvalue]
  · intro hgood e he
    rcases decryptRequest_error he with ⟨-, rfl | rfl⟩ | ⟨hdec, hkind, -⟩
    · exact ⟨rfl, (Exc.brief_of_identity _ hpeer (by decide)).2⟩
    · exact ⟨rfl, (Exc.brief_of_identity _ hpeer (by decide)).2⟩
    · by_cases hnonce : 8 ≤ msg1.gcmNonce.length ∧ msg1.gcmNonce.length ≤ 128
      · rcases aeadDecrypt_of_good_nonce (C := C) msg1.ciphertext msg1.tag [] hlen hnonce with
          ⟨p, hok⟩ | htag
        · rw [hok] at hdec
          cases hdec
        · obtain rfl := Except.error.inj (htag.symm.trans hdec)
          exact absurd rfl hkind
      · exact absurd ⟨hblocked, hcov, hnonce⟩ hgood

/-- What the checks change: nothing of the credential, and at most one failure is recorded. -/
lemma verify_frame (C : Crypto) (E : Entity C) (log : SessionLog) (coverage : String → Bool)
    (msg1 : Message1) (peer : String) (epoch : ℤ) :
    (verify C E log coverage msg1 peer epoch).2.1.credential = E.credential ∧
      ((verify C E log coverage msg1 peer epoch).2.2 = log ∨
        (verify C E log coverage msg1 peer epoch).2.2 = (log.recordFailure peer).2) := by
  have hcred := E.credential_getPairwiseRoot peer
  unfold verify
  split_ifs
  · exact ⟨rfl, Or.inl rfl⟩
  · exact ⟨rfl, Or.inr rfl⟩
  · split <;> rename_i hget
    · rw [hget] at hcred
      exact ⟨hcred, Or.inl rfl⟩
    · rw [hget] at hcred
      refine ⟨hcred, ?_⟩
      dsimp only
      unfold decryptRequest
      split
      · split_ifs
        · exact Or.inr rfl
        · exact Or.inl rfl
      · dsimp only
        split_ifs
        · exact Or.inr rfl
        · exact Or.inl rfl

/-- The answer to a request that was opened, explicitly. -/
lemma respond_eq {identity : String} {nonceBits : ℕ} {env : ServerEnv} {o : Opened}
    (hbits : nonceBits ∈ supportedNonceBits) (hepoch : 0 ≤ o.epoch ∧ o.epoch < 2 ^ 64)
    (hkey : o.kStar.length = keyLen) :
    respond C identity nonceBits env o = .ok
      { responseBytes := Message2.toBytes
          { serverId := identity
            gcmNonce := env.iv.draw gcmNonceLen
            ciphertext := C.gcmCrypt o.kStar (env.iv.draw gcmNonceLen)
              (env.nonce.draw (nonceBits / 8) ++ toBytesBE 8 o.epoch.toNat)
            tag := C.gcmTag o.kStar (env.iv.draw gcmNonceLen) (o.pid ++ o.nI)
              (C.gcmCrypt o.kStar (env.iv.draw gcmNonceLen)
                (env.nonce.draw (nonceBits / 8) ++ toBytesBE 8 o.epoch.toNat)) }
        sessionKey := sessionKey C o.kStar o.nI (env.nonce.draw (nonceBits / 8)) o.epoch.toNat
        peerIdentity := o.peer } := by
  rw [respond, generateNonce_eq_ok_iff.mpr ⟨hbits, rfl⟩, Except.ok_bind,
    deriveSessionKey_of_range hepoch, Except.ok_bind, epochToBytes_of_range hepoch, Except.ok_bind,
    aeadEncrypt_of_length hkey]
  rfl

/-- An answer is given only with a supported nonce length and an epoch of 64 bits. -/
lemma respond_ok {identity : String} {nonceBits : ℕ} {env : ServerEnv} {o : Opened}
    {res : AuthResult} (h : respond C identity nonceBits env o = .ok res) :
    nonceBits ∈ supportedNonceBits ∧ 0 ≤ o.epoch ∧ o.epoch < 2 ^ 64 := by
  unfold respond at h
  rcases hnonce : generateNonce nonceBits env.nonce with e | nJ
  · rw [hnonce] at h
    cases h
  · refine ⟨(generateNonce_eq_ok_iff.mp hnonce).1, ?_⟩
    by_contra hrange
    rw [hnonce, Except.ok_bind, deriveSessionKey, epochToBytes, if_neg hrange] at h
    cases h

end Spec

namespace Server

variable {C : Crypto}

/-- What is known of a request that was opened. -/
structure Opens (S : Server C) (env : ServerEnv) (data : Bytes) (o : Opened) (msg1 : Message1)
    (lam : Lam) (plaintext : Bytes) : Prop where
  parsed : Message1.fromBytes data = .ok msg1
  resolved : (S.resolver.resolve C S.peers S.sessionLog env.resolveReading msg1.pid).1 =
    .ok (o.peer, o.epoch)
  pid_eq : o.pid = msg1.pid
  unblocked : S.sessionLog.isBlocked o.peer = false
  covered : env.coverage o.peer = true
  lam_eq : S.peers.get o.peer = some lam
  kStar_eq : o.kStar = S.credential.pairwiseRoot C lam
  decrypted : aeadDecrypt C o.kStar msg1.gcmNonce msg1.ciphertext msg1.tag [] = .ok plaintext
  pid_plaintext : plaintext.take 32 = o.pid
  epoch_plaintext : (fromBytesBE (lastBytes 8 plaintext) : ℤ) = o.epoch
  nI_eq : o.nI = (dropLastBytes 8 plaintext).drop 32

/-- A request that is opened leaves the log as it was, and the resolver as resolving left it. -/
lemma openRequest_ok {S S' : Server C} {env : ServerEnv} {data : Bytes} {o : Opened}
    (h : S.openRequest env data = (.ok o, S')) :
    (∃ msg1 lam plaintext, S.Opens env data o msg1 lam plaintext ∧
      S'.resolver =
        (S.resolver.resolve C S.peers S.sessionLog env.resolveReading msg1.pid).2) ∧
      S'.sessionLog = S.sessionLog ∧ S'.credential = S.credential ∧
      S'.nonceBits = S.nonceBits := by
  unfold openRequest at h
  split at h
  · cases h
  · rename_i msg1 hparse
    unfold resolvePseudonym at h
    split at h <;> rename_i hres
    · cases h
    · rename_i peer epoch S₁
      obtain ⟨hres₁, rfl⟩ := Prod.mk.inj hres
      dsimp only at h
      obtain ⟨hok, rfl⟩ := Prod.mk.inj h
      obtain ⟨hblocked, hcov, ⟨lam, hlam, hk⟩, ⟨plaintext, hdec, hpid, hepoch, hnI⟩, hp, rfl, rfl,
        hlog, hcred⟩ := verify_ok (Prod.ext hok rfl)
      exact ⟨⟨msg1, lam, plaintext, ⟨hparse, hres₁, hp, hblocked, hcov, hlam, hk, hdec,
        hp ▸ hpid, hepoch, hnI⟩, rfl⟩, hlog, hcred, rfl⟩

/-- What opening a request changes: at most one failure is recorded, and the resolver at most
resolves. -/
lemma openRequest_frame (S : Server C) (env : ServerEnv) (data : Bytes) :
    (S.openRequest env data).2.credential = S.credential ∧
      (S.openRequest env data).2.nonceBits = S.nonceBits ∧
      ((S.openRequest env data).2.resolver = S.resolver ∨ ∃ pid,
        (S.openRequest env data).2.resolver =
          (S.resolver.resolve C S.peers S.sessionLog env.resolveReading pid).2) ∧
      ((S.openRequest env data).2.sessionLog = S.sessionLog ∨ ∃ peer,
        (S.openRequest env data).2.sessionLog = (S.sessionLog.recordFailure peer).2) := by
  unfold openRequest
  split
  · exact ⟨rfl, rfl, Or.inl rfl, Or.inl rfl⟩
  · rename_i msg1 hparse
    unfold resolvePseudonym
    dsimp only
    split <;> rename_i hres
    · obtain ⟨-, rfl⟩ := Prod.mk.inj hres
      exact ⟨rfl, rfl, Or.inr ⟨msg1.pid, rfl⟩, Or.inl rfl⟩
    · rename_i peer epoch S₁
      obtain ⟨-, rfl⟩ := Prod.mk.inj hres
      obtain ⟨hcred, hlog⟩ := verify_frame C S.entity S.sessionLog env.coverage msg1 peer epoch
      exact ⟨hcred, rfl, Or.inr ⟨msg1.pid, rfl⟩, hlog.imp id fun h => ⟨peer, h⟩⟩

/-- What a finished request did. -/
lemma finish_ok {S S' : Server C} {env : ServerEnv} {o : Opened} {res : AuthResult}
    (h : S.finish env o = (.ok res, S')) :
    (∃ r, S.resolver.accept C S.peers S.sessionLog env.acceptReading o.peer o.epoch o.nI =
        (.ok (), r, S.sessionLog.acceptEpoch o.peer o.epoch) ∧
      S' = { S with
        resolver := r
        sessionLog := (S.sessionLog.acceptEpoch o.peer o.epoch).recordSuccess o.peer }) ∧
      respond C S.credential.identity S.nonceBits env o = .ok res := by
  unfold finish at h
  split at h <;> rename_i hacc
  · cases h
  · rename_i r log
    obtain ⟨hres, rfl⟩ := Prod.mk.inj h
    obtain rfl := Resolver.log_accept_of_ok hacc
    exact ⟨⟨r, hacc, rfl⟩, hres⟩

/-- What finishing a request changes. -/
lemma finish_frame (S : Server C) (env : ServerEnv) (o : Opened) :
    (S.finish env o).2.credential = S.credential ∧ (S.finish env o).2.nonceBits = S.nonceBits ∧
      (S.finish env o).2.resolver = (S.resolver.accept C S.peers S.sessionLog env.acceptReading
        o.peer o.epoch o.nI).2.1 ∧
      ∀ p, (S.finish env o).2.sessionLog.last p = (S.resolver.accept C S.peers S.sessionLog
        env.acceptReading o.peer o.epoch o.nI).2.2.last p := by
  unfold finish
  split <;> rename_i hacc
  · rw [hacc]
    exact ⟨rfl, rfl, rfl, fun _ => rfl⟩
  · rw [hacc]
    exact ⟨rfl, rfl, rfl, fun _ => rfl⟩

/-- With counter epochs, finishing a request accepts the epoch, and resets the failures when the
request succeeds. -/
lemma sessionLog_finish (S : Server C) (hcounter : S.resolver.IsCounter) (env : ServerEnv)
    (o : Opened) :
    (S.finish env o).2.sessionLog = S.sessionLog.acceptEpoch o.peer o.epoch ∨
      (S.finish env o).2.sessionLog =
        (S.sessionLog.acceptEpoch o.peer o.epoch).recordSuccess o.peer := by
  have hlog : (S.resolver.accept C S.peers S.sessionLog env.acceptReading o.peer o.epoch
      o.nI).2.2 = S.sessionLog.acceptEpoch o.peer o.epoch := Resolver.log_accept hcounter
  unfold finish
  split <;> rename_i hacc
  · rw [hacc] at hlog
    exact Or.inl hlog
  · rw [hacc] at hlog
    dsimp only at hlog ⊢
    rw [hlog]
    exact Or.inr rfl

/-- A request is handled by opening it and then, if it was opened, finishing it. -/
lemma handleAuthRequest_cases (S : Server C) (env : ServerEnv) (data : Bytes) :
    (∃ e, (S.openRequest env data).1 = .error e ∧
      S.handleAuthRequest env data = (.error e, (S.openRequest env data).2)) ∨
    ∃ o, (S.openRequest env data).1 = .ok o ∧
      S.handleAuthRequest env data = (S.openRequest env data).2.finish env o := by
  unfold handleAuthRequest
  rcases S.openRequest env data with ⟨e | o, S'⟩
  · exact Or.inl ⟨e, rfl, rfl⟩
  · exact Or.inr ⟨o, rfl, rfl⟩

/-- The credential and the nonce length never change. -/
lemma handleAuthRequest_frame (S : Server C) (env : ServerEnv) (data : Bytes) :
    (S.handleAuthRequest env data).2.credential = S.credential ∧
      (S.handleAuthRequest env data).2.nonceBits = S.nonceBits := by
  obtain ⟨hcred, hbits, -, -⟩ := S.openRequest_frame env data
  rcases S.handleAuthRequest_cases env data with ⟨e, -, heq⟩ | ⟨o, -, heq⟩
  · rw [heq]
    exact ⟨hcred, hbits⟩
  · obtain ⟨hcred', hbits', -, -⟩ := (S.openRequest env data).2.finish_frame env o
    rw [heq]
    exact ⟨hcred'.trans hcred, hbits'.trans hbits⟩

/-- The invariant of a server whose resolver was attached to its peers and its log. -/
def Valid (S : Server C) : Prop := S.resolver.Valid C S.peers S.sessionLog

/-- A server that was created is valid. -/
lemma valid_create {credential : Credential Lam Bytes} {nonceBits : ℕ} {log : SessionLog}
    {resolver : Resolver} {reading : ℚ} {S : Server C}
    (h : create credential nonceBits log resolver reading = .ok S) :
    S.Valid ∧ S.credential = credential ∧ S.nonceBits = nonceBits ∧ S.sessionLog = log ∧
      credential.role = .server ∧
      resolver.attach C credential.peerSecrets log reading = (.ok (), S.resolver) := by
  unfold create at h
  split_ifs at h with hrole
  split at h <;> rename_i hatt
  · cases h
  · cases h
    exact ⟨Resolver.valid_attach hatt, rfl, rfl, rfl, not_not.mp hrole, hatt⟩

/-- A server is created when its resolver attaches. -/
lemma create_of_attach {credential : Credential Lam Bytes} (nonceBits : ℕ) {log : SessionLog}
    {resolver : Resolver} {reading : ℚ} (hrole : credential.role = .server)
    (hatt : (resolver.attach C credential.peerSecrets log reading).1 = .ok ()) :
    create credential nonceBits log resolver reading = .ok
      (⟨{ credential := credential }, nonceBits, log,
        (resolver.attach C credential.peerSecrets log reading).2⟩ : Server C) := by
  unfold create
  rw [if_neg (not_not.mpr hrole)]
  split <;> rename_i heq
  · rw [heq] at hatt
    cases hatt
  · rw [heq]

/-- Opening a request keeps a server valid. -/
lemma Valid.openRequest {S : Server C} (h : S.Valid) (env : ServerEnv) (data : Bytes) :
    (S.openRequest env data).2.Valid := by
  obtain ⟨hcred, -, hres, hlog⟩ := S.openRequest_frame env data
  have hlast : ∀ p, (S.openRequest env data).2.sessionLog.last p = S.sessionLog.last p := by
    intro p
    rcases hlog with heq | ⟨peer, heq⟩
    · rw [heq]
    · rw [heq, SessionLog.last_recordFailure]
  have hvalid : (S.openRequest env data).2.resolver.Valid C S.peers S.sessionLog := by
    rcases hres with heq | ⟨pid, heq⟩
    · rw [heq]
      exact h
    · rw [heq]
      exact h.resolve
  unfold Valid peers
  rw [hcred]
  exact hvalid.congr hlast

/-- Finishing a request keeps a server valid. -/
lemma Valid.finish {S : Server C} (h : S.Valid) (env : ServerEnv) (o : Opened) :
    (S.finish env o).2.Valid := by
  obtain ⟨hcred, -, hres, hlast⟩ := S.finish_frame env o
  unfold Valid peers
  rw [hcred, hres]
  exact (Resolver.Valid.accept h).congr hlast

/-- Every request keeps a server valid, whatever its outcome. -/
theorem Valid.handleAuthRequest {S : Server C} (h : S.Valid) (env : ServerEnv) (data : Bytes) :
    (S.handleAuthRequest env data).2.Valid := by
  rcases S.handleAuthRequest_cases env data with ⟨e, -, heq⟩ | ⟨o, -, heq⟩
  · rw [heq]
    exact h.openRequest env data
  · rw [heq]
    exact (h.openRequest env data).finish env o

/-- What every request leaves as it is: the server stays valid, with its credential and its nonce
length. -/
lemma Valid.step {S : Server C} {cred : Credential Lam Bytes} {nonceBits : ℕ}
    (h : S.Valid ∧ S.credential = cred ∧ S.nonceBits = nonceBits) (i : ServerEnv × Bytes) :
    (S.step i).2.Valid ∧ (S.step i).2.credential = cred ∧ (S.step i).2.nonceBits = nonceBits := by
  obtain ⟨hvalid, hcred, hbits⟩ := h
  obtain ⟨hcred', hbits'⟩ := S.handleAuthRequest_frame i.1 i.2
  exact ⟨hvalid.handleAuthRequest i.1 i.2, hcred'.trans hcred, hbits'.trans hbits⟩

/-- What every run leaves as it is. -/
lemma Valid.final {S : Server C} {cred : Credential Lam Bytes} {nonceBits : ℕ}
    (h : S.Valid ∧ S.credential = cred ∧ S.nonceBits = nonceBits)
    (requests : List (ServerEnv × Bytes)) :
    (Machine.final Server.step S requests).Valid ∧
      (Machine.final Server.step S requests).credential = cred ∧
      (Machine.final Server.step S requests).nonceBits = nonceBits := by
  have hstep : ∀ (S : Server C) i, (S.Valid ∧ S.credential = cred ∧ S.nonceBits = nonceBits) →
      True → (S.step i).2.Valid ∧ (S.step i).2.credential = cred ∧
        (S.step i).2.nonceBits = nonceBits := fun S i h _ => Valid.step h i
  exact Machine.invariant_final hstep h (Machine.allSteps_of_inputs fun _ _ => trivial)

/-- What is known of every reachable state. -/
theorem Reachable.valid {cred : Credential Lam Bytes} {nonceBits : ℕ} {S : Server C}
    (h : Reachable cred nonceBits S) :
    S.Valid ∧ S.credential = cred ∧ S.nonceBits = nonceBits := by
  obtain ⟨log, r, reading, S₀, requests, hcreate, rfl⟩ := h
  obtain ⟨hvalid, hcred, hbits, -, -, -⟩ := valid_create hcreate
  exact Valid.final ⟨hvalid, hcred, hbits⟩ requests

/-- Opening a request does not change the kind of the resolver. -/
lemma isCounter_openRequest (S : Server C) (env : ServerEnv) (data : Bytes) :
    (S.openRequest env data).2.resolver.IsCounter ↔ S.resolver.IsCounter := by
  obtain ⟨-, -, heq | ⟨pid, heq⟩, -⟩ := S.openRequest_frame env data
  · rw [heq]
  · rw [heq]
    exact Resolver.isCounter_resolve

/-- The kind of the resolver never changes. -/
lemma isCounter_handleAuthRequest (S : Server C) (env : ServerEnv) (data : Bytes) :
    (S.handleAuthRequest env data).2.resolver.IsCounter ↔ S.resolver.IsCounter := by
  have hopen := S.isCounter_openRequest env data
  rcases S.handleAuthRequest_cases env data with ⟨e, -, heq⟩ | ⟨o, -, heq⟩
  · rw [heq]
    exact hopen
  · rw [heq, ((S.openRequest env data).2.finish_frame env o).2.2.1]
    exact Resolver.isCounter_accept.trans hopen

/-- A last accepted epoch never decreases. -/
theorem last_le_handleAuthRequest (S : Server C) (env : ServerEnv) (data : Bytes) (p : String) :
    S.sessionLog.last p ≤ (S.handleAuthRequest env data).2.sessionLog.last p := by
  have hopen : S.sessionLog.last p = (S.openRequest env data).2.sessionLog.last p := by
    obtain ⟨-, -, -, heq | ⟨peer, heq⟩⟩ := S.openRequest_frame env data
    · rw [heq]
    · rw [heq, SessionLog.last_recordFailure]
  rcases S.handleAuthRequest_cases env data with ⟨e, -, heq⟩ | ⟨o, -, heq⟩
  · rw [heq]
    exact le_of_eq hopen
  · rw [heq, hopen, ((S.openRequest env data).2.finish_frame env o).2.2.2]
    rcases Resolver.log_accept_cases with hlog | hlog
    · rw [hlog]
    · rw [hlog]
      exact SessionLog.last_le_last_acceptEpoch

/-- What an `AuthResult` was computed from: a request that was opened, whose epoch was accepted. -/
theorem handleAuthRequest_ok {S S' : Server C} {env : ServerEnv} {data : Bytes} {res : AuthResult}
    (h : S.handleAuthRequest env data = (.ok res, S')) :
    ∃ o msg1 lam plaintext, (S.openRequest env data).1 = .ok o ∧
      S.Opens env data o msg1 lam plaintext ∧
      respond C S.credential.identity S.nonceBits env o = .ok res ∧
      S'.sessionLog = (S.sessionLog.acceptEpoch o.peer o.epoch).recordSuccess o.peer := by
  rcases S.handleAuthRequest_cases env data with ⟨e, -, heq⟩ | ⟨o, hok, heq⟩
  · rw [heq] at h
    cases h
  · rw [heq] at h
    obtain ⟨⟨msg1, lam, plaintext, hopens, -⟩, hlog, hcred, hbits⟩ :=
      openRequest_ok (Prod.ext hok rfl)
    obtain ⟨⟨r, -, rfl⟩, hresp⟩ := finish_ok h
    rw [hcred, hbits] at hresp
    refine ⟨o, msg1, lam, plaintext, hok, hopens, hresp, ?_⟩
    dsimp only
    rw [hlog]

/-- A request that meets all the checks is opened. -/
lemma Opens.openRequest_eq {S : Server C} {env : ServerEnv} {data : Bytes} {o : Opened}
    {msg1 : Message1} {lam : Lam} {plaintext : Bytes}
    (h : S.Opens env data o msg1 lam plaintext) : ∃ E : Entity C, E.credential = S.credential ∧
      S.openRequest env data = (.ok o, { S with
        entity := E
        resolver :=
          (S.resolver.resolve C S.peers S.sessionLog env.resolveReading msg1.pid).2 }) := by
  obtain ⟨pid, peer, epoch, nI, kStar⟩ := o
  obtain ⟨hparse, hres, hpid, hblocked, hcov, hlam, hk, hdec, hpid', hepoch, hnI⟩ := h
  dsimp only at hparse hres hpid hblocked hcov hlam hk hdec hpid' hepoch hnI
  have hroot : (S.entity.getPairwiseRoot peer).1 = .ok kStar := by
    rw [S.entity.getPairwiseRoot_fst, hlam, hk]
  have hdecrypt : decryptRequest C S.sessionLog msg1 peer epoch kStar =
      (.ok ⟨pid, peer, epoch, nI, kStar⟩, S.sessionLog) := by
    have hgood : ¬ (plaintext.take 32 ≠ msg1.pid ∨
        (fromBytesBE (lastBytes 8 plaintext) : ℤ) ≠ epoch) := by
      rw [not_or, not_not, not_not]
      exact ⟨hpid'.trans hpid, hepoch⟩
    rw [decryptRequest, hdec]
    dsimp only
    rw [if_neg hgood, hpid, hnI]
  refine ⟨(S.entity.getPairwiseRoot peer).2, S.entity.credential_getPairwiseRoot peer, ?_⟩
  rcases hresolve : S.resolver.resolve C S.peers S.sessionLog env.resolveReading
    msg1.pid with ⟨x, r⟩
  rcases hget : S.entity.getPairwiseRoot peer with ⟨y, E⟩
  rw [hresolve] at hres
  rw [hget] at hroot
  obtain rfl : x = .ok (peer, epoch) := hres
  obtain rfl : y = .ok kStar := hroot
  have hverify : verify C S.entity S.sessionLog env.coverage msg1 peer epoch =
      (.ok ⟨pid, peer, epoch, nI, kStar⟩, E, S.sessionLog) := by
    have hblocked' : ¬ S.sessionLog.isBlocked peer = true := by simp [hblocked]
    have hcov' : ¬ env.coverage peer = false := by simp [hcov]
    rw [verify, if_neg hblocked', if_neg hcov', hget]
    dsimp only
    rw [hdecrypt]
  rw [openRequest, hparse]
  dsimp only
  rw [resolvePseudonym, hresolve]
  dsimp only
  rw [hverify]

/-- A request that meets all the checks, and whose epoch is accepted, is answered. -/
theorem Opens.handleAuthRequest_eq {S : Server C} {env : ServerEnv} {data : Bytes} {o : Opened}
    {msg1 : Message1} {lam : Lam} {plaintext : Bytes}
    (h : S.Opens env data o msg1 lam plaintext) {r : Resolver} {log : SessionLog}
    (hacc : (S.resolver.resolve C S.peers S.sessionLog env.resolveReading msg1.pid).2.accept C
      S.peers S.sessionLog env.acceptReading o.peer o.epoch o.nI = (.ok (), r, log)) :
    ∃ E : Entity C, E.credential = S.credential ∧ S.handleAuthRequest env data =
      (respond C S.credential.identity S.nonceBits env o, { S with
        entity := E
        sessionLog := log.recordSuccess o.peer
        resolver := r }) := by
  obtain ⟨E, hE, hopen⟩ := h.openRequest_eq
  have hpeers : E.credential.peerSecrets = S.peers := congrArg Credential.peerSecrets hE
  refine ⟨E, hE, ?_⟩
  rw [handleAuthRequest, hopen]
  dsimp only
  unfold finish peers credential
  dsimp only
  rw [hpeers, hacc, hE]

/-- What is opened is named by the pseudonym that came with the request. -/
lemma Valid.names_of_opens {S : Server C} (h : S.Valid) {env : ServerEnv} {data : Bytes}
    {o : Opened} {msg1 : Message1} {lam : Lam} {plaintext : Bytes}
    (ho : S.Opens env data o msg1 lam plaintext) : Names C S.peers o.pid o.peer o.epoch := by
  rw [ho.pid_eq]
  exact Resolver.Valid.resolve_sound h ho.resolved

/-- With counter epochs, what is opened is above the last accepted epoch. -/
lemma Valid.new_of_opens {S : Server C} (h : S.Valid) (hcounter : S.resolver.IsCounter)
    {env : ServerEnv} {data : Bytes} {o : Opened} {msg1 : Message1} {lam : Lam} {plaintext : Bytes}
    (ho : S.Opens env data o msg1 lam plaintext) : S.sessionLog.last o.peer < o.epoch :=
  Resolver.Valid.resolve_new h hcounter ho.resolved

/-! ## Acceptances -/

/-- What a request that is answered was opened as, with the bytes it was read from. -/
def acceptance (S : Server C) (i : ServerEnv × Bytes) : Option (Bytes × Opened) :=
  match S.openRequest i.1 i.2 with
  | (.error _, _) => none
  | (.ok o, S) =>
    match S.finish i.1 o with
    | (.error _, _) => none
    | (.ok _, _) => some (i.2, o)

/-- A request is accepted exactly when it is opened and its answer is returned. -/
lemma acceptance_eq_some {S : Server C} {i : ServerEnv × Bytes} {x : Bytes × Opened} :
    S.acceptance i = some x ↔ x.1 = i.2 ∧ (S.openRequest i.1 i.2).1 = .ok x.2 ∧
      ∃ res, (S.handleAuthRequest i.1 i.2).1 = .ok res := by
  obtain ⟨data, o⟩ := x
  unfold acceptance handleAuthRequest
  rcases S.openRequest i.1 i.2 with ⟨e | o', S'⟩
  · simp
  · dsimp only
    rcases S'.finish i.1 o' with ⟨e | res, S''⟩
    · simp
    · simp [eq_comm]

/-- A request that meets all the checks is accepted when its epoch is, and it leaves the log and the
resolver as accepting the epoch left them. -/
lemma Opens.acceptance_eq {S : Server C} {env : ServerEnv} {data : Bytes} {o : Opened}
    {msg1 : Message1} {lam : Lam} {plaintext : Bytes}
    (h : S.Opens env data o msg1 lam plaintext) (hbits : S.nonceBits ∈ supportedNonceBits)
    (hepoch : 0 ≤ o.epoch ∧ o.epoch < 2 ^ 64) {r : Resolver}
    (hr : (S.resolver.resolve C S.peers S.sessionLog env.resolveReading msg1.pid).2 = r)
    (hacc : (r.accept C S.peers S.sessionLog env.acceptReading o.peer o.epoch o.nI).1 = .ok ()) :
    S.acceptance (env, data) = some (data, o) ∧
      (S.handleAuthRequest env data).2.credential = S.credential ∧
      (S.handleAuthRequest env data).2.nonceBits = S.nonceBits ∧
      (S.handleAuthRequest env data).2.sessionLog =
        (S.sessionLog.acceptEpoch o.peer o.epoch).recordSuccess o.peer ∧
      (S.handleAuthRequest env data).2.resolver =
        (r.accept C S.peers S.sessionLog env.acceptReading o.peer o.epoch o.nI).2.1 := by
  have hkey : o.kStar.length = keyLen := by
    rw [h.kStar_eq]
    exact Credential.length_pairwiseRoot C _ lam
  subst hr
  obtain ⟨E, hE, hopen⟩ := h.openRequest_eq
  obtain ⟨E', hE', heq⟩ := h.handleAuthRequest_eq (Prod.ext hacc rfl)
  have hlog := Resolver.log_accept_of_ok (Prod.ext hacc rfl)
  refine ⟨acceptance_eq_some.mpr ⟨rfl, by rw [hopen], ?_⟩, ?_⟩
  · rw [heq]
    exact ⟨_, respond_eq hbits hepoch hkey⟩
  · rw [heq]
    exact ⟨hE', rfl, congrArg (fun log => SessionLog.recordSuccess log o.peer) hlog, rfl⟩

/-- What the bytes of a request, read with the key of the peer, contain. -/
def Reads (C : Crypto) (cred : Credential Lam Bytes) (data : Bytes) (o : Opened) : Prop :=
  ∃ msg1 lam plaintext, Message1.fromBytes data = .ok msg1 ∧ o.pid = msg1.pid ∧
    cred.peerSecrets.get o.peer = some lam ∧ o.kStar = cred.pairwiseRoot C lam ∧
    aeadDecrypt C o.kStar msg1.gcmNonce msg1.ciphertext msg1.tag [] = .ok plaintext ∧
    (fromBytesBE (lastBytes 8 plaintext) : ℤ) = o.epoch ∧
    o.nI = (dropLastBytes 8 plaintext).drop 32

/-- A request that was opened contains what it was opened as. -/
lemma Opens.reads {S : Server C} {env : ServerEnv} {data : Bytes} {o : Opened} {msg1 : Message1}
    {lam : Lam} {plaintext : Bytes} (h : S.Opens env data o msg1 lam plaintext) :
    Reads C S.credential data o :=
  ⟨msg1, lam, plaintext, h.parsed, h.pid_eq, h.lam_eq, h.kStar_eq, h.decrypted, h.epoch_plaintext,
    h.nI_eq⟩

/-- The bytes of a request and the peer determine what the request contains. -/
lemma Reads.unique {cred : Credential Lam Bytes} {data : Bytes} {o o' : Opened}
    (h : Reads C cred data o) (h' : Reads C cred data o') :
    o.pid = o'.pid ∧ (o.peer = o'.peer → o = o') := by
  obtain ⟨msg1, lam, plaintext, hparse, hpid, hlam, hk, hdec, hepoch, hnI⟩ := h
  obtain ⟨msg1', lam', plaintext', hparse', hpid', hlam', hk', hdec', hepoch', hnI'⟩ := h'
  obtain rfl := Except.ok.inj (hparse.symm.trans hparse')
  refine ⟨hpid.trans hpid'.symm, fun hpeer => ?_⟩
  rw [hpeer] at hlam
  obtain rfl := Option.some_inj.mp (hlam.symm.trans hlam')
  have hkey : o.kStar = o'.kStar := hk.trans hk'.symm
  rw [hkey] at hdec
  obtain rfl := Except.ok.inj (hdec.symm.trans hdec')
  obtain ⟨pid, peer, epoch, nI, kStar⟩ := o
  obtain ⟨pid', peer', epoch', nI', kStar'⟩ := o'
  dsimp only at hpid hpid' hpeer hkey hepoch hepoch' hnI hnI'
  rw [Opened.mk.injEq]
  exact ⟨hpid.trans hpid'.symm, hpeer, hepoch.symm.trans hepoch', hnI.trans hnI'.symm, hkey⟩

/-! ## A server of two devices -/

/-- The credential of a server with two devices, the first of which is probed first. -/
def serverOfTwo : Credential Lam Bytes where
  identity := "server-A"
  role := .server
  lam := 2
  peerSecrets := (Dict.empty.set "device-2" 3).set "device-1" 1

/-- The devices of that server and their secrets. -/
lemma get_serverOfTwo {q : String} {lam : Lam} (h : serverOfTwo.peerSecrets.get q = some lam) :
    q = "device-1" ∧ lam = 1 ∨ q = "device-2" ∧ lam = 3 := by
  rw [serverOfTwo, Dict.get_set] at h
  split_ifs at h with hq
  · exact Or.inl ⟨hq, (Option.some_inj.mp h).symm⟩
  · obtain ⟨rfl, rfl⟩ := Dict.get_singleton_iff.mp h
    exact Or.inr ⟨rfl, rfl⟩

/-- The message of a device with a given secret for a given epoch, under the plain suite. -/
def plainMessage (secret epoch : ℕ) : Message1 where
  pid := toBytesBE 32 (secret * 2 ^ 64 + epoch)
  gcmNonce := List.replicate 12 0
  ciphertext := toBytesBE 32 (secret * 2 ^ 64 + epoch) ++ List.replicate 16 7 ++ toBytesBE 8 epoch
  tag := toBytesBE 16 0

/-- What the server opens that message as. -/
def plainOpened (peer : String) (lam : Lam) (epoch : ℕ) : Opened where
  pid := toBytesBE 32 (lam.val * 2 ^ 64 + epoch)
  peer := peer
  epoch := epoch
  nI := List.replicate 16 7
  kStar := serverOfTwo.pairwiseRoot .plain lam

/-- The server opens that message when it resolves its pseudonym and has not blocked the device. -/
lemma opens_plainMessage {S : Server .plain} (hcred : S.credential = serverOfTwo) {peer : String}
    {lam : Lam} {epoch : ℕ} (hlam : serverOfTwo.peerSecrets.get peer = some lam)
    (hepoch : epoch < 2 ^ 64)
    (hres : (S.resolver.resolve .plain serverOfTwo.peerSecrets S.sessionLog 0
      (plainMessage lam.val epoch).pid).1 = .ok (peer, (epoch : ℤ)))
    (hblocked : S.sessionLog.isBlocked peer = false) :
    S.Opens (.read 0 0) (plainMessage lam.val epoch).toBytes (plainOpened peer lam epoch)
      (plainMessage lam.val epoch) lam (plainMessage lam.val epoch).ciphertext where
  parsed := Message1.fromBytes_toBytes _
  resolved := by rw [peers, hcred]; exact hres
  pid_eq := rfl
  unblocked := hblocked
  covered := rfl
  lam_eq := by rw [peers, hcred]; exact hlam
  kStar_eq := by rw [hcred, plainOpened]
  decrypted := by
    rw [aeadDecrypt_eq_ok_iff]
    have hkey : (plainOpened peer lam epoch).kStar.length = keyLen :=
      Credential.length_pairwiseRoot .plain serverOfTwo lam
    have hnonce : (plainMessage lam.val epoch).gcmNonce.length = 12 := List.length_replicate
    rw [hnonce]
    exact ⟨hkey, by decide, rfl⟩
  pid_plaintext := by
    rw [plainMessage, List.append_assoc]
    exact List.take_left' (length_toBytesBE _ _)
  epoch_plaintext := by
    rw [plainMessage, plainOpened]
    dsimp only
    rw [lastBytes_append (length_toBytesBE _ _), fromBytesBE_toBytesBE_of_lt hepoch]
  nI_eq := by
    rw [plainMessage, plainOpened]
    dsimp only
    rw [dropLastBytes_append (length_toBytesBE _ _)]
    exact (List.drop_left' (length_toBytesBE _ _)).symm

/-- A request of one of the two devices, for an epoch. -/
def plainRequest (lam : Lam) (epoch : ℕ) : ServerEnv × Bytes :=
  (.read 0 0, (plainMessage lam.val epoch).toBytes)

lemma plainRequest_snd (lam : Lam) (epoch : ℕ) :
    (plainRequest lam epoch).2 = (plainMessage lam.val epoch).toBytes := rfl

/-- The request of an opened message is answered with a result for its peer. -/
structure Answered (S : Server C) (i : ServerEnv × Bytes) (o : Opened) (result : AuthResult) :
    Prop where
  result_eq : (S.step i).1 = .ok result
  acceptance_eq : S.acceptance i = some (i.2, o)
  peer_eq : result.peerIdentity = o.peer

/-- A request that meets all the checks, and whose epoch is accepted, is answered for its peer. -/
lemma Opens.exists_answered {S : Server C} {env : ServerEnv} {data : Bytes} {o : Opened}
    {msg1 : Message1} {lam : Lam} {plaintext : Bytes}
    (h : S.Opens env data o msg1 lam plaintext) (hbits : S.nonceBits ∈ supportedNonceBits)
    (hepoch : 0 ≤ o.epoch ∧ o.epoch < 2 ^ 64) {r : Resolver}
    (hr : (S.resolver.resolve C S.peers S.sessionLog env.resolveReading msg1.pid).2 = r)
    (hacc : (r.accept C S.peers S.sessionLog env.acceptReading o.peer o.epoch o.nI).1 = .ok ()) :
    ∃ result, S.Answered (env, data) o result := by
  obtain ⟨hacceptance, -⟩ := h.acceptance_eq hbits hepoch hr hacc
  have hkey : o.kStar.length = keyLen := by
    rw [h.kStar_eq]
    exact Credential.length_pairwiseRoot C _ lam
  obtain ⟨-, hopen, result, hresult⟩ := acceptance_eq_some.mp hacceptance
  obtain ⟨o', -, -, -, hopen', -, hresp, -⟩ := handleAuthRequest_ok (Prod.ext hresult rfl)
  obtain rfl := Except.ok.inj (hopen.symm.trans hopen')
  rw [respond_eq hbits hepoch hkey] at hresp
  exact ⟨result, hresult, hacceptance, by rw [← Except.ok.inj hresp]⟩

/-- A server of the two devices with a log and a resolver. -/
def IsOfTwo (S : Server .plain) (log : SessionLog) (r : Resolver) : Prop :=
  S.credential = serverOfTwo ∧ S.nonceBits = 128 ∧ S.sessionLog = log ∧ S.resolver = r

/-- A request of one of the two devices that resolves and whose epoch is accepted is answered. -/
lemma IsOfTwo.exists_answered {S : Server .plain} {log : SessionLog} {r : Resolver}
    (h : S.IsOfTwo log r) {peer : String} {lam : Lam} {epoch : ℕ}
    (hlam : serverOfTwo.peerSecrets.get peer = some lam) (hepoch : epoch < 2 ^ 64)
    (hres : (r.resolve .plain serverOfTwo.peerSecrets log 0
      (plainMessage lam.val epoch).pid).1 = .ok (peer, (epoch : ℤ)))
    (hblocked : log.isBlocked peer = false)
    (hacc : ((r.resolve .plain serverOfTwo.peerSecrets log 0
      (plainMessage lam.val epoch).pid).2.accept .plain serverOfTwo.peerSecrets log 0 peer epoch
      (plainOpened peer lam epoch).nI).1 = .ok ()) :
    (∃ result, S.Answered (plainRequest lam epoch) (plainOpened peer lam epoch) result) ∧
    (S.step (plainRequest lam epoch)).2.IsOfTwo ((log.acceptEpoch peer epoch).recordSuccess peer)
      ((r.resolve .plain serverOfTwo.peerSecrets log 0
        (plainMessage lam.val epoch).pid).2.accept .plain serverOfTwo.peerSecrets log 0 peer epoch
        (plainOpened peer lam epoch).nI).2.1 := by
  obtain ⟨hcred, hbits, rfl, rfl⟩ := h
  have hopens := opens_plainMessage hcred hlam hepoch hres hblocked
  have hbits' : S.nonceBits ∈ supportedNonceBits := by
    rw [hbits]
    decide
  have hrange : 0 ≤ (plainOpened peer lam epoch).epoch ∧
      (plainOpened peer lam epoch).epoch < 2 ^ 64 := by
    have heq : (plainOpened peer lam epoch).epoch = epoch := rfl
    omega
  have hstep : S.step (plainRequest lam epoch) =
      S.handleAuthRequest (.read 0 0) (plainMessage lam.val epoch).toBytes := rfl
  have hreading : (ServerEnv.read 0 0).resolveReading = 0 ∧
      (ServerEnv.read 0 0).acceptReading = 0 := ⟨rfl, rfl⟩
  have hopened : (plainOpened peer lam epoch).peer = peer ∧
      (plainOpened peer lam epoch).epoch = epoch := ⟨rfl, rfl⟩
  rw [← hcred] at hacc ⊢
  obtain ⟨-, hcred', hbits'', hlog, hr⟩ := hopens.acceptance_eq hbits' hrange rfl hacc
  rw [hreading.1, hreading.2, hopened.1, hopened.2] at hr
  refine ⟨hopens.exists_answered hbits' hrange rfl hacc, ?_⟩
  rw [hstep]
  exact ⟨hcred'.trans hcred, hbits''.trans hbits, hlog, hr⟩

/-- The server of the two devices, scanning. -/
def scanningTwo : Server .plain := ⟨{ credential := serverOfTwo }, 128, {}, .linearScan {}⟩

/-- Two requests of one device with one of the other between them, all with the same nonces. -/
def threeRequests : List (ServerEnv × Bytes) :=
  [plainRequest 1 0, plainRequest 3 0, plainRequest 1 1]

/-- All three requests are answered, and then the first device has reached epoch 1 and the other one
epoch 0. -/
lemma answered_threeRequests : ∃ a b c,
    (scanningTwo.Answered (plainRequest 1 0) (plainOpened "device-1" 1 0) a ∧
      scanningTwo.nonceBits = 128) ∧
    ((scanningTwo.step (plainRequest 1 0)).2.Answered (plainRequest 3 0)
        (plainOpened "device-2" 3 0) b ∧
      (scanningTwo.step (plainRequest 1 0)).2.nonceBits = 128) ∧
    (((scanningTwo.step (plainRequest 1 0)).2.step (plainRequest 3 0)).2.Answered
        (plainRequest 1 1) (plainOpened "device-1" 1 1) c ∧
      ((scanningTwo.step (plainRequest 1 0)).2.step (plainRequest 3 0)).2.nonceBits = 128) ∧
    (Machine.final step scanningTwo threeRequests).credential = serverOfTwo ∧
    (Machine.final step scanningTwo threeRequests).sessionLog.last "device-2" = 0 ∧
    (Machine.final step scanningTwo threeRequests).sessionLog.forwardTolerance = 8 := by
  have hinit : scanningTwo.IsOfTwo {} (.linearScan {}) := ⟨rfl, rfl, rfl, rfl⟩
  have hone : serverOfTwo.peerSecrets.get "device-1" = some 1 := rfl
  have htwo : serverOfTwo.peerSecrets.get "device-2" = some 3 := rfl
  have hzero : 0 < 2 ^ 64 := by decide
  obtain ⟨⟨a, ha⟩, hfirst⟩ := hinit.exists_answered hone hzero
    (toOption_eq_some_iff.mp (by decide +kernel)) rfl (toOption_eq_some_iff.mp (by decide +kernel))
  obtain ⟨⟨b, hb⟩, hsecond⟩ := hfirst.exists_answered htwo hzero
    (toOption_eq_some_iff.mp (by decide +kernel)) (by decide +kernel)
    (toOption_eq_some_iff.mp (by decide +kernel))
  obtain ⟨⟨c, hc⟩, hthird⟩ := hsecond.exists_answered hone (show 1 < 2 ^ 64 by decide)
    (toOption_eq_some_iff.mp (by decide +kernel)) (by decide +kernel)
    (toOption_eq_some_iff.mp (by decide +kernel))
  obtain ⟨hcred, -, hlog, -⟩ := hthird
  refine ⟨a, b, c, ⟨ha, rfl⟩, ⟨hb, hfirst.2.1⟩, ⟨hc, hsecond.2.1⟩, ?_⟩
  have hfinal : ∀ (S : Server .plain) i j k,
      Machine.final step S [i, j, k] = (((S.step i).2.step j).2.step k).2 := fun _ _ _ _ => rfl
  rw [threeRequests, hfinal, hlog]
  exact ⟨hcred, by decide +kernel, by decide +kernel⟩

end Server

end HybridEccAuth

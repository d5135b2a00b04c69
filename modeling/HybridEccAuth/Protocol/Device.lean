import HybridEccAuth.Protocol.Entity
import HybridEccAuth.Protocol.Messages
import HybridEccAuth.Storage.SessionLog

/-!
# The device

`Device.buildAuthRequest` builds M1 and remembers it as the pending session of its
peer; `Device.completeAuth` consumes a pending session and derives the session key
from M2.  Both return the state they leave, also when they raise.

`buildAuthRequest_ok` and `completeAuth_ok` say what a call that returns has done;
`buildAuthRequest_error` and `completeAuth_frame` what a call leaves of the state in
general.
-/

namespace HybridEccAuth

/-- The default of `session_timeout`. -/
def defaultSessionTimeoutSeconds : ℚ := 5

/-- A request that waits for its answer. -/
structure PendingSession where
  peerIdentity : String
  epoch : ℤ
  pid : Bytes
  nI : Bytes
  kStar : Bytes
  createdAt : ℚ
  deriving DecidableEq

/-- What building a request finds in the surroundings of the device. -/
structure BuildEnv where
  coverage : String → Bool
  /-- What `epoch_clock` returns, when it is set. -/
  clockEpoch : ℤ
  /-- The random bytes of `N_i`. -/
  nonce : Urandom
  /-- The random bytes of the IV of M1. -/
  iv : Urandom
  /-- The reading of the monotonic clock. -/
  monotonic : ℚ

/-- The state of a device. -/
structure Device (C : Crypto) where
  entity : Entity C
  nonceBits : ℕ := defaultNonceBits
  sessionTimeout : ℚ := defaultSessionTimeoutSeconds
  sessionLog : SessionLog := {}
  /-- The next epoch for each peer. -/
  epoch : Dict String ℤ := .empty
  /-- Whether epochs come from a clock instead. -/
  epochClock : Bool := false
  pending : Dict String PendingSession := .empty

/-- The pending session that the server identity of an M2 names.  A look-up hashes the identity,
which lists and dictionaries refuse, unless nothing is pending at all. -/
def lookupPending (pending : Dict String PendingSession) (sid : Json) :
    Except Exc (Option (String × PendingSession)) :=
  match sid with
  | .str s => .ok (s.toString?.bind fun id => (pending.get id).map fun p => (id, p))
  | .arr _ | .obj _ =>
    if pending.size = 0 then .ok none else .error (.ofLibrary .typeError)
  | _ => .ok none

/-- The error for an M2 of which nothing is pending. -/
def noPendingError (sid : Json) : Exc :=
  ⟨.unknownPeerError, [.lit "no pending authentication request for ", .reprJson (some sid)]⟩

/-- The error for an M2 that comes too late. -/
def timeoutError (peer : String) (timeout : ℚ) : Exc :=
  ⟨.sessionTimeoutError,
    [.lit "session with ", .str peer, .lit " exceeded ", .seconds timeout, .lit "s window"]⟩

namespace Device

variable {C : Crypto}

/-- The credential of a device. -/
abbrev credential (D : Device C) : Credential Lam Bytes := D.entity.credential

/-- The constructor. -/
def create (credential : Credential Lam Bytes) (nonceBits : ℕ) (sessionTimeout : ℚ)
    (maxAttempts : ℕ) (epochClock : Bool) : Except Exc (Device C) :=
  if credential.role ≠ .device then
    .error ⟨.valueError, [.lit "Device requires a credential with role='device', got ",
      .reprStr credential.role.text]⟩
  else .ok { entity := { credential := credential }, nonceBits := nonceBits,
             sessionTimeout := sessionTimeout, sessionLog := { maxAttempts := maxAttempts },
             epochClock := epochClock }

/-- The next epoch of a counter. -/
def nextEpoch (D : Device C) (peer : String) : ℤ := (D.epoch.get peer).getD 0

/-- The epoch of the next request. -/
def requestEpoch (D : Device C) (env : BuildEnv) (peer : String) : ℤ :=
  if D.epochClock then env.clockEpoch else D.nextEpoch peer

/-- `current_pseudonym` for a given epoch. -/
def currentPseudonym (D : Device C) (epoch : ℤ) : Except Exc Bytes :=
  h2Pseudonym C D.credential.lam epoch

/-- Draws `N_i` and encrypts M1: what will be pending, and the message. -/
def compose (D : Device C) (env : BuildEnv) (peer : String) (kStar : Bytes) (epoch : ℤ) :
    Except Exc (PendingSession × Message1) := do
  let pid ← D.currentPseudonym epoch
  let nI ← generateNonce D.nonceBits env.nonce
  let epochBytes ← epochToBytes epoch
  let (gcmNonce, ciphertext, tag) ← aeadEncrypt C kStar (pid ++ nI ++ epochBytes) [] env.iv
  return (⟨peer, epoch, pid, nI, kStar, env.monotonic⟩, ⟨pid, gcmNonce, ciphertext, tag⟩)

/-- Makes a session pending, and counts its epoch unless epochs come from a clock. -/
def remember (D : Device C) (peer : String) (session : PendingSession) : Device C :=
  { D with
    pending := D.pending.set peer session
    epoch := if D.epochClock then D.epoch else D.epoch.set peer (session.epoch + 1) }

/-- `build_auth_request`. -/
def buildAuthRequest (D : Device C) (env : BuildEnv) (peer : String) :
    Except Exc Bytes × Device C :=
  if D.sessionLog.isBlocked peer then
    (.error ⟨.blockedEntity,
      [.lit "local policy has block-listed ", .reprStr peer, .lit " after repeated failures"]⟩, D)
  else if env.coverage peer = false then
    (.error ⟨.coverageError,
      [.str peer, .lit " is out of coverage range (cov_ij(t) = False)"]⟩, D)
  else
    match D.entity.getPairwiseRoot peer with
    | (.error e, E) => (.error e, { D with entity := E })
    | (.ok kStar, E) =>
      match D.compose env peer kStar (D.requestEpoch env peer) with
      | .error e => (.error e, { D with entity := E })
      | .ok (session, msg1) =>
        (.ok msg1.toBytes, { D with entity := E }.remember peer session)

/-- Records a failure of a peer. -/
def fail (D : Device C) (peer : String) : Device C :=
  { D with sessionLog := (D.sessionLog.recordFailure peer).2 }

/-- Decrypts and checks M2 against the pending session it answers. -/
def verifyResponse (D : Device C) (session : PendingSession) (gcmNonce ciphertext tag : Bytes) :
    Except Exc Bytes × Device C :=
  let aad := session.pid ++ session.nI
  match aeadDecrypt C session.kStar gcmNonce ciphertext tag aad with
  | .error e =>
    if e.kind = .invalidTag then
      (.error ⟨.integrityError,
        [.lit "failed to verify server response (sigma_2/tag mismatch)"]⟩,
        D.fail session.peerIdentity)
    else (.error e, D)
  | .ok plaintext =>
    let epochBytes := lastBytes 8 plaintext
    let nJ := dropLastBytes 8 plaintext
    if (fromBytesBE epochBytes : ℤ) ≠ session.epoch then
      (.error ⟨.integrityError,
        [.lit "server response epoch does not match the outstanding request"]⟩,
        D.fail session.peerIdentity)
    else
      (deriveSessionKey C session.kStar session.nI nJ session.epoch,
        { D with sessionLog := D.sessionLog.recordSuccess session.peerIdentity })

/-- `complete_auth`, at a reading of the monotonic clock. -/
def completeAuth (D : Device C) (monotonic : ℚ) (data : Bytes) : Except Exc Bytes × Device C :=
  match Message2.fromBytes data with
  | .error e => (.error e, D)
  | .ok msg2 =>
    match lookupPending D.pending msg2.serverId with
    | .error e => (.error e, D)
    | .ok none => (.error (noPendingError msg2.serverId), D)
    | .ok (some (id, session)) =>
      let D := { D with pending := D.pending.erase id }
      if D.sessionTimeout < monotonic - session.createdAt then
        (.error (timeoutError session.peerIdentity D.sessionTimeout), D.fail session.peerIdentity)
      else D.verifyResponse session msg2.gcmNonce msg2.ciphertext msg2.tag

/-! ## Building -/

/-- What a request that was composed consists of. -/
lemma compose_eq {D : Device C} {env : BuildEnv} {peer : String} {kStar : Bytes} {epoch : ℤ}
    (hkey : kStar.length = keyLen) {session : PendingSession} {msg1 : Message1}
    (h : D.compose env peer kStar epoch = .ok (session, msg1)) :
    h2Pseudonym C D.credential.lam epoch = .ok session.pid ∧
      D.nonceBits ∈ supportedNonceBits ∧
      session = ⟨peer, epoch, session.pid, env.nonce.draw (D.nonceBits / 8), kStar,
        env.monotonic⟩ ∧
      msg1 = ⟨session.pid, env.iv.draw gcmNonceLen,
        C.gcmCrypt kStar (env.iv.draw gcmNonceLen)
          (session.pid ++ session.nI ++ toBytesBE 8 epoch.toNat),
        C.gcmTag kStar (env.iv.draw gcmNonceLen) [] (C.gcmCrypt kStar (env.iv.draw gcmNonceLen)
          (session.pid ++ session.nI ++ toBytesBE 8 epoch.toNat))⟩ := by
  unfold compose currentPseudonym at h
  rcases hpid : h2Pseudonym C D.credential.lam epoch with e | pid
  · rw [hpid] at h
    cases h
  · rw [hpid, Except.ok_bind] at h
    rcases hnonce : generateNonce D.nonceBits env.nonce with e | nI
    · rw [hnonce] at h
      cases h
    · obtain ⟨hbits, rfl⟩ := generateNonce_eq_ok_iff.mp hnonce
      rw [hnonce, Except.ok_bind, epochToBytes_of_range (epoch_of_h2Pseudonym hpid), Except.ok_bind,
        aeadEncrypt_of_length hkey] at h
      cases h
      exact ⟨rfl, hbits, rfl, rfl⟩

/-- A request is composed when the nonce length is supported and the epoch has 64 bits. -/
lemma exists_compose (D : Device C) (env : BuildEnv) (peer : String) {kStar : Bytes} {epoch : ℤ}
    (hkey : kStar.length = keyLen) (hbits : D.nonceBits ∈ supportedNonceBits)
    (hepoch : 0 ≤ epoch ∧ epoch < 2 ^ 64) :
    ∃ session msg1, D.compose env peer kStar epoch = .ok (session, msg1) := by
  obtain ⟨pid, hpid⟩ := exists_h2Pseudonym C D.credential.lam hepoch.1 hepoch.2
  rw [compose, currentPseudonym, hpid, Except.ok_bind, generateNonce_eq_ok_iff.mpr ⟨hbits, rfl⟩,
    Except.ok_bind, epochToBytes_of_range hepoch, Except.ok_bind, aeadEncrypt_of_length hkey]
  exact ⟨_, _, rfl⟩

/-- A call of `build_auth_request` that is neither blocked nor out of range, for a known peer, a
supported nonce length and an epoch of 64 bits, returns. -/
lemma exists_buildAuthRequest {D : Device C} {env : BuildEnv} {peer : String} {lam : Lam}
    (hblocked : D.sessionLog.isBlocked peer = false) (hcoverage : env.coverage peer = true)
    (hpeer : D.credential.peerSecrets.get peer = some lam)
    (hbits : D.nonceBits ∈ supportedNonceBits)
    (hepoch : 0 ≤ D.requestEpoch env peer ∧ D.requestEpoch env peer < 2 ^ 64) :
    ∃ data D', D.buildAuthRequest env peer = (.ok data, D') := by
  have hroot := D.entity.getPairwiseRoot_fst peer
  rw [hpeer] at hroot
  unfold buildAuthRequest
  rw [hblocked, hcoverage, if_neg (by decide), if_neg (by decide)]
  rcases hget : D.entity.getPairwiseRoot peer with ⟨x, E⟩
  rw [hget] at hroot
  obtain rfl : x = .ok (D.entity.credential.pairwiseRoot C lam) := hroot
  obtain ⟨session, msg1, hcomp⟩ := D.exists_compose env peer
    (Credential.length_pairwiseRoot C D.credential lam) hbits hepoch
  dsimp only
  rw [hcomp]
  exact ⟨_, _, rfl⟩

/-- What a call of `build_auth_request` that returns has done. -/
theorem buildAuthRequest_ok {D D' : Device C} {env : BuildEnv} {peer : String} {data : Bytes}
    (h : D.buildAuthRequest env peer = (.ok data, D')) :
    ∃ lam session msg1, D.credential.peerSecrets.get peer = some lam ∧
      D.compose env peer (D.credential.pairwiseRoot C lam) (D.requestEpoch env peer) =
        .ok (session, msg1) ∧
      data = msg1.toBytes ∧ D'.credential = D.credential ∧ D'.nonceBits = D.nonceBits ∧
      D'.sessionTimeout = D.sessionTimeout ∧ D'.sessionLog = D.sessionLog ∧
      D'.epochClock = D.epochClock ∧ D'.pending = D.pending.set peer session ∧
      D'.epoch = if D.epochClock then D.epoch else D.epoch.set peer (session.epoch + 1) := by
  have hroot := D.entity.getPairwiseRoot_fst peer
  have hcred := D.entity.credential_getPairwiseRoot peer
  unfold buildAuthRequest at h
  split_ifs at h
  · cases h
  · cases h
  · rcases hget : D.entity.getPairwiseRoot peer with ⟨e | kStar, E⟩
    · rw [hget] at h
      cases h
    · rw [hget] at h hroot hcred
      rcases hlam : D.entity.credential.peerSecrets.get peer with _ | lam
      · rw [hlam] at hroot
        cases hroot
      · rw [hlam] at hroot
        obtain rfl := Except.ok.inj hroot
        dsimp only at h hcred
        rcases hcomp : D.compose env peer (D.entity.credential.pairwiseRoot C lam)
          (D.requestEpoch env peer) with e | ⟨session, msg1⟩
        · rw [hcomp] at h
          cases h
        · rw [hcomp] at h
          cases h
          exact ⟨lam, session, msg1, rfl, hcomp, rfl, hcred, rfl, rfl, rfl, rfl, rfl, rfl⟩

/-- A request uses up one epoch, where epochs are counted. -/
lemma nextEpoch_of_build {D D' : Device C} {env : BuildEnv} {peer : String} {data : Bytes}
    (h : D.buildAuthRequest env peer = (.ok data, D')) (hclock : D.epochClock = false) :
    D'.nextEpoch peer = D.nextEpoch peer + 1 := by
  obtain ⟨lam, session, msg1, -, hcompose, -, -, -, -, -, -, -, hepoch⟩ := buildAuthRequest_ok h
  obtain ⟨-, -, hsession, -⟩ := compose_eq (Credential.length_pairwiseRoot C _ _) hcompose
  have hcounted : D.requestEpoch env peer = D.nextEpoch peer := by
    rw [requestEpoch, hclock, if_neg Bool.false_ne_true]
  have hnumber : session.epoch = D.nextEpoch peer :=
    (congrArg PendingSession.epoch hsession).trans hcounted
  rw [nextEpoch, hepoch, hclock, if_neg Bool.false_ne_true, Dict.get_set_self, hnumber]
  rfl

/-- A call of `build_auth_request` that raises changes at most the cache of pairwise roots. -/
lemma buildAuthRequest_error {D D' : Device C} {env : BuildEnv} {peer : String} {e : Exc}
    (h : D.buildAuthRequest env peer = (.error e, D')) :
    ∃ E : Entity C, E.credential = D.credential ∧ D' = { D with entity := E } := by
  have hcred := D.entity.credential_getPairwiseRoot peer
  unfold buildAuthRequest at h
  split_ifs at h
  · cases h
    exact ⟨_, rfl, rfl⟩
  · cases h
    exact ⟨_, rfl, rfl⟩
  · rcases hget : D.entity.getPairwiseRoot peer with ⟨e | kStar, E⟩
    · rw [hget] at h hcred
      cases h
      exact ⟨E, hcred, rfl⟩
    · rw [hget] at h hcred
      dsimp only at h hcred
      split at h
      · cases h
        exact ⟨E, hcred, rfl⟩
      · cases h

/-! ## Completing -/

/-- What a look-up that finds a pending session has found. -/
lemma lookupPending_some {pending : Dict String PendingSession} {sid : Json} {id : String}
    {session : PendingSession} (h : lookupPending pending sid = .ok (some (id, session))) :
    (∃ s, sid = .str s ∧ s.toString? = some id) ∧ pending.get id = some session := by
  unfold lookupPending at h
  split at h
  · rename_i s
    obtain ⟨id', hid, hget⟩ := Option.bind_eq_some_iff.mp (Except.ok.inj h)
    obtain ⟨session', hsession, heq⟩ := Option.map_eq_some_iff.mp hget
    cases heq
    exact ⟨⟨s, rfl, hid⟩, hsession⟩
  · split_ifs at h
    cases h
  · split_ifs at h
    cases h
  · cases h

/-- The pending session that a text names. -/
lemma lookupPending_ofString {pending : Dict String PendingSession} (id : String) :
    lookupPending pending (.str (Str.ofString id)) =
      .ok ((pending.get id).map fun session => (id, session)) := by
  rw [lookupPending, Str.toString?_ofString]
  rfl

/-- What a response that is verified satisfies, and what it leaves. -/
lemma verifyResponse_ok {D D' : Device C} {session : PendingSession} {nonce ct tag key : Bytes}
    (h : D.verifyResponse session nonce ct tag = (.ok key, D')) :
    ∃ plaintext, aeadDecrypt C session.kStar nonce ct tag (session.pid ++ session.nI) =
        .ok plaintext ∧ (fromBytesBE (lastBytes 8 plaintext) : ℤ) = session.epoch ∧
      deriveSessionKey C session.kStar session.nI (dropLastBytes 8 plaintext) session.epoch =
        .ok key ∧
      D' = { D with sessionLog := D.sessionLog.recordSuccess session.peerIdentity } := by
  unfold verifyResponse at h
  dsimp only at h
  split at h
  · split_ifs at h <;> cases h
  · rename_i plaintext hdec
    split_ifs at h with hepoch
    · cases h
    · obtain ⟨hkey, rfl⟩ := Prod.mk.inj h
      exact ⟨plaintext, hdec, not_not.mp hepoch, hkey, rfl⟩

/-- What verifying a response changes: the session log. -/
lemma verifyResponse_frame (D : Device C) (session : PendingSession) (nonce ct tag : Bytes) :
    ∃ log, (D.verifyResponse session nonce ct tag).2 = { D with sessionLog := log } := by
  unfold verifyResponse
  dsimp only
  split
  · split_ifs
    · exact ⟨_, rfl⟩
    · exact ⟨_, rfl⟩
  · split_ifs
    · exact ⟨_, rfl⟩
    · exact ⟨_, rfl⟩

/-- What a call of `complete_auth` that returns a key has done. -/
theorem completeAuth_ok {D D' : Device C} {monotonic : ℚ} {data key : Bytes}
    (h : D.completeAuth monotonic data = (.ok key, D')) :
    ∃ msg2 id session plaintext, Message2.fromBytes data = .ok msg2 ∧
      (∃ s, msg2.serverId = .str s ∧ s.toString? = some id) ∧ D.pending.get id = some session ∧
      aeadDecrypt C session.kStar msg2.gcmNonce msg2.ciphertext msg2.tag
        (session.pid ++ session.nI) = .ok plaintext ∧
      (fromBytesBE (lastBytes 8 plaintext) : ℤ) = session.epoch ∧
      deriveSessionKey C session.kStar session.nI (dropLastBytes 8 plaintext) session.epoch =
        .ok key ∧
      D' = { D with
        pending := D.pending.erase id
        sessionLog := D.sessionLog.recordSuccess session.peerIdentity } := by
  unfold completeAuth at h
  split at h
  · cases h
  · rename_i msg2 hparse
    split at h
    · cases h
    · cases h
    · rename_i id session hlook
      dsimp only at h
      split_ifs at h
      · cases h
      · obtain ⟨hsid, hget⟩ := lookupPending_some hlook
        obtain ⟨plaintext, hdec, hepoch, hkey, rfl⟩ := verifyResponse_ok h
        exact ⟨msg2, id, session, plaintext, hparse, hsid, hget, hdec, hepoch, hkey, rfl⟩

/-- What a call of `complete_auth` changes: the session log, and at most one session is no longer
pending. -/
lemma completeAuth_frame (D : Device C) (monotonic : ℚ) (data : Bytes) :
    ∃ log pending, (D.completeAuth monotonic data).2 =
        { D with sessionLog := log, pending := pending } ∧
      (pending = D.pending ∨ ∃ id, pending = D.pending.erase id) := by
  unfold completeAuth
  split
  · exact ⟨_, _, rfl, Or.inl rfl⟩
  · split
    · exact ⟨_, _, rfl, Or.inl rfl⟩
    · exact ⟨_, _, rfl, Or.inl rfl⟩
    · rename_i id session hlook
      dsimp only
      split_ifs
      · exact ⟨_, _, rfl, Or.inr ⟨id, rfl⟩⟩
      · obtain ⟨log, hlog⟩ :=
          verifyResponse_frame { D with pending := D.pending.erase id } session _ _ _
        exact ⟨log, _, hlog, Or.inr ⟨id, rfl⟩⟩

/-! ## Completions -/

/-- What an M2 that decrypts completes: the server, its pending session, and the `N_j` that was
found in the message. -/
def completion (D : Device C) (data : Bytes) : Option (String × PendingSession × Bytes) :=
  match Message2.fromBytes data with
  | .error _ => none
  | .ok msg2 =>
    match lookupPending D.pending msg2.serverId with
    | .ok (some (id, session)) =>
      match aeadDecrypt C session.kStar msg2.gcmNonce msg2.ciphertext msg2.tag
        (session.pid ++ session.nI) with
      | .ok plaintext => some (id, session, dropLastBytes 8 plaintext)
      | .error _ => none
    | _ => none

/-- A call of `complete_auth` that returns a key completes a pending session, and derives the key
from its nonce and epoch and from the `N_j` that was found. -/
theorem completion_of_ok {D D' : Device C} {monotonic : ℚ} {data key : Bytes}
    (h : D.completeAuth monotonic data = (.ok key, D')) :
    ∃ msg2 id session plaintext, D.completion data = some (id, session, dropLastBytes 8 plaintext) ∧
      Message2.fromBytes data = .ok msg2 ∧
      lookupPending D.pending msg2.serverId = .ok (some (id, session)) ∧
      D.pending.get id = some session ∧
      aeadDecrypt C session.kStar msg2.gcmNonce msg2.ciphertext msg2.tag
        (session.pid ++ session.nI) = .ok plaintext ∧
      (fromBytesBE (lastBytes 8 plaintext) : ℤ) = session.epoch ∧
      deriveSessionKey C session.kStar session.nI (dropLastBytes 8 plaintext) session.epoch =
        .ok key ∧
      D' = { D with
        pending := D.pending.erase id
        sessionLog := D.sessionLog.recordSuccess session.peerIdentity } := by
  obtain ⟨msg2, id, session, plaintext, hparse, ⟨s, hsid, hid⟩, hget, hdec, hepoch, hkey, hD'⟩ :=
    completeAuth_ok h
  have hlook : lookupPending D.pending msg2.serverId = .ok (some (id, session)) := by
    rw [hsid, lookupPending, hid, Option.bind_some, hget]
    rfl
  refine ⟨msg2, id, session, plaintext, ?_, hparse, hlook, hget, hdec, hepoch, hkey, hD'⟩
  rw [completion, hparse]
  dsimp only
  rw [hlook]
  dsimp only
  rw [hdec]

end Device

end HybridEccAuth

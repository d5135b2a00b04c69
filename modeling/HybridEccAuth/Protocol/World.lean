import HybridEccAuth.Protocol.Device
import HybridEccAuth.Protocol.Server

/-!
# Devices and servers on an open network

A `World` holds any number of devices and servers by identity.  The network belongs to
an adversary: a message is delivered by an action that carries arbitrary bytes, so
dropping, reordering, duplicating, replaying and injecting need no rules of their own.
The adversary may also encrypt, under any key that is not the pairwise root of an
honest device.

`World.history` records what happened: every encryption, every request that was built,
every answer of a server and every key that a device completed.  Nothing reads it but
the premise that the authenticated encryption is ideal (`World.Ideal`): a decryption
succeeds only on what was encrypted before, under the same key, nonce and associated
data.
-/

namespace HybridEccAuth

/-! ## Enrolment -/

/-- The identities that were enrolled, their long-term secrets, and the corrupt ones among them. -/
structure Enrolment where
  members : List String
  secretOf : String → Lam
  corrupt : List String := []

namespace Enrolment

/-- The pairwise root of a device and a server. -/
def root (C : Crypto) (P : Enrolment) (device server : String) : Bytes :=
  derivePairwiseRoot C (P.secretOf device) (P.secretOf server)

/-- A credential of an identity: its secret, and secrets of other members. -/
structure Holds (P : Enrolment) (cred : Credential Lam Bytes) (id : String) : Prop where
  identity_eq : cred.identity = id
  mem : id ∈ P.members
  lam_eq : cred.lam = P.secretOf id
  peers : ∀ p lam, cred.peerSecrets.get p = some lam → p ∈ P.members ∧ lam = P.secretOf p

/-- Pseudonyms and pairwise roots of different members differ. -/
structure Distinct (C : Crypto) (P : Enrolment) : Prop where
  pseudonym : ∀ a ∈ P.members, ∀ b ∈ P.members, ∀ e e' pid,
    h2Pseudonym C (P.secretOf a) e = .ok pid → h2Pseudonym C (P.secretOf b) e' = .ok pid →
      a = b ∧ e = e'
  root : ∀ a ∈ P.members, ∀ b ∈ P.members, ∀ a' ∈ P.members, ∀ b' ∈ P.members,
    P.root C a b = P.root C a' b' → a = a' ∧ b = b'

/-- A key that the adversary may have: it is no pairwise root of an honest member. -/
def Available (C : Crypto) (P : Enrolment) (key : Bytes) : Prop :=
  ∀ device ∈ P.members, device ∉ P.corrupt → ∀ server ∈ P.members, key ≠ P.root C device server

/-- The adversary may have the pairwise roots of the corrupt members. -/
theorem available_root {C : Crypto} {P : Enrolment} (hP : P.Distinct C) {device server : String}
    (hdevice : device ∈ P.members) (hserver : server ∈ P.members) (hcorrupt : device ∈ P.corrupt) :
    P.Available C (P.root C device server) := by
  intro a ha hhonest b hb heq
  obtain ⟨rfl, -⟩ := hP.root device hdevice server hserver a ha b hb heq
  exact hhonest hcorrupt

end Enrolment

/-! ## Events -/

/-- What happens in a world. -/
inductive Event
  /-- A call of the authenticated encryption. -/
  | encrypted (key nonce aad plaintext : Bytes)
  /-- `build_auth_request` returned, and left a session pending. -/
  | requested (device server : String) (session : PendingSession)
  /-- `handle_auth_request` returned a result for a request. -/
  | answered (server : String) (request : Bytes) (opened : Opened) (nJ : Bytes)
      (result : AuthResult)
  /-- `complete_auth` returned a key for a session. -/
  | completed (device server : String) (session : PendingSession) (nJ key : Bytes)

/-- What can be done in a world. -/
inductive Action
  /-- A device builds a request to a server. -/
  | request (device server : String) (env : BuildEnv)
  /-- A server receives bytes as a request. -/
  | serve (server : String) (env : ServerEnv) (data : Bytes)
  /-- A device receives bytes as an answer. -/
  | complete (device : String) (monotonic : ℚ) (data : Bytes)
  /-- The adversary encrypts. -/
  | encrypt (key nonce aad plaintext : Bytes)

/-- Devices and servers by identity, and what has happened. -/
structure World (C : Crypto) where
  devices : Dict String (Device C) := .empty
  servers : Dict String (Server C) := .empty
  history : List Event := []

namespace World

variable {C : Crypto}

/-- The events of building a request: M1 is encrypted, and a session is pending. -/
def requestEvents (device server : String) (iv : Urandom) (session : PendingSession) : List Event :=
  [.encrypted session.kStar (iv.draw gcmNonceLen) []
      (session.pid ++ session.nI ++ toBytesBE 8 session.epoch.toNat),
    .requested device server session]

/-- The events of answering a request: M2 is encrypted, and a result is returned. -/
def answerEvents (server : String) (env : ServerEnv) (request : Bytes) (o : Opened) (nJ : Bytes)
    (result : AuthResult) : List Event :=
  [.encrypted o.kStar (env.iv.draw gcmNonceLen) (o.pid ++ o.nI) (nJ ++ toBytesBE 8 o.epoch.toNat),
    .answered server request o nJ result]

/-- What an action brings about. -/
def events (w : World C) : Action → List Event
  | .request V R env =>
    match w.devices.get V with
    | none => []
    | some D =>
      match D.buildAuthRequest env R with
      | (.error _, _) => []
      | (.ok _, D) =>
        match D.pending.get R with
        | none => []
        | some session => requestEvents V R env.iv session
  | .serve R env data =>
    match w.servers.get R with
    | none => []
    | some S =>
      match (S.handleAuthRequest env data).1, S.acceptance (env, data) with
      | .ok result, some (_, o) =>
        answerEvents R env data o (env.nonce.draw (S.nonceBits / 8)) result
      | _, _ => []
  | .complete V monotonic data =>
    match w.devices.get V with
    | none => []
    | some D =>
      match (D.completeAuth monotonic data).1, D.completion data with
      | .ok key, some (R, session, nJ) => [.completed V R session nJ key]
      | _, _ => []
  | .encrypt key nonce aad plaintext => [.encrypted key nonce aad plaintext]

/-- The devices after an action. -/
def devicesAfter (w : World C) : Action → Dict String (Device C)
  | .request V R env =>
    match w.devices.get V with
    | none => w.devices
    | some D => w.devices.set V (D.buildAuthRequest env R).2
  | .complete V monotonic data =>
    match w.devices.get V with
    | none => w.devices
    | some D => w.devices.set V (D.completeAuth monotonic data).2
  | _ => w.devices

/-- The servers after an action. -/
def serversAfter (w : World C) : Action → Dict String (Server C)
  | .serve R env data =>
    match w.servers.get R with
    | none => w.servers
    | some S => w.servers.set R (S.handleAuthRequest env data).2
  | _ => w.servers

/-- A world as a machine: its inputs are actions, its outputs what they bring about. -/
def step (w : World C) (a : Action) : List Event × World C :=
  (w.events a, ⟨w.devicesAfter a, w.serversAfter a, w.history ++ w.events a⟩)

/-- What building a request brings about. -/
lemma events_request {w : World C} {V R : String} {env : BuildEnv} {D : Device C}
    {session : PendingSession} (hD : w.devices.get V = some D)
    (hok : (D.buildAuthRequest env R).1.isOk = true)
    (hget : (D.buildAuthRequest env R).2.pending.get R = some session) :
    w.events (.request V R env) = requestEvents V R env.iv session := by
  unfold events
  dsimp only
  rw [hD]
  dsimp only
  rcases hbuild : D.buildAuthRequest env R with ⟨e | data, D'⟩
  · rw [hbuild] at hok
    exact absurd hok Bool.false_ne_true
  · rw [hbuild] at hget
    dsimp only at hget ⊢
    rw [hget]

/-- What answering a request brings about. -/
lemma events_serve {w : World C} {R : String} {env : ServerEnv} {data : Bytes} {S : Server C}
    {o : Opened} {result : AuthResult} (hS : w.servers.get R = some S)
    (hresult : (S.handleAuthRequest env data).1 = .ok result)
    (hacc : S.acceptance (env, data) = some (data, o)) :
    w.events (.serve R env data) =
      answerEvents R env data o (env.nonce.draw (S.nonceBits / 8)) result := by
  unfold events
  dsimp only
  rw [hS]
  dsimp only
  rw [hresult, hacc]

/-- What completing a session brings about. -/
lemma events_complete {w : World C} {V R : String} {monotonic : ℚ} {data : Bytes} {D : Device C}
    {session : PendingSession} {nJ key : Bytes} (hD : w.devices.get V = some D)
    (hkey : (D.completeAuth monotonic data).1 = .ok key)
    (hcompletion : D.completion data = some (R, session, nJ)) :
    w.events (.complete V monotonic data) = [.completed V R session nJ key] := by
  unfold events
  dsimp only
  rw [hD]
  dsimp only
  rw [hkey, hcompletion]

/-! ## Premises -/

/-- A decryption succeeds only on what was encrypted before. -/
def Genuine (w : World C) (key nonce ciphertext tag aad : Bytes) : Prop :=
  ∀ plaintext, aeadDecrypt C key nonce ciphertext tag aad = .ok plaintext →
    .encrypted key nonce aad plaintext ∈ w.history

/-- The authenticated encryption is ideal in an action: what a server decrypts as M1, and what a
device decrypts as M2, is genuine. -/
def Ideal (w : World C) : Action → Prop
  | .serve R env data => ∀ S msg1 peer epoch lam, w.servers.get R = some S →
      Message1.fromBytes data = .ok msg1 →
      (S.resolver.resolve C S.peers S.sessionLog env.resolveReading msg1.pid).1 =
        .ok (peer, epoch) →
      S.sessionLog.isBlocked peer = false → env.coverage peer = true →
      S.peers.get peer = some lam →
      w.Genuine (S.credential.pairwiseRoot C lam) msg1.gcmNonce msg1.ciphertext msg1.tag []
  | .complete V _ data => ∀ D msg2 R session, w.devices.get V = some D →
      Message2.fromBytes data = .ok msg2 →
      lookupPending D.pending msg2.serverId = .ok (some (R, session)) →
      w.Genuine session.kStar msg2.gcmNonce msg2.ciphertext msg2.tag (session.pid ++ session.nI)
  | _ => True

/-- What the adversary may do: encrypt under the keys that are available to it. -/
def Permitted (P : Enrolment) : Action → Prop
  | .encrypt key _ _ _ => P.Available C key
  | _ => True

/-- The premises about one action. -/
def Fair (P : Enrolment) (w : World C) (a : Action) : Prop :=
  w.Ideal a ∧ Permitted (C := C) P a

/-- A world before its first action: devices with counter epochs and servers with resolvers for
them, all over credentials of the enrolment, and nothing has happened. -/
structure Initial (P : Enrolment) (w : World C) : Prop where
  devices : ∀ V D, w.devices.get V = some D → ∃ cred nonceBits timeout maxAttempts,
    P.Holds cred V ∧ Device.create cred nonceBits timeout maxAttempts false = .ok D
  servers : ∀ R S, w.servers.get R = some S → ∃ cred nonceBits log r reading,
    P.Holds cred R ∧ r.IsCounter ∧ Server.create cred nonceBits log r reading = .ok S
  history : w.history = []

end World

end HybridEccAuth

import HybridEccAuth.Properties.Connections
import HybridEccAuth.Properties.Enrollment

/-!
# Runs of the demo

Each run of `hea-device authenticate` counts its epochs from zero again, so that a server process
accepts one request of a device in its whole life, whichever run has built it, and however late it
arrives: the commands of the demo do no more than the machine `Progress`, which remembers which
devices have built a request, of which the server has accepted one, and which requests it has not
answered (`commands_refine`).  What a device sees after that is `ReplayDetected` or nothing, until
the server is stopped (`served_once`).
-/

namespace HybridEccAuth

variable {C : Crypto}

/-! ## First requests -/

/-- A request that a new device has built for a server, the device after that, and what it
remembers. -/
structure FirstRequest (cred : Credential Lam Bytes) (R : String) (env : BuildEnv) (data : Bytes)
    (D : Device C) (s : PendingSession) : Prop where
  built : ∃ D₀, Device.create cred defaultNonceBits defaultSessionTimeoutSeconds defaultMaxAttempts
    false = .ok D₀ ∧ D₀.buildAuthRequest env R = (.ok data, D)
  session : D.pending.get R = some s
  peer : s.peerIdentity = R
  epoch : s.epoch = 0
  createdAt : s.createdAt = env.monotonic
  length : s.kStar.length = keyLen
  timeout : D.sessionTimeout = defaultSessionTimeoutSeconds

/-- A new device builds a request for a server that its bundle lists. -/
lemma exists_firstRequest {cred : Credential Lam Bytes} {R : String} (hrole : cred.role = .device)
    (hlists : R ∈ cred.peerSecrets.keys) {env : BuildEnv} (hcoverage : env.coverage R = true) :
    ∃ (D₀ : Device C) (data : Bytes) (D : Device C) (s : PendingSession),
      Device.create cred defaultNonceBits defaultSessionTimeoutSeconds defaultMaxAttempts false =
        .ok D₀ ∧ D₀.buildAuthRequest env R = (.ok data, D) ∧ FirstRequest cred R env data D s := by
  obtain ⟨lam, hlam⟩ := Dict.mem_keys_iff.mp hlists
  let D₀ : Device C := { entity := { credential := cred } }
  have hcreate : Device.create cred defaultNonceBits defaultSessionTimeoutSeconds defaultMaxAttempts
      false = .ok D₀ := if_neg (not_not.mpr hrole)
  have hzero : D₀.requestEpoch env R = 0 := rfl
  have hbits : defaultNonceBits ∈ supportedNonceBits := by decide
  obtain ⟨data, D, hbuild⟩ : ∃ data D, D₀.buildAuthRequest env R = (.ok data, D) :=
    Device.exists_buildAuthRequest rfl hcoverage hlam hbits (by rw [hzero]; decide)
  obtain ⟨lam', s, msg1, -, hcompose, -, -, -, htimeout, -, -, hpending, -⟩ :=
    Device.buildAuthRequest_ok hbuild
  have hroot := Credential.length_pairwiseRoot C D₀.credential lam'
  obtain ⟨-, -, hsession, -⟩ := Device.compose_eq hroot hcompose
  have hs : D.pending.get R = some s := by rw [hpending, Dict.get_set_self]
  refine ⟨D₀, data, D, s, hcreate, hbuild, ⟨⟨D₀, hcreate, hbuild⟩, hs, ?_, ?_, ?_, ?_, htimeout⟩⟩
  · rw [hsession]
  · rw [hsession]
    exact hzero
  · rw [hsession]
  · rw [hsession]
    exact hroot

/-- A server process that has accepted one request of each device in a set, and no other one. -/
structure Serving (S : Server C) (cred : Credential Lam Bytes) (served : Finset String) : Prop where
  serves : S.Serves cred.identity defaultForwardTolerance defaultReplayLookback
  credential : S.credential = cred
  role : cred.role = .server
  last : ∀ V, S.sessionLog.last V = if V ∈ served then 0 else -1

/-- A server process after its start. -/
lemma exists_serving {cred : Credential Lam Bytes} (hrole : cred.role = .server)
    (hinj : PseudonymsInjective C cred.peerSecrets) :
    ∃ S : Server C, Server.create cred defaultNonceBits {} (.linearScan {}) 0 = .ok S ∧
      Serving S cred ∅ := by
  have hfit : (Resolver.linearScan {}).EpochsFit cred.peerSecrets {} := by
    intro p _
    rw [show ({} : SessionLog).last p = -1 from SessionLog.last_fresh _ _ _ _]
    decide
  obtain ⟨S, hS⟩ :=
    Server.exists_create (C := C) (r := .linearScan {}) defaultNonceBits 0 trivial hrole
    hinj hfit
  obtain ⟨hserves, hcred, -, hlast⟩ := Server.serves_create hinj
    (by decide) (by decide) hS
  exact ⟨S, hS, hserves, hcred, hrole, fun V => by rw [hlast, if_neg (Finset.notMem_empty V)]⟩

/-- The first request of a device is accepted, and every other first request of it is a replay. -/
lemma Serving.answers {masterSecret : Bytes} {credV credR : Credential Lam Bytes} {S : Server C}
    {served : Finset String} (h : Serving S credR served) {r : Render}
    (hshort : r.Short (credR.identity :: credR.peerSecrets.keys))
    (hrepr : ∀ p, NoSurrogate (r.reprStr p)) (hV : Derived C masterSecret credV)
    (hR : Derived C masterSecret credR) (hlistsV : credR.identity ∈ credV.peerSecrets.keys)
    (hlistsR : credV.identity ∈ credR.peerSecrets.keys) {env : BuildEnv} {data : Bytes}
    {D : Device C}
    {s : PendingSession} (hreq : FirstRequest credV credR.identity env data D s)
    {serverEnv : ServerEnv} (hcoverage : serverEnv.coverage credV.identity = true) :
    ∃ envelope S', handleConnection r S serverEnv (.ok data) =
        (.ok (some (Socket.frame envelope)), S') ∧ envelope.length ≤ maxFrameBytes ∧
      Serving S' credR (insert credV.identity served) ∧
      if credV.identity ∈ served then
        ∃ message, readResponse envelope =
          some (.rejected (.str (Str.ofString "ReplayDetected")) message)
      else ∃ result nonceBits, readResponse envelope = some (.accepted result.responseBytes) ∧
        respond C credR.identity nonceBits serverEnv (s.opened credV.identity) = .ok result := by
  obtain ⟨D₀, hcreate, hbuild⟩ := hreq.built
  obtain ⟨hcredD, hDrole⟩ := Device.create_ok hcreate
  have hpaired := hV.paired hR hlistsV hlistsR hcredD h.credential hDrole h.role
  have hlast := h.last credV.identity
  have hpeers : S.peers = credR.peerSecrets := by rw [Server.peers, h.credential]
  split_ifs with hserved
  · rw [if_pos hserved] at hlast
    obtain ⟨e, S', hstep, hkind, hbrief, hserves, hcred, hlog⟩ :=
      h.serves.rejects hpaired hbuild hreq.session serverEnv (by rw [hlast, hreq.epoch]; omega)
    rw [hlast, hreq.epoch, if_pos (by decide)] at hkind
    have hrej : e.IsRejection S.peers.keys := ⟨by rw [hkind]; rfl, hbrief⟩
    obtain ⟨envelope, hconn, hfits, hread⟩ := handleConnection_rejected
      (fun p hp => hshort p (List.mem_cons_of_mem _ (hpeers ▸ hp))) hrepr hstep hrej
    rw [hkind] at hread
    refine ⟨envelope, S', hconn, hfits, ⟨hserves, hcred.trans h.credential, h.role, ?_⟩, _, hread⟩
    rw [Finset.insert_eq_of_mem hserved, hlog]
    exact h.last
  · rw [if_neg hserved] at hlast
    obtain ⟨result, S', hstep, hresp, hserves, hcred, hlast'⟩ :=
      h.serves.accepts hpaired hbuild hreq.session hcoverage
        (by rw [hlast, hreq.epoch]; decide) (by rw [hreq.epoch]; decide)
    obtain ⟨iv, nJ, -, -, hbytes, -⟩ := Device.exists_of_respond hreq.length hresp
    obtain ⟨envelope, hconn, hfits, hread⟩ := handleConnection_accepted (r := r)
      (by rw [h.credential]; exact (hshort _ List.mem_cons_self).1) hstep hbytes
    refine ⟨envelope, S', hconn, hfits, ⟨hserves, hcred.trans h.credential, h.role, fun p => ?_⟩,
      result, _, hread, hresp⟩
    rw [hlast', hreq.epoch, h.last p]
    simp only [Finset.mem_insert]
    split_ifs <;> tauto

/-! ## What the commands amount to -/

/-- What a run of `hea-device authenticate` tells. -/
inductive Verdict
  | nothingToReplay
  | unreachable
  | replayDetected
  | unexpectedlyAccepted
  | timedOut
  | succeeded
  deriving DecidableEq

/-- What an outcome tells; other outcomes do not occur between enrolled parties. -/
def AuthenticateOutcome.verdict : AuthenticateOutcome → Option Verdict
  | .nothingToReplay => some .nothingToReplay
  | .unreachable => some .unreachable
  | .rejected (.str errorType) _ =>
    if errorType = Str.ofString "ReplayDetected" then some .replayDetected else none
  | .unexpectedlyAccepted => some .unexpectedlyAccepted
  | .unverified e => if e.kind = .sessionTimeoutError then some .timedOut else none
  | .succeeded _ => some .succeeded
  | .rejected _ _ | .notADevice | .crashed => none

/-- A command ends as a verdict says, if it is one of a device. -/
def Tells (outcome : Option AuthenticateOutcome) (verdict : Option Verdict) : Prop :=
  outcome.map AuthenticateOutcome.verdict = verdict.map some

/-- What a run tells. -/
lemma Tells.bind_eq {outcome : Option AuthenticateOutcome} {verdict : Option Verdict}
    (h : Tells outcome verdict) : outcome.bind AuthenticateOutcome.verdict = verdict := by
  unfold Tells at h
  rcases outcome with _ | outcome <;> rcases verdict with _ | verdict
  · rfl
  · cases h
  · cases h
  · exact Option.some.inj h

/-- A server process without its messages: the devices of which it has accepted a request, and the
requests that it has not answered. -/
structure ServerProgress where
  served : Finset String
  waiting : List (String × Arrival)

/-- The demo without its messages: the devices that have built a request, and the server process. -/
structure Progress where
  kept : Finset String
  process : Option ServerProgress

namespace ServerProgress

/-- The server takes the requests that wait, up to one that is unfinished. -/
def serveWaiting (served : Finset String) : List (String × Arrival) → ServerProgress
  | [] => ⟨served, []⟩
  | (V, .whole) :: waiting => serveWaiting (insert V served) waiting
  | (_, .ended) :: waiting => serveWaiting served waiting
  | (V, .unfinished) :: waiting => ⟨served, (V, .unfinished) :: waiting⟩

/-- The request that the server is receiving arrives, or its connection ends. -/
def requestEnds (arrives : Bool) (q : ServerProgress) : ServerProgress :=
  match q.waiting with
  | [] => q
  | (V, arrival) :: waiting =>
    serveWaiting q.served
      ((V, if arrives ∨ arrival = .whole then .whole else .ended) :: waiting)

/-- A request is sent, an old one or a new one. -/
def attempt (q : ServerProgress) (x : Invocation) : Verdict × ServerProgress :=
  if q.waiting ≠ [] ∨ x.link.arrival = .unfinished then
    (.unreachable, { q with waiting := q.waiting ++ [(x.device, x.link.arrival)] })
  else if x.link.arrival = .ended then (.unreachable, q)
  else
    (if x.link.responseLost ≠ 0 then .unreachable
      else if x.device ∈ q.served then .replayDetected
      else if x.replayLast then .unexpectedlyAccepted
      else if defaultSessionTimeoutSeconds < x.finished - x.started then .timedOut
      else .succeeded,
      { q with served := insert x.device q.served })

end ServerProgress

namespace Progress

/-- A request is sent to the server, if it can be reached. -/
def attempt (p : Progress) (x : Invocation) : Verdict × Progress :=
  match p.process with
  | none => (.unreachable, p)
  | some q =>
    if x.link.connects then ((q.attempt x).1, { p with process := some (q.attempt x).2 })
    else (.unreachable, p)

/-- What happens next. -/
def step (p : Progress) : Command → Option Verdict × Progress
  | .startServer _ => (none, { p with process := some (p.process.getD ⟨∅, []⟩) })
  | .stopServer => (none, { p with process := none })
  | .requestEnds arrives =>
    (none, { p with process := p.process.map (ServerProgress.requestEnds arrives) })
  | .authenticate x =>
    if x.replayLast ∧ x.device ∉ p.kept then (some .nothingToReplay, p)
    else
      match { p with kept := insert x.device p.kept }.attempt x with
      | (verdict, p) => (some verdict, p)

end Progress

/-- The server had accepted a request of the device when the run ended so. -/
def Verdict.Settled (verdict : Verdict) : Prop :=
  verdict = .replayDetected ∨ verdict = .unexpectedlyAccepted ∨ verdict = .timedOut ∨
    verdict = .succeeded

/-- Taking requests leaves the devices served that were. -/
lemma ServerProgress.subset_serveWaiting (served : Finset String)
    (waiting : List (String × Arrival)) : served ⊆ (serveWaiting served waiting).served := by
  induction waiting generalizing served with
  | nil => exact Finset.Subset.refl served
  | cons w waiting ih =>
    obtain ⟨V, arrival⟩ := w
    cases arrival with
    | whole => exact (Finset.subset_insert V served).trans (ih _)
    | ended => exact ih served
    | unfinished => exact Finset.Subset.refl served

/-- So does the end of a request. -/
lemma ServerProgress.subset_requestEnds (arrives : Bool) (q : ServerProgress) :
    q.served ⊆ (q.requestEnds arrives).served := by
  unfold requestEnds
  split
  · exact Finset.Subset.refl q.served
  · exact subset_serveWaiting q.served _

/-- So does a request that is sent. -/
lemma ServerProgress.subset_attempt (q : ServerProgress) (x : Invocation) :
    q.served ⊆ (q.attempt x).2.served := by
  unfold attempt
  split_ifs
  · exact Finset.Subset.refl q.served
  · exact Finset.Subset.refl q.served
  all_goals exact Finset.subset_insert x.device q.served

/-- A request that is answered belongs to a device that is served then. -/
lemma ServerProgress.served_of_settled {q : ServerProgress} {x : Invocation}
    (h : (q.attempt x).1.Settled) : x.device ∈ (q.attempt x).2.served := by
  unfold attempt at h ⊢
  split_ifs at h ⊢
  · simp [Verdict.Settled] at h
  · simp [Verdict.Settled] at h
  all_goals exact Finset.mem_insert_self _ _

namespace Progress

variable {p : Progress} {x : Invocation} {V : String} {verdict : Verdict}

/-- The running server has accepted a request of the device. -/
def Served (p : Progress) (V : String) : Prop :=
  V ∈ p.kept ∧ ∃ q, p.process = some q ∧ V ∈ q.served

/-- Sending a request keeps what was kept. -/
lemma kept_attempt (p : Progress) (x : Invocation) : (p.attempt x).2.kept = p.kept := by
  unfold attempt
  split
  · rfl
  · split_ifs <;> rfl

/-- A request that is sent leaves the others served. -/
lemma Served.attempt (h : p.Served V) (x : Invocation) : (p.attempt x).2.Served V := by
  obtain ⟨hkept, q, hq, hserved⟩ := h
  refine ⟨by rwa [kept_attempt], ?_⟩
  rw [Progress.attempt, hq]
  dsimp only
  split_ifs
  · exact ⟨_, rfl, q.subset_attempt x hserved⟩
  · exact ⟨q, hq, hserved⟩

/-- A device stays served until the server is stopped. -/
lemma Served.step (h : p.Served V) {c : Command} (hc : c ≠ .stopServer) :
    (p.step c).2.Served V := by
  obtain ⟨hkept, q, hq, hserved⟩ := id h
  cases c with
  | startServer identity => exact ⟨hkept, q, by rw [Progress.step, hq]; rfl, hserved⟩
  | stopServer => exact absurd rfl hc
  | requestEnds arrives =>
    refine ⟨hkept, q.requestEnds arrives, ?_, q.subset_requestEnds arrives hserved⟩
    rw [Progress.step, hq]
    rfl
  | authenticate x =>
    unfold Progress.step
    dsimp only
    split_ifs
    · exact h
    · exact Served.attempt (p := { p with kept := insert x.device p.kept })
        ⟨Finset.mem_insert_of_mem hkept, q, hq, hserved⟩ x

/-- A device whose run ends so is served. -/
lemma served_of_settled (h : (p.step (.authenticate x)).1 = some verdict)
    (hverdict : verdict.Settled) : (p.step (.authenticate x)).2.Served x.device := by
  obtain ⟨kept, process⟩ := p
  unfold step at h ⊢
  dsimp only at h ⊢
  split_ifs at h ⊢
  · obtain rfl := Option.some.inj h
    simp [Verdict.Settled] at hverdict
  · obtain rfl := Option.some.inj h
    refine ⟨by rw [kept_attempt]; exact Finset.mem_insert_self _ _, ?_⟩
    rcases process with _ | q
    · simp [attempt, Verdict.Settled] at hverdict
    · unfold attempt at hverdict ⊢
      dsimp only at hverdict ⊢
      split_ifs at hverdict ⊢
      · exact ⟨_, rfl, ServerProgress.served_of_settled hverdict⟩
      · simp [Verdict.Settled] at hverdict

/-- What a device that is served can be told. -/
lemma Served.verdict_eq (h : p.Served x.device)
    (hstep : (p.step (.authenticate x)).1 = some verdict) :
    verdict = .unreachable ∨ verdict = .replayDetected := by
  obtain ⟨hkept, q, hq, hserved⟩ := h
  unfold Progress.step at hstep
  dsimp only at hstep
  rw [if_neg (fun hand => hand.2 hkept)] at hstep
  obtain rfl := Option.some.inj hstep
  rw [Progress.attempt, hq]
  dsimp only
  split_ifs
  · dsimp only
    unfold ServerProgress.attempt
    split_ifs with hwaits hended hanswer
    · exact Or.inl rfl
    · exact Or.inl rfl
    · exact Or.inl rfl
    · exact Or.inr rfl
  · exact Or.inl rfl

end Progress

/-! ## Refinement -/

/-- A bundle in a directory is loaded as a credential, and not changed by it. -/
def Loads (dir : Dict String File) (identity : String) (cred : Credential Lam Bytes) : Prop :=
  ∃ file, dir.get (bundleName identity) = some file ∧ KeyStore.load file = (some cred, file)

/-- Only one server is started, and the runs are those of devices that were enrolled with it. -/
def Command.Permitted (dir : Dict String File) (credR : Credential Lam Bytes) : Command → Prop
  | .startServer identity => identity = credR.identity
  | .stopServer => True
  | .requestEnds _ => True
  | .authenticate x => x.serverId = credR.identity ∧ ∃ cred, Loads dir x.device cred ∧
      cred.role = .device ∧ credR.identity ∈ cred.peerSecrets.keys ∧
      x.device ∈ credR.peerSecrets.keys

/-- What was sent is a first request of an enrolled device. -/
def IsFirstRequest (C : Crypto) (dir : Dict String File) (credR : Credential Lam Bytes)
    (V : String) (data : Bytes) : Prop :=
  ∃ (cred : Credential Lam Bytes) (env : BuildEnv) (D : Device C) (session : PendingSession),
    Loads dir V cred ∧ credR.identity ∈ cred.peerSecrets.keys ∧ V ∈ credR.peerSecrets.keys ∧
      FirstRequest cred credR.identity env data D session

/-- A connection on which a first request of a device waits. -/
structure Waiting.Holds (C : Crypto) (dir : Dict String File) (credR : Credential Lam Bytes)
    (w : Waiting) (a : String × Arrival) : Prop where
  request : ∃ data, IsFirstRequest C dir credR a.1 data ∧ w.sent = Socket.frame data
  arrival : w.arrival = a.2
  coverage : w.env.coverage a.1 = true

/-- A server process, as far as it has come. -/
structure ServerProcess.Follows (dir : Dict String File) (credR : Credential Lam Bytes)
    (P : ServerProcess C) (q : ServerProgress) : Prop where
  serving : Serving P.server credR q.served
  waiting : List.Forall₂ (Waiting.Holds C dir credR) P.waiting q.waiting

/-- A bundle is loaded as one credential. -/
lemma Loads.unique {dir : Dict String File} {identity : String} {cred cred' : Credential Lam Bytes}
    (h : Loads dir identity cred) (h' : Loads dir identity cred') : cred = cred' := by
  obtain ⟨file, hfile, hload⟩ := h
  obtain ⟨file', hfile', hload'⟩ := h'
  obtain rfl := Option.some.inj (hfile.symm.trans hfile')
  exact Option.some.inj (congrArg Prod.fst (hload.symm.trans hload'))

/-- Loading a bundle that is not changed by it. -/
lemma Loads.loadBundle {s : Demo C} {identity : String} {cred : Credential Lam Bytes}
    (h : Loads s.dir identity cred) : s.loadBundle identity = (some cred, s) := by
  obtain ⟨file, hfile, hload⟩ := h
  rw [Demo.loadBundle, hfile]
  dsimp only
  rw [hload]
  dsimp only
  rw [Dict.set_of_get hfile]

/-- Every bundle is loaded as a credential of the identity in its name, derived from the master
secret. -/
def Bundles (C : Crypto) (masterSecret : Bytes) (dir : Dict String File) : Prop :=
  ∀ identity cred, Loads dir identity cred → cred.identity = identity ∧ Derived C masterSecret cred

/-- The bundles, the one of the server among them, and the identities that its answers name. -/
structure Deployed (C : Crypto) (masterSecret : Bytes) (dir : Dict String File)
    (credR : Credential Lam Bytes) (r : Render) : Prop where
  bundles : Bundles C masterSecret dir
  loads : Loads dir credR.identity credR
  role : credR.role = .server
  injective : PseudonymsInjective C credR.peerSecrets
  short : r.Short (credR.identity :: credR.peerSecrets.keys)
  noSurrogate : ∀ q, NoSurrogate (r.reprStr q)

section Refinement

variable {masterSecret : Bytes} {dir : Dict String File} {credR : Credential Lam Bytes} {r : Render}

/-- An answer that is read as accepted completes a request that the run has built itself. -/
lemma FirstRequest.verdict_accepted {cred : Credential Lam Bytes} {x : Invocation} {data : Bytes}
    {D : Device C} {s : PendingSession} {R V : String} (h : FirstRequest cred R x.build data D s)
    (hfresh : x.replayLast = false) {nonceBits : ℕ} {env : ServerEnv} {result : AuthResult}
    (hresp : respond C R nonceBits env (s.opened V) = .ok result) {envelope : Bytes}
    (hread : readResponse envelope = some (.accepted result.responseBytes)) :
    (conclude D x (.ok envelope)).verdict = some
      (if defaultSessionTimeoutSeconds < x.finished - x.started then .timedOut
        else .succeeded) := by
  have hcreated : s.createdAt = x.started := h.createdAt
  rw [conclude, hfresh, if_neg (by simp), hread]
  dsimp only
  split_ifs with hlate
  · have hcomplete := Device.completeAuth_late h.length hresp h.session h.peer
      (show D.sessionTimeout < x.finished - s.createdAt by rwa [h.timeout, hcreated])
    rw [hcomplete]
    rfl
  · have hcomplete := Device.completeAuth_answer h.length hresp h.session h.peer
      (show ¬ D.sessionTimeout < x.finished - s.createdAt by rwa [h.timeout, hcreated])
    rw [hcomplete]
    rfl

/-- A run without an answer. -/
lemma verdict_unreachable (D : Device C) (x : Invocation) {e : Exc}
    (he : e.kind = .connectionError) :
    (conclude D x (.error e)).verdict = some .unreachable := by
  rw [conclude, if_pos he]
  rfl

/-- What a run tells when the server has answered its request, and the answer arrives or not. -/
lemma FirstRequest.verdict_answered {cred : Credential Lam Bytes} {R V : String} {env : BuildEnv}
    {data : Bytes} {D D' : Device C} {s : PendingSession} (h : FirstRequest cred R env data D' s)
    {x : Invocation} (hfresh : x.replayLast = false → env = x.build ∧ D' = D) {served : Prop}
    [Decidable served] {serverEnv : ServerEnv} {envelope : Bytes}
    (hread : if served then
        ∃ message, readResponse envelope =
          some (.rejected (.str (Str.ofString "ReplayDetected")) message)
      else ∃ result nonceBits, readResponse envelope = some (.accepted result.responseBytes) ∧
        respond C R nonceBits serverEnv (s.opened V) = .ok result) :
    (conclude D x
      (if x.link.responseLost = 0 then .ok envelope else .error Socket.closed)).verdict =
      some (if x.link.responseLost ≠ 0 then .unreachable
        else if served then .replayDetected
        else if x.replayLast then .unexpectedlyAccepted
        else if defaultSessionTimeoutSeconds < x.finished - x.started then .timedOut
        else .succeeded) := by
  by_cases hanswer : x.link.responseLost = 0
  · rw [if_pos hanswer, if_neg (not_not.mpr hanswer)]
    by_cases hserved : served
    · rw [if_pos hserved] at hread ⊢
      obtain ⟨message, hread⟩ := hread
      rw [conclude, okFlag_of_readResponse hread, if_neg (by simp), hread]
      dsimp only
      rw [AuthenticateOutcome.verdict, if_pos rfl]
    · rw [if_neg hserved] at hread ⊢
      obtain ⟨result, nonceBits, hread, hresp⟩ := hread
      by_cases hreplay : x.replayLast = true
      · rw [if_pos hreplay, conclude, if_pos ⟨hreplay, okFlag_of_readResponse hread⟩]
        rfl
      · obtain ⟨rfl, rfl⟩ := hfresh (Bool.eq_false_of_not_eq_true hreplay)
        rw [if_neg hreplay]
        exact h.verdict_accepted (Bool.eq_false_of_not_eq_true hreplay) hresp hread
  · rw [if_neg hanswer, if_pos hanswer]
    exact verdict_unreachable D x rfl

/-- The first request of a device fits into a frame. -/
lemma FirstRequest.length_le {cred : Credential Lam Bytes} {R : String} {env : BuildEnv}
    {data : Bytes} {D : Device C} {s : PendingSession} (h : FirstRequest cred R env data D s) :
    data.length ≤ maxFrameBytes := by
  obtain ⟨D₀, -, hbuild⟩ := h.built
  exact Device.length_le_of_build hbuild

/-- The server that takes a first request has then accepted one of its device. -/
lemma Serving.takes (hdep : Deployed C masterSecret dir credR r) {S : Server C}
    {served : Finset String} (h : Serving S credR served) {w : Waiting} {V : String} {data : Bytes}
    (hreq : IsFirstRequest C dir credR V data) (hcoverage : w.env.coverage V = true) :
    ∃ frame S', handleConnection r S w.env (.ok data) = (.ok frame, S') ∧
      Serving S' credR (insert V served) := by
  obtain ⟨cred, env, D, session, hloads, hlistsV, hlistsR, hfirst⟩ := hreq
  obtain ⟨hidentity, hderived⟩ := hdep.bundles _ _ hloads
  obtain ⟨envelope, S', hconn, -, hserving, -⟩ := h.answers hdep.short hdep.noSurrogate hderived
    (hdep.bundles _ _ hdep.loads).2 hlistsV (hidentity.symm ▸ hlistsR) hfirst
    (hidentity.symm ▸ hcoverage)
  exact ⟨_, S', hconn, hidentity ▸ hserving⟩

/-- The accept loop takes the requests that wait as the machine does. -/
lemma Serving.serveWaiting (hdep : Deployed C masterSecret dir credR r) {waiting : List Waiting}
    {entries : List (String × Arrival)}
    (hwaiting : List.Forall₂ (Waiting.Holds C dir credR) waiting entries) {S : Server C}
    {served : Finset String} (h : Serving S credR served) :
    ∃ P, HybridEccAuth.serveWaiting r S waiting = some P ∧
      P.Follows dir credR (ServerProgress.serveWaiting served entries) := by
  induction hwaiting generalizing S served with
  | nil => exact ⟨_, rfl, h, .nil⟩
  | @cons w a waiting entries hw hwaiting ih =>
    obtain ⟨V, arrival⟩ := a
    obtain ⟨data, hreq, hsent⟩ := hw.request
    have hdata : data.length ≤ maxFrameBytes := by
      obtain ⟨cred, env, D, session, -, -, -, hfirst⟩ := id hreq
      exact hfirst.length_le
    have hreceive := Waiting.receive_frame hdata hsent
    rw [hw.arrival] at hreceive
    rw [HybridEccAuth.serveWaiting, hreceive]
    cases arrival with
    | whole =>
      obtain ⟨frame, S', hconn, hserving⟩ := h.takes hdep hreq hw.coverage
      dsimp only
      rw [hconn]
      exact ih hserving
    | ended => exact ih h
    | unfinished => exact ⟨_, rfl, h, .cons hw hwaiting⟩

/-- The end of a request is what the machine does with it. -/
lemma ServerProcess.Follows.requestEnds (hdep : Deployed C masterSecret dir credR r)
    {P : ServerProcess C} {q : ServerProgress} (h : P.Follows dir credR q) (arrives : Bool) :
    ∃ P', P.requestEnds r arrives = some P' ∧ P'.Follows dir credR (q.requestEnds arrives) := by
  obtain ⟨S, waiting⟩ := P
  obtain ⟨served, entries⟩ := q
  obtain ⟨hserving, hwaiting⟩ := id h
  dsimp only at hserving hwaiting
  cases hwaiting with
  | nil => exact ⟨_, rfl, h⟩
  | @cons w a waiting entries hw hwaiting =>
    refine hserving.serveWaiting hdep (.cons ?_ hwaiting)
    cases arrives with
    | true => exact ⟨hw.request, rfl, hw.coverage⟩
    | false =>
      refine ⟨hw.request, ?_, hw.coverage⟩
      dsimp only
      rw [← hw.arrival, Waiting.arrival, Waiting.arrival, Arrival.of, Arrival.of]
      by_cases hlost : w.lost = 0
      · simp [hlost]
      · by_cases hended : w.ended = true <;> simp [hlost, hended]

/-- Sending a request to the server process is what the machine does with it. -/
theorem ServerProcess.Follows.attempt (hdep : Deployed C masterSecret dir credR r)
    {P : ServerProcess C} {q : ServerProgress} (h : P.Follows dir credR q) {x : Invocation}
    (hconnects : x.link.connects = true) {data : Bytes} {D D' : Device C} {env : BuildEnv}
    {credV : Credential Lam Bytes} {s : PendingSession} (hloads : Loads dir x.device credV)
    (hlistsV : credR.identity ∈ credV.peerSecrets.keys)
    (hlistsR : x.device ∈ credR.peerSecrets.keys)
    (hreq : FirstRequest credV credR.identity env data D' s)
    (hfresh : x.replayLast = false → env = x.build ∧ D' = D) :
    ∃ received P', exchange r x.link x.serve data (some P) = (received, some P') ∧
      (conclude D x received).verdict = some (q.attempt x).1 ∧
      P'.Follows dir credR (q.attempt x).2 := by
  obtain ⟨hidentity, hderived⟩ := hdep.bundles _ _ hloads
  have hidle : P.waiting = [] ↔ q.waiting = [] := by
    rw [← List.length_eq_zero_iff, h.waiting.length_eq, List.length_eq_zero_iff]
  unfold ServerProgress.attempt
  by_cases hwaits : q.waiting ≠ [] ∨ x.link.arrival = .unfinished
  · rw [if_pos hwaits]
    refine ⟨_, _, exchange_waiting hconnects hreq.length_le
      (hwaits.imp_left (mt hidle.mp)), verdict_unreachable D x rfl, h.serving, ?_⟩
    exact List.rel_append h.waiting (.cons
      ⟨⟨data, ⟨credV, env, D', s, hloads, hlistsV, hlistsR, hreq⟩, rfl⟩, rfl, rfl⟩ .nil)
  · rw [if_neg hwaits]
    obtain ⟨hempty, hfinished⟩ := not_or.mp hwaits
    obtain ⟨S, waiting⟩ := P
    obtain rfl : waiting = [] := hidle.mpr (not_not.mp hempty)
    by_cases hended : x.link.arrival = .ended
    · rw [if_pos hended]
      exact ⟨_, _, exchange_cut hconnects hreq.length_le hended, verdict_unreachable D x rfl, h⟩
    · rw [if_neg hended]
      have hwhole : x.link.arrival = .whole := by
        rcases harrival : x.link.arrival with _ | _ | _
        · rfl
        · exact absurd harrival hended
        · exact absurd harrival hfinished
      obtain ⟨envelope, S', hconn, hfits, hserving', hread⟩ :=
        h.serving.answers hdep.short hdep.noSurrogate hderived
          (hdep.bundles _ _ hdep.loads).2 hlistsV (hidentity.symm ▸ hlistsR) hreq
          (show x.serve.coverage credV.identity = true from rfl)
      rw [hidentity] at hserving' hread
      refine ⟨_, _, exchange_answered hconnects hreq.length_le hwhole hfits hconn,
        hreq.verdict_answered hfresh hread, hserving', ?_⟩
      dsimp only
      rw [not_not.mp hempty]
      exact .nil

/-- Sending a request is what the machine does with it. -/
theorem Progress.attempt_refines (hdep : Deployed C masterSecret dir credR r) {p : Progress}
    {process : Option (ServerProcess C)}
    (hruns : Option.Rel (ServerProcess.Follows dir credR) process p.process) {x : Invocation}
    {data : Bytes} {D D' : Device C} {env : BuildEnv} {credV : Credential Lam Bytes}
    {s : PendingSession} (hloads : Loads dir x.device credV)
    (hlistsV : credR.identity ∈ credV.peerSecrets.keys)
    (hlistsR : x.device ∈ credR.peerSecrets.keys)
    (hreq : FirstRequest credV credR.identity env data D' s)
    (hfresh : x.replayLast = false → env = x.build ∧ D' = D) :
    ∃ received process', exchange r x.link x.serve data process = (received, process') ∧
      (conclude D x received).verdict = some (p.attempt x).1 ∧
      Option.Rel (ServerProcess.Follows dir credR) process' (p.attempt x).2.process := by
  obtain ⟨kept, progress⟩ := p
  dsimp only at hruns
  unfold attempt
  cases hruns with
  | none => exact ⟨_, _, exchange_refused (Or.inl rfl), verdict_unreachable D x rfl, .none⟩
  | @some P q h =>
    dsimp only
    by_cases hconnects : x.link.connects = true
    · obtain ⟨received, P', hexchange, hverdict, h'⟩ :=
        h.attempt hdep hconnects hloads hlistsV hlistsR hreq hfresh
      rw [if_pos hconnects]
      exact ⟨received, some P', hexchange, hverdict, .some h'⟩
    · rw [if_neg hconnects]
      exact ⟨_, _, exchange_refused (Or.inr (Bool.eq_false_of_not_eq_true hconnects)),
        verdict_unreachable D x rfl, .some h⟩

/-- The demo is as far as the machine, and what is kept are first requests of the devices. -/
structure Demo.Tracks (dir : Dict String File) (credR : Credential Lam Bytes) (s : Demo C)
    (p : Progress) : Prop where
  same : s.dir = dir
  kept : ∀ V, V ∈ p.kept ↔ s.lastM1.get V ≠ none
  sent : ∀ V data, s.lastM1.get V = some data → IsFirstRequest C dir credR V data
  runs : Option.Rel (ServerProcess.Follows dir credR) s.process p.process

/-- A request is kept. -/
lemma Demo.Tracks.keep {s : Demo C} {p q : Progress} (h : s.Tracks dir credR p) {V : String}
    {data : Bytes} (hreq : IsFirstRequest C dir credR V data) (hkept : q.kept = insert V p.kept)
    {process : Option (ServerProcess C)}
    (hruns : Option.Rel (ServerProcess.Follows dir credR) process q.process) :
    { s with lastM1 := s.lastM1.set V data, process := process }.Tracks dir credR q := by
  refine ⟨h.same, fun W => ?_, fun W data' hdata' => ?_, hruns⟩
  · rw [hkept, Finset.mem_insert, h.kept, Dict.get_set]
    by_cases hW : W = V <;> simp [hW]
  · rw [Dict.get_set] at hdata'
    split_ifs at hdata' with hW
    · obtain rfl := Option.some.inj hdata'
      exact hW ▸ hreq
    · exact h.sent W data' hdata'

/-- A start does what the machine does. -/
lemma Demo.Tracks.start {s : Demo C} {p : Progress} (h : s.Tracks dir credR p)
    (hdep : Deployed C masterSecret dir credR r) :
    (s.cmdStart credR.identity).Tracks dir credR (p.step (.startServer credR.identity)).2 := by
  obtain ⟨hsame, hkept, hsent, hruns⟩ := id h
  obtain ⟨S, hcreate, hserving⟩ := exists_serving (C := C) hdep.role hdep.injective
  rw [cmdStart, (hsame ▸ hdep.loads : Loads s.dir credR.identity credR).loadBundle]
  dsimp only
  rw [hcreate, Progress.step]
  obtain ⟨files, lastM1, process⟩ := s
  obtain ⟨kept, progress⟩ := p
  dsimp only at hruns
  cases hruns with
  | none => exact ⟨hsame, hkept, hsent, .some ⟨hserving, .nil⟩⟩
  | some hfollows => exact ⟨hsame, hkept, hsent, .some hfollows⟩

/-- A run of a device is what the machine does. -/
lemma Demo.Tracks.authenticate {s : Demo C} {p : Progress} (h : s.Tracks dir credR p)
    (hdep : Deployed C masterSecret dir credR r) {x : Invocation}
    (hc : (Command.authenticate x).Permitted dir credR) :
    Tells (s.step r (.authenticate x)).1 (p.step (.authenticate x)).1 ∧
      (s.step r (.authenticate x)).2.Tracks dir credR (p.step (.authenticate x)).2 := by
  obtain ⟨hsame, hkept, hsent, hruns⟩ := id h
  obtain ⟨hserver, cred, hloads, hdevice, hlistsV, hlistsR⟩ := hc
  obtain ⟨D₀, data, D, session, hcreate, hbuild, hreq⟩ : ∃ (D₀ : Device C) (data : Bytes)
      (D : Device C) (session : PendingSession), Device.create cred defaultNonceBits
        defaultSessionTimeoutSeconds defaultMaxAttempts false = .ok D₀ ∧
      D₀.buildAuthRequest x.build credR.identity = (.ok data, D) ∧
      FirstRequest cred credR.identity x.build data D session :=
    exists_firstRequest hdevice hlistsV rfl
  let p' : Progress := { p with kept := insert x.device p.kept }
  rw [Demo.step, (hsame ▸ hloads : Loads s.dir x.device cred).loadBundle, Progress.step]
  dsimp only
  rw [cmdAuthenticate, if_neg (not_not.mpr hdevice), hcreate]
  dsimp only
  by_cases hreplay : x.replayLast = true
  · rw [if_pos hreplay]
    rcases hlast : s.lastM1.get x.device with _ | data'
    · have hnot : x.device ∉ p.kept := fun hmem => (hkept _).mp hmem hlast
      rw [if_pos ⟨hreplay, hnot⟩]
      exact ⟨rfl, h⟩
    · -- the message that was kept is a first request, too
      have hmem : x.device ∈ p.kept :=
        (hkept _).mpr (by rw [hlast]; exact Option.some_ne_none _)
      have hkeep := hsent _ _ hlast
      obtain ⟨cred', env, D', session', hloads', -, -, hreq'⟩ := id hkeep
      obtain rfl := hloads.unique hloads'
      obtain ⟨received, process, hexchange, hverdict, hruns'⟩ :=
        p'.attempt_refines hdep (D := D₀) hruns hloads hlistsV hlistsR hreq' (fun hfresh => by
          rw [hreplay] at hfresh
          cases hfresh)
      rw [if_neg (fun hand => hand.2 hmem)]
      dsimp only
      rw [hexchange]
      exact ⟨congrArg some hverdict, h.keep hkeep (Progress.kept_attempt _ _) hruns'⟩
  · obtain ⟨received, process, hexchange, hverdict, hruns'⟩ :=
      p'.attempt_refines hdep (D := D) hruns hloads hlistsV hlistsR hreq (fun _ => ⟨rfl, rfl⟩)
    rw [if_neg hreplay, if_neg (fun hand => hreplay hand.1), hserver, hbuild]
    dsimp only
    rw [hexchange]
    exact ⟨congrArg some hverdict,
      h.keep ⟨cred, x.build, D, session, hloads, hlistsV, hlistsR, hreq⟩
        (Progress.kept_attempt _ _) hruns'⟩

/-- What happens next is what happens to the machine. -/
theorem Demo.Tracks.step {s : Demo C} {p : Progress} (h : s.Tracks dir credR p)
    (hdep : Deployed C masterSecret dir credR r) {c : Command} (hc : c.Permitted dir credR) :
    Tells (s.step r c).1 (p.step c).1 ∧ (s.step r c).2.Tracks dir credR (p.step c).2 := by
  obtain ⟨hsame, hkept, hsent, hruns⟩ := id h
  cases c with
  | startServer identity =>
    obtain rfl : identity = credR.identity := hc
    exact ⟨rfl, h.start hdep⟩
  | stopServer => exact ⟨rfl, hsame, hkept, hsent, .none⟩
  | requestEnds arrives =>
    obtain ⟨files, lastM1, process⟩ := s
    obtain ⟨kept, progress⟩ := p
    dsimp only at hruns
    cases hruns with
    | none => exact ⟨rfl, hsame, hkept, hsent, .none⟩
    | some hfollows =>
      obtain ⟨P', hends, hfollows'⟩ := hfollows.requestEnds hdep arrives
      refine ⟨rfl, hsame, hkept, hsent, ?_⟩
      rw [Demo.step]
      dsimp only
      rw [Option.bind_some, hends]
      exact .some hfollows'
  | authenticate x => exact h.authenticate hdep hc

end Refinement

/-! ## Runs -/

variable {scalarToPublicPoint : Lam → Bytes}

/-- The bundles that runs of `hea-ta enroll` have written. -/
lemma bundles_enrolled (hpoint : ∀ lam, scalarToPublicPoint lam ≠ []) {first : EnrollArgs}
    {runs : List EnrollArgs} (hhex : ∀ args ∈ first :: runs, args.masterSecretHex = none) :
    Bundles C (first.token.draw 32) (enrolled C scalarToPublicPoint (first :: runs)) := by
  rintro identity cred ⟨file, hfile, hload⟩
  have hall : (first :: runs).take (first :: runs).length = first :: runs := List.take_length
  obtain ⟨cred', hload', hidentity, hderived⟩ :=
    load_enrolled (k := (first :: runs).length) hpoint hhex
    (by rw [hall]; exact hfile)
  obtain rfl := Option.some.inj (congrArg Prod.fst (hload.symm.trans hload'))
  exact ⟨hidentity, hderived⟩

/-- Before the first command. -/
def Demo.init (dir : Dict String File) : Demo C := ⟨dir, .empty, none⟩

/-- No device has built a request, and no server runs. -/
def Progress.init : Progress := ⟨∅, none⟩

/-- Nothing has happened yet. -/
lemma Demo.tracks_init (dir : Dict String File) (credR : Credential Lam Bytes) :
    (Demo.init dir : Demo C).Tracks dir credR .init := by
  refine ⟨rfl, fun V => ?_, fun V data hdata => ?_, .none⟩
  · simp [Demo.init, Progress.init]
  · cases hdata

/-- What the runs of the devices tell, command by command. -/
def Demo.verdicts (r : Render) (s : Demo C) (commands : List Command) :
    List (Option (Option Verdict)) :=
  (Machine.trace (Demo.step r) s commands).map fun x => x.1.map AuthenticateOutcome.verdict

/-- What the machine tells, command by command. -/
def Progress.verdicts (p : Progress) (commands : List Command) : List (Option Verdict) :=
  (Machine.trace Progress.step p commands).map Prod.fst

section Runs

variable {first : EnrollArgs} {runs : List EnrollArgs} {credR : Credential Lam Bytes} {r : Render}

/-- Between parties that any runs of `hea-ta enroll` over one directory have enrolled, the commands
tell what the machine tells, whatever is lost, held up, replayed, stopped or started again. -/
theorem commands_refine (hpoint : ∀ lam, scalarToPublicPoint lam ≠ [])
    (hhex : ∀ args ∈ first :: runs, args.masterSecretHex = none)
    (hR : Loads (enrolled C scalarToPublicPoint (first :: runs)) credR.identity credR)
    (hrole : credR.role = .server) (hinj : PseudonymsInjective C credR.peerSecrets)
    (hshort : r.Short (credR.identity :: credR.peerSecrets.keys))
    (hrepr : ∀ q, NoSurrogate (r.reprStr q)) {commands : List Command}
    (hpermitted : ∀ c ∈ commands,
      c.Permitted (enrolled C scalarToPublicPoint (first :: runs)) credR) :
    (Demo.init (enrolled C scalarToPublicPoint (first :: runs)) : Demo C).verdicts r commands =
      (Progress.init.verdicts commands).map (Option.map some) := by
  have hdep : Deployed C (first.token.draw 32) (enrolled C scalarToPublicPoint (first :: runs))
      credR r := ⟨bundles_enrolled hpoint hhex, hR, hrole, hinj, hshort, hrepr⟩
  have hsim : List.Forall₂ (fun x y => Tells x.1 y.1 ∧
      x.2.Tracks (enrolled C scalarToPublicPoint (first :: runs)) credR y.2)
      (Machine.trace (Demo.step r) (Demo.init (enrolled C scalarToPublicPoint (first :: runs)) :
        Demo C) commands) (Machine.trace Progress.step .init commands) :=
    Machine.simulation (A := Tells) (fun s p c h hc => h.step hdep hc)
      (Demo.tracks_init _ credR) (Machine.allSteps_of_inputs hpermitted)
  rw [Demo.verdicts, Progress.verdicts, List.map_map, ← List.forall₂_eq_eq_eq,
    List.forall₂_map_left_iff, List.forall₂_map_right_iff]
  exact hsim.imp fun _ _ h => h.1

/-- What the runs of a device tell. -/
def Demo.tells (r : Render) (V : String) (s : Demo C) : Command → Option Verdict
  | .authenticate x =>
    if x.device = V then (s.step r (.authenticate x)).1.bind AuthenticateOutcome.verdict else none
  | .startServer _ | .stopServer | .requestEnds _ => none

/-- What the runs of a device tell the machine. -/
lemma Demo.Tracks.tells_eq {dir : Dict String File} {s : Demo C} {p : Progress}
    (h : s.Tracks dir credR p) {masterSecret : Bytes} (hdep : Deployed C masterSecret dir credR r)
    {c : Command} (hc : c.Permitted dir credR) {V : String} {verdict : Verdict}
    (htold : s.tells r V c = some verdict) :
    ∃ x, c = .authenticate x ∧ x.device = V ∧ (p.step c).1 = some verdict := by
  cases c with
  | authenticate x =>
    unfold Demo.tells at htold
    dsimp only at htold
    split_ifs at htold with hV
    rw [(h.step hdep hc).1.bind_eq] at htold
    exact ⟨x, rfl, hV, htold⟩
  | startServer identity => cases htold
  | stopServer => cases htold
  | requestEnds arrives => cases htold

/-- What the runs of a device have told says whether it is served. -/
def Demo.HasTold (dir : Dict String File) (credR : Credential Lam Bytes) (V : String)
    (seen : List Verdict) (s : Demo C) : Prop :=
  ∃ p : Progress, s.Tracks dir credR p ∧ ((∃ verdict ∈ seen, verdict.Settled) → p.Served V)

/-- Once a run of a device has told that the server had accepted a request of it, no later run of
the device is accepted until the server is stopped: all are detected as replays or do not get an
answer. -/
theorem served_once (hpoint : ∀ lam, scalarToPublicPoint lam ≠ [])
    (hhex : ∀ args ∈ first :: runs, args.masterSecretHex = none)
    (hR : Loads (enrolled C scalarToPublicPoint (first :: runs)) credR.identity credR)
    (hrole : credR.role = .server) (hinj : PseudonymsInjective C credR.peerSecrets)
    (hshort : r.Short (credR.identity :: credR.peerSecrets.keys))
    (hrepr : ∀ q, NoSurrogate (r.reprStr q)) {before later : List Command}
    (hbefore : ∀ c ∈ before,
      c.Permitted (enrolled C scalarToPublicPoint (first :: runs)) credR)
    (hlater : ∀ c ∈ later,
      c.Permitted (enrolled C scalarToPublicPoint (first :: runs)) credR ∧ c ≠ .stopServer)
    (V : String) :
    (Machine.events (Demo.tells r V) (Demo.step r) (Machine.final (Demo.step r)
        (Demo.init (enrolled C scalarToPublicPoint (first :: runs)) : Demo C) before)
      later).Pairwise
        fun verdict verdict' => verdict.Settled →
          verdict' = .unreachable ∨ verdict' = .replayDetected := by
  have hdep : Deployed C (first.token.draw 32) (enrolled C scalarToPublicPoint (first :: runs))
      credR r := ⟨bundles_enrolled hpoint hhex, hR, hrole, hinj, hshort, hrepr⟩
  set dir := enrolled C scalarToPublicPoint (first :: runs)
  have hmid : (Machine.final (Demo.step r) (Demo.init dir : Demo C) before).Tracks dir credR
      (Machine.final Progress.step .init before) :=
    Machine.simulation_final (fun s p c h hc => (h.step hdep hc).2)
      (Demo.tracks_init _ credR) (Machine.allSteps_of_inputs hbefore)
  have hstart : Demo.HasTold dir credR V []
      (Machine.final (Demo.step r) (Demo.init dir : Demo C) before) := ⟨_, hmid, by simp⟩
  refine Machine.pairwise_events (fun seen s c hseen hc => ?_) hstart
    (Machine.allSteps_of_inputs hlater)
  obtain ⟨p, htracks, hserved⟩ := hseen
  obtain ⟨hpermitted, hstop⟩ := hc
  refine ⟨fun verdict' hverdict' verdict hmem hsettled => ?_, _,
    (htracks.step hdep hpermitted).2, ?_⟩
  · obtain ⟨x, rfl, rfl, hstep⟩ := htracks.tells_eq hdep hpermitted hverdict'
    exact (hserved ⟨verdict, hmem, hsettled⟩).verdict_eq hstep
  · rintro ⟨verdict, hmem, hsettled⟩
    rcases List.mem_append.mp hmem with hmem | hmem
    · exact (hserved ⟨verdict, hmem, hsettled⟩).step hstop
    · obtain ⟨x, rfl, rfl, hstep⟩ :=
        htracks.tells_eq hdep hpermitted (Option.mem_toList.mp hmem)
      exact Progress.served_of_settled hstep hsettled

end Runs

/-! ## A device and a server -/

/-- A run of the device over a connection that loses nothing. -/
def pairInvocation : Invocation where
  device := "device-1"
  serverId := "server-A"
  replayLast := false
  nonce := .zeros
  iv := .zeros
  started := 0
  finished := 1
  link := ⟨true, 0, false, Stream'.const 0, 0, Stream'.const 0⟩
  serverNonce := .zeros
  serverIv := .zeros

/-- The last bytes of a first request reach the server after the device has given up, while another
start fails; then the server is stopped and started again, and the device makes a handshake and
replays it. -/
def pairCommands : List Command :=
  [.startServer "server-A",
    .authenticate { pairInvocation with
      link := ⟨true, 3, false, Stream'.const 0, 0, Stream'.const 0⟩ },
    .startServer "server-A", .requestEnds true, .authenticate pairInvocation, .stopServer,
    .startServer "server-A", .authenticate pairInvocation,
    .authenticate { pairInvocation with replayLast := true }]

/-- A bundle whose role and peers are known is loaded. -/
lemma exists_loads {first : EnrollArgs} (hhex : first.masterSecretHex = none) {identity : String}
    {role : Role} {keys : List String}
    (h : (((enrolled .plain (fun _ => [4]) [first]).get (bundleName identity)).bind fun file =>
      (KeyStore.load file).1.map fun cred => (cred.role, cred.peerSecrets.keys)) =
        some (role, keys)) :
    ∃ cred, Loads (enrolled .plain (fun _ => [4]) [first]) identity cred ∧
    cred.identity = identity ∧
      cred.role = role ∧ cred.peerSecrets.keys = keys := by
  have hpoint : ∀ lam : Lam, (fun _ => [4] : Lam → Bytes) lam ≠ [] := fun _ => List.cons_ne_nil _ _
  obtain ⟨file, hfile, h⟩ := Option.bind_eq_some_iff.mp h
  obtain ⟨cred, hload, hidentity, -⟩ := load_enrolled (k := 1) hpoint
    (List.forall_mem_singleton.mpr hhex) hfile
  rw [hload, Option.map_some, Option.some_inj] at h
  obtain ⟨hrole, hkeys⟩ := Prod.mk.inj h
  exact ⟨cred, ⟨file, hfile, hload⟩, hidentity, hrole, hkeys⟩

/-- The identities of the pair are short. -/
lemma short_plain : Render.plain.Short ["server-A", "device-1"] := by
  intro p hp
  rw [List.mem_cons, List.mem_singleton] at hp
  rcases hp with rfl | rfl <;> decide

/-- The bundle of the server, and the runs that its device may make. -/
lemma exists_loads_pairArgs : ∃ credR : Credential Lam Bytes,
    Loads (enrolled .plain (fun _ => [4]) [pairArgs]) credR.identity credR ∧
    credR.identity = "server-A" ∧ credR.role = .server ∧
    PseudonymsInjective .plain credR.peerSecrets ∧
    Render.plain.Short (credR.identity :: credR.peerSecrets.keys) ∧
    ∀ x : Invocation, x.device = "device-1" → x.serverId = "server-A" →
      (Command.authenticate x).Permitted (enrolled .plain (fun _ => [4]) [pairArgs]) credR := by
  have hloadsR : (((enrolled .plain (fun _ => [4]) [pairArgs]).get (bundleName "server-A")).bind
      fun file => (KeyStore.load file).1.map fun cred => (cred.role, cred.peerSecrets.keys)) =
        some (.server, ["device-1"]) := by decide +kernel
  obtain ⟨credV, hV, -, hdevice, hlistsV⟩ := exists_loads rfl loads_pairArgs.1
  obtain ⟨credR, hR, hidentity, hserver, hlistsR⟩ := exists_loads rfl hloadsR
  refine ⟨credR, hidentity.symm ▸ hR, hidentity, hserver, pseudonymsInjective_of_keys hlistsR,
    by rw [hidentity, hlistsR]; exact short_plain, fun x hx hserverId => ?_⟩
  refine ⟨hserverId.trans hidentity.symm, credV, hx ▸ hV, hdevice, ?_, ?_⟩
  · rw [hlistsV, hidentity, List.mem_singleton]
  · rw [hlistsR, hx, List.mem_singleton]

/-- The late request is the one that the first process of the server accepts, and the second process
accepts one, too. -/
theorem commands_refine_pair :
    (Demo.init (enrolled .plain (fun _ => [4]) [pairArgs]) : Demo .plain).verdicts .plain
      pairCommands = [none, some (some .unreachable), none, none, some (some .replayDetected),
        none, none, some (some .succeeded), some (some .replayDetected)] := by
  have hpoint : ∀ lam : Lam, (fun _ => [4] : Lam → Bytes) lam ≠ [] := fun _ => List.cons_ne_nil _ _
  have hhex : ∀ args ∈ [pairArgs], args.masterSecretHex = none := List.forall_mem_singleton.mpr rfl
  have hrepr : ∀ q, NoSurrogate (Render.plain.reprStr q) := fun q => noSurrogate_ofString _
  obtain ⟨credR, hR, hidentity, hserver, hinj, hshort, hrun⟩ := exists_loads_pairArgs
  have hpermitted : ∀ c ∈ pairCommands,
      c.Permitted (enrolled .plain (fun _ => [4]) [pairArgs]) credR := by
    rw [pairCommands]
    simp only [List.forall_mem_cons]
    exact ⟨hidentity.symm, hrun _ rfl rfl, hidentity.symm, trivial, hrun _ rfl rfl, trivial,
      hidentity.symm, hrun _ rfl rfl, hrun _ rfl rfl, List.forall_mem_nil _⟩
  apply (commands_refine hpoint hhex hR hserver hinj hshort hrepr hpermitted).trans
  decide +kernel

/-- Of two handshakes and a replay, with another start between them, at most the first one is
accepted. -/
theorem served_once_pair :
    (Machine.events (Demo.tells .plain "device-1") (Demo.step .plain)
        (Machine.final (Demo.step .plain)
          (Demo.init (enrolled .plain (fun _ => [4]) [pairArgs]) : Demo .plain)
          [.startServer "server-A"])
        [.authenticate pairInvocation, .startServer "server-A", .authenticate pairInvocation,
          .authenticate { pairInvocation with replayLast := true }]).Pairwise
      fun verdict verdict' => verdict.Settled →
        verdict' = .unreachable ∨ verdict' = .replayDetected := by
  have hpoint : ∀ lam : Lam, (fun _ => [4] : Lam → Bytes) lam ≠ [] := fun _ => List.cons_ne_nil _ _
  have hhex : ∀ args ∈ [pairArgs], args.masterSecretHex = none := List.forall_mem_singleton.mpr rfl
  have hrepr : ∀ q, NoSurrogate (Render.plain.reprStr q) := fun q => noSurrogate_ofString _
  obtain ⟨credR, hR, hidentity, hserver, hinj, hshort, hrun⟩ := exists_loads_pairArgs
  have hstart : (Command.startServer "server-A").Permitted
      (enrolled .plain (fun _ => [4]) [pairArgs]) credR := hidentity.symm
  refine served_once hpoint hhex hR hserver hinj hshort hrepr
    (List.forall_mem_singleton.mpr hstart) ?_ "device-1"
  simp only [List.forall_mem_cons]
  exact ⟨⟨hrun _ rfl rfl, Command.noConfusion⟩, ⟨hstart, Command.noConfusion⟩,
    ⟨hrun _ rfl rfl, Command.noConfusion⟩, ⟨hrun _ rfl rfl, Command.noConfusion⟩,
    List.forall_mem_nil _⟩

end HybridEccAuth

import HybridEccAuth.Library.Correspondence
import HybridEccAuth.Properties.HonestRequests
import HybridEccAuth.Properties.HonestResponses
import HybridEccAuth.Protocol.World

/-!
# Injective agreement

In every run of a world whose members are distinct and whose encryption is ideal, an
answer of a server to an honest device belongs to one request that the device built for
that server, and a key that an honest device completes belongs to one answer of the
server, with the same nonces, epoch and key.

The invariant has three parts: what a device keeps track of (`Device.Tracked`: every
completed epoch is below its counter, and no pending one was completed), what a server
keeps track of (`Server.Tracked`: no epoch it answered is above the last accepted one),
and what is known of the history (`Coherent`: every encryption is accounted for, ends
have beginnings, and no beginning has two ends).
-/

namespace HybridEccAuth

open Correspondence

variable {C : Crypto} {P : Enrolment}

/-! ## What events say -/

/-- A session of a device with a server. -/
structure Enrolment.IsSession (C : Crypto) (P : Enrolment) (device server : String)
    (s : PendingSession) : Prop where
  device_mem : device ∈ P.members
  server_mem : server ∈ P.members
  kStar_eq : s.kStar = P.root C device server
  pid_eq : h2Pseudonym C (P.secretOf device) s.epoch = .ok s.pid

/-- What an answer of a server was computed from. -/
structure Enrolment.IsAnswer (C : Crypto) (P : Enrolment) (server : String) (request : Bytes)
    (o : Opened) (nJ : Bytes) (result : AuthResult) : Prop where
  server_mem : server ∈ P.members
  peer_mem : o.peer ∈ P.members
  kStar_eq : o.kStar = P.root C o.peer server
  pid_eq : h2Pseudonym C (P.secretOf o.peer) o.epoch = .ok o.pid
  parsed : ∃ msg1, Message1.fromBytes request = .ok msg1 ∧ o.pid = msg1.pid
  peer_eq : result.peerIdentity = o.peer
  key_eq : result.sessionKey = sessionKey C o.kStar o.nI nJ o.epoch.toNat

namespace Event

/-- What is known of every event: an encryption is the adversary's, or that of a request or an
answer, and sessions and answers are well-formed. -/
def Explained (C : Crypto) (P : Enrolment) (h : List Event) : Event → Prop
  | .encrypted key _ aad plaintext =>
    P.Available C key ∨
      (∃ V R s, .requested V R s ∈ h ∧ key = s.kStar ∧ aad = [] ∧
        plaintext = s.pid ++ s.nI ++ toBytesBE 8 s.epoch.toNat) ∨
      ∃ R data o nJ result, .answered R data o nJ result ∈ h ∧ key = o.kStar ∧
        aad = o.pid ++ o.nI ∧ plaintext = nJ ++ toBytesBE 8 o.epoch.toNat
  | .requested V R s => P.IsSession C V R s
  | .answered R data o nJ result => P.IsAnswer C R data o nJ result
  | .completed V R s _ _ => P.IsSession C V R s

/-- A request of a device to a server, and an answer of that server to that device, of one epoch and
one `N_i`. -/
def RequestFor : Event → Event → Prop
  | .requested V R s, .answered R' _ o _ result =>
    R = R' ∧ V = result.peerIdentity ∧ s.epoch = o.epoch ∧ s.nI = o.nI
  | _, _ => False

/-- An answer of a server to a device, and a completion by that device with that server, of one
epoch, one `N_i`, one `N_j` and one key. -/
def AnswerFor : Event → Event → Prop
  | .answered R _ o nJ result, .completed V R' s nJ' key =>
    R = R' ∧ result.peerIdentity = V ∧ result.sessionKey = key ∧ o.epoch = s.epoch ∧
      o.nI = s.nI ∧ nJ = nJ'
  | _, _ => False

/-- A request, and a completion of the session that it left pending. -/
def SessionOf : Event → Event → Prop
  | .requested V R s, .completed V' R' s' _ _ => V = V' ∧ R = R' ∧ s = s'
  | _, _ => False

/-- An answer that names an honest device. -/
def AnswersHonest (P : Enrolment) : Event → Prop
  | .answered _ _ _ _ result => result.peerIdentity ∉ P.corrupt
  | _ => False

/-- A completion by any device. -/
def Completes : Event → Prop
  | .completed _ _ _ _ _ => True
  | _ => False

/-- A completion by an honest device. -/
def CompletesHonest (P : Enrolment) : Event → Prop
  | .completed V _ _ _ _ => V ∉ P.corrupt
  | _ => False

/-- What no later event repeats: a server answers no request twice, and the epochs that it answers
to a device increase; a device completes no epoch with a server twice. -/
def Fresh : Event → Event → Prop
  | .answered R data o _ result, .answered R' data' o' _ result' =>
    R = R' → data ≠ data' ∧ (result.peerIdentity = result'.peerIdentity → o.epoch < o'.epoch)
  | .completed V R s _ _, .completed V' R' s' _ _ => V = V' → R = R' → s.epoch ≠ s'.epoch
  | _, _ => True

end Event

/-! ## Histories -/

/-- What is known of the history of a world. -/
structure Coherent (C : Crypto) (P : Enrolment) (h : List Event) : Prop where
  explained : ∀ e ∈ h, e.Explained C P h
  requests : Agrees Event.RequestFor (Event.AnswersHonest P) h
  answers : Agrees Event.AnswerFor (Event.CompletesHonest P) h
  sessions : Agrees Event.SessionOf Event.Completes h
  fresh : h.Pairwise Event.Fresh

/-- What the events of one step have to satisfy. -/
structure Extends (C : Crypto) (P : Enrolment) (h new : List Event) : Prop where
  explained : ∀ e ∈ new, e.Explained C P (h ++ new)
  requests : ∀ e ∈ new, e.AnswersHonest P → ∃ b ∈ h, b.RequestFor e
  answers : ∀ e ∈ new, e.CompletesHonest P → ∃ b ∈ h, b.AnswerFor e
  sessions : ∀ e ∈ new, e.Completes → ∃ b ∈ h, b.SessionOf e
  fresh : ∀ e ∈ h, ∀ e' ∈ new, e.Fresh e'
  fresh_new : new.Pairwise Event.Fresh

/-- What explains an event is kept. -/
lemma Event.Explained.append {h : List Event} {e : Event} (he : e.Explained C P h)
    (new : List Event) : e.Explained C P (h ++ new) := by
  have hleft : ∀ {x : Event}, x ∈ h → x ∈ h ++ new := fun hx => List.mem_append_left new hx
  rcases e with ⟨key, nonce, aad, plaintext⟩ | _ | _ | _
  · rcases he with hkey | ⟨V, R, s, hs, hrest⟩ | ⟨R, data, o, nJ, result, ho, hrest⟩
    · exact Or.inl hkey
    · exact Or.inr (Or.inl ⟨V, R, s, hleft hs, hrest⟩)
    · exact Or.inr (Or.inr ⟨R, data, o, nJ, result, hleft ho, hrest⟩)
  · exact he
  · exact he
  · exact he

/-- The empty history. -/
lemma coherent_nil : Coherent C P [] where
  explained _ he := absurd he List.not_mem_nil
  requests := agrees_nil
  answers := agrees_nil
  sessions := agrees_nil
  fresh := List.Pairwise.nil

/-- A history grows by the events of a step. -/
theorem Coherent.append {h new : List Event} (hh : Coherent C P h) (hnew : Extends C P h new) :
    Coherent C P (h ++ new) where
  explained e he := by
    rcases List.mem_append.mp he with he | he
    · exact (hh.explained e he).append new
    · exact hnew.explained e he
  requests := agrees_append hh.requests hnew.requests
  answers := agrees_append hh.answers hnew.answers
  sessions := agrees_append hh.sessions hnew.sessions
  fresh := List.pairwise_append.mpr ⟨hh.fresh, hnew.fresh_new, hnew.fresh⟩

/-- A step without events. -/
lemma extends_nil (h : List Event) : Extends C P h [] where
  explained _ he := absurd he List.not_mem_nil
  requests _ he := absurd he List.not_mem_nil
  answers _ he := absurd he List.not_mem_nil
  sessions _ he := absurd he List.not_mem_nil
  fresh _ _ _ he := absurd he List.not_mem_nil
  fresh_new := List.Pairwise.nil

/-- What was encrypted as an M1 under the root of an honest device was encrypted in one of its
requests. -/
lemma Coherent.request_of_encrypted {h : List Event} (hh : Coherent C P h) (hP : P.Distinct C)
    {V R : String} (hV : V ∈ P.members) (hhonest : V ∉ P.corrupt) (hR : R ∈ P.members)
    {nonce plaintext : Bytes} (henc : .encrypted (P.root C V R) nonce [] plaintext ∈ h) :
    ∃ s, .requested V R s ∈ h ∧ P.IsSession C V R s ∧
      plaintext = s.pid ++ s.nI ++ toBytesBE 8 s.epoch.toNat := by
  rcases hh.explained _ henc with hkey | ⟨V', R', s, hs, hk, -, hplain⟩ |
    ⟨R', data, o, nJ, result, ho, -, haad, -⟩
  · exact absurd rfl (hkey V hV hhonest R hR)
  · have hsession : P.IsSession C V' R' s := hh.explained _ hs
    obtain ⟨rfl, rfl⟩ := hP.root V hV R hR V' hsession.device_mem R' hsession.server_mem
      (hk.trans hsession.kStar_eq)
    exact ⟨s, hs, hsession, hplain⟩
  · -- the associated data of M2 begins with a pseudonym, that of M1 is empty
    have hanswer : P.IsAnswer C R' data o nJ result := hh.explained _ ho
    have hlen := congrArg List.length haad
    rw [List.length_append, length_of_h2Pseudonym hanswer.pid_eq, List.length_nil] at hlen
    omega

/-- What was encrypted as an M2 for a session of an honest device was encrypted in an answer to
it. -/
lemma Coherent.answer_of_encrypted {h : List Event} (hh : Coherent C P h) (hP : P.Distinct C)
    {V R : String} {s : PendingSession} (hs : P.IsSession C V R s) (hhonest : V ∉ P.corrupt)
    {nonce plaintext : Bytes} (henc : .encrypted s.kStar nonce (s.pid ++ s.nI) plaintext ∈ h) :
    ∃ data o nJ result, .answered R data o nJ result ∈ h ∧ P.IsAnswer C R data o nJ result ∧
      o.peer = V ∧ o.kStar = s.kStar ∧ o.nI = s.nI ∧
      plaintext = nJ ++ toBytesBE 8 o.epoch.toNat := by
  have hlen := length_of_h2Pseudonym hs.pid_eq
  rcases hh.explained _ henc with hkey | ⟨V', R', s', -, -, haad, -⟩ |
    ⟨R', data, o, nJ, result, ho, hk, haad, hplain⟩
  · exact absurd hs.kStar_eq (hkey V hs.device_mem hhonest R hs.server_mem)
  · have hlen' := congrArg List.length haad
    rw [List.length_append, hlen, List.length_nil] at hlen'
    omega
  · have hanswer : P.IsAnswer C R' data o nJ result := hh.explained _ ho
    obtain ⟨rfl, rfl⟩ := hP.root V hs.device_mem R hs.server_mem o.peer hanswer.peer_mem R'
      hanswer.server_mem (hs.kStar_eq.symm.trans (hk.trans hanswer.kStar_eq))
    obtain ⟨-, hnI⟩ := List.append_inj haad (hlen.trans (length_of_h2Pseudonym hanswer.pid_eq).symm)
    exact ⟨data, o, nJ, result, ho, hanswer, rfl, hk.symm, hnI.symm, hplain⟩

/-! ## What devices keep track of -/

/-- A device of an enrolment: what is pending was requested and not completed, and what was
completed is below the counter. -/
structure Device.Tracked (P : Enrolment) (V : String) (D : Device C) (h : List Event) : Prop where
  holds : P.Holds D.credential V
  role_eq : D.credential.role = .device
  counter : D.epochClock = false
  pending : ∀ R s, D.pending.get R = some s → P.IsSession C V R s ∧ .requested V R s ∈ h ∧
    s.epoch < D.nextEpoch R ∧ ∀ s' nJ key, .completed V R s' nJ key ∈ h → s'.epoch ≠ s.epoch
  completed : ∀ R s nJ key, .completed V R s nJ key ∈ h → s.epoch < D.nextEpoch R

namespace Device

variable {V : String} {D D' : Device C} {h : List Event}

/-- The root of a device with a peer. -/
lemma Tracked.root_eq (hD : D.Tracked P V h) {R : String} {lam : Lam}
    (hlam : D.credential.peerSecrets.get R = some lam) :
    R ∈ P.members ∧ D.credential.pairwiseRoot C lam = P.root C V R := by
  obtain ⟨hR, rfl⟩ := hD.holds.peers R lam hlam
  refine ⟨hR, ?_⟩
  rw [Credential.pairwiseRoot, hD.role_eq, Enrolment.root, hD.holds.lam_eq]

/-- Events that complete nothing for a device do not concern what it keeps track of. -/
lemma Tracked.append (hD : D.Tracked P V h) {new : List Event}
    (hnew : ∀ R s nJ key, .completed V R s nJ key ∉ new) : D.Tracked P V (h ++ new) where
  holds := hD.holds
  role_eq := hD.role_eq
  counter := hD.counter
  pending R s hs := by
    obtain ⟨hsession, hreq, hlt, hne⟩ := hD.pending R s hs
    refine ⟨hsession, List.mem_append_left _ hreq, hlt, fun s' nJ key hmem => ?_⟩
    rcases List.mem_append.mp hmem with hmem | hmem
    · exact hne s' nJ key hmem
    · exact absurd hmem (hnew R s' nJ key)
  completed R s nJ key hmem := by
    rcases List.mem_append.mp hmem with hmem | hmem
    · exact hD.completed R s nJ key hmem
    · exact absurd hmem (hnew R s nJ key)

/-- A device that forgets pending sessions keeps track. -/
lemma Tracked.forget (hD : D.Tracked P V h) (hcred : D'.credential = D.credential)
    (hclock : D'.epochClock = D.epochClock) (hepoch : D'.epoch = D.epoch)
    (hpending : ∀ R s, D'.pending.get R = some s → D.pending.get R = some s) :
    D'.Tracked P V h where
  holds := hcred ▸ hD.holds
  role_eq := hcred ▸ hD.role_eq
  counter := hclock.trans hD.counter
  pending R s hs := by
    rw [nextEpoch, hepoch]
    exact hD.pending R s (hpending R s hs)
  completed R s nJ key hmem := by
    rw [nextEpoch, hepoch]
    exact hD.completed R s nJ key hmem

/-- A device that was created has nothing to keep track of. -/
lemma tracked_create {cred : Credential Lam Bytes} {nonceBits : ℕ} {timeout : ℚ} {maxAttempts : ℕ}
    (hcred : P.Holds cred V) (hD : create cred nonceBits timeout maxAttempts false = .ok D) :
    D.Tracked P V [] := by
  unfold create at hD
  split_ifs at hD with hrole
  cases hD
  refine ⟨hcred, not_not.mp hrole, rfl, fun R s hs => ?_, fun R s nJ key hmem => ?_⟩
  · cases hs
  · cases hmem

/-- Building a request makes a session of the next epoch pending. -/
theorem Tracked.buildAuthRequest (hD : D.Tracked P V h) {env : BuildEnv} {R : String} {data : Bytes}
    (hbuild : D.buildAuthRequest env R = (.ok data, D')) :
    ∃ s, D'.pending.get R = some s ∧ P.IsSession C V R s ∧
      D'.Tracked P V (h ++ World.requestEvents V R env.iv s) := by
  obtain ⟨lam, s, msg1, hlam, hcompose, -, hcred, -, -, -, hclock, hpending, hepoch⟩ :=
    buildAuthRequest_ok hbuild
  obtain ⟨hR, hroot⟩ := hD.root_eq hlam
  obtain ⟨hpid, -, hs, -⟩ := compose_eq (Credential.length_pairwiseRoot C _ lam) hcompose
  rw [requestEpoch, hD.counter, if_neg Bool.false_ne_true] at hpid hs
  rw [hD.counter, if_neg Bool.false_ne_true] at hepoch
  have hse : s.epoch = D.nextEpoch R := congrArg PendingSession.epoch hs
  have hsk : s.kStar = P.root C V R := (congrArg PendingSession.kStar hs).trans hroot
  have hsession : P.IsSession C V R s := by
    refine ⟨hD.holds.mem, hR, hsk, ?_⟩
    rw [← hD.holds.lam_eq, hse]
    exact hpid
  have hnext : ∀ p, D'.nextEpoch p = if p = R then D.nextEpoch R + 1 else D.nextEpoch p := by
    intro p
    rw [nextEpoch, hepoch, Dict.get_set, hse]
    split_ifs <;> rfl
  have hle : ∀ p, D.nextEpoch p ≤ D'.nextEpoch p := by
    intro p
    rw [hnext]
    split_ifs with hp
    · rw [hp]
      omega
    · exact le_refl _
  have hnone : ∀ p s' nJ key, Event.completed V p s' nJ key ∉ World.requestEvents V R env.iv s := by
    intro p s' nJ key hmem
    simp [World.requestEvents] at hmem
  have hkeep := hD.append hnone
  refine ⟨s, ?_, hsession, hcred ▸ hD.holds, hcred ▸ hD.role_eq, hclock.trans hD.counter, ?_, ?_⟩
  · rw [hpending, Dict.get_set_self]
  · intro p s' hs'
    rw [hpending, Dict.get_set] at hs'
    split_ifs at hs' with hp
    · obtain rfl := Option.some_inj.mp hs'
      subst hp
      refine ⟨hsession, List.mem_append_right _ (by simp [World.requestEvents]), ?_, ?_⟩
      · rw [hnext, if_pos rfl, hse]
        omega
      · intro s' nJ key hmem
        rw [hse]
        exact ne_of_lt (hkeep.completed p s' nJ key hmem)
    · obtain ⟨h₁, h₂, h₃, h₄⟩ := hkeep.pending p s' hs'
      exact ⟨h₁, h₂, lt_of_lt_of_le h₃ (hle p), h₄⟩
  · intro p s' nJ key hmem
    exact lt_of_lt_of_le (hkeep.completed p s' nJ key hmem) (hle p)

/-- Completing a session takes it from the pending ones. -/
theorem Tracked.completeAuth (hD : D.Tracked P V h) {R : String} {s : PendingSession}
    {nJ key : Bytes}
    (hget : D.pending.get R = some s) (hD' : D' = { D with
      pending := D.pending.erase R
      sessionLog := D.sessionLog.recordSuccess s.peerIdentity }) :
    D'.Tracked P V (h ++ [.completed V R s nJ key]) := by
  obtain ⟨-, -, hlt, -⟩ := hD.pending R s hget
  have hmem : ∀ {p s' nJ' key'}, Event.completed V p s' nJ' key' ∈
      h ++ [.completed V R s nJ key] →
      Event.completed V p s' nJ' key' ∈ h ∨ p = R ∧ s' = s := by
    intro p s' nJ' key' hmem
    rcases List.mem_append.mp hmem with hmem | hmem
    · exact Or.inl hmem
    · rw [List.mem_singleton] at hmem
      obtain ⟨-, hp, hs', -⟩ := Event.completed.inj hmem
      exact Or.inr ⟨hp, hs'⟩
  subst hD'
  refine ⟨hD.holds, hD.role_eq, hD.counter, ?_, ?_⟩
  · intro p s' hs'
    dsimp only at hs'
    rw [Dict.get_erase] at hs'
    split_ifs at hs' with hp
    obtain ⟨h₁, h₂, h₃, h₄⟩ := hD.pending p s' hs'
    refine ⟨h₁, List.mem_append_left _ h₂, h₃, fun s'' nJ' key' hc => ?_⟩
    rcases hmem hc with hc | ⟨hpR, -⟩
    · exact h₄ s'' nJ' key' hc
    · exact absurd hpR hp
  · intro p s' nJ' key' hc
    rcases hmem hc with hc | ⟨rfl, rfl⟩
    · exact hD.completed p s' nJ' key' hc
    · exact hlt

/-- What any other outcome of `complete_auth` leaves is kept track of. -/
lemma Tracked.of_completeAuth (hD : D.Tracked P V h) (monotonic : ℚ) (data : Bytes) :
    (D.completeAuth monotonic data).2.Tracked P V h := by
  obtain ⟨log, pending, heq, hpending⟩ := D.completeAuth_frame monotonic data
  rw [heq]
  refine hD.forget rfl rfl rfl fun R s hs => ?_
  dsimp only at hs
  rcases hpending with rfl | ⟨id, rfl⟩
  · exact hs
  · rw [Dict.get_erase] at hs
    split_ifs at hs
    exact hs

end Device

/-! ## What servers keep track of -/

/-- A server of an enrolment: no epoch that it answered is above the last accepted one. -/
structure Server.Tracked (P : Enrolment) (R : String) (S : Server C) (h : List Event) : Prop where
  holds : P.Holds S.credential R
  role_eq : S.credential.role = .server
  valid : S.Valid
  counter : S.resolver.IsCounter
  answered : ∀ data o nJ result, .answered R data o nJ result ∈ h →
    o.epoch ≤ S.sessionLog.last o.peer

namespace Server

variable {R : String} {S : Server C} {h : List Event} {env : ServerEnv} {data : Bytes}

/-- Events that answer nothing for a server do not concern what it keeps track of. -/
lemma Tracked.append (hS : S.Tracked P R h) {new : List Event}
    (hnew : ∀ data o nJ result, .answered R data o nJ result ∉ new) : S.Tracked P R (h ++ new) where
  holds := hS.holds
  role_eq := hS.role_eq
  valid := hS.valid
  counter := hS.counter
  answered data o nJ result hmem := by
    rcases List.mem_append.mp hmem with hmem | hmem
    · exact hS.answered data o nJ result hmem
    · exact absurd hmem (hnew data o nJ result)

/-- A server that was created has nothing to keep track of. -/
lemma tracked_create {cred : Credential Lam Bytes} {nonceBits : ℕ} {log : SessionLog} {r : Resolver}
    {reading : ℚ} (hcred : P.Holds cred R) (hr : r.IsCounter)
    (hS : create cred nonceBits log r reading = .ok S) : S.Tracked P R [] := by
  obtain ⟨hvalid, hcred', -, -, hrole, hatt⟩ := valid_create hS
  refine ⟨hcred' ▸ hcred, hcred' ▸ hrole, hvalid, ?_, fun data o nJ result hmem => ?_⟩
  · have hcounter : (r.attach C cred.peerSecrets log reading).2.IsCounter :=
      Resolver.isCounter_attach.mpr hr
    rw [hatt] at hcounter
    exact hcounter
  · cases hmem

/-- Every request leaves a server that keeps track of what was answered before. -/
lemma Tracked.handleAuthRequest (hS : S.Tracked P R h) (env : ServerEnv) (data : Bytes) :
    (S.handleAuthRequest env data).2.Tracked P R h := by
  obtain ⟨hcred, -⟩ := S.handleAuthRequest_frame env data
  refine ⟨hcred ▸ hS.holds, hcred ▸ hS.role_eq, hS.valid.handleAuthRequest env data,
    (S.isCounter_handleAuthRequest env data).mpr hS.counter, fun data' o nJ result hmem => ?_⟩
  exact le_trans (hS.answered data' o nJ result hmem) (S.last_le_handleAuthRequest env data o.peer)

/-- What is opened under the credential of a member, in terms of the enrolment. -/
lemma Tracked.root_eq (hS : S.Tracked P R h) {o : Opened} {msg1 : Message1} {lam : Lam}
    {plaintext : Bytes} (ho : S.Opens env data o msg1 lam plaintext) :
    o.peer ∈ P.members ∧ o.kStar = P.root C o.peer R ∧
      h2Pseudonym C (P.secretOf o.peer) o.epoch = .ok o.pid := by
  obtain ⟨hpeer, hlam⟩ := hS.holds.peers o.peer lam ho.lam_eq
  obtain ⟨lam', hlam', hpid⟩ := hS.valid.names_of_opens ho
  obtain ⟨-, rfl⟩ := hS.holds.peers o.peer lam' hlam'
  refine ⟨hpeer, ?_, hpid⟩
  rw [ho.kStar_eq, Credential.pairwiseRoot, hS.role_eq, Enrolment.root, ← hS.holds.lam_eq, ← hlam]

/-- What a request that is answered was opened as, and what the answer consists of. -/
theorem Tracked.answer (hS : S.Tracked P R h) {result : AuthResult}
    (hresult : (S.handleAuthRequest env data).1 = .ok result) :
    ∃ o msg1 lam plaintext, S.acceptance (env, data) = some (data, o) ∧
      S.Opens env data o msg1 lam plaintext ∧
      P.IsAnswer C R data o (env.nonce.draw (S.nonceBits / 8)) result ∧
      S.sessionLog.last o.peer < o.epoch ∧
      (S.handleAuthRequest env data).2.Tracked P R (h ++ World.answerEvents R env data o
        (env.nonce.draw (S.nonceBits / 8)) result) := by
  obtain ⟨o, msg1, lam, plaintext, hopen, ho, hrespond, hlog⟩ :=
    handleAuthRequest_ok (Prod.ext hresult rfl)
  obtain ⟨hpeer, hroot, hpid⟩ := hS.root_eq ho
  obtain ⟨hbits, hepoch⟩ := respond_ok hrespond
  have hkey : o.kStar.length = keyLen := by
    rw [hroot]
    exact length_derivePairwiseRoot C _ _
  rw [respond_eq hbits hepoch hkey] at hrespond
  obtain rfl := Except.ok.inj hrespond
  have hkeep := hS.handleAuthRequest env data
  refine ⟨o, msg1, lam, plaintext, acceptance_eq_some.mpr ⟨rfl, hopen, _, hresult⟩, ho,
    ⟨hS.holds.mem, hpeer, hroot, hpid, ⟨msg1, ho.parsed, ho.pid_eq⟩, rfl, rfl⟩,
    hS.valid.new_of_opens hS.counter ho, hkeep.holds, hkeep.role_eq, hkeep.valid, hkeep.counter, ?_⟩
  intro data' o' nJ result hmem
  rcases List.mem_append.mp hmem with hmem | hmem
  · exact hkeep.answered data' o' nJ result hmem
  · simp only [World.answerEvents, List.mem_cons, reduceCtorEq, Event.answered.injEq, true_and,
      List.not_mem_nil, or_false, false_or] at hmem
    obtain ⟨-, rfl, -, -⟩ := hmem
    rw [hlog, SessionLog.last_recordSuccess, SessionLog.last_acceptEpoch, if_pos rfl]
    exact le_max_right _ _

end Server

/-! ## Runs -/

/-- The invariant of a world. -/
structure World.Inv (P : Enrolment) (w : World C) : Prop where
  devices : ∀ V D, w.devices.get V = some D → D.Tracked P V w.history
  servers : ∀ R S, w.servers.get R = some S → S.Tracked P R w.history
  coherent : Coherent C P w.history

namespace World

variable {w : World C}

/-- Before the first action the invariant holds. -/
lemma Initial.inv (hw : w.Initial P) : w.Inv P where
  devices V D hD := by
    obtain ⟨cred, nonceBits, timeout, maxAttempts, hcred, hcreate⟩ := hw.devices V D hD
    rw [hw.history]
    exact Device.tracked_create hcred hcreate
  servers R S hS := by
    obtain ⟨cred, nonceBits, log, r, reading, hcred, hr, hcreate⟩ := hw.servers R S hS
    rw [hw.history]
    exact Server.tracked_create hcred hr hcreate
  coherent := by
    rw [hw.history]
    exact coherent_nil

/-- The events of a request extend the history. -/
lemma extends_requestEvents {V R : String} {s : PendingSession} (hs : P.IsSession C V R s)
    (iv : Urandom) (h : List Event) : Extends C P h (requestEvents V R iv s) := by
  have hmem : ∀ e, e ∈ requestEvents V R iv s →
      (∃ k n a p, e = .encrypted k n a p) ∨ e = .requested V R s := by
    intro e he
    simp only [requestEvents, List.mem_cons, List.not_mem_nil, or_false] at he
    exact he.imp (fun he => ⟨_, _, _, _, he⟩) id
  refine ⟨?_, ?_, ?_, ?_, ?_, ?_⟩
  · intro e he
    simp only [requestEvents, List.mem_cons, List.not_mem_nil, or_false] at he
    rcases he with rfl | rfl
    · refine Or.inr (Or.inl ⟨V, R, s, ?_, rfl, rfl, rfl⟩)
      simp [requestEvents]
    · exact hs
  · intro e he hend
    rcases hmem e he with ⟨k, n, a, p, rfl⟩ | rfl <;> exact hend.elim
  · intro e he hend
    rcases hmem e he with ⟨k, n, a, p, rfl⟩ | rfl <;> exact hend.elim
  · intro e he hend
    rcases hmem e he with ⟨k, n, a, p, rfl⟩ | rfl <;> exact hend.elim
  · intro e _ e' he'
    rcases hmem e' he' with ⟨k, n, a, p, rfl⟩ | rfl <;> rcases e <;> trivial
  · simp [requestEvents, Event.Fresh]

/-- The events of an answer extend the history, when its epoch is above those that were answered
before and, for an honest device, its M1 is genuine. -/
lemma extends_answerEvents {R : String} {S : Server C} {h : List Event} (hh : Coherent C P h)
    (hP : P.Distinct C) (hS : S.Tracked P R h) {env : ServerEnv} {data : Bytes} {o : Opened}
    {msg1 : Message1} {lam : Lam} {plaintext nJ : Bytes} {result : AuthResult}
    (ho : S.Opens env data o msg1 lam plaintext) (hanswer : P.IsAnswer C R data o nJ result)
    (hlast : S.sessionLog.last o.peer < o.epoch)
    (hgenuine : .encrypted o.kStar msg1.gcmNonce [] plaintext ∈ h) :
    Extends C P h (answerEvents R env data o nJ result) := by
  have hmem : ∀ e, e ∈ answerEvents R env data o nJ result →
      (∃ k n a p, e = .encrypted k n a p) ∨ e = .answered R data o nJ result := by
    intro e he
    simp only [answerEvents, List.mem_cons, List.not_mem_nil, or_false] at he
    exact he.imp (fun he => ⟨_, _, _, _, he⟩) id
  refine ⟨?_, ?_, ?_, ?_, ?_, ?_⟩
  · intro e he
    simp only [answerEvents, List.mem_cons, List.not_mem_nil, or_false] at he
    rcases he with rfl | rfl
    · refine Or.inr (Or.inr ⟨R, data, o, nJ, result, ?_, rfl, rfl, rfl⟩)
      simp [answerEvents]
    · exact hanswer
  · intro e he hhonest
    rcases hmem e he with ⟨k, n, a, p, rfl⟩ | rfl
    · exact hhonest.elim
    · rw [hanswer.kStar_eq] at hgenuine
      have hhonest' : o.peer ∉ P.corrupt := hanswer.peer_eq ▸ hhonest
      obtain ⟨s, hs, hsession, hplain⟩ := hh.request_of_encrypted hP hanswer.peer_mem hhonest'
        hanswer.server_mem hgenuine
      have hrange := epoch_of_h2Pseudonym hsession.pid_eq
      -- the plaintext of the request is read back field by field
      have hepoch : s.epoch = o.epoch := by
        rw [← ho.epoch_plaintext, hplain, lastBytes_append (length_toBytesBE _ _),
          fromBytesBE_toBytesBE_of_lt (by omega)]
        omega
      have hnI : s.nI = o.nI := by
        rw [ho.nI_eq, hplain, dropLastBytes_append (length_toBytesBE _ _),
          List.drop_left' (length_of_h2Pseudonym hsession.pid_eq)]
      exact ⟨_, hs, rfl, hanswer.peer_eq.symm, hepoch, hnI⟩
  · intro e he hend
    rcases hmem e he with ⟨k, n, a, p, rfl⟩ | rfl <;> exact hend.elim
  · intro e he hend
    rcases hmem e he with ⟨k, n, a, p, rfl⟩ | rfl <;> exact hend.elim
  · intro e he e' he'
    rcases hmem e' he' with ⟨k, n, a, p, rfl⟩ | rfl
    · rcases e <;> trivial
    · rcases e with _ | _ | ⟨R', data', o', nJ', result'⟩ | _
      · trivial
      · trivial
      · rintro rfl
        have hanswer' : P.IsAnswer C R' data' o' nJ' result' := hh.explained _ he
        have hlt : o'.peer = o.peer → o'.epoch < o.epoch := by
          intro hpeer
          exact lt_of_le_of_lt (hS.answered data' o' nJ' result' he) (hpeer ▸ hlast)
        rw [hanswer.peer_eq, hanswer'.peer_eq]
        refine ⟨?_, hlt⟩
        -- one message names one peer and one epoch
        rintro rfl
        obtain ⟨m, hm, hpid⟩ := hanswer.parsed
        obtain ⟨m', hm', hpid'⟩ := hanswer'.parsed
        obtain rfl := Except.ok.inj (hm.symm.trans hm')
        have hpid₂ := hanswer'.pid_eq
        rw [hpid', ← hpid] at hpid₂
        obtain ⟨hpeer, hepoch⟩ := hP.pseudonym o'.peer hanswer'.peer_mem o.peer hanswer.peer_mem
          o'.epoch o.epoch o.pid hpid₂ hanswer.pid_eq
        exact absurd hepoch (ne_of_lt (hlt hpeer))
      · trivial
  · simp [answerEvents, Event.Fresh]

/-- A completion extends the history, when its session is pending and, for an honest device, its M2
is genuine. -/
lemma extends_completed {V R : String} {D : Device C} {h : List Event} (hh : Coherent C P h)
    (hP : P.Distinct C) (hD : D.Tracked P V h) {s : PendingSession} {nonce plaintext key : Bytes}
    (hget : D.pending.get R = some s)
    (hepoch : (fromBytesBE (lastBytes 8 plaintext) : ℤ) = s.epoch)
    (hkey : deriveSessionKey C s.kStar s.nI (dropLastBytes 8 plaintext) s.epoch = .ok key)
    (hgenuine : .encrypted s.kStar nonce (s.pid ++ s.nI) plaintext ∈ h) :
    Extends C P h [.completed V R s (dropLastBytes 8 plaintext) key] := by
  obtain ⟨hsession, hreq, -, hnew⟩ := hD.pending R s hget
  have hrange := epoch_of_h2Pseudonym hsession.pid_eq
  refine ⟨?_, ?_, ?_, ?_, ?_, List.pairwise_singleton _ _⟩
  · rw [List.forall_mem_singleton]
    exact hsession
  · rw [List.forall_mem_singleton]
    intro hend
    exact hend.elim
  · rw [List.forall_mem_singleton]
    intro hhonest
    obtain ⟨data, o, nJ, result, ho, hanswer, hpeer, hk, hnI, hplain⟩ :=
      hh.answer_of_encrypted hP hsession hhonest hgenuine
    have hrange' := epoch_of_h2Pseudonym hanswer.pid_eq
    have hepoch' : o.epoch = s.epoch := by
      rw [hplain, lastBytes_append (length_toBytesBE _ _),
        fromBytesBE_toBytesBE_of_lt (by omega)] at hepoch
      omega
    have hnJ : dropLastBytes 8 plaintext = nJ := by
      rw [hplain, dropLastBytes_append (length_toBytesBE _ _)]
    rw [deriveSessionKey_of_range hrange, hnJ] at hkey
    refine ⟨_, ho, rfl, hanswer.peer_eq.trans hpeer, ?_, hepoch', hnI, hnJ.symm⟩
    rw [hanswer.key_eq, hk, hnI, hepoch']
    exact Except.ok.inj hkey
  · rw [List.forall_mem_singleton]
    intro _
    exact ⟨_, hreq, rfl, rfl, rfl⟩
  · intro e he e' he'
    obtain rfl := List.mem_singleton.mp he'
    rcases e with _ | _ | _ | ⟨V', R', s', nJ', key'⟩
    · trivial
    · trivial
    · trivial
    · rintro rfl rfl
      exact hnew s' nJ' key' he

/-- Events that concern neither devices nor servers. -/
lemma Inv.record (hw : w.Inv P) {new : List Event} (hnew : Extends C P w.history new)
    (hdevices : ∀ V R s nJ key, .completed V R s nJ key ∉ new)
    (hservers : ∀ R data o nJ result, .answered R data o nJ result ∉ new) :
    Inv P (⟨w.devices, w.servers, w.history ++ new⟩ : World C) where
  devices V D hD := (hw.devices V D hD).append (hdevices V)
  servers R S hS := (hw.servers R S hS).append (hservers R)
  coherent := hw.coherent.append hnew

/-- A step of one device. -/
lemma Inv.setDevice (hw : w.Inv P) {V : String} {D : Device C} {new : List Event}
    (hD : D.Tracked P V (w.history ++ new)) (hnew : Extends C P w.history new)
    (hdevices : ∀ V' R s nJ key, .completed V' R s nJ key ∈ new → V' = V)
    (hservers : ∀ R data o nJ result, .answered R data o nJ result ∉ new) :
    Inv P (⟨w.devices.set V D, w.servers, w.history ++ new⟩ : World C) where
  devices V' D' hD' := by
    dsimp only at hD'
    rw [Dict.get_set] at hD'
    split_ifs at hD' with hV
    · obtain rfl := Option.some_inj.mp hD'
      exact hV ▸ hD
    · exact (hw.devices V' D' hD').append fun R s nJ key hmem =>
        hV (hdevices V' R s nJ key hmem)
  servers R S hS := (hw.servers R S hS).append (hservers R)
  coherent := hw.coherent.append hnew

/-- A step of one server. -/
lemma Inv.setServer (hw : w.Inv P) {R : String} {S : Server C} {new : List Event}
    (hS : S.Tracked P R (w.history ++ new)) (hnew : Extends C P w.history new)
    (hdevices : ∀ V R s nJ key, .completed V R s nJ key ∉ new)
    (hservers : ∀ R' data o nJ result, .answered R' data o nJ result ∈ new → R' = R) :
    Inv P (⟨w.devices, w.servers.set R S, w.history ++ new⟩ : World C) where
  devices V D hD := (hw.devices V D hD).append (hdevices V)
  servers R' S' hS' := by
    dsimp only at hS'
    rw [Dict.get_set] at hS'
    split_ifs at hS' with hR
    · obtain rfl := Option.some_inj.mp hS'
      exact hR ▸ hS
    · exact (hw.servers R' S' hS').append fun data o nJ result hmem =>
        hR (hservers R' data o nJ result hmem)
  coherent := hw.coherent.append hnew

/-- A step without events leaves the history. -/
lemma Inv.of_nil (hw : w.Inv P) : Inv P (⟨w.devices, w.servers, w.history ++ []⟩ : World C) := by
  rw [List.append_nil]
  exact hw

/-- Building a request keeps the invariant. -/
lemma Inv.request (hw : w.Inv P) (V R : String) (env : BuildEnv) :
    (w.step (.request V R env)).2.Inv P := by
  unfold step events devicesAfter serversAfter
  dsimp only
  rcases hV : w.devices.get V with _ | D
  · exact hw.of_nil
  dsimp only
  have hD := hw.devices V D hV
  rcases hbuild : D.buildAuthRequest env R with ⟨e | data, D'⟩
  · obtain ⟨E, hE, rfl⟩ := Device.buildAuthRequest_error hbuild
    have hD' : Device.Tracked P V { D with entity := E } (w.history ++ []) := by
      rw [List.append_nil]
      exact hD.forget hE rfl rfl fun _ _ h => h
    exact hw.setDevice hD' (extends_nil _) (fun _ _ _ _ _ hmem => absurd hmem List.not_mem_nil)
      fun _ _ _ _ _ => List.not_mem_nil
  · obtain ⟨s, hget, hsession, hD'⟩ := hD.buildAuthRequest hbuild
    dsimp only
    rw [hget]
    refine hw.setDevice hD' (extends_requestEvents hsession env.iv _) ?_ ?_
    · intro V' R' s' nJ key hmem
      simp [requestEvents] at hmem
    · intro R' data' o nJ result hmem
      simp [requestEvents] at hmem

/-- Serving a request keeps the invariant. -/
lemma Inv.serve (hw : w.Inv P) (hP : P.Distinct C) {R : String} {env : ServerEnv} {data : Bytes}
    (hideal : w.Ideal (.serve R env data)) : (w.step (.serve R env data)).2.Inv P := by
  unfold step events devicesAfter serversAfter
  dsimp only
  rcases hR : w.servers.get R with _ | S
  · exact hw.of_nil
  dsimp only
  have hS := hw.servers R S hR
  rcases hresult : (S.handleAuthRequest env data).1 with e | result
  · have hS' : (S.handleAuthRequest env data).2.Tracked P R (w.history ++ []) := by
      rw [List.append_nil]
      exact hS.handleAuthRequest env data
    exact hw.setServer hS' (extends_nil _) (fun _ _ _ _ _ => List.not_mem_nil)
      fun _ _ _ _ _ hmem => absurd hmem List.not_mem_nil
  · obtain ⟨o, msg1, lam, plaintext, hacc, ho, hanswer, hlast, hS'⟩ := hS.answer hresult
    have hgenuine : .encrypted o.kStar msg1.gcmNonce [] plaintext ∈ w.history := by
      have hdec := ho.decrypted
      rw [ho.kStar_eq] at hdec ⊢
      exact hideal S msg1 o.peer o.epoch lam hR ho.parsed ho.resolved ho.unblocked ho.covered
        ho.lam_eq plaintext hdec
    rw [hacc]
    dsimp only
    refine hw.setServer hS' (extends_answerEvents hw.coherent hP hS ho hanswer hlast hgenuine) ?_ ?_
    · intro V R' s nJ key hmem
      simp [answerEvents] at hmem
    · intro R' data' o' nJ result' hmem
      simp only [answerEvents, List.mem_cons, reduceCtorEq, Event.answered.injEq, List.not_mem_nil,
        or_false, false_or] at hmem
      exact hmem.1

/-- Completing a session keeps the invariant. -/
lemma Inv.complete (hw : w.Inv P) (hP : P.Distinct C) {V : String} {monotonic : ℚ} {data : Bytes}
    (hideal : w.Ideal (.complete V monotonic data)) :
    (w.step (.complete V monotonic data)).2.Inv P := by
  unfold step events devicesAfter serversAfter
  dsimp only
  rcases hV : w.devices.get V with _ | D
  · exact hw.of_nil
  dsimp only
  have hD := hw.devices V D hV
  rcases hkey : (D.completeAuth monotonic data).1 with e | key
  · have hD' : (D.completeAuth monotonic data).2.Tracked P V (w.history ++ []) := by
      rw [List.append_nil]
      exact hD.of_completeAuth monotonic data
    exact hw.setDevice hD' (extends_nil _) (fun _ _ _ _ _ hmem => absurd hmem List.not_mem_nil)
      fun _ _ _ _ _ => List.not_mem_nil
  · obtain ⟨msg2, R, s, plaintext, hcomp, hparse, hlook, hget, hdec, hepoch, hderive, hD'⟩ :=
      Device.completion_of_ok (Prod.ext hkey rfl)
    have hgenuine : .encrypted s.kStar msg2.gcmNonce (s.pid ++ s.nI) plaintext ∈ w.history :=
      hideal D msg2 R s hV hparse hlook plaintext hdec
    rw [hcomp]
    dsimp only
    refine hw.setDevice (hD.completeAuth hget hD')
      (extends_completed hw.coherent hP hD hget hepoch hderive hgenuine) ?_ ?_
    · intro V' R' s' nJ key' hmem
      obtain ⟨rfl, -⟩ := Event.completed.inj (List.mem_singleton.mp hmem)
      rfl
    · intro R' data' o nJ result hmem
      simp at hmem

/-- What the adversary encrypts keeps the invariant. -/
lemma Inv.encrypt (hw : w.Inv P) {key : Bytes} (hkey : P.Available C key)
    (nonce aad plaintext : Bytes) : (w.step (.encrypt key nonce aad plaintext)).2.Inv P := by
  have hnew : Extends C P w.history [.encrypted key nonce aad plaintext] := by
    refine ⟨?_, ?_, ?_, ?_, ?_, List.pairwise_singleton _ _⟩
    · rw [List.forall_mem_singleton]
      exact Or.inl hkey
    · rw [List.forall_mem_singleton]
      intro hend
      exact hend.elim
    · rw [List.forall_mem_singleton]
      intro hend
      exact hend.elim
    · rw [List.forall_mem_singleton]
      intro hend
      exact hend.elim
    · intro e _ e' he'
      obtain rfl := List.mem_singleton.mp he'
      rcases e <;> trivial
  refine hw.record hnew ?_ ?_
  · intro V R s nJ key' hmem
    simp [events] at hmem
  · intro R data o nJ result hmem
    simp [events] at hmem

/-- Every fair action keeps the invariant. -/
theorem Inv.step (hP : P.Distinct C) {w : World C} {a : Action} (hw : w.Inv P) (ha : w.Fair P a) :
    (w.step a).2.Inv P := by
  rcases a with ⟨V, R, env⟩ | ⟨R, env, data⟩ | ⟨V, monotonic, data⟩ | ⟨key, nonce, aad, plaintext⟩
  · exact hw.request V R env
  · exact hw.serve hP ha.1
  · exact hw.complete hP ha.1
  · exact hw.encrypt ha.2 nonce aad plaintext

/-- The invariant holds in every state of a fair run. -/
theorem Initial.inv_final (hP : P.Distinct C) (hw : w.Initial P) {actions : List Action}
    (hfair : Machine.AllSteps step (Fair P) w actions) :
    (Machine.final step w actions).Inv P :=
  Machine.invariant_final (fun _ _ h ha => Inv.step hP h ha) hw.inv hfair

/-- A request begins no two answers that are fresh. -/
lemma not_requestFor_of_fresh {b e e' : Event} (hfresh : e.Fresh e') (hb : b.RequestFor e) :
    ¬ b.RequestFor e' := by
  intro hb'
  rcases b with _ | ⟨V, R, s⟩ | _ | _
  · exact hb
  · rcases e with _ | _ | ⟨R₁, data₁, o₁, nJ₁, result₁⟩ | _
    · exact hb
    · exact hb
    · rcases e' with _ | _ | ⟨R₂, data₂, o₂, nJ₂, result₂⟩ | _
      · exact hb'
      · exact hb'
      · obtain ⟨rfl, rfl, hepoch, -⟩ := hb
        obtain ⟨rfl, hpeer, hepoch', -⟩ := hb'
        exact absurd (hepoch.symm.trans hepoch') (ne_of_lt ((hfresh rfl).2 hpeer))
      · exact hb'
    · exact hb
  · exact hb
  · exact hb

/-- In every fair run, the answers of servers to honest devices agree injectively with the requests
that these devices built for them; and no server answers the same message twice. -/
theorem answers_agree_with_requests (hP : P.Distinct C) (hw : w.Initial P) {actions : List Action}
    (hfair : Machine.AllSteps step (Fair P) w actions) :
    let history := (Machine.final step w actions).history
    InjectivelyAgrees Event.RequestFor (Event.AnswersHonest P) history ∧
      history.Pairwise fun e e' => ∀ R data o nJ result data' o' nJ' result',
        e = .answered R data o nJ result → e' = .answered R data' o' nJ' result' →
          data ≠ data' := by
  have hinv := hw.inv_final hP hfair
  refine ⟨hinv.coherent.requests.injectively ?_, ?_⟩
  · -- one request has one server, one device and one epoch, and so has one answer
    exact hinv.coherent.fresh.imp fun hfresh _ _ b hb => not_requestFor_of_fresh hfresh hb
  · refine hinv.coherent.fresh.imp fun {e e'} hfresh => ?_
    rintro R data o nJ result data' o' nJ' result' rfl rfl
    exact (hfresh rfl).1

/-- An answer begins no two completions that are fresh. -/
lemma not_answerFor_of_fresh {b e e' : Event} (hfresh : e.Fresh e') (hb : b.AnswerFor e) :
    ¬ b.AnswerFor e' := by
  intro hb'
  rcases b with _ | _ | ⟨R, data, o, nJ, result⟩ | _
  · exact hb
  · exact hb
  · rcases e with _ | _ | _ | ⟨V₁, R₁, s₁, nJ₁, key₁⟩
    · exact hb
    · exact hb
    · exact hb
    · rcases e' with _ | _ | _ | ⟨V₂, R₂, s₂, nJ₂, key₂⟩
      · exact hb'
      · exact hb'
      · exact hb'
      · obtain ⟨rfl, rfl, -, hepoch, -⟩ := hb
        obtain ⟨rfl, rfl, -, hepoch', -⟩ := hb'
        exact hfresh rfl rfl (hepoch.symm.trans hepoch')
  · exact hb

/-- A request begins no two completions that are fresh. -/
lemma not_sessionOf_of_fresh {b e e' : Event} (hfresh : e.Fresh e') (hb : b.SessionOf e) :
    ¬ b.SessionOf e' := by
  intro hb'
  rcases b with _ | ⟨V, R, s⟩ | _ | _
  · exact hb
  · rcases e with _ | _ | _ | ⟨V₁, R₁, s₁, nJ₁, key₁⟩
    · exact hb
    · exact hb
    · exact hb
    · rcases e' with _ | _ | _ | ⟨V₂, R₂, s₂, nJ₂, key₂⟩
      · exact hb'
      · exact hb'
      · exact hb'
      · obtain ⟨rfl, rfl, rfl⟩ := hb
        obtain ⟨rfl, rfl, rfl⟩ := hb'
        exact hfresh rfl rfl rfl
  · exact hb
  · exact hb

/-- In every fair run, the keys that honest devices complete agree injectively with the answers of
the servers that the responses named, and every completion consumes a request of its own. -/
theorem completions_agree_with_answers (hP : P.Distinct C) (hw : w.Initial P)
    {actions : List Action} (hfair : Machine.AllSteps step (Fair P) w actions) :
    let history := (Machine.final step w actions).history
    InjectivelyAgrees Event.AnswerFor (Event.CompletesHonest P) history ∧
      InjectivelyAgrees Event.SessionOf Event.Completes history := by
  have hinv := hw.inv_final hP hfair
  constructor
  · apply hinv.coherent.answers.injectively
    exact hinv.coherent.fresh.imp fun hfresh _ _ b hb => not_answerFor_of_fresh hfresh hb
  · apply hinv.coherent.sessions.injectively
    exact hinv.coherent.fresh.imp fun hfresh _ _ b hb => not_sessionOf_of_fresh hfresh hb

/-! ## The sample pair -/

/-- The enrolment of the sample pair. -/
def pair : Enrolment where
  members := ["device-1", "server-A"]
  secretOf id := if id = "device-1" then 1 else 2

/-- The world of the sample pair, under the plain suite. -/
def ofPair : World .plain where
  devices := Dict.empty.set "device-1" { entity := { credential := deviceOne } }
  servers := Dict.empty.set "server-A" ⟨{ credential := serverA }, 128, {}, .linearScan {}⟩

/-- The surroundings in which the device builds its first request. -/
def pairEnv : BuildEnv := ⟨fun _ => true, 0, .zeros, .zeros, 0⟩

/-- The session that the first request leaves pending. -/
def pairSession : PendingSession :=
  ⟨"server-A", 0, toBytesBE 32 (2 ^ 64), List.replicate 16 0,
    pair.root .plain "device-1" "server-A", 0⟩

/-- The first request. -/
def pairMessage : Message1 :=
  ⟨pairSession.pid, Urandom.zeros.draw gcmNonceLen,
    pairSession.pid ++ pairSession.nI ++ toBytesBE 8 pairSession.epoch.toNat, toBytesBE 16 0⟩

/-- The device builds its first request, and the server receives it. -/
def pairRun : List Action :=
  [.request "device-1" "server-A" pairEnv, .serve "server-A" (.read 0 0) pairMessage.toBytes]

/-- The members of the sample pair are distinct. -/
lemma distinct_pair : pair.Distinct .plain where
  pseudonym a ha b hb e e' pid hpid hpid' := by
    obtain ⟨hlow, he⟩ := h2Pseudonym_plain_inj hpid hpid'
    refine ⟨?_, he⟩
    clear hpid hpid' he
    revert a b
    decide +kernel
  root := by decide +kernel

/-- The credentials of the sample pair are those of the enrolment. -/
lemma holds_pair : pair.Holds deviceOne "device-1" ∧ pair.Holds serverA "server-A" := by
  refine ⟨⟨rfl, by decide, rfl, ?_⟩, ⟨rfl, by decide, rfl, ?_⟩⟩
  · intro p lam hlam
    obtain ⟨rfl, rfl⟩ := Dict.get_singleton_iff.mp hlam
    exact ⟨by decide, rfl⟩
  · intro p lam hlam
    obtain ⟨rfl, rfl⟩ := Dict.get_singleton_iff.mp hlam
    exact ⟨by decide, rfl⟩

/-- The world of the sample pair is one before its first action. -/
lemma initial_pair : ofPair.Initial pair where
  devices V D hD := by
    obtain ⟨rfl, rfl⟩ := Dict.get_singleton_iff.mp hD
    exact ⟨deviceOne, 128, 5, _, holds_pair.1, rfl⟩
  servers R S hS := by
    obtain ⟨rfl, rfl⟩ := Dict.get_singleton_iff.mp hS
    exact ⟨serverA, 128, {}, .linearScan {}, 0, holds_pair.2, trivial, rfl⟩
  history := rfl

/-- The run of the sample pair is fair. -/
lemma fair_pairRun : Machine.AllSteps step (Fair pair) ofPair pairRun := by
  have hdevice : ofPair.devices.get "device-1" =
      some { entity := { credential := deviceOne } } := rfl
  have hevents : ofPair.events (.request "device-1" "server-A" pairEnv) =
      requestEvents "device-1" "server-A" .zeros pairSession :=
    events_request hdevice (by decide +kernel) (by decide +kernel)
  refine ⟨⟨trivial, trivial⟩, ⟨?_, trivial⟩, trivial⟩
  intro S msg1 peer epoch lam hS hparse _ _ _ hlam plaintext hdec
  have hserver : ofPair.servers.get "server-A" = some S := hS
  obtain ⟨-, rfl⟩ := Dict.get_singleton_iff.mp hserver
  have hmessage : Message1.fromBytes pairMessage.toBytes = .ok msg1 := hparse
  rw [Message1.fromBytes_toBytes] at hmessage
  obtain rfl := Except.ok.inj hmessage
  obtain ⟨-, rfl⟩ := Dict.get_singleton_iff.mp hlam
  -- the plain suite decrypts to the ciphertext, which is what the device encrypted
  have hplain : aeadDecrypt .plain (serverA.pairwiseRoot .plain 1) pairMessage.gcmNonce
      pairMessage.ciphertext pairMessage.tag [] = .ok pairMessage.ciphertext :=
    toOption_eq_some_iff.mp (by decide +kernel)
  obtain rfl := Except.ok.inj (hplain.symm.trans hdec)
  have hkey : serverA.pairwiseRoot .plain 1 = pairSession.kStar := by decide +kernel
  have hmem : .encrypted (serverA.pairwiseRoot .plain 1) pairMessage.gcmNonce []
      pairMessage.ciphertext ∈ requestEvents "device-1" "server-A" .zeros pairSession := by
    rw [hkey]
    exact List.mem_cons_self
  unfold step
  rw [hevents]
  exact List.mem_append_right _ hmem

/-- The agreement of the sample run. -/
theorem answers_agree_with_requests_pair :
    let history := (Machine.final step ofPair pairRun).history
    InjectivelyAgrees Event.RequestFor (Event.AnswersHonest pair) history ∧
      history.Pairwise fun e e' => ∀ R data o nJ result data' o' nJ' result',
        e = .answered R data o nJ result → e' = .answered R data' o' nJ' result' →
          data ≠ data' :=
  answers_agree_with_requests distinct_pair initial_pair fair_pairRun

/-- The `N_j` of the server. -/
def pairNonce : Bytes := List.replicate 16 0

/-- The response of the server. -/
def pairResponse : Message2 String :=
  ⟨"server-A", Urandom.zeros.draw gcmNonceLen, pairNonce ++ toBytesBE 8 0, toBytesBE 16 0⟩

/-- The key of the session. -/
def pairKey : Bytes := sessionKey .plain pairSession.kStar pairSession.nI pairNonce 0

/-- The device receives the response of the server to its first request. -/
def pairExchange : List Action := pairRun ++ [.complete "device-1" 1 pairResponse.toBytes]

/-- The device after its first request. -/
def pairWaiting : Device .plain :=
  (({ entity := { credential := deviceOne } } : Device .plain).buildAuthRequest pairEnv
    "server-A").2

/-- The first request is pending. -/
lemma pending_pairWaiting : pairWaiting.pending.get "server-A" = some pairSession := by
  decide +kernel

/-- The pairwise root is a key. -/
lemma length_kStar_pair : pairSession.kStar.length = keyLen := by decide +kernel

/-- The server answers the first request. -/
lemma respond_pair : respond .plain "server-A" 128 (.read 0 0) (pairSession.opened "device-1") =
    .ok ⟨pairResponse.toBytes, pairKey, "device-1"⟩ := by
  have hepoch : 0 ≤ (pairSession.opened "device-1").epoch ∧
      (pairSession.opened "device-1").epoch < 2 ^ 64 := by decide
  rw [respond_eq (by decide) hepoch length_kStar_pair]
  rfl

/-- What the server makes of the first request. -/
lemma events_serve_pair {w : World .plain}
    (hS : w.servers.get "server-A" =
      some ⟨{ credential := serverA }, 128, {}, .linearScan {}⟩) :
    w.events (.serve "server-A" (.read 0 0) pairMessage.toBytes) =
      answerEvents "server-A" (.read 0 0) pairMessage.toBytes (pairSession.opened "device-1")
        pairNonce ⟨pairResponse.toBytes, pairKey, "device-1"⟩ := by
  let S : Server .plain := ⟨{ credential := serverA }, 128, {}, .linearScan {}⟩
  have hpaired : Paired { entity := { credential := deviceOne } } "device-1" S "server-A" :=
    Paired.of_samplePair rfl rfl
  have hbuild : ({ entity := { credential := deviceOne } } : Device .plain).buildAuthRequest pairEnv
      "server-A" = (.ok pairMessage.toBytes, pairWaiting) :=
    Prod.ext (toOption_eq_some_iff.mp (by decide +kernel)) rfl
  have hresolve : (S.resolver.resolve .plain S.peers S.sessionLog 0 pairSession.pid).1 =
      .ok ("device-1", pairSession.epoch) := toOption_eq_some_iff.mp (by decide +kernel)
  obtain ⟨msg1, plaintext, hpid, hopens⟩ : ∃ msg1 plaintext, msg1.pid = pairSession.pid ∧
      S.Opens (.read 0 0) pairMessage.toBytes (pairSession.opened "device-1") msg1 1 plaintext :=
    hpaired.opens hbuild pending_pairWaiting hresolve rfl rfl
  have hacc : ((S.resolver.resolve .plain S.peers S.sessionLog 0 msg1.pid).2.accept .plain S.peers
      S.sessionLog 0 "device-1" 0 pairSession.nI).1 = .ok () := by
    rw [hpid]
    exact toOption_eq_some_iff.mp (by decide +kernel)
  obtain ⟨result, hresult, hresp, -⟩ := hopens.answered (by decide) (by decide) hacc
  obtain rfl := Except.ok.inj (hresp.symm.trans respond_pair)
  exact events_serve hS hresult (Server.acceptance_eq_some.mpr ⟨rfl,
    (Server.acceptance_eq_some.mp (hopens.acceptance_eq (by decide) (by decide) rfl hacc).1).2⟩)

/-- What the world has become when the response is received. -/
lemma final_pairRun : (Machine.final step ofPair pairRun).devices.get "device-1" =
      some pairWaiting ∧
    (Machine.final step ofPair pairRun).history =
      requestEvents "device-1" "server-A" .zeros pairSession ++
        answerEvents "server-A" (.read 0 0) pairMessage.toBytes
          (pairSession.opened "device-1") pairNonce
          ⟨pairResponse.toBytes, pairKey, "device-1"⟩ := by
  have hdevice : ofPair.devices.get "device-1" =
      some { entity := { credential := deviceOne } } := rfl
  have hrequest : ofPair.events (.request "device-1" "server-A" pairEnv) =
      requestEvents "device-1" "server-A" .zeros pairSession :=
    events_request hdevice (by decide +kernel) (by decide +kernel)
  refine ⟨?_, ?_⟩
  · exact Dict.get_set_self _ _ _
  · have hserve := events_serve_pair
      (w := (ofPair.step (.request "device-1" "server-A" pairEnv)).2) rfl
    show ([] ++ ofPair.events _) ++ _ = _
    rw [hrequest, hserve, List.nil_append]

/-- In the plain suite the ciphertext of the response is what was encrypted. -/
lemma decrypts_pairResponse : aeadDecrypt .plain pairSession.kStar pairResponse.gcmNonce
    pairResponse.ciphertext pairResponse.tag (pairSession.pid ++ pairSession.nI) =
      .ok pairResponse.ciphertext :=
  toOption_eq_some_iff.mp (by decide +kernel)

/-- The device completes its session with the response. -/
lemma completes_pairWaiting :
    (pairWaiting.completeAuth 1 pairResponse.toBytes).1 = .ok pairKey ∧
    pairWaiting.completion pairResponse.toBytes = some ("server-A", pairSession, pairNonce) := by
  have htime : ¬ pairWaiting.sessionTimeout < 1 - pairSession.createdAt := by decide +kernel
  have hkey : (pairWaiting.completeAuth 1 pairResponse.toBytes).1 = .ok pairKey :=
    congrArg Prod.fst
      (Device.completeAuth_answer length_kStar_pair respond_pair pending_pairWaiting rfl htime)
  have hcipher : dropLastBytes 8 pairResponse.ciphertext = pairNonce :=
    dropLastBytes_append (length_toBytesBE 8 0)
  refine ⟨hkey, ?_⟩
  rw [Device.completion, Message2.fromBytes_toBytes]
  dsimp only
  rw [Device.lookupPending_ofString, show pairResponse.serverId = "server-A" from rfl,
    pending_pairWaiting]
  dsimp only [Option.map_some]
  rw [decrypts_pairResponse]
  dsimp only
  rw [hcipher]

/-- The response of the sample run is genuine. -/
lemma fair_pairExchange : Machine.AllSteps step (Fair pair) ofPair pairExchange := by
  obtain ⟨hdevice, hhistory⟩ := final_pairRun
  refine Machine.allSteps_append.mpr ⟨fair_pairRun, ⟨?_, trivial⟩, trivial⟩
  intro D msg2 R session hD hparse hlook plaintext hdec
  obtain rfl := Option.some.inj (hD.symm.trans hdevice)
  have hmessage : Message2.fromBytes pairResponse.toBytes = .ok msg2 := hparse
  rw [Message2.fromBytes_toBytes] at hmessage
  obtain rfl := Except.ok.inj hmessage
  rw [Device.lookupPending_ofString, show pairResponse.serverId = "server-A" from rfl,
    pending_pairWaiting] at hlook
  obtain ⟨rfl, rfl⟩ := Prod.mk.inj (Option.some.inj (Except.ok.inj hlook))
  obtain rfl := Except.ok.inj (decrypts_pairResponse.symm.trans hdec)
  rw [hhistory]
  exact List.mem_append_right _ List.mem_cons_self

/-- In the sample run the device completes its session with the key of the server, and the
completions agree with the answers and with the requests. -/
theorem completions_agree_with_answers_pair :
    let history := (Machine.final step ofPair pairExchange).history
    Event.completed "device-1" "server-A" pairSession pairNonce pairKey ∈ history ∧
      InjectivelyAgrees Event.AnswerFor (Event.CompletesHonest pair) history ∧
      InjectivelyAgrees Event.SessionOf Event.Completes history := by
  obtain ⟨hkey, hcompletion⟩ := completes_pairWaiting
  refine ⟨?_, completions_agree_with_answers distinct_pair initial_pair fair_pairExchange⟩
  rw [pairExchange, Machine.final_append]
  show _ ∈ _ ++ events _ _
  rw [events_complete final_pairRun.1 hkey hcompletion]
  exact List.mem_append_right _ (List.mem_singleton_self _)

end World

end HybridEccAuth

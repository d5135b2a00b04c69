import HybridEccAuth.Properties.BlockList
import HybridEccAuth.Properties.CounterCompleteness
import HybridEccAuth.Properties.HonestResponses
import HybridEccAuth.Protocol.LossyNetwork

/-!
# Runs of a lossy network

On a network that loses messages but neither forges nor reorders them, every pair of a device
and a server behaves as a handshake of its own (`LossyHandshake`), whatever the other
pairs do: what is seen of the pair along a run is a history of that handshake, and the states
correspond (`LossyNetwork.refines`).
-/

namespace HybridEccAuth

open LossyHandshake (State Bounds Reached)

variable {C : Crypto}

/-! ## Corresponding states -/

/-- A request in flight has the number of the session that it left pending. -/
def IsRequest (cred : Credential Lam Bytes) (C : Crypto) (R : String)
    (sessions : List PendingSession) (data : Bytes) (n : ℕ) : Prop :=
  ∃ (D D' : Device C) (env : BuildEnv) (s : PendingSession), D.credential = cred ∧
    D.buildAuthRequest env R = (.ok data, D') ∧ D'.pending.get R = some s ∧ sessions[n]? = some s

/-- An answer in flight has the number of the session that it answers. -/
def IsAnswer (C : Crypto) (V R : String) (sessions : List PendingSession) (data : Bytes)
    (a : ℕ × Bytes) : Prop :=
  ∃ (s : PendingSession) (nonceBits : ℕ) (env : ServerEnv) (result : AuthResult),
    sessions[a.1]? = some s ∧ respond C R nonceBits env (s.opened V) = .ok result ∧
      data = result.responseBytes ∧ a.2 = result.sessionKey

/-- More sessions do not change those that there were. -/
lemma getElem?_append_of_some {sessions : List PendingSession} {n : ℕ} {s : PendingSession}
    (h : sessions[n]? = some s) (t : PendingSession) : (sessions ++ [t])[n]? = some s := by
  obtain ⟨hn, -⟩ := List.getElem?_eq_some_iff.mp h
  rw [List.getElem?_append_left hn, h]

/-- A device and a server, the messages in flight between them and the sessions of the requests so
far correspond to the state of a handshake. -/
structure Linked (D : Device C) (V : String) (S : Server C) (R : String)
    (requests responses : List Bytes) (sessions : List PendingSession) (a : State Bytes)
    : Prop where
  next : D.nextEpoch R = a.next
  floor : S.sessionLog.last V + 1 = a.floor
  requests : List.Forall₂ (IsRequest D.credential C R sessions) requests a.requests
  responses : List.Forall₂ (IsAnswer C V R sessions) responses a.answers
  pending : D.pending.get R = a.waiting.bind fun n => sessions[n]?
  length : sessions.length = a.next
  session : ∀ (n : ℕ) (s : PendingSession), sessions[n]? = some s → s.epoch = n ∧
    s.peerIdentity = R ∧
    s.kStar = D.credential.pairwiseRoot C S.credential.lam
  barred : D.sessionLog.isBlocked R = a.barred
  failures : a.barred = false → D.sessionLog.failures R = a.failures
  small : a.next + S.tolerance ≤ 2 ^ 64

/-- The bounds of the handshake of a device and a server. -/
def linkBounds (D : Device C) (S : Server C) : Bounds := ⟨S.tolerance, D.sessionLog.maxAttempts⟩

/-- What a device keeps about a server while it deals with others. -/
structure Device.SameFor (D D' : Device C) (R : String) : Prop where
  credential : D'.credential = D.credential
  next : D'.nextEpoch R = D.nextEpoch R
  pending : D'.pending.get R = D.pending.get R
  blocked : D'.sessionLog.isBlocked R = D.sessionLog.isBlocked R
  failures : D'.sessionLog.failures R = D.sessionLog.failures R
  maxAttempts : D'.sessionLog.maxAttempts = D.sessionLog.maxAttempts

/-- What a server keeps about a device while it deals with others. -/
structure Server.SameFor (S S' : Server C) (V : String) : Prop where
  credential : S'.credential = S.credential
  last : S'.sessionLog.last V = S.sessionLog.last V
  tolerance : S'.tolerance = S.tolerance

namespace Linked

variable {D D' : Device C} {V R : String} {S S' : Server C} {requests responses rest : List Bytes}
  {sessions : List PendingSession} {a : State Bytes} {data : Bytes}

/-- The correspondence is about what device and server keep about each other. -/
lemma congr (h : Linked D V S R requests responses sessions a) (hD : D.SameFor D' R)
    (hS : S.SameFor S' V) : Linked D' V S' R requests responses sessions a where
  next := hD.next.trans h.next
  floor := by rw [hS.last, h.floor]
  requests := by rw [hD.credential]; exact h.requests
  responses := h.responses
  pending := hD.pending.trans h.pending
  length := h.length
  session := by rw [hD.credential, hS.credential]; exact h.session
  barred := hD.blocked.trans h.barred
  failures hb := hD.failures.trans (h.failures hb)
  small := by rw [hS.tolerance]; exact h.small

/-- The first request in flight has the first number. -/
lemma exists_of_requests (h : Linked D V S R (data :: rest) responses sessions a) :
    ∃ n numbers, a.requests = n :: numbers ∧ IsRequest D.credential C R sessions data n ∧
      List.Forall₂ (IsRequest D.credential C R sessions) rest numbers := by
  rcases hreq : a.requests with _ | ⟨n, numbers⟩
  · have hnil := h.requests
    rw [hreq] at hnil
    cases hnil
  · have hcons := h.requests
    rw [hreq, List.forall₂_cons] at hcons
    exact ⟨n, numbers, rfl, hcons.1, hcons.2⟩

/-- The first response in flight has the first number. -/
lemma exists_of_responses (h : Linked D V S R requests (data :: rest) sessions a) :
    ∃ n key answers, a.answers = (n, key) :: answers ∧ IsAnswer C V R sessions data (n, key) ∧
      List.Forall₂ (IsAnswer C V R sessions) rest answers := by
  rcases hres : a.answers with _ | ⟨⟨n, key⟩, answers⟩
  · have hnil := h.responses
    rw [hres] at hnil
    cases hnil
  · have hcons := h.responses
    rw [hres, List.forall₂_cons] at hcons
    exact ⟨n, key, answers, rfl, hcons.1, hcons.2⟩

/-- The session of a request in flight. -/
lemma session_of_isRequest (h : Linked D V S R requests responses sessions a) {n : ℕ}
    (hdata : IsRequest D.credential C R sessions data n) :
    ∃ (D₀ D₁ : Device C) (env : BuildEnv) (s : PendingSession), D₀.credential = D.credential ∧
      D₀.buildAuthRequest env R = (.ok data, D₁) ∧ D₁.pending.get R = some s ∧
      sessions[n]? = some s ∧ s.epoch = n ∧ n < a.next := by
  obtain ⟨D₀, D₁, env, s, hcred, hbuild, hpending, hs⟩ := hdata
  obtain ⟨hn, -⟩ := List.getElem?_eq_some_iff.mp hs
  exact ⟨D₀, D₁, env, s, hcred, hbuild, hpending, hs, (h.session n s hs).1, h.length ▸ hn⟩

/-- A request is built. -/
lemma send (h : Linked D V S R requests responses sessions a) (hpaired : Paired D V S R)
    (hclock : D.epochClock = false) {env : BuildEnv}
    (hbuild : D.buildAuthRequest env R = (.ok data, D'))
    (hsmall : D.nextEpoch R + S.tolerance < 2 ^ 64) :
    ∃ s, Linked D' V S R (requests ++ [data]) responses (sessions ++ [s])
      { a with
        next := a.next + 1, requests := a.requests ++ [a.next], waiting := some a.next } := by
  obtain ⟨lam, s, msg1, hlam, hcompose, hdata, hcred, -, -, hlog, hclock', hpending, hepoch⟩ :=
    Device.buildAuthRequest_ok hbuild
  have hget : D'.pending.get R = some s := by rw [hpending, Dict.get_set_self]
  obtain ⟨s', hs', hpeer, hse, -, -, -, hroot, -⟩ := hpaired.session_of_build hbuild
  obtain rfl := Option.some.inj (hget.symm.trans hs')
  have hnumber : s.epoch = a.next := by
    rw [hse, Device.requestEpoch, hclock, if_neg Bool.false_ne_true, h.next]
  have hself : (sessions ++ [s])[a.next]? = some s := by
    rw [← h.length, List.getElem?_append_right (le_refl _), Nat.sub_self]
    rfl
  refine ⟨s, ?_, h.floor, ?_, ?_, ?_, ?_, ?_, ?_, ?_, ?_⟩
  · rw [Device.nextEpoch, hepoch, hclock, if_neg Bool.false_ne_true, Dict.get_set_self,
      Option.getD_some, hnumber]
    rfl
  · rw [hcred]
    refine List.rel_append ?_ ?_
    · apply h.requests.imp
      rintro _ _ ⟨D₀, D₁, env, t, h₁, h₂, h₃, h₄⟩
      exact ⟨D₀, D₁, env, t, h₁, h₂, h₃, getElem?_append_of_some h₄ s⟩
    · exact List.Forall₂.cons ⟨D, D', env, s, rfl, hbuild, hget, hself⟩ List.Forall₂.nil
  · apply h.responses.imp
    rintro _ _ ⟨t, nonceBits, env, result, h₁, h₂⟩
    exact ⟨t, nonceBits, env, result, getElem?_append_of_some h₁ s, h₂⟩
  · rw [hget, Option.bind_some, hself]
  · rw [List.length_append, List.length_singleton, h.length]
  · intro n t ht
    rw [hcred]
    by_cases hn : n < sessions.length
    · rw [List.getElem?_append_left hn] at ht
      exact h.session n t ht
    · have hlt := (List.getElem?_eq_some_iff.mp ht).1
      rw [List.length_append, List.length_singleton] at hlt
      have heq : n = a.next := by
        rw [← h.length]
        omega
      rw [heq, hself] at ht
      obtain rfl := Option.some.inj ht
      exact ⟨heq ▸ hnumber, hpeer, hroot⟩
  · rw [hlog]
    exact h.barred
  · rw [hlog]
    exact h.failures
  · have hnext := h.next
    dsimp only
    omega

/-- The messages in flight lose one, and nothing else changes. -/
lemma loseRequest (h : Linked D V S R (data :: rest) responses sessions a) {n : ℕ}
    {numbers : List ℕ}
    (hnumbers : a.requests = n :: numbers) :
    Linked D V S R rest responses sessions { a with requests := numbers } := by
  have hcons := h.requests
  rw [hnumbers, List.forall₂_cons] at hcons
  exact { h with requests := hcons.2 }

/-- The responses in flight lose one, and nothing else changes. -/
lemma loseResponse (h : Linked D V S R requests (data :: rest) sessions a) {n : ℕ} {key : Bytes}
    {answers : List (ℕ × Bytes)} (hanswers : a.answers = (n, key) :: answers) :
    Linked D V S R requests rest sessions { a with answers := answers } := by
  have hcons := h.responses
  rw [hanswers, List.forall₂_cons] at hcons
  exact { h with responses := hcons.2 }

end Linked

/-! ## Servers -/

/-- A device and a server whose credentials were issued for one manifest. -/
lemma Paired.of_provision {D : Device C} {S : Server C} {scalarToPublicPoint : Lam → Bytes}
    {masterSecret : Bytes} {manifest : List ManifestEntry} {creds : List (Credential Lam Bytes)}
    (hprov : TrustedAuthority.provision (taPrimitives C scalarToPublicPoint) masterSecret manifest =
      .ok creds) (hD : D.credential ∈ creds) (hS : S.credential ∈ creds)
    (hDrole : D.credential.role = .device) (hSrole : S.credential.role = .server) :
    Paired D D.credential.identity S S.credential.identity := by
  obtain ⟨hnodup, hall⟩ := TrustedAuthority.mem_provision hprov
  have hne : D.credential.identity ≠ S.credential.identity := by
    intro hid
    have heq := List.inj_on_of_nodup_map hnodup hD hS hid
    rw [heq, hSrole] at hDrole
    cases hDrole
  refine ⟨hDrole, hSrole, ?_, ?_⟩
  · rw [Server.peers, (hall _ hS).2, if_pos ⟨List.mem_map_of_mem hD, hne⟩, (hall _ hD).1]
  · rw [(hall _ hD).2, if_pos ⟨List.mem_map_of_mem hS, hne.symm⟩, (hall _ hS).1]

/-- A server that counts, and has blocked nobody. -/
structure Server.Ready (S : Server C) (R : String) : Prop where
  counts : S.Counts
  bits : S.nonceBits ∈ supportedNonceBits
  identity : S.credential.identity = R
  injective : PseudonymsInjective C S.peers
  unblocked : ∀ p, S.sessionLog.isBlocked p = false

namespace Server

variable {D D' : Device C} {V R : String} {S S' : Server C} {env : BuildEnv} {data : Bytes}
  {s : PendingSession} {serverEnv : ServerEnv}

/-- A server that was created with a linear scan or a counter table, and with a window of 64
bits. -/
lemma ready_create {cred : Credential Lam Bytes} {nonceBits maxAttempts tolerance lookback F : ℕ}
    {r : Resolver} {reading : ℚ} (hbits : nonceBits ∈ supportedNonceBits)
    (hinj : PseudonymsInjective C cred.peerSecrets) (hr : r.Separates)
    (htol : r.tolerance (SessionLog.create maxAttempts tolerance lookback) = F)
    (hsmall : F ≤ 2 ^ 64)
    (hcreate : create cred nonceBits (SessionLog.create maxAttempts tolerance lookback) r reading =
      .ok S) : S.Ready cred.identity ∧ S.credential = cred ∧ cred.role = .server ∧ S.tolerance = F ∧
      S.sessionLog = SessionLog.create maxAttempts tolerance lookback := by
  obtain ⟨-, hSc, hSb, hSl, hSr, -⟩ := valid_create hcreate
  have hfit : r.EpochsFit cred.peerSecrets (SessionLog.create maxAttempts tolerance lookback) := by
    rw [Resolver.epochsFit_iff hr, htol]
    intro p _
    have hlast : (SessionLog.create maxAttempts tolerance lookback).last p = -1 :=
      SessionLog.last_fresh _ _ _ _
    omega
  obtain ⟨hcounts, htolerance⟩ := counts_create hr hcreate hinj hfit
  refine ⟨⟨hcounts, hSb ▸ hbits, hSc ▸ rfl, ?_, fun p => ?_⟩, hSc, hSr, htolerance.trans htol, hSl⟩
  · rw [peers, hSc]
    exact hinj
  · rw [hSl]
    rfl

/-- Readiness after a request. -/
lemma Ready.after (h : S.Ready R) {x : Except Exc AuthResult}
    (hstep : S.handleAuthRequest serverEnv data = (x, S')) (hcounts : S'.Counts)
    (hblocked : S'.sessionLog.blocked = S.sessionLog.blocked) :
    S'.Ready R ∧ S'.credential = S.credential := by
  obtain ⟨hcred, hbits⟩ := S.handleAuthRequest_frame serverEnv data
  rw [hstep] at hcred hbits
  refine ⟨⟨hcounts, hbits ▸ h.bits, hcred ▸ h.identity, ?_, fun p => ?_⟩, hcred⟩
  · rw [peers, hcred]
    exact h.injective
  · rw [SessionLog.isBlocked, hblocked]
    exact h.unblocked p

/-- A request whose epoch lies in the window is answered. -/
lemma Ready.accepts (h : S.Ready R) (hpaired : Paired D V S R)
    (hbuild : D.buildAuthRequest env R = (.ok data, D')) (hsession : D'.pending.get R = some s)
    (hcoverage : serverEnv.coverage V = true) (hnew : S.sessionLog.last V < s.epoch)
    (htol : s.epoch ≤ S.sessionLog.last V + S.tolerance) (hnext : s.epoch + S.tolerance < 2 ^ 64) :
    ∃ result S', S.handleAuthRequest serverEnv data = (.ok result, S') ∧
      respond C R S.nonceBits serverEnv (s.opened V) = .ok result ∧ S'.Ready R ∧
      S'.credential = S.credential ∧ S'.tolerance = S.tolerance ∧
      S'.sessionLog.replayLookback = S.sessionLog.replayLookback ∧
      ∀ p, S'.sessionLog.last p = if p = V then s.epoch else S.sessionLog.last p := by
  obtain ⟨result, S', hstep, hresp, hcounts, htolerance, hlog⟩ :=
    h.counts.accepts h.injective h.bits
    hpaired hbuild hsession (h.unblocked V) hcoverage hnew htol hnext
  have hblocked : S'.sessionLog.blocked = S.sessionLog.blocked := by
    rw [hlog]
    exact SessionLog.acceptEpoch_frame.2.2.2.2
  obtain ⟨hready, hcred⟩ := h.after hstep hcounts hblocked
  rw [h.identity] at hresp
  refine ⟨result, S', hstep, hresp, hready, hcred, htolerance, ?_, fun p => ?_⟩
  · rw [hlog]
    exact SessionLog.acceptEpoch_frame.2.2.1
  · rw [hlog, SessionLog.last_recordSuccess, SessionLog.last_acceptEpoch,
      max_eq_right (le_of_lt hnew)]

/-- A request whose epoch does not lie in the window is rejected by the resolver, and changes
nothing about the peers. -/
lemma Ready.rejects (h : S.Ready R) (hpaired : Paired D V S R)
    (hbuild : D.buildAuthRequest env R = (.ok data, D')) (hsession : D'.pending.get R = some s)
    (serverEnv : ServerEnv) (hout : ¬ (S.sessionLog.last V < s.epoch ∧
      s.epoch ≤ S.sessionLog.last V + S.tolerance)) :
    ∃ e S', S.handleAuthRequest serverEnv data = (.error e, S') ∧
      (S.resolver.resolve C S.peers S.sessionLog serverEnv.resolveReading s.pid).1 = .error e ∧
      S'.Ready R ∧ S'.credential = S.credential ∧ S'.tolerance = S.tolerance ∧
      S'.sessionLog = S.sessionLog := by
  obtain ⟨e, S', hstep, hres, hcounts, htolerance, hlog⟩ :=
    h.counts.rejects h.injective hpaired hbuild hsession hout
  obtain ⟨hready, hcred⟩ := h.after hstep hcounts (by rw [hlog])
  exact ⟨e, S', hstep, hres, hready, hcred, htolerance, hlog⟩

end Server

section Delivery

variable {D : Device C} {V R : String} {S : Server C} {requests responses rest : List Bytes}
  {sessions : List PendingSession} {a : State Bytes} {data : Bytes}

/-- A request that is delivered: the server and the handshake agree on whether it is accepted. -/
theorem Linked.deliverRequest (h : Linked D V S R (data :: rest) responses sessions a)
    (hpaired : Paired D V S R) (hS : S.Ready R) {env : ServerEnv}
    (hcoverage : env.coverage V = true) :
    (∃ result S', S.handleAuthRequest env data = (.ok result, S') ∧ S'.Ready R ∧
      (∀ p, p ≠ V → S.SameFor S' p) ∧ S'.credential = S.credential ∧ S'.tolerance = S.tolerance ∧
      (LossyHandshake.step (linkBounds D S) a (.deliverRequest result.sessionKey)).1 =
        some (.accepted result.sessionKey) ∧
      Linked D V S' R rest (responses ++ [result.responseBytes]) sessions
        (LossyHandshake.step (linkBounds D S) a (.deliverRequest result.sessionKey)).2) ∨
    ∃ e S', S.handleAuthRequest env data = (.error e, S') ∧ S'.Ready R ∧
      (∀ p, S.SameFor S' p) ∧
      (LossyHandshake.step (linkBounds D S) a (.deliverRequest [])).1 = some .rejected ∧
      Linked D V S' R rest responses sessions
        (LossyHandshake.step (linkBounds D S) a (.deliverRequest [])).2 := by
  obtain ⟨n, numbers, hnumbers, hdata, -⟩ := h.exists_of_requests
  obtain ⟨D₀, D₁, build, s, hcred, hbuild, hpending, hs, hepoch, hlt⟩ :=
    h.session_of_isRequest hdata
  have hpaired₀ : Paired D₀ V S R := hpaired.congr hcred rfl
  have hfloor := h.floor
  have hsmall := h.small
  have hwindow : (a.floor ≤ n ∧ n < a.floor + (linkBounds D S).window) ↔
      (S.sessionLog.last V < s.epoch ∧ s.epoch ≤ S.sessionLog.last V + S.tolerance) := by
    have hwidth : (linkBounds D S).window = S.tolerance := rfl
    rw [hwidth]
    omega
  by_cases hin : a.floor ≤ n ∧ n < a.floor + (linkBounds D S).window
  · obtain ⟨hnew, htol⟩ := hwindow.mp hin
    obtain ⟨result, S', hstep, hresp, hready, hcred', htolerance, -, hlast⟩ :=
      hS.accepts hpaired₀ hbuild hpending hcoverage hnew htol (by omega)
    refine Or.inl ⟨result, S', hstep, hready, fun p hp => ⟨hcred', ?_, htolerance⟩, hcred',
      htolerance, ?_, ?_⟩
    · rw [hlast, if_neg hp]
    · rw [LossyHandshake.step_accept hnumbers hin]
    · rw [LossyHandshake.step_accept hnumbers hin]
      have hrest := h.loseRequest hnumbers
      refine { hrest with floor := ?_, responses := ?_, session := ?_, small := ?_ }
      · rw [hlast, if_pos rfl, hepoch]
        rfl
      · refine List.rel_append h.responses (List.Forall₂.cons ?_ List.Forall₂.nil)
        exact ⟨s, S.nonceBits, env, result, hs, hresp, rfl, rfl⟩
      · rw [hcred']
        exact h.session
      · rw [htolerance]
        exact hsmall
  · obtain ⟨e, S', hstep, -, hready, hcred', htolerance, hlog⟩ :=
      hS.rejects hpaired₀ hbuild hpending env (mt hwindow.mpr hin)
    have hsame : ∀ p, S.SameFor S' p := fun p => ⟨hcred', by rw [hlog], htolerance⟩
    refine Or.inr ⟨e, S', hstep, hready, hsame, ?_, ?_⟩
    · rw [LossyHandshake.step_reject hnumbers hin]
    · rw [LossyHandshake.step_reject hnumbers hin]
      have hD : D.SameFor D R := ⟨rfl, rfl, rfl, rfl, rfl, rfl⟩
      exact (h.loseRequest hnumbers).congr hD (hsame V)

/-- What a device keeps about other servers when it builds a request. -/
lemma Device.sameFor_build {D D' : Device C} {env : BuildEnv} {R R' : String}
    {x : Except Exc Bytes} (h : D.buildAuthRequest env R = (x, D')) (hne : R' ≠ R) :
    D.SameFor D' R' := by
  rcases x with e | data
  · obtain ⟨E, hE, rfl⟩ := buildAuthRequest_error h
    exact ⟨hE, rfl, rfl, rfl, rfl, rfl⟩
  · obtain ⟨lam, s, msg1, -, -, -, hcred, -, -, hlog, hclock, hpending, hnext⟩ :=
      buildAuthRequest_ok h
    refine ⟨hcred, ?_, ?_, by rw [hlog], by rw [hlog], by rw [hlog]⟩
    · rw [nextEpoch, hnext]
      split_ifs
      · rfl
      · rw [Dict.get_set, if_neg hne]
        rfl
    · rw [hpending, Dict.get_set, if_neg hne]

/-- What a device keeps about other servers when a response arrives. -/
lemma Device.sameFor_failed (D : Device C) {R R' : String} (hne : R' ≠ R) :
    D.SameFor (D.failed R) R' := by
  refine ⟨rfl, rfl, ?_, ?_, ?_, ?_⟩
  · rw [failed, Dict.get_erase, if_neg hne]
  · rw [Bool.eq_iff_iff, failed, SessionLog.isBlocked_recordFailure]
    simp [hne]
  · exact SessionLog.failures_recordFailure_other hne
  · exact SessionLog.recordFailure_frame.2.1

/-- What a device keeps about other servers when a response completes a request. -/
lemma Device.sameFor_succeeded (D : Device C) {R R' : String} (hne : R' ≠ R) :
    D.SameFor (D.succeeded R) R' := by
  refine ⟨rfl, rfl, ?_, rfl, ?_, rfl⟩
  · rw [succeeded, Dict.get_erase, if_neg hne]
  · rw [succeeded, SessionLog.failures_recordSuccess, if_neg hne]

/-- A response fails the pending request. -/
lemma Linked.fail (h : Linked D V S R requests (data :: rest) sessions a) {n : ℕ} {key : Bytes}
    {answers : List (ℕ × Bytes)} (hanswers : a.answers = (n, key) :: answers) :
    Linked (D.failed R) V S R requests rest sessions
      ({ a with answers := answers, waiting := none }.fail (linkBounds D S)) := by
  have hrest := h.loseResponse hanswers
  have hpending : (D.failed R).pending.get R = none := by
    rw [Device.failed, Dict.get_erase, if_pos rfl]
  rcases hb : D.sessionLog.isBlocked R with _ | _
  · have hbarred : a.barred = false := h.barred.symm.trans hb
    have hcount : (D.failed R).sessionLog.failures R = a.failures + 1 := by
      rw [← h.failures hbarred]
      exact (SessionLog.failures_recordFailure hb).trans (if_pos rfl)
    have hblock : (D.failed R).sessionLog.isBlocked R =
        decide (D.sessionLog.maxAttempts ≤ a.failures + 1) := by
      rw [Bool.eq_iff_iff, decide_eq_true_eq, ← h.failures hbarred, Device.failed,
        SessionLog.isBlocked_recordFailure]
      simp [hb]
    rw [LossyHandshake.State.fail, if_neg (by rw [hbarred]; exact Bool.false_ne_true)]
    exact { hrest with pending := hpending, barred := hblock, failures := fun _ => hcount }
  · have hbarred : a.barred = true := h.barred.symm.trans hb
    have hlog : (D.failed R).sessionLog = D.sessionLog :=
      congrArg Prod.snd (SessionLog.recordFailure_of_blocked hb)
    rw [LossyHandshake.State.fail, if_pos hbarred]
    refine { hrest with pending := hpending, barred := ?_, failures := ?_ }
    · rw [hlog]
      exact h.barred
    · intro hfalse
      exact absurd (hbarred.symm.trans hfalse) (by decide)

/-- A response completes the pending request. -/
lemma Linked.complete (h : Linked D V S R requests (data :: rest) sessions a) {n : ℕ} {key : Bytes}
    {answers : List (ℕ × Bytes)} (hanswers : a.answers = (n, key) :: answers) :
    Linked (D.succeeded R) V S R requests rest sessions
      { a with answers := answers, waiting := none, failures := 0 } := by
  have hrest := h.loseResponse hanswers
  refine { hrest with pending := ?_, failures := fun _ => ?_ }
  · rw [Device.succeeded, Dict.get_erase, if_pos rfl]
    rfl
  · rw [Device.succeeded, SessionLog.failures_recordSuccess, if_pos rfl]

/-- The response to the request that waits completes it, when it arrives in time. -/
lemma Linked.completeAuth_next (h : Linked D V S R requests (data :: rest) sessions a) {n : ℕ}
    {key : Bytes} {answers : List (ℕ × Bytes)} (hanswers : a.answers = (n, key) :: answers)
    (hwait : a.waiting = some n) {s : PendingSession} (hpending : D.pending.get R = some s)
    {monotonic : ℚ} (htime : ¬ D.sessionTimeout < monotonic - s.createdAt) :
    D.completeAuth monotonic data = (.ok key, D.succeeded R) := by
  obtain ⟨n', key', answers', hanswers', hdata, -⟩ := h.exists_of_responses
  obtain ⟨⟨rfl, rfl⟩, -⟩ : (n = n' ∧ key = key') ∧ answers = answers' := by
    simpa using hanswers.symm.trans hanswers'
  obtain ⟨t, nonceBits, env, result, ht, hresp, rfl, rfl⟩ := hdata
  obtain ⟨-, hpeer, hroot⟩ := h.session n t ht
  obtain rfl : s = t := by
    have hsession := h.pending
    rw [hwait, Option.bind_some, hpending, ht] at hsession
    exact Option.some.inj hsession
  have hlength : s.kStar.length = keyLen := by
    rw [hroot]
    exact Credential.length_pairwiseRoot C _ _
  exact Device.completeAuth_answer hlength hresp hpending hpeer htime

/-- A response that is delivered: the device and the handshake agree on whether it completes the
request that waits, and the key is that of the server. -/
theorem Linked.deliverResponse (h : Linked D V S R requests (data :: rest) sessions a)
    (hwait : ∀ m, a.waiting = some m → m + 1 = a.next) (monotonic : ℚ) :
    ∃ inTime D', (D' = D ∨ D' = D.failed R ∨ D' = D.succeeded R) ∧
      Linked D' V S R requests rest sessions
        (LossyHandshake.step (linkBounds D S) a (.deliverAnswer inTime)).2 ∧
      ((∃ key, D.completeAuth monotonic data = (.ok key, D') ∧
        (LossyHandshake.step (linkBounds D S) a (.deliverAnswer inTime)).1 =
          some (.completed key)) ∨
      ∃ e, D.completeAuth monotonic data = (.error e, D') ∧
        (LossyHandshake.step (linkBounds D S) a (.deliverAnswer inTime)).1 = some .failed) := by
  obtain ⟨n, key, answers, hanswers, hdata, -⟩ := h.exists_of_responses
  obtain ⟨s, nonceBits, env, result, hs, hresp, rfl, hkey⟩ := hdata
  dsimp only at hs hkey
  obtain ⟨hepoch, -, hroot⟩ := h.session n s hs
  have hlength : s.kStar.length = keyLen := by
    rw [hroot]
    exact Credential.length_pairwiseRoot C _ _
  have hpending := h.pending
  rcases hw : a.waiting with _ | m
  · rw [hw, Option.bind_none] at hpending
    obtain ⟨e, hstep⟩ := Device.completeAuth_unexpected hlength hresp hpending monotonic
    refine ⟨false, D, Or.inl rfl, ?_, Or.inr ⟨e, hstep, ?_⟩⟩
    · rw [LossyHandshake.step_unexpected hanswers hw]
      exact h.loseResponse hanswers
    · rw [LossyHandshake.step_unexpected hanswers hw]
  · have hm : m < sessions.length := by
      have hnext := hwait m hw
      rw [h.length]
      omega
    have hs' : sessions[m]? = some sessions[m] := List.getElem?_eq_getElem hm
    obtain ⟨hepoch', hpeer', hroot'⟩ := h.session m sessions[m] hs'
    rw [hw, Option.bind_some, hs'] at hpending
    by_cases hlate : D.sessionTimeout < monotonic - sessions[m].createdAt
    · have hbad : ¬ (false = true ∧ n = m) := fun hand => absurd hand.1 Bool.false_ne_true
      have hstep := Device.completeAuth_late hlength hresp hpending hpeer' hlate
      refine ⟨false, D.failed R, Or.inr (Or.inl rfl), ?_, Or.inr ⟨_, hstep, ?_⟩⟩
      · rw [LossyHandshake.step_fail hanswers hw hbad]
        exact h.fail hanswers
      · rw [LossyHandshake.step_fail hanswers hw hbad]
    · by_cases hnm : n = m
      · subst hnm
        have hstep := h.completeAuth_next hanswers hw hpending hlate
        refine ⟨true, D.succeeded R, Or.inr (Or.inr rfl), ?_, Or.inl ⟨key, hstep, ?_⟩⟩
        · rw [LossyHandshake.step_complete hanswers hw]
          exact h.complete hanswers
        · rw [LossyHandshake.step_complete hanswers hw]
      · have hbad : ¬ (true = true ∧ n = m) := fun hand => hnm hand.2
        have hother : sessions[m].epoch ≠ s.epoch := by
          rw [hepoch', hepoch]
          omega
        obtain ⟨e, hstep⟩ := Device.completeAuth_mismatch hlength hresp hpending hpeer'
          (hroot'.trans hroot.symm) hother hlate
        refine ⟨true, D.failed R, Or.inr (Or.inl rfl), ?_, Or.inr ⟨e, hstep, ?_⟩⟩
        · rw [LossyHandshake.step_fail hanswers hw hbad]
          exact h.fail hanswers
        · rw [LossyHandshake.step_fail hanswers hw hbad]

end Delivery

/-! ## The network -/

namespace LossyNetwork

/-- The invariant of a network and its history, when `F` is how far each server looks ahead. -/
structure Inv (F : String → ℕ) (N : LossyNetwork C) (seen : List LinkEvent) : Prop where
  device : ∀ V D, N.devices.get V = some D →
    D.epochClock = false ∧ D.nonceBits ∈ supportedNonceBits
  server : ∀ R S, N.servers.get R = some S → S.Ready R ∧ S.tolerance = F R
  paired : ∀ V D R S, N.devices.get V = some D → N.servers.get R = some S → Paired D V S R
  noDevice : ∀ V R, N.devices.get V = none → N.requests V R = []
  noServer : ∀ V R, N.servers.get R = none → N.responses V R = []
  linked : ∀ V D R S, N.devices.get V = some D → N.servers.get R = some S →
    ∃ sessions a, Reached (linkBounds D S) (seen.filterMap (LinkEvent.ofPair V R)) a ∧
      Linked D V S R (N.requests V R) (N.responses V R) sessions a

variable {F : String → ℕ} {N N' : LossyNetwork C} {seen : List LinkEvent} {V₀ R₀ : String}
  {o : LossyHandshake.Output Bytes}

/-- What is seen of a pair after one more event. -/
lemma filterMap_append_event (V R : String) :
    (seen ++ [LinkEvent.mk V₀ R₀ o]).filterMap (LinkEvent.ofPair V R) =
    seen.filterMap (LinkEvent.ofPair V R) ++ if V₀ = V ∧ R₀ = R then [o] else [] := by
  rw [List.filterMap_append]
  congr 1
  by_cases h : V₀ = V ∧ R₀ = R
  · rw [if_pos h]
    exact List.filterMap_cons_some (if_pos h)
  · rw [if_neg h]
    exact List.filterMap_cons_none (if_neg h)

/-- A step of a device and the queues of one pair. -/
lemma Inv.device_step (h : Inv F N seen) {D D' : Device C} (hD : N.devices.get V₀ = some D)
    (hdevices : ∀ V, N'.devices.get V = if V = V₀ then some D' else N.devices.get V)
    (hservers : N'.servers = N.servers) (hclock : D'.epochClock = D.epochClock)
    (hbits : D'.nonceBits = D.nonceBits) (hsame : ∀ R, R ≠ R₀ → D.SameFor D' R)
    (hcred : D'.credential = D.credential)
    (hmax : D'.sessionLog.maxAttempts = D.sessionLog.maxAttempts)
    (hrequests : ∀ V R, ¬ (V = V₀ ∧ R = R₀) → N'.requests V R = N.requests V R)
    (hresponses : ∀ V R, ¬ (V = V₀ ∧ R = R₀) → N'.responses V R = N.responses V R)
    (hnone : N.servers.get R₀ = none → N'.responses V₀ R₀ = [])
    (hlink : ∀ S, N.servers.get R₀ = some S → ∃ sessions a,
      Reached (linkBounds D S) (seen.filterMap (LinkEvent.ofPair V₀ R₀) ++ [o]) a ∧
        Linked D' V₀ S R₀ (N'.requests V₀ R₀) (N'.responses V₀ R₀) sessions a) :
    Inv F N' (seen ++ [⟨V₀, R₀, o⟩]) where
  device V E hE := by
    rw [hdevices] at hE
    split_ifs at hE
    · obtain rfl := Option.some.inj hE
      rw [hclock, hbits]
      exact h.device V₀ D hD
    · exact h.device V E hE
  server R S hS := by
    rw [hservers] at hS
    exact h.server R S hS
  paired V E R S hE hS := by
    rw [hservers] at hS
    rw [hdevices] at hE
    split_ifs at hE with hV
    · obtain rfl := Option.some.inj hE
      rw [hV]
      exact (h.paired V₀ D R S hD hS).congr hcred rfl
    · exact h.paired V E R S hE hS
  noDevice V R hnone := by
    rw [hdevices] at hnone
    split_ifs at hnone with hV
    rw [hrequests V R (fun hand => hV hand.1)]
    exact h.noDevice V R hnone
  noServer V R hR := by
    rw [hservers] at hR
    by_cases hpair : V = V₀ ∧ R = R₀
    · obtain ⟨rfl, rfl⟩ := hpair
      exact hnone hR
    · rw [hresponses V R hpair]
      exact h.noServer V R hR
  linked V E R S hE hS := by
    rw [hservers] at hS
    rw [hdevices] at hE
    rw [filterMap_append_event]
    by_cases hpair : V = V₀ ∧ R = R₀
    · obtain ⟨rfl, rfl⟩ := hpair
      rw [if_pos rfl] at hE
      obtain rfl := Option.some.inj hE
      rw [if_pos ⟨rfl, rfl⟩, linkBounds, hmax]
      exact hlink S hS
    · rw [if_neg (fun hand => hpair ⟨hand.1.symm, hand.2.symm⟩), List.append_nil,
        hrequests V R hpair,
        hresponses V R hpair]
      split_ifs at hE with hV
      · -- the device deals with another server
        subst hV
        obtain rfl := Option.some.inj hE
        obtain ⟨sessions, a, hreached, hlinked⟩ := h.linked V D R S hD hS
        have hR : R ≠ R₀ := fun heq => hpair ⟨rfl, heq⟩
        rw [linkBounds, hmax]
        exact ⟨sessions, a, hreached, hlinked.congr (hsame R hR) ⟨rfl, rfl, rfl⟩⟩
      · exact h.linked V E R S hE hS

/-- A step of a server and the queues of one pair. -/
lemma Inv.server_step (h : Inv F N seen) {S S' : Server C} (hS : N.servers.get R₀ = some S)
    (hservers : ∀ R, N'.servers.get R = if R = R₀ then some S' else N.servers.get R)
    (hdevices : N'.devices = N.devices) (hready : S'.Ready R₀)
    (hsame : ∀ V, V ≠ V₀ → S.SameFor S' V) (hcred : S'.credential = S.credential)
    (htol : S'.tolerance = S.tolerance)
    (hrequests : ∀ V R, ¬ (V = V₀ ∧ R = R₀) → N'.requests V R = N.requests V R)
    (hresponses : ∀ V R, ¬ (V = V₀ ∧ R = R₀) → N'.responses V R = N.responses V R)
    (hnone : N.devices.get V₀ = none → N'.requests V₀ R₀ = [])
    (hlink : ∀ D, N.devices.get V₀ = some D → ∃ sessions a,
      Reached (linkBounds D S) (seen.filterMap (LinkEvent.ofPair V₀ R₀) ++ [o]) a ∧
        Linked D V₀ S' R₀ (N'.requests V₀ R₀) (N'.responses V₀ R₀) sessions a) :
    Inv F N' (seen ++ [⟨V₀, R₀, o⟩]) where
  device V D hD := by
    rw [hdevices] at hD
    exact h.device V D hD
  server R T hT := by
    rw [hservers] at hT
    split_ifs at hT with hR
    · obtain rfl := Option.some.inj hT
      rw [hR, htol]
      exact ⟨hready, (h.server R₀ S hS).2⟩
    · exact h.server R T hT
  paired V D R T hD hT := by
    rw [hdevices] at hD
    rw [hservers] at hT
    split_ifs at hT with hR
    · obtain rfl := Option.some.inj hT
      rw [hR]
      exact (h.paired V D R₀ S hD hS).congr rfl hcred
    · exact h.paired V D R T hD hT
  noDevice V R hV := by
    rw [hdevices] at hV
    by_cases hpair : V = V₀ ∧ R = R₀
    · obtain ⟨rfl, rfl⟩ := hpair
      exact hnone hV
    · rw [hrequests V R hpair]
      exact h.noDevice V R hV
  noServer V R hnone := by
    rw [hservers] at hnone
    split_ifs at hnone with hR
    rw [hresponses V R (fun hand => hR hand.2)]
    exact h.noServer V R hnone
  linked V D R T hD hT := by
    rw [hdevices] at hD
    rw [hservers] at hT
    rw [filterMap_append_event]
    by_cases hpair : V = V₀ ∧ R = R₀
    · obtain ⟨rfl, rfl⟩ := hpair
      rw [if_pos rfl] at hT
      obtain rfl := Option.some.inj hT
      rw [if_pos ⟨rfl, rfl⟩, linkBounds, htol]
      exact hlink D hD
    · rw [if_neg (fun hand => hpair ⟨hand.1.symm, hand.2.symm⟩), List.append_nil,
        hrequests V R hpair,
        hresponses V R hpair]
      split_ifs at hT with hR
      · -- the server deals with another device
        subst hR
        obtain rfl := Option.some.inj hT
        obtain ⟨sessions, a, hreached, hlinked⟩ := h.linked V D R S hD hS
        have hV : V ≠ V₀ := fun heq => hpair ⟨heq, rfl⟩
        rw [linkBounds, htol]
        exact ⟨sessions, a, hreached, hlinked.congr ⟨rfl, rfl, rfl, rfl, rfl, rfl⟩ (hsame V hV)⟩
      · exact h.linked V D R T hD hT

/-- Building a request keeps the invariant. -/
lemma Inv.send (h : Inv F N seen) {V R : String} {env : BuildEnv}
    (hfair : N.Fair F (.send V R env)) :
    Inv F (N.send V R env).2 (seen ++ (N.send V R env).1.toList) := by
  unfold LossyNetwork.send
  rcases hD : N.devices.get V with _ | D
  · rwa [Option.toList_none, List.append_nil]
  obtain ⟨hclock, hbits⟩ := h.device V D hD
  obtain ⟨hcoverage, hsmall⟩ := hfair
  have hsmall : D.nextEpoch R + F R < 2 ^ 64 := hsmall D hD
  have hepoch : D.requestEpoch env R = D.nextEpoch R := by
    rw [Device.requestEpoch, hclock, if_neg Bool.false_ne_true]
  dsimp only
  rcases hbuild : D.buildAuthRequest env R with ⟨e | data, D'⟩
  · obtain ⟨E, hE, rfl⟩ := Device.buildAuthRequest_error hbuild
    refine h.device_step hD (fun V' => Dict.get_set _ _ _ _) rfl rfl rfl
      (fun R' hR' => Device.sameFor_build hbuild hR') hE rfl (fun _ _ _ => rfl) (fun _ _ _ => rfl)
      (h.noServer V R) fun S hS => ?_
    obtain ⟨sessions, a, hreached, hlinked⟩ := h.linked V D R S hD hS
    -- a request that is not built is one to a server that the device has blocked
    have hbarred : a.barred = true := by
      rw [← hlinked.barred]
      by_contra hblocked
      have hnonneg : 0 ≤ D.requestEpoch env R := by
        rw [hepoch, hlinked.next]
        exact Int.natCast_nonneg _
      obtain ⟨data, D', hok⟩ :=
        Device.exists_buildAuthRequest (Bool.not_eq_true _ ▸ hblocked) hcoverage
        (h.paired V D R S hD hS).server_secret hbits ⟨hnonneg, by omega⟩
      rw [hbuild] at hok
      cases hok
    have hstep := hreached.step .send
    rw [LossyHandshake.observe, LossyHandshake.step_send_barred hbarred] at hstep
    exact ⟨sessions, a, hstep, hlinked.congr ⟨hE, rfl, rfl, rfl, rfl, rfl⟩ ⟨rfl, rfl, rfl⟩⟩
  · obtain ⟨lam, s, msg1, -, -, -, hcred, hbits', -, hlog, hclock', hpending, hnext⟩ :=
      Device.buildAuthRequest_ok hbuild
    refine h.device_step hD (fun V' => Dict.get_set _ _ _ _) rfl hclock' hbits'
      (fun R' hR' => Device.sameFor_build hbuild hR') hcred (by rw [hlog])
      (fun _ _ hpair => setQueue_of_ne _ _ hpair) (fun _ _ _ => rfl) (h.noServer V R)
      fun S hS => ?_
    obtain ⟨sessions, a, hreached, hlinked⟩ := h.linked V D R S hD hS
    have hpaired := h.paired V D R S hD hS
    have hunblocked : D.sessionLog.isBlocked R = false := by
      rcases hb : D.sessionLog.isBlocked R with _ | _
      · rfl
      · rw [Device.buildAuthRequest, hb, if_pos rfl] at hbuild
        cases hbuild
    have htol : D.nextEpoch R + S.tolerance < 2 ^ 64 := by
      rw [(h.server R S hS).2]
      exact hsmall
    obtain ⟨s, hlinked'⟩ := hlinked.send hpaired hclock hbuild htol
    have hstep := hreached.step .send
    rw [LossyHandshake.observe,
      LossyHandshake.step_send (hlinked.barred.symm.trans hunblocked)] at hstep
    refine ⟨sessions ++ [s], _, hstep, ?_⟩
    dsimp only
    rw [setQueue_self]
    exact hlinked'

/-- Losing a request keeps the invariant. -/
lemma Inv.loseRequest (h : Inv F N seen) (V R : String) :
    Inv F (N.loseRequest V R).2 (seen ++ (N.loseRequest V R).1.toList) := by
  unfold LossyNetwork.loseRequest
  rcases hqueue : N.requests V R with _ | ⟨data, rest⟩
  · rwa [Option.toList_none, List.append_nil]
  rcases hD : N.devices.get V with _ | D
  · rw [h.noDevice V R hD] at hqueue
    cases hqueue
  have hdevices : ∀ V', N.devices.get V' = if V' = V then some D else N.devices.get V' := by
    intro V'
    split_ifs with hV
    · rw [hV, hD]
    · rfl
  refine h.device_step hD hdevices rfl rfl rfl (fun R' _ => ⟨rfl, rfl, rfl, rfl, rfl, rfl⟩) rfl rfl
    (fun _ _ hpair => setQueue_of_ne _ _ hpair) (fun _ _ _ => rfl) (h.noServer V R) fun S hS => ?_
  obtain ⟨sessions, a, hreached, hlinked⟩ := h.linked V D R S hD hS
  rw [hqueue] at hlinked
  obtain ⟨n, numbers, hnumbers, -, -⟩ := hlinked.exists_of_requests
  have hstep := hreached.step .loseRequest
  rw [LossyHandshake.observe, LossyHandshake.step_loseRequest hnumbers] at hstep
  refine ⟨sessions, _, hstep, ?_⟩
  dsimp only
  rw [setQueue_self]
  exact hlinked.loseRequest hnumbers

/-- Losing a response keeps the invariant. -/
lemma Inv.loseResponse (h : Inv F N seen) (V R : String) :
    Inv F (N.loseResponse V R).2 (seen ++ (N.loseResponse V R).1.toList) := by
  unfold LossyNetwork.loseResponse
  rcases hqueue : N.responses V R with _ | ⟨data, rest⟩
  · rwa [Option.toList_none, List.append_nil]
  rcases hS : N.servers.get R with _ | S
  · rw [h.noServer V R hS] at hqueue
    cases hqueue
  have hservers : ∀ R', N.servers.get R' = if R' = R then some S else N.servers.get R' := by
    intro R'
    split_ifs with hR
    · rw [hR, hS]
    · rfl
  refine h.server_step hS hservers rfl (h.server R S hS).1 (fun V' _ => ⟨rfl, rfl, rfl⟩) rfl rfl
    (fun _ _ _ => rfl) (fun _ _ hpair => setQueue_of_ne _ _ hpair) (h.noDevice V R) fun D hD => ?_
  obtain ⟨sessions, a, hreached, hlinked⟩ := h.linked V D R S hD hS
  rw [hqueue] at hlinked
  obtain ⟨n, key, answers, hanswers, -, -⟩ := hlinked.exists_of_responses
  have hstep := hreached.step .loseAnswer
  rw [LossyHandshake.observe, LossyHandshake.step_loseAnswer hanswers] at hstep
  refine ⟨sessions, _, hstep, ?_⟩
  dsimp only
  rw [setQueue_self]
  exact hlinked.loseResponse hanswers

/-- Delivering a request keeps the invariant. -/
lemma Inv.deliverRequest (h : Inv F N seen) {V R : String} {env : ServerEnv}
    (hcoverage : env.coverage V = true) :
    Inv F (N.deliverRequest V R env).2 (seen ++ (N.deliverRequest V R env).1.toList) := by
  unfold LossyNetwork.deliverRequest
  rcases hqueue : N.requests V R with _ | ⟨data, rest⟩
  · rwa [Option.toList_none, List.append_nil]
  rcases hS : N.servers.get R with _ | S
  · rwa [Option.toList_none, List.append_nil]
  rcases hD : N.devices.get V with _ | D
  · rw [h.noDevice V R hD] at hqueue
    cases hqueue
  obtain ⟨sessions, a, hreached, hlinked⟩ := h.linked V D R S hD hS
  rw [hqueue] at hlinked
  have hnoDevice : N.devices.get V ≠ none := by
    rw [hD]
    exact Option.some_ne_none D
  dsimp only
  rcases hlinked.deliverRequest (h.paired V D R S hD hS) (h.server R S hS).1 hcoverage with
    ⟨result, S', hstep, hready, hsame, hcred, htol, hout, hnext⟩ |
    ⟨e, S', hstep, hready, hsame, hout, hnext⟩
  · rw [hstep]
    refine h.server_step hS (fun R' => Dict.get_set _ _ _ _) rfl hready hsame hcred htol
      (fun _ _ hpair => setQueue_of_ne _ _ hpair) (fun _ _ hpair => setQueue_of_ne _ _ hpair)
      (fun hnone => absurd hnone hnoDevice) fun D' hD' => ?_
    obtain rfl := Option.some.inj (hD.symm.trans hD')
    have hreached' := hreached.step (.deliverRequest result.sessionKey)
    rw [LossyHandshake.observe, hout] at hreached'
    refine ⟨sessions, _, hreached', ?_⟩
    dsimp only
    rw [setQueue_self, setQueue_self]
    exact hnext
  · rw [hstep]
    refine h.server_step hS (fun R' => Dict.get_set _ _ _ _) rfl hready (fun V' _ => hsame V')
      (hsame V).credential (hsame V).tolerance (fun _ _ hpair => setQueue_of_ne _ _ hpair)
      (fun _ _ _ => rfl) (fun hnone => absurd hnone hnoDevice) fun D' hD' => ?_
    obtain rfl := Option.some.inj (hD.symm.trans hD')
    have hreached' := hreached.step (.deliverRequest [])
    rw [LossyHandshake.observe, hout] at hreached'
    refine ⟨sessions, _, hreached', ?_⟩
    dsimp only
    rw [setQueue_self]
    exact hnext

/-- Delivering a response keeps the invariant. -/
lemma Inv.deliverResponse (h : Inv F N seen) (V R : String) (monotonic : ℚ) :
    Inv F (N.deliverResponse V R monotonic).2
      (seen ++ (N.deliverResponse V R monotonic).1.toList) := by
  unfold LossyNetwork.deliverResponse
  rcases hqueue : N.responses V R with _ | ⟨data, rest⟩
  · rwa [Option.toList_none, List.append_nil]
  rcases hD : N.devices.get V with _ | D
  · rwa [Option.toList_none, List.append_nil]
  rcases hS : N.servers.get R with _ | S
  · rw [h.noServer V R hS] at hqueue
    cases hqueue
  obtain ⟨sessions, a, hreached, hlinked⟩ := h.linked V D R S hD hS
  rw [hqueue] at hlinked
  have hnoServer : N.servers.get R ≠ none := by
    rw [hS]
    exact Option.some_ne_none S
  obtain ⟨inTime, D', hD', hnext, hout⟩ := hlinked.deliverResponse hreached.inv.waiting monotonic
  obtain ⟨hclock, hbits, hcred, hmax, hsame⟩ : D'.epochClock = D.epochClock ∧
      D'.nonceBits = D.nonceBits ∧ D'.credential = D.credential ∧
      D'.sessionLog.maxAttempts = D.sessionLog.maxAttempts ∧ ∀ R', R' ≠ R → D.SameFor D' R' := by
    rcases hD' with rfl | rfl | rfl
    · exact ⟨rfl, rfl, rfl, rfl, fun _ _ => ⟨rfl, rfl, rfl, rfl, rfl, rfl⟩⟩
    · exact ⟨rfl, rfl, rfl, SessionLog.recordFailure_frame.2.1, fun _ => D.sameFor_failed⟩
    · exact ⟨rfl, rfl, rfl, rfl, fun _ => D.sameFor_succeeded⟩
  have hreached' := hreached.step (.deliverAnswer inTime)
  rw [LossyHandshake.observe] at hreached'
  dsimp only
  rcases hout with ⟨key, hstep, hout⟩ | ⟨e, hstep, hout⟩
  · rw [hstep]
    rw [hout] at hreached'
    refine h.device_step hD (fun V' => Dict.get_set _ _ _ _) rfl hclock hbits hsame hcred hmax
      (fun _ _ _ => rfl) (fun _ _ hpair => setQueue_of_ne _ _ hpair)
      (fun hnone => absurd hnone hnoServer) fun S' hS' => ?_
    obtain rfl := Option.some.inj (hS.symm.trans hS')
    refine ⟨sessions, _, hreached', ?_⟩
    dsimp only
    rw [setQueue_self]
    exact hnext
  · rw [hstep]
    rw [hout] at hreached'
    refine h.device_step hD (fun V' => Dict.get_set _ _ _ _) rfl hclock hbits hsame hcred hmax
      (fun _ _ _ => rfl) (fun _ _ hpair => setQueue_of_ne _ _ hpair)
      (fun hnone => absurd hnone hnoServer) fun S' hS' => ?_
    obtain rfl := Option.some.inj (hS.symm.trans hS')
    refine ⟨sessions, _, hreached', ?_⟩
    dsimp only
    rw [setQueue_self]
    exact hnext

/-- Every step keeps the invariant. -/
theorem Inv.step (h : Inv F N seen) {a : LinkAction} (hfair : N.Fair F a) :
    Inv F (N.step a).2 (seen ++ (N.observe a).toList) := by
  unfold observe
  cases a with
  | send V R env => exact h.send hfair
  | loseRequest V R => exact h.loseRequest V R
  | deliverRequest V R env => exact h.deliverRequest hfair
  | loseResponse V R => exact h.loseResponse V R
  | deliverResponse V R monotonic => exact h.deliverResponse V R monotonic

/-- Every run keeps the invariant. -/
theorem Inv.final (h : Inv F N []) {actions : List LinkAction}
    (hfair : Machine.AllSteps LossyNetwork.step (Fair F) N actions) :
    Inv F (Machine.final LossyNetwork.step N actions)
      (Machine.events observe LossyNetwork.step N actions) := by
  have hstep : ∀ (seen : List LinkEvent) (N : LossyNetwork C) a, flip (Inv F) seen N → Fair F N a →
      flip (Inv F) (seen ++ (N.observe a).toList) (N.step a).2 := fun _ _ _ hinv hfair =>
      hinv.step hfair
  exact Machine.invariant_events hstep h hfair

/-! ## Provisioned networks -/

/-- A network before its first action: devices with counter epochs, and servers with a linear scan
or a counter table, over provisioned credentials, fresh logs and empty queues. -/
structure Initial (creds : List (Credential Lam Bytes)) (F : String → ℕ) (N : LossyNetwork C) :
    Prop where
  device : ∀ V D, N.devices.get V = some D → ∃ cred ∈ creds, cred.identity = V ∧
    ∃ nonceBits ∈ supportedNonceBits, ∃ timeout maxAttempts,
      Device.create cred nonceBits timeout maxAttempts false = .ok D
  server : ∀ R S, N.servers.get R = some S → ∃ cred ∈ creds, cred.identity = R ∧
    ∃ nonceBits ∈ supportedNonceBits, ∃ maxAttempts tolerance lookback r reading,
      r.Separates ∧ r.tolerance (SessionLog.create maxAttempts tolerance lookback) = F R ∧
      Server.create cred nonceBits (SessionLog.create maxAttempts tolerance lookback) r
      reading = .ok S
  window : ∀ R, F R ≤ 2 ^ 64
  requests : ∀ V R, N.requests V R = []
  responses : ∀ V R, N.responses V R = []

/-- A network over a provisioned manifest satisfies the invariant. -/
theorem Initial.inv {scalarToPublicPoint : Lam → Bytes} {masterSecret : Bytes}
    {manifest : List ManifestEntry} {creds : List (Credential Lam Bytes)}
    (hprov : TrustedAuthority.provision (taPrimitives C scalarToPublicPoint) masterSecret manifest =
      .ok creds) (hinj : ∀ cred ∈ creds, PseudonymsInjective C cred.peerSecrets)
    (h : N.Initial creds F) : Inv F N [] := by
  have hdevice : ∀ V D, N.devices.get V = some D → D.credential ∈ creds ∧
      D.credential.identity = V ∧ D.credential.role = .device ∧ D.nonceBits ∈ supportedNonceBits ∧
      D.epochClock = false ∧ D.epoch = .empty ∧ D.pending = .empty ∧ D.sessionLog.blocked = ∅ ∧
      D.sessionLog.failedAttempts = .empty := by
    intro V D hD
    obtain ⟨cred, hcred, hid, nonceBits, hbits, timeout, maxAttempts, hcreate⟩ := h.device V D hD
    unfold Device.create at hcreate
    split_ifs at hcreate with hrole
    cases hcreate
    exact ⟨hcred, hid, not_not.mp hrole, hbits, rfl, rfl, rfl, rfl, rfl⟩
  have hserver : ∀ R S, N.servers.get R = some S → S.credential ∈ creds ∧
    S.credential.role = .server ∧
      S.Ready R ∧ S.tolerance = F R ∧ ∀ p, S.sessionLog.last p = -1 := by
    intro R S hS
    obtain ⟨cred, hcred, rfl, nonceBits, hbits, maxAttempts, tolerance, lookback, r,
      reading, hr, htol,
      hcreate⟩ := h.server R S hS
    obtain ⟨hready, rfl, hrole, htolerance, hlog⟩ :=
      Server.ready_create hbits (hinj cred hcred) hr htol (h.window _) hcreate
    refine ⟨hcred, hrole, hready, htolerance, fun p => ?_⟩
    rw [hlog]
    rfl
  have hpaired : ∀ V D R S, N.devices.get V = some D → N.servers.get R = some S →
      Paired D V S R := by
    intro V D R S hD hS
    obtain ⟨hDc, hDid, hDrole, -⟩ := hdevice V D hD
    obtain ⟨hSc, hSrole, hready, -⟩ := hserver R S hS
    rw [← hDid, ← hready.identity]
    exact Paired.of_provision hprov hDc hSc hDrole hSrole
  refine ⟨fun V D hD => ?_, fun R S hS => ?_, hpaired, fun V R _ => h.requests V R,
    fun V R _ => h.responses V R, fun V D R S hD hS => ⟨[], {}, LossyHandshake.reached_init _, ?_⟩⟩
  · obtain ⟨-, -, -, hbits, hclock, -⟩ := hdevice V D hD
    exact ⟨hclock, hbits⟩
  · obtain ⟨-, -, hready, htol, -⟩ := hserver R S hS
    exact ⟨hready, htol⟩
  · obtain ⟨-, -, -, -, -, hepoch, hpending, hblocked, hfailed⟩ := hdevice V D hD
    obtain ⟨-, -, -, htol, hlast⟩ := hserver R S hS
    refine ⟨?_, ?_, ?_, ?_, ?_, rfl, fun n s hs => absurd hs (by simp), ?_, fun _ => ?_, ?_⟩
    · rw [Device.nextEpoch, hepoch]
      rfl
    · rw [hlast]
      rfl
    · rw [h.requests]
      exact List.Forall₂.nil
    · rw [h.responses]
      exact List.Forall₂.nil
    · rw [hpending]
      rfl
    · rw [SessionLog.isBlocked, hblocked]
      rfl
    · rw [SessionLog.failures, hfailed]
      rfl
    · rw [htol]
      exact (Nat.zero_add _).le.trans (h.window R)

/-! ## Runs of provisioned networks -/

/-- A device builds a request. -/
lemma step_send {V R : String} {D D' : Device C} {env : BuildEnv} {data : Bytes}
    (hD : N.devices.get V = some D) (hbuild : D.buildAuthRequest env R = (.ok data, D')) :
    N.step (.send V R env) = (some ⟨V, R, .sent⟩, { N with
      devices := N.devices.set V D'
      requests := setQueue N.requests V R (N.requests V R ++ [data]) }) := by
  rw [LossyNetwork.step, LossyNetwork.send, hD]
  dsimp only
  rw [hbuild]

/-- A server accepts the request that arrives next. -/
lemma step_accepted {V R : String} {S S' : Server C} {env : ServerEnv} {data : Bytes}
    {rest : List Bytes} {result : AuthResult} (hqueue : N.requests V R = data :: rest)
    (hS : N.servers.get R = some S) (hserve : S.handleAuthRequest env data = (.ok result, S')) :
    N.step (.deliverRequest V R env) = (some ⟨V, R, .accepted result.sessionKey⟩, { N with
      servers := N.servers.set R S'
      requests := setQueue N.requests V R rest
      responses := setQueue N.responses V R (N.responses V R ++ [result.responseBytes]) }) := by
  rw [LossyNetwork.step, LossyNetwork.deliverRequest, hqueue, hS]
  dsimp only
  rw [hserve]

/-- A device completes a handshake with the response that arrives next. -/
lemma step_completed {V R : String} {D D' : Device C} {monotonic : ℚ} {data key : Bytes}
    {rest : List Bytes} (hqueue : N.responses V R = data :: rest) (hD : N.devices.get V = some D)
    (hcomplete : D.completeAuth monotonic data = (.ok key, D')) :
    N.step (.deliverResponse V R monotonic) = (some ⟨V, R, .completed key⟩, { N with
      devices := N.devices.set V D'
      responses := setQueue N.responses V R rest }) := by
  rw [LossyNetwork.step, LossyNetwork.deliverResponse, hqueue, hD]
  dsimp only
  rw [hcomplete]

/-- What is seen of a pair at one of its steps, and then. -/
lemma seenOf_cons {V R : String} {a : LinkAction} {o : LossyHandshake.Output Bytes}
    (h : N.step a = (some ⟨V, R, o⟩, N')) (actions : List LinkAction) :
    seenOf V R N (a :: actions) = o :: seenOf V R N' actions := by
  have hpair : LinkEvent.ofPair V R ⟨V, R, o⟩ = some o := if_pos ⟨rfl, rfl⟩
  rw [seenOf, Machine.events, observe, h, Option.toList_some, List.singleton_append,
    List.filterMap_cons_some hpair]
  rfl

/-- Devices and servers stay. -/
lemma get_step (N : LossyNetwork C) (a : LinkAction) (p : String) :
    (N.devices.get p ≠ none → (N.step a).2.devices.get p ≠ none) ∧
      (N.servers.get p ≠ none → (N.step a).2.servers.get p ≠ none) := by
  have hdevice : ∀ V (D : Device C), N.devices.get p ≠ none → (N.devices.set V D).get p ≠ none := by
    intro V D hp
    rw [Dict.get_set]
    split_ifs
    · exact Option.some_ne_none D
    · exact hp
  have hserver : ∀ R (S : Server C), N.servers.get p ≠ none → (N.servers.set R S).get p ≠ none := by
    intro R S hp
    rw [Dict.get_set]
    split_ifs
    · exact Option.some_ne_none S
    · exact hp
  cases a with
  | send V R env =>
    dsimp only [LossyNetwork.step, LossyNetwork.send]
    rcases N.devices.get V with _ | D
    · exact ⟨id, id⟩
    · dsimp only
      rcases D.buildAuthRequest env R with ⟨e | data, D'⟩ <;> exact ⟨hdevice V D', id⟩
  | loseRequest V R =>
    dsimp only [LossyNetwork.step, LossyNetwork.loseRequest]
    rcases N.requests V R with _ | ⟨data, rest⟩ <;> exact ⟨id, id⟩
  | deliverRequest V R env =>
    dsimp only [LossyNetwork.step, LossyNetwork.deliverRequest]
    rcases N.requests V R with _ | ⟨data, rest⟩
    · exact ⟨id, id⟩
    · rcases N.servers.get R with _ | S
      · exact ⟨id, id⟩
      · dsimp only
        rcases S.handleAuthRequest env data with ⟨e | result, S'⟩ <;> exact ⟨id, hserver R S'⟩
  | loseResponse V R =>
    dsimp only [LossyNetwork.step, LossyNetwork.loseResponse]
    rcases N.responses V R with _ | ⟨data, rest⟩ <;> exact ⟨id, id⟩
  | deliverResponse V R monotonic =>
    dsimp only [LossyNetwork.step, LossyNetwork.deliverResponse]
    rcases N.responses V R with _ | ⟨data, rest⟩
    · exact ⟨id, id⟩
    · rcases N.devices.get V with _ | D
      · exact ⟨id, id⟩
      · dsimp only
        rcases D.completeAuth monotonic data with ⟨e | key, D'⟩ <;> exact ⟨hdevice V D', id⟩

/-- Devices and servers stay along a run. -/
lemma get_final (actions : List LinkAction) (p : String) :
    (N.devices.get p ≠ none → (Machine.final LossyNetwork.step N actions).devices.get p ≠ none) ∧
      (N.servers.get p ≠ none →
        (Machine.final LossyNetwork.step N actions).servers.get p ≠ none) := by
  induction actions generalizing N with
  | nil => exact ⟨id, id⟩
  | cons a actions ih =>
    obtain ⟨hdevice, hserver⟩ := N.get_step a p
    exact ⟨fun hp => (ih (N := (N.step a).2)).1 (hdevice hp),
      fun hp => (ih (N := (N.step a).2)).2 (hserver hp)⟩

/-- What is seen of a pair in two parts of a run. -/
lemma seenOf_append (V R : String) (N : LossyNetwork C) (actions more : List LinkAction) :
    seenOf V R N (actions ++ more) =
      seenOf V R N actions ++ seenOf V R (Machine.final LossyNetwork.step N actions) more := by
  rw [seenOf, Machine.events_append, List.filterMap_append]
  rfl

/-- A request that is delivered is accepted if fewer requests than the server looks ahead were lost
since it last accepted one, and rejected otherwise. -/
lemma Inv.observe_deliverRequest (h : Inv F N seen) {V R : String} (hR : N.servers.get R ≠ none)
    (hqueue : N.requests V R ≠ []) {env : ServerEnv} (hcoverage : env.coverage V = true) :
    (LossyHandshake.lostSince (seen.filterMap (LinkEvent.ofPair V R)) < F R →
      ∃ key, N.observe (.deliverRequest V R env) = some ⟨V, R, .accepted key⟩) ∧
    (F R ≤ LossyHandshake.lostSince (seen.filterMap (LinkEvent.ofPair V R)) →
      N.observe (.deliverRequest V R env) = some ⟨V, R, .rejected⟩) := by
  obtain ⟨S, hS⟩ := Option.ne_none_iff_exists'.mp hR
  rcases hD : N.devices.get V with _ | D
  · exact absurd (h.noDevice V R hD) hqueue
  obtain ⟨data, rest, hdata⟩ := List.exists_cons_of_ne_nil hqueue
  obtain ⟨sessions, a, hreached, hlinked⟩ := h.linked V D R S hD hS
  rw [hdata] at hlinked
  have hbound : (linkBounds D S).window = F R := (h.server R S hS).2
  rw [observe, LossyNetwork.step, LossyNetwork.deliverRequest, hdata, hS]
  dsimp only
  rcases hlinked.deliverRequest (h.paired V D R S hD hS) (h.server R S hS).1 hcoverage with
    ⟨result, S', hstep, -, -, -, -, hout, -⟩ | ⟨e, S', hstep, -, -, hout, -⟩
  · rw [hstep]
    have hlt := (hreached.lost_of_observe hout).1 (Option.some_ne_none result.sessionKey)
    rw [hbound] at hlt
    exact ⟨fun _ => ⟨result.sessionKey, rfl⟩, fun hge => absurd hlt (not_lt.mpr hge)⟩
  · rw [hstep]
    have hge := (hreached.lost_of_observe hout).2 rfl
    rw [hbound] at hge
    exact ⟨fun hlt => absurd hge (not_le.mpr hlt), fun _ => rfl⟩

/-- A device that has not blocked a server builds requests for it, one for each epoch. -/
lemma Inv.exists_build (h : Inv F N seen) {V R : String} {D : Device C}
    (hD : N.devices.get V = some D) (hR : N.servers.get R ≠ none)
    (hunblocked : D.sessionLog.isBlocked R = false) {env : BuildEnv}
    (hcoverage : env.coverage R = true) (hsmall : D.nextEpoch R < 2 ^ 64) :
    ∃ data D', D.buildAuthRequest env R = (.ok data, D') ∧ D'.sessionLog = D.sessionLog ∧
      D'.nextEpoch R = D.nextEpoch R + 1 := by
  obtain ⟨S, hS⟩ := Option.ne_none_iff_exists'.mp hR
  obtain ⟨hclock, hbits⟩ := h.device V D hD
  have hpaired := h.paired V D R S hD hS
  obtain ⟨sessions, a, -, hlinked⟩ := h.linked V D R S hD hS
  have hepoch : D.requestEpoch env R = D.nextEpoch R := by
    rw [Device.requestEpoch, hclock, if_neg Bool.false_ne_true]
  have hnext := hlinked.next
  obtain ⟨data, D', hbuild⟩ := Device.exists_buildAuthRequest hunblocked hcoverage
    hpaired.server_secret hbits (by omega)
  obtain ⟨-, -, -, -, -, -, -, -, -, hlog, -⟩ := Device.buildAuthRequest_ok hbuild
  exact ⟨data, D', hbuild, hlog, Device.nextEpoch_of_build hbuild hclock⟩

/-- While a device has not blocked a server, nothing is in flight between them and the server did
not miss too many requests, a request of the device is accepted, and the response to it, when it
arrives in time, completes it with the key of the server. -/
lemma Inv.completes_round {seen : List LinkEvent} (hinv : Inv F N seen) {V R : String}
    {D : Device C}
    {S : Server C} (hD : N.devices.get V = some D) (hS : N.servers.get R = some S)
    (hunblocked : D.sessionLog.isBlocked R = false) (hrequests : N.requests V R = [])
    (hresponses : N.responses V R = [])
    (hlost : LossyHandshake.lostSince (seen.filterMap (LinkEvent.ofPair V R)) < F R)
    {env : BuildEnv} {serverEnv : ServerEnv} {monotonic : ℚ} (hcoverage : env.coverage R = true)
    (hcoverage' : serverEnv.coverage V = true) (hsmall : D.nextEpoch R + F R < 2 ^ 64)
    (htime : monotonic - env.monotonic ≤ D.sessionTimeout) :
    ∃ key, seenOf V R N [.send V R env, .deliverRequest V R serverEnv,
      .deliverResponse V R monotonic] = [.sent, .accepted key, .completed key] := by
  obtain ⟨sessions, a, hreached, hlinked⟩ := hinv.linked V D R S hD hS
  have hpaired := hinv.paired V D R S hD hS
  obtain ⟨hready, htolerance⟩ := hinv.server R S hS
  obtain ⟨hclock, hbits⟩ := hinv.device V D hD
  -- nothing in flight was rejected, so that the next number lies in the window
  have hwindow : a.floor ≤ a.next ∧ a.next < a.floor + F R := by
    obtain ⟨r, -, hnext, hrejected⟩ := hreached.inv.numbers
    have hempty := hlinked.requests
    rw [hrequests, List.forall₂_nil_left_iff] at hempty
    have hbound : (linkBounds D S).window = F R := htolerance
    rw [hempty, List.length_nil] at hnext
    rw [hbound] at hrejected
    omega
  have hepoch : D.requestEpoch env R = a.next := by
    rw [Device.requestEpoch, hclock, if_neg Bool.false_ne_true, hlinked.next]
  obtain ⟨data, D', hbuild⟩ := Device.exists_buildAuthRequest hunblocked hcoverage
    hpaired.server_secret hbits (by have hnext := hlinked.next; omega)
  obtain ⟨s, hpending, hpeer, hse, hcreated, -, -, hroot, -⟩ := hpaired.session_of_build hbuild
  obtain ⟨result, S', hstep, hresp, -⟩ := hready.accepts hpaired hbuild hpending hcoverage'
    (by have hfloor := hlinked.floor; omega) (by have hfloor := hlinked.floor; omega)
    (by have hnext := hlinked.next; omega)
  have hlength : s.kStar.length = keyLen := by
    rw [hroot]
    exact Credential.length_pairwiseRoot C _ _
  obtain ⟨-, -, -, -, -, -, -, -, htimeout, -⟩ := Device.buildAuthRequest_ok hbuild
  have hcomplete := Device.completeAuth_answer hlength hresp hpending hpeer
    (show ¬ D'.sessionTimeout < monotonic - s.createdAt by
      rw [htimeout, hcreated]
      exact not_lt.mpr htime)
  have hsend := step_send hD hbuild
  rw [hrequests, List.nil_append] at hsend
  let N₁ : LossyNetwork C := { N with
    devices := N.devices.set V D'
    requests := setQueue N.requests V R [data] }
  have hserve := step_accepted (N := N₁) (setQueue_self _ _ _ _) hS hstep
  rw [hresponses, List.nil_append] at hserve
  have hqueue : (N₁.step (.deliverRequest V R serverEnv)).2.responses V R =
      [result.responseBytes] := by
    rw [hserve]
    exact setQueue_self _ _ _ _
  have hdevice : (N₁.step (.deliverRequest V R serverEnv)).2.devices.get V = some D' := by
    rw [hserve]
    exact Dict.get_set_self _ _ _
  have hreceive := step_completed hqueue hdevice hcomplete
  rw [hserve] at hreceive
  refine ⟨result.sessionKey, ?_⟩
  rw [seenOf_cons hsend, seenOf_cons hserve, seenOf_cons hreceive]
  rfl

/-- What a run keeps for a device and a server: the history of their handshake, and the states that
correspond. -/
lemma Inv.exists_linked (h : Inv F N []) {actions : List LinkAction} {V R : String}
    (hfair : Machine.AllSteps LossyNetwork.step (Fair F) N actions)
    (hV : N.devices.get V ≠ none) (hR : N.servers.get R ≠ none) :
    ∃ D S sessions a,
      (Machine.final LossyNetwork.step N actions).devices.get V = some D ∧
      (Machine.final LossyNetwork.step N actions).servers.get R = some S ∧ S.tolerance = F R ∧
      Reached (linkBounds D S) (seenOf V R N actions) a ∧
      Linked D V S R ((Machine.final LossyNetwork.step N actions).requests V R)
        ((Machine.final LossyNetwork.step N actions).responses V R) sessions a := by
  have hinv := h.final hfair
  obtain ⟨D, hD⟩ := Option.ne_none_iff_exists'.mp ((get_final actions V).1 hV)
  obtain ⟨S, hS⟩ := Option.ne_none_iff_exists'.mp ((get_final actions R).2 hR)
  obtain ⟨sessions, a, hreached, hlinked⟩ := hinv.linked V D R S hD hS
  exact ⟨D, S, sessions, a, hD, hS, (hinv.server R S hS).2, hreached, hlinked⟩

/-- Nothing of a device is accepted any more by a server that missed as many of its requests in a
row as it looks ahead. -/
lemma Inv.not_accepted (h : Inv F N []) {actions more : List LinkAction} {V R : String}
    (hfair : Machine.AllSteps LossyNetwork.step (Fair F) N actions)
    (hV : N.devices.get V ≠ none) (hR : N.servers.get R ≠ none)
    (hlost : F R ≤ LossyHandshake.lostSince (seenOf V R N actions))
    (hmore : Machine.AllSteps LossyNetwork.step (Fair F)
      (Machine.final LossyNetwork.step N actions) more) :
    ∀ o ∈ seenOf V R (Machine.final LossyNetwork.step N actions) more, o.acceptedKey = none := by
  obtain ⟨D, S, sessions, a, -, -, htol, hreached, -⟩ :=
    h.exists_linked (Machine.allSteps_append.mpr ⟨hfair, hmore⟩) hV hR
  rw [seenOf_append] at hreached
  apply hreached.not_accepted
  rw [linkBounds, htol]
  exact hlost

section Provisioned

variable {scalarToPublicPoint : Lam → Bytes} {masterSecret : Bytes} {manifest : List ManifestEntry}
  {creds : List (Credential Lam Bytes)} {V R : String} {actions : List LinkAction}

/-- In every fair run of a provisioned network, what is seen of a device and a server is a history
of their handshake, and the states correspond, whatever the other pairs do meanwhile. -/
theorem refines
    (hprov : TrustedAuthority.provision (taPrimitives C scalarToPublicPoint) masterSecret
      manifest = .ok creds) (hinj : ∀ cred ∈ creds, PseudonymsInjective C cred.peerSecrets)
    (hinit : N.Initial creds F)
    (hfair : Machine.AllSteps LossyNetwork.step (Fair F) N actions)
    (hV : N.devices.get V ≠ none) (hR : N.servers.get R ≠ none) :
    ∃ D S sessions a,
      (Machine.final LossyNetwork.step N actions).devices.get V = some D ∧
      (Machine.final LossyNetwork.step N actions).servers.get R = some S ∧ S.tolerance = F R ∧
      Reached (linkBounds D S) (seenOf V R N actions) a ∧
      Linked D V S R ((Machine.final LossyNetwork.step N actions).requests V R)
        ((Machine.final LossyNetwork.step N actions).responses V R) sessions a := by
  exact (hinit.inv hprov hinj).exists_linked hfair hV hR

/-- In every fair run, a request that reaches its server next is accepted if fewer requests of the
pair than the server looks ahead were lost since it last accepted one, and rejected otherwise. -/
theorem delivered
    (hprov : TrustedAuthority.provision (taPrimitives C scalarToPublicPoint) masterSecret
      manifest = .ok creds) (hinj : ∀ cred ∈ creds, PseudonymsInjective C cred.peerSecrets)
    (hinit : N.Initial creds F)
    (hfair : Machine.AllSteps LossyNetwork.step (Fair F) N actions) (hR : N.servers.get R ≠ none)
    (hqueue : (Machine.final LossyNetwork.step N actions).requests V R ≠ []) {env : ServerEnv}
    (hcoverage : env.coverage V = true) :
    (LossyHandshake.lostSince (seenOf V R N actions) < F R →
      ∃ key, (Machine.final LossyNetwork.step N actions).observe (.deliverRequest V R env) =
        some ⟨V, R, .accepted key⟩) ∧
    (F R ≤ LossyHandshake.lostSince (seenOf V R N actions) →
      (Machine.final LossyNetwork.step N actions).observe (.deliverRequest V R env) =
        some ⟨V, R, .rejected⟩) := by
  exact ((hinit.inv hprov hinj).final hfair).observe_deliverRequest ((get_final actions R).2 hR)
    hqueue hcoverage

/-- Once a server missed as many requests of a device in a row as it looks ahead, it accepts none of
them any more in any fair run, whatever the device sends. -/
theorem locked_out
    (hprov : TrustedAuthority.provision (taPrimitives C scalarToPublicPoint) masterSecret
      manifest = .ok creds) (hinj : ∀ cred ∈ creds, PseudonymsInjective C cred.peerSecrets)
    (hinit : N.Initial creds F)
    (hfair : Machine.AllSteps LossyNetwork.step (Fair F) N actions)
    (hV : N.devices.get V ≠ none) (hR : N.servers.get R ≠ none)
    (hlost : F R ≤ LossyHandshake.lostSince (seenOf V R N actions)) {more : List LinkAction}
    (hmore : Machine.AllSteps LossyNetwork.step (Fair F)
      (Machine.final LossyNetwork.step N actions) more) :
    ∀ o ∈ seenOf V R (Machine.final LossyNetwork.step N actions) more, o.acceptedKey = none := by
  exact (hinit.inv hprov hinj).not_accepted hfair hV hR hlost hmore

/-- In every fair run, the keys that a device returns for a server are keys that this server
returned for the device, in the same order and each at most once. -/
theorem completed_sublist (hprov : TrustedAuthority.provision (taPrimitives C scalarToPublicPoint)
      masterSecret manifest = .ok creds)
    (hinj : ∀ cred ∈ creds, PseudonymsInjective C cred.peerSecrets) (hinit : N.Initial creds F)
    (hfair : Machine.AllSteps LossyNetwork.step (Fair F) N actions)
    (hV : N.devices.get V ≠ none) (hR : N.servers.get R ≠ none) :
    ((seenOf V R N actions).filterMap LossyHandshake.Output.completedKey).Sublist
      ((seenOf V R N actions).filterMap LossyHandshake.Output.acceptedKey) := by
  obtain ⟨D, S, sessions, a, -, -, -, hreached, -⟩ :=
    (hinit.inv hprov hinj).exists_linked hfair hV hR
  exact hreached.completed_keys_sublist

/-- From every state that a fair run reaches, while the device has not blocked the server, nothing
is in flight between them and the server did not miss too many requests, a request that the device
sends is accepted, and the response to it, when it arrives in time, completes it with the key of the
server. -/
theorem round_completes (hprov : TrustedAuthority.provision (taPrimitives C scalarToPublicPoint)
      masterSecret manifest = .ok creds)
    (hinj : ∀ cred ∈ creds, PseudonymsInjective C cred.peerSecrets) (hinit : N.Initial creds F)
    (hfair : Machine.AllSteps LossyNetwork.step (Fair F) N actions) (hR : N.servers.get R ≠ none)
    {D : Device C} (hD : (Machine.final LossyNetwork.step N actions).devices.get V = some D)
    (hunblocked : D.sessionLog.isBlocked R = false)
    (hrequests : (Machine.final LossyNetwork.step N actions).requests V R = [])
    (hresponses : (Machine.final LossyNetwork.step N actions).responses V R = [])
    (hlost : LossyHandshake.lostSince (seenOf V R N actions) < F R) {env : BuildEnv}
    {serverEnv : ServerEnv} {monotonic : ℚ} (hcoverage : env.coverage R = true)
    (hcoverage' : serverEnv.coverage V = true) (hsmall : D.nextEpoch R + F R < 2 ^ 64)
    (htime : monotonic - env.monotonic ≤ D.sessionTimeout) :
    ∃ key, seenOf V R N (actions ++ [.send V R env, .deliverRequest V R serverEnv,
        .deliverResponse V R monotonic]) =
      seenOf V R N actions ++ [.sent, .accepted key, .completed key] := by
  have hinv := (hinit.inv hprov hinj).final hfair
  obtain ⟨S, hS⟩ := Option.ne_none_iff_exists'.mp ((get_final actions R).2 hR)
  obtain ⟨key, hkey⟩ := hinv.completes_round hD hS hunblocked hrequests hresponses hlost hcoverage
    hcoverage' hsmall htime
  exact ⟨key, by rw [seenOf_append, hkey]⟩

end Provisioned

/-! ## A sample network -/

/-- A manifest of a device and a server. -/
def onePair : List ManifestEntry :=
  [⟨some "device-1", some "device", false⟩, ⟨some "server-A", some "server", false⟩]

/-- The surroundings in which the device builds its requests. -/
def pairEnv : BuildEnv := ⟨fun _ => true, 0, .zeros, .zeros, 0⟩

/-- The credentials that this manifest yields under the plain suite. -/
lemma exists_provision_onePair : ∃ V R : Credential Lam Bytes,
    TrustedAuthority.provision (taPrimitives .plain fun _ => []) [] onePair = .ok [V, R] ∧
      (V.identity = "device-1" ∧ V.role = .device) ∧ (R.identity = "server-A" ∧ R.role = .server) ∧
      ∀ cred ∈ [V, R], PseudonymsInjective .plain cred.peerSecrets := by
  obtain ⟨V, R, hissued, ⟨hV, hVrole⟩, hR, hRrole⟩ : ∃ V R, TrustedAuthority.provision
      (taPrimitives .plain fun _ => []) [] onePair = .ok [V, R] ∧
        (V.identity = "device-1" ∧ V.role = .device) ∧ R.identity = "server-A" ∧ R.role = .server :=
    ⟨_, _, rfl, ⟨rfl, rfl⟩, rfl, rfl⟩
  refine ⟨V, R, hissued, ⟨hV, hVrole⟩, ⟨hR, hRrole⟩, fun cred hcred => ?_⟩
  -- each of the two has one peer only
  apply pseudonymsInjective_plain
  intro p p' lam lam' hlam hlam' _
  rw [((TrustedAuthority.mem_provision hissued).2 cred hcred).2] at hlam hlam'
  split_ifs at hlam hlam' with hp hp'
  rw [List.map_cons, List.map_cons, List.map_nil, hV, hR] at hp hp'
  obtain rfl | rfl : cred = V ∨ cred = R := by simpa using hcred
  · rw [hV] at hp hp'
    exact (by simpa [hp.2] using hp.1 : p = "server-A").trans
      (by simpa [hp'.2] using hp'.1 : p' = "server-A").symm
  · rw [hR] at hp hp'
    exact (by simpa [hp.2] using hp.1 : p = "device-1").trans
      (by simpa [hp'.2] using hp'.1 : p' = "device-1").symm

/-- The network has just been set up over this manifest, under the plain suite; its server looks one
epoch ahead. -/
def OfOnePair (N : LossyNetwork .plain) : Prop :=
  ∃ creds, TrustedAuthority.provision (taPrimitives .plain fun _ => []) [] onePair = .ok creds ∧
    (∀ cred ∈ creds, PseudonymsInjective .plain cred.peerSecrets) ∧ N.Initial creds fun _ => 1

/-- Such a network, with its device. -/
lemma exists_initial_onePair : ∃ (creds : List (Credential Lam Bytes)) (N : LossyNetwork .plain)
    (D : Device .plain),
    TrustedAuthority.provision (taPrimitives .plain fun _ => []) [] onePair = .ok creds ∧
      (∀ cred ∈ creds, PseudonymsInjective .plain cred.peerSecrets) ∧ N.Initial creds (fun _ => 1) ∧
      N.devices.get "device-1" = some D ∧ N.servers.get "server-A" ≠ none ∧
      D.sessionLog.isBlocked "server-A" = false ∧ D.nextEpoch "server-A" = 0 ∧
      D.sessionTimeout = 5 := by
  obtain ⟨V, R, hissued, ⟨hV, hVrole⟩, ⟨hR, hRrole⟩, hinj⟩ := exists_provision_onePair
  obtain ⟨D, hcreate, hlog, hnext, htimeout⟩ : ∃ D : Device .plain,
      Device.create V 128 5 3 false = .ok D ∧ D.sessionLog.isBlocked "server-A" = false ∧
        D.nextEpoch "server-A" = 0 ∧ D.sessionTimeout = 5 := by
    refine ⟨_, if_neg (not_not.mpr hVrole), rfl, rfl, rfl⟩
  have hfit : (Resolver.linearScan {}).EpochsFit R.peerSecrets (SessionLog.create 3 1 0) := by
    intro p _
    rw [show (SessionLog.create 3 1 0).last p = -1 from SessionLog.last_fresh _ _ _ _]
    decide
  obtain ⟨S, hS⟩ := Server.exists_create (C := .plain) (r := .linearScan {}) 128 0 trivial hRrole
    (hinj R (by simp)) hfit
  refine ⟨[V, R],
    { devices := Dict.empty.set "device-1" D, servers := Dict.empty.set "server-A" S },
    D, hissued, hinj, ⟨?_, ?_, fun _ => by decide, fun _ _ => rfl, fun _ _ => rfl⟩,
    Dict.get_set_self _ _ _, ?_, hlog, hnext, htimeout⟩
  · intro V' D' hD'
    obtain ⟨rfl, rfl⟩ := Dict.get_singleton_iff.mp hD'
    exact ⟨V, by simp, hV, 128, by decide, 5, 3, hcreate⟩
  · intro R' S' hS'
    obtain ⟨rfl, rfl⟩ := Dict.get_singleton_iff.mp hS'
    exact ⟨R, by simp, hR, 128, by decide, 3, 1, 0, .linearScan {}, 0, trivial, rfl, hS⟩
  · rw [Dict.get_set_self]
    exact Option.some_ne_none S

/-- A session of the sample network. -/
def pairRun : List LinkAction :=
  [.send "device-1" "server-A" pairEnv, .deliverRequest "device-1" "server-A" (.read 0 0),
    .deliverResponse "device-1" "server-A" 1]

/-- A run in which a request is sent once is fair. -/
lemma fair_pairRun {N : LossyNetwork .plain} {D : Device .plain}
    (hD : N.devices.get "device-1" = some D) (hnext : D.nextEpoch "server-A" = 0) :
    Machine.AllSteps LossyNetwork.step (Fair fun _ => 1) N pairRun := by
  refine ⟨⟨rfl, fun E hE => ?_⟩, rfl, trivial, trivial⟩
  obtain rfl := Option.some.inj (hD.symm.trans hE)
  rw [hnext]
  decide

/-- That session completes. -/
lemma exists_completed_onePair : ∃ (creds : List (Credential Lam Bytes)) (N : LossyNetwork .plain)
    (key : Bytes),
    TrustedAuthority.provision (taPrimitives .plain fun _ => []) [] onePair = .ok creds ∧
      (∀ cred ∈ creds, PseudonymsInjective .plain cred.peerSecrets) ∧ N.Initial creds (fun _ => 1) ∧
      N.devices.get "device-1" ≠ none ∧ N.servers.get "server-A" ≠ none ∧
      Machine.AllSteps LossyNetwork.step (Fair fun _ => 1) N pairRun ∧
      seenOf "device-1" "server-A" N pairRun = [.sent, .accepted key, .completed key] := by
  obtain ⟨creds, N, D, hprov, hinj, hinit, hD, hR, hunblocked, hnext, htimeout⟩ :=
    exists_initial_onePair
  obtain ⟨S, hS⟩ := Option.ne_none_iff_exists'.mp hR
  have hcoverage : pairEnv.coverage "server-A" = true := rfl
  have hcoverage' : (ServerEnv.read 0 0).coverage "device-1" = true := rfl
  have htime : 1 - pairEnv.monotonic ≤ D.sessionTimeout := by
    rw [htimeout]
    norm_num [pairEnv]
  obtain ⟨key, hkey⟩ := (hinit.inv hprov hinj).completes_round hD hS hunblocked
    (hinit.requests _ _) (hinit.responses _ _) Nat.zero_lt_one hcoverage hcoverage'
    (by rw [hnext]; decide) htime
  exact ⟨creds, N, key, hprov, hinj, hinit, hD ▸ Option.some_ne_none D, hR, fair_pairRun hD hnext,
    hkey⟩

/-- A session, in which the request is accepted and completed, refines a handshake. -/
theorem refines_onePair : ∃ (N : LossyNetwork .plain) (D : Device .plain) (S : Server .plain)
    (sessions : List PendingSession) (a : State Bytes) (key : Bytes), N.OfOnePair ∧
      seenOf "device-1" "server-A" N pairRun = [.sent, .accepted key, .completed key] ∧
      Reached (linkBounds D S) [.sent, .accepted key, .completed key] a ∧
      Linked D "device-1" S "server-A"
        ((Machine.final LossyNetwork.step N pairRun).requests "device-1" "server-A")
        ((Machine.final LossyNetwork.step N pairRun).responses "device-1" "server-A")
        sessions a := by
  obtain ⟨creds, N, key, hprov, hinj, hinit, hV, hR, hfair, hseen⟩ := exists_completed_onePair
  obtain ⟨D, S, sessions, a, -, -, -, hreached, hlinked⟩ := refines hprov hinj hinit hfair hV hR
  exact ⟨N, D, S, sessions, a, key, ⟨creds, hprov, hinj, hinit⟩, hseen, hseen ▸ hreached, hlinked⟩

/-- The first request of the device is accepted. -/
theorem delivered_onePair : ∃ (N : LossyNetwork .plain) (key : Bytes), N.OfOnePair ∧
    (Machine.final LossyNetwork.step N [.send "device-1" "server-A" pairEnv]).observe
      (.deliverRequest "device-1" "server-A" (.read 0 0)) =
      some ⟨"device-1", "server-A", .accepted key⟩ := by
  obtain ⟨creds, N, D, hprov, hinj, hinit, hD, hS, hunblocked, hnext, -⟩ := exists_initial_onePair
  have hcoverage : pairEnv.coverage "server-A" = true := rfl
  obtain ⟨data, D', hbuild, -⟩ := (hinit.inv hprov hinj).exists_build hD hS hunblocked hcoverage
    (by rw [hnext]; decide)
  have hsend := step_send hD hbuild
  have hfair : Machine.AllSteps LossyNetwork.step (Fair fun _ => 1) N
      [.send "device-1" "server-A" pairEnv] := ⟨(fair_pairRun hD hnext).1, trivial⟩
  have hqueue : (Machine.final LossyNetwork.step N [.send "device-1" "server-A" pairEnv]).requests
      "device-1" "server-A" ≠ [] := by
    rw [Machine.final, List.foldl_cons, List.foldl_nil, hsend]
    dsimp only
    rw [setQueue_self]
    exact List.append_ne_nil_of_right_ne_nil _ (List.cons_ne_nil _ _)
  have hlost : LossyHandshake.lostSince
      (seenOf "device-1" "server-A" N [.send "device-1" "server-A" pairEnv]) < 1 := by
    rw [seenOf_cons hsend]
    exact Nat.zero_lt_one
  have hcoverage : (ServerEnv.read 0 0).coverage "device-1" = true := rfl
  obtain ⟨key, hkey⟩ := (delivered hprov hinj hinit hfair hS hqueue hcoverage).1 hlost
  exact ⟨N, key, ⟨creds, hprov, hinj, hinit⟩, hkey⟩

/-- When the first request is lost, the server that looks one epoch ahead does not accept the
second. -/
theorem locked_out_onePair : ∃ N : LossyNetwork .plain, N.OfOnePair ∧
    seenOf "device-1" "server-A" N
      [.send "device-1" "server-A" pairEnv, .loseRequest "device-1" "server-A"] =
      [.sent, .requestLost] ∧
    ∀ o ∈ seenOf "device-1" "server-A" (Machine.final LossyNetwork.step N
      [.send "device-1" "server-A" pairEnv, .loseRequest "device-1" "server-A"]) pairRun,
      o.acceptedKey = none := by
  obtain ⟨creds, N, D, hprov, hinj, hinit, hD, hS, hunblocked, hnext, -⟩ := exists_initial_onePair
  have hcoverage : pairEnv.coverage "server-A" = true := rfl
  obtain ⟨data, D', hbuild, -, hnext'⟩ :=
    (hinit.inv hprov hinj).exists_build hD hS hunblocked hcoverage (by rw [hnext]; decide)
  rw [hnext] at hnext'
  have hqueue : N.requests "device-1" "server-A" = [] := hinit.requests _ _
  have hsend := step_send hD hbuild
  rw [hqueue, List.nil_append] at hsend
  let N₁ : LossyNetwork .plain := { N with
    devices := N.devices.set "device-1" D'
    requests := setQueue N.requests "device-1" "server-A" [data] }
  let N₂ : LossyNetwork .plain := { N₁ with
    requests := setQueue N₁.requests "device-1" "server-A" [] }
  have hlose : N₁.step (.loseRequest "device-1" "server-A") =
      (some ⟨"device-1", "server-A", .requestLost⟩, N₂) := by
    have hdata : N₁.requests "device-1" "server-A" = [data] :=
      setQueue_self N.requests "device-1" "server-A" [data]
    rw [LossyNetwork.step, LossyNetwork.loseRequest, hdata]
  have hseen : seenOf "device-1" "server-A" N
      [.send "device-1" "server-A" pairEnv, .loseRequest "device-1" "server-A"] =
      [.sent, .requestLost] := by
    rw [seenOf_cons hsend, seenOf_cons hlose]
    rfl
  have hfinal : Machine.final LossyNetwork.step N
      [.send "device-1" "server-A" pairEnv, .loseRequest "device-1" "server-A"] = N₂ := by
    rw [Machine.final, List.foldl_cons, List.foldl_cons, List.foldl_nil, hsend]
    exact congrArg Prod.snd hlose
  have hmore : Machine.AllSteps LossyNetwork.step (Fair fun _ => 1) N₂ pairRun := by
    have hD' : N₂.devices.get "device-1" = some D' := Dict.get_set_self _ _ _
    refine ⟨⟨rfl, fun E hE => ?_⟩, rfl, trivial, trivial⟩
    obtain rfl := Option.some.inj (hD'.symm.trans hE)
    rw [hnext']
    decide
  have hfair : Machine.AllSteps LossyNetwork.step (Fair fun _ => 1) N
      [.send "device-1" "server-A" pairEnv, .loseRequest "device-1" "server-A"] :=
    ⟨(fair_pairRun hD hnext).1, trivial, trivial⟩
  have hlost : 1 ≤ LossyHandshake.lostSince (seenOf "device-1" "server-A" N
      [.send "device-1" "server-A" pairEnv, .loseRequest "device-1" "server-A"]) := by
    rw [hseen]
    exact le_refl _
  exact ⟨N, ⟨creds, hprov, hinj, hinit⟩, hseen, locked_out hprov hinj hinit hfair
    (hD ▸ Option.some_ne_none D) hS hlost (hfinal ▸ hmore)⟩

/-- The session completes with one key, and it is among those that were accepted. -/
theorem completed_sublist_onePair : ∃ (N : LossyNetwork .plain) (key : Bytes), N.OfOnePair ∧
    (seenOf "device-1" "server-A" N pairRun).filterMap LossyHandshake.Output.completedKey = [key] ∧
    [key].Sublist
      ((seenOf "device-1" "server-A" N pairRun).filterMap LossyHandshake.Output.acceptedKey) := by
  obtain ⟨creds, N, key, hprov, hinj, hinit, hV, hR, hfair, hseen⟩ := exists_completed_onePair
  have hcompleted : (seenOf "device-1" "server-A" N pairRun).filterMap
      LossyHandshake.Output.completedKey = [key] := by
    rw [hseen]
    rfl
  exact ⟨N, key, ⟨creds, hprov, hinj, hinit⟩, hcompleted,
    hcompleted ▸ completed_sublist hprov hinj hinit hfair hV hR⟩

/-- The first session completes. -/
theorem round_completes_onePair : ∃ (N : LossyNetwork .plain) (key : Bytes), N.OfOnePair ∧
    seenOf "device-1" "server-A" N pairRun = [.sent, .accepted key, .completed key] := by
  obtain ⟨creds, N, D, hprov, hinj, hinit, hD, hS, hunblocked, hnext, htimeout⟩ :=
    exists_initial_onePair
  have hfair : Machine.AllSteps LossyNetwork.step (Fair fun _ => 1) N [] := trivial
  have hcoverage : pairEnv.coverage "server-A" = true := rfl
  have hcoverage' : (ServerEnv.read 0 0).coverage "device-1" = true := rfl
  have htime : 1 - pairEnv.monotonic ≤ D.sessionTimeout := by
    rw [htimeout]
    norm_num [pairEnv]
  obtain ⟨key, hkey⟩ := round_completes hprov hinj hinit hfair hS hD hunblocked
    (hinit.requests _ _) (hinit.responses _ _) Nat.zero_lt_one hcoverage hcoverage'
    (by rw [hnext]; decide) htime
  exact ⟨N, key, ⟨creds, hprov, hinj, hinit⟩, hkey⟩

end LossyNetwork

end HybridEccAuth

import HybridEccAuth.Properties.LossyRuns

/-!
# Which requests are accepted and completed

On a network that loses messages, a request of a device that reaches its server is accepted
exactly when fewer requests of the pair than the server looks ahead were lost since the last
accepted one, and the response to it completes it with the key of the server
(`LossyNetwork.acceptance_law`).  The response to an earlier request, when it arrives after a
new request was built, fails that one (`LossyNetwork.stale_response_onePair`).
-/

namespace HybridEccAuth

open LossyHandshake (Reached)

variable {C : Crypto}

/-- The device of the pair builds no request for its server, and no response of the server arrives
at it. -/
def LinkAction.Quiet (V R : String) : LinkAction → Prop
  | .send V' R' _ | .deliverResponse V' R' _ => ¬ (V' = V ∧ R' = R)
  | .loseRequest _ _ | .deliverRequest _ _ _ | .loseResponse _ _ => True

namespace Device.SameFor

variable {D D' D'' : Device C} {R : String}

/-- Nothing is changed. -/
lemma refl (D : Device C) (R : String) : D.SameFor D R := ⟨rfl, rfl, rfl, rfl, rfl, rfl⟩

/-- What is kept twice is kept. -/
lemma trans (h : D.SameFor D' R) (h' : D'.SameFor D'' R) : D.SameFor D'' R where
  credential := h'.credential.trans h.credential
  next := h'.next.trans h.next
  pending := h'.pending.trans h.pending
  blocked := h'.blocked.trans h.blocked
  failures := h'.failures.trans h.failures
  maxAttempts := h'.maxAttempts.trans h.maxAttempts

end Device.SameFor

namespace LossyNetwork

variable {F : String → ℕ} {N : LossyNetwork C} {seen : List LinkEvent} {V R : String}
  {actions : List LinkAction}

/-- What is seen of a pair at an action that is quiet for it. -/
lemma quiet_of_observe {a : LinkAction} (ha : a.Quiet V R) {e : LinkEvent}
    (he : N.observe a = some e) {o : LossyHandshake.Output Bytes} (ho : e.ofPair V R = some o) :
    o.Quiet := by
  unfold LinkEvent.ofPair at ho
  split_ifs at ho with hpair
  obtain rfl := Option.some.inj ho
  unfold observe at he
  cases a with
  | send V' R' env =>
    dsimp only [LossyNetwork.step, LossyNetwork.send] at he
    split at he
    · cases he
    · split at he <;> cases he <;> exact absurd hpair ha
  | loseRequest V' R' =>
    dsimp only [LossyNetwork.step, LossyNetwork.loseRequest] at he
    split at he <;> cases he
    trivial
  | deliverRequest V' R' env =>
    dsimp only [LossyNetwork.step, LossyNetwork.deliverRequest] at he
    split at he
    · split at he <;> cases he <;> trivial
    · cases he
  | loseResponse V' R' =>
    dsimp only [LossyNetwork.step, LossyNetwork.loseResponse] at he
    split at he <;> cases he
    trivial
  | deliverResponse V' R' monotonic =>
    dsimp only [LossyNetwork.step, LossyNetwork.deliverResponse] at he
    split at he
    · split at he <;> cases he <;> exact absurd hpair ha
    · cases he

/-- What is seen of a pair along a run that is quiet for it. -/
lemma quiet_of_seenOf (hquiet : ∀ a ∈ actions, a.Quiet V R) :
    ∀ o ∈ seenOf V R N actions, o.Quiet := by
  induction actions generalizing N with
  | nil => exact fun o ho => absurd ho List.not_mem_nil
  | cons a actions ih =>
    rw [List.forall_mem_cons] at hquiet
    intro o ho
    rw [seenOf, Machine.events, List.filterMap_append, List.mem_append] at ho
    rcases ho with ho | ho
    · obtain ⟨e, he, ho⟩ := List.mem_filterMap.mp ho
      exact quiet_of_observe hquiet.1 (Option.mem_toList.mp he) ho
    · exact ih hquiet.2 o ho

/-- Writing back a device that has been busy with another server keeps what the device of a pair
knows of its own. -/
lemma sameFor_set {devices : Dict String (Device C)} {D D₀ D₁ : Device C} {V' R' : String}
    (hD : devices.get V = some D) (hpair : ¬ (V' = V ∧ R' = R)) (hD₀ : devices.get V' = some D₀)
    (hsame : R ≠ R' → D₀.SameFor D₁ R) (htimeout : D₁.sessionTimeout = D₀.sessionTimeout) :
    ∃ D', (devices.set V' D₁).get V = some D' ∧ D.SameFor D' R ∧
      D'.sessionTimeout = D.sessionTimeout := by
  rw [Dict.get_set]
  split_ifs with hV
  · obtain rfl : D₀ = D := by
      rw [← hV, hD] at hD₀
      exact (Option.some.inj hD₀).symm
    exact ⟨D₁, rfl, hsame fun hR => hpair ⟨hV.symm, hR.symm⟩, htimeout⟩
  · exact ⟨D, hD, .refl D R, rfl⟩

/-- A response from another server keeps what the device of a pair knows of its own. -/
lemma Inv.sameFor_deliverResponse (h : Inv F N seen) {D : Device C}
    (hD : N.devices.get V = some D) {V' R' : String} (hpair : ¬ (V' = V ∧ R' = R))
    (monotonic : ℚ) :
    ∃ D', (N.step (.deliverResponse V' R' monotonic)).2.devices.get V = some D' ∧
      D.SameFor D' R ∧ D'.sessionTimeout = D.sessionTimeout := by
  have hkept : ∃ D', N.devices.get V = some D' ∧ D.SameFor D' R ∧
      D'.sessionTimeout = D.sessionTimeout := ⟨D, hD, .refl D R, rfl⟩
  dsimp only [LossyNetwork.step, LossyNetwork.deliverResponse]
  rcases hqueue : N.responses V' R' with _ | ⟨data, rest⟩
  · exact hkept
  rcases hD₀ : N.devices.get V' with _ | D₀
  · exact hkept
  rcases hS : N.servers.get R' with _ | S
  · rw [h.noServer V' R' hS] at hqueue
    cases hqueue
  obtain ⟨sessions, b, hreached, hlinked⟩ := h.linked V' D₀ R' S hD₀ hS
  rw [hqueue] at hlinked
  obtain ⟨inTime, D₁, hD₁, -, hout⟩ := hlinked.deliverResponse hreached.inv.waiting monotonic
  have hresult : (D₀.completeAuth monotonic data).2 = D₁ := by
    rcases hout with ⟨key, hstep, -⟩ | ⟨e, hstep, -⟩ <;> rw [hstep]
  have hnext : ∃ D', (N.devices.set V' D₁).get V = some D' ∧ D.SameFor D' R ∧
      D'.sessionTimeout = D.sessionTimeout := by
    rcases hD₁ with rfl | rfl | rfl
    · exact sameFor_set hD hpair hD₀ (fun _ => .refl _ R) rfl
    · exact sameFor_set hD hpair hD₀ D₀.sameFor_failed rfl
    · exact sameFor_set hD hpair hD₀ D₀.sameFor_succeeded rfl
  dsimp only
  rcases hcomplete : D₀.completeAuth monotonic data with ⟨e | key, D₂⟩
  · rw [hcomplete] at hresult
    obtain rfl := hresult
    exact hnext
  · rw [hcomplete] at hresult
    obtain rfl := hresult
    exact hnext

/-- An action that is quiet for a pair keeps what the device knows of the server. -/
lemma Inv.sameFor_step (h : Inv F N seen) {D : Device C} (hD : N.devices.get V = some D)
    {a : LinkAction} (ha : a.Quiet V R) : ∃ D', (N.step a).2.devices.get V = some D' ∧
      D.SameFor D' R ∧ D'.sessionTimeout = D.sessionTimeout := by
  have hkept : ∃ D', N.devices.get V = some D' ∧ D.SameFor D' R ∧
      D'.sessionTimeout = D.sessionTimeout := ⟨D, hD, .refl D R, rfl⟩
  cases a with
  | send V' R' env =>
    dsimp only [LossyNetwork.step, LossyNetwork.send]
    rcases hD₀ : N.devices.get V' with _ | D₀
    · exact hkept
    dsimp only
    rcases hbuild : D₀.buildAuthRequest env R' with ⟨e | data, D₁⟩
    · apply sameFor_set hD ha hD₀ (Device.sameFor_build hbuild)
      obtain ⟨E, -, rfl⟩ := Device.buildAuthRequest_error hbuild
      rfl
    · apply sameFor_set hD ha hD₀ (Device.sameFor_build hbuild)
      obtain ⟨lam, s, msg1, -, -, -, -, -, htimeout, -⟩ := Device.buildAuthRequest_ok hbuild
      exact htimeout
  | loseRequest V' R' =>
    dsimp only [LossyNetwork.step, LossyNetwork.loseRequest]
    split <;> exact hkept
  | deliverRequest V' R' env =>
    dsimp only [LossyNetwork.step, LossyNetwork.deliverRequest]
    split
    · split <;> exact hkept
    · exact hkept
  | loseResponse V' R' =>
    dsimp only [LossyNetwork.step, LossyNetwork.loseResponse]
    split <;> exact hkept
  | deliverResponse V' R' monotonic => exact h.sameFor_deliverResponse hD ha monotonic

/-- A run that is quiet for a pair keeps what the device knows of the server. -/
lemma Inv.sameFor_run (h : Inv F N seen) {D : Device C} (hD : N.devices.get V = some D)
    (hfair : Machine.AllSteps LossyNetwork.step (Fair F) N actions)
    (hquiet : ∀ a ∈ actions, a.Quiet V R) :
    ∃ D', (Machine.final LossyNetwork.step N actions).devices.get V = some D' ∧ D.SameFor D' R ∧
      D'.sessionTimeout = D.sessionTimeout := by
  induction actions generalizing N seen D with
  | nil => exact ⟨D, hD, .refl D R, rfl⟩
  | cons a actions ih =>
    rw [List.forall_mem_cons] at hquiet
    obtain ⟨D₁, hD₁, hsame, htimeout⟩ := h.sameFor_step hD hquiet.1
    obtain ⟨D₂, hD₂, hsame', htimeout'⟩ := ih (h.step hfair.1) hD₁ hfair.2 hquiet.2
    exact ⟨D₂, hD₂, hsame.trans hsame', htimeout'.trans htimeout⟩

/-! ## The response to a request -/

/-- In a run, the device builds a request, the server accepts it with a key, and the response to it
is the only one in flight at the end; meanwhile the device builds no other request for the server,
and no response of the server arrives.  As nothing overtakes, the request is the only one in flight
when it is delivered. -/
def ResponseNext (N : LossyNetwork C) (V R : String) (env : BuildEnv) (key : Bytes)
    (actions : List LinkAction) : Prop :=
  ∃ before mid after serverEnv,
    actions = before ++ .send V R env :: mid ++ .deliverRequest V R serverEnv :: after ∧
    (Machine.final LossyNetwork.step N before).observe (.send V R env) = some ⟨V, R, .sent⟩ ∧
    (∀ a ∈ mid ++ after, a.Quiet V R) ∧
    ((Machine.final LossyNetwork.step N (before ++ .send V R env :: mid)).requests V R).length =
      1 ∧
    (Machine.final LossyNetwork.step N (before ++ .send V R env :: mid)).observe
      (.deliverRequest V R serverEnv) = some ⟨V, R, .accepted key⟩ ∧
    ((Machine.final LossyNetwork.step N actions).responses V R).length = 1

/-- What is seen of a pair at one of its actions, and then. -/
lemma seenOf_observed {a : LinkAction} {o : LossyHandshake.Output Bytes}
    (h : N.observe a = some ⟨V, R, o⟩) (actions : List LinkAction) :
    seenOf V R N (a :: actions) = o :: seenOf V R (N.step a).2 actions :=
  seenOf_cons (Prod.ext h rfl) actions

/-- A request that is sent leaves a session that remembers when. -/
lemma Inv.exists_session (h : Inv F N seen) {env : BuildEnv} (hR : N.servers.get R ≠ none)
    (hsent : N.observe (.send V R env) = some ⟨V, R, .sent⟩) :
    ∃ D s, (N.step (.send V R env)).2.devices.get V = some D ∧ D.pending.get R = some s ∧
      s.createdAt = env.monotonic := by
  obtain ⟨S, hS⟩ := Option.ne_none_iff_exists'.mp hR
  rcases hD : N.devices.get V with _ | D
  · rw [observe, LossyNetwork.step, LossyNetwork.send, hD] at hsent
    cases hsent
  rcases hbuild : D.buildAuthRequest env R with ⟨e | data, D'⟩
  · rw [observe, LossyNetwork.step, LossyNetwork.send, hD] at hsent
    dsimp only at hsent
    rw [hbuild] at hsent
    cases hsent
  · obtain ⟨s, hpending, -, -, hcreated, -⟩ := (h.paired V D R S hD hS).session_of_build hbuild
    rw [step_send hD hbuild]
    exact ⟨D', s, Dict.get_set_self _ _ _, hpending, hcreated⟩

/-- The session of a request that was sent is kept along a run that is quiet for the pair. -/
lemma Inv.session_of_quiet (h : Inv F N seen) {env : BuildEnv} (hR : N.servers.get R ≠ none)
    (hsent : N.observe (.send V R env) = some ⟨V, R, .sent⟩) (hsend : Fair F N (.send V R env))
    (hfair : Machine.AllSteps LossyNetwork.step (Fair F) (N.step (.send V R env)).2 actions)
    (hquiet : ∀ a ∈ actions, a.Quiet V R) : ∃ D s,
      (Machine.final LossyNetwork.step N (.send V R env :: actions)).devices.get V = some D ∧
      D.pending.get R = some s ∧ s.createdAt = env.monotonic := by
  obtain ⟨D, s, hD, hpending, hcreated⟩ := h.exists_session hR hsent
  obtain ⟨D', hD', hsame, -⟩ := (h.step hsend).sameFor_run hD hfair hquiet
  exact ⟨D', s, hD', by rw [hsame.pending, hpending], hcreated⟩

/-- At the end of such a run, the request waits, and the response to it is the one in flight. -/
lemma Inv.waits_of_responseNext (h : Inv F N []) (hR : N.servers.get R ≠ none) {env : BuildEnv}
    {key : Bytes} (hfair : Machine.AllSteps LossyNetwork.step (Fair F) N actions)
    (hnext : ResponseNext N V R env key actions) : ∃ D S sessions a n s,
    (Machine.final LossyNetwork.step N actions).devices.get V = some D ∧
    Linked D V S R ((Machine.final LossyNetwork.step N actions).requests V R)
      ((Machine.final LossyNetwork.step N actions).responses V R) sessions a ∧
    a.answers = [(n, key)] ∧ a.waiting = some n ∧ D.pending.get R = some s ∧
    s.createdAt = env.monotonic := by
  obtain ⟨before, mid, after, serverEnv, rfl, hsent, hquiet, hrequests, haccepted, hresponses⟩ :=
    hnext
  obtain ⟨hmid, hafter⟩ := List.forall_mem_append.mp hquiet
  obtain ⟨hfair₂, hfairRest⟩ := Machine.allSteps_append.mp hfair
  obtain ⟨hfair₀, hfairSend, hfairMid⟩ := Machine.allSteps_append.mp hfair₂
  -- what is seen of the pair
  have hseen₂ : seenOf V R N (before ++ .send V R env :: mid) = seenOf V R N before ++ .sent ::
      seenOf V R ((Machine.final LossyNetwork.step N before).step (.send V R env)).2 mid := by
    rw [seenOf_append, seenOf_observed hsent]
  have hseen : seenOf V R N (before ++ .send V R env :: mid ++ .deliverRequest V R serverEnv ::
      after) = seenOf V R N (before ++ .send V R env :: mid) ++ .accepted key :: seenOf V R
        ((Machine.final LossyNetwork.step N (before ++ .send V R env :: mid)).step
          (.deliverRequest V R serverEnv)).2 after := by
    rw [seenOf_append, seenOf_observed haccepted]
  -- the session of the request is kept up to its delivery, and from there to the end
  obtain ⟨D₂, s, hD₂, hpending, hcreated⟩ := (h.final hfair₀).session_of_quiet
    ((get_final before R).2 hR) hsent hfairSend hfairMid hmid
  rw [← Machine.final_append] at hD₂
  have hrest : ∀ a ∈ LinkAction.deliverRequest V R serverEnv :: after, a.Quiet V R :=
    List.forall_mem_cons.mpr ⟨trivial, hafter⟩
  have hinv₂ := h.final hfair₂
  obtain ⟨D₃, hD₃, hsame, -⟩ := hinv₂.sameFor_run hD₂ hfairRest hrest
  rw [← Machine.final_append] at hD₃
  have hinv₃ := h.final hfair
  obtain ⟨S₂, hS₂⟩ := Option.ne_none_iff_exists'.mp
    ((get_final (N := N) (before ++ .send V R env :: mid) R).2 hR)
  obtain ⟨S₃, hS₃⟩ := Option.ne_none_iff_exists'.mp
    ((get_final (N := N) (before ++ .send V R env :: mid ++ .deliverRequest V R serverEnv ::
      after) R).2 hR)
  obtain ⟨sessions₂, a₂, hreached₂, hlinked₂⟩ := hinv₂.linked V D₂ R S₂ hD₂ hS₂
  obtain ⟨sessions, a, hreached, hlinked⟩ := hinv₃.linked V D₃ R S₃ hD₃ hS₃
  have hbounds : linkBounds D₂ S₂ = linkBounds D₃ S₃ := by
    rw [linkBounds, linkBounds, (hinv₂.server R S₂ hS₂).2, (hinv₃.server R S₃ hS₃).2,
      hsame.maxAttempts]
  change Reached _ (seenOf V R N _) a₂ at hreached₂
  change Reached _ (seenOf V R N _) a at hreached
  rw [hbounds, hseen₂] at hreached₂
  rw [hseen, hseen₂] at hreached
  obtain ⟨n, hwait, hanswers⟩ := hreached₂.sole_answer hreached (quiet_of_seenOf hmid)
    (quiet_of_seenOf hafter) (hlinked₂.requests.length_eq ▸ hrequests)
    (hlinked.responses.length_eq ▸ hresponses)
  exact ⟨D₃, S₃, sessions, a, n, s, hD₃, hlinked, hanswers, hwait,
    by rw [hsame.pending, hpending], hcreated⟩

/-- The response that is next completes the request, when it arrives in time. -/
lemma Inv.completes (h : Inv F N []) (hR : N.servers.get R ≠ none) {env : BuildEnv} {key : Bytes}
    (hfair : Machine.AllSteps LossyNetwork.step (Fair F) N actions)
    (hnext : ResponseNext N V R env key actions) {monotonic : ℚ}
    (htime : ∀ D, (Machine.final LossyNetwork.step N actions).devices.get V = some D →
      monotonic - env.monotonic ≤ D.sessionTimeout) :
    (Machine.final LossyNetwork.step N actions).observe (.deliverResponse V R monotonic) =
      some ⟨V, R, .completed key⟩ := by
  obtain ⟨D, S, sessions, a, n, s, hD, hlinked, hanswers, hwait, hpending, hcreated⟩ :=
    h.waits_of_responseNext hR hfair hnext
  have hresponses := hlinked.responses
  rw [hanswers] at hresponses
  obtain ⟨data, rest, -, -, hqueue⟩ := List.forall₂_cons_right_iff.mp hresponses
  rw [hqueue] at hlinked
  have hcomplete := hlinked.completeAuth_next hanswers hwait hpending
    (show ¬ D.sessionTimeout < monotonic - s.createdAt by
      rw [hcreated]
      exact not_lt.mpr (htime D hD))
  exact congrArg Prod.fst (step_completed hqueue hD hcomplete)

/-- In every fair run of a provisioned network, whatever the other pairs do: a request that reaches
its server next is accepted exactly when fewer requests of the pair than the server looks ahead were
lost since it last accepted one; when it is accepted, and the response to it is the next one to
arrive before the device builds another request for the server, and arrives in time, the device
returns the key of the server; and once the server missed as many requests in a row as it looks
ahead, it accepts none of them any more. -/
theorem acceptance_law {scalarToPublicPoint : Lam → Bytes} {masterSecret : Bytes}
    {manifest : List ManifestEntry} {creds : List (Credential Lam Bytes)}
    (hprov : TrustedAuthority.provision (taPrimitives C scalarToPublicPoint) masterSecret
      manifest = .ok creds) (hinj : ∀ cred ∈ creds, PseudonymsInjective C cred.peerSecrets)
    (hinit : N.Initial creds F)
    (hfair : Machine.AllSteps LossyNetwork.step (Fair F) N actions)
    (hV : N.devices.get V ≠ none) (hR : N.servers.get R ≠ none) :
    let N' := Machine.final LossyNetwork.step N actions
    (∀ env : ServerEnv, N'.requests V R ≠ [] → env.coverage V = true →
      ((∃ key, N'.observe (.deliverRequest V R env) = some ⟨V, R, .accepted key⟩) ↔
        LossyHandshake.lostSince (seenOf V R N actions) < F R)) ∧
    (∀ env key monotonic, ResponseNext N V R env key actions →
      (∀ D, N'.devices.get V = some D → monotonic - env.monotonic ≤ D.sessionTimeout) →
      N'.observe (.deliverResponse V R monotonic) = some ⟨V, R, .completed key⟩) ∧
    (F R ≤ LossyHandshake.lostSince (seenOf V R N actions) →
      ∀ more, Machine.AllSteps LossyNetwork.step (Fair F) N' more →
        ∀ o ∈ seenOf V R N' more, o.acceptedKey = none) := by
  intro N'
  have hinv := hinit.inv hprov hinj
  refine ⟨fun env hqueue hcoverage => ?_, fun env key monotonic hnext htime => ?_,
    fun hlost more hmore => ?_⟩
  · obtain ⟨haccepts, hrejects⟩ :=
      (hinv.final hfair).observe_deliverRequest ((get_final actions R).2 hR) hqueue hcoverage
    refine ⟨fun ⟨key, hkey⟩ => ?_, haccepts⟩
    by_contra hlost
    have hrejected := hrejects (not_lt.mp hlost)
    rw [hkey] at hrejected
    cases hrejected
  · exact hinv.completes hR hfair hnext htime
  · exact hinv.not_accepted hfair hV hR hlost hmore

/-! ## Late responses -/

/-- A device that has not blocked a server, which did not miss too many requests, sends it a request
that is accepted. -/
lemma Inv.sends_accepted (h : Inv F N seen) {D : Device C} (hD : N.devices.get V = some D)
    (hR : N.servers.get R ≠ none) (hunblocked : D.sessionLog.isBlocked R = false)
    {env : BuildEnv} {serverEnv : ServerEnv} (hcoverage : env.coverage R = true)
    (hcoverage' : serverEnv.coverage V = true) (hsmall : D.nextEpoch R + F R < 2 ^ 64)
    (hlost : LossyHandshake.lostSince (seen.filterMap (LinkEvent.ofPair V R)) < F R) :
    let round : List LinkAction := [.send V R env, .deliverRequest V R serverEnv]
    Machine.AllSteps LossyNetwork.step (Fair F) N round ∧ ∃ key D',
      Machine.events observe LossyNetwork.step N round =
        [.sent, .accepted key].map (LinkEvent.mk V R) ∧
      (Machine.final LossyNetwork.step N round).devices.get V = some D' ∧
      D'.sessionLog.isBlocked R = false ∧ D'.nextEpoch R = D.nextEpoch R + 1 := by
  intro round
  obtain ⟨data, D₁, hbuild, hlog, hnext⟩ :=
    h.exists_build hD hR hunblocked hcoverage (by omega)
  have hsend := step_send hD hbuild
  have hsent : N.observe (.send V R env) = some ⟨V, R, .sent⟩ := congrArg Prod.fst hsend
  have hfair : N.Fair F (.send V R env) := by
    refine ⟨hcoverage, fun E hE => ?_⟩
    obtain rfl := Option.some.inj (hD.symm.trans hE)
    exact hsmall
  have hinv₁ := h.step hfair
  have hD₁ : (N.step (.send V R env)).2.devices.get V = some D₁ := by
    rw [hsend]
    exact Dict.get_set_self _ _ _
  have hqueue : (N.step (.send V R env)).2.requests V R ≠ [] := by
    rw [hsend]
    dsimp only
    rw [setQueue_self]
    exact List.append_ne_nil_of_right_ne_nil _ (List.cons_ne_nil _ _)
  have hlost₁ : LossyHandshake.lostSince ((seen ++ (N.observe (.send V R env)).toList).filterMap
      (LinkEvent.ofPair V R)) < F R := by
    rw [hsent, Option.toList_some, filterMap_append_event, if_pos ⟨rfl, rfl⟩,
      LossyHandshake.lostSince_append_singleton]
    exact hlost
  obtain ⟨key, hkey⟩ := (hinv₁.observe_deliverRequest ((N.get_step _ R).2 hR) hqueue
    hcoverage').1 hlost₁
  obtain ⟨D', hD', hsame, -⟩ := hinv₁.sameFor_step hD₁
    (show LinkAction.Quiet V R (.deliverRequest V R serverEnv) from trivial)
  refine ⟨⟨hfair, hcoverage', trivial⟩, key, D', ?_, hD', ?_, hsame.next.trans hnext⟩
  · rw [Machine.events, Machine.events, Machine.events, hsent, hkey]
    rfl
  · rw [hsame.blocked, hlog, hunblocked]

/-- What is seen of a pair when all of it belongs to the pair. -/
lemma filterMap_ofPair (V R : String) (os : List (LossyHandshake.Output Bytes)) :
    (os.map (LinkEvent.mk V R)).filterMap (LinkEvent.ofPair V R) = os := by
  have hpair : (LinkEvent.ofPair V R ∘ LinkEvent.mk V R) = some := funext fun o => if_pos ⟨rfl, rfl⟩
  rw [List.filterMap_map, hpair, List.filterMap_some]

/-- The response that arrives next fails, when what was seen of the pair says that it is not for the
request that waits. -/
lemma Inv.stale_response (h : Inv F N seen) (hV : N.devices.get V ≠ none)
    (hR : N.servers.get R ≠ none) (monotonic : ℚ) {os : List (LossyHandshake.Output Bytes)}
    (hseen : seen = os.map (LinkEvent.mk V R))
    (hstale : ∀ b, ∃ n key answers,
      (os.foldl (LossyHandshake.State.after b) {}).answers = (n, key) :: answers ∧
      ∀ m, (os.foldl (LossyHandshake.State.after b) {}).waiting = some m → n ≠ m) :
    N.observe (.deliverResponse V R monotonic) = some ⟨V, R, .failed⟩ ∧
      Inv F (N.step (.deliverResponse V R monotonic)).2
        ((os ++ [LossyHandshake.Output.failed]).map (LinkEvent.mk V R)) := by
  obtain ⟨D, hD⟩ := Option.ne_none_iff_exists'.mp hV
  obtain ⟨S, hS⟩ := Option.ne_none_iff_exists'.mp hR
  obtain ⟨sessions, a, hreached, hlinked⟩ := h.linked V D R S hD hS
  rw [hseen, filterMap_ofPair] at hreached
  obtain ⟨n, key, answers, hanswers, hwaiting⟩ := hstale (linkBounds D S)
  rw [← hreached.eq_foldl] at hanswers hwaiting
  -- the response in front is for another request than the one that waits
  have hfails : ∀ inTime : Bool,
      (LossyHandshake.step (linkBounds D S) a (.deliverAnswer inTime)).1 = some .failed := by
    intro inTime
    rcases hwait : a.waiting with _ | m
    · rw [LossyHandshake.step_unexpected hanswers hwait]
    · rw [LossyHandshake.step_fail hanswers hwait fun hgood => hwaiting m hwait hgood.2]
  have hresponses := hlinked.responses
  rw [hanswers] at hresponses
  obtain ⟨data, rest, -, -, hqueue⟩ := List.forall₂_cons_right_iff.mp hresponses
  rw [hqueue] at hlinked
  obtain ⟨inTime, D', -, -, hout⟩ := hlinked.deliverResponse hreached.inv.waiting monotonic
  have hobserve : N.observe (.deliverResponse V R monotonic) = some ⟨V, R, .failed⟩ := by
    rw [observe, LossyNetwork.step, LossyNetwork.deliverResponse, hqueue, hD]
    dsimp only
    rcases hout with ⟨key', -, hout⟩ | ⟨e, hstep, -⟩
    · rw [hfails] at hout
      cases hout
    · rw [hstep]
  have hnext := h.step (show Fair F N (.deliverResponse V R monotonic) from trivial)
  rw [hobserve, hseen, Option.toList_some] at hnext
  rw [List.map_append]
  exact ⟨hobserve, hnext⟩

/-- A request that is built and delivered. -/
def pairRound : List LinkAction :=
  [.send "device-1" "server-A" pairEnv, .deliverRequest "device-1" "server-A" (.read 0 0)]

/-- A run with two requests, whose responses arrive after both requests were built. -/
def staleRun : List LinkAction :=
  pairRound ++ pairRound ++
    [.deliverResponse "device-1" "server-A" 1, .deliverResponse "device-1" "server-A" 1]

/-- In the sample network, both requests are accepted. -/
lemma Inv.sends_accepted_twice (h : Inv (fun _ => 1) N []) {D : Device C}
    (hD : N.devices.get "device-1" = some D) (hR : N.servers.get "server-A" ≠ none)
    (hunblocked : D.sessionLog.isBlocked "server-A" = false) (hnext : D.nextEpoch "server-A" = 0) :
    Machine.AllSteps LossyNetwork.step (Fair fun _ => 1) N (pairRound ++ pairRound) ∧
      ∃ key₀ key₁, Machine.events observe LossyNetwork.step N (pairRound ++ pairRound) =
        [.sent, .accepted key₀, .sent, .accepted key₁].map
          (LinkEvent.mk "device-1" "server-A") := by
  have hcoverage : pairEnv.coverage "server-A" = true := rfl
  have hcoverage' : (ServerEnv.read 0 0).coverage "device-1" = true := rfl
  obtain ⟨hfair, key₀, D', hseen, hD', hunblocked', hnext'⟩ := h.sends_accepted hD hR hunblocked
    hcoverage hcoverage' (by rw [hnext]; decide) Nat.zero_lt_one
  have hinv := h.final hfair
  rw [hseen] at hinv
  obtain ⟨hfair', key₁, -, hseen', -⟩ := hinv.sends_accepted hD' ((get_final _ _).2 hR)
    hunblocked' hcoverage hcoverage' (by rw [hnext', hnext]; decide)
    (by rw [filterMap_ofPair]; exact Nat.zero_lt_one)
  refine ⟨Machine.allSteps_append.mpr ⟨hfair, hfair'⟩, key₀, key₁, ?_⟩
  rw [Machine.events_append, pairRound, hseen, hseen', ← List.map_append]
  rfl

/-- Both requests of this run are accepted, and the response to the second one arrives in time,
before another request is built; but the one to the first request has failed the second by then. -/
theorem stale_response_onePair : ∃ (creds : List (Credential Lam Bytes)) (N : LossyNetwork .plain)
    (key₀ key₁ : Bytes),
    TrustedAuthority.provision (taPrimitives .plain fun _ => []) [] onePair = .ok creds ∧
      (∀ cred ∈ creds, PseudonymsInjective .plain cred.peerSecrets) ∧ N.Initial creds (fun _ => 1) ∧
      (∀ D, N.devices.get "device-1" = some D → 1 - pairEnv.monotonic ≤ D.sessionTimeout) ∧
      Machine.AllSteps LossyNetwork.step (Fair fun _ => 1) N staleRun ∧
      seenOf "device-1" "server-A" N staleRun =
        [.sent, .accepted key₀, .sent, .accepted key₁, .failed, .failed] := by
  obtain ⟨creds, N, D, hprov, hinj, hinit, hD, hR, hunblocked, hnext, htimeout⟩ :=
    exists_initial_onePair
  have hinv := hinit.inv hprov hinj
  obtain ⟨hfair, key₀, key₁, hseen⟩ := hinv.sends_accepted_twice hD hR hunblocked hnext
  have hV₂ := (get_final (N := N) (pairRound ++ pairRound) "device-1").1
    (hD ▸ Option.some_ne_none D)
  have hR₂ := (get_final (N := N) (pairRound ++ pairRound) "server-A").2 hR
  -- the response to the first request comes when the second one waits, and fails it
  obtain ⟨hfirst, hinv₃⟩ := (hinv.final hfair).stale_response hV₂ hR₂ 1 hseen
    fun _ => ⟨0, key₀, [(1, key₁)], rfl, fun m hm => by
      obtain rfl : 1 = m := Option.some.inj hm
      decide⟩
  -- then none waits, and the response to the second request fails too
  obtain ⟨hsecond, -⟩ := hinv₃.stale_response ((get_step _ _ _).1 hV₂) ((get_step _ _ _).2 hR₂)
    1 rfl fun b => by
      obtain ⟨-, -, -, hanswers, hwaiting⟩ := LossyHandshake.fail_frame b
        { next := 2, floor := 2, answers := [(1, key₁)], waiting := none }
      exact ⟨1, key₁, [], hanswers, fun m hm =>
        absurd (hm.symm.trans hwaiting) (Option.some_ne_none m)⟩
  refine ⟨creds, N, key₀, key₁, hprov, hinj, hinit, fun E hE => ?_,
    Machine.allSteps_append.mpr ⟨hfair, trivial, trivial, trivial⟩, ?_⟩
  · obtain rfl := Option.some.inj (hD.symm.trans hE)
    rw [htimeout]
    norm_num [pairEnv]
  · have hboth : seenOf "device-1" "server-A" N (pairRound ++ pairRound) =
        [.sent, .accepted key₀, .sent, .accepted key₁] := by
      rw [seenOf, hseen, filterMap_ofPair]
    rw [staleRun, seenOf_append, hboth, seenOf_observed hfirst, seenOf_observed hsecond]
    rfl

/-- The messages in flight after a run, from what was seen of the pair. -/
lemma Inv.length_queues (h : Inv F N [])
    (hfair : Machine.AllSteps LossyNetwork.step (Fair F) N actions)
    (hV : N.devices.get V ≠ none) (hR : N.servers.get R ≠ none)
    {os : List (LossyHandshake.Output Bytes)} (hseen : seenOf V R N actions = os) : ∃ b,
    ((Machine.final LossyNetwork.step N actions).requests V R).length =
      (os.foldl (LossyHandshake.State.after b) {}).requests.length ∧
    ((Machine.final LossyNetwork.step N actions).responses V R).length =
      (os.foldl (LossyHandshake.State.after b) {}).answers.length := by
  obtain ⟨D, S, sessions, a, -, -, -, hreached, hlinked⟩ := h.exists_linked hfair hV hR
  refine ⟨linkBounds D S, ?_⟩
  rw [← hseen, ← hreached.eq_foldl]
  exact ⟨hlinked.requests.length_eq, hlinked.responses.length_eq⟩

/-- The first request of the sample network is accepted, and the response to it completes it. -/
theorem acceptance_law_onePair : ∃ (N : LossyNetwork .plain) (key : Bytes), N.OfOnePair ∧
    (Machine.final LossyNetwork.step N [.send "device-1" "server-A" pairEnv]).observe
      (.deliverRequest "device-1" "server-A" (.read 0 0)) =
      some ⟨"device-1", "server-A", .accepted key⟩ ∧
    (Machine.final LossyNetwork.step N pairRound).observe
      (.deliverResponse "device-1" "server-A" 1) =
      some ⟨"device-1", "server-A", .completed key⟩ := by
  obtain ⟨creds, N, D, hprov, hinj, hinit, hD, hR, hunblocked, hnext, htimeout⟩ :=
    exists_initial_onePair
  have hinv := hinit.inv hprov hinj
  have hcoverage : pairEnv.coverage "server-A" = true := rfl
  have hcoverage' : (ServerEnv.read 0 0).coverage "device-1" = true := rfl
  have hV : N.devices.get "device-1" ≠ none := hD ▸ Option.some_ne_none D
  have hfair : Machine.AllSteps LossyNetwork.step (Fair fun _ => 1) N pairRound :=
    ⟨(fair_pairRun hD hnext).1, hcoverage', trivial⟩
  have hfair₁ : Machine.AllSteps LossyNetwork.step (Fair fun _ => 1) N
      [.send "device-1" "server-A" pairEnv] := ⟨hfair.1, trivial⟩
  obtain ⟨data, D', hbuild, -⟩ := hinv.exists_build hD hR hunblocked hcoverage
    (by rw [hnext]; decide)
  have hsent : N.observe (.send "device-1" "server-A" pairEnv) =
      some ⟨"device-1", "server-A", .sent⟩ := congrArg Prod.fst (step_send hD hbuild)
  have hseen₁ : seenOf "device-1" "server-A" N [.send "device-1" "server-A" pairEnv] = [.sent] :=
    seenOf_observed hsent []
  obtain ⟨b, hrequests, -⟩ := hinv.length_queues hfair₁ hV hR hseen₁
  have hqueue : (Machine.final LossyNetwork.step N
      [.send "device-1" "server-A" pairEnv]).requests "device-1" "server-A" ≠ [] :=
    List.length_pos_iff.mp (hrequests ▸ Nat.zero_lt_one)
  obtain ⟨key, hkey⟩ := ((acceptance_law hprov hinj hinit hfair₁ hV hR).1 (.read 0 0) hqueue
    hcoverage').mpr (by rw [hseen₁]; exact Nat.zero_lt_one)
  have hseen : seenOf "device-1" "server-A" N pairRound = [.sent, .accepted key] := by
    rw [pairRound, seenOf_observed hsent]
    exact congrArg _ (seenOf_observed hkey [])
  obtain ⟨b', -, hresponses⟩ := hinv.length_queues hfair hV hR hseen
  have hresponse : ResponseNext N "device-1" "server-A" pairEnv key pairRound :=
    ⟨[], [], [], .read 0 0, rfl, hsent, fun a ha => absurd ha List.not_mem_nil, hrequests, hkey,
      hresponses⟩
  refine ⟨N, key, ⟨creds, hprov, hinj, hinit⟩, hkey,
    (acceptance_law hprov hinj hinit hfair hV hR).2.1 pairEnv key 1 hresponse fun E hE => ?_⟩
  have hD₁ : (N.step (.send "device-1" "server-A" pairEnv)).2.devices.get "device-1" = some D' := by
    rw [step_send hD hbuild]
    exact Dict.get_set_self _ _ _
  have hquiet : LinkAction.Quiet "device-1" "server-A"
    (.deliverRequest "device-1" "server-A" (.read 0 0)) := trivial
  obtain ⟨E', hE', -, htimeout₁⟩ := (hinv.step hfair.1).sameFor_step hD₁ hquiet
  obtain rfl : E' = E := Option.some.inj (hE'.symm.trans hE)
  obtain ⟨-, -, -, -, -, -, -, -, htimeout₀, -⟩ := Device.buildAuthRequest_ok hbuild
  rw [htimeout₁, htimeout₀, htimeout]
  norm_num [pairEnv]

end LossyNetwork

end HybridEccAuth

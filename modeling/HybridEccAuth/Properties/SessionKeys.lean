import HybridEccAuth.Properties.ClockReplay
import Mathlib.Data.Set.Function

/-!
# Session keys

Along every run of a server with counter epochs the epochs that it accepts from one peer
increase (`Server.issues_increase`).  The input of the key derivation begins with the
pairwise root and ends with the epoch, both of fixed width, so it determines the peer
and the epoch whatever the nonces are (`Issue.keyInput_eq`); and so, when the
derivations collide on no inputs that occur, no session key is returned twice
(`Server.session_keys_nodup`).
-/

namespace HybridEccAuth

/-- A result that a server returned, with what it was computed from. -/
structure Issue where
  opened : Opened
  nJ : Bytes
  result : AuthResult

namespace Issue

/-- The input of the derivation of the session key. -/
def keyInput (x : Issue) : Bytes :=
  x.opened.kStar ++ x.opened.nI ++ x.nJ ++ toBytesBE 8 x.opened.epoch.toNat

/-- What is known of a result under the credential of its server. -/
structure Derived (C : Crypto) (cred : Credential Lam Bytes) (x : Issue) : Prop where
  root : ∃ lam, cred.peerSecrets.get x.opened.peer = some lam ∧
    x.opened.kStar = derivePairwiseRoot C lam cred.lam
  epoch_range : 0 ≤ x.opened.epoch ∧ x.opened.epoch < 2 ^ 64
  key_eq : x.result.sessionKey = C.hkdf x.keyInput infoSessionKey
  peer_eq : x.result.peerIdentity = x.opened.peer

/-- The inputs of the derivations of the pairwise roots of a server. -/
def rootInputs (cred : Credential Lam Bytes) : Set Bytes :=
  {ikm | ∃ p lam, cred.peerSecrets.get p = some lam ∧ ikm = Lam.toBytes lam ++ Lam.toBytes cred.lam}

/-- The input of the session key determines the peer and the epoch, when pairwise roots collide on
no inputs that occur and no two peers have one secret.  The nonces may have any lengths. -/
theorem keyInput_eq {C : Crypto} {cred : Credential Lam Bytes} {x y : Issue}
    (hroot : Set.InjOn (fun ikm => C.hkdf ikm infoPairwiseRoot) (rootInputs cred))
    (hlam : ∀ p p' lam, cred.peerSecrets.get p = some lam → cred.peerSecrets.get p' = some lam →
      p = p')
    (hx : x.Derived C cred) (hy : y.Derived C cred) (h : x.keyInput = y.keyInput) :
    x.opened.peer = y.opened.peer ∧ x.opened.epoch = y.opened.epoch := by
  obtain ⟨lamX, hgetX, hkX⟩ := hx.root
  obtain ⟨lamY, hgetY, hkY⟩ := hy.root
  have hlen : x.opened.kStar.length = y.opened.kStar.length := by
    rw [hkX, hkY, length_derivePairwiseRoot, length_derivePairwiseRoot]
  unfold keyInput at h
  -- the last eight bytes are the epoch, the first thirty-two the root
  have hepoch : toBytesBE 8 x.opened.epoch.toNat = toBytesBE 8 y.opened.epoch.toNat := by
    have hlast := congrArg (lastBytes 8) h
    rwa [lastBytes_append (length_toBytesBE _ _), lastBytes_append (length_toBytesBE _ _)] at hlast
  have hkey : x.opened.kStar = y.opened.kStar := by
    rw [List.append_assoc, List.append_assoc, List.append_assoc, List.append_assoc] at h
    exact (List.append_inj h hlen).1
  constructor
  · have hinput : Lam.toBytes lamX ++ Lam.toBytes cred.lam =
        Lam.toBytes lamY ++ Lam.toBytes cred.lam := by
      apply hroot ⟨_, lamX, hgetX, rfl⟩ ⟨_, lamY, hgetY, rfl⟩
      exact (hkX.symm.trans hkey).trans hkY
    have hlams : lamX = lamY := Lam.toBytes_injective (List.append_cancel_right hinput)
    exact hlam _ _ lamX hgetX (hlams ▸ hgetY)
  · have hx64 := hx.epoch_range
    have hy64 := hy.epoch_range
    have hnat := (toBytesBE_inj (by omega) (by omega)).mp hepoch
    omega

end Issue

namespace Server

variable {C : Crypto}

/-- The result that a request is answered with, if it is. -/
def issue (S : Server C) (i : ServerEnv × Bytes) : Option Issue :=
  match (S.handleAuthRequest i.1 i.2).1, S.acceptance i with
  | .ok result, some (_, o) => some ⟨o, i.1.nonce.draw (S.nonceBits / 8), result⟩
  | _, _ => none

/-- Every result that a server returns is issued. -/
lemma map_result_issue (S : Server C) (i : ServerEnv × Bytes) :
    (S.issue i).map Issue.result = (S.step i).1.toOption := by
  unfold issue step
  rcases hres : (S.handleAuthRequest i.1 i.2).1 with e | res
  · rfl
  · obtain ⟨o, msg1, lam, plaintext, hopen, -⟩ := handleAuthRequest_ok (Prod.ext hres rfl)
    have hacc : S.acceptance i = some (i.2, o) := acceptance_eq_some.mpr ⟨rfl, hopen, res, hres⟩
    rw [hacc]
    rfl

/-- The results that a server returns along a run. -/
def results (S : Server C) (requests : List (ServerEnv × Bytes)) : List AuthResult :=
  (Machine.trace step S requests).filterMap fun x => x.1.toOption

/-- What a server is known to have issued before: it keeps its credential, and no epoch that it
accepted is above the last accepted one. -/
structure Issued (cred : Credential Lam Bytes) (seen : List Issue) (S : Server C) : Prop where
  valid : S.Valid
  counter : S.resolver.IsCounter
  credential_eq : S.credential = cred
  derived : ∀ x ∈ seen, x.Derived C cred ∧ x.opened.epoch ≤ S.sessionLog.last x.opened.peer

/-- What a server issues was derived under its credential, for an epoch above the last accepted
one, which is then the last accepted one. -/
lemma issue_eq_some {S : Server C} {cred : Credential Lam Bytes} (hrole : cred.role = .server)
    (hvalid : S.Valid) (hcounter : S.resolver.IsCounter) (hcred : S.credential = cred)
    {i : ServerEnv × Bytes} {x : Issue} (h : S.issue i = some x) :
    x.Derived C cred ∧ S.sessionLog.last x.opened.peer < x.opened.epoch ∧
      x.opened.epoch ≤ (S.step i).2.sessionLog.last x.opened.peer := by
  rcases hres : (S.handleAuthRequest i.1 i.2).1 with e | res
  · rw [issue, hres] at h
    cases h
  obtain ⟨o, msg1, lam, plaintext, hopen, ho, hresp, hlog⟩ :=
    handleAuthRequest_ok (Prod.ext hres rfl)
  have hacc : S.acceptance i = some (i.2, o) := acceptance_eq_some.mpr ⟨rfl, hopen, res, hres⟩
  rw [issue, hres, hacc] at h
  obtain rfl := Option.some_inj.mp h
  obtain ⟨hbits, hepoch⟩ := respond_ok hresp
  have hkStar : o.kStar = derivePairwiseRoot C lam cred.lam := by
    rw [ho.kStar_eq, hcred, Credential.pairwiseRoot, hrole]
  have hkey : o.kStar.length = keyLen := hkStar ▸ length_derivePairwiseRoot C _ _
  have hget : cred.peerSecrets.get o.peer = some lam := hcred ▸ ho.lam_eq
  rw [respond_eq hbits hepoch hkey] at hresp
  obtain rfl := Except.ok.inj hresp
  refine ⟨⟨⟨lam, hget, hkStar⟩, hepoch, rfl, rfl⟩, hvalid.new_of_opens hcounter ho, ?_⟩
  have hlast : (S.step i).2.sessionLog.last o.peer =
      (S.sessionLog.acceptEpoch o.peer o.epoch).last o.peer := by
    rw [step, hlog, SessionLog.last_recordSuccess]
  rw [hlast, SessionLog.last_acceptEpoch, if_pos rfl]
  exact le_max_right _ _

/-- What a server issues along a run was derived under its credential, and the epochs that it
accepts from one peer increase. -/
theorem issues_increase {S : Server C} {cred : Credential Lam Bytes} (hrole : cred.role = .server)
    (hvalid : S.Valid) (hcounter : S.resolver.IsCounter) (hcred : S.credential = cred)
    (requests : List (ServerEnv × Bytes)) :
    (Machine.events issue step S requests).Pairwise fun x y =>
      x.Derived C cred ∧ y.Derived C cred ∧
        (x.opened.peer = y.opened.peer → x.opened.epoch < y.opened.epoch) := by
  have hstep : ∀ (seen : List Issue) (S : Server C) i, Issued cred seen S → True →
      (∀ y, S.issue i = some y → ∀ x ∈ seen, x.Derived C cred ∧ y.Derived C cred ∧
        (x.opened.peer = y.opened.peer → x.opened.epoch < y.opened.epoch)) ∧
      Issued cred (seen ++ (S.issue i).toList) (S.step i).2 := by
    rintro seen S i ⟨hvalid, hcounter, hcred, hderived⟩ -
    constructor
    · intro y hy x hx
      obtain ⟨hdy, hlast, -⟩ := issue_eq_some hrole hvalid hcounter hcred hy
      obtain ⟨hdx, hle⟩ := hderived x hx
      refine ⟨hdx, hdy, fun hpeer => ?_⟩
      exact lt_of_le_of_lt hle (hpeer ▸ hlast)
    · refine ⟨hvalid.handleAuthRequest i.1 i.2,
        (S.isCounter_handleAuthRequest i.1 i.2).mpr hcounter,
        (S.handleAuthRequest_frame i.1 i.2).1.trans hcred, fun x hx => ?_⟩
      rcases List.mem_append.mp hx with hx | hx
      · obtain ⟨hdx, hle⟩ := hderived x hx
        exact ⟨hdx, le_trans hle (S.last_le_handleAuthRequest i.1 i.2 _)⟩
      · obtain ⟨hdx, -, hle⟩ := issue_eq_some hrole hvalid hcounter hcred (Option.mem_toList.mp hx)
        exact ⟨hdx, hle⟩
  have hinit : Issued cred [] S := ⟨hvalid, hcounter, hcred, fun x hx => absurd hx List.not_mem_nil⟩
  exact Machine.pairwise_events hstep hinit (Machine.allSteps_of_inputs fun _ _ => trivial)

/-- In every run of a server with counter epochs, no session key is returned twice, when the key
derivations collide on no inputs that occur and no two peers have one secret. -/
theorem session_keys_nodup {cred : Credential Lam Bytes} {nonceBits : ℕ} {log : SessionLog}
    {r : Resolver} {reading : ℚ} {S : Server C} (hS : create cred nonceBits log r reading = .ok S)
    (hr : r.IsCounter) (requests : List (ServerEnv × Bytes))
    (hroot : Set.InjOn (fun ikm => C.hkdf ikm infoPairwiseRoot) (Issue.rootInputs cred))
    (hsession : Set.InjOn (fun ikm => C.hkdf ikm infoSessionKey)
      {ikm | ∃ x ∈ Machine.events issue step S requests, ikm = x.keyInput})
    (hlam : ∀ p p' lam, cred.peerSecrets.get p = some lam → cred.peerSecrets.get p' = some lam →
      p = p') :
    ((S.results requests).map AuthResult.sessionKey).Nodup := by
  obtain ⟨hvalid, hcred, -, -, hrole, hatt⟩ := valid_create hS
  have hcounter : S.resolver.IsCounter := by
    have h : (r.attach C cred.peerSecrets log reading).2.IsCounter :=
        Resolver.isCounter_attach.mpr hr
    rwa [hatt] at h
  have hincrease := issues_increase hrole hvalid hcounter hcred requests
  have hdistinct : (Machine.events issue step S requests).Pairwise fun x y =>
      x.result.sessionKey ≠ y.result.sessionKey := by
    apply List.Pairwise.imp_of_mem _ hincrease
    rintro x y hx hy ⟨hdx, hdy, hlt⟩ hkey
    rw [hdx.key_eq, hdy.key_eq] at hkey
    have hinput : x.keyInput = y.keyInput := hsession ⟨x, hx, rfl⟩ ⟨y, hy, rfl⟩ hkey
    obtain ⟨hpeer, hepoch⟩ := Issue.keyInput_eq hroot hlam hdx hdy hinput
    exact absurd hepoch (ne_of_lt (hlt hpeer))
  rw [results, ← Machine.map_events map_result_issue, List.map_map]
  exact List.pairwise_map.mpr hdistinct

/-! ## Three results -/

/-- All three requests are answered. -/
lemma exists_events_threeRequests : ∃ a b c,
    Machine.events issue step scanningTwo threeRequests =
      [⟨plainOpened "device-1" 1 0, List.replicate 16 0, a⟩,
        ⟨plainOpened "device-2" 3 0, List.replicate 16 0, b⟩,
        ⟨plainOpened "device-1" 1 1, List.replicate 16 0, c⟩] ∧
      [a, b, c].map AuthResult.peerIdentity = ["device-1", "device-2", "device-1"] := by
  have hissue : ∀ {S : Server .plain} {i : ServerEnv × Bytes} {o : Opened} {result : AuthResult},
      S.Answered i o result → S.nonceBits = 128 →
        S.issue i = some ⟨o, i.1.nonce.draw 16, result⟩ := by
    rintro S i o result ⟨hresult, hacc, -⟩ hbits
    have hstep : (S.handleAuthRequest i.1 i.2).1 = .ok result := hresult
    rw [issue, hacc, hstep, hbits]
  obtain ⟨a, b, c, ⟨ha, hbitsA⟩, ⟨hb, hbitsB⟩, ⟨hc, hbitsC⟩, -⟩ := answered_threeRequests
  refine ⟨a, b, c, ?_, ?_⟩
  · simp only [threeRequests, Machine.events, hissue ha hbitsA, hissue hb hbitsB, hissue hc hbitsC,
      Option.toList_some, List.append_nil, List.singleton_append]
    rfl
  · simp only [List.map_cons, List.map_nil, ha.peer_eq, hb.peer_eq, hc.peer_eq]
    rfl

/-- A function with different values on a list is injective on any set of its members. -/
lemma injOn_of_nodup_map {α β : Type*} {f : α → β} {l : List α} (h : (l.map f).Nodup) {s : Set α}
    (hs : ∀ a ∈ s, a ∈ l) : Set.InjOn f s := fun _ ha _ hb heq =>
  List.inj_on_of_nodup_map h (hs _ ha) (hs _ hb) heq

/-- The inputs of the derivations of the two roots. -/
def twoRootInputs : List Bytes :=
  [Lam.toBytes 1 ++ Lam.toBytes 2, Lam.toBytes 3 ++ Lam.toBytes 2]

/-- The inputs of the derivations of the three keys. -/
def threeKeyInputs : List Bytes :=
  [plainOpened "device-1" 1 0, plainOpened "device-2" 3 0, plainOpened "device-1" 1 1].map fun o =>
    o.kStar ++ o.nI ++ List.replicate 16 0 ++ toBytesBE 8 o.epoch.toNat

/-- A server of two devices answers three requests, two of them of one device, with three different
keys, although all its nonces and theirs are the same. -/
theorem session_keys_nodup_threeRequests :
    (scanningTwo.results threeRequests).map AuthResult.peerIdentity =
        ["device-1", "device-2", "device-1"] ∧
      ((scanningTwo.results threeRequests).map AuthResult.sessionKey).Nodup := by
  obtain ⟨a, b, c, hevents, hpeers⟩ := exists_events_threeRequests
  have hcreate : create (C := .plain) serverOfTwo 128 {} (.linearScan {}) 0 = .ok scanningTwo := rfl
  have hresults : scanningTwo.results threeRequests = [a, b, c] := by
    rw [results, ← Machine.map_events map_result_issue, hevents]
    rfl
  have hroots : (twoRootInputs.map fun ikm => Crypto.plain.hkdf ikm infoPairwiseRoot).Nodup := by
    decide +kernel
  have hkeys : (threeKeyInputs.map fun ikm => Crypto.plain.hkdf ikm infoSessionKey).Nodup := by
    decide +kernel
  refine ⟨by rw [hresults]; exact hpeers, session_keys_nodup hcreate trivial _
    (injOn_of_nodup_map hroots ?_) (injOn_of_nodup_map hkeys ?_) ?_⟩
  · rintro ikm ⟨p, lam, hlam, hikm⟩
    rcases get_serverOfTwo hlam with ⟨-, hlam⟩ | ⟨-, hlam⟩
    · rw [hikm, hlam]
      exact List.mem_cons_self
    · rw [hikm, hlam]
      exact List.mem_cons_of_mem _ (List.mem_singleton_self _)
  · rw [hevents]
    rintro ikm ⟨x, hx, rfl⟩
    simp only [List.mem_cons, List.not_mem_nil, or_false] at hx
    rcases hx with rfl | rfl | rfl
    · exact List.mem_cons_self
    · exact List.mem_cons_of_mem _ List.mem_cons_self
    · exact List.mem_cons_of_mem _ (List.mem_cons_of_mem _ (List.mem_singleton_self _))
  · intro p p' lam hlam hlam'
    rcases get_serverOfTwo hlam with ⟨rfl, rfl⟩ | ⟨rfl, rfl⟩ <;>
      rcases get_serverOfTwo hlam' with ⟨rfl, h⟩ | ⟨rfl, h⟩
    · rfl
    · exact absurd h (by decide)
    · exact absurd h (by decide)
    · rfl

end Server

end HybridEccAuth

import HybridEccAuth.Library.Machine
import HybridEccAuth.Protocol.Device

/-!
# Responses that crash the device

What `Device.completeAuth` can raise.  In every reachable state a response is settled
(`Device.Settles`): it gives a key of 32 bytes or raises what the caller handles, and a
session that it consumes without a key counts as one failure of its peer.  There are two
exceptions (`Device.Crashes`): the server identity of the message is a list or a
dictionary while something is pending, or the response is in time for a pending session
and its nonce has a length that the cryptographic library does not take.
-/

namespace HybridEccAuth

namespace Device

variable {C : Crypto}

/-- What happens to a device: it builds a request, it completes one, or its policy blocks a peer. -/
inductive Action
  | build (env : BuildEnv) (peer : String)
  | complete (monotonic : ℚ) (data : Bytes)
  | block (peer : String)

/-- A device as a machine. -/
def step (D : Device C) : Action → Except Exc Bytes × Device C
  | .build env peer => D.buildAuthRequest env peer
  | .complete monotonic data => D.completeAuth monotonic data
  | .block peer => (.ok [], { D with sessionLog := D.sessionLog.block peer })

/-- The states of a device that was created over a credential, after any actions. -/
def Reachable (cred : Credential Lam Bytes) (D : Device C) : Prop :=
  ∃ nonceBits timeout maxAttempts epochClock D₀ actions,
    create cred nonceBits timeout maxAttempts epochClock = .ok D₀ ∧
      D = Machine.final step D₀ actions

/-- A device whose pending sessions are filed under their peers, with keys of 32 bytes and epochs of
64 bits. -/
def Valid (D : Device C) : Prop :=
  D.pending.Within fun id s =>
    s.peerIdentity = id ∧ s.kStar.length = keyLen ∧ 0 ≤ s.epoch ∧ s.epoch < 2 ^ 64

/-- What a response has to do: give a key of 32 bytes, or raise something that is handled; and
whatever the session log was, a session that is consumed without a key is one more failure of its
peer. -/
structure Settles (D : Device C) (monotonic : ℚ) (data : Bytes) : Prop where
  key_length : ∀ key, (D.completeAuth monotonic data).1 = .ok key → key.length = keyLen
  handled : ∀ e, (D.completeAuth monotonic data).1 = .error e → e.isHandled
  counted : ∀ id s, D.pending.get id = some s →
    (D.completeAuth monotonic data).2.pending.get id = none →
    (∃ e, (D.completeAuth monotonic data).1 = .error e) → ∀ log : SessionLog,
      ({ D with sessionLog := log }.completeAuth monotonic data).2.sessionLog =
        (log.recordFailure id).2

/-- A response that crashes the device: a well-formed message whose server identity is a list or a
dictionary while something is pending, or one that is in time for a pending session and has a nonce
that the library does not take. -/
def Crashes (D : Device C) (monotonic : ℚ) (data : Bytes) : Prop :=
  ∃ msg2, Message2.fromBytes data = .ok msg2 ∧
    (((∃ l, msg2.serverId = .arr l) ∨ ∃ l, msg2.serverId = .obj l) ∧ D.pending.size ≠ 0 ∨
      ∃ id s, lookupPending D.pending msg2.serverId = .ok (some (id, s)) ∧
        monotonic - s.createdAt ≤ D.sessionTimeout ∧
        ¬ (8 ≤ msg2.gcmNonce.length ∧ msg2.gcmNonce.length ≤ 128))

/-! ## The invariant -/

/-- A device that was created is valid. -/
lemma valid_create {cred : Credential Lam Bytes} {nonceBits maxAttempts : ℕ} {timeout : ℚ}
    {epochClock : Bool} {D : Device C}
    (h : create cred nonceBits timeout maxAttempts epochClock = .ok D) : D.Valid := by
  unfold create at h
  split_ifs at h
  cases h
  exact Dict.within_empty

/-- Every action keeps a device valid. -/
lemma Valid.step {D : Device C} (hD : D.Valid) (a : Action) : (D.step a).2.Valid := by
  rcases a with ⟨env, peer⟩ | ⟨monotonic, data⟩ | peer
  · change (D.buildAuthRequest env peer).2.Valid
    rcases hbuild : D.buildAuthRequest env peer with ⟨e | data, D'⟩
    · obtain ⟨E, -, rfl⟩ := buildAuthRequest_error hbuild
      exact hD
    · obtain ⟨lam, session, msg1, -, hcomp, -, -, -, -, -, -, hpending, -⟩ :=
        buildAuthRequest_ok hbuild
      have hkey : (D.credential.pairwiseRoot C lam).length = keyLen :=
        Credential.length_pairwiseRoot C _ lam
      obtain ⟨hpid, -, hsession, -⟩ := compose_eq hkey hcomp
      have hepoch := epoch_of_h2Pseudonym hpid
      unfold Valid
      rw [hpending]
      apply hD.set
      rw [hsession]
      exact ⟨rfl, hkey, hepoch⟩
  · obtain ⟨log, pending, heq, hpending⟩ := D.completeAuth_frame monotonic data
    change (D.completeAuth monotonic data).2.Valid
    rw [heq]
    rcases hpending with rfl | ⟨id, rfl⟩
    · exact hD
    · exact Dict.Within.mono (Dict.Within.eraseIf hD _) fun _ _ h => h.1
  · exact hD

/-- Every reachable device is valid. -/
theorem Reachable.valid {cred : Credential Lam Bytes} {D : Device C} (h : Reachable cred D) :
    D.Valid := by
  obtain ⟨nonceBits, timeout, maxAttempts, epochClock, D₀, actions, hcreate, rfl⟩ := h
  have hstep : ∀ (D : Device C) a, D.Valid → True → (D.step a).2.Valid := fun D a hD _ => hD.step a
  exact Machine.invariant_final hstep (valid_create hcreate)
    (Machine.allSteps_of_inputs fun _ _ => trivial)

/-! ## One response -/

/-- What a look-up raises: a `TypeError` about a list or a dictionary, when something is pending. -/
lemma lookupPending_error {pending : Dict String PendingSession} {sid : Json} {e : Exc} :
    lookupPending pending sid = .error e ↔
      (((∃ l, sid = .arr l) ∨ ∃ l, sid = .obj l) ∧ pending.size ≠ 0) ∧
        e = .ofLibrary .typeError := by
  unfold lookupPending
  split
  · simp
  · split_ifs with hsize
    · simp [hsize]
    · simp [hsize, eq_comm]
  · split_ifs with hsize
    · simp [hsize]
    · simp [hsize, eq_comm]
  · rename_i hstr harr hobj
    constructor
    · intro h
      cases h
    · rintro ⟨⟨⟨l, hl⟩ | ⟨l, hl⟩, -⟩, -⟩
      · exact (harr l hl).elim
      · exact (hobj l hl).elim

/-- A response to a pending session that is in time is settled exactly when the library takes its
nonce. -/
lemma verifyResponse_cases {D : Device C} {s : PendingSession} (hkey : s.kStar.length = keyLen)
    (hepoch : 0 ≤ s.epoch ∧ s.epoch < 2 ^ 64) (nonce ct tag : Bytes) :
    (¬ (8 ≤ nonce.length ∧ nonce.length ≤ 128) ∧ ∃ e, e.kind = .valueError ∧
      D.verifyResponse s nonce ct tag = (.error e, D)) ∨
    ((8 ≤ nonce.length ∧ nonce.length ≤ 128) ∧
      ((∃ e, e.kind = .integrityError ∧
        ∀ log, { D with sessionLog := log }.verifyResponse s nonce ct tag =
          (.error e, { D with sessionLog := (log.recordFailure s.peerIdentity).2 })) ∨
      ∃ key, key.length = keyLen ∧ (D.verifyResponse s nonce ct tag).1 = .ok key)) := by
  by_cases hnonce : 8 ≤ nonce.length ∧ nonce.length ≤ 128
  · right
    refine ⟨hnonce, ?_⟩
    rcases aeadDecrypt_of_good_nonce (C := C) ct tag (s.pid ++ s.nI) hkey hnonce with
      ⟨plaintext, hok⟩ | htag
    · by_cases hmatch : (fromBytesBE (lastBytes 8 plaintext) : ℤ) = s.epoch
      · right
        rw [verifyResponse, hok]
        dsimp only
        rw [if_neg (not_not.mpr hmatch), deriveSessionKey_of_range hepoch]
        exact ⟨_, C.length_hkdf _ _, rfl⟩
      · left
        refine ⟨⟨.integrityError,
          [.lit "server response epoch does not match the outstanding request"]⟩,
          rfl, fun log => ?_⟩
        rw [verifyResponse, hok]
        dsimp only
        rw [if_pos hmatch]
        rfl
    · left
      refine ⟨⟨.integrityError, [.lit "failed to verify server response (sigma_2/tag mismatch)"]⟩,
        rfl, fun log => ?_⟩
      rw [verifyResponse, htag]
      rfl
  · left
    obtain ⟨e, herr, hkind⟩ := aeadDecrypt_of_bad_nonce (C := C) ct tag (s.pid ++ s.nI) hkey hnonce
    refine ⟨hnonce, e, hkind, ?_⟩
    have hother : e.kind ≠ .invalidTag := by
      rw [hkind]
      decide
    rw [verifyResponse, herr]
    dsimp only
    rw [if_neg hother]

/-- What a response does to the session that it names, whatever the session log is. -/
lemma completeAuth_of_pending {D : Device C} (monotonic : ℚ) {data : Bytes} {msg2 : Message2 Json}
    {id : String} {s : PendingSession} (hparse : Message2.fromBytes data = .ok msg2)
    (hlook : lookupPending D.pending msg2.serverId = .ok (some (id, s))) (log : SessionLog) :
    { D with sessionLog := log }.completeAuth monotonic data =
      if D.sessionTimeout < monotonic - s.createdAt then
        (.error (timeoutError s.peerIdentity D.sessionTimeout),
          { D with
            pending := D.pending.erase id
            sessionLog := (log.recordFailure s.peerIdentity).2 })
      else { D with pending := D.pending.erase id, sessionLog := log }.verifyResponse s
      msg2.gcmNonce
        msg2.ciphertext msg2.tag := by
  rw [completeAuth, hparse]
  dsimp only
  rw [hlook]
  rfl

/-- A response that leaves everything pending is settled when what it raises is handled. -/
lemma settles_of_error {D : Device C} {monotonic : ℚ} {data : Bytes} {e : Exc}
    (h : D.completeAuth monotonic data = (.error e, D)) :
    D.Settles monotonic data ↔ e.isHandled := by
  refine ⟨fun hset => hset.handled e (by rw [h]), fun he => ⟨?_, ?_, ?_⟩⟩
  · intro key hkey
    rw [h] at hkey
    cases hkey
  · intro e' he'
    rw [h] at he'
    cases he'
    exact he
  · intro id s hsome hnone
    rw [h, hsome] at hnone
    cases hnone

/-- A response that consumes a session without a key is settled when what it raises is handled and
one failure was recorded. -/
lemma settles_of_failure {D : Device C} {monotonic : ℚ} {data : Bytes} {id : String} {e : Exc}
    (he : e.isHandled) (h : ∀ log : SessionLog,
      { D with sessionLog := log }.completeAuth monotonic data = (.error e,
        { D with pending := D.pending.erase id, sessionLog := (log.recordFailure id).2 })) :
    D.Settles monotonic data := by
  have hD := h D.sessionLog
  refine ⟨?_, ?_, ?_⟩
  · intro key hkey
    rw [hD] at hkey
    cases hkey
  · intro e' he'
    rw [hD] at he'
    cases he'
    exact he
  · intro id' s hsome hnone _ log
    rw [hD, Dict.get_erase] at hnone
    split_ifs at hnone with hid
    · rw [h log, hid]
    · rw [hsome] at hnone
      cases hnone

/-- A response is settled exactly when it does not crash the device. -/
theorem Valid.settles_iff {D : Device C} (hD : D.Valid) (monotonic : ℚ) (data : Bytes) :
    D.Settles monotonic data ↔ ¬ D.Crashes monotonic data := by
  rcases hparse : Message2.fromBytes data with e | msg2
  · have heq : D.completeAuth monotonic data = (.error e, D) := by
      rw [completeAuth, hparse]
    rw [settles_of_error heq]
    apply iff_of_true (Or.inr (Message2.kind_of_fromBytes hparse))
    rintro ⟨msg2, hok, -⟩
    rw [hparse] at hok
    cases hok
  have hcrash : D.Crashes monotonic data ↔
      ((∃ l, msg2.serverId = .arr l) ∨ ∃ l, msg2.serverId = .obj l) ∧ D.pending.size ≠ 0 ∨
        ∃ id s, lookupPending D.pending msg2.serverId = .ok (some (id, s)) ∧
          monotonic - s.createdAt ≤ D.sessionTimeout ∧
          ¬ (8 ≤ msg2.gcmNonce.length ∧ msg2.gcmNonce.length ≤ 128) := by
    unfold Crashes
    rw [hparse]
    simp
  rw [hcrash]
  rcases hlook : lookupPending D.pending msg2.serverId with e | _ | ⟨id, s⟩
  · -- the server identity cannot be hashed
    have heq : D.completeAuth monotonic data = (.error e, D) := by
      rw [completeAuth, hparse]
      dsimp only
      rw [hlook]
    obtain ⟨hsid, rfl⟩ := lookupPending_error.mp hlook
    rw [settles_of_error heq]
    exact iff_of_false (by decide) fun hnot => hnot (Or.inl hsid)
  · have heq : D.completeAuth monotonic data = (.error (noPendingError msg2.serverId), D) := by
      rw [completeAuth, hparse]
      dsimp only
      rw [hlook]
    rw [settles_of_error heq]
    apply iff_of_true (Or.inl rfl)
    rintro (hsid | ⟨id, s, hsome, -⟩)
    · rw [lookupPending_error.mpr ⟨hsid, rfl⟩] at hlook
      cases hlook
    · cases hsome
  · obtain ⟨⟨str, hsid, -⟩, hget⟩ := lookupPending_some hlook
    obtain ⟨rfl, hkey, hepoch⟩ := hD id s hget
    have hshape : ¬ (((∃ l, msg2.serverId = .arr l) ∨ ∃ l, msg2.serverId = .obj l) ∧
        D.pending.size ≠ 0) := by
      rw [hsid]
      simp
    have heq := completeAuth_of_pending monotonic hparse hlook
    by_cases hlate : D.sessionTimeout < monotonic - s.createdAt
    · -- the session is consumed by the timeout
      have hset : D.Settles monotonic data := by
        refine settles_of_failure ?_ fun log => (heq log).trans (if_pos hlate)
        exact Or.inl rfl
      apply iff_of_true hset
      rintro (hsid | ⟨id', s', hsome, htime, -⟩)
      · exact hshape hsid
      · cases hsome
        exact absurd hlate (not_lt.mpr htime)
    · have hverify := fun log => (heq log).trans (if_neg hlate)
      rcases verifyResponse_cases (D := { D with pending := D.pending.erase s.peerIdentity }) hkey
        hepoch msg2.gcmNonce msg2.ciphertext msg2.tag with
        ⟨hnonce, e, hkind, herr⟩ | ⟨hnonce, ⟨e, hkind, herr⟩ | ⟨key, hlen, hok⟩⟩
      · -- the library does not take the nonce
        have hraise : (D.completeAuth monotonic data).1 = .error e :=
          congrArg Prod.fst ((hverify D.sessionLog).trans herr)
        have hnot : ¬ e.isHandled := by
          unfold Exc.isHandled
          rw [hkind]
          decide
        refine iff_of_false (fun hset => hnot (hset.handled e hraise)) fun hgood =>
          hgood (Or.inr ?_)
        exact ⟨s.peerIdentity, s, rfl, not_lt.mp hlate, hnonce⟩
      · have hset : D.Settles monotonic data := by
          have hcount : ∀ log : SessionLog,
              { D with sessionLog := log }.completeAuth monotonic data =
              (.error e, { D with
                pending := D.pending.erase s.peerIdentity
                sessionLog := (log.recordFailure s.peerIdentity).2 }) :=
            fun log => (hverify log).trans (herr log)
          refine settles_of_failure (Or.inl ?_) hcount
          rw [hkind]
          rfl
        apply iff_of_true hset
        rintro (hsid | ⟨id', s', hsome, -, hbad⟩)
        · exact hshape hsid
        · exact hbad hnonce
      · have hkeyed : (D.completeAuth monotonic data).1 = .ok key :=
          (congrArg Prod.fst (hverify D.sessionLog)).trans hok
        have hset : D.Settles monotonic data := by
          refine ⟨?_, ?_, ?_⟩
          · intro key' hkey'
            rw [hkeyed] at hkey'
            cases hkey'
            exact hlen
          · intro e he
            rw [hkeyed] at he
            cases he
          · rintro id s _ _ ⟨e, he⟩
            rw [hkeyed] at he
            cases he
        apply iff_of_true hset
        rintro (hsid | ⟨id', s', hsome, -, hbad⟩)
        · exact hshape hsid
        · exact hbad hnonce

/-- In every reachable state a response is settled exactly when it does not crash the device. -/
theorem settles_unless_crash {cred : Credential Lam Bytes} {D : Device C} (hD : Reachable cred D)
    (monotonic : ℚ) (data : Bytes) : D.Settles monotonic data ↔ ¬ D.Crashes monotonic data :=
  hD.valid.settles_iff monotonic data

/-- The device of the sample pair, under the plain suite, after it has built a request to the
server. -/
def waitingOne : Device .plain :=
  ({ entity := { credential := deviceOne } } : Device .plain).step
    (.build ⟨fun _ => true, 0, .zeros, .zeros, 0⟩ "server-A") |>.2

/-- That device was created and has built a request. -/
lemma reachable_waitingOne : Reachable deviceOne waitingOne :=
  ⟨128, 5, 3, false, _, [.build _ _], rfl, rfl⟩

/-- A response that names the server and has nothing else. -/
def emptyResponse : Message2 String := ⟨"server-A", [], [], []⟩

/-- The empty response crashes the device. -/
lemma crashes_emptyResponse : waitingOne.Crashes 0 emptyResponse.toBytes := by
  have hsession : (waitingOne.pending.get "server-A").map PendingSession.createdAt = some 0 := by
    decide +kernel
  obtain ⟨s, hget, hcreated⟩ := Option.map_eq_some_iff.mp hsession
  refine ⟨_, Message2.fromBytes_toBytes _, Or.inr ⟨"server-A", s, ?_, ?_, ?_⟩⟩
  · exact (lookupPending_ofString _).trans (by rw [emptyResponse, hget]; rfl)
  · rw [hcreated]
    decide +kernel
  · decide

/-- The condition for the waiting device and the empty response. -/
theorem settles_unless_crash_waitingOne :
    waitingOne.Settles 0 emptyResponse.toBytes ↔ ¬ waitingOne.Crashes 0 emptyResponse.toBytes :=
  settles_unless_crash reachable_waitingOne 0 emptyResponse.toBytes

/-- The empty response is not settled. -/
theorem emptyResponse_not_settled :
    Reachable deviceOne waitingOne ∧ ¬ waitingOne.Settles 0 emptyResponse.toBytes := by
  refine ⟨reachable_waitingOne, ?_⟩
  rw [reachable_waitingOne.valid.settles_iff, not_not]
  exact crashes_emptyResponse

end Device

end HybridEccAuth

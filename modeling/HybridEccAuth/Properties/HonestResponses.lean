import HybridEccAuth.Protocol.Device
import HybridEccAuth.Protocol.Server

/-!
# Responses of honest servers

What a device does with an answer that a server has given to one of its requests.  When
the request is the one that is pending and the answer comes in time, the device derives
the session key of the server (`Device.completeAuth_answer`); an answer to an earlier
request fails the pending one (`Device.completeAuth_mismatch`).
-/

namespace HybridEccAuth

variable {C : Crypto}

/-- What a server opens an honest request as, from what the device remembers of it. -/
def PendingSession.opened (s : PendingSession) (device : String) : Opened :=
  ⟨s.pid, device, s.epoch, s.nI, s.kStar⟩

namespace Device

variable {D : Device C} {V R : String} {nonceBits : ℕ} {env : ServerEnv} {s s' : PendingSession}
  {result : AuthResult}

/-- The device after a response has failed the pending session of a server. -/
def failed (D : Device C) (R : String) : Device C :=
  { D with pending := D.pending.erase R, sessionLog := (D.sessionLog.recordFailure R).2 }

/-- The device after a response has completed the pending session of a server. -/
def succeeded (D : Device C) (R : String) : Device C :=
  { D with pending := D.pending.erase R, sessionLog := D.sessionLog.recordSuccess R }

/-- The parts of an answer. -/
lemma exists_of_respond (hkey : s.kStar.length = keyLen)
    (hresp : respond C R nonceBits env (s.opened V) = .ok result) :
    ∃ iv nJ : Bytes, iv.length = gcmNonceLen ∧ (0 ≤ s.epoch ∧ s.epoch < 2 ^ 64) ∧
      result.responseBytes = Message2.toBytes
        { serverId := R
          gcmNonce := iv
          ciphertext := C.gcmCrypt s.kStar iv (nJ ++ toBytesBE 8 s.epoch.toNat)
          tag := C.gcmTag s.kStar iv (s.pid ++ s.nI)
            (C.gcmCrypt s.kStar iv (nJ ++ toBytesBE 8 s.epoch.toNat)) } ∧
      result.sessionKey = sessionKey C s.kStar s.nI nJ s.epoch.toNat := by
  obtain ⟨hbits, hepoch⟩ := respond_ok hresp
  rw [respond_eq hbits hepoch hkey] at hresp
  obtain rfl := Except.ok.inj hresp
  exact ⟨env.iv.draw gcmNonceLen, env.nonce.draw (nonceBits / 8), env.iv.length_draw _, hepoch, rfl,
    rfl⟩

/-- What the device does with an answer is decided by the pending session of the server. -/
lemma completeAuth_of_bytes (D : Device C) (monotonic : ℚ) (m : Message2 String) :
    D.completeAuth monotonic m.toBytes =
      match D.pending.get m.serverId with
      | none => (.error (noPendingError (.str (Str.ofString m.serverId))), D)
      | some s =>
        if D.sessionTimeout < monotonic - s.createdAt then
          (.error (timeoutError s.peerIdentity D.sessionTimeout),
            { D with pending := D.pending.erase m.serverId }.fail s.peerIdentity)
        else { D with pending := D.pending.erase m.serverId }.verifyResponse s m.gcmNonce
        m.ciphertext
          m.tag := by
  rw [completeAuth, Message2.fromBytes_toBytes]
  dsimp only
  rw [lookupPending_ofString]
  rcases D.pending.get m.serverId with _ | s <;> rfl

/-- An answer for which nothing is pending changes nothing. -/
lemma completeAuth_unexpected (hkey : s.kStar.length = keyLen)
    (hresp : respond C R nonceBits env (s.opened V) = .ok result) (hnone : D.pending.get R = none)
    (monotonic : ℚ) : ∃ e, D.completeAuth monotonic result.responseBytes = (.error e, D) := by
  obtain ⟨iv, nJ, -, -, hbytes, -⟩ := exists_of_respond hkey hresp
  rw [hbytes, completeAuth_of_bytes]
  dsimp only
  rw [hnone]
  exact ⟨_, rfl⟩

/-- An answer that comes too late fails the pending session. -/
lemma completeAuth_late (hkey : s.kStar.length = keyLen)
    (hresp : respond C R nonceBits env (s.opened V) = .ok result)
    (hpending : D.pending.get R = some s') (hpeer : s'.peerIdentity = R) {monotonic : ℚ}
    (hlate : D.sessionTimeout < monotonic - s'.createdAt) :
    D.completeAuth monotonic result.responseBytes =
      (.error (timeoutError R D.sessionTimeout), D.failed R) := by
  obtain ⟨iv, nJ, -, -, hbytes, -⟩ := exists_of_respond hkey hresp
  rw [hbytes, completeAuth_of_bytes]
  dsimp only
  rw [hpending]
  dsimp only
  rw [if_pos hlate, hpeer]
  rfl

/-- An answer to the pending request that comes in time gives the session key of the server. -/
theorem completeAuth_answer (hkey : s.kStar.length = keyLen)
    (hresp : respond C R nonceBits env (s.opened V) = .ok result)
    (hpending : D.pending.get R = some s) (hpeer : s.peerIdentity = R) {monotonic : ℚ}
    (htime : ¬ D.sessionTimeout < monotonic - s.createdAt) :
    D.completeAuth monotonic result.responseBytes = (.ok result.sessionKey, D.succeeded R) := by
  obtain ⟨iv, nJ, hiv, hepoch, hbytes, hsession⟩ := exists_of_respond hkey hresp
  have hdec : aeadDecrypt C s.kStar iv (C.gcmCrypt s.kStar iv (nJ ++ toBytesBE 8 s.epoch.toNat))
      (C.gcmTag s.kStar iv (s.pid ++ s.nI)
        (C.gcmCrypt s.kStar iv (nJ ++ toBytesBE 8 s.epoch.toNat)))
      (s.pid ++ s.nI) = .ok (nJ ++ toBytesBE 8 s.epoch.toNat) :=
    aeadDecrypt_eq_ok_iff.mpr ⟨hkey, by rw [hiv]; decide, rfl⟩
  have hlast : lastBytes 8 (nJ ++ toBytesBE 8 s.epoch.toNat) = toBytesBE 8 s.epoch.toNat :=
    lastBytes_append (length_toBytesBE _ _)
  have hread : (fromBytesBE (toBytesBE 8 s.epoch.toNat) : ℤ) = s.epoch := by
    rw [fromBytesBE_toBytesBE_of_lt (by omega)]
    exact Int.toNat_of_nonneg hepoch.1
  rw [hbytes, completeAuth_of_bytes]
  dsimp only
  rw [hpending]
  dsimp only
  rw [if_neg htime, verifyResponse, hdec]
  dsimp only
  rw [hlast, hread, if_neg (fun h => h rfl), dropLastBytes_append (length_toBytesBE _ _),
    deriveSessionKey_of_range hepoch, hsession, hpeer]
  rfl

/-- An answer to a request of another epoch fails the pending session, whatever it decrypts to. -/
theorem completeAuth_mismatch (hkey : s.kStar.length = keyLen)
    (hresp : respond C R nonceBits env (s.opened V) = .ok result)
    (hpending : D.pending.get R = some s') (hpeer : s'.peerIdentity = R)
    (hroot : s'.kStar = s.kStar)
    (hother : s'.epoch ≠ s.epoch) {monotonic : ℚ}
    (htime : ¬ D.sessionTimeout < monotonic - s'.createdAt) :
    ∃ e, D.completeAuth monotonic result.responseBytes = (.error e, D.failed R) := by
  obtain ⟨iv, nJ, hiv, hepoch, hbytes, -⟩ := exists_of_respond hkey hresp
  have hlast : lastBytes 8 (nJ ++ toBytesBE 8 s.epoch.toNat) = toBytesBE 8 s.epoch.toNat :=
    lastBytes_append (length_toBytesBE _ _)
  have hread : (fromBytesBE (toBytesBE 8 s.epoch.toNat) : ℤ) = s.epoch := by
    rw [fromBytesBE_toBytesBE_of_lt (by omega)]
    exact Int.toNat_of_nonneg hepoch.1
  rw [hbytes, completeAuth_of_bytes]
  dsimp only
  rw [hpending]
  dsimp only
  rw [if_neg htime, verifyResponse, hroot]
  dsimp only
  have hnonce : 8 ≤ iv.length ∧ iv.length ≤ 128 := by
    rw [hiv]
    decide
  -- the key stream does not depend on the associated data, so the epoch is read in either case
  rcases aeadDecrypt_of_good_nonce (C := C)
    (C.gcmCrypt s.kStar iv (nJ ++ toBytesBE 8 s.epoch.toNat))
    (C.gcmTag s.kStar iv (s.pid ++ s.nI) (C.gcmCrypt s.kStar iv (nJ ++ toBytesBE 8 s.epoch.toNat)))
    (s'.pid ++ s'.nI) hkey hnonce with ⟨p, hdec⟩ | hdec
  · have hp : p = nJ ++ toBytesBE 8 s.epoch.toNat := by
      obtain ⟨-, -, heq⟩ := aeadDecrypt_eq_ok_iff.mp hdec
      obtain ⟨hcrypt, -⟩ := List.append_inj' heq (by rw [C.length_gcmTag, C.length_gcmTag])
      rw [← C.gcmCrypt_gcmCrypt s.kStar iv p, ← hcrypt, C.gcmCrypt_gcmCrypt]
    rw [hdec]
    dsimp only
    rw [hp, hlast, hread, if_pos hother.symm, hpeer]
    exact ⟨_, rfl⟩
  · rw [hdec]
    dsimp only
    have hkind : (Exc.ofLibrary .invalidTag).kind = .invalidTag := rfl
    rw [if_pos hkind, hpeer]
    exact ⟨_, rfl⟩

end Device

end HybridEccAuth

import HybridEccAuth.HeaProto.Checked
import HybridEccAuth.HeaProto.WireTexts
import HybridEccAuth.Protocol.Device

/-!
# The two implementations of the device

The C device and the Python device, over one suite of primitives.  From the same
secrets, counter and random bytes they build the same M1 and remember the same request
(`heaBuildM1_eq_buildAuthRequest`), and what the C device accepts as an answer the
Python device accepts with the same session key
(`completeAuth_of_heaComplete`).
-/

namespace HybridEccAuth.HeaProto

variable {C : Crypto}

/-! ## Requests -/

/-- A long-term secret as an array. -/
def lamBlock (lam : Lam) : Block 32 := ⟨Lam.toBytes lam, length_toBytesBE 32 _⟩

/-- The text of M1 is what the Python message is written as. -/
lemma m1Text_eq_toBytes (m : Message1) :
    m1Text (b64Encode m.pid) (b64Encode m.gcmNonce) (b64Encode m.ciphertext) (b64Encode m.tag) =
      m.toBytes := by
  have hkind : jsonEscape (Str.ofString "M1") = asciiBytes "M1" := by decide
  have hname : jsonEscape (Str.ofString "pid") = asciiBytes "pid" := by decide
  rw [Message1.toBytes, jsonDumps_payloadMembers, jsonEscape_b64, hkind, hname]
  simp only [b64Encode_eq_b64encode, m1Text, payloadText]
  simp [asciiBytes, quoted]

/-- The pseudonyms are the same. -/
lemma h2Pseudonym_eq_sha256Pid (C : Crypto) (lam : Lam) (e : UInt64) :
    h2Pseudonym C lam e.toNat = .ok (sha256Pid C (Lam.toBytes lam) e) := by
  have he := e.toNat_lt
  rw [h2Pseudonym_eq_ok_iff]
  refine ⟨⟨by omega, by omega⟩, ?_⟩
  rw [sha256Pid, putU64_eq, Int.toNat_natCast]

/-- Both devices build the same request from the same secrets, counter value and random bytes, and
remember the same. -/
lemma exists_build_heaBuildM1 (D : Device C) (env : BuildEnv) (peer : String)
    (lamServer : Lam) (serverId : Bytes) (e : UInt64) (he : e.toNat < 2 ^ 64 - 1)
    (hrole : D.credential.role = .device)
    (hpeer : D.credential.peerSecrets.get peer = some lamServer) (hbits : D.nonceBits = 128)
    (hclock : D.epochClock = false) (hepoch : D.nextEpoch peer = e.toNat)
    (hblocked : D.sessionLog.isBlocked peer = false) (hcoverage : env.coverage peer = true) :
    ∃ data D' session, D.buildAuthRequest env peer = (.ok data, D') ∧
      D'.pending.get peer = some session ∧ D'.nextEpoch peer = e.toNat + 1 ∧
      let d := heaInit C (lamBlock D.credential.lam) (lamBlock lamServer) serverId e
      (∀ cap, data.length < cap →
        let built := heaBuildM1 C d env.nonce env.iv cap
        built.len = data.length ∧ built.out = data ∧
          built.pending.pid.val = session.pid ∧ built.pending.nI.val = session.nI ∧
          (built.pending.epoch.toNat : ℤ) = session.epoch ∧ d.kStar.val = session.kStar ∧
          built.device.epoch.toNat = e.toNat + 1) ∧
      let iv := env.iv.draw 12
      let (ct, tag) := gcmRun C d.kStar.val iv []
        (session.pid ++ session.nI ++ putU64 e) true
      data = (Message1.mk session.pid iv ct tag).toBytes := by
  have hreq : D.requestEpoch env peer = e.toNat := by
    rw [Device.requestEpoch, hclock, if_neg (by decide), hepoch]
  have h64 := e.toNat_lt
  obtain ⟨data, D', hbuild⟩ := Device.exists_buildAuthRequest hblocked hcoverage hpeer
    (by rw [hbits]; decide) (by rw [hreq]; omega)
  obtain ⟨lam, session, msg1, hlam, hcomp, hdata, -, -, -, -, -, hpending, -⟩ :=
    Device.buildAuthRequest_ok hbuild
  obtain rfl : lamServer = lam := Option.some.inj (hpeer.symm.trans hlam)
  obtain ⟨hpid, -, hsession, hmsg⟩ :=
    Device.compose_eq (Credential.length_pairwiseRoot C D.credential lamServer) hcomp
  rw [hreq] at hpid hsession hmsg
  have hpid' : session.pid = sha256Pid C (Lam.toBytes D.credential.lam) e :=
    Except.ok.inj (hpid.symm.trans (h2Pseudonym_eq_sha256Pid C D.credential.lam e))
  have hnI : session.nI = env.nonce.draw 16 := by rw [hsession, hbits]
  have hsessionEpoch : session.epoch = e.toNat := by rw [hsession]
  have hkStar : session.kStar = hkdf32 C (Lam.toBytes D.credential.lam ++ Lam.toBytes lamServer)
      infoRoot := by
    rw [hsession]
    dsimp only
    rw [Credential.pairwiseRoot, hrole]
    rfl
  have hroot : D.credential.pairwiseRoot C lamServer = session.kStar := by rw [hsession]
  rw [hroot, Int.toNat_natCast, ← putU64_eq] at hmsg
  have htext : m1Text (b64Encode session.pid) (b64Encode (env.iv.draw 12))
      (b64Encode
        (C.gcmCrypt session.kStar (env.iv.draw 12) (session.pid ++ session.nI ++ putU64 e)))
      (b64Encode (C.gcmTag session.kStar (env.iv.draw 12) [] (C.gcmCrypt session.kStar
        (env.iv.draw 12) (session.pid ++ session.nI ++ putU64 e)))) = data := by
    rw [hdata, hmsg]
    exact m1Text_eq_toBytes ⟨session.pid, env.iv.draw 12, _, _⟩
  refine ⟨data, D', session, hbuild, ?_, ?_, ?_, ?_⟩
  · rw [hpending, Dict.get_set, if_pos rfl]
  · rw [Device.nextEpoch_of_build hbuild hclock, hepoch]
  · intro cap hcap
    have hnext : (e + 1).toNat = e.toNat + 1 := by
      rw [UInt64.toNat_add, UInt64.toNat_one]
      exact Nat.mod_eq_of_lt (by omega)
    have hfits : ¬ cap ≤ data.length := not_le.mpr hcap
    dsimp only [heaBuildM1, heaInit, lamBlock, gcmRun]
    simp only [← hpid', ← hnI, ← hkStar, if_true, htext, if_neg hfits, hsessionEpoch, hnext,
      and_self]
  · dsimp only [heaInit, lamBlock, gcmRun]
    rw [← hkStar, if_pos rfl, hdata, hmsg]
    rfl

/-- `hea_init` and `hea_build_m1` build the M1 that `Device.build_auth_request` builds from the same
secrets, counter value and random bytes, and remember the same request; and `Message1.from_bytes`
reads back what it was built from. -/
theorem heaBuildM1_eq_buildAuthRequest (D : Device C) (env : BuildEnv) (peer : String)
    (lamServer : Lam) (serverId : Bytes) (e : UInt64) (he : e.toNat < 2 ^ 64 - 1)
    (hrole : D.credential.role = .device)
    (hpeer : D.credential.peerSecrets.get peer = some lamServer) (hbits : D.nonceBits = 128)
    (hclock : D.epochClock = false) (hepoch : D.nextEpoch peer = e.toNat)
    (hblocked : D.sessionLog.isBlocked peer = false) (hcoverage : env.coverage peer = true) :
    ∃ data D' session, D.buildAuthRequest env peer = (.ok data, D') ∧
      D'.pending.get peer = some session ∧ D'.nextEpoch peer = e.toNat + 1 ∧
      let d := heaInit C (lamBlock D.credential.lam) (lamBlock lamServer) serverId e
      (∀ cap, data.length < cap →
        let built := heaBuildM1 C d env.nonce env.iv cap
        built.len = data.length ∧ built.out = data ∧
          built.pending.pid.val = session.pid ∧ built.pending.nI.val = session.nI ∧
          (built.pending.epoch.toNat : ℤ) = session.epoch ∧ d.kStar.val = session.kStar ∧
          built.device.epoch.toNat = e.toNat + 1) ∧
      let iv := env.iv.draw 12
      let (ct, tag) := gcmRun C d.kStar.val iv []
        (session.pid ++ session.nI ++ putU64 e) true
      Message1.fromBytes data = .ok ⟨session.pid, iv, ct, tag⟩ := by
  obtain ⟨data, D', session, hbuild, hpending, hnext, hsame, hdata⟩ :=
    exists_build_heaBuildM1 D env peer lamServer serverId e he hrole hpeer hbits hclock hepoch
      hblocked hcoverage
  exact ⟨data, D', session, hbuild, hpending, hnext, hsame,
    hdata ▸ Message1.fromBytes_toBytes _⟩

/-- The first request of a device with the secret 1 to a server with the secret 2. -/
theorem heaBuildM1_eq_buildAuthRequest_deviceOne :
    ∃ data D', ({ entity := { credential := deviceOne } } : Device .plain).buildAuthRequest
        ⟨fun _ => true, 0, .zeros, .zeros, 0⟩ "server-A" = (.ok data, D') ∧
      ∀ cap, data.length < cap →
        (heaBuildM1 .plain (heaInit .plain (lamBlock 1) (lamBlock 2) (asciiBytes "server-A") 0)
          .zeros .zeros cap).out = data := by
  obtain ⟨data, D', session, hbuild, -, -, hsame, -⟩ :=
    heaBuildM1_eq_buildAuthRequest ({ entity := { credential := deviceOne } } : Device .plain)
      ⟨fun _ => true, 0, .zeros, .zeros, 0⟩ "server-A" 2 (asciiBytes "server-A") 0 (by decide) rfl
      (by decide) rfl rfl (by decide) (by decide) rfl
  exact ⟨data, D', hbuild, fun cap hcap => (hsame cap hcap).2.1⟩

/-! ## Answers -/

/-- A Python device waits, at a time, for the answer to the request of the C device, from the server
`id` with the same pairwise root. -/
def Awaits (D : Device C) (id : String) (d : HeaDevice) (p : HeaPending) (now : ℚ) : Prop :=
  ∃ session, D.pending.get id = some session ∧ session.pid = p.pid.val ∧
    session.nI = p.nI.val ∧ session.epoch = p.epoch.toNat ∧ session.kStar = d.kStar.val ∧
    now - session.createdAt ≤ D.sessionTimeout

/-- What the C device verifies, the library decrypts. -/
lemma aeadDecrypt_of_tag {kStar iv aad ct tag : Bytes} (hkey : kStar.length = keyLen)
    (hiv : iv.length = 12) (htag : C.gcmTag kStar iv aad ct = tag) :
    aeadDecrypt C kStar iv ct tag aad = .ok (C.gcmCrypt kStar iv ct) := by
  rw [aeadDecrypt_eq_ok_iff]
  refine ⟨hkey, by omega, ?_⟩
  rw [aesGcmEncrypt, C.gcmCrypt_gcmCrypt, htag]

/-- The epoch at the end of a plaintext, as both devices read it. -/
lemma fromBytesBE_of_getU64 {pt : Bytes} {e : UInt64} (hlen : 8 ≤ pt.length)
    (h : getU64 (lastBytes 8 pt) = e) : fromBytesBE (lastBytes 8 pt) = e.toNat := by
  have hlast : (lastBytes 8 pt).length = 8 := by
    rw [lastBytes, List.length_drop]
    omega
  rw [← h, toNat_getU64 hlast]

/-- An M2 that the C device verifies gives a waiting Python device the same key. -/
lemma completeAuth_of_verifyM2 {D : Device C} {id : String} {d : HeaDevice} {p : HeaPending}
    {now : ℚ} (hD : Awaits D id d p now) {m : M2Fields} {key : Bytes} (hiv : m.iv.length = 12)
    (htag : m.tag.length = 16) (hct : 9 ≤ m.ct.length ∧ m.ct.length ≤ 64)
    (h : verifyM2 C d p m = .ok key) :
    (D.completeAuth now (Message2.toBytes ⟨id, m.iv, m.ct, m.tag⟩)).1 = .ok key := by
  obtain ⟨session, hget, hpid, hnI, hsession, hkStar, htime⟩ := hD
  obtain ⟨hverify, hepoch, hkey⟩ := (verifyM2_eq_ok_iff htag hct.2).mp h
  have hdec : aeadDecrypt C session.kStar m.iv m.ct m.tag (session.pid ++ session.nI) =
      .ok (C.gcmCrypt d.kStar.val m.iv m.ct) := by
    rw [hkStar, hpid, hnI]
    exact aeadDecrypt_of_tag d.kStar.property hiv hverify
  have hread : fromBytesBE (lastBytes 8 (C.gcmCrypt d.kStar.val m.iv m.ct)) = p.epoch.toNat :=
    fromBytesBE_of_getU64 (by rw [C.length_gcmCrypt]; omega) hepoch
  have hrange : 0 ≤ session.epoch ∧ session.epoch < 2 ^ 64 := by
    have := p.epoch.toNat_lt
    omega
  have hderive : deriveSessionKey C session.kStar session.nI
      (dropLastBytes 8 (C.gcmCrypt d.kStar.val m.iv m.ct)) session.epoch = .ok key := by
    rw [deriveSessionKey_of_range hrange, hkey, hkStar, hnI, hsession, putU64_eq, Int.toNat_natCast]
    rfl
  have hlook : lookupPending D.pending (.str (Str.ofString id)) = .ok (some (id, session)) := by
    rw [Device.lookupPending_ofString, hget]
    rfl
  rw [Device.completeAuth, Message2.fromBytes_toBytes]
  dsimp only
  rw [hlook]
  dsimp only
  rw [if_neg (not_lt.mpr htime), Device.verifyResponse]
  dsimp only
  rw [hdec]
  dsimp only
  rw [hread, if_neg (not_not.mpr hsession.symm)]
  exact hderive

/-- Whatever envelope the C device accepts, its arrays holding anything before, the fields that it
read from it form an M2 which a Python device that waits for the same answer accepts with the same
session key, however the bytes of the server identity are read as text; and an envelope that the C
device does not accept leaves the caller's session key as it was. -/
theorem completeAuth_of_heaComplete (f : Checked.Frame) (d : HeaDevice) (p : HeaPending)
    (envelope : Bytes) (out : CallerBuffers) {r : ℤ × CallerBuffers}
    (hreturns : Checked.heaComplete C f d p envelope out = .ok r) :
    (r.1 = 0 → ∃ m, readM2 d (cString envelope) = .ok m ∧ m.sid = cString d.serverId.val ∧
      ∀ (D : Device C) (text : Bytes → String) (now : ℚ), Awaits D (text m.sid) d p now →
        (D.completeAuth now (Message2.toBytes ⟨text m.sid, m.iv, m.ct, m.tag⟩)).1 =
          .ok r.2.sessionKey) ∧
    (r.1 ≠ 0 → r.2.sessionKey = out.sessionKey) := by
  have hinside : ¬ Checked.Overflows C d p envelope := fun hover => by
    rw [Checked.heaComplete_of_overflows C f d p hover] at hreturns
    cases hreturns
  rw [Checked.heaComplete_eq C f d p hinside] at hreturns
  obtain rfl := Except.ok.inj hreturns
  refine ⟨fun h => ?_, sessionKey_heaComplete⟩
  obtain ⟨m, key, -, -, hread, hverify, hresult⟩ := heaComplete_eq_zero_iff.mp h
  obtain ⟨hiv, htag, hct⟩ := length_of_readM2 hread
  obtain ⟨-, -, -, -, hsid, -⟩ := readM2_eq_ok_iff.mp hread
  refine ⟨m, hread, hsid, fun D text now hD => ?_⟩
  rw [hresult]
  exact completeAuth_of_verifyM2 hD hiv htag hct hverify

/-- The C device with the secret 1, which asks the server with the secret 2. -/
def deviceOneC : HeaDevice :=
  heaInit .plain (lamBlock 1) (lamBlock 2) (asciiBytes "server-A") 0

/-- Its first request. -/
def pendingOneC : HeaPending := (heaBuildM1 .plain deviceOneC .zeros .zeros 512).pending

/-- A Python device that waits, since the time 0, for the answer to a request of the C device. -/
def awaiting (d : HeaDevice) (p : HeaPending) : Device .plain where
  entity := { credential := deviceOne }
  pending := Dict.empty.set "server-A"
    { peerIdentity := "server-A", epoch := p.epoch.toNat, pid := p.pid.val, nI := p.nI.val,
      kStar := d.kStar.val, createdAt := 0 }

/-- It does so. -/
lemma awaits_awaiting (d : HeaDevice) (p : HeaPending) :
    Awaits (awaiting d p) "server-A" d p 0 := by
  refine ⟨_, Dict.get_set _ _ _ _, rfl, rfl, rfl, rfl, ?_⟩
  show (0 : ℚ) - 0 ≤ defaultSessionTimeoutSeconds
  norm_num [defaultSessionTimeoutSeconds]

/-- An M2 of that server for epoch 0, in the plain suite. -/
def responseOne : Message2 String where
  serverId := "server-A"
  gcmNonce := List.replicate 12 0
  ciphertext := List.replicate 16 0 ++ toBytesBE 8 0
  tag := toBytesBE 16 0

/-- The C device accepts the envelope of that M2, and the Python device what it has read from it. -/
theorem completeAuth_of_heaComplete_responseOne : ∃ envelope r m,
    buildOkEnvelope responseOne.toBytes = .ok envelope ∧
    Checked.heaComplete .plain .zeros deviceOneC pendingOneC envelope ⟨[], [], 0⟩ = .ok r ∧
    r.1 = 0 ∧ r.2.sessionKey.length = 32 ∧ readM2 deviceOneC (cString envelope) = .ok m ∧
    ((awaiting deviceOneC pendingOneC).completeAuth 0
      (Message2.toBytes ⟨"server-A", m.iv, m.ct, m.tag⟩)).1 =
      .ok r.2.sessionKey := by
  have henvelope : buildOkEnvelope responseOne.toBytes =
      .ok (jsonDumps .spaced (okMembers (Str.ofBytes responseOne.toBytes))) :=
    toOption_eq_some_iff.mp (by decide +kernel)
  have hread : (readM2 deviceOneC (cString (jsonDumps .spaced (okMembers (Str.ofBytes
      responseOne.toBytes))))).toOption.map (fun m => m.ct.length) = some 24 := by
    decide +kernel
  have hzero : (heaComplete .plain deviceOneC pendingOneC (jsonDumps .spaced (okMembers (Str.ofBytes
        responseOne.toBytes))) ⟨[], [], 0⟩).1 = 0 ∧
      (heaComplete .plain deviceOneC pendingOneC (jsonDumps .spaced (okMembers (Str.ofBytes
        responseOne.toBytes))) ⟨[], [], 0⟩).2.sessionKey.length = 32 := by
    decide +kernel
  generalize jsonDumps .spaced (okMembers (Str.ofBytes responseOne.toBytes)) = envelope
    at henvelope hread hzero
  -- N_j has 16 bytes, so the call stays inside of its arrays
  have hinside : ¬ Checked.Overflows .plain deviceOneC pendingOneC envelope := by
    rintro ⟨-, -, m, hm, -, -, hover⟩
    rw [hm] at hread
    have hlength : m.ct.length = 24 := Option.some.inj hread
    omega
  have hreturns := Checked.heaComplete_eq .plain .zeros deviceOneC pendingOneC hinside ⟨[], [], 0⟩
  obtain ⟨m, hm, -, hcomplete⟩ := (completeAuth_of_heaComplete .zeros deviceOneC pendingOneC _ _
    hreturns).1 hzero.1
  exact ⟨envelope, _, m, henvelope, hreturns, hzero.1, hzero.2, hm,
    hcomplete _ (fun _ => "server-A") 0 (awaits_awaiting deviceOneC pendingOneC)⟩

end HybridEccAuth.HeaProto

import HybridEccAuth.HeaProto.Base64
import HybridEccAuth.HeaProto.JsonField
import HybridEccAuth.Protocol.Entity
import Mathlib.Data.List.TakeWhile

/-!
# The C device

`hea_init`, `hea_build_m1` and `hea_complete` of `hea_proto.c`, the device side of the
protocol on a microcontroller.  An array of the C code is a byte string of its size, a
C string a byte string without its terminator.  A buffer is as large as the values
that are put into it; what happens at its end is in `HeaProto.Checked`.

`heaComplete_eq_zero_iff` says what an envelope for which `hea_complete` returns `0`
consists of, and `sessionKey_heaComplete` that otherwise no key is written.
-/

namespace HybridEccAuth.HeaProto

/-! ## Data -/

/-- An array of `n` bytes. -/
abbrev Block (n : ℕ) := { bs : Bytes // bs.length = n }

/-- The C string in an array of characters. -/
def cString (bs : Bytes) : Bytes := bs.takeWhile (· ≠ 0)

/-- A C string does not contain its terminator. -/
lemma not_mem_cString (bs : Bytes) : 0 ∉ cString bs := by
  intro h
  simpa using List.mem_takeWhile_imp h

/-- Characters that are not the terminator belong to the C string. -/
lemma cString_append {bs : Bytes} (h : 0 ∉ bs) (rest : Bytes) :
    cString (bs ++ rest) = bs ++ cString rest := by
  apply List.takeWhile_append_of_pos
  intro b hb
  have hb0 : b ≠ 0 := fun h0 => h (h0 ▸ hb)
  simpa using hb0

/-- Without a terminator all characters belong to the C string. -/
lemma cString_of_not_mem {bs : Bytes} (h : 0 ∉ bs) : cString bs = bs := by
  simpa [cString] using cString_append h []

/-- `hea_device`. -/
structure HeaDevice where
  lam : Block 32
  kStar : Block 32
  serverId : Block 32
  /-- The next epoch to use. -/
  epoch : UInt64
  /-- The identity of the server is a C string. -/
  terminated : 0 ∈ serverId.val

/-- `hea_pending`. -/
structure HeaPending where
  pid : Block 32
  nI : Block 16
  epoch : UInt64

/-- What the caller of `hea_complete` passes for its results: the buffer of the session key, the
text in `err`, and the size of that buffer, which is `0` when there is none. -/
structure CallerBuffers where
  sessionKey : Bytes
  err : Bytes
  errCap : ℕ

/-- The error codes. -/
inductive HeaError
  | rejected
  | format
  | integrity
  | epoch
  deriving DecidableEq

/-- The value of an error code. -/
def HeaError.code : HeaError → ℤ
  | .rejected => -1
  | .format => -2
  | .integrity => -3
  | .epoch => -4

/-! ## Primitives -/

/-- The loop of `put_u64`: the last `n` bytes, from the end. -/
def putU64Loop : ℕ → UInt64 → Bytes
  | 0, _ => []
  | n + 1, v => putU64Loop n (v >>> 8) ++ [v.toUInt8]

/-- `put_u64`. -/
def putU64 (v : UInt64) : Bytes := putU64Loop 8 v

/-- `get_u64`. -/
def getU64 (o : Bytes) : UInt64 := (o.take 8).foldl (fun v b => v <<< (8 : UInt64) ||| b.toUInt64) 0

/-- `sha256_pid`. -/
def sha256Pid (C : Crypto) (lam : Bytes) (epoch : UInt64) : Bytes := C.sha256 (lam ++ putU64 epoch)

/-- `hkdf32`. -/
def hkdf32 (C : Crypto) (ikm info : Bytes) : Bytes := C.hkdf ikm info

/-- `gcm_run`: the data after it was encrypted or decrypted in place, and the computed tag. -/
def gcmRun (C : Crypto) (key iv aad data : Bytes) (encrypt : Bool) : Bytes × Bytes :=
  let out := C.gcmCrypt key iv data
  (out, C.gcmTag key iv aad (if encrypt then out else data))

/-- `INFO_ROOT`. -/
def infoRoot : Bytes := asciiBytes "hybrid-ecc-auth/pairwise-root/v1"

/-- `INFO_SESSION`. -/
def infoSession : Bytes := asciiBytes "hybrid-ecc-auth/session-key/v1"

/-- The last eight bytes that are written are the number. -/
lemma putU64_eq (v : UInt64) : putU64 v = toBytesBE 8 v.toNat := by
  have hloop : ∀ n (v : UInt64), putU64Loop n v = toBytesBE n v.toNat := by
    intro n
    induction n with
    | zero => exact fun _ => rfl
    | succ n ih =>
      intro v
      have hshift : (v >>> 8).toNat = v.toNat / 256 := by
        rw [UInt64.toNat_shiftRight, Nat.shiftRight_eq_div_pow]
        rfl
      have hlow : v.toUInt8 = UInt8.ofNat v.toNat := by
        apply UInt8.toNat_inj.mp
        simp
      rw [putU64Loop, toBytesBE, ih, hshift, hlow]
  exact hloop 8 v

/-- Eight bytes are read as the number they write. -/
lemma toNat_getU64 {o : Bytes} (h : o.length = 8) : (getU64 o).toNat = fromBytesBE o := by
  have hfold : ∀ bs : Bytes, bs.length ≤ 8 →
      (bs.foldl (fun v b => v <<< (8 : UInt64) ||| b.toUInt64) (0 : UInt64)).toNat =
      fromBytesBE bs := by
    intro bs
    induction bs using List.reverseRecOn with
    | nil => exact fun _ => rfl
    | append_singleton bs b ih =>
      intro hlen
      rw [List.length_append, List.length_singleton] at hlen
      have hread := ih (by omega)
      have hlt : fromBytesBE bs < 256 ^ 7 :=
        lt_of_lt_of_le (fromBytesBE_lt bs) (Nat.pow_le_pow_right (by decide) (by omega))
      have hb := b.toNat_lt
      rw [List.foldl_append, List.foldl_cons, List.foldl_nil, fromBytesBE_append_singleton,
        UInt64.toNat_or, UInt64.toNat_shiftLeft, hread]
      have hshift : fromBytesBE bs <<< ((8 : UInt64).toNat % 64) % 2 ^ 64 =
          fromBytesBE bs <<< 8 := by
        have h8 : (8 : UInt64).toNat % 64 = 8 := rfl
        rw [h8, Nat.shiftLeft_eq, Nat.mod_eq_of_lt (by omega)]
      rw [hshift, UInt8.toNat_toUInt64, ← Nat.shiftLeft_add_eq_or_of_lt (by omega),
        Nat.shiftLeft_eq]
  rw [getU64, List.take_of_length_le (by omega)]
  exact hfold o (by omega)

/-! ## Starting and building -/

/-- The array of an identity, as `strncpy` fills it after `memset`: at most 31 characters, and
zeros. -/
def serverIdArray (serverId : Bytes) : Bytes :=
  (cString serverId).take 31 ++ List.replicate (32 - ((cString serverId).take 31).length) 0

/-- The array of an identity is full. -/
lemma length_serverIdArray (serverId : Bytes) : (serverIdArray serverId).length = 32 := by
  rw [serverIdArray, List.length_append, List.length_replicate]
  have := List.length_take_le 31 (cString serverId)
  omega

/-- The array of an identity is terminated. -/
lemma terminated_serverIdArray (serverId : Bytes) : 0 ∈ serverIdArray serverId := by
  have := List.length_take_le 31 (cString serverId)
  refine List.mem_append_right _ (List.mem_replicate.mpr ⟨?_, rfl⟩)
  omega

/-- `hea_init`. -/
def heaInit (C : Crypto) (lamDevice lamServer : Block 32) (serverId : Bytes) (epoch : UInt64) :
    HeaDevice where
  lam := lamDevice
  kStar := ⟨hkdf32 C (lamDevice.val ++ lamServer.val) infoRoot, C.length_hkdf _ _⟩
  serverId := ⟨serverIdArray serverId, length_serverIdArray serverId⟩
  epoch := epoch
  terminated := terminated_serverIdArray serverId

/-- The text that `snprintf` writes for the four base64 texts of M1. -/
def m1Text (bPid bIv bCt bTag : Bytes) : Bytes :=
  asciiBytes "\x7b\"v\":1,\"type\":\"M1\",\"pid\":\"" ++ bPid ++ asciiBytes "\",\"nonce\":\"" ++
    bIv ++ asciiBytes "\",\"ct\":\"" ++ bCt ++ asciiBytes "\",\"tag\":\"" ++ bTag ++
    asciiBytes "\"\x7d"

/-- What `hea_build_m1` leaves: what it returns, the text in `out`, the pending state, and the
device. -/
structure BuiltM1 where
  len : ℕ
  out : Bytes
  pending : HeaPending
  device : HeaDevice

/-- `hea_build_m1` into a buffer of `cap` bytes, with the random bytes of the two calls of
`hea_random`. -/
def heaBuildM1 (C : Crypto) (d : HeaDevice) (nonce iv : Urandom) (cap : ℕ) : BuiltM1 :=
  let p : HeaPending := ⟨⟨sha256Pid C d.lam.val d.epoch, C.length_sha256 _⟩,
    ⟨nonce.draw 16, nonce.length_draw 16⟩, d.epoch⟩
  let pt := p.pid.val ++ p.nI.val ++ putU64 p.epoch
  let (ct, tag) := gcmRun C d.kStar.val (iv.draw 12) [] pt true
  let text := m1Text (b64Encode p.pid.val) (b64Encode (iv.draw 12)) (b64Encode ct) (b64Encode tag)
  if cap ≤ text.length then ⟨0, text.take (cap - 1), p, d⟩
  else ⟨text.length, text, p, { d with epoch := d.epoch + 1 }⟩

/-! ## Completing -/

/-- `fail`: writes the message into `err`, as far as it fits, and returns the code. -/
def fail (out : CallerBuffers) (e : HeaError) (msg : Bytes) : ℤ × CallerBuffers :=
  (e.code, if out.errCap = 0 then out else { out with err := msg.take (out.errCap - 1) })

/-- A text for which `strstr` finds one of the two spellings of a success. -/
def saysOk (env : Bytes) : Bool :=
  (Search.afterFirst (asciiBytes "\"ok\": true") env).isSome ||
    (Search.afterFirst (asciiBytes "\"ok\":true") env).isSome

/-- A text of a rejection, in a buffer that held `?`: what was read, also when reading failed. -/
def rejectionText (env key : Bytes) (cap : ℕ) : Bytes :=
  let r := jsonStr env key cap
  if r.ok = false ∧ r.out = [] then asciiBytes "?" else r.out

/-- What is read from an M2. -/
structure M2Fields where
  sid : Bytes
  iv : Bytes
  tag : Bytes
  ct : Bytes
  deriving DecidableEq

/-- A value, or the error when there is none. -/
def orFail {α : Type} (x : Option α) (msg : String) : Except (HeaError × String) α :=
  match x with
  | some a => .ok a
  | none => .error (.format, msg)

/-- The text fields of the payload: the server identity and the base64 texts of IV, ciphertext and
tag. -/
def readTexts (env : Bytes) : Except (HeaError × String) (Bytes × Bytes × Bytes × Bytes) := do
  let payload ← orFail (jsonStr env (asciiBytes "payload") 640).value "no payload"
  let sid ← orFail (jsonStr payload (asciiBytes "sid") 32).value "malformed M2"
  let bIv ← orFail (jsonStr payload (asciiBytes "nonce") 24).value "malformed M2"
  let bCt ← orFail (jsonStr payload (asciiBytes "ct") 96).value "malformed M2"
  let bTag ← orFail (jsonStr payload (asciiBytes "tag") 32).value "malformed M2"
  return (sid, bIv, bCt, bTag)

/-- The binary fields of M2, once their lengths are checked. -/
def readBinary (sid bIv bCt bTag : Bytes) : Except (HeaError × String) M2Fields := do
  let iv ← orFail ((b64Decode 12 bIv).filter (·.length = 12)) "bad nonce/tag length"
  let tag ← orFail ((b64Decode 16 bTag).filter (·.length = 16)) "bad nonce/tag length"
  let ct ← orFail ((b64Decode 64 bCt).filter (9 ≤ ·.length)) "bad ciphertext length"
  return ⟨sid, iv, tag, ct⟩

/-- The fields of M2, which must name the server of the device. -/
def readM2 (d : HeaDevice) (env : Bytes) : Except (HeaError × String) M2Fields := do
  let (sid, bIv, bCt, bTag) ← readTexts env
  if sid ≠ cString d.serverId.val then .error (.format, "M2 from unexpected server id")
  else readBinary sid bIv bCt bTag

/-- The comparison of two tags in constant time: the bits in which they differ. -/
def tagDiff (computed tag : Bytes) : UInt8 := (computed.zipWith (· ^^^ ·) tag).foldl (· ||| ·) 0

/-- Decrypts M2, checks its tag and its epoch, and derives the session key. -/
def verifyM2 (C : Crypto) (d : HeaDevice) (p : HeaPending) (m : M2Fields) :
    Except (HeaError × String) Bytes :=
  let (pt, computed) := gcmRun C d.kStar.val m.iv (p.pid.val ++ p.nI.val) m.ct false
  if tagDiff computed m.tag ≠ 0 then .error (.integrity, "M2 tag mismatch (sigma_2)")
  else
    let njLen := m.ct.length - 8
    if getU64 (pt.drop njLen) ≠ p.epoch then .error (.epoch, "M2 epoch mismatch")
    else if 64 < njLen then .error (.format, "N_j too long")
    else .ok (hkdf32 C (d.kStar.val ++ p.nI.val ++ pt.take njLen ++ putU64 p.epoch) infoSession)

/-- `hea_complete`: what it returns, and the buffers of its caller. -/
def heaComplete (C : Crypto) (d : HeaDevice) (p : HeaPending) (envelope : Bytes)
    (out : CallerBuffers) : ℤ × CallerBuffers :=
  if 1024 ≤ envelope.length then fail out .format (asciiBytes "envelope too large")
  else
    let env := cString envelope
    if saysOk env = false then
      let et := rejectionText env (asciiBytes "error_type") 48
      let msg := rejectionText env (asciiBytes "message") 128
      fail out .rejected (et ++ asciiBytes ": " ++ msg)
    else
      match readM2 d env >>= verifyM2 C d p with
      | .error (e, msg) => fail out e (asciiBytes msg)
      | .ok key => (0, { out with sessionKey := key })

/-! ## What the checks establish -/

/-- No error has the code of success. -/
lemma HeaError.code_ne_zero (e : HeaError) : e.code ≠ 0 := by
  cases e <;> decide

/-- Different errors have different codes. -/
lemma HeaError.code_injective : Function.Injective HeaError.code := by
  intro e e'
  cases e <;> cases e' <;> decide

/-- A failure does not return `0`. -/
lemma fail_ne_zero (out : CallerBuffers) (e : HeaError) (msg : Bytes) : (fail out e msg).1 ≠ 0 :=
  e.code_ne_zero

/-- A failure does not write a session key. -/
@[simp] lemma sessionKey_fail (out : CallerBuffers) (e : HeaError) (msg : Bytes) :
    (fail out e msg).2.sessionKey = out.sessionKey := by
  unfold fail
  dsimp only
  split_ifs <;> rfl

/-- A value that is there is taken. -/
lemma orFail_eq_ok_iff {α : Type} {x : Option α} {msg : String} {a : α} :
    orFail x msg = .ok a ↔ x = some a := by
  cases x <;> simp [orFail]

/-- The bits in which two tags of one length differ are none exactly when the tags are equal. -/
lemma tagDiff_eq_zero_iff {computed tag : Bytes} (h : computed.length = tag.length) :
    tagDiff computed tag = 0 ↔ computed = tag := by
  have hfold : ∀ (as bs : Bytes) (diff : UInt8), as.length = bs.length →
      ((as.zipWith (· ^^^ ·) bs).foldl (· ||| ·) diff = 0 ↔ diff = 0 ∧ as = bs) := by
    intro as
    induction as with
    | nil =>
      intro bs diff hlen
      obtain rfl := List.length_eq_zero_iff.mp hlen.symm
      simp
    | cons a as ih =>
      intro bs diff hlen
      rcases bs with _ | ⟨b, bs⟩
      · cases hlen
      · rw [List.zipWith_cons_cons, List.foldl_cons, ih _ _ (Nat.succ.inj hlen),
          UInt8.or_eq_zero_iff, UInt8.xor_eq_zero_iff, List.cons.injEq, and_assoc]
  rw [tagDiff, hfold computed tag 0 h]
  simp

/-- A computation in two parts returns when both parts do. -/
lemma bind_eq_ok_iff {ε α β : Type} {x : Except ε α} {f : α → Except ε β} {b : β} :
    (x >>= f) = .ok b ↔ ∃ a, x = .ok a ∧ f a = .ok b := by
  rcases x with e | a
  · simp [bind, Except.bind]
  · simp [bind, Except.bind]

/-- The binary fields that were read have their lengths. -/
lemma readBinary_eq_ok_iff {sid bIv bCt bTag : Bytes} {m : M2Fields} :
    readBinary sid bIv bCt bTag = .ok m ↔ sid = m.sid ∧
      (b64Decode 12 bIv = some m.iv ∧ m.iv.length = 12) ∧
      (b64Decode 16 bTag = some m.tag ∧ m.tag.length = 16) ∧
      (b64Decode 64 bCt = some m.ct ∧ 9 ≤ m.ct.length) := by
  unfold readBinary
  simp only [bind_eq_ok_iff, orFail_eq_ok_iff, Option.filter_eq_some_iff, decide_eq_true_eq]
  constructor
  · rintro ⟨iv, hiv, tag, htag, ct, hct, h⟩
    cases h
    exact ⟨rfl, hiv, htag, hct⟩
  · rintro ⟨rfl, hiv, htag, hct⟩
    exact ⟨m.iv, hiv, m.tag, htag, m.ct, hct, rfl⟩

/-- The fields of an M2 that was read. -/
lemma readM2_eq_ok_iff {d : HeaDevice} {env : Bytes} {m : M2Fields} :
    readM2 d env = .ok m ↔ ∃ bIv bCt bTag, readTexts env = .ok (m.sid, bIv, bCt, bTag) ∧
      m.sid = cString d.serverId.val ∧ readBinary m.sid bIv bCt bTag = .ok m := by
  unfold readM2
  rw [bind_eq_ok_iff]
  constructor
  · rintro ⟨⟨sid, bIv, bCt, bTag⟩, htexts, h⟩
    dsimp only at h
    split_ifs at h with hsid
    obtain rfl := (readBinary_eq_ok_iff.mp h).1
    exact ⟨bIv, bCt, bTag, htexts, not_not.mp hsid, h⟩
  · rintro ⟨bIv, bCt, bTag, htexts, hsid, h⟩
    exact ⟨_, htexts, (if_neg (not_not.mpr hsid)).trans h⟩

/-- The lengths of the fields of an M2 that was read. -/
lemma length_of_readM2 {d : HeaDevice} {env : Bytes} {m : M2Fields} (h : readM2 d env = .ok m) :
    m.iv.length = 12 ∧ m.tag.length = 16 ∧ 9 ≤ m.ct.length ∧ m.ct.length ≤ 64 := by
  obtain ⟨bIv, bCt, bTag, -, -, hbinary⟩ := readM2_eq_ok_iff.mp h
  obtain ⟨-, hiv, htag, hct⟩ := readBinary_eq_ok_iff.mp hbinary
  exact ⟨hiv.2, htag.2, hct.2, length_of_b64Decode hct.1⟩

/-- When M2 is verified: the tag is that of the ciphertext, the plaintext ends with the epoch of the
request, and the key is derived from the rest of it. -/
lemma verifyM2_eq_ok_iff {C : Crypto} {d : HeaDevice} {p : HeaPending} {m : M2Fields} {key : Bytes}
    (htag : m.tag.length = 16) (hct : m.ct.length ≤ 64) :
    verifyM2 C d p m = .ok key ↔
      C.gcmTag d.kStar.val m.iv (p.pid.val ++ p.nI.val) m.ct = m.tag ∧
        getU64 (lastBytes 8 (C.gcmCrypt d.kStar.val m.iv m.ct)) = p.epoch ∧
        key = hkdf32 C (d.kStar.val ++ p.nI.val ++
          dropLastBytes 8 (C.gcmCrypt d.kStar.val m.iv m.ct) ++ putU64 p.epoch) infoSession := by
  have hlen : (C.gcmTag d.kStar.val m.iv (p.pid.val ++ p.nI.val) m.ct).length = m.tag.length := by
    rw [C.length_gcmTag, htag]
  have hnj : ¬ 64 < m.ct.length - 8 := by omega
  unfold verifyM2
  simp only [gcmRun, Bool.false_eq_true, if_false, ne_eq, tagDiff_eq_zero_iff hlen, lastBytes,
    dropLastBytes, C.length_gcmCrypt, hnj]
  split_ifs with h1 h2
  · simp [h1, h2, eq_comm]
  · simp [h2]
  · simp [h1]

/-- When `hea_complete` returns `0`, and what it then writes. -/
theorem heaComplete_eq_zero_iff {C : Crypto} {d : HeaDevice} {p : HeaPending} {envelope : Bytes}
    {out : CallerBuffers} :
    (heaComplete C d p envelope out).1 = 0 ↔ ∃ m key, envelope.length < 1024 ∧
      saysOk (cString envelope) = true ∧ readM2 d (cString envelope) = .ok m ∧
      verifyM2 C d p m = .ok key ∧
      heaComplete C d p envelope out = (0, { out with sessionKey := key }) := by
  constructor
  · intro h
    unfold heaComplete at h ⊢
    dsimp only at h ⊢
    split_ifs at h ⊢ with hlen hok
    · exact absurd h (fail_ne_zero _ _ _)
    · exact absurd h (fail_ne_zero _ _ _)
    · split at h
      · exact absurd h (fail_ne_zero _ _ _)
      · rename_i key hkey
        obtain ⟨m, hread, hverify⟩ := bind_eq_ok_iff.mp hkey
        exact ⟨m, key, not_le.mp hlen, Bool.eq_true_of_not_eq_false hok, hread, hverify, rfl⟩
  · rintro ⟨m, key, -, -, -, -, h⟩
    rw [h]

/-- The session key is written only with the result `0`. -/
theorem sessionKey_heaComplete {C : Crypto} {d : HeaDevice} {p : HeaPending} {envelope : Bytes}
    {out : CallerBuffers} (h : (heaComplete C d p envelope out).1 ≠ 0) :
    (heaComplete C d p envelope out).2.sessionKey = out.sessionKey := by
  unfold heaComplete at h ⊢
  dsimp only at h ⊢
  split_ifs at h ⊢
  · exact sessionKey_fail _ _ _
  · exact sessionKey_fail _ _ _
  · split at h
    · exact sessionKey_fail _ _ _
    · exact absurd rfl h

end HybridEccAuth.HeaProto

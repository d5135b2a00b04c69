import HybridEccAuth.Protocol.Errors

/-!
# Cryptographic primitives

The wrappers of the `crypto` package over a suite `Crypto` of primitives: SHA-256,
HKDF-SHA256 with the default salt and 32 bytes of output, and AES-256-GCM given by
its two parts, the counter-mode key stream and the authentication tag over the
associated data and the ciphertext.  The fields of `Crypto` state what is known of
the primitives: the lengths of their outputs, and that applying the key stream
twice changes nothing.

`aeadDecrypt_aeadEncrypt` is the correctness of the authenticated encryption and
`aeadDecrypt_eq_ok_iff` says when a decryption succeeds.
-/

namespace HybridEccAuth

/-- A long-term secret: an integer of 32 bytes. -/
abbrev Lam := Fin (2 ^ 256)

instance lam_neZero : NeZero (2 ^ 256) := ⟨by decide⟩

/-- The primitives that the program takes from its cryptographic library. -/
structure Crypto where
  sha256 : Bytes → Bytes
  /-- HKDF-SHA256 of the input keying material and the info string. -/
  hkdf : Bytes → Bytes → Bytes
  /-- The counter-mode key stream of a key and an IV, applied to data. -/
  gcmCrypt : Bytes → Bytes → Bytes → Bytes
  /-- The tag under a key and an IV of associated data and a ciphertext. -/
  gcmTag : Bytes → Bytes → Bytes → Bytes → Bytes
  length_sha256 : ∀ m, (sha256 m).length = 32
  length_hkdf : ∀ ikm info, (hkdf ikm info).length = 32
  length_gcmCrypt : ∀ key iv data, (gcmCrypt key iv data).length = data.length
  gcmCrypt_gcmCrypt : ∀ key iv data, gcmCrypt key iv (gcmCrypt key iv data) = data
  length_gcmTag : ∀ key iv aad ct, (gcmTag key iv aad ct).length = 16

/-- A suite that meets these laws, without any secrecy: the digest of a message is its number
reduced to 32 bytes, and data is encrypted by itself. -/
def Crypto.plain : Crypto where
  sha256 m := toBytesBE 32 (fromBytesBE m)
  hkdf ikm _ := toBytesBE 32 (fromBytesBE ikm % (2 ^ 256 - 2 ^ 128))
  gcmCrypt _ _ data := data
  gcmTag _ _ _ _ := toBytesBE 16 0
  length_sha256 _ := length_toBytesBE _ _
  length_hkdf _ _ := length_toBytesBE _ _
  length_gcmCrypt _ _ _ := rfl
  gcmCrypt_gcmCrypt _ _ _ := rfl
  length_gcmTag _ _ _ _ := length_toBytesBE _ _

/-- The result of one call of the system random generator: so many bytes as were asked for. -/
structure Urandom where
  draw : ℕ → Bytes
  length_draw : ∀ n, (draw n).length = n

/-- The length of a string of zeros. -/
lemma length_zeros (n : ℕ) : (List.replicate n (0 : UInt8)).length = n := List.length_replicate

/-- The generator that returns zeros. -/
def Urandom.zeros : Urandom := ⟨fun n => List.replicate n 0, length_zeros⟩

/-- The generator that returns sevens. -/
def Urandom.sevens : Urandom := ⟨fun n => List.replicate n 7, fun _ => List.length_replicate⟩

/-- The bytes of an ASCII text. -/
def asciiBytes (s : String) : Bytes := s.toList.map fun c => UInt8.ofNat c.toNat

/-! ## Nonces -/

/-- The default nonce length in bits. -/
def defaultNonceBits : ℕ := 128

/-- The supported nonce lengths in bits. -/
def supportedNonceBits : List ℕ := [128, 192, 256]

/-- `generate_nonce`. -/
def generateNonce (bits : ℕ) (rnd : Urandom) : Except Exc Bytes :=
  if bits ∈ supportedNonceBits then .ok (rnd.draw (bits / 8))
  else .error ⟨.valueError, [.lit "Unsupported nonce length ", .int bits,
    .lit " bits; must be one of (128, 192, 256)"]⟩

/-- A nonce of a supported length is drawn, and no other. -/
lemma generateNonce_eq_ok_iff {bits : ℕ} {rnd : Urandom} {n : Bytes} :
    generateNonce bits rnd = .ok n ↔ bits ∈ supportedNonceBits ∧ n = rnd.draw (bits / 8) := by
  unfold generateNonce
  split_ifs with h <;> simp [h, eq_comm]

/-! ## Hashes -/

/-- The order of the base point group of P-256. -/
def curveOrder : ℕ := 0xFFFFFFFF00000000FFFFFFFFFFFFFFFFBCE6FAADA7179E84F3B9CAC2FC632551

/-- `reduce_mod_n`: into `1, …, n - 1`, with zero sent to one. -/
def reduceModN (value : ℕ) : Lam :=
  let r := value % curveOrder
  if r ≠ 0 then ⟨r, lt_trans (Nat.mod_lt _ (by decide)) (by decide)⟩ else 1

/-- `h1_derive_secret`: the long-term secret of an identity. -/
def h1DeriveSecret (C : Crypto) (identity masterSecret : Bytes) : Lam :=
  reduceModN (fromBytesBE (C.sha256 (identity ++ masterSecret)))

/-- `lam.to_bytes(32, "big")`. -/
def Lam.toBytes (lam : Lam) : Bytes := toBytesBE 32 lam.val

/-- `h2_pseudonym`: packing the epoch fails outside of the unsigned 64-bit range. -/
def h2Pseudonym (C : Crypto) (lam : Lam) (epoch : ℤ) : Except Exc Bytes :=
  if 0 ≤ epoch ∧ epoch < 2 ^ 64 then .ok (C.sha256 (Lam.toBytes lam ++ toBytesBE 8 epoch.toNat))
  else .error (.ofLibrary .structError)

/-- A pseudonym exists exactly for the epochs of 64 bits. -/
lemma h2Pseudonym_eq_ok_iff {C : Crypto} {lam : Lam} {epoch : ℤ} {pid : Bytes} :
    h2Pseudonym C lam epoch = .ok pid ↔ (0 ≤ epoch ∧ epoch < 2 ^ 64) ∧
      C.sha256 (Lam.toBytes lam ++ toBytesBE 8 epoch.toNat) = pid := by
  unfold h2Pseudonym
  split_ifs with h
  · simp only [Except.ok.injEq, h, and_self, true_and]
  · simp only [h, false_and]

/-- A pseudonym has 32 bytes. -/
lemma length_of_h2Pseudonym {C : Crypto} {lam : Lam} {epoch : ℤ} {pid : Bytes}
    (h : h2Pseudonym C lam epoch = .ok pid) : pid.length = 32 := by
  obtain ⟨-, rfl⟩ := h2Pseudonym_eq_ok_iff.mp h
  exact C.length_sha256 _

/-- The epoch of a pseudonym is in range. -/
lemma epoch_of_h2Pseudonym {C : Crypto} {lam : Lam} {epoch : ℤ} {pid : Bytes}
    (h : h2Pseudonym C lam epoch = .ok pid) : 0 ≤ epoch ∧ epoch < 2 ^ 64 :=
  (h2Pseudonym_eq_ok_iff.mp h).1

/-- In range there is a pseudonym. -/
lemma exists_h2Pseudonym (C : Crypto) (lam : Lam) {epoch : ℤ} (h0 : 0 ≤ epoch)
    (h64 : epoch < 2 ^ 64) : ∃ pid, h2Pseudonym C lam epoch = .ok pid :=
  ⟨_, h2Pseudonym_eq_ok_iff.mpr ⟨⟨h0, h64⟩, rfl⟩⟩

/-- Long-term secrets are recovered from their bytes. -/
lemma Lam.toBytes_injective : Function.Injective Lam.toBytes := by
  intro a b h
  apply Fin.ext
  have hpow : (2 : ℕ) ^ 256 = 256 ^ 32 := by norm_num
  exact (toBytesBE_inj (lt_of_lt_of_eq a.isLt hpow) (lt_of_lt_of_eq b.isLt hpow)).mp h

/-- The bytes of a long-term secret are its number. -/
lemma fromBytesBE_toBytes (lam : Lam) : fromBytesBE (Lam.toBytes lam) = lam.val :=
  fromBytesBE_toBytesBE_of_lt (lt_of_lt_of_eq lam.isLt (by norm_num))

/-- In the plain suite a pseudonym determines the epoch and the low 24 bytes of the secret. -/
lemma h2Pseudonym_plain_inj {lam lam' : Lam} {epoch epoch' : ℤ} {pid : Bytes}
    (h : h2Pseudonym .plain lam epoch = .ok pid) (h' : h2Pseudonym .plain lam' epoch' = .ok pid) :
    lam.val % 2 ^ 192 = lam'.val % 2 ^ 192 ∧ epoch = epoch' := by
  obtain ⟨⟨h₀, h₁⟩, rfl⟩ := h2Pseudonym_eq_ok_iff.mp h
  obtain ⟨⟨h₀', h₁'⟩, heq⟩ := h2Pseudonym_eq_ok_iff.mp h'
  have hnum := congrArg fromBytesBE heq
  dsimp only [Crypto.plain] at hnum
  rw [fromBytesBE_toBytesBE, fromBytesBE_toBytesBE, fromBytesBE_append, fromBytesBE_append,
    fromBytesBE_toBytes, fromBytesBE_toBytes, length_toBytesBE, length_toBytesBE,
    fromBytesBE_toBytesBE_of_lt (by omega), fromBytesBE_toBytesBE_of_lt (by omega)] at hnum
  norm_num at hnum ⊢
  omega

/-! ## Authenticated encryption -/

/-- The key length of AES-256 in bytes. -/
def keyLen : ℕ := 32

/-- The IV length in bytes. -/
def gcmNonceLen : ℕ := 12

/-- The tag length in bytes. -/
def tagLen : ℕ := 16

/-- The library's encryption: the ciphertext followed by the tag. -/
def aesGcmEncrypt (C : Crypto) (key nonce data aad : Bytes) : Bytes :=
  C.gcmCrypt key nonce data ++ C.gcmTag key nonce aad (C.gcmCrypt key nonce data)

/-- The library's decryption: the nonce must have 8 to 128 bytes, and the last 16 bytes of the data
must be the tag of the rest. -/
def aesGcmDecrypt (C : Crypto) (key nonce data aad : Bytes) : Except Exc Bytes :=
  if 8 ≤ nonce.length ∧ nonce.length ≤ 128 then
    if tagLen ≤ data.length ∧
        lastBytes tagLen data = C.gcmTag key nonce aad (dropLastBytes tagLen data) then
      .ok (C.gcmCrypt key nonce (dropLastBytes tagLen data))
    else .error (.ofLibrary .invalidTag)
  else .error ⟨.valueError, [.library "Nonce must be between 8 and 128 bytes"]⟩

/-- The error for a key of the wrong length. -/
def keyLengthError (key : Bytes) : Exc :=
  ⟨.valueError, [.lit "AES-256-GCM key must be 32 bytes, got ", .int key.length]⟩

/-- `aead.encrypt`: the nonce, the ciphertext and the tag. -/
def aeadEncrypt (C : Crypto) (key plaintext aad : Bytes) (rnd : Urandom) :
    Except Exc (Bytes × Bytes × Bytes) :=
  if key.length ≠ keyLen then .error (keyLengthError key)
  else
    let nonce := rnd.draw gcmNonceLen
    let combined := aesGcmEncrypt C key nonce plaintext aad
    .ok (nonce, dropLastBytes tagLen combined, lastBytes tagLen combined)

/-- `aead.decrypt`. -/
def aeadDecrypt (C : Crypto) (key nonce ciphertext tag aad : Bytes) : Except Exc Bytes :=
  if key.length ≠ keyLen then .error (keyLengthError key)
  else aesGcmDecrypt C key nonce (ciphertext ++ tag) aad

section Aead

variable {C : Crypto} {key nonce data aad plaintext : Bytes}

/-- The tag of an encryption is its last 16 bytes. -/
lemma lastBytes_aesGcmEncrypt : lastBytes tagLen (aesGcmEncrypt C key nonce plaintext aad) =
    C.gcmTag key nonce aad (C.gcmCrypt key nonce plaintext) :=
  lastBytes_append (C.length_gcmTag _ _ _ _)

/-- The ciphertext of an encryption is the rest. -/
lemma dropLastBytes_aesGcmEncrypt :
    dropLastBytes tagLen (aesGcmEncrypt C key nonce plaintext aad) =
      C.gcmCrypt key nonce plaintext :=
  dropLastBytes_append (C.length_gcmTag _ _ _ _)

/-- A decryption succeeds exactly on the encryption of its result. -/
lemma aesGcmDecrypt_eq_ok_iff :
    aesGcmDecrypt C key nonce data aad = .ok plaintext ↔
      (8 ≤ nonce.length ∧ nonce.length ≤ 128) ∧
        data = aesGcmEncrypt C key nonce plaintext aad := by
  unfold aesGcmDecrypt
  split_ifs with hn ht
  · simp only [Except.ok.injEq, hn, and_self, true_and]
    constructor
    · rintro rfl
      rw [aesGcmEncrypt, C.gcmCrypt_gcmCrypt, ← ht.2, dropLastBytes_append_lastBytes]
    · rintro rfl
      rw [dropLastBytes_aesGcmEncrypt, C.gcmCrypt_gcmCrypt]
  · simp only [hn, and_self, true_and, false_iff]
    rintro rfl
    refine ht ⟨?_, ?_⟩
    · simp [aesGcmEncrypt, C.length_gcmTag, tagLen]
    · rw [lastBytes_aesGcmEncrypt, dropLastBytes_aesGcmEncrypt]
  · simp [hn]

/-- `aead.decrypt` succeeds exactly when the ciphertext and the tag are the encryption of its result
under the same key, nonce and associated data. -/
theorem aeadDecrypt_eq_ok_iff {ciphertext tag : Bytes} :
    aeadDecrypt C key nonce ciphertext tag aad = .ok plaintext ↔
      key.length = keyLen ∧ (8 ≤ nonce.length ∧ nonce.length ≤ 128) ∧
        ciphertext ++ tag = aesGcmEncrypt C key nonce plaintext aad := by
  unfold aeadDecrypt
  split_ifs with h
  · simp [h]
  · simp [not_not.mp h, aesGcmDecrypt_eq_ok_iff]

/-- Encryption under a key of the right length, with the nonce that is drawn. -/
lemma aeadEncrypt_of_length (hk : key.length = keyLen) (rnd : Urandom) :
    aeadEncrypt C key plaintext aad rnd =
      .ok (rnd.draw gcmNonceLen, C.gcmCrypt key (rnd.draw gcmNonceLen) plaintext,
        C.gcmTag key (rnd.draw gcmNonceLen) aad
          (C.gcmCrypt key (rnd.draw gcmNonceLen) plaintext)) := by
  rw [aeadEncrypt, if_neg (not_not.mpr hk)]
  simp only [lastBytes_aesGcmEncrypt, dropLastBytes_aesGcmEncrypt]

/-- What was encrypted is decrypted with the same key and associated data. -/
theorem aeadDecrypt_aeadEncrypt {rnd : Urandom} {n c t : Bytes}
    (h : aeadEncrypt C key plaintext aad rnd = .ok (n, c, t)) :
    aeadDecrypt C key n c t aad = .ok plaintext := by
  by_cases hk : key.length = keyLen
  · rw [aeadEncrypt_of_length hk] at h
    obtain ⟨rfl, rfl, rfl⟩ : _ ∧ _ ∧ _ := by simpa using h
    rw [aeadDecrypt_eq_ok_iff]
    refine ⟨hk, ?_, rfl⟩
    rw [rnd.length_draw]
    decide
  · rw [aeadEncrypt, if_pos hk] at h
    exact absurd h (by simp)

/-- A nonce of a length the library does not take is a `ValueError`, whatever the rest is. -/
lemma aeadDecrypt_of_bad_nonce (ciphertext tag aad : Bytes) (hk : key.length = keyLen)
    (hn : ¬ (8 ≤ nonce.length ∧ nonce.length ≤ 128)) :
    ∃ e, aeadDecrypt C key nonce ciphertext tag aad = .error e ∧ e.kind = .valueError := by
  refine ⟨⟨.valueError, [.library "Nonce must be between 8 and 128 bytes"]⟩, ?_, rfl⟩
  rw [aeadDecrypt, if_neg (not_not.mpr hk), aesGcmDecrypt, if_neg hn]

/-- With a nonce of an accepted length, a decryption that fails raises `InvalidTag`. -/
lemma aeadDecrypt_of_good_nonce (ciphertext tag aad : Bytes) (hk : key.length = keyLen)
    (hn : 8 ≤ nonce.length ∧ nonce.length ≤ 128) :
    (∃ p, aeadDecrypt C key nonce ciphertext tag aad = .ok p) ∨
      aeadDecrypt C key nonce ciphertext tag aad = .error (.ofLibrary .invalidTag) := by
  rw [aeadDecrypt, if_neg (not_not.mpr hk), aesGcmDecrypt, if_pos hn]
  split_ifs
  · exact Or.inl ⟨_, rfl⟩
  · exact Or.inr rfl

end Aead

end HybridEccAuth

import HybridEccAuth.Protocol.Ta

/-!
# Entities

The base of devices and servers: a credential, and a cache of the pairwise roots
that were derived from it.  That every cached root is the one its credential gives
is a field of the structure, so `getPairwiseRoot` has one result whatever was cached
before (`getPairwiseRoot_fst`).
-/

namespace HybridEccAuth

/-- The info string of pairwise roots. -/
def infoPairwiseRoot : Bytes := asciiBytes "hybrid-ecc-auth/pairwise-root/v1"

/-- The info string of session keys. -/
def infoSessionKey : Bytes := asciiBytes "hybrid-ecc-auth/session-key/v1"

/-- `derive_pairwise_root`: the secret of the device first, that of the server second. -/
def derivePairwiseRoot (C : Crypto) (lamDevice lamServer : Lam) : Bytes :=
  C.hkdf (Lam.toBytes lamDevice ++ Lam.toBytes lamServer) infoPairwiseRoot

/-- A pairwise root is a key. -/
lemma length_derivePairwiseRoot (C : Crypto) (lamDevice lamServer : Lam) :
    (derivePairwiseRoot C lamDevice lamServer).length = keyLen :=
  C.length_hkdf _ _

/-- `epoch.to_bytes(8, "big")`. -/
def epochToBytes (epoch : ℤ) : Except Exc Bytes :=
  if 0 ≤ epoch ∧ epoch < 2 ^ 64 then .ok (toBytesBE 8 epoch.toNat)
  else .error (.ofLibrary .overflowError)

/-- An epoch in range is written. -/
lemma epochToBytes_of_range {epoch : ℤ} (h : 0 ≤ epoch ∧ epoch < 2 ^ 64) :
    epochToBytes epoch = .ok (toBytesBE 8 epoch.toNat) :=
  if_pos h

/-- The session key of a pairwise root, two nonces and an epoch of 64 bits. -/
def sessionKey (C : Crypto) (kStar nI nJ : Bytes) (epoch : ℕ) : Bytes :=
  C.hkdf (kStar ++ nI ++ nJ ++ toBytesBE 8 epoch) infoSessionKey

/-- `derive_session_key`. -/
def deriveSessionKey (C : Crypto) (kStar nI nJ : Bytes) (epoch : ℤ) : Except Exc Bytes :=
  match epochToBytes epoch with
  | .error e => .error e
  | .ok epochBytes => .ok (C.hkdf (kStar ++ nI ++ nJ ++ epochBytes) infoSessionKey)

/-- A session key is derived for an epoch in range. -/
lemma deriveSessionKey_of_range {C : Crypto} {kStar nI nJ : Bytes} {epoch : ℤ}
    (h : 0 ≤ epoch ∧ epoch < 2 ^ 64) :
    deriveSessionKey C kStar nI nJ epoch = .ok (sessionKey C kStar nI nJ epoch.toNat) := by
  rw [deriveSessionKey, epochToBytes_of_range h, sessionKey]

/-- The pairwise root of a credential with a peer of secret `peerLam`. -/
def Credential.pairwiseRoot {P : Type} (C : Crypto) (cred : Credential Lam P) (peerLam : Lam) :
    Bytes :=
  match cred.role with
  | .device => derivePairwiseRoot C cred.lam peerLam
  | .server => derivePairwiseRoot C peerLam cred.lam

/-- The pairwise root of a credential is a key. -/
lemma Credential.length_pairwiseRoot {P : Type} (C : Crypto) (cred : Credential Lam P)
    (peerLam : Lam) : (cred.pairwiseRoot C peerLam).length = keyLen := by
  unfold Credential.pairwiseRoot
  split <;> exact length_derivePairwiseRoot C _ _

/-- Before the first root is derived, the cache is coherent. -/
lemma cache_coherent_empty (C : Crypto) (credential : Credential Lam Bytes) (peer : String)
    (root : Bytes) (h : (Dict.empty : Dict String Bytes).get peer = some root) :
    ∃ lam, credential.peerSecrets.get peer = some lam ∧ root = credential.pairwiseRoot C lam := by
  cases h

/-- An entity: its credential and the pairwise roots derived so far. -/
structure Entity (C : Crypto) where
  credential : Credential Lam Bytes
  pairwiseRootCache : Dict String Bytes := .empty
  /-- A cached root is the root of a peer of the credential. -/
  cache_coherent : ∀ peer root, pairwiseRootCache.get peer = some root →
      ∃ lam, credential.peerSecrets.get peer = some lam ∧ root = credential.pairwiseRoot C lam := by
    exact cache_coherent_empty _ _

namespace Entity

variable {C : Crypto}

/-- `get_pairwise_root`: the cached root, or the root that is derived and cached now. -/
def getPairwiseRoot (E : Entity C) (peer : String) : Except Exc Bytes × Entity C :=
  match E.pairwiseRootCache.get peer with
  | some root => (.ok root, E)
  | none =>
    match h : E.credential.peerSecrets.get peer with
    | none => (.error (.ofLibrary .keyError), E)
    | some lam =>
      let root := E.credential.pairwiseRoot C lam
      (.ok root,
        { E with
          pairwiseRootCache := E.pairwiseRootCache.set peer root
          cache_coherent := by
            intro p r hr
            rw [Dict.get_set] at hr
            split_ifs at hr with hp
            · cases hr
              exact ⟨lam, hp ▸ h, rfl⟩
            · exact E.cache_coherent p r hr })

/-- `invalidate_pairwise_root`: of one peer, or of all. -/
def invalidatePairwiseRoot (E : Entity C) : Option String → Entity C
  | none => { credential := E.credential }
  | some peer =>
    { E with
      pairwiseRootCache := E.pairwiseRootCache.erase peer
      cache_coherent := by
        intro p r hr
        rw [Dict.get_erase] at hr
        split_ifs at hr
        exact E.cache_coherent p r hr }

/-- The root that is returned is the root of the credential; a peer without a secret is a
`KeyError`. -/
theorem getPairwiseRoot_fst (E : Entity C) (peer : String) :
    (E.getPairwiseRoot peer).1 =
      match E.credential.peerSecrets.get peer with
      | none => .error (.ofLibrary .keyError)
      | some lam => .ok (E.credential.pairwiseRoot C lam) := by
  unfold getPairwiseRoot
  split
  · rename_i root hroot
    obtain ⟨lam, hlam, rfl⟩ := E.cache_coherent peer root hroot
    rw [hlam]
  · split <;> rename_i h
    · simp only [h]
    · simp only [h]

/-- Deriving a root does not change the credential. -/
@[simp] lemma credential_getPairwiseRoot (E : Entity C) (peer : String) :
    (E.getPairwiseRoot peer).2.credential = E.credential := by
  unfold getPairwiseRoot
  split
  · rfl
  · split <;> rfl

end Entity

end HybridEccAuth

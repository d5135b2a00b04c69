import HybridEccAuth.Crypto.Primitives
import HybridEccAuth.Data.Dict

/-!
# The trusted authority

Registration is offline: `enroll` derives the long-term secret of an identity from
the master secret, `enrollBatch` does so for a manifest, and
`shareMutualPeerKeys` hands every credential the secrets of all the others.

The authority is written over `TaPrimitives`, the derivation of secrets and of
public points, with any types of master secrets, secrets and points; `taPrimitives`
is the one of the program.  `mem_provision` says what every credential of a
provisioned manifest holds.
-/

namespace HybridEccAuth

/-- The roles of entities: `VALID_ROLES`. -/
inductive Role
  | device
  | server
  deriving DecidableEq

/-- The text of a role. -/
def Role.text : Role → String
  | .device => "device"
  | .server => "server"

/-- The role of a text. -/
def Role.ofText? (s : String) : Option Role :=
  if s = "device" then some .device else if s = "server" then some .server else none

/-- A role is read from its text. -/
lemma Role.ofText?_text (r : Role) : Role.ofText? r.text = some r := by
  cases r <;> rfl

/-- An entity's offline credential bundle. -/
structure Credential (L P : Type) where
  identity : String
  role : Role
  lam : L
  publicPoint : Option P := none
  /-- The secrets of the peers, by identity. -/
  peerSecrets : Dict String L := .empty

/-- A device and a server that hold each other's secrets. -/
def deviceOne : Credential Lam Bytes where
  identity := "device-1"
  role := .device
  lam := 1
  peerSecrets := Dict.empty.set "server-A" 2

/-- The server of the pair. -/
def serverA : Credential Lam Bytes where
  identity := "server-A"
  role := .server
  lam := 2
  peerSecrets := Dict.empty.set "device-1" 1

/-- What the authority computes with: master secrets `S`, long-term secrets `L`, points `P`. -/
structure TaPrimitives (S L P : Type) where
  deriveLongTermSecret : String → S → L
  scalarToPublicPoint : L → P

/-- `derive_long_term_secret`, over a suite of primitives and a map to points of the curve. -/
def taPrimitives (C : Crypto) (scalarToPublicPoint : Lam → Bytes) :
    TaPrimitives Bytes Lam Bytes where
  deriveLongTermSecret identity masterSecret := h1DeriveSecret C (utf8Encode identity) masterSecret
  scalarToPublicPoint := scalarToPublicPoint

/-- One entry of a manifest; the first two keys may be missing. -/
structure ManifestEntry where
  identity : Option String
  role : Option String
  exportPublicPoint : Bool := false

/-- The state of the authority. -/
structure TrustedAuthority (S L P : Type) where
  masterSecret : S
  registry : Dict String (Credential L P) := .empty

namespace TrustedAuthority

variable {S L P : Type} (prim : TaPrimitives S L P)

/-- The credential of a fresh registration. -/
def freshCredential (masterSecret : S) (identity : String) (role : Role)
    (exportPublicPoint : Bool) : Credential L P :=
  let lam := prim.deriveLongTermSecret identity masterSecret
  { identity := identity
    role := role
    lam := lam
    publicPoint := if exportPublicPoint then some (prim.scalarToPublicPoint lam) else none }

/-- `enroll`. -/
def enroll (ta : TrustedAuthority S L P) (identity role : String) (exportPublicPoint : Bool) :
    Except Exc (Credential L P) × TrustedAuthority S L P :=
  match Role.ofText? role with
  | none =>
    (.error ⟨.valueError,
      [.lit "role must be one of ('device', 'server'), got ", .reprStr role]⟩, ta)
  | some role =>
    if identity ∈ ta.registry.keys then
      (.error ⟨.valueError, [.lit "identity ", .reprStr identity, .lit " is already enrolled"]⟩, ta)
    else
      let cred := freshCredential prim ta.masterSecret identity role exportPublicPoint
      (.ok cred, { ta with registry := ta.registry.set identity cred })

/-- The registration of one entry of a manifest. -/
def enrollEntry (ta : TrustedAuthority S L P) (entry : ManifestEntry) :
    Except Exc (Credential L P) × TrustedAuthority S L P :=
  match entry.identity, entry.role with
  | some identity, some role => ta.enroll prim identity role entry.exportPublicPoint
  | _, _ => (.error (.ofLibrary .keyError), ta)

/-- `enroll_batch`: the credentials in the order of the manifest.  Every identity is new when it is
enrolled, so the resulting dictionary lists each entry once. -/
def enrollBatch (ta : TrustedAuthority S L P) :
    List ManifestEntry → Except Exc (List (Credential L P)) × TrustedAuthority S L P
  | [] => (.ok [], ta)
  | entry :: manifest =>
    match ta.enrollEntry prim entry with
    | (.error e, ta) => (.error e, ta)
    | (.ok cred, ta) =>
      match enrollBatch ta manifest with
      | (.error e, ta) => (.error e, ta)
      | (.ok creds, ta) => (.ok (cred :: creds), ta)

/-- `share_peer_keys`: writes the secret of every peer other than the holder. -/
def sharePeerKeys (cred : Credential L P) (peers : List (Credential L P)) : Credential L P :=
  peers.foldl (fun cred peer =>
    if peer.identity = cred.identity then cred
    else { cred with peerSecrets := cred.peerSecrets.set peer.identity peer.lam }) cred

/-- `share_mutual_peer_keys`: every credential learns the secret of every other.  What is read of a
peer is its identity and its secret, which no round of the loop writes. -/
def shareMutualPeerKeys (creds : List (Credential L P)) : List (Credential L P) :=
  creds.map fun cred => sharePeerKeys cred (creds.filter fun c => c.identity ≠ cred.identity)

/-- What `hea-ta enroll` issues for a manifest. -/
def provision (masterSecret : S) (manifest : List ManifestEntry) :
    Except Exc (List (Credential L P)) :=
  match (TrustedAuthority.mk masterSecret .empty).enrollBatch prim manifest with
  | (.error e, _) => .error e
  | (.ok creds, _) => .ok (shareMutualPeerKeys creds)

/-! ## What is issued -/

variable {prim}

/-- A registration that succeeds is of a new identity, and registers its fresh credential. -/
lemma enrollEntry_eq_ok {ta ta' : TrustedAuthority S L P} {entry : ManifestEntry}
    {cred : Credential L P} (h : ta.enrollEntry prim entry = (.ok cred, ta')) :
    ∃ identity role, entry.identity = some identity ∧ entry.role = some (Role.text role) ∧
      identity ∉ ta.registry.keys ∧
      cred = freshCredential prim ta.masterSecret identity role entry.exportPublicPoint ∧
      ta' = { ta with registry := ta.registry.set identity cred } := by
  unfold enrollEntry at h
  split at h
  case h_2 => cases h
  case h_1 identity role hid hrole =>
    unfold enroll at h
    split at h
    · cases h
    · rename_i r hr
      have hrole' : role = Role.text r := by
        unfold Role.ofText? at hr
        split_ifs at hr with h₁ h₂ <;> cases hr
        · exact h₁
        · exact h₂
      split_ifs at h with hreg
      · cases h
      · cases h
        exact ⟨identity, r, hid, hrole' ▸ hrole, hreg, rfl, rfl⟩

/-- After a batch the credentials are fresh, of distinct identities, none of which was registered
before. -/
lemma enrollBatch_eq_ok {manifest : List ManifestEntry} {ta ta' : TrustedAuthority S L P}
    {creds : List (Credential L P)} (h : ta.enrollBatch prim manifest = (.ok creds, ta')) :
    (creds.map Credential.identity).Nodup ∧ ∀ c ∈ creds, c.identity ∉ ta.registry.keys ∧
      c.peerSecrets = .empty ∧ c.lam = prim.deriveLongTermSecret c.identity ta.masterSecret := by
  induction manifest generalizing ta creds with
  | nil =>
    cases h
    exact ⟨List.nodup_nil, by simp⟩
  | cons entry manifest ih =>
    unfold enrollBatch at h
    split at h
    · cases h
    · rename_i cred ta₁ hentry
      split at h
      · cases h
      · rename_i creds₁ ta₂ hbatch
        cases h
        obtain ⟨identity, role, -, -, hnew, rfl, rfl⟩ := enrollEntry_eq_ok hentry
        obtain ⟨hnodup, hall⟩ := ih hbatch
        have hkeys : ∀ c ∈ creds₁, c.identity ≠ identity ∧ c.identity ∉ ta.registry.keys := by
          intro c hc
          have hc' := (hall c hc).1
          rw [Dict.mem_keys_iff, not_exists] at hc'
          simp only [Dict.get_set] at hc'
          constructor
          · intro hid
            exact hc' _ (if_pos hid)
          · intro hmem
            obtain ⟨v, hv⟩ := Dict.mem_keys_iff.mp hmem
            by_cases hid : c.identity = identity
            · exact hc' _ (if_pos hid)
            · exact hc' v ((if_neg hid).trans hv)
        refine ⟨?_, ?_⟩
        · rw [List.map_cons, List.nodup_cons]
          refine ⟨fun hmem => ?_, hnodup⟩
          obtain ⟨c, hc, hid⟩ := List.mem_map.mp hmem
          exact (hkeys c hc).1 hid
        · rw [List.forall_mem_cons]
          refine ⟨⟨hnew, rfl, rfl⟩, fun c hc => ?_⟩
          exact ⟨(hkeys c hc).2, (hall c hc).2⟩

/-- Sharing changes the peer secrets only. -/
lemma sharePeerKeys_frame (cred : Credential L P) (peers : List (Credential L P)) :
    (sharePeerKeys cred peers).identity = cred.identity ∧
      (sharePeerKeys cred peers).role = cred.role ∧
      (sharePeerKeys cred peers).lam = cred.lam := by
  unfold sharePeerKeys
  induction peers generalizing cred with
  | nil => exact ⟨rfl, rfl, rfl⟩
  | cons peer peers ih =>
    rw [List.foldl_cons]
    obtain ⟨h₁, h₂, h₃⟩ := ih (if peer.identity = cred.identity then cred
      else { cred with peerSecrets := cred.peerSecrets.set peer.identity peer.lam })
    rw [h₁, h₂, h₃]
    split_ifs <;> exact ⟨rfl, rfl, rfl⟩

/-- When the secret of a peer is a function `f` of its identity, sharing stores the value of `f`
for every peer other than the holder. -/
lemma get_sharePeerKeys (f : String → L) (cred : Credential L P) (peers : List (Credential L P))
    (hf : ∀ c ∈ peers, c.lam = f c.identity) (p : String) :
    (sharePeerKeys cred peers).peerSecrets.get p =
      if p ∈ peers.map Credential.identity ∧ p ≠ cred.identity then some (f p)
      else cred.peerSecrets.get p := by
  unfold sharePeerKeys
  induction peers generalizing cred with
  | nil => simp
  | cons peer peers ih =>
    obtain ⟨hpeer, hpeers⟩ := List.forall_mem_cons.mp hf
    rw [List.foldl_cons, ih _ hpeers]
    by_cases hself : peer.identity = cred.identity
    · simp only [if_pos hself, List.map_cons, List.mem_cons]
      congr 1
      simp only [eq_iff_iff, hself]
      tauto
    · simp only [if_neg hself, List.map_cons, List.mem_cons, Dict.get_set]
      by_cases hp : p = peer.identity
      · rw [hp]
        simp [hself, hpeer]
      · simp [hp]

/-- What a provisioned credential holds: its own secret, and the secret of every other provisioned
identity; and the identities are distinct. -/
theorem mem_provision {masterSecret : S} {manifest : List ManifestEntry}
    {creds : List (Credential L P)} (h : provision prim masterSecret manifest = .ok creds) :
    (creds.map Credential.identity).Nodup ∧ ∀ c ∈ creds,
      c.lam = prim.deriveLongTermSecret c.identity masterSecret ∧
      ∀ p, c.peerSecrets.get p =
        if p ∈ creds.map Credential.identity ∧ p ≠ c.identity then
          some (prim.deriveLongTermSecret p masterSecret)
        else none := by
  unfold provision at h
  split at h
  · cases h
  · rename_i base ta' hbatch
    cases h
    obtain ⟨hnodup, hall⟩ := enrollBatch_eq_ok hbatch
    have hids : (shareMutualPeerKeys base).map Credential.identity =
        base.map Credential.identity := by
      rw [shareMutualPeerKeys, List.map_map]
      exact List.map_congr_left fun c _ => (sharePeerKeys_frame c _).1
    rw [hids]
    refine ⟨hnodup, fun c hc => ?_⟩
    obtain ⟨c₀, hc₀, rfl⟩ := List.mem_map.mp hc
    obtain ⟨hid, -, hlam⟩ := sharePeerKeys_frame c₀ (base.filter fun c => c.identity ≠ c₀.identity)
    obtain ⟨-, hempty, hlam₀⟩ := hall c₀ hc₀
    constructor
    · rw [hid, hlam, hlam₀]
    · intro p
      rw [get_sharePeerKeys (fun p => prim.deriveLongTermSecret p masterSecret) c₀ _
        (fun c hc => (hall c (List.mem_filter.mp hc).1).2.2) p, hempty, hid, Dict.get_empty]
      congr 1
      simp only [List.mem_map, List.mem_filter, decide_eq_true_eq, eq_iff_iff]
      constructor
      · rintro ⟨⟨a, ⟨ha, -⟩, rfl⟩, hne⟩
        exact ⟨⟨a, ha, rfl⟩, hne⟩
      · rintro ⟨⟨a, ha, rfl⟩, hne⟩
        exact ⟨⟨a, ⟨ha, hne⟩, rfl⟩, hne⟩

/-- Sharing does not change a public point. -/
lemma publicPoint_sharePeerKeys (cred : Credential L P) (peers : List (Credential L P)) :
    (sharePeerKeys cred peers).publicPoint = cred.publicPoint := by
  unfold sharePeerKeys
  induction peers generalizing cred with
  | nil => rfl
  | cons peer peers ih =>
    rw [List.foldl_cons, ih]
    split_ifs <;> rfl

/-- A public point that a batch exports is that of the secret. -/
lemma publicPoint_of_enrollBatch {manifest : List ManifestEntry} {ta ta' : TrustedAuthority S L P}
    {creds : List (Credential L P)} (h : ta.enrollBatch prim manifest = (.ok creds, ta')) :
    ∀ c ∈ creds, ∀ point, c.publicPoint = some point → point = prim.scalarToPublicPoint c.lam := by
  induction manifest generalizing ta creds with
  | nil =>
    cases h
    intro c hc
    exact absurd hc List.not_mem_nil
  | cons entry manifest ih =>
    unfold enrollBatch at h
    split at h
    · cases h
    · rename_i cred ta₁ hentry
      split at h
      · cases h
      · rename_i creds₁ ta₂ hbatch
        cases h
        obtain ⟨identity, role, -, -, -, rfl, -⟩ := enrollEntry_eq_ok hentry
        rw [List.forall_mem_cons]
        refine ⟨fun point hpoint => ?_, ih hbatch⟩
        unfold freshCredential at hpoint ⊢
        dsimp only at hpoint ⊢
        split_ifs at hpoint
        exact (Option.some.inj hpoint).symm

/-- A public point that is issued is that of the secret. -/
theorem publicPoint_of_provision {masterSecret : S} {manifest : List ManifestEntry}
    {creds : List (Credential L P)} (h : provision prim masterSecret manifest = .ok creds) :
    ∀ c ∈ creds, ∀ point, c.publicPoint = some point → point = prim.scalarToPublicPoint c.lam := by
  unfold provision at h
  split at h
  · cases h
  · rename_i base ta' hbatch
    cases h
    intro c hc point hpoint
    obtain ⟨c₀, hc₀, rfl⟩ := List.mem_map.mp hc
    rw [publicPoint_sharePeerKeys] at hpoint
    rw [(sharePeerKeys_frame c₀ _).2.2]
    exact publicPoint_of_enrollBatch hbatch c₀ hc₀ point hpoint

end TrustedAuthority

end HybridEccAuth

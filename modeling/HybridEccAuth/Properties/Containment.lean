import HybridEccAuth.Library.Symbolic
import HybridEccAuth.Properties.CounterCompleteness
import HybridEccAuth.Properties.HonestResponses

/-!
# What a credential gives away

The authority over symbolic terms, in which the derivations of secrets, of pairwise roots and of
points are one-way.  A provisioned credential holds the secrets of its whole
manifest, so the pairwise root of a device and a server, and a request of the device to
the server, can be derived from it exactly when both are in the manifest
(`derives_root_iff`, `derives_m1_iff`); and its holder can take the place of any other
device of the manifest in a whole exchange (`impostor_establishes`).
-/

namespace HybridEccAuth

namespace Containment

open Symbolic

/-- The names: public ones, such as identities, epochs and nonces, and the master secret. -/
inductive Name
  | common (text : String)
  | masterSecret

/-- The one-way functions. -/
inductive OneWay
  /-- `derive_long_term_secret`, of an identity and the master secret. -/
  | h1
  /-- `scalar_to_public_point`. -/
  | point
  /-- `h2_pseudonym`, of a secret and an epoch. -/
  | h2
  /-- `derive_pairwise_root`, of the secrets of a device and of a server. -/
  | root

/-- Symbolic values. -/
abbrev Value := Term Name OneWay

/-- The secret of an identity. -/
def secret (identity : String) : Value :=
  .apply .h1 (.name (.common identity)) (.name .masterSecret)

/-- The pairwise root of a device with a server. -/
def root (device server : String) : Value := .apply .root (secret device) (secret server)

/-- The pseudonym of a device in an epoch. -/
def pseudonym (device epoch : String) : Value :=
  .apply .h2 (secret device) (.name (.common epoch))

/-- A request of a device to a server, in an epoch and with a nonce. -/
def m1 (device server epoch nonce : String) : Value :=
  .pair (pseudonym device epoch) (.encrypt (root device server)
    (.pair (pseudonym device epoch) (.pair (.name (.common nonce)) (.name (.common epoch)))))

/-- The authority over symbolic values. -/
def symbolicPrimitives : TaPrimitives Value Value Value where
  deriveLongTermSecret identity masterSecret := .apply .h1 (.name (.common identity)) masterSecret
  scalarToPublicPoint lam := .apply .point lam lam

/-- What is known to the holder of a credential: the public names, its secret and its point, and the
secrets of its peers. -/
def knowledge (cred : Credential Value Value) : Set Value :=
  {t | (∃ text, t = .name (.common text)) ∨ t = cred.lam ∨ cred.publicPoint = some t ∨
    ∃ p, cred.peerSecrets.get p = some t}

/-! ## What can be derived -/

section Derivations

variable {manifest : List ManifestEntry} {creds : List (Credential Value Value)}
  {X : Credential Value Value}

/-- The known terms: public names, the secrets of the manifest, and a point. -/
lemma known_cases
    (h : TrustedAuthority.provision symbolicPrimitives (.name .masterSecret) manifest = .ok creds)
    (hX : X ∈ creds) {t : Value} (ht : t ∈ knowledge X) :
    (∃ text, t = .name (.common text)) ∨
      (∃ identity ∈ creds.map Credential.identity, t = secret identity) ∨
      t = .apply .point X.lam X.lam := by
  obtain ⟨hlam, hpeers⟩ := (TrustedAuthority.mem_provision h).2 X hX
  rcases ht with htext | rfl | hpoint | ⟨p, hp⟩
  · exact Or.inl htext
  · exact Or.inr (Or.inl ⟨X.identity, List.mem_map_of_mem hX, hlam⟩)
  · exact Or.inr (Or.inr (TrustedAuthority.publicPoint_of_provision h X hX t hpoint))
  · rw [hpeers] at hp
    split_ifs at hp with hmem
    exact Or.inr (Or.inl ⟨p, hmem.1, (Option.some.inj hp).symm⟩)

/-- The secrets of the manifest are known. -/
lemma secret_mem_knowledge
    (h : TrustedAuthority.provision symbolicPrimitives (.name .masterSecret) manifest = .ok creds)
    (hX : X ∈ creds) {identity : String} (hmem : identity ∈ creds.map Credential.identity) :
    secret identity ∈ knowledge X := by
  obtain ⟨hlam, hpeers⟩ := (TrustedAuthority.mem_provision h).2 X hX
  by_cases hid : identity = X.identity
  · subst hid
    exact Or.inr (Or.inl hlam.symm)
  · refine Or.inr (Or.inr (Or.inr ⟨identity, ?_⟩))
    rw [hpeers, if_pos ⟨hmem, hid⟩]
    rfl

/-- The known terms hide their parts. -/
lemma sealed_of_provision
    (h : TrustedAuthority.provision symbolicPrimitives (.name .masterSecret) manifest = .ok creds)
    (hX : X ∈ creds) : ∀ t ∈ knowledge X, t.Sealed := by
  intro t ht
  rcases known_cases h hX ht with ⟨text, rfl⟩ | ⟨identity, -, rfl⟩ | rfl
  · trivial
  · trivial
  · trivial

/-- The master secret cannot be derived from a provisioned credential. -/
theorem masterSecret_not_derived
    (h : TrustedAuthority.provision symbolicPrimitives (.name .masterSecret) manifest = .ok creds)
    (hX : X ∈ creds) : ¬ Derives (knowledge X) (.name .masterSecret) := by
  rw [derives_name_iff (sealed_of_provision h hX)]
  intro hmem
  rcases known_cases h hX hmem with ⟨text, htext⟩ | ⟨identity, -, hsecret⟩ | hpoint
  · cases htext
  · cases hsecret
  · cases hpoint

/-- A secret can be derived exactly when its identity is in the manifest. -/
theorem derives_secret_iff
    (h : TrustedAuthority.provision symbolicPrimitives (.name .masterSecret) manifest = .ok creds)
    (hX : X ∈ creds) {identity : String} :
    Derives (knowledge X) (secret identity) ↔ identity ∈ creds.map Credential.identity := by
  rw [secret, derives_apply_iff (sealed_of_provision h hX), ← secret]
  constructor
  · rintro (hmem | ⟨-, hmaster⟩)
    · rcases known_cases h hX hmem with ⟨text, htext⟩ | ⟨identity', hid, hsecret⟩ | hpoint
      · cases htext
      · cases hsecret
        exact hid
      · cases hpoint
    · exact absurd hmaster (masterSecret_not_derived h hX)
  · intro hid
    exact Or.inl (secret_mem_knowledge h hX hid)

/-- A public name can be derived. -/
lemma derives_common (X : Credential Value Value) (text : String) :
    Derives (knowledge X) (.name (.common text)) :=
  .known (Or.inl ⟨text, rfl⟩)

/-- A pairwise root can be derived exactly when both of its identities are in the manifest. -/
theorem derives_root_iff
    (h : TrustedAuthority.provision symbolicPrimitives (.name .masterSecret) manifest = .ok creds)
    (hX : X ∈ creds) {device server : String} :
    Derives (knowledge X) (root device server) ↔
      device ∈ creds.map Credential.identity ∧ server ∈ creds.map Credential.identity := by
  have hnew : root device server ∉ knowledge X := by
    intro hmem
    rcases known_cases h hX hmem with ⟨text, htext⟩ | ⟨identity, -, hsecret⟩ | hpoint
    · cases htext
    · cases hsecret
    · cases hpoint
  rw [root, derives_apply_iff (sealed_of_provision h hX), ← root, derives_secret_iff h hX,
    derives_secret_iff h hX]
  exact ⟨fun hor => hor.resolve_left hnew, Or.inr⟩

/-- A pseudonym can be derived exactly when its identity is in the manifest. -/
lemma derives_pseudonym_iff
    (h : TrustedAuthority.provision symbolicPrimitives (.name .masterSecret) manifest = .ok creds)
    (hX : X ∈ creds) {device epoch : String} :
    Derives (knowledge X) (pseudonym device epoch) ↔ device ∈ creds.map Credential.identity := by
  have hnew : pseudonym device epoch ∉ knowledge X := by
    intro hmem
    rcases known_cases h hX hmem with ⟨text, htext⟩ | ⟨identity, -, hsecret⟩ | hpoint
    · cases htext
    · cases hsecret
    · cases hpoint
  rw [pseudonym, derives_apply_iff (sealed_of_provision h hX), ← pseudonym, derives_secret_iff h hX]
  exact ⟨fun hor => (hor.resolve_left hnew).1, fun hmem => Or.inr ⟨hmem, derives_common X epoch⟩⟩

/-- A request can be derived exactly when its device and its server are in the manifest. -/
theorem derives_m1_iff
    (h : TrustedAuthority.provision symbolicPrimitives (.name .masterSecret) manifest = .ok creds)
    (hX : X ∈ creds) {device server epoch nonce : String} :
    Derives (knowledge X) (m1 device server epoch nonce) ↔
      device ∈ creds.map Credential.identity ∧ server ∈ creds.map Credential.identity := by
  rw [m1, derives_pair_iff, derives_encrypt_iff (sealed_of_provision h hX), derives_pair_iff,
    derives_pair_iff, derives_root_iff h hX, derives_pseudonym_iff h hX]
  constructor
  · intro hm1
    exact hm1.2.1
  · intro hmem
    exact ⟨hmem.1, hmem, hmem.1, derives_common X nonce, derives_common X epoch⟩

end Derivations

/-! ## Requests in the name of a peer -/

/-- The device that the holder of a credential makes up from the secrets of a device and of a server
among its peers.  Its epochs are for its holder to choose. -/
def impostor (C : Crypto) (X : Credential Lam Bytes) (device server : String) : Option (Device C) :=
  match X.peerSecrets.get device, X.peerSecrets.get server with
  | some lamV, some lamR =>
    some { entity := { credential := { identity := device, role := .device, lam := lamV,
                                       peerSecrets := Dict.empty.set server lamR } },
           epochClock := true }
  | _, _ => none

section Forgery

variable {C : Crypto} {scalarToPublicPoint : Lam → Bytes} {masterSecret : Bytes}
  {manifest : List ManifestEntry} {creds : List (Credential Lam Bytes)}
  {X V R : Credential Lam Bytes}

/-- The secret of another credential of the manifest. -/
lemma peerSecrets_of_provision
    (h : TrustedAuthority.provision (taPrimitives C scalarToPublicPoint) masterSecret manifest =
      .ok creds) (hX : X ∈ creds) (hV : V ∈ creds) (hne : V.identity ≠ X.identity) :
    X.peerSecrets.get V.identity = some V.lam := by
  obtain ⟨-, hall⟩ := TrustedAuthority.mem_provision h
  rw [(hall X hX).2, if_pos ⟨List.mem_map_of_mem hV, hne⟩, (hall V hV).1]

/-- The made-up device and the server hold each other's secret. -/
lemma exists_impostor
    (h : TrustedAuthority.provision (taPrimitives C scalarToPublicPoint) masterSecret manifest =
      .ok creds) (hX : X ∈ creds) (hV : V ∈ creds) (hR : R ∈ creds)
    (hVX : V.identity ≠ X.identity) (hRX : R.identity ≠ X.identity)
    (hVR : V.identity ≠ R.identity) :
    ∃ D : Device C, impostor C X V.identity R.identity = some D ∧ D.epochClock = true ∧
      D.nonceBits = defaultNonceBits ∧ D.sessionLog = {} ∧
      D.sessionTimeout = defaultSessionTimeoutSeconds ∧
      ∀ S : Server C, S.credential = R → R.role = .server →
        Paired D V.identity S R.identity := by
  have hV' : X.peerSecrets.get V.identity = some V.lam := peerSecrets_of_provision h hX hV hVX
  have hR' : X.peerSecrets.get R.identity = some R.lam := peerSecrets_of_provision h hX hR hRX
  rw [impostor, hV', hR']
  refine ⟨_, rfl, rfl, rfl, rfl, rfl, fun S hS hrole => ⟨rfl, hS ▸ hrole, ?_, ?_⟩⟩
  · rw [Server.peers, hS]
    exact peerSecrets_of_provision h hR hV hVR
  · rw [hS]
    exact Dict.get_set_self _ _ _

/-- A request that is built from one credential in the name of another one is answered as a request
of the other one, as long as its epoch lies in the forward window of the other one, which is neither
blocked nor out of range. -/
lemma forged_request_answered
    (h : TrustedAuthority.provision (taPrimitives C scalarToPublicPoint) masterSecret manifest =
      .ok creds) (hX : X ∈ creds) (hV : V ∈ creds) (hR : R ∈ creds)
    (hVX : V.identity ≠ X.identity) (hRX : R.identity ≠ X.identity) (hVrole : V.role = .device)
    (hRrole : R.role = .server) {nonceBits F : ℕ} (hbits : nonceBits ∈ supportedNonceBits)
    (hinj : PseudonymsInjective C R.peerSecrets) {S : Server C} (hS : S.CountsFrom R nonceBits F)
    {serverEnv : ServerEnv} {env : BuildEnv}
    (hblocked : S.sessionLog.isBlocked V.identity = false)
    (hcoverage : serverEnv.coverage V.identity = true) (hreach : env.coverage R.identity = true)
    (hepoch : 0 ≤ env.clockEpoch) (hnew : S.sessionLog.last V.identity < env.clockEpoch)
    (htol : env.clockEpoch ≤ S.sessionLog.last V.identity + F)
    (hnext : env.clockEpoch + F < 2 ^ 64) :
    ∃ D data D' session result, impostor C X V.identity R.identity = some D ∧
      D.buildAuthRequest env R.identity = (.ok data, D') ∧
      D'.sessionTimeout = defaultSessionTimeoutSeconds ∧
      D'.pending.get R.identity = some session ∧ session.peerIdentity = R.identity ∧
      session.createdAt = env.monotonic ∧ session.kStar.length = keyLen ∧
      (S.handleAuthRequest serverEnv data).1 = .ok result ∧
      respond C R.identity S.nonceBits serverEnv (session.opened V.identity) = .ok result ∧
      result.peerIdentity = V.identity := by
  obtain ⟨hcounts, hcred, hSbits, htolerance⟩ := hS.counts hinj
  -- a device and a server have different identities
  have hVR : V.identity ≠ R.identity := by
    intro hid
    have hVR := List.inj_on_of_nodup_map (TrustedAuthority.mem_provision h).1 hV hR hid
    rw [hVR, hRrole] at hVrole
    cases hVrole
  obtain ⟨D, hD, hclock, hDbits, hlog, htimeout, hpairs⟩ := exists_impostor h hX hV hR hVX hRX hVR
  have hpaired : Paired D V.identity S R.identity := hpairs S hcred hRrole
  have hrequest : D.requestEpoch env R.identity = env.clockEpoch := by
    rw [Device.requestEpoch, hclock, if_pos rfl]
  obtain ⟨data, D', hbuild⟩ : ∃ data D', D.buildAuthRequest env R.identity = (.ok data, D') := by
    refine Device.exists_buildAuthRequest ?_ hreach hpaired.server_secret ?_ ?_
    · rw [hlog]
      rfl
    · rw [hDbits]
      decide
    · rw [hrequest]
      omega
  obtain ⟨session, hsession, hpeer, hsepoch, hcreated, -, -, hkStar, -⟩ :=
    hpaired.session_of_build hbuild
  rw [hrequest] at hsepoch
  have hinj' : PseudonymsInjective C S.peers := by
    rw [Server.peers, hcred]
    exact hinj
  obtain ⟨result, hok, hrespond, hresult⟩ := hcounts.answered hinj' (hSbits ▸ hbits) hpaired hbuild
    hsession hblocked hcoverage (hsepoch ▸ hnew) (by rwa [hsepoch, htolerance])
    (by rwa [hsepoch, htolerance])
  rw [hcred] at hrespond
  have hkey : session.kStar.length = keyLen := by
    rw [hkStar]
    exact Credential.length_pairwiseRoot C _ _
  obtain ⟨-, -, -, -, -, -, -, -, htimeout', -⟩ := Device.buildAuthRequest_ok hbuild
  exact ⟨D, data, D', session, result, hD, hbuild, htimeout'.trans htimeout, hsession,
    hpeer, hcreated,
    hkey, hok, hrespond, hresult⟩

end Forgery

/-! ## Containment -/

/-- From a provisioned credential the pairwise root of a device and a server, and a request of the
device to the server, can be derived exactly when both are in the manifest, and the master secret
never; and a request built from the credential of a device in the name of another device of the
manifest is answered as one of that device. -/
theorem contained_outside_manifest {manifest : List ManifestEntry}
    {symbolic : List (Credential Value Value)}
    (hsymbolic : TrustedAuthority.provision symbolicPrimitives (.name .masterSecret) manifest =
      .ok symbolic)
    {C : Crypto} {scalarToPublicPoint : Lam → Bytes} {masterSecret : Bytes}
    {issued : List (Credential Lam Bytes)}
    (hissued : TrustedAuthority.provision (taPrimitives C scalarToPublicPoint)
      masterSecret manifest =
      .ok issued) :
    (∀ X ∈ symbolic, ¬ Derives (knowledge X) (.name .masterSecret) ∧ ∀ device server,
      (Derives (knowledge X) (root device server) ↔
        device ∈ symbolic.map Credential.identity ∧ server ∈ symbolic.map Credential.identity) ∧
      ∀ epoch nonce, Derives (knowledge X) (m1 device server epoch nonce) ↔
        device ∈ symbolic.map Credential.identity ∧ server ∈ symbolic.map Credential.identity) ∧
    ∀ X ∈ issued, ∀ V ∈ issued, ∀ R ∈ issued, X.role = .device → V.role = .device →
      R.role = .server → V.identity ≠ X.identity → PseudonymsInjective C R.peerSecrets →
      ∀ nonceBits ∈ supportedNonceBits, ∀ (F : ℕ) (S : Server C), S.CountsFrom R nonceBits F →
        ∀ (serverEnv : ServerEnv) (env : BuildEnv), S.sessionLog.isBlocked V.identity = false →
          serverEnv.coverage V.identity = true → env.coverage R.identity = true →
          0 ≤ env.clockEpoch → S.sessionLog.last V.identity < env.clockEpoch →
          env.clockEpoch ≤ S.sessionLog.last V.identity + F → env.clockEpoch + F < 2 ^ 64 →
          ∃ D data D' result, impostor C X V.identity R.identity = some D ∧
            D.buildAuthRequest env R.identity = (.ok data, D') ∧
            (S.handleAuthRequest serverEnv data).1 = .ok result ∧
            result.peerIdentity = V.identity := by
  constructor
  · intro X hX
    refine ⟨masterSecret_not_derived hsymbolic hX, fun device server => ⟨?_, fun epoch nonce => ?_⟩⟩
    · exact derives_root_iff hsymbolic hX
    · exact derives_m1_iff hsymbolic hX
  · intro X hX V hV R hR hXrole hVrole hRrole hVX hinj nonceBits hbits F S hS serverEnv env hblocked
      hcoverage hreach hepoch hnew htol hnext
    have hRX : R.identity ≠ X.identity := by
      intro hid
      have hRX := List.inj_on_of_nodup_map (TrustedAuthority.mem_provision hissued).1 hR hX hid
      rw [← hRX, hRrole] at hXrole
      cases hXrole
    obtain ⟨D, data, D', session, result, hD, hbuild, -, -, -, -, -, hok, -, hresult⟩ :=
      forged_request_answered hissued hX hV hR hVX hRX hVrole hRrole hbits hinj hS
      hblocked hcoverage
        hreach hepoch hnew htol hnext
    exact ⟨D, data, D', result, hD, hbuild, hok, hresult⟩

/-- A manifest of two devices and a server. -/
def twoDevices : List ManifestEntry :=
  [⟨some "device-1", some "device", false⟩, ⟨some "device-2", some "device", false⟩,
    ⟨some "server-A", some "server", false⟩]

/-- What is issued for this manifest. -/
lemma provision_twoDevices {S L P : Type} (prim : TaPrimitives S L P) (masterSecret : S) :
    ∃ X V R, TrustedAuthority.provision prim masterSecret twoDevices = .ok [X, V, R] ∧
      (X.identity = "device-1" ∧ X.role = .device) ∧ (V.identity = "device-2" ∧ V.role = .device) ∧
      R.identity = "server-A" ∧ R.role = .server :=
  ⟨_, _, _, rfl, ⟨rfl, rfl⟩, ⟨rfl, rfl⟩, rfl, rfl⟩

/-- Under the plain suite the secrets of these devices differ in their low 24 bytes. -/
lemma secrets_twoDevices :
    ((taPrimitives .plain fun _ => []).deriveLongTermSecret "device-1" []).val % 2 ^ 192 ≠
      ((taPrimitives .plain fun _ => []).deriveLongTermSecret "device-2" []).val % 2 ^ 192 := by
  decide +kernel

/-- When two peers have secrets that differ in their low 24 bytes, no pseudonym of the plain suite
names both. -/
lemma pseudonymsInjective_of_two {peers : Dict String Lam} {a b : String} {f : String → Lam}
    (h : ∀ p lam, peers.get p = some lam → (p = a ∨ p = b) ∧ lam = f p)
    (hlow : (f a).val % 2 ^ 192 ≠ (f b).val % 2 ^ 192) : PseudonymsInjective .plain peers := by
  apply pseudonymsInjective_plain
  intro p p' lam lam' hlam hlam' heq
  obtain ⟨hp, rfl⟩ := h p lam hlam
  obtain ⟨hp', rfl⟩ := h p' lam' hlam'
  rcases hp with rfl | rfl <;> rcases hp' with rfl | rfl
  · rfl
  · exact absurd heq hlow
  · exact absurd heq.symm hlow
  · rfl

/-- Under the plain suite no pseudonym names both of these devices. -/
lemma pseudonymsInjective_twoDevices {X V R : Credential Lam Bytes}
    (h : TrustedAuthority.provision (taPrimitives .plain fun _ => []) [] twoDevices = .ok [X, V, R])
    (hX : X.identity = "device-1") (hV : V.identity = "device-2") (hR : R.identity = "server-A") :
    PseudonymsInjective .plain R.peerSecrets := by
  obtain ⟨-, hall⟩ := TrustedAuthority.mem_provision h
  have hmem : R ∈ [X, V, R] := by simp
  obtain ⟨-, hpeers⟩ := hall R hmem
  refine pseudonymsInjective_of_two
    (f := fun p => (taPrimitives .plain fun _ => []).deriveLongTermSecret p [])
    (fun p lam hlam => ?_) secrets_twoDevices
  rw [hpeers] at hlam
  split_ifs at hlam with hmem
  refine ⟨?_, (Option.some.inj hlam).symm⟩
  rw [List.map_cons, List.map_cons, List.map_cons, List.map_nil, hX, hV, hR] at hmem
  simpa [hmem.2] using hmem.1

/-- A server of this manifest, just created. -/
lemma exists_server_twoDevices {X V R : Credential Lam Bytes}
    (h : TrustedAuthority.provision (taPrimitives .plain fun _ => []) [] twoDevices = .ok [X, V, R])
    (hX : X.identity = "device-1") (hV : V.identity = "device-2")
    (hR : R.identity = "server-A" ∧ R.role = .server) :
    ∃ S : Server .plain, Server.create R 128 {} (.linearScan {}) 0 = .ok S ∧
      S.CountsFrom R 128 8 ∧ S.sessionLog.isBlocked "device-2" = false ∧
      S.sessionLog.last "device-2" = -1 := by
  have hseparates : (Resolver.linearScan {}).Separates := trivial
  have hlast : ∀ p, ({} : SessionLog).last p = -1 := fun _ => rfl
  have hfit : (Resolver.linearScan {}).EpochsFit R.peerSecrets {} := by
    intro p hp
    rw [hlast]
    decide
  obtain ⟨S, hS⟩ := Server.exists_create (C := .plain) 128 0 hseparates hR.2
    (pseudonymsInjective_twoDevices h hX hV hR.1) hfit
  obtain ⟨-, -, -, hlog, -, -⟩ := Server.valid_create hS
  refine ⟨S, hS, Server.countsFrom_create hseparates hfit hS, ?_, ?_⟩
  · rw [hlog]
    rfl
  · rw [hlog]
    rfl

/-- The first device of the manifest can derive the root of the second one with the server, and a
request that it builds in the name of the second one is answered. -/
theorem contained_outside_manifest_twoDevices :
    (∃ X V R, TrustedAuthority.provision symbolicPrimitives (.name .masterSecret) twoDevices =
        .ok [X, V, R] ∧ Derives (knowledge X) (root V.identity R.identity) ∧
        ¬ Derives (knowledge X) (root "device-3" R.identity)) ∧
      ∃ X V R, TrustedAuthority.provision (taPrimitives .plain fun _ => []) [] twoDevices =
          .ok [X, V, R] ∧
        ∃ (S : Server .plain) (D : Device .plain) (data : Bytes) (D' : Device .plain)
          (result : AuthResult), Server.create R 128 {} (.linearScan {}) 0 = .ok S ∧
          impostor .plain X V.identity R.identity = some D ∧
          D.buildAuthRequest ⟨fun _ => true, 0, .zeros, .zeros, 0⟩ R.identity = (.ok data, D') ∧
          (S.handleAuthRequest (.read 0 0) data).1 = .ok result ∧
          result.peerIdentity = V.identity := by
  obtain ⟨X, V, R, hsymbolic, ⟨hX, -⟩, ⟨hV, -⟩, hR, -⟩ :=
    provision_twoDevices symbolicPrimitives (.name .masterSecret)
  obtain ⟨X', V', R', hissued, ⟨hX', hXrole⟩, ⟨hV', hVrole⟩, hR', hRrole⟩ :=
    provision_twoDevices (taPrimitives .plain fun _ => []) []
  have hinj := pseudonymsInjective_twoDevices hissued hX' hV' hR'
  obtain ⟨hderived, hforged⟩ := contained_outside_manifest hsymbolic hissued
  refine ⟨⟨X, V, R, hsymbolic, ?_, ?_⟩, X', V', R', hissued, ?_⟩
  · exact (((hderived X (by simp)).2 _ _).1).mpr ⟨by simp, by simp⟩
  · intro hroot
    have hmem := ((((hderived X (by simp)).2 _ _).1).mp hroot).1
    rw [List.map_cons, List.map_cons, List.map_cons, List.map_nil, hX, hV, hR] at hmem
    exact absurd hmem (by decide)
  · obtain ⟨S, hS, hcounts, hblocked, hlast⟩ :=
      exists_server_twoDevices hissued hX' hV' ⟨hR', hRrole⟩
    have hne : V'.identity ≠ X'.identity := by
      rw [hX', hV']
      decide
    obtain ⟨D, data, D', result, hD, hbuild, hok, hpeer⟩ := hforged X' (by simp) V' (by simp) R'
      (by simp) hXrole hVrole hRrole hne hinj 128 (by decide) 8 S hcounts (.read 0 0)
      ⟨fun _ => true, 0, .zeros, .zeros, 0⟩ (hV' ▸ hblocked) rfl rfl le_rfl
      (by rw [hV', hlast]; decide) (by rw [hV', hlast]; decide) (by decide)
    exact ⟨S, D, data, D', result, hS, hD, hbuild, hok, hpeer⟩

/-- So the credential of a device does give away the root of another device with a server, and a
request of the other device. -/
theorem root_derived_twoDevices :
    ¬ ∀ (manifest : List ManifestEntry) (creds : List (Credential Value Value)),
      TrustedAuthority.provision symbolicPrimitives (.name .masterSecret) manifest = .ok creds →
      ∀ X ∈ creds, ∀ V ∈ creds, ∀ R ∈ creds, X.role = .device → V.role = .device →
        R.role = .server → V.identity ≠ X.identity →
        ¬ Derives (knowledge X) (root V.identity R.identity) := by
  intro hall
  obtain ⟨X, V, R, h, ⟨hX, hXrole⟩, ⟨hV, hVrole⟩, -, hRrole⟩ :=
    provision_twoDevices symbolicPrimitives (.name .masterSecret)
  have hne : V.identity ≠ X.identity := by
    rw [hX, hV]
    decide
  have hX' : X ∈ [X, V, R] := by simp
  apply hall twoDevices _ h X hX' V (by simp) R (by simp) hXrole hVrole hRrole hne
  exact (derives_root_iff h hX').mpr ⟨by simp, by simp⟩

/-! ## Impersonation -/

/-- The holder of a credential takes the place of any other device of the manifest at any other
server: in every state that the server reaches by any requests, a request that is built from the
credential in the name of the device, for an epoch in the forward window of the device, which is
neither blocked nor out of range, is answered as one of the device; and an answer that comes in time
gives the holder the session key of the server. -/
theorem impostor_establishes {C : Crypto} {scalarToPublicPoint : Lam → Bytes} {masterSecret : Bytes}
    {manifest : List ManifestEntry} {creds : List (Credential Lam Bytes)}
    {X V R : Credential Lam Bytes}
    (h : TrustedAuthority.provision (taPrimitives C scalarToPublicPoint) masterSecret manifest =
      .ok creds) (hX : X ∈ creds) (hV : V ∈ creds) (hR : R ∈ creds)
    (hVX : V.identity ≠ X.identity) (hRX : R.identity ≠ X.identity) (hVrole : V.role = .device)
    (hRrole : R.role = .server) {nonceBits F : ℕ} (hbits : nonceBits ∈ supportedNonceBits)
    (hinj : PseudonymsInjective C R.peerSecrets) {S : Server C} (hS : S.CountsFrom R nonceBits F)
    {serverEnv : ServerEnv} {env : BuildEnv}
    (hblocked : S.sessionLog.isBlocked V.identity = false)
    (hcoverage : serverEnv.coverage V.identity = true) (hreach : env.coverage R.identity = true)
    (hepoch : 0 ≤ env.clockEpoch) (hnew : S.sessionLog.last V.identity < env.clockEpoch)
    (htol : env.clockEpoch ≤ S.sessionLog.last V.identity + F)
    (hnext : env.clockEpoch + F < 2 ^ 64) :
    ∃ D data D' result, impostor C X V.identity R.identity = some D ∧
      D.buildAuthRequest env R.identity = (.ok data, D') ∧
      (S.handleAuthRequest serverEnv data).1 = .ok result ∧ result.peerIdentity = V.identity ∧
      ∀ monotonic, monotonic - env.monotonic ≤ defaultSessionTimeoutSeconds →
        (D'.completeAuth monotonic result.responseBytes).1 = .ok result.sessionKey := by
  obtain ⟨D, data, D', session, result, hD, hbuild, htimeout, hsession, hpeer, hcreated, hkey, hok,
    hrespond, hresult⟩ :=
    forged_request_answered h hX hV hR hVX hRX hVrole hRrole hbits hinj hS hblocked
      hcoverage hreach hepoch hnew htol hnext
  refine ⟨D, data, D', result, hD, hbuild, hok, hresult, fun monotonic htime => ?_⟩
  have hanswer := Device.completeAuth_answer hkey hrespond hsession hpeer
    (not_lt.mpr (hcreated ▸ htimeout ▸ htime))
  exact congrArg Prod.fst hanswer

/-- The first device of the manifest gets a session key in the name of the second one. -/
theorem impostor_establishes_twoDevices :
    ∃ X V R, TrustedAuthority.provision (taPrimitives .plain fun _ => []) [] twoDevices =
        .ok [X, V, R] ∧ X.identity ≠ V.identity ∧
      ∃ (S : Server .plain) (D : Device .plain) (data : Bytes) (D' : Device .plain)
        (result : AuthResult), Server.create R 128 {} (.linearScan {}) 0 = .ok S ∧
        impostor .plain X V.identity R.identity = some D ∧
        D.buildAuthRequest ⟨fun _ => true, 0, .zeros, .zeros, 0⟩ R.identity = (.ok data, D') ∧
        (S.handleAuthRequest (.read 0 0) data).1 = .ok result ∧
        result.peerIdentity = V.identity ∧
        (D'.completeAuth 0 result.responseBytes).1 = .ok result.sessionKey := by
  obtain ⟨X, V, R, h, ⟨hX, -⟩, ⟨hV, hVrole⟩, hR, hRrole⟩ :=
    provision_twoDevices (taPrimitives .plain fun _ => []) []
  obtain ⟨S, hS, hcounts, hblocked, hlast⟩ := exists_server_twoDevices h hX hV ⟨hR, hRrole⟩
  have hVX : V.identity ≠ X.identity := by
    rw [hX, hV]
    decide
  have hRX : R.identity ≠ X.identity := by
    rw [hX, hR]
    decide
  have hclock : (⟨fun _ => true, 0, .zeros, .zeros, 0⟩ : BuildEnv).clockEpoch = 0 := rfl
  obtain ⟨D, data, D', result, hD, hbuild, hok, hpeer, hkey⟩ := impostor_establishes h
    (by simp : X ∈ [X, V, R]) (by simp : V ∈ [X, V, R]) (by simp : R ∈ [X, V, R]) hVX hRX hVrole
    hRrole (by decide : 128 ∈ supportedNonceBits)
    (pseudonymsInjective_twoDevices h hX hV hR) hcounts
    (hV ▸ hblocked) (rfl : (ServerEnv.read 0 0).coverage V.identity = true)
    (rfl : (⟨fun _ => true, 0, .zeros, .zeros, 0⟩ : BuildEnv).coverage R.identity = true) le_rfl
    (by rw [hV, hlast, hclock]; decide) (by rw [hV, hlast, hclock]; decide)
    (by rw [hclock]; decide)
  refine ⟨X, V, R, h, hVX.symm, S, D, data, D', result, hS, hD, hbuild, hok, hpeer, hkey 0 ?_⟩
  norm_num [defaultSessionTimeoutSeconds]

end Containment

end HybridEccAuth

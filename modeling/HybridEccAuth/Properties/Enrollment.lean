import HybridEccAuth.Demo.TaCli
import HybridEccAuth.Library.Machine
import HybridEccAuth.Properties.Desynchronisation

/-!
# Runs of the provisioning command

All bundles that runs of `hea-ta enroll` over one output directory write are derived from the master
secret that the first run saved (`Issued`).  So a device and a server can use bundles of different
runs, as long as each of the two bundles lists the other identity (`bundles_agree`); and a run that
is repeated changes nothing (`enroll_idempotent`).
-/

namespace HybridEccAuth

variable {C : Crypto} {scalarToPublicPoint : Lam → Bytes}

/-- A credential whose secrets are all derived from the master secret. -/
structure Derived (C : Crypto) (masterSecret : Bytes) (cred : Credential Lam Bytes) : Prop where
  point : cred.publicPoint ≠ some []
  lam : cred.lam = h1DeriveSecret C (utf8Encode cred.identity) masterSecret
  peers : ∀ p lam, cred.peerSecrets.get p = some lam →
    p ≠ cred.identity ∧ lam = h1DeriveSecret C (utf8Encode p) masterSecret

/-- An output directory holds the master secret, and bundles that were derived from it. -/
structure Issued (C : Crypto) (masterSecret : Bytes) (dir : Dict String File) : Prop where
  secret : dir.get defaultMasterSecretFilename =
    some ⟨KeyStore.privateFileMode, toHex masterSecret⟩
  bundles : ∀ name file, dir.get name = some file → name ≠ defaultMasterSecretFilename →
    ∃ cred, Derived C masterSecret cred ∧ name = bundleName cred.identity ∧ file =
    KeyStore.save cred

/-- Credentials that were derived from one master secret, and list each other, make a pair. -/
lemma Derived.paired {masterSecret : Bytes} {credV credR : Credential Lam Bytes}
    (hV : Derived C masterSecret credV) (hR : Derived C masterSecret credR)
    (hlistsV : credR.identity ∈ credV.peerSecrets.keys)
    (hlistsR : credV.identity ∈ credR.peerSecrets.keys) {D : Device C} {S : Server C}
    (hD : D.credential = credV) (hS : S.credential = credR) (hDrole : credV.role = .device)
    (hSrole : credR.role = .server) : Paired D credV.identity S credR.identity := by
  obtain ⟨lamR, hlamR⟩ := Dict.mem_keys_iff.mp hlistsV
  obtain ⟨lamV, hlamV⟩ := Dict.mem_keys_iff.mp hlistsR
  refine ⟨hD ▸ hDrole, hS ▸ hSrole, ?_, ?_⟩
  · rw [Server.peers, hS, hD, hlamV, (hR.peers _ _ hlamV).2, hV.lam]
  · rw [hD, hS, hlamR, (hV.peers _ _ hlamR).2, hR.lam]

/-! ## Names and writes -/

/-- No bundle has the name of the master secret. -/
lemma bundleName_ne (identity : String) : bundleName identity ≠ defaultMasterSecretFilename := by
  intro h
  have hlast := congrArg (fun s : String => s.toList.getLast?) h
  rw [bundleName, String.toList_append] at hlast
  have hbundle : (identity.toList ++ ".json".toList).getLast? = some 'n' := by
    rw [List.getLast?_append_of_ne_nil _ (by decide)]
    rfl
  rw [hbundle] at hlast
  exact absurd hlast (by decide)

/-- Different identities have different bundles. -/
lemma bundleName_injective : Function.Injective bundleName := by
  intro a b h
  have hlists := congrArg String.toList h
  rw [bundleName, bundleName, String.toList_append, String.toList_append] at hlists
  exact String.toList_inj.mp (List.append_cancel_right hlists)

/-- A file after the bundles were written is one of the bundles, or as it was. -/
lemma get_writeBundles_cases (dir : Dict String File) (creds : List (Credential Lam Bytes))
    (name : String) :
    (∃ cred ∈ creds, name = bundleName cred.identity ∧
      (writeBundles dir creds).get name = some (KeyStore.save cred)) ∨
    (∀ cred ∈ creds, name ≠ bundleName cred.identity) ∧
      (writeBundles dir creds).get name = dir.get name := by
  induction creds generalizing dir with
  | nil => exact Or.inr ⟨fun _ h => absurd h List.not_mem_nil, rfl⟩
  | cons cred creds ih =>
    have hcons : writeBundles dir (cred :: creds) =
        writeBundles (dir.set (bundleName cred.identity) (KeyStore.save cred)) creds := rfl
    rw [hcons]
    rcases ih (dir.set (bundleName cred.identity) (KeyStore.save cred)) with
      ⟨c, hc, hname, hget⟩ | ⟨hnot, hget⟩
    · exact Or.inl ⟨c, List.mem_cons_of_mem _ hc, hname, hget⟩
    · rw [Dict.get_set] at hget
      split_ifs at hget with hname
      · exact Or.inl ⟨cred, List.mem_cons_self, hname, hget⟩
      · exact Or.inr ⟨List.forall_mem_cons.mpr ⟨hname, hnot⟩, hget⟩

/-- Bundles that are there are not changed by writing them again. -/
lemma writeBundles_of_get {dir : Dict String File} {creds : List (Credential Lam Bytes)}
    (h : ∀ cred ∈ creds, dir.get (bundleName cred.identity) = some (KeyStore.save cred)) :
    writeBundles dir creds = dir := by
  induction creds with
  | nil => rfl
  | cons cred creds ih =>
    obtain ⟨hcred, hcreds⟩ := List.forall_mem_cons.mp h
    rw [writeBundles, List.foldl_cons, Dict.set_of_get hcred]
    exact ih hcreds

/-- A saved master secret is read back. -/
lemma resolveMasterSecret_saved {masterSecret : Bytes} {dir : Dict String File}
    (h : dir.get defaultMasterSecretFilename =
      some ⟨KeyStore.privateFileMode, toHex masterSecret⟩) (token : Urandom) :
    resolveMasterSecret dir none token = (some masterSecret, dir) := by
  have hascii : ∀ b ∈ toHex masterSecret, b.toNat < 128 := fun b hb => by
    have := isPrintable_toHex masterSecret b hb
    omega
  rw [resolveMasterSecret, h]
  dsimp only
  rw [utf8Decode_ascii hascii, Option.bind_some, strip_toHex, fromHex_toHex]

/-- A later run finds the master secret that a run has used. -/
lemma resolveMasterSecret_again {masterSecret : Bytes} {dir dir' dir'' : Dict String File}
    {token : Urandom} (h : resolveMasterSecret dir none token = (some masterSecret, dir'))
    (hkept : dir''.get defaultMasterSecretFilename = dir'.get defaultMasterSecretFilename)
    (token' : Urandom) : resolveMasterSecret dir'' none token' = (some masterSecret, dir'') := by
  rw [resolveMasterSecret] at h
  split at h
  · rename_i file hfile
    obtain ⟨hread, rfl⟩ := Prod.mk.inj h
    rw [resolveMasterSecret, hkept, hfile]
    exact Prod.ext hread rfl
  · obtain ⟨hsecret, rfl⟩ := Prod.mk.inj h
    rw [Option.some.inj hsecret, Dict.get_set_self] at hkept
    exact resolveMasterSecret_saved hkept token'

/-- What is issued is derived from the master secret. -/
lemma derived_of_provision {masterSecret : Bytes} {manifest : List ManifestEntry}
    {creds : List (Credential Lam Bytes)} (hpoint : ∀ lam, scalarToPublicPoint lam ≠ [])
    (h : TrustedAuthority.provision (taPrimitives C scalarToPublicPoint) masterSecret manifest =
      .ok creds) : ∀ cred ∈ creds, Derived C masterSecret cred := by
  obtain ⟨-, hall⟩ := TrustedAuthority.mem_provision h
  intro cred hcred
  obtain ⟨hlam, hpeers⟩ := hall cred hcred
  refine ⟨fun hnil => ?_, hlam, fun p lam hp => ?_⟩
  · exact hpoint cred.lam (TrustedAuthority.publicPoint_of_provision h cred hcred [] hnil).symm
  · rw [hpeers] at hp
    split_ifs at hp with hlisted
    exact ⟨hlisted.2, (Option.some.inj hp).symm⟩

/-! ## Runs -/

namespace Issued

variable {masterSecret : Bytes} {dir : Dict String File}

/-- The bundles of a manifest are added. -/
lemma writeBundles (h : Issued C masterSecret dir) {creds : List (Credential Lam Bytes)}
    (hcreds : ∀ cred ∈ creds, Derived C masterSecret cred) :
    Issued C masterSecret (HybridEccAuth.writeBundles dir creds) := by
  constructor
  · rcases get_writeBundles_cases dir creds defaultMasterSecretFilename with
      ⟨cred, -, hname, -⟩ | ⟨-, hget⟩
    · exact absurd hname.symm (bundleName_ne _)
    · rw [hget]
      exact h.secret
  · intro name file hfile hname
    rcases get_writeBundles_cases dir creds name with ⟨cred, hcred, hbundle, hget⟩ | ⟨-, hget⟩
    · exact ⟨cred, hcreds cred hcred, hbundle, Option.some.inj (hfile.symm.trans hget)⟩
    · exact h.bundles name file (hget ▸ hfile) hname

/-- A run keeps the master secret, and what it writes is derived from it. -/
theorem step (h : Issued C masterSecret dir) (hpoint : ∀ lam, scalarToPublicPoint lam ≠ [])
    {args : EnrollArgs} (hhex : args.masterSecretHex = none) :
    Issued C masterSecret (cmdEnroll C scalarToPublicPoint dir args).2 := by
  rw [cmdEnroll, hhex, resolveMasterSecret_saved h.secret]
  dsimp only
  split
  · split_ifs <;> exact h
  · exact h.writeBundles (derived_of_provision hpoint ‹_›)

end Issued

/-- The first run saves a master secret. -/
lemma issued_first (hpoint : ∀ lam, scalarToPublicPoint lam ≠ []) {args : EnrollArgs}
    (hhex : args.masterSecretHex = none) :
    Issued C (args.token.draw 32) (cmdEnroll C scalarToPublicPoint Dict.empty args).2 := by
  have hsaved : Issued C (args.token.draw 32) (Dict.empty.set defaultMasterSecretFilename
      ⟨KeyStore.privateFileMode, toHex (args.token.draw 32)⟩) := by
    refine ⟨Dict.get_set_self _ _ _, fun name file hfile hname => ?_⟩
    rw [Dict.get_set, if_neg hname, Dict.get_empty] at hfile
    cases hfile
  rw [cmdEnroll, hhex, resolveMasterSecret, Dict.get_empty]
  dsimp only
  split
  · split_ifs <;> exact hsaved
  · exact hsaved.writeBundles (derived_of_provision hpoint ‹_›)

/-- The output directory after some runs. -/
def enrolled (C : Crypto) (scalarToPublicPoint : Lam → Bytes) (runs : List EnrollArgs) :
    Dict String File :=
  Machine.final (cmdEnroll C scalarToPublicPoint) Dict.empty runs

/-- All runs use the master secret of the first one. -/
theorem issued_enrolled (hpoint : ∀ lam, scalarToPublicPoint lam ≠ []) {first : EnrollArgs}
    {runs : List EnrollArgs} (hhex : ∀ args ∈ first :: runs, args.masterSecretHex = none) :
    Issued C (first.token.draw 32) (enrolled C scalarToPublicPoint (first :: runs)) := by
  obtain ⟨hfirst, hruns⟩ := List.forall_mem_cons.mp hhex
  have hrest : enrolled C scalarToPublicPoint (first :: runs) =
      Machine.final (cmdEnroll C scalarToPublicPoint)
        (cmdEnroll C scalarToPublicPoint Dict.empty first).2 runs := rfl
  rw [hrest]
  exact Machine.invariant_final (fun dir args h hargs => h.step hpoint hargs)
    (issued_first hpoint hfirst)
    (Machine.allSteps_of_inputs hruns)

/-- A bundle in the output directory after some of the runs is loaded as a credential of the
identity in its name, derived from the master secret of the first run. -/
theorem load_enrolled (hpoint : ∀ lam, scalarToPublicPoint lam ≠ []) {first : EnrollArgs}
    {runs : List EnrollArgs} (hhex : ∀ args ∈ first :: runs, args.masterSecretHex = none) {k : ℕ}
    {identity : String} {file : File}
    (hfile : (enrolled C scalarToPublicPoint ((first :: runs).take k)).get (bundleName identity) =
      some file) :
    ∃ cred, KeyStore.load file = (some cred, file) ∧ cred.identity = identity ∧
      Derived C (first.token.draw 32) cred := by
  cases k with
  | zero => cases hfile
  | succ k =>
    rw [List.take_succ_cons] at hfile
    have htake : ∀ args ∈ first :: runs.take k, args.masterSecretHex = none := fun args hargs =>
      hhex args (List.cons_subset_cons _ (List.take_subset _ _) hargs)
    have hissued := issued_enrolled (C := C) hpoint htake
    obtain ⟨cred, hderived, hname, rfl⟩ := hissued.bundles _ _ hfile (bundleName_ne _)
    exact ⟨cred, KeyStore.load_of_save hderived.point, (bundleName_injective hname).symm,
      hderived⟩

/-- Bundles that different runs over one output directory have written, at different times, make a
pair if each lists the other: all handshakes of a device with the one and a server with the other
succeed. -/
theorem bundles_agree (hpoint : ∀ lam, scalarToPublicPoint lam ≠ []) {first : EnrollArgs}
    {runs : List EnrollArgs} (hhex : ∀ args ∈ first :: runs, args.masterSecretHex = none) {k m : ℕ}
    {V R : String} {fileV fileR : File}
    (hV : (enrolled C scalarToPublicPoint ((first :: runs).take k)).get (bundleName V) = some fileV)
    (hR : (enrolled C scalarToPublicPoint ((first :: runs).take m)).get (bundleName R) =
      some fileR) :
    ∃ credV credR, (KeyStore.load fileV).1 = some credV ∧ (KeyStore.load fileR).1 = some credR ∧
      ∀ nonceBits ∈ supportedNonceBits, ∀ nonceBits' ∈ supportedNonceBits,
      ∀ (T : ℚ) (maxAttempts maxAttempts' F L : ℕ) (reading : ℚ) (D : Device C) (S : Server C),
        Device.create credV nonceBits T maxAttempts false = .ok D →
        Server.create credR nonceBits' (SessionLog.create maxAttempts' F L)
        (.linearScan {}) reading =
          .ok S → R ∈ credV.peerSecrets.keys → V ∈ credR.peerSecrets.keys →
        PseudonymsInjective C credR.peerSecrets → 1 ≤ F → ∀ xs : List HandshakeEnv,
        (∀ x ∈ xs, x.Fair V R T) → xs.length + F ≤ 2 ^ 64 →
        outcomes R (D, S) xs = List.replicate xs.length "ok" := by
  obtain ⟨credV, hloadV, rfl, hderivedV⟩ := load_enrolled hpoint hhex hV
  obtain ⟨credR, hloadR, rfl, hderivedR⟩ := load_enrolled hpoint hhex hR
  refine ⟨credV, credR, by rw [hloadV], by rw [hloadR], ?_⟩
  intro nonceBits hbits nonceBits' hbits' T maxAttempts maxAttempts' F L reading D S hD hS
    hlistsV hlistsR
    hinj hF xs hxs hsmall
  obtain ⟨hcredD, hDrole⟩ := Device.create_ok hD
  obtain ⟨-, hcredS, -, -, hSrole, -⟩ := Server.valid_create hS
  have hpaired := hderivedV.paired hderivedR hlistsV hlistsR hcredD hcredS hDrole (hcredS ▸ hSrole)
  have h := inStep_create hpaired hinj hbits hbits' (by omega) hD hS
  exact (h.outcomes_eq hF hxs (by omega)).1.trans (InStep.outcomes_start hF _)

/-- With a single peer, pseudonyms of the plain suite are injective. -/
lemma pseudonymsInjective_of_keys {peers : Dict String Lam} {q : String} (h : peers.keys = [q]) :
    PseudonymsInjective .plain peers := by
  apply pseudonymsInjective_plain
  intro p p' lam lam' hlam hlam' _
  have hp := Dict.mem_keys_iff.mpr ⟨lam, hlam⟩
  have hp' := Dict.mem_keys_iff.mpr ⟨lam', hlam'⟩
  rw [h, List.mem_singleton] at hp hp'
  exact hp.trans hp'.symm

/-- A run over a manifest of a device and a server. -/
def pairArgs : EnrollArgs := ⟨⟨LossyNetwork.onePair, by decide⟩, none, .zeros⟩

/-- What the bundles of such runs are loaded as. -/
lemma loads_pairArgs :
    (((enrolled .plain (fun _ => [4]) [pairArgs]).get (bundleName "device-1")).bind fun file =>
      (KeyStore.load file).1.map fun cred => (cred.role, cred.peerSecrets.keys)) =
        some (.device, ["server-A"]) ∧
    (((enrolled .plain (fun _ => [4]) [pairArgs, pairArgs]).get (bundleName "server-A")).bind
      fun file => (KeyStore.load file).1.map fun cred => (cred.role, cred.peerSecrets.keys)) =
        some (.server, ["device-1"]) := by
  constructor <;> decide +kernel

/-- The bundles of the device after the first run, and of the server after the second one. -/
theorem bundles_agree_pair : ∃ (credV credR : Credential Lam Bytes) (D : Device .plain)
    (S : Server .plain), Device.create credV 128 5 3 false = .ok D ∧
      Server.create credR 128 (SessionLog.create 3 8 16) (.linearScan {}) 0 = .ok S ∧
      outcomes "server-A" (D, S) [pairHandshake, pairHandshake] = ["ok", "ok"] := by
  have hpoint : ∀ lam : Lam, (fun _ => [4] : Lam → Bytes) lam ≠ [] := fun _ => List.cons_ne_nil _ _
  have hhex : ∀ args ∈ [pairArgs, pairArgs], args.masterSecretHex = none := by
    intro args hargs
    simp only [List.mem_cons, List.not_mem_nil, or_false, or_self] at hargs
    rw [hargs]
    rfl
  obtain ⟨hloadsV, hloadsR⟩ := loads_pairArgs
  obtain ⟨fileV, hV, hloadsV⟩ := Option.bind_eq_some_iff.mp hloadsV
  obtain ⟨fileR, hR, hloadsR⟩ := Option.bind_eq_some_iff.mp hloadsR
  obtain ⟨credV, hcredV, hloadsV⟩ := Option.map_eq_some_iff.mp hloadsV
  obtain ⟨credR, hcredR, hloadsR⟩ := Option.map_eq_some_iff.mp hloadsR
  obtain ⟨hroleV, hkeysV⟩ := Prod.mk.inj hloadsV
  obtain ⟨hroleR, hkeysR⟩ := Prod.mk.inj hloadsR
  obtain ⟨credV', credR', hcredV', hcredR', hagree⟩ :=
    bundles_agree hpoint hhex (k := 1) (m := 2) hV hR
  obtain rfl := Option.some.inj (hcredV.symm.trans hcredV')
  obtain rfl := Option.some.inj (hcredR.symm.trans hcredR')
  have hinj := pseudonymsInjective_of_keys hkeysR
  have hfit : (Resolver.linearScan {}).EpochsFit credR.peerSecrets (SessionLog.create 3 8 16) := by
    intro p _
    rw [show (SessionLog.create 3 8 16).last p = -1 from SessionLog.last_fresh _ _ _ _]
    decide
  obtain ⟨S, hS⟩ :=
    Server.exists_create (C := .plain) (r := .linearScan {}) 128 0 trivial hroleR hinj hfit
  have hD : Device.create (C := .plain) credV 128 5 3 false = .ok _ := if_neg (not_not.mpr hroleV)
  refine ⟨credV, credR, _, S, hD, hS, ?_⟩
  refine hagree 128 (by decide) 128 (by decide) 5 3 3 8 16 0 _ S hD hS (by rw [hkeysV]; simp)
    (by rw [hkeysR]; simp) hinj (by decide) _ ?_ (by decide)
  intro x hx
  simp only [List.mem_cons, List.not_mem_nil, or_false, or_self] at hx
  rw [hx]
  exact pairHandshake_fair

/-- A run that succeeds changes nothing when it is repeated, whatever the system random generator
returns. -/
theorem enroll_idempotent {dir dir' : Dict String File} {args : EnrollArgs}
    (hhex : args.masterSecretHex = none)
    (h : cmdEnroll C scalarToPublicPoint dir args = (some 0, dir')) (token : Urandom) :
    cmdEnroll C scalarToPublicPoint dir' { args with token := token } = (some 0, dir') := by
  rw [cmdEnroll, hhex] at h
  split at h
  · cases h
  · rename_i masterSecret dir₁ hresolve
    split at h
    · split_ifs at h <;> cases h
    · rename_i creds hprov
      obtain ⟨-, rfl⟩ := Prod.mk.inj h
      obtain ⟨hnodup, -⟩ := TrustedAuthority.mem_provision hprov
      have hkept : (writeBundles dir₁ creds).get defaultMasterSecretFilename =
          dir₁.get defaultMasterSecretFilename := by
        rcases get_writeBundles_cases dir₁ creds defaultMasterSecretFilename with
          ⟨cred, -, hname, -⟩ | ⟨-, hget⟩
        · exact absurd hname.symm (bundleName_ne _)
        · exact hget
      have hwritten : ∀ cred ∈ creds, (writeBundles dir₁ creds).get (bundleName cred.identity) =
          some (KeyStore.save cred) := by
        intro cred hcred
        rcases get_writeBundles_cases dir₁ creds (bundleName cred.identity) with
          ⟨c, hc, hname, hget⟩ | ⟨hnot, -⟩
        · rw [hget, List.inj_on_of_nodup_map hnodup hc hcred (bundleName_injective hname).symm]
        · exact absurd rfl (hnot cred hcred)
      rw [cmdEnroll]
      dsimp only
      rw [hhex, resolveMasterSecret_again hresolve hkept token]
      dsimp only
      rw [hprov]
      dsimp only
      rw [writeBundles_of_get hwritten]

/-- The sample run is repeated, with other random bytes. -/
theorem enroll_idempotent_pair : ∃ dir, cmdEnroll .plain (fun _ => [4]) Dict.empty pairArgs =
    (some 0, dir) ∧ dir.get (bundleName "device-1") ≠ none ∧
      cmdEnroll .plain (fun _ => [4]) dir { pairArgs with token := .sevens } = (some 0, dir) := by
  have hcode : (cmdEnroll .plain (fun _ => [4]) Dict.empty pairArgs).1 = some 0 := by decide +kernel
  have hrun : cmdEnroll .plain (fun _ => [4]) Dict.empty pairArgs =
      (some 0, (cmdEnroll .plain (fun _ => [4]) Dict.empty pairArgs).2) := Prod.ext hcode rfl
  have hwritten : ((cmdEnroll .plain (fun _ => [4]) Dict.empty pairArgs).2.get
      (bundleName "device-1")).isSome = true := by decide +kernel
  exact ⟨_, hrun, Option.isSome_iff_ne_none.mp hwritten, enroll_idempotent rfl hrun .sevens⟩

end HybridEccAuth

import HybridEccAuth.Storage.KeyStore

/-!
# The provisioning command

`hea-ta enroll` works on an output directory, given by its files.  It reuses the master secret that
an earlier run saved there, or saves a new one, and writes one bundle for each entry of the
manifest.  What it prints is not modelled.
-/

namespace HybridEccAuth

/-- A parsed manifest, whose identities are names of files in the output directory itself. -/
structure Manifest where
  entries : List ManifestEntry
  plain : ∀ entry ∈ entries, ∀ identity ∈ entry.identity,
    '/' ∉ identity.toList ∧ Char.ofNat 0 ∉ identity.toList

/-- The arguments of `hea-ta enroll`, and what `secrets.token_bytes` returns. -/
structure EnrollArgs where
  manifest : Manifest
  masterSecretHex : Option Str
  token : Urandom

/-- `DEFAULT_MASTER_SECRET_FILENAME`. -/
def defaultMasterSecretFilename : String := "ta_master_secret.hex"

/-- The name of the bundle of an identity. -/
def bundleName (identity : String) : String := identity ++ ".json"

/-- `_resolve_master_secret`; a text that is not hexadecimal ends the process. -/
def resolveMasterSecret (dir : Dict String File) (masterSecretHex : Option Str) (token : Urandom) :
    Option Bytes × Dict String File :=
  match masterSecretHex with
  | some (c :: text) => (fromHex (c :: text), dir)
  | some [] | none =>
    match dir.get defaultMasterSecretFilename with
    | some file => ((utf8Decode file.content).bind fun text => fromHex (strip text), dir)
    | none =>
      let secret := token.draw 32
      (some secret,
        dir.set defaultMasterSecretFilename ⟨KeyStore.privateFileMode, toHex secret⟩)

/-- Writes the bundles. -/
def writeBundles (dir : Dict String File) (creds : List (Credential Lam Bytes)) :
    Dict String File :=
  creds.foldl (fun dir cred => dir.set (bundleName cred.identity) (KeyStore.save cred)) dir

/-- `cmd_enroll`: the exit code, or none when an exception ends the process. -/
def cmdEnroll (C : Crypto) (scalarToPublicPoint : Lam → Bytes) (dir : Dict String File)
    (args : EnrollArgs) : Option ℕ × Dict String File :=
  match resolveMasterSecret dir args.masterSecretHex args.token with
  | (none, dir) => (none, dir)
  | (some masterSecret, dir) =>
    match TrustedAuthority.provision (taPrimitives C scalarToPublicPoint) masterSecret
      args.manifest.entries with
    | .error e =>
      if e.kind = .valueError ∨ e.kind = .keyError then (some 2, dir) else (none, dir)
    | .ok creds => (some 0, writeBundles dir creds)

end HybridEccAuth

import HybridEccAuth.Data.Hex
import HybridEccAuth.Data.JsonTree
import HybridEccAuth.Protocol.Ta

/-!
# Credential files

A credential bundle is kept in one file, as a JSON object.  `KeyStore.save` writes it and
`KeyStore.load` reads it; what was saved is loaded, member by member and with the peers in their
order (`load_save`).  A file that did not exist is private from the first system call on.

The reader is that of files in UTF-8 whose members have the types that the class declares.
-/

namespace HybridEccAuth

/-- A file: the permission bits and the content. -/
structure File where
  mode : BitVec 12
  content : Bytes
  deriving DecidableEq

/-- The group and the others have no permission. -/
def File.Private (f : File) : Prop := f.mode &&& 0o077#12 = 0#12

instance (f : File) : Decidable f.Private := by unfold File.Private; infer_instance

namespace Credential

/-- `to_dict`. -/
def toDict (cred : Credential Lam Bytes) : JsonTree :=
  .obj [(Str.ofString "identity", .str (Str.ofString cred.identity)),
    (Str.ofString "role", .str (Str.ofString cred.role.text)),
    (Str.ofString "lam", .int cred.lam.val),
    (Str.ofString "public_point",
      match cred.publicPoint with
      | some point => .str (Str.ofBytes (toHex point))
      | none => .null),
    (Str.ofString "peer_secrets",
      .obj (cred.peerSecrets.entries.map fun p => (Str.ofString p.1, .int p.2.val)))]

/-- A secret from its number. -/
def lamOfJson : Json → Option Lam
  | .int n => if h : n.toNat < 2 ^ 256 ∧ 0 ≤ n then some ⟨n.toNat, h.1⟩ else none
  | _ => none

/-- A text without surrogates. -/
def stringOfJson (value : Json) : Option String := value.text?.bind Str.toString?

/-- The member `public_point`: a point that is missing or empty is none. -/
def publicPointOfJson : Option Json → Option (Option Bytes)
  | none | some .null | some (.str []) => some none
  | some (.str text) => (fromHex text).map some
  | some _ => none

/-- The member `peer_secrets`, which may be missing. -/
def peerSecretsOfJson : Option Json → Option (Dict String Lam)
  | none => some Dict.empty
  | some (.obj secrets) =>
    secrets.foldlM (fun peerSecrets m => do
      let identity ← m.1.toString?
      let lam ← lamOfJson m.2
      return peerSecrets.set identity lam) Dict.empty
  | some _ => none

/-- `from_dict`. -/
def fromDict (members : List (Str × Json)) : Option (Credential Lam Bytes) := do
  let identity ← (Json.get members (Str.ofString "identity")).bind stringOfJson
  let role ← ((Json.get members (Str.ofString "role")).bind stringOfJson).bind Role.ofText?
  let lam ← (Json.get members (Str.ofString "lam")).bind lamOfJson
  let publicPoint ← publicPointOfJson (Json.get members (Str.ofString "public_point"))
  let peerSecrets ← peerSecretsOfJson (Json.get members (Str.ofString "peer_secrets"))
  return ⟨identity, role, lam, publicPoint, peerSecrets⟩

end Credential

namespace KeyStore

/-- `_PRIVATE_FILE_MODE`. -/
def privateFileMode : BitVec 12 := 0o600#12

/-- What `save` writes. -/
def payload (cred : Credential Lam Bytes) : Bytes := cred.toDict.dumps .spaced

/-- The file after each of the system calls of `save`: it is opened and emptied, written, and its
mode is set.  A file that is created gets no permission of the mask. -/
def saveCalls (umask : BitVec 12) (old : Option File) (cred : Credential Lam Bytes) : List File :=
  let mode :=
    match old with
    | some file => file.mode
    | none => privateFileMode &&& ~~~umask
  [⟨mode, []⟩, ⟨mode, payload cred⟩, ⟨privateFileMode, payload cred⟩]

/-- `save`: the file that it leaves. -/
def save (cred : Credential Lam Bytes) : File := ⟨privateFileMode, payload cred⟩

/-- `json.loads` of the bytes of a file in UTF-8. -/
def parse (content : Bytes) : Option (Credential Lam Bytes) :=
  match (utf8Decode content).bind jsonLoads with
  | some (.obj members) => Credential.fromDict members
  | _ => none

/-- `load`: the credential, and the file with its permissions tightened. -/
def load (file : File) : Option (Credential Lam Bytes) × File :=
  let file := if file.Private then file else { file with mode := privateFileMode }
  (parse file.content, file)

end KeyStore

/-! ## Round trips -/

/-- The digits of a secret are few. -/
lemma length_decimal_lam (lam : Lam) : (decimal lam.val).length ≤ maxIntDigits := by
  have hlt : lam.val < 10 ^ 78 := lt_trans lam.isLt (by norm_num)
  rw [decimal, List.length_map]
  exact le_trans ((Nat.length_toDigits_le_iff (by decide) (by decide)).mpr hlt) (by decide)

namespace Credential

variable {cred : Credential Lam Bytes}

/-- A text is read back as the string. -/
lemma stringOfJson_ofString (s : String) :
    stringOfJson (.str (Str.ofString s)) = some s :=
  Str.toString?_ofString s

/-- A secret is read back. -/
lemma lamOfJson_val (lam : Lam) : lamOfJson (.int lam.val) = some lam := by
  have hnat : (lam.val : ℤ).toNat = lam.val := Int.toNat_natCast _
  have hrange : (lam.val : ℤ).toNat < 2 ^ 256 ∧ (0 : ℤ) ≤ lam.val := by
    rw [hnat]
    exact ⟨lam.isLt, Int.natCast_nonneg _⟩
  rw [lamOfJson, dif_pos hrange]
  rfl

/-- A point is read back, unless it is empty. -/
lemma publicPointOfJson_toHex {point : Bytes} (hne : point ≠ []) :
    publicPointOfJson (some (.str (Str.ofBytes (toHex point)))) = some (some point) := by
  obtain ⟨b, bs, rfl⟩ := List.exists_cons_of_ne_nil hne
  have hread := fromHex_toHex (b :: bs)
  obtain ⟨c, text, hcons⟩ : ∃ c text, Str.ofBytes (toHex (b :: bs)) = c :: text := ⟨_, _, rfl⟩
  rw [hcons] at hread ⊢
  rw [publicPointOfJson, hread]
  · rfl
  · intro h
    exact absurd h (by simp)

/-- The peers are read back, in their order. -/
lemma peerSecretsOfJson_entries (secrets : Dict String Lam) :
    peerSecretsOfJson
    (some (.obj (secrets.entries.map fun p => (Str.ofString p.1, .int p.2.val)))) =
      some secrets := by
  have hfold : ∀ (l : List (String × Lam)) (d : Dict String Lam),
      ((d.entries ++ l).map Prod.fst).Nodup → ∃ d' : Dict String Lam, d'.entries = d.entries ++ l ∧
        (l.map fun p => (Str.ofString p.1, Json.int p.2.val)).foldlM (fun peerSecrets m => do
          let identity ← m.1.toString?
          let lam ← lamOfJson m.2
          return peerSecrets.set identity lam) d = some d' := by
    intro l
    induction l with
    | nil => exact fun d _ => ⟨d, (List.append_nil _).symm, rfl⟩
    | cons p l ih =>
      intro d hd
      have hnew : p.1 ∉ d.entries.map Prod.fst := by
        rw [List.map_append, List.map_cons] at hd
        intro hmem
        exact List.disjoint_of_nodup_append hd hmem List.mem_cons_self
      have hentries := Dict.entries_set_of_new p.2 hnew
      obtain ⟨d', hd', hrest⟩ := ih (d.set p.1 p.2) (by rwa [hentries, List.append_assoc])
      refine ⟨d', by rw [hd', hentries, List.append_assoc]; rfl, ?_⟩
      rw [List.map_cons, List.foldlM_cons, Str.toString?_ofString, lamOfJson_val]
      exact hrest
  obtain ⟨d', hentries, hd'⟩ := hfold secrets.entries Dict.empty secrets.nodup
  rw [peerSecretsOfJson, hd']
  congr 1
  cases d'
  cases secrets
  congr 1

/-- A credential can be written so that it is read back. -/
lemma readable_toDict (cred : Credential Lam Bytes) : cred.toDict.Readable := by
  have hname : ∀ s : String, NoSurrogate (Str.ofString s) := noSurrogate_ofString
  rw [toDict, JsonTree.Readable, JsonTree.readableMembers_iff]
  simp only [List.forall_mem_cons]
  refine ⟨⟨hname _, hname _⟩, ⟨hname _, hname _⟩, ⟨hname _, length_decimal_lam cred.lam⟩,
    ⟨hname _, ?_⟩, ⟨hname _, ?_⟩, by simp⟩
  · cases cred.publicPoint with
    | none => trivial
    | some point => exact noSurrogate_ofBytes _
  · rw [JsonTree.Readable, JsonTree.readableMembers_iff]
    intro m hm
    obtain ⟨p, -, rfl⟩ := List.mem_map.mp hm
    exact ⟨hname _, length_decimal_lam p.2⟩

/-- A credential is read back from its object, unless its point is empty. -/
theorem fromDict_toDict (hpoint : cred.publicPoint ≠ some []) :
    ∃ members, cred.toDict.toJson = .obj members ∧ fromDict members = some cred := by
  refine ⟨_, by rw [toDict, JsonTree.toJson, JsonTree.membersToJson_eq], ?_⟩
  have hread : publicPointOfJson (some (match cred.publicPoint with
      | some point => JsonTree.str (Str.ofBytes (toHex point))
      | none => .null).toJson) = some cred.publicPoint := by
    rcases hpublic : cred.publicPoint with _ | point
    · rfl
    · exact publicPointOfJson_toHex fun hnil => hpoint (hnil ▸ hpublic)
  have hsecrets : peerSecretsOfJson (some (JsonTree.obj (cred.peerSecrets.entries.map fun p =>
      (Str.ofString p.1, .int p.2.val))).toJson) = some cred.peerSecrets := by
    rw [JsonTree.toJson, JsonTree.membersToJson_eq, List.map_map]
    refine (congrArg (fun l => peerSecretsOfJson (some (.obj l))) ?_).trans
      (peerSecretsOfJson_entries cred.peerSecrets)
    exact List.map_congr_left fun p _ => by rw [Function.comp, JsonTree.toJson]
  rw [JsonTree.toJson] at hsecrets
  rw [fromDict]
  simp [Json.get, Str.ofString_injective.eq_iff, JsonTree.toJson, stringOfJson_ofString,
    Role.ofText?_text, lamOfJson_val, hread, hsecrets]

end Credential

namespace KeyStore

variable {cred : Credential Lam Bytes}

/-- The mode of a saved file is private. -/
lemma private_privateFileMode (content : Bytes) : (File.mk privateFileMode content).Private :=
  show privateFileMode &&& 0o077#12 = 0#12 by decide

/-- A payload is parsed to the credential. -/
lemma parse_payload (hpoint : cred.publicPoint ≠ some []) : parse (payload cred) = some cred := by
  have hascii : ∀ b ∈ payload cred, b.toNat < 128 := fun b hb => by
    have := JsonTree.isPrintable_dumps Separators.isPrintable_spaced cred.toDict b hb
    omega
  obtain ⟨members, hmembers, hread⟩ := Credential.fromDict_toDict hpoint
  have hloads : jsonLoads (Str.ofBytes (payload cred)) = some (.obj members) :=
    (JsonTree.jsonLoads_dumps Separators.isWs_spaced cred.readable_toDict).trans (by rw [hmembers])
  rw [parse, utf8Decode_ascii hascii, Option.bind_some, hloads]
  exact hread

/-- What is saved is loaded, and loading does not change the file. -/
lemma load_of_save (hpoint : cred.publicPoint ≠ some []) :
    load (save cred) = (some cred, save cred) := by
  have hprivate : (save cred).Private := private_privateFileMode _
  have hparse : parse (save cred).content = some cred := by
    rw [save]
    exact parse_payload hpoint
  rw [load, if_pos hprivate, hparse]

/-- What is saved is loaded, whatever the file held before, and loading does not change the file;
the file is private afterwards, and at every moment of the saving if it is new. -/
theorem load_save (hpoint : cred.publicPoint ≠ some []) (umask : BitVec 12) (old : Option File) :
    load (save cred) = (some cred, save cred) ∧ (save cred).Private ∧
      (saveCalls umask old cred).getLast? = some (save cred) ∧
      (old = none → ∀ file ∈ saveCalls umask old cred, file.Private) := by
  refine ⟨load_of_save hpoint, private_privateFileMode _, rfl, ?_⟩
  rintro rfl
  have hmask : ∀ content, (File.mk (privateFileMode &&& ~~~umask) content).Private := by
    intro content
    have hmode : 0o077#12 &&& privateFileMode = 0#12 := by decide
    rw [File.Private, BitVec.and_comm, ← BitVec.and_assoc, hmode, BitVec.zero_and]
  simp only [saveCalls, List.forall_mem_cons]
  exact ⟨hmask _, hmask _, private_privateFileMode _, by simp⟩

/-- The bundle of the sample device. -/
theorem load_save_deviceOne :
    load (save deviceOne) = (some deviceOne, save deviceOne) ∧ (save deviceOne).Private :=
  have h := load_save (show deviceOne.publicPoint ≠ some [] by decide) 0o022#12 none
  ⟨h.1, h.2.1⟩

end KeyStore

end HybridEccAuth

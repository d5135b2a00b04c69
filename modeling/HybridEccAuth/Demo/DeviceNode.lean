import HybridEccAuth.Demo.Transport

/-!
# The device process

What `cmd_authenticate` reads from the envelope it gets back.  The envelope carries the
second message as a JSON string, so the text of a message that is itself JSON is escaped
a second time; reading undoes both (`readResponse_buildOkEnvelope`), and every byte on the
way is printable ASCII, so that none of the ASCII codecs can fail
(`message2_survives_envelope`).
-/

namespace HybridEccAuth

/-- `bool(value)`; a decimal literal up to half of the least positive double is rounded to zero. -/
def Json.truth : Json → Bool
  | .null => false
  | .bool b => b
  | .int n => n ≠ 0
  | .float (.decimal m e) => decide (1 / 2 ^ 1075 < |(m : ℚ)| * 10 ^ e)
  | .float _ => true
  | .str s => s ≠ []
  | .arr items => !items.isEmpty
  | .obj members => !members.isEmpty

/-- What an envelope says: the class and the text of a rejection, or the bytes of the second
message. -/
inductive ServerResponse
  | rejected (errorType message : Json)
  | accepted (msg2Bytes : Bytes)

/-- What `cmd_authenticate` takes from the members of the envelope; a member that is missing, or a
payload that is no ASCII text, ends the process. -/
def readMembers (envelope : List (Str × Json)) : Option ServerResponse := do
  let ok ← Json.get envelope (Str.ofString "ok")
  if ok.truth then
    let payload ← Json.get envelope (Str.ofString "payload")
    let text ← payload.text?
    let msg2Bytes ← Str.encodeAscii text
    return .accepted msg2Bytes
  else
    let errorType ← Json.get envelope (Str.ofString "error_type")
    let message ← Json.get envelope (Str.ofString "message")
    return .rejected errorType message

/-- What `cmd_authenticate` takes from the response. -/
def readResponse (responseBytes : Bytes) : Option ServerResponse :=
  match parseEnvelope responseBytes with
  | some (.obj envelope) => readMembers envelope
  | _ => none

/-! ## Round trips -/

/-- The members of an accepted request. -/
lemma readMembers_accepted {envelope : List (Str × Json)} {payload : Bytes}
    (hok : Json.get envelope (Str.ofString "ok") = some (.bool true))
    (hpayload : Json.get envelope (Str.ofString "payload") = some (.str (Str.ofBytes payload)))
    (h : ∀ b ∈ payload, b.toNat < 128) :
    readMembers envelope = some (.accepted payload) := by
  have htruth : (Json.bool true).truth = true := rfl
  rw [readMembers, hok, Option.bind_eq_bind, Option.bind_some, if_pos htruth, hpayload,
    Option.bind_eq_bind, Option.bind_some, Json.text?, Option.bind_eq_bind, Option.bind_some,
    Str.encodeAscii_ofBytes h]
  rfl

/-- The members of a rejected request. -/
lemma readMembers_rejected {envelope : List (Str × Json)} {errorType message : Json}
    (hok : Json.get envelope (Str.ofString "ok") = some (.bool false))
    (htype : Json.get envelope (Str.ofString "error_type") = some errorType)
    (hmessage : Json.get envelope (Str.ofString "message") = some message) :
    readMembers envelope = some (.rejected errorType message) := by
  have htruth : ¬ (Json.bool false).truth = true := Bool.false_ne_true
  rw [readMembers, hok, Option.bind_eq_bind, Option.bind_some, if_neg htruth, htype,
    Option.bind_some, hmessage]
  rfl

/-- An envelope is read back as its members. -/
lemma parseEnvelope_jsonDumps {ms : List (Str × Scalar)} (hne : ms ≠ [])
    (hms : ∀ m ∈ ms, ReadableMember m) :
    parseEnvelope (jsonDumps .spaced ms) = some (.obj (ms.map fun m => (m.1, m.2.toJson))) := by
  have hascii : ∀ b ∈ jsonDumps .spaced ms, b.toNat < 128 := fun b hb => by
    have := isPrintable_jsonDumps Separators.isPrintable_spaced ms b hb
    omega
  rw [parseEnvelope, Str.decodeAscii, if_pos hascii, Option.bind_some]
  exact jsonLoads_jsonDumps Separators.isWs_spaced hne hms

/-- The device finds in an envelope the payload that was put into it. -/
theorem readResponse_buildOkEnvelope {payload : Bytes} (h : ∀ b ∈ payload, b.toNat < 128) :
    ∃ envelope, buildOkEnvelope payload = .ok envelope ∧ IsPrintable envelope ∧
      readResponse envelope = some (.accepted payload) := by
  have hmembers : ∀ m ∈ okMembers (Str.ofBytes payload), ReadableMember m := by
    simp only [okMembers, List.forall_mem_cons]
    exact ⟨⟨noSurrogate_ofString _, trivial⟩, ⟨noSurrogate_ofString _, noSurrogate_ofBytes _⟩,
      by simp⟩
  have hparse := parseEnvelope_jsonDumps (by simp [okMembers]) hmembers
  refine ⟨jsonDumps .spaced (okMembers (Str.ofBytes payload)), ?_,
    isPrintable_jsonDumps Separators.isPrintable_spaced _, ?_⟩
  · rw [buildOkEnvelope, Str.decodeAscii, if_pos h]
  · have hok : Json.get ((okMembers (Str.ofBytes payload)).map fun m => (m.1, m.2.toJson))
        (Str.ofString "ok") = some (.bool true) := by
      simp [Json.get, okMembers, Str.ofString_injective.eq_iff, Scalar.toJson]
    have hpayload : Json.get ((okMembers (Str.ofBytes payload)).map fun m => (m.1, m.2.toJson))
        (Str.ofString "payload") = some (.str (Str.ofBytes payload)) := by
      simp [Json.get, okMembers, Scalar.toJson]
    rw [readResponse, hparse]
    exact readMembers_accepted hok hpayload h

/-- The device finds in an error envelope the class and the text that were put into it. -/
theorem readResponse_buildErrorEnvelope {errorType message : Str} (htype : NoSurrogate errorType)
    (hmessage : NoSurrogate message) :
    readResponse (buildErrorEnvelope errorType message) =
      some (.rejected (.str errorType) (.str message)) := by
  have hmembers : ∀ m ∈ errorMembers errorType message, ReadableMember m := by
    simp only [errorMembers, List.forall_mem_cons]
    exact ⟨⟨noSurrogate_ofString _, trivial⟩, ⟨noSurrogate_ofString _, htype⟩,
      ⟨noSurrogate_ofString _, hmessage⟩, by simp⟩
  have hparse := parseEnvelope_jsonDumps (by simp [errorMembers]) hmembers
  have hok : Json.get ((errorMembers errorType message).map fun m => (m.1, m.2.toJson))
      (Str.ofString "ok") = some (.bool false) := by
    simp [Json.get, errorMembers, Str.ofString_injective.eq_iff, Scalar.toJson]
  have herror : Json.get ((errorMembers errorType message).map fun m => (m.1, m.2.toJson))
      (Str.ofString "error_type") = some (.str errorType) := by
    simp [Json.get, errorMembers, Str.ofString_injective.eq_iff, Scalar.toJson]
  have htext : Json.get ((errorMembers errorType message).map fun m => (m.1, m.2.toJson))
      (Str.ofString "message") = some (.str message) := by
    simp [Json.get, errorMembers, Scalar.toJson]
  rw [readResponse, buildErrorEnvelope, hparse]
  exact readMembers_rejected hok herror htext

/-- A second message is printable. -/
lemma Message2.isPrintable_toBytes (m : Message2 String) : IsPrintable m.toBytes :=
  isPrintable_jsonDumps Separators.isPrintable_compact _

/-- A second message that is sent in an envelope is what the device reads from the envelope, and all
bytes on the way are printable ASCII. -/
theorem message2_survives_envelope (m : Message2 String) :
    IsPrintable m.toBytes ∧ ∃ envelope, buildOkEnvelope m.toBytes = .ok envelope ∧
      IsPrintable envelope ∧ ∃ msg2Bytes, readResponse envelope = some (.accepted msg2Bytes) ∧
        Message2.fromBytes msg2Bytes =
          .ok ⟨.str (Str.ofString m.serverId), m.gcmNonce, m.ciphertext, m.tag⟩ := by
  have hprintable := m.isPrintable_toBytes
  obtain ⟨envelope, hbuild, henvelope, hread⟩ :=
    readResponse_buildOkEnvelope fun b hb => by
      have := hprintable b hb
      omega
  exact ⟨hprintable, envelope, hbuild, henvelope, m.toBytes, hread, m.fromBytes_toBytes⟩

end HybridEccAuth

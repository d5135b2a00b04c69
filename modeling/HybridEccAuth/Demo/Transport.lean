import HybridEccAuth.Protocol.Messages

/-!
# Frames and envelopes

What the demo puts around a message: a length prefix, and an envelope that carries
either the payload or the class and the text of an exception.  The lengths of
messages and envelopes are bounded by the lengths of what they carry.
-/

namespace HybridEccAuth

/-- `MAX_FRAME_BYTES`. -/
def maxFrameBytes : ℕ := 2 ^ 20

/-- The bytes that `send_frame` sends. -/
def sendFrame (payload : Bytes) : Except Exc Bytes :=
  if maxFrameBytes < payload.length then
    .error ⟨.valueError, [.lit "frame of ", .int payload.length,
      .lit " bytes exceeds MAX_FRAME_BYTES=", .int maxFrameBytes]⟩
  else .ok (toBytesBE 4 payload.length ++ payload)

/-- The members of the envelope of a payload. -/
def okMembers (payload : Str) : List (Str × Scalar) :=
  [(Str.ofString "ok", .bool true), (Str.ofString "payload", .str payload)]

/-- `build_ok_envelope`. -/
def buildOkEnvelope (payloadBytes : Bytes) : Except Exc Bytes :=
  match Str.decodeAscii payloadBytes with
  | none => .error (.ofLibrary .unicodeDecodeError)
  | some payload => .ok (jsonDumps .spaced (okMembers payload))

/-- The members of the envelope of an exception. -/
def errorMembers (errorType message : Str) : List (Str × Scalar) :=
  [(Str.ofString "ok", .bool false), (Str.ofString "error_type", .str errorType),
    (Str.ofString "message", .str message)]

/-- `build_error_envelope`. -/
def buildErrorEnvelope (errorType message : Str) : Bytes :=
  jsonDumps .spaced (errorMembers errorType message)

/-- `parse_envelope`; the result of a text that is no object is of no use to the caller. -/
def parseEnvelope (data : Bytes) : Option Json := (Str.decodeAscii data).bind jsonLoads

/-! ## Lengths -/

/-- A frame is sent exactly when its payload is not too long. -/
lemma exists_sendFrame_iff {payload : Bytes} :
    (∃ frame, sendFrame payload = .ok frame) ↔ payload.length ≤ maxFrameBytes := by
  unfold sendFrame
  split_ifs with h
  · simpa using h
  · simpa using h

/-- A text has as many code points as characters. -/
@[simp] lemma Str.length_ofString (s : String) : (Str.ofString s).length = s.length := by
  rw [Str.ofString, List.length_map, String.length_toList]

/-- The escape of a code point has at most twelve bytes. -/
lemma length_jsonEscapeChar_le (c : CodePoint) : (jsonEscapeChar c).length ≤ 12 := by
  unfold jsonEscapeChar
  split_ifs
  · simp
  · simp
  · simp
  · simp
  · simp
  · simp
  · simp
  · unfold utf16Units
    split_ifs <;> simp [escapeUnit]

/-- Escaping makes a text at most twelve times as long. -/
lemma length_jsonEscape_le (s : Str) : (jsonEscape s).length ≤ 12 * s.length := by
  induction s with
  | nil => rfl
  | cons c s ih =>
    have hc := length_jsonEscapeChar_le c
    rw [jsonEscape, List.flatMap_cons, List.length_append, List.length_cons]
    rw [jsonEscape] at ih
    omega

/-- Escaping makes printable text at most twice as long. -/
lemma length_jsonEscape_ofBytes_le {bs : Bytes} (h : IsPrintable bs) :
    (jsonEscape (Str.ofBytes bs)).length ≤ 2 * bs.length := by
  induction bs with
  | nil => rfl
  | cons b bs ih =>
    obtain ⟨hb, hbs⟩ := isPrintable_cons.mp h
    have hchar : (jsonEscapeChar (CodePoint.ofByte b)).length ≤ 2 := by
      unfold jsonEscapeChar
      rw [CodePoint.val_ofByte]
      split_ifs
      · simp
      · simp
      · simp
      · simp
      · simp
      · simp
      · simp
    have hih := ih hbs
    rw [jsonEscape, Str.ofBytes, List.map_cons, List.flatMap_cons, List.length_append,
      List.length_cons]
    rw [jsonEscape, Str.ofBytes] at hih
    omega

/-- The base64 text of bytes, as a JSON string, is at most about three times as long. -/
lemma length_jsonString_b64_le (data : Bytes) :
    (jsonString (b64 data)).length ≤ 8 + 3 * data.length := by
  have hprintable : IsPrintable (b64encode data) := fun b hb => by
    have := b64encode_printable data b hb
    omega
  have hescape : (jsonEscape (b64 data)).length ≤ 2 * (b64encode data).length :=
    length_jsonEscape_ofBytes_le hprintable
  rw [length_b64encode] at hescape
  simp only [jsonString, List.length_append, List.length_cons, List.length_nil]
  omega

/-- The length of a second message. -/
lemma Message2.length_toBytes_le (m : Message2 String) :
    m.toBytes.length ≤ 120 + 12 * m.serverId.length +
      3 * (m.gcmNonce.length + m.ciphertext.length + m.tag.length) := by
  have hv : (jsonString (Str.ofString "v")).length = 3 := by decide
  have htype : (jsonString (Str.ofString "type")).length = 6 := by decide
  have hkind : (jsonString (Str.ofString "M2")).length = 4 := by decide
  have hsid : (jsonString (Str.ofString "sid")).length = 5 := by decide
  have hnonce : (jsonString (Str.ofString "nonce")).length = 7 := by decide
  have hct : (jsonString (Str.ofString "ct")).length = 4 := by decide
  have htag : (jsonString (Str.ofString "tag")).length = 5 := by decide
  have hid := length_jsonEscape_le (Str.ofString m.serverId)
  have hnonce' := length_jsonString_b64_le m.gcmNonce
  have hct' := length_jsonString_b64_le m.ciphertext
  have htag' := length_jsonString_b64_le m.tag
  have hid' : (jsonString (Str.ofString m.serverId)).length =
      2 + (jsonEscape (Str.ofString m.serverId)).length := by
    simp only [jsonString, List.length_append, List.length_cons, List.length_nil]
    omega
  rw [Str.length_ofString] at hid
  simp only [Message2.toBytes, payloadMembers, jsonDumps, dumpsMembers, dumpsMember,
    Scalar.dumps, Separators.compact, List.length_append, List.length_cons, List.length_nil, hv,
    htype, hkind, hsid, hnonce, hct, htag]
  omega

/-- An envelope of an exception is little longer than its escaped text. -/
lemma length_buildErrorEnvelope (errorType message : Str) :
    (buildErrorEnvelope errorType message).length =
      46 + (jsonEscape errorType).length + (jsonEscape message).length := by
  have hok : (jsonString (Str.ofString "ok")).length = 4 := by decide
  have htype : (jsonString (Str.ofString "error_type")).length = 12 := by decide
  have hmessage : (jsonString (Str.ofString "message")).length = 9 := by decide
  simp only [buildErrorEnvelope, errorMembers, jsonDumps, dumpsMembers, dumpsMember,
    Scalar.dumps, Separators.spaced, List.length_append, List.length_cons, List.length_nil, hok,
    htype, hmessage]
  simp only [jsonString, List.length_append, List.length_cons, List.length_nil]
  omega

/-- An envelope of printable bytes is built, and it is at most little more than twice as long. -/
lemma buildOkEnvelope_of_printable {payload : Bytes} (h : IsPrintable payload) :
    ∃ envelope, buildOkEnvelope payload = .ok envelope ∧
      envelope.length ≤ 28 + 2 * payload.length := by
  have hascii : ∀ b ∈ payload, b.toNat < 128 := fun b hb => by
    have := h b hb
    omega
  have hescape := length_jsonEscape_ofBytes_le h
  have hok : (jsonString (Str.ofString "ok")).length = 4 := by decide
  have hpayload : (jsonString (Str.ofString "payload")).length = 9 := by decide
  rw [buildOkEnvelope, Str.decodeAscii, if_pos hascii]
  refine ⟨_, rfl, ?_⟩
  simp only [okMembers, jsonDumps, dumpsMembers, dumpsMember, Scalar.dumps, Separators.spaced,
    List.length_append, List.length_cons, List.length_nil, hok, hpayload]
  simp only [jsonString, List.length_append, List.length_cons, List.length_nil]
  omega

end HybridEccAuth

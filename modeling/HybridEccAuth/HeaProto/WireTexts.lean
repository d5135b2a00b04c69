import HybridEccAuth.Crypto.Primitives
import HybridEccAuth.Demo.Transport
import HybridEccAuth.HeaProto.JsonField

/-!
# The texts on the wire, spelled out

What `json.dumps` writes for the two messages and for the two envelopes, as literal
texts around the values: the form in which the C device writes and searches them.
-/

namespace HybridEccAuth

/-- Base64 text is written as it is. -/
lemma jsonEscape_b64 (data : Bytes) : jsonEscape (b64 data) = b64encode data := by
  have hchars := b64encode_printable data
  have hprintable : IsPrintable (b64encode data) := fun c hc => by
    have := hchars c hc
    omega
  have h34 : (34 : UInt8) ∉ b64encode data := fun h => absurd (hchars 34 h).1 (by decide)
  have h92 : (92 : UInt8) ∉ b64encode data := fun h => (hchars 92 h).2.2 rfl
  exact (HeaProto.jsonEscape_eq_iff hprintable h34 h92).mpr rfl

/-- A text between quotation marks, and what follows it. -/
def quoted (text rest : Bytes) : Bytes := 34 :: (text ++ 34 :: rest)

/-- The text of a message of a kind, around the texts of its values. -/
def payloadText (kind name first nonce ct tag : Bytes) : Bytes :=
  asciiBytes "\x7b\"v\":1,\"type\":" ++ quoted kind (asciiBytes "," ++ quoted name
    (asciiBytes ":" ++ quoted first (asciiBytes ",\"nonce\":" ++ quoted nonce
    (asciiBytes ",\"ct\":" ++ quoted ct (asciiBytes ",\"tag\":" ++ quoted tag
    (asciiBytes "\x7d"))))))

/-- A message is written as this text. -/
lemma jsonDumps_payloadMembers (kind name : String) (first : Str) (nonce ct tag : Bytes) :
    jsonDumps .compact (payloadMembers kind name first nonce ct tag) =
      payloadText (jsonEscape (Str.ofString kind)) (jsonEscape (Str.ofString name))
        (jsonEscape first) (b64encode nonce) (b64encode ct) (b64encode tag) := by
  have hv : jsonString (Str.ofString "v") = asciiBytes "\"v\"" := by decide
  have htype : jsonString (Str.ofString "type") = asciiBytes "\"type\"" := by decide
  have hnonce : jsonString (Str.ofString "nonce") = asciiBytes "\"nonce\"" := by decide
  have hct : jsonString (Str.ofString "ct") = asciiBytes "\"ct\"" := by decide
  have htag : jsonString (Str.ofString "tag") = asciiBytes "\"tag\"" := by decide
  have hb64 : ∀ data, jsonString (b64 data) = 34 :: b64encode data ++ [34] := fun data => by
    rw [jsonString, jsonEscape_b64]
  simp only [payloadMembers, jsonDumps, dumpsMembers, dumpsMember, Scalar.dumps,
    Separators.compact, hv, htype, hnonce, hct, htag, hb64, payloadText]
  simp [jsonString, asciiBytes, protocolVersion, quoted]

/-- The text of an M2. -/
lemma Message2.toBytes_eq (m : Message2 String) :
    m.toBytes = asciiBytes "\x7b\"v\":1,\"type\":\"M2\",\"sid\":" ++
      quoted (jsonEscape (Str.ofString m.serverId)) (asciiBytes ",\"nonce\":" ++
      quoted (b64encode m.gcmNonce) (asciiBytes ",\"ct\":" ++
      quoted (b64encode m.ciphertext) (asciiBytes ",\"tag\":" ++
      quoted (b64encode m.tag) (asciiBytes "\x7d")))) := by
  have hkind : jsonEscape (Str.ofString "M2") = asciiBytes "M2" := by decide
  have hname : jsonEscape (Str.ofString "sid") = asciiBytes "sid" := by decide
  rw [Message2.toBytes, jsonDumps_payloadMembers, payloadText, hkind, hname]
  simp [asciiBytes, quoted]

/-- The text of the envelope of a payload. -/
lemma jsonDumps_okMembers (payload : Str) :
    jsonDumps .spaced (okMembers payload) = asciiBytes "\x7b\"ok\": true, \"payload\": " ++
      quoted (jsonEscape payload) (asciiBytes "\x7d") := by
  have hok : jsonString (Str.ofString "ok") = asciiBytes "\"ok\"" := by decide
  have hpayload : jsonString (Str.ofString "payload") = asciiBytes "\"payload\"" := by decide
  simp only [okMembers, jsonDumps, dumpsMembers, dumpsMember, Scalar.dumps, Separators.spaced, hok,
    hpayload]
  simp [jsonString, asciiBytes, quoted]

/-- The text of the envelope of an exception. -/
lemma buildErrorEnvelope_eq (errorType message : Str) :
    buildErrorEnvelope errorType message = asciiBytes "\x7b\"ok\": false, \"error_type\": " ++
      quoted (jsonEscape errorType) (asciiBytes ", \"message\": " ++
      quoted (jsonEscape message) (asciiBytes "\x7d")) := by
  have hok : jsonString (Str.ofString "ok") = asciiBytes "\"ok\"" := by decide
  have htype : jsonString (Str.ofString "error_type") = asciiBytes "\"error_type\"" := by decide
  have hmessage : jsonString (Str.ofString "message") = asciiBytes "\"message\"" := by decide
  simp only [buildErrorEnvelope, errorMembers, jsonDumps, dumpsMembers, dumpsMember, Scalar.dumps,
    Separators.spaced, hok, htype, hmessage]
  simp [jsonString, asciiBytes, quoted]

end HybridEccAuth

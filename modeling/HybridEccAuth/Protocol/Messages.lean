import HybridEccAuth.Data.Base64
import HybridEccAuth.Data.JsonRoundTrip
import HybridEccAuth.Protocol.Errors

/-!
# Wire format of the two messages

A message is a flat JSON object whose binary fields are base64 texts.  The two
messages have one shape, `Payload`, and differ in the text of their `type` member
and in their first field: a pseudonym in `Message1`, the identity of the server in
`Message2`.

`Message1.fromBytes_toBytes` and `Message2.fromBytes_toBytes` are the round trips,
and every failure of `fromBytes` is a `MessageFormatError`
(`Message1.kind_of_fromBytes`, `Message2.kind_of_fromBytes`).
-/

namespace HybridEccAuth

/-- The version that is written and the only one that is read. -/
def protocolVersion : Fin 10 := 1

/-- `_b64`: the base64 text of bytes. -/
def b64 (data : Bytes) : Str := Str.ofBytes (b64encode data)

/-- `_unb64`: decodes a text, and fails on any other value. -/
def unb64 : Json → Option Bytes
  | .str s => (Str.encodeAscii s).bind b64decode
  | _ => none

/-- Base64 text is decoded to the bytes it was written for. -/
lemma unb64_b64 (data : Bytes) : unb64 (.str (b64 data)) = some data := by
  have h : ∀ c ∈ b64encode data, c.toNat < 128 := by
    intro c hc
    have := b64encode_printable data c hc
    omega
  rw [unb64, b64, Str.encodeAscii_ofBytes h, Option.bind_some, b64decode_b64encode]

/-- The error for a text that is no message of its kind. -/
def malformed (kind : String) : Exc :=
  ⟨.messageFormatError, [.lit "malformed ", .lit kind, .lit " payload: ", .library kind]⟩

/-- The decoded object of a message, once its type and then its version were checked. -/
def parsePayload (kind : String) (data : Bytes) : Except Exc (List (Str × Json)) :=
  match (utf8Decode data).bind jsonLoads with
  | some (.obj payload) =>
    let type := Json.get payload (Str.ofString "type")
    let version := Json.get payload (Str.ofString "v")
    if type.bind Json.text? ≠ some (Str.ofString kind) then
      .error ⟨.messageFormatError,
        [.lit "expected type ", .lit kind, .lit ", got ", .reprJson type]⟩
    else if version.map Json.equalsOne ≠ some true then
      .error ⟨.messageFormatError, [.lit "unsupported protocol version ", .reprJson version]⟩
    else .ok payload
  | _ => .error (malformed kind)

/-- A binary field of a decoded object. -/
def binaryField (kind : String) (payload : List (Str × Json)) (name : String) : Except Exc Bytes :=
  match (Json.get payload (Str.ofString name)).bind unb64 with
  | some data => .ok data
  | none => .error (malformed kind)

/-- A field of a decoded object, of any type. -/
def anyField (kind : String) (payload : List (Str × Json)) (name : String) : Except Exc Json :=
  match Json.get payload (Str.ofString name) with
  | some value => .ok value
  | none => .error (malformed kind)

/-- The members of a message of a kind; `name` is the name of the field in which the two kinds
differ. -/
def payloadMembers (kind name : String) (first : Str) (nonce ct tag : Bytes) :
    List (Str × Scalar) :=
  [(Str.ofString "v", .digit protocolVersion), (Str.ofString "type", .str (Str.ofString kind)),
    (Str.ofString name, .str first), (Str.ofString "nonce", .str (b64 nonce)),
    (Str.ofString "ct", .str (b64 ct)),
    (Str.ofString "tag", .str (b64 tag))]

/-- Device to server: `⟨PID, C1, mu_1⟩`. -/
structure Message1 where
  pid : Bytes
  gcmNonce : Bytes
  ciphertext : Bytes
  tag : Bytes
  deriving DecidableEq

/-- Server to device: `⟨ID, C2, sigma_2⟩`.  The sender names itself by its identity; what a receiver
reads there is any JSON value. -/
structure Message2 (ServerId : Type) where
  serverId : ServerId
  gcmNonce : Bytes
  ciphertext : Bytes
  tag : Bytes

namespace Message1

/-- `Message1.to_bytes`. -/
def toBytes (m : Message1) : Bytes :=
  jsonDumps .compact (payloadMembers "M1" "pid" (b64 m.pid) m.gcmNonce m.ciphertext m.tag)

/-- `Message1.from_bytes`. -/
def fromBytes (data : Bytes) : Except Exc Message1 := do
  let payload ← parsePayload "M1" data
  let pid ← binaryField "M1" payload "pid"
  let gcmNonce ← binaryField "M1" payload "nonce"
  let ciphertext ← binaryField "M1" payload "ct"
  let tag ← binaryField "M1" payload "tag"
  return ⟨pid, gcmNonce, ciphertext, tag⟩

end Message1

namespace Message2

/-- `Message2.to_bytes`. -/
def toBytes (m : Message2 String) : Bytes :=
  jsonDumps .compact (payloadMembers "M2" "sid" (Str.ofString m.serverId) m.gcmNonce m.ciphertext
    m.tag)

/-- `Message2.from_bytes`. -/
def fromBytes (data : Bytes) : Except Exc (Message2 Json) := do
  let payload ← parsePayload "M2" data
  let serverId ← anyField "M2" payload "sid"
  let gcmNonce ← binaryField "M2" payload "nonce"
  let ciphertext ← binaryField "M2" payload "ct"
  let tag ← binaryField "M2" payload "tag"
  return ⟨serverId, gcmNonce, ciphertext, tag⟩

end Message2

/-! ## Failures -/

/-- What fails in reading the header is a format error. -/
lemma kind_of_parsePayload {kind : String} {data : Bytes} {e : Exc}
    (h : parsePayload kind data = .error e) : e.kind = .messageFormatError := by
  unfold parsePayload at h
  split at h
  · dsimp only at h
    split_ifs at h <;> cases h <;> rfl
  · cases h
    rfl

/-- What fails in reading a field is a format error. -/
lemma kind_of_binaryField {kind : String} {payload : List (Str × Json)} {name : String} {e : Exc}
    (h : binaryField kind payload name = .error e) : e.kind = .messageFormatError := by
  unfold binaryField at h
  split at h
  · cases h
  · cases h
    rfl

/-- What fails in reading a field of any type is a format error. -/
lemma kind_of_anyField {kind : String} {payload : List (Str × Json)} {name : String} {e : Exc}
    (h : anyField kind payload name = .error e) : e.kind = .messageFormatError := by
  unfold anyField at h
  split at h
  · cases h
  · cases h
    rfl

/-- A computation whose steps only fail with format errors only fails with format errors. -/
lemma kind_of_bind {α β : Type} {x : Except Exc α} {f : α → Except Exc β} {e : Exc}
    (hx : ∀ e, x = .error e → e.kind = .messageFormatError)
    (hf : ∀ a e, f a = .error e → e.kind = .messageFormatError)
    (h : x >>= f = .error e) : e.kind = .messageFormatError := by
  cases x with
  | error e' =>
    cases h
    exact hx _ rfl
  | ok a => exact hf a e h

/-- A failure to read the first message is a format error. -/
theorem Message1.kind_of_fromBytes {data : Bytes} {e : Exc}
    (h : Message1.fromBytes data = .error e) :
    e.kind = .messageFormatError := by
  refine kind_of_bind (fun _ => kind_of_parsePayload) (fun payload _ => ?_) h
  refine kind_of_bind (fun _ => kind_of_binaryField) (fun pid _ => ?_)
  refine kind_of_bind (fun _ => kind_of_binaryField) (fun nonce _ => ?_)
  refine kind_of_bind (fun _ => kind_of_binaryField) (fun ct _ => ?_)
  refine kind_of_bind (fun _ => kind_of_binaryField) (fun tag _ h => ?_)
  cases h

/-- A failure to read the second message is a format error. -/
theorem Message2.kind_of_fromBytes {data : Bytes} {e : Exc}
    (h : Message2.fromBytes data = .error e) :
    e.kind = .messageFormatError := by
  refine kind_of_bind (fun _ => kind_of_parsePayload) (fun payload _ => ?_) h
  refine kind_of_bind (fun _ => kind_of_anyField) (fun sid _ => ?_)
  refine kind_of_bind (fun _ => kind_of_binaryField) (fun nonce _ => ?_)
  refine kind_of_bind (fun _ => kind_of_binaryField) (fun ct _ => ?_)
  refine kind_of_bind (fun _ => kind_of_binaryField) (fun tag _ h => ?_)
  cases h

/-! ## Round trips -/

/-- A step that succeeds hands its result to the next one. -/
lemma Except.ok_bind {α β : Type} (a : α) (f : α → Except Exc β) : (.ok a >>= f) = f a := rfl

section RoundTrip

variable (kind name : String) {first : Str}

/-- The members of a message can be read back when its first field can. -/
lemma readable_payloadMembers (hfirst : NoSurrogate first) (nonce ct tag : Bytes) :
    ∀ m ∈ payloadMembers kind name first nonce ct tag, ReadableMember m := by
  have hname : ∀ s : String, NoSurrogate (Str.ofString s) := noSurrogate_ofString
  simp only [payloadMembers, List.forall_mem_cons]
  refine ⟨⟨hname _, trivial⟩, ⟨hname _, hname _⟩, ⟨hname _, hfirst⟩,
    ⟨hname _, noSurrogate_ofBytes _⟩, ⟨hname _, noSurrogate_ofBytes _⟩,
    ⟨hname _, noSurrogate_ofBytes _⟩, by simp⟩

/-- The decoded members of a message. -/
def payloadJson (kind name : String) (first : Str) (nonce ct tag : Bytes) : List (Str × Json) :=
  (payloadMembers kind name first nonce ct tag).map fun m => (m.1, m.2.toJson)

/-- Looking a member up by a name, from the last one to the first. -/
lemma get_payloadJson (first : Str) (nonce ct tag : Bytes) (key : String) :
    Json.get (payloadJson kind name first nonce ct tag) (Str.ofString key) =
      if key = "tag" then some (.str (b64 tag))
      else if key = "ct" then some (.str (b64 ct))
      else if key = "nonce" then some (.str (b64 nonce))
      else if key = name then some (.str first)
      else if key = "type" then some (.str (Str.ofString kind))
      else if key = "v" then some (.int protocolVersion.val)
      else none := by
  have hinj : ∀ a b : String, (Str.ofString a = Str.ofString b) = (b = a) := by
    intro a b
    rw [Str.ofString_injective.eq_iff]
    exact propext eq_comm
  simp only [Json.get, payloadJson, payloadMembers, List.map_cons, List.map_nil, List.reverse_cons,
    List.reverse_nil, List.nil_append, List.cons_append, List.find?_cons, hinj, Scalar.toJson,
    List.find?_nil]
  split_ifs <;> simp_all

/-- A written message is decoded to its members. -/
lemma parsePayload_jsonDumps {kind name : String} (hfirst : NoSurrogate first) (hv : name ≠ "v")
    (htype : name ≠ "type") (nonce ct tag : Bytes) :
    parsePayload kind (jsonDumps .compact (payloadMembers kind name first nonce ct tag)) =
      .ok (payloadJson kind name first nonce ct tag) := by
  have hload := jsonLoads_jsonDumps Separators.isWs_compact (List.cons_ne_nil _ _)
    (readable_payloadMembers kind name hfirst nonce ct tag)
  have hget := get_payloadJson kind name first nonce ct tag
  have hdecode : (utf8Decode (jsonDumps .compact
      (payloadMembers kind name first nonce ct tag))).bind jsonLoads =
        some (.obj (payloadJson kind name first nonce ct tag)) := by
    rw [utf8Decode_jsonDumps Separators.isPrintable_compact, Option.bind_some]
    exact hload
  unfold parsePayload
  rw [hdecode]
  simp only [hget "type", hget "v"]
  simp [Json.text?, Json.equalsOne, protocolVersion, hv.symm, htype.symm]

/-- The fields of a decoded message. -/
lemma fields_payloadJson (kind : String) {name : String}
    (hname : name ∉ ["v", "type", "nonce", "ct", "tag"]) (first : Str)
    (nonce ct tag : Bytes) :
    Json.get (payloadJson kind name first nonce ct tag) (Str.ofString name) = some (.str first) ∧
      binaryField kind (payloadJson kind name first nonce ct tag) "nonce" = .ok nonce ∧
      binaryField kind (payloadJson kind name first nonce ct tag) "ct" = .ok ct ∧
      binaryField kind (payloadJson kind name first nonce ct tag) "tag" = .ok tag := by
  simp only [List.mem_cons, List.not_mem_nil, or_false, not_or] at hname
  obtain ⟨-, -, hnonce, hct, htag⟩ := hname
  have hget := get_payloadJson kind name first nonce ct tag
  refine ⟨?_, ?_, ?_, ?_⟩
  · rw [hget, if_neg htag, if_neg hct, if_neg hnonce, if_pos rfl]
  · rw [binaryField, hget, if_neg (by decide), if_neg (by decide), if_pos rfl, Option.bind_some,
      unb64_b64]
  · rw [binaryField, hget, if_neg (by decide), if_pos rfl, Option.bind_some, unb64_b64]
  · rw [binaryField, hget, if_pos rfl, Option.bind_some, unb64_b64]

end RoundTrip

/-- The first message survives the wire. -/
theorem Message1.fromBytes_toBytes (m : Message1) : Message1.fromBytes m.toBytes = .ok m := by
  obtain ⟨hget, hnonce, hct, htag⟩ := fields_payloadJson "M1" (by decide : "pid" ∉ _)
    (b64 m.pid) m.gcmNonce m.ciphertext m.tag
  have hpid : binaryField "M1" (payloadJson "M1" "pid" (b64 m.pid) m.gcmNonce m.ciphertext m.tag)
      "pid" = .ok m.pid := by
    rw [binaryField, hget, Option.bind_some, unb64_b64]
  have hpayload : parsePayload "M1" m.toBytes = .ok
      (payloadJson "M1" "pid" (b64 m.pid) m.gcmNonce m.ciphertext m.tag) :=
    parsePayload_jsonDumps (noSurrogate_ofBytes _) (by decide) (by decide) _ _ _
  rw [Message1.fromBytes, hpayload, Except.ok_bind, hpid, Except.ok_bind, hnonce,
    Except.ok_bind, hct,
    Except.ok_bind, htag, Except.ok_bind]
  rfl

/-- The second message survives the wire. -/
theorem Message2.fromBytes_toBytes (m : Message2 String) :
    Message2.fromBytes m.toBytes =
      .ok ⟨.str (Str.ofString m.serverId), m.gcmNonce, m.ciphertext, m.tag⟩ := by
  obtain ⟨hget, hnonce, hct, htag⟩ := fields_payloadJson "M2" (by decide : "sid" ∉ _)
    (Str.ofString m.serverId) m.gcmNonce m.ciphertext m.tag
  have hsid : anyField "M2" (payloadJson "M2" "sid" (Str.ofString m.serverId) m.gcmNonce
      m.ciphertext m.tag) "sid" = .ok (.str (Str.ofString m.serverId)) := by
    rw [anyField, hget]
  have hpayload : parsePayload "M2" m.toBytes = .ok
      (payloadJson "M2" "sid" (Str.ofString m.serverId) m.gcmNonce m.ciphertext m.tag) :=
    parsePayload_jsonDumps (noSurrogate_ofString _) (by decide) (by decide) _ _ _
  rw [Message2.fromBytes, hpayload, Except.ok_bind, hsid, Except.ok_bind, hnonce,
    Except.ok_bind, hct,
    Except.ok_bind, htag, Except.ok_bind]
  rfl

end HybridEccAuth

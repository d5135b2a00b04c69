import HybridEccAuth.Properties.DeviceAgreement
import HybridEccAuth.Properties.EnvelopeReading

/-!
# The answers of the server, read by the C device

Which answers of a server the C device accepts.  The four texts of M2 are found in the
payload one after the other; the search for a key behind the identity passes the text
of the identity, and stops in it when the identity ends like the key, in quotation
marks (`EndsLikeKey`).  `heaComplete_response_iff` says that this is the only way in
which an answer to the C device's own request is not accepted.
-/

namespace HybridEccAuth.HeaProto

open Search

/-- The keys that `hea_complete` searches for behind the identity of the server. -/
def keysBehindIdentity : List String := ["nonce", "ct", "tag"]

/-- An identity that is one of these keys, or ends with a quotation mark and one of them. -/
def EndsLikeKey (identity : Bytes) : Prop :=
  ∃ key ∈ keysBehindIdentity, 34 :: asciiBytes key <:+ 34 :: identity

instance (identity : Bytes) : Decidable (EndsLikeKey identity) := by
  unfold EndsLikeKey
  infer_instance

/-! ## Identities -/

section Identity

variable {identity : String} (hchars : ∀ c ∈ identity.toList, 32 ≤ c.toNat ∧ c.toNat ≤ 126)
include hchars

/-- The code points of a printable identity are its bytes. -/
lemma ofString_of_printable : Str.ofString identity = Str.ofBytes (asciiBytes identity) := by
  rw [Str.ofString, Str.ofBytes, asciiBytes, List.map_map]
  refine List.map_congr_left fun c hc => Fin.ext ?_
  have := hchars c hc
  rw [CodePoint.val_ofChar, Function.comp_apply, CodePoint.val_ofByte, UInt8.toNat_ofNat']
  omega

/-- The bytes of a printable identity are printable. -/
lemma isPrintable_asciiBytes : IsPrintable (asciiBytes identity) := by
  intro b hb
  obtain ⟨c, hc, rfl⟩ := List.mem_map.mp hb
  have := hchars c hc
  rw [UInt8.toNat_ofNat']
  omega

/-- A printable identity of at most 31 characters is the C string of its array. -/
lemma cString_serverIdArray (hlength : identity.length ≤ 31) :
    cString (serverIdArray (asciiBytes identity)) = asciiBytes identity := by
  have hlen : (asciiBytes identity).length ≤ 31 := by
    rw [asciiBytes, List.length_map, String.length_toList]
    exact hlength
  have h0 : 0 ∉ asciiBytes identity := fun h =>
    absurd (isPrintable_asciiBytes hchars 0 h).1 (by decide)
  rw [serverIdArray, cString_of_not_mem h0, List.take_of_length_le hlen, cString_append h0]
  rcases Nat.eq_zero_or_pos (32 - (asciiBytes identity).length) with hzero | hpos
  · omega
  · obtain ⟨n, hn⟩ := Nat.exists_eq_succ_of_ne_zero hpos.ne'
    rw [hn, List.replicate_succ]
    simp [cString]

end Identity

/-! ## The fields of the payload -/

/-- What follows a key that was found, when it is a quoted text. -/
lemma readValue_quoted (cap : ℕ) (text rest : Bytes) :
    readValue cap (asciiBytes ":" ++ quoted text rest) = copyValue cap 0 (text ++ 34 :: rest) := rfl

/-- After a key in the place of a value comes a comma, and no text is read. -/
lemma readValue_comma (cap : ℕ) (rest : Bytes) :
    (readValue cap (asciiBytes "," ++ rest)).value = none := rfl

/-- A base64 text is read as it is, if the buffer is large enough. -/
lemma copyValue_b64 {cap : ℕ} {data : Bytes} (hcap : (b64encode data).length < cap) (rest : Bytes) :
    copyValue cap 0 (b64encode data ++ 34 :: rest) = ⟨true, b64encode data⟩ := by
  have hprintable : IsPrintable (b64encode data) := fun c hc => by
    have := b64encode_printable data c hc
    omega
  have htext : jsonEscape (Str.ofBytes (b64encode data)) = b64encode data := jsonEscape_b64 data
  have hcopy := copyValue_jsonEscape hprintable (by omega : 0 + (b64encode data).length < cap) rest
  rwa [htext] at hcopy

/-- The search for a key passes a base64 text, whose length is a multiple of four. -/
lemma afterFirst_b64 {key : Bytes} (h34 : 34 ∉ key) (h92 : 92 ∉ key) (hlen : key.length % 4 ≠ 0)
    (data rest : Bytes) :
    afterFirst (34 :: (key ++ 34 :: [])) (quoted (b64encode data) rest) =
      afterFirst (34 :: (key ++ 34 :: [])) (34 :: rest) := by
  have hquote : (34 : UInt8) ∉ b64encode data := fun h =>
    absurd (b64encode_printable data 34 h).1 (by decide)
  rw [afterFirst_quoted h34 h92 (guarded_of_not_mem hquote 34), if_neg]
  rintro ⟨hsuffix, -⟩
  rcases List.suffix_cons_iff.mp hsuffix with h | h
  · have hkey : key.length = (b64encode data).length := congrArg List.length (List.cons.inj h).2
    rw [length_b64encode] at hkey
    omega
  · exact hquote (h.subset List.mem_cons_self)

section Fields

variable {m : Message2 String}
  (hchars : ∀ c ∈ m.serverId.toList, 32 ≤ c.toNat ∧ c.toNat ≤ 126)
include hchars

/-- The identity is read as it is. -/
lemma jsonStr_sid (hlength : m.serverId.length ≤ 31) :
    (jsonStr m.toBytes (asciiBytes "sid") 32).value = some (asciiBytes m.serverId) := by
  have hpat : searchPattern (asciiBytes "sid") = asciiBytes "\"sid\"" := by decide
  have hstart : Apart (asciiBytes "\"sid\"") (asciiBytes "\x7b\"v\":1,\"type\":\"M2\",") := by
    decide +kernel
  have htext : asciiBytes "\x7b\"v\":1,\"type\":\"M2\",\"sid\":" =
      asciiBytes "\x7b\"v\":1,\"type\":\"M2\"," ++ (asciiBytes "\"sid\"" ++ asciiBytes ":") := by
    decide
  have hlen : 0 + (asciiBytes m.serverId).length < 32 := by
    rw [asciiBytes, List.length_map, String.length_toList]
    omega
  rw [jsonStr, hpat, Message2.toBytes_eq, htext, List.append_assoc, List.append_assoc,
    afterFirst_key (by decide) hstart]
  dsimp only
  rw [readValue_quoted, ofString_of_printable hchars,
    copyValue_jsonEscape (isPrintable_asciiBytes hchars) hlen]
  rfl

/-- The search for a key behind the identity: it stops at the end of an identity that ends like the
key, and goes on behind the identity otherwise. -/
lemma afterFirst_identity {key : Bytes} (h34 : 34 ∉ key) (h92 : 92 ∉ key)
    (hstart : Apart (34 :: (key ++ 34 :: [])) (asciiBytes "\x7b\"v\":1,\"type\":\"M2\",\"sid\":")) :
    afterFirst (34 :: (key ++ 34 :: [])) m.toBytes =
      let rest :=
      asciiBytes ",\"nonce\":" ++ quoted (b64encode m.gcmNonce) (asciiBytes ",\"ct\":" ++
        quoted (b64encode m.ciphertext) (asciiBytes ",\"tag\":" ++
        quoted (b64encode m.tag) (asciiBytes "\x7d")))
      if 34 :: key <:+ 34 :: asciiBytes m.serverId then some rest
      else afterFirst (34 :: (key ++ 34 :: [])) (34 :: rest) := by
  have hid := isPrintable_asciiBytes hchars
  have hsuffix : 34 :: key <:+ 34 :: jsonEscape (Str.ofBytes (asciiBytes m.serverId)) ↔
      34 :: key <:+ 34 :: asciiBytes m.serverId := by
    rw [List.suffix_cons_iff, List.suffix_cons_iff, List.cons.injEq, List.cons.injEq,
      suffix_jsonEscape_iff hid h34 h92, eq_comm (a := key), eq_comm (a := key),
      jsonEscape_eq_iff hid h34 h92]
  rw [Message2.toBytes_eq, afterFirst_append_of_apart hstart, afterFirst_quoted h34 h92
    (guarded_jsonEscape _ _), ofString_of_printable hchars]
  simp only [hsuffix, List.nil_prefix, and_true, List.length_nil, List.drop_zero]

/-- The text of the IV. -/
lemma jsonStr_nonce (hiv : m.gcmNonce.length = 12) :
    (jsonStr m.toBytes (asciiBytes "nonce") 24).value =
      if 34 :: asciiBytes "nonce" <:+ 34 :: asciiBytes m.serverId then none
      else some (b64encode m.gcmNonce) := by
  have hpat : searchPattern (asciiBytes "nonce") =
      34 :: (asciiBytes "nonce" ++ 34 :: []) := by decide
  have hcap : (b64encode m.gcmNonce).length < 24 := by rw [length_b64encode, hiv]; decide
  rw [jsonStr, hpat, afterFirst_identity hchars (by decide) (by decide) (by decide +kernel)]
  dsimp only
  split_ifs with hend
  · exact readValue_comma 24 _
  · have hbefore : Apart (34 :: (asciiBytes "nonce" ++ 34 :: [])) (asciiBytes "\",") := by
      decide +kernel
    have hkey : ∀ s, 34 :: (asciiBytes ",\"nonce\":" ++ s) = asciiBytes "\"," ++
        (34 :: (asciiBytes "nonce" ++ 34 :: []) ++ (asciiBytes ":" ++ s)) := fun _ => rfl
    rw [hkey, afterFirst_key (List.cons_ne_nil _ _) hbefore]
    dsimp only
    rw [readValue_quoted, copyValue_b64 hcap]
    rfl

/-- The text of the ciphertext. -/
lemma jsonStr_ct (hct : m.ciphertext.length ≤ 64) :
    (jsonStr m.toBytes (asciiBytes "ct") 96).value =
      if 34 :: asciiBytes "ct" <:+ 34 :: asciiBytes m.serverId then none
      else some (b64encode m.ciphertext) := by
  have hpat : searchPattern (asciiBytes "ct") = 34 :: (asciiBytes "ct" ++ 34 :: []) := by decide
  have hcap : (b64encode m.ciphertext).length < 96 := by rw [length_b64encode]; omega
  rw [jsonStr, hpat, afterFirst_identity hchars (by decide) (by decide) (by decide +kernel)]
  dsimp only
  split_ifs with hend
  · exact readValue_comma 96 _
  · have hnonce : Apart (34 :: (asciiBytes "ct" ++ 34 :: [])) (34 :: asciiBytes ",\"nonce\":") := by
      decide +kernel
    have hbefore : Apart (34 :: (asciiBytes "ct" ++ 34 :: [])) (asciiBytes "\",") := by
      decide +kernel
    have hkey : ∀ s, 34 :: (asciiBytes ",\"ct\":" ++ s) = asciiBytes "\"," ++
        (34 :: (asciiBytes "ct" ++ 34 :: []) ++ (asciiBytes ":" ++ s)) := fun _ => rfl
    rw [afterFirst_cons_append_of_apart hnonce,
      afterFirst_b64 (by decide) (by decide) (by decide), hkey,
      afterFirst_key (List.cons_ne_nil _ _) hbefore]
    dsimp only
    rw [readValue_quoted, copyValue_b64 hcap]
    rfl

/-- The text of the tag. -/
lemma jsonStr_tag (htag : m.tag.length = 16) :
    (jsonStr m.toBytes (asciiBytes "tag") 32).value =
      if 34 :: asciiBytes "tag" <:+ 34 :: asciiBytes m.serverId then none
      else some (b64encode m.tag) := by
  have hpat : searchPattern (asciiBytes "tag") = 34 :: (asciiBytes "tag" ++ 34 :: []) := by decide
  have hcap : (b64encode m.tag).length < 32 := by rw [length_b64encode, htag]; decide
  rw [jsonStr, hpat, afterFirst_identity hchars (by decide) (by decide) (by decide +kernel)]
  dsimp only
  split_ifs with hend
  · exact readValue_comma 32 _
  · have hnonce : Apart (34 :: (asciiBytes "tag" ++ 34 :: []))
        (34 :: asciiBytes ",\"nonce\":") := by
      decide +kernel
    have hct : Apart (34 :: (asciiBytes "tag" ++ 34 :: [])) (34 :: asciiBytes ",\"ct\":") := by
      decide +kernel
    have hbefore : Apart (34 :: (asciiBytes "tag" ++ 34 :: [])) (asciiBytes "\",") := by
      decide +kernel
    have hkey : ∀ s, 34 :: (asciiBytes ",\"tag\":" ++ s) = asciiBytes "\"," ++
        (34 :: (asciiBytes "tag" ++ 34 :: []) ++ (asciiBytes ":" ++ s)) := fun _ => rfl
    rw [afterFirst_cons_append_of_apart hnonce,
      afterFirst_b64 (by decide) (by decide) (by decide), afterFirst_cons_append_of_apart hct,
      afterFirst_b64 (by decide) (by decide) (by decide), hkey,
      afterFirst_key (List.cons_ne_nil _ _) hbefore]
    dsimp only
    rw [readValue_quoted, copyValue_b64 hcap]
    rfl

/-- An M2 with a printable identity has at most 260 bytes. -/
lemma length_toBytes_of_printable (hlength : m.serverId.length ≤ 31)
    (hiv : m.gcmNonce.length = 12) (hct : m.ciphertext.length ≤ 64) (htag : m.tag.length = 16) :
    m.toBytes.length ≤ 260 := by
  have hid := length_jsonEscape_ofBytes_le (isPrintable_asciiBytes hchars)
  have hidlen : (asciiBytes m.serverId).length = m.serverId.length := by
    rw [asciiBytes, List.length_map, String.length_toList]
  have h1 : (asciiBytes "\x7b\"v\":1,\"type\":\"M2\",\"sid\":").length = 25 := by decide
  have h2 : (asciiBytes ",\"nonce\":").length = 9 := by decide
  have h3 : (asciiBytes ",\"ct\":").length = 6 := by decide
  have h4 : (asciiBytes ",\"tag\":").length = 7 := by decide
  have h5 : (asciiBytes "\x7d").length = 1 := by decide
  rw [Message2.toBytes_eq, ofString_of_printable hchars]
  simp only [quoted, List.length_append, List.length_cons, length_b64encode, hiv, htag, h1, h2, h3,
    h4, h5]
  omega

/-- The envelope of an M2 with a printable identity: it is smaller than the buffer for it, it is
taken for a success, and the texts of its payload are read, unless the identity ends like a key. -/
lemma readTexts_envelope (hlength : m.serverId.length ≤ 31)
    (hiv : m.gcmNonce.length = 12) (hct : m.ciphertext.length ≤ 64) (htag : m.tag.length = 16)
    {envelope : Bytes} (henvelope : buildOkEnvelope m.toBytes = .ok envelope) :
    envelope.length < 1024 ∧ cString envelope = envelope ∧ saysOk envelope = true ∧
      readTexts envelope =
      if EndsLikeKey (asciiBytes m.serverId) then .error (.format, "malformed M2")
        else .ok (asciiBytes m.serverId, b64encode m.gcmNonce, b64encode m.ciphertext,
          b64encode m.tag) := by
  have hprintable : IsPrintable m.toBytes := isPrintable_jsonDumps Separators.isPrintable_compact _
  have hlen := length_toBytes_of_printable hchars hlength hiv hct htag
  obtain ⟨envelope', hbuilt, hsize⟩ := buildOkEnvelope_of_printable hprintable
  obtain rfl : envelope' = envelope := Except.ok.inj (hbuilt.symm.trans henvelope)
  have hascii : ∀ b ∈ m.toBytes, b.toNat < 128 := fun b hb => by
    have := hprintable b hb
    omega
  have htext : envelope' = jsonDumps .spaced (okMembers (Str.ofBytes m.toBytes)) := by
    rw [buildOkEnvelope, Str.decodeAscii, if_pos hascii] at henvelope
    exact (Except.ok.inj henvelope).symm
  have hpayload : (jsonStr envelope' (asciiBytes "payload") 640).value = some m.toBytes := by
    have hpat : searchPattern (asciiBytes "payload") = asciiBytes "\"payload\"" := by decide
    have hstart : Apart (asciiBytes "\"payload\"") (asciiBytes "\x7b\"ok\": true, ") := by
      decide +kernel
    have hsplit : asciiBytes "\x7b\"ok\": true, \"payload\": " =
        asciiBytes "\x7b\"ok\": true, " ++ (asciiBytes "\"payload\"" ++ asciiBytes ": ") := by
      decide
    have hgap : ∀ text rest, readValue 640 (asciiBytes ": " ++ quoted text rest) =
        copyValue 640 0 (text ++ 34 :: rest) := fun _ _ => rfl
    rw [jsonStr, hpat, htext, jsonDumps_okMembers, hsplit, List.append_assoc, List.append_assoc,
      afterFirst_key (by decide) hstart]
    dsimp only
    rw [hgap, copyValue_jsonEscape hprintable (by omega)]
    rfl
  have hall : EndsLikeKey (asciiBytes m.serverId) ↔
      34 :: asciiBytes "nonce" <:+ 34 :: asciiBytes m.serverId ∨
      34 :: asciiBytes "ct" <:+ 34 :: asciiBytes m.serverId ∨
      34 :: asciiBytes "tag" <:+ 34 :: asciiBytes m.serverId := by
    simp [EndsLikeKey, keysBehindIdentity]
  refine ⟨by omega, cString_of_printable ?_, htext ▸ saysOk_okMembers _, ?_⟩
  · exact htext ▸ isPrintable_jsonDumps Separators.isPrintable_spaced _
  · rw [readTexts, hpayload]
    simp only [hall, jsonStr_sid hchars hlength, jsonStr_nonce hchars hiv, jsonStr_ct hchars hct,
      jsonStr_tag hchars htag, orFail, bind, Except.bind, pure, Except.pure]
    by_cases h1 : 34 :: asciiBytes "nonce" <:+ 34 :: asciiBytes m.serverId
    · simp only [h1, if_true, true_or]
    · by_cases h2 : 34 :: asciiBytes "ct" <:+ 34 :: asciiBytes m.serverId
      · simp only [h1, h2, if_true, if_false, true_or, or_true]
      · by_cases h3 : 34 :: asciiBytes "tag" <:+ 34 :: asciiBytes m.serverId
        · simp only [h1, h2, h3, if_true, if_false, or_true]
        · simp only [h1, h2, h3, if_false, or_self]

/-- What `hea_complete` reads from that envelope, on a device that expects this identity. -/
lemma readM2_envelope (hlength : m.serverId.length ≤ 31)
    (hiv : m.gcmNonce.length = 12) (hct : 9 ≤ m.ciphertext.length ∧ m.ciphertext.length ≤ 64)
    (htag : m.tag.length = 16) {envelope : Bytes}
    (henvelope : buildOkEnvelope m.toBytes = .ok envelope) {d : HeaDevice}
    (hd : d.serverId.val = serverIdArray (asciiBytes m.serverId)) :
    readM2 d envelope = if EndsLikeKey (asciiBytes m.serverId) then .error (.format, "malformed M2")
      else .ok ⟨asciiBytes m.serverId, m.gcmNonce, m.tag, m.ciphertext⟩ := by
  obtain ⟨-, -, -, htexts⟩ := readTexts_envelope hchars hlength hiv hct.2 htag henvelope
  rw [readM2, htexts]
  split_ifs with hend
  · rfl
  · have hbinary : readBinary (asciiBytes m.serverId) (b64encode m.gcmNonce)
        (b64encode m.ciphertext) (b64encode m.tag) =
          .ok ⟨asciiBytes m.serverId, m.gcmNonce, m.tag, m.ciphertext⟩ := by
      rw [readBinary_eq_ok_iff]
      exact ⟨rfl, ⟨b64Decode_b64encode hiv.le, hiv⟩, ⟨b64Decode_b64encode htag.le, htag⟩,
        b64Decode_b64encode hct.2, hct.1⟩
    have hsid : asciiBytes m.serverId = cString d.serverId.val := by
      rw [hd, cString_serverIdArray hchars hlength]
    exact (if_neg (not_not.mpr hsid)).trans hbinary

end Fields

/-! ## Answers to the device's own request -/

section Answers

variable {C : Crypto}

/-- The request that `hea_build_m1` builds. -/
lemma heaBuildM1_of_ne_zero {d : HeaDevice} {nonce iv : Urandom} {cap : ℕ} {built : BuiltM1}
    (hbuilt : built = heaBuildM1 C d nonce iv cap) (h : built.len ≠ 0) :
    let pt := built.pending.pid.val ++ built.pending.nI.val ++ putU64 built.pending.epoch
    let ct := C.gcmCrypt d.kStar.val (iv.draw 12) pt
    built.device.kStar = d.kStar ∧ built.device.serverId = d.serverId ∧
      built.out = Message1.toBytes
        ⟨built.pending.pid.val, iv.draw 12, ct, C.gcmTag d.kStar.val (iv.draw 12) [] ct⟩ := by
  subst hbuilt
  unfold heaBuildM1 at h ⊢
  simp only [gcmRun, if_true] at h ⊢
  split_ifs at h ⊢
  · exact absurd rfl h
  · exact ⟨rfl, rfl, m1Text_eq_toBytes ⟨_, _, _, _⟩⟩

/-- The pending state of the request. -/
lemma pending_heaBuildM1 (d : HeaDevice) (nonce iv : Urandom) (cap : ℕ) :
    (heaBuildM1 C d nonce iv cap).pending.pid.val = sha256Pid C d.lam.val d.epoch ∧
      (heaBuildM1 C d nonce iv cap).pending.nI.val = nonce.draw 16 ∧
      (heaBuildM1 C d nonce iv cap).pending.epoch = d.epoch := by
  unfold heaBuildM1
  dsimp only
  split_ifs
  · exact ⟨rfl, rfl, rfl⟩
  · exact ⟨rfl, rfl, rfl⟩

/-- Every M1 has 216 bytes, so the request is built in a larger buffer. -/
lemma len_heaBuildM1 {d : HeaDevice} {nonce iv : Urandom} {cap : ℕ} (hcap : 216 < cap) :
    (heaBuildM1 C d nonce iv cap).len = 216 := by
  have h1 : (asciiBytes "\x7b\"v\":1,\"type\":\"M1\",\"pid\":\"").length = 26 := by decide
  have h2 : (asciiBytes "\",\"nonce\":\"").length = 11 := by decide
  have h3 : (asciiBytes "\",\"ct\":\"").length = 8 := by decide
  have h4 : (asciiBytes "\",\"tag\":\"").length = 9 := by decide
  have h5 : (asciiBytes "\"\x7d").length = 2 := by decide
  have htext : ∀ pid ct tag : Bytes, pid.length = 32 → ct.length = 56 → tag.length = 16 →
      (m1Text (b64Encode pid) (b64Encode (iv.draw 12)) (b64Encode ct) (b64Encode tag)).length =
        216 := by
    intro pid ct tag hpid hct htag
    simp only [m1Text, b64Encode_eq_b64encode, List.length_append, length_b64encode,
      hpid, hct, htag,
      iv.length_draw, h1, h2, h3, h4, h5]
  have hpt : (sha256Pid C d.lam.val d.epoch ++ nonce.draw 16 ++ putU64 d.epoch).length = 56 := by
    rw [putU64_eq, List.length_append, List.length_append, sha256Pid, C.length_sha256,
      nonce.length_draw, length_toBytesBE]
  have hlen := htext (sha256Pid C d.lam.val d.epoch) (C.gcmCrypt d.kStar.val (iv.draw 12)
      (sha256Pid C d.lam.val d.epoch ++ nonce.draw 16 ++ putU64 d.epoch)) (C.gcmTag d.kStar.val
      (iv.draw 12) [] (C.gcmCrypt d.kStar.val (iv.draw 12)
        (sha256Pid C d.lam.val d.epoch ++ nonce.draw 16 ++ putU64 d.epoch)))
    (C.length_sha256 _) (by rw [C.length_gcmCrypt, hpt]) (C.length_gcmTag _ _ _ _)
  unfold heaBuildM1
  simp only [gcmRun, if_true]
  rw [if_neg (by rw [hlen]; omega)]
  exact hlen

/-- What a server that accepts the request of the C device, as the request of a device with its
secret, answers. -/
lemma response_of_accepted {S S' : Server C} {env : ServerEnv} {result : AuthResult}
    {lamDevice : Lam} {serverId : Bytes} {e : UInt64} {nonce iv : Urandom} {cap : ℕ}
    {built : BuiltM1} (hrole : S.credential.role = .server)
    (hbuilt : built = heaBuildM1 C (heaInit C (lamBlock lamDevice) (lamBlock S.credential.lam)
      serverId e) nonce iv cap) (hlen : built.len ≠ 0)
    (haccept : S.handleAuthRequest env built.out = (.ok result, S'))
    (hpeer : S.peers.get result.peerIdentity = some lamDevice) :
    ∃ m : Message2 String, result.responseBytes = m.toBytes ∧
      m.serverId = S.credential.identity ∧ m.gcmNonce.length = 12 ∧
      (9 ≤ m.ciphertext.length ∧ m.ciphertext.length ≤ 64) ∧ m.tag.length = 16 ∧
      ∀ sid, verifyM2 C built.device built.pending ⟨sid, m.gcmNonce, m.tag, m.ciphertext⟩ =
        .ok result.sessionKey := by
  obtain ⟨hdevice, -, hout⟩ := heaBuildM1_of_ne_zero hbuilt hlen
  obtain ⟨o, msg1, lam, plaintext, -, hopens, hrespond, -⟩ := Server.handleAuthRequest_ok haccept
  have hkey : o.kStar.length = keyLen := by
    rw [hopens.kStar_eq]
    exact Credential.length_pairwiseRoot C _ lam
  obtain ⟨hbits, hrange⟩ := respond_ok hrespond
  rw [respond_eq hbits hrange hkey] at hrespond
  obtain rfl := Except.ok.inj hrespond
  obtain rfl : lamDevice = lam := Option.some.inj (hpeer.symm.trans hopens.lam_eq)
  -- both sides have the same pairwise root
  have hroot : o.kStar = built.device.kStar.val := by
    rw [hopens.kStar_eq, Credential.pairwiseRoot, hrole, hdevice]
    rfl
  -- so the server has decrypted what the device has encrypted
  have hmsg := hopens.parsed
  rw [hout, Message1.fromBytes_toBytes] at hmsg
  obtain rfl := Except.ok.inj hmsg
  have hplain : plaintext = built.pending.pid.val ++ built.pending.nI.val ++
      putU64 built.pending.epoch := by
    have hdec := hopens.decrypted
    rw [aeadDecrypt_of_tag hkey (iv.length_draw 12) (by rw [hroot, hdevice]), hroot, hdevice,
      C.gcmCrypt_gcmCrypt] at hdec
    exact (Except.ok.inj hdec).symm
  have h64 := built.pending.epoch.toNat_lt
  have hlast : (putU64 built.pending.epoch).length = 8 := by
    rw [putU64_eq, length_toBytesBE]
  have hepoch : o.epoch = built.pending.epoch.toNat := by
    rw [← hopens.epoch_plaintext, hplain, lastBytes_append hlast, putU64_eq,
      fromBytesBE_toBytesBE_of_lt (by omega)]
  have hnI : o.nI = built.pending.nI.val := by
    rw [hopens.nI_eq, hplain, dropLastBytes_append hlast]
    exact List.drop_left' built.pending.pid.property
  have hpid : o.pid = built.pending.pid.val := hopens.pid_eq
  have hnJ : (env.nonce.draw (S.nonceBits / 8)).length ∈ [16, 24, 32] := by
    rw [env.nonce.length_draw]
    simp only [supportedNonceBits, List.mem_cons, List.not_mem_nil, or_false] at hbits
    rcases hbits with h | h | h <;> rw [h] <;> decide
  simp only [List.mem_cons, List.not_mem_nil, or_false] at hnJ
  refine ⟨_, rfl, rfl, env.iv.length_draw 12, ?_, C.length_gcmTag _ _ _ _, fun sid => ?_⟩
  · rw [C.length_gcmCrypt, List.length_append, length_toBytesBE]
    omega
  · have hct : (C.gcmCrypt o.kStar (env.iv.draw gcmNonceLen) (env.nonce.draw (S.nonceBits / 8) ++
        toBytesBE 8 o.epoch.toNat)).length ≤ 64 := by
      rw [C.length_gcmCrypt, List.length_append, length_toBytesBE]
      omega
    refine (verifyM2_eq_ok_iff (C.length_gcmTag _ _ _ _) hct).mpr ⟨?_, ?_, ?_⟩
    · rw [hroot, hpid, hnI]
    · rw [hroot, C.gcmCrypt_gcmCrypt, lastBytes_append (length_toBytesBE 8 _), hepoch,
        Int.toNat_natCast]
      apply UInt64.toNat_inj.mp
      rw [toNat_getU64 (length_toBytesBE 8 _), fromBytesBE_toBytesBE_of_lt (by omega)]
    · rw [hroot, C.gcmCrypt_gcmCrypt, dropLastBytes_append (length_toBytesBE 8 _), hnI, hepoch,
        Int.toNat_natCast, putU64_eq]
      rfl

/-- A request that meets all the checks, and whose epoch is accepted, is answered for its peer, and
the answer is sent. -/
lemma answered_of_opens {S : Server C} {env : ServerEnv} {data : Bytes} {o : Opened}
    {msg1 : Message1} {lam : Lam} {plaintext : Bytes}
    (h : S.Opens env data o msg1 lam plaintext) (hbits : S.nonceBits ∈ supportedNonceBits)
    (hrange : 0 ≤ o.epoch ∧ o.epoch < 2 ^ 64)
    (hacc : ((S.resolver.resolve C S.peers S.sessionLog env.resolveReading msg1.pid).2.accept C
      S.peers S.sessionLog env.acceptReading o.peer o.epoch o.nI).1 = .ok ()) :
    ∃ result S' envelope, S.handleAuthRequest env data = (.ok result, S') ∧
      result.peerIdentity = o.peer ∧ buildOkEnvelope result.responseBytes = .ok envelope := by
  have hkey : o.kStar.length = keyLen := by
    rw [h.kStar_eq]
    exact Credential.length_pairwiseRoot C _ lam
  obtain ⟨E, -, hanswer⟩ := h.handleAuthRequest_eq (Prod.ext hacc rfl)
  rw [respond_eq hbits hrange hkey] at hanswer
  obtain ⟨envelope, henvelope, -⟩ := buildOkEnvelope_of_printable
    (isPrintable_jsonDumps Separators.isPrintable_compact _)
  exact ⟨_, _, envelope, hanswer, rfl, henvelope⟩

section Response

variable {S S' : Server C} {env : ServerEnv} {result : AuthResult} {lamDevice : Lam} {e : UInt64}
  {nonce iv : Urandom} {cap : ℕ} {built : BuiltM1} {envelope : Bytes}

/-- What `hea_complete` makes of the answer of a server to the C device's own request. -/
lemma heaComplete_response (out : CallerBuffers)
    (hchars : ∀ c ∈ S.credential.identity.toList, 32 ≤ c.toNat ∧ c.toNat ≤ 126)
    (hlength : S.credential.identity.length ≤ 31) (hrole : S.credential.role = .server)
    (hbuilt : built = heaBuildM1 C (heaInit C (lamBlock lamDevice) (lamBlock S.credential.lam)
      (asciiBytes S.credential.identity) e) nonce iv cap) (hlen : built.len ≠ 0)
    (haccept : S.handleAuthRequest env built.out = (.ok result, S'))
    (hpeer : S.peers.get result.peerIdentity = some lamDevice)
    (henvelope : buildOkEnvelope result.responseBytes = .ok envelope) :
    heaComplete C built.device built.pending envelope out =
      if EndsLikeKey (asciiBytes S.credential.identity) then
        fail out .format (asciiBytes "malformed M2")
      else (0, { out with sessionKey := result.sessionKey }) := by
  obtain ⟨m, hbytes, hid, hiv, hct, htag, hverify⟩ :=
    response_of_accepted hrole hbuilt hlen haccept hpeer
  obtain ⟨-, hserverId, -⟩ := heaBuildM1_of_ne_zero hbuilt hlen
  rw [← hid] at hchars hlength hserverId ⊢
  rw [hbytes] at henvelope
  obtain ⟨hshort, hstring, hok, -⟩ := readTexts_envelope hchars hlength hiv hct.2 htag henvelope
  have hread := readM2_envelope hchars hlength hiv hct htag henvelope
    (congrArg Subtype.val hserverId)
  unfold heaComplete
  dsimp only
  rw [if_neg (not_le.mpr hshort), hstring, hok, if_neg (by decide), hread]
  split_ifs with hend
  · rfl
  · have hbind : (Except.ok ⟨asciiBytes m.serverId, m.gcmNonce, m.tag, m.ciphertext⟩ >>=
        verifyM2 C built.device built.pending) = .ok result.sessionKey := hverify _
    rw [hbind]

/-- The C device accepts the answer of a server to its own request, and derives the session key of
the server, exactly when the identity of the server does not end like a key. -/
theorem heaComplete_response_iff (out : CallerBuffers)
    (hchars : ∀ c ∈ S.credential.identity.toList, 32 ≤ c.toNat ∧ c.toNat ≤ 126)
    (hlength : S.credential.identity.length ≤ 31) (hrole : S.credential.role = .server)
    (hbuilt : built = heaBuildM1 C (heaInit C (lamBlock lamDevice) (lamBlock S.credential.lam)
      (asciiBytes S.credential.identity) e) nonce iv cap) (hlen : built.len ≠ 0)
    (haccept : S.handleAuthRequest env built.out = (.ok result, S'))
    (hpeer : S.peers.get result.peerIdentity = some lamDevice)
    (henvelope : buildOkEnvelope result.responseBytes = .ok envelope) :
    heaComplete C built.device built.pending envelope out =
        (0, { out with sessionKey := result.sessionKey }) ↔
      ¬ EndsLikeKey (asciiBytes S.credential.identity) := by
  rw [heaComplete_response out hchars hlength hrole hbuilt hlen haccept hpeer henvelope]
  split_ifs with hend
  · refine iff_of_false (fun h => ?_) (not_not.mpr hend)
    exact fail_ne_zero _ _ _ (congrArg Prod.fst h)
  · exact iff_of_true rfl hend

end Response

end Answers

/-! ## Two identities -/

/-- The characters of an identity, tested one after the other. -/
lemma printable_of_all {identity : String}
    (h : identity.toList.all (fun c => 32 ≤ c.toNat ∧ c.toNat ≤ 126) = true) :
    ∀ c ∈ identity.toList, 32 ≤ c.toNat ∧ c.toNat ≤ 126 :=
  fun c hc => of_decide_eq_true (List.all_eq_true.mp h c hc)

/-- A server with an identity, and the secrets of `serverA`. -/
def serverNamed (identity : String) : Server .plain :=
  { entity := { credential := { serverA with identity := identity } }, sessionLog := {},
    resolver := .linearScan {} }

/-- The first request of the device with the secret 1 to that server. -/
def requestTo (identity : String) : BuiltM1 :=
  heaBuildM1 .plain (heaInit .plain (lamBlock 1) (lamBlock 2) (asciiBytes identity) 0) .zeros .zeros
    512

/-- It is built from the identity and the secret of the server. -/
lemma requestTo_eq (identity : String) : requestTo identity =
    heaBuildM1 .plain (heaInit .plain (lamBlock 1)
      (lamBlock (serverNamed identity).credential.lam)
      (asciiBytes (serverNamed identity).credential.identity) 0) .zeros .zeros 512 := rfl

/-- The request was built. -/
lemma len_requestTo (identity : String) : (requestTo identity).len ≠ 0 := by
  rw [requestTo, len_heaBuildM1 (by decide)]
  decide

/-- The message of the request. -/
def messageOne : Message1 where
  pid := sha256Pid .plain (Lam.toBytes 1) 0
  gcmNonce := List.replicate 12 0
  ciphertext := sha256Pid .plain (Lam.toBytes 1) 0 ++ List.replicate 16 0 ++ putU64 0
  tag := toBytesBE 16 0

/-- The server answers the request, and the answer is sent. -/
lemma answered_requestTo (identity : String) : ∃ result S' envelope,
    (serverNamed identity).handleAuthRequest (.read 0 0) (requestTo identity).out =
        (.ok result, S') ∧
      (serverNamed identity).peers.get result.peerIdentity = some 1 ∧
      buildOkEnvelope result.responseBytes = .ok envelope := by
  obtain ⟨-, -, hout⟩ := heaBuildM1_of_ne_zero rfl (len_requestTo identity)
  obtain ⟨hpid, hnI, hepoch⟩ : _ ∧ _ ∧ _ := pending_heaBuildM1 (C := .plain)
    (heaInit .plain (lamBlock 1) (lamBlock 2) (asciiBytes identity) 0) .zeros .zeros 512
  have hmessage : (requestTo identity).out = messageOne.toBytes := by
    unfold requestTo
    rw [hout, hpid, hnI, hepoch]
    rfl
  have hkey := length_derivePairwiseRoot .plain 1 2
  have hres : (Resolver.resolve .plain serverA.peerSecrets {} 0 messageOne.pid (.linearScan {})).1 =
      .ok ("device-1", 0) := toOption_eq_some_iff.mp (by decide +kernel)
  have hopens : (serverNamed identity).Opens (.read 0 0) messageOne.toBytes
      ⟨messageOne.pid, "device-1", 0, List.replicate 16 0, derivePairwiseRoot .plain 1 2⟩
      messageOne 1
      messageOne.ciphertext := by
    refine ⟨Message1.fromBytes_toBytes _, hres, rfl, rfl, rfl, rfl, rfl, ?_, ?_, ?_, ?_⟩
    · exact aeadDecrypt_of_tag hkey List.length_replicate rfl
    · decide +kernel
    · decide +kernel
    · decide +kernel
  have hacc : ((Resolver.resolve .plain serverA.peerSecrets {} 0 messageOne.pid
      (.linearScan {})).2.accept .plain serverA.peerSecrets {} 0 "device-1" 0
        (List.replicate 16 0)).1 = .ok () := toOption_eq_some_iff.mp (by decide +kernel)
  obtain ⟨result, S', envelope, hanswer, hpeer, henvelope⟩ :=
    answered_of_opens hopens List.mem_cons_self (by decide) hacc
  rw [← hmessage] at hanswer
  exact ⟨result, S', envelope, hanswer, hpeer ▸ rfl, henvelope⟩

/-- The answer of `server-A` is accepted. -/
theorem heaComplete_response_iff_serverA : ∃ result S' envelope,
    (serverNamed "server-A").handleAuthRequest (.read 0 0) (requestTo "server-A").out =
        (.ok result, S') ∧
      buildOkEnvelope result.responseBytes = .ok envelope ∧
      heaComplete .plain (requestTo "server-A").device (requestTo "server-A").pending envelope
        ⟨[], [], 0⟩ = (0, ⟨result.sessionKey, [], 0⟩) := by
  obtain ⟨result, S', envelope, haccept, hpeer, henvelope⟩ := answered_requestTo "server-A"
  exact ⟨result, S', envelope, haccept, henvelope, (heaComplete_response_iff ⟨[], [], 0⟩
    (printable_of_all (by decide)) (by decide) rfl (requestTo_eq _) (len_requestTo _) haccept hpeer
    henvelope).mpr (by decide)⟩

/-- The answer of a server with the identity `nonce` is a malformed M2 for the C device. -/
theorem response_of_nonce_not_accepted : ∃ result S' envelope,
    (serverNamed "nonce").handleAuthRequest (.read 0 0) (requestTo "nonce").out =
        (.ok result, S') ∧
      (serverNamed "nonce").peers.get result.peerIdentity = some 1 ∧
      buildOkEnvelope result.responseBytes = .ok envelope ∧
      (heaComplete .plain (requestTo "nonce").device (requestTo "nonce").pending envelope
        ⟨[], [], 0⟩).1 = HeaError.format.code := by
  obtain ⟨result, S', envelope, haccept, hpeer, henvelope⟩ := answered_requestTo "nonce"
  refine ⟨result, S', envelope, haccept, hpeer, henvelope, ?_⟩
  rw [heaComplete_response ⟨[], [], 0⟩ (printable_of_all (by decide)) (by decide) rfl
    (requestTo_eq _)
    (len_requestTo _) haccept hpeer henvelope, if_pos (by decide)]
  rfl

end HybridEccAuth.HeaProto

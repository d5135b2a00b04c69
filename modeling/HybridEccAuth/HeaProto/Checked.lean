import HybridEccAuth.HeaProto.Device
import HybridEccAuth.Library.Buffer

/-!
# The C device with checked accesses

`hea_complete` once more, with its arrays as buffers of their sizes and every access
checked.  A pointer into a C string is what is left of the string, with its terminator;
to read behind that is a fault, and so is to use an array as a string that has no
terminator.  The arrays hold anything when the function is called (`Frame`).

Each function here is followed by the rule that relates it to its counterpart in
`HeaProto.Device`.
-/

namespace HybridEccAuth.HeaProto.Checked

open Buffer (Fault access Agrees read write readRange writeRange)

/-! ## Strings -/

/-- The C string in an array, with its terminator. -/
def stringAt (buf : Bytes) : Except Fault Bytes :=
  if 0 ∈ buf then .ok (cString buf ++ [0]) else .error .unterminated

/-- A string behind which anything may stand. -/
lemma stringAt_append {s : Bytes} (hs : 0 ∉ s) (rest : Bytes) :
    stringAt (s ++ 0 :: rest) = .ok (s ++ [0]) := by
  have hmem : 0 ∈ s ++ 0 :: rest := List.mem_append_right _ List.mem_cons_self
  have hstring : cString (s ++ 0 :: rest) = s := by
    rw [cString_append hs]
    simp [cString]
  rw [stringAt, if_pos hmem, hstring]

/-- The characters of a string before its terminator. -/
lemma cString_terminated {s : Bytes} (hs : 0 ∉ s) : cString (s ++ [0]) = s := by
  rw [cString_append hs]
  simp [cString]

/-- A terminated array holds a string. -/
lemma stringAt_of_mem {buf : Bytes} (h : 0 ∈ buf) : stringAt buf = .ok (cString buf ++ [0]) :=
  if_pos h

/-- The pointer behind the first occurrence of a pattern in a string. -/
def strstr (s pat : Bytes) : Option Bytes :=
  (Search.afterFirst pat (cString s)).map fun rest => rest ++ [0]

/-! ## Text fields -/

/-- The loop that skips what may stand between a key and its value. -/
def skipGap : Bytes → Except Fault Bytes
  | [] => .error .read
  | c :: p => if isGap c then skipGap p else .ok (c :: p)

/-- The copying loop: whether it ended at the closing quotation mark, and the buffer. -/
def copyValue (cap : ℕ) : Bytes → Bytes → ℕ → Except Fault (Bool × Bytes)
  | [], _, _ => .error .read
  | c :: p, out, o =>
    if c = 0 then .ok (false, out)
    else if c = 34 then do
      let out ← write out o 0
      return (true, out)
    else if c = 92 then
      match p with
      | [] => .error .read
      | e :: p =>
        match unescapeChar e with
        | none => .ok (false, out)
        | some c =>
          if cap ≤ o + 1 then .ok (false, out)
          else do
            let out ← write out o c
            copyValue cap p out (o + 1)
    else if cap ≤ o + 1 then .ok (false, out)
    else do
      let out ← write out o c
      copyValue cap p out (o + 1)

/-- The value after a key. -/
def readValue (p out : Bytes) (cap : ℕ) : Except Fault (Bool × Bytes) := do
  match ← skipGap p with
  | [] => .error .read
  | c :: p => if c = 34 then copyValue cap p out 0 else .ok (false, out)

/-- `json_str`: whether it returned `0`, and the buffer. -/
def jsonStr (js key out : Bytes) (cap : ℕ) : Except Fault (Bool × Bytes) :=
  match strstr js (searchPattern key) with
  | none => .ok (false, out)
  | some p => readValue p out cap

/-- What a call of `json_str` has written: the characters, and the terminator if it returned `0`. -/
def written (r : JsonStr) : Bytes := if r.ok then r.out ++ [0] else r.out

/-- The buffer after a call of `json_str`. -/
def overwritten (r : JsonStr) (out : Bytes) : Bytes := written r ++ out.drop (written r).length

/-- One more character in front. -/
lemma overwritten_cons (c b : UInt8) (r : JsonStr) (post : Bytes) :
    overwritten (r.cons c) (b :: post) = c :: overwritten r post := by
  by_cases h : r.ok = true <;> simp [overwritten, written, h]

/-- When nothing was written the buffer is as it was. -/
@[simp] lemma overwritten_failed (out : Bytes) : overwritten .failed out = out := rfl

/-- The copying loop stays inside of a buffer of the size it is given, and of a string. -/
lemma copyValue_eq {cap : ℕ} {s : Bytes} (hs : 0 ∉ s) (pre post : Bytes)
    (hcap : pre.length + post.length = cap) (hroom : pre.length < cap) :
    copyValue cap (s ++ [0]) (pre ++ post) pre.length =
      .ok ((HeaProto.copyValue cap pre.length s).ok,
        pre ++ overwritten (HeaProto.copyValue cap pre.length s) post) := by
  obtain ⟨b, post, rfl⟩ : ∃ b post', post = b :: post' :=
    List.exists_cons_of_length_pos (by omega)
  rw [List.length_cons] at hcap
  -- a character is put into the buffer, and the loop goes on behind it
  have hput : ∀ (c : UInt8) (p : Bytes), 0 ∉ p → p.length < s.length →
      (if cap ≤ pre.length + 1 then .ok (false, pre ++ b :: post) else do
        let out ← write (pre ++ b :: post) pre.length c
        copyValue cap (p ++ [0]) out (pre.length + 1)) =
      Except.ok ((putChar cap pre.length c (HeaProto.copyValue cap (pre.length + 1) p)).ok,
        pre ++ overwritten (putChar cap pre.length c
          (HeaProto.copyValue cap (pre.length + 1) p)) (b :: post)) := by
    intro c p hp hlt
    rw [putChar]
    split_ifs with hfull
    · rfl
    · have hcap' : (pre ++ [c]).length + post.length = cap := by
        rw [List.length_append, List.length_singleton]
        omega
      have hroom' : (pre ++ [c]).length < cap := by
        rw [List.length_append, List.length_singleton]
        omega
      have hnext := copyValue_eq hp (pre ++ [c]) post hcap' hroom'
      rw [List.length_append, List.length_singleton, List.append_assoc, List.append_assoc,
        List.singleton_append, List.singleton_append] at hnext
      rw [Buffer.write_append, overwritten_cons]
      exact hnext
  rcases s with _ | ⟨c, p⟩
  · rfl
  · rw [List.mem_cons, not_or] at hs
    by_cases h34 : c = 34
    · subst h34
      rw [copyValue_quote, List.cons_append, copyValue.eq_def]
      simp only [Buffer.write_append]
      rfl
    · by_cases h92 : c = 92
      · subst h92
        rcases p with _ | ⟨e, p⟩
        · rfl
        · rw [List.mem_cons, not_or] at hs
          rw [copyValue_escape, List.cons_append, List.cons_append, copyValue.eq_def]
          rcases he : unescapeChar e with _ | c
          · simp only [he]
            rfl
          · simp only [he]
            exact hput c p hs.2.2 (by simp only [List.length_cons]; omega)
      · rw [copyValue_char cap _ h34 h92, List.cons_append, copyValue.eq_def]
        simp only [if_neg (Ne.symm hs.1), if_neg h34, if_neg h92]
        exact hput c p hs.2 (by simp only [List.length_cons]; omega)
termination_by s.length

/-- The terminator ends a gap. -/
lemma skipGap_eq {s : Bytes} (hs : 0 ∉ s) :
    skipGap (s ++ [0]) = .ok (s.dropWhile isGap ++ [0]) := by
  induction s with
  | nil => rfl
  | cons c s ih =>
    rw [List.mem_cons, not_or] at hs
    rw [List.cons_append, skipGap, List.dropWhile_cons]
    split_ifs
    · exact ih hs.2
    · rfl

/-- Reading a value stays inside of the string and of the buffer. -/
lemma readValue_eq {s out : Bytes} (hs : 0 ∉ s) {cap : ℕ} (hcap : out.length = cap)
    (hpos : 0 < cap) : readValue (s ++ [0]) out cap =
      .ok ((HeaProto.readValue cap s).ok, overwritten (HeaProto.readValue cap s) out) := by
  have hsub : ∀ b ∈ s.dropWhile isGap, b ∈ s := fun b hb =>
    (List.dropWhile_suffix isGap).subset hb
  rw [readValue, skipGap_eq hs, HeaProto.readValue]
  rcases hdrop : s.dropWhile isGap with _ | ⟨c, p⟩
  · rfl
  · rw [hdrop] at hsub
    have hp : 0 ∉ p := fun h => hs (hsub 0 (List.mem_cons_of_mem c h))
    have hcopy := copyValue_eq hp [] out (by simpa using hcap) (by simpa using hpos)
    dsimp only [List.cons_append, bind, Except.bind]
    split_ifs
    · exact hcopy
    · rfl

/-- `json_str` stays inside of the string and of the buffer. -/
lemma jsonStr_eq {s out : Bytes} (hs : 0 ∉ s) (key : Bytes) {cap : ℕ} (hcap : out.length = cap)
    (hpos : 0 < cap) : jsonStr (s ++ [0]) key out cap =
      .ok ((HeaProto.jsonStr s key cap).ok, overwritten (HeaProto.jsonStr s key cap) out) := by
  rw [jsonStr, strstr, cString_terminated hs, HeaProto.jsonStr]
  rcases hfind : Search.afterFirst (searchPattern key) s with _ | rest
  · rfl
  · obtain ⟨before, rfl⟩ := Search.append_of_afterFirst hfind
    exact readValue_eq (fun h => hs (List.mem_append_right _ h)) hcap hpos

/-- What was read is a string in its buffer. -/
lemma stringAt_overwritten {r : JsonStr} (hok : r.ok = true) (h0 : 0 ∉ r.out) (out : Bytes) :
    stringAt (overwritten r out) = .ok (r.out ++ [0]) := by
  rw [overwritten, written, if_pos hok, List.append_assoc]
  exact stringAt_append h0 _

/-! ## Base64 -/

/-- The loop of `b64_decode` over `k` groups, with `o` bytes written: the decoded length, if the
result is not `-1`, and the buffer. -/
def b64DecodeLoop (cap : ℕ) : ℕ → Bytes → Bytes → ℕ → Except Fault (Option ℕ × Bytes)
  | 0, _, out, o => .ok (some o, out)
  | k + 1, p, out, o => do
    let a ← read p 0
    let b ← read p 1
    let c ← read p 2
    let d ← read p 3
    match b64Block a b c d with
    | none => return (none, out)
    | some bytes =>
      if cap < o + bytes.length then return (none, out)
      else
        let out ← writeRange out o bytes
        b64DecodeLoop cap k (p.drop 4) out (o + bytes.length)

/-- `b64_decode` of a string. -/
def b64Decode (s out : Bytes) (cap : ℕ) : Except Fault (Option ℕ × Bytes) :=
  let n := (cString s).length
  if n % 4 ≠ 0 then .ok (none, out) else b64DecodeLoop cap (n / 4) s out 0

/-- A round reads the four characters of its group. -/
lemma b64DecodeLoop_succ (cap k : ℕ) (a b c d : UInt8) (p out : Bytes) (o : ℕ) :
    b64DecodeLoop cap (k + 1) (a :: b :: c :: d :: p) out o =
      match b64Block a b c d with
      | none => .ok (none, out)
      | some bytes =>
        if cap < o + bytes.length then .ok (none, out)
        else writeRange out o bytes >>= fun out => b64DecodeLoop cap k p out (o + bytes.length) :=
  rfl

/-- The loop stays inside of the string and of the buffer, and leaves the decoded bytes in it. -/
lemma b64DecodeLoop_eq {cap k : ℕ} {s : Bytes} (hk : s.length = 4 * k) (pre post : Bytes)
    (hcap : pre.length + post.length = cap) (tail : Bytes) :
    ∃ out, out.length = cap ∧
      b64DecodeLoop cap k (s ++ tail) (pre ++ post) pre.length =
        .ok ((HeaProto.b64DecodeLoop cap pre.length s).map fun bytes => pre.length + bytes.length,
          out) ∧
      ∀ bytes, HeaProto.b64DecodeLoop cap pre.length s = some bytes →
        out = pre ++ bytes ++ post.drop bytes.length := by
  induction k generalizing s pre post with
  | zero =>
    obtain rfl := List.length_eq_zero_iff.mp hk
    refine ⟨pre ++ post, by rw [List.length_append]; exact hcap, rfl, ?_⟩
    rintro bytes hbytes
    obtain rfl : [] = bytes := Option.some.inj hbytes
    simp
  | succ k ih =>
    obtain ⟨a, b, c, d, rest, rfl⟩ : ∃ a b c d rest, s = a :: b :: c :: d :: rest := by
      rcases s with _ | ⟨a, _ | ⟨b, _ | ⟨c, _ | ⟨d, rest⟩⟩⟩⟩
      · simp at hk
      · simp only [List.length_cons, List.length_nil] at hk
        omega
      · simp only [List.length_cons, List.length_nil] at hk
        omega
      · simp only [List.length_cons, List.length_nil] at hk
        omega
      · exact ⟨a, b, c, d, rest, rfl⟩
    have hrest : rest.length = 4 * k := by
      simp only [List.length_cons] at hk
      omega
    have hsame : (pre ++ post).length = cap := by rw [List.length_append]; exact hcap
    simp only [List.cons_append, b64DecodeLoop_succ, HeaProto.b64DecodeLoop]
    rcases b64Block a b c d with _ | bytes
    · exact ⟨pre ++ post, hsame, rfl, fun _ h => by cases h⟩
    · by_cases hfull : cap < pre.length + bytes.length
      · simp only [if_pos hfull]
        exact ⟨pre ++ post, hsame, rfl, fun _ h => by cases h⟩
      · simp only [if_neg hfull]
        have hfits : bytes.length ≤ post.length := by omega
        have hlen : (pre ++ bytes).length = pre.length + bytes.length := List.length_append
        obtain ⟨out, hout, hrun, hspec⟩ := ih hrest (pre ++ bytes) (post.drop bytes.length)
          (by rw [hlen, List.length_drop]; omega)
        rw [hlen] at hrun hspec
        rw [Buffer.writeRange_eq, if_pos hfits]
        refine ⟨out, hout, ?_, ?_⟩
        · apply hrun.trans
          rw [Option.map_map]
          congr 3
          funext more
          simp [Nat.add_assoc]
        · intro all hall
          obtain ⟨more, hmore, rfl⟩ := Option.map_eq_some_iff.mp hall
          rw [hspec more hmore, List.drop_drop, List.length_append]
          simp

/-- `b64_decode` stays inside of the string and of the buffer, and leaves the decoded bytes in
it. -/
lemma b64Decode_eq {s out : Bytes} (hs : 0 ∉ s) {cap : ℕ} (hcap : out.length = cap) :
    ∃ out', out'.length = cap ∧
      b64Decode (s ++ [0]) out cap = .ok ((HeaProto.b64Decode cap s).map List.length, out') ∧
      ∀ bytes, HeaProto.b64Decode cap s = some bytes → out' = bytes ++ out.drop bytes.length := by
  rw [b64Decode, cString_terminated hs, HeaProto.b64Decode]
  split_ifs with hmod
  · exact ⟨out, hcap, rfl, fun _ h => by cases h⟩
  · obtain ⟨out', hout, hrun, hspec⟩ := b64DecodeLoop_eq (by omega : s.length = 4 * (s.length / 4))
      [] out (by simpa using hcap) [0]
    refine ⟨out', hout, hrun.trans ?_, fun bytes hbytes => hspec bytes hbytes⟩
    simp only [List.length_nil, Nat.zero_add]

/-! ## The whole function -/

/-- The arrays of `hea_complete`, with whatever they hold when it is called. -/
structure Frame where
  env : Block 1024
  payload : Block 640
  sid : Block 32
  bIv : Block 24
  bCt : Block 96
  bTag : Block 32
  iv : Block 12
  tag : Block 16
  ct : Block 64
  computed : Block 16
  aad : Block 48
  ikm : Block 104

/-- The arrays as they are before the first call. -/
def Frame.zeros : Frame :=
  let block (n : ℕ) : Block n := ⟨List.replicate n 0, length_zeros n⟩
  { env := block 1024, payload := block 640, sid := block 32, bIv := block 24, bCt := block 96,
    bTag := block 32, iv := block 12, tag := block 16, ct := block 64, computed := block 16,
    aad := block 48, ikm := block 104 }

/-- A computation that may return an error code, or be a fault. -/
abbrev Run (α : Type) := Buffer.Run (HeaError × String) α

/-- A call of `json_str`, which must return `0`: the buffer. -/
def field (js : Bytes) (key : String) (out : Bytes) (cap : ℕ) (msg : String) : Run Bytes := do
  let (ok, out) ← access (jsonStr js (asciiBytes key) out cap)
  if ok then return out else throw (.format, msg)

/-- A call of `b64_decode` of an array, whose result must pass a test: the result and the buffer. -/
def decoded (buf out : Bytes) (cap : ℕ) (test : ℕ → Bool) (msg : String) : Run (ℕ × Bytes) := do
  let s ← access (stringAt buf)
  match ← access (b64Decode s out cap) with
  | (some n, out) => if test n then return (n, out) else throw (.format, msg)
  | (none, _) => throw (.format, msg)

/-- The arrays `sid`, `b_iv`, `b_ct` and `b_tag` after the calls of `json_str`. -/
def readTexts (f : Frame) (js : Bytes) : Run (Bytes × Bytes × Bytes × Bytes) := do
  let payload ← field js "payload" f.payload.val 640 "no payload"
  let payload ← access (stringAt payload)
  let sid ← field payload "sid" f.sid.val 32 "malformed M2"
  let bIv ← field payload "nonce" f.bIv.val 24 "malformed M2"
  let bCt ← field payload "ct" f.bCt.val 96 "malformed M2"
  let bTag ← field payload "tag" f.bTag.val 32 "malformed M2"
  return (sid, bIv, bCt, bTag)

/-- The arrays `iv`, `tag` and `ct` after the calls of `b64_decode`, and `ctl`. -/
def readBinary (f : Frame) (bIv bCt bTag : Bytes) : Run (Bytes × Bytes × Bytes × ℕ) := do
  let (_, iv) ← decoded bIv f.iv.val 12 (· = 12) "bad nonce/tag length"
  let (_, tag) ← decoded bTag f.tag.val 16 (· = 16) "bad nonce/tag length"
  let (ctl, ct) ← decoded bCt f.ct.val 64 (9 ≤ ·) "bad ciphertext length"
  return (iv, tag, ct, ctl)

/-- The parts of M2, which must name the server of the device. -/
def readM2 (f : Frame) (d : HeaDevice) (js : Bytes) : Run (Bytes × Bytes × Bytes × ℕ) := do
  let (sid, bIv, bCt, bTag) ← readTexts f js
  let sid ← access (stringAt sid)
  let serverId ← access (stringAt d.serverId.val)
  if sid ≠ serverId then throw (.format, "M2 from unexpected server id")
  else readBinary f bIv bCt bTag

/-- The input of the last `hkdf32`, of which `ct` holds `njLen` bytes. -/
def keyInput (f : Frame) (d : HeaDevice) (p : HeaPending) (ct : Bytes) (njLen : ℕ) :
    Except Fault Bytes := do
  let ikm ← writeRange f.ikm.val 0 d.kStar.val
  let ikm ← writeRange ikm 32 p.nI.val
  let nJ ← readRange ct 0 njLen
  let ikm ← writeRange ikm (32 + 16) nJ
  let ikm ← writeRange ikm (32 + 16 + njLen) (putU64 p.epoch)
  readRange ikm 0 (32 + 16 + njLen + 8)

/-- Decrypts M2 in place, checks its tag and its epoch, and derives the session key. -/
def verifyM2 (C : Crypto) (f : Frame) (d : HeaDevice) (p : HeaPending)
    (iv tag ct : Bytes) (ctl : ℕ) :
    Run Bytes := do
  let aad ← access (writeRange f.aad.val 0 p.pid.val)
  let aad ← access (writeRange aad 32 p.nI.val)
  let ivData ← access (readRange iv 0 12)
  let aadData ← access (readRange aad 0 48)
  let data ← access (readRange ct 0 ctl)
  let (pt, computed) := gcmRun C d.kStar.val ivData aadData data false
  let ct ← access (writeRange ct 0 pt)
  let computed ← access (writeRange f.computed.val 0 computed)
  let computedData ← access (readRange computed 0 16)
  let tagData ← access (readRange tag 0 16)
  if tagDiff computedData tagData ≠ 0 then throw (.integrity, "M2 tag mismatch (sigma_2)")
  else
    let njLen := ctl - 8
    let epoch ← access (readRange ct njLen 8)
    if getU64 epoch ≠ p.epoch then throw (.epoch, "M2 epoch mismatch")
    else if 64 < njLen then throw (.format, "N_j too long")
    else
      let ikm ← access (keyInput f d p ct njLen)
      return hkdf32 C ikm infoSession

/-- The texts of a rejection, which `json_str` reads into arrays that hold `?`. -/
def rejection (js : Bytes) (out : CallerBuffers) : Except Fault (ℤ × CallerBuffers) := do
  let (_, et) ← jsonStr js (asciiBytes "error_type") (asciiBytes "?" ++ List.replicate 47 0) 48
  let (_, msg) ← jsonStr js (asciiBytes "message") (asciiBytes "?" ++ List.replicate 127 0) 128
  if out.errCap = 0 then return (HeaError.rejected.code, out)
  else
    let et ← stringAt et
    let msg ← stringAt msg
    return fail out .rejected (cString et ++ asciiBytes ": " ++ cString msg)

/-- `hea_complete`. -/
def heaComplete (C : Crypto) (f : Frame) (d : HeaDevice) (p : HeaPending) (envelope : Bytes)
    (out : CallerBuffers) : Except Fault (ℤ × CallerBuffers) :=
  if 1024 ≤ envelope.length then .ok (fail out .format (asciiBytes "envelope too large"))
  else do
    let env ← writeRange f.env.val 0 envelope
    let env ← write env envelope.length 0
    let js ← stringAt env
    if saysOk (cString js) = false then rejection js out
    else
      match ← (do
          let (iv, tag, ct, ctl) ← readM2 f d js
          verifyM2 C f d p iv tag ct ctl : Run Bytes).run with
      | .error (e, msg) => return fail out e (asciiBytes msg)
      | .ok key => return (0, { out with sessionKey := key })

/-! ## The parts agree -/

/-- An array holds a text. -/
def Holds (buf s : Bytes) : Prop := 0 ∉ s ∧ stringAt buf = .ok (s ++ [0])

/-- A call of `json_str` that must return `0` leaves the text in the array. -/
lemma field_agrees {s out : Bytes} (hs : 0 ∉ s) (key : String) {cap : ℕ} (hcap : out.length = cap)
    (hpos : 0 < cap) (msg : String) :
    Agrees Holds (field (s ++ [0]) key out cap msg)
      (orFail (HeaProto.jsonStr s (asciiBytes key) cap).value msg) := by
  have h0 := not_mem_jsonStr hs (asciiBytes key) cap
  rw [field, Buffer.access_bind (jsonStr_eq hs (asciiBytes key) hcap hpos), JsonStr.value]
  by_cases hok : (HeaProto.jsonStr s (asciiBytes key) cap).ok = true
  · simp only [if_pos hok]
    exact .pure ⟨h0, stringAt_overwritten hok h0 out⟩
  · simp only [if_neg hok]
    exact .throw _ _

/-- A call of `b64_decode` leaves the bytes in the array. -/
lemma decoded_agrees {buf s out : Bytes} (hs : Holds buf s) {cap : ℕ} (hcap : out.length = cap)
    (test : ℕ → Bool) (msg : String) :
    Agrees (fun r bytes => r.1 = bytes.length ∧ r.2 = bytes ++ out.drop bytes.length)
      (decoded buf out cap test msg)
      (orFail ((HeaProto.b64Decode cap s).filter fun bytes => test bytes.length) msg) := by
  obtain ⟨out', -, hrun, hspec⟩ := b64Decode_eq hs.1 hcap
  rw [decoded, Buffer.access_bind hs.2, Buffer.access_bind hrun]
  rcases hdec : HeaProto.b64Decode cap s with _ | bytes
  · exact .throw _ _
  · dsimp only [Option.map_some]
    by_cases htest : test bytes.length = true
    · rw [if_pos htest, Option.filter_some, if_pos htest]
      exact .pure ⟨rfl, hspec bytes hdec⟩
    · rw [if_neg htest, Option.filter_some, if_neg htest]
      exact .throw _ _

/-- The four text fields are in their arrays. -/
lemma readTexts_agrees (f : Frame) {env : Bytes} (henv : 0 ∉ env) :
    Agrees (fun r t => Holds r.1 t.1 ∧ Holds r.2.1 t.2.1 ∧ Holds r.2.2.1 t.2.2.1 ∧
      Holds r.2.2.2 t.2.2.2) (readTexts f (env ++ [0])) (HeaProto.readTexts env) := by
  apply (field_agrees henv "payload" f.payload.2 (by decide) _).bind
  intro bPayload payload _ h
  rw [Buffer.access_bind h.2]
  apply (field_agrees h.1 "sid" f.sid.2 (by decide) _).bind
  intro bSid sid _ hsid
  apply (field_agrees h.1 "nonce" f.bIv.2 (by decide) _).bind
  intro bIv iv _ hiv
  apply (field_agrees h.1 "ct" f.bCt.2 (by decide) _).bind
  intro bCt ct _ hct
  apply (field_agrees h.1 "tag" f.bTag.2 (by decide) _).bind
  intro bTag tag _ htag
  exact .pure ⟨hsid, hiv, hct, htag⟩

/-- The arrays `iv`, `tag` and `ct`, and `ctl`, when the binary fields were read. -/
def arrays (f : Frame) (m : M2Fields) : Bytes × Bytes × Bytes × ℕ :=
  (m.iv, m.tag, m.ct ++ f.ct.val.drop m.ct.length, m.ct.length)

/-- The binary fields are in their arrays. -/
lemma readBinary_agrees (f : Frame) (sid : Bytes) {bIv bCt bTag iv ct tag : Bytes}
    (hiv : Holds bIv iv) (hct : Holds bCt ct) (htag : Holds bTag tag) :
    Agrees (fun r m => r = arrays f m) (readBinary f bIv bCt bTag)
      (HeaProto.readBinary sid iv ct tag) := by
  -- an array that is as long as what was decoded holds nothing else
  have hfull : ∀ {cap : ℕ} {out bytes out' : Bytes}, out.length = cap → bytes.length = cap →
      out' = bytes ++ out.drop bytes.length → out' = bytes := by
    rintro cap out bytes out' hout hbytes rfl
    rw [hbytes, ← hout, List.drop_length, List.append_nil]
  apply (decoded_agrees hiv f.iv.2 (· = 12) _).bind
  rintro ⟨-, ivArray⟩ ivBytes hokIv ⟨-, rfl⟩
  apply (decoded_agrees htag f.tag.2 (· = 16) _).bind
  rintro ⟨-, tagArray⟩ tagBytes hokTag ⟨-, rfl⟩
  apply (decoded_agrees hct f.ct.2 (9 ≤ ·) _).bind
  rintro ⟨ctl, ctArray⟩ ctBytes - ⟨rfl, rfl⟩
  have hivLen : ivBytes.length = 12 := by
    simpa using (Option.filter_eq_some_iff.mp (orFail_eq_ok_iff.mp hokIv)).2
  have htagLen : tagBytes.length = 16 := by
    simpa using (Option.filter_eq_some_iff.mp (orFail_eq_ok_iff.mp hokTag)).2
  refine .pure ?_
  rw [hfull f.iv.2 hivLen rfl, hfull f.tag.2 htagLen rfl]
  rfl

/-- The fields of M2 are in their arrays. -/
lemma readM2_agrees (f : Frame) (d : HeaDevice) {env : Bytes} (henv : 0 ∉ env) :
    Agrees (fun r m => r = arrays f m) (readM2 f d (env ++ [0])) (HeaProto.readM2 d env) := by
  apply (readTexts_agrees f henv).bind
  rintro ⟨bSid, bIv, bCt, bTag⟩ ⟨sid, iv, ct, tag⟩ - ⟨hsid, hiv, hct, htag⟩
  have hname : sid ++ [0] ≠ cString d.serverId.val ++ [0] ↔ sid ≠ cString d.serverId.val := by
    rw [Ne, List.append_left_inj]
  dsimp only at hsid ⊢
  rw [Buffer.access_bind hsid.2, Buffer.access_bind (stringAt_of_mem d.terminated)]
  simp only [hname]
  split_ifs
  · exact .throw _ _
  · exact readBinary_agrees f sid hiv hct htag

/-! ## The last part -/

/-- The input of the last `hkdf32` fits into its array exactly when `N_j` has at most 48 bytes. -/
lemma keyInput_eq (f : Frame) (d : HeaDevice) (p : HeaPending) {ct : Bytes} {njLen : ℕ}
    (hct : njLen ≤ ct.length) : keyInput f d p ct njLen =
      if njLen ≤ 48 then .ok (d.kStar.val ++ p.nI.val ++ ct.take njLen ++ putU64 p.epoch)
      else .error .write := by
  have hikm : f.ikm.val.length = 104 := f.ikm.2
  have hkStar : d.kStar.val.length = 32 := d.kStar.2
  have hnI : p.nI.val.length = 16 := p.nI.2
  have hnj : (ct.take njLen).length = njLen := List.length_take_of_le hct
  have hepoch : (putU64 p.epoch).length = 8 := by rw [putU64_eq, length_toBytesBE]
  -- what is in front of `N_j`, and the 56 bytes behind it
  have hpre : (d.kStar.val ++ p.nI.val).length = 32 + 16 := by
    rw [List.length_append, hkStar, hnI]
  have hpost : ((f.ikm.val.drop d.kStar.val.length).drop p.nI.val.length).length = 56 := by
    rw [List.length_drop, List.length_drop, hikm, hkStar, hnI]
  have hwriteNonce := Buffer.writeRange_of_le hkStar
    (by rw [List.length_drop]; omega :
      p.nI.val.length ≤ (f.ikm.val.drop d.kStar.val.length).length)
  have hnjPre : (d.kStar.val ++ p.nI.val ++ ct.take njLen).length = 32 + 16 + njLen := by
    rw [List.length_append, hpre, hnj]
  unfold keyInput
  rw [Buffer.writeRange_zero (by omega)]
  dsimp only [bind, Except.bind]
  rw [hwriteNonce, Buffer.readRange_zero hct]
  dsimp only
  rcases Nat.lt_or_ge 56 njLen with hlong | hshort
  · rw [Buffer.writeRange_of_lt hpre (by omega), if_neg (by omega)]
  · have hpostNj := List.length_drop (i := njLen)
      (l := (f.ikm.val.drop d.kStar.val.length).drop p.nI.val.length)
    rw [hpost] at hpostNj
    rw [Buffer.writeRange_of_le hpre (by omega)]
    dsimp only
    rw [hnj]
    split_ifs with h48
    · rw [Buffer.writeRange_of_le hnjPre (by omega)]
      dsimp only
      rw [Buffer.readRange_zero (by simp only [List.length_append] at hnjPre ⊢; omega),
        List.take_append_of_le_length (by rw [List.length_append]; omega),
        List.take_of_length_le (by rw [List.length_append]; omega)]
    · rw [Buffer.writeRange_of_lt hnjPre (by omega)]

/-- An M2 that is verified and whose `N_j` does not fit into the input of the last `hkdf32`. -/
def Overruns (C : Crypto) (d : HeaDevice) (p : HeaPending) (m : M2Fields) : Prop :=
  C.gcmTag d.kStar.val m.iv (p.pid.val ++ p.nI.val) m.ct = m.tag ∧
    getU64 (lastBytes 8 (C.gcmCrypt d.kStar.val m.iv m.ct)) = p.epoch ∧ 56 < m.ct.length

instance (C : Crypto) (d : HeaDevice) (p : HeaPending) (m : M2Fields) :
    Decidable (Overruns C d p m) :=
  inferInstanceAs (Decidable (_ ∧ _ ∧ _))

/-- The last part of `hea_complete` with the fields of M2 in their arrays. -/
lemma verifyM2_eq (C : Crypto) (f : Frame) (d : HeaDevice) (p : HeaPending) {m : M2Fields}
    (hiv : m.iv.length = 12) (htag : m.tag.length = 16) (hct : 9 ≤ m.ct.length ∧ m.ct.length ≤ 64)
    (rest : Bytes) :
    (verifyM2 C f d p m.iv m.tag (m.ct ++ rest) m.ct.length).run =
      if Overruns C d p m then .error .write else .ok (HeaProto.verifyM2 C d p m) := by
  have hpid : p.pid.val.length = 32 := p.pid.2
  have hnI : p.nI.val.length = 16 := p.nI.2
  have haad : f.aad.val.length = 48 := f.aad.2
  have hcomputed : f.computed.val.length = 16 := f.computed.2
  have hpt := C.length_gcmCrypt d.kStar.val m.iv m.ct
  have htagLen := C.length_gcmTag d.kStar.val m.iv (p.pid.val ++ p.nI.val) m.ct
  have hdrop : (f.aad.val.drop p.pid.val.length).length = p.nI.val.length := by
    rw [List.length_drop]
    omega
  have hwriteNonce := Buffer.writeRange_of_le hpid hdrop.ge
  rw [← hdrop, List.drop_length, List.append_nil] at hwriteNonce
  have hreadAad : readRange (p.pid.val ++ p.nI.val) 0 48 = .ok (p.pid.val ++ p.nI.val) :=
    Buffer.readRange_all (by rw [List.length_append]; omega)
  have hreadCt : readRange (m.ct ++ rest) 0 m.ct.length = .ok m.ct := by
    rw [Buffer.readRange_zero (by rw [List.length_append]; omega), List.take_left']
    rfl
  have hwriteCt : writeRange (m.ct ++ rest) 0 (C.gcmCrypt d.kStar.val m.iv m.ct) =
      .ok (C.gcmCrypt d.kStar.val m.iv m.ct ++ rest) := by
    rw [Buffer.writeRange_zero (by rw [List.length_append]; omega), hpt, List.drop_left']
    rfl
  have hreadEpoch : readRange (C.gcmCrypt d.kStar.val m.iv m.ct ++ rest) (m.ct.length - 8) 8 =
      .ok ((C.gcmCrypt d.kStar.val m.iv m.ct).drop (m.ct.length - 8)) := by
    rw [Buffer.readRange_eq, if_pos (Or.inl (by rw [List.length_append]; omega)),
      List.drop_append_of_le_length (by omega),
      List.take_left' (by rw [List.length_drop]; omega)]
  unfold verifyM2
  rw [Buffer.access_bind (Buffer.writeRange_zero (by omega)), Buffer.access_bind hwriteNonce,
    Buffer.access_bind (Buffer.readRange_all hiv), Buffer.access_bind hreadAad,
    Buffer.access_bind hreadCt]
  simp only [gcmRun, Bool.false_eq_true, if_false]
  rw [Buffer.access_bind hwriteCt, Buffer.access_bind (Buffer.writeRange_all (by omega)),
    Buffer.access_bind (Buffer.readRange_all htagLen),
    Buffer.access_bind (Buffer.readRange_all htag)]
  have hdiff := tagDiff_eq_zero_iff (htagLen.trans htag.symm)
  have hlast : lastBytes 8 (C.gcmCrypt d.kStar.val m.iv m.ct) =
      (C.gcmCrypt d.kStar.val m.iv m.ct).drop (m.ct.length - 8) := by
    rw [lastBytes, hpt]
  unfold HeaProto.verifyM2
  simp only [gcmRun, Bool.false_eq_true, if_false, ne_eq, hdiff]
  by_cases htagOk : C.gcmTag d.kStar.val m.iv (p.pid.val ++ p.nI.val) m.ct = m.tag
  · simp only [if_neg (not_not.mpr htagOk)]
    rw [Buffer.access_bind hreadEpoch]
    by_cases hepoch : getU64 ((C.gcmCrypt d.kStar.val m.iv m.ct).drop (m.ct.length - 8)) = p.epoch
    · have hshort : ¬ 64 < m.ct.length - 8 := by omega
      have hnjLen : m.ct.length - 8 ≤ (C.gcmCrypt d.kStar.val m.iv m.ct ++ rest).length := by
        rw [List.length_append]
        omega
      have hkey := keyInput_eq f d p hnjLen
      rw [List.take_append_of_le_length (by omega)] at hkey
      simp only [if_neg (not_not.mpr hepoch), if_neg hshort]
      by_cases hlong : 56 < m.ct.length
      · have hover : Overruns C d p m := ⟨htagOk, hlast ▸ hepoch, hlong⟩
        rw [if_pos hover]
        rw [if_neg (by omega)] at hkey
        exact Buffer.access_bind_error hkey _
      · have hover : ¬ Overruns C d p m := fun h => hlong h.2.2
        rw [if_neg hover]
        rw [if_pos (by omega)] at hkey
        rw [Buffer.access_bind hkey]
        rfl
    · have hover : ¬ Overruns C d p m := fun h => hepoch (hlast ▸ h.2.1)
      simp only [if_pos hepoch, if_neg hover]
      rfl
  · have hover : ¬ Overruns C d p m := fun h => htagOk h.1
    simp only [if_pos htagOk, if_neg hover]
    rfl

/-! ## Rejections -/

/-- A text of a rejection is a string in its array, which held `?` before. -/
lemma jsonStr_rejection {env : Bytes} (henv : 0 ∉ env) (key : Bytes) {n : ℕ} (hn : 0 < n) :
    ∃ ok buf, jsonStr (env ++ [0]) key (asciiBytes "?" ++ List.replicate n 0) (n + 1) =
      .ok (ok, buf) ∧ Holds buf (rejectionText env key (n + 1)) := by
  have hcap : (asciiBytes "?" ++ List.replicate n (0 : UInt8)).length = n + 1 := by
    rw [List.length_append, List.length_replicate]
    exact Nat.add_comm 1 n
  have h0 := not_mem_jsonStr henv key (n + 1)
  have hlen := length_jsonStr env key (Nat.succ_pos n)
  refine ⟨_, _, jsonStr_eq henv key hcap (Nat.succ_pos n), ?_⟩
  rw [rejectionText]
  by_cases hok : (HeaProto.jsonStr env key (n + 1)).ok = true
  · simp only [hok]
    exact ⟨h0, stringAt_overwritten hok h0 _⟩
  · have hfailed : (HeaProto.jsonStr env key (n + 1)).ok = false := Bool.eq_false_of_not_eq_true hok
    have hmark : 0 ∉ asciiBytes "?" := by decide
    rw [overwritten, written, if_neg hok]
    rcases hout : (HeaProto.jsonStr env key (n + 1)).out with _ | ⟨c, out⟩
    -- nothing was written
    · obtain ⟨k, rfl⟩ := Nat.exists_eq_succ_of_ne_zero hn.ne'
      rw [if_pos ⟨hfailed, rfl⟩]
      exact ⟨hmark, stringAt_append hmark (List.replicate k 0)⟩
    -- the zeros behind what was written are still there
    · rw [hout] at h0 hlen
      obtain ⟨k, hk⟩ : ∃ k, n - out.length = k + 1 := by
        rw [List.length_cons] at hlen
        exact ⟨n - out.length - 1, by omega⟩
      have hdrop : (asciiBytes "?" ++ List.replicate n (0 : UInt8)).drop (c :: out).length =
          0 :: List.replicate k 0 := by
        rw [← List.replicate_succ, ← hk, ← List.drop_replicate]
        rfl
      rw [hdrop, if_neg (fun h => List.cons_ne_nil c out h.2)]
      exact ⟨h0, stringAt_append h0 _⟩

/-- A rejection is reported without a fault. -/
lemma rejection_eq {env : Bytes} (henv : 0 ∉ env) (out : CallerBuffers) :
    rejection (env ++ [0]) out = .ok (fail out .rejected
      (rejectionText env (asciiBytes "error_type") 48 ++ asciiBytes ": " ++
        rejectionText env (asciiBytes "message") 128)) := by
  obtain ⟨_, et, hetRun, het⟩ :=
    jsonStr_rejection henv (asciiBytes "error_type") (by decide : 0 < 47)
  obtain ⟨_, msg, hmsgRun, hmsg⟩ :=
    jsonStr_rejection henv (asciiBytes "message") (by decide : 0 < 127)
  rw [rejection, hetRun, hmsgRun]
  dsimp only [bind, Except.bind, pure, Except.pure]
  split_ifs with hcap
  · rw [fail, if_pos hcap]
  · rw [het.2, hmsg.2]
    dsimp only
    rw [cString_terminated het.1, cString_terminated hmsg.1]

/-! ## All of it -/

/-- Copying a text and its terminator into an array makes it a string there. -/
lemma stringAt_copied {buf s : Bytes} (h : s.length < buf.length) :
    ∃ out, (writeRange buf 0 s >>= fun buf => write buf s.length 0) = .ok out ∧
      stringAt out = .ok (cString s ++ [0]) := by
  have hrest : buf.drop s.length ≠ [] := by
    rw [Ne, List.drop_eq_nil_iff]
    omega
  obtain ⟨b, post, hpost⟩ := List.exists_cons_of_ne_nil hrest
  have hmem : 0 ∈ s ++ 0 :: post := List.mem_append_right _ List.mem_cons_self
  have hstring : cString (s ++ 0 :: post) = cString s := by
    by_cases h0 : 0 ∈ s
    · obtain ⟨before, after, rfl, hbefore⟩ := List.eq_append_cons_of_mem h0
      have hzero : ∀ rest, cString (before ++ 0 :: rest) = before := by
        intro rest
        rw [cString_append hbefore]
        simp [cString]
      rw [List.append_assoc, List.cons_append, hzero, hzero]
    · rw [cString_append h0, cString_of_not_mem h0]
      simp [cString]
  refine ⟨s ++ 0 :: post, ?_, ?_⟩
  · rw [Buffer.writeRange_zero h.le, hpost]
    exact Buffer.write_append s b post 0
  · rw [stringAt_of_mem hmem, hstring]

/-- Reading and verifying M2, once the envelope says that it is a success. -/
lemma run_eq (C : Crypto) (f : Frame) (d : HeaDevice) (p : HeaPending) {env : Bytes}
    (henv : 0 ∉ env) :
    (readM2 f d (env ++ [0]) >>= fun r => verifyM2 C f d p r.1 r.2.1 r.2.2.1 r.2.2.2 :
      Run Bytes).run =
      match HeaProto.readM2 d env with
      | .error e => .ok (.error e)
      | .ok m => if Overruns C d p m then .error .write else .ok (HeaProto.verifyM2 C d p m) := by
  have hagrees := readM2_agrees f d henv
  rw [ExceptT.run_bind]
  rcases hread : HeaProto.readM2 d env with e | m
  · rw [hread] at hagrees
    rw [show (readM2 f d (env ++ [0])).run = .ok (.error e) from hagrees]
    rfl
  · rw [hread] at hagrees
    obtain ⟨r, hrun, rfl⟩ := hagrees
    obtain ⟨hiv, htag, hct⟩ := length_of_readM2 hread
    rw [hrun]
    exact verifyM2_eq C f d p hiv htag hct _

/-- An envelope that makes `hea_complete` write behind its array `ikm`. -/
def Overflows (C : Crypto) (d : HeaDevice) (p : HeaPending) (envelope : Bytes) : Prop :=
  envelope.length < 1024 ∧ saysOk (cString envelope) = true ∧
    ∃ m, HeaProto.readM2 d (cString envelope) = .ok m ∧ Overruns C d p m

/-- `hea_complete` on an envelope that fits. -/
lemma heaComplete_of_lt (C : Crypto) (f : Frame) (d : HeaDevice) (p : HeaPending)
    {envelope : Bytes} (hlen : envelope.length < 1024) (out : CallerBuffers) :
    heaComplete C f d p envelope out =
      if saysOk (cString envelope) = false then
        .ok (fail out .rejected
          (rejectionText (cString envelope) (asciiBytes "error_type") 48 ++ asciiBytes ": " ++
            rejectionText (cString envelope) (asciiBytes "message") 128))
      else
        match HeaProto.readM2 d (cString envelope) with
        | .error e => .ok (fail out e.1 (asciiBytes e.2))
        | .ok m =>
          if Overruns C d p m then .error .write
          else match HeaProto.verifyM2 C d p m with
            | .error e => .ok (fail out e.1 (asciiBytes e.2))
            | .ok key => .ok (0, { out with sessionKey := key }) := by
  have henv := not_mem_cString envelope
  obtain ⟨js, hcopied, hstring⟩ := stringAt_copied (by rw [f.env.2]; exact hlen :
    envelope.length < f.env.val.length)
  rw [heaComplete, if_neg (not_le.mpr hlen), ← bind_assoc, hcopied]
  dsimp only [bind, Except.bind]
  rw [hstring]
  dsimp only
  rw [cString_terminated henv]
  split_ifs with hok
  · exact rejection_eq henv out
  · have hrun := run_eq C f d p henv
    dsimp only [bind] at hrun
    rw [hrun]
    rcases HeaProto.readM2 d (cString envelope) with e | m
    · rfl
    · dsimp only
      split_ifs
      · rfl
      · rcases HeaProto.verifyM2 C d p m with e | key
        · rfl
        · rfl

/-- Unless an envelope overflows `ikm`, `hea_complete` stays inside of its arrays and does what the
model without them does. -/
theorem heaComplete_eq (C : Crypto) (f : Frame) (d : HeaDevice) (p : HeaPending) {envelope : Bytes}
    (h : ¬ Overflows C d p envelope) (out : CallerBuffers) :
    heaComplete C f d p envelope out = .ok (HeaProto.heaComplete C d p envelope out) := by
  by_cases hlen : envelope.length < 1024
  · rw [heaComplete_of_lt C f d p hlen, HeaProto.heaComplete, if_neg (not_le.mpr hlen)]
    dsimp only
    split_ifs with hok
    · rfl
    · rcases hread : HeaProto.readM2 d (cString envelope) with e | m
      · rfl
      · have hfits : ¬ Overruns C d p m := fun hover =>
          h ⟨hlen, Bool.eq_true_of_not_eq_false hok, m, hread, hover⟩
        dsimp only [bind, Except.bind]
        rw [if_neg hfits]
        rcases HeaProto.verifyM2 C d p m with e | key
        · rfl
        · rfl
  · rw [heaComplete, HeaProto.heaComplete, if_pos (not_lt.mp hlen), if_pos (not_lt.mp hlen)]

/-- An envelope that overflows `ikm` makes `hea_complete` write outside of it. -/
theorem heaComplete_of_overflows (C : Crypto) (f : Frame) (d : HeaDevice) (p : HeaPending)
    {envelope : Bytes} (h : Overflows C d p envelope) (out : CallerBuffers) :
    heaComplete C f d p envelope out = .error .write := by
  obtain ⟨hlen, hok, m, hread, hover⟩ := h
  rw [heaComplete_of_lt C f d p hlen, if_neg (by simp [hok]), hread]
  exact if_pos hover

end HybridEccAuth.HeaProto.Checked

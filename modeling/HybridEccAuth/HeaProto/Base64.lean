import HybridEccAuth.Crypto.Primitives
import HybridEccAuth.Data.Base64

/-!
# Base64 of the C device

`b64_encode` and `b64_decode` of `hea_proto.c`, on the bytes of a C string without its
terminator.  The encoder writes what the encoder of the server writes
(`b64Encode_eq_b64encode`).  The decoder is stricter than that of the server in one way
and laxer in another: it takes no characters outside of the alphabet, but padding at
the end of every group of four.  What was encoded is decoded when the output buffer has
room for it, and refused otherwise; the number of bytes is returned as an `int`
(`b64_round_trip`).
-/

namespace HybridEccAuth.HeaProto

/-- The table `B64`. -/
def b64Table : Bytes :=
  asciiBytes "ABCDEFGHIJKLMNOPQRSTUVWXYZabcdefghijklmnopqrstuvwxyz0123456789+/"

/-- An entry of the table. -/
def b64At (v : ℕ) : UInt8 := b64Table.getD (v &&& 63) 0

/-- The group of four characters of up to three bytes; a byte that is not there is `none`. -/
def b64Group (a : UInt8) (b c : Option UInt8) : Bytes :=
  let v := a.toNat <<< 16 ||| b.elim 0 UInt8.toNat <<< 8 ||| c.elim 0 UInt8.toNat
  [b64At (v >>> 18), b64At (v >>> 12), if b.isSome then b64At (v >>> 6) else b64Pad,
    if c.isSome then b64At v else b64Pad]

/-- `b64_encode`. -/
def b64Encode : Bytes → Bytes
  | [] => []
  | [a] => b64Group a none none
  | [a, b] => b64Group a (some b) none
  | a :: b :: c :: rest => b64Group a (some b) (some c) ++ b64Encode rest

/-- `b64_val`: the value of a character, or `-1`. -/
def b64Val (c : UInt8) : ℤ :=
  if 65 ≤ c.toNat ∧ c.toNat ≤ 90 then c.toNat - 65
  else if 97 ≤ c.toNat ∧ c.toNat ≤ 122 then c.toNat - 97 + 26
  else if 48 ≤ c.toNat ∧ c.toNat ≤ 57 then c.toNat - 48 + 52
  else if c.toNat = 43 then 62
  else if c.toNat = 47 then 63
  else -1

/-- The value of one of the last two characters of a group, where padding counts as zero. -/
def b64PadVal (c : UInt8) : ℤ := if c = b64Pad then 0 else b64Val c

/-- The three bytes of four six-bit values. -/
def b64Triple (a b c d : ℕ) : Bytes :=
  let v := a <<< 18 ||| b <<< 12 ||| c <<< 6 ||| d
  [UInt8.ofNat (v >>> 16 &&& 0xff), UInt8.ofNat (v >>> 8 &&& 0xff), UInt8.ofNat (v &&& 0xff)]

/-- The number of bytes that a group ending in these two characters stands for. -/
def b64Count (c d : UInt8) : ℕ := 3 - (if c = b64Pad then 1 else 0) - (if d = b64Pad then 1 else 0)

/-- The bytes of a group of four characters. -/
def b64Block (a b c d : UInt8) : Option Bytes :=
  if b64Val a < 0 ∨ b64Val b < 0 ∨ b64PadVal c < 0 ∨ b64PadVal d < 0 then none
  else some ((b64Triple (b64Val a).toNat (b64Val b).toNat (b64PadVal c).toNat
    (b64PadVal d).toNat).take (b64Count c d))

/-- The loop of `b64_decode`, with `o` bytes written into an output buffer of `cap` bytes. -/
def b64DecodeLoop (cap o : ℕ) : Bytes → Option Bytes
  | [] => some []
  | a :: b :: c :: d :: rest =>
    match b64Block a b c d with
    | none => none
    | some bytes =>
      if cap < o + bytes.length then none
      else (b64DecodeLoop cap (o + bytes.length) rest).map (bytes ++ ·)
  | _ => none

/-- `b64_decode` into a buffer of `cap` bytes; the result `-1` is `none`. -/
def b64Decode (cap : ℕ) (s : Bytes) : Option Bytes :=
  if s.length % 4 ≠ 0 then none else b64DecodeLoop cap 0 s

/-- What `b64_decode` returns: the number of bytes as an `int` of 32 bits, or `-1`. -/
def b64DecodeReturn (cap : ℕ) (s : Bytes) : ℤ :=
  match b64Decode cap s with
  | none => -1
  | some bytes => Int.bmod bytes.length (2 ^ 32)

/-! ## Encoding -/

/-- The table is the alphabet. -/
lemma b64At_eq_b64Char (v : ℕ) : b64At v = b64Char (v % 64) := by
  have htable : ∀ w < 64, b64Table.getD w 0 = b64Char w := by decide +kernel
  have hmask : v &&& 63 = v % 64 := Nat.and_two_pow_sub_one_eq_mod v 6
  rw [b64At, hmask]
  exact htable _ (Nat.mod_lt _ (by decide))

/-- The bits of three bytes, put together. -/
lemma b64_or {a b c : ℕ} (hb : b < 256) (hc : c < 256) :
    a <<< 16 ||| b <<< 8 ||| c = a * 65536 + b * 256 + c := by
  have hbc : b <<< 8 ||| c = b * 256 + c := by
    rw [← Nat.shiftLeft_add_eq_or_of_lt (by omega), Nat.shiftLeft_eq]
  rw [Nat.or_assoc, hbc, ← Nat.shiftLeft_add_eq_or_of_lt (by omega), Nat.shiftLeft_eq]
  omega

/-- The four characters of a group. -/
lemma b64Group_eq (a : UInt8) (b c : Option UInt8) : b64Group a b c =
    [b64Char (a.toNat / 4), b64Char (a.toNat % 4 * 16 + b.elim 0 UInt8.toNat / 16),
      if b.isSome then b64Char (b.elim 0 UInt8.toNat % 16 * 4 + c.elim 0 UInt8.toNat / 64)
        else b64Pad,
      if c.isSome then b64Char (c.elim 0 UInt8.toNat % 64) else b64Pad] := by
  have hbyte : ∀ x : Option UInt8, x.elim 0 UInt8.toNat < 256 := by
    rintro (_ | x)
    · decide
    · exact x.toNat_lt
  have ha := a.toNat_lt
  have hb := hbyte b
  have hc := hbyte c
  simp only [b64Group, b64_or hb hc, b64At_eq_b64Char, Nat.shiftRight_eq_div_pow]
  generalize b.elim 0 UInt8.toNat = vb at *
  generalize c.elim 0 UInt8.toNat = vc at *
  have h1 : (a.toNat * 65536 + vb * 256 + vc) / 2 ^ 18 % 64 = a.toNat / 4 := by omega
  have h2 : (a.toNat * 65536 + vb * 256 + vc) / 2 ^ 12 % 64 = a.toNat % 4 * 16 + vb / 16 := by
    omega
  have h3 : (a.toNat * 65536 + vb * 256 + vc) / 2 ^ 6 % 64 = vb % 16 * 4 + vc / 64 := by omega
  have h4 : (a.toNat * 65536 + vb * 256 + vc) % 64 = vc % 64 := by omega
  rw [h1, h2, h3, h4]

/-- The C encoder and the encoder of the server write the same text. -/
theorem b64Encode_eq_b64encode (x : Bytes) : b64Encode x = b64encode x := by
  induction x using b64encode.induct with
  | case1 => rfl
  | case2 a => simp [b64Encode, b64Group_eq, b64encode]
  | case3 a b => simp [b64Encode, b64Group_eq, b64encode]
  | case4 a b c rest ih => simp [b64Encode, b64Group_eq, b64encode, ih]

/-! ## Decoding -/

/-- A character of the alphabet stands for the value it was written for. -/
lemma b64Val_b64Char {v : ℕ} (hv : v < 64) : b64Val (b64Char v) = v := by
  revert v
  decide

/-- Also among the last two characters of a group. -/
lemma b64PadVal_b64Char {v : ℕ} (hv : v < 64) : b64PadVal (b64Char v) = v := by
  rw [b64PadVal, if_neg (b64Char_ne_b64Pad hv), b64Val_b64Char hv]

/-- The three bytes of four values of six bits. -/
lemma b64Triple_eq {a b c d : ℕ} (ha : a < 64) (hb : b < 64) (hc : c < 64) (hd : d < 64) :
    b64Triple a b c d =
      [UInt8.ofNat (a * 4 + b / 16), UInt8.ofNat (b % 16 * 16 + c / 4),
        UInt8.ofNat (c % 4 * 64 + d)] := by
  have hcd : c <<< 6 ||| d = c * 64 + d := by
    rw [← Nat.shiftLeft_add_eq_or_of_lt (by omega), Nat.shiftLeft_eq]
  have hbcd : b <<< 12 ||| (c * 64 + d) = b * 4096 + (c * 64 + d) := by
    rw [← Nat.shiftLeft_add_eq_or_of_lt (by omega), Nat.shiftLeft_eq]
  have hv : a <<< 18 ||| b <<< 12 ||| c <<< 6 ||| d = a * 262144 + b * 4096 + c * 64 + d := by
    rw [Nat.or_assoc, Nat.or_assoc, hcd, hbcd, ← Nat.shiftLeft_add_eq_or_of_lt (by omega),
      Nat.shiftLeft_eq]
    omega
  have hmask : ∀ n : ℕ, n &&& 0xff = n % 256 := fun n => Nat.and_two_pow_sub_one_eq_mod n 8
  simp only [b64Triple, hv, hmask, Nat.shiftRight_eq_div_pow]
  congr 1
  · congr 1
    omega
  · congr 1
    · congr 1
      omega
    · congr 2
      omega

/-- A group of four characters of the alphabet. -/
lemma b64Block_chars {a b c d : ℕ} (ha : a < 64) (hb : b < 64) (hc : c < 64) (hd : d < 64) :
    b64Block (b64Char a) (b64Char b) (b64Char c) (b64Char d) =
      some [UInt8.ofNat (a * 4 + b / 16), UInt8.ofNat (b % 16 * 16 + c / 4),
        UInt8.ofNat (c % 4 * 64 + d)] := by
  simp [b64Block, b64Val_b64Char, b64PadVal_b64Char, ha, hb, hc, hd, b64Count,
    b64Char_ne_b64Pad, b64Triple_eq]

/-- A group with one padding character. -/
lemma b64Block_one_pad {a b c : ℕ} (ha : a < 64) (hb : b < 64) (hc : c < 64) :
    b64Block (b64Char a) (b64Char b) (b64Char c) b64Pad =
      some [UInt8.ofNat (a * 4 + b / 16), UInt8.ofNat (b % 16 * 16 + c / 4)] := by
  have hpad : b64PadVal b64Pad = 0 := rfl
  simp [b64Block, b64Val_b64Char, b64PadVal_b64Char, ha, hb, hc, hpad, b64Count,
    b64Char_ne_b64Pad, b64Triple_eq]

/-- A group with two padding characters. -/
lemma b64Block_two_pads {a b : ℕ} (ha : a < 64) (hb : b < 64) :
    b64Block (b64Char a) (b64Char b) b64Pad b64Pad = some [UInt8.ofNat (a * 4 + b / 16)] := by
  have hpad : b64PadVal b64Pad = 0 := rfl
  simp [b64Block, b64Val_b64Char, ha, hb, hpad, b64Count, b64Triple_eq]

/-- What was encoded is decoded when there is room for it. -/
lemma b64DecodeLoop_b64encode (cap : ℕ) (x : Bytes) (o : ℕ) (h : o + x.length ≤ cap) :
    b64DecodeLoop cap o (b64encode x) = some x := by
  induction x using b64encode.induct generalizing o with
  | case1 => rfl
  | case2 a =>
    have ha := a.toNat_lt
    have h1 : UInt8.ofNat (a.toNat / 4 * 4 + a.toNat % 4 * 16 / 16) = a :=
      ofNat_eq_of_eq_toNat (by omega)
    rw [b64encode, b64DecodeLoop, b64Block_two_pads (by omega) (by omega), h1]
    have hcap : ¬ cap < o + 1 := by simpa using h
    simp [hcap, b64DecodeLoop]
  | case3 a b =>
    have ha := a.toNat_lt
    have hb := b.toNat_lt
    have h1 : UInt8.ofNat (a.toNat / 4 * 4 + (a.toNat % 4 * 16 + b.toNat / 16) / 16) = a :=
      ofNat_eq_of_eq_toNat (by omega)
    have h2 : UInt8.ofNat
        ((a.toNat % 4 * 16 + b.toNat / 16) % 16 * 16 + b.toNat % 16 * 4 / 4) = b :=
      ofNat_eq_of_eq_toNat (by omega)
    rw [b64encode, b64DecodeLoop, b64Block_one_pad (by omega) (by omega) (by omega), h1, h2]
    have hcap : ¬ cap < o + 2 := by simpa using h
    simp [hcap, b64DecodeLoop]
  | case4 a b c rest ih =>
    have ha := a.toNat_lt
    have hb := b.toNat_lt
    have hc := c.toNat_lt
    have h1 : UInt8.ofNat (a.toNat / 4 * 4 + (a.toNat % 4 * 16 + b.toNat / 16) / 16) = a :=
      ofNat_eq_of_eq_toNat (by omega)
    have h2 : UInt8.ofNat ((a.toNat % 4 * 16 + b.toNat / 16) % 16 * 16 +
        (b.toNat % 16 * 4 + c.toNat / 64) / 4) = b :=
      ofNat_eq_of_eq_toNat (by omega)
    have h3 : UInt8.ofNat ((b.toNat % 16 * 4 + c.toNat / 64) % 4 * 64 + c.toNat % 64) = c :=
      ofNat_eq_of_eq_toNat (by omega)
    simp only [List.length_cons] at h
    rw [b64encode, b64DecodeLoop, b64Block_chars (by omega) (by omega) (by omega) (by omega), h1,
      h2, h3]
    have hcap : ¬ cap < o + 3 := by omega
    have hrest : b64DecodeLoop cap (o + 3) (b64encode rest) = some rest := ih (o + 3) (by omega)
    simp [hcap, hrest]

/-- Decoding what was encoded gives the bytes back, if the buffer is large enough. -/
theorem b64Decode_b64encode {cap : ℕ} {x : Bytes} (h : x.length ≤ cap) :
    b64Decode cap (b64encode x) = some x := by
  have hlen : (b64encode x).length % 4 = 0 := by
    rw [length_b64encode]
    omega
  rw [b64Decode, if_neg (not_not.mpr hlen)]
  exact b64DecodeLoop_b64encode cap x 0 (by omega)

/-- What was encoded is refused when there is no room for it: the group that no longer fits is. -/
lemma b64DecodeLoop_b64encode_of_lt (cap : ℕ) (x : Bytes) (o : ℕ) (ho : o ≤ cap)
    (h : cap < o + x.length) : b64DecodeLoop cap o (b64encode x) = none := by
  induction x using b64encode.induct generalizing o with
  | case1 => exact absurd h (by simpa using ho)
  | case2 a =>
    have ha := a.toNat_lt
    have hcap : cap < o + 1 := by simpa using h
    rw [b64encode, b64DecodeLoop, b64Block_two_pads (by omega) (by omega)]
    exact if_pos hcap
  | case3 a b =>
    have ha := a.toNat_lt
    have hb := b.toNat_lt
    have hcap : cap < o + 2 := by simpa using h
    rw [b64encode, b64DecodeLoop, b64Block_one_pad (by omega) (by omega) (by omega)]
    exact if_pos hcap
  | case4 a b c rest ih =>
    have ha := a.toNat_lt
    have hb := b.toNat_lt
    have hc := c.toNat_lt
    simp only [List.length_cons] at h
    rw [b64encode, b64DecodeLoop, b64Block_chars (by omega) (by omega) (by omega) (by omega)]
    by_cases hcap : cap < o + 3
    · exact if_pos hcap
    · have hrest : b64DecodeLoop cap (o + 3) (b64encode rest) = none :=
        ih (o + 3) (by omega) (by omega)
      simp [hcap, hrest]

/-- Decoding what was encoded fails, if the buffer is too small. -/
lemma b64Decode_b64encode_of_lt {cap : ℕ} {x : Bytes} (h : cap < x.length) :
    b64Decode cap (b64encode x) = none := by
  have hlen : (b64encode x).length % 4 = 0 := by
    rw [length_b64encode]
    omega
  rw [b64Decode, if_neg (not_not.mpr hlen)]
  exact b64DecodeLoop_b64encode_of_lt cap x 0 (Nat.zero_le cap) (by omega)

/-- The text of an array is its RFC 4648 encoding.  Decoding it gives the array back, if the buffer
is large enough, and its length, if that is an `int`; if the buffer is too small, decoding fails. -/
theorem b64_round_trip (x : Bytes) (cap : ℕ) :
    b64Encode x = b64encode x ∧ (b64Encode x).length = 4 * ((x.length + 2) / 3) ∧
      (x.length ≤ cap → b64Decode cap (b64Encode x) = some x ∧
        (x.length < 2 ^ 31 → b64DecodeReturn cap (b64Encode x) = x.length)) ∧
      (cap < x.length → b64Decode cap (b64Encode x) = none ∧
        b64DecodeReturn cap (b64Encode x) = -1) := by
  rw [b64Encode_eq_b64encode, b64DecodeReturn]
  refine ⟨rfl, length_b64encode x, fun h => ?_, fun h => ?_⟩
  · rw [b64Decode_b64encode h]
    refine ⟨rfl, fun hint => ?_⟩
    exact Int.bmod_eq_of_le (by omega) (by omega)
  · rw [b64Decode_b64encode_of_lt h]
    exact ⟨rfl, rfl⟩

/-- The length of an array of two gigabytes is returned as a negative number. -/
theorem b64DecodeReturn_of_two_gigabytes :
    b64DecodeReturn (2 ^ 31) (b64Encode (List.replicate (2 ^ 31) 0)) = -2147483648 := by
  have hlength : (List.replicate (2 ^ 31) (0 : UInt8)).length = 2 ^ 31 := List.length_replicate
  rw [b64DecodeReturn, b64Encode_eq_b64encode, b64Decode_b64encode hlength.le]
  dsimp only
  rw [hlength]
  decide

/-- What a loop decodes behind `o` bytes fits into the buffer with them. -/
lemma length_of_b64DecodeLoop {cap o : ℕ} {s bytes : Bytes} (ho : o ≤ cap)
    (h : b64DecodeLoop cap o s = some bytes) : o + bytes.length ≤ cap := by
  induction o, s using b64DecodeLoop.induct cap generalizing bytes with
  | case1 o =>
    obtain rfl : [] = bytes := Option.some.inj h
    simpa using ho
  | case2 o a b c d rest hblock =>
    simp [b64DecodeLoop, hblock] at h
  | case3 o a b c d rest block hblock hcap =>
    simp [b64DecodeLoop, hblock, hcap] at h
  | case4 o a b c d rest block hblock hcap ih =>
    simp only [b64DecodeLoop, hblock, if_neg hcap, Option.map_eq_some_iff] at h
    obtain ⟨bytes', h', rfl⟩ := h
    have := ih (by omega) h'
    simp only [List.length_append]
    omega
  | case5 o s hnil hcons =>
    rw [b64DecodeLoop] at h
    · cases h
    · exact hnil
    · exact hcons

/-- What is decoded fits into the buffer. -/
lemma length_of_b64Decode {cap : ℕ} {s bytes : Bytes} (h : b64Decode cap s = some bytes) :
    bytes.length ≤ cap := by
  unfold b64Decode at h
  split_ifs at h
  simpa using length_of_b64DecodeLoop (Nat.zero_le _) h

end HybridEccAuth.HeaProto

import HybridEccAuth.Data.Bytes

/-!
# Base64

`b64encode` is the encoding of RFC 4648 with padding.  `b64decode` is the lenient
decoder of the Python standard library (`binascii.a2b_base64` without strict
mode): characters outside the alphabet are skipped, a padding character is
ignored until it completes a group of four, and only a group that is left open at
the end of the text is an error.

The round trip `b64decode_b64encode` is by induction on the groups of three bytes
of the encoder.
-/

namespace HybridEccAuth

/-- The character of a six-bit value: `A`-`Z`, `a`-`z`, `0`-`9`, `+`, `/`. -/
def b64Char (v : ℕ) : UInt8 :=
  if v < 26 then UInt8.ofNat (65 + v)
  else if v < 52 then UInt8.ofNat (71 + v)
  else if v < 62 then UInt8.ofNat (v - 4)
  else if v = 62 then 43
  else 47

/-- The six-bit value of a character of the alphabet. -/
def b64Value (c : UInt8) : Option ℕ :=
  let n := c.toNat
  if 65 ≤ n ∧ n ≤ 90 then some (n - 65)
  else if 97 ≤ n ∧ n ≤ 122 then some (n - 71)
  else if 48 ≤ n ∧ n ≤ 57 then some (n + 4)
  else if n = 43 then some 62
  else if n = 47 then some 63
  else none

/-- The padding character `=`. -/
def b64Pad : UInt8 := 61

/-- RFC 4648 encoding, three bytes at a time. -/
def b64encode : Bytes → Bytes
  | [] => []
  | [a] => [b64Char (a.toNat / 4), b64Char (a.toNat % 4 * 16), b64Pad, b64Pad]
  | [a, b] => [b64Char (a.toNat / 4), b64Char (a.toNat % 4 * 16 + b.toNat / 16),
      b64Char (b.toNat % 16 * 4), b64Pad]
  | a :: b :: c :: rest => b64Char (a.toNat / 4) :: b64Char (a.toNat % 4 * 16 + b.toNat / 16) ::
      b64Char (b.toNat % 16 * 4 + c.toNat / 64) :: b64Char (c.toNat % 64) :: b64encode rest

/-- The decoder in the middle of a group: `quad` characters of it are read, `left` are the bits
of the last one that are not written yet, and `pads` padding characters followed it. -/
def a2bBase64 (quad left pads : ℕ) : Bytes → Option Bytes
  | [] => if quad = 0 then some [] else none
  | c :: cs =>
    if c = b64Pad then
      if 2 ≤ quad then
        -- enough padding to close the group: the rest of the text is not read
        if 4 ≤ quad + (pads + 1) then some [] else a2bBase64 quad left (pads + 1) cs
      else a2bBase64 quad left pads cs
    else
      match b64Value c with
      | none => a2bBase64 quad left pads cs
      | some v =>
        if quad = 0 then a2bBase64 1 v 0 cs
        else if quad = 1 then
          (a2bBase64 2 (v % 16) 0 cs).map (UInt8.ofNat (left * 4 + v / 16) :: ·)
        else if quad = 2 then
          (a2bBase64 3 (v % 4) 0 cs).map (UInt8.ofNat (left * 16 + v / 4) :: ·)
        else (a2bBase64 0 0 0 cs).map (UInt8.ofNat (left * 64 + v) :: ·)

/-- The lenient decoder, from the start of the text. -/
def b64decode (cs : Bytes) : Option Bytes := a2bBase64 0 0 0 cs

/-- A character of the alphabet stands for the value it was written for. -/
lemma b64Value_b64Char {v : ℕ} (hv : v < 64) : b64Value (b64Char v) = some v := by
  revert v
  decide

/-- No value is written as the padding character. -/
lemma b64Char_ne_b64Pad {v : ℕ} (hv : v < 64) : b64Char v ≠ b64Pad := by
  revert v
  decide

/-- The characters of the alphabet are letters, digits, `+` and `/`: all are printable, and none
is a quotation mark or a backslash. -/
lemma b64Char_printable {v : ℕ} (hv : v < 64) :
    43 ≤ (b64Char v).toNat ∧ (b64Char v).toNat ≤ 122 ∧ (b64Char v).toNat ≠ 92 := by
  revert v
  decide

section Steps

variable {v left pads : ℕ} (hv : v < 64) (cs : Bytes)
include hv

/-- The first character of a group is only remembered. -/
lemma a2bBase64_zero : a2bBase64 0 left pads (b64Char v :: cs) = a2bBase64 1 v 0 cs := by
  simp [a2bBase64, b64Char_ne_b64Pad hv, b64Value_b64Char hv]

/-- The second character completes the first byte. -/
lemma a2bBase64_one : a2bBase64 1 left pads (b64Char v :: cs) =
    (a2bBase64 2 (v % 16) 0 cs).map (UInt8.ofNat (left * 4 + v / 16) :: ·) := by
  simp [a2bBase64, b64Char_ne_b64Pad hv, b64Value_b64Char hv]

/-- The third character completes the second byte. -/
lemma a2bBase64_two : a2bBase64 2 left pads (b64Char v :: cs) =
    (a2bBase64 3 (v % 4) 0 cs).map (UInt8.ofNat (left * 16 + v / 4) :: ·) := by
  simp [a2bBase64, b64Char_ne_b64Pad hv, b64Value_b64Char hv]

/-- The fourth character completes the third byte and closes the group. -/
lemma a2bBase64_three : a2bBase64 3 left pads (b64Char v :: cs) =
    (a2bBase64 0 0 0 cs).map (UInt8.ofNat (left * 64 + v) :: ·) := by
  simp [a2bBase64, b64Char_ne_b64Pad hv, b64Value_b64Char hv]

end Steps

/-- Two padding characters close a group of one byte. -/
lemma a2bBase64_two_pads (left : ℕ) : a2bBase64 2 left 0 [b64Pad, b64Pad] = some [] := rfl

/-- One padding character closes a group of two bytes. -/
lemma a2bBase64_one_pad (left : ℕ) : a2bBase64 3 left 0 [b64Pad] = some [] := rfl

/-- A byte is recovered from its number. -/
lemma ofNat_eq_of_eq_toNat {a : UInt8} {n : ℕ} (h : n = a.toNat) : UInt8.ofNat n = a := by
  rw [h, UInt8.ofNat_toNat]

/-- Decoding what was encoded gives the bytes back. -/
theorem b64decode_b64encode (x : Bytes) : b64decode (b64encode x) = some x := by
  unfold b64decode
  induction x using b64encode.induct with
  | case1 => rfl
  | case2 a =>
    have ha := a.toNat_lt
    rw [b64encode, a2bBase64_zero (by omega), a2bBase64_one (by omega), a2bBase64_two_pads]
    have h1 : UInt8.ofNat (a.toNat / 4 * 4 + a.toNat % 4 * 16 / 16) = a :=
      ofNat_eq_of_eq_toNat (by omega)
    simp only [Option.map_some, h1]
  | case3 a b =>
    have ha := a.toNat_lt
    have hb := b.toNat_lt
    rw [b64encode, a2bBase64_zero (by omega), a2bBase64_one (by omega), a2bBase64_two (by omega),
      a2bBase64_one_pad]
    have h1 : UInt8.ofNat (a.toNat / 4 * 4 + (a.toNat % 4 * 16 + b.toNat / 16) / 16) = a :=
      ofNat_eq_of_eq_toNat (by omega)
    have h2 : UInt8.ofNat
        ((a.toNat % 4 * 16 + b.toNat / 16) % 16 * 16 + b.toNat % 16 * 4 / 4) = b :=
      ofNat_eq_of_eq_toNat (by omega)
    simp only [Option.map_some, h1, h2]
  | case4 a b c rest ih =>
    have ha := a.toNat_lt
    have hb := b.toNat_lt
    have hc := c.toNat_lt
    rw [b64encode, a2bBase64_zero (by omega), a2bBase64_one (by omega), a2bBase64_two (by omega),
      a2bBase64_three (by omega), ih]
    have h1 : UInt8.ofNat (a.toNat / 4 * 4 + (a.toNat % 4 * 16 + b.toNat / 16) / 16) = a :=
      ofNat_eq_of_eq_toNat (by omega)
    have h2 : UInt8.ofNat ((a.toNat % 4 * 16 + b.toNat / 16) % 16 * 16 +
        (b.toNat % 16 * 4 + c.toNat / 64) / 4) = b :=
      ofNat_eq_of_eq_toNat (by omega)
    have h3 : UInt8.ofNat ((b.toNat % 16 * 4 + c.toNat / 64) % 4 * 64 + c.toNat % 64) = c :=
      ofNat_eq_of_eq_toNat (by omega)
    simp only [Option.map_some, h1, h2, h3]

/-- Every character of an encoding is a letter, a digit, `+`, `/` or `=`. -/
lemma b64encode_printable (x : Bytes) :
    ∀ c ∈ b64encode x, 43 ≤ c.toNat ∧ c.toNat ≤ 122 ∧ c.toNat ≠ 92 := by
  have hpad : 43 ≤ b64Pad.toNat ∧ b64Pad.toNat ≤ 122 ∧ b64Pad.toNat ≠ 92 := by decide
  induction x using b64encode.induct with
  | case1 => simp [b64encode]
  | case2 a =>
    have ha := a.toNat_lt
    simp only [b64encode, List.forall_mem_cons]
    exact ⟨b64Char_printable (by omega), b64Char_printable (by omega), hpad, hpad, by simp⟩
  | case3 a b =>
    have ha := a.toNat_lt
    have hb := b.toNat_lt
    simp only [b64encode, List.forall_mem_cons]
    exact ⟨b64Char_printable (by omega), b64Char_printable (by omega),
      b64Char_printable (by omega), hpad, by simp⟩
  | case4 a b c rest ih =>
    have ha := a.toNat_lt
    have hb := b.toNat_lt
    have hc := c.toNat_lt
    simp only [b64encode, List.forall_mem_cons]
    exact ⟨b64Char_printable (by omega), b64Char_printable (by omega),
      b64Char_printable (by omega), b64Char_printable (by omega), ih⟩

/-- An encoding has four characters for every started group of three bytes. -/
lemma length_b64encode (x : Bytes) : (b64encode x).length = 4 * ((x.length + 2) / 3) := by
  induction x using b64encode.induct with
  | case1 => rfl
  | case2 a => simp [b64encode]
  | case3 a b => simp [b64encode]
  | case4 a b c rest ih =>
    simp only [b64encode, List.length_cons, ih]
    omega

end HybridEccAuth

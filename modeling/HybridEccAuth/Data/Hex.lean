import HybridEccAuth.Data.JsonRoundTrip

/-!
# Hexadecimal texts

`toHex` writes bytes the way `bytes.hex` does, and `fromHex` reads them the way `bytes.fromhex`
does, with digits of either case and white space between bytes.  What was written is read back
(`fromHex_toHex`), also after it was stripped (`strip_toHex`).
-/

namespace HybridEccAuth

/-- The two digits of a byte. -/
def hexPair (b : UInt8) : Bytes := [hexDigit (b.toNat / 16), hexDigit (b.toNat % 16)]

/-- `bytes.hex`. -/
def toHex (bs : Bytes) : Bytes := bs.flatMap hexPair

/-- ASCII white space: tab, line feed, vertical tab, form feed, carriage return and space. -/
def isAsciiSpace (c : CodePoint) : Bool := (9 ≤ c.val && c.val ≤ 13) || c.val = 32

/-- `bytes.fromhex`. -/
def fromHex : Str → Option Bytes
  | [] => some []
  | c :: s =>
    if isAsciiSpace c then fromHex s
    else
      match s with
      | [] => none
      | d :: s => do
        let high ← hexValue c
        let low ← hexValue d
        let bs ← fromHex s
        return UInt8.ofNat (high * 16 + low) :: bs

/-- `str.isspace` of a character. -/
def isSpace (c : CodePoint) : Bool :=
  (9 ≤ c.val && c.val ≤ 13) || (28 ≤ c.val && c.val ≤ 32) ||
    (0x2000 ≤ c.val && c.val ≤ 0x200A) ||
    c.val ∈ [0x85, 0xA0, 0x1680, 0x2028, 0x2029, 0x202F, 0x205F, 0x3000]

/-- `str.strip`. -/
def strip (s : Str) : Str := ((s.dropWhile isSpace).reverse.dropWhile isSpace).reverse

/-- A digit is neither white space nor out of the ASCII range. -/
lemma isSpace_hexDigit {n : ℕ} (hn : n < 16) :
    isSpace (CodePoint.ofByte (hexDigit n)) = false ∧
      isAsciiSpace (CodePoint.ofByte (hexDigit n)) = false ∧
      32 ≤ (hexDigit n).toNat ∧ (hexDigit n).toNat ≤ 126 := by
  revert n
  decide

/-- The digits of bytes. -/
lemma exists_of_mem_toHex {bs : Bytes} {b : UInt8} (hb : b ∈ toHex bs) :
    ∃ n < 16, b = hexDigit n := by
  obtain ⟨a, -, ha⟩ := List.mem_flatMap.mp hb
  have hlt := a.toNat_lt
  simp only [hexPair, List.mem_cons, List.not_mem_nil, or_false] at ha
  rcases ha with rfl | rfl
  · exact ⟨_, by omega, rfl⟩
  · exact ⟨_, by omega, rfl⟩

/-- The digits of bytes are printable. -/
lemma isPrintable_toHex (bs : Bytes) : IsPrintable (toHex bs) := by
  intro b hb
  obtain ⟨n, hn, rfl⟩ := exists_of_mem_toHex hb
  exact (isSpace_hexDigit hn).2.2

/-- Written bytes are read back. -/
theorem fromHex_toHex (bs : Bytes) : fromHex (Str.ofBytes (toHex bs)) = some bs := by
  induction bs with
  | nil => rfl
  | cons b bs ih =>
    have hlt := b.toNat_lt
    have hhigh : b.toNat / 16 < 16 := by omega
    have hlow : b.toNat % 16 < 16 := by omega
    have hsum : b.toNat / 16 * 16 + b.toNat % 16 = b.toNat := Nat.div_add_mod' _ _
    have hsplit : Str.ofBytes (toHex (b :: bs)) = CodePoint.ofByte (hexDigit (b.toNat / 16)) ::
        CodePoint.ofByte (hexDigit (b.toNat % 16)) :: Str.ofBytes (toHex bs) := rfl
    rw [hsplit, fromHex, if_neg (by rw [(isSpace_hexDigit hhigh).2.1]; decide),
      hexValue_hexDigit hhigh,
      hexValue_hexDigit hlow, ih]
    simp only [Option.bind_eq_bind, Option.bind_some]
    rw [hsum, UInt8.ofNat_toNat]
    rfl

/-- There is nothing to strip from written bytes. -/
lemma strip_toHex (bs : Bytes) : strip (Str.ofBytes (toHex bs)) = Str.ofBytes (toHex bs) := by
  have hspace : ∀ c ∈ Str.ofBytes (toHex bs), ¬ isSpace c = true := by
    intro c hc
    obtain ⟨b, hb, rfl⟩ := List.mem_map.mp hc
    obtain ⟨n, hn, rfl⟩ := exists_of_mem_toHex hb
    rw [(isSpace_hexDigit hn).1]
    decide
  have hdrop : ∀ s : Str, (∀ c ∈ s, ¬ isSpace c = true) → s.dropWhile isSpace = s := by
    intro s hs
    cases s with
    | nil => rfl
    | cons c s => exact List.dropWhile_cons_of_neg (hs c List.mem_cons_self)
  rw [strip, hdrop _ hspace, hdrop _ fun c hc => hspace c (List.mem_reverse.mp hc),
    List.reverse_reverse]

end HybridEccAuth

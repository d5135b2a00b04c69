import Mathlib.Data.List.Induction
import Mathlib.Tactic.Common
import Mathlib.Tactic.Ring
import Mathlib.Tactic.Linarith

/-!
# Byte strings and big-endian integers

Byte strings are lists of `UInt8`.  `toBytesBE n v` writes the natural number `v`
in `n` bytes, most significant byte first, and `fromBytesBE` reads such a string
back.  On `v < 256 ^ n` the two are inverse, so equal encodings of the same width
come from equal numbers (`toBytesBE_inj`).
-/

namespace HybridEccAuth

/-- A byte string. -/
abbrev Bytes := List UInt8

/-- `v` in `n` bytes, most significant first; the part of `v` beyond `n` bytes is dropped. -/
def toBytesBE : ℕ → ℕ → Bytes
  | 0, _ => []
  | n + 1, v => toBytesBE n (v / 256) ++ [UInt8.ofNat v]

/-- The number written by a byte string, most significant byte first. -/
def fromBytesBE (bs : Bytes) : ℕ := bs.foldl (fun acc b => acc * 256 + b.toNat) 0

/-- A big-endian encoding has the width it was asked for. -/
@[simp] lemma length_toBytesBE (n v : ℕ) : (toBytesBE n v).length = n := by
  induction n generalizing v with
  | zero => rfl
  | succ n ih => simp [toBytesBE, ih]

/-- Reading one more byte at the end shifts what was read by eight bits. -/
lemma fromBytesBE_append_singleton (bs : Bytes) (b : UInt8) :
    fromBytesBE (bs ++ [b]) = fromBytesBE bs * 256 + b.toNat := by
  simp [fromBytesBE]

/-- The empty string reads as zero. -/
@[simp] lemma fromBytesBE_nil : fromBytesBE [] = 0 := rfl

/-- Reading back a big-endian encoding gives the number, reduced to the width. -/
lemma fromBytesBE_toBytesBE (n v : ℕ) : fromBytesBE (toBytesBE n v) = v % 256 ^ n := by
  induction n generalizing v with
  | zero => simp [toBytesBE, Nat.mod_one]
  | succ n ih =>
    have hb : (UInt8.ofNat v).toNat = v % 256 := by simp
    have hmod : v % 256 ^ (n + 1) = v % 256 + 256 * (v / 256 % 256 ^ n) := by
      rw [pow_succ', Nat.mod_mul]
    rw [toBytesBE, fromBytesBE_append_singleton, ih, hb, hmod]
    ring

/-- A number that fits is read back exactly. -/
lemma fromBytesBE_toBytesBE_of_lt {n v : ℕ} (h : v < 256 ^ n) :
    fromBytesBE (toBytesBE n v) = v := by
  rw [fromBytesBE_toBytesBE, Nat.mod_eq_of_lt h]

/-- Reading a concatenation shifts the first part by the width of the second. -/
lemma fromBytesBE_append (a b : Bytes) :
    fromBytesBE (a ++ b) = fromBytesBE a * 256 ^ b.length + fromBytesBE b := by
  induction b using List.reverseRecOn with
  | nil => simp
  | append_singleton b x ih =>
    rw [← List.append_assoc, fromBytesBE_append_singleton, ih, fromBytesBE_append_singleton,
      List.length_append, List.length_singleton, pow_succ]
    ring

/-- Encodings of numbers that fit are equal only for equal numbers. -/
lemma toBytesBE_inj {n v w : ℕ} (hv : v < 256 ^ n) (hw : w < 256 ^ n) :
    toBytesBE n v = toBytesBE n w ↔ v = w := by
  refine ⟨fun h => ?_, fun h => h ▸ rfl⟩
  rw [← fromBytesBE_toBytesBE_of_lt hv, h, fromBytesBE_toBytesBE_of_lt hw]

/-- The value of a byte string is bounded by its width. -/
lemma fromBytesBE_lt (bs : Bytes) : fromBytesBE bs < 256 ^ bs.length := by
  induction bs using List.reverseRecOn with
  | nil => simp
  | append_singleton bs b ih =>
    have hb : b.toNat < 256 := b.toNat_lt
    rw [fromBytesBE_append_singleton, List.length_append, List.length_singleton, pow_succ]
    have : (fromBytesBE bs + 1) * 256 ≤ 256 ^ bs.length * 256 := Nat.mul_le_mul_right _ ih
    omega

/-- Encoding what was read gives the byte string back. -/
lemma toBytesBE_fromBytesBE (bs : Bytes) : toBytesBE bs.length (fromBytesBE bs) = bs := by
  induction bs using List.reverseRecOn with
  | nil => rfl
  | append_singleton bs b ih =>
    have hb : b.toNat < 256 := b.toNat_lt
    have hdiv : (fromBytesBE bs * 256 + b.toNat) / 256 = fromBytesBE bs := by omega
    have hlow : UInt8.ofNat (fromBytesBE bs * 256 + b.toNat) = b := by
      apply UInt8.toNat_inj.mp
      rw [UInt8.toNat_ofNat']
      omega
    rw [fromBytesBE_append_singleton, List.length_append, List.length_singleton, toBytesBE, hdiv,
      hlow, ih]

/-- The last `n` bytes of a byte string: `bs[-n:]`. -/
def lastBytes (n : ℕ) (bs : Bytes) : Bytes := bs.drop (bs.length - n)

/-- All but the last `n` bytes of a byte string: `bs[:-n]` for `n > 0`. -/
def dropLastBytes (n : ℕ) (bs : Bytes) : Bytes := bs.take (bs.length - n)

/-- The last bytes of a concatenation whose second part has that length. -/
@[simp] lemma lastBytes_append {n : ℕ} {a b : Bytes} (h : b.length = n) :
    lastBytes n (a ++ b) = b := by
  simp [lastBytes, h]

/-- All but the last bytes of a concatenation whose second part has that length. -/
@[simp] lemma dropLastBytes_append {n : ℕ} {a b : Bytes} (h : b.length = n) :
    dropLastBytes n (a ++ b) = a := by
  simp [dropLastBytes, h]

/-- A byte string is what precedes its last bytes, followed by them. -/
lemma dropLastBytes_append_lastBytes (n : ℕ) (bs : Bytes) :
    dropLastBytes n bs ++ lastBytes n bs = bs :=
  List.take_append_drop _ _

end HybridEccAuth

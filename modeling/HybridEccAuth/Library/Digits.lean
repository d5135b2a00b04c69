import Mathlib.Algebra.Order.Field.Basic
import Mathlib.Data.Finset.Card
import Mathlib.Data.Finset.Range
import Mathlib.Data.List.TakeDrop
import Mathlib.Data.Rat.Floor
import Mathlib.Tactic.Common

/-!
# Expansions of a fixed length

`expand b d n` lists the `d` lowest digits of `n` in base `b`, the highest of them
first, and `evaluate b` reads such a list back.  A prefix of an expansion is the
expansion of a quotient (`take_expand`), so the prefixes of length `l` of the
expansions of `0, …, n - 1` are numbered by the quotients: there are as many as
`n / b ^ (d - l)`, rounded up (`card_prefixes`).
-/

namespace Digits

variable {b : ℕ}

/-- The `d` lowest digits, the lowest first. -/
def lowDigits (b : ℕ) : ℕ → ℕ → List ℕ
  | 0, _ => []
  | d + 1, n => n % b :: lowDigits b d (n / b)

/-- The `d` lowest digits, the highest first. -/
def expand (b d n : ℕ) : List ℕ := (lowDigits b d n).reverse

/-- The number with the given digits, the highest first. -/
def evaluate (b : ℕ) (digits : List ℕ) : ℕ := digits.foldl (fun n digit => n * b + digit) 0

@[simp] lemma expand_zero (b n : ℕ) : expand b 0 n = [] := rfl

/-- The lowest digit comes last. -/
lemma expand_succ (b d n : ℕ) : expand b (d + 1) n = expand b d (n / b) ++ [n % b] := by
  unfold expand
  rw [lowDigits, List.reverse_cons]

@[simp] lemma length_expand (b d n : ℕ) : (expand b d n).length = d := by
  induction d generalizing n with
  | zero => rfl
  | succ d ih => rw [expand_succ, List.length_append, ih, List.length_singleton]

/-- Every digit is below the base. -/
lemma lt_of_mem_expand (hb : 0 < b) {d n digit : ℕ} (h : digit ∈ expand b d n) : digit < b := by
  induction d generalizing n with
  | zero => cases h
  | succ d ih =>
    rw [expand_succ, List.mem_append, List.mem_singleton] at h
    rcases h with h | rfl
    · exact ih h
    · exact Nat.mod_lt n hb

@[simp] lemma evaluate_nil (b : ℕ) : evaluate b [] = 0 := rfl

/-- A further digit multiplies by the base and is added. -/
@[simp] lemma evaluate_append_singleton (b : ℕ) (digits : List ℕ) (digit : ℕ) :
    evaluate b (digits ++ [digit]) = evaluate b digits * b + digit := by
  unfold evaluate
  rw [List.foldl_append, List.foldl_cons, List.foldl_nil]

/-- Reading an expansion back gives the number modulo the power of the base. -/
lemma evaluate_expand (b d n : ℕ) : evaluate b (expand b d n) = n % b ^ d := by
  induction d generalizing n with
  | zero => rw [expand_zero, evaluate_nil, pow_zero, Nat.mod_one]
  | succ d ih =>
    rw [expand_succ, evaluate_append_singleton, ih, pow_succ', Nat.mod_mul, Nat.add_comm,
      Nat.mul_comm]

/-- An expansion depends on the number modulo the power of the base. -/
lemma expand_mod (b d n : ℕ) : expand b d (n % b ^ d) = expand b d n := by
  induction d generalizing n with
  | zero => rfl
  | succ d ih =>
    rw [expand_succ, expand_succ, pow_succ', Nat.mod_mul_right_div_self, ih,
      Nat.mod_mul_right_mod]

/-- Numbers below the power of the base have different expansions. -/
lemma expand_inj {d m n : ℕ} (hm : m < b ^ d) (hn : n < b ^ d) (h : expand b d m = expand b d n) :
    m = n := by
  have heval := congrArg (evaluate b) h
  rwa [evaluate_expand, evaluate_expand, Nat.mod_eq_of_lt hm, Nat.mod_eq_of_lt hn] at heval

/-- A prefix of an expansion is the expansion of a quotient. -/
lemma take_expand (b n : ℕ) {d l : ℕ} (hl : l ≤ d) :
    (expand b d n).take l = expand b l (n / b ^ (d - l)) := by
  induction d generalizing n with
  | zero =>
    obtain rfl := Nat.le_zero.mp hl
    rfl
  | succ d ih =>
    rcases Nat.lt_or_eq_of_le hl with hlt | rfl
    · have hle : l ≤ d := Nat.lt_succ_iff.mp hlt
      rw [expand_succ, List.take_append_of_le_length (by rw [length_expand]; exact hle), ih _ hle,
        Nat.succ_sub hle, pow_succ', Nat.div_div_eq_div_mul]
    · rw [List.take_of_length_le (by rw [length_expand]), Nat.sub_self, pow_zero, Nat.div_one]

/-- The next digit of a prefix is the lowest digit of the quotient. -/
lemma take_succ_expand (b n : ℕ) {d l : ℕ} (hl : l < d) :
    (expand b d n).take (l + 1) = (expand b d n).take l ++ [n / b ^ (d - (l + 1)) % b] := by
  have hpow : b ^ (d - l) = b ^ (d - (l + 1)) * b := by
    rw [← pow_succ]
    congr 1
    omega
  rw [take_expand b n hl, expand_succ, take_expand b n (Nat.le_of_lt hl), Nat.div_div_eq_div_mul,
    ← hpow]

/-- The digits of an expansion are the lowest digits of the quotients. -/
lemma getElem?_expand (b n : ℕ) {d l : ℕ} (hl : l < d) :
    (expand b d n)[l]? = some (n / b ^ (d - (l + 1)) % b) := by
  have hlt : l < (expand b d n).length := by rwa [length_expand]
  have h := take_succ_expand b n hl
  rw [List.take_succ_eq_append_getElem hlt, List.append_cancel_left_eq, List.singleton_inj] at h
  rw [List.getElem?_eq_getElem hlt, h]

/-- A prefix with a smaller last digit is the prefix of a smaller number. -/
lemma exists_take_expand_of_lt (hb : 0 < b) {d l n digit : ℕ} (hl : l < d)
    (hdigit : digit < n / b ^ (d - (l + 1)) % b) :
    ∃ m < n, (expand b d m).take (l + 1) = (expand b d n).take l ++ [digit] := by
  set q := n / b ^ (d - (l + 1)) with hq
  have hpow : 0 < b ^ (d - (l + 1)) := pow_pos hb _
  have hlt : digit < b := lt_trans hdigit (Nat.mod_lt _ hb)
  have hless : q / b * b + digit < q := by
    calc q / b * b + digit < q / b * b + q % b := Nat.add_lt_add_left hdigit _
      _ = q := Nat.div_add_mod' q b
  refine ⟨(q / b * b + digit) * b ^ (d - (l + 1)), ?_, ?_⟩
  · calc (q / b * b + digit) * b ^ (d - (l + 1)) < q * b ^ (d - (l + 1)) :=
          Nat.mul_lt_mul_of_pos_right hless hpow
      _ ≤ n := Nat.div_mul_le_self n _
  · have htake : (expand b d n).take l = expand b l (q / b) := by
      have h := take_expand b n hl
      rw [take_succ_expand b n hl, expand_succ] at h
      exact List.append_inj_left' h rfl
    rw [take_expand b _ hl, Nat.mul_div_cancel _ hpow, expand_succ, htake, Nat.add_comm,
      Nat.add_mul_div_right _ _ hb, Nat.div_eq_of_lt hlt, Nat.zero_add, Nat.add_mul_mod_self_right,
      Nat.mod_eq_of_lt hlt]

/-! ## Counting prefixes -/

/-- The prefixes of length `l` of the expansions of the numbers below `n`. -/
def prefixes (b d n l : ℕ) : Finset (List ℕ) :=
  (Finset.range n).image fun i => (expand b d i).take l

/-- Prefixes of length `l` have length `l`. -/
lemma length_of_mem_prefixes {d l n : ℕ} {node : List ℕ} (hl : l ≤ d)
    (h : node ∈ prefixes b d n l) : node.length = l := by
  obtain ⟨i, -, rfl⟩ := Finset.mem_image.mp h
  rw [List.length_take, length_expand, Nat.min_eq_left hl]

/-- The prefixes are the expansions of the quotients. -/
lemma prefixes_eq (hb : 0 < b) {d l n : ℕ} (hl : l ≤ d) :
    prefixes b d n l = (Finset.range ⌈(n : ℚ) / b ^ (d - l)⌉₊).image (expand b l) := by
  have hpow : 0 < b ^ (d - l) := pow_pos hb _
  have hlt : ∀ v : ℕ, v < ⌈(n : ℚ) / b ^ (d - l)⌉₊ ↔ v * b ^ (d - l) < n := by
    intro v
    rw [Nat.lt_ceil, lt_div_iff₀ (by exact_mod_cast hpow)]
    exact_mod_cast Iff.rfl
  ext node
  simp only [prefixes, Finset.mem_image, Finset.mem_range, hlt, take_expand b _ hl]
  constructor
  · rintro ⟨i, hi, rfl⟩
    exact ⟨_, lt_of_le_of_lt (Nat.div_mul_le_self i _) hi, rfl⟩
  · rintro ⟨v, hv, rfl⟩
    exact ⟨_, hv, by rw [Nat.mul_div_cancel _ hpow]⟩

/-- There are as many prefixes as quotients. -/
lemma card_prefixes (hb : 0 < b) {d l n : ℕ} (hl : l ≤ d) (hn : n ≤ b ^ d) :
    (prefixes b d n l).card = ⌈(n : ℚ) / b ^ (d - l)⌉₊ := by
  have hceil : ⌈(n : ℚ) / b ^ (d - l)⌉₊ ≤ b ^ l := by
    rw [Nat.ceil_le, div_le_iff₀ (by exact_mod_cast pow_pos hb _)]
    exact_mod_cast le_of_le_of_eq hn (by rw [← pow_add, Nat.add_sub_cancel' hl])
  rw [prefixes_eq hb hl, Finset.card_image_of_injOn, Finset.card_range]
  intro v hv w hw h
  exact expand_inj (lt_of_lt_of_le (Finset.mem_range.mp hv) hceil)
    (lt_of_lt_of_le (Finset.mem_range.mp hw) hceil) h

end Digits

import HybridEccAuth.Data.JsonRoundTrip

/-!
# Nested JSON texts

`JsonTree.dumps` writes a value the way `json.dumps` does with `ensure_ascii`: integers of any size,
and arrays and objects inside each other.  `jsonLoads_dumps` says that reading what was written
gives the value back, for all texts without surrogates and all integers of at most 4300 digits.

A value is read up to the text behind it, which must not go on with the digits of a number
(`Stops`).  The induction is on the number of calls that the reader is allowed.
-/

namespace HybridEccAuth

/-- A JSON value without decimal literals. -/
inductive JsonTree
  | null
  | bool (b : Bool)
  | int (n : ℤ)
  | str (s : Str)
  | arr (items : List JsonTree)
  | obj (members : List (Str × JsonTree))

/-- The decimal digits of a number. -/
def decimal (n : ℕ) : Bytes := (Nat.toDigits 10 n).map fun c => UInt8.ofNat c.toNat

/-- The text of an integer. -/
def intText (n : ℤ) : Bytes := if n < 0 then 45 :: decimal n.natAbs else decimal n.natAbs

namespace JsonTree

mutual

/-- The value that is read. -/
def toJson : JsonTree → Json
  | .null => .null
  | .bool b => .bool b
  | .int n => .int n
  | .str s => .str s
  | .arr items => .arr (itemsToJson items)
  | .obj members => .obj (membersToJson members)

/-- The items that are read. -/
def itemsToJson : List JsonTree → List Json
  | [] => []
  | t :: ts => t.toJson :: itemsToJson ts

/-- The members that are read. -/
def membersToJson : List (Str × JsonTree) → List (Str × Json)
  | [] => []
  | (name, t) :: ms => (name, t.toJson) :: membersToJson ms

end

mutual

/-- `json.dumps`. -/
def dumps (seps : Separators) : JsonTree → Bytes
  | .null => [110, 117, 108, 108]
  | .bool b => (Scalar.bool b).dumps
  | .int n => intText n
  | .str s => jsonString s
  | .arr items => 91 :: dumpsItems seps items
  | .obj members => 123 :: dumpsMembers seps members

/-- The items of an array up to its closing bracket. -/
def dumpsItems (seps : Separators) : List JsonTree → Bytes
  | [] => [93]
  | [t] => t.dumps seps ++ [93]
  | t :: ts => t.dumps seps ++ 44 :: seps.afterItem ++ dumpsItems seps ts

/-- The members of an object up to its closing brace. -/
def dumpsMembers (seps : Separators) : List (Str × JsonTree) → Bytes
  | [] => [125]
  | [(name, t)] => jsonString name ++ 58 :: seps.afterName ++ t.dumps seps ++ [125]
  | (name, t) :: ms =>
    jsonString name ++ 58 :: seps.afterName ++ t.dumps seps ++ 44 :: seps.afterItem ++
      dumpsMembers seps ms

end

mutual

/-- The values that can be read back. -/
def Readable : JsonTree → Prop
  | .int n => (decimal n.natAbs).length ≤ maxIntDigits
  | .str s => NoSurrogate s
  | .arr items => ReadableItems items
  | .obj members => ReadableMembers members
  | _ => True

/-- The items that can be read back. -/
def ReadableItems : List JsonTree → Prop
  | [] => True
  | t :: ts => t.Readable ∧ ReadableItems ts

/-- The members that can be read back. -/
def ReadableMembers : List (Str × JsonTree) → Prop
  | [] => True
  | (name, t) :: ms => NoSurrogate name ∧ t.Readable ∧ ReadableMembers ms

end

/-- The members that are read are those that were written. -/
lemma membersToJson_eq (ms : List (Str × JsonTree)) :
    membersToJson ms = ms.map fun m => (m.1, m.2.toJson) := by
  induction ms with
  | nil => rfl
  | cons m ms ih => rw [membersToJson, ih, List.map_cons]

/-- Members can be read back when each of them can. -/
lemma readableMembers_iff {ms : List (Str × JsonTree)} :
    ReadableMembers ms ↔ ∀ m ∈ ms, NoSurrogate m.1 ∧ m.2.Readable := by
  induction ms with
  | nil => simp [ReadableMembers]
  | cons m ms ih => rw [ReadableMembers, ih, List.forall_mem_cons, and_assoc]

end JsonTree

/-! ## Numbers -/

/-- The number of the byte of a decimal digit. -/
lemma val_ofByte_digit {ch : Char} (h : ch.isDigit = true) :
    (CodePoint.ofByte (UInt8.ofNat ch.toNat)).val = ch.toNat ∧ 48 ≤ ch.toNat ∧ ch.toNat ≤ 57 := by
  obtain ⟨hlow, hhigh⟩ : 48 ≤ ch.toNat ∧ ch.toNat ≤ 57 := Char.isDigit_iff_toNat.mp h
  rw [CodePoint.val_ofByte, UInt8.toNat_ofNat']
  omega

/-- The digits of a number are digits. -/
lemma isDigit_of_mem_decimal {n : ℕ} {c : CodePoint} (hc : c ∈ Str.ofBytes (decimal n)) :
    isDigit c := by
  obtain ⟨b, hb, rfl⟩ := List.mem_map.mp hc
  obtain ⟨ch, hch, rfl⟩ := List.mem_map.mp hb
  have hrange := val_ofByte_digit (Nat.isDigit_of_mem_toDigits (by decide) (by decide) hch)
  simp only [isDigit, Bool.and_eq_true, decide_eq_true_eq]
  omega

/-- The digits of a number write it. -/
lemma digitsValue_decimal (n : ℕ) : digitsValue (Str.ofBytes (decimal n)) = n := by
  have hfold : ∀ (l : List Char) (m : ℕ), (∀ ch ∈ l, ch.isDigit = true) →
      (Str.ofBytes (l.map fun ch => UInt8.ofNat ch.toNat)).foldl
        (fun n c => n * 10 + (c.val - 48)) m = Nat.ofDigitChars 10 l m := by
    intro l
    induction l with
    | nil => exact fun m _ => Nat.ofDigitChars_nil.symm
    | cons ch l ih =>
      intro m h
      obtain ⟨hch, hl⟩ := List.forall_mem_cons.mp h
      have hzero : '0'.toNat = 48 := rfl
      rw [Nat.ofDigitChars_cons, ← ih _ hl, List.map_cons, Str.ofBytes, List.map_cons,
        List.foldl_cons,
        (val_ofByte_digit hch).1, Nat.mul_comm m 10, hzero]
      rfl
  rw [digitsValue, decimal, hfold _ _ fun ch hch =>
    Nat.isDigit_of_mem_toDigits (by decide) (by decide) hch]
  exact Nat.ofDigitChars_ten_toDigits

/-- A number is written by a zero, or by digits that do not start with a zero. -/
lemma decimal_cases (n : ℕ) : decimal n = [48] ∨ ∃ b bs, decimal n = b :: bs ∧ b ≠ 48 := by
  induction n using Nat.strong_induction_on with
  | _ n ih =>
    by_cases hn : n < 10
    · rw [decimal, Nat.toDigits_of_lt_base hn, List.map_singleton]
      by_cases hzero : UInt8.ofNat n.digitChar.toNat = 48
      · exact Or.inl (by rw [hzero])
      · exact Or.inr ⟨_, [], rfl, hzero⟩
    · have hsplit : decimal n = decimal (n / 10) ++ [UInt8.ofNat (n % 10).digitChar.toNat] := by
        rw [decimal, Nat.toDigits_of_base_le (by decide) (Nat.not_lt.mp hn), List.map_append]
        rfl
      rcases ih (n / 10) (by omega) with hzero | ⟨b, bs, hfirst, hb⟩
      · have hvalue := digitsValue_decimal (n / 10)
        rw [hzero] at hvalue
        have : n / 10 = 0 := hvalue.symm
        omega
      · exact Or.inr ⟨b, _, by rw [hsplit, hfirst]; rfl, hb⟩

/-- The text of a number starts with a digit. -/
lemma exists_decimal_cons (n : ℕ) :
    ∃ c cs, Str.ofBytes (decimal n) = c :: cs ∧ isDigit c := by
  obtain ⟨c, cs, hcons⟩ : ∃ c cs, Str.ofBytes (decimal n) = c :: cs := by
    rcases decimal_cases n with hzero | ⟨b, bs, hfirst, -⟩
    · exact ⟨_, _, by rw [hzero]; rfl⟩
    · exact ⟨_, _, by rw [hfirst]; rfl⟩
  exact ⟨c, cs, hcons, isDigit_of_mem_decimal (hcons ▸ List.mem_cons_self)⟩

/-- The text does not go on with a number. -/
def Stops (rest : Str) : Prop := ∀ c ∈ rest.head?, c.val = 44 ∨ c.val = 93 ∨ c.val = 125

/-- The text does not go on with a digit. -/
lemma Stops.not_isDigit {rest : Str} (h : Stops rest) : ∀ c ∈ rest.head?, isDigit c = false := by
  intro c hc
  have hval := h c hc
  simp only [isDigit, Bool.and_eq_false_iff, decide_eq_false_iff_not]
  omega

/-- The longest run of digits ends where the digits do. -/
lemma scanDigits_append {ds rest : Str} (hds : ∀ c ∈ ds, isDigit c) (hrest : Stops rest) :
    scanDigits (ds ++ rest) = (ds, rest) := by
  have hstop := hrest.not_isDigit
  induction ds with
  | nil =>
    cases rest with
    | nil => rfl
    | cons c rest =>
      have hc := hstop c rfl
      simp [scanDigits, hc]
  | cons d ds ih =>
    obtain ⟨hd, hds⟩ := List.forall_mem_cons.mp hds
    have hrest := ih hds
    simp only [scanDigits, Prod.mk.injEq] at hrest
    simp [scanDigits, hd, hrest]

/-- The digits of a number are read as its integer part. -/
lemma scanIntPart_decimal (n : ℕ) {rest : Str} (hrest : Stops rest) :
    scanIntPart (Str.ofBytes (decimal n) ++ rest) = some (Str.ofBytes (decimal n), rest) := by
  have hdigits : ∀ c ∈ Str.ofBytes (decimal n), isDigit c := fun c hc => isDigit_of_mem_decimal hc
  rcases decimal_cases n with hzero | ⟨b, bs, hfirst, hb⟩
  · rw [hzero]
    rfl
  · rw [hfirst, Str.ofBytes, List.map_cons, List.forall_mem_cons] at hdigits
    have hval : (CodePoint.ofByte b).val ≠ 48 := by
      rw [CodePoint.val_ofByte]
      intro h
      exact hb (UInt8.toNat_inj.mp h)
    have hscan := scanDigits_append hdigits.2 hrest
    rw [hfirst, Str.ofBytes, List.map_cons, List.cons_append, scanIntPart, if_neg hval,
      if_pos hdigits.1, hscan]

/-- The text of an integer is read as the integer. -/
lemma scanNumber_intText {n : ℤ} (hn : (decimal n.natAbs).length ≤ maxIntDigits) {rest : Str}
    (hrest : Stops rest) : scanNumber (Str.ofBytes (intText n) ++ rest) = some (.int n, rest) := by
  have hint := scanIntPart_decimal n.natAbs hrest
  have hvalue := digitsValue_decimal n.natAbs
  have hlength : (Str.ofBytes (decimal n.natAbs)).length ≤ maxIntDigits := by
    rw [Str.ofBytes, List.length_map]
    exact hn
  have hfraction : scanFraction rest = (none, rest) := by
    rcases rest with _ | ⟨c, _ | ⟨d, rest⟩⟩
    · rfl
    · rfl
    · have hc := hrest c rfl
      rw [scanFraction, if_neg (by omega)]
  have hexponent : scanExponent rest = (none, rest) := by
    rcases rest with _ | ⟨c, rest⟩
    · rfl
    · have hc := hrest c rfl
      rw [scanExponent, if_neg (by omega)]
  rw [intText]
  split_ifs with hneg
  · have hsplit : Str.ofBytes (45 :: decimal n.natAbs) ++ rest =
        CodePoint.ofByte 45 :: (Str.ofBytes (decimal n.natAbs) ++ rest) := rfl
    rw [hsplit, scanNumber]
    simp only [show (CodePoint.ofByte 45).val = 45 from rfl, if_true, hint, hfraction, hexponent,
      and_self, hlength, hvalue]
    congr 3
    omega
  · obtain ⟨c, cs, hfirst, hdigit⟩ := exists_decimal_cons n.natAbs
    have hc : c.val ≠ 45 := by
      simp only [isDigit, Bool.and_eq_true, decide_eq_true_eq] at hdigit
      omega
    rw [hfirst, List.cons_append] at hint
    rw [hfirst] at hlength hvalue
    rw [hfirst, List.cons_append, scanNumber]
    simp only [hc, if_false, hint, hfraction, hexponent, and_self, if_true, hlength, hvalue]
    congr 3
    omega

/-! ## Values -/

/-- An integer is written by digits, after a sign if it is negative. -/
lemma intText_cases (n : ℤ) : ∃ d ds, isDigit d ∧
    (Str.ofBytes (intText n) = d :: ds ∨ Str.ofBytes (intText n) =
      CodePoint.ofByte 45 :: d :: ds) := by
  obtain ⟨d, ds, hfirst, hd⟩ := exists_decimal_cons n.natAbs
  rw [intText]
  split_ifs
  · exact ⟨d, ds, hd, Or.inr (congrArg _ hfirst)⟩
  · exact ⟨d, ds, hd, Or.inl hfirst⟩

/-- No named constant starts as the text of an integer does. -/
lemma scanConstant_intText (n : ℤ) (rest : Str) :
    scanConstant (Str.ofBytes (intText n) ++ rest) = none := by
  obtain ⟨d, ds, hd, hfirst | hfirst⟩ := intText_cases n
  · rw [hfirst]
    exact scanConstant_of_isDigit hd _
  · have hsecond : ∀ p ∈ jsonConstants,
        (Str.ofString p.1).head?.map (fun a => decide (a = CodePoint.ofByte 45)) = some false ∨
          (Str.ofString p.1)[1]?.map isDigit = some false := by
      simp only [jsonConstants, List.forall_mem_cons]
      refine ⟨?_, ?_, ?_, ?_, ?_, ?_, by simp⟩ <;> decide
    rw [hfirst, scanConstant, List.findSome?_eq_none_iff]
    intro p hp
    have h := hsecond p hp
    have hprefix :
        ¬ (Str.ofString p.1).isPrefixOf (CodePoint.ofByte 45 :: d :: ds ++ rest) = true := by
      generalize Str.ofString p.1 = text at h ⊢
      rcases text with _ | ⟨a, _ | ⟨b, l⟩⟩
      · simp at h
      · simpa [List.isPrefixOf] using h
      · rcases h with h | h
        · simp only [List.head?_cons, Option.map_some, Option.some.injEq,
            decide_eq_false_iff_not] at h
          simp [List.isPrefixOf, h]
        · have hne : b ≠ d := by
            rintro rfl
            simp [hd] at h
          simp [List.isPrefixOf, hne]
    rw [if_neg hprefix]

namespace JsonTree

variable {seps : Separators}

/-- The first byte of a value is neither white space nor a closing bracket. -/
lemma exists_dumps_cons (seps : Separators) (t : JsonTree) :
    ∃ b bs, t.dumps seps = b :: bs ∧ isJsonWs (CodePoint.ofByte b) = false ∧ b ≠ 93 := by
  cases t with
  | null => exact ⟨_, _, rfl, by decide, by decide⟩
  | bool b => cases b <;> exact ⟨_, _, rfl, by decide, by decide⟩
  | int n =>
    obtain ⟨d, ds, hd, hfirst | hfirst⟩ := intText_cases n
    · obtain ⟨b, bs, hcons, hb, -⟩ := List.map_eq_cons_iff.mp hfirst
      rw [isDigit, ← hb, CodePoint.val_ofByte, Bool.and_eq_true, decide_eq_true_eq,
        decide_eq_true_eq] at hd
      refine ⟨b, bs, by rw [dumps, hcons], ?_, ?_⟩
      · simp only [isJsonWs, CodePoint.val_ofByte, Bool.or_eq_false_iff, decide_eq_false_iff_not]
        omega
      · rintro rfl
        exact absurd hd.2 (by decide)
    · obtain ⟨b, bs, hcons, hb, -⟩ := List.map_eq_cons_iff.mp hfirst
      have hminus : b = 45 := UInt8.toNat_inj.mp (by
        rw [← CodePoint.val_ofByte, hb, CodePoint.val_ofByte])
      exact ⟨b, bs, by rw [dumps, hcons], hminus ▸ by decide, hminus ▸ by decide⟩
  | str s => exact ⟨_, _, rfl, by decide, by decide⟩
  | arr items => exact ⟨_, _, by rw [dumps], by decide, by decide⟩
  | obj members => exact ⟨_, _, by rw [dumps], by decide, by decide⟩

/-- With `n` calls, values are read back up to what follows them. -/
def ReadsValues (seps : Separators) (n : ℕ) : Prop :=
  ∀ (t : JsonTree) (rest : Str), t.Readable → (t.dumps seps).length < n → Stops rest →
    scanValue n (Str.ofBytes (t.dumps seps) ++ rest) = some (t.toJson, rest)

/-- With `n` calls, the items of an array are read back. -/
def ReadsItems (seps : Separators) (n : ℕ) : Prop :=
  ∀ (ts : List JsonTree) (rest : Str), ts ≠ [] → ReadableItems ts →
    (dumpsItems seps ts).length < n →
    scanElements n (Str.ofBytes (dumpsItems seps ts) ++ rest) = some (itemsToJson ts, rest)

/-- With `n` calls, the members of an object are read back. -/
def ReadsMembers (seps : Separators) (n : ℕ) : Prop :=
  ∀ (ms : List (Str × JsonTree)) (rest : Str), ms ≠ [] → ReadableMembers ms →
    (dumpsMembers seps ms).length < n →
    scanMembers n (Str.ofBytes (dumpsMembers seps ms) ++ rest) = some (membersToJson ms, rest)

/-- The text of items of which there is more than one. -/
lemma dumpsItems_cons_cons (t t' : JsonTree) (ts : List JsonTree) :
    dumpsItems seps (t :: t' :: ts) =
      t.dumps seps ++ 44 :: seps.afterItem ++ dumpsItems seps (t' :: ts) := by
  rw [dumpsItems]
  exact List.cons_ne_nil t' ts

/-- The text of members of which there is more than one. -/
lemma dumpsMembers_cons_cons (name : Str) (t : JsonTree) (m : Str × JsonTree)
    (ms : List (Str × JsonTree)) :
    dumpsMembers seps ((name, t) :: m :: ms) =
      jsonString name ++ 58 :: seps.afterName ++ t.dumps seps ++ 44 :: seps.afterItem ++
        dumpsMembers seps (m :: ms) := by
  rw [dumpsMembers]
  exact List.cons_ne_nil m ms

/-- The first byte of the items of an array. -/
lemma exists_dumpsItems_cons (seps : Separators) (t : JsonTree) (ts : List JsonTree) :
    ∃ b bs, dumpsItems seps (t :: ts) = b :: bs ∧ isJsonWs (CodePoint.ofByte b) = false ∧
    b ≠ 93 := by
  obtain ⟨b, bs, hcons, hb⟩ := t.exists_dumps_cons seps
  cases ts with
  | nil => exact ⟨b, _, by rw [dumpsItems, hcons]; rfl, hb⟩
  | cons t' ts => exact ⟨b, _, by rw [dumpsItems_cons_cons, hcons]; rfl, hb⟩

/-- The members of an object start with a quotation mark. -/
lemma exists_dumpsMembers_cons (seps : Separators) (m : Str × JsonTree)
    (ms : List (Str × JsonTree)) :
    ∃ bs, dumpsMembers seps (m :: ms) = 34 :: bs := by
  cases ms with
  | nil => exact ⟨_, by rw [dumpsMembers]; rfl⟩
  | cons m' ms => exact ⟨_, by rw [dumpsMembers_cons_cons]; rfl⟩

/-- A value is read by a call more than its items or members. -/
lemma ReadsValues.succ {n : ℕ} (hitems : ReadsItems seps n) (hmembers : ReadsMembers seps n) :
    ReadsValues seps (n + 1) := by
  intro t rest ht hn hrest
  cases t with
  | null =>
    rw [dumps, Str.ofBytes, List.map_cons, List.cons_append, scanValue, if_neg (by decide),
      if_neg (by decide), if_neg (by decide)]
    rfl
  | bool b =>
    cases b
    · rw [dumps, Scalar.dumps, Str.ofBytes, List.map_cons, List.cons_append, scanValue,
        if_neg (by decide), if_neg (by decide), if_neg (by decide)]
      rfl
    · rw [dumps, Scalar.dumps, Str.ofBytes, List.map_cons, List.cons_append, scanValue,
        if_neg (by decide), if_neg (by decide), if_neg (by decide)]
      rfl
  | int k =>
    obtain ⟨c, cs, hfirst, h34, h123, h91⟩ : ∃ c cs, Str.ofBytes (intText k) = c :: cs ∧
        c.val ≠ 34 ∧ c.val ≠ 123 ∧ c.val ≠ 91 := by
      obtain ⟨d, ds, hd, hfirst | hfirst⟩ := intText_cases k
      · rw [isDigit, Bool.and_eq_true, decide_eq_true_eq, decide_eq_true_eq] at hd
        exact ⟨d, ds, hfirst, by omega, by omega, by omega⟩
      · exact ⟨_, _, hfirst, by decide, by decide, by decide⟩
    have hconstant := scanConstant_intText k rest
    have hnumber := scanNumber_intText ht hrest
    rw [hfirst, List.cons_append] at hconstant hnumber
    rw [dumps, hfirst, List.cons_append, scanValue, if_neg h34, if_neg h123, if_neg h91, hconstant,
      Option.none_or, hnumber, toJson]
  | str s =>
    have hsplit : Str.ofBytes (jsonString s) ++ rest =
        CodePoint.ofByte 34 :: (Str.ofBytes (jsonEscape s ++ [34]) ++ rest) := by
      simp [jsonString, Str.ofBytes]
    rw [dumps, hsplit, scanValue, if_pos (by decide), scanString_jsonEscape ht, toJson]
    rfl
  | arr items =>
    rw [dumps, List.length_cons] at hn
    rw [dumps, Str.ofBytes, List.map_cons, List.cons_append, scanValue, if_neg (by decide),
      if_neg (by decide), if_pos (by decide)]
    cases items with
    | nil => rfl
    | cons t ts =>
      obtain ⟨b, bs, hcons, hws, hb⟩ := exists_dumpsItems_cons seps t ts
      have hread := hitems (t :: ts) rest (List.cons_ne_nil _ _) ht (by omega)
      have hval : ¬ (CodePoint.ofByte b).val = 93 := by
        rw [CodePoint.val_ofByte]
        intro h
        exact hb (UInt8.toNat_inj.mp h)
      rw [hcons, Str.ofBytes, List.map_cons, List.cons_append] at hread
      rw [hcons, List.map_cons, List.cons_append, skipWs_cons hws]
      dsimp only
      rw [if_neg hval, hread, toJson]
      rfl
  | obj members =>
    rw [dumps, List.length_cons] at hn
    rw [dumps, Str.ofBytes, List.map_cons, List.cons_append, scanValue, if_neg (by decide),
      if_pos (by decide)]
    cases members with
    | nil => rfl
    | cons m ms =>
      obtain ⟨bs, hcons⟩ := exists_dumpsMembers_cons seps m ms
      have hread := hmembers (m :: ms) rest (List.cons_ne_nil _ _) ht (by omega)
      rw [hcons, Str.ofBytes, List.map_cons, List.cons_append] at hread
      rw [hcons, List.map_cons, List.cons_append, skipWs_cons (by decide)]
      dsimp only
      rw [if_neg (by decide), hread, toJson]
      rfl

/-- Items are read by a call more than the first of them and the others. -/
lemma ReadsItems.succ (hseps : seps.IsWs) {n : ℕ} (hvalues : ReadsValues seps n)
    (hitems : ReadsItems seps n) : ReadsItems seps (n + 1) := by
  intro ts rest hne hts hn
  obtain ⟨t, ts, rfl⟩ := List.exists_cons_of_ne_nil hne
  cases ts with
  | nil =>
    rw [dumpsItems, List.length_append, List.length_singleton] at hn
    have hsplit : Str.ofBytes (dumpsItems seps [t]) ++ rest =
        Str.ofBytes (t.dumps seps) ++ CodePoint.ofByte 93 :: rest := by
      simp [dumpsItems, Str.ofBytes]
    have hread := hvalues t (CodePoint.ofByte 93 :: rest) hts.1 (by omega) (by simp [Stops])
    rw [hsplit, scanElements, hread]
    dsimp only
    rw [skipWs_cons (by decide)]
    dsimp only
    rw [if_pos (by decide)]
    rfl
  | cons t' ts =>
    obtain ⟨b, bs, hcons, hws, -⟩ := exists_dumpsItems_cons seps t' ts
    rw [dumpsItems_cons_cons, List.length_append, List.length_append, List.length_cons] at hn
    have hsplit : Str.ofBytes (dumpsItems seps (t :: t' :: ts)) ++ rest =
        Str.ofBytes (t.dumps seps) ++ CodePoint.ofByte 44 ::
          (Str.ofBytes seps.afterItem ++ (Str.ofBytes (dumpsItems seps (t' :: ts)) ++ rest)) := by
      simp [dumpsItems_cons_cons, Str.ofBytes]
    have hread := hvalues t (CodePoint.ofByte 44 ::
      (Str.ofBytes seps.afterItem ++ (Str.ofBytes (dumpsItems seps (t' :: ts)) ++ rest))) hts.1
      (by omega) (by simp [Stops])
    have hrest := hitems (t' :: ts) rest (List.cons_ne_nil _ _) hts.2 (by omega)
    have hskip : skipWs (Str.ofBytes seps.afterItem ++ (Str.ofBytes (dumpsItems seps (t' :: ts)) ++
        rest)) = Str.ofBytes (dumpsItems seps (t' :: ts)) ++ rest := by
      rw [hcons]
      exact skipWs_append hseps.1 hws _
    rw [hsplit, scanElements, hread]
    dsimp only
    rw [skipWs_cons (by decide)]
    dsimp only
    rw [if_neg (by decide), if_pos (by decide), hskip, hrest]
    rfl

/-- Members are read by a call more than the value of the first of them and the others. -/
lemma ReadsMembers.succ (hseps : seps.IsWs) {n : ℕ} (hvalues : ReadsValues seps n)
    (hmembers : ReadsMembers seps n) : ReadsMembers seps (n + 1) := by
  intro ms rest hne hms hn
  obtain ⟨⟨name, t⟩, ms, rfl⟩ := List.exists_cons_of_ne_nil hne
  obtain ⟨b, bs, hcons, hws, -⟩ := t.exists_dumps_cons seps
  -- the name and the value, whatever follows them
  have hmember : ∀ (c : CodePoint) (s : Str), c.val = 44 ∨ c.val = 125 → (t.dumps seps).length < n →
      scanMembers (n + 1) (Str.ofBytes (jsonString name ++ 58 :: seps.afterName ++ t.dumps seps) ++
        c :: s) = if c.val = 125 then some ([(name, t.toJson)], s)
      else (scanMembers n (skipWs s)).map fun p => ((name, t.toJson) :: p.1, p.2) := by
    intro c s hc hlength
    have hsplit : Str.ofBytes (jsonString name ++ 58 :: seps.afterName ++ t.dumps seps) ++ c :: s =
        CodePoint.ofByte 34 :: (Str.ofBytes (jsonEscape name ++ [34]) ++ (CodePoint.ofByte 58 ::
          (Str.ofBytes seps.afterName ++ (Str.ofBytes (t.dumps seps) ++ c :: s)))) := by
      simp [jsonString, Str.ofBytes]
    have hskip : skipWs (Str.ofBytes seps.afterName ++ (Str.ofBytes (t.dumps seps) ++ c :: s)) =
        Str.ofBytes (t.dumps seps) ++ c :: s := by
      rw [hcons]
      exact skipWs_append hseps.2 hws _
    have hcws : isJsonWs c = false := by
      simp only [isJsonWs, Bool.or_eq_false_iff, decide_eq_false_iff_not]
      omega
    have hread := hvalues t (c :: s) hms.2.1 hlength (by
      intro d hd
      obtain rfl := Option.mem_some_iff.mp hd
      omega)
    rw [hsplit, scanMembers, if_pos (by decide), scanString_jsonEscape hms.1]
    dsimp only
    rw [skipWs_cons (by decide)]
    dsimp only
    rw [if_pos (by decide), hskip, hread]
    dsimp only
    rw [skipWs_cons hcws]
    dsimp only
    split_ifs
    · rfl
    · rfl
    · omega
  cases ms with
  | nil =>
    simp only [dumpsMembers, List.length_append, List.length_cons, List.length_nil] at hn
    have hsplit : Str.ofBytes (dumpsMembers seps [(name, t)]) ++ rest =
        Str.ofBytes (jsonString name ++ 58 :: seps.afterName ++ t.dumps seps) ++
          CodePoint.ofByte 125 :: rest := by
      simp [dumpsMembers, Str.ofBytes]
    rw [hsplit, hmember _ _ (by decide) (by omega), if_pos (by decide)]
    rfl
  | cons m ms =>
    obtain ⟨bs', hfirst⟩ := exists_dumpsMembers_cons seps m ms
    rw [dumpsMembers_cons_cons] at hn
    simp only [List.length_append, List.length_cons] at hn
    have hsplit : Str.ofBytes (dumpsMembers seps ((name, t) :: m :: ms)) ++ rest =
        Str.ofBytes (jsonString name ++ 58 :: seps.afterName ++ t.dumps seps) ++
          CodePoint.ofByte 44 ::
            (Str.ofBytes seps.afterItem ++
              (Str.ofBytes (dumpsMembers seps (m :: ms)) ++ rest)) := by
      simp [dumpsMembers_cons_cons, Str.ofBytes]
    have hrest := hmembers (m :: ms) rest (List.cons_ne_nil _ _) hms.2.2 (by omega)
    have hskip : skipWs (Str.ofBytes seps.afterItem ++ (Str.ofBytes (dumpsMembers seps (m :: ms)) ++
        rest)) = Str.ofBytes (dumpsMembers seps (m :: ms)) ++ rest := by
      rw [hfirst]
      exact skipWs_append hseps.1 (d := CodePoint.ofByte 34) (by decide) _
    rw [hsplit, hmember _ _ (by decide) (by omega), if_neg (by decide), hskip, hrest]
    rfl

/-- With any number of calls, what is short enough is read back. -/
theorem reads (hseps : seps.IsWs) (n : ℕ) :
    ReadsValues seps n ∧ ReadsItems seps n ∧ ReadsMembers seps n := by
  induction n with
  | zero =>
    exact ⟨fun _ _ _ hn _ => absurd hn (Nat.not_lt_zero _),
      fun _ _ _ _ hn => absurd hn (Nat.not_lt_zero _),
      fun _ _ _ _ hn => absurd hn (Nat.not_lt_zero _)⟩
  | succ n ih =>
    obtain ⟨hvalues, hitems, hmembers⟩ := ih
    exact ⟨.succ hitems hmembers, .succ hseps hvalues hitems, .succ hseps hvalues hmembers⟩

/-- Reading a written value gives it back. -/
theorem jsonLoads_dumps (hseps : seps.IsWs) {t : JsonTree} (ht : t.Readable) :
    jsonLoads (Str.ofBytes (t.dumps seps)) = some t.toJson := by
  obtain ⟨b, bs, hcons, hws, -⟩ := t.exists_dumps_cons seps
  have hread := (reads hseps ((Str.ofBytes (t.dumps seps)).length + 1)).1 t [] ht
    (by rw [Str.ofBytes, List.length_map]; exact Nat.lt_succ_self _) (by simp [Stops])
  have hbom : (Str.ofBytes (t.dumps seps)).head? ≠ some 0xFEFF := by
    rw [hcons, Str.ofBytes, List.map_cons, List.head?_cons]
    intro h
    have hval := congrArg Fin.val (Option.some.inj h)
    rw [CodePoint.val_ofByte] at hval
    have hlt := b.toNat_lt
    have hbig : (0xFEFF : CodePoint).val = 0xFEFF := rfl
    omega
  have hskip : skipWs (Str.ofBytes (t.dumps seps)) = Str.ofBytes (t.dumps seps) := by
    rw [hcons]
    exact skipWs_cons hws _
  rw [List.append_nil] at hread
  rw [jsonLoads, if_neg hbom, hskip, hread]
  rfl

/-! ## The bytes of a written value -/

/-- The text of a number is printable. -/
lemma isPrintable_decimal (n : ℕ) : IsPrintable (decimal n) := by
  intro b hb
  obtain ⟨ch, hch, rfl⟩ := List.mem_map.mp hb
  have hrange := val_ofByte_digit (Nat.isDigit_of_mem_toDigits (by decide) (by decide) hch)
  rw [CodePoint.val_ofByte] at hrange
  omega

mutual

/-- A written value is printable. -/
theorem isPrintable_dumps (hseps : seps.IsPrintable) :
    ∀ t : JsonTree, IsPrintable (t.dumps seps)
  | .null => by rw [dumps]; decide
  | .bool b => by rw [dumps]; exact HybridEccAuth.isPrintable_dumps (.bool b)
  | .int n => by
    rw [dumps, intText]
    split_ifs
    · exact isPrintable_cons.mpr ⟨by decide, isPrintable_decimal _⟩
    · exact isPrintable_decimal _
  | .str s => by rw [dumps]; exact isPrintable_jsonString s
  | .arr items => by
    rw [dumps]
    exact isPrintable_cons.mpr ⟨by decide, isPrintable_dumpsItems hseps items⟩
  | .obj members => by
    rw [dumps]
    exact isPrintable_cons.mpr ⟨by decide, isPrintable_dumpsMembers hseps members⟩

/-- The written items of an array are printable. -/
theorem isPrintable_dumpsItems (hseps : seps.IsPrintable) :
    ∀ ts : List JsonTree, IsPrintable (dumpsItems seps ts)
  | [] => by rw [dumpsItems]; decide
  | [t] => by
    rw [dumpsItems, isPrintable_append]
    exact ⟨isPrintable_dumps hseps t, by decide⟩
  | t :: t' :: ts => by
    rw [dumpsItems_cons_cons, isPrintable_append, isPrintable_append, isPrintable_cons]
    exact ⟨⟨isPrintable_dumps hseps t, by decide, hseps.1⟩, isPrintable_dumpsItems hseps (t' :: ts)⟩

/-- The written members of an object are printable. -/
theorem isPrintable_dumpsMembers (hseps : seps.IsPrintable) :
    ∀ ms : List (Str × JsonTree), IsPrintable (dumpsMembers seps ms)
  | [] => by rw [dumpsMembers]; decide
  | [(name, t)] => by
    rw [dumpsMembers, isPrintable_append, isPrintable_append, isPrintable_append, isPrintable_cons]
    exact ⟨⟨⟨isPrintable_jsonString name, by decide, hseps.2⟩,
      isPrintable_dumps hseps t⟩, by decide⟩
  | (name, t) :: m :: ms => by
    rw [dumpsMembers_cons_cons, isPrintable_append, isPrintable_append, isPrintable_append,
      isPrintable_append, isPrintable_cons, isPrintable_cons]
    exact ⟨⟨⟨⟨isPrintable_jsonString name, by decide, hseps.2⟩, isPrintable_dumps hseps t⟩,
      by decide, hseps.1⟩, isPrintable_dumpsMembers hseps (m :: ms)⟩

end

end JsonTree

end HybridEccAuth

import HybridEccAuth.Data.Json

/-!
# Reading back what was written

The writer of `Json.lean` produces ASCII only, and the reader recovers from its
text exactly the object that was written, provided no name and no string value
holds a surrogate.  Numbers and the other values follow the same pattern: a value
is read up to the character after it, which is a comma or a closing brace.
-/

namespace HybridEccAuth

/-! ## One code point -/

/-- A code point below 256 is recovered from its byte. -/
lemma CodePoint.ofByte_ofNat {c : CodePoint} (hc : c.val < 256) :
    CodePoint.ofByte (UInt8.ofNat c.val) = c := by
  apply Fin.ext
  rw [CodePoint.val_ofByte, UInt8.toNat_ofNat']
  exact Nat.mod_eq_of_lt hc

/-- A quotation mark closes the string. -/
lemma scanChars_quote {c : CodePoint} (hc : c.val = 34) (s : Str) :
    scanChars (c :: s) = some ([], s) := by
  rw [scanChars.eq_def]
  simp only [hc, if_true]

/-- A printable character other than the quotation mark and the backslash stands for itself. -/
lemma scanChars_plain {c : CodePoint} (h34 : c.val ≠ 34) (h92 : c.val ≠ 92) (h32 : 32 ≤ c.val)
    (s : Str) : scanChars (c :: s) = (scanChars s).map fun p => (c :: p.1, p.2) := by
  rw [scanChars.eq_def]
  simp only [h34, h92, Nat.not_lt.mpr h32, if_false]
  cases scanChars s <;> rfl

/-- A backslash and a character other than `u` stand for the character they escape. -/
lemma scanChars_escape {c e u : CodePoint} (hc : c.val = 92) (he : e.val ≠ 117)
    (hu : unescape e = some u) (s : Str) :
    scanChars (c :: e :: s) = (scanChars s).map fun p => (u :: p.1, p.2) := by
  rw [scanChars.eq_def]
  simp only [hc, he, hu, if_false, if_true, show ¬ (92 = 34) by decide]
  cases scanChars s <;> rfl

/-- A backslash, `u` and four hexadecimal digits stand for a code unit. -/
lemma scanChars_unicode {c e h₁ h₂ h₃ h₄ u : CodePoint} (hc : c.val = 92) (he : e.val = 117)
    (hu : hexUnit h₁ h₂ h₃ h₄ = some u) (s : Str) :
    scanChars (c :: e :: h₁ :: h₂ :: h₃ :: h₄ :: s) =
      (scanChars s).map fun p => (u :: p.1, p.2) := by
  rw [scanChars.eq_def]
  simp only [hc, he, hu, if_false, if_true, show ¬ (92 = 34) by decide]
  cases scanChars s <;> rfl

/-- A hexadecimal digit is read as the value it was written for. -/
lemma hexValue_hexDigit {n : ℕ} (hn : n < 16) :
    hexValue (CodePoint.ofByte (hexDigit n)) = some n := by
  revert n
  decide

/-- The escape of a code unit is read as that code unit. -/
lemma scanChars_escapeUnit {n : ℕ} (hn : n < 65536) (rest : Str) :
    scanChars (Str.ofBytes (escapeUnit n) ++ rest) =
      (scanChars rest).map fun p => (Fin.ofNat _ n :: p.1, p.2) := by
  have hunit : ((n / 4096 % 16 * 16 + n / 256 % 16) * 16 + n / 16 % 16) * 16 + n % 16 = n := by
    omega
  have hhex : hexUnit (CodePoint.ofByte (hexDigit (n / 4096 % 16)))
      (CodePoint.ofByte (hexDigit (n / 256 % 16))) (CodePoint.ofByte (hexDigit (n / 16 % 16)))
      (CodePoint.ofByte (hexDigit (n % 16))) = some (Fin.ofNat _ n) := by
    simp only [hexUnit, hexValue_hexDigit (Nat.mod_lt _ (by decide : 0 < 16)), Option.bind_eq_bind,
      Option.bind_some, hunit, pure]
  simp only [Str.ofBytes, escapeUnit, List.map_cons, List.map_nil, List.cons_append,
    List.nil_append]
  exact scanChars_unicode (by decide) (by decide) hhex rest

/-- The code units of a code point, as code points. -/
def surrogateUnits (c : CodePoint) : Str := (utf16Units c).map (Fin.ofNat _)

/-- The text of a code point is read as its code units. -/
lemma scanChars_jsonEscapeChar (c : CodePoint) (rest : Str) :
    scanChars (Str.ofBytes (jsonEscapeChar c) ++ rest) =
      (scanChars rest).map fun p => (surrogateUnits c ++ p.1, p.2) := by
  have hunits : c.val < 0x10000 → surrogateUnits c = [c] := by
    intro h
    simp only [surrogateUnits, utf16Units, if_pos h, List.map_cons, List.map_nil]
    congr 1
    apply Fin.ext
    simp [Fin.ofNat, Nat.mod_eq_of_lt c.isLt]
  -- a backslash followed by one character that stands for `u`
  have hesc : ∀ (b : UInt8) (u : CodePoint), (CodePoint.ofByte b).val ≠ 117 →
      unescape (CodePoint.ofByte b) = some u →
      scanChars (Str.ofBytes [92, b] ++ rest) = (scanChars rest).map fun p => (u :: p.1, p.2) := by
    intro b u hb hu
    simp only [Str.ofBytes, List.map_cons, List.map_nil, List.cons_append, List.nil_append]
    exact scanChars_escape (by decide) hb hu rest
  unfold jsonEscapeChar
  split_ifs with h1 h2 h3 h4 h5 h6 h7
  · have hb : CodePoint.ofByte (UInt8.ofNat c.val) = c := CodePoint.ofByte_ofNat (by omega)
    rw [hesc _ c (by rw [hb]; omega) (by rw [hb, unescape, if_pos (by omega)]),
      hunits (by omega)]
    rfl
  · rw [hesc _ c (by decide) (by rw [show c = 10 from Fin.ext h2]; decide), hunits (by omega)]
    rfl
  · rw [hesc _ c (by decide) (by rw [show c = 13 from Fin.ext h3]; decide), hunits (by omega)]
    rfl
  · rw [hesc _ c (by decide) (by rw [show c = 9 from Fin.ext h4]; decide), hunits (by omega)]
    rfl
  · rw [hesc _ c (by decide) (by rw [show c = 12 from Fin.ext h5]; decide), hunits (by omega)]
    rfl
  · rw [hesc _ c (by decide) (by rw [show c = 8 from Fin.ext h6]; decide), hunits (by omega)]
    rfl
  · have hb : CodePoint.ofByte (UInt8.ofNat c.val) = c := CodePoint.ofByte_ofNat (by omega)
    simp only [Str.ofBytes, List.map_cons, List.map_nil, List.cons_append, List.nil_append, hb]
    rw [scanChars_plain (by omega) (by omega) (by omega), hunits (by omega)]
    rfl
  · have hc := c.isLt
    unfold surrogateUnits utf16Units
    split_ifs with h
    · simp only [List.flatMap_cons, List.flatMap_nil, List.append_nil, List.map_cons, List.map_nil]
      exact scanChars_escapeUnit h rest
    · have hhi : 0xD800 + (c.val - 0x10000) / 0x400 < 65536 := by omega
      have hlo : 0xDC00 + (c.val - 0x10000) % 0x400 < 65536 := by omega
      simp only [List.flatMap_cons, List.flatMap_nil, List.append_nil, List.map_cons, List.map_nil,
        Str.ofBytes, List.map_append, List.append_assoc]
      rw [← Str.ofBytes, scanChars_escapeUnit hhi, ← Str.ofBytes, scanChars_escapeUnit hlo]
      cases scanChars rest <;> rfl

/-! ## Strings -/

/-- A text without surrogate code points. -/
def NoSurrogate (s : Str) : Prop := ∀ c ∈ s, ¬ isHighSurrogate c ∧ ¬ isLowSurrogate c

/-- The escaped text is read as the code units of the string. -/
lemma scanChars_jsonEscape (s : Str) (rest : Str) :
    scanChars (Str.ofBytes (jsonEscape s) ++ rest) =
      (scanChars rest).map fun p => (s.flatMap surrogateUnits ++ p.1, p.2) := by
  induction s with
  | nil => cases h : scanChars rest <;> simp [jsonEscape, Str.ofBytes, h]
  | cons c s ih =>
    have hsplit : Str.ofBytes (jsonEscape (c :: s)) ++ rest =
        Str.ofBytes (jsonEscapeChar c) ++ (Str.ofBytes (jsonEscape s) ++ rest) := by
      simp [jsonEscape, Str.ofBytes]
    rw [hsplit, scanChars_jsonEscapeChar, ih]
    cases scanChars rest <;> simp

/-- A code point that is not a high surrogate is left alone. -/
lemma joinSurrogates_cons {c : CodePoint} (hc : ¬ isHighSurrogate c) (s : Str) :
    joinSurrogates (c :: s) = c :: joinSurrogates s := by
  cases s with
  | nil => rfl
  | cons d s => rw [joinSurrogates, if_neg fun h => hc h.1]

/-- Splitting into code units and joining the pairs is the identity on texts without surrogates. -/
lemma joinSurrogates_flatMap {s : Str} (hs : NoSurrogate s) :
    joinSurrogates (s.flatMap surrogateUnits) = s := by
  induction s with
  | nil => rfl
  | cons c s ih =>
    obtain ⟨⟨hhigh, -⟩, hs⟩ := List.forall_mem_cons.mp hs
    have hc := c.isLt
    rw [List.flatMap_cons]
    by_cases h : c.val < 0x10000
    · have hunit : surrogateUnits c = [c] := by
        simp only [surrogateUnits, utf16Units, if_pos h, List.map_cons, List.map_nil]
        congr 1
        apply Fin.ext
        simp [Fin.ofNat, Nat.mod_eq_of_lt hc]
      rw [hunit, List.singleton_append, joinSurrogates_cons hhigh, ih hs]
    · have hpair : surrogateUnits c = [Fin.ofNat _ (0xD800 + (c.val - 0x10000) / 0x400),
          Fin.ofNat _ (0xDC00 + (c.val - 0x10000) % 0x400)] := by
        simp only [surrogateUnits, utf16Units, if_neg h, List.map_cons, List.map_nil]
      have hhi : (Fin.ofNat 0x110000 (0xD800 + (c.val - 0x10000) / 0x400)).val =
          0xD800 + (c.val - 0x10000) / 0x400 := Nat.mod_eq_of_lt (by omega)
      have hlo : (Fin.ofNat 0x110000 (0xDC00 + (c.val - 0x10000) % 0x400)).val =
          0xDC00 + (c.val - 0x10000) % 0x400 := Nat.mod_eq_of_lt (by omega)
      have hjoin : joinPair (Fin.ofNat _ (0xD800 + (c.val - 0x10000) / 0x400))
          (Fin.ofNat _ (0xDC00 + (c.val - 0x10000) % 0x400)) = c := by
        apply Fin.ext
        rw [joinPair, hhi, hlo, Fin.val_ofNat]
        omega
      have hsurr : isHighSurrogate (Fin.ofNat _ (0xD800 + (c.val - 0x10000) / 0x400)) ∧
          isLowSurrogate (Fin.ofNat _ (0xDC00 + (c.val - 0x10000) % 0x400)) := by
        simp only [isHighSurrogate, isLowSurrogate, hhi, hlo]
        omega
      rw [hpair, List.cons_append, List.singleton_append, joinSurrogates, if_pos hsurr,
        ih hs, hjoin]

/-- A written string is read back up to its closing quotation mark. -/
theorem scanString_jsonEscape {s : Str} (hs : NoSurrogate s) (rest : Str) :
    scanString (Str.ofBytes (jsonEscape s ++ [34]) ++ rest) = some (s, rest) := by
  have hquote : scanChars (Str.ofBytes [34] ++ rest) = some ([], rest) := by
    simp only [Str.ofBytes, List.map_cons, List.map_nil, List.cons_append, List.nil_append]
    exact scanChars_quote (by decide) rest
  have hsplit : Str.ofBytes (jsonEscape s ++ [34]) ++ rest =
      Str.ofBytes (jsonEscape s) ++ (Str.ofBytes [34] ++ rest) := by
    simp [Str.ofBytes]
  rw [scanString, hsplit, scanChars_jsonEscape, hquote]
  simp [joinSurrogates_flatMap hs]

/-- The code points of a string hold no surrogate. -/
lemma noSurrogate_ofString (s : String) : NoSurrogate (Str.ofString s) := by
  intro c hc
  obtain ⟨ch, -, rfl⟩ := List.mem_map.mp hc
  have hvalid := ch.valid
  simp only [isHighSurrogate, isLowSurrogate, CodePoint.val_ofChar]
  unfold UInt32.isValidChar Nat.isValidChar at hvalid
  have : ch.toNat = ch.val.toNat := rfl
  omega

/-- ASCII text holds no surrogate. -/
lemma noSurrogate_ofBytes (bs : Bytes) : NoSurrogate (Str.ofBytes bs) := by
  intro c hc
  obtain ⟨b, -, rfl⟩ := List.mem_map.mp hc
  have := b.toNat_lt
  simp only [isHighSurrogate, isLowSurrogate, CodePoint.val_ofByte]
  omega

/-! ## Values -/

/-- White space before a character that is none is skipped. -/
lemma skipWs_append {w : Str} (hw : ∀ c ∈ w, isJsonWs c) {d : CodePoint} (hd : isJsonWs d = false)
    (t : Str) : skipWs (w ++ d :: t) = d :: t := by
  induction w with
  | nil => simp [skipWs, hd]
  | cons c w ih =>
    rw [List.forall_mem_cons] at hw
    simpa [skipWs, hw.1] using ih hw.2

/-- A text that does not start with white space is not shortened. -/
lemma skipWs_cons {d : CodePoint} (hd : isJsonWs d = false) (t : Str) :
    skipWs (d :: t) = d :: t :=
  skipWs_append (w := []) (by simp) hd t

/-- No named constant starts with a digit. -/
lemma scanConstant_of_isDigit {d : CodePoint} (hd : isDigit d) (s : Str) :
    scanConstant (d :: s) = none := by
  have hfirst : ∀ p ∈ jsonConstants, ((Str.ofString p.1).head?.map isDigit) = some false := by
    simp only [jsonConstants, List.forall_mem_cons]
    refine ⟨?_, ?_, ?_, ?_, ?_, ?_, by simp⟩ <;> decide
  rw [scanConstant, List.findSome?_eq_none_iff]
  intro p hp
  have h := hfirst p hp
  cases htext : Str.ofString p.1 with
  | nil => simp [htext] at h
  | cons a l =>
    have ha : isDigit a = false := by simpa [htext] using h
    have hne : a ≠ d := by
      rintro rfl
      rw [ha] at hd
      exact absurd hd (by decide)
    simp [List.isPrefixOf, hne]

/-- A digit before a comma or a closing brace is read as a one-digit integer. -/
lemma scanNumber_digit {d c : CodePoint} (hd : isDigit d) (hc : c.val = 44 ∨ c.val = 125)
    (rest : Str) :
    scanNumber (d :: c :: rest) = some (.int (d.val - 48 : ℕ), c :: rest) := by
  have hrange : 48 ≤ d.val ∧ d.val ≤ 57 := by simpa [isDigit] using hd
  have hcd : isDigit c = false := by
    simp only [isDigit, Bool.and_eq_false_iff, decide_eq_false_iff_not]
    omega
  have hdigits : scanDigits (c :: rest) = ([], c :: rest) := by simp [scanDigits, hcd]
  have hint : scanIntPart (d :: c :: rest) = some ([d], c :: rest) := by
    rw [scanIntPart]
    split_ifs
    · rfl
    · rw [hdigits]
  have hfrac : scanFraction (c :: rest) = (none, c :: rest) := by
    cases rest with
    | nil => rfl
    | cons e t => rw [scanFraction, if_neg (by omega)]
  have hexp : scanExponent (c :: rest) = (none, c :: rest) := by
    rw [scanExponent, if_neg (by omega)]
  rw [scanNumber]
  simp only [show ¬ d.val = 45 by omega, if_false, hint, hfrac, hexp]
  simp [digitsValue, maxIntDigits]

/-- The texts of the values that can be read back: strings without surrogates. -/
def Scalar.Readable : Scalar → Prop
  | .str s => NoSurrogate s
  | _ => True

/-- A written value is read back up to the comma or the brace after it. -/
lemma scanValue_dumps {v : Scalar} (hv : v.Readable) {c : CodePoint}
    (hc : c.val = 44 ∨ c.val = 125) (n : ℕ) (rest : Str) :
    scanValue (n + 1) (Str.ofBytes v.dumps ++ c :: rest) = some (v.toJson, c :: rest) := by
  cases v with
  | digit k =>
    have hk := k.isLt
    have hval : (CodePoint.ofByte (UInt8.ofNat (48 + k.val))).val = 48 + k.val := by
      rw [CodePoint.val_ofByte, UInt8.toNat_ofNat']
      omega
    have hd : isDigit (CodePoint.ofByte (UInt8.ofNat (48 + k.val))) := by
      simp only [isDigit, hval, Bool.and_eq_true, decide_eq_true_eq]
      omega
    simp only [Scalar.dumps, Str.ofBytes, List.map_cons, List.map_nil, List.cons_append,
      List.nil_append]
    rw [scanValue, if_neg (by omega), if_neg (by omega), if_neg (by omega),
      scanConstant_of_isDigit hd, Option.none_or, scanNumber_digit hd hc, hval]
    simp [Scalar.toJson]
  | bool b =>
    cases b
    · simp only [Scalar.dumps, Str.ofBytes, List.map_cons, List.map_nil, List.cons_append,
        List.nil_append]
      rw [scanValue, if_neg (by decide), if_neg (by decide), if_neg (by decide)]
      rfl
    · simp only [Scalar.dumps, Str.ofBytes, List.map_cons, List.map_nil, List.cons_append,
        List.nil_append]
      rw [scanValue, if_neg (by decide), if_neg (by decide), if_neg (by decide)]
      rfl
  | str s =>
    have hsplit : Str.ofBytes (Scalar.str s).dumps ++ c :: rest =
        CodePoint.ofByte 34 :: (Str.ofBytes (jsonEscape s ++ [34]) ++ c :: rest) := by
      simp [Scalar.dumps, jsonString, Str.ofBytes]
    rw [hsplit, scanValue, if_pos (by decide), scanString_jsonEscape hv]
    rfl

/-! ## Objects -/

/-- Separators of white space. -/
def Separators.IsWs (seps : Separators) : Prop :=
  (∀ c ∈ Str.ofBytes seps.afterItem, isJsonWs c) ∧ ∀ c ∈ Str.ofBytes seps.afterName, isJsonWs c

/-- A member whose name and value can be read back. -/
def ReadableMember (m : Str × Scalar) : Prop := NoSurrogate m.1 ∧ m.2.Readable

/-- The first character of a value is not white space. -/
lemma skipWs_dumps (v : Scalar) (w rest : Str) (hw : ∀ c ∈ w, isJsonWs c) :
    skipWs (w ++ (Str.ofBytes v.dumps ++ rest)) = Str.ofBytes v.dumps ++ rest := by
  cases v with
  | digit k =>
    have hws : ∀ k : Fin 10, isJsonWs (CodePoint.ofByte (UInt8.ofNat (48 + k.val))) = false := by
      decide
    exact skipWs_append hw (hws k) rest
  | bool b => cases b <;> exact skipWs_append hw (by decide) _
  | str s => exact skipWs_append hw (d := CodePoint.ofByte 34) (by decide) _

/-- The members of an object start with a quotation mark. -/
lemma dumpsMembers_eq_cons (seps : Separators) (m : Str × Scalar) (ms : List (Str × Scalar)) :
    ∃ t, dumpsMembers seps (m :: ms) = 34 :: t := by
  cases ms <;> exact ⟨_, rfl⟩

/-- Reading a member and what decides whether another one follows. -/
lemma scanMembers_member {seps : Separators} (hseps : seps.IsWs) {m : Str × Scalar}
    (hm : ReadableMember m) {c : CodePoint} (hc : c.val = 44 ∨ c.val = 125) (n : ℕ) (rest : Str) :
    scanMembers (n + 2) (Str.ofBytes (dumpsMember seps m) ++ c :: rest) =
      if c.val = 125 then some ([(m.1, m.2.toJson)], rest)
      else (scanMembers (n + 1) (skipWs rest)).map fun p => ((m.1, m.2.toJson) :: p.1, p.2) := by
  have hsplit : Str.ofBytes (dumpsMember seps m) ++ c :: rest =
      CodePoint.ofByte 34 :: (Str.ofBytes (jsonEscape m.1 ++ [34]) ++ (CodePoint.ofByte 58 ::
        (Str.ofBytes seps.afterName ++ (Str.ofBytes m.2.dumps ++ c :: rest)))) := by
    simp [dumpsMember, jsonString, Str.ofBytes]
  have hcws : isJsonWs c = false := by
    simp only [isJsonWs, Bool.or_eq_false_iff, decide_eq_false_iff_not]
    omega
  rw [hsplit, scanMembers, if_pos (by decide), scanString_jsonEscape hm.1]
  simp only
  rw [skipWs_cons (by decide)]
  simp only
  rw [if_pos (by decide), skipWs_dumps _ _ _ hseps.2, scanValue_dumps hm.2 hc]
  simp only
  rw [skipWs_cons hcws]
  simp only
  split_ifs
  · rfl
  · rfl
  · omega

/-- Written members are read back up to the closing brace. -/
lemma scanMembers_dumpsMembers {seps : Separators} (hseps : seps.IsWs)
    {ms : List (Str × Scalar)} (hne : ms ≠ []) (hms : ∀ m ∈ ms, ReadableMember m) {n : ℕ}
    (hn : ms.length < n) (rest : Str) :
    scanMembers n (Str.ofBytes (dumpsMembers seps ms) ++ rest) =
      some (ms.map fun m => (m.1, m.2.toJson), rest) := by
  induction ms generalizing n with
  | nil => exact absurd rfl hne
  | cons m ms ih =>
    rw [List.forall_mem_cons] at hms
    rw [List.length_cons] at hn
    obtain ⟨n, rfl⟩ : ∃ k, n = k + 2 := ⟨n - 2, by omega⟩
    cases ms with
    | nil =>
      have hsplit : Str.ofBytes (dumpsMembers seps [m]) ++ rest =
          Str.ofBytes (dumpsMember seps m) ++ CodePoint.ofByte 125 :: rest := by
        simp [dumpsMembers, Str.ofBytes]
      rw [hsplit, scanMembers_member hseps hms.1 (by decide), if_pos (by decide)]
      rfl
    | cons m' ms =>
      have hsplit : Str.ofBytes (dumpsMembers seps (m :: m' :: ms)) ++ rest =
          Str.ofBytes (dumpsMember seps m) ++ CodePoint.ofByte 44 ::
            (Str.ofBytes seps.afterItem ++
              (Str.ofBytes (dumpsMembers seps (m' :: ms)) ++ rest)) := by
        simp [dumpsMembers, Str.ofBytes]
      obtain ⟨t, ht⟩ := dumpsMembers_eq_cons seps m' ms
      have hskip : skipWs (Str.ofBytes seps.afterItem ++
          (Str.ofBytes (dumpsMembers seps (m' :: ms)) ++ rest)) =
          Str.ofBytes (dumpsMembers seps (m' :: ms)) ++ rest := by
        rw [ht]
        exact skipWs_append hseps.1 (d := CodePoint.ofByte 34) (by decide) _
      rw [hsplit, scanMembers_member hseps hms.1 (by decide), if_neg (by decide), hskip,
        ih (by simp) hms.2 (by omega)]
      rfl

/-- The text of the members is longer than their number. -/
lemma length_lt_dumpsMembers (seps : Separators) (ms : List (Str × Scalar)) :
    ms.length < (dumpsMembers seps ms).length := by
  induction ms with
  | nil => simp [dumpsMembers]
  | cons m ms ih =>
    cases ms with
    | nil => simp [dumpsMembers, dumpsMember, jsonString]
    | cons m' ms =>
      simp only [dumpsMembers, List.length_append, List.length_cons] at ih ⊢
      omega

/-- Reading a written object gives its members back. -/
theorem jsonLoads_jsonDumps {seps : Separators} (hseps : seps.IsWs)
    {ms : List (Str × Scalar)} (hne : ms ≠ []) (hms : ∀ m ∈ ms, ReadableMember m) :
    jsonLoads (Str.ofBytes (jsonDumps seps ms)) =
      some (.obj (ms.map fun m => (m.1, m.2.toJson))) := by
  obtain ⟨m, ms', rfl⟩ := List.exists_cons_of_ne_nil hne
  obtain ⟨t, ht⟩ := dumpsMembers_eq_cons seps m ms'
  have hlen := length_lt_dumpsMembers seps (m :: ms')
  have hcons : Str.ofBytes (jsonDumps seps (m :: ms')) =
      CodePoint.ofByte 123 :: Str.ofBytes (dumpsMembers seps (m :: ms')) := rfl
  have hsize : (Str.ofBytes (jsonDumps seps (m :: ms'))).length =
      (dumpsMembers seps (m :: ms')).length + 1 := by simp [Str.ofBytes, jsonDumps]
  have hmembers := scanMembers_dumpsMembers hseps hne hms
    (n := (Str.ofBytes (jsonDumps seps (m :: ms'))).length)
    (by rw [hsize]; exact Nat.lt_succ_of_lt hlen) []
  rw [List.append_nil] at hmembers
  have hfirst : Str.ofBytes (dumpsMembers seps (m :: ms')) =
      CodePoint.ofByte 34 :: Str.ofBytes t := by rw [ht]; rfl
  have hvalue : scanValue ((Str.ofBytes (jsonDumps seps (m :: ms'))).length + 1)
      (Str.ofBytes (jsonDumps seps (m :: ms'))) =
        some (.obj ((m :: ms').map fun m => (m.1, m.2.toJson)), []) := by
    rw [hfirst] at hmembers
    rw [hcons, scanValue, if_neg (by decide), if_pos (by decide), hfirst, skipWs_cons (by decide)]
    simp only
    rw [if_neg (by decide), ← hfirst, ← hcons, hfirst, hmembers]
    rfl
  have hbom : (Str.ofBytes (jsonDumps seps (m :: ms'))).head? ≠ some 0xFEFF := by
    rw [hcons, List.head?_cons]
    decide
  have hskip : skipWs (Str.ofBytes (jsonDumps seps (m :: ms'))) =
      Str.ofBytes (jsonDumps seps (m :: ms')) := by
    rw [hcons]
    exact skipWs_cons (by decide) _
  rw [jsonLoads, if_neg hbom, hskip, hvalue]
  rfl

/-- Nothing stands between the members of a message. -/
lemma Separators.isWs_compact : Separators.compact.IsWs := by
  constructor <;> simp [Separators.compact, Str.ofBytes]

/-- The separators of an envelope are blanks. -/
lemma Separators.isWs_spaced : Separators.spaced.IsWs := by
  constructor <;> simp [Separators.spaced, Str.ofBytes, isJsonWs]

/-! ## The bytes of a written text -/

/-- Every byte is a printable ASCII character. -/
def IsPrintable (bs : Bytes) : Prop := ∀ b ∈ bs, 32 ≤ b.toNat ∧ b.toNat ≤ 126

instance (bs : Bytes) : Decidable (IsPrintable bs) :=
  List.decidableBAll (fun b : UInt8 => 32 ≤ b.toNat ∧ b.toNat ≤ 126) bs

/-- A concatenation is printable when its parts are. -/
lemma isPrintable_append {as bs : Bytes} :
    IsPrintable (as ++ bs) ↔ IsPrintable as ∧ IsPrintable bs :=
  List.forall_mem_append

/-- A first byte and the rest. -/
lemma isPrintable_cons {b : UInt8} {bs : Bytes} :
    IsPrintable (b :: bs) ↔ (32 ≤ b.toNat ∧ b.toNat ≤ 126) ∧ IsPrintable bs :=
  List.forall_mem_cons

/-- Nothing is written in no bytes. -/
lemma isPrintable_nil : IsPrintable [] := by
  simp [IsPrintable]

/-- The escape of a code unit is printable. -/
lemma isPrintable_escapeUnit (n : ℕ) : IsPrintable (escapeUnit n) := by
  have hdigit : ∀ m < 16, 32 ≤ (hexDigit m).toNat ∧ (hexDigit m).toNat ≤ 126 := by decide
  have hmod : ∀ m, m % 16 < 16 := fun m => Nat.mod_lt _ (by decide)
  intro b hb
  simp only [escapeUnit, List.mem_cons, List.not_mem_nil, or_false] at hb
  rcases hb with rfl | rfl | rfl | rfl | rfl | rfl
  · decide
  · decide
  · exact hdigit _ (hmod _)
  · exact hdigit _ (hmod _)
  · exact hdigit _ (hmod _)
  · exact hdigit _ (hmod _)

/-- What a code point is written as is printable. -/
lemma isPrintable_jsonEscapeChar (c : CodePoint) : IsPrintable (jsonEscapeChar c) := by
  have hsmall : c.val < 127 → (UInt8.ofNat c.val).toNat = c.val := by
    intro h
    rw [UInt8.toNat_ofNat']
    omega
  intro b hb
  unfold jsonEscapeChar at hb
  split_ifs at hb with h₁ h₂ h₃ h₄ h₅ h₆ h₇
  · simp only [List.mem_cons, List.not_mem_nil, or_false] at hb
    rcases hb with rfl | rfl
    · decide
    · rw [hsmall (by omega)]
      omega
  iterate 5
    simp only [List.mem_cons, List.not_mem_nil, or_false] at hb
    rcases hb with rfl | rfl <;> decide
  · simp only [List.mem_cons, List.not_mem_nil, or_false] at hb
    rw [hb, hsmall (by omega)]
    exact h₇
  · obtain ⟨n, -, hn⟩ := List.mem_flatMap.mp hb
    exact isPrintable_escapeUnit n b hn

/-- An escaped text is printable. -/
lemma isPrintable_jsonEscape (s : Str) : IsPrintable (jsonEscape s) := by
  intro b hb
  obtain ⟨c, -, hc⟩ := List.mem_flatMap.mp hb
  exact isPrintable_jsonEscapeChar c b hc

/-- A quoted text is printable. -/
lemma isPrintable_jsonString (s : Str) : IsPrintable (jsonString s) := by
  rw [jsonString, List.cons_append, isPrintable_cons, isPrintable_append]
  exact ⟨by decide, isPrintable_jsonEscape s, by decide⟩

/-- A written scalar is printable. -/
lemma isPrintable_dumps (v : Scalar) : IsPrintable v.dumps := by
  cases v with
  | digit n =>
    revert n
    decide
  | bool b =>
    cases b <;> decide
  | str s => exact isPrintable_jsonString s

/-- The white space between members is printable. -/
def Separators.IsPrintable (seps : Separators) : Prop :=
  HybridEccAuth.IsPrintable seps.afterItem ∧ HybridEccAuth.IsPrintable seps.afterName

/-- A message has no white space that is not printable. -/
lemma Separators.isPrintable_compact : Separators.compact.IsPrintable :=
  ⟨isPrintable_nil, isPrintable_nil⟩

/-- The blanks of an envelope are printable. -/
lemma Separators.isPrintable_spaced : Separators.spaced.IsPrintable := by
  constructor <;> decide

/-- A written object is printable. -/
theorem isPrintable_jsonDumps {seps : Separators} (hseps : seps.IsPrintable)
    (ms : List (Str × Scalar)) : IsPrintable (jsonDumps seps ms) := by
  have hmember : ∀ m : Str × Scalar, IsPrintable (dumpsMember seps m) := by
    intro m
    rw [dumpsMember, isPrintable_append, isPrintable_append, isPrintable_cons]
    exact ⟨⟨isPrintable_jsonString _, by decide, hseps.2⟩, isPrintable_dumps _⟩
  have hmembers : IsPrintable (dumpsMembers seps ms) := by
    induction ms using dumpsMembers.induct with
    | case1 => exact isPrintable_cons.mpr ⟨by decide, isPrintable_nil⟩
    | case2 m =>
      rw [dumpsMembers, isPrintable_append, isPrintable_cons]
      exact ⟨hmember m, by decide, isPrintable_nil⟩
    | case3 m ms hne ih =>
      rw [dumpsMembers.eq_3 _ _ _ hne, isPrintable_append, isPrintable_append, isPrintable_cons]
      exact ⟨⟨hmember m, by decide, hseps.1⟩, ih⟩
  exact isPrintable_cons.mpr ⟨by decide, hmembers⟩

/-- A written object is decoded to its own characters. -/
lemma utf8Decode_jsonDumps {seps : Separators} (hseps : seps.IsPrintable)
    (ms : List (Str × Scalar)) :
    utf8Decode (jsonDumps seps ms) = some (Str.ofBytes (jsonDumps seps ms)) := by
  apply utf8Decode_ascii
  intro b hb
  have := isPrintable_jsonDumps hseps ms b hb
  omega

end HybridEccAuth

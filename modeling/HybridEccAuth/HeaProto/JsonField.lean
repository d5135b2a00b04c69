import HybridEccAuth.Data.JsonRoundTrip
import HybridEccAuth.Library.Search

/-!
# Text fields of an envelope, as the C device reads them

`json_str` of `hea_proto.c` on the bytes of a C string without its terminator.  It is
no parser: it searches for the quoted key, skips spaces and colons, and copies what
follows the next quotation mark into a buffer, up to the closing one.

`copyValue_jsonEscape` says that a printable text written by the server is copied as
it was.  In what the server writes, a quoted key is found inside a value only at the
end of the value (`suffix_jsonEscape_iff`, `guarded_jsonEscape`).
-/

namespace HybridEccAuth.HeaProto

/-- The quoted key, as far as the pattern buffer of 24 bytes holds it. -/
def searchPattern (key : Bytes) : Bytes := (34 :: key ++ [34]).take 23

/-- What a character after a backslash stands for. -/
def unescapeChar (c : UInt8) : Option UInt8 :=
  if c = 110 then some 10
  else if c ≠ 34 ∧ c ≠ 92 ∧ c ≠ 47 then none
  else some c

/-- The outcome of `json_str`: whether it returned `0`, and the characters it has written. -/
structure JsonStr where
  ok : Bool
  out : Bytes
  deriving DecidableEq

namespace JsonStr

/-- The outcome when nothing was written. -/
def failed : JsonStr := ⟨false, []⟩

/-- One more character in front. -/
def cons (c : UInt8) (r : JsonStr) : JsonStr := ⟨r.ok, c :: r.out⟩

/-- The text that was read, if `json_str` returned `0`. -/
def value (r : JsonStr) : Option Bytes := if r.ok then some r.out else none

@[simp] lemma ok_cons (c : UInt8) (r : JsonStr) : (r.cons c).ok = r.ok := rfl

@[simp] lemma out_cons (c : UInt8) (r : JsonStr) : (r.cons c).out = c :: r.out := rfl

end JsonStr

/-- Writes a character in front of what is copied after it, while the terminator still fits. -/
def putChar (cap o : ℕ) (c : UInt8) (rest : JsonStr) : JsonStr :=
  if cap ≤ o + 1 then .failed else rest.cons c

/-- The copying loop, with `o` characters written into a buffer of `cap`: up to the closing
quotation mark. -/
def copyValue (cap o : ℕ) : Bytes → JsonStr
  | [] => .failed
  | c :: p =>
    if c = 34 then ⟨true, []⟩
    else if c = 92 then
      match p with
      | [] => .failed
      | e :: p =>
        match unescapeChar e with
        | none => .failed
        | some c => putChar cap o c (copyValue cap (o + 1) p)
    else putChar cap o c (copyValue cap (o + 1) p)

/-- What may stand between a key and its value. -/
def isGap (c : UInt8) : Bool := c = 32 || c = 58

/-- The value after a key. -/
def readValue (cap : ℕ) (p : Bytes) : JsonStr :=
  match p.dropWhile isGap with
  | [] => .failed
  | c :: p => if c = 34 then copyValue cap 0 p else .failed

/-- `json_str` into a buffer of `cap` bytes. -/
def jsonStr (js key : Bytes) (cap : ℕ) : JsonStr :=
  match Search.afterFirst (searchPattern key) js with
  | none => .failed
  | some p => readValue cap p

/-! ## What is copied -/

/-- The closing quotation mark ends the copy. -/
lemma copyValue_quote (cap o : ℕ) (p : Bytes) : copyValue cap o (34 :: p) = ⟨true, []⟩ := by
  rw [copyValue.eq_def]
  simp only [if_pos]

/-- An escape. -/
lemma copyValue_escape (cap o : ℕ) (e : UInt8) (p : Bytes) :
    copyValue cap o (92 :: e :: p) = match unescapeChar e with
      | none => .failed
      | some c => putChar cap o c (copyValue cap (o + 1) p) := by
  rw [copyValue.eq_def]
  rfl

/-- Any other character. -/
lemma copyValue_char (cap o : ℕ) {c : UInt8} (h34 : c ≠ 34) (h92 : c ≠ 92) (p : Bytes) :
    copyValue cap o (c :: p) = putChar cap o c (copyValue cap (o + 1) p) := by
  rw [copyValue.eq_def]
  simp only [if_neg h34, if_neg h92]

/-- The cases of the copying loop: what fails or ends at once, and what goes on after a character,
which is not the terminator if the text has none. -/
lemma copyValue_cases (p : Bytes) :
    (∀ cap o, (copyValue cap o p).out = []) ∨
      ∃ c p', p'.length < p.length ∧ (0 ∉ p → c ≠ 0 ∧ 0 ∉ p') ∧
        ∀ cap o, copyValue cap o p = putChar cap o c (copyValue cap (o + 1) p') := by
  rcases p with _ | ⟨c, p⟩
  · exact Or.inl fun _ _ => rfl
  · by_cases h34 : c = 34
    · subst h34
      exact Or.inl fun cap o => by rw [copyValue_quote]
    · by_cases h92 : c = 92
      · subst h92
        rcases p with _ | ⟨e, p⟩
        · exact Or.inl fun _ _ => rfl
        · rcases he : unescapeChar e with _ | c
          · exact Or.inl fun cap o => by rw [copyValue_escape, he]; rfl
          · have hlt : p.length < (92 :: e :: p).length := by
              simp only [List.length_cons]
              omega
            refine Or.inr ⟨c, p, hlt, fun h0 => ?_, fun cap o => by rw [copyValue_escape, he]⟩
            simp only [List.mem_cons, not_or] at h0
            refine ⟨?_, h0.2.2⟩
            rintro rfl
            unfold unescapeChar at he
            split_ifs at he
            · cases he
            · exact h0.2.1 (Option.some.inj he).symm
      · refine Or.inr ⟨c, p, by simp, fun h0 => ?_, fun cap o => copyValue_char cap o h34 h92 p⟩
        simp only [List.mem_cons, not_or] at h0
        exact ⟨Ne.symm h0.1, h0.2⟩

/-- What is copied leaves room for the terminator. -/
lemma length_copyValue {cap o : ℕ} (ho : o < cap) (p : Bytes) :
    o + (copyValue cap o p).out.length < cap := by
  induction hn : p.length using Nat.strong_induction_on generalizing o p with
  | h n ih =>
    subst hn
    rcases copyValue_cases p with h | ⟨c, p', hlt, -, h⟩
    · simpa [h] using ho
    · rw [h, putChar]
      split_ifs with hcap
      · simpa [JsonStr.failed] using ho
      · have := ih _ hlt (by omega : o + 1 < cap) p' rfl
        simp only [JsonStr.out_cons, List.length_cons]
        omega

/-- A text without terminators is copied without terminators. -/
lemma not_mem_copyValue {p : Bytes} (hp : 0 ∉ p) (cap o : ℕ) : 0 ∉ (copyValue cap o p).out := by
  induction hn : p.length using Nat.strong_induction_on generalizing o p with
  | h n ih =>
    subst hn
    rcases copyValue_cases p with h | ⟨c, p', hlt, h0, h⟩
    · simp [h]
    · obtain ⟨hc, hp'⟩ := h0 hp
      rw [h, putChar]
      split_ifs with hcap
      · simp [JsonStr.failed]
      · have := ih _ hlt hp' (o + 1) rfl
        simp only [JsonStr.out_cons, List.mem_cons, not_or]
        exact ⟨Ne.symm hc, this⟩

/-- What is read leaves room for the terminator. -/
lemma length_jsonStr (js key : Bytes) {cap : ℕ} (hcap : 0 < cap) :
    (jsonStr js key cap).out.length < cap := by
  unfold jsonStr readValue
  split
  · simpa [JsonStr.failed] using hcap
  · split
    · simpa [JsonStr.failed] using hcap
    · split_ifs
      · simpa using length_copyValue hcap _
      · simpa [JsonStr.failed] using hcap

/-- What is read from a text without terminators has none. -/
lemma not_mem_jsonStr {js : Bytes} (hjs : 0 ∉ js) (key : Bytes) (cap : ℕ) :
    0 ∉ (jsonStr js key cap).out := by
  unfold jsonStr
  split
  · simp [JsonStr.failed]
  · rename_i p hp
    obtain ⟨before, rfl⟩ := Search.append_of_afterFirst hp
    have h0 : 0 ∉ p := fun h => hjs (List.mem_append_right _ h)
    unfold readValue
    split
    · simp [JsonStr.failed]
    · rename_i c p' hdrop
      have hsub : ∀ b ∈ c :: p', b ∈ p := fun b hb =>
        (List.dropWhile_suffix isGap).subset (hdrop ▸ hb)
      split_ifs
      · exact not_mem_copyValue (fun h => h0 (hsub 0 (List.mem_cons_of_mem _ h))) cap 0
      · simp [JsonStr.failed]

/-! ## Texts written by the server -/

/-- A printable character is written as it is, or after a backslash. -/
lemma jsonEscapeChar_ofByte {b : UInt8} (hb : 32 ≤ b.toNat ∧ b.toNat ≤ 126) :
    jsonEscapeChar (CodePoint.ofByte b) = if b = 34 ∨ b = 92 then [92, b] else [b] := by
  have hiff : (b.toNat = 34 ∨ b.toNat = 92) ↔ (b = 34 ∨ b = 92) := by
    rw [← UInt8.toNat_inj, ← UInt8.toNat_inj]
    rfl
  unfold jsonEscapeChar
  simp only [CodePoint.val_ofByte, hiff, UInt8.ofNat_toNat]
  split_ifs with h1 h2 h3 h4 h5 h6
  · rfl
  iterate 5 omega
  · rfl

/-- The first character of a printable text, and the rest. -/
lemma jsonEscape_ofBytes_cons {b : UInt8} (hb : 32 ≤ b.toNat ∧ b.toNat ≤ 126) (bs : Bytes) :
    jsonEscape (Str.ofBytes (b :: bs)) =
      (if b = 34 ∨ b = 92 then [92, b] else [b]) ++ jsonEscape (Str.ofBytes bs) := by
  rw [← jsonEscapeChar_ofByte hb]
  rfl

/-- A printable text is copied as it was before it was escaped, if the buffer is large enough. -/
theorem copyValue_jsonEscape {bs : Bytes} (hbs : IsPrintable bs) {cap o : ℕ}
    (hcap : o + bs.length < cap) (rest : Bytes) :
    copyValue cap o (jsonEscape (Str.ofBytes bs) ++ 34 :: rest) = ⟨true, bs⟩ := by
  induction bs generalizing o with
  | nil => exact copyValue_quote cap o rest
  | cons b bs ih =>
    obtain ⟨hb, hbs⟩ := isPrintable_cons.mp hbs
    rw [List.length_cons] at hcap
    have hput : putChar cap o b ⟨true, bs⟩ = ⟨true, b :: bs⟩ := if_neg (by omega)
    have hrest := ih hbs (by omega : o + 1 + bs.length < cap)
    rw [jsonEscape_ofBytes_cons hb]
    split_ifs with hesc
    · have hun : unescapeChar b = some b := by
        rcases hesc with rfl | rfl <;> decide
      rw [List.append_assoc, List.cons_append, List.cons_append, List.nil_append, copyValue_escape,
        hun, hrest]
      exact hput
    · rw [not_or] at hesc
      rw [List.append_assoc, List.cons_append, List.nil_append, copyValue_char cap o hesc.1 hesc.2,
        hrest, hput]

/-- The escape of a code point guards its quotation mark. -/
lemma guarded_jsonEscapeChar (prev : UInt8) (c : CodePoint) :
    Search.Guarded 34 92 prev (jsonEscapeChar c) := by
  have hhex : ∀ n < 16, hexDigit n ≠ 34 := by decide
  have hunit : ∀ n, 34 ∉ escapeUnit n := by
    intro n
    simp only [escapeUnit, List.mem_cons, List.not_mem_nil, or_false, not_or]
    exact ⟨by decide, by decide, Ne.symm (hhex _ (Nat.mod_lt _ (by decide))),
      Ne.symm (hhex _ (Nat.mod_lt _ (by decide))), Ne.symm (hhex _ (Nat.mod_lt _ (by decide))),
      Ne.symm (hhex _ (Nat.mod_lt _ (by decide)))⟩
  unfold jsonEscapeChar
  split_ifs with h1 h2 h3 h4 h5 h6 h7
  · exact ⟨fun h => absurd h (by decide), fun _ => rfl, trivial⟩
  iterate 5
    exact Search.guarded_of_not_mem (by decide) prev
  · refine Search.guarded_of_not_mem ?_ prev
    rw [List.mem_singleton]
    intro h34
    have := congrArg UInt8.toNat h34
    rw [UInt8.toNat_ofNat'] at this
    have : (34 : UInt8).toNat = 34 := rfl
    omega
  · refine Search.guarded_of_not_mem (fun h => ?_) prev
    obtain ⟨n, -, hn⟩ := List.mem_flatMap.mp h
    exact hunit n hn

/-- In an escaped text every quotation mark has a backslash before it. -/
theorem guarded_jsonEscape (prev : UInt8) (s : Str) :
    Search.Guarded 34 92 prev (jsonEscape s) := by
  induction s generalizing prev with
  | nil => trivial
  | cons c s ih =>
    rw [jsonEscape, List.flatMap_cons, Search.guarded_append]
    exact ⟨guarded_jsonEscapeChar prev c, ih _⟩

/-- A word without marks is the escape of itself only. -/
lemma jsonEscape_eq_iff {bs key : Bytes} (hbs : IsPrintable bs) (h34 : 34 ∉ key) (h92 : 92 ∉ key) :
    jsonEscape (Str.ofBytes bs) = key ↔ bs = key := by
  induction bs generalizing key with
  | nil => rfl
  | cons b bs ih =>
    obtain ⟨hb, hbs⟩ := isPrintable_cons.mp hbs
    rw [jsonEscape_ofBytes_cons hb]
    split_ifs with hesc
    · constructor
      · rintro rfl
        exact absurd (List.mem_cons_self) h92
      · rintro rfl
        rcases hesc with rfl | rfl
        · exact absurd (List.mem_cons_self) h34
        · exact absurd (List.mem_cons_self) h92
    · rcases key with _ | ⟨k, key⟩
      · simp
      · rw [List.mem_cons, not_or] at h34 h92
        rw [List.cons_append, List.nil_append, List.cons.injEq, List.cons.injEq,
          ih hbs h34.2 h92.2]

/-- An escaped text ends with a quoted word exactly when the text does. -/
lemma suffix_jsonEscape_iff {bs key : Bytes} (hbs : IsPrintable bs) (h34 : 34 ∉ key)
    (h92 : 92 ∉ key) : 34 :: key <:+ jsonEscape (Str.ofBytes bs) ↔ 34 :: key <:+ bs := by
  induction bs with
  | nil => rfl
  | cons b bs ih =>
    obtain ⟨hb, hbs⟩ := isPrintable_cons.mp hbs
    have hword := jsonEscape_eq_iff hbs h34 h92
    rw [jsonEscape_ofBytes_cons hb, List.suffix_cons_iff, List.cons.injEq, eq_comm (b := bs),
      ← hword, ← ih hbs]
    split_ifs with hesc
    · rw [List.cons_append, List.cons_append, List.nil_append, List.suffix_cons_iff,
        List.suffix_cons_iff, List.cons.injEq, List.cons.injEq]
      have h92' : ¬ ((34 : UInt8) = 92 ∧ key = b :: jsonEscape (Str.ofBytes bs)) :=
        fun h => absurd h.1 (by decide)
      rw [or_iff_right h92', eq_comm (a := key)]
    · rw [List.cons_append, List.nil_append, List.suffix_cons_iff, List.cons.injEq,
        eq_comm (a := key)]

end HybridEccAuth.HeaProto

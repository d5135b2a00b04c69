import HybridEccAuth.Data.Bytes

/-!
# Text as code points

The strings that come out of a JSON text may hold surrogate code points, which no
`Char` is, so text read from the wire is a list of code points below `0x110000`
(`Str`).  A `String` embeds into it (`Str.ofString`), and a text is a `String`
exactly when it holds no surrogate (`Str.toString?`).

`utf8Decode` is strict: it rejects overlong forms, encoded surrogates, values from
`0x110000` on and truncated sequences.
-/

namespace HybridEccAuth

/-- A code point, surrogates included. -/
abbrev CodePoint := Fin 0x110000

/-- Text as a sequence of code points. -/
abbrev Str := List CodePoint

instance codePoint_neZero : NeZero 0x110000 := ⟨by decide⟩

namespace CodePoint

/-- The code point of a character. -/
def ofChar (c : Char) : CodePoint := Fin.ofNat _ c.toNat

/-- The code point of an ASCII byte. -/
def ofByte (b : UInt8) : CodePoint := Fin.ofNat _ b.toNat

/-- The character of a code point, if the code point is not a surrogate. -/
def toChar? (c : CodePoint) : Option Char :=
  if h : Nat.isValidChar c.val then some (Char.ofNatAux c.val h) else none

/-- The number of a character is its code point. -/
@[simp] lemma val_ofChar (c : Char) : (ofChar c).val = c.toNat := by
  have h : c.toNat < 0x110000 := by
    rcases c.valid with h | h
    · exact lt_trans h (by decide)
    · exact h.2
  simp [ofChar, Fin.ofNat, Nat.mod_eq_of_lt h]

/-- The number of a byte is its code point. -/
@[simp] lemma val_ofByte (b : UInt8) : (ofByte b).val = b.toNat := by
  have h : b.toNat < 0x110000 := lt_trans b.toNat_lt (by decide)
  simp [ofByte, Fin.ofNat, Nat.mod_eq_of_lt h]

/-- A character is recovered from its code point. -/
lemma toChar?_ofChar (c : Char) : (ofChar c).toChar? = some c := by
  have h : Nat.isValidChar (ofChar c).val := by rw [val_ofChar]; exact c.valid
  rw [toChar?, dif_pos h]
  congr 1
  apply Char.ext
  apply UInt32.toNat_inj.mp
  exact val_ofChar c

end CodePoint

namespace Str

/-- The code points of a string. -/
def ofString (s : String) : Str := s.toList.map CodePoint.ofChar

/-- The string with these code points, if none of them is a surrogate. -/
def toString? (s : Str) : Option String := (s.mapM CodePoint.toChar?).map String.ofList

/-- A string is recovered from its code points. -/
theorem toString?_ofString (s : String) : (ofString s).toString? = some s := by
  have h : ∀ l : List Char, (l.map CodePoint.ofChar).mapM CodePoint.toChar? = some l := by
    intro l
    induction l with
    | nil => rfl
    | cons c l ih => simp [List.mapM_cons, CodePoint.toChar?_ofChar, ih]
  rw [toString?, ofString, h, Option.map_some, String.ofList_toList]

/-- Different strings have different code points. -/
lemma ofString_injective : Function.Injective ofString := by
  intro s t h
  have := toString?_ofString s
  rw [h, toString?_ofString] at this
  exact (Option.some_inj.mp this).symm

/-- The text of ASCII bytes. -/
def ofBytes (bs : Bytes) : Str := bs.map CodePoint.ofByte

instance decidableAscii (bs : Bytes) : Decidable (∀ b ∈ bs, b.toNat < 128) :=
  List.decidableBAll (fun b : UInt8 => b.toNat < 128) bs

/-- `bytes.decode("ascii")`: fails on a byte from 128 on. -/
def decodeAscii (bs : Bytes) : Option Str :=
  if ∀ b ∈ bs, b.toNat < 128 then some (ofBytes bs) else none

/-- `str.encode("ascii")`: fails on a code point from 128 on. -/
def encodeAscii (s : Str) : Option Bytes :=
  if ∀ c ∈ s, c.val < 128 then some (s.map fun c => UInt8.ofNat c.val) else none

/-- ASCII bytes survive the decoding and encoding. -/
lemma encodeAscii_ofBytes {bs : Bytes} (h : ∀ b ∈ bs, b.toNat < 128) :
    encodeAscii (ofBytes bs) = some bs := by
  have hs : ∀ c ∈ ofBytes bs, c.val < 128 := by
    intro c hc
    obtain ⟨b, hb, rfl⟩ := List.mem_map.mp hc
    simpa using h b hb
  rw [encodeAscii, if_pos hs, ofBytes, List.map_map]
  congr 1
  conv_rhs => rw [← List.map_id bs]
  apply List.map_congr_left
  intro b _
  simp

end Str

/-- A continuation byte of UTF-8. -/
def isUtf8Tail (b : UInt8) : Prop := 0x80 ≤ b.toNat ∧ b.toNat ≤ 0xBF

instance (b : UInt8) : Decidable (isUtf8Tail b) := by unfold isUtf8Tail; infer_instance

/-- `bytes.decode("utf-8")`, strict. -/
def utf8Decode : Bytes → Option Str
  | [] => some []
  | a :: rest =>
    if a.toNat < 0x80 then (utf8Decode rest).map (CodePoint.ofByte a :: ·)
    else if 0xC2 ≤ a.toNat ∧ a.toNat ≤ 0xDF then
      match rest with
      | b :: rest =>
        if isUtf8Tail b then
          (utf8Decode rest).map (Fin.ofNat _ (a.toNat % 0x20 * 0x40 + b.toNat % 0x40) :: ·)
        else none
      | [] => none
    else if 0xE0 ≤ a.toNat ∧ a.toNat ≤ 0xEF then
      match rest with
      | b :: c :: rest =>
        -- after `E0` an overlong form is excluded, after `ED` a surrogate
        if isUtf8Tail b ∧ isUtf8Tail c ∧ (a.toNat = 0xE0 → 0xA0 ≤ b.toNat) ∧
            (a.toNat = 0xED → b.toNat ≤ 0x9F) then
          (utf8Decode rest).map
            (Fin.ofNat _ (a.toNat % 0x10 * 0x1000 + b.toNat % 0x40 * 0x40 + c.toNat % 0x40) :: ·)
        else none
      | _ => none
    else if 0xF0 ≤ a.toNat ∧ a.toNat ≤ 0xF4 then
      match rest with
      | b :: c :: d :: rest =>
        if isUtf8Tail b ∧ isUtf8Tail c ∧ isUtf8Tail d ∧ (a.toNat = 0xF0 → 0x90 ≤ b.toNat) ∧
            (a.toNat = 0xF4 → b.toNat ≤ 0x8F) then
          (utf8Decode rest).map
            (Fin.ofNat _ (a.toNat % 0x08 * 0x40000 + b.toNat % 0x40 * 0x1000 +
              c.toNat % 0x40 * 0x40 + d.toNat % 0x40) :: ·)
        else none
      | _ => none
    else none

/-- On ASCII bytes the decoder is the identity. -/
theorem utf8Decode_ascii {bs : Bytes} (h : ∀ b ∈ bs, b.toNat < 128) :
    utf8Decode bs = some (Str.ofBytes bs) := by
  induction bs with
  | nil => rfl
  | cons b bs ih =>
    rw [List.forall_mem_cons] at h
    unfold utf8Decode
    rw [if_pos h.1, ih h.2]
    rfl

/-- `str.encode("utf-8")` of a string. -/
def utf8Encode (s : String) : Bytes := s.toList.flatMap String.utf8EncodeChar

/-- Strings are recovered from their bytes. -/
lemma utf8Encode_injective : Function.Injective utf8Encode := by
  intro s t h
  have hbytes : s.toList.utf8Encode = t.toList.utf8Encode := congrArg List.toByteArray h
  rw [← String.ofList_toList (s := s), ← String.ofList_toList (s := t), ← String.toByteArray_inj,
    String.toByteArray_ofList, String.toByteArray_ofList, hbytes]

end HybridEccAuth

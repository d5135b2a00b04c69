import HybridEccAuth.Data.Text
import Mathlib.Tactic.NormNum
import Mathlib.Data.Rat.Defs

/-!
# JSON texts

`jsonLoads` reads a JSON text the way `json.loads` of the Python standard library
does: the four white-space characters, strict strings (no raw control
characters), escaped surrogate pairs joined and lone surrogates kept, the
constants `NaN`, `Infinity` and `-Infinity`, at most 4300 digits in an integer,
and the last of several members with one name winning (`Json.get`).  A decimal
literal is kept as its exact value; only its comparison with `1` is rounded.

`jsonDumps` writes a flat object the way `json.dumps` does with `ensure_ascii`.

The main result, `jsonLoads_jsonDumps`, says that reading what was written gives
the object back, for every choice of names and string values without surrogates.
Its proof follows the writer: one lemma for an escaped code point, then by
induction a string (`scanString_jsonEscape`), a member, and the list of members.
-/

namespace HybridEccAuth

/-- A number literal with a fraction or an exponent, or one of the three constants. -/
inductive JsonFloat
  | decimal (mantissa exponent : ℤ)
  | nan
  | infinity
  | negInfinity
  deriving DecidableEq

/-- A JSON value; the members of an object are in the order of the text. -/
inductive Json
  | null
  | bool (b : Bool)
  | int (n : ℤ)
  | float (x : JsonFloat)
  | str (s : Str)
  | arr (items : List Json)
  | obj (members : List (Str × Json))

/-- Whether a decimal literal is rounded to the double `1.0`: the doubles next to `1` are
`1 - 2^-53` and `1 + 2^-52`, and ties go to `1`. -/
def JsonFloat.equalsOne : JsonFloat → Bool
  | .decimal m e =>
    decide (1 - 1 / 2 ^ 54 ≤ (m : ℚ) * 10 ^ e) && decide ((m : ℚ) * 10 ^ e ≤ 1 + 1 / 2 ^ 53)
  | _ => false

/-- Comparison of a value with the integer `1`: `True`, `1` and `1.0` are all equal to it. -/
def Json.equalsOne : Json → Bool
  | .bool b => b
  | .int n => n = 1
  | .float x => x.equalsOne
  | _ => false

/-- The text of a string value. -/
def Json.text? : Json → Option Str
  | .str s => some s
  | _ => none

/-- The member of an object with a given name; the last one wins. -/
def Json.get (members : List (Str × Json)) (name : Str) : Option Json :=
  (members.reverse.find? fun m => m.1 = name).map Prod.snd

/-! ## Reading -/

/-- The white space of JSON: space, tab, line feed and carriage return. -/
def isJsonWs (c : CodePoint) : Bool := c.val = 32 || c.val = 9 || c.val = 10 || c.val = 13

/-- Skip white space. -/
def skipWs (s : Str) : Str := s.dropWhile isJsonWs

/-- The value of a hexadecimal digit. -/
def hexValue (c : CodePoint) : Option ℕ :=
  if 48 ≤ c.val ∧ c.val ≤ 57 then some (c.val - 48)
  else if 97 ≤ c.val ∧ c.val ≤ 102 then some (c.val - 87)
  else if 65 ≤ c.val ∧ c.val ≤ 70 then some (c.val - 55)
  else none

/-- The code unit of four hexadecimal digits. -/
def hexUnit (a b c d : CodePoint) : Option CodePoint := do
  let a ← hexValue a
  let b ← hexValue b
  let c ← hexValue c
  let d ← hexValue d
  return Fin.ofNat _ (((a * 16 + b) * 16 + c) * 16 + d)

/-- The meaning of the character after a backslash, other than `u`. -/
def unescape (c : CodePoint) : Option CodePoint :=
  if c.val = 34 ∨ c.val = 92 ∨ c.val = 47 then some c
  else if c.val = 98 then some 8
  else if c.val = 102 then some 12
  else if c.val = 110 then some 10
  else if c.val = 114 then some 13
  else if c.val = 116 then some 9
  else none

/-- The code units of a string up to its closing quotation mark, and the text after it. -/
def scanChars : Str → Option (Str × Str)
  | [] => none
  | c :: s =>
    if c.val = 34 then some ([], s)
    else if c.val = 92 then
      match s with
      | [] => none
      | e :: s =>
        if e.val = 117 then
          match s with
          | h₁ :: h₂ :: h₃ :: h₄ :: s => do
            let u ← hexUnit h₁ h₂ h₃ h₄
            let (us, t) ← scanChars s
            return (u :: us, t)
          | _ => none
        else do
          let u ← unescape e
          let (us, t) ← scanChars s
          return (u :: us, t)
    else if c.val < 32 then none
    else do
      let (us, t) ← scanChars s
      return (c :: us, t)

/-- A high surrogate. -/
def isHighSurrogate (c : CodePoint) : Prop := 0xD800 ≤ c.val ∧ c.val ≤ 0xDBFF

/-- A low surrogate. -/
def isLowSurrogate (c : CodePoint) : Prop := 0xDC00 ≤ c.val ∧ c.val ≤ 0xDFFF

instance (c : CodePoint) : Decidable (isHighSurrogate c) := by
  unfold isHighSurrogate; infer_instance

instance (c : CodePoint) : Decidable (isLowSurrogate c) := by
  unfold isLowSurrogate; infer_instance

/-- The code point of a surrogate pair. -/
def joinPair (a b : CodePoint) : CodePoint :=
  Fin.ofNat _ (0x10000 + (a.val - 0xD800) * 0x400 + (b.val - 0xDC00))

/-- Join every surrogate pair, from left to right.  A surrogate only comes from an escape, as
strict UTF-8 has none, so these are the pairs of adjacent escapes. -/
def joinSurrogates : Str → Str
  | [] => []
  | [a] => [a]
  | a :: b :: s =>
    if isHighSurrogate a ∧ isLowSurrogate b then joinPair a b :: joinSurrogates s
    else a :: joinSurrogates (b :: s)

/-- A string after its opening quotation mark, and the text after it. -/
def scanString (s : Str) : Option (Str × Str) :=
  (scanChars s).map fun p => (joinSurrogates p.1, p.2)

/-- A decimal digit. -/
def isDigit (c : CodePoint) : Bool := 48 ≤ c.val && c.val ≤ 57

/-- The number written by decimal digits. -/
def digitsValue (ds : Str) : ℕ := ds.foldl (fun n c => n * 10 + (c.val - 48)) 0

/-- The longest run of decimal digits, and the text after it. -/
def scanDigits (s : Str) : Str × Str := (s.takeWhile isDigit, s.dropWhile isDigit)

/-- The integer part of a number: `0`, or digits that do not start with `0`. -/
def scanIntPart : Str → Option (Str × Str)
  | [] => none
  | c :: s =>
    if c.val = 48 then some ([c], s)
    else if isDigit c then some (c :: (scanDigits s).1, (scanDigits s).2)
    else none

/-- The digits of the fraction of a number, if there is one. -/
def scanFraction (s : Str) : Option Str × Str :=
  match s with
  | c :: d :: t =>
    if c.val = 46 ∧ isDigit d then (some (scanDigits (d :: t)).1, (scanDigits (d :: t)).2)
    else (none, s)
  | _ => (none, s)

/-- An optional sign. -/
def scanSign (s : Str) : ℤ × Str :=
  match s with
  | c :: t => if c.val = 45 then (-1, t) else if c.val = 43 then (1, t) else (1, s)
  | [] => (1, s)

/-- The exponent of a number, if there is one. -/
def scanExponent (s : Str) : Option ℤ × Str :=
  match s with
  | c :: t =>
    if c.val = 69 ∨ c.val = 101 then
      let (sign, t) := scanSign t
      let (ds, t) := scanDigits t
      if ds = [] then (none, s) else (some (sign * digitsValue ds), t)
    else (none, s)
  | [] => (none, s)

/-- The most digits `int` converts from text. -/
def maxIntDigits : ℕ := 4300

/-- A number. -/
def scanNumber (s : Str) : Option (Json × Str) :=
  let (sign, s) : ℤ × Str :=
    match s with
    | c :: t => if c.val = 45 then (-1, t) else (1, s)
    | [] => (1, s)
  match scanIntPart s with
  | none => none
  | some (ds, t) =>
    let (fs, t) := scanFraction t
    let (e, t) := scanExponent t
    if fs = none ∧ e = none then
      if ds.length ≤ maxIntDigits then some (.int (sign * digitsValue ds), t) else none
    else
      let fs := fs.getD []
      some (.float (.decimal (sign * digitsValue (ds ++ fs)) (e.getD 0 - fs.length)), t)

/-- The named constants. -/
def jsonConstants : List (String × Json) :=
  [("null", .null), ("true", .bool true), ("false", .bool false), ("NaN", .float .nan),
    ("Infinity", .float .infinity), ("-Infinity", .float .negInfinity)]

/-- A named constant at the start of the text. -/
def scanConstant (s : Str) : Option (Json × Str) :=
  jsonConstants.findSome? fun p =>
    if (Str.ofString p.1).isPrefixOf s then some (p.2, s.drop (Str.ofString p.1).length) else none

mutual

/-- A value at the start of the text, and the text after it.  The first argument bounds the number
of nested calls; the length of the text is always enough. -/
def scanValue : ℕ → Str → Option (Json × Str)
  | 0, _ => none
  | _ + 1, [] => none
  | n + 1, c :: s =>
    if c.val = 34 then (scanString s).map fun p => (.str p.1, p.2)
    else if c.val = 123 then
      match skipWs s with
      | [] => none
      | d :: t =>
        if d.val = 125 then some (.obj [], t)
        else (scanMembers n (d :: t)).map fun p => (.obj p.1, p.2)
    else if c.val = 91 then
      match skipWs s with
      | [] => none
      | d :: t =>
        if d.val = 93 then some (.arr [], t)
        else (scanElements n (d :: t)).map fun p => (.arr p.1, p.2)
    else (scanConstant (c :: s)).or (scanNumber (c :: s))

/-- The members of a non-empty object, up to its closing brace. -/
def scanMembers : ℕ → Str → Option (List (Str × Json) × Str)
  | 0, _ => none
  | _ + 1, [] => none
  | n + 1, c :: s =>
    if c.val = 34 then
      match scanString s with
      | none => none
      | some (name, s) =>
        match skipWs s with
        | [] => none
        | c :: s =>
          if c.val = 58 then
            match scanValue n (skipWs s) with
            | none => none
            | some (value, s) =>
              match skipWs s with
              | [] => none
              | c :: s =>
                if c.val = 125 then some ([(name, value)], s)
                else if c.val = 44 then
                  (scanMembers n (skipWs s)).map fun p => ((name, value) :: p.1, p.2)
                else none
          else none
    else none

/-- The items of a non-empty array, up to its closing bracket. -/
def scanElements : ℕ → Str → Option (List Json × Str)
  | 0, _ => none
  | n + 1, s =>
    match scanValue n s with
    | none => none
    | some (value, s) =>
      match skipWs s with
      | [] => none
      | c :: s =>
        if c.val = 93 then some ([value], s)
        else if c.val = 44 then (scanElements n (skipWs s)).map fun p => (value :: p.1, p.2)
        else none

end

/-- `json.loads` of a text: one value between white space, and no byte order mark. -/
def jsonLoads (s : Str) : Option Json :=
  if s.head? = some 0xFEFF then none
  else
    match scanValue (s.length + 1) (skipWs s) with
    | none => none
    | some (value, t) => if skipWs t = [] then some value else none

/-! ## Writing -/

/-- A hexadecimal digit, in lower case. -/
def hexDigit (n : ℕ) : UInt8 := if n < 10 then UInt8.ofNat (48 + n) else UInt8.ofNat (87 + n)

/-- The escape `\uXXXX` of a code unit. -/
def escapeUnit (n : ℕ) : Bytes :=
  [92, 117, hexDigit (n / 4096 % 16), hexDigit (n / 256 % 16), hexDigit (n / 16 % 16),
    hexDigit (n % 16)]

/-- The UTF-16 code units of a code point. -/
def utf16Units (c : CodePoint) : List ℕ :=
  if c.val < 0x10000 then [c.val]
  else [0xD800 + (c.val - 0x10000) / 0x400, 0xDC00 + (c.val - 0x10000) % 0x400]

/-- The text of one code point inside a JSON string, ASCII only. -/
def jsonEscapeChar (c : CodePoint) : Bytes :=
  if c.val = 34 ∨ c.val = 92 then [92, UInt8.ofNat c.val]
  else if c.val = 10 then [92, 110]
  else if c.val = 13 then [92, 114]
  else if c.val = 9 then [92, 116]
  else if c.val = 12 then [92, 102]
  else if c.val = 8 then [92, 98]
  else if 32 ≤ c.val ∧ c.val ≤ 126 then [UInt8.ofNat c.val]
  else (utf16Units c).flatMap escapeUnit

/-- The text of a string between its quotation marks. -/
def jsonEscape (s : Str) : Bytes := s.flatMap jsonEscapeChar

/-- A string with its quotation marks. -/
def jsonString (s : Str) : Bytes := 34 :: jsonEscape s ++ [34]

/-- What the members of a flat object may be: a one-digit number, a truth value or a string. -/
inductive Scalar
  | digit (n : Fin 10)
  | bool (b : Bool)
  | str (s : Str)

/-- The value a scalar stands for. -/
def Scalar.toJson : Scalar → Json
  | .digit n => .int n.val
  | .bool b => .bool b
  | .str s => .str s

/-- The text of a scalar. -/
def Scalar.dumps : Scalar → Bytes
  | .digit n => [UInt8.ofNat (48 + n.val)]
  | .bool true => [116, 114, 117, 101]
  | .bool false => [102, 97, 108, 115, 101]
  | .str s => jsonString s

/-- The white space written after a comma and after a colon. -/
structure Separators where
  afterItem : Bytes
  afterName : Bytes

/-- The separators `(",", ":")`. -/
def Separators.compact : Separators := ⟨[], []⟩

/-- The default separators `(", ", ": ")`. -/
def Separators.spaced : Separators := ⟨[32], [32]⟩

/-- One member. -/
def dumpsMember (seps : Separators) (m : Str × Scalar) : Bytes :=
  jsonString m.1 ++ 58 :: seps.afterName ++ m.2.dumps

/-- The members of an object up to its closing brace. -/
def dumpsMembers (seps : Separators) : List (Str × Scalar) → Bytes
  | [] => [125]
  | [m] => dumpsMember seps m ++ [125]
  | m :: ms => dumpsMember seps m ++ 44 :: seps.afterItem ++ dumpsMembers seps ms

/-- `json.dumps` of a flat object. -/
def jsonDumps (seps : Separators) (members : List (Str × Scalar)) : Bytes :=
  123 :: dumpsMembers seps members

end HybridEccAuth

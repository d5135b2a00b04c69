import HybridEccAuth.Data.Json

/-!
# Exceptions

Every exception the protocol code can raise, with the text it is raised with.  A
text is kept as the parts of the f-string that builds it (`TextPart`), so that an
exception records the values it mentions; how the language prints those values is
left to whoever renders the text.
-/

namespace HybridEccAuth

/-- The classes of exceptions that occur in the protocol code and in what it calls. -/
inductive ExcKind
  | integrityError
  | replayDetected
  | unknownPeerError
  | blockedEntity
  | coverageError
  | sessionTimeoutError
  | messageFormatError
  | invalidTag
  | valueError
  | keyError
  | indexError
  | typeError
  | zeroDivisionError
  | overflowError
  | structError
  | connectionError
  | unicodeDecodeError
  deriving DecidableEq

namespace ExcKind

/-- The subclasses of `AuthenticationError`. -/
def isAuthenticationError : ExcKind → Bool
  | integrityError | replayDetected | unknownPeerError | blockedEntity | coverageError
  | sessionTimeoutError => true
  | _ => false

/-- `type(exc).__name__`. -/
def typeName : ExcKind → String
  | integrityError => "IntegrityError"
  | replayDetected => "ReplayDetected"
  | unknownPeerError => "UnknownPeerError"
  | blockedEntity => "BlockedEntity"
  | coverageError => "CoverageError"
  | sessionTimeoutError => "SessionTimeoutError"
  | messageFormatError => "MessageFormatError"
  | invalidTag => "InvalidTag"
  | valueError => "ValueError"
  | keyError => "KeyError"
  | indexError => "IndexError"
  | typeError => "TypeError"
  | zeroDivisionError => "ZeroDivisionError"
  | overflowError => "OverflowError"
  | structError => "error"
  | connectionError => "ConnectionError"
  | unicodeDecodeError => "UnicodeDecodeError"

end ExcKind

/-- A part of the text of an exception: literal text, a value printed by `str` or by `repr`, or a
text that the language or a library writes. -/
inductive TextPart
  | lit (text : String)
  | str (identity : String)
  | reprStr (identity : String)
  | reprJson (value : Option Json)
  | int (n : ℤ)
  | seconds (n : ℚ)
  | library (name : String)

/-- A raised exception. -/
structure Exc where
  kind : ExcKind
  text : List TextPart

/-- An exception raised by the language or a library, whose text the program does not choose. -/
def Exc.ofLibrary (kind : ExcKind) : Exc := ⟨kind, [.library kind.typeName]⟩

/-- The class of the exception that was raised, if any. -/
def raised? {α : Type*} : Except Exc α → Option ExcKind
  | .ok _ => none
  | .error e => some e.kind

/-- A class was raised exactly when there is an exception of that class. -/
lemma raised?_eq_some_iff {α : Type*} {x : Except Exc α} {k : ExcKind} :
    raised? x = some k ↔ ∃ e, x = .error e ∧ e.kind = k := by
  rcases x with e | a <;> simp [raised?]

/-- A value was returned exactly when it is the value of the outcome. -/
lemma toOption_eq_some_iff {α : Type*} {x : Except Exc α} {a : α} :
    x.toOption = some a ↔ x = .ok a := by
  rcases x with e | b <;> simp [Except.toOption]

/-- How `str` and `repr` print the values that occur in the texts. -/
structure Render where
  reprStr : String → Str
  reprJson : Option Json → Str
  seconds : ℚ → Str
  library : String → Str

/-- Texts as they are printed for identities without quotes. -/
def Render.plain : Render where
  reprStr p := Str.ofString ("'" ++ p ++ "'")
  reprJson _ := []
  seconds _ := []
  library name := Str.ofString name

/-- `str(exc)`. -/
def Exc.str (r : Render) (e : Exc) : Str :=
  e.text.flatMap fun
    | .lit text => Str.ofString text
    | .str identity => Str.ofString identity
    | .reprStr identity => r.reprStr identity
    | .reprJson value => r.reprJson value
    | .int n => Str.ofString (toString n)
    | .seconds n => r.seconds n
    | .library name => r.library name

/-- What the connection handler catches: an authentication error or a message format error. -/
def Exc.isHandled (e : Exc) : Prop :=
  e.kind.isAuthenticationError = true ∨ e.kind = .messageFormatError

instance (e : Exc) : Decidable e.isHandled := by unfold Exc.isHandled; infer_instance

/-- A part of a text that is short when the given identities are: a phrase of the program, one of
the identities, or an integer of 64 bits. -/
def TextPart.Brief (names : List String) : TextPart → Prop
  | .lit text => text.length ≤ 80
  | .str identity | .reprStr identity => identity ∈ names
  | .int n => 0 ≤ n ∧ n < 2 ^ 64
  | _ => False

/-- An exception whose text is short when the given identities are. -/
def Exc.Brief (names : List String) (e : Exc) : Prop :=
  e.text.length ≤ 4 ∧ ∀ part ∈ e.text, part.Brief names

/-- A rejection: an authentication error with a short text. -/
def Exc.IsRejection (names : List String) (e : Exc) : Prop :=
  e.kind.isAuthenticationError = true ∧ e.Brief names

/-- A rejection is handled. -/
lemma Exc.IsRejection.isHandled {names : List String} {e : Exc} (h : e.IsRejection names) :
    e.isHandled :=
  Or.inl h.1

/-- A text about an identity and an epoch is short. -/
lemma Exc.brief_of_epoch {names : List String} {peer : String} {epoch : ℤ} (kind : ExcKind)
    (hpeer : peer ∈ names) (hepoch : 0 ≤ epoch ∧ epoch < 2 ^ 64) {a b : String}
    (ha : a.length ≤ 80) (hb : b.length ≤ 80) :
    Exc.Brief names ⟨kind, [.lit a, .reprStr peer, .lit b, .int epoch]⟩ := by
  refine ⟨le_refl _, ?_⟩
  simp only [List.forall_mem_cons]
  exact ⟨ha, hpeer, hb, hepoch, by simp⟩

/-- A text that starts or ends with an identity is short. -/
lemma Exc.brief_of_identity {names : List String} {peer : String} (kind : ExcKind)
    (hpeer : peer ∈ names) {a : String} (ha : a.length ≤ 80) :
    Exc.Brief names ⟨kind, [.str peer, .lit a]⟩ ∧ Exc.Brief names ⟨kind, [.lit a, .str peer]⟩ := by
  refine ⟨⟨by simp, ?_⟩, ⟨by simp, ?_⟩⟩
  · simp only [List.forall_mem_cons]
    exact ⟨hpeer, ha, by simp⟩
  · simp only [List.forall_mem_cons]
    exact ⟨ha, hpeer, by simp⟩

/-- A constant text is short. -/
lemma Exc.brief_of_lit (names : List String) (kind : ExcKind) {text : String}
    (h : text.length ≤ 80) : Exc.Brief names ⟨kind, [.lit text]⟩ :=
  ⟨by simp, by simpa [TextPart.Brief] using h⟩

end HybridEccAuth

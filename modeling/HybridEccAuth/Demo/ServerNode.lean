import HybridEccAuth.Demo.Transport
import HybridEccAuth.Protocol.Server
import Mathlib.Algebra.Order.BigOperators.Group.List
import Mathlib.Data.Nat.Digits.Defs

/-!
# The server process

`handleConnection` answers one connection: an exception that is handled becomes an
error envelope, any other one leaves the function and, as nothing above it catches
it, ends the accept loop.  What is printed to the log is not modelled.
-/

namespace HybridEccAuth

/-- `_handle_connection`, from the outcome of receiving the request: the frame that is sent, if any.
A frame that the peer does not take changes nothing but the log. -/
def handleConnection {C : Crypto} (r : Render) (S : Server C) (env : ServerEnv)
    (received : Except Exc Bytes) : Except Exc (Option Bytes) × Server C :=
  match received with
  | .error e =>
    if e.kind = .connectionError ∨ e.kind = .valueError then (.ok none, S) else (.error e, S)
  | .ok requestBytes =>
    match S.handleAuthRequest env requestBytes with
    | (.error e, S) =>
      if e.isHandled then
        ((sendFrame (buildErrorEnvelope (Str.ofString e.kind.typeName) (e.str r))).map some, S)
      else (.error e, S)
    | (.ok result, S) =>
      (do
        let envelope ← buildOkEnvelope result.responseBytes
        let frame ← sendFrame envelope
        return some frame, S)

/-- The accept loop of `cmd_start` over the connections that arrive: the frames that are sent, up to
the first exception. -/
def acceptLoop {C : Crypto} (r : Render) :
    Server C → List (ServerEnv × Except Exc Bytes) → Except Exc (List (Option Bytes)) × Server C
  | S, [] => (.ok [], S)
  | S, i :: connections =>
    match handleConnection r S i.1 i.2 with
    | (.error e, S) => (.error e, S)
    | (.ok frame, S) =>
      match acceptLoop r S connections with
      | (frames, S) => (frames.map (frame :: ·), S)

/-! ## Short texts -/

/-- The length up to which identities are short, in themselves and as `repr` prints them. -/
def shortLength : ℕ := 2 ^ 14

/-- The given identities are short. -/
def Render.Short (r : Render) (names : List String) : Prop :=
  ∀ p ∈ names, p.length ≤ shortLength ∧ (r.reprStr p).length ≤ shortLength

/-- An integer of 64 bits has at most twenty digits. -/
lemma length_toString_le {n : ℤ} (h : 0 ≤ n ∧ n < 2 ^ 64) :
    (Str.ofString (toString n)).length ≤ 20 := by
  obtain ⟨m, rfl⟩ := Int.eq_ofNat_of_zero_le h.1
  have hm : m < 10 ^ 20 := by omega
  rw [Str.length_ofString]
  exact Nat.repr_length m 20 (by decide) hm

/-- A brief text about short identities is short. -/
lemma Exc.length_str_le {r : Render} {names : List String} (hshort : r.Short names) {e : Exc}
    (h : e.Brief names) : (e.str r).length ≤ 4 * shortLength := by
  have hsum : (e.str r).length ≤ e.text.length * shortLength := by
    rw [Exc.str, List.length_flatMap]
    refine le_trans (List.sum_le_card_nsmul _ shortLength ?_) (by simp)
    intro n hn
    obtain ⟨part, hmem, rfl⟩ := List.mem_map.mp hn
    have hbrief := h.2 part hmem
    rcases part with t | p | p | v | n | q | t
    · dsimp only
      rw [Str.length_ofString]
      exact le_trans hbrief (by decide)
    · dsimp only
      rw [Str.length_ofString]
      exact (hshort p hbrief).1
    · exact (hshort p hbrief).2
    · exact hbrief.elim
    · exact le_trans (length_toString_le hbrief) (by decide)
    · exact hbrief.elim
    · exact hbrief.elim
  exact le_trans hsum (Nat.mul_le_mul_right _ h.1)

/-- The envelope of a rejection about short identities fits into a frame. -/
lemma Exc.IsRejection.envelope_fits {r : Render} {names : List String} (hshort : r.Short names)
    {e : Exc} (h : e.IsRejection names) :
    (buildErrorEnvelope (Str.ofString e.kind.typeName) (e.str r)).length ≤ maxFrameBytes := by
  have htype : e.kind.typeName.length ≤ 20 := by
    rcases e.kind <;> decide
  have htype' := length_jsonEscape_le (Str.ofString e.kind.typeName)
  have hmessage := length_jsonEscape_le (e.str r)
  have hstr := Exc.length_str_le hshort h.2
  rw [Str.length_ofString] at htype'
  rw [length_buildErrorEnvelope]
  unfold shortLength at hstr
  unfold maxFrameBytes
  omega

end HybridEccAuth

import HybridEccAuth.HeaProto.Device
import HybridEccAuth.HeaProto.WireTexts
import HybridEccAuth.Protocol.Server

/-!
# The envelopes of the server, read by the C device

The C device finds the parts of an envelope by searching its text.  A text that was
written by the server is passed in steps: over a literal, over a quoted value, or to a
key (`afterFirst_quoted`, `afterFirst_key`).

`heaComplete_buildErrorEnvelope` says that no text of an exception is taken for a
success.  `heaComplete_response_iff` says which answers the C device accepts: all those
of a server whose identity does not end, in quotation marks, like one of the keys that
are searched for after it.
-/

namespace HybridEccAuth.HeaProto

open Search

/-! ## Searching what the server has written -/

section Searching

variable {pat key tail text rest : Bytes}

/-- A quoted key after a literal in which it does not begin. -/
lemma afterFirst_key {before : Bytes} (hpat : pat ≠ []) (hbefore : Apart pat before) :
    afterFirst pat (before ++ (pat ++ rest)) = some rest := by
  rw [afterFirst_append_of_apart hbefore, afterFirst_append_self hpat]

/-- A quoted key, and what must follow it, in a quoted text. -/
lemma afterFirst_quoted (h34 : 34 ∉ key) (h92 : 92 ∉ key) (htext : Guarded 34 92 34 text) :
    afterFirst (34 :: (key ++ 34 :: tail)) (quoted text rest) =
      if 34 :: key <:+ 34 :: text ∧ tail <+: rest then some (rest.drop tail.length)
      else afterFirst (34 :: (key ++ 34 :: tail)) (34 :: rest) := by
  have hguarded : Guarded 34 92 92 (34 :: text) := ⟨fun _ => rfl, htext⟩
  exact Search.afterFirst_quoted (by decide) h34 h92 hguarded

/-- A text that is followed by something else is passed. -/
lemma afterFirst_quoted_of_not_prefix (h34 : 34 ∉ key) (h92 : 92 ∉ key)
    (htext : Guarded 34 92 34 text) (htail : ¬ tail <+: rest) :
    afterFirst (34 :: (key ++ 34 :: tail)) (quoted text rest) =
      afterFirst (34 :: (key ++ 34 :: tail)) (34 :: rest) := by
  rw [afterFirst_quoted h34 h92 htext, if_neg fun h => htail h.2]

/-- What the server has written is a C string: none of its characters is the terminator. -/
lemma cString_of_printable {bs : Bytes} (h : IsPrintable bs) : cString bs = bs :=
  cString_of_not_mem fun h0 => absurd (h 0 h0).1 (by decide)

end Searching

/-! ## Rejections -/

/-- Neither spelling of a success occurs in the envelope of an exception: its texts are guarded, and
after each of them comes no colon. -/
lemma afterFirst_buildErrorEnvelope {tail : Bytes}
    (htail : tail = asciiBytes ": true" ∨ tail = asciiBytes ":true") (errorType message : Str) :
    afterFirst (34 :: (asciiBytes "ok" ++ 34 :: tail)) (buildErrorEnvelope errorType message) =
      none := by
  have h34 : 34 ∉ asciiBytes "ok" := by decide
  have h92 : 92 ∉ asciiBytes "ok" := by decide
  have hstart : Apart (34 :: (asciiBytes "ok" ++ 34 :: tail))
      (asciiBytes "\x7b\"ok\": false, \"error_type\": ") := by
    rcases htail with rfl | rfl <;> decide +kernel
  have hmiddle : Apart (34 :: (asciiBytes "ok" ++ 34 :: tail))
      (34 :: asciiBytes ", \"message\": ") := by
    rcases htail with rfl | rfl <;> decide +kernel
  have hend : Apart (34 :: (asciiBytes "ok" ++ 34 :: tail)) (34 :: asciiBytes "\x7d") := by
    rcases htail with rfl | rfl <;> decide +kernel
  have hcomma : ∀ s, ¬ tail <+: asciiBytes ", \"message\": " ++ s := by
    rintro s ⟨t, ht⟩
    rcases htail with rfl | rfl <;> cases ht
  have hbrace : ¬ tail <+: asciiBytes "\x7d" := by
    rcases htail with rfl | rfl <;> decide
  rw [buildErrorEnvelope_eq, afterFirst_append_of_apart hstart,
    afterFirst_quoted_of_not_prefix h34 h92 (guarded_jsonEscape _ _) (hcomma _),
    afterFirst_cons_append_of_apart hmiddle,
    afterFirst_quoted_of_not_prefix h34 h92 (guarded_jsonEscape _ _) hbrace,
    ← List.append_nil (34 :: asciiBytes "\x7d"), afterFirst_append_of_apart hend,
    afterFirst_nil (List.cons_ne_nil _ _)]

/-- The envelope of an exception is not taken for a success. -/
lemma saysOk_buildErrorEnvelope (errorType message : Str) :
    saysOk (cString (buildErrorEnvelope errorType message)) = false := by
  have hprintable : IsPrintable (buildErrorEnvelope errorType message) :=
    isPrintable_jsonDumps Separators.isPrintable_spaced _
  have hspaced := afterFirst_buildErrorEnvelope (Or.inl rfl) errorType message
  have hcompact := afterFirst_buildErrorEnvelope (Or.inr rfl) errorType message
  rw [cString_of_printable hprintable, saysOk]
  have h1 : asciiBytes "\"ok\": true" = 34 :: (asciiBytes "ok" ++ 34 :: asciiBytes ": true") := by
    decide
  have h2 : asciiBytes "\"ok\":true" = 34 :: (asciiBytes "ok" ++ 34 :: asciiBytes ":true") := by
    decide
  rw [h1, h2, hspaced, hcompact]
  rfl

/-- An envelope with a payload that begins as a success is one. -/
lemma saysOk_okMembers (payload : Str) :
    saysOk (jsonDumps .spaced (okMembers payload)) = true := by
  have hpat : asciiBytes "\"ok\": true" ≠ [] := by decide
  have hstart : Apart (asciiBytes "\"ok\": true") (asciiBytes "\x7b") := by decide +kernel
  have htext : asciiBytes "\x7b\"ok\": true, \"payload\": " =
      asciiBytes "\x7b" ++ (asciiBytes "\"ok\": true" ++ asciiBytes ", \"payload\": ") := by decide
  rw [saysOk, jsonDumps_okMembers, htext, List.append_assoc, List.append_assoc,
    afterFirst_key hpat hstart]
  rfl

/-- Reading and verifying an M2 never ends with the code of a rejection. -/
lemma not_rejected_of_error {C : Crypto} {d : HeaDevice} {p : HeaPending} {env : Bytes}
    {e : HeaError} {msg : String} (h : readM2 d env >>= verifyM2 C d p = .error (e, msg)) :
    e ≠ .rejected := by
  have hfail : ∀ {α : Type} {x : Option α} {text : String}, ∀ r, orFail x text = .error r →
      r.1 ≠ .rejected := by
    rintro α (_ | a) text r hr <;> cases hr
    exact nofun
  have hbind : ∀ {α β : Type} {x : Except (HeaError × String) α}
      {f : α → Except (HeaError × String) β}, (∀ r, x = .error r → r.1 ≠ .rejected) →
      (∀ a r, f a = .error r → r.1 ≠ .rejected) → ∀ r, x >>= f = .error r → r.1 ≠ .rejected := by
    rintro α β (r | a) f hx hf r' hr
    · cases hr
      exact hx _ rfl
    · exact hf a r' hr
  refine hbind (fun r => hbind (fun r => ?_) (fun texts r hr => ?_) r) (fun m r hr => ?_) _ h
  · refine hbind hfail (fun _ => hbind hfail (fun _ => hbind hfail (fun _ => hbind hfail (fun _ =>
      hbind hfail (fun _ _ hr => ?_))))) r
    cases hr
  · obtain ⟨sid, bIv, bCt, bTag⟩ := texts
    dsimp only at hr
    split_ifs at hr
    · cases hr
      exact nofun
    · refine hbind hfail (fun _ => hbind hfail (fun _ => hbind hfail (fun _ _ hr => ?_))) r hr
      cases hr
  · unfold verifyM2 at hr
    dsimp only at hr
    split_ifs at hr <;> cases hr <;> exact nofun

/-- The C device tells rejections and successes of the server apart.  The envelope of an exception,
whatever its texts are, is a rejection, or too large; the result depends neither on the device nor
on its request, so M2 is not processed.  The envelope of an M2 is never taken for a rejection. -/
theorem rejections_told_apart (C : Crypto) (d : HeaDevice) (p : HeaPending) (out : CallerBuffers) :
    (∀ errorType message : Str,
      let envelope := buildErrorEnvelope errorType message
      (heaComplete C d p envelope out).1 =
          (if envelope.length < 1024 then HeaError.rejected else HeaError.format).code ∧
        ∀ (C' : Crypto) (d' : HeaDevice) (p' : HeaPending),
          heaComplete C' d' p' envelope out = heaComplete C d p envelope out) ∧
    ∀ (m : Message2 String) (envelope : Bytes), buildOkEnvelope m.toBytes = .ok envelope →
      (heaComplete C d p envelope out).1 ≠ HeaError.rejected.code := by
  constructor
  · intro errorType message
    have hok := saysOk_buildErrorEnvelope errorType message
    dsimp only [heaComplete]
    split_ifs with hlong hshort hshort
    · omega
    · exact ⟨rfl, fun _ _ _ => rfl⟩
    · exact ⟨rfl, fun _ _ _ => rfl⟩
    · omega
  · intro m envelope henv
    unfold buildOkEnvelope at henv
    split at henv
    · cases henv
    · rename_i payload hpayload
      obtain rfl := Except.ok.inj henv
      have hprintable : IsPrintable (jsonDumps .spaced (okMembers payload)) :=
        isPrintable_jsonDumps Separators.isPrintable_spaced _
      unfold heaComplete
      dsimp only
      rw [cString_of_printable hprintable, saysOk_okMembers]
      rcases le_or_gt 1024 (jsonDumps .spaced (okMembers payload)).length with hlong | hshort
      · rw [if_pos hlong]
        have hformat : HeaError.format ≠ HeaError.rejected := by decide
        exact HeaError.code_injective.ne hformat
      · rw [if_neg (not_le.mpr hshort), if_neg (by decide)]
        split
        · rename_i e msg herror
          exact HeaError.code_injective.ne (not_rejected_of_error herror)
        · exact (HeaError.code_ne_zero _).symm

end HybridEccAuth.HeaProto

import HybridEccAuth.HeaProto.Checked
import HybridEccAuth.Properties.ResponseReading

/-!
# The C parser inside of its buffers

`hea_complete` stays inside of its arrays and strings on every envelope but the
verified ones whose `N_j` has more than 48 bytes (`stays_inside_iff`): the length of
`N_j` is compared with 64, and the array that it is copied into has room for 64 bytes
behind the key, of which the nonce `N_i` takes 16.
-/

namespace HybridEccAuth.HeaProto

/-- `hea_complete` reads and writes only inside of its arrays, and uses only terminated ones as
strings, exactly when the envelope does not overflow `ikm`. -/
theorem stays_inside_iff (C : Crypto) (f : Checked.Frame) (d : HeaDevice) (p : HeaPending)
    (envelope : Bytes) (out : CallerBuffers) :
    (∃ r, Checked.heaComplete C f d p envelope out = .ok r) ↔
      ¬ Checked.Overflows C d p envelope := by
  constructor
  · rintro ⟨r, hr⟩ hover
    rw [Checked.heaComplete_of_overflows C f d p hover] at hr
    cases hr
  · intro hover
    exact ⟨_, Checked.heaComplete_eq C f d p hover out⟩

/-! ## An envelope that overflows -/

/-- An M2 of `server-A` for epoch 0, in the plain suite, with an `N_j` of 49 bytes. -/
def longResponse : Message2 String where
  serverId := "server-A"
  gcmNonce := List.replicate 12 0
  ciphertext := List.replicate 49 0 ++ toBytesBE 8 0
  tag := toBytesBE 16 0

/-- The device of the request expects the server that it asks. -/
lemma serverId_requestTo (identity : String) :
    (requestTo identity).device.serverId.val = serverIdArray (asciiBytes identity) := by
  obtain ⟨-, hserver, -⟩ := heaBuildM1_of_ne_zero rfl (len_requestTo identity)
  rw [requestTo, hserver]
  rfl

/-- The request is of the first epoch. -/
lemma epoch_requestTo (identity : String) : (requestTo identity).pending.epoch = 0 := by
  obtain ⟨-, -, hepoch⟩ : _ ∧ _ ∧ _ := pending_heaBuildM1 (C := .plain)
    (heaInit .plain (lamBlock 1) (lamBlock 2) (asciiBytes identity) 0) .zeros .zeros 512
  rw [requestTo, hepoch]
  rfl

/-- It makes `hea_complete` write behind the end of `ikm`. -/
theorem longResponse_overflows : ∃ envelope, buildOkEnvelope longResponse.toBytes = .ok envelope ∧
    Checked.heaComplete .plain .zeros (requestTo longResponse.serverId).device
      (requestTo longResponse.serverId).pending envelope ⟨[], [], 0⟩ = .error .write := by
  have hprintable : IsPrintable longResponse.toBytes :=
    isPrintable_jsonDumps Separators.isPrintable_compact _
  obtain ⟨envelope, hbuilt, -⟩ := buildOkEnvelope_of_printable hprintable
  have hchars : ∀ c ∈ longResponse.serverId.toList, 32 ≤ c.toNat ∧ c.toNat ≤ 126 :=
    printable_of_all (by decide)
  obtain ⟨hlen, hstring, hok, -⟩ := readTexts_envelope hchars (by decide) (by decide) (by decide)
    (by decide) hbuilt
  refine ⟨envelope, hbuilt, Checked.heaComplete_of_overflows _ _ _ _ ⟨hlen, ?_, ?_⟩ _⟩
  · rw [hstring]
    exact hok
  · rw [hstring, readM2_envelope hchars (by decide) (by decide) (by decide) (by decide) hbuilt
      (serverId_requestTo _), if_neg (by decide)]
    refine ⟨_, rfl, rfl, ?_, by decide⟩
    exact Eq.trans (by decide +kernel) (epoch_requestTo _).symm

end HybridEccAuth.HeaProto

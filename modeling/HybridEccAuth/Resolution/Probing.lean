import HybridEccAuth.Protocol.Ta
import HybridEccAuth.Storage.SessionLog

/-!
# Probing for pseudonyms

What the resolvers share: the counters of probes, one probe being one evaluation of
H2, and the search for a pseudonym over the peers and, for every peer, over a window
of epochs.  `LinearScan` is that search over the window of the session log.

`Names C peers pid peer epoch` says that `pid` is the pseudonym of an enrolled peer
at an epoch.  A search that finds something finds a named pair of the window
(`probePeers_found`), one that finds nothing has ruled out every pair
(`probePeers_not_found`), and a search fails only at an epoch outside of 64 bits
(`probePeers_error`).
-/

namespace HybridEccAuth

/-- `pid` is the pseudonym of the enrolled `peer` at `epoch`. -/
def Names (C : Crypto) (peers : Dict String Lam) (pid : Bytes) (peer : String) (epoch : ℤ) : Prop :=
  ∃ lam, peers.get peer = some lam ∧ h2Pseudonym C lam epoch = .ok pid

/-- H2 is injective on the enrolled peers and the epochs: no pseudonym names two pairs. -/
def PseudonymsInjective (C : Crypto) (peers : Dict String Lam) : Prop :=
  ∀ ⦃pid p e p' e'⦄, Names C peers pid p e → Names C peers pid p' e' → p = p' ∧ e = e'

/-- The epoch of a pseudonym has 64 bits. -/
lemma Names.epoch_range {C : Crypto} {peers : Dict String Lam} {pid : Bytes} {p : String} {e : ℤ}
    (h : Names C peers pid p e) : 0 ≤ e ∧ e < 2 ^ 64 := by
  obtain ⟨lam, -, hpid⟩ := h
  exact epoch_of_h2Pseudonym hpid

/-- In the plain suite pseudonyms are injective when the low 24 bytes of the secrets differ. -/
lemma pseudonymsInjective_plain {peers : Dict String Lam}
    (h : ∀ p p' lam lam', peers.get p = some lam → peers.get p' = some lam' →
      lam.val % 2 ^ 192 = lam'.val % 2 ^ 192 → p = p') : PseudonymsInjective .plain peers := by
  rintro pid p e p' e' ⟨lam, hlam, hpid⟩ ⟨lam', hlam', hpid'⟩
  obtain ⟨hlow, he⟩ := h2Pseudonym_plain_inj hpid hpid'
  exact ⟨h p p' lam lam' hlam hlam' hlow, he⟩

/-- With a single peer, pseudonyms of the plain suite are injective. -/
lemma pseudonymsInjective_serverA : PseudonymsInjective .plain serverA.peerSecrets := by
  have hpeer : ∀ p lam, serverA.peerSecrets.get p = some lam → p = "device-1" := by
    intro p lam hlam
    rw [serverA, Dict.get_set] at hlam
    by_contra hp
    rw [if_neg hp] at hlam
    cases hlam
  exact pseudonymsInjective_plain fun p p' lam lam' h h' _ => (hpeer p lam h).trans
    (hpeer p' lam' h').symm

/-- The number of probes made for incoming messages, and of those made offline or at the start of an
epoch. -/
structure Probes where
  probes : ℕ := 0
  precomputeProbes : ℕ := 0
  deriving DecidableEq

/-- `_h2`: counts the probe and evaluates H2. -/
def Probes.h2 (C : Crypto) (n : Probes) (lam : Lam) (epoch : ℤ) (precompute : Bool) :
    Except Exc Bytes × Probes :=
  (h2Pseudonym C lam epoch,
    if precompute then { n with precomputeProbes := n.precomputeProbes + 1 }
    else { n with probes := n.probes + 1 })

/-- The counters after a number of evaluations. -/
def Probes.spend (n : Probes) (precompute : Bool) (k : ℕ) : Probes :=
  if precompute then { n with precomputeProbes := n.precomputeProbes + k }
  else { n with probes := n.probes + k }

/-- Nothing is spent on no evaluation. -/
@[simp] lemma Probes.spend_zero (n : Probes) (precompute : Bool) : n.spend precompute 0 = n := by
  cases precompute <;> rfl

/-- What is spent adds up. -/
@[simp] lemma Probes.spend_spend (n : Probes) (precompute : Bool) (j k : ℕ) :
    (n.spend precompute j).spend precompute k = n.spend precompute (j + k) := by
  cases precompute <;> simp [spend, Nat.add_assoc]

/-- One evaluation. -/
lemma Probes.h2_snd (C : Crypto) (n : Probes) (lam : Lam) (epoch : ℤ) (precompute : Bool) :
    (n.h2 C lam epoch precompute).2 = n.spend precompute 1 := rfl

/-- The first epoch of a list at which the pseudonym of a secret is `pid`. -/
def probeEpochs (C : Crypto) (lam : Lam) (pid : Bytes) :
    List ℤ → Probes → Except Exc (Option ℤ) × Probes
  | [], n => (.ok none, n)
  | epoch :: epochs, n =>
    match n.h2 C lam epoch false with
    | (.error e, n) => (.error e, n)
    | (.ok h, n) => if h = pid then (.ok (some epoch), n) else probeEpochs C lam pid epochs n

/-- The first peer, and the first epoch of its window, whose pseudonym is `pid`. -/
def probePeers (C : Crypto) (window : String → List ℤ) (pid : Bytes) :
    List (String × Lam) → Probes → Except Exc (Option (String × ℤ)) × Probes
  | [], n => (.ok none, n)
  | (peer, lam) :: peers, n =>
    match probeEpochs C lam pid (window peer) n with
    | (.error e, n) => (.error e, n)
    | (.ok (some epoch), n) => (.ok (some (peer, epoch)), n)
    | (.ok none, n) => probePeers C window pid peers n

section Search

variable {C : Crypto} {lam : Lam} {pid : Bytes} {window : String → List ℤ}

/-- An epoch that is found is of the list and has the pseudonym. -/
lemma probeEpochs_found {epochs : List ℤ} {n n' : Probes} {epoch : ℤ}
    (h : probeEpochs C lam pid epochs n = (.ok (some epoch), n')) :
    epoch ∈ epochs ∧ h2Pseudonym C lam epoch = .ok pid := by
  induction epochs generalizing n with
  | nil => cases h
  | cons e es ih =>
    unfold probeEpochs Probes.h2 at h
    split at h
    · cases h
    · rename_i hash n₁ hh
      obtain ⟨hhash, -⟩ := Prod.mk.inj hh
      split_ifs at h with hpid
      · cases h
        exact ⟨List.mem_cons_self, hpid ▸ hhash⟩
      · obtain ⟨hmem, hepoch⟩ := ih h
        exact ⟨List.mem_cons_of_mem _ hmem, hepoch⟩

/-- When nothing is found, every epoch of the list has another pseudonym. -/
lemma probeEpochs_not_found {epochs : List ℤ} {n n' : Probes}
    (h : probeEpochs C lam pid epochs n = (.ok none, n')) :
    ∀ e ∈ epochs, h2Pseudonym C lam e ≠ .ok pid := by
  induction epochs generalizing n with
  | nil => simp
  | cons e es ih =>
    unfold probeEpochs Probes.h2 at h
    split at h
    · cases h
    · rename_i hash n₁ hh
      obtain ⟨hhash, -⟩ := Prod.mk.inj hh
      split_ifs at h with hpid
      · cases h
      · rw [List.forall_mem_cons]
        refine ⟨fun hok => hpid ?_, ih h⟩
        rw [hhash] at hok
        exact Except.ok.inj hok

/-- The search over epochs fails only at an epoch outside of 64 bits. -/
lemma probeEpochs_error {epochs : List ℤ} {n n' : Probes} {x : Exc}
    (h : probeEpochs C lam pid epochs n = (.error x, n')) :
    ∃ e ∈ epochs, ¬ (0 ≤ e ∧ e < 2 ^ 64) := by
  induction epochs generalizing n with
  | nil => cases h
  | cons e es ih =>
    unfold probeEpochs Probes.h2 at h
    split at h
    · rename_i hh
      obtain ⟨hhash, -⟩ := Prod.mk.inj hh
      refine ⟨e, List.mem_cons_self, fun hrange => ?_⟩
      obtain ⟨pid', hpid'⟩ := exists_h2Pseudonym C lam hrange.1 hrange.2
      rw [hpid'] at hhash
      cases hhash
    · split_ifs at h
      · cases h
      · obtain ⟨e', he', hrange⟩ := ih h
        exact ⟨e', List.mem_cons_of_mem _ he', hrange⟩

/-- What is found is a listed peer and an epoch of its window, with that pseudonym. -/
lemma probePeers_found {peers : List (String × Lam)} {n n' : Probes} {peer : String} {epoch : ℤ}
    (h : probePeers C window pid peers n = (.ok (some (peer, epoch)), n')) :
    ∃ lam, (peer, lam) ∈ peers ∧ epoch ∈ window peer ∧ h2Pseudonym C lam epoch = .ok pid := by
  induction peers generalizing n with
  | nil => cases h
  | cons q peers ih =>
    unfold probePeers at h
    split at h
    · cases h
    · rename_i e n₁ hprobe
      cases h
      obtain ⟨hmem, hpid⟩ := probeEpochs_found hprobe
      exact ⟨q.2, List.mem_cons_self, hmem, hpid⟩
    · obtain ⟨lam, hmem, hwindow, hpid⟩ := ih h
      exact ⟨lam, List.mem_cons_of_mem _ hmem, hwindow, hpid⟩

/-- When nothing is found, no listed peer has that pseudonym at an epoch of its window. -/
lemma probePeers_not_found {peers : List (String × Lam)} {n n' : Probes}
    (h : probePeers C window pid peers n = (.ok none, n')) :
    ∀ q ∈ peers, ∀ e ∈ window q.1, h2Pseudonym C q.2 e ≠ .ok pid := by
  induction peers generalizing n with
  | nil => simp
  | cons q peers ih =>
    unfold probePeers at h
    split at h
    · cases h
    · cases h
    · rename_i n₁ hprobe
      rw [List.forall_mem_cons]
      exact ⟨probeEpochs_not_found hprobe, ih h⟩

/-- The search fails only at an epoch of a window that is outside of 64 bits. -/
lemma probePeers_error {peers : List (String × Lam)} {n n' : Probes} {x : Exc}
    (h : probePeers C window pid peers n = (.error x, n')) :
    ∃ q ∈ peers, ∃ e ∈ window q.1, ¬ (0 ≤ e ∧ e < 2 ^ 64) := by
  induction peers generalizing n with
  | nil => cases h
  | cons q peers ih =>
    unfold probePeers at h
    split at h
    · rename_i hprobe
      exact ⟨q, List.mem_cons_self, probeEpochs_error hprobe⟩
    · cases h
    · obtain ⟨q', hq', hwindow⟩ := ih h
      exact ⟨q', List.mem_cons_of_mem _ hq', hwindow⟩

/-- What the search over epochs finds does not depend on the counters. -/
lemma probeEpochs_fst_congr (epochs : List ℤ) (n n' : Probes) :
    (probeEpochs C lam pid epochs n).1 = (probeEpochs C lam pid epochs n').1 := by
  induction epochs generalizing n n' with
  | nil => rfl
  | cons e es ih =>
    unfold probeEpochs Probes.h2
    rcases h2Pseudonym C lam e with x | hash
    · rfl
    · dsimp only
      by_cases hpid : hash = pid
      · rw [if_pos hpid, if_pos hpid]
      · rw [if_neg hpid, if_neg hpid]
        exact ih _ _

/-- What the search over peers finds depends on what the searches over their windows find, but not
on the counters. -/
lemma probePeers_fst_congr_of_epochs {window' : String → List ℤ} {peers : List (String × Lam)}
    (hepochs : ∀ q ∈ peers, ∀ n n', (probeEpochs C q.2 pid (window q.1) n).1 =
      (probeEpochs C q.2 pid (window' q.1) n').1) (n n' : Probes) :
    (probePeers C window pid peers n).1 = (probePeers C window' pid peers n').1 := by
  induction peers generalizing n n' with
  | nil => rfl
  | cons q peers ih =>
    obtain ⟨hq, hpeers⟩ := List.forall_mem_cons.mp hepochs
    have hfst := hq n n'
    unfold probePeers
    rcases hx : probeEpochs C q.2 pid (window q.1) n with ⟨x, n₁⟩
    rcases hy : probeEpochs C q.2 pid (window' q.1) n' with ⟨y, n₂⟩
    rw [hx, hy] at hfst
    obtain rfl : x = y := hfst
    rcases x with e | _ | epoch
    · rfl
    · exact ih hpeers n₁ n₂
    · rfl

/-- What the search over peers finds depends on their windows, but not on the counters. -/
lemma probePeers_fst_congr {window' : String → List ℤ} {peers : List (String × Lam)}
    (hwindow : ∀ q ∈ peers, window q.1 = window' q.1) (n n' : Probes) :
    (probePeers C window pid peers n).1 = (probePeers C window' pid peers n').1 := by
  refine probePeers_fst_congr_of_epochs (fun q hq n n' => ?_) n n'
  rw [hwindow q hq]
  exact probeEpochs_fst_congr _ n n'

/-- The search over epochs of 64 bits finds nothing when none of them has the pseudonym. -/
lemma probeEpochs_none {epochs : List ℤ} (hrange : ∀ e ∈ epochs, 0 ≤ e ∧ e < 2 ^ 64)
    (hother : ∀ e ∈ epochs, h2Pseudonym C lam e ≠ .ok pid) (n : Probes) :
    (probeEpochs C lam pid epochs n).1 = .ok none := by
  rcases hprobe : probeEpochs C lam pid epochs n with ⟨x | _ | e, n'⟩
  · obtain ⟨e, he, hout⟩ := probeEpochs_error hprobe
    exact absurd (hrange e he) hout
  · rfl
  · obtain ⟨he, hpid⟩ := probeEpochs_found hprobe
    exact absurd hpid (hother e he)

end Search

/-- The epochs that the windows of the log reach have 64 bits. -/
def EpochsBelow (peers : Dict String Lam) (log : SessionLog) : Prop :=
  ∀ peer ∈ peers.keys, log.last peer + log.forwardTolerance < 2 ^ 64

/-- Below the bound, the epochs of a window have 64 bits. -/
lemma EpochsBelow.window_range {peers : Dict String Lam} {log : SessionLog}
    (h : EpochsBelow peers log) {peer : String} (hpeer : peer ∈ peers.keys) {epoch : ℤ}
    (hmem : epoch ∈ log.epochSearchWindow peer) : 0 ≤ epoch ∧ epoch < 2 ^ 64 := by
  obtain ⟨⟨hzero, -⟩, hle⟩ := SessionLog.mem_epochSearchWindow.mp hmem
  exact ⟨hzero, lt_of_le_of_lt hle (h peer hpeer)⟩

/-- The bound reads the last accepted epochs and the tolerance only. -/
lemma EpochsBelow.congr {peers : Dict String Lam} {log log' : SessionLog}
    (h : EpochsBelow peers log) (hlast : ∀ p, log'.last p = log.last p)
    (htol : log'.forwardTolerance = log.forwardTolerance) : EpochsBelow peers log' := by
  intro p hp
  rw [hlast, htol]
  exact h p hp

/-! ## The linear scan -/

/-- The error for a pseudonym at an epoch that is not above the last accepted one. -/
def staleError (peer : String) (epoch : ℤ) : Exc :=
  ⟨.replayDetected, [.lit "pseudonym for ", .reprStr peer, .lit " reuses stale epoch ", .int epoch]⟩

/-- The text about a stale epoch is short. -/
lemma brief_staleError {names : List String} {peer : String} {epoch : ℤ} (hpeer : peer ∈ names)
    (hepoch : 0 ≤ epoch ∧ epoch < 2 ^ 64) : (staleError peer epoch).Brief names :=
  Exc.brief_of_epoch _ hpeer hepoch (by decide) (by decide)

/-- `LinearScan`: no state but the counters. -/
structure LinearScan where
  count : Probes := {}

namespace LinearScan

/-- `LinearScan.resolve`. -/
def resolve (C : Crypto) (peers : Dict String Lam) (log : SessionLog) (r : LinearScan)
    (pid : Bytes) : Except Exc (String × ℤ) × LinearScan :=
  match probePeers C log.epochSearchWindow pid peers.entries r.count with
  | (.error e, n) => (.error e, ⟨n⟩)
  | (.ok none, n) => (.error ⟨.unknownPeerError,
      [.lit "pseudonym did not resolve to any known, in-window peer"]⟩, ⟨n⟩)
  | (.ok (some (peer, epoch)), n) =>
    if log.isStaleEpoch peer epoch then (.error (staleError peer epoch), ⟨n⟩)
    else (.ok (peer, epoch), ⟨n⟩)

variable {C : Crypto} {peers : Dict String Lam} {log : SessionLog} {r : LinearScan} {pid : Bytes}

/-- A resolved pair is named by the pseudonym, and its epoch is new and within the tolerance. -/
lemma resolve_sound {peer : String} {epoch : ℤ}
    (h : (r.resolve C peers log pid).1 = .ok (peer, epoch)) :
    Names C peers pid peer epoch ∧ log.last peer < epoch ∧
      epoch ≤ log.last peer + log.forwardTolerance := by
  unfold resolve at h
  split at h
  · cases h
  · cases h
  · rename_i p e n hprobe
    split_ifs at h with hstale
    cases h
    obtain ⟨lam, hmem, hwindow, hpid⟩ := probePeers_found hprobe
    rw [SessionLog.isStaleEpoch_iff, not_le] at hstale
    exact ⟨⟨lam, Dict.mem_entries_iff.mp hmem, hpid⟩, hstale,
      (SessionLog.mem_epochSearchWindow.mp hwindow).2⟩

/-- What a pseudonym resolves to depends on the last accepted epochs and the settings of the log,
but not on the counters. -/
lemma resolve_fst_congr {log' : SessionLog} (hlast : ∀ p, log'.last p = log.last p)
    (hforward : log'.forwardTolerance = log.forwardTolerance)
    (hback : log'.replayLookback = log.replayLookback) (r' : LinearScan) :
    (r'.resolve C peers log' pid).1 = (r.resolve C peers log pid).1 := by
  have hwindow : ∀ q ∈ peers.entries, log'.epochSearchWindow q.1 = log.epochSearchWindow q.1 := by
    intro q _
    rw [SessionLog.epochSearchWindow, SessionLog.epochSearchWindow, hlast, hforward, hback]
  have hprobe : (probePeers C log'.epochSearchWindow pid peers.entries r'.count).1 =
      (probePeers C log.epochSearchWindow pid peers.entries r.count).1 :=
    probePeers_fst_congr hwindow r'.count r.count
  unfold resolve
  rcases hx : probePeers C log'.epochSearchWindow pid peers.entries r'.count with ⟨x, n⟩
  rcases hy : probePeers C log.epochSearchWindow pid peers.entries r.count with ⟨y, n'⟩
  rw [hx, hy] at hprobe
  obtain rfl : x = y := hprobe
  rcases x with e | _ | ⟨peer, epoch⟩
  · rfl
  · rfl
  · dsimp only
    rw [SessionLog.isStaleEpoch, SessionLog.isStaleEpoch, hlast]
    split_ifs <;> rfl

/-- A named pair whose epoch is new and within the tolerance is resolved. -/
lemma resolve_complete (hinj : PseudonymsInjective C peers) (hbelow : EpochsBelow peers log)
    {peer : String} {epoch : ℤ} (hnames : Names C peers pid peer epoch)
    (hnew : log.last peer < epoch) (htol : epoch ≤ log.last peer + log.forwardTolerance) :
    (r.resolve C peers log pid).1 = .ok (peer, epoch) := by
  obtain ⟨lam, hlam, hpid⟩ := hnames
  have hentry := Dict.mem_entries_iff.mpr hlam
  have hwindow : epoch ∈ log.epochSearchWindow peer := by
    have hlast := log.neg_one_le_last peer
    rw [SessionLog.mem_epochSearchWindow]
    exact ⟨⟨by omega, by omega⟩, htol⟩
  unfold resolve
  split
  · rename_i hprobe
    obtain ⟨q, hq, e, he, hrange⟩ := probePeers_error hprobe
    exact absurd (hbelow.window_range (Dict.mem_keys_iff.mpr ⟨_, Dict.mem_entries_iff.mp hq⟩) he)
      hrange
  · rename_i hprobe
    exact absurd hpid (probePeers_not_found hprobe _ hentry _ hwindow)
  · rename_i p e n hprobe
    obtain ⟨lam', hmem, -, hpid'⟩ := probePeers_found hprobe
    obtain ⟨rfl, rfl⟩ := hinj ⟨lam', Dict.mem_entries_iff.mp hmem, hpid'⟩ ⟨lam, hlam, hpid⟩
    have hstale : ¬ log.isStaleEpoch p e = true := by
      rw [SessionLog.isStaleEpoch_iff]
      exact not_le.mpr hnew
    rw [if_neg hstale]

/-- Below the bound on epochs, what is not resolved is stale or unknown. -/
lemma kind_of_resolve (hbelow : EpochsBelow peers log) {x : Exc}
    (h : (r.resolve C peers log pid).1 = .error x) :
    (x.kind = .replayDetected ∨ x.kind = .unknownPeerError) ∧ x.Brief peers.keys := by
  unfold resolve at h
  split at h
  · rename_i hprobe
    obtain ⟨q, hq, e, he, hrange⟩ := probePeers_error hprobe
    exact absurd (hbelow.window_range (Dict.mem_keys_iff.mpr ⟨_, Dict.mem_entries_iff.mp hq⟩) he)
      hrange
  · cases h
    exact ⟨Or.inr rfl, Exc.brief_of_lit _ _ (by decide)⟩
  · rename_i p e n hprobe
    split_ifs at h
    cases h
    obtain ⟨lam, hmem, -, hpid⟩ := probePeers_found hprobe
    have hpeer := Dict.mem_keys_iff.mpr ⟨lam, Dict.mem_entries_iff.mp hmem⟩
    exact ⟨Or.inl rfl, brief_staleError hpeer (epoch_of_h2Pseudonym hpid)⟩

end LinearScan

end HybridEccAuth

import HybridEccAuth.Data.Dict
import Mathlib.Data.Finset.Insert
import Mathlib.Order.Interval.Set.Defs
import Mathlib.Data.Int.Order.Basic

/-!
# The session log

Replay-window bookkeeping and the block-list.  The log stores for every peer the
last epoch that was accepted, and its epochs are never negative: this is a field of
the structure, so `SessionLog.last`, which is `-1` for a peer that was never seen,
is always at least `-1`.

Listeners are told of a newly blocked identity.  A listener is known by a number,
and `notifications` records the calls that were made, in order.
-/

namespace HybridEccAuth

/-- The integers of `range(lo, hi)` in order. -/
def pyRange (lo hi : ℤ) : List ℤ :=
  (List.range (hi - lo).toNat).map fun i : ℕ => lo + (i : ℤ)

/-- The range holds the integers from `lo` on and below `hi`. -/
@[simp] lemma mem_pyRange {lo hi x : ℤ} : x ∈ pyRange lo hi ↔ lo ≤ x ∧ x < hi := by
  simp only [pyRange, List.mem_map, List.mem_range]
  constructor
  · rintro ⟨i, hlt, rfl⟩
    omega
  · rintro ⟨hlo, hhi⟩
    exact ⟨(x - lo).toNat, by omega, by omega⟩

/-- The number of integers in a range. -/
@[simp] lemma length_pyRange (lo hi : ℤ) : (pyRange lo hi).length = (hi - lo).toNat := by
  rw [pyRange, List.length_map, List.length_range]

/-- No integer is in a range twice. -/
lemma nodup_pyRange (lo hi : ℤ) : (pyRange lo hi).Nodup :=
  List.nodup_range.map fun i j h => by
    omega

/-- The default of `max_attempts`. -/
def defaultMaxAttempts : ℕ := 3

/-- The default of `forward_tolerance`. -/
def defaultForwardTolerance : ℕ := 8

/-- The default of `replay_lookback`. -/
def defaultReplayLookback : ℕ := 16

/-- No epoch is stored before the first one is accepted. -/
lemma epoch_nonneg_empty (peer : String) (epoch : ℤ)
    (h : (Dict.empty : Dict String ℤ).get peer = some epoch) : 0 ≤ epoch := by
  cases h

/-- The state of a session log. -/
structure SessionLog where
  maxAttempts : ℕ := defaultMaxAttempts
  forwardTolerance : ℕ := defaultForwardTolerance
  replayLookback : ℕ := defaultReplayLookback
  lastAcceptedEpoch : Dict String ℤ := .empty
  failedAttempts : Dict String ℕ := .empty
  blocked : Finset String := ∅
  blockListeners : List ℕ := []
  notifications : List (ℕ × String) := []
  /-- Accepted epochs are not negative. -/
  epoch_nonneg : ∀ peer epoch, lastAcceptedEpoch.get peer = some epoch → 0 ≤ epoch := by
    exact epoch_nonneg_empty

namespace SessionLog

/-! ## Epochs -/

/-- The last accepted epoch of a peer, or `-1`. -/
def last (log : SessionLog) (peer : String) : ℤ := (log.lastAcceptedEpoch.get peer).getD (-1)

/-- `epoch_search_window`: the epochs to probe for a peer. -/
def epochSearchWindow (log : SessionLog) (peer : String) : List ℤ :=
  let lo := max 0 (log.last peer - log.replayLookback)
  let hi := log.last peer + log.forwardTolerance
  pyRange lo (hi + 1)

/-- `is_stale_epoch`. -/
def isStaleEpoch (log : SessionLog) (peer : String) (epoch : ℤ) : Bool := epoch ≤ log.last peer

/-- No epoch was accepted in a fresh log. -/
@[simp] lemma last_fresh (maxAttempts forwardTolerance replayLookback : ℕ) (peer : String) :
    last { maxAttempts := maxAttempts, forwardTolerance := forwardTolerance,
           replayLookback := replayLookback } peer = -1 := rfl

/-- The last accepted epoch is at least `-1`. -/
lemma neg_one_le_last (log : SessionLog) (peer : String) : -1 ≤ log.last peer := by
  unfold last
  cases h : log.lastAcceptedEpoch.get peer with
  | none => simp
  | some e =>
    have := log.epoch_nonneg peer e h
    simp only [Option.getD_some]
    omega

/-- `accept_epoch`: the last accepted epoch only grows. -/
def acceptEpoch (log : SessionLog) (peer : String) (epoch : ℤ) : SessionLog :=
  if h : log.last peer < epoch then
    { log with
      lastAcceptedEpoch := log.lastAcceptedEpoch.set peer epoch
      epoch_nonneg := by
        have hlast := log.neg_one_le_last peer
        intro p e he
        rw [Dict.get_set] at he
        split_ifs at he with hp
        · cases he
          omega
        · exact log.epoch_nonneg p e he }
  else log

/-! ## The block-list -/

/-- `is_blocked`. -/
def isBlocked (log : SessionLog) (peer : String) : Bool := peer ∈ log.blocked

/-- `_block`: adds to the block-list, and tells the listeners of a new entry. -/
def block (log : SessionLog) (peer : String) : SessionLog :=
  if peer ∈ log.blocked then log
  else
    { log with
      blocked := insert peer log.blocked
      notifications := log.notifications ++ log.blockListeners.map fun l => (l, peer) }

/-- `record_failure`; the result tells whether the peer is blocked now. -/
def recordFailure (log : SessionLog) (peer : String) : Bool × SessionLog :=
  if peer ∈ log.blocked then (true, log)
  else
    let count := (log.failedAttempts.get peer).getD 0 + 1
    let log := { log with failedAttempts := log.failedAttempts.set peer count }
    if log.maxAttempts ≤ count then (true, log.block peer) else (false, log)

/-- `record_success`. -/
def recordSuccess (log : SessionLog) (peer : String) : SessionLog :=
  { log with failedAttempts := log.failedAttempts.erase peer }

/-- `subscribe_block`. -/
def subscribeBlock (log : SessionLog) (listener : ℕ) : SessionLog :=
  { log with blockListeners := log.blockListeners ++ [listener] }

/-! ## What the operations keep -/

variable {log : SessionLog} {peer p : String} {epoch : ℤ}

/-- The epochs of the window. -/
lemma mem_epochSearchWindow : epoch ∈ log.epochSearchWindow peer ↔
    (0 ≤ epoch ∧ log.last peer - log.replayLookback ≤ epoch) ∧
      epoch ≤ log.last peer + log.forwardTolerance := by
  rw [epochSearchWindow, mem_pyRange, max_le_iff]
  omega

/-- An epoch is stale when it is not above the last accepted one. -/
lemma isStaleEpoch_iff : log.isStaleEpoch peer epoch = true ↔ epoch ≤ log.last peer := by
  simp [isStaleEpoch]

/-- Accepting an epoch raises the last accepted epoch of that peer, and of no other. -/
@[simp] lemma last_acceptEpoch : (log.acceptEpoch peer epoch).last p =
    if p = peer then max (log.last peer) epoch else log.last p := by
  unfold acceptEpoch
  split_ifs with h hp hp
  · simp only [last, Dict.get_set, hp, if_true, Option.getD_some]
    exact (max_eq_right (le_of_lt h)).symm
  · simp only [last, Dict.get_set, hp, if_false]
  · rw [hp, max_eq_left (not_lt.mp h)]
  · rfl

/-- Accepting an epoch never lowers a last accepted epoch. -/
lemma last_le_last_acceptEpoch : log.last p ≤ (log.acceptEpoch peer epoch).last p := by
  rw [last_acceptEpoch]
  split_ifs with h
  · exact h ▸ le_max_left _ _
  · exact le_refl _

/-- Accepting an epoch changes the last accepted epochs only. -/
lemma acceptEpoch_frame : (log.acceptEpoch peer epoch).maxAttempts = log.maxAttempts ∧
    (log.acceptEpoch peer epoch).forwardTolerance = log.forwardTolerance ∧
    (log.acceptEpoch peer epoch).replayLookback = log.replayLookback ∧
    (log.acceptEpoch peer epoch).failedAttempts = log.failedAttempts ∧
    (log.acceptEpoch peer epoch).blocked = log.blocked := by
  unfold acceptEpoch
  split_ifs <;> exact ⟨rfl, rfl, rfl, rfl, rfl⟩

/-- Blocking does not touch the epochs or the settings. -/
lemma block_frame : (log.block peer).lastAcceptedEpoch = log.lastAcceptedEpoch ∧
    (log.block peer).maxAttempts = log.maxAttempts ∧
    (log.block peer).forwardTolerance = log.forwardTolerance ∧
    (log.block peer).replayLookback = log.replayLookback := by
  unfold block
  split_ifs <;> exact ⟨rfl, rfl, rfl, rfl⟩

/-- Recording a failure does not touch the epochs or the settings. -/
lemma recordFailure_frame :
    (log.recordFailure peer).2.lastAcceptedEpoch = log.lastAcceptedEpoch ∧
    (log.recordFailure peer).2.maxAttempts = log.maxAttempts ∧
    (log.recordFailure peer).2.forwardTolerance = log.forwardTolerance ∧
    (log.recordFailure peer).2.replayLookback = log.replayLookback := by
  unfold recordFailure
  dsimp only
  split_ifs
  · exact ⟨rfl, rfl, rfl, rfl⟩
  · exact block_frame
  · exact ⟨rfl, rfl, rfl, rfl⟩

/-- The last accepted epoch is read from the stored epochs. -/
lemma last_congr {log log' : SessionLog} (h : log.lastAcceptedEpoch = log'.lastAcceptedEpoch)
    (p : String) : log.last p = log'.last p := by
  rw [last, last, h]

/-- Recording a failure does not change the last accepted epochs. -/
@[simp] lemma last_recordFailure : (log.recordFailure peer).2.last p = log.last p :=
  last_congr recordFailure_frame.1 p

/-- Recording a success does not change the last accepted epochs. -/
@[simp] lemma last_recordSuccess : (log.recordSuccess peer).last p = log.last p := rfl

/-! ## Failures -/

/-- The failures that are counted against a peer. -/
def failures (log : SessionLog) (peer : String) : ℕ := (log.failedAttempts.get peer).getD 0

/-- A failure of a peer that is not blocked is counted, against no other peer. -/
lemma failures_recordFailure (h : log.isBlocked peer = false) :
    (log.recordFailure peer).2.failures p =
      if p = peer then log.failures peer + 1 else log.failures p := by
  have hblocked : peer ∉ log.blocked := by simpa [isBlocked] using h
  have hcount : ∀ log' : SessionLog, (log'.block peer).failedAttempts = log'.failedAttempts := by
    intro log'
    unfold block
    split_ifs <;> rfl
  unfold recordFailure
  rw [if_neg hblocked]
  dsimp only
  split_ifs with hmax hp hp
  · rw [failures, hcount, Dict.get_set, if_pos hp]
    rfl
  · rw [failures, hcount, Dict.get_set, if_neg hp]
    rfl
  · rw [failures, Dict.get_set, if_pos hp]
    rfl
  · rw [failures, Dict.get_set, if_neg hp]
    rfl

/-- A failure blocks the peer, and no other, when the count reaches the limit. -/
lemma blocked_recordFailure (h : log.isBlocked peer = false) :
    (log.recordFailure peer).2.blocked =
      if log.maxAttempts ≤ log.failures peer + 1 then insert peer log.blocked else log.blocked := by
  have hblocked : peer ∉ log.blocked := by simpa [isBlocked] using h
  unfold recordFailure
  rw [if_neg hblocked]
  dsimp only
  change (if log.maxAttempts ≤ log.failures peer + 1 then _ else _ :
    Bool × SessionLog).2.blocked = _
  by_cases hmax : log.maxAttempts ≤ log.failures peer + 1
  · rw [if_pos hmax, if_pos hmax]
    unfold block
    rw [if_neg hblocked]
  · rw [if_neg hmax, if_neg hmax]

end SessionLog

end HybridEccAuth

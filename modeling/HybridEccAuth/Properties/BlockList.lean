import HybridEccAuth.Library.Machine
import HybridEccAuth.Protocol.Server
import Mathlib.Data.List.Infix

/-!
# The block-list law

A session log as a machine whose inputs are the calls that concern the block-list.
A peer is blocked exactly when the calls so far convict it (`SessionLog.Convicts`):
it was blocked by name, or at some point it had as many failures as the limit with no
success between them.  This is a property of the whole history; the invariant that
carries it (`SessionLog.Follows`) says that the failures that are counted against an
unblocked peer are the longest such streak at the end of the history.

The listeners are told of a peer once, at the call that blocks it.  A server whose log
has blocked a peer rejects every later request of the peer before it is decrypted.
-/

namespace HybridEccAuth

namespace SessionLog

/-- A log over its settings, in which nothing was recorded. -/
def create (maxAttempts forwardTolerance replayLookback : ℕ) : SessionLog :=
  { maxAttempts := maxAttempts
    forwardTolerance := forwardTolerance
    replayLookback := replayLookback }

/-- The calls that concern the block-list. -/
inductive Call
  | recordFailure (peer : String)
  | recordSuccess (peer : String)
  | block (peer : String)
  | subscribeBlock (listener : ℕ)
  deriving DecidableEq

/-- A session log as a machine: `record_failure` returns whether the peer is blocked. -/
def call (log : SessionLog) : Call → Option Bool × SessionLog
  | .recordFailure peer => (some (log.recordFailure peer).1, (log.recordFailure peer).2)
  | .recordSuccess peer => (none, log.recordSuccess peer)
  | .block peer => (none, log.block peer)
  | .subscribeBlock listener => (none, log.subscribeBlock listener)

/-- The calls about a peer, and the subscriptions. -/
def Call.concerns (p : String) : Call → Bool
  | .recordFailure peer | .recordSuccess peer | .block peer => peer = p
  | .subscribeBlock _ => true

/-- The listeners that were subscribed, in order. -/
def subscribed (cs : List Call) : List ℕ :=
  cs.filterMap fun
    | .subscribeBlock listener => some listener
    | _ => none

/-- The calls end with at least `n` failures of a peer and no success of it between them. -/
def Streak (p : String) (n : ℕ) (cs : List Call) : Prop :=
  ∃ before since, cs = before ++ since ∧ Call.recordSuccess p ∉ since ∧
    n ≤ since.count (.recordFailure p)

/-- The peer was blocked by name, or at some point it had as many failures as the limit, with no
success between them. -/
def Convicts (maxAttempts : ℕ) (cs : List Call) (p : String) : Prop :=
  Call.block p ∈ cs ∨ ∃ sofar, sofar <+: cs ∧ Streak p maxAttempts sofar

/-- What the listeners were told about a peer. -/
def told (log : SessionLog) (p : String) : List (ℕ × String) :=
  log.notifications.filter fun n => n.2 = p

/-! ## One call -/

variable {log : SessionLog} {p peer : String} {c : Call}

/-- Blocking a peer blocks it, and no other. -/
lemma isBlocked_block :
    (log.block peer).isBlocked p = true ↔ log.isBlocked p = true ∨ p = peer := by
  unfold block isBlocked
  split_ifs with h
  · simp only [decide_eq_true_eq]
    refine ⟨Or.inl, ?_⟩
    rintro (hp | rfl)
    · exact hp
    · exact h
  · simp [or_comm]

/-- A failure of a blocked peer changes nothing. -/
lemma recordFailure_of_blocked (h : log.isBlocked peer = true) :
    log.recordFailure peer = (true, log) := by
  rw [isBlocked, decide_eq_true_eq] at h
  rw [recordFailure, if_pos h]

/-- A failure blocks its peer when it brings the count to the limit. -/
lemma isBlocked_recordFailure : (log.recordFailure peer).2.isBlocked p = true ↔
    log.isBlocked p = true ∨ p = peer ∧ log.maxAttempts ≤ log.failures p + 1 := by
  by_cases hblocked : log.isBlocked peer = true
  · rw [recordFailure_of_blocked hblocked]
    refine ⟨Or.inl, ?_⟩
    rintro (hp | ⟨rfl, -⟩)
    · exact hp
    · exact hblocked
  · rw [Bool.not_eq_true] at hblocked
    rw [isBlocked, blocked_recordFailure hblocked, isBlocked]
    split_ifs with hmax
    · rw [decide_eq_true_eq, decide_eq_true_eq, Finset.mem_insert, or_comm]
      refine or_congr_right ⟨fun hp => ⟨hp, hp ▸ hmax⟩, And.left⟩
    · refine ⟨Or.inl, ?_⟩
      rintro (hp | ⟨rfl, hle⟩)
      · exact hp
      · exact absurd hle hmax

/-- Whom a call blocks. -/
lemma isBlocked_call : (log.call c).2.isBlocked p = true ↔ log.isBlocked p = true ∨ c = .block p ∨
    c = .recordFailure p ∧ log.maxAttempts ≤ log.failures p + 1 := by
  rcases c with peer | peer | peer | listener
  · apply isBlocked_recordFailure.trans
    simp [@eq_comm _ p]
  · apply (Iff.rfl : _ ↔ log.isBlocked p = true).trans
    simp
  · apply isBlocked_block.trans
    simp [@eq_comm _ p]
  · apply (Iff.rfl : _ ↔ log.isBlocked p = true).trans
    simp

/-- Blocking counts no failure. -/
lemma failures_block : (log.block peer).failures p = log.failures p := by
  unfold block
  split_ifs <;> rfl

/-- A failure counts against no other peer. -/
lemma failures_recordFailure_other (hp : p ≠ peer) :
    (log.recordFailure peer).2.failures p = log.failures p := by
  by_cases hblocked : log.isBlocked peer = true
  · rw [recordFailure_of_blocked hblocked]
  · rw [Bool.not_eq_true] at hblocked
    rw [failures_recordFailure hblocked, if_neg hp]

/-- A success forgets the failures of its peer, and of no other. -/
lemma failures_recordSuccess :
    (log.recordSuccess peer).failures p = if p = peer then 0 else log.failures p := by
  rw [failures, recordSuccess, Dict.get_erase]
  split_ifs <;> rfl

/-- What a call counts against a peer that is not blocked. -/
lemma failures_call (h : log.isBlocked p = false) : (log.call c).2.failures p =
    if c = .recordFailure p then log.failures p + 1
    else if c = .recordSuccess p then 0 else log.failures p := by
  rcases c with peer | peer | peer | listener
  · by_cases hp : peer = p
    · subst hp
      rw [if_pos rfl]
      exact (failures_recordFailure h).trans (if_pos rfl)
    · rw [if_neg (by simpa using hp), if_neg (by simp)]
      exact failures_recordFailure_other fun heq => hp heq.symm
  · rw [if_neg (by simp)]
    simp only [Call.recordSuccess.injEq, eq_comm (a := peer)]
    exact failures_recordSuccess
  · rw [if_neg (by simp), if_neg (by simp)]
    exact failures_block
  · rw [if_neg (by simp), if_neg (by simp)]
    rfl

/-- The calls never change the limit. -/
lemma maxAttempts_call (log : SessionLog) (c : Call) :
    (log.call c).2.maxAttempts = log.maxAttempts := by
  rcases c with peer | peer | peer | listener
  · exact recordFailure_frame.2.1
  · rfl
  · exact block_frame.2.1
  · rfl

/-- `record_failure` tells whether the peer is blocked afterwards. -/
lemma recordFailure_fst :
    (log.recordFailure peer).1 = (log.recordFailure peer).2.isBlocked peer := by
  have hself : (log.recordFailure peer).2.isBlocked peer = true ↔
      log.isBlocked peer = true ∨ log.maxAttempts ≤ log.failures peer + 1 := by
    rw [isBlocked_recordFailure]
    simp
  rw [Bool.eq_iff_iff, hself]
  unfold recordFailure isBlocked failures
  by_cases hblocked : peer ∈ log.blocked
  · simp [hblocked]
  · rw [if_neg hblocked]
    dsimp only
    split_ifs with hmax
    · simp [hmax]
    · simp [hblocked, hmax]

/-- No sequence of calls unblocks a peer. -/
lemma isBlocked_final (h : log.isBlocked p = true) (cs : List Call) :
    (Machine.final call log cs).isBlocked p = true := by
  have hstep : ∀ (log : SessionLog) c, log.isBlocked p = true → True →
      (log.call c).2.isBlocked p = true :=
    fun log c h _ => isBlocked_call.mpr (Or.inl h)
  exact Machine.invariant_final hstep h (Machine.allSteps_of_inputs fun _ _ => trivial)

/-! ## The invariant -/

/-- The streaks after one more call. -/
lemma streak_append {n : ℕ} {cs : List Call} : Streak p n (cs ++ [c]) ↔ n = 0 ∨
    c ≠ .recordSuccess p ∧ Streak p (n - if c = .recordFailure p then 1 else 0) cs := by
  have hcount : ∀ since : List Call, (since ++ [c]).count (.recordFailure p) =
      since.count (.recordFailure p) + if c = .recordFailure p then 1 else 0 := by
    intro since
    rw [List.count_append, List.count_singleton]
    simp
  constructor
  · rintro ⟨before, since, heq, hsuccess, hn⟩
    rcases List.eq_nil_or_concat since with rfl | ⟨since, d, rfl⟩
    · exact Or.inl (Nat.le_zero.mp hn)
    · right
      rw [List.concat_eq_append, ← List.append_assoc] at heq
      obtain ⟨rfl, hd⟩ := List.append_inj' heq rfl
      obtain rfl := List.singleton_inj.mp hd
      rw [List.concat_eq_append, List.mem_append, List.mem_singleton, not_or] at hsuccess
      rw [List.concat_eq_append, hcount] at hn
      exact ⟨fun hc => hsuccess.2 hc.symm, before, since, rfl, hsuccess.1, by omega⟩
  · rintro (rfl | ⟨hc, before, since, rfl, hsuccess, hn⟩)
    · exact ⟨cs ++ [c], [], (List.append_nil _).symm, List.not_mem_nil, Nat.zero_le _⟩
    · refine ⟨before, since ++ [c], List.append_assoc _ _ _, ?_, ?_⟩
      · rw [List.mem_append, List.mem_singleton, not_or]
        exact ⟨hsuccess, fun heq => hc heq.symm⟩
      · rw [hcount]
        omega

/-- What one more call adds to a conviction. -/
lemma convicts_append {m : ℕ} {cs : List Call} : Convicts m (cs ++ [c]) p ↔
    Convicts m cs p ∨ c = .block p ∨ Streak p m (cs ++ [c]) := by
  unfold Convicts
  simp only [List.mem_append, List.mem_singleton, List.prefix_concat_iff, or_and_right, exists_or,
    exists_eq_left, @eq_comm _ (Call.block p) c]
  rw [@or_comm (Streak _ _ _), or_or_or_comm]

/-- What a log remembers of the calls so far: it has blocked the convicted peers, and counts against
every other peer the longest streak of failures at the end of the calls. -/
structure Follows (maxAttempts : ℕ) (cs : List Call) (log : SessionLog) : Prop where
  max_eq : log.maxAttempts = maxAttempts
  blocked_iff : ∀ p, log.isBlocked p = true ↔ Convicts maxAttempts cs p
  streak_iff : ∀ p, log.isBlocked p = false → ∀ n, Streak p n cs ↔ n ≤ log.failures p

/-- A log in which nothing was recorded remembers nothing. -/
lemma follows_nil {m : ℕ} (hm : 1 ≤ m) (forwardTolerance replayLookback : ℕ) :
    Follows m [] (create m forwardTolerance replayLookback) := by
  have hstreak : ∀ p n, Streak p n [] ↔ n ≤ 0 := by
    intro p n
    refine ⟨?_, fun hn => ⟨[], [], rfl, List.not_mem_nil, hn⟩⟩
    rintro ⟨before, since, heq, -, hn⟩
    obtain ⟨-, rfl⟩ := List.append_eq_nil_iff.mp heq.symm
    exact hn
  refine ⟨rfl, fun p => ?_, fun p _ => hstreak p⟩
  have hfresh : (create m forwardTolerance replayLookback).isBlocked p = false := rfl
  rw [hfresh]
  refine ⟨fun h => absurd h (by simp), ?_⟩
  rintro (hmem | ⟨sofar, hpre, hn⟩)
  · cases hmem
  · rw [List.prefix_nil.mp hpre, hstreak] at hn
    omega

/-- Every call is remembered. -/
lemma Follows.call {m : ℕ} (hm : 1 ≤ m) {cs : List Call} (h : Follows m cs log) (c : Call) :
    Follows m (cs ++ [c]) (log.call c).2 := by
  obtain ⟨rfl, hblocked, hstreak⟩ := h
  refine ⟨maxAttempts_call log c, fun p => ?_, fun p hp n => ?_⟩
  · rw [convicts_append, isBlocked_call, ← hblocked p]
    by_cases hp : log.isBlocked p = true
    · simp [hp]
    · rw [Bool.not_eq_true] at hp
      refine or_congr_right (or_congr_right ?_)
      rw [streak_append, hstreak p hp]
      have hfew : ¬ log.maxAttempts ≤ log.failures p := by
        rw [← hstreak p hp]
        intro hmax
        have hconv : Convicts log.maxAttempts cs p := Or.inr ⟨cs, List.prefix_refl _, hmax⟩
        rw [(hblocked p).mpr hconv] at hp
        cases hp
      split_ifs with hc
      · subst hc
        simp
        omega
      · simp [hc]
        omega
  · have hp' : log.isBlocked p = false := by
      rw [← Bool.not_eq_true, isBlocked_call] at hp
      rw [← Bool.not_eq_true]
      intro hblock
      exact hp (Or.inl hblock)
    rw [streak_append, hstreak p hp', failures_call hp']
    split_ifs with hc hc'
    · subst hc
      simp
      omega
    · simp [hc']
    · simp [hc']
      omega

/-- The invariant of every run from a log in which nothing was recorded. -/
theorem follows_final {m : ℕ} (hm : 1 ≤ m) (forwardTolerance replayLookback : ℕ) (cs : List Call) :
    Follows m cs
      (Machine.final SessionLog.call (create m forwardTolerance replayLookback) cs) := by
  induction cs using List.reverseRecOn with
  | nil => exact follows_nil hm forwardTolerance replayLookback
  | append_singleton cs c ih =>
    rw [Machine.final_append]
    exact ih.call hm c

/-! ## Calls about other peers -/

/-- Two logs with the same limit that agree on whether a peer is blocked, and on its failures unless
it is. -/
def SameFor (p : String) (log log' : SessionLog) : Prop :=
  log.maxAttempts = log'.maxAttempts ∧ log.isBlocked p = log'.isBlocked p ∧
    (log.isBlocked p = false → log.failures p = log'.failures p)

/-- A call keeps two logs in agreement on a peer. -/
lemma SameFor.call {log' : SessionLog} (h : SameFor p log log') (c : Call) :
    SameFor p (log.call c).2 (log'.call c).2 := by
  obtain ⟨hmax, hblocked, hfail⟩ := h
  have hiff : (log.call c).2.isBlocked p = true ↔ (log'.call c).2.isBlocked p = true := by
    rw [isBlocked_call, isBlocked_call, hmax, hblocked]
    by_cases hp : log'.isBlocked p = true
    · simp [hp]
    · rw [hfail (by rw [hblocked]; simpa using hp)]
  refine ⟨?_, Bool.eq_iff_iff.mpr hiff, fun hp => ?_⟩
  · rw [maxAttempts_call, maxAttempts_call, hmax]
  · have hp₀ : log.isBlocked p = false := by
      rw [← Bool.not_eq_true, isBlocked_call, not_or] at hp
      simpa using hp.1
    rw [failures_call hp₀, failures_call (hblocked ▸ hp₀), hfail hp₀]

/-- A call about another peer keeps a log in agreement with another one. -/
lemma SameFor.call_other {log' : SessionLog} (h : SameFor p log log') (hc : c.concerns p = false) :
    SameFor p (log.call c).2 log' := by
  obtain ⟨hmax, hblocked, hfail⟩ := h
  have hne : c ≠ .recordFailure p ∧ c ≠ .recordSuccess p ∧ c ≠ .block p := by
    refine ⟨?_, ?_, ?_⟩ <;> rintro rfl <;> simp [Call.concerns] at hc
  have hkeep : (log.call c).2.isBlocked p = log.isBlocked p := by
    rw [Bool.eq_iff_iff, isBlocked_call]
    simp [hne]
  refine ⟨(maxAttempts_call log c).trans hmax, hkeep.trans hblocked, fun hp => ?_⟩
  rw [hkeep] at hp
  rw [failures_call hp, if_neg hne.1, if_neg hne.2.1, hfail hp]

/-- The calls about other peers never matter. -/
theorem sameFor_filter {log' : SessionLog} (h : SameFor p log log') (cs : List Call) :
    SameFor p (Machine.final SessionLog.call log cs)
      (Machine.final SessionLog.call log' (cs.filter (Call.concerns p))) := by
  induction cs generalizing log log' with
  | nil => exact h
  | cons c cs ih =>
    by_cases hc : c.concerns p = true
    · rw [List.filter_cons_of_pos hc]
      exact ih (h.call c)
    · rw [List.filter_cons_of_neg hc]
      exact ih (h.call_other (by simpa using hc))

/-! ## The listeners -/

/-- The peer that a call adds to the block-list. -/
def newlyBlocked (log : SessionLog) : Call → Option String
  | .recordFailure peer =>
    if log.isBlocked peer = false ∧ log.maxAttempts ≤ log.failures peer + 1 then some peer else none
  | .block peer => if log.isBlocked peer = false then some peer else none
  | .recordSuccess _ | .subscribeBlock _ => none

/-- A call blocks a peer that was not blocked exactly when it adds it to the block-list. -/
lemma newlyBlocked_iff : log.newlyBlocked c = some p ↔
    log.isBlocked p = false ∧ (log.call c).2.isBlocked p = true := by
  rw [isBlocked_call]
  rcases c with peer | peer | peer | listener <;> unfold newlyBlocked
  · rw [Option.ite_none_right_eq_some]
    constructor
    · rintro ⟨⟨hp, hmax⟩, hpeer⟩
      cases hpeer
      exact ⟨hp, Or.inr (Or.inr ⟨rfl, hmax⟩)⟩
    · rintro ⟨hp, hblocked | hblock | ⟨hfail, hmax⟩⟩
      · simp [hp] at hblocked
      · cases hblock
      · cases hfail
        exact ⟨⟨hp, hmax⟩, rfl⟩
  · simp
  · rw [Option.ite_none_right_eq_some]
    constructor
    · rintro ⟨hp, hpeer⟩
      cases hpeer
      exact ⟨hp, Or.inr (Or.inl rfl)⟩
    · rintro ⟨hp, hblocked | hblock | ⟨hfail, -⟩⟩
      · simp [hp] at hblocked
      · cases hblock
        exact ⟨hp, rfl⟩
      · cases hfail
  · simp

/-- What a call tells the listeners. -/
lemma notifications_call : (log.call c).2.notifications = log.notifications ++
    ((log.newlyBlocked c).toList.flatMap fun peer =>
      log.blockListeners.map fun l => (l, peer)) := by
  have hblock : ∀ (log : SessionLog) peer, (log.block peer).notifications = log.notifications ++
      if log.isBlocked peer = false then log.blockListeners.map fun l => (l, peer) else [] := by
    intro log peer
    unfold block isBlocked
    split_ifs with h h' <;> simp_all
  rcases c with peer | peer | peer | listener
  · change (log.recordFailure peer).2.notifications = _
    unfold newlyBlocked
    by_cases hblocked : log.isBlocked peer = true
    · rw [recordFailure_of_blocked hblocked]
      simp [hblocked]
    · have hnot : peer ∉ log.blocked := by simpa [isBlocked] using hblocked
      rw [Bool.not_eq_true] at hblocked
      unfold recordFailure
      rw [if_neg hnot]
      dsimp only
      change (if log.maxAttempts ≤ log.failures peer + 1 then _ else _ :
        Bool × SessionLog).2.notifications = _
      by_cases hmax : log.maxAttempts ≤ log.failures peer + 1
      · have hlisten : ∀ failed, ({ log with failedAttempts := failed }.block peer).notifications =
            log.notifications ++ log.blockListeners.map fun l => (l, peer) := by
          intro failed
          exact (hblock _ peer).trans (congrArg _ (if_pos hblocked))
        rw [if_pos hmax, if_pos ⟨hblocked, hmax⟩, hlisten]
        simp
      · rw [if_neg hmax, if_neg fun h => hmax h.2]
        simp
  · simp [call, recordSuccess, newlyBlocked]
  · apply (hblock log peer).trans
    unfold newlyBlocked
    by_cases hblocked : log.isBlocked peer = false
    · rw [if_pos hblocked]
      simp [hblocked]
    · rw [if_neg hblocked]
      simp [hblocked]
  · simp [call, subscribeBlock, newlyBlocked]

/-- A call tells the listeners of a peer exactly when it blocks the peer. -/
lemma told_call : (log.call c).2.told p = log.told p ++
    if log.newlyBlocked c = some p then log.blockListeners.map fun l => (l, p) else [] := by
  rw [told, notifications_call, List.filter_append, told]
  congr 1
  rcases log.newlyBlocked c with _ | peer
  · simp
  · by_cases hp : peer = p
    · subst hp
      simp [List.filter_map, Function.comp_def]
    · simp [List.filter_map, Function.comp_def, hp]

/-- The listeners after a call. -/
lemma blockListeners_call :
    (log.call c).2.blockListeners = log.blockListeners ++ subscribed [c] := by
  have hblock : ∀ log : SessionLog, ∀ peer, (log.block peer).blockListeners =
      log.blockListeners := by
    intro log peer
    unfold block
    split_ifs <;> rfl
  rcases c with peer | peer | peer | listener
  · refine Eq.trans ?_ (List.append_nil _).symm
    change (log.recordFailure peer).2.blockListeners = _
    unfold recordFailure
    dsimp only
    split_ifs
    · rfl
    · exact hblock _ peer
    · rfl
  · exact (List.append_nil _).symm
  · exact (hblock log peer).trans (List.append_nil _).symm
  · rfl

/-- The listeners after a run. -/
lemma blockListeners_final (m forwardTolerance replayLookback : ℕ) (cs : List Call) :
    (Machine.final SessionLog.call (create m forwardTolerance replayLookback) cs).blockListeners =
      subscribed cs := by
  induction cs using List.reverseRecOn with
  | nil => rfl
  | append_singleton cs c ih =>
    rw [Machine.final_append]
    apply blockListeners_call.trans
    rw [ih, subscribed, subscribed, subscribed, List.filterMap_append]

/-- The listeners are told nothing of a peer that is not blocked.  Of a blocked peer they were told
at the call that blocked it, every listener that was subscribed before once, and never again. -/
theorem told_final (m forwardTolerance replayLookback : ℕ) (cs : List Call) (p : String) :
    let run := Machine.final SessionLog.call (create m forwardTolerance replayLookback)
    ((run cs).isBlocked p = false → (run cs).told p = []) ∧
    ((run cs).isBlocked p = true → ∃ before c after, cs = before ++ c :: after ∧
      (run before).isBlocked p = false ∧ (run (before ++ [c])).isBlocked p = true ∧
      (run cs).told p = (subscribed before).map fun l => (l, p)) := by
  intro run
  induction cs using List.reverseRecOn with
  | nil => exact ⟨fun _ => rfl, fun h => by cases h⟩
  | append_singleton cs c ih =>
    obtain ⟨hfree, hblocked⟩ := ih
    have hsnoc : run (cs ++ [c]) = ((run cs).call c).2 := Machine.final_append _ _ _
    have htold : (run (cs ++ [c])).told p = (run cs).told p ++
        if (run cs).isBlocked p = false ∧ (run (cs ++ [c])).isBlocked p = true then
          (subscribed cs).map fun l => (l, p)
        else [] := by
      rw [hsnoc, told_call, blockListeners_final]
      simp only [newlyBlocked_iff]
    by_cases hp : (run cs).isBlocked p = true
    · have hkeep : (run (cs ++ [c])).isBlocked p = true := by
        rw [hsnoc]
        exact isBlocked_call.mpr (Or.inl hp)
      obtain ⟨before, c', after, rfl, hbefore, hafter, hlist⟩ := hblocked hp
      refine ⟨fun h => ?_, fun _ => ⟨before, c', after ++ [c], ?_, hbefore, hafter, ?_⟩⟩
      · rw [hkeep] at h
        cases h
      · simp
      · rw [htold, if_neg fun h => by simp [hp] at h, hlist, List.append_nil]
    · rw [Bool.not_eq_true] at hp
      rw [hfree hp, List.nil_append] at htold
      refine ⟨fun h => ?_, fun h => ⟨cs, c, [], rfl, hp, h, ?_⟩⟩
      · rw [htold, if_neg fun hnew => by simp [h] at hnew]
      · rw [htold, if_pos ⟨hp, h⟩]

end SessionLog

/-! ## The server -/

namespace Server

variable {C : Crypto}

/-- The decryption that a request leads to: the key, and the message that is decrypted under it. -/
def decryption (S : Server C) (i : ServerEnv × Bytes) : Option (Bytes × Message1) :=
  match Message1.fromBytes i.2 with
  | .error _ => none
  | .ok msg1 =>
    match (S.resolvePseudonym i.1 msg1.pid).1 with
    | .error _ => none
    | .ok (peer, _) =>
      if S.sessionLog.isBlocked peer ∨ i.1.coverage peer = false then none
      else
        match (S.entity.getPairwiseRoot peer).1 with
        | .error _ => none
        | .ok kStar => some (kStar, msg1)

/-- What a request goes through before it is decrypted: the message, its peer, its epoch and the
pairwise root, if it gets through. -/
def gate (S : Server C) (i : ServerEnv × Bytes) :
    Except Exc (Message1 × String × ℤ × Bytes) × Server C :=
  match Message1.fromBytes i.2 with
  | .error e => (.error e, S)
  | .ok msg1 =>
    match S.resolvePseudonym i.1 msg1.pid with
    | (.error e, S) => (.error e, S)
    | (.ok (peer, epoch), S) =>
      if S.sessionLog.isBlocked peer then (.error (blockedError peer), S)
      else if i.1.coverage peer = false then
        (.error (coverageError peer),
          { S with sessionLog := (S.sessionLog.recordFailure peer).2 })
      else
        match S.entity.getPairwiseRoot peer with
        | (.error e, E) => (.error e, { S with entity := E })
        | (.ok kStar, E) => (.ok (msg1, peer, epoch, kStar), { S with entity := E })

/-- A request that gets through is decrypted, and no other one is. -/
lemma openRequest_eq_gate (S : Server C) (i : ServerEnv × Bytes) :
    S.openRequest i.1 i.2 = match S.gate i with
      | (.error e, S) => (.error e, S)
      | (.ok (msg1, peer, epoch, kStar), S) =>
        match decryptRequest C S.sessionLog msg1 peer epoch kStar with
        | (x, log) => (x, { S with sessionLog := log }) := by
  unfold openRequest gate
  rcases Message1.fromBytes i.2 with e | msg1
  · rfl
  dsimp only
  rcases S.resolvePseudonym i.1 msg1.pid with ⟨e | ⟨peer, epoch⟩, S'⟩
  · rfl
  dsimp only
  unfold verify
  by_cases hblocked : S'.sessionLog.isBlocked peer = true
  · rw [if_pos hblocked, if_pos hblocked]
  rw [if_neg hblocked, if_neg hblocked]
  by_cases hcov : i.1.coverage peer = false
  · rw [if_pos hcov, if_pos hcov]
  rw [if_neg hcov, if_neg hcov]
  rcases S'.entity.getPairwiseRoot peer with ⟨e | kStar, E⟩ <;> rfl

/-- What is decrypted is the message, under the root, that got through. -/
lemma decryption_eq_gate (S : Server C) (i : ServerEnv × Bytes) :
    S.decryption i = (S.gate i).1.toOption.map fun x => (x.2.2.2, x.1) := by
  unfold decryption gate
  rcases Message1.fromBytes i.2 with e | msg1
  · rfl
  dsimp only
  rcases hres : S.resolvePseudonym i.1 msg1.pid with ⟨e | ⟨peer, epoch⟩, S'⟩
  · rfl
  have hS' : S'.sessionLog = S.sessionLog ∧ S'.entity = S.entity := by
    obtain rfl : (S.resolvePseudonym i.1 msg1.pid).2 = S' := congrArg Prod.snd hres
    exact ⟨rfl, rfl⟩
  dsimp only
  rw [hS'.1, hS'.2]
  by_cases hblocked : S.sessionLog.isBlocked peer = true
  · rw [if_pos (Or.inl hblocked), if_pos hblocked]
    rfl
  rw [if_neg hblocked]
  by_cases hcov : i.1.coverage peer = false
  · rw [if_pos (Or.inr hcov), if_pos hcov]
    rfl
  rw [if_neg hcov, if_neg (not_or.mpr ⟨hblocked, hcov⟩)]
  rcases S.entity.getPairwiseRoot peer with ⟨e | kStar, E⟩ <;> rfl

/-- The handler decrypts what `decryption` says, and nothing where it says nothing: then the request
ends at the gate. -/
theorem openRequest_eq_decryption (S : Server C) (i : ServerEnv × Bytes) :
    match S.decryption i with
    | none => ∃ e, S.gate i = (.error e, (S.gate i).2) ∧
        S.openRequest i.1 i.2 = (.error e, (S.gate i).2)
    | some (kStar, msg1) => ∃ peer epoch, (S.gate i).1 = .ok (msg1, peer, epoch, kStar) ∧
        S.openRequest i.1 i.2 =
          ((decryptRequest C (S.gate i).2.sessionLog msg1 peer epoch kStar).1,
            { (S.gate i).2 with
              sessionLog :=
                (decryptRequest C (S.gate i).2.sessionLog msg1 peer epoch kStar).2 }) := by
  rw [decryption_eq_gate, openRequest_eq_gate]
  rcases S.gate i with ⟨e | ⟨msg1, peer, epoch, kStar⟩, S'⟩
  · exact ⟨e, rfl, rfl⟩
  · exact ⟨peer, epoch, rfl, rfl⟩

/-- A request of a blocked peer is rejected before it is decrypted, and leaves the log as it was. -/
lemma handleAuthRequest_of_blocked {S : Server C} {i : ServerEnv × Bytes} {msg1 : Message1}
    {p : String} {epoch : ℤ} (hparse : Message1.fromBytes i.2 = .ok msg1)
    (hres : (S.resolvePseudonym i.1 msg1.pid).1 = .ok (p, epoch))
    (hblocked : S.sessionLog.isBlocked p = true) :
    (S.step i).1 = .error (blockedError p) ∧ (S.step i).2.sessionLog = S.sessionLog ∧
      S.decryption i = none := by
  refine ⟨?_, ?_, ?_⟩
  · rcases hr : S.resolvePseudonym i.1 msg1.pid with ⟨x, S'⟩
    have hlog : S'.sessionLog = S.sessionLog :=
      congrArg (fun y => Server.sessionLog (Prod.snd y)) hr.symm
    rw [hr] at hres
    obtain rfl : x = .ok (p, epoch) := hres
    simp only [Server.step, handleAuthRequest, openRequest, hparse, hr, verify, hlog,
      hblocked, if_true]
  · rcases hr : S.resolvePseudonym i.1 msg1.pid with ⟨x, S'⟩
    have hlog : S'.sessionLog = S.sessionLog :=
      congrArg (fun y => Server.sessionLog (Prod.snd y)) hr.symm
    rw [hr] at hres
    obtain rfl : x = .ok (p, epoch) := hres
    simp only [Server.step, handleAuthRequest, openRequest, hparse, hr, verify, hlog,
      hblocked, if_true]
  · rw [decryption, hparse]
    dsimp only
    rw [hres]
    dsimp only
    rw [if_pos (Or.inl hblocked)]

/-- A request never unblocks a peer. -/
lemma isBlocked_handleAuthRequest {S : Server C} {p : String}
    (h : S.sessionLog.isBlocked p = true) (i : ServerEnv × Bytes) :
    (S.step i).2.sessionLog.isBlocked p = true := by
  have hopen : (S.openRequest i.1 i.2).2.sessionLog.isBlocked p = true := by
    obtain ⟨-, -, -, heq | ⟨peer, heq⟩⟩ := S.openRequest_frame i.1 i.2
    · rw [heq]
      exact h
    · rw [heq]
      exact SessionLog.isBlocked_recordFailure.mpr (Or.inl h)
  have haccept : ∀ (log : SessionLog) peer epoch, log.isBlocked p = true →
      (log.acceptEpoch peer epoch).isBlocked p = true := by
    intro log peer epoch hlog
    rw [SessionLog.isBlocked, SessionLog.acceptEpoch_frame.2.2.2.2]
    exact hlog
  unfold Server.step
  rcases S.handleAuthRequest_cases i.1 i.2 with ⟨e, -, heq⟩ | ⟨o, -, heq⟩
  · rw [heq]
    exact hopen
  · rw [heq]
    have hacc : ((S.openRequest i.1 i.2).2.resolver.accept C (S.openRequest i.1 i.2).2.peers
        (S.openRequest i.1 i.2).2.sessionLog i.1.acceptReading o.peer o.epoch
        o.nI).2.2.isBlocked p = true := by
      rcases Resolver.log_accept_cases with hlog | hlog
      · rw [hlog]
        exact hopen
      · rw [hlog]
        exact haccept _ _ _ hopen
    unfold finish
    split <;> rename_i hfinish
    · rw [hfinish] at hacc
      exact hacc
    · rw [hfinish] at hacc
      exact hacc

/-- No sequence of requests unblocks a peer. -/
lemma isBlocked_final {S : Server C} {p : String} (h : S.sessionLog.isBlocked p = true)
    (is : List (ServerEnv × Bytes)) :
    (Machine.final step S is).sessionLog.isBlocked p = true := by
  have hstep : ∀ (S : Server C) i, S.sessionLog.isBlocked p = true → True →
      (S.step i).2.sessionLog.isBlocked p = true :=
    fun S i h _ => isBlocked_handleAuthRequest h i
  exact Machine.invariant_final hstep h (Machine.allSteps_of_inputs fun _ _ => trivial)

end Server

/-- After any calls on a fresh log, a peer is blocked exactly when the calls convict it, and stays
blocked; the calls about other peers do not matter; `record_failure` returns whether the peer is
blocked; and the listeners are told of a blocked peer once, at the call that blocked it.  A server
that has blocked a peer rejects its later requests undecrypted and with the log unchanged. -/
theorem block_list_law {m : ℕ} (hm : 1 ≤ m) (forwardTolerance replayLookback : ℕ)
    (cs : List SessionLog.Call) (p : String) :
    let run := Machine.final SessionLog.call
      (SessionLog.create m forwardTolerance replayLookback)
    ((run cs).isBlocked p = true ↔ SessionLog.Convicts m cs p) ∧
    ((run cs).isBlocked p = true → ∀ after, (run (cs ++ after)).isBlocked p = true) ∧
    (run cs).isBlocked p = (run (cs.filter (SessionLog.Call.concerns p))).isBlocked p ∧
    ((run cs).recordFailure p).1 = (run (cs ++ [.recordFailure p])).isBlocked p ∧
    ((run cs).isBlocked p = false → (run cs).told p = []) ∧
    ((run cs).isBlocked p = true → ∃ before c after, cs = before ++ c :: after ∧
      (run before).isBlocked p = false ∧ (run (before ++ [c])).isBlocked p = true ∧
      (run cs).told p = (SessionLog.subscribed before).map fun l => (l, p)) ∧
    ∀ (C : Crypto) (S : Server C), S.sessionLog.isBlocked p = true → ∀ is i msg1 epoch,
      Message1.fromBytes i.2 = .ok msg1 →
      ((Machine.final Server.step S is).resolvePseudonym i.1 msg1.pid).1 = .ok (p, epoch) →
      ((Machine.final Server.step S is).step i).1 = .error (blockedError p) ∧
        ((Machine.final Server.step S is).step i).2.sessionLog =
          (Machine.final Server.step S is).sessionLog ∧
        (Machine.final Server.step S is).decryption i = none := by
  intro run
  have hrun : ∀ after, run (cs ++ after) = Machine.final SessionLog.call (run cs) after :=
    fun after => Machine.final_append _ _ _
  have hfollows := SessionLog.follows_final hm forwardTolerance replayLookback cs
  obtain ⟨hfree, hblocked⟩ := SessionLog.told_final m forwardTolerance replayLookback cs p
  have hsame : SessionLog.SameFor p (SessionLog.create m forwardTolerance replayLookback)
      (SessionLog.create m forwardTolerance replayLookback) := ⟨rfl, rfl, fun _ => rfl⟩
  refine ⟨hfollows.blocked_iff p, fun h after => ?_, (SessionLog.sameFor_filter hsame cs).2.1, ?_,
    hfree, hblocked, fun C S hS is i msg1 epoch hparse hres => ?_⟩
  · rw [hrun]
    exact SessionLog.isBlocked_final h after
  · rw [hrun]
    exact SessionLog.recordFailure_fst
  · exact Server.handleAuthRequest_of_blocked hparse hres (Server.isBlocked_final hS is)

/-- Three failures after a success block the peer. -/
theorem block_list_law_three :
    (Machine.final SessionLog.call (SessionLog.create 3 8 16)
      [.recordFailure "d", .recordSuccess "d", .recordFailure "d", .recordFailure "d",
        .recordFailure "d"]).isBlocked "d" = true := by
  refine (block_list_law (by decide) 8 16 _ "d").1.mpr (Or.inr ⟨_, List.prefix_refl _, ?_⟩)
  exact ⟨[.recordFailure "d", .recordSuccess "d"], _, rfl, by decide, by decide⟩

end HybridEccAuth

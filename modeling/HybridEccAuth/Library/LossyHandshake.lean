import HybridEccAuth.Library.Machine
import Mathlib.Data.List.Range
import Mathlib.Tactic.SplitIfs

/-!
# Handshakes over a lossy link

One party numbers its requests, and the other one accepts a request whose number lies in
a window above the last accepted one, and answers it with a key.  The link keeps the
order of the requests, and that of the answers, but may lose them.  An answer completes the
last request, if it answers that one and comes in time; otherwise it is a failure, after
which the requesting party no longer waits, and too many failures in a row bar the other
party.

`Reached.lost_of_delivered` says which requests are accepted, `Reached.not_accepted` that nothing is
accepted any more once as many requests in a row were lost as the window is wide, and
`Reached.completed_keys_sublist` that the completed keys are keys of accepted requests, in their
order.  A history determines the state (`Reached.eq_foldl`).
-/

namespace LossyHandshake

variable {κ : Type*}

/-- The bounds of a handshake. -/
structure Bounds where
  /-- How many numbers above the last accepted one are accepted. -/
  window : ℕ
  /-- How many failures in a row bar the other party. -/
  maxFailures : ℕ

/-- The state of both parties and of the link. -/
structure State (κ : Type*) where
  /-- The number of the next request. -/
  next : ℕ := 0
  /-- The numbers of the requests in flight. -/
  requests : List ℕ := []
  /-- The least number that may still be accepted. -/
  floor : ℕ := 0
  /-- The answers in flight, each with the number of its request. -/
  answers : List (ℕ × κ) := []
  /-- The number of the request that waits for an answer. -/
  waiting : Option ℕ := none
  failures : ℕ := 0
  barred : Bool := false

/-- What happens next. -/
inductive Input (κ : Type*)
  | send
  | loseRequest
  | deliverRequest (key : κ)
  | loseAnswer
  | deliverAnswer (inTime : Bool)

/-- What can be seen of it. -/
inductive Output (κ : Type*)
  | sent
  | refused
  | requestLost
  | accepted (key : κ)
  | rejected
  | answerLost
  | completed (key : κ)
  | failed

/-- Counts a failure, unless the other party is barred already. -/
def State.fail (b : Bounds) (s : State κ) : State κ :=
  if s.barred then s
  else { s with failures := s.failures + 1, barred := decide (b.maxFailures ≤ s.failures + 1) }

/-- One step; losing or delivering needs something in flight. -/
def step (b : Bounds) (s : State κ) : Input κ → Option (Output κ) × State κ
  | .send =>
    if s.barred then (some .refused, s)
    else (some .sent,
      { s with next := s.next + 1, requests := s.requests ++ [s.next], waiting := some s.next })
  | .loseRequest =>
    match s.requests with
    | [] => (none, s)
    | _ :: rest => (some .requestLost, { s with requests := rest })
  | .deliverRequest key =>
    match s.requests with
    | [] => (none, s)
    | n :: rest =>
      if s.floor ≤ n ∧ n < s.floor + b.window then
        (some (.accepted key),
          { s with requests := rest, floor := n + 1, answers := s.answers ++ [(n, key)] })
      else (some .rejected, { s with requests := rest })
  | .loseAnswer =>
    match s.answers with
    | [] => (none, s)
    | _ :: rest => (some .answerLost, { s with answers := rest })
  | .deliverAnswer inTime =>
    match s.answers with
    | [] => (none, s)
    | (n, key) :: rest =>
      match s.waiting with
      | none => (some .failed, { s with answers := rest })
      | some m =>
        if inTime ∧ n = m then
          (some (.completed key), { s with answers := rest, waiting := none, failures := 0 })
        else (some .failed, { s with answers := rest, waiting := none }.fail b)

/-- What is seen of a step. -/
def observe (b : Bounds) (s : State κ) (i : Input κ) : Option (Output κ) := (step b s i).1

section Steps

variable {b : Bounds} {s : State κ} {n m : ℕ} {key : κ} {rest : List ℕ} {others : List (ℕ × κ)}

/-- A party that is barred is sent nothing. -/
lemma step_send_barred (h : s.barred = true) : step b s .send = (some .refused, s) := if_pos h

/-- A request is sent, if its receiver is not barred. -/
lemma step_send (h : s.barred = false) : step b s .send = (some .sent,
    { s with next := s.next + 1, requests := s.requests ++ [s.next], waiting := some s.next }) :=
  if_neg (by rw [h]; exact Bool.false_ne_true)

/-- The first request in flight is lost. -/
lemma step_loseRequest (h : s.requests = n :: rest) :
    step b s .loseRequest = (some .requestLost, { s with requests := rest }) := by
  rw [step, h]

/-- The first request in flight is accepted. -/
lemma step_accept (h : s.requests = n :: rest) (hn : s.floor ≤ n ∧ n < s.floor + b.window) :
    step b s (.deliverRequest key) = (some (.accepted key),
      { s with requests := rest, floor := n + 1, answers := s.answers ++ [(n, key)] }) := by
  rw [step, h]
  exact if_pos hn

/-- The first request in flight is rejected. -/
lemma step_reject (h : s.requests = n :: rest) (hn : ¬ (s.floor ≤ n ∧ n < s.floor + b.window)) :
    step b s (.deliverRequest key) = (some .rejected, { s with requests := rest }) := by
  rw [step, h]
  exact if_neg hn

/-- The first answer in flight is lost. -/
lemma step_loseAnswer (h : s.answers = (n, key) :: others) :
    step b s .loseAnswer = (some .answerLost, { s with answers := others }) := by
  rw [step, h]

/-- The first answer in flight comes when nothing waits for it. -/
lemma step_unexpected (h : s.answers = (n, key) :: others) (hm : s.waiting = none) (inTime : Bool) :
    step b s (.deliverAnswer inTime) = (some .failed, { s with answers := others }) := by
  rw [step, h]
  dsimp only
  rw [hm]

/-- The first answer in flight completes the request that waits. -/
lemma step_complete (h : s.answers = (n, key) :: others) (hm : s.waiting = some n) :
    step b s (.deliverAnswer true) = (some (.completed key),
      { s with answers := others, waiting := none, failures := 0 }) := by
  rw [step, h]
  dsimp only
  rw [hm]
  exact if_pos ⟨rfl, rfl⟩

/-- The first answer in flight fails the request that waits. -/
lemma step_fail (h : s.answers = (n, key) :: others) (hm : s.waiting = some m) {inTime : Bool}
    (hbad : ¬ (inTime = true ∧ n = m)) :
    step b s (.deliverAnswer inTime) =
      (some .failed, { s with answers := others, waiting := none }.fail b) := by
  rw [step, h]
  dsimp only
  rw [hm]
  exact if_neg hbad

end Steps

/-! ## Histories -/

/-- The count of lost requests after an observation. -/
def countLost (n : ℕ) : Output κ → ℕ
  | .requestLost => n + 1
  | .accepted _ => 0
  | .sent | .refused | .rejected | .answerLost | .completed _ | .failed => n

/-- How many requests were lost since the last one was accepted. -/
def lostSince (seen : List (Output κ)) : ℕ := seen.foldl countLost 0

/-- The key of a request that was accepted. -/
def Output.acceptedKey : Output κ → Option κ
  | .accepted key => some key
  | .sent | .refused | .requestLost | .rejected | .answerLost | .completed _ | .failed => none

/-- The key of a request that was completed. -/
def Output.completedKey : Output κ → Option κ
  | .completed key => some key
  | .sent | .refused | .requestLost | .accepted _ | .rejected | .answerLost | .failed => none

/-- One more observation. -/
@[simp] lemma lostSince_append_singleton (seen : List (Output κ)) (o : Output κ) :
    lostSince (seen ++ [o]) = countLost (lostSince seen) o := by
  rw [lostSince, List.foldl_append]
  rfl

/-- One more observation, under a function. -/
lemma filterMap_append_singleton (f : Output κ → Option κ) (seen : List (Output κ)) (o : Output κ) :
    (seen ++ [o]).filterMap f = seen.filterMap f ++ (f o).toList := by
  rw [List.filterMap_append]
  rcases h : f o with _ | key
  · rw [List.filterMap_cons_none h]
    rfl
  · rw [List.filterMap_cons_some h]
    rfl

/-! ## The invariant -/

/-- The numbers of the requests in flight are consecutive, up to the next number.  Between the last
accepted number and the first of them are those that were lost and `r` that were rejected. -/
structure Numbers (b : Bounds) (seen : List (Output κ)) (s : State κ) (r : ℕ) : Prop where
  requests : s.requests = List.range' (s.floor + lostSince seen + r) s.requests.length
  next : s.next = s.floor + lostSince seen + r + s.requests.length
  rejected : 0 < r → b.window ≤ lostSince seen

/-- The invariant of a handshake and its history. -/
structure Inv (b : Bounds) (seen : List (Output κ)) (s : State κ) : Prop where
  numbers : ∃ r, Numbers b seen s r
  /-- The keys that were completed, and then those in flight, were accepted in this order. -/
  keys : (seen.filterMap Output.completedKey ++ s.answers.map Prod.snd).Sublist
    (seen.filterMap Output.acceptedKey)
  last : ∀ a, s.answers.getLast? = some a → a.1 + 1 = s.floor
  waiting : ∀ m, s.waiting = some m → m + 1 = s.next

section Invariant

variable {b : Bounds} {seen : List (Output κ)} {s s' : State κ} {n r : ℕ} {rest : List ℕ}

/-- The invariant holds before anything happens. -/
lemma inv_init (b : Bounds) : Inv b ([] : List (Output κ)) {} where
  numbers := ⟨0, rfl, rfl, fun h => absurd h (Nat.lt_irrefl 0)⟩
  keys := List.Sublist.refl _
  last a ha := by cases ha
  waiting m hm := by cases hm

/-- The keys after an observation of which no key is seen. -/
lemma Inv.keys_silent (h : Inv b seen s) {o : Output κ} (hc : o.completedKey = none)
    (ha : o.acceptedKey = none) :
    ((seen ++ [o]).filterMap Output.completedKey ++ s.answers.map Prod.snd).Sublist
      ((seen ++ [o]).filterMap Output.acceptedKey) := by
  rw [filterMap_append_singleton, filterMap_append_singleton, hc, ha, Option.toList_none,
    List.append_nil, List.append_nil]
  exact h.keys

/-- The numbers depend on the requests in flight and the two counters. -/
lemma Numbers.congr (h : Numbers b seen s r) {o : Output κ} (ho : ∀ n, countLost n o = n)
    (hreq : s'.requests = s.requests) (hnext : s'.next = s.next) (hfloor : s'.floor = s.floor) :
    Numbers b (seen ++ [o]) s' r := by
  obtain ⟨h₁, h₂, h₃⟩ := h
  refine ⟨?_, ?_, ?_⟩
  · rwa [lostSince_append_singleton, ho, hreq, hfloor]
  · rwa [lostSince_append_singleton, ho, hreq, hfloor, hnext]
  · rwa [lostSince_append_singleton, ho]

/-- The first request in flight, and the rest. -/
lemma Numbers.tail (h : Numbers b seen s r) (hs : s.requests = n :: rest) :
    n = s.floor + lostSince seen + r ∧ rest = List.range' (n + 1) rest.length ∧
      s.next = n + 1 + rest.length := by
  obtain ⟨hreq, hnext, -⟩ := h
  rw [hs, List.length_cons, List.range'_succ] at hreq
  rw [hs, List.length_cons] at hnext
  obtain ⟨hn, hrest⟩ := List.cons.inj hreq
  exact ⟨hn, hn ▸ hrest, by omega⟩

/-- Sending a request keeps the invariant. -/
lemma Inv.send (h : Inv b seen s) : Inv b (seen ++ [.sent])
    { s with next := s.next + 1, requests := s.requests ++ [s.next], waiting := some s.next } := by
  obtain ⟨⟨r, hreq, hnext, hrej⟩, -, hlast, -⟩ := id h
  refine ⟨⟨r, ?_, ?_, ?_⟩, h.keys_silent rfl rfl, hlast, ?_⟩
  · dsimp only
    rw [lostSince_append_singleton, countLost, List.length_append, List.length_singleton,
      List.range'_concat, ← hreq, hnext, Nat.one_mul]
  · dsimp only
    rw [lostSince_append_singleton, countLost, List.length_append, List.length_singleton, hnext,
      Nat.add_assoc]
  · rwa [lostSince_append_singleton, countLost]
  · intro m hm
    obtain rfl := Option.some.inj hm
    rfl

/-- A request is lost. -/
lemma Inv.loseRequest (h : Inv b seen s) (hs : s.requests = n :: rest) :
    Inv b (seen ++ [.requestLost]) { s with requests := rest } := by
  obtain ⟨⟨r, hnum⟩, -, hlast, hwait⟩ := id h
  obtain ⟨hn, hrest, hnext⟩ := hnum.tail hs
  have hsum : s.floor + (lostSince seen + 1) + r = n + 1 := by omega
  refine ⟨⟨r, ?_, ?_, ?_⟩, h.keys_silent rfl rfl, hlast, hwait⟩
  · dsimp only
    rwa [lostSince_append_singleton, countLost, hsum]
  · dsimp only
    rwa [lostSince_append_singleton, countLost, hsum]
  · rw [lostSince_append_singleton, countLost]
    intro hr
    exact Nat.le_succ_of_le (hnum.rejected hr)

/-- A request is accepted: those in flight are then directly above the last accepted one. -/
lemma Inv.accept (h : Inv b seen s) (hs : s.requests = n :: rest) (key : κ) :
    Inv b (seen ++ [.accepted key])
      { s with requests := rest, floor := n + 1, answers := s.answers ++ [(n, key)] } := by
  obtain ⟨⟨r, hnum⟩, hkeys, -, hwait⟩ := h
  obtain ⟨-, hrest, hnext⟩ := hnum.tail hs
  refine ⟨⟨0, ?_, ?_, fun hr => absurd hr (Nat.lt_irrefl 0)⟩, ?_, ?_, hwait⟩
  · dsimp only
    rwa [lostSince_append_singleton, countLost, Nat.add_zero, Nat.add_zero]
  · dsimp only
    rwa [lostSince_append_singleton, countLost, Nat.add_zero, Nat.add_zero]
  · dsimp only
    rw [filterMap_append_singleton, filterMap_append_singleton, List.map_append,
      ← List.append_assoc]
    refine List.Sublist.append ?_ (List.Sublist.refl _)
    rwa [Output.completedKey, Option.toList_none, List.append_nil]
  · intro a ha
    rw [List.getLast?_append, List.getLast?_singleton] at ha
    obtain rfl := Option.some.inj ha
    rfl

/-- A request is rejected: it lies beyond the window. -/
lemma Inv.reject (h : Inv b seen s) (hs : s.requests = n :: rest)
    (hn : ¬ (s.floor ≤ n ∧ n < s.floor + b.window)) :
    Inv b (seen ++ [.rejected]) { s with requests := rest } := by
  obtain ⟨⟨r, hnum⟩, -, hlast, hwait⟩ := id h
  obtain ⟨hsum, hrest, hnext⟩ := hnum.tail hs
  refine ⟨⟨r + 1, ?_, ?_, ?_⟩, h.keys_silent rfl rfl, hlast, hwait⟩
  · dsimp only
    rwa [lostSince_append_singleton, countLost, ← Nat.add_assoc, ← hsum]
  · dsimp only
    rwa [lostSince_append_singleton, countLost, ← Nat.add_assoc, ← hsum]
  · rw [lostSince_append_singleton, countLost]
    intro _
    rcases Nat.eq_zero_or_pos r with hr | hr
    · omega
    · exact hnum.rejected hr

/-- An answer leaves the link without completing anything, and the rest of the state keeps its
numbers. -/
lemma Inv.dropAnswer (h : Inv b seen s) {key : κ} {others : List (ℕ × κ)} {o : Output κ}
    (hs : s.answers = (n, key) :: others) (ho : o = .answerLost ∨ o = .failed)
    (hreq : s'.requests = s.requests) (hnext : s'.next = s.next) (hfloor : s'.floor = s.floor)
    (hans : s'.answers = others) (hwait : s'.waiting = s.waiting ∨ s'.waiting = none) :
    Inv b (seen ++ [o]) s' := by
  obtain ⟨⟨r, hnum⟩, -, hlast, hwait'⟩ := id h
  obtain ⟨hcount, hc, ha⟩ : (∀ n, countLost n o = n) ∧ o.completedKey = none ∧
      o.acceptedKey = none := by
    rcases ho with rfl | rfl <;> exact ⟨fun _ => rfl, rfl, rfl⟩
  refine ⟨⟨r, hnum.congr hcount hreq hnext hfloor⟩, ?_, ?_, ?_⟩
  · refine List.Sublist.trans (List.Sublist.append (List.Sublist.refl _) ?_) (h.keys_silent hc ha)
    rw [hans, hs, List.map_cons]
    exact List.sublist_cons_self _ _
  · intro a ha
    rw [hfloor]
    apply hlast a
    rw [hs, List.getLast?_cons, ← hans, ha, Option.getD_some]
  · intro m hm
    rw [hnext]
    rcases hwait with heq | heq
    · exact hwait' m (heq ▸ hm)
    · rw [heq] at hm
      cases hm

/-- An answer completes the request that waits. -/
lemma Inv.complete (h : Inv b seen s) {key : κ} {others : List (ℕ × κ)}
    (hs : s.answers = (n, key) :: others) : Inv b (seen ++ [.completed key])
      { s with answers := others, waiting := none, failures := 0 } := by
  obtain ⟨⟨r, hnum⟩, hkeys, hlast, -⟩ := h
  refine ⟨⟨r, hnum.congr (fun _ => rfl) rfl rfl rfl⟩, ?_, ?_, fun m hm => by cases hm⟩
  · rw [hs, List.map_cons] at hkeys
    rw [filterMap_append_singleton, filterMap_append_singleton, List.append_assoc]
    rwa [Output.acceptedKey, Option.toList_none, List.append_nil]
  · intro a ha
    apply hlast a
    dsimp only at ha
    rw [hs, List.getLast?_cons, ha, Option.getD_some]

/-- Counting a failure changes neither the numbers nor what is in flight. -/
lemma fail_frame (b : Bounds) (s : State κ) :
    (s.fail b).next = s.next ∧ (s.fail b).requests = s.requests ∧ (s.fail b).floor = s.floor ∧
      (s.fail b).answers = s.answers ∧ (s.fail b).waiting = s.waiting := by
  unfold State.fail
  split_ifs <;> exact ⟨rfl, rfl, rfl, rfl, rfl⟩

/-- A step keeps the invariant. -/
theorem Inv.step (h : Inv b seen s) (i : Input κ) :
    Inv b (seen ++ (observe b s i).toList) (step b s i).2 := by
  have hquiet : Inv b (seen ++ (none : Option (Output κ)).toList) s := by
    rwa [Option.toList_none, List.append_nil]
  unfold observe
  cases i with
  | send =>
    rcases hb : s.barred with _ | _
    · rw [step_send hb]
      exact h.send
    · obtain ⟨⟨r, hnum⟩, -, hlast, hwait⟩ := id h
      rw [step_send_barred hb]
      exact ⟨⟨r, hnum.congr (fun _ => rfl) rfl rfl rfl⟩, h.keys_silent rfl rfl, hlast, hwait⟩
  | loseRequest =>
    rcases hs : s.requests with _ | ⟨n, rest⟩
    · rw [LossyHandshake.step, hs]
      exact hquiet
    · rw [step_loseRequest hs]
      exact h.loseRequest hs
  | deliverRequest key =>
    rcases hs : s.requests with _ | ⟨n, rest⟩
    · rw [LossyHandshake.step, hs]
      exact hquiet
    · by_cases hn : s.floor ≤ n ∧ n < s.floor + b.window
      · rw [step_accept hs hn]
        exact h.accept hs key
      · rw [step_reject hs hn]
        exact h.reject hs hn
  | loseAnswer =>
    rcases hs : s.answers with _ | ⟨⟨n, key⟩, others⟩
    · rw [LossyHandshake.step, hs]
      exact hquiet
    · rw [step_loseAnswer hs]
      exact h.dropAnswer hs (Or.inl rfl) rfl rfl rfl rfl (Or.inl rfl)
  | deliverAnswer inTime =>
    rcases hs : s.answers with _ | ⟨⟨n, key⟩, others⟩
    · rw [LossyHandshake.step, hs]
      exact hquiet
    · rcases hm : s.waiting with _ | m
      · rw [step_unexpected hs hm]
        exact h.dropAnswer hs (Or.inr rfl) rfl rfl rfl rfl (Or.inl rfl)
      · by_cases hgood : inTime = true ∧ n = m
        · obtain ⟨rfl, rfl⟩ := hgood
          rw [step_complete hs hm]
          exact h.complete hs
        · obtain ⟨hnext, hreq, hfloor, hans, hwait⟩ :=
            fail_frame b { s with answers := others, waiting := none }
          rw [step_fail hs hm hgood]
          exact h.dropAnswer hs (Or.inr rfl) hreq hnext hfloor hans (Or.inr hwait)

end Invariant

/-! ## Runs -/

/-- A state is reached with a history. -/
def Reached (b : Bounds) (seen : List (Output κ)) (s : State κ) : Prop :=
  ∃ inputs, Machine.events (observe b) (step b) {} inputs = seen ∧
    Machine.final (step b) {} inputs = s

section Runs

variable {b : Bounds} {seen : List (Output κ)} {s : State κ}

/-- The initial state is reached. -/
lemma reached_init (b : Bounds) : Reached b ([] : List (Output κ)) {} := ⟨[], rfl, rfl⟩

/-- One more step. -/
lemma Reached.step (h : Reached b seen s) (i : Input κ) :
    Reached b (seen ++ (observe b s i).toList) (step b s i).2 := by
  obtain ⟨inputs, rfl, rfl⟩ := h
  refine ⟨inputs ++ [i], ?_, ?_⟩
  · rw [Machine.events_append]
    congr 1
    exact List.append_nil _
  · rw [Machine.final_append]
    rfl

/-- What is reached satisfies the invariant. -/
theorem Reached.inv (h : Reached b seen s) : Inv b seen s := by
  obtain ⟨inputs, rfl, rfl⟩ := h
  have hstep : ∀ (seen : List (Output κ)) (s : State κ) i, Inv b seen s → True →
      Inv b (seen ++ (observe b s i).toList) (LossyHandshake.step b s i).2 :=
    fun seen s i hinv _ => hinv.step i
  exact Machine.invariant_events hstep (inv_init b) (Machine.allSteps_of_inputs fun _ _ => trivial)

/-! ## What a history determines -/

/-- The state after an observation. -/
def State.after (b : Bounds) (s : State κ) : Output κ → State κ
  | .sent =>
    { s with next := s.next + 1, requests := s.requests ++ [s.next], waiting := some s.next }
  | .refused => s
  | .requestLost | .rejected => { s with requests := s.requests.tail }
  | .accepted key =>
    match s.requests with
    | [] => s
    | n :: rest =>
      { s with requests := rest, floor := n + 1, answers := s.answers ++ [(n, key)] }
  | .answerLost => { s with answers := s.answers.tail }
  | .completed _ => { s with answers := s.answers.tail, waiting := none, failures := 0 }
  | .failed =>
    match s.waiting with
    | none => { s with answers := s.answers.tail }
    | some _ => { s with answers := s.answers.tail, waiting := none }.fail b

/-- What is seen of a step determines the state after it. -/
lemma step_eq_after (b : Bounds) (s : State κ) (i : Input κ) :
    (LossyHandshake.step b s i).2 = (observe b s i).elim s (s.after b) := by
  unfold observe
  cases i with
  | send =>
    rcases hb : s.barred with _ | _
    · rw [step_send hb]
      rfl
    · rw [step_send_barred hb]
      rfl
  | loseRequest =>
    rcases hs : s.requests with _ | ⟨n, rest⟩
    · rw [LossyHandshake.step, hs]
      rfl
    · rw [step_loseRequest hs, Option.elim_some, State.after, hs, List.tail_cons]
  | deliverRequest key =>
    rcases hs : s.requests with _ | ⟨n, rest⟩
    · rw [LossyHandshake.step, hs]
      rfl
    · by_cases hn : s.floor ≤ n ∧ n < s.floor + b.window
      · rw [step_accept hs hn, Option.elim_some, State.after, hs]
      · rw [step_reject hs hn, Option.elim_some, State.after, hs, List.tail_cons]
  | loseAnswer =>
    rcases hs : s.answers with _ | ⟨⟨n, key⟩, others⟩
    · rw [LossyHandshake.step, hs]
      rfl
    · rw [step_loseAnswer hs, Option.elim_some, State.after, hs, List.tail_cons]
  | deliverAnswer inTime =>
    rcases hs : s.answers with _ | ⟨⟨n, key⟩, others⟩
    · rw [LossyHandshake.step, hs]
      rfl
    · rcases hm : s.waiting with _ | m
      · rw [step_unexpected hs hm, Option.elim_some, State.after, hm, hs, List.tail_cons]
      · by_cases hgood : inTime = true ∧ n = m
        · obtain ⟨rfl, rfl⟩ := hgood
          rw [step_complete hs hm, Option.elim_some, State.after, hs, List.tail_cons]
        · rw [step_fail hs hm hgood, Option.elim_some, State.after, hm, hs, List.tail_cons]

/-- A history determines the state that is reached with it. -/
theorem Reached.eq_foldl (h : Reached b seen s) : s = seen.foldl (State.after b) {} := by
  obtain ⟨inputs, rfl, rfl⟩ := h
  generalize ({} : State κ) = s
  induction inputs generalizing s with
  | nil => rfl
  | cons i inputs ih =>
    rw [Machine.final, List.foldl_cons, ← Machine.final, ih, step_eq_after, Machine.events,
      List.foldl_append, step_eq_after]
    rcases observe b s i with _ | o <;> rfl

/-- Nothing is sent, and no answer arrives. -/
def Output.Quiet : Output κ → Prop
  | .sent | .completed _ | .failed => False
  | .refused | .requestLost | .accepted _ | .rejected | .answerLost => True

/-- While nothing is sent and no answer arrives, the same request waits. -/
lemma waiting_of_quiet {os : List (Output κ)} (hos : ∀ o ∈ os, o.Quiet) (s : State κ) :
    (os.foldl (State.after b) s).waiting = s.waiting := by
  induction os generalizing s with
  | nil => rfl
  | cons o os ih =>
    rw [List.forall_mem_cons] at hos
    rw [List.foldl_cons, ih hos.2]
    cases o with
    | sent | completed | failed => exact hos.1.elim
    | accepted key =>
      rw [State.after]
      rcases s.requests with _ | ⟨n, rest⟩ <;> rfl
    | _ => rfl

/-- While no request is in flight, and none is sent, there are no new answers. -/
lemma answers_of_quiet {os : List (Output κ)} (hos : ∀ o ∈ os, o.Quiet) {s : State κ}
    (hs : s.requests = []) : (os.foldl (State.after b) s).answers <:+ s.answers := by
  induction os generalizing s with
  | nil => exact List.suffix_refl _
  | cons o os ih =>
    rw [List.forall_mem_cons] at hos
    have hkept : (s.after b o).requests = [] ∧ (s.after b o).answers <:+ s.answers := by
      cases o with
      | sent | completed | failed => exact hos.1.elim
      | refused => exact ⟨hs, List.suffix_refl _⟩
      | requestLost | rejected =>
        rw [State.after, hs]
        exact ⟨rfl, List.suffix_refl _⟩
      | accepted key =>
        rw [State.after, hs]
        exact ⟨hs, List.suffix_refl _⟩
      | answerLost => exact ⟨hs, List.tail_suffix _⟩
    rw [List.foldl_cons]
    exact (ih hos.2 hkept.1).trans hkept.2

/-- A request is sent, and accepted when it is the only one in flight; nothing else is sent, and no
answer arrives.  When one answer is in flight then, it is the one to the request, which waits. -/
theorem Reached.sole_answer {xs ys zs : List (Output κ)} {key : κ} {s₁ : State κ}
    (h₁ : Reached b (xs ++ .sent :: ys) s₁)
    (h : Reached b (xs ++ .sent :: ys ++ .accepted key :: zs) s) (hys : ∀ o ∈ ys, o.Quiet)
    (hzs : ∀ o ∈ zs, o.Quiet) (hreq : s₁.requests.length = 1) (hans : s.answers.length = 1) :
    ∃ n, s.waiting = some n ∧ s.answers = [(n, key)] := by
  have hs₁ := h₁.eq_foldl
  have hs := h.eq_foldl
  rw [List.foldl_append, ← hs₁, List.foldl_cons] at hs
  rw [List.foldl_append, List.foldl_cons] at hs₁
  obtain ⟨n, hwait⟩ : ∃ n, s₁.waiting = some n := ⟨_, by rw [hs₁, waiting_of_quiet hys]; rfl⟩
  -- the only request in flight is the last one
  have hlast : s₁.requests = [n] := by
    obtain ⟨r, hrange, hnext, -⟩ := h₁.inv.numbers
    have hn := h₁.inv.waiting n hwait
    rw [hreq] at hrange hnext
    rw [hrange, List.range'_one]
    congr 1
    omega
  have hafter : s₁.after b (.accepted key) =
      { s₁ with requests := [], floor := n + 1, answers := s₁.answers ++ [(n, key)] } := by
    rw [State.after, hlast]
  rw [hafter] at hs
  refine ⟨n, ?_, ?_⟩
  · rw [hs, waiting_of_quiet hzs]
    exact hwait
  · obtain ⟨pre, hpre⟩ := answers_of_quiet (b := b) hzs
      (s := { s₁ with requests := [], floor := n + 1, answers := s₁.answers ++ [(n, key)] }) rfl
    rw [← hs] at hpre
    exact List.append_inj_right' hpre hans

/-! ## Accepted requests -/

/-- The request that is delivered next lies in the window exactly when fewer requests than the
window is wide were lost since the last one was accepted. -/
lemma Reached.window_iff (h : Reached b seen s) {n : ℕ} {rest : List ℕ}
    (hs : s.requests = n :: rest) :
    s.floor ≤ n ∧ n < s.floor + b.window ↔ lostSince seen < b.window := by
  obtain ⟨r, hnum⟩ := h.inv.numbers
  obtain ⟨hn, -, -⟩ := hnum.tail hs
  rcases Nat.eq_zero_or_pos r with hr | hr
  · omega
  · have hrej := hnum.rejected hr
    omega

/-- What is seen of a delivered request, and of nothing else. -/
lemma observe_cases {b : Bounds} {s : State κ} {i : Input κ} {o : Output κ}
    (h : observe b s i = some o) :
    (o.acceptedKey ≠ none → ∃ n rest, s.requests = n :: rest ∧
      s.floor ≤ n ∧ n < s.floor + b.window) ∧
    (o = .rejected → ∃ n rest, s.requests = n :: rest ∧
      ¬ (s.floor ≤ n ∧ n < s.floor + b.window)) := by
  unfold observe at h
  cases i with
  | send =>
    rcases hb : s.barred with _ | _
    · rw [step_send hb] at h
      cases h
      exact ⟨fun ha => absurd rfl ha, fun hr => by cases hr⟩
    · rw [step_send_barred hb] at h
      cases h
      exact ⟨fun ha => absurd rfl ha, fun hr => by cases hr⟩
  | loseRequest =>
    rcases hs : s.requests with _ | ⟨n, rest⟩
    · rw [LossyHandshake.step, hs] at h
      cases h
    · rw [step_loseRequest hs] at h
      cases h
      exact ⟨fun ha => absurd rfl ha, fun hr => by cases hr⟩
  | deliverRequest key =>
    rcases hs : s.requests with _ | ⟨n, rest⟩
    · rw [LossyHandshake.step, hs] at h
      cases h
    · by_cases hn : s.floor ≤ n ∧ n < s.floor + b.window
      · rw [step_accept hs hn] at h
        cases h
        exact ⟨fun _ => ⟨n, rest, rfl, hn⟩, fun hr => by cases hr⟩
      · rw [step_reject hs hn] at h
        cases h
        exact ⟨fun ha => absurd rfl ha, fun _ => ⟨n, rest, rfl, hn⟩⟩
  | loseAnswer =>
    rcases hs : s.answers with _ | ⟨⟨n, key⟩, others⟩
    · rw [LossyHandshake.step, hs] at h
      cases h
    · rw [step_loseAnswer hs] at h
      cases h
      exact ⟨fun ha => absurd rfl ha, fun hr => by cases hr⟩
  | deliverAnswer inTime =>
    rcases hs : s.answers with _ | ⟨⟨n, key⟩, others⟩
    · rw [LossyHandshake.step, hs] at h
      cases h
    · rcases hm : s.waiting with _ | m
      · rw [step_unexpected hs hm] at h
        cases h
        exact ⟨fun ha => absurd rfl ha, fun hr => by cases hr⟩
      · by_cases hgood : inTime = true ∧ n = m
        · obtain ⟨rfl, rfl⟩ := hgood
          rw [step_complete hs hm] at h
          cases h
          exact ⟨fun ha => absurd rfl ha, fun hr => by cases hr⟩
        · rw [step_fail hs hm hgood] at h
          cases h
          exact ⟨fun ha => absurd rfl ha, fun hr => by cases hr⟩

/-- A request that is accepted or rejected next: how many were lost since the last one was
accepted. -/
lemma Reached.lost_of_observe (h : Reached b seen s) {i : Input κ} {o : Output κ}
    (ho : observe b s i = some o) :
    (o.acceptedKey ≠ none → lostSince seen < b.window) ∧
      (o = .rejected → b.window ≤ lostSince seen) := by
  obtain ⟨hacc, hrej⟩ := observe_cases ho
  constructor
  · intro ha
    obtain ⟨n, rest, hs, hn⟩ := hacc ha
    exact (h.window_iff hs).mp hn
  · intro hr
    obtain ⟨n, rest, hs, hn⟩ := hrej hr
    exact not_lt.mp (mt (h.window_iff hs).mpr hn)

/-- A request that was delivered was accepted if fewer requests than the window is wide had been
lost since the last one was accepted, and rejected otherwise. -/
theorem Reached.lost_of_delivered {xs ys : List (Output κ)} {o : Output κ}
    (h : Reached b (xs ++ o :: ys) s) :
    (o.acceptedKey ≠ none → lostSince xs < b.window) ∧
      (o = .rejected → b.window ≤ lostSince xs) := by
  obtain ⟨inputs, hseen, -⟩ := h
  obtain ⟨is₁, i, is₂, -, hxs, ho, -⟩ := Machine.exists_of_events_eq_append_cons hseen
  have hreached : Reached b xs (Machine.final (LossyHandshake.step b) {} is₁) := ⟨is₁, hxs, rfl⟩
  exact hreached.lost_of_observe ho

/-- Once as many requests in a row were lost as the window is wide, none is accepted any more. -/
theorem Reached.not_accepted {xs ys : List (Output κ)} (h : Reached b (xs ++ ys) s)
    (hlost : b.window ≤ lostSince xs) : ∀ o ∈ ys, o.acceptedKey = none := by
  induction ys generalizing xs with
  | nil => exact fun o ho => absurd ho List.not_mem_nil
  | cons o ys ih =>
    have hnone : o.acceptedKey = none := by
      by_contra ha
      exact absurd (h.lost_of_delivered.1 ha) (not_lt.mpr hlost)
    have hgrow : lostSince xs ≤ lostSince (xs ++ [o]) := by
      rw [lostSince_append_singleton]
      cases o with
      | accepted key => cases hnone
      | requestLost => exact Nat.le_succ _
      | _ => exact le_refl _
    have hrest : Reached b (xs ++ [o] ++ ys) s := by rwa [List.append_assoc]
    rw [List.forall_mem_cons]
    exact ⟨hnone, ih hrest (le_trans hlost hgrow)⟩

/-- The keys of the completed requests are keys of accepted ones, in their order. -/
theorem Reached.completed_keys_sublist (h : Reached b seen s) :
    (seen.filterMap Output.completedKey).Sublist (seen.filterMap Output.acceptedKey) :=
  (List.sublist_append_left _ _).trans h.inv.keys

end Runs

end LossyHandshake

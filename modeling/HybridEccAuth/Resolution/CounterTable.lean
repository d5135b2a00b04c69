import HybridEccAuth.Resolution.PidTable

/-!
# The precomputed counter table

`CounterTable` holds, for every peer, the pseudonyms of the epochs that follow the
last accepted one, up to the forward tolerance.

Two invariants.  `CounterTable.Sound`: every entry names its peer and epoch, and the
epoch is above the last accepted one; it survives even a fill that fails half way.
`CounterTable.Exact`: the entries are exactly the named pairs of the forward window.
It is established by `attach` and kept by `accept` as long as the epochs have 64 bits
and pseudonyms are injective.
-/

namespace HybridEccAuth

/-- The state of the resolver: the counters, the optional tolerance of its own, the table, and the
highest epoch in the table for each peer. -/
structure CounterTable where
  count : Probes := {}
  forward? : Option ℕ := none
  table : PidTable := .empty
  hi : Dict String ℤ := .empty

namespace CounterTable

/-- The forward tolerance: that of the session log unless one was given. -/
def forward (r : CounterTable) (log : SessionLog) : ℕ := r.forward?.getD log.forwardTolerance

/-- The highest epoch of a peer in the table, or the last accepted one before the first fill. -/
def top (r : CounterTable) (log : SessionLog) (peer : String) : ℤ :=
  (r.hi.get peer).getD (log.last peer)

/-- The epochs that a fill enters: from the first one that is not in the table up to the
tolerance. -/
def missing (r : CounterTable) (log : SessionLog) (peer : String) : List ℤ :=
  let last := log.last peer
  let start := max (r.top log peer) last + 1
  pyRange start (last + r.forward log + 1)

/-- The pairs that a fill enters for a peer with a given secret. -/
def missingPairs (r : CounterTable) (log : SessionLog) (peer : String) (lam : Lam) :
    List (String × Lam × ℤ) :=
  (r.missing log peer).map fun epoch => (peer, lam, epoch)

/-- `_fill`. -/
def fill (C : Crypto) (peers : Dict String Lam) (log : SessionLog) (r : CounterTable)
    (peer : String) (precompute : Bool) : Except Exc Unit × CounterTable :=
  match peers.get peer with
  | none => (.error (.ofLibrary .keyError), r)
  | some lam =>
    match enterPairs C precompute (r.missingPairs log peer lam) r.count r.table with
    | (.error e, n, table) => (.error e, { r with count := n, table := table })
    | (.ok (), n, table) =>
      (.ok (), { r with
        count := n
        table := table
        hi := r.hi.set peer (log.last peer + r.forward log) })

/-- Fills for one peer after the other. -/
def fillPeers (C : Crypto) (peers : Dict String Lam) (log : SessionLog) :
    List String → CounterTable → Except Exc Unit × CounterTable
  | [], r => (.ok (), r)
  | peer :: rest, r =>
    match r.fill C peers log peer true with
    | (.error e, r) => (.error e, r)
    | (.ok (), r) => fillPeers C peers log rest r

/-- `CounterTable.attach`. -/
def attach (C : Crypto) (peers : Dict String Lam) (log : SessionLog) (r : CounterTable) :
    Except Exc Unit × CounterTable :=
  fillPeers C peers log peers.keys { r with table := .empty, hi := .empty }

/-- `CounterTable.resolve`: a look-up. -/
def resolve (r : CounterTable) (pid : Bytes) : Except Exc (String × ℤ) :=
  match r.table.get pid with
  | none => .error ⟨.unknownPeerError, [.lit "pseudonym is not in the precomputed table"]⟩
  | some hit => .ok hit

/-- Drops the entries of a peer up to its last accepted epoch. -/
def dropAccepted (r : CounterTable) (log : SessionLog) (peer : String) : CounterTable :=
  { r with table := r.table.eraseIf fun _ v => v.1 = peer ∧ v.2 ≤ log.last peer }

/-- `CounterTable.accept`: accepts the epoch, drops what is not above it and refills. -/
def accept (C : Crypto) (peers : Dict String Lam) (log : SessionLog) (r : CounterTable)
    (peer : String) (epoch : ℤ) : Except Exc Unit × CounterTable × SessionLog :=
  let log := log.acceptEpoch peer epoch
  match (r.dropAccepted log peer).fill C peers log peer false with
  | (x, r) => (x, r, log)

/-- The epochs that a fill enters. -/
lemma mem_missing {r : CounterTable} {log : SessionLog} {peer : String} {e : ℤ} :
    e ∈ r.missing log peer ↔
      (r.top log peer < e ∧ log.last peer < e) ∧ e ≤ log.last peer + r.forward log := by
  rw [missing, mem_pyRange, Int.lt_add_one_iff, Int.add_one_le_iff, max_lt_iff]

/-- The pairs that a fill enters. -/
lemma mem_missingPairs {r : CounterTable} {log : SessionLog} {peer : String} {lam : Lam}
    {q : String × Lam × ℤ} : q ∈ r.missingPairs log peer lam ↔
      q.1 = peer ∧ q.2.1 = lam ∧ q.2.2 ∈ r.missing log peer := by
  rw [missingPairs, List.mem_map]
  constructor
  · rintro ⟨e, he, rfl⟩
    exact ⟨rfl, rfl, he⟩
  · rintro ⟨rfl, rfl, he⟩
    exact ⟨q.2.2, he, rfl⟩

section Fill

variable {C : Crypto} {peers : Dict String Lam} {log : SessionLog} {r : CounterTable}
  {peer : String} {lam : Lam}

/-- The epochs that a fill enters have 64 bits when its window does. -/
lemma range_of_mem_missingPairs (lam : Lam) (hbelow : log.last peer + r.forward log < 2 ^ 64) :
    ∀ q ∈ r.missingPairs log peer lam, 0 ≤ q.2.2 ∧ q.2.2 < 2 ^ 64 := by
  intro q hq
  have hlast := log.neg_one_le_last peer
  obtain ⟨⟨-, h₁⟩, h₂⟩ := mem_missing.mp (mem_missingPairs.mp hq).2.2
  exact ⟨by omega, by omega⟩

/-- A fill for an enrolled peer, whose window has 64 bits, succeeds. -/
lemma fill_eq (hlam : peers.get peer = some lam) (hbelow : log.last peer + r.forward log < 2 ^ 64)
    (precompute : Bool) : r.fill C peers log peer precompute =
      (.ok (), { r with
        count := (enterPairs C precompute (r.missingPairs log peer lam) r.count r.table).2.1
        table := (enterPairs C precompute (r.missingPairs log peer lam) r.count r.table).2.2
        hi := r.hi.set peer (log.last peer + r.forward log) }) := by
  have hok := enterPairs_fst (C := C) precompute r.count r.table
    (range_of_mem_missingPairs lam hbelow)
  unfold CounterTable.fill
  rw [hlam]
  dsimp only
  split <;> rename_i heq
  · rw [heq] at hok
    cases hok
  · rw [heq]

/-- Accepting an epoch of an enrolled peer succeeds when the next window has 64 bits. -/
lemma accept_fst {epoch : ℤ} (hlam : peers.get peer = some lam)
    (hbelow : (log.acceptEpoch peer epoch).last peer +
      r.forward (log.acceptEpoch peer epoch) < 2 ^ 64) :
    (r.accept C peers log peer epoch).1 = .ok () := by
  have hdrop : (log.acceptEpoch peer epoch).last peer +
      (r.dropAccepted (log.acceptEpoch peer epoch) peer).forward (log.acceptEpoch peer epoch) <
        2 ^ 64 := hbelow
  rw [accept, fill_eq hlam hdrop]

end Fill

/-- Accepting keeps the tolerance of the table. -/
lemma forward?_accept (C : Crypto) (peers : Dict String Lam) (log : SessionLog) (r : CounterTable)
    (peer : String) (epoch : ℤ) :
    (r.accept C peers log peer epoch).2.1.forward? = r.forward? := by
  unfold accept fill
  dsimp only
  split
  · rfl
  · split <;> rfl

/-! ## Soundness -/

/-- Every entry names its peer and an epoch above the last accepted one. -/
def Sound (C : Crypto) (peers : Dict String Lam) (log : SessionLog) (r : CounterTable) : Prop :=
  r.table.Within fun pid v => Names C peers pid v.1 v.2 ∧ log.last v.1 < v.2

section Sound

variable {C : Crypto} {peers : Dict String Lam} {log : SessionLog}

/-- Filling for a peer keeps the table sound, also when it fails. -/
lemma Sound.fill {r : CounterTable} (h : r.Sound C peers log) (peer : String) (precompute : Bool) :
    (r.fill C peers log peer precompute).2.Sound C peers log := by
  unfold CounterTable.fill
  split
  · exact h
  · rename_i lam hlam
    have hnew : ∀ q ∈ r.missingPairs log peer lam, ∀ pid, h2Pseudonym C q.2.1 q.2.2 = .ok pid →
        Names C peers pid q.1 q.2.2 ∧ log.last q.1 < q.2.2 := by
      intro q hq pid hpid
      obtain ⟨hq₁, hq₂, hq₃⟩ := mem_missingPairs.mp hq
      exact ⟨⟨lam, hq₁ ▸ hlam, hq₂ ▸ hpid⟩, hq₁ ▸ (mem_missing.mp hq₃).1.2⟩
    have hwithin := within_enterPairs precompute r.count h hnew
    split <;> rename_i heq
    · rw [heq] at hwithin
      exact hwithin
    · rw [heq] at hwithin
      exact hwithin

/-- Filling for several peers keeps the table sound. -/
lemma Sound.fillPeers {r : CounterTable} (h : r.Sound C peers log) (ps : List String) :
    (fillPeers C peers log ps r).2.Sound C peers log := by
  induction ps generalizing r with
  | nil => exact h
  | cons p ps ih =>
    have hfill := h.fill p true
    unfold CounterTable.fillPeers
    split <;> rename_i heq
    · rw [heq] at hfill
      exact hfill
    · rw [heq] at hfill
      exact ih hfill

/-- After attaching, the table is sound. -/
lemma sound_attach (r : CounterTable) : (r.attach C peers log).2.Sound C peers log := by
  have hempty : ({ r with table := .empty, hi := .empty } : CounterTable).Sound C peers log :=
    Dict.within_empty
  exact hempty.fillPeers _

/-- Accepting an epoch keeps the table sound, also when the refill fails. -/
lemma Sound.accept {r : CounterTable} (h : r.Sound C peers log) (peer : String) (epoch : ℤ) :
    (r.accept C peers log peer epoch).2.1.Sound C peers (r.accept C peers log peer epoch).2.2 := by
  have hdrop : (r.dropAccepted (log.acceptEpoch peer epoch) peer).Sound C peers
      (log.acceptEpoch peer epoch) := by
    refine (Dict.Within.eraseIf h _).mono ?_
    rintro pid ⟨p, e⟩ ⟨⟨hnames, hlast⟩, hkeep⟩
    refine ⟨hnames, ?_⟩
    simp only [decide_eq_false_iff_not, not_and, not_le] at hkeep
    dsimp only at hlast hkeep ⊢
    by_cases hp : p = peer
    · exact hp ▸ hkeep hp
    · rwa [SessionLog.last_acceptEpoch, if_neg hp]
  exact hdrop.fill peer false

/-- A resolved pair is named by the pseudonym, and its epoch is new. -/
lemma Sound.resolve {r : CounterTable} (h : r.Sound C peers log) {pid : Bytes} {peer : String}
    {epoch : ℤ} (hres : r.resolve pid = .ok (peer, epoch)) :
    Names C peers pid peer epoch ∧ log.last peer < epoch := by
  unfold CounterTable.resolve at hres
  split at hres
  · cases hres
  · rename_i hit hget
    cases hres
    exact h _ _ hget

/-- What is not in the table is unknown. -/
lemma kind_of_resolve (names : List String) {r : CounterTable} {pid : Bytes} {x : Exc}
    (h : r.resolve pid = .error x) : x.kind = .unknownPeerError ∧ x.Brief names := by
  unfold CounterTable.resolve at h
  split at h
  · cases h
    exact ⟨rfl, Exc.brief_of_lit _ _ (by decide)⟩
  · cases h

/-- The log after accepting. -/
lemma log_accept (r : CounterTable) (peer : String) (epoch : ℤ) :
    (r.accept C peers log peer epoch).2.2 = log.acceptEpoch peer epoch := rfl

end Sound

/-! ## Exactness -/

/-- The table holds exactly the named pairs above the last accepted epoch and up to the top. -/
def Tabled (C : Crypto) (peers : Dict String Lam) (log : SessionLog) (r : CounterTable) : Prop :=
  r.table.Represents fun pid v =>
    Names C peers pid v.1 v.2 ∧ log.last v.1 < v.2 ∧ v.2 ≤ r.top log v.1

/-- The table holds exactly the named pairs of the forward windows. -/
structure Exact (C : Crypto) (peers : Dict String Lam) (log : SessionLog) (r : CounterTable) :
    Prop where
  tabled : r.Tabled C peers log
  hi_eq : ∀ peer ∈ peers.keys, r.hi.get peer = some (log.last peer + r.forward log)

section Exact

variable {C : Crypto} {peers : Dict String Lam} {log : SessionLog}

/-- The top after the highest epoch of one peer was written. -/
lemma top_of_hi {r r' : CounterTable} {peer p : String} {e : ℤ} (h : r'.hi = r.hi.set peer e) :
    r'.top log p = if p = peer then e else r.top log p := by
  rw [top, h, Dict.get_set]
  split_ifs <;> rfl

/-- Filling for an enrolled peer succeeds and raises its top to the tolerance. -/
lemma Tabled.fill (hinj : PseudonymsInjective C peers) {r : CounterTable}
    (h : r.Tabled C peers log) {peer : String} (hpeer : peer ∈ peers.keys)
    (hbelow : log.last peer + r.forward log < 2 ^ 64)
    (htop : r.top log peer ≤ log.last peer + r.forward log) (precompute : Bool) :
    (r.fill C peers log peer precompute).1 = .ok () ∧
      (r.fill C peers log peer precompute).2.Tabled C peers log ∧
      (r.fill C peers log peer precompute).2.forward? = r.forward? ∧
      (r.fill C peers log peer precompute).2.hi =
      r.hi.set peer (log.last peer + r.forward log) := by
  obtain ⟨lam, hlam⟩ := Dict.mem_keys_iff.mp hpeer
  have hrange := range_of_mem_missingPairs lam hbelow
  have hpeers : ∀ q ∈ r.missingPairs log peer lam, peers.get q.1 = some q.2.1 := by
    intro q hq
    obtain ⟨hq₁, hq₂, -⟩ := mem_missingPairs.mp hq
    rw [hq₁, hq₂, hlam]
  have hrep := represents_enterPairs precompute r.count hinj hpeers hrange (fun _ _ hv => hv.1) h
  have hfill := fill_eq (C := C) hlam hbelow precompute
  have htable : (r.fill C peers log peer precompute).2.table =
      (enterPairs C precompute (r.missingPairs log peer lam) r.count r.table).2.2 := by
    rw [hfill]
  have hhi : (r.fill C peers log peer precompute).2.hi =
      r.hi.set peer (log.last peer + r.forward log) := by
    rw [hfill]
  refine ⟨by rw [hfill], ?_, by rw [hfill], hhi⟩
  rw [Tabled, htable]
  apply hrep.congr
  intro pid v
  have hpair : (∃ lam', (v.1, lam', v.2) ∈ r.missingPairs log peer lam) ↔
      v.1 = peer ∧ v.2 ∈ r.missing log peer := by
    simp only [mem_missingPairs]
    tauto
  rw [hpair, mem_missing, top_of_hi hhi]
  by_cases hv : v.1 = peer
  · rw [if_pos hv, hv]
    constructor
    · rintro (⟨h₁, h₂, h₃⟩ | ⟨⟨-, ⟨-, h₂⟩, h₃⟩, h₁⟩)
      · exact ⟨h₁, h₂, le_trans h₃ htop⟩
      · exact ⟨h₁, h₂, h₃⟩
    · rintro ⟨h₁, h₂, h₃⟩
      rcases le_or_gt v.2 (r.top log peer) with hle | hgt
      · exact Or.inl ⟨h₁, h₂, hle⟩
      · exact Or.inr ⟨⟨rfl, ⟨hgt, h₂⟩, h₃⟩, h₁⟩
  · rw [if_neg hv]
    exact ⟨fun hor => hor.resolve_right fun hc => hv hc.1.1, Or.inl⟩

/-- Filling for enrolled peers, none of which is tabled beyond the tolerance, succeeds and brings
each of them up to the tolerance. -/
lemma Tabled.fillPeers (hinj : PseudonymsInjective C peers) {ps : List String}
    (hps : ∀ p ∈ ps, p ∈ peers.keys) {r : CounterTable} (h : r.Tabled C peers log)
    (hbelow : ∀ p ∈ peers.keys, log.last p + r.forward log < 2 ^ 64)
    (htop : ∀ p, r.top log p ≤ log.last p + r.forward log) :
    (fillPeers C peers log ps r).1 = .ok () ∧
      (fillPeers C peers log ps r).2.Tabled C peers log ∧
      (fillPeers C peers log ps r).2.forward? = r.forward? ∧
      ∀ p, (fillPeers C peers log ps r).2.hi.get p =
        if p ∈ ps then some (log.last p + r.forward log) else r.hi.get p := by
  induction ps generalizing r with
  | nil => exact ⟨rfl, h, rfl, fun p => by simp [CounterTable.fillPeers]⟩
  | cons q ps ih =>
    obtain ⟨hq, hps⟩ := List.forall_mem_cons.mp hps
    obtain ⟨hok, htabled, hforward, hhi⟩ := h.fill hinj hq (hbelow q hq) (htop q) true
    have hfwd : (r.fill C peers log q true).2.forward log = r.forward log := by
      rw [forward, forward, hforward]
    have htop' : ∀ p, (r.fill C peers log q true).2.top log p ≤
        log.last p + (r.fill C peers log q true).2.forward log := by
      intro p
      rw [hfwd, top_of_hi hhi]
      split_ifs with hp
      · rw [hp]
      · exact htop p
    obtain ⟨hok', htabled', hforward', hhi'⟩ := ih hps htabled (hfwd ▸ hbelow) htop'
    have hstep : CounterTable.fillPeers C peers log (q :: ps) r =
        CounterTable.fillPeers C peers log ps (r.fill C peers log q true).2 := by
      rw [CounterTable.fillPeers]
      split <;> rename_i heq
      · rw [heq] at hok
        cases hok
      · rw [heq]
    rw [hstep]
    refine ⟨hok', htabled', hforward'.trans hforward, fun p => ?_⟩
    rw [hhi', hfwd, hhi, Dict.get_set]
    by_cases hp : p = q
    · simp [hp]
    · simp [hp]

/-- Attaching succeeds when the forward windows have 64 bits, and the table is exact. -/
theorem exact_attach (hinj : PseudonymsInjective C peers) (r : CounterTable)
    (hbelow : ∀ p ∈ peers.keys, log.last p + r.forward log < 2 ^ 64) :
    (r.attach C peers log).1 = .ok () ∧ (r.attach C peers log).2.Exact C peers log ∧
      (r.attach C peers log).2.forward? = r.forward? := by
  have hempty : Tabled C peers log { r with table := .empty, hi := .empty } := by
    apply Dict.represents_empty.congr
    intro pid v
    simp only [false_iff, not_and, not_le]
    intro _ hlast
    exact hlast
  obtain ⟨hok, htabled, hforward, hhi⟩ := hempty.fillPeers hinj (fun _ hp => hp) hbelow
    (fun p => le_add_of_nonneg_right (Int.natCast_nonneg _))
  refine ⟨hok, ⟨htabled, fun p hp => ?_⟩, hforward⟩
  rw [attach, hhi, if_pos hp, forward, forward, hforward]

/-- Exactness reads the last accepted epochs and the tolerance only. -/
lemma Exact.congr {r : CounterTable} (h : r.Exact C peers log) {log' : SessionLog}
    (hlast : ∀ p, log'.last p = log.last p)
    (htol : log'.forwardTolerance = log.forwardTolerance) : r.Exact C peers log' := by
  have hfwd : r.forward log' = r.forward log := by
    rw [forward, forward, htol]
  refine ⟨Dict.Represents.congr h.tabled fun pid v => ?_, fun p hp => ?_⟩
  · rw [top, top, hlast]
  · rw [hlast, hfwd]
    exact h.hi_eq p hp

/-- In an exact table the top of an enrolled peer is the end of its forward window. -/
lemma Exact.top_eq {r : CounterTable} (h : r.Exact C peers log) {p : String} (hp : p ∈ peers.keys) :
    r.top log p = log.last p + r.forward log := by
  rw [top, h.hi_eq p hp]
  rfl

/-- In an exact table exactly the named pairs of the forward windows are resolved. -/
theorem Exact.resolve_eq_ok_iff {r : CounterTable} (h : r.Exact C peers log) {pid : Bytes}
    {peer : String} {epoch : ℤ} : r.resolve pid = .ok (peer, epoch) ↔
      Names C peers pid peer epoch ∧ log.last peer < epoch ∧
        epoch ≤ log.last peer + r.forward log := by
  have hget : r.resolve pid = .ok (peer, epoch) ↔ r.table.get pid = some (peer, epoch) := by
    unfold resolve
    split <;> rename_i heq <;> simp [heq]
  rw [hget, h.tabled]
  apply and_congr_right
  intro hnames
  obtain ⟨lam, hlam, -⟩ := hnames
  rw [h.top_eq (Dict.mem_keys_iff.mpr ⟨lam, hlam⟩)]

/-- Accepting a new epoch of the forward window keeps the table exact, as long as the next window
has 64 bits. -/
theorem Exact.accept (hinj : PseudonymsInjective C peers) {r : CounterTable}
    (h : r.Exact C peers log) {peer : String} {epoch : ℤ} (hpeer : peer ∈ peers.keys)
    (hnew : log.last peer < epoch) (htol : epoch ≤ log.last peer + r.forward log)
    (hbelow : epoch + r.forward log < 2 ^ 64) :
    (r.accept C peers log peer epoch).1 = .ok () ∧
      (r.accept C peers log peer epoch).2.1.Exact C peers (log.acceptEpoch peer epoch) ∧
      (r.accept C peers log peer epoch).2.1.forward? = r.forward? := by
  have hlast : (log.acceptEpoch peer epoch).last peer = epoch := by
    rw [SessionLog.last_acceptEpoch, if_pos rfl, max_eq_right (le_of_lt hnew)]
  have hother : ∀ p, p ≠ peer → (log.acceptEpoch peer epoch).last p = log.last p := fun p hp => by
    rw [SessionLog.last_acceptEpoch, if_neg hp]
  have hfwd : r.forward (log.acceptEpoch peer epoch) = r.forward log := by
    rw [forward, forward, SessionLog.acceptEpoch_frame.2.1]
  -- what is left after the drop is exactly what is above the new last accepted epoch
  have hdrop : (r.dropAccepted (log.acceptEpoch peer epoch) peer).Tabled C peers
      (log.acceptEpoch peer epoch) := by
    apply (Dict.Represents.eraseIf h.tabled _).congr
    rintro pid ⟨p, e⟩
    simp only [decide_eq_false_iff_not, not_and, not_le]
    have htop : top (r.dropAccepted (log.acceptEpoch peer epoch) peer)
        (log.acceptEpoch peer epoch) p = (r.hi.get p).getD
          ((log.acceptEpoch peer epoch).last p) := rfl
    rw [htop, top]
    by_cases hp : p = peer
    · subst hp
      rw [hlast, h.hi_eq p hpeer]
      simp only [Option.getD_some]
      constructor
      · rintro ⟨⟨h₁, -, h₃⟩, h₄⟩
        exact ⟨h₁, h₄ trivial, h₃⟩
      · rintro ⟨h₁, h₂, h₃⟩
        exact ⟨⟨h₁, lt_trans hnew h₂, h₃⟩, fun _ => h₂⟩
    · rw [hother p hp]
      constructor
      · rintro ⟨h₁, -⟩
        exact h₁
      · intro h₁
        exact ⟨h₁, fun hc => absurd hc hp⟩
  have htop : (r.dropAccepted (log.acceptEpoch peer epoch) peer).top (log.acceptEpoch peer epoch)
      peer = log.last peer + r.forward log := by
    have : (r.dropAccepted (log.acceptEpoch peer epoch) peer).hi = r.hi := rfl
    rw [top, this, h.hi_eq peer hpeer]
    rfl
  have hfwd' : (r.dropAccepted (log.acceptEpoch peer epoch) peer).forward
      (log.acceptEpoch peer epoch) = r.forward log := hfwd
  obtain ⟨hok, htabled, hforward, hhi⟩ := hdrop.fill hinj hpeer (by rwa [hfwd', hlast])
    (by rw [htop, hfwd', hlast]; omega) false
  refine ⟨hok, ⟨htabled, fun p hp => ?_⟩, hforward⟩
  have hfwd'' : (r.accept C peers log peer epoch).2.1.forward (log.acceptEpoch peer epoch) =
      r.forward log := by
    rw [← hfwd', forward, forward]
    exact congrArg (fun f => Option.getD f _) hforward
  rw [hfwd'']
  have hhi' : (r.accept C peers log peer epoch).2.1.hi = r.hi.set peer
      (epoch + r.forward log) := by
    rw [hlast, hfwd'] at hhi
    exact hhi
  rw [hhi', Dict.get_set]
  split_ifs with hp'
  · rw [hp', hlast]
  · rw [hother p hp', h.hi_eq p hp]

/-- Accepting an epoch whose next window goes beyond 64 bits fails. -/
lemma Exact.accept_beyond {r : CounterTable} (h : r.Exact C peers log) {peer : String} {epoch : ℤ}
    (hpeer : peer ∈ peers.keys) (hnew : log.last peer < epoch)
    (htol : epoch ≤ log.last peer + r.forward log) (hbeyond : 2 ^ 64 ≤ epoch + r.forward log) :
    (r.accept C peers log peer epoch).1 = .error (.ofLibrary .structError) := by
  obtain ⟨lam, hlam⟩ := Dict.mem_keys_iff.mp hpeer
  have hlast : (log.acceptEpoch peer epoch).last peer = epoch := by
    rw [SessionLog.last_acceptEpoch, if_pos rfl, max_eq_right (le_of_lt hnew)]
  have hfwd : (r.dropAccepted (log.acceptEpoch peer epoch) peer).forward
    (log.acceptEpoch peer epoch) =
      r.forward log := by
    rw [forward, forward, SessionLog.acceptEpoch_frame.2.1]
    rfl
  have htop : (r.dropAccepted (log.acceptEpoch peer epoch) peer).top (log.acceptEpoch peer epoch)
      peer = log.last peer + r.forward log := by
    have hhi : (r.dropAccepted (log.acceptEpoch peer epoch) peer).hi.get peer =
        some (log.last peer + r.forward log) := h.hi_eq peer hpeer
    rw [top, hhi]
    rfl
  -- the last epoch of the next window is missing, and has no pseudonym
  have hmissing : epoch + r.forward log ∈ (r.dropAccepted (log.acceptEpoch peer epoch) peer).missing
      (log.acceptEpoch peer epoch) peer := by
    rw [mem_missing, htop, hlast, hfwd]
    exact ⟨⟨by omega, by omega⟩, le_rfl⟩
  have hpair : (peer, lam, epoch + (r.forward log : ℤ)) ∈
      (r.dropAccepted (log.acceptEpoch peer epoch) peer).missingPairs
        (log.acceptEpoch peer epoch) peer lam := mem_missingPairs.mpr ⟨rfl, rfl, hmissing⟩
  have herr := enterPairs_out_of_range (C := C) false
    (r.dropAccepted (log.acceptEpoch peer epoch) peer).count
    (r.dropAccepted (log.acceptEpoch peer epoch) peer).table hpair
    fun hrange => absurd hrange.2 (not_lt.mpr hbeyond)
  rw [CounterTable.accept, CounterTable.fill, hlam]
  dsimp only
  split <;> rename_i heq
  · rw [heq] at herr
    exact herr
  · rw [heq] at herr
    cases herr

end Exact

end CounterTable

end HybridEccAuth

import HybridEccAuth.Resolution.PidTable
import Mathlib.Data.Finset.Dedup
import Mathlib.Data.List.Sort
import Mathlib.Data.Rat.Floor

/-!
# Clock epochs

The resolvers whose epochs come from a clock.  A reading is a rational number of
seconds; `currentEpoch` is its quotient by the epoch length, rounded down, and
`window` lists the epochs within the drift of it that are not negative.

Sessions of one epoch share a pseudonym, so `acceptNonce` keeps, for every epoch of
the window, the nonces that were accepted (`NonceCache`).

`ClockScan` probes every peer over the window.  `ClockTable` keeps the pseudonyms of
the window in a table that `advance` brings up to date: `ClockTable.Exact`, the table
holds exactly the pairs of the epochs recorded in `tabled`, is what `advance` keeps.
-/

namespace HybridEccAuth

/-- The default epoch length is positive. -/
lemma defaultEpochSeconds_pos : (0 : ℚ) < 60 := by norm_num

/-- The parameters of a clock resolver. -/
structure ClockSettings where
  epochSeconds : ℚ := 60
  drift : ℕ := 1
  epochSeconds_pos : 0 < epochSeconds := by exact defaultEpochSeconds_pos

namespace ClockSettings

/-- `current_epoch` at a reading of the clock. -/
def currentEpoch (s : ClockSettings) (reading : ℚ) : ℤ := ⌊reading / s.epochSeconds⌋

/-- `window`: the current epoch, then its neighbours, nearest first. -/
def window (s : ClockSettings) (reading : ℚ) : List ℤ :=
  let cur := s.currentEpoch reading
  cur :: (List.range' 1 s.drift).flatMap fun k : ℕ =>
    [cur + -(k : ℤ), cur + (k : ℤ)].filter fun e => 0 ≤ e

/-- The window of a reading has 64 bits: the reading is not negative, and the current epoch and the
drift stay below the bound. -/
def Readable (s : ClockSettings) (reading : ℚ) : Prop :=
  0 ≤ reading ∧ s.currentEpoch reading + s.drift < 2 ^ 64

variable {s : ClockSettings}

/-- Later readings have later epochs. -/
lemma currentEpoch_mono {t t' : ℚ} (h : t ≤ t') : s.currentEpoch t ≤ s.currentEpoch t' :=
  Int.floor_le_floor (div_le_div_of_nonneg_right h (le_of_lt s.epochSeconds_pos))

/-- The epoch of a reading that is not negative is not negative. -/
lemma currentEpoch_nonneg {t : ℚ} (h : 0 ≤ t) : 0 ≤ s.currentEpoch t :=
  Int.floor_nonneg.mpr (div_nonneg h (le_of_lt s.epochSeconds_pos))

/-- The window consists of the current epoch and the epochs within the drift of it that are not
negative. -/
lemma mem_window {t : ℚ} {e : ℤ} : e ∈ s.window t ↔ e = s.currentEpoch t ∨
    (0 ≤ e ∧ s.currentEpoch t - s.drift ≤ e ∧ e ≤ s.currentEpoch t + s.drift ∧
      e ≠ s.currentEpoch t) := by
  simp only [window, List.mem_cons, List.mem_flatMap, List.mem_range'_1, List.mem_filter,
    List.not_mem_nil, or_false, decide_eq_true_eq]
  refine or_congr_right ⟨?_, ?_⟩
  · rintro ⟨k, hk, rfl | rfl, hnonneg⟩
    · exact ⟨hnonneg, by omega, by omega, by omega⟩
    · exact ⟨hnonneg, by omega, by omega, by omega⟩
  · rintro ⟨hnonneg, hlo, hhi, hne⟩
    refine ⟨(e - s.currentEpoch t).natAbs, by omega, ?_, hnonneg⟩
    rcases lt_or_gt_of_ne hne with hlt | hgt
    · exact Or.inl (by omega)
    · exact Or.inr (by omega)

/-- At a reading that is not negative, the window consists of the epochs within the drift that are
not negative. -/
lemma mem_window_of_nonneg {t : ℚ} (ht : 0 ≤ t) {e : ℤ} : e ∈ s.window t ↔
    0 ≤ e ∧ s.currentEpoch t - s.drift ≤ e ∧ e ≤ s.currentEpoch t + s.drift := by
  have hcur := currentEpoch_nonneg (s := s) ht
  rw [mem_window]
  constructor
  · rintro (rfl | ⟨h₁, h₂, h₃, -⟩)
    · exact ⟨hcur, by omega, by omega⟩
    · exact ⟨h₁, h₂, h₃⟩
  · rintro ⟨h₁, h₂, h₃⟩
    by_cases he : e = s.currentEpoch t
    · exact Or.inl he
    · exact Or.inr ⟨h₁, h₂, h₃, he⟩

/-- The epochs of a window that ends below 64 bits have 64 bits. -/
lemma window_range {t : ℚ} (h : s.Readable t) : ∀ e ∈ s.window t, 0 ≤ e ∧ e < 2 ^ 64 := by
  intro e he
  obtain ⟨h₁, -, h₃⟩ := (mem_window_of_nonneg h.1).mp he
  exact ⟨h₁, lt_of_le_of_lt h₃ h.2⟩

end ClockSettings

/-! ## Accepted nonces -/

/-- The accepted nonces of each epoch, tagged with their peer. -/
abbrev NonceCache := Dict ℤ (Finset Bytes)

/-- What is remembered of an accepted request: the identity of the peer, a zero byte and the
nonce. -/
def nonceTag (peer : String) (nI : Bytes) : Bytes := utf8Encode peer ++ [0] ++ nI

/-- The cache after the epochs below `lo` were dropped. -/
def NonceCache.purge (nonces : NonceCache) (lo : ℤ) : NonceCache :=
  nonces.eraseIf fun e _ => e < lo

/-- The nonces remembered for an epoch. -/
def NonceCache.seen (nonces : NonceCache) (epoch : ℤ) : Finset Bytes := (nonces.get epoch).getD ∅

/-- `_ClockResolver.accept`: drops the epochs that left the window, refuses a nonce of the epoch
that was accepted before, and remembers the nonce. -/
def acceptNonce (s : ClockSettings) (reading : ℚ) (nonces : NonceCache) (log : SessionLog)
    (peer : String) (epoch : ℤ) (nI : Bytes) : Except Exc Unit × NonceCache × SessionLog :=
  let lo := s.currentEpoch reading - s.drift
  let nonces := nonces.purge lo
  let seen := nonces.seen epoch
  if nonceTag peer nI ∈ seen then
    (.error ⟨.replayDetected, [.lit "nonce already accepted for ", .reprStr peer, .lit " in epoch ",
      .int epoch]⟩, nonces.set epoch seen, log)
  else (.ok (), nonces.set epoch (insert (nonceTag peer nI) seen), log.acceptEpoch peer epoch)

section Nonces

variable {s : ClockSettings} {reading : ℚ} {nonces : NonceCache} {log : SessionLog} {peer : String}
  {epoch e : ℤ} {nI tag : Bytes}

/-- Purging forgets the epochs below the bound, and no others. -/
lemma NonceCache.seen_purge (nonces : NonceCache) {lo : ℤ} (h : lo ≤ e) :
    (nonces.purge lo).seen e = nonces.seen e := by
  have hkeep : ¬ e < lo := not_lt.mpr h
  rw [seen, seen, purge, Dict.get_eraseIf]
  rcases nonces.get e with _ | tags
  · rfl
  · simp [hkeep, Option.filter]

/-- Writing the nonces of one epoch leaves those of the others. -/
lemma NonceCache.seen_set (tags : Finset Bytes) :
    NonceCache.seen (nonces.set epoch tags) e = if e = epoch then tags else nonces.seen e := by
  rw [seen, seen, Dict.get_set]
  split_ifs <;> rfl

/-- What is remembered of an epoch that is still in the window stays remembered, whether or not the
nonce is accepted. -/
lemma seen_acceptNonce (h : s.currentEpoch reading - s.drift ≤ e) (htag : tag ∈ nonces.seen e) :
    tag ∈ (acceptNonce s reading nonces log peer epoch nI).2.1.seen e := by
  have hpurge := nonces.seen_purge h
  unfold acceptNonce
  dsimp only
  split_ifs
  · rw [NonceCache.seen_set]
    split_ifs with he
    · rwa [← he, hpurge]
    · rwa [hpurge]
  · rw [NonceCache.seen_set]
    split_ifs with he
    · rw [← he, hpurge]
      exact Finset.mem_insert_of_mem htag
    · rwa [hpurge]

/-- A nonce that is not accepted is a replay. -/
lemma acceptNonce_error {names : List String} {x : Exc} (hpeer : peer ∈ names)
    (hepoch : 0 ≤ epoch ∧ epoch < 2 ^ 64)
    (h : (acceptNonce s reading nonces log peer epoch nI).1 = .error x) : x.IsRejection names := by
  unfold acceptNonce at h
  dsimp only at h
  split_ifs at h
  cases h
  exact ⟨rfl, Exc.brief_of_epoch _ hpeer hepoch (by decide) (by decide)⟩

/-- A nonce that is accepted is remembered, and it was not remembered before if its epoch is still
in the window. -/
lemma acceptNonce_ok (h : (acceptNonce s reading nonces log peer epoch nI).1 = .ok ()) :
    nonceTag peer nI ∈ (acceptNonce s reading nonces log peer epoch nI).2.1.seen epoch ∧
      (s.currentEpoch reading - s.drift ≤ epoch → nonceTag peer nI ∉ nonces.seen epoch) := by
  unfold acceptNonce at h ⊢
  dsimp only at h ⊢
  split_ifs at h ⊢ with hseen
  constructor
  · rw [NonceCache.seen_set, if_pos rfl]
    exact Finset.mem_insert_self _ _
  · intro hlo
    rwa [nonces.seen_purge hlo] at hseen

end Nonces

/-! ## The scan -/

/-- `ClockScan`. -/
structure ClockScan where
  settings : ClockSettings
  count : Probes := {}
  nonces : NonceCache := .empty

/-- `ClockScan.resolve`. -/
def ClockScan.resolve (C : Crypto) (peers : Dict String Lam) (r : ClockScan) (reading : ℚ)
    (pid : Bytes) : Except Exc (String × ℤ) × ClockScan :=
  match probePeers C (fun _ => r.settings.window reading) pid peers.entries r.count with
  | (.error e, n) => (.error e, { r with count := n })
  | (.ok none, n) => (.error ⟨.unknownPeerError,
      [.lit "pseudonym did not resolve for any peer in the clock window"]⟩, { r with count := n })
  | (.ok (some hit), n) => (.ok hit, { r with count := n })

section Scan

variable {C : Crypto} {peers : Dict String Lam} {r : ClockScan} {reading : ℚ} {pid : Bytes}

/-- Resolving only counts. -/
lemma ClockScan.resolve_frame : (r.resolve C peers reading pid).2.settings = r.settings ∧
    (r.resolve C peers reading pid).2.nonces = r.nonces := by
  unfold ClockScan.resolve
  split <;> exact ⟨rfl, rfl⟩

/-- A resolved pair is named by the pseudonym, and its epoch is of the window. -/
lemma ClockScan.resolve_sound {peer : String} {epoch : ℤ}
    (h : (r.resolve C peers reading pid).1 = .ok (peer, epoch)) :
    Names C peers pid peer epoch ∧ epoch ∈ r.settings.window reading := by
  unfold ClockScan.resolve at h
  split at h
  · cases h
  · cases h
  · rename_i hit n hprobe
    cases h
    obtain ⟨lam, hmem, hwindow, hpid⟩ := probePeers_found hprobe
    exact ⟨⟨lam, Dict.mem_entries_iff.mp hmem, hpid⟩, hwindow⟩

variable (hrange : ∀ e ∈ r.settings.window reading, 0 ≤ e ∧ e < 2 ^ 64)

include hrange

/-- When the window has 64 bits, exactly the named pairs of the window are resolved. -/
theorem ClockScan.resolve_eq_ok_iff (hinj : PseudonymsInjective C peers) {peer : String}
    {epoch : ℤ} : (r.resolve C peers reading pid).1 = .ok (peer, epoch) ↔
      Names C peers pid peer epoch ∧ epoch ∈ r.settings.window reading := by
  refine ⟨ClockScan.resolve_sound, ?_⟩
  rintro ⟨⟨lam, hlam, hpid⟩, hwindow⟩
  unfold ClockScan.resolve
  split
  · rename_i hprobe
    obtain ⟨q, -, e, he, hout⟩ := probePeers_error hprobe
    exact absurd (hrange e he) hout
  · rename_i hprobe
    exact absurd hpid (probePeers_not_found hprobe _ (Dict.mem_entries_iff.mpr hlam) _ hwindow)
  · rename_i hit n hprobe
    obtain ⟨lam', hmem, -, hpid'⟩ := probePeers_found hprobe
    obtain ⟨h₁, h₂⟩ := hinj ⟨lam', Dict.mem_entries_iff.mp hmem, hpid'⟩ ⟨lam, hlam, hpid⟩
    exact congrArg Except.ok (Prod.ext h₁ h₂)

/-- When the window has 64 bits, what the scan does not resolve is unknown. -/
lemma ClockScan.kind_of_resolve (names : List String) {x : Exc}
    (h : (r.resolve C peers reading pid).1 = .error x) :
    x.kind = .unknownPeerError ∧ x.Brief names := by
  unfold ClockScan.resolve at h
  split at h
  · rename_i hprobe
    obtain ⟨q, -, e, he, hout⟩ := probePeers_error hprobe
    exact absurd (hrange e he) hout
  · cases h
    exact ⟨rfl, Exc.brief_of_lit _ _ (by decide)⟩
  · cases h

end Scan

/-! ## The table -/

/-- `ClockTable`: the table, and the epochs whose pseudonyms it holds. -/
structure ClockTable where
  settings : ClockSettings
  count : Probes := {}
  nonces : NonceCache := .empty
  table : PidTable := .empty
  tabled : Finset ℤ := ∅

namespace ClockTable

/-- The pairs that the window of a reading adds to the table: the new epochs in increasing order,
for each of them all peers. -/
def newPairs (peers : Dict String Lam) (r : ClockTable) (reading : ℚ) :
    List (String × Lam × ℤ) :=
  let want := r.settings.window reading
  ((want.filter fun e => e ∉ r.tabled).insertionSort (· ≤ ·)).flatMap fun epoch =>
    peers.entries.map fun p => (p.1, p.2, epoch)

/-- `_advance`. -/
def advance (C : Crypto) (peers : Dict String Lam) (r : ClockTable) (reading : ℚ) :
    Except Exc Unit × ClockTable :=
  let want := (r.settings.window reading).toFinset
  match enterPairs C true (r.newPairs peers reading) r.count r.table with
  | (.error e, n, table) => (.error e, { r with count := n, table := table })
  | (.ok (), n, table) =>
    (.ok (), { r with
      count := n
      table := table.eraseIf fun _ v => v.2 ∈ r.tabled ∧ v.2 ∉ want
      tabled := want })

/-- `ClockTable.attach`. -/
def attach (C : Crypto) (peers : Dict String Lam) (r : ClockTable) (reading : ℚ) :
    Except Exc Unit × ClockTable :=
  advance C peers { r with table := .empty, tabled := ∅ } reading

/-- `ClockTable.resolve`. -/
def resolve (C : Crypto) (peers : Dict String Lam) (r : ClockTable) (reading : ℚ) (pid : Bytes) :
    Except Exc (String × ℤ) × ClockTable :=
  match r.advance C peers reading with
  | (.error e, r) => (.error e, r)
  | (.ok (), r) =>
    match r.table.get pid with
    | none => (.error ⟨.unknownPeerError,
        [.lit "pseudonym is not in the current epoch table"]⟩, r)
    | some hit => (.ok hit, r)

section Table

variable {C : Crypto} {peers : Dict String Lam} {r : ClockTable} {reading : ℚ} {pid : Bytes}

/-- The pairs that are added: all peers, at the epochs of the window that are not in the table. -/
lemma mem_newPairs {q : String × Lam × ℤ} : q ∈ r.newPairs peers reading ↔
    peers.get q.1 = some q.2.1 ∧ q.2.2 ∈ r.settings.window reading ∧ q.2.2 ∉ r.tabled := by
  simp only [newPairs, List.mem_flatMap, List.mem_insertionSort, List.mem_filter, List.mem_map,
    decide_eq_true_eq]
  constructor
  · rintro ⟨e, ⟨hwindow, hnew⟩, p, hp, rfl⟩
    exact ⟨Dict.mem_entries_iff.mp hp, hwindow, hnew⟩
  · rintro ⟨hget, hwindow, hnew⟩
    exact ⟨q.2.2, ⟨hwindow, hnew⟩, (q.1, q.2.1), Dict.mem_entries_iff.mpr hget, rfl⟩

/-- Advancing keeps the settings and the nonces. -/
lemma advance_frame : (r.advance C peers reading).2.settings = r.settings ∧
    (r.advance C peers reading).2.nonces = r.nonces := by
  unfold advance
  dsimp only
  split <;> exact ⟨rfl, rfl⟩

/-- Resolving keeps the settings and the nonces. -/
lemma resolve_frame : (r.resolve C peers reading pid).2.settings = r.settings ∧
    (r.resolve C peers reading pid).2.nonces = r.nonces := by
  have hframe : (r.advance C peers reading).2.settings = r.settings ∧
      (r.advance C peers reading).2.nonces = r.nonces := advance_frame
  unfold resolve
  split <;> rename_i heq
  · rw [heq] at hframe
    exact hframe
  · rw [heq] at hframe
    split <;> exact hframe

/-- Every entry names its peer and epoch. -/
def Named (C : Crypto) (peers : Dict String Lam) (r : ClockTable) : Prop :=
  r.table.Within fun pid v => Names C peers pid v.1 v.2

/-- Advancing keeps the entries named, also when it fails. -/
lemma Named.advance (h : r.Named C peers) : (r.advance C peers reading).2.Named C peers := by
  have hnew : ∀ q ∈ r.newPairs peers reading, ∀ pid, h2Pseudonym C q.2.1 q.2.2 = .ok pid →
      Names C peers pid q.1 q.2.2 := fun q hq pid hpid => ⟨q.2.1, (mem_newPairs.mp hq).1, hpid⟩
  have hwithin := within_enterPairs true r.count h hnew
  unfold ClockTable.advance
  dsimp only
  split <;> rename_i heq
  · rw [heq] at hwithin
    exact hwithin
  · rw [heq] at hwithin
    exact (hwithin.eraseIf _).mono fun pid v hv => hv.1

/-- After attaching, the entries are named. -/
lemma named_attach : (r.attach C peers reading).2.Named C peers := by
  have hempty : Named C peers { r with table := .empty, tabled := ∅ } := Dict.within_empty
  exact hempty.advance

/-- Resolving keeps the entries named. -/
lemma Named.resolve (h : r.Named C peers) : (r.resolve C peers reading pid).2.Named C peers := by
  have hadv : (r.advance C peers reading).2.Named C peers := h.advance
  unfold ClockTable.resolve
  split <;> rename_i heq
  · rw [heq] at hadv
    exact hadv
  · rw [heq] at hadv
    split <;> exact hadv

/-- A resolved pair is named by the pseudonym. -/
lemma Named.resolve_sound (h : r.Named C peers) {peer : String} {epoch : ℤ}
    (hres : (r.resolve C peers reading pid).1 = .ok (peer, epoch)) :
    Names C peers pid peer epoch := by
  have hadv : (r.advance C peers reading).2.Named C peers := h.advance
  unfold ClockTable.resolve at hres
  split at hres <;> rename_i heq
  · cases hres
  · rw [heq] at hadv
    split at hres <;> rename_i hget
    · cases hres
    · cases hres
      exact hadv _ _ hget

/-- Every entry names its peer and epoch, and the epoch is recorded as tabled. -/
def Sound (C : Crypto) (peers : Dict String Lam) (r : ClockTable) : Prop :=
  r.table.Within fun pid v => Names C peers pid v.1 v.2 ∧ v.2 ∈ r.tabled

/-- The table holds exactly the pairs of the tabled epochs. -/
def Exact (C : Crypto) (peers : Dict String Lam) (r : ClockTable) : Prop :=
  r.table.Represents fun pid v => Names C peers pid v.1 v.2 ∧ v.2 ∈ r.tabled

/-- An advance that succeeds leaves a sound table of the window. -/
lemma Sound.advance (h : r.Sound C peers) {r' : ClockTable}
    (hadv : r.advance C peers reading = (.ok (), r')) :
    r'.Sound C peers ∧ r'.tabled = (r.settings.window reading).toFinset := by
  have hold : r.table.Within fun pid v => Names C peers pid v.1 v.2 ∧
      (v.2 ∈ r.tabled ∨ v.2 ∈ r.settings.window reading) :=
    h.mono fun pid v hv => ⟨hv.1, Or.inl hv.2⟩
  have hnew : ∀ q ∈ r.newPairs peers reading, ∀ pid, h2Pseudonym C q.2.1 q.2.2 = .ok pid →
      Names C peers pid q.1 q.2.2 ∧ (q.2.2 ∈ r.tabled ∨ q.2.2 ∈ r.settings.window reading) :=
    fun q hq pid hpid =>
      ⟨⟨q.2.1, (mem_newPairs.mp hq).1, hpid⟩, Or.inr (mem_newPairs.mp hq).2.1⟩
  have hwithin := within_enterPairs true r.count hold hnew
  unfold ClockTable.advance at hadv
  dsimp only at hadv
  split at hadv <;> rename_i heq
  · cases hadv
  · rw [heq] at hwithin
    cases hadv
    refine ⟨(hwithin.eraseIf _).mono fun pid v hv => ⟨hv.1.1, ?_⟩, rfl⟩
    have hkeep : v.2 ∈ r.tabled → v.2 ∈ (r.settings.window reading).toFinset := by
      simpa using hv.2
    rcases hv.1.2 with htab | hwin
    · exact hkeep htab
    · exact List.mem_toFinset.mpr hwin

/-- An advance that fails leaves the tabled epochs as they were. -/
lemma tabled_advance_error {e : Exc} (h : (r.advance C peers reading).1 = .error e) :
    (r.advance C peers reading).2.tabled = r.tabled := by
  unfold advance at h ⊢
  dsimp only at h ⊢
  split
  · rfl
  · rename_i heq
    rw [heq] at h
    cases h

/-- An advance fails when it meets an epoch outside of 64 bits. -/
lemma advance_out_of_range {q : String × Lam × ℤ} (hq : q ∈ r.newPairs peers reading)
    (hout : ¬ (0 ≤ q.2.2 ∧ q.2.2 < 2 ^ 64)) : ∃ e, (r.advance C peers reading).1 = .error e := by
  have herr := enterPairs_out_of_range (C := C) true r.count r.table hq hout
  unfold advance
  dsimp only
  split <;> rename_i heq
  · exact ⟨_, rfl⟩
  · rw [heq] at herr
    cases herr

/-- An advance that meets a negative epoch meets it first, and leaves the table as it was. -/
lemma table_advance_negative {q : String × Lam × ℤ} (hq : q ∈ r.newPairs peers reading)
    (hneg : q.2.2 < 0) : (r.advance C peers reading).2.table = r.table := by
  obtain ⟨e, herr⟩ : ∃ e, (r.advance C peers reading).1 = .error e :=
    advance_out_of_range hq fun h => absurd h.1 (not_le.mpr hneg)
  have hfst : ∃ q' pairs, r.newPairs peers reading = q' :: pairs ∧ q'.2.2 < 0 := by
    obtain ⟨hpeer, hwindow, hnew⟩ := mem_newPairs.mp hq
    have hentry : (q.1, q.2.1) ∈ peers.entries := Dict.mem_entries_iff.mpr hpeer
    have hepoch : q.2.2 ∈ ((r.settings.window reading).filter fun e => e ∉ r.tabled).insertionSort
        (· ≤ ·) := by
      rw [List.mem_insertionSort, List.mem_filter]
      exact ⟨hwindow, by simpa using hnew⟩
    have hsorted := List.pairwise_insertionSort (· ≤ ·)
      ((r.settings.window reading).filter fun e => e ∉ r.tabled)
    unfold newPairs
    dsimp only
    rcases hlist : ((r.settings.window reading).filter fun e => e ∉ r.tabled).insertionSort
        (· ≤ ·) with _ | ⟨e₀, es⟩
    · rw [hlist] at hepoch
      cases hepoch
    · rcases hentries : peers.entries with _ | ⟨p₀, ps⟩
      · rw [hentries] at hentry
        cases hentry
      · refine ⟨(p₀.1, p₀.2, e₀), _, rfl, ?_⟩
        rw [hlist] at hepoch hsorted
        rcases List.mem_cons.mp hepoch with heq | hmem
        · exact heq ▸ hneg
        · exact lt_of_le_of_lt (List.rel_of_pairwise_cons hsorted hmem) hneg
  obtain ⟨q', pairs, hpairs, hneg'⟩ := hfst
  have htable := enterPairs_cons_out_of_range (C := C) true r.count r.table pairs
    (fun h : 0 ≤ q'.2.2 ∧ q'.2.2 < 2 ^ 64 => absurd h.1 (not_le.mpr hneg'))
  unfold advance at herr ⊢
  dsimp only at herr ⊢
  rw [hpairs] at herr ⊢
  split <;> rename_i heq
  · rw [heq] at htable
    exact htable
  · rw [heq] at herr
    cases herr

/-- When the window has 64 bits, advancing succeeds. -/
lemma advance_fst (hrange : ∀ e ∈ r.settings.window reading, 0 ≤ e ∧ e < 2 ^ 64) :
    (r.advance C peers reading).1 = .ok () := by
  have hnew : ∀ q ∈ r.newPairs peers reading, 0 ≤ q.2.2 ∧ q.2.2 < 2 ^ 64 := fun q hq =>
    hrange _ (mem_newPairs.mp hq).2.1
  have hok := enterPairs_fst (C := C) true r.count r.table hnew
  unfold advance
  dsimp only
  split <;> rename_i heq
  · rw [heq] at hok
    cases hok
  · rfl

/-- An advance fails only at an epoch outside of 64 bits. -/
lemma exists_of_advance_error {x : Exc} (h : (r.advance C peers reading).1 = .error x) :
    ∃ q ∈ r.newPairs peers reading, ¬ (0 ≤ q.2.2 ∧ q.2.2 < 2 ^ 64) := by
  by_contra hnone
  have hrange : ∀ q ∈ r.newPairs peers reading, 0 ≤ q.2.2 ∧ q.2.2 < 2 ^ 64 := by
    intro q hq
    by_contra hout
    exact hnone ⟨q, hq, hout⟩
  have hok := enterPairs_fst (C := C) true r.count r.table hrange
  unfold advance at h
  dsimp only at h
  split at h <;> rename_i heq
  · rw [heq] at hok
    cases hok
  · cases h

/-- From the reading `t` on, what an advance leaves is of the window: the table is sound, or the end
of the window is beyond 64 bits and no advance succeeds any more. -/
structure Timely (C : Crypto) (peers : Dict String Lam) (t : ℚ) (r : ClockTable) : Prop where
  tabled_lt : peers.keys ≠ [] → ∀ e ∈ r.tabled, e < 2 ^ 64
  sound_or : r.Sound C peers ∨
    (peers.keys ≠ [] ∧ 2 ^ 64 ≤ r.settings.currentEpoch t + r.settings.drift)

/-- Time passes. -/
lemma Timely.mono {t t' : ℚ} (h : r.Timely C peers t) (ht : t ≤ t') : r.Timely C peers t' := by
  have hcur := r.settings.currentEpoch_mono ht
  refine ⟨h.tabled_lt, h.sound_or.imp id ?_⟩
  rintro ⟨hkeys, hbeyond⟩
  exact ⟨hkeys, by omega⟩

/-- The end of a window beyond 64 bits is a pair that an advance meets. -/
lemma Timely.advance_beyond {t : ℚ} (h : r.Timely C peers t) (hkeys : peers.keys ≠ [])
    (hbeyond : 2 ^ 64 ≤ r.settings.currentEpoch reading + r.settings.drift) :
    ∃ e, (r.advance C peers reading).1 = .error e := by
  obtain ⟨p, hp⟩ := List.exists_mem_of_ne_nil _ hkeys
  obtain ⟨lam, hlam⟩ := Dict.mem_keys_iff.mp hp
  have hwindow : r.settings.currentEpoch reading + r.settings.drift ∈
      r.settings.window reading := by
    rw [ClockSettings.mem_window]
    omega
  have hnew : r.settings.currentEpoch reading + r.settings.drift ∉ r.tabled := fun hmem =>
    absurd (h.tabled_lt hkeys _ hmem) (not_lt.mpr hbeyond)
  have hpair : (p, lam, r.settings.currentEpoch reading + r.settings.drift) ∈
      r.newPairs peers reading := mem_newPairs.mpr ⟨hlam, hwindow, hnew⟩
  exact advance_out_of_range hpair fun hrange => absurd hrange.2 (not_lt.mpr hbeyond)

/-- Advancing at a later reading keeps the table timely, and when it succeeds the table is sound for
the window. -/
lemma Timely.advance {t : ℚ} (h : r.Timely C peers t) (ht : t ≤ reading) :
    (r.advance C peers reading).2.Timely C peers reading ∧
      ((r.advance C peers reading).1 = .ok () →
        (r.advance C peers reading).2.Sound C peers ∧
          (r.advance C peers reading).2.tabled = (r.settings.window reading).toFinset) := by
  have hset : (r.advance C peers reading).2.settings = r.settings := advance_frame.1
  have hnow := h.mono ht
  rcases hadv : (r.advance C peers reading).1 with e | u
  · refine ⟨⟨?_, ?_⟩, fun hok => by cases hok⟩
    · rw [tabled_advance_error hadv]
      exact h.tabled_lt
    · rw [hset]
      rcases hnow.sound_or with hsound | hbeyond
      · obtain ⟨q, hq, hout⟩ := exists_of_advance_error hadv
        obtain ⟨hpeer, hwindow, -⟩ := mem_newPairs.mp hq
        have hkeys : peers.keys ≠ [] :=
          List.ne_nil_of_mem (Dict.mem_keys_iff.mpr ⟨_, hpeer⟩)
        by_cases hbeyond : 2 ^ 64 ≤ r.settings.currentEpoch reading + r.settings.drift
        · exact Or.inr ⟨hkeys, hbeyond⟩
        · -- the epoch that fails is negative, so it was met before anything was entered
          have hneg : q.2.2 < 0 := by
            rw [ClockSettings.mem_window] at hwindow
            omega
          apply Or.inl
          rw [Sound, table_advance_negative hq hneg, tabled_advance_error hadv]
          exact hsound
      · exact Or.inr hbeyond
  · have hsound : r.Sound C peers := by
      rcases hnow.sound_or with hsound | ⟨hkeys, hbeyond⟩
      · exact hsound
      · obtain ⟨e, herr⟩ : ∃ e, (r.advance C peers reading).1 = .error e :=
          h.advance_beyond hkeys hbeyond
        rw [hadv] at herr
        cases herr
    obtain ⟨hsound', htabled⟩ := hsound.advance (Prod.ext hadv rfl)
    refine ⟨⟨fun hkeys e he => ?_, Or.inl hsound'⟩, fun _ => ⟨hsound', htabled⟩⟩
    rw [htabled, List.mem_toFinset] at he
    by_contra hbig
    by_cases htab : e ∈ r.tabled
    · exact hbig (h.tabled_lt hkeys e htab)
    · obtain ⟨p, hp⟩ := List.exists_mem_of_ne_nil _ hkeys
      obtain ⟨lam, hlam⟩ := Dict.mem_keys_iff.mp hp
      have hpair : (p, lam, e) ∈ r.newPairs peers reading := mem_newPairs.mpr ⟨hlam, he, htab⟩
      obtain ⟨x, herr⟩ : ∃ x, (r.advance C peers reading).1 = .error x :=
        advance_out_of_range hpair fun hrange => hbig hrange.2
      rw [hadv] at herr
      cases herr

/-- After attaching, the table is timely. -/
lemma timely_attach (r : ClockTable) :
    (r.attach C peers reading).2.Timely C peers reading := by
  have hempty : Timely C peers reading { r with table := .empty, tabled := ∅ } :=
    ⟨fun _ e he => absurd he (Finset.notMem_empty e), Or.inl Dict.within_empty⟩
  exact (hempty.advance (le_refl _)).1

/-- Resolving at a later reading keeps the table timely, and what is resolved is of the window. -/
lemma Timely.resolve {t : ℚ} (h : r.Timely C peers t) (ht : t ≤ reading) (pid : Bytes) :
    (r.resolve C peers reading pid).2.Timely C peers reading ∧
      ∀ peer epoch, (r.resolve C peers reading pid).1 = .ok (peer, epoch) →
        Names C peers pid peer epoch ∧ epoch ∈ r.settings.window reading := by
  obtain ⟨htimely, hok⟩ := h.advance ht
  unfold ClockTable.resolve
  split <;> rename_i heq
  · rw [heq] at htimely
    exact ⟨htimely, fun peer epoch hres => by cases hres⟩
  · rw [heq] at htimely hok
    obtain ⟨hsound, htabled⟩ := hok rfl
    split <;> rename_i hget
    · exact ⟨htimely, fun peer epoch hres => by cases hres⟩
    · refine ⟨htimely, fun peer epoch hres => ?_⟩
      obtain rfl := Except.ok.inj hres
      obtain ⟨hnames, hmem⟩ := hsound _ _ hget
      rw [htabled, List.mem_toFinset] at hmem
      exact ⟨hnames, hmem⟩

/-- When the window has 64 bits, what the table does not resolve is unknown. -/
lemma kind_of_resolve (hrange : ∀ e ∈ r.settings.window reading, 0 ≤ e ∧ e < 2 ^ 64)
    (names : List String) {x : Exc} (h : (r.resolve C peers reading pid).1 = .error x) :
    x.kind = .unknownPeerError ∧ x.Brief names := by
  have hok : (r.advance C peers reading).1 = .ok () := advance_fst hrange
  unfold resolve at h
  split at h <;> rename_i heq
  · rw [heq] at hok
    cases hok
  · split at h
    · cases h
      exact ⟨rfl, Exc.brief_of_lit _ _ (by decide)⟩
    · cases h

/-- When the window has 64 bits and pseudonyms are injective, advancing succeeds and leaves exactly
the pairs of the window. -/
theorem Exact.advance (hinj : PseudonymsInjective C peers) (h : r.Exact C peers)
    (hrange : ∀ e ∈ r.settings.window reading, 0 ≤ e ∧ e < 2 ^ 64) :
    (r.advance C peers reading).1 = .ok () ∧ (r.advance C peers reading).2.Exact C peers ∧
      (r.advance C peers reading).2.tabled = (r.settings.window reading).toFinset := by
  have hnew : ∀ q ∈ r.newPairs peers reading, 0 ≤ q.2.2 ∧ q.2.2 < 2 ^ 64 := fun q hq =>
    hrange _ (mem_newPairs.mp hq).2.1
  have hok := enterPairs_fst (C := C) true r.count r.table hnew
  have hrep := represents_enterPairs true r.count hinj (fun q hq => (mem_newPairs.mp hq).1) hnew
    (fun _ _ hv => hv.1) h
  unfold ClockTable.advance
  dsimp only
  split <;> rename_i heq
  · rw [heq] at hok
    cases hok
  · rw [heq] at hrep
    refine ⟨rfl, (hrep.eraseIf _).congr fun pid v => ?_, rfl⟩
    simp only [mem_newPairs, decide_eq_false_iff_not, not_and, not_not, List.mem_toFinset]
    constructor
    · rintro ⟨⟨hnames, htab⟩ | ⟨⟨lam, -, hwin, -⟩, hnames⟩, hkeep⟩
      · exact ⟨hnames, hkeep htab⟩
      · exact ⟨hnames, hwin⟩
    · rintro ⟨hnames, hwin⟩
      refine ⟨?_, fun _ => hwin⟩
      by_cases htab : v.2 ∈ r.tabled
      · exact Or.inl ⟨hnames, htab⟩
      · obtain ⟨lam, hlam, -⟩ := id hnames
        exact Or.inr ⟨⟨lam, hlam, hwin, htab⟩, hnames⟩

/-- After attaching at a reading whose window has 64 bits, the table is exact. -/
theorem exact_attach (hinj : PseudonymsInjective C peers)
    (hrange : ∀ e ∈ r.settings.window reading, 0 ≤ e ∧ e < 2 ^ 64) :
    (r.attach C peers reading).1 = .ok () ∧ (r.attach C peers reading).2.Exact C peers := by
  have hempty : Exact C peers { r with table := .empty, tabled := ∅ } :=
    Dict.represents_empty.congr fun pid v => by simp
  obtain ⟨hok, hexact, -⟩ := hempty.advance hinj hrange
  exact ⟨hok, hexact⟩

/-- What an exact table resolves after an advance: exactly the named pairs of the window. -/
theorem Exact.resolve_eq_ok_iff (hinj : PseudonymsInjective C peers) (h : r.Exact C peers)
    (hrange : ∀ e ∈ r.settings.window reading, 0 ≤ e ∧ e < 2 ^ 64) {peer : String} {epoch : ℤ} :
    (r.resolve C peers reading pid).1 = .ok (peer, epoch) ↔
      Names C peers pid peer epoch ∧ epoch ∈ r.settings.window reading := by
  obtain ⟨hok, hexact, htabled⟩ := h.advance hinj hrange
  have hiff := hexact pid (peer, epoch)
  simp only [htabled, List.mem_toFinset] at hiff
  rw [← hiff]
  unfold resolve
  split <;> rename_i heq
  · rw [heq] at hok
    cases hok
  · rw [heq]
    split <;> rename_i hget <;> simp [hget]

/-- After a resolve, too, the table holds exactly the pairs of the window. -/
theorem Exact.resolve (hinj : PseudonymsInjective C peers) (h : r.Exact C peers)
    (hrange : ∀ e ∈ r.settings.window reading, 0 ≤ e ∧ e < 2 ^ 64) (pid : Bytes) :
    (r.resolve C peers reading pid).2.Exact C peers ∧
      (r.resolve C peers reading pid).2.tabled = (r.settings.window reading).toFinset := by
  obtain ⟨-, hexact, htabled⟩ := h.advance hinj hrange
  unfold ClockTable.resolve
  split <;> rename_i heq
  · rw [heq] at hexact htabled
    exact ⟨hexact, htabled⟩
  · rw [heq] at hexact htabled
    split
    · exact ⟨hexact, htabled⟩
    · exact ⟨hexact, htabled⟩

/-- A scan and an exact table with the same settings resolve alike: both find the same pair, or the
pseudonym is unknown to both. -/
theorem Exact.resolve_scan (hinj : PseudonymsInjective C peers) (h : r.Exact C peers)
    (hrange : ∀ e ∈ r.settings.window reading, 0 ≤ e ∧ e < 2 ^ 64) {s : ClockScan}
    (hs : s.settings = r.settings) (pid : Bytes) :
    (∃ hit, (s.resolve C peers reading pid).1 = .ok hit ∧
      (r.resolve C peers reading pid).1 = .ok hit) ∨
    ∃ e e', (s.resolve C peers reading pid).1 = .error e ∧ e.kind = .unknownPeerError ∧
      (r.resolve C peers reading pid).1 = .error e' ∧ e'.kind = .unknownPeerError := by
  have hrange' : ∀ e ∈ s.settings.window reading, 0 ≤ e ∧ e < 2 ^ 64 := hs.symm ▸ hrange
  have hagree : ∀ hit, (s.resolve C peers reading pid).1 = .ok hit ↔
      (r.resolve C peers reading pid).1 = .ok hit := by
    rintro ⟨p, e⟩
    rw [ClockScan.resolve_eq_ok_iff hrange' hinj, h.resolve_eq_ok_iff hinj hrange, hs]
  rcases hscan : (s.resolve C peers reading pid).1 with e | hit
  · rcases htable : (r.resolve C peers reading pid).1 with e' | hit'
    · exact Or.inr ⟨e, e', rfl, (ClockScan.kind_of_resolve hrange' peers.keys hscan).1, rfl,
        (kind_of_resolve hrange peers.keys htable).1⟩
    · have hscan' := (hagree hit').mpr htable
      rw [hscan] at hscan'
      cases hscan'
  · exact Or.inl ⟨hit, rfl, (hagree hit).mp hscan⟩

end Table

end ClockTable

end HybridEccAuth

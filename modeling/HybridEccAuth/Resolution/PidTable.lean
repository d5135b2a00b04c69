import HybridEccAuth.Resolution.Probing

/-!
# Tables of pseudonyms

Two resolvers keep a dictionary from pseudonyms to the peer and the epoch they
belong to, and extend it by one assignment after the other.  `enterPairs` is that
loop; the resolvers differ in the pairs they enter.

`within_enterPairs` bounds what a table can hold, whether or not the loop fails, and
`represents_enterPairs` says exactly what it holds when the epochs have 64 bits and
pseudonyms are injective.
-/

namespace HybridEccAuth

/-- A table from pseudonyms to peers and epochs. -/
abbrev PidTable := Dict Bytes (String × ℤ)

/-- `self._table[self._h2(lam, epoch)] = (peer, epoch)` for the listed peers and epochs. -/
def enterPairs (C : Crypto) (precompute : Bool) :
    List (String × Lam × ℤ) → Probes → PidTable → Except Exc Unit × Probes × PidTable
  | [], n, table => (.ok (), n, table)
  | (peer, lam, epoch) :: pairs, n, table =>
    match n.h2 C lam epoch precompute with
    | (.error e, n) => (.error e, n, table)
    | (.ok h, n) => enterPairs C precompute pairs n (table.set h (peer, epoch))

variable {C : Crypto} {table : PidTable} (precompute : Bool) (n : Probes)

/-- Entering stays within a relation that holds of the new entries. -/
lemma within_enterPairs {R : Bytes → String × ℤ → Prop} {pairs : List (String × Lam × ℤ)}
    (h : table.Within R)
    (hR : ∀ q ∈ pairs, ∀ pid, h2Pseudonym C q.2.1 q.2.2 = .ok pid → R pid (q.1, q.2.2)) :
    (enterPairs C precompute pairs n table).2.2.Within R := by
  induction pairs generalizing n table with
  | nil => exact h
  | cons q pairs ih =>
    obtain ⟨hq, hpairs⟩ := List.forall_mem_cons.mp hR
    unfold enterPairs Probes.h2
    split
    · exact h
    · rename_i hash n' hh
      obtain ⟨hhash, -⟩ := Prod.mk.inj hh
      exact ih _ (h.set (hq _ hhash)) hpairs

/-- Entering pairs whose epochs have 64 bits succeeds. -/
lemma enterPairs_fst (table : PidTable) {pairs : List (String × Lam × ℤ)}
    (hrange : ∀ q ∈ pairs, 0 ≤ q.2.2 ∧ q.2.2 < 2 ^ 64) :
    (enterPairs C precompute pairs n table).1 = .ok () := by
  induction pairs generalizing n table with
  | nil => rfl
  | cons q pairs ih =>
    obtain ⟨hq, hpairs⟩ := List.forall_mem_cons.mp hrange
    obtain ⟨hash, hhash⟩ := exists_h2Pseudonym C q.2.1 hq.1 hq.2
    simp only [enterPairs, Probes.h2, hhash]
    exact ih _ _ hpairs

/-- Entering pairs whose epochs have 64 bits costs one evaluation for each of them. -/
lemma count_enterPairs (table : PidTable) {pairs : List (String × Lam × ℤ)}
    (hrange : ∀ q ∈ pairs, 0 ≤ q.2.2 ∧ q.2.2 < 2 ^ 64) :
    (enterPairs C precompute pairs n table).2.1 = n.spend precompute pairs.length := by
  induction pairs generalizing n table with
  | nil => exact (n.spend_zero precompute).symm
  | cons q pairs ih =>
    obtain ⟨hq, hpairs⟩ := List.forall_mem_cons.mp hrange
    obtain ⟨hash, hhash⟩ := exists_h2Pseudonym C q.2.1 hq.1 hq.2
    have hstep : n.h2 C q.2.1 q.2.2 precompute = (.ok hash, n.spend precompute 1) :=
      Prod.ext hhash (n.h2_snd C q.2.1 q.2.2 precompute)
    simp only [enterPairs, hstep]
    rw [ih _ _ hpairs, Probes.spend_spend, List.length_cons, Nat.add_comm]

/-- Entering a pair whose epoch is outside of 64 bits fails. -/
lemma enterPairs_out_of_range (table : PidTable) {pairs : List (String × Lam × ℤ)}
    {q : String × Lam × ℤ} (hq : q ∈ pairs) (hout : ¬ (0 ≤ q.2.2 ∧ q.2.2 < 2 ^ 64)) :
    (enterPairs C precompute pairs n table).1 = .error (.ofLibrary .structError) := by
  induction pairs generalizing n table with
  | nil => exact absurd hq List.not_mem_nil
  | cons q' pairs ih =>
    unfold enterPairs Probes.h2 h2Pseudonym
    by_cases hrange : 0 ≤ q'.2.2 ∧ q'.2.2 < 2 ^ 64
    · rcases List.mem_cons.mp hq with rfl | hmem
      · exact absurd hrange hout
      · simp only [if_pos hrange]
        exact ih _ _ hmem
    · simp only [if_neg hrange]

/-- When the first epoch is outside of 64 bits, nothing is entered. -/
lemma enterPairs_cons_out_of_range (table : PidTable) (pairs : List (String × Lam × ℤ))
    {q : String × Lam × ℤ} (hout : ¬ (0 ≤ q.2.2 ∧ q.2.2 < 2 ^ 64)) :
    (enterPairs C precompute (q :: pairs) n table).2.2 = table := by
  simp only [enterPairs, Probes.h2, h2Pseudonym, if_neg hout]

/-- Entering pairs of enrolled peers, whose epochs have 64 bits, adds exactly these pairs. -/
lemma represents_enterPairs {peers : Dict String Lam} (hinj : PseudonymsInjective C peers)
    {pairs : List (String × Lam × ℤ)} (hpeers : ∀ q ∈ pairs, peers.get q.1 = some q.2.1)
    (hrange : ∀ q ∈ pairs, 0 ≤ q.2.2 ∧ q.2.2 < 2 ^ 64) {R : Bytes → String × ℤ → Prop}
    (hR : ∀ pid v, R pid v → Names C peers pid v.1 v.2) (h : table.Represents R) :
    (enterPairs C precompute pairs n table).2.2.Represents fun pid v =>
      R pid v ∨ ((∃ lam, (v.1, lam, v.2) ∈ pairs) ∧ Names C peers pid v.1 v.2) := by
  induction pairs generalizing n table R with
  | nil => exact h.congr fun pid v => by simp
  | cons q pairs ih =>
    obtain ⟨hq, hpeers⟩ := List.forall_mem_cons.mp hpeers
    obtain ⟨hqr, hrange⟩ := List.forall_mem_cons.mp hrange
    obtain ⟨hash, hhash⟩ := exists_h2Pseudonym C q.2.1 hqr.1 hqr.2
    have hnames : Names C peers hash q.1 q.2.2 := ⟨q.2.1, hq, hhash⟩
    have hfun : ∀ w, R hash w → w = (q.1, q.2.2) := by
      intro w hw
      obtain ⟨h₁, h₂⟩ := hinj (hR hash w hw) hnames
      exact Prod.ext h₁ h₂
    have hR' : ∀ pid v, R pid v ∨ (pid = hash ∧ v = (q.1, q.2.2)) → Names C peers pid v.1 v.2 := by
      rintro pid v (hv | ⟨rfl, rfl⟩)
      · exact hR pid v hv
      · exact hnames
    simp only [enterPairs, Probes.h2, hhash]
    apply (ih _ hpeers hrange hR' (h.set hfun)).congr
    intro pid v
    constructor
    · rintro ((hv | ⟨rfl, rfl⟩) | ⟨⟨lam, hmem⟩, hv⟩)
      · exact Or.inl hv
      · exact Or.inr ⟨⟨q.2.1, List.mem_cons_self⟩, hnames⟩
      · exact Or.inr ⟨⟨lam, List.mem_cons_of_mem _ hmem⟩, hv⟩
    · rintro (hv | ⟨⟨lam, hmem⟩, hv⟩)
      · exact Or.inl (Or.inl hv)
      · rcases List.mem_cons.mp hmem with rfl | hmem
        · obtain ⟨lam', hlam', hpid⟩ := hv
          obtain rfl := Option.some_inj.mp (hq.symm.trans hlam')
          exact Or.inl (Or.inr ⟨Except.ok.inj (hpid.symm.trans hhash), rfl⟩)
        · exact Or.inr ⟨⟨lam, hmem⟩, hv⟩

end HybridEccAuth

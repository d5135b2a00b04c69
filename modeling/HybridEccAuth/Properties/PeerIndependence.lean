import HybridEccAuth.Properties.BlockList
import HybridEccAuth.Properties.Rejections

/-!
# Independence of peers

What a server with counter epochs does for one peer depends on the requests that carry
a pseudonym of that peer, and on no others.  Two states agree on a peer
(`Server.AgreeOn`) when their logs do, and their tables on the pseudonyms of the peer.
A request with such a pseudonym has the same outcome in both and keeps them in
agreement, and any other request keeps a state in agreement with the other one as it
is; so deleting the other requests from a run changes nothing for the peer.

The linear scan probes the windows of all peers for every pseudonym, and fails for all
of them as soon as one window reaches an epoch that does not have 64 bits.  Short of
that (`Server.OthersFit`) the search finds what it finds in the window of the peer.
-/

namespace HybridEccAuth

namespace SessionLog

/-- Two logs with the same settings that agree on a peer. -/
structure AgreeOn (p : String) (log log' : SessionLog) : Prop where
  max_eq : log.maxAttempts = log'.maxAttempts
  forward_eq : log.forwardTolerance = log'.forwardTolerance
  back_eq : log.replayLookback = log'.replayLookback
  last_eq : log.last p = log'.last p
  failures_eq : log.failures p = log'.failures p
  blocked_eq : log.isBlocked p = log'.isBlocked p

variable {log log' log'' : SessionLog} {p q : String}

/-- Agreement of session logs is transitive. -/
lemma AgreeOn.trans (h : AgreeOn p log log') (h' : AgreeOn p log' log'') : AgreeOn p log log'' :=
  ⟨h.max_eq.trans h'.max_eq, h.forward_eq.trans h'.forward_eq, h.back_eq.trans h'.back_eq,
    h.last_eq.trans h'.last_eq, h.failures_eq.trans h'.failures_eq,
    h.blocked_eq.trans h'.blocked_eq⟩

/-- Logs that agree have the same window for the peer. -/
lemma AgreeOn.window_eq (h : AgreeOn p log log') :
    log.epochSearchWindow p = log'.epochSearchWindow p := by
  rw [epochSearchWindow, epochSearchWindow, h.last_eq, h.forward_eq, h.back_eq]

/-- A failure of the peer keeps two logs in agreement. -/
lemma AgreeOn.recordFailure (h : AgreeOn p log log') :
    AgreeOn p (log.recordFailure p).2 (log'.recordFailure p).2 := by
  obtain ⟨-, hmax, hforward, hback⟩ := @recordFailure_frame log p
  obtain ⟨-, hmax', hforward', hback'⟩ := @recordFailure_frame log' p
  refine ⟨?_, ?_, ?_, ?_, ?_, ?_⟩
  · rw [hmax, hmax', h.max_eq]
  · rw [hforward, hforward', h.forward_eq]
  · rw [hback, hback', h.back_eq]
  · rw [last_recordFailure, last_recordFailure, h.last_eq]
  · by_cases hblocked : log.isBlocked p = true
    · rw [recordFailure_of_blocked hblocked, recordFailure_of_blocked (h.blocked_eq ▸ hblocked),
        h.failures_eq]
    · rw [Bool.not_eq_true] at hblocked
      rw [failures_recordFailure hblocked, failures_recordFailure (h.blocked_eq ▸ hblocked),
        h.failures_eq]
  · rw [Bool.eq_iff_iff, isBlocked_recordFailure, isBlocked_recordFailure, h.blocked_eq, h.max_eq,
      h.failures_eq]

/-- A failure of another peer keeps a log in agreement with itself. -/
lemma agreeOn_recordFailure (hq : p ≠ q) : AgreeOn p (log.recordFailure q).2 log := by
  obtain ⟨-, hmax, hforward, hback⟩ := @recordFailure_frame log q
  refine ⟨hmax, hforward, hback, last_recordFailure, failures_recordFailure_other hq, ?_⟩
  rw [Bool.eq_iff_iff, isBlocked_recordFailure]
  simp [hq]

/-- Accepting an epoch touches neither failures nor blocks. -/
lemma failures_acceptEpoch (epoch : ℤ) : (log.acceptEpoch q epoch).failures p = log.failures p ∧
    (log.acceptEpoch q epoch).isBlocked p = log.isBlocked p := by
  obtain ⟨-, -, -, hfail, hblocked⟩ := @acceptEpoch_frame log q epoch
  rw [failures, failures, isBlocked, isBlocked, hfail, hblocked]
  exact ⟨rfl, rfl⟩

/-- Accepting an epoch of the peer keeps two logs in agreement. -/
lemma AgreeOn.acceptEpoch (h : AgreeOn p log log') (epoch : ℤ) :
    AgreeOn p (log.acceptEpoch p epoch) (log'.acceptEpoch p epoch) := by
  obtain ⟨hmax, hforward, hback, -⟩ := @acceptEpoch_frame log p epoch
  obtain ⟨hmax', hforward', hback', -⟩ :=
    @acceptEpoch_frame log' p epoch
  obtain ⟨hfail, hblocked⟩ := @failures_acceptEpoch log p p epoch
  obtain ⟨hfail', hblocked'⟩ := @failures_acceptEpoch log' p p epoch
  refine ⟨?_, ?_, ?_, ?_, ?_, ?_⟩
  · rw [hmax, hmax', h.max_eq]
  · rw [hforward, hforward', h.forward_eq]
  · rw [hback, hback', h.back_eq]
  · rw [last_acceptEpoch, last_acceptEpoch, if_pos rfl, if_pos rfl, h.last_eq]
  · rw [hfail, hfail', h.failures_eq]
  · rw [hblocked, hblocked', h.blocked_eq]

/-- Accepting an epoch of another peer keeps a log in agreement with itself. -/
lemma agreeOn_acceptEpoch (hq : p ≠ q) (epoch : ℤ) : AgreeOn p (log.acceptEpoch q epoch) log := by
  obtain ⟨hmax, hforward, hback, -⟩ := @acceptEpoch_frame log q epoch
  obtain ⟨hfail, hblocked⟩ := @failures_acceptEpoch log p q epoch
  refine ⟨hmax, hforward, hback, ?_, hfail, hblocked⟩
  rw [last_acceptEpoch, if_neg hq]

/-- A success of the peer keeps two logs in agreement. -/
lemma AgreeOn.recordSuccess (h : AgreeOn p log log') :
    AgreeOn p (log.recordSuccess p) (log'.recordSuccess p) := by
  refine ⟨h.max_eq, h.forward_eq, h.back_eq, h.last_eq, ?_, h.blocked_eq⟩
  rw [failures_recordSuccess, failures_recordSuccess, if_pos rfl, if_pos rfl]

/-- A success of another peer keeps a log in agreement with itself. -/
lemma agreeOn_recordSuccess (hq : p ≠ q) : AgreeOn p (log.recordSuccess q) log := by
  refine ⟨rfl, rfl, rfl, rfl, ?_, rfl⟩
  rw [failures_recordSuccess, if_neg hq]

end SessionLog

/-! ## The search -/

section Search

variable {C : Crypto} {peers : Dict String Lam} {pid : Bytes} {p : String}

/-- The windows of the peers other than `p` have 64 bits. -/
def OthersBelow (peers : Dict String Lam) (log : SessionLog) (p : String) : Prop :=
  ∀ q ∈ peers.keys, q ≠ p → log.last q + log.forwardTolerance < 2 ^ 64

/-- A pseudonym of a peer is found in logs that agree on the peer alike. -/
lemma LinearScan.resolve_fst_of_agree (hinj : PseudonymsInjective C peers) {log log' : SessionLog}
    (hlog : log.AgreeOn p log') (hbelow : OthersBelow peers log p)
    (hbelow' : OthersBelow peers log' p) {e : ℤ} (hpid : Names C peers pid p e)
    (r r' : LinearScan) : (r.resolve C peers log pid).1 = (r'.resolve C peers log' pid).1 := by
  -- the window of another peer holds nothing of this pseudonym, in either log
  have hother : ∀ log : SessionLog, OthersBelow peers log p → ∀ q ∈ peers.entries, q.1 ≠ p →
      ∀ n, (probeEpochs C q.2 pid (log.epochSearchWindow q.1) n).1 = .ok none := by
    intro log hbelow q hq hne n
    have hlam := Dict.mem_entries_iff.mp hq
    refine probeEpochs_none (fun e he => ?_) (fun e _ hok => ?_) n
    · obtain ⟨⟨hzero, -⟩, hle⟩ := SessionLog.mem_epochSearchWindow.mp he
      exact ⟨hzero, lt_of_le_of_lt hle (hbelow q.1 (Dict.mem_keys_iff.mpr ⟨_, hlam⟩) hne)⟩
    · exact hne (hinj ⟨q.2, hlam, hok⟩ hpid).1
  have hprobe : (probePeers C log.epochSearchWindow pid peers.entries r.count).1 =
      (probePeers C log'.epochSearchWindow pid peers.entries r'.count).1 := by
    apply probePeers_fst_congr_of_epochs
    intro q hq n n'
    by_cases hq' : q.1 = p
    · rw [hq', hlog.window_eq]
      exact probeEpochs_fst_congr _ n n'
    · rw [hother log hbelow q hq hq' n, hother log' hbelow' q hq hq' n']
  unfold LinearScan.resolve
  rcases hx : probePeers C log.epochSearchWindow pid peers.entries r.count with ⟨x, n⟩
  rcases hy : probePeers C log'.epochSearchWindow pid peers.entries r'.count with ⟨y, n'⟩
  rw [hx, hy] at hprobe
  obtain rfl : x = y := hprobe
  rcases x with err | _ | ⟨peer, epoch⟩
  · rfl
  · rfl
  · obtain ⟨lam, hmem, -, hok⟩ := probePeers_found hx
    obtain ⟨rfl, -⟩ := hinj ⟨lam, Dict.mem_entries_iff.mp hmem, hok⟩ hpid
    dsimp only
    rw [SessionLog.isStaleEpoch, SessionLog.isStaleEpoch, hlog.last_eq]
    split_ifs <;> rfl

end Search

/-! ## The table -/

section Table

variable {C : Crypto} {peers : Dict String Lam} {p q : String}

/-- Entering the same pairs leaves two tables in agreement on a pseudonym. -/
lemma get_enterPairs_congr (precompute : Bool) (pairs : List (String × Lam × ℤ)) {pid : Bytes}
    {table table' : PidTable} (h : table.get pid = table'.get pid) (n n' : Probes) :
    (enterPairs C precompute pairs n table).2.2.get pid =
      (enterPairs C precompute pairs n' table').2.2.get pid := by
  induction pairs generalizing n n' table table' with
  | nil => exact h
  | cons q pairs ih =>
    unfold enterPairs Probes.h2
    rcases h2Pseudonym C q.2.1 q.2.2 with e | hash
    · exact h
    · apply ih
      rw [Dict.get_set, Dict.get_set, h]

/-- The outcome of entering does not depend on the table. -/
lemma enterPairs_fst_congr (precompute : Bool) (pairs : List (String × Lam × ℤ))
    (table table' : PidTable) (n n' : Probes) :
    (enterPairs C precompute pairs n table).1 = (enterPairs C precompute pairs n' table').1 := by
  induction pairs generalizing n n' table table' with
  | nil => rfl
  | cons q pairs ih =>
    unfold enterPairs Probes.h2
    rcases h2Pseudonym C q.2.1 q.2.2 with e | hash
    · rfl
    · exact ih _ _ _ _

/-- Entering pairs with other pseudonyms leaves the entry of a pseudonym. -/
lemma get_enterPairs_of_other (precompute : Bool) {pairs : List (String × Lam × ℤ)} {pid : Bytes}
    (hother : ∀ q ∈ pairs, h2Pseudonym C q.2.1 q.2.2 ≠ .ok pid) (n : Probes) (table : PidTable) :
    (enterPairs C precompute pairs n table).2.2.get pid = table.get pid := by
  induction pairs generalizing n table with
  | nil => rfl
  | cons q pairs ih =>
    obtain ⟨hq, hpairs⟩ := List.forall_mem_cons.mp hother
    unfold enterPairs Probes.h2
    rcases hhash : h2Pseudonym C q.2.1 q.2.2 with e | hash
    · rfl
    · refine (ih hpairs _ _).trans (Dict.get_set_of_ne _ _ fun heq => hq ?_)
      rw [hhash, heq]

namespace CounterTable

/-- Two tables that agree on a peer: on its tolerance, its highest epoch, and its pseudonyms. -/
structure AgreeOn (C : Crypto) (peers : Dict String Lam) (p : String) (r r' : CounterTable) :
    Prop where
  forward_eq : r.forward? = r'.forward?
  hi_eq : r.hi.get p = r'.hi.get p
  get_eq : ∀ pid e, Names C peers pid p e → r.table.get pid = r'.table.get pid

variable {log log' : SessionLog} {r r' r'' : CounterTable}

/-- Agreement of tables is transitive. -/
lemma AgreeOn.trans (h : AgreeOn C peers p r r') (h' : AgreeOn C peers p r' r'') :
    AgreeOn C peers p r r'' :=
  ⟨h.forward_eq.trans h'.forward_eq, h.hi_eq.trans h'.hi_eq, fun pid e hpid =>
    (h.get_eq pid e hpid).trans (h'.get_eq pid e hpid)⟩

/-- Filling for the peer has the same outcome in tables that agree on it, and keeps them in
agreement.
-/
lemma AgreeOn.fill (h : AgreeOn C peers p r r') (hlog : log.AgreeOn p log') (precompute : Bool) :
    (r.fill C peers log p precompute).1 = (r'.fill C peers log' p precompute).1 ∧
      AgreeOn C peers p (r.fill C peers log p precompute).2
        (r'.fill C peers log' p precompute).2 := by
  have hforward : r.forward log = r'.forward log' := by
    rw [forward, forward, h.forward_eq, hlog.forward_eq]
  unfold CounterTable.fill
  rcases peers.get p with _ | lam
  · exact ⟨rfl, h⟩
  have hpairs : r.missingPairs log p lam = r'.missingPairs log' p lam := by
    rw [missingPairs, missingPairs, missing, missing, top, top, h.hi_eq, hlog.last_eq, hforward]
  have hget : ∀ pid e, Names C peers pid p e →
      (enterPairs C precompute (r.missingPairs log p lam) r.count r.table).2.2.get pid =
        (enterPairs C precompute (r'.missingPairs log' p lam) r'.count r'.table).2.2.get pid := by
    intro pid e hpid
    rw [hpairs]
    exact get_enterPairs_congr precompute _ (h.get_eq pid e hpid) _ _
  have hfst : (enterPairs C precompute (r.missingPairs log p lam) r.count r.table).1 =
      (enterPairs C precompute (r'.missingPairs log' p lam) r'.count r'.table).1 := by
    rw [hpairs]
    exact enterPairs_fst_congr precompute _ _ _ _ _
  dsimp only
  rcases hx : enterPairs C precompute (r.missingPairs log p lam) r.count r.table with ⟨x, n, t⟩
  rcases hy : enterPairs C precompute (r'.missingPairs log' p lam) r'.count
    r'.table with ⟨y, n', t'⟩
  rw [hx, hy] at hfst hget
  obtain rfl : x = y := hfst
  rcases x with e | u
  · exact ⟨rfl, h.forward_eq, h.hi_eq, hget⟩
  · refine ⟨rfl, h.forward_eq, ?_, hget⟩
    dsimp only
    rw [Dict.get_set, Dict.get_set, if_pos rfl, if_pos rfl, hlog.last_eq, hforward]

/-- Filling for another peer keeps a table in agreement with itself. -/
lemma agreeOn_fill (hinj : PseudonymsInjective C peers) (hq : p ≠ q) (precompute : Bool) :
    AgreeOn C peers p (r.fill C peers log q precompute).2 r := by
  unfold CounterTable.fill
  rcases hlam : peers.get q with _ | lam
  · exact ⟨rfl, rfl, fun _ _ _ => rfl⟩
  have hget : ∀ pid e, Names C peers pid p e →
      (enterPairs C precompute (r.missingPairs log q lam) r.count r.table).2.2.get pid =
        r.table.get pid := by
    intro pid e hpid
    apply get_enterPairs_of_other
    intro x hx hok
    obtain ⟨-, hx₂, -⟩ := mem_missingPairs.mp hx
    rw [hx₂] at hok
    exact hq (hinj hpid ⟨lam, hlam, hok⟩).1
  dsimp only
  rcases hx : enterPairs C precompute (r.missingPairs log q lam) r.count r.table with ⟨e | u, n, t⟩
  · rw [hx] at hget
    exact ⟨rfl, rfl, hget⟩
  · rw [hx] at hget
    exact ⟨rfl, Dict.get_set_of_ne _ _ hq, hget⟩

/-- Dropping the accepted entries of the peer keeps two tables in agreement. -/
lemma AgreeOn.dropAccepted (h : AgreeOn C peers p r r') (hlog : log.AgreeOn p log') :
    AgreeOn C peers p (r.dropAccepted log p) (r'.dropAccepted log' p) := by
  refine ⟨h.forward_eq, h.hi_eq, fun pid e hpid => ?_⟩
  unfold CounterTable.dropAccepted
  dsimp only
  rw [Dict.get_eraseIf, Dict.get_eraseIf, h.get_eq pid e hpid, hlog.last_eq]

/-- Dropping the accepted entries of another peer keeps a sound table in agreement with itself. -/
lemma agreeOn_dropAccepted (hinj : PseudonymsInjective C peers) {log₀ : SessionLog}
    (hr : r.Sound C peers log₀) (hq : p ≠ q) :
    AgreeOn C peers p (r.dropAccepted log q) r := by
  refine ⟨rfl, rfl, fun pid e hpid => ?_⟩
  unfold CounterTable.dropAccepted
  dsimp only
  rw [Dict.get_eraseIf]
  rcases hget : r.table.get pid with _ | v
  · rfl
  · obtain rfl := (hinj hpid (hr pid v hget).1).1
    simp [hq]

/-- Accepting an epoch of the peer has the same outcome in tables that agree on it, and keeps them
in agreement. -/
lemma AgreeOn.accept (h : AgreeOn C peers p r r') (hlog : log.AgreeOn p log') (epoch : ℤ) :
    (r.accept C peers log p epoch).1 = (r'.accept C peers log' p epoch).1 ∧
      AgreeOn C peers p (r.accept C peers log p epoch).2.1
        (r'.accept C peers log' p epoch).2.1 := by
  have hlog' := hlog.acceptEpoch epoch
  exact (h.dropAccepted hlog').fill hlog' false

/-- Accepting an epoch of another peer keeps a sound table in agreement with itself. -/
lemma agreeOn_accept (hinj : PseudonymsInjective C peers) (hr : r.Sound C peers log) (hq : p ≠ q)
    (epoch : ℤ) : AgreeOn C peers p (r.accept C peers log q epoch).2.1 r :=
  (agreeOn_fill hinj hq false).trans (agreeOn_dropAccepted hinj hr hq)

/-- A pseudonym of the peer resolves alike in tables that agree on it. -/
lemma AgreeOn.resolve_eq (h : AgreeOn C peers p r r') {pid : Bytes} {e : ℤ}
    (hpid : Names C peers pid p e) : r.resolve pid = r'.resolve pid := by
  rw [resolve, resolve, h.get_eq pid e hpid]

end CounterTable

end Table

/-! ## One request -/

section Verify

variable {C : Crypto} {p : String} {log log' : SessionLog} {msg1 : Message1} {epoch : ℤ}

/-- Decrypting a request of the peer has the same outcome with logs that agree on it. -/
lemma decryptRequest_of_agree (hlog : log.AgreeOn p log') (kStar : Bytes) :
    (decryptRequest C log msg1 p epoch kStar).1 = (decryptRequest C log' msg1 p epoch kStar).1 ∧
      (decryptRequest C log msg1 p epoch kStar).2.AgreeOn p
        (decryptRequest C log' msg1 p epoch kStar).2 := by
  unfold decryptRequest
  rcases aeadDecrypt C kStar msg1.gcmNonce msg1.ciphertext msg1.tag [] with e | plaintext
  · dsimp only
    split_ifs
    · exact ⟨rfl, hlog.recordFailure⟩
    · exact ⟨rfl, hlog⟩
  · dsimp only
    split_ifs
    · exact ⟨rfl, hlog.recordFailure⟩
    · exact ⟨rfl, hlog⟩

/-- The gates and the checks of a request of the peer have the same outcome with logs that agree on
it.
-/
lemma verify_of_agree {E E' : Entity C} (hcred : E.credential = E'.credential)
    (hlog : log.AgreeOn p log') (coverage : String → Bool) (msg1 : Message1) (epoch : ℤ) :
    (verify C E log coverage msg1 p epoch).1 = (verify C E' log' coverage msg1 p epoch).1 ∧
      (verify C E log coverage msg1 p epoch).2.2.AgreeOn p
        (verify C E' log' coverage msg1 p epoch).2.2 := by
  have hroot : (E.getPairwiseRoot p).1 = (E'.getPairwiseRoot p).1 := by
    rw [E.getPairwiseRoot_fst, E'.getPairwiseRoot_fst, hcred]
  unfold verify
  rw [hlog.blocked_eq]
  split_ifs
  · exact ⟨rfl, hlog⟩
  · exact ⟨rfl, hlog.recordFailure⟩
  · rcases hx : E.getPairwiseRoot p with ⟨x, E₁⟩
    rcases hy : E'.getPairwiseRoot p with ⟨y, E₂⟩
    rw [hx, hy] at hroot
    obtain rfl : x = y := hroot
    rcases x with e | kStar
    · exact ⟨rfl, hlog⟩
    · exact decryptRequest_of_agree hlog kStar

/-- The gates and the checks accept no epoch. -/
lemma last_verify (C : Crypto) (E : Entity C) (log : SessionLog) (coverage : String → Bool)
    (msg1 : Message1) (peer : String) (epoch : ℤ) (q : String) :
    (verify C E log coverage msg1 peer epoch).2.2.last q = log.last q := by
  obtain ⟨-, heq | heq⟩ := verify_frame C E log coverage msg1 peer epoch
  · rw [heq]
  · rw [heq, SessionLog.last_recordFailure]

end Verify

/-- Two resolvers of the same kind that agree on a peer. -/
def Resolver.AgreeOn (C : Crypto) (peers : Dict String Lam) (p : String) :
    Resolver → Resolver → Prop
  | linearScan _, linearScan _ => True
  | counterTable r, counterTable r' => r.AgreeOn C peers p r'
  | _, _ => False

/-- Whether a resolver is a linear scan or a counter table. -/
def Resolver.Separates : Resolver → Prop
  | linearScan _ | counterTable _ => True
  | _ => False

/-- A linear scan and a counter table have counter epochs. -/
lemma Resolver.Separates.isCounter {r : Resolver} (h : r.Separates) : r.IsCounter := by
  rcases r with r | r | r | r | T
  · trivial
  · trivial
  · exact h.elim
  · exact h.elim
  · exact h.elim

/-- Resolvers that agree are linear scans or counter tables. -/
lemma Resolver.AgreeOn.separates {C : Crypto} {peers : Dict String Lam} {p : String}
    {r r' : Resolver} (h : r.AgreeOn C peers p r') : r.Separates ∧ r'.Separates := by
  rcases r with r | r | r | r | T <;> rcases r' with r' | r' | r' | r' | T' <;> try exact h.elim
  · exact ⟨trivial, trivial⟩
  · exact ⟨trivial, trivial⟩

/-- A linear scan or a counter table agrees with itself. -/
lemma Resolver.agreeOn_refl {r : Resolver} (h : r.Separates) (C : Crypto) (peers : Dict String Lam)
    (p : String) : r.AgreeOn C peers p r := by
  rcases r with r | r | r | r | T
  · trivial
  · exact ⟨rfl, rfl, fun _ _ _ => rfl⟩
  · exact h.elim
  · exact h.elim
  · exact h.elim

namespace Server

variable {C : Crypto} {p : String}

/-- Two states of a server that agree on a peer.  The second one may be behind in the epochs of
other peers. -/
structure AgreeOn (p : String) (S T : Server C) : Prop where
  credential_eq : S.credential = T.credential
  nonceBits_eq : S.nonceBits = T.nonceBits
  log : S.sessionLog.AgreeOn p T.sessionLog
  resolver : S.resolver.AgreeOn C S.peers p T.resolver
  behind : ∀ q, T.sessionLog.last q ≤ S.sessionLog.last q

/-- With a linear scan, the windows of the other peers have 64 bits. -/
def OthersFit (p : String) (S : Server C) : Prop :=
  match S.resolver with
  | .linearScan _ => OthersBelow S.peers S.sessionLog p
  | _ => True

/-- The bytes of a request with a pseudonym of the peer. -/
def Carries (C : Crypto) (peers : Dict String Lam) (p : String) (i : ServerEnv × Bytes) : Prop :=
  ∃ msg1 e, Message1.fromBytes i.2 = .ok msg1 ∧ Names C peers msg1.pid p e

/-- A pseudonym of the peer resolves alike in states that agree on it, and resolving keeps them in
agreement. -/
lemma AgreeOn.resolve {S T : Server C} (h : AgreeOn p S T) (hinj : PseudonymsInjective C S.peers)
    (hfit : S.OthersFit p) {pid : Bytes} {e : ℤ} (hpid : Names C S.peers pid p e) (reading : ℚ) :
    (S.resolver.resolve C S.peers S.sessionLog reading pid).1 =
        (T.resolver.resolve C T.peers T.sessionLog reading pid).1 ∧
      (S.resolver.resolve C S.peers S.sessionLog reading pid).2.AgreeOn C S.peers p
        (T.resolver.resolve C T.peers T.sessionLog reading pid).2 := by
  obtain ⟨E, nonceBits, log, r⟩ := S
  obtain ⟨E', nonceBits', log', r'⟩ := T
  obtain ⟨hcred, -, hlog, hres, hbehind⟩ := h
  dsimp only [Server.peers, Server.credential] at *
  rw [← hcred]
  rcases r with r | r | r | r | T <;> rcases r' with r' | r' | r' | r' | T' <;> try exact hres.elim
  · refine ⟨?_, trivial⟩
    have hbelow' : OthersBelow E.credential.peerSecrets log' p := by
      intro q hq hne
      have hlt : log.last q + log.forwardTolerance < 2 ^ 64 := hfit q hq hne
      have hle := hbehind q
      have hforward := hlog.forward_eq
      omega
    exact LinearScan.resolve_fst_of_agree hinj hlog hfit hbelow' hpid r r'
  · exact ⟨CounterTable.AgreeOn.resolve_eq hres hpid, hres⟩

/-- Opening a request with a pseudonym of the peer has the same outcome in states that agree on it,
and keeps them in agreement. -/
lemma AgreeOn.openRequest {S T : Server C} (h : AgreeOn p S T)
    (hinj : PseudonymsInjective C S.peers) (hS : S.Valid) (hfit : S.OthersFit p)
    {i : ServerEnv × Bytes} (hi : Carries C S.peers p i) :
    (S.openRequest i.1 i.2).1 = (T.openRequest i.1 i.2).1 ∧
      AgreeOn p (S.openRequest i.1 i.2).2 (T.openRequest i.1 i.2).2 ∧
      ∀ o, (S.openRequest i.1 i.2).1 = .ok o → o.peer = p := by
  obtain ⟨msg1, e, hparse, hpid⟩ := hi
  obtain ⟨hres, hagree⟩ := h.resolve hinj hfit hpid i.1.resolveReading
  obtain ⟨hcred, hbits, hlog, -, hbehind⟩ := h
  have hpeer : ∀ peer epoch,
      (S.resolver.resolve C S.peers S.sessionLog i.1.resolveReading msg1.pid).1 =
        .ok (peer, epoch) → peer = p := fun peer epoch hok =>
    (hinj (Resolver.Valid.resolve_sound hS hok) hpid).1
  unfold Server.openRequest resolvePseudonym
  rw [hparse]
  dsimp only
  rcases hx : S.resolver.resolve C S.peers S.sessionLog i.1.resolveReading msg1.pid with ⟨x, r⟩
  rcases hy : T.resolver.resolve C T.peers T.sessionLog i.1.resolveReading msg1.pid with ⟨y, r'⟩
  rw [hx] at hpeer
  rw [hx, hy] at hres hagree
  obtain rfl : x = y := hres
  rcases x with err | ⟨peer, epoch⟩
  · exact ⟨rfl, ⟨hcred, hbits, hlog, hagree, hbehind⟩, fun o ho => by cases ho⟩
  · obtain rfl := hpeer peer epoch rfl
    obtain ⟨hout, hlog'⟩ := verify_of_agree hcred hlog i.1.coverage msg1 epoch
    have hE := (verify_frame C S.entity S.sessionLog i.1.coverage msg1 peer epoch).1
    have hE' := (verify_frame C T.entity T.sessionLog i.1.coverage msg1 peer epoch).1
    refine ⟨hout, ⟨hE.trans (hcred.trans hE'.symm), hbits, hlog', ?_, fun q => ?_⟩, fun o ho => ?_⟩
    · unfold peers credential
      dsimp only
      rw [hE]
      exact hagree
    · dsimp only
      rw [last_verify, last_verify]
      exact hbehind q
    · obtain ⟨-, -, -, -, -, hpeer', -⟩ := verify_ok (Prod.ext ho rfl)
      exact hpeer'

/-- Accepting an epoch of the peer has the same outcome in states that agree on it, and keeps their
resolvers in agreement. -/
lemma AgreeOn.accept {S T : Server C} (h : AgreeOn p S T) (reading : ℚ) (epoch : ℤ) (nI : Bytes) :
    (S.resolver.accept C S.peers S.sessionLog reading p epoch nI).1 =
        (T.resolver.accept C T.peers T.sessionLog reading p epoch nI).1 ∧
      (S.resolver.accept C S.peers S.sessionLog reading p epoch nI).2.1.AgreeOn C S.peers p
        (T.resolver.accept C T.peers T.sessionLog reading p epoch nI).2.1 := by
  obtain ⟨E, nonceBits, log, r⟩ := S
  obtain ⟨E', nonceBits', log', r'⟩ := T
  obtain ⟨hcred, -, hlog, hres, -⟩ := h
  dsimp only [Server.peers, Server.credential] at *
  rw [← hcred]
  rcases r with r | r | r | r | T <;> rcases r' with r' | r' | r' | r' | T' <;> try exact hres.elim
  · exact ⟨rfl, trivial⟩
  · exact CounterTable.AgreeOn.accept hres hlog epoch

/-- Finishing a request of the peer has the same outcome in states that agree on it, and keeps them
in agreement. -/
lemma AgreeOn.finish {S T : Server C} (h : AgreeOn p S T) (env : ServerEnv) {o : Opened}
    (ho : o.peer = p) :
    (S.finish env o).1 = (T.finish env o).1 ∧ AgreeOn p (S.finish env o).2 (T.finish env o).2 := by
  subst ho
  obtain ⟨hout, hagree⟩ := h.accept env.acceptReading o.epoch o.nI
  obtain ⟨hcred, hbits, hlog, hres, hbehind⟩ := h
  obtain ⟨hS, hT⟩ := hres.separates
  have hlogS : (S.resolver.accept C S.peers S.sessionLog env.acceptReading o.peer o.epoch
      o.nI).2.2 = S.sessionLog.acceptEpoch o.peer o.epoch := Resolver.log_accept hS.isCounter
  have hlogT : (T.resolver.accept C T.peers T.sessionLog env.acceptReading o.peer o.epoch
      o.nI).2.2 = T.sessionLog.acceptEpoch o.peer o.epoch := Resolver.log_accept hT.isCounter
  have hbehind' : ∀ q, (T.sessionLog.acceptEpoch o.peer o.epoch).last q ≤
      (S.sessionLog.acceptEpoch o.peer o.epoch).last q := by
    intro q
    rw [SessionLog.last_acceptEpoch, SessionLog.last_acceptEpoch]
    split_ifs
    · rw [hlog.last_eq]
    · exact hbehind q
  unfold Server.finish
  rcases hx : S.resolver.accept C S.peers S.sessionLog env.acceptReading o.peer o.epoch o.nI with
    ⟨x, r, l⟩
  rcases hy : T.resolver.accept C T.peers T.sessionLog env.acceptReading o.peer o.epoch o.nI with
    ⟨y, r', l'⟩
  rw [hx] at hlogS
  rw [hy] at hlogT
  rw [hx, hy] at hout hagree
  obtain rfl : x = y := hout
  obtain rfl : l = S.sessionLog.acceptEpoch o.peer o.epoch := hlogS
  obtain rfl : l' = T.sessionLog.acceptEpoch o.peer o.epoch := hlogT
  rcases x with e | u
  · exact ⟨rfl, hcred, hbits, hlog.acceptEpoch o.epoch, hagree, hbehind'⟩
  · refine ⟨?_, hcred, hbits, (hlog.acceptEpoch o.epoch).recordSuccess, hagree, hbehind'⟩
    dsimp only
    rw [hcred, hbits]

/-- A request with a pseudonym of the peer has the same outcome in states that agree on it, and
keeps them in agreement. -/
theorem AgreeOn.step {S T : Server C} (h : AgreeOn p S T) (hinj : PseudonymsInjective C S.peers)
    (hS : S.Valid) (hfit : S.OthersFit p) {i : ServerEnv × Bytes} (hi : Carries C S.peers p i) :
    (S.step i).1 = (T.step i).1 ∧ AgreeOn p (S.step i).2 (T.step i).2 := by
  obtain ⟨hout, hagree, hpeer⟩ := h.openRequest hinj hS hfit hi
  unfold Server.step Server.handleAuthRequest
  rcases hx : S.openRequest i.1 i.2 with ⟨x, S'⟩
  rcases hy : T.openRequest i.1 i.2 with ⟨y, T'⟩
  rw [hx] at hpeer
  rw [hx, hy] at hout hagree
  obtain rfl : x = y := hout
  rcases x with e | o
  · exact ⟨rfl, hagree⟩
  · exact hagree.finish i.1 (hpeer o rfl)

/-! ## A request that is deleted -/

/-- Opening a request without a pseudonym of the peer leaves the log in agreement with itself on
it. -/
lemma agreeOn_openRequest {S : Server C} (hS : S.Valid) {i : ServerEnv × Bytes}
    (hi : ¬ Carries C S.peers p i) : (S.openRequest i.1 i.2).2.sessionLog.AgreeOn p S.sessionLog ∧
      ∀ o, (S.openRequest i.1 i.2).1 = .ok o → p ≠ o.peer := by
  have hother : ∀ msg1 peer epoch, Message1.fromBytes i.2 = .ok msg1 →
      (S.resolver.resolve C S.peers S.sessionLog i.1.resolveReading msg1.pid).1 =
        .ok (peer, epoch) → p ≠ peer := by
    rintro msg1 peer epoch hparse hres rfl
    exact hi ⟨msg1, epoch, hparse, Resolver.Valid.resolve_sound hS hres⟩
  constructor
  · rcases S.openRequest_log i.1 i.2 with heq | ⟨msg1, peer, epoch, hparse, hres, -, heq⟩
    · rw [heq]
      exact ⟨rfl, rfl, rfl, rfl, rfl, rfl⟩
    · rw [heq]
      exact SessionLog.agreeOn_recordFailure (hother msg1 peer epoch hparse hres)
  · intro o ho
    obtain ⟨⟨msg1, lam, plaintext, hopens, -⟩, -⟩ := openRequest_ok (Prod.ext ho rfl)
    exact hother msg1 o.peer o.epoch hopens.parsed hopens.resolved

/-- Resolving keeps a resolver in agreement with another one as it is. -/
lemma AgreeOn.resolve_left {peers : Dict String Lam} {r r' : Resolver}
    (h : r.AgreeOn C peers p r') (log : SessionLog) (reading : ℚ) (pid : Bytes) :
    (r.resolve C peers log reading pid).2.AgreeOn C peers p r' := by
  rcases r with r | r | r | r | T <;> rcases r' with r' | r' | r' | r' | T' <;> try exact h.elim
  · trivial
  · exact h

/-- Accepting an epoch of another peer keeps a resolver in agreement with another one as it is. -/
lemma AgreeOn.accept_left {peers : Dict String Lam} {r r' : Resolver} {log : SessionLog}
    {q : String} (hinj : PseudonymsInjective C peers) (hr : r.Valid C peers log)
    (h : r.AgreeOn C peers p r') (hq : p ≠ q) (reading : ℚ) (epoch : ℤ) (nI : Bytes) :
    (r.accept C peers log reading q epoch nI).2.1.AgreeOn C peers p r' := by
  rcases r with r | r | r | r | T <;> rcases r' with r' | r' | r' | r' | T' <;> try exact h.elim
  · trivial
  · exact (CounterTable.agreeOn_accept hinj hr hq epoch).trans h

/-- A request without a pseudonym of the peer keeps a state in agreement with another one as it
is. -/
theorem AgreeOn.delete {S T : Server C} (h : AgreeOn p S T) (hinj : PseudonymsInjective C S.peers)
    (hS : S.Valid) {i : ServerEnv × Bytes} (hi : ¬ Carries C S.peers p i) :
    AgreeOn p (S.step i).2 T := by
  obtain ⟨hcred, hbits⟩ := S.handleAuthRequest_frame i.1 i.2
  obtain ⟨hopen, hother⟩ := agreeOn_openRequest hS hi
  obtain ⟨hcred', -, hres, -⟩ := S.openRequest_frame i.1 i.2
  have hpeers : (S.openRequest i.1 i.2).2.peers = S.peers := congrArg Credential.peerSecrets hcred'
  have hresolver : (S.openRequest i.1 i.2).2.resolver.AgreeOn C S.peers p T.resolver := by
    rcases hres with heq | ⟨pid, heq⟩
    · rw [heq]
      exact h.resolver
    · rw [heq]
      exact AgreeOn.resolve_left h.resolver _ _ _
  have hparts : (S.handleAuthRequest i.1 i.2).2.sessionLog.AgreeOn p S.sessionLog ∧
      (S.handleAuthRequest i.1 i.2).2.resolver.AgreeOn C S.peers p T.resolver := by
    rcases S.handleAuthRequest_cases i.1 i.2 with ⟨e, -, heq⟩ | ⟨o, ho, heq⟩
    · rw [heq]
      exact ⟨hopen, hresolver⟩
    · have hq := hother o ho
      have hcounter := hresolver.separates.1.isCounter
      rw [heq]
      refine ⟨?_, ?_⟩
      · rcases sessionLog_finish (S.openRequest i.1 i.2).2 hcounter i.1 o with hlog | hlog
        · rw [hlog]
          exact (SessionLog.agreeOn_acceptEpoch hq o.epoch).trans hopen
        · rw [hlog]
          exact (SessionLog.agreeOn_recordSuccess hq).trans
            ((SessionLog.agreeOn_acceptEpoch hq o.epoch).trans hopen)
      · have hvalid : (S.openRequest i.1 i.2).2.resolver.Valid C S.peers
            (S.openRequest i.1 i.2).2.sessionLog := hpeers ▸ hS.openRequest i.1 i.2
        rw [((S.openRequest i.1 i.2).2.finish_frame i.1 o).2.2.1, hpeers]
        exact AgreeOn.accept_left hinj hvalid hresolver hq _ _ _
  refine ⟨hcred.trans h.credential_eq, hbits.trans h.nonceBits_eq, hparts.1.trans h.log, ?_, ?_⟩
  · unfold Server.step peers
    rw [hcred]
    exact hparts.2
  · intro q
    exact le_trans (h.behind q) (S.last_le_handleAuthRequest i.1 i.2 q)

/-! ## Runs -/

/-- A request changes neither the forward tolerance nor that the resolver is a linear scan. -/
lemma forwardTolerance_step (S : Server C) (i : ServerEnv × Bytes) :
    (S.step i).2.sessionLog.forwardTolerance = S.sessionLog.forwardTolerance ∧
      ∀ r, S.resolver = .linearScan r → ∃ r', (S.step i).2.resolver = .linearScan r' := by
  obtain ⟨-, -, hres, hlog⟩ := S.openRequest_frame i.1 i.2
  have hopen : (S.openRequest i.1 i.2).2.sessionLog.forwardTolerance =
      S.sessionLog.forwardTolerance := by
    rcases hlog with heq | ⟨peer, heq⟩
    · rw [heq]
    · rw [heq]
      exact SessionLog.recordFailure_frame.2.2.1
  have hlinear : ∀ r, S.resolver = .linearScan r →
      ∃ r', (S.openRequest i.1 i.2).2.resolver = .linearScan r' := by
    intro r hr
    rcases hres with heq | ⟨pid, heq⟩
    · exact ⟨r, heq.trans hr⟩
    · rw [hr] at heq
      exact ⟨_, heq⟩
  unfold Server.step
  rcases S.handleAuthRequest_cases i.1 i.2 with ⟨e, -, heq⟩ | ⟨o, -, heq⟩
  · rw [heq]
    exact ⟨hopen, hlinear⟩
  · rw [heq]
    constructor
    · have hacc : ((S.openRequest i.1 i.2).2.resolver.accept C (S.openRequest i.1 i.2).2.peers
          (S.openRequest i.1 i.2).2.sessionLog i.1.acceptReading o.peer o.epoch
          o.nI).2.2.forwardTolerance = S.sessionLog.forwardTolerance := by
        rcases Resolver.log_accept_cases with hkeep | haccept
        · rw [hkeep, hopen]
        · rw [haccept, SessionLog.acceptEpoch_frame.2.1, hopen]
      unfold Server.finish
      split <;> rename_i hfinish
      · rw [hfinish] at hacc
        exact hacc
      · rw [hfinish] at hacc
        exact hacc
    · intro r hr
      obtain ⟨r', hr'⟩ := hlinear r hr
      rw [((S.openRequest i.1 i.2).2.finish_frame i.1 o).2.2.1, hr']
      exact ⟨r', rfl⟩

/-- No request brings the windows of the other peers back below the bound. -/
lemma othersFit_of_step {S : Server C} {i : ServerEnv × Bytes} (h : (S.step i).2.OthersFit p) :
    S.OthersFit p := by
  obtain ⟨hforward, hlinear⟩ := S.forwardTolerance_step i
  have hpeers : (S.step i).2.peers = S.peers :=
    congrArg Credential.peerSecrets (S.handleAuthRequest_frame i.1 i.2).1
  unfold OthersFit
  split <;> rename_i r hr
  · obtain ⟨r', hr'⟩ := hlinear r hr
    unfold OthersFit at h
    rw [hr', hpeers] at h
    intro q hq hne
    have hlt : (S.step i).2.sessionLog.last q + (S.step i).2.sessionLog.forwardTolerance < 2 ^ 64 :=
      h q hq hne
    have hle : S.sessionLog.last q ≤ (S.step i).2.sessionLog.last q :=
      S.last_le_handleAuthRequest i.1 i.2 q
    rw [hforward] at hlt
    omega
  · trivial

/-- The outcomes of the requests with a pseudonym of the peer. -/
def outcomesFor (C : Crypto) (peers : Dict String Lam) (p : String)
    [DecidablePred (Carries C peers p)] :
    Server C → List (ServerEnv × Bytes) → List (Except Exc AuthResult) :=
  Machine.events (fun S i => if Carries C peers p i then some (S.step i).1 else none) step

/-- Two states in which a peer is known alike: the same last accepted epoch, failures and block
status, and the same pseudonyms that resolve to it. -/
structure KnowsAlike (p : String) (S T : Server C) : Prop where
  last_eq : S.sessionLog.last p = T.sessionLog.last p
  failures_eq : S.sessionLog.failures p = T.sessionLog.failures p
  blocked_eq : S.sessionLog.isBlocked p = T.sessionLog.isBlocked p
  resolve_iff : ∀ env pid e, (S.resolvePseudonym env pid).1 = .ok (p, e) ↔
    (T.resolvePseudonym env pid).1 = .ok (p, e)

/-- States that agree on a peer know it alike, as long as the windows of the other peers have 64
bits.
-/
lemma AgreeOn.knowsAlike {S T : Server C} (h : AgreeOn p S T)
    (hinj : PseudonymsInjective C S.peers) (hS : S.Valid) (hT : T.Valid) (hfit : S.OthersFit p) :
    KnowsAlike p S T := by
  refine ⟨h.log.last_eq, h.log.failures_eq, h.log.blocked_eq, fun env pid e => ?_⟩
  have hpeers : S.peers = T.peers := congrArg Credential.peerSecrets h.credential_eq
  constructor
  · intro hok
    have hpid : Names C S.peers pid p e := Resolver.Valid.resolve_sound hS hok
    exact (h.resolve hinj hfit hpid env.resolveReading).1.symm.trans hok
  · intro hok
    have hpid : Names C T.peers pid p e := Resolver.Valid.resolve_sound hT hok
    rw [← hpeers] at hpid
    exact (h.resolve hinj hfit hpid env.resolveReading).1.trans hok

/-- Deleting the requests without a pseudonym of the peer. -/
theorem delete_others {S : Server C} {cred : Credential Lam Bytes} {nonceBits : ℕ}
    (hS : S.Valid ∧ S.credential = cred ∧ S.nonceBits = nonceBits) (hsep : S.resolver.Separates)
    (hinj : PseudonymsInjective C cred.peerSecrets) [DecidablePred (Carries C cred.peerSecrets p)]
    {is : List (ServerEnv × Bytes)} (hfit : (Machine.final step S is).OthersFit p) :
    outcomesFor C cred.peerSecrets p S is =
        (Machine.trace step S (is.filter (Carries C cred.peerSecrets p))).map Prod.fst ∧
      KnowsAlike p (Machine.final step S is)
        (Machine.final step S (is.filter (Carries C cred.peerSecrets p))) := by
  let Related (S T : Server C) : Prop :=
    (S.Valid ∧ S.credential = cred ∧ S.nonceBits = nonceBits) ∧ AgreeOn p S T
  have hself : Related S S :=
    ⟨hS, rfl, rfl, ⟨rfl, rfl, rfl, rfl, rfl, rfl⟩, Resolver.agreeOn_refl hsep _ _ _,
      fun _ => le_refl _⟩
  have hinj' : ∀ S : Server C, S.credential = cred → PseudonymsInjective C S.peers := by
    intro S hcred
    rw [peers, hcred]
    exact hinj
  have hkeep : ∀ S T i, Related S T → S.OthersFit p → Carries C cred.peerSecrets p i →
      (S.step i).1 = (T.step i).1 ∧ Related (S.step i).2 (T.step i).2 := by
    rintro S T i ⟨hS, hagree⟩ hfit hi
    rw [← hS.2.1] at hi
    obtain ⟨hout, hnext⟩ := hagree.step (hinj' S hS.2.1) hS.1 hfit hi
    exact ⟨hout, Valid.step hS i, hnext⟩
  have hdelete : ∀ S T i, Related S T → S.OthersFit p → ¬ Carries C cred.peerSecrets p i →
      Related (S.step i).2 T := by
    rintro S T i ⟨hS, hagree⟩ - hi
    rw [← hS.2.1] at hi
    exact ⟨Valid.step hS i, hagree.delete (hinj' S hS.2.1) hS.1 hi⟩
  have hfits := (Machine.allSteps_of_final (fun _ _ => othersFit_of_step) hfit).2
  obtain ⟨houts, hfinal, hagree⟩ := Machine.delete_inputs hkeep hdelete hself hfits
  exact ⟨houts, hagree.knowsAlike (hinj' _ hfinal.2.1) hfinal.1 (Valid.final hS _).1 hfit⟩

/-- Knowing a peer alike is symmetric. -/
lemma KnowsAlike.symm {S T : Server C} (h : KnowsAlike p S T) : KnowsAlike p T S :=
  ⟨h.last_eq.symm, h.failures_eq.symm, h.blocked_eq.symm, fun env pid e =>
    (h.resolve_iff env pid e).symm⟩

/-- Knowing a peer alike is transitive. -/
lemma KnowsAlike.trans {S T U : Server C} (h : KnowsAlike p S T) (h' : KnowsAlike p T U) :
    KnowsAlike p S U :=
  ⟨h.last_eq.trans h'.last_eq, h.failures_eq.trans h'.failures_eq,
    h.blocked_eq.trans h'.blocked_eq, fun env pid e =>
      (h.resolve_iff env pid e).trans (h'.resolve_iff env pid e)⟩

/-- From every reachable state of a server with a linear scan or a counter table, and for every
peer: deleting the requests without a pseudonym of the peer changes neither the outcomes of the
others nor how the peer is known; so two runs with the same requests of the peer are alike for it,
and a run without any leaves it as it was.  With a linear scan the windows of the other peers have
to keep within 64 bits. -/
theorem peers_independent {cred : Credential Lam Bytes} {nonceBits : ℕ} {S : Server C}
    (hS : Reachable cred nonceBits S) (hsep : S.resolver.Separates)
    (hinj : PseudonymsInjective C cred.peerSecrets) (p : String)
    [DecidablePred (Carries C cred.peerSecrets p)] :
    (∀ is, (Machine.final step S is).OthersFit p →
      outcomesFor C cred.peerSecrets p S is =
          (Machine.trace step S (is.filter (Carries C cred.peerSecrets p))).map Prod.fst ∧
        KnowsAlike p (Machine.final step S is)
          (Machine.final step S (is.filter (Carries C cred.peerSecrets p)))) ∧
    (∀ is js, (Machine.final step S is).OthersFit p → (Machine.final step S js).OthersFit p →
      is.filter (Carries C cred.peerSecrets p) = js.filter (Carries C cred.peerSecrets p) →
      outcomesFor C cred.peerSecrets p S is = outcomesFor C cred.peerSecrets p S js ∧
        KnowsAlike p (Machine.final step S is) (Machine.final step S js)) ∧
    ∀ is, (Machine.final step S is).OthersFit p → (∀ i ∈ is, ¬ Carries C cred.peerSecrets p i) →
      KnowsAlike p S (Machine.final step S is) := by
  have hdelete := fun is (hfit : (Machine.final step S is).OthersFit p) =>
    delete_others hS.valid hsep hinj hfit
  refine ⟨hdelete, fun is js hfit hfit' hsame => ?_, fun is hfit hnone => ?_⟩
  · obtain ⟨houts, hknows⟩ := hdelete is hfit
    obtain ⟨houts', hknows'⟩ := hdelete js hfit'
    rw [hsame] at houts hknows
    exact ⟨houts.trans houts'.symm, hknows.trans hknows'.symm⟩
  · have hempty : is.filter (Carries C cred.peerSecrets p) = [] := by
      rw [List.filter_eq_nil_iff]
      intro i hi
      simpa using hnone i hi
    obtain ⟨-, hknows⟩ := hdelete is hfit
    rw [hempty] at hknows
    exact hknows.symm

/-! ## Two devices -/

/-- Under the plain suite no pseudonym names two of these devices. -/
lemma pseudonymsInjective_serverOfTwo :
    PseudonymsInjective .plain serverOfTwo.peerSecrets := by
  apply pseudonymsInjective_plain
  intro q q' lam lam' hlam hlam' hlow
  rcases get_serverOfTwo hlam with ⟨rfl, rfl⟩ | ⟨rfl, rfl⟩ <;>
    rcases get_serverOfTwo hlam' with ⟨rfl, rfl⟩ | ⟨rfl, rfl⟩
  · rfl
  · exact absurd hlow (by decide)
  · exact absurd hlow (by decide)
  · rfl

/-- The server with a linear scan, whose first device has reached an epoch so high that its window
ends with the last epoch of 64 bits. -/
def nearlyExhausted : Server .plain :=
  ⟨{ credential := serverOfTwo }, 128, SessionLog.acceptEpoch {} "device-2" (2 ^ 64 - 9),
    .linearScan {}⟩

/-- That server was created over its log. -/
lemma reachable_nearlyExhausted : Reachable serverOfTwo 128 nearlyExhausted :=
  ⟨_, .linearScan {}, 0, nearlyExhausted, [], rfl, rfl⟩

/-- The request of the second device, of secret 3, that moves its window beyond 64 bits. -/
def lastRequest : ServerEnv × Bytes :=
  (.read 0 0, (plainMessage (3 : Lam).val (2 ^ 64 - 8)).toBytes)

/-- The first request of the first device, of secret 1. -/
def firstRequest : ServerEnv × Bytes := (.read 0 0, (plainMessage (1 : Lam).val 0).toBytes)

/-- A request of one of the two devices carries a pseudonym of that device and of no other one. -/
lemma carries_plainRequest {peer : String} {lam : Lam} {epoch : ℕ}
    (hlam : serverOfTwo.peerSecrets.get peer = some lam)
    (hpid : h2Pseudonym .plain lam epoch = .ok (plainMessage lam.val epoch).pid) (q : String) :
    Carries .plain serverOfTwo.peerSecrets q (plainRequest lam epoch) ↔ q = peer := by
  have hnames : Names .plain serverOfTwo.peerSecrets (plainMessage lam.val epoch).pid peer epoch :=
    ⟨lam, hlam, hpid⟩
  constructor
  · rintro ⟨msg1, e, hparse, hother⟩
    have hmessage : Message1.fromBytes (plainMessage lam.val epoch).toBytes = .ok msg1 := hparse
    rw [Message1.fromBytes_toBytes] at hmessage
    obtain rfl := Except.ok.inj hmessage
    exact (pseudonymsInjective_serverOfTwo hother hnames).1
  · rintro rfl
    exact ⟨_, epoch, Message1.fromBytes_toBytes _, hnames⟩

/-- The window of the second device has 64 bits. -/
lemma othersFit_serverOfTwo {S : Server .plain} (hcred : S.credential = serverOfTwo)
    (h : S.sessionLog.last "device-2" + S.sessionLog.forwardTolerance < 2 ^ 64) :
    S.OthersFit "device-1" := by
  unfold OthersFit
  split
  · intro q hq hne
    rw [peers, hcred] at hq
    obtain ⟨lam, hlam⟩ := Dict.mem_keys_iff.mp hq
    rcases get_serverOfTwo hlam with ⟨hq, -⟩ | ⟨hq, -⟩
    · exact absurd hq hne
    · rw [hq]
      exact h
  · trivial

open Classical in
/-- The request of the second device between two of the first one changes neither their outcomes nor
how the server knows the first device. -/
theorem peers_independent_threeRequests : ∃ a c : AuthResult,
    outcomesFor .plain serverOfTwo.peerSecrets "device-1" scanningTwo threeRequests =
        [.ok a, .ok c] ∧
      (Machine.trace step scanningTwo [plainRequest 1 0, plainRequest 1 1]).map Prod.fst =
        [.ok a, .ok c] ∧
      KnowsAlike "device-1" (Machine.final step scanningTwo threeRequests)
        (Machine.final step scanningTwo [plainRequest 1 0, plainRequest 1 1]) := by
  obtain ⟨a, b, c, ⟨ha, -⟩, -, ⟨hc, -⟩, hcred, hlast, htolerance⟩ := answered_threeRequests
  have hreachable : Reachable serverOfTwo 128 scanningTwo :=
    ⟨{}, .linearScan {}, 0, scanningTwo, [], rfl, rfl⟩
  have hone : serverOfTwo.peerSecrets.get "device-1" = some 1 := rfl
  have htwo : serverOfTwo.peerSecrets.get "device-2" = some 3 := rfl
  have hfirst : Carries .plain serverOfTwo.peerSecrets "device-1" (plainRequest 1 0) :=
    (carries_plainRequest hone (toOption_eq_some_iff.mp (by decide +kernel)) _).mpr rfl
  have hthird : Carries .plain serverOfTwo.peerSecrets "device-1" (plainRequest 1 1) :=
    (carries_plainRequest hone (toOption_eq_some_iff.mp (by decide +kernel)) _).mpr rfl
  have hsecond : ¬ Carries .plain serverOfTwo.peerSecrets "device-1" (plainRequest 3 0) := by
    rw [carries_plainRequest htwo (toOption_eq_some_iff.mp (by decide +kernel))]
    decide
  have hsep : scanningTwo.resolver.Separates := trivial
  have hall :=
    (peers_independent hreachable hsep pseudonymsInjective_serverOfTwo "device-1").1 threeRequests
  have hkeep : threeRequests.filter (Carries .plain serverOfTwo.peerSecrets "device-1") =
      [plainRequest 1 0, plainRequest 1 1] := by
    rw [threeRequests, List.filter_cons_of_pos (by simpa using hfirst),
      List.filter_cons_of_neg (by simpa using hsecond),
      List.filter_cons_of_pos (by simpa using hthird), List.filter_nil]
  have hseen : outcomesFor .plain serverOfTwo.peerSecrets "device-1" scanningTwo threeRequests =
      [.ok a, .ok c] := by
    simp only [outcomesFor, threeRequests, Machine.events, if_pos hfirst, if_neg hsecond,
      if_pos hthird, ha.result_eq, hc.result_eq, Option.toList_some, Option.toList_none,
      List.singleton_append, List.nil_append]
  generalize Machine.final step scanningTwo threeRequests = S at hcred hlast htolerance hall ⊢
  obtain ⟨houts, hknows⟩ := hall (othersFit_serverOfTwo hcred (by rw [hlast, htolerance]; norm_num))
  rw [hkeep] at houts hknows
  exact ⟨a, c, hseen, houts.symm.trans hseen, hknows⟩

/-- Only the first request carries a pseudonym of the first device. -/
lemma carries_firstRequest :
    ¬ Carries .plain serverOfTwo.peerSecrets "device-1" lastRequest ∧
      Carries .plain serverOfTwo.peerSecrets "device-1" firstRequest := by
  have hone : serverOfTwo.peerSecrets.get "device-1" = some 1 := rfl
  have htwo : serverOfTwo.peerSecrets.get "device-2" = some 3 := rfl
  have hlast : Carries .plain serverOfTwo.peerSecrets "device-1" (plainRequest 3 (2 ^ 64 - 8)) ↔
      "device-1" = "device-2" :=
    carries_plainRequest htwo (toOption_eq_some_iff.mp (by decide +kernel)) _
  have hfirst : Carries .plain serverOfTwo.peerSecrets "device-1" (plainRequest 1 0) :=
    (carries_plainRequest hone (toOption_eq_some_iff.mp (by decide +kernel)) _).mpr rfl
  exact ⟨fun h => absurd (hlast.mp h) (by decide), hfirst⟩

/-- The first request of the first device is answered. -/
lemma answered_firstRequest : ∃ res, (nearlyExhausted.step firstRequest).1 = .ok res := by
  have hopens : nearlyExhausted.Opens (.read 0 0) (plainMessage (1 : Lam).val 0).toBytes
      (plainOpened "device-1" 1 0) (plainMessage (1 : Lam).val 0) 1
      (plainMessage (1 : Lam).val 0).ciphertext :=
    opens_plainMessage rfl rfl (by decide) (toOption_eq_some_iff.mp (by decide +kernel)) rfl
  obtain ⟨hacc, -⟩ := hopens.acceptance_eq (by decide) (by decide) rfl
    (toOption_eq_some_iff.mp (by decide +kernel))
  exact (acceptance_eq_some.mp hacc).2.2

/-- After the last request of the second device, the scan of its window reaches the epoch
`2 ^ 64`. -/
lemma unresolved_firstRequest : ∃ e, ((nearlyExhausted.step lastRequest).2.resolver.resolve .plain
    (nearlyExhausted.step lastRequest).2.peers (nearlyExhausted.step lastRequest).2.sessionLog 0
    (plainMessage (1 : Lam).val 0).pid).1 = .error e := by
  have hopens : nearlyExhausted.Opens (.read 0 0) (plainMessage (3 : Lam).val (2 ^ 64 - 8)).toBytes
      (plainOpened "device-2" 3 (2 ^ 64 - 8)) (plainMessage (3 : Lam).val (2 ^ 64 - 8)) 3
      (plainMessage (3 : Lam).val (2 ^ 64 - 8)).ciphertext :=
    opens_plainMessage rfl rfl (by decide) (toOption_eq_some_iff.mp (by decide +kernel)) rfl
  obtain ⟨-, hcred, -, hlog, hres⟩ := hopens.acceptance_eq (by decide) (by decide) rfl
    (toOption_eq_some_iff.mp (by decide +kernel))
  have hstep : nearlyExhausted.handleAuthRequest (.read 0 0)
      (plainMessage (3 : Lam).val (2 ^ 64 - 8)).toBytes = nearlyExhausted.step lastRequest := rfl
  rw [hstep] at hcred hlog hres
  generalize (nearlyExhausted.step lastRequest).2 = S at hcred hlog hres ⊢
  have hfail : raised? (S.resolver.resolve .plain S.peers S.sessionLog 0
      (plainMessage (1 : Lam).val 0).pid).1 = some .structError := by
    rw [peers, hcred, hlog, hres]
    decide +kernel
  obtain ⟨e, he, -⟩ := raised?_eq_some_iff.mp hfail
  exact ⟨e, he⟩

/-- Without the condition on the windows the requests of one device decide about another one: the
first request of the first device is answered, but after a request of the second device it is
not. -/
theorem lastRequest_stops_firstRequest :
    Reachable serverOfTwo 128 nearlyExhausted ∧ nearlyExhausted.resolver.Separates ∧
      PseudonymsInjective .plain serverOfTwo.peerSecrets ∧
      ¬ Carries .plain serverOfTwo.peerSecrets "device-1" lastRequest ∧
      Carries .plain serverOfTwo.peerSecrets "device-1" firstRequest ∧
      (∃ res, (nearlyExhausted.step firstRequest).1 = .ok res) ∧
      ∃ e, ((nearlyExhausted.step lastRequest).2.step firstRequest).1 = .error e := by
  refine ⟨reachable_nearlyExhausted, trivial, pseudonymsInjective_serverOfTwo,
    carries_firstRequest.1, carries_firstRequest.2, answered_firstRequest, ?_⟩
  obtain ⟨e, he⟩ := unresolved_firstRequest
  exact ⟨e, handleAuthRequest_of_not_opened
    (openRequest_of_unresolved (Message1.fromBytes_toBytes _) he)⟩

end Server

end HybridEccAuth

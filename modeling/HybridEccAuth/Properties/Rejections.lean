import HybridEccAuth.Properties.CrashFreedom

/-!
# Rejections

A request that a server with counter epochs does not answer consumes nothing
(`Server.Unconsumed`): no last accepted epoch, no entry of the table, and no pseudonym
that resolves.  It counts at most one failure, against the peer that the pseudonym
resolved to, and blocks that peer exactly when the count reaches the limit
(`Server.CountsFailure`).  So a request that would be answered now is answered after any
rejections that do not block its peer.
-/

namespace HybridEccAuth

/-- The gates and the checks record at most one failure, of a peer that was not blocked. -/
lemma verify_log {C : Crypto} {E : Entity C} {log : SessionLog} {coverage : String → Bool}
    {msg1 : Message1} {peer : String} {epoch : ℤ} :
    (verify C E log coverage msg1 peer epoch).2.2 = log ∨ log.isBlocked peer = false ∧
      (verify C E log coverage msg1 peer epoch).2.2 = (log.recordFailure peer).2 := by
  by_cases hblocked : log.isBlocked peer = true
  · left
    rw [verify, if_pos hblocked]
  · rw [Bool.not_eq_true] at hblocked
    obtain ⟨-, heq | heq⟩ := verify_frame C E log coverage msg1 peer epoch
    · exact Or.inl heq
    · exact Or.inr ⟨hblocked, heq⟩

namespace Server

variable {C : Crypto}

/-- A later state in which nothing was consumed: the same last accepted epochs, the same table, and
every pseudonym resolves as before. -/
structure Unconsumed (S S' : Server C) : Prop where
  credential_eq : S'.credential = S.credential
  nonceBits_eq : S'.nonceBits = S.nonceBits
  epochs_eq : S'.sessionLog.lastAcceptedEpoch = S.sessionLog.lastAcceptedEpoch
  forward_eq : S'.sessionLog.forwardTolerance = S.sessionLog.forwardTolerance
  back_eq : S'.sessionLog.replayLookback = S.sessionLog.replayLookback
  max_eq : S'.sessionLog.maxAttempts = S.sessionLog.maxAttempts
  table_eq : ∀ r, S.resolver = .counterTable r → S'.resolver = .counterTable r
  resolve_eq : ∀ reading reading' pid,
    (S'.resolver.resolve C S'.peers S'.sessionLog reading' pid).1 =
      (S.resolver.resolve C S.peers S.sessionLog reading pid).1

/-- The failures and the block-list after a request that was not answered: as before, or with one
more failure of the peer that the pseudonym of the request resolved to. -/
def CountsFailure (S S' : Server C) (i : ServerEnv × Bytes) : Prop :=
  ((∀ p, S'.sessionLog.failures p = S.sessionLog.failures p) ∧
    S'.sessionLog.blocked = S.sessionLog.blocked) ∨
  ∃ msg1 peer epoch, Message1.fromBytes i.2 = .ok msg1 ∧
    (S.resolver.resolve C S.peers S.sessionLog i.1.resolveReading msg1.pid).1 = .ok (peer, epoch) ∧
    S'.sessionLog.failures peer = S.sessionLog.failures peer + 1 ∧
    (∀ p, p ≠ peer → S'.sessionLog.failures p = S.sessionLog.failures p) ∧
    S'.sessionLog.blocked = if S.sessionLog.maxAttempts ≤ S'.sessionLog.failures peer then
      insert peer S.sessionLog.blocked else S.sessionLog.blocked

/-- Nothing was consumed by two steps, if nothing was by either. -/
lemma Unconsumed.trans {S S' S'' : Server C} (h : Unconsumed S S') (h' : Unconsumed S' S'') :
    Unconsumed S S'' where
  credential_eq := h'.credential_eq.trans h.credential_eq
  nonceBits_eq := h'.nonceBits_eq.trans h.nonceBits_eq
  epochs_eq := h'.epochs_eq.trans h.epochs_eq
  forward_eq := h'.forward_eq.trans h.forward_eq
  back_eq := h'.back_eq.trans h.back_eq
  max_eq := h'.max_eq.trans h.max_eq
  table_eq r hr := h'.table_eq r (h.table_eq r hr)
  resolve_eq reading reading' pid :=
    (h'.resolve_eq reading reading' pid).trans (h.resolve_eq reading reading pid)

/-- Nothing is consumed when nothing happens. -/
lemma Unconsumed.refl {S : Server C} (hcounter : S.resolver.IsCounter) : Unconsumed S S :=
  ⟨rfl, rfl, rfl, rfl, rfl, rfl, fun _ hr => hr, fun _ _ _ =>
    Resolver.resolve_fst_congr hcounter (fun _ => rfl) rfl rfl _⟩

/-- What opening a request leaves of the log, and for whom it records a failure. -/
lemma openRequest_log (S : Server C) (env : ServerEnv) (data : Bytes) :
    (S.openRequest env data).2.sessionLog = S.sessionLog ∨ ∃ msg1 peer epoch,
      Message1.fromBytes data = .ok msg1 ∧
      (S.resolver.resolve C S.peers S.sessionLog env.resolveReading msg1.pid).1 =
        .ok (peer, epoch) ∧ S.sessionLog.isBlocked peer = false ∧
      (S.openRequest env data).2.sessionLog = (S.sessionLog.recordFailure peer).2 := by
  unfold openRequest
  rcases hparse : Message1.fromBytes data with e | msg1
  · exact Or.inl rfl
  dsimp only
  unfold resolvePseudonym
  rcases hres : S.resolver.resolve C S.peers S.sessionLog env.resolveReading msg1.pid with
    ⟨e | ⟨peer, epoch⟩, r⟩
  · exact Or.inl rfl
  dsimp only
  rcases verify_log with heq | ⟨hblocked, heq⟩
  · exact Or.inl heq
  · exact Or.inr ⟨msg1, peer, epoch, rfl, by rw [hres], hblocked, heq⟩

/-- Opening a request consumes nothing, and counts at most one failure. -/
theorem unconsumed_openRequest {S : Server C} (hcounter : S.resolver.IsCounter) (env : ServerEnv)
    (data : Bytes) : Unconsumed S (S.openRequest env data).2 ∧
      CountsFailure S (S.openRequest env data).2 (env, data) := by
  obtain ⟨hcred, hbits, hres, -⟩ := S.openRequest_frame env data
  have hlog := S.openRequest_log env data
  have hkeep : (S.openRequest env data).2.sessionLog.lastAcceptedEpoch =
        S.sessionLog.lastAcceptedEpoch ∧
      (S.openRequest env data).2.sessionLog.maxAttempts = S.sessionLog.maxAttempts ∧
      (S.openRequest env data).2.sessionLog.forwardTolerance = S.sessionLog.forwardTolerance ∧
      (S.openRequest env data).2.sessionLog.replayLookback = S.sessionLog.replayLookback := by
    rcases hlog with heq | ⟨msg1, peer, epoch, -, -, -, heq⟩
    · rw [heq]
      exact ⟨rfl, rfl, rfl, rfl⟩
    · rw [heq]
      exact SessionLog.recordFailure_frame
  obtain ⟨hepochs, hmax, hforward, hback⟩ := hkeep
  have hlast := SessionLog.last_congr hepochs
  refine ⟨⟨hcred, hbits, hepochs, hforward, hback, hmax, ?_, ?_⟩, ?_⟩
  · intro r hr
    rcases hres with heq | ⟨pid, heq⟩
    · rw [heq, hr]
    · rw [heq, hr]
      rfl
  · intro reading reading' pid
    unfold peers
    rw [hcred]
    rcases hres with heq | ⟨pid', heq⟩
    · rw [heq]
      exact Resolver.resolve_fst_congr hcounter hlast hforward hback _
    · rw [heq]
      exact Resolver.resolve_resolve hcounter hlast hforward hback _ _ _
  · rcases hlog with heq | ⟨msg1, peer, epoch, hparse, hresolve, hblocked, heq⟩
    · left
      rw [heq]
      exact ⟨fun _ => rfl, rfl⟩
    · right
      refine ⟨msg1, peer, epoch, hparse, hresolve, ?_, fun p hp => ?_, ?_⟩
      · rw [heq, SessionLog.failures_recordFailure hblocked, if_pos rfl]
      · rw [heq, SessionLog.failures_recordFailure hblocked, if_neg hp]
      · rw [heq, SessionLog.failures_recordFailure hblocked, if_pos rfl,
          SessionLog.blocked_recordFailure hblocked]

/-- With counter epochs, a request that is opened is answered, if the epochs afterwards have 64
bits. -/
lemma Valid.answered_of_opened {S : Server C} (hS : S.Valid)
    (hbits : S.nonceBits ∈ supportedNonceBits) (hcounter : S.resolver.IsCounter) {env : ServerEnv}
    {data : Bytes} {o : Opened} (hopen : (S.openRequest env data).1 = .ok o)
    (hfit : (S.handleAuthRequest env data).2.EpochsFit) :
    ∃ res, (S.handleAuthRequest env data).1 = .ok res := by
  obtain ⟨hpeer, -, ⟨res, hres⟩, hfit'⟩ := hS.finish_of_opened hbits hopen
  have hcounter' := (S.isCounter_openRequest env data).mpr hcounter
  refine ⟨res, ?_⟩
  rw [hres, Resolver.accept_ok hcounter' hpeer (hfit'.mp hfit)]
  rfl

/-- A request of a server with counter epochs that is not answered consumes nothing, and counts at
most one failure. -/
theorem Valid.unconsumed {S : Server C} (hS : S.Valid) (hbits : S.nonceBits ∈ supportedNonceBits)
    (hcounter : S.resolver.IsCounter) {i : ServerEnv × Bytes} (hfit : (S.step i).2.EpochsFit)
    {e : Exc} (herr : (S.step i).1 = .error e) :
    Unconsumed S (S.step i).2 ∧ CountsFailure S (S.step i).2 i := by
  unfold Server.step at hfit herr ⊢
  rcases S.handleAuthRequest_cases i.1 i.2 with ⟨e', -, heq⟩ | ⟨o, hopen, -⟩
  · rw [heq]
    exact unconsumed_openRequest hcounter i.1 i.2
  · obtain ⟨res, hok⟩ := hS.answered_of_opened hbits hcounter hopen hfit
    rw [hok] at herr
    cases herr

/-! ## Runs of rejections -/

/-- A request that raises, after which the epochs have 64 bits. -/
def Rejects (S : Server C) (i : ServerEnv × Bytes) : Prop :=
  (S.step i).2.EpochsFit ∧ ∃ e, (S.step i).1 = .error e

/-- A request that meets the premises and raises is rejected. -/
lemma Fits.rejects {S : Server C} {i : ServerEnv × Bytes} (h : S.Fits i) {e : Exc}
    (herr : (S.handleAuthRequest i.1 i.2).1 = .error e) : Rejects S i :=
  ⟨h.2.2, e, herr⟩

/-- A run of rejections consumes nothing. -/
theorem Valid.unconsumed_final {S : Server C} (hS : S.Valid)
    (hbits : S.nonceBits ∈ supportedNonceBits) (hcounter : S.resolver.IsCounter)
    {is : List (ServerEnv × Bytes)} (hrej : Machine.AllSteps Server.step Rejects S is) :
    (Machine.final Server.step S is).Valid ∧
      (Machine.final Server.step S is).resolver.IsCounter ∧
      Unconsumed S (Machine.final Server.step S is) := by
  have hstep : ∀ S' i, (S'.Valid ∧ S'.resolver.IsCounter ∧ Unconsumed S S') → Rejects S' i →
      ((S'.step i).2.Valid ∧ (S'.step i).2.resolver.IsCounter ∧ Unconsumed S (S'.step i).2) := by
    rintro S' i ⟨hvalid, hcounter', hun⟩ ⟨hfit, e, herr⟩
    refine ⟨hvalid.handleAuthRequest i.1 i.2, ?_, ?_⟩
    · exact (S'.isCounter_handleAuthRequest i.1 i.2).mpr hcounter'
    · exact hun.trans (hvalid.unconsumed (hun.nonceBits_eq.symm ▸ hbits) hcounter' hfit herr).1
  exact Machine.invariant_final hstep ⟨hS, hcounter, Unconsumed.refl hcounter⟩ hrej

/-- What a request that was opened is opened as does not change while nothing is consumed and its
peer is not blocked. -/
lemma Opens.of_unconsumed {S S' : Server C} {env : ServerEnv} {data : Bytes} {o : Opened}
    {msg1 : Message1} {lam : Lam} {plaintext : Bytes} (h : S.Opens env data o msg1 lam plaintext)
    (hun : Unconsumed S S') (hblocked : S'.sessionLog.isBlocked o.peer = false) :
    S'.Opens env data o msg1 lam plaintext where
  parsed := h.parsed
  resolved := (hun.resolve_eq _ _ _).trans h.resolved
  pid_eq := h.pid_eq
  unblocked := hblocked
  covered := h.covered
  lam_eq := (congrArg (fun c => (Credential.peerSecrets c).get o.peer) hun.credential_eq).trans
    h.lam_eq
  kStar_eq := by rw [h.kStar_eq, hun.credential_eq]
  decrypted := h.decrypted
  pid_plaintext := h.pid_plaintext
  epoch_plaintext := h.epoch_plaintext
  nI_eq := h.nI_eq

/-- A request that would be answered is answered, and alike, after nothing was consumed, as long as
its peer is not blocked. -/
theorem Valid.answered_of_unconsumed {S S' : Server C} (hS' : S'.Valid)
    (hbits : S.nonceBits ∈ supportedNonceBits) (hcounter : S'.resolver.IsCounter)
    (hun : Unconsumed S S') {i : ServerEnv × Bytes} {res : AuthResult}
    (hok : (S.step i).1 = .ok res) (hfit : (S'.step i).2.EpochsFit)
    (hblocked : S'.sessionLog.isBlocked res.peerIdentity = false) : (S'.step i).1 = .ok res := by
  obtain ⟨o, msg1, lam, plaintext, -, hopens, hresp, -⟩ := handleAuthRequest_ok (Prod.ext hok rfl)
  have hkey : o.kStar.length = keyLen := by
    rw [hopens.kStar_eq]
    exact Credential.length_pairwiseRoot C _ lam
  have hpeer : res.peerIdentity = o.peer := by
    rw [respond_eq hbits (respond_ok hresp).2 hkey] at hresp
    exact (congrArg AuthResult.peerIdentity (Except.ok.inj hresp)).symm
  rw [hpeer] at hblocked
  have hopens' := hopens.of_unconsumed hun hblocked
  obtain ⟨E, -, hopen⟩ := hopens'.openRequest_eq
  have hopen₁ : (S'.openRequest i.1 i.2).1 = .ok o := by rw [hopen]
  obtain ⟨res', hok'⟩ :=
    hS'.answered_of_opened (hun.nonceBits_eq.symm ▸ hbits) hcounter hopen₁ hfit
  obtain ⟨o', -, -, -, hopen', -, hresp', -⟩ := handleAuthRequest_ok (Prod.ext hok' rfl)
  obtain rfl := Except.ok.inj (hopen₁.symm.trans hopen')
  rw [hun.credential_eq, hun.nonceBits_eq, hresp] at hresp'
  obtain rfl := Except.ok.inj hresp'
  exact hok'

/-- A run of rejections does not block a peer whose failures it does not bring to the limit. -/
lemma Valid.unblocked_final {S : Server C} (hS : S.Valid) (hbits : S.nonceBits ∈ supportedNonceBits)
    (hcounter : S.resolver.IsCounter) {is : List (ServerEnv × Bytes)}
    (hrej : Machine.AllSteps Server.step Rejects S is) {peer : String}
    (hblocked : S.sessionLog.isBlocked peer = false)
    (hbelow : S.sessionLog.failures peer + is.length < S.sessionLog.maxAttempts) :
    (Machine.final Server.step S is).sessionLog.isBlocked peer = false := by
  induction is generalizing S with
  | nil => exact hblocked
  | cons i is ih =>
    obtain ⟨⟨hfit, e, herr⟩, hrest⟩ := hrej
    obtain ⟨hun, hcount⟩ := hS.unconsumed hbits hcounter hfit herr
    rw [List.length_cons] at hbelow
    have hnext : (S.step i).2.sessionLog.failures peer ≤ S.sessionLog.failures peer + 1 ∧
        (S.step i).2.sessionLog.isBlocked peer = false := by
      rcases hcount with ⟨hsame, hkeep⟩ | ⟨msg1, p, epoch, -, -, hone, hother, hgrow⟩
      · refine ⟨by rw [hsame]; omega, ?_⟩
        rw [SessionLog.isBlocked, hkeep]
        exact hblocked
      · rw [SessionLog.isBlocked, hgrow]
        by_cases hp : peer = p
        · subst hp
          rw [hone, if_neg (by omega)]
          exact ⟨le_refl _, hblocked⟩
        · refine ⟨by rw [hother peer hp]; omega, ?_⟩
          have hnot : peer ∉ S.sessionLog.blocked := by
            simpa [SessionLog.isBlocked] using hblocked
          split_ifs <;> simp [hp, hnot]
    refine ih (hS.handleAuthRequest i.1 i.2) (hun.nonceBits_eq.symm ▸ hbits)
      ((S.isCounter_handleAuthRequest i.1 i.2).mpr hcounter) hrest hnext.2 ?_
    have hle := hnext.1
    have hmax := hun.max_eq
    change (S.step i).2.sessionLog.failures peer + is.length < (S.step i).2.sessionLog.maxAttempts
    omega

/-- In every reachable state of a server with counter epochs, a request that raises consumes nothing
and counts at most one failure; and a request that would be answered is answered, and alike, after
any run of such requests, as long as its peer is not blocked then, which it is not below the
limit. -/
theorem rejections_consume_nothing {cred : Credential Lam Bytes} {nonceBits : ℕ}
    (hbits : nonceBits ∈ supportedNonceBits) {S : Server C} (hS : Reachable cred nonceBits S)
    (hcounter : S.resolver.IsCounter) :
    (∀ i, Rejects S i → Unconsumed S (S.step i).2 ∧ CountsFailure S (S.step i).2 i) ∧
    ∀ is, Machine.AllSteps step Rejects S is →
      Unconsumed S (Machine.final step S is) ∧
      (∀ peer, S.sessionLog.isBlocked peer = false →
        S.sessionLog.failures peer + is.length < S.sessionLog.maxAttempts →
        (Machine.final step S is).sessionLog.isBlocked peer = false) ∧
      ∀ i res, (S.step i).1 = .ok res → ((Machine.final step S is).step i).2.EpochsFit →
        (Machine.final step S is).sessionLog.isBlocked res.peerIdentity = false →
        ((Machine.final step S is).step i).1 = .ok res := by
  obtain ⟨hvalid, -, rfl⟩ := hS.valid
  constructor
  · rintro i ⟨hfit, e, herr⟩
    exact hvalid.unconsumed hbits hcounter hfit herr
  · intro is hrej
    obtain ⟨hvalid', hcounter', hun⟩ := hvalid.unconsumed_final hbits hcounter hrej
    refine ⟨hun, fun peer => hvalid.unblocked_final hbits hcounter hrej, ?_⟩
    intro i res hok hfit hblocked
    exact hvalid'.answered_of_unconsumed hbits hcounter' hun hok hfit hblocked

/-- The empty message consumes nothing of the scanning server. -/
theorem rejections_consume_nothing_scanningA :
    Unconsumed scanningA (scanningA.step (.read 0 0, emptyMessage.toBytes)).2 ∧
      CountsFailure scanningA (scanningA.step (.read 0 0, emptyMessage.toBytes)).2
        (.read 0 0, emptyMessage.toBytes) := by
  have hrej : Rejects scanningA (.read 0 0, emptyMessage.toBytes) := by
    obtain ⟨e, -, herr, -⟩ := reachable_scanningA.valid.1.not_handled crashes_emptyMessage
    exact fits_emptyMessage.rejects herr
  exact (rejections_consume_nothing (by decide) reachable_scanningA trivial).1 _ hrej

end Server

end HybridEccAuth

import HybridEccAuth.Properties.BlockList
import HybridEccAuth.Properties.ClockReplay
import HybridEccAuth.Properties.HonestRequests

/-!
# Completeness of clock epochs

With clock epochs a device cannot fall out of step: what decides about a request is the
window at the moment it is resolved, and the cache of accepted nonces.

The cache holds nothing but the tags of requests that were accepted (`Knows`), so a nonce
that was never used is not in it, whatever was accepted, in whatever order; and a table
that was attached is exact after every earlier reading (`KnowsTable`).  A fresh request
whose epoch is of the window is therefore answered (`fresh_request_answered`).
-/

namespace HybridEccAuth

/-! ## Nonces -/

section Nonces

variable {s : ClockSettings} {reading : ℚ} {nonces : NonceCache} {log : SessionLog} {peer : String}
  {epoch e : ℤ} {nI tag : Bytes}

/-- With nonces of one length, a tag determines the peer and the nonce. -/
lemma nonceTag_inj {peer' : String} {nI' : Bytes} (hlength : nI.length = nI'.length)
    (h : nonceTag peer nI = nonceTag peer' nI') : peer = peer' ∧ nI = nI' := by
  obtain ⟨hpeer, hnI⟩ := List.append_inj' h hlength
  obtain ⟨hpeer', -⟩ := List.append_inj' hpeer rfl
  exact ⟨utf8Encode_injective hpeer', hnI⟩

/-- Purging adds nothing. -/
lemma NonceCache.of_mem_purge {lo : ℤ} (h : tag ∈ (nonces.purge lo).seen e) :
    tag ∈ nonces.seen e := by
  rw [seen, purge, Dict.get_eraseIf] at h
  rw [seen]
  rcases hget : nonces.get e with _ | tags <;> rw [hget] at h
  · exact h
  · by_cases hlo : e < lo
    · simp [hlo, Option.filter] at h
    · simpa [hlo, Option.filter] using h

/-- What is remembered after a request was remembered before, or is the nonce that the request was
accepted with. -/
lemma of_mem_acceptNonce (h : tag ∈ (acceptNonce s reading nonces log peer epoch nI).2.1.seen e) :
    tag ∈ nonces.seen e ∨ (tag = nonceTag peer nI ∧
      (acceptNonce s reading nonces log peer epoch nI).1 = .ok ()) := by
  unfold acceptNonce at h ⊢
  dsimp only at h ⊢
  split_ifs at h ⊢
  · rw [NonceCache.seen_set] at h
    split_ifs at h with he
    · exact Or.inl (he ▸ NonceCache.of_mem_purge h)
    · exact Or.inl (NonceCache.of_mem_purge h)
  · rw [NonceCache.seen_set] at h
    split_ifs at h with he
    · rcases Finset.mem_insert.mp h with rfl | hold
      · exact Or.inr ⟨rfl, rfl⟩
      · exact Or.inl (he ▸ NonceCache.of_mem_purge hold)
    · exact Or.inl (NonceCache.of_mem_purge h)

/-- A nonce that is not remembered is accepted, also when its epoch has left the window. -/
lemma acceptNonce_of_fresh (h : nonceTag peer nI ∉ nonces.seen epoch) :
    (acceptNonce s reading nonces log peer epoch nI).1 = .ok () := by
  unfold acceptNonce
  dsimp only
  rw [if_neg fun hmem => h (NonceCache.of_mem_purge hmem)]

end Nonces

namespace Resolver

variable {C : Crypto} {peers : Dict String Lam} {log : SessionLog} {r : Resolver} {reading : ℚ}
  {settings : ClockSettings} {nonces : NonceCache}

/-- A clock resolver at the reading `t`: its table, if it has one, is exact, and `t` is not
negative. -/
def ExactClock (C : Crypto) (peers : Dict String Lam) (t : ℚ) : Resolver → Prop
  | clockScan _ => True
  | clockTable r => r.Exact C peers ∧ 0 ≤ t
  | _ => False

/-- Time passes. -/
lemma ExactClock.mono {t t' : ℚ} (h : r.ExactClock C peers t) (ht : t ≤ t') :
    r.ExactClock C peers t' := by
  rcases r with r | r | r | r | T
  · exact h
  · exact h
  · exact h
  · exact ⟨h.1, le_trans h.2 ht⟩
  · exact h

/-- Resolving keeps the nonces. -/
lemma nonces?_resolve (hr : r.nonces? = some (settings, nonces)) (pid : Bytes) :
    (r.resolve C peers log reading pid).2.nonces? = some (settings, nonces) := by
  rcases r with r | r | r | r | T
  · cases hr
  · cases hr
  · obtain ⟨hset, hnonces⟩ : (r.resolve C peers reading pid).2.settings = r.settings ∧
        (r.resolve C peers reading pid).2.nonces = r.nonces := ClockScan.resolve_frame
    cases hr
    dsimp only [Resolver.resolve, nonces?]
    rw [hset, hnonces]
  · obtain ⟨hset, hnonces⟩ : (r.resolve C peers reading pid).2.settings = r.settings ∧
        (r.resolve C peers reading pid).2.nonces = r.nonces := ClockTable.resolve_frame
    cases hr
    dsimp only [Resolver.resolve, nonces?]
    rw [hset, hnonces]
  · cases hr

/-- Attaching to a peer makes a clock resolver exact: the epochs of the window were all packed. -/
lemma exactClock_attach {r' : Resolver} (hr : r.nonces? = some (settings, nonces))
    (hinj : PseudonymsInjective C peers) {peer : String} {lam : Lam}
    (hpeer : peers.get peer = some lam)
    (h : r.attach C peers log reading = (.ok (), r')) :
    r'.ExactClock C peers reading ∧ r'.nonces? = some (settings, nonces) := by
  rcases r with r | r | r | r | T
  · cases hr
  · cases hr
  · obtain ⟨-, rfl⟩ := Prod.mk.inj h
    exact ⟨trivial, hr⟩
  · obtain ⟨hok, rfl⟩ := Prod.mk.inj h
    have hrange : ∀ e ∈ r.settings.window reading, 0 ≤ e ∧ e < 2 ^ 64 := by
      intro e he
      by_contra hout
      have hpair :
          (peer, lam, e) ∈ ClockTable.newPairs peers { r with table := .empty, tabled := ∅ }
          reading := ClockTable.mem_newPairs.mpr ⟨hpeer, he, Finset.notMem_empty e⟩
      obtain ⟨x, hx⟩ := ClockTable.advance_out_of_range (C := C) hpair hout
      exact absurd (hx.symm.trans hok) (by simp)
    have hnonneg : 0 ≤ reading := by
      have hcur := (hrange _ (ClockSettings.mem_window.mpr (Or.inl rfl))).1
      have hquot := Int.floor_nonneg.mp hcur
      by_contra hneg
      exact absurd hquot (not_le.mpr
        (div_neg_of_neg_of_pos (not_le.mp hneg) r.settings.epochSeconds_pos))
    obtain ⟨hset, hnonces⟩ : (r.attach C peers reading).2.settings = r.settings ∧
        (r.attach C peers reading).2.nonces = r.nonces := ClockTable.advance_frame
    have hnonces? : (clockTable (r.attach C peers reading).2).nonces? =
        some ((r.attach C peers reading).2.settings, (r.attach C peers reading).2.nonces) := rfl
    rw [hset, hnonces] at hnonces?
    exact ⟨⟨(ClockTable.exact_attach hinj hrange).2, hnonneg⟩, hnonces?.trans hr⟩
  · cases hr

/-- Resolving later, at a reading whose window ends below 64 bits, keeps a clock resolver exact. -/
lemma ExactClock.resolve {t : ℚ} (h : r.ExactClock C peers t) (ht : t ≤ reading)
    (hr : r.nonces? = some (settings, nonces)) (hinj : PseudonymsInjective C peers)
    (hend : settings.currentEpoch reading + settings.drift < 2 ^ 64) (log : SessionLog)
    (pid : Bytes) :
    (r.resolve C peers log reading pid).2.ExactClock C peers reading := by
  rcases r with r | r | r | r | T
  · cases hr
  · cases hr
  · trivial
  · cases hr
    have hnonneg := le_trans h.2 ht
    have hrange := ClockSettings.window_range (s := r.settings) ⟨hnonneg, hend⟩
    exact ⟨(ClockTable.Exact.resolve hinj h.1 hrange pid).1, hnonneg⟩
  · cases hr

/-- At a reading whose window has 64 bits, an exact clock resolver resolves exactly the pseudonyms
of the window. -/
lemma ExactClock.resolve_eq_ok_iff {t : ℚ} (h : r.ExactClock C peers t)
    (hr : r.nonces? = some (settings, nonces)) (hinj : PseudonymsInjective C peers)
    (hread : settings.Readable reading) (log : SessionLog) {pid : Bytes} {peer : String}
    {epoch : ℤ} :
    (r.resolve C peers log reading pid).1 = .ok (peer, epoch) ↔
      Names C peers pid peer epoch ∧ epoch ∈ settings.window reading := by
  rcases r with r | r | r | r | T
  · cases hr
  · cases hr
  · cases hr
    exact ClockScan.resolve_eq_ok_iff (ClockSettings.window_range hread) hinj
  · cases hr
    exact ClockTable.Exact.resolve_eq_ok_iff hinj h.1 (ClockSettings.window_range hread)
  · cases hr

/-- Accepting with a clock resolver is accepting the nonce; a table is not touched. -/
lemma ExactClock.accept {t : ℚ} (h : r.ExactClock C peers t)
    (hr : r.nonces? = some (settings, nonces))
    (log : SessionLog) (reading : ℚ) (peer : String) (epoch : ℤ) (nI : Bytes) :
    (r.accept C peers log reading peer epoch nI).2.1.ExactClock C peers t ∧
      (r.accept C peers log reading peer epoch nI).1 =
        (acceptNonce settings reading nonces log peer epoch nI).1 ∧
      (r.accept C peers log reading peer epoch nI).2.1.nonces? =
        some (settings, (acceptNonce settings reading nonces log peer epoch nI).2.1) := by
  rcases r with r | r | r | r | T
  · cases hr
  · cases hr
  · cases hr
    exact ⟨trivial, rfl, rfl⟩
  · cases hr
    exact ⟨h, rfl, rfl⟩
  · cases hr

end Resolver

namespace Server

variable {C : Crypto}

/-- What the cache of a server remembers are the nonces of requests that were accepted, and its
table, if it has one, was kept exact. -/
structure Knows (cred : Credential Lam Bytes) (nonceBits : ℕ) (settings : ClockSettings)
    (seen : List (Bytes × Opened)) (s : Server C × ℚ) : Prop where
  valid : s.1.Valid
  credential_eq : s.1.credential = cred
  nonceBits_eq : s.1.nonceBits = nonceBits
  exact_clock : s.1.resolver.ExactClock C cred.peerSecrets s.2
  nonces : ∃ nonces, s.1.resolver.nonces? = some (settings, nonces) ∧
    ∀ e tag, tag ∈ nonces.seen e → ∃ x ∈ seen, tag = nonceTag x.2.peer x.2.nI

section Knows

variable {cred : Credential Lam Bytes} {nonceBits : ℕ} {settings : ClockSettings}
  {seen : List (Bytes × Opened)} {s : Server C × ℚ}

/-- A request adds to the cache at most its own nonce, and only when it is accepted. -/
lemma Knows.step (h : Knows cred nonceBits settings seen s) (hbits : nonceBits ∈ supportedNonceBits)
    (hinj : PseudonymsInjective C cred.peerSecrets) {i : ServerEnv × Bytes}
    (hclock : ClockForward s i)
    (hend : settings.currentEpoch i.1.resolveReading + settings.drift < 2 ^ 64) :
    Knows cred nonceBits settings (seen ++ (s.1.acceptance i).toList) (clockStep s i).2 := by
  obtain ⟨S, t⟩ := s
  obtain ⟨hvalid, rfl, rfl, hexact, nonces, hnonces, hseen⟩ := h
  dsimp only at hvalid hexact hnonces hbits hinj ⊢
  obtain ⟨hcred, -, hres, -⟩ := S.openRequest_frame i.1 i.2
  obtain ⟨hcred', hbits'⟩ := S.handleAuthRequest_frame i.1 i.2
  have hpeers : (S.openRequest i.1 i.2).2.peers = S.peers := congrArg Credential.peerSecrets hcred
  have hopen : (S.openRequest i.1 i.2).2.resolver.ExactClock C S.peers i.1.resolveReading ∧
      (S.openRequest i.1 i.2).2.resolver.nonces? = some (settings, nonces) := by
    rcases hres with heq | ⟨pid, heq⟩
    · rw [heq]
      exact ⟨hexact.mono hclock.1, hnonces⟩
    · rw [heq]
      exact ⟨hexact.resolve hclock.1 hnonces hinj hend S.sessionLog pid,
        Resolver.nonces?_resolve hnonces pid⟩
  obtain ⟨hopen₁, hopen₂⟩ := hopen
  rcases S.handleAuthRequest_cases i.1 i.2 with ⟨e, -, heq⟩ | ⟨o, hok, heq⟩
  · refine ⟨hvalid.handleAuthRequest i.1 i.2, hcred', hbits', ?_, nonces, ?_, fun e tag htag => ?_⟩
    · dsimp only [clockStep]
      rw [heq]
      exact hopen₁.mono hclock.2
    · dsimp only [clockStep]
      rw [heq]
      exact hopen₂
    · obtain ⟨x, hx, htag'⟩ := hseen e tag htag
      exact ⟨x, List.mem_append_left _ hx, htag'⟩
  · obtain ⟨-, -, hacc, -⟩ := (S.openRequest i.1 i.2).2.finish_frame i.1 o
    obtain ⟨hfin₁, hfin₂, hfin₃⟩ := hopen₁.accept hopen₂
      (S.openRequest i.1 i.2).2.sessionLog i.1.acceptReading o.peer o.epoch o.nI
    rw [← hpeers, ← hacc, ← heq, hpeers] at hfin₁
    rw [← hpeers, ← hacc, ← heq] at hfin₃
    refine ⟨hvalid.handleAuthRequest i.1 i.2, hcred', hbits', hfin₁.mono hclock.2, _, hfin₃,
      fun e tag htag => ?_⟩
    rcases of_mem_acceptNonce htag with hold | ⟨rfl, hnew⟩
    · obtain ⟨x, hx, htag'⟩ := hseen e tag hold
      exact ⟨x, List.mem_append_left _ hx, htag'⟩
    · -- the nonce was accepted, so the request was answered
      refine ⟨(i.2, o), List.mem_append_right _ (Option.mem_toList.mpr ?_), rfl⟩
      obtain ⟨⟨msg1, lam, plaintext, hopens, hresolver⟩, hlog, -, -⟩ :=
        openRequest_ok (Prod.ext hok rfl)
      refine (hopens.acceptance_eq hbits (hvalid.names_of_opens hopens).epoch_range rfl ?_).1
      rw [← hresolver, ← hlog]
      exact hfin₂.trans hnew

/-- The clock has not gone back in a run. -/
lemma reading_le_final {requests : List (ServerEnv × Bytes)}
    (hclock : Machine.AllSteps clockStep ClockForward s requests) :
    s.2 ≤ (Machine.final clockStep s requests).2 := by
  induction requests generalizing s with
  | nil => exact le_rfl
  | cons i requests ih =>
    obtain ⟨⟨hfirst, hsecond⟩, hrest⟩ := hclock
    exact le_trans (le_trans hfirst hsecond) (ih hrest)

/-- What is known after a run of requests, when the windows up to its end lie below 64 bits. -/
lemma Knows.final (h : Knows cred nonceBits settings seen s)
    (hbits : nonceBits ∈ supportedNonceBits)
    (hinj : PseudonymsInjective C cred.peerSecrets) {requests : List (ServerEnv × Bytes)}
    (hclock : Machine.AllSteps clockStep ClockForward s requests)
    (hend : settings.currentEpoch (Machine.final clockStep s requests).2 + settings.drift <
      2 ^ 64) :
    Knows cred nonceBits settings
      (seen ++ Machine.events (fun s => s.1.acceptance) clockStep s requests)
      (Machine.final clockStep s requests) := by
  induction requests generalizing seen s with
  | nil =>
    rw [Machine.events, List.append_nil]
    exact h
  | cons i requests ih =>
    obtain ⟨hfirst, hrest⟩ := hclock
    have hlater : settings.currentEpoch i.1.resolveReading ≤
        settings.currentEpoch (Machine.final clockStep s (i :: requests)).2 :=
      ClockSettings.currentEpoch_mono (le_trans hfirst.2 (reading_le_final hrest))
    have hnext := ih (h.step hbits hinj hfirst (by omega)) hrest hend
    rw [List.append_assoc] at hnext
    exact hnext

end Knows

/-- With clock epochs no history keeps a fresh request from being answered.  After any run in which
the clock does not go back, a request that an unblocked device in range has built at an epoch within
the drift of the reading in `resolve`, with a nonce that it was not accepted with before, is
answered, whatever became of earlier messages and whatever the reading in `accept`. -/
theorem fresh_request_answered {cred : Credential Lam Bytes} {nonceBits : ℕ} {log : SessionLog}
    {settings : ClockSettings} {r : Resolver} {reading : ℚ} {S : Server C}
    (hr : ClockResolver settings r) (hS : create cred nonceBits log r reading = .ok S)
    (hbits : nonceBits ∈ supportedNonceBits) (hinj : PseudonymsInjective C cred.peerSecrets)
    {requests : List (ServerEnv × Bytes)}
    (hclock : Machine.AllSteps clockStep ClockForward (S, reading) requests)
    {D D' : Device C} {V R : String} {env : BuildEnv} {data : Bytes} {session : PendingSession}
    (hpaired : Paired D V S R) (hbuild : D.buildAuthRequest env R = (.ok data, D'))
    (hsession : D'.pending.get R = some session) {serverEnv : ServerEnv}
    (hforward : (Machine.final clockStep (S, reading) requests).2 ≤ serverEnv.resolveReading)
    (hread : settings.Readable serverEnv.resolveReading)
    (hdrift : |session.epoch - settings.currentEpoch serverEnv.resolveReading| ≤ settings.drift)
    (hblocked : (Machine.final clockStep (S, reading) requests).1.sessionLog.isBlocked V = false)
    (hcoverage : serverEnv.coverage V = true)
    (hfresh : ∀ x ∈ Machine.events (fun s => s.1.acceptance) clockStep (S, reading) requests,
      x.2.nI.length = session.nI.length ∧ ¬ (x.2.peer = V ∧ x.2.nI = session.nI)) :
    ∃ result, ((Machine.final clockStep (S, reading) requests).1.handleAuthRequest serverEnv
      data).1 = .ok result ∧ result.peerIdentity = V := by
  obtain ⟨hvalid, hcred, hbits', -, -, hatt⟩ := valid_create hS
  have hnonces : r.nonces? = some (settings, .empty) := by
    rcases hr with rfl | rfl <;> rfl
  have hpeer : cred.peerSecrets.get V = some D.credential.lam := hcred ▸ hpaired.device_secret
  obtain ⟨hexact, hnonces'⟩ := Resolver.exactClock_attach hnonces hinj hpeer hatt
  have hinit : Knows cred nonceBits settings [] (S, reading) :=
    ⟨hvalid, hcred, hbits', hexact, _, hnonces', fun e tag htag =>
      absurd htag (Finset.notMem_empty _)⟩
  have hend := ClockSettings.currentEpoch_mono (s := settings) hforward
  obtain ⟨hvalid', hcred', hbits'', hexact', nonces, hnonces'', hseen⟩ :=
    hinit.final hbits hinj hclock (lt_of_le_of_lt (Int.add_le_add_right hend _) hread.2)
  -- from here on only the state after the run matters
  generalize Machine.final clockStep (S, reading) requests = s at *
  have hpaired' : Paired D V s.1 R := hpaired.congr rfl (hcred'.trans hcred.symm)
  subst hcred'
  have hnames := hpaired'.names_of_build hbuild hsession
  have hwindow : session.epoch ∈ settings.window serverEnv.resolveReading := by
    obtain ⟨hlow, hhigh⟩ := abs_le.mp hdrift
    exact (ClockSettings.mem_window_of_nonneg hread.1).mpr
      ⟨hnames.epoch_range.1, by omega, by omega⟩
  have hres := (hexact'.resolve_eq_ok_iff hnonces'' hinj hread s.1.sessionLog).mpr ⟨hnames, hwindow⟩
  obtain ⟨msg1, plaintext, hmsg, hopens⟩ := hpaired'.opens hbuild hsession hres hblocked hcoverage
  have hnew : nonceTag V session.nI ∉ nonces.seen session.epoch := by
    intro hmem
    obtain ⟨x, hx, htag⟩ := hseen _ _ hmem
    obtain ⟨hlength, hother⟩ := hfresh x hx
    obtain ⟨hV, hnI⟩ := nonceTag_inj hlength.symm htag
    exact hother ⟨hV.symm, hnI.symm⟩
  have hexact_res := hexact'.resolve hforward hnonces'' hinj hread.2 s.1.sessionLog msg1.pid
  obtain ⟨-, hacc, -⟩ := hexact_res.accept (Resolver.nonces?_resolve hnonces'' msg1.pid)
    s.1.sessionLog serverEnv.acceptReading V session.epoch session.nI
  obtain ⟨result, hresult, -, hpeer'⟩ := hopens.answered (hbits''.symm ▸ hbits) hnames.epoch_range
    (hacc.trans (acceptNonce_of_fresh hnew))
  exact ⟨result, hresult, hpeer'⟩

/-- The device of the sample pair, with epochs from a clock. -/
def clockedDevice : Device .plain := { entity := { credential := deviceOne }, epochClock := true }

/-- What the device finds when its clock is in the epoch `e`. -/
def inEpoch (e : ℤ) : BuildEnv := ⟨fun _ => true, e, .zeros, .zeros, 0⟩

/-- The server of the sample pair, with a clock scan. -/
def clockedServer : Server .plain :=
  ⟨{ credential := serverA }, 128, {}, .clockScan { settings := {} }⟩

/-- A message under the pseudonym of the device for epoch 4, made by somebody else. -/
def forgedMessage : Message1 where
  pid := toBytesBE 32 (2 ^ 64 + 4)
  gcmNonce := List.replicate 12 0
  ciphertext := []
  tag := List.replicate 16 1

/-- The forged message is not accepted. -/
lemma forgedMessage_not_accepted {data : Bytes}
    (hparse : Message1.fromBytes data = .ok forgedMessage)
    (S : Server .plain) (env : ServerEnv) :
    S.acceptance (env, data) = none ∧
      ((S.handleAuthRequest env data).2.sessionLog = S.sessionLog ∨ ∃ peer,
        (S.handleAuthRequest env data).2.sessionLog = (S.sessionLog.recordFailure peer).2) := by
  have hnot : ∀ o, (S.openRequest env data).1 ≠ .ok o := by
    intro o ho
    obtain ⟨⟨msg1, lam, plaintext, hopens, -⟩, -⟩ := openRequest_ok (Prod.ext ho rfl)
    obtain rfl : forgedMessage = msg1 := Except.ok.inj (hparse.symm.trans hopens.parsed)
    obtain ⟨-, -, hcipher⟩ := aeadDecrypt_eq_ok_iff.mp hopens.decrypted
    have hlength : forgedMessage.tag.length = tagLen := List.length_replicate
    have htag := congrArg (lastBytes tagLen) hcipher
    rw [lastBytes_aesGcmEncrypt, lastBytes_append hlength] at htag
    have hplain : forgedMessage.tag = toBytesBE 16 0 := htag
    exact absurd hplain (by decide +kernel)
  rcases S.handleAuthRequest_cases env data with ⟨e, -, heq⟩ | ⟨o, ho, -⟩
  · refine ⟨Option.eq_none_iff_forall_ne_some.mpr fun x hx => ?_, ?_⟩
    · exact hnot x.2 (acceptance_eq_some.mp hx).2.1
    · rw [heq]
      exact (S.openRequest_frame env data).2.2.2
  · exact absurd ho (hnot o)

/-- The sample server accepts the message of epoch 5. -/
lemma accepted_messageAtFive :
    clockedServer.acceptance (.read 300 300, messageAtFive.toBytes) =
        some (messageAtFive.toBytes, openedAtFive) ∧
      (clockedServer.handleAuthRequest (.read 300 300) messageAtFive.toBytes).2.sessionLog =
        (({} : SessionLog).acceptEpoch "device-1" 5).recordSuccess "device-1" := by
  have hopens := opens_messageAtFive (S := clockedServer) rfl (.read 300 300)
    (toOption_eq_some_iff.mp (by decide +kernel)) rfl rfl
  obtain ⟨haccepted, -, -, hlog, -⟩ := hopens.acceptance_eq (by decide) (by decide) rfl
    (toOption_eq_some_iff.mp (by decide +kernel))
  exact ⟨haccepted, hlog⟩

/-- What is accepted in a run of two requests, the first of which is accepted. -/
lemma events_of_accepted {S : Server C} {i j : ServerEnv × Bytes} {x : Bytes × Opened} (t : ℚ)
    (hi : S.acceptance i = some x) (hj : (S.handleAuthRequest i.1 i.2).2.acceptance j = none) :
    Machine.events (fun s => s.1.acceptance) clockStep (S, t) [i, j] = [x] := by
  simp only [Machine.events, clockStep, hi, hj, Option.toList_some, Option.toList_none,
    List.append_nil]

/-- The device is not blocked by one forged message. -/
lemma isBlocked_of_forged {S : Server .plain} {env env' : ServerEnv} {data forged : Bytes} (t : ℚ)
    (hlog : (S.handleAuthRequest env data).2.sessionLog =
      (({} : SessionLog).acceptEpoch "device-1" 5).recordSuccess "device-1")
    (hparse : Message1.fromBytes forged = .ok forgedMessage) :
    (Machine.final clockStep (S, t) [(env, data), (env', forged)]).1.sessionLog.isBlocked
      "device-1" = false := by
  have hforged := (forgedMessage_not_accepted hparse (S.handleAuthRequest env data).2 env').2
  show ((S.handleAuthRequest env data).2.handleAuthRequest env' forged).2.sessionLog.isBlocked
    "device-1" = false
  rcases hforged with heq | ⟨peer, heq⟩
  · rw [heq, hlog]
    decide +kernel
  · rw [heq, hlog, ← Bool.not_eq_true, SessionLog.isBlocked_recordFailure]
    rintro (h | ⟨-, h⟩)
    · exact absurd h (by decide +kernel)
    · exact absurd h (by decide +kernel)

/-- The request of a device whose clock is one epoch behind, after a later epoch of the device was
accepted and a forged message was rejected. -/
theorem fresh_request_answered_afterLater : ∃ five forged data D',
    clockedServer.acceptance (.read 300 300, five) = some (five, openedAtFive) ∧
    Message1.fromBytes forged = .ok forgedMessage ∧
    clockedDevice.buildAuthRequest (inEpoch 4) "server-A" = (.ok data, D') ∧
    ∃ result, ((Machine.final clockStep (clockedServer, 0)
      [(.read 300 300, five), (.read 310 310, forged)]).1.handleAuthRequest
        (.read 310 360) data).1 = .ok result ∧ result.peerIdentity = "device-1" := by
  have hpaired : Paired clockedDevice "device-1" clockedServer "server-A" := .of_samplePair rfl rfl
  obtain ⟨data, D', hbuild⟩ : ∃ data D',
      clockedDevice.buildAuthRequest (inEpoch 4) "server-A" = (.ok data, D') :=
    Device.exists_buildAuthRequest rfl rfl hpaired.server_secret (by decide) (by decide)
  obtain ⟨session, hsession, -, hepoch, -, hnonce, -⟩ := hpaired.session_of_build hbuild
  have hcreate : create serverA 128 {} (.clockScan { settings := {} }) 0 = .ok clockedServer := rfl
  obtain ⟨haccepted, hlog⟩ := accepted_messageAtFive
  have hparse := forgedMessage.fromBytes_toBytes
  -- what the texts of the two messages are does not matter from here on
  generalize messageAtFive.toBytes = five at *
  generalize forgedMessage.toBytes = forged at *
  obtain ⟨hnone, -⟩ := forgedMessage_not_accepted hparse
    (clockedServer.handleAuthRequest (.read 300 300) five).2 (.read 310 310)
  have hreadings : (0 : ℚ) ≤ 300 ∧ (300 : ℚ) ≤ 310 := by norm_num
  have hrun : Machine.AllSteps clockStep ClockForward (clockedServer, 0)
      [(.read 300 300, five), (.read 310 310, forged)] :=
    ⟨⟨hreadings.1, le_refl _⟩, ⟨hreadings.2, le_refl _⟩, trivial⟩
  have hevents : Machine.events (fun s => s.1.acceptance) clockStep (clockedServer, 0)
      [(.read 300 300, five), (.read 310 310, forged)] = [(five, openedAtFive)] :=
    events_of_accepted 0 haccepted hnone
  have hforward : (Machine.final clockStep (clockedServer, 0)
      [(.read 300 300, five), (.read 310 310, forged)]).2 ≤
        (ServerEnv.read 310 360).resolveReading := le_refl (310 : ℚ)
  have hblocked : (Machine.final clockStep (clockedServer, 0) [(.read 300 300, five),
      (.read 310 310, forged)]).1.sessionLog.isBlocked "device-1" = false :=
    isBlocked_of_forged 0 hlog hparse
  refine ⟨five, forged, data, D', haccepted, hparse, hbuild,
    fresh_request_answered (Or.inl rfl) hcreate (by decide) pseudonymsInjective_serverA hrun
      hpaired hbuild hsession hforward ⟨by decide +kernel, by decide +kernel⟩ ?_
      hblocked rfl ?_⟩
  · rw [hepoch]
    decide +kernel
  · have hother : openedAtFive.nI.length = session.nI.length ∧ openedAtFive.nI ≠ session.nI := by
      rw [hnonce]
      decide
    rw [hevents]
    intro x hx
    obtain rfl := List.mem_singleton.mp hx
    exact ⟨hother.1, fun h => hother.2 h.2⟩

/-- A table that cannot be brought up to the window of the reading resolves nothing. -/
lemma resolve_of_advance_error {T : ClockTable} {peers : Dict String Lam} {reading : ℚ} {e : Exc}
    (herr : (T.advance C peers reading).1 = .error e) (log : SessionLog) (pid : Bytes)
    (hit : String × ℤ) :
    ((Resolver.clockTable T).resolve C peers log reading pid).1 ≠ .ok hit := by
  intro hok
  dsimp only [Resolver.resolve, ClockTable.resolve] at hok
  split at hok <;> rename_i heq
  · cases hok
  · rw [heq] at herr
    cases herr

/-- A table is not brought up to a window that ends beyond 64 bits, so no request is answered
then. -/
lemma not_answered_beyond {cred : Credential Lam Bytes} {nonceBits : ℕ} {log : SessionLog}
    {T : ClockTable} {reading : ℚ} {S : Server C}
    (hS : create cred nonceBits log (.clockTable T) reading = .ok S)
    (hkeys : cred.peerSecrets.keys ≠ [])
    {env : ServerEnv}
    (hbeyond : 2 ^ 64 ≤ T.settings.currentEpoch env.resolveReading + T.settings.drift)
    (data : Bytes)
    (result : AuthResult) : (S.handleAuthRequest env data).1 ≠ .ok result := by
  intro hok
  obtain ⟨-, rfl, -, -, -, hatt⟩ := valid_create hS
  obtain ⟨o, msg1, lam, plaintext, -, hopens, -, -⟩ := handleAuthRequest_ok (Prod.ext hok rfl)
  have hresolver : Resolver.clockTable (T.attach C S.peers reading).2 = S.resolver :=
    congrArg Prod.snd hatt
  have hset : (T.attach C S.peers reading).2.settings = T.settings := ClockTable.advance_frame.1
  have htimely : (T.attach C S.peers reading).2.Timely C S.peers reading := T.timely_attach
  obtain ⟨e, herr⟩ := htimely.advance_beyond hkeys (hset.symm ▸ hbeyond)
  apply resolve_of_advance_error herr S.sessionLog msg1.pid (o.peer, o.epoch)
  rw [hresolver]
  exact hopens.resolved

/-- At the last epoch of 64 bits the table cannot be brought up to the end of the window, and a
fresh request of that epoch is not answered. -/
theorem lastEpoch_not_answered :
    let settings : ClockSettings := { epochSeconds := 1, epochSeconds_pos := zero_lt_one }
    ∃ (S : Server .plain) (data : Bytes) (D' : Device .plain) (session : PendingSession),
      create serverA 128 {} (.clockTable { settings := settings }) 0 = .ok S ∧
      Paired clockedDevice "device-1" S "server-A" ∧
      clockedDevice.buildAuthRequest (inEpoch (2 ^ 64 - 1)) "server-A" = (.ok data, D') ∧
      D'.pending.get "server-A" = some session ∧
      session.epoch = settings.currentEpoch (2 ^ 64 - 1) ∧
      S.sessionLog.isBlocked "device-1" = false ∧
      ∀ result, (S.handleAuthRequest (.read (2 ^ 64 - 1) (2 ^ 64 - 1)) data).1 ≠ .ok result := by
  intro settings
  have hatt : ((Resolver.clockTable { settings := settings }).attach .plain serverA.peerSecrets {}
    0).1 = .ok () := toOption_eq_some_iff.mp (by decide +kernel)
  have hcreate := create_of_attach 128 (by decide : serverA.role = .server) hatt
  have hpaired := Paired.of_samplePair (D := clockedDevice) rfl (valid_create hcreate).2.1
  obtain ⟨data, D', hbuild⟩ : ∃ data D',
      clockedDevice.buildAuthRequest (inEpoch (2 ^ 64 - 1)) "server-A" = (.ok data, D') :=
    Device.exists_buildAuthRequest rfl rfl hpaired.server_secret (by decide) (by decide)
  obtain ⟨session, hsession, -, hepoch, -⟩ := hpaired.session_of_build hbuild
  refine ⟨_, data, D', session, hcreate, hpaired, hbuild, hsession, ?_, rfl, ?_⟩
  · rw [hepoch]
    decide +kernel
  · exact not_answered_beyond hcreate (by decide) (by decide +kernel) data

end Server

end HybridEccAuth

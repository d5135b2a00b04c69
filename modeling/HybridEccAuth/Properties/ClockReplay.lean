import HybridEccAuth.Protocol.Server

/-!
# Replays under clock epochs

With clock epochs a pseudonym stays valid for a whole window, and what keeps a message
from being accepted twice is the cache of accepted nonces.  The cache forgets the
epochs that have left the window of the *second* reading of a request, while the
message was resolved in the window of the first one.

`Server.WithinDrift` is the condition on a request that its epoch is still in the
window at the second reading.  In a run of such requests nothing is accepted twice
(`clock_accepts_once`), and without it a replay is accepted
(`clock_accepts_replay`).
-/

namespace HybridEccAuth

namespace Resolver

/-- The settings and the accepted nonces of a clock resolver. -/
def nonces? : Resolver → Option (ClockSettings × NonceCache)
  | clockScan r => some (r.settings, r.nonces)
  | clockTable r => some (r.settings, r.nonces)
  | _ => none

/-- From the reading `t` on, what a clock resolver resolves is of the window. -/
def Timely (C : Crypto) (peers : Dict String Lam) (t : ℚ) : Resolver → Prop
  | clockScan _ => True
  | clockTable r => r.Timely C peers t
  | _ => False

variable {C : Crypto} {peers : Dict String Lam} {log : SessionLog} {r : Resolver} {t reading : ℚ}
  {settings : ClockSettings} {nonces : NonceCache}

/-- A clock resolver that was attached is timely, and its settings and nonces are as before. -/
lemma timely_attach {r' : Resolver} (hr : r.nonces? = some (settings, nonces))
    (h : r.attach C peers log reading = (.ok (), r')) :
    r'.Timely C peers reading ∧ r'.nonces? = some (settings, nonces) := by
  rcases r with r | r | r | r | T
  · cases hr
  · cases hr
  · obtain ⟨-, rfl⟩ := Prod.mk.inj h
    exact ⟨trivial, hr⟩
  · obtain ⟨-, rfl⟩ := Prod.mk.inj h
    obtain ⟨hset, hnonces⟩ : (r.attach C peers reading).2.settings = r.settings ∧
        (r.attach C peers reading).2.nonces = r.nonces := ClockTable.advance_frame
    have hnonces? : (clockTable (r.attach C peers reading).2).nonces? =
        some ((r.attach C peers reading).2.settings, (r.attach C peers reading).2.nonces) := rfl
    rw [hset, hnonces] at hnonces?
    exact ⟨r.timely_attach, hnonces?.trans hr⟩
  · cases hr

/-- Time passes. -/
lemma Timely.mono {t' : ℚ} (h : r.Timely C peers t) (ht : t ≤ t') : r.Timely C peers t' := by
  rcases r with r | r | r | r | T
  · exact h
  · exact h
  · exact h
  · exact ClockTable.Timely.mono h ht
  · exact h

/-- Resolving at a later reading keeps a clock resolver timely, keeps its nonces, and finds only
pairs of the window. -/
lemma Timely.resolve (h : r.Timely C peers t) (ht : t ≤ reading)
    (hr : r.nonces? = some (settings, nonces)) (log : SessionLog) (pid : Bytes) :
    (r.resolve C peers log reading pid).2.Timely C peers reading ∧
      (r.resolve C peers log reading pid).2.nonces? = some (settings, nonces) ∧
      ∀ peer epoch, (r.resolve C peers log reading pid).1 = .ok (peer, epoch) →
        Names C peers pid peer epoch ∧ epoch ∈ settings.window reading := by
  rcases r with r | r | r | r | T
  · cases hr
  · cases hr
  · obtain ⟨hset, hnonces⟩ : (r.resolve C peers reading pid).2.settings = r.settings ∧
        (r.resolve C peers reading pid).2.nonces = r.nonces := ClockScan.resolve_frame
    cases hr
    refine ⟨trivial, ?_, fun peer epoch hres => ClockScan.resolve_sound hres⟩
    dsimp only [Resolver.resolve, nonces?]
    rw [hset, hnonces]
  · obtain ⟨hset, hnonces⟩ : (r.resolve C peers reading pid).2.settings = r.settings ∧
        (r.resolve C peers reading pid).2.nonces = r.nonces := ClockTable.resolve_frame
    cases hr
    obtain ⟨htimely, hsound⟩ := ClockTable.Timely.resolve h ht pid
    refine ⟨htimely, ?_, hsound⟩
    dsimp only [Resolver.resolve, nonces?]
    rw [hset, hnonces]
  · cases hr

/-- Accepting with a clock resolver is accepting the nonce. -/
lemma Timely.accept (h : r.Timely C peers t) (hr : r.nonces? = some (settings, nonces))
    (log : SessionLog) (reading : ℚ) (peer : String) (epoch : ℤ) (nI : Bytes) :
    (r.accept C peers log reading peer epoch nI).2.1.Timely C peers t ∧
      (r.accept C peers log reading peer epoch nI).1 =
        (acceptNonce settings reading nonces log peer epoch nI).1 ∧
      (r.accept C peers log reading peer epoch nI).2.1.nonces? =
        some (settings, (acceptNonce settings reading nonces log peer epoch nI).2.1) := by
  rcases r with r | r | r | r | T
  · cases hr
  · cases hr
  · cases hr
    exact ⟨trivial, rfl, rfl⟩
  · cases hr
    obtain ⟨htabled, hsound⟩ := h
    exact ⟨⟨htabled, hsound⟩, rfl, rfl⟩
  · cases hr

end Resolver

namespace Server

variable {C : Crypto}

/-- A server, and the last reading of its clock, as a machine. -/
def clockStep (s : Server C × ℚ) (i : ServerEnv × Bytes) :
    Except Exc AuthResult × (Server C × ℚ) :=
  ((s.1.handleAuthRequest i.1 i.2).1, ((s.1.handleAuthRequest i.1 i.2).2, i.1.acceptReading))

/-- The clock does not go back. -/
def ClockForward (s : Server C × ℚ) (i : ServerEnv × Bytes) : Prop :=
  s.2 ≤ i.1.resolveReading ∧ i.1.resolveReading ≤ i.1.acceptReading

/-- Whatever the request names in the window of the first reading is still in the window, or ahead
of it, at the second reading. -/
def WithinDrift (settings : ClockSettings) (s : Server C × ℚ) (i : ServerEnv × Bytes) : Prop :=
  ∀ msg1, Message1.fromBytes i.2 = .ok msg1 → ∀ peer epoch, Names C s.1.peers msg1.pid peer epoch →
    epoch ∈ settings.window i.1.resolveReading →
      settings.currentEpoch i.1.acceptReading - settings.drift ≤ epoch

/-- What was accepted is remembered as long as its epoch is in the window. -/
structure Remembers (cred : Credential Lam Bytes) (settings : ClockSettings)
    (seen : List (Bytes × Opened)) (s : Server C × ℚ) : Prop where
  credential_eq : s.1.credential = cred
  timely : s.1.resolver.Timely C cred.peerSecrets s.2
  nonces : ∃ nonces, s.1.resolver.nonces? = some (settings, nonces) ∧ ∀ x ∈ seen,
    settings.currentEpoch s.2 - settings.drift ≤ x.2.epoch →
      nonceTag x.2.peer x.2.nI ∈ nonces.seen x.2.epoch
  reads : ∀ x ∈ seen, Reads C cred x.1 x.2 ∧
    Names C cred.peerSecrets x.2.pid x.2.peer x.2.epoch

/-- Two acceptances differ: in the peer, the epoch or the nonce, in the peer or the bytes of the
message, and in the bytes when pseudonyms are injective. -/
def Differ (C : Crypto) (cred : Credential Lam Bytes) (x y : Bytes × Opened) : Prop :=
  ¬ (x.2.peer = y.2.peer ∧ x.2.epoch = y.2.epoch ∧ x.2.nI = y.2.nI) ∧
    ¬ (x.2.peer = y.2.peer ∧ x.1 = y.1) ∧ (PseudonymsInjective C cred.peerSecrets → x.1 ≠ y.1)

/-- Acceptances of different triples differ. -/
lemma differ_of_reads {cred : Credential Lam Bytes} {x y : Bytes × Opened}
    (hx : Reads C cred x.1 x.2 ∧ Names C cred.peerSecrets x.2.pid x.2.peer x.2.epoch)
    (hy : Reads C cred y.1 y.2 ∧ Names C cred.peerSecrets y.2.pid y.2.peer y.2.epoch)
    (hne : ¬ (x.2.peer = y.2.peer ∧ x.2.epoch = y.2.epoch ∧ x.2.nI = y.2.nI)) :
    Differ C cred x y := by
  have hbytes : ¬ (x.2.peer = y.2.peer ∧ x.1 = y.1) := by
    rintro ⟨hpeer, hdata⟩
    have hopened := (hx.1.unique (hdata ▸ hy.1)).2 hpeer
    exact hne ⟨hpeer, congrArg Opened.epoch hopened, congrArg Opened.nI hopened⟩
  refine ⟨hne, hbytes, fun hinj hdata => ?_⟩
  obtain ⟨hpid, -⟩ := hx.1.unique (hdata ▸ hy.1)
  exact hbytes ⟨(hinj hx.2 (hpid ▸ hy.2)).1, hdata⟩

/-- What one request does to the nonces: what is remembered of the window of the second reading
stays remembered, and a request that is accepted adds a nonce, which is new if its epoch is still in
the window. -/
lemma nonces_handleAuthRequest {S : Server C} {t : ℚ} {settings : ClockSettings}
    {nonces : NonceCache} (htimely : S.resolver.Timely C S.peers t)
    (hnonces : S.resolver.nonces? = some (settings, nonces)) {i : ServerEnv × Bytes}
    (hclock : ClockForward (S, t) i) :
    (S.handleAuthRequest i.1 i.2).2.resolver.Timely C S.peers i.1.acceptReading ∧
      ∃ nonces', (S.handleAuthRequest i.1 i.2).2.resolver.nonces? = some (settings, nonces') ∧
        (∀ e tag, settings.currentEpoch i.1.acceptReading - settings.drift ≤ e →
          tag ∈ nonces.seen e → tag ∈ nonces'.seen e) ∧
        ∀ x, S.acceptance i = some x →
          nonceTag x.2.peer x.2.nI ∈ nonces'.seen x.2.epoch ∧
          (settings.currentEpoch i.1.acceptReading - settings.drift ≤ x.2.epoch →
            nonceTag x.2.peer x.2.nI ∉ nonces.seen x.2.epoch) := by
  obtain ⟨hcred, -, hres, -⟩ := S.openRequest_frame i.1 i.2
  have hpeers : (S.openRequest i.1 i.2).2.peers = S.peers := congrArg Credential.peerSecrets hcred
  -- opening at most resolves, at the first reading
  have hopen : (S.openRequest i.1 i.2).2.resolver.Timely C S.peers i.1.resolveReading ∧
      (S.openRequest i.1 i.2).2.resolver.nonces? = some (settings, nonces) := by
    rcases hres with heq | ⟨pid, heq⟩
    · rw [heq]
      exact ⟨htimely.mono hclock.1, hnonces⟩
    · rw [heq]
      obtain ⟨h₁, h₂, -⟩ := htimely.resolve hclock.1 hnonces S.sessionLog pid
      exact ⟨h₁, h₂⟩
  obtain ⟨hopen₁, hopen₂⟩ := hopen
  rcases S.handleAuthRequest_cases i.1 i.2 with ⟨e, herr, heq⟩ | ⟨o, hok, heq⟩
  · rw [heq]
    refine ⟨hopen₁.mono hclock.2, nonces, hopen₂, fun e tag _ htag => htag, fun x hx => ?_⟩
    have hopened := (acceptance_eq_some.mp hx).2.1
    rw [herr] at hopened
    cases hopened
  · obtain ⟨-, -, hacc, -⟩ := (S.openRequest i.1 i.2).2.finish_frame i.1 o
    obtain ⟨hfin₁, hfin₂, hfin₃⟩ := hopen₁.accept hopen₂
      (S.openRequest i.1 i.2).2.sessionLog i.1.acceptReading o.peer o.epoch o.nI
    rw [heq, hacc, hpeers]
    refine ⟨hfin₁.mono hclock.2, _, hfin₃, fun e tag he htag => seen_acceptNonce he htag, ?_⟩
    intro x hx
    obtain ⟨-, hopened, res, hfin⟩ := acceptance_eq_some.mp hx
    obtain rfl : o = x.2 := Except.ok.inj (hok.symm.trans hopened)
    rw [heq] at hfin
    obtain ⟨⟨r, hr, -⟩, -⟩ := finish_ok (Prod.ext hfin rfl)
    rw [hpeers] at hr
    rw [hr] at hfin₂
    exact acceptNonce_ok hfin₂.symm

/-- A step within the drift accepts nothing twice, and what it accepts is remembered. -/
lemma Remembers.step {cred : Credential Lam Bytes} {settings : ClockSettings}
    {seen : List (Bytes × Opened)} {s : Server C × ℚ} {i : ServerEnv × Bytes}
    (h : Remembers cred settings seen s) (hclock : ClockForward s i)
    (hdrift : WithinDrift settings s i) :
    (∀ x, s.1.acceptance i = some x → ∀ y ∈ seen, Differ C cred y x) ∧
      Remembers cred settings (seen ++ (s.1.acceptance i).toList) (clockStep s i).2 := by
  obtain ⟨S, t⟩ := s
  obtain ⟨rfl, htimely, ⟨nonces, hnonces, hseen⟩, hreads⟩ := h
  obtain ⟨htimely', nonces', hnonces', hkeep, hnew⟩ :=
    nonces_handleAuthRequest htimely hnonces hclock
  have hlater : settings.currentEpoch t ≤ settings.currentEpoch i.1.acceptReading :=
    ClockSettings.currentEpoch_mono (le_trans hclock.1 hclock.2)
  -- what is accepted is named by its pseudonym, and still in the window
  have hacc : ∀ x, S.acceptance i = some x → (Reads C S.credential x.1 x.2 ∧
      Names C S.peers x.2.pid x.2.peer x.2.epoch) ∧
      settings.currentEpoch i.1.acceptReading - settings.drift ≤ x.2.epoch := by
    intro x hx
    obtain ⟨hdata, hopened, -⟩ := acceptance_eq_some.mp hx
    obtain ⟨⟨msg1, lam, plaintext, hopens, -⟩, -⟩ := openRequest_ok (Prod.ext hopened rfl)
    obtain ⟨-, -, hsound⟩ := htimely.resolve hclock.1 hnonces S.sessionLog msg1.pid
    obtain ⟨hnames, hwindow⟩ := hsound _ _ hopens.resolved
    refine ⟨⟨hdata ▸ hopens.reads, hopens.pid_eq ▸ hnames⟩, ?_⟩
    exact hdrift msg1 hopens.parsed _ _ hnames hwindow
  constructor
  · intro x hx y hy
    obtain ⟨hx₁, hx₂⟩ := hacc x hx
    apply differ_of_reads (hreads y hy) hx₁
    rintro ⟨hpeer, hepoch, hnI⟩
    have hold := hseen y hy (by rw [hepoch]; dsimp only; omega)
    rw [hpeer, hepoch, hnI] at hold
    exact (hnew x hx).2 hx₂ hold
  · refine ⟨(S.handleAuthRequest_frame i.1 i.2).1, htimely', ⟨nonces', hnonces', ?_⟩, ?_⟩
    · intro x hx (hlo : settings.currentEpoch i.1.acceptReading - settings.drift ≤ x.2.epoch)
      rcases List.mem_append.mp hx with hx | hx
      · exact hkeep _ _ hlo (hseen x hx (by dsimp only; omega))
      · exact (hnew x (Option.mem_toList.mp hx)).1
    · intro x hx
      rcases List.mem_append.mp hx with hx | hx
      · exact hreads x hx
      · exact (hacc x (Option.mem_toList.mp hx)).1

/-- The two resolvers with clock epochs, before they are attached. -/
def ClockResolver (settings : ClockSettings) (r : Resolver) : Prop :=
  r = .clockScan { settings := settings } ∨ r = .clockTable { settings := settings }

/-- With clock epochs, in every run in which the clock does not go back and every request is within
the drift at the second reading, no peer, epoch and nonce are accepted together twice, no message is
accepted twice for one peer, and when pseudonyms are injective no message is accepted twice. -/
theorem clock_accepts_once {cred : Credential Lam Bytes} {nonceBits : ℕ} {log : SessionLog}
    {settings : ClockSettings} {r : Resolver} {reading : ℚ} {S : Server C}
    (hr : ClockResolver settings r) (hS : create cred nonceBits log r reading = .ok S)
    {requests : List (ServerEnv × Bytes)}
    (hclock : Machine.AllSteps clockStep ClockForward (S, reading) requests)
    (hdrift : Machine.AllSteps clockStep (WithinDrift settings) (S, reading) requests) :
    let accepted := Machine.events (fun s => s.1.acceptance) clockStep (S, reading) requests
    (accepted.map fun x => (x.2.peer, x.2.epoch, x.2.nI)).Nodup ∧
      (accepted.map fun x => (x.2.peer, x.1)).Nodup ∧
      (PseudonymsInjective C cred.peerSecrets → (accepted.map fun x => x.1).Nodup) := by
  obtain ⟨-, hcred, -, -, -, hatt⟩ := valid_create hS
  have hnonces : r.nonces? = some (settings, .empty) := by
    rcases hr with rfl | rfl <;> rfl
  obtain ⟨htimely, hnonces'⟩ := Resolver.timely_attach hnonces hatt
  have hinit : Remembers cred settings [] (S, reading) :=
    ⟨hcred, htimely, ⟨_, hnonces', fun x hx => by cases hx⟩, fun x hx => by cases hx⟩
  have hstep : ∀ seen (s : Server C × ℚ) i, Remembers cred settings seen s →
      ClockForward s i ∧ WithinDrift settings s i →
      (∀ x, s.1.acceptance i = some x → ∀ y ∈ seen, Differ C cred y x) ∧
        Remembers cred settings (seen ++ (s.1.acceptance i).toList) (clockStep s i).2 :=
    fun seen s i h hP => h.step hP.1 hP.2
  have hpairwise := Machine.pairwise_events hstep hinit (Machine.allSteps_and hclock hdrift)
  refine ⟨?_, ?_, ?_⟩
  · refine List.Pairwise.map _ ?_ hpairwise
    rintro x y ⟨hne, -, -⟩ heq
    simp only [Prod.mk.injEq] at heq
    exact hne heq
  · refine List.Pairwise.map _ ?_ hpairwise
    rintro x y ⟨-, hne, -⟩ heq
    simp only [Prod.mk.injEq] at heq
    exact hne heq
  · intro hinj
    exact List.Pairwise.map _ (fun x y h => h.2.2 hinj) hpairwise

/-- A request whose two readings are in one epoch is within the drift. -/
lemma withinDrift_of_same_epoch {settings : ClockSettings} {s : Server C × ℚ}
    {i : ServerEnv × Bytes}
    (h : settings.currentEpoch i.1.acceptReading = settings.currentEpoch i.1.resolveReading) :
    WithinDrift settings s i := by
  intro msg1 _ peer epoch _ hwindow
  rw [h]
  rw [ClockSettings.mem_window] at hwindow
  omega

/-- The message of the device of the sample pair for epoch 5, under the plain suite. -/
def messageAtFive : Message1 where
  pid := toBytesBE 32 (2 ^ 64 + 5)
  gcmNonce := List.replicate 12 0
  ciphertext := toBytesBE 32 (2 ^ 64 + 5) ++ List.replicate 16 7 ++ toBytesBE 8 5
  tag := toBytesBE 16 0

/-- What the server of the sample pair opens that message as. -/
def openedAtFive : Opened where
  pid := toBytesBE 32 (2 ^ 64 + 5)
  peer := "device-1"
  epoch := 5
  nI := List.replicate 16 7
  kStar := serverA.pairwiseRoot .plain 1

/-- The sample server opens that message whenever it resolves its pseudonym and has not blocked the
device. -/
lemma opens_messageAtFive {S : Server .plain} (hcred : S.credential = serverA) (env : ServerEnv)
    (hres : (S.resolver.resolve .plain serverA.peerSecrets S.sessionLog env.resolveReading
      messageAtFive.pid).1 = .ok ("device-1", 5))
    (hblocked : S.sessionLog.isBlocked "device-1" = false) (hcov : env.coverage "device-1" = true) :
    S.Opens env messageAtFive.toBytes openedAtFive messageAtFive 1 messageAtFive.ciphertext where
  parsed := Message1.fromBytes_toBytes _
  resolved := by rw [peers, hcred]; exact hres
  pid_eq := rfl
  unblocked := hblocked
  covered := hcov
  lam_eq := by rw [peers, hcred]; rfl
  kStar_eq := by rw [hcred, openedAtFive]
  decrypted := toOption_eq_some_iff.mp (by decide +kernel)
  pid_plaintext := by decide +kernel
  epoch_plaintext := by decide +kernel
  nI_eq := by decide +kernel

/-- The message of epoch 5, arriving twice within that epoch, is not accepted twice. -/
theorem clock_accepts_once_messageAtFive :
    let accepted := Machine.events (fun s => s.1.acceptance) clockStep
      ((⟨{ credential := serverA }, 128, {}, .clockScan { settings := {} }⟩ : Server .plain), 0)
      [(.read 300 300, messageAtFive.toBytes), (.read 359 359, messageAtFive.toBytes)]
    (accepted.map fun x => (x.2.peer, x.2.epoch, x.2.nI)).Nodup ∧
      (accepted.map fun x => (x.2.peer, x.1)).Nodup ∧
      (PseudonymsInjective .plain serverA.peerSecrets → (accepted.map fun x => x.1).Nodup) :=
  clock_accepts_once (Or.inl rfl) rfl
    ⟨⟨by decide +kernel, by decide +kernel⟩, ⟨by decide +kernel, by decide +kernel⟩, trivial⟩
    ⟨withinDrift_of_same_epoch rfl, withinDrift_of_same_epoch rfl, trivial⟩

/-- What is accepted in a run of two requests, both of which are accepted. -/
lemma events_of_two {S : Server C} {i j : ServerEnv × Bytes} {x y : Bytes × Opened} (t : ℚ)
    (hi : S.acceptance i = some x) (hj : (S.handleAuthRequest i.1 i.2).2.acceptance j = some y) :
    Machine.events (fun s => s.1.acceptance) clockStep (S, t) [i, j] = [x, y] := by
  simp only [Machine.events, clockStep, hi, hj, Option.toList_some, List.append_nil,
    List.singleton_append]

/-- A replay is accepted: the message of epoch 5 arrives again at the end of epoch 6, and the clock
enters epoch 7 between the two readings. -/
theorem clock_accepts_replay :
    ∃ S, create (C := .plain) serverA 128 {} (.clockScan { settings := {} }) 0 = .ok S ∧
      Machine.AllSteps clockStep ClockForward (S, 0)
        [(.read 300 300, messageAtFive.toBytes), (.read 419 420, messageAtFive.toBytes)] ∧
      ¬ ((Machine.events (fun s => s.1.acceptance) clockStep (S, 0)
          [(.read 300 300, messageAtFive.toBytes), (.read 419 420, messageAtFive.toBytes)]).map
        fun x => (x.2.peer, x.2.epoch, x.2.nI)).Nodup := by
  refine ⟨⟨{ credential := serverA }, 128, {}, .clockScan { settings := {} }⟩, rfl,
    ⟨⟨by decide +kernel, by decide +kernel⟩, ⟨by decide +kernel, by decide +kernel⟩, trivial⟩, ?_⟩
  -- the first request is accepted
  have hopens := opens_messageAtFive (S := ⟨{ credential := serverA }, 128, {},
    .clockScan { settings := {} }⟩) rfl (.read 300 300)
    (toOption_eq_some_iff.mp (by decide +kernel)) rfl rfl
  obtain ⟨hacc, hcred, hbits, hlog, hres⟩ := hopens.acceptance_eq (by decide) (by decide) rfl
    (toOption_eq_some_iff.mp (by decide +kernel))
  -- the second request is opened as the same peer, epoch and nonce, and accepted as well
  have hopens' := opens_messageAtFive hcred (.read 419 420)
    (toOption_eq_some_iff.mp (by rw [hlog, hres]; decide +kernel))
    (by rw [hlog]; decide +kernel) rfl
  obtain ⟨hacc', -⟩ := hopens'.acceptance_eq (by rw [hbits]; decide) (by decide) rfl
    (toOption_eq_some_iff.mp (by rw [peers, hcred, hlog, hres]; decide +kernel))
  rw [events_of_two 0 hacc hacc']
  decide

end Server

end HybridEccAuth

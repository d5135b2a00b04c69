import HybridEccAuth.Demo.ServerNode

/-!
# Requests that crash the server

What `Server.handleAuthRequest` can raise.  In every reachable state, and as long as
the epochs have 64 bits, a request is answered, rejected, or malformed, except in two
cases (`Server.Crashes`): the nonce of the message has a length that the
cryptographic library does not take, or the time-memory table has no points.  The
handler of the connection answers all other requests whose answer fits into a frame
(`Server.Answers`); between parties with short identities only the text about a malformed
message does not.
-/

namespace HybridEccAuth

namespace Server

variable {C : Crypto}

/-- The epochs that a server works with have 64 bits. -/
def EpochsFit (S : Server C) : Prop := S.resolver.EpochsFit S.peers S.sessionLog

/-- A request that is not opened keeps the epochs within their bound. -/
lemma EpochsFit.openRequest {S : Server C} (h : S.EpochsFit) (env : ServerEnv) (data : Bytes) :
    (S.openRequest env data).2.EpochsFit := by
  obtain ⟨hcred, -, hres, hlog⟩ := S.openRequest_frame env data
  have hkeep : (∀ p, (S.openRequest env data).2.sessionLog.last p = S.sessionLog.last p) ∧
      (S.openRequest env data).2.sessionLog.forwardTolerance = S.sessionLog.forwardTolerance := by
    rcases hlog with heq | ⟨peer, heq⟩
    · rw [heq]
      exact ⟨fun _ => rfl, rfl⟩
    · rw [heq]
      exact ⟨fun _ => SessionLog.last_recordFailure, SessionLog.recordFailure_frame.2.2.1⟩
  have hfit : (S.openRequest env data).2.resolver.EpochsFit S.peers S.sessionLog := by
    rcases hres with heq | ⟨pid, heq⟩
    · rw [heq]
      exact h
    · rw [heq]
      exact Resolver.EpochsFit.resolve h
  unfold EpochsFit peers
  rw [hcred]
  exact hfit.congr hkeep.1 hkeep.2

/-- A request that crashes the server: a well-formed message that is looked up in a table without
points, or that reaches the decryption with a nonce that the library does not take. -/
def Crashes (S : Server C) (env : ServerEnv) (data : Bytes) : Prop :=
  ∃ msg1, Message1.fromBytes data = .ok msg1 ∧ (S.resolver.Barren ∨ ∃ peer epoch,
    (S.resolver.resolve C S.peers S.sessionLog env.resolveReading msg1.pid).1 =
      .ok (peer, epoch) ∧
    S.sessionLog.isBlocked peer = false ∧ env.coverage peer = true ∧
    ¬ (8 ≤ msg1.gcmNonce.length ∧ msg1.gcmNonce.length ≤ 128))

/-- Opening a message that resolves is checking it. -/
lemma openRequest_of_resolved {S : Server C} {env : ServerEnv} {data : Bytes} {msg1 : Message1}
    {peer : String} {epoch : ℤ} (hparse : Message1.fromBytes data = .ok msg1)
    (hres : (S.resolver.resolve C S.peers S.sessionLog env.resolveReading msg1.pid).1 =
      .ok (peer, epoch)) : (S.openRequest env data).1 =
        (verify C S.entity S.sessionLog env.coverage msg1 peer epoch).1 := by
  rcases hr : S.resolver.resolve C S.peers S.sessionLog env.resolveReading msg1.pid with ⟨x, r⟩
  rw [hr] at hres
  obtain rfl : x = .ok (peer, epoch) := hres
  simp only [openRequest, hparse, resolvePseudonym, hr]

/-- Opening a message that does not resolve fails alike. -/
lemma openRequest_of_unresolved {S : Server C} {env : ServerEnv} {data : Bytes} {msg1 : Message1}
    {e : Exc} (hparse : Message1.fromBytes data = .ok msg1)
    (hres : (S.resolver.resolve C S.peers S.sessionLog env.resolveReading msg1.pid).1 =
      .error e) : (S.openRequest env data).1 = .error e := by
  rcases hr : S.resolver.resolve C S.peers S.sessionLog env.resolveReading msg1.pid with ⟨x, r⟩
  rw [hr] at hres
  obtain rfl : x = .error e := hres
  simp only [openRequest, hparse, resolvePseudonym, hr]

/-- A request that is not opened is not answered. -/
lemma handleAuthRequest_of_not_opened {S : Server C} {env : ServerEnv} {data : Bytes} {e : Exc}
    (h : (S.openRequest env data).1 = .error e) :
    (S.handleAuthRequest env data).1 = .error e := by
  rcases S.handleAuthRequest_cases env data with ⟨e', herr, heq⟩ | ⟨o, hok, -⟩
  · rw [heq]
    exact congrArg _ (Except.error.inj (herr.symm.trans h))
  · rw [h] at hok
    cases hok

/-- A request that crashes the server raises, before it is opened, something that is not handled. -/
theorem Valid.not_handled {S : Server C} (hS : S.Valid) {env : ServerEnv} {data : Bytes}
    (h : S.Crashes env data) :
    ∃ e, (S.openRequest env data).1 = .error e ∧ (S.handleAuthRequest env data).1 = .error e ∧
      ¬ e.isHandled := by
  have hopen : ∃ e, (S.openRequest env data).1 = .error e ∧ ¬ e.isHandled := by
    obtain ⟨msg1, hparse, hbarren | ⟨peer, epoch, hres, hblocked, hcov, hnonce⟩⟩ := h
    · have hzero : (S.resolver.resolve C S.peers S.sessionLog env.resolveReading msg1.pid).1 =
          .error (.ofLibrary .zeroDivisionError) := Resolver.Valid.resolve_of_barren hS hbarren
      exact ⟨_, openRequest_of_unresolved hparse hzero, by decide⟩
    · obtain ⟨lam, hlam, -⟩ := Resolver.Valid.resolve_sound hS hres
      have hverify : ∃ e, (verify C S.entity S.sessionLog env.coverage msg1 peer epoch).1 =
          .error e ∧ e.kind = .valueError := (verify_error hlam).1 ⟨hblocked, hcov, hnonce⟩
      obtain ⟨e, herr, hkind⟩ := hverify
      refine ⟨e, (openRequest_of_resolved hparse hres).trans herr, ?_⟩
      unfold Exc.isHandled
      rw [hkind]
      decide
  obtain ⟨e, herr, hnot⟩ := hopen
  exact ⟨e, herr, handleAuthRequest_of_not_opened herr, hnot⟩

/-- A request that is answered does not crash the server. -/
lemma Valid.not_crashes_of_ok {S : Server C} (hS : S.Valid) {env : ServerEnv} {data : Bytes}
    {result : AuthResult} (h : (S.handleAuthRequest env data).1 = .ok result) :
    ¬ S.Crashes env data := by
  intro hcrash
  obtain ⟨e, -, herr, -⟩ := hS.not_handled hcrash
  rw [herr] at h
  cases h

/-- A request of a valid server that was opened is of an enrolled peer and has an epoch of 64 bits;
it is answered exactly when its epoch is accepted. -/
lemma Valid.finish_of_opened {S : Server C} (hS : S.Valid)
    (hbits : S.nonceBits ∈ supportedNonceBits)
    {env : ServerEnv} {data : Bytes} {o : Opened} (hopen : (S.openRequest env data).1 = .ok o) :
    o.peer ∈ S.peers.keys ∧ (0 ≤ o.epoch ∧ o.epoch < 2 ^ 64) ∧
      (∃ res, (S.handleAuthRequest env data).1 =
        ((S.openRequest env data).2.resolver.accept C S.peers (S.openRequest env data).2.sessionLog
          env.acceptReading o.peer o.epoch o.nI).1.map fun _ => res) ∧
      ((S.handleAuthRequest env data).2.EpochsFit ↔
        ((S.openRequest env data).2.resolver.accept C S.peers (S.openRequest env data).2.sessionLog
          env.acceptReading o.peer o.epoch o.nI).2.1.EpochsFit S.peers
        ((S.openRequest env data).2.resolver.accept C S.peers (S.openRequest env data).2.sessionLog
          env.acceptReading o.peer o.epoch o.nI).2.2) := by
  obtain ⟨⟨msg1, lam, plaintext, hopens, -⟩, -, hcred, hbits'⟩ :=
    openRequest_ok (Prod.ext hopen rfl)
  have hnames := hS.names_of_opens hopens
  have hkey : o.kStar.length = keyLen := by
    rw [hopens.kStar_eq]
    exact Credential.length_pairwiseRoot C _ lam
  have hpeers : (S.openRequest env data).2.peers = S.peers := congrArg Credential.peerSecrets hcred
  have heq : S.handleAuthRequest env data = (S.openRequest env data).2.finish env o := by
    rcases S.handleAuthRequest_cases env data with ⟨e, herr, -⟩ | ⟨o', hok, heq⟩
    · rw [hopen] at herr
      cases herr
    · obtain rfl := Except.ok.inj (hopen.symm.trans hok)
      exact heq
  obtain ⟨res, hresp⟩ : ∃ res, respond C (S.openRequest env data).2.credential.identity
      (S.openRequest env data).2.nonceBits env o = .ok res :=
    ⟨_, respond_eq (hbits'.symm ▸ hbits) hnames.epoch_range hkey⟩
  refine ⟨Dict.mem_keys_iff.mpr ⟨lam, hopens.lam_eq⟩, hnames.epoch_range, ⟨res, ?_⟩, ?_⟩
  · rw [heq]
    unfold Server.finish
    rw [hpeers]
    rcases (S.openRequest env data).2.resolver.accept C S.peers
        (S.openRequest env data).2.sessionLog env.acceptReading o.peer o.epoch o.nI with
      ⟨e | u, r, log⟩
    · rfl
    · exact hresp
  · rw [heq]
    unfold EpochsFit Server.finish
    rw [hpeers]
    rcases (S.openRequest env data).2.resolver.accept C S.peers
        (S.openRequest env data).2.sessionLog env.acceptReading o.peer o.epoch o.nI with
      ⟨e | u, r, log⟩
    · dsimp only
      rw [← hpeers]
    · dsimp only
      rw [← hpeers]
      exact ⟨fun h => h.congr (fun _ => rfl) rfl, fun h => h.congr (fun _ => rfl) rfl⟩

/-- A request that does not crash the server, and is not answered, is malformed or rejected. -/
theorem Valid.rejected {S : Server C} (hS : S.Valid) (hbits : S.nonceBits ∈ supportedNonceBits)
    {env : ServerEnv} {data : Bytes} (hread : S.resolver.ReadingFits env.resolveReading)
    (hfit : S.EpochsFit) (hnext : (S.handleAuthRequest env data).2.EpochsFit)
    (hcrash : ¬ S.Crashes env data) {e : Exc} (herr : (S.handleAuthRequest env data).1 = .error e) :
    Message1.fromBytes data = .error e ∨ e.IsRejection S.peers.keys := by
  rcases hparse : Message1.fromBytes data with e' | msg1
  · have hopen : (S.openRequest env data).1 = .error e' := by
      simp only [Server.openRequest, hparse]
    rw [handleAuthRequest_of_not_opened hopen] at herr
    exact Or.inl (congrArg _ (Except.error.inj herr))
  have hbarren : ¬ S.resolver.Barren := fun h => hcrash ⟨msg1, hparse, Or.inl h⟩
  apply Or.inr
  rcases S.handleAuthRequest_cases env data with ⟨e', hopen, heq⟩ | ⟨o, hopen, heq⟩
  · rw [heq] at herr
    obtain rfl := Except.error.inj herr
    rcases hres : (S.resolver.resolve C S.peers S.sessionLog env.resolveReading msg1.pid).1 with
      e'' | ⟨peer, epoch⟩
    · rw [openRequest_of_unresolved hparse hres] at hopen
      obtain rfl := Except.error.inj hopen
      exact Resolver.Valid.resolve_error hS hfit hread hbarren hres
    · obtain ⟨lam, hlam, -⟩ := Resolver.Valid.resolve_sound hS hres
      rw [openRequest_of_resolved hparse hres] at hopen
      refine (verify_error hlam).2 (fun hbad => hcrash ?_) _ hopen
      exact ⟨msg1, hparse, Or.inr ⟨peer, epoch, hres, hbad⟩⟩
  · obtain ⟨hpeer, hepoch, ⟨res, hres⟩, hfit'⟩ := hS.finish_of_opened hbits hopen
    rw [hfit'] at hnext
    rw [hres] at herr
    rcases hacc : ((S.openRequest env data).2.resolver.accept C S.peers
        (S.openRequest env data).2.sessionLog env.acceptReading o.peer o.epoch o.nI).1 with e' | u
    · rw [hacc] at herr
      obtain rfl := Except.error.inj herr
      exact Resolver.accept_error hpeer hepoch hnext hacc
    · rw [hacc] at herr
      cases herr

/-- The premises about one request: the clock reads a time within its range, and the epochs have 64
bits before and after the request. -/
def Fits (S : Server C) (i : ServerEnv × Bytes) : Prop :=
  S.resolver.ReadingFits i.1.resolveReading ∧ S.EpochsFit ∧ (S.step i).2.EpochsFit

/-- A request that is not opened meets the premises when its surroundings do. -/
lemma fits_of_not_opened {S : Server C} {env : ServerEnv} {data : Bytes} {e : Exc}
    (hread : S.resolver.ReadingFits env.resolveReading) (hfit : S.EpochsFit)
    (h : (S.openRequest env data).1 = .error e) : S.Fits (env, data) := by
  refine ⟨hread, hfit, ?_⟩
  unfold step
  rcases S.handleAuthRequest_cases env data with ⟨e', -, heq⟩ | ⟨o, hok, -⟩
  · rw [heq]
    exact hfit.openRequest env data
  · rw [h] at hok
    cases hok

/-- The text of an exception fits into a frame. -/
def ErrorFits (r : Render) (e : Exc) : Prop :=
  (buildErrorEnvelope (Str.ofString e.kind.typeName) (e.str r)).length ≤ maxFrameBytes

/-- What is sent for a request, a text or a result, fits into a frame. -/
def ReplyFits (r : Render) (S : Server C) (i : ServerEnv × Bytes) : Prop :=
  match (S.handleAuthRequest i.1 i.2).1 with
  | .error e => ErrorFits r e
  | .ok result => ∀ envelope, buildOkEnvelope result.responseBytes = .ok envelope →
      envelope.length ≤ maxFrameBytes

/-- The condition for an answer: the request does not crash the server, and the answer fits into a
frame. -/
def Answers (r : Render) (S : Server C) (i : ServerEnv × Bytes) : Prop :=
  ¬ S.Crashes i.1 i.2 ∧ S.ReplyFits r i

/-- The text about a malformed request fits into a frame. -/
def FormatErrorFits (r : Render) (data : Bytes) : Prop :=
  ∀ e, Message1.fromBytes data = .error e → ErrorFits r e

/-- The message that an answer carries, and the lengths of its fields. -/
lemma message_of_respond {identity : String} {nonceBits : ℕ} {env : ServerEnv} {o : Opened}
    {res : AuthResult} (hkey : o.kStar.length = keyLen)
    (h : respond C identity nonceBits env o = .ok res) :
    ∃ msg2 : Message2 String, res.responseBytes = msg2.toBytes ∧ msg2.serverId = identity ∧
      msg2.gcmNonce.length = 12 ∧ msg2.ciphertext.length = nonceBits / 8 + 8 ∧
      msg2.tag.length = 16 := by
  obtain ⟨hbits, hepoch⟩ := respond_ok h
  rw [respond_eq hbits hepoch hkey] at h
  obtain rfl := Except.ok.inj h
  refine ⟨_, rfl, rfl, Urandom.length_draw _ _, ?_, C.length_gcmTag _ _ _ _⟩
  rw [C.length_gcmCrypt, List.length_append, Urandom.length_draw, length_toBytesBE]

/-- An envelope is built for every answer, and its length is bounded by that of the identity. -/
lemma exists_envelope_of_ok {S : Server C} {env : ServerEnv} {data : Bytes} {res : AuthResult}
    (h : (S.handleAuthRequest env data).1 = .ok res) :
    ∃ envelope, buildOkEnvelope res.responseBytes = .ok envelope ∧
      envelope.length ≤ 676 + 24 * S.credential.identity.length := by
  obtain ⟨o, msg1, lam, plaintext, -, hopens, hresp, -⟩ := handleAuthRequest_ok (Prod.ext h rfl)
  have hkey : o.kStar.length = keyLen := by
    rw [hopens.kStar_eq]
    exact Credential.length_pairwiseRoot C _ lam
  have hnonce : S.nonceBits / 8 ≤ 32 := by
    have hall : ∀ bits ∈ supportedNonceBits, bits / 8 ≤ 32 := by decide
    exact hall _ (respond_ok hresp).1
  obtain ⟨msg2, heq, hsid, hiv, hct, htag⟩ := message_of_respond hkey hresp
  have hlen := msg2.length_toBytes_le
  rw [hsid, hiv, hct, htag] at hlen
  have hprintable : IsPrintable msg2.toBytes :=
      isPrintable_jsonDumps Separators.isPrintable_compact _
  obtain ⟨envelope, henvelope, hlen'⟩ := buildOkEnvelope_of_printable hprintable
  rw [heq]
  exact ⟨envelope, henvelope, by omega⟩

/-- An answer of a server with a short identity fits into a frame. -/
lemma exists_frame_of_ok {S : Server C} {env : ServerEnv} {data : Bytes} {res : AuthResult}
    (hname : S.credential.identity.length ≤ shortLength)
    (h : (S.handleAuthRequest env data).1 = .ok res) :
    ∃ envelope frame, buildOkEnvelope res.responseBytes = .ok envelope ∧
      sendFrame envelope = .ok frame := by
  obtain ⟨envelope, henvelope, hlen⟩ := exists_envelope_of_ok h
  have hfits : envelope.length ≤ maxFrameBytes := by
    unfold shortLength at hname
    unfold maxFrameBytes
    omega
  obtain ⟨frame, hframe⟩ := exists_sendFrame_iff.mpr hfits
  exact ⟨envelope, frame, henvelope, hframe⟩

/-- What a request raises is handled exactly when the request does not crash the server. -/
theorem Valid.isHandled_iff {S : Server C} (hS : S.Valid) (hbits : S.nonceBits ∈ supportedNonceBits)
    {i : ServerEnv × Bytes} (hfits : S.Fits i) :
    (∀ e, (S.handleAuthRequest i.1 i.2).1 = .error e → e.isHandled) ↔ ¬ S.Crashes i.1 i.2 := by
  constructor
  · intro h hcrash
    obtain ⟨e, -, herr, hnot⟩ := hS.not_handled hcrash
    exact hnot (h e herr)
  · intro hcrash e herr
    rcases hS.rejected hbits hfits.1 hfits.2.1 hfits.2.2 hcrash herr with hparse | hrej
    · exact Or.inr (Message1.kind_of_fromBytes hparse)
    · exact hrej.isHandled

/-- What a connection sends for a request, from the outcome of the request. -/
lemma handleConnection_fst (r : Render) (S : Server C) (i : ServerEnv × Bytes) :
    (handleConnection r S i.1 (.ok i.2)).1 =
      match (S.handleAuthRequest i.1 i.2).1 with
      | .error e =>
        if e.isHandled then
          (sendFrame (buildErrorEnvelope (Str.ofString e.kind.typeName) (e.str r))).map some
        else .error e
      | .ok res => do
        let envelope ← buildOkEnvelope res.responseBytes
        let frame ← sendFrame envelope
        return some frame := by
  unfold handleConnection
  dsimp only
  rcases S.handleAuthRequest i.1 i.2 with ⟨e | res, S'⟩
  · dsimp only
    split_ifs <;> rfl
  · rfl

/-- A connection leaves the server as its request does. -/
lemma handleConnection_snd (r : Render) (S : Server C) (i : ServerEnv × Bytes) :
    (handleConnection r S i.1 (.ok i.2)).2 = (S.step i).2 := by
  unfold handleConnection step
  dsimp only
  rcases S.handleAuthRequest i.1 i.2 with ⟨e | res, S'⟩
  · dsimp only
    split_ifs <;> rfl
  · rfl

/-- A frame is sent for a request exactly when it meets the condition for an answer. -/
theorem Valid.exists_frame_iff {S : Server C} (hS : S.Valid)
    (hbits : S.nonceBits ∈ supportedNonceBits) {r : Render} {i : ServerEnv × Bytes}
    (hfits : S.Fits i) :
    (∃ frame, (handleConnection r S i.1 (.ok i.2)).1 = .ok (some frame)) ↔ S.Answers r i := by
  have hhandled := hS.isHandled_iff hbits hfits
  have hframe : ∀ x : Except Exc Bytes, (∃ frame, x.map some = .ok (some frame)) ↔
      ∃ frame, x = .ok frame := by
    intro x
    rcases x with e | a <;> simp [Except.map]
  rw [handleConnection_fst]
  unfold Answers ReplyFits
  rcases hres : (S.handleAuthRequest i.1 i.2).1 with e | res
  · dsimp only
    by_cases hcrash : S.Crashes i.1 i.2
    · obtain ⟨e', -, herr, hnot⟩ := hS.not_handled hcrash
      obtain rfl := Except.error.inj (herr.symm.trans hres)
      rw [if_neg hnot]
      simp [hcrash]
    · rw [if_pos (hhandled.mpr hcrash e hres), hframe, exists_sendFrame_iff]
      exact ⟨fun hlen => ⟨hcrash, hlen⟩, And.right⟩
  · obtain ⟨envelope, henvelope, -⟩ := exists_envelope_of_ok hres
    have hcrash := hS.not_crashes_of_ok hres
    have hsend : (∃ frame, (do
        let frame ← sendFrame envelope
        return some frame : Except Exc (Option Bytes)) = .ok (some frame)) ↔
        ∃ frame, sendFrame envelope = .ok frame := hframe (sendFrame envelope)
    dsimp only
    rw [henvelope, Except.ok_bind, hsend, exists_sendFrame_iff]
    refine ⟨fun hlen => ⟨hcrash, fun envelope' h => ?_⟩, fun h => h.2 envelope rfl⟩
    rw [← Except.ok.inj h]
    exact hlen

/-- With short identities, what is sent for a request fits into a frame exactly when the text about
it does, if it is malformed. -/
lemma Valid.replyFits_iff {S : Server C} (hS : S.Valid) (hbits : S.nonceBits ∈ supportedNonceBits)
    {r : Render} (hshort : r.Short (S.credential.identity :: S.peers.keys)) {i : ServerEnv × Bytes}
    (hfits : S.Fits i) (hcrash : ¬ S.Crashes i.1 i.2) :
    S.ReplyFits r i ↔ FormatErrorFits r i.2 := by
  have hpeers : r.Short S.peers.keys := fun p hp => hshort p (List.mem_cons_of_mem _ hp)
  have hname : S.credential.identity.length ≤ shortLength := (hshort _ List.mem_cons_self).1
  have hparse : ∀ e, Message1.fromBytes i.2 = .error e →
      (S.handleAuthRequest i.1 i.2).1 = .error e := by
    intro e he
    apply handleAuthRequest_of_not_opened
    simp only [Server.openRequest, he]
  unfold ReplyFits
  rcases hres : (S.handleAuthRequest i.1 i.2).1 with e | res
  · dsimp only
    constructor
    · intro hlen e' he'
      obtain rfl := Except.error.inj ((hparse e' he').symm.trans hres)
      exact hlen
    · intro h
      rcases hS.rejected hbits hfits.1 hfits.2.1 hfits.2.2 hcrash hres with he | hrej
      · exact h e he
      · exact hrej.envelope_fits hpeers
  · dsimp only
    constructor
    · intro _ e he
      rw [hparse e he] at hres
      cases hres
    · intro _ envelope henvelope
      obtain ⟨envelope', frame, henvelope', hframe⟩ := exists_frame_of_ok hname hres
      obtain rfl := Except.ok.inj (henvelope.symm.trans henvelope')
      exact exists_sendFrame_iff.mp ⟨frame, hframe⟩

/-- The accept loop goes through all its connections, and sends a frame on each, exactly when every
request meets the condition for an answer. -/
theorem Valid.acceptLoop_iff {S : Server C} {cred : Credential Lam Bytes} {nonceBits : ℕ}
    (hS : S.Valid ∧ S.credential = cred ∧ S.nonceBits = nonceBits)
    (hbits : nonceBits ∈ supportedNonceBits) {r : Render} {is : List (ServerEnv × Bytes)}
    (hfits : Machine.AllSteps Server.step Fits S is) :
    (∃ frames : List Bytes, (acceptLoop r S (is.map fun i => (i.1, .ok i.2))).1 =
      .ok (frames.map some)) ↔ Machine.AllSteps Server.step (Answers r) S is := by
  induction is generalizing S with
  | nil => exact ⟨fun _ => trivial, fun _ => ⟨[], rfl⟩⟩
  | cons i is ih =>
    obtain ⟨hvalid, rfl, rfl⟩ := hS
    have hframe := hvalid.exists_frame_iff (r := r) hbits hfits.1
    have hrest := ih (Valid.step ⟨hvalid, rfl, rfl⟩ i) hfits.2
    rw [← handleConnection_snd r S i] at hrest
    rw [Machine.AllSteps, ← hframe, ← handleConnection_snd r S i, ← hrest,
      List.map_cons, acceptLoop]
    dsimp only
    rcases handleConnection r S i.1 (.ok i.2) with ⟨e | frame, S'⟩
    · simp
    · dsimp only
      generalize (acceptLoop r S' _).1 = x
      rcases x with e | frames
      · simp [Except.map]
      · constructor
        · rintro ⟨all, hall⟩
          have hcons : frame :: frames = all.map some := Except.ok.inj hall
          obtain ⟨a, as, rfl, ha, has⟩ := List.map_eq_cons_iff.mp hcons.symm
          exact ⟨⟨a, congrArg _ ha.symm⟩, as, congrArg _ has.symm⟩
        · rintro ⟨⟨a, ha⟩, as, has⟩
          obtain rfl := Except.ok.inj ha
          obtain rfl := Except.ok.inj has
          exact ⟨a :: as, rfl⟩

/-- A request that crashes the server ends the accept loop. -/
theorem Valid.ends_acceptLoop {S : Server C} (hS : S.Valid) {env : ServerEnv} {data : Bytes}
    (h : S.Crashes env data) :
    ∃ e, (S.handleAuthRequest env data).1 = .error e ∧ ¬ e.isHandled ∧ ∀ r connections,
      (acceptLoop r S ((env, .ok data) :: connections)).1 = .error e := by
  obtain ⟨e, -, herr, hnot⟩ := hS.not_handled h
  refine ⟨e, herr, hnot, fun r connections => ?_⟩
  have hconn : (handleConnection r S env (.ok data)).1 = .error e := by
    have hfst := handleConnection_fst r S (env, data)
    dsimp only at hfst
    rw [herr] at hfst
    dsimp only at hfst
    rw [if_neg hnot] at hfst
    exact hfst
  unfold acceptLoop
  rcases hx : handleConnection r S env (.ok data) with ⟨x, S'⟩
  rw [hx] at hconn
  obtain rfl : x = .error e := hconn
  rfl

/-- In every reachable state, what a request raises is handled exactly when the request does not
crash the server, and the accept loop goes through any further connections and sends a frame on each
exactly when no request on the way crashes the server and every answer fits into a frame: with short
identities, when the text about every malformed request does. -/
theorem answers_unless_crash {cred : Credential Lam Bytes} {nonceBits : ℕ}
    (hbits : nonceBits ∈ supportedNonceBits) {S : Server C} (hS : Reachable cred nonceBits S) :
    (∀ i, S.Fits i → ((∀ e, (S.handleAuthRequest i.1 i.2).1 = .error e → e.isHandled) ↔
      ¬ S.Crashes i.1 i.2)) ∧
    ∀ (r : Render) (is : List (ServerEnv × Bytes)), Machine.AllSteps step Fits S is →
      ((∃ frames : List Bytes, (acceptLoop r S (is.map fun i => (i.1, .ok i.2))).1 =
        .ok (frames.map some)) ↔ Machine.AllSteps step (Answers r) S is) ∧
      (r.Short (cred.identity :: cred.peerSecrets.keys) →
        (Machine.AllSteps step (Answers r) S is ↔
          Machine.AllSteps step (fun S i => ¬ S.Crashes i.1 i.2 ∧ FormatErrorFits r i.2)
          S is)) := by
  have hvalid := hS.valid
  refine ⟨fun i hfits => ?_, fun r is hfits => ⟨?_, fun hshort => ?_⟩⟩
  · exact hvalid.1.isHandled_iff (hvalid.2.2.symm ▸ hbits) hfits
  · exact Valid.acceptLoop_iff hvalid hbits hfits
  · have hkeep : ∀ (S : Server C) (i : ServerEnv × Bytes),
        (S.Valid ∧ S.credential = cred ∧ S.nonceBits = nonceBits) → S.Fits i →
          (S.step i).2.Valid ∧ (S.step i).2.credential = cred ∧ (S.step i).2.nonceBits =
          nonceBits :=
      fun _ i h _ => Valid.step h i
    have hall : Machine.AllSteps step (fun S i =>
        (S.Valid ∧ S.credential = cred ∧ S.nonceBits = nonceBits) ∧ S.Fits i) S is :=
      Machine.invariant_allSteps hkeep hvalid hfits
    have hreply : ∀ (S : Server C) (i : ServerEnv × Bytes),
        (S.Valid ∧ S.credential = cred ∧ S.nonceBits = nonceBits) ∧ S.Fits i →
          ¬ S.Crashes i.1 i.2 → (S.ReplyFits r i ↔ FormatErrorFits r i.2) := by
      rintro T i ⟨⟨hT, hcred, hbits'⟩, hi⟩ hcrash
      exact hT.replyFits_iff (hbits' ▸ hbits) (by rw [peers, hcred]; exact hshort) hi hcrash
    exact ⟨fun h => (Machine.allSteps_and hall h).imp fun S i hi =>
        ⟨hi.2.1, (hreply S i hi.1 hi.2.1).mp hi.2.2⟩,
      fun h => (Machine.allSteps_and hall h).imp fun S i hi =>
        ⟨hi.2.1, (hreply S i hi.1 hi.2.1).mpr hi.2.2⟩⟩

/-- A message with the pseudonym of the device of the sample pair for epoch 0, under the plain
suite, and with nothing else. -/
def emptyMessage : Message1 := ⟨toBytesBE 32 (2 ^ 64), [], [], []⟩

/-- The server of the sample pair, scanning. -/
def scanningA : Server .plain := ⟨{ credential := serverA }, 128, {}, .linearScan {}⟩

/-- That server was just created. -/
lemma reachable_scanningA : Reachable serverA 128 scanningA :=
  ⟨{}, .linearScan {}, 0, scanningA, [], rfl, rfl⟩

/-- The empty message crashes the scanning server. -/
lemma crashes_emptyMessage : scanningA.Crashes (.read 0 0) emptyMessage.toBytes := by
  refine ⟨emptyMessage, Message1.fromBytes_toBytes _, Or.inr ⟨"device-1", 0, ?_, rfl, rfl, ?_⟩⟩
  · exact toOption_eq_some_iff.mp (by decide +kernel)
  · decide

/-- The epochs of the scanning server have 64 bits, also after the empty message. -/
lemma fits_emptyMessage : scanningA.Fits (.read 0 0, emptyMessage.toBytes) := by
  have hfit : scanningA.EpochsFit := by
    intro p _
    unfold scanningA
    rw [SessionLog.last_fresh]
    decide
  obtain ⟨e, hopen, -⟩ := reachable_scanningA.valid.1.not_handled crashes_emptyMessage
  exact fits_of_not_opened trivial hfit hopen

/-- A request of one device, and one of no bytes. -/
def twoConnections : List (ServerEnv × Bytes) := [plainRequest 1 0, (.read 0 0, [])]

/-- A malformed request does not crash the server. -/
lemma not_crashes_of_malformed {S : Server C} {env : ServerEnv} {data : Bytes} {e : Exc}
    (h : Message1.fromBytes data = .error e) : ¬ S.Crashes env data := by
  rintro ⟨msg1, hparse, -⟩
  rw [h] at hparse
  cases hparse

/-- There is no text about a message that is well-formed. -/
lemma formatErrorFits_toBytes (r : Render) (m : Message1) : FormatErrorFits r m.toBytes := by
  intro e he
  rw [Message1.fromBytes_toBytes] at he
  cases he

/-- A request of no bytes is malformed, with a text that fits into a frame. -/
lemma formatErrorFits_nil : raised? (Message1.fromBytes []) = some .messageFormatError ∧
    FormatErrorFits .plain [] := by
  have herror : Message1.fromBytes [] = .error (malformed "M1") := rfl
  refine ⟨by rw [herror]; rfl, fun e he => ?_⟩
  obtain rfl := Except.error.inj (herror.symm.trans he)
  unfold ErrorFits
  decide +kernel

/-- The epochs of a server of two devices have 64 bits when those of its resolver do. -/
lemma IsOfTwo.epochsFit {S : Server .plain} {log : SessionLog} {r : Resolver} (h : S.IsOfTwo log r)
    (hfit : r.EpochsFit serverOfTwo.peerSecrets log) : S.EpochsFit := by
  obtain ⟨hcred, -, rfl, rfl⟩ := h
  unfold EpochsFit peers
  rw [hcred]
  exact hfit

/-- A request of no bytes meets the conditions of the accept loop. -/
lemma allSteps_nil {S : Server C} (hcounter : S.resolver.IsCounter) (hfit : S.EpochsFit) :
    Machine.AllSteps step Fits S [(.read 0 0, [])] ∧
    Machine.AllSteps step (fun S i => ¬ S.Crashes i.1 i.2 ∧ FormatErrorFits .plain i.2) S
      [(.read 0 0, [])] := by
  obtain ⟨hraised, hfits⟩ := formatErrorFits_nil
  obtain ⟨e, he, -⟩ := raised?_eq_some_iff.mp hraised
  have hopen : (S.openRequest (.read 0 0) []).1 = .error e := by
    simp only [openRequest, he]
  exact ⟨⟨fits_of_not_opened (hcounter.readingFits 0) hfit hopen, trivial⟩,
    ⟨not_crashes_of_malformed he, hfits⟩, trivial⟩

/-- So do a request that a server of two devices answers and one of no bytes after it. -/
lemma IsOfTwo.allSteps_answered_nil {S : Server .plain} {log log' : SessionLog} {r : Resolver}
    (h : S.IsOfTwo log r) (hS : S.Valid) (hr : r.IsCounter)
    (hfit : r.EpochsFit serverOfTwo.peerSecrets log) {i : ServerEnv × Bytes} {m : Message1}
    (hm : i.2 = m.toBytes) {result : AuthResult} (hresult : (S.step i).1 = .ok result)
    {pid nI : Bytes} {peer : String} {epoch : ℤ}
    (hnext : (S.step i).2.IsOfTwo log'
      ((r.resolve .plain serverOfTwo.peerSecrets log 0 pid).2.accept .plain serverOfTwo.peerSecrets
        log 0 peer epoch nI).2.1)
    (hfit' : r.EpochsFit serverOfTwo.peerSecrets log') :
    Machine.AllSteps Server.step Fits S [i, (.read 0 0, [])] ∧
    Machine.AllSteps Server.step (fun S i => ¬ S.Crashes i.1 i.2 ∧ FormatErrorFits .plain i.2) S
      [i, (.read 0 0, [])] := by
  have hcounter : S.resolver.IsCounter := h.2.2.2.symm ▸ hr
  have hcounter' : (S.step i).2.resolver.IsCounter :=
    (S.isCounter_handleAuthRequest i.1 i.2).mpr hcounter
  have hfit'' : (S.step i).2.EpochsFit := hnext.epochsFit hfit'.resolve.accept
  obtain ⟨hfits, hcrash⟩ := allSteps_nil hcounter' hfit''
  exact ⟨⟨⟨hcounter.readingFits _, h.epochsFit hfit, hfit''⟩, hfits⟩,
    ⟨hS.not_crashes_of_ok hresult, hm ▸ formatErrorFits_toBytes .plain m⟩, hcrash⟩

/-- The server of two devices answers the first of these requests, rejects the second one, and its
epochs keep within 64 bits. -/
lemma answers_twoConnections : Machine.AllSteps step Fits scanningTwo twoConnections ∧
    Machine.AllSteps step (fun S i => ¬ S.Crashes i.1 i.2 ∧ FormatErrorFits .plain i.2) scanningTwo
      twoConnections := by
  have hinit : scanningTwo.IsOfTwo {} (.linearScan {}) := ⟨rfl, rfl, rfl, rfl⟩
  have hone : serverOfTwo.peerSecrets.get "device-1" = some 1 := rfl
  have hzero : 0 < 2 ^ 64 := by decide
  obtain ⟨⟨result, hanswered⟩, hnext⟩ := hinit.exists_answered hone hzero
    (toOption_eq_some_iff.mp (by decide +kernel)) rfl (toOption_eq_some_iff.mp (by decide +kernel))
  have hbelow : EpochsBelow serverOfTwo.peerSecrets {} ∧ EpochsBelow serverOfTwo.peerSecrets
      ((SessionLog.acceptEpoch {} "device-1" 0).recordSuccess "device-1") := by
    unfold EpochsBelow
    decide +kernel
  have hreachable : Reachable serverOfTwo 128 scanningTwo :=
    ⟨{}, .linearScan {}, 0, scanningTwo, [], rfl, rfl⟩
  have hvalid : scanningTwo.Valid := hreachable.valid.1
  have hscan : ∀ log, EpochsBelow serverOfTwo.peerSecrets log →
      (Resolver.linearScan {}).EpochsFit serverOfTwo.peerSecrets log := fun _ h => h
  exact hinit.allSteps_answered_nil hvalid trivial (hscan _ hbelow.1) (plainRequest_snd 1 0)
    hanswered.result_eq hnext (hscan _ hbelow.2)

/-- The condition for the scanning server and the empty message; and the accept loop goes through
two connections. -/
theorem answers_unless_crash_scanningA :
    ((∀ e, (scanningA.handleAuthRequest (.read 0 0) emptyMessage.toBytes).1 = .error e →
      e.isHandled) ↔ ¬ scanningA.Crashes (.read 0 0) emptyMessage.toBytes) ∧
    ∃ frames : List Bytes, (acceptLoop .plain scanningTwo
      (twoConnections.map fun i => (i.1, .ok i.2))).1 = .ok (frames.map some) := by
  have hempty := (answers_unless_crash (by decide) reachable_scanningA).1
    (.read 0 0, emptyMessage.toBytes) fits_emptyMessage
  have hreachable : Reachable serverOfTwo 128 scanningTwo :=
    ⟨{}, .linearScan {}, 0, scanningTwo, [], rfl, rfl⟩
  have hshort : Render.plain.Short (serverOfTwo.identity :: serverOfTwo.peerSecrets.keys) := by
    intro p hp
    have hall : ∀ p ∈ serverOfTwo.identity :: serverOfTwo.peerSecrets.keys,
        p.length ≤ shortLength ∧ (Render.plain.reprStr p).length ≤ shortLength := by decide
    exact hall p hp
  obtain ⟨hfits, hanswers⟩ := answers_twoConnections
  obtain ⟨hloop, hiff⟩ :=
    (answers_unless_crash (by decide) hreachable).2 .plain twoConnections hfits
  exact ⟨hempty, hloop.mpr ((hiff hshort).mpr hanswers)⟩

/-- The empty message ends the accept loop. -/
theorem emptyMessage_ends_acceptLoop :
    Reachable serverA 128 scanningA ∧ scanningA.Fits (.read 0 0, emptyMessage.toBytes) ∧
      ∃ e, (scanningA.handleAuthRequest (.read 0 0) emptyMessage.toBytes).1 = .error e ∧
        ¬ e.isHandled ∧ ∀ r connections,
          (acceptLoop r scanningA ((.read 0 0, .ok emptyMessage.toBytes) :: connections)).1 =
            .error e :=
  ⟨reachable_scanningA, fits_emptyMessage,
    reachable_scanningA.valid.1.ends_acceptLoop crashes_emptyMessage⟩

end Server

end HybridEccAuth

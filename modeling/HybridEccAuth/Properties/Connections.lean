import HybridEccAuth.Demo.Authenticate
import HybridEccAuth.Properties.CrashFreedom

/-!
# One connection

What a device gets on a connection to the server process: nothing, if the connection is refused, the
server is busy or any byte of the request is lost (`exchange_refused`, `exchange_waiting`,
`exchange_cut`), and otherwise the one envelope that the server sends, if all of that arrives
(`exchange_answered`).  The envelope says what the server has made of the request
(`handleConnection_accepted`, `handleConnection_rejected`).
-/

namespace HybridEccAuth

variable {C : Crypto}

/-! ## What arrives -/

/-- The length of a first message. -/
lemma Message1.length_toBytes_le (m : Message1) : m.toBytes.length ≤ 120 +
    3 * (m.pid.length + m.gcmNonce.length + m.ciphertext.length + m.tag.length) := by
  have hv : (jsonString (Str.ofString "v")).length = 3 := by decide
  have htype : (jsonString (Str.ofString "type")).length = 6 := by decide
  have hkind : (jsonString (Str.ofString "M1")).length = 4 := by decide
  have hpid : (jsonString (Str.ofString "pid")).length = 5 := by decide
  have hnonce : (jsonString (Str.ofString "nonce")).length = 7 := by decide
  have hct : (jsonString (Str.ofString "ct")).length = 4 := by decide
  have htag : (jsonString (Str.ofString "tag")).length = 5 := by decide
  have hpid' := length_jsonString_b64_le m.pid
  have hnonce' := length_jsonString_b64_le m.gcmNonce
  have hct' := length_jsonString_b64_le m.ciphertext
  have htag' := length_jsonString_b64_le m.tag
  simp only [Message1.toBytes, payloadMembers, jsonDumps, dumpsMembers, dumpsMember,
    Scalar.dumps, Separators.compact, List.length_append, List.length_cons, List.length_nil, hv,
    htype, hkind, hpid, hnonce, hct, htag]
  omega

/-- A request fits into a frame. -/
lemma Device.length_le_of_build {D D' : Device C} {env : BuildEnv} {R : String} {data : Bytes}
    (hbuild : D.buildAuthRequest env R = (.ok data, D')) : data.length ≤ maxFrameBytes := by
  obtain ⟨lam, s, msg1, -, hcompose, rfl, -⟩ := buildAuthRequest_ok hbuild
  obtain ⟨hpid, hbits, hsession, hmsg1⟩ :=
    compose_eq (Credential.length_pairwiseRoot C D.credential lam) hcompose
  have hnonce : D.nonceBits / 8 ≤ 32 := by
    have hall : ∀ bits ∈ supportedNonceBits, bits / 8 ≤ 32 := by decide
    exact hall _ hbits
  have hnI : s.nI.length = D.nonceBits / 8 := by
    rw [hsession]
    exact Urandom.length_draw _ _
  have hpid' := length_of_h2Pseudonym hpid
  have hiv : msg1.gcmNonce.length = 12 := by
    rw [hmsg1]
    exact Urandom.length_draw _ _
  have hct : msg1.ciphertext.length = s.pid.length + s.nI.length + 8 := by
    rw [hmsg1, C.length_gcmCrypt, List.length_append, List.length_append, length_toBytesBE]
  have htag : msg1.tag.length = 16 := by
    rw [hmsg1]
    exact C.length_gcmTag _ _ _ _
  have hlength := msg1.length_toBytes_le
  have hmsgpid : msg1.pid.length = 32 := by
    rw [hmsg1]
    exact hpid'
  unfold maxFrameBytes
  omega

/-- What is not too long is sent as its frame. -/
lemma sendFrame_of_le {payload : Bytes} (h : payload.length ≤ maxFrameBytes) :
    sendFrame payload = .ok (Socket.frame payload) := by
  rw [sendFrame, if_neg (Nat.not_lt.mpr h), Socket.frame]

/-- What is sent is a frame. -/
lemma sendFrame_ok {payload sent : Bytes} (h : sendFrame payload = .ok sent) :
    payload.length ≤ maxFrameBytes ∧ sent = Socket.frame payload := by
  have hle := exists_sendFrame_iff.mp ⟨sent, h⟩
  rw [sendFrame_of_le hle] at h
  exact ⟨hle, (Except.ok.inj h).symm⟩

/-- A frame that arrives as a whole is received, one that does not is not. -/
lemma recvFrame_arriving {payload : Bytes} (h : payload.length ≤ maxFrameBytes) (lost : ℕ)
    (ready : Stream' ℕ) :
    (Socket.recvFrame.outcome (arriving lost ready (Socket.frame payload))).1 =
      if lost = 0 then .ok payload else .error Socket.closed := by
  split_ifs with hlost
  · obtain ⟨ready', hrecv⟩ := Socket.recvFrame_frame h [] ready
    rw [List.append_nil] at hrecv
    rw [arriving, hlost, Nat.sub_zero, List.take_length, hrecv]
  · have hcut : (Socket.frame payload).length - lost < (Socket.frame payload).length := by
      have hpos : 0 < (Socket.frame payload).length := by
        rw [Socket.frame, List.length_append, length_toBytesBE]
        omega
      omega
    obtain ⟨ready', hrecv⟩ := Socket.recvFrame_take_frame h hcut ready
    rw [arriving, hrecv]

/-- Nothing is received on a connection on which nothing was sent. -/
lemma recvFrame_arriving_nil (lost : ℕ) (ready : Stream' ℕ) :
    (Socket.recvFrame.outcome (arriving lost ready [])).1 = .error Socket.closed := by
  have hshort : (arriving lost ready []).unread.length < 4 := by
    rw [arriving, List.take_nil]
    exact Nat.succ_pos 3
  obtain ⟨ready', hrecv⟩ := Socket.recvFrame_of_short_header hshort
  rw [hrecv]

/-- How a request arrives at the server. -/
inductive Arrival
  | whole
  | ended
  | unfinished
  deriving DecidableEq

/-- A request arrives as a whole, or its connection ends before that, or neither. -/
def Arrival.of (lost : ℕ) (ended : Bool) : Arrival :=
  if lost = 0 then .whole else if ended then .ended else .unfinished

/-- The request that waits. -/
def Waiting.arrival (w : Waiting) : Arrival := .of w.lost w.ended

/-- The request that a device sends. -/
def Link.arrival (link : Link) : Arrival := .of link.requestLost link.requestEnded

/-- What the server receives on a connection on which a request was sent. -/
lemma Waiting.receive_frame {w : Waiting} {payload : Bytes} (h : payload.length ≤ maxFrameBytes)
    (hsent : w.sent = Socket.frame payload) :
    w.receive = match w.arrival with
      | .whole => some (.ok payload)
      | .ended => some (.error Socket.closed)
      | .unfinished => none := by
  have hclosed : Socket.closed.kind = .connectionError := rfl
  rw [receive, hsent, recvFrame_arriving h, arrival, Arrival.of]
  by_cases hlost : w.lost = 0
  · rw [if_pos hlost, if_pos hlost]
  · rw [if_neg hlost, if_neg hlost]
    dsimp only
    by_cases hended : w.ended = true
    · rw [if_pos hended, if_neg (fun hand => by rw [hended] at hand; cases hand.2)]
    · rw [if_neg hended, if_pos ⟨hclosed, Bool.eq_false_of_not_eq_true hended⟩]

section Exchange

variable {r : Render} {link : Link} {env : ServerEnv} {payload : Bytes} {P : ServerProcess C}
  {S S' : Server C}

/-- The connection of a run, with its request, as the server has it. -/
def Link.waiting (link : Link) (env : ServerEnv) (payload : Bytes) : Waiting :=
  ⟨Socket.frame payload, link.requestLost, link.requestEnded, link.requestReady, env⟩

/-- What the server receives of the request of a run. -/
lemma Link.receive_waiting (link : Link) (env : ServerEnv) (h : payload.length ≤ maxFrameBytes) :
    (link.waiting env payload).receive = match link.arrival with
      | .whole => some (.ok payload)
      | .ended => some (.error Socket.closed)
      | .unfinished => none :=
  Waiting.receive_frame h rfl

/-- Without a server process, or a connection, nothing happens. -/
lemma exchange_refused {process : Option (ServerProcess C)}
    (h : process = none ∨ link.connects = false) :
    exchange r link env payload process = (.error (.ofLibrary .connectionError), process) := by
  rcases process with _ | P
  · rfl
  · rw [exchange, h.resolve_left (Option.some_ne_none P), if_neg Bool.false_ne_true]

/-- A request that is not received at once is not answered, and stays with the server. -/
lemma exchange_waiting (hconnects : link.connects = true) (h : payload.length ≤ maxFrameBytes)
    (hwaits : P.waiting ≠ [] ∨ link.arrival = .unfinished) :
    exchange r link env payload (some P) = (.error (.ofLibrary .connectionError),
      some { P with waiting := P.waiting ++ [link.waiting env payload] }) := by
  have hreceive := link.receive_waiting env h
  rw [exchange, if_pos hconnects, sendFrame_of_le h]
  dsimp only
  rcases hqueue : P.waiting with _ | ⟨w, waiting⟩
  · -- the server is idle, so it is the request that is not complete
    rw [hwaits.resolve_left (not_not.mpr hqueue), Link.waiting] at hreceive
    rw [hreceive]
    rfl
  · rfl

/-- A request that is cut off reaches the server process, but not the server. -/
lemma exchange_cut (hconnects : link.connects = true) (h : payload.length ≤ maxFrameBytes)
    (hcut : link.arrival = .ended) :
    exchange r link env payload (some ⟨S, []⟩) = (.error Socket.closed, some ⟨S, []⟩) := by
  have hkind : Socket.closed.kind = .connectionError ∨ Socket.closed.kind = .valueError :=
    Or.inl rfl
  have hreceive := link.receive_waiting env h
  rw [hcut, Link.waiting] at hreceive
  rw [exchange, if_pos hconnects, sendFrame_of_le h]
  dsimp only
  rw [hreceive]
  dsimp only
  rw [handleConnection, if_pos hkind]
  dsimp only
  rw [Option.getD_none, recvFrame_arriving_nil]

/-- A request that arrives is answered by one frame, which arrives or does not. -/
lemma exchange_answered (hconnects : link.connects = true) (h : payload.length ≤ maxFrameBytes)
    (hwhole : link.arrival = .whole) {envelope : Bytes}
    (hfits : envelope.length ≤ maxFrameBytes)
    (hanswer : handleConnection r S env (.ok payload) = (.ok (some (Socket.frame envelope)), S')) :
    exchange r link env payload (some ⟨S, []⟩) =
      (if link.responseLost = 0 then .ok envelope else .error Socket.closed, some ⟨S', []⟩) := by
  have hreceive := link.receive_waiting env h
  rw [hwhole, Link.waiting] at hreceive
  rw [exchange, if_pos hconnects, sendFrame_of_le h]
  dsimp only
  rw [hreceive]
  dsimp only
  rw [hanswer]
  dsimp only
  rw [Option.getD_some, recvFrame_arriving hfits]

end Exchange

/-! ## What the server sends -/

/-- A response that is read tells whether the request was accepted. -/
lemma okFlag_of_readResponse {responseBytes : Bytes} {response : ServerResponse}
    (h : readResponse responseBytes = some response) :
    okFlag responseBytes = match response with
      | .accepted _ => some true
      | .rejected _ _ => some false := by
  unfold readResponse at h
  split at h
  · rename_i envelope hparse
    rw [okFlag, hparse]
    dsimp only
    obtain ⟨ok, hok, h⟩ := Option.bind_eq_some_iff.mp h
    rw [hok, Option.map_some]
    split_ifs at h with htruth
    · obtain ⟨payload, -, h⟩ := Option.bind_eq_some_iff.mp h
      obtain ⟨text, -, h⟩ := Option.bind_eq_some_iff.mp h
      obtain ⟨msg2Bytes, -, h⟩ := Option.bind_eq_some_iff.mp h
      cases h
      rw [htruth]
    · obtain ⟨errorType, -, h⟩ := Option.bind_eq_some_iff.mp h
      obtain ⟨message, -, h⟩ := Option.bind_eq_some_iff.mp h
      cases h
      rw [Bool.eq_false_of_not_eq_true htruth]
  · cases h

/-- A brief text has no surrogates. -/
lemma Exc.noSurrogate_str {r : Render} (hrepr : ∀ p, NoSurrogate (r.reprStr p))
    {names : List String}
    {e : Exc} (h : e.Brief names) : NoSurrogate (e.str r) := by
  intro c hc
  obtain ⟨part, hmem, hpart⟩ := List.mem_flatMap.mp hc
  have hbrief := h.2 part hmem
  rcases part with t | p | p | v | n | q | t
  · exact noSurrogate_ofString t c hpart
  · exact noSurrogate_ofString p c hpart
  · exact hrepr p c hpart
  · exact hbrief.elim
  · exact noSurrogate_ofString (toString n) c hpart
  · exact hbrief.elim
  · exact hbrief.elim

section Answers

variable {r : Render} {env : ServerEnv} {data : Bytes} {S S' : Server C}

/-- A result is sent in an envelope from which the second message is read. -/
lemma handleConnection_accepted (hname : S.credential.identity.length ≤ shortLength)
    {result : AuthResult} (h : S.handleAuthRequest env data = (.ok result, S'))
    {m : Message2 String}
    (hm : result.responseBytes = m.toBytes) :
    ∃ envelope, handleConnection r S env (.ok data) = (.ok (some (Socket.frame envelope)), S') ∧
      envelope.length ≤ maxFrameBytes ∧
      readResponse envelope = some (.accepted result.responseBytes) := by
  obtain ⟨envelope, sent, henvelope, hsent⟩ :=
    Server.exists_frame_of_ok hname (congrArg Prod.fst h)
  obtain ⟨hfits, rfl⟩ := sendFrame_ok hsent
  have hprintable := m.isPrintable_toBytes
  have hascii : ∀ b ∈ result.responseBytes, b.toNat < 128 := fun b hb => by
    have := hprintable b (hm ▸ hb)
    omega
  obtain ⟨envelope', henvelope', -, hread⟩ := readResponse_buildOkEnvelope hascii
  obtain rfl := Except.ok.inj (henvelope.symm.trans henvelope')
  refine ⟨envelope, ?_, hfits, hread⟩
  rw [handleConnection, h]
  dsimp only
  rw [henvelope, Except.ok_bind, hsent]
  rfl

/-- A rejection is sent in an envelope from which its class and its text are read. -/
lemma handleConnection_rejected (hshort : r.Short S.peers.keys)
    (hrepr : ∀ p, NoSurrogate (r.reprStr p)) {e : Exc}
    (h : S.handleAuthRequest env data = (.error e, S')) (hrej : e.IsRejection S.peers.keys) :
    ∃ envelope, handleConnection r S env (.ok data) = (.ok (some (Socket.frame envelope)), S') ∧
      envelope.length ≤ maxFrameBytes ∧
      readResponse envelope =
        some (.rejected (.str (Str.ofString e.kind.typeName)) (.str (e.str r))) := by
  have hfits := hrej.envelope_fits hshort
  refine ⟨_, ?_, hfits, readResponse_buildErrorEnvelope (noSurrogate_ofString _)
    (Exc.noSurrogate_str hrepr hrej.2)⟩
  rw [handleConnection, h]
  dsimp only
  rw [if_pos hrej.isHandled, sendFrame_of_le hfits]
  rfl

end Answers

end HybridEccAuth

import HybridEccAuth.Demo.Transport
import HybridEccAuth.Library.StateExcept
import Mathlib.Data.Stream.Init

/-!
# Receiving frames

A connection delivers a stream of bytes in chunks whose sizes the operating system
chooses.  `recv_frame` puts the chunks together: what it returns, and how many bytes it
takes, depends on the bytes of the stream alone (`recvExact_of_le`, `recvExact_of_lt`).
So the frames that were sent are received one by one, however the stream is cut
(`recvFrames_sendFrames`).
-/

namespace HybridEccAuth

open StateExcept

/-- The receiving end of a connection: the bytes that arrive before it is closed, and how many bytes
beyond the first one are ready at each of the next calls of `recv`. -/
structure Socket where
  unread : Bytes
  ready : Stream' ℕ

namespace Socket

/-- `sock.recv(n)`: the bytes that are ready, at most `n` of them; none after the end. -/
def recv (n : ℕ) : StateExcept Exc Socket Bytes := fun sock =>
  let size := min n (sock.ready.head + 1)
  (.ok (sock.unread.take size), ⟨sock.unread.drop size, sock.ready.tail⟩)

/-- What `_recv_exact` raises. -/
def closed : Exc := ⟨.connectionError, [.lit "peer closed the connection mid-frame"]⟩

/-- The loop of `_recv_exact`. -/
def recvLoop (remaining : ℕ) (chunks : List Bytes) : StateExcept Exc Socket Bytes :=
  if remaining = 0 then pure chunks.flatten
  else do
    let chunk ← recv remaining
    if chunk = [] then StateExcept.lift (.error closed)
    else recvLoop (remaining - chunk.length) (chunks ++ [chunk])
termination_by remaining
decreasing_by
  have hchunk := List.length_pos_iff.mpr ‹chunk ≠ []›
  omega

/-- `_recv_exact`. -/
def recvExact (n : ℕ) : StateExcept Exc Socket Bytes := recvLoop n []

/-- What `recv_frame` raises on a header that announces too many bytes. -/
def announcedTooLong (length : ℕ) : Exc :=
  ⟨.valueError, [.lit "peer announced a frame of ", .int length,
    .lit " bytes, exceeding MAX_FRAME_BYTES=", .int maxFrameBytes]⟩

/-- `recv_frame`. -/
def recvFrame : StateExcept Exc Socket Bytes := do
  let header ← recvExact 4
  if maxFrameBytes < fromBytesBE header then
    StateExcept.lift (.error (announcedTooLong (fromBytesBE header)))
  else recvExact (fromBytesBE header)

/-- Successive calls of `recv_frame`: what they return up to the first exception, the exception, and
the socket they leave. -/
def recvFrames : ℕ → Socket → List Bytes × Option Exc × Socket
  | 0, sock => ([], none, sock)
  | n + 1, sock =>
    match recvFrame.outcome sock with
    | (.ok payload, sock) => (payload :: (recvFrames n sock).1, (recvFrames n sock).2)
    | (.error e, sock) => ([], some e, sock)

/-- A payload behind its length. -/
def frame (payload : Bytes) : Bytes := toBytesBE 4 payload.length ++ payload

/-- The bytes that successive calls of `send_frame` send. -/
def sendFrames (payloads : List Bytes) : Except Exc Bytes :=
  (payloads.mapM sendFrame).map List.flatten

/-! ## Receiving a number of bytes -/

/-- Any nonempty chunk of at most the bytes asked for can be what is ready. -/
theorem outcome_recv_append {n : ℕ} {chunk : Bytes} (hne : chunk ≠ []) (hn : chunk.length ≤ n)
    (rest : Bytes) (ready : Stream' ℕ) :
    (recv n).outcome ⟨chunk ++ rest, ready.cons (chunk.length - 1)⟩ =
    (.ok chunk, ⟨rest, ready⟩) := by
  have hpos := List.length_pos_iff.mpr hne
  have hsize : min n (chunk.length - 1 + 1) = chunk.length := by omega
  show (Except.ok ((chunk ++ rest).take (min n (chunk.length - 1 + 1))),
    Socket.mk ((chunk ++ rest).drop (min n (chunk.length - 1 + 1))) ready) = _
  rw [hsize, List.take_left, List.drop_left]

/-- A round of the loop either finds the stream at its end or takes a chunk of it. -/
lemma outcome_recvLoop_succ {remaining : ℕ} (h : remaining ≠ 0) (chunks : List Bytes)
    (sock : Socket) :
    (sock.unread = [] → ∃ ready, (recvLoop remaining chunks).outcome sock =
      (.error closed, ⟨[], ready⟩)) ∧
    (sock.unread ≠ [] → ∃ size ready, 0 < size ∧ size ≤ remaining ∧ size ≤ sock.unread.length ∧
      (recvLoop remaining chunks).outcome sock =
        (recvLoop (remaining - size) (chunks ++ [sock.unread.take size])).outcome
          ⟨sock.unread.drop size, ready⟩) := by
  have hrecv : (recv remaining).outcome sock =
      (.ok (sock.unread.take (min remaining (sock.ready.head + 1))),
        ⟨sock.unread.drop (min remaining (sock.ready.head + 1)), sock.ready.tail⟩) := rfl
  rw [recvLoop, if_neg h, outcome_bind, hrecv]
  dsimp only
  constructor
  · intro hend
    refine ⟨sock.ready.tail, ?_⟩
    rw [hend, List.take_nil, List.drop_nil, if_pos rfl]
    rfl
  · intro hne
    have hpos := List.length_pos_iff.mpr hne
    have hlength := List.length_take (i := min remaining (sock.ready.head + 1)) (l := sock.unread)
    have hchunk : sock.unread.take (min remaining (sock.ready.head + 1)) ≠ [] := by
      rw [← List.length_pos_iff, hlength]
      omega
    rw [if_neg hchunk]
    refine ⟨(sock.unread.take (min remaining (sock.ready.head + 1))).length, sock.ready.tail,
      by omega, by omega, by omega, ?_⟩
    rw [hlength, ← List.take_eq_take_min, ← List.drop_eq_drop_min]

/-- Bytes that arrive are received, and no others are taken. -/
lemma outcome_recvLoop_of_le {remaining : ℕ} (chunks : List Bytes) {sock : Socket}
    (h : remaining ≤ sock.unread.length) :
    ∃ ready, (recvLoop remaining chunks).outcome sock =
      (.ok (chunks.flatten ++ sock.unread.take remaining),
        ⟨sock.unread.drop remaining, ready⟩) := by
  induction remaining using Nat.strong_induction_on generalizing chunks sock with
  | _ remaining ih =>
    by_cases hzero : remaining = 0
    · refine ⟨sock.ready, ?_⟩
      rw [recvLoop, if_pos hzero, hzero, List.take_zero, List.append_nil]
      rfl
    · have hne : sock.unread ≠ [] := by
        rw [← List.length_pos_iff]
        omega
      obtain ⟨size, ready, hpos, hle, -, hround⟩ :=
        (outcome_recvLoop_succ hzero chunks sock).2 hne
      have hrest : remaining - size ≤ (Socket.mk (sock.unread.drop size) ready).unread.length := by
        rw [List.length_drop]
        omega
      obtain ⟨ready', hloop⟩ := ih (remaining - size) (by omega)
        (chunks ++ [sock.unread.take size]) hrest
      refine ⟨ready', ?_⟩
      have hsum : size + (remaining - size) = remaining := by omega
      rw [hround, hloop, List.flatten_append, List.flatten_singleton, List.append_assoc,
        ← List.take_add, List.drop_drop, hsum]

/-- A stream that ends too early raises. -/
lemma outcome_recvLoop_of_lt {remaining : ℕ} (chunks : List Bytes) {sock : Socket}
    (h : sock.unread.length < remaining) :
    ∃ ready, (recvLoop remaining chunks).outcome sock = (.error closed, ⟨[], ready⟩) := by
  induction remaining using Nat.strong_induction_on generalizing chunks sock with
  | _ remaining ih =>
    have hround := outcome_recvLoop_succ (Nat.ne_zero_of_lt h) chunks sock
    by_cases hne : sock.unread = []
    · exact hround.1 hne
    · obtain ⟨size, ready, hpos, hle, hlength, hround⟩ := hround.2 hne
      have hrest : (Socket.mk (sock.unread.drop size) ready).unread.length < remaining - size := by
        rw [List.length_drop]
        omega
      obtain ⟨ready', hloop⟩ := ih (remaining - size) (by omega)
        (chunks ++ [sock.unread.take size]) hrest
      exact ⟨ready', by rw [hround, hloop]⟩

/-- `_recv_exact` returns the next bytes of the stream. -/
theorem recvExact_of_le {n : ℕ} {sock : Socket} (h : n ≤ sock.unread.length) :
    ∃ ready, (recvExact n).outcome sock =
      (.ok (sock.unread.take n), ⟨sock.unread.drop n, ready⟩) :=
  outcome_recvLoop_of_le [] h

/-- `_recv_exact` raises when fewer bytes arrive. -/
theorem recvExact_of_lt {n : ℕ} {sock : Socket} (h : sock.unread.length < n) :
    ∃ ready, (recvExact n).outcome sock = (.error closed, ⟨[], ready⟩) :=
  outcome_recvLoop_of_lt [] h

/-! ## Receiving a frame -/

/-- A header followed by too few bytes for a frame. -/
lemma recvFrame_of_short_header {sock : Socket} (h : sock.unread.length < 4) :
    ∃ ready, recvFrame.outcome sock = (.error closed, ⟨[], ready⟩) := by
  obtain ⟨ready, hheader⟩ := recvExact_of_lt h
  refine ⟨ready, ?_⟩
  rw [recvFrame, outcome_bind, hheader]

section Header

variable {header : Bytes} (hheader : header.length = 4) (body : Bytes) (ready : Stream' ℕ)

include hheader

/-- What happens once the header has arrived. -/
lemma recvFrame_of_header : ∃ ready', recvFrame.outcome ⟨header ++ body, ready⟩ =
    if maxFrameBytes < fromBytesBE header then
      (.error (announcedTooLong (fromBytesBE header)), ⟨body, ready'⟩)
    else (recvExact (fromBytesBE header)).outcome ⟨body, ready'⟩ := by
  have hlength : 4 ≤ (Socket.mk (header ++ body) ready).unread.length := by
    rw [List.length_append]
    omega
  obtain ⟨ready', hrecv⟩ := recvExact_of_le hlength
  refine ⟨ready', ?_⟩
  rw [recvFrame, outcome_bind, hrecv]
  dsimp only
  rw [List.take_left' hheader, List.drop_left' hheader]
  split_ifs
  · rfl
  · rfl

/-- A header that announces too many bytes is refused before any byte of the body is taken. -/
theorem recvFrame_of_announced (h : maxFrameBytes < fromBytesBE header) :
    ∃ ready', recvFrame.outcome ⟨header ++ body, ready⟩ =
      (.error (announcedTooLong (fromBytesBE header)), ⟨body, ready'⟩) := by
  obtain ⟨ready', hframe⟩ := recvFrame_of_header hheader body ready
  exact ⟨ready', by rw [hframe, if_pos h]⟩

/-- A frame whose body has arrived is received. -/
theorem recvFrame_of_complete (hmax : fromBytesBE header ≤ maxFrameBytes)
    (h : fromBytesBE header ≤ body.length) :
    ∃ ready', recvFrame.outcome ⟨header ++ body, ready⟩ =
      (.ok (body.take (fromBytesBE header)), ⟨body.drop (fromBytesBE header), ready'⟩) := by
  obtain ⟨ready', hframe⟩ := recvFrame_of_header hheader body ready
  obtain ⟨ready'', hbody⟩ :=
    recvExact_of_le (show fromBytesBE header ≤ (Socket.mk body ready').unread.length from h)
  exact ⟨ready'', by rw [hframe, if_neg (Nat.not_lt.mpr hmax), hbody]⟩

/-- A frame whose body is cut off is not received. -/
theorem recvFrame_of_short_body (hmax : fromBytesBE header ≤ maxFrameBytes)
    (h : body.length < fromBytesBE header) :
    ∃ ready', recvFrame.outcome ⟨header ++ body, ready⟩ = (.error closed, ⟨[], ready'⟩) := by
  obtain ⟨ready', hframe⟩ := recvFrame_of_header hheader body ready
  obtain ⟨ready'', hbody⟩ :=
    recvExact_of_lt (show (Socket.mk body ready').unread.length < fromBytesBE header from h)
  exact ⟨ready'', by rw [hframe, if_neg (Nat.not_lt.mpr hmax), hbody]⟩

end Header

/-- What `recv_frame` returns is the body of a frame at the start of the stream, and it takes
exactly the bytes of this frame. -/
theorem unread_of_recvFrame {sock sock' : Socket} {payload : Bytes}
    (h : recvFrame.outcome sock = (.ok payload, sock')) :
    payload.length ≤ maxFrameBytes ∧ sock.unread = frame payload ++ sock'.unread := by
  by_cases hshort : sock.unread.length < 4
  · obtain ⟨ready, hclosed⟩ := recvFrame_of_short_header hshort
    rw [hclosed] at h
    cases h
  have hheader : (sock.unread.take 4).length = 4 := by
    rw [List.length_take]
    omega
  have hsplit : sock = ⟨sock.unread.take 4 ++ sock.unread.drop 4, sock.ready⟩ := by
    rw [List.take_append_drop]
  rw [hsplit] at h
  set header := sock.unread.take 4
  set body := sock.unread.drop 4
  by_cases hlong : maxFrameBytes < fromBytesBE header
  · obtain ⟨ready, hlong⟩ := recvFrame_of_announced hheader body sock.ready hlong
    rw [hlong] at h
    cases h
  have hmax := Nat.not_lt.mp hlong
  by_cases hbody : body.length < fromBytesBE header
  · obtain ⟨ready, hclosed⟩ := recvFrame_of_short_body hheader body sock.ready hmax hbody
    rw [hclosed] at h
    cases h
  obtain ⟨ready, hok⟩ :=
    recvFrame_of_complete hheader body sock.ready hmax (Nat.not_lt.mp hbody)
  rw [hok] at h
  cases h
  have hlength : (body.take (fromBytesBE header)).length = fromBytesBE header := by
    rw [List.length_take]
    omega
  have hencode : toBytesBE 4 (fromBytesBE header) = header := by
    rw [← hheader]
    exact toBytesBE_fromBytesBE header
  rw [frame, hlength, hencode, List.append_assoc, List.take_append_drop]
  exact ⟨hmax, (List.take_append_drop 4 sock.unread).symm⟩

/-! ## Receiving what was sent -/

/-- The header of a payload that is not too long announces its length. -/
lemma fromBytesBE_length {payload : Bytes} (h : payload.length ≤ maxFrameBytes) :
    fromBytesBE (toBytesBE 4 payload.length) = payload.length := by
  apply fromBytesBE_toBytesBE_of_lt
  have hmax : maxFrameBytes < 256 ^ 4 := by decide
  omega

/-- Payloads that are not too long are sent as their frames. -/
lemma sendFrames_of_le {payloads : List Bytes} (h : ∀ p ∈ payloads, p.length ≤ maxFrameBytes) :
    sendFrames payloads = .ok (payloads.flatMap frame) := by
  have hmap : payloads.mapM sendFrame = .ok (payloads.map frame) := by
    induction payloads with
    | nil => rfl
    | cons p ps ih =>
      obtain ⟨hp, hps⟩ := List.forall_mem_cons.mp h
      rw [List.mapM_cons, ih hps, sendFrame, if_neg (Nat.not_lt.mpr hp)]
      rfl
  rw [sendFrames, hmap, List.flatMap_def]
  rfl

/-- A frame is received as its payload. -/
lemma recvFrame_frame {payload : Bytes} (h : payload.length ≤ maxFrameBytes) (rest : Bytes)
    (ready : Stream' ℕ) : ∃ ready', recvFrame.outcome ⟨frame payload ++ rest, ready⟩ =
      (.ok payload, ⟨rest, ready'⟩) := by
  have hlength := fromBytesBE_length h
  obtain ⟨ready', hrecv⟩ := recvFrame_of_complete (length_toBytesBE 4 payload.length)
    (payload ++ rest) ready (by omega) (by rw [hlength, List.length_append]; omega)
  refine ⟨ready', ?_⟩
  rw [frame, List.append_assoc, hrecv, hlength, List.take_left, List.drop_left]

/-- A frame that is cut off is not received. -/
lemma recvFrame_take_frame {payload : Bytes} (h : payload.length ≤ maxFrameBytes) {k : ℕ}
    (hk : k < (frame payload).length) (ready : Stream' ℕ) :
    ∃ ready', recvFrame.outcome ⟨(frame payload).take k, ready⟩ =
      (.error closed, ⟨[], ready'⟩) := by
  rw [frame, List.length_append, length_toBytesBE] at hk
  have hlength := fromBytesBE_length h
  by_cases hheader : k < 4
  · apply recvFrame_of_short_header
    rw [List.length_take]
    omega
  · have htake : (frame payload).take k =
        toBytesBE 4 payload.length ++ payload.take (k - 4) := by
      rw [frame, List.take_append, length_toBytesBE, List.take_of_length_le]
      rw [length_toBytesBE]
      omega
    rw [htake]
    apply recvFrame_of_short_body (length_toBytesBE 4 payload.length) _ _ (by omega)
    rw [hlength, List.length_take]
    omega

/-- After the frames that were sent comes what follows them on the stream. -/
lemma recvFrames_flatMap {payloads : List Bytes} (h : ∀ p ∈ payloads, p.length ≤ maxFrameBytes)
    (n : ℕ) (rest : Bytes) (ready : Stream' ℕ) :
    ∃ ready', recvFrames (payloads.length + n) ⟨payloads.flatMap frame ++ rest, ready⟩ =
      (payloads ++ (recvFrames n ⟨rest, ready'⟩).1, (recvFrames n ⟨rest, ready'⟩).2) := by
  induction payloads generalizing ready with
  | nil => exact ⟨ready, by rw [List.length_nil, Nat.zero_add]; rfl⟩
  | cons p ps ih =>
    obtain ⟨hp, hps⟩ := List.forall_mem_cons.mp h
    obtain ⟨ready₁, hfirst⟩ := recvFrame_frame hp (ps.flatMap frame ++ rest) ready
    obtain ⟨ready₂, hlater⟩ := ih hps ready₁
    refine ⟨ready₂, ?_⟩
    have hcount : (p :: ps).length + n = (ps.length + n) + 1 := by
      rw [List.length_cons]
      omega
    rw [hcount, recvFrames, List.flatMap_cons, List.append_assoc, hfirst]
    dsimp only
    rw [hlater]
    rfl

/-- When the stream ends inside of a frame, the frames before it are received, and then the end is
noticed. -/
lemma recvFrames_take_flatMap {payloads : List Bytes}
    (h : ∀ p ∈ payloads, p.length ≤ maxFrameBytes) {k : ℕ}
    (hk : k < (payloads.flatMap frame).length) (ready : Stream' ℕ) :
    ∃ received missing later ready', payloads = received ++ missing :: later ∧
      recvFrames payloads.length ⟨(payloads.flatMap frame).take k, ready⟩ =
        (received, some closed, ⟨[], ready'⟩) := by
  induction payloads generalizing k ready with
  | nil => exact absurd hk (Nat.not_lt_zero k)
  | cons p ps ih =>
    obtain ⟨hp, hps⟩ := List.forall_mem_cons.mp h
    rw [List.flatMap_cons, List.length_append] at hk
    rw [List.flatMap_cons, List.take_append, List.length_cons, recvFrames]
    by_cases hcut : k < (frame p).length
    · obtain ⟨ready', hclosed⟩ := recvFrame_take_frame hp hcut ready
      refine ⟨[], p, ps, ready', rfl, ?_⟩
      rw [Nat.sub_eq_zero_of_le hcut.le, List.take_zero, List.append_nil, hclosed]
    · have hwhole : (frame p).take k = frame p := List.take_of_length_le (Nat.not_lt.mp hcut)
      obtain ⟨ready₁, hfirst⟩ :=
        recvFrame_frame hp ((ps.flatMap frame).take (k - (frame p).length)) ready
      obtain ⟨received, missing, later, ready₂, hsplit, hlater⟩ :=
        ih hps (show k - (frame p).length < _ by omega) ready₁
      refine ⟨p :: received, missing, later, ready₂, by rw [hsplit]; rfl, ?_⟩
      rw [hwhole, hfirst]
      dsimp only
      rw [hlater]

/-- However the stream of the frames is cut into chunks, their payloads are received in order and
exactly their bytes are taken; a stream that ends early raises after the complete frames; a header
that announces too much is refused with its body unread; and no socket gives a payload that is not
the body of a frame at the start of its stream. -/
theorem recvFrames_sendFrames {payloads : List Bytes}
    (h : ∀ p ∈ payloads, p.length ≤ maxFrameBytes) :
    ∃ stream, sendFrames payloads = .ok stream ∧
      (∀ rest ready, ∃ ready', recvFrames payloads.length ⟨stream ++ rest, ready⟩ =
        (payloads, none, ⟨rest, ready'⟩)) ∧
      (∀ k < stream.length, ∀ ready, ∃ received missing later ready',
        payloads = received ++ missing :: later ∧
          recvFrames payloads.length ⟨stream.take k, ready⟩ =
            (received, some closed, ⟨[], ready'⟩)) ∧
      (∀ header body ready, header.length = 4 → maxFrameBytes < fromBytesBE header →
        ∃ ready', recvFrames (payloads.length + 1) ⟨stream ++ (header ++ body), ready⟩ =
          (payloads, some (announcedTooLong (fromBytesBE header)), ⟨body, ready'⟩)) ∧
      ∀ sock sock' payload, recvFrame.outcome sock = (.ok payload, sock') →
        payload.length ≤ maxFrameBytes ∧ sock.unread = frame payload ++ sock'.unread := by
  refine ⟨payloads.flatMap frame, sendFrames_of_le h, fun rest ready => ?_,
    fun k hk => recvFrames_take_flatMap h hk, fun header body ready hheader hlong => ?_,
    fun sock sock' payload => unread_of_recvFrame⟩
  · obtain ⟨ready', hall⟩ := recvFrames_flatMap h 0 rest ready
    exact ⟨ready', by rw [Nat.add_zero] at hall; rw [hall, recvFrames, List.append_nil]⟩
  · obtain ⟨ready₁, hall⟩ := recvFrames_flatMap h 1 (header ++ body) ready
    obtain ⟨ready₂, hrefused⟩ := recvFrame_of_announced hheader body ready₁ hlong
    refine ⟨ready₂, ?_⟩
    rw [hall, recvFrames, hrefused, List.append_nil]

/-- An empty payload and one of two bytes. -/
theorem recvFrames_sendFrames_two :
    (∀ p ∈ [([] : Bytes), [104, 105]], p.length ≤ maxFrameBytes) ∧
      ∃ stream, sendFrames [[], [104, 105]] = .ok stream ∧
        ∀ ready, ∃ ready', recvFrames 2 ⟨stream ++ [0], ready⟩ =
          ([[], [104, 105]], none, ⟨[0], ready'⟩) := by
  have h : ∀ p ∈ [([] : Bytes), [104, 105]], p.length ≤ maxFrameBytes := by
    simp [maxFrameBytes]
  obtain ⟨stream, hsend, hrecv, -⟩ := recvFrames_sendFrames h
  exact ⟨h, stream, hsend, hrecv [0]⟩

end Socket

end HybridEccAuth

import HybridEccAuth.Demo.DeviceNode
import HybridEccAuth.Demo.Framing
import HybridEccAuth.Demo.ServerNode
import HybridEccAuth.Demo.TaCli
import HybridEccAuth.Protocol.Device

/-!
# The commands of the demo

`hea-device authenticate` is a process that makes one handshake over one connection.  Every run of
it starts with a new device, and leaves behind only the first message that it has built, which a
later run with `--replay-last` sends again.  `hea-server start` is a process that answers one
connection after the other, until it is interrupted or an exception that nothing catches ends it.
It waits for a request as long as its connection is open, and meanwhile the others wait in the
backlog, so that a request may reach it long after the device has given up.

What the commands print is kept as far as it says how the run ended (`AuthenticateOutcome`).
-/

namespace HybridEccAuth

/-- A connection: whether it is established, how many bytes at the end of what either side sends do
not arrive before the timeout of the device, whether the connection has then ended for the server
too, and the chunks in which the other bytes arrive. -/
structure Link where
  connects : Bool
  requestLost : ℕ
  requestEnded : Bool
  requestReady : Stream' ℕ
  responseLost : ℕ
  responseReady : Stream' ℕ

/-- What arrives of the bytes that were sent. -/
def arriving (lost : ℕ) (ready : Stream' ℕ) (sent : Bytes) : Socket :=
  ⟨sent.take (sent.length - lost), ready⟩

/-- The arguments of `hea-device authenticate`, with the bundle given by its identity, and what the
run reads from outside: random bytes and the monotonic clock, the connection, and the random bytes
of the server. -/
structure Invocation where
  device : String
  serverId : String
  replayLast : Bool
  nonce : Urandom
  iv : Urandom
  started : ℚ
  finished : ℚ
  link : Link
  serverNonce : Urandom
  serverIv : Urandom

/-- What the request of a run reads; nothing is out of range, and epochs are counted. -/
def Invocation.build (x : Invocation) : BuildEnv := ⟨fun _ => true, 0, x.nonce, x.iv, x.started⟩

/-- What the server reads for the request; the linear scan reads no clock. -/
def Invocation.serve (x : Invocation) : ServerEnv :=
  ⟨fun _ => true, 0, 0, x.serverNonce, x.serverIv⟩

/-- How a run of `hea-device authenticate` ends. -/
inductive AuthenticateOutcome
  | notADevice
  | nothingToReplay
  | unreachable
  | rejected (errorType message : Json)
  | unexpectedlyAccepted
  | unverified (e : Exc)
  | succeeded (fingerprint : Bytes)
  /-- An exception that nothing catches. -/
  | crashed

variable {C : Crypto}

/-! ## The server process -/

/-- An established connection that the server has not answered: what was sent on it, how many bytes
at the end have not arrived, whether no more of them can, the chunks of the others, and what the
server will read for the request. -/
structure Waiting where
  sent : Bytes
  lost : ℕ
  ended : Bool
  ready : Stream' ℕ
  env : ServerEnv

/-- What `recv_frame` gives to the server; nothing as long as it waits for more bytes. -/
def Waiting.receive (w : Waiting) : Option (Except Exc Bytes) :=
  match (Socket.recvFrame.outcome (arriving w.lost w.ready w.sent)).1 with
  | .ok payload => some (.ok payload)
  | .error e => if e.kind = .connectionError ∧ w.ended = false then none else some (.error e)

/-- The process of `hea-server start`: the server, and the connections that it has not answered, of
which it receives from the first one while the others are in the backlog. -/
structure ServerProcess (C : Crypto) where
  server : Server C
  waiting : List Waiting

/-- The accept loop of `cmd_start` up to a connection on which more bytes are awaited; no process
is left by an exception. -/
def serveWaiting (r : Render) : Server C → List Waiting → Option (ServerProcess C)
  | S, [] => some ⟨S, []⟩
  | S, w :: waiting =>
    match w.receive with
    | none => some ⟨S, w :: waiting⟩
    | some received =>
      match handleConnection r S w.env received with
      | (.error _, _) => none
      | (.ok _, S) => serveWaiting r S waiting

/-- On the connection from which the server is receiving, the rest of the request arrives, or the
connection ends without it. -/
def ServerProcess.requestEnds (r : Render) (arrives : Bool) (P : ServerProcess C) :
    Option (ServerProcess C) :=
  match P.waiting with
  | [] => some P
  | w :: waiting =>
    serveWaiting r P.server
      ((if arrives then { w with lost := 0 } else { w with ended := true }) :: waiting)

/-! ## One connection -/

/-- A connection between a device that sends a payload and the server process, if it runs: what
`recv_frame` gives to the device, and the process afterwards. -/
def exchange (r : Render) (link : Link) (env : ServerEnv) (payload : Bytes) :
    Option (ServerProcess C) → Except Exc Bytes × Option (ServerProcess C)
  | none => (.error (.ofLibrary .connectionError), none)
  | some P =>
    if link.connects then
      match sendFrame payload with
      | .error e => (.error e, some P)
      | .ok sent =>
        let w : Waiting := ⟨sent, link.requestLost, link.requestEnded, link.requestReady, env⟩
        match P.waiting, w.receive with
        | [], some received =>
          match handleConnection r P.server env received with
          | (.ok frame, S) =>
            -- a connection that is closed without a frame ends the stream of the device
            ((Socket.recvFrame.outcome
              (arriving link.responseLost link.responseReady (frame.getD []))).1, some ⟨S, []⟩)
          | (.error _, _) =>
            ((Socket.recvFrame.outcome (arriving 0 link.responseReady [])).1, none)
        -- the device runs into its timeout, and its request stays with the server
        | waiting, _ =>
          (.error (.ofLibrary .connectionError), some { P with waiting := waiting ++ [w] })
    else (.error (.ofLibrary .connectionError), some P)

/-! ## The device -/

/-- `envelope["ok"]`. -/
def okFlag (responseBytes : Bytes) : Option Bool :=
  match parseEnvelope responseBytes with
  | some (.obj envelope) => (Json.get envelope (Str.ofString "ok")).map Json.truth
  | _ => none

/-- What `cmd_authenticate` makes of the response; a replay that is accepted is not read any
further. -/
def conclude (D : Device C) (x : Invocation) (received : Except Exc Bytes) : AuthenticateOutcome :=
  match received with
  | .error e => if e.kind = .connectionError then .unreachable else .crashed
  | .ok responseBytes =>
    if x.replayLast ∧ okFlag responseBytes = some true then .unexpectedlyAccepted
    else
      match readResponse responseBytes with
      | none => .crashed
      | some (.rejected errorType message) => .rejected errorType message
      | some (.accepted msg2Bytes) =>
        match (D.completeAuth x.finished msg2Bytes).1 with
        | .error e => if e.isHandled then .unverified e else .crashed
        | .ok sessionKey => .succeeded ((toHex (C.sha256 sessionKey)).take 16)

/-- `cmd_authenticate` from the credential on, with the message that an earlier run has left, if
any, and the server process. -/
def cmdAuthenticate (r : Render) (credential : Credential Lam Bytes) (x : Invocation)
    (lastM1 : Option Bytes) (process : Option (ServerProcess C)) :
    AuthenticateOutcome × Option Bytes × Option (ServerProcess C) :=
  if credential.role ≠ .device then (.notADevice, lastM1, process)
  else
    let device : Except Exc (Device C) := Device.create credential defaultNonceBits
      defaultSessionTimeoutSeconds defaultMaxAttempts false
    match device with
    | .error _ => (.crashed, lastM1, process)
    | .ok D =>
      if x.replayLast then
        match lastM1 with
        | none => (.nothingToReplay, none, process)
        | some msg1Bytes =>
          match exchange r x.link x.serve msg1Bytes process with
          | (received, process) => (conclude D x received, some msg1Bytes, process)
      else
        match D.buildAuthRequest x.build x.serverId with
        | (.error _, _) => (.crashed, lastM1, process)
        | (.ok msg1Bytes, D) =>
          -- the message is kept before anything is sent
          match exchange r x.link x.serve msg1Bytes process with
          | (received, process) => (conclude D x received, some msg1Bytes, process)

/-! ## Runs -/

/-- The machine on which the commands run: the directory of the bundles, the message that is kept
beside each of them, and the server process. -/
structure Demo (C : Crypto) where
  dir : Dict String File
  lastM1 : Dict String Bytes
  process : Option (ServerProcess C)

/-- What happens next: one of the commands, a keyboard interrupt of the server, or the end of the
request that the server is receiving. -/
inductive Command
  | startServer (identity : String)
  | stopServer
  | requestEnds (arrives : Bool)
  | authenticate (x : Invocation)

namespace Demo

/-- Loads the bundle of an identity. -/
def loadBundle (s : Demo C) (identity : String) : Option (Credential Lam Bytes) × Demo C :=
  match s.dir.get (bundleName identity) with
  | none => (none, s)
  | some file =>
    ((KeyStore.load file).1,
      { s with dir := s.dir.set (bundleName identity) (KeyStore.load file).2 })

/-- `cmd_start`, up to the first connection; while another process has the address, `bind` fails. -/
def cmdStart (s : Demo C) (identity : String) : Demo C :=
  match s.loadBundle identity with
  | (none, s) => s
  | (some credential, s) =>
    match s.process, Server.create credential defaultNonceBits {} (.linearScan {}) 0 with
    | none, .ok S => { s with process := some ⟨S, []⟩ }
    | _, _ => s

/-- What happens, how it ends, if it is a run of a device, and the machine after it. -/
def step (r : Render) (s : Demo C) : Command → Option AuthenticateOutcome × Demo C
  | .startServer identity => (none, s.cmdStart identity)
  | .stopServer => (none, { s with process := none })
  | .requestEnds arrives =>
    (none, { s with process := s.process.bind (ServerProcess.requestEnds r arrives) })
  | .authenticate x =>
    match s.loadBundle x.device with
    | (none, s) => (some .crashed, s)
    | (some credential, s) =>
      match cmdAuthenticate r credential x (s.lastM1.get x.device) s.process with
      | (outcome, kept, process) =>
        (some outcome,
          { s with
            lastM1 := match kept with
              | some msg1Bytes => s.lastM1.set x.device msg1Bytes
              | none => s.lastM1
            process := process })

end Demo

end HybridEccAuth

import HybridEccAuth.Library.Machine
import HybridEccAuth.Protocol.Device
import HybridEccAuth.Protocol.Server

/-!
# The desynchronisation check

The script that drops requests of a device, or restarts the device, and reports the outcomes of the
handshakes after that: `"ok"`, or the name of the exception.
-/

namespace HybridEccAuth

/-- What a handshake reads from outside: at the device, at the server, and the monotonic clock when
the response arrives. -/
structure HandshakeEnv where
  build : BuildEnv
  serve : ServerEnv
  monotonic : ℚ

variable {C : Crypto}

/-- `_handshake`: the outcome, and the device and the server after it. -/
def handshake (serverId : String) (s : Device C × Server C) (x : HandshakeEnv) :
    String × Device C × Server C :=
  match s.1.buildAuthRequest x.build serverId with
  | (.error e, D) => (e.kind.typeName, D, s.2)
  | (.ok data, D) =>
    match s.2.handleAuthRequest x.serve data with
    | (.error e, S) => (e.kind.typeName, D, S)
    | (.ok result, S) =>
      match D.completeAuth x.monotonic result.responseBytes with
      | (.error e, D) => (e.kind.typeName, D, S)
      | (.ok _, D) => ("ok", D, S)

/-- The outcomes of handshakes, one after the other. -/
def outcomes (serverId : String) (s : Device C × Server C) (xs : List HandshakeEnv) : List String :=
  (Machine.trace (handshake serverId) s xs).map Prod.fst

/-- The device builds requests that the adversary drops. -/
def dropRequests (serverId : String) (D : Device C) (envs : List BuildEnv) : Device C :=
  envs.foldl (fun D env => (D.buildAuthRequest env serverId).2) D

/-- `dropped_m1`: the outcomes of the handshakes before the requests that are dropped, and of those
after them. -/
def droppedM1 (serverId : String) (s : Device C × Server C) (prior : List HandshakeEnv)
    (drops : List BuildEnv) (later : List HandshakeEnv) : List String × List String :=
  let s' := Machine.final (handshake serverId) s prior
  (outcomes serverId s prior, outcomes serverId (dropRequests serverId s'.1 drops, s'.2) later)

/-- `device_restart`: the outcomes of the handshakes before the device `restarted` takes the place
of the first one, and of those after that. -/
def deviceRestart (serverId : String) (s : Device C × Server C) (prior : List HandshakeEnv)
    (restarted : Device C) (later : List HandshakeEnv) : List String × List String :=
  let s' := Machine.final (handshake serverId) s prior
  (outcomes serverId s prior, outcomes serverId (restarted, s'.2) later)

end HybridEccAuth

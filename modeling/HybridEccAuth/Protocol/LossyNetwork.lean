import HybridEccAuth.Library.LossyHandshake
import HybridEccAuth.Protocol.Device
import HybridEccAuth.Protocol.Server

/-!
# Devices and servers on a lossy network

A network without an adversary: between a device and a server, requests and responses
arrive in the order in which they were sent, or are lost.  Any number of devices and
servers take their steps in any order.  What is seen of a step is recorded with the pair
that it belongs to.
-/

namespace HybridEccAuth

/-- What happens next between a device and a server. -/
inductive LinkAction
  /-- The device builds a request. -/
  | send (device server : String) (env : BuildEnv)
  | loseRequest (device server : String)
  | deliverRequest (device server : String) (env : ServerEnv)
  | loseResponse (device server : String)
  /-- A response arrives, at a reading of the monotonic clock of the device. -/
  | deliverResponse (device server : String) (monotonic : ℚ)

/-- What is seen of it; the key is that of the party that returns it. -/
structure LinkEvent where
  device : String
  server : String
  output : LossyHandshake.Output Bytes

/-- What was seen of a pair. -/
def LinkEvent.ofPair (V R : String) (e : LinkEvent) : Option (LossyHandshake.Output Bytes) :=
  if e.device = V ∧ e.server = R then some e.output else none

/-- Devices and servers by identity, and the messages in flight for each pair. -/
structure LossyNetwork (C : Crypto) where
  devices : Dict String (Device C) := .empty
  servers : Dict String (Server C) := .empty
  requests : String → String → List Bytes := fun _ _ => []
  responses : String → String → List Bytes := fun _ _ => []

/-- Another queue for a pair. -/
def setQueue (queues : String → String → List Bytes) (V R : String) (queue : List Bytes) :
    String → String → List Bytes :=
  fun V' R' => if V' = V ∧ R' = R then queue else queues V' R'

/-- The queue of the pair. -/
@[simp] lemma setQueue_self (queues : String → String → List Bytes) (V R : String)
    (queue : List Bytes) : setQueue queues V R queue V R = queue := if_pos ⟨rfl, rfl⟩

/-- The queue of another pair. -/
lemma setQueue_of_ne (queues : String → String → List Bytes) {V R V' R' : String}
    (queue : List Bytes) (h : ¬ (V' = V ∧ R' = R)) :
    setQueue queues V R queue V' R' = queues V' R' := if_neg h

namespace LossyNetwork

variable {C : Crypto}

/-- The device builds a request, which is then in flight. -/
def send (N : LossyNetwork C) (V R : String) (env : BuildEnv) : Option LinkEvent × LossyNetwork C :=
  match N.devices.get V with
  | none => (none, N)
  | some D =>
    match D.buildAuthRequest env R with
    | (.error _, D) => (some ⟨V, R, .refused⟩, { N with devices := N.devices.set V D })
    | (.ok data, D) => (some ⟨V, R, .sent⟩, { N with
        devices := N.devices.set V D
        requests := setQueue N.requests V R (N.requests V R ++ [data]) })

/-- The first request in flight is lost. -/
def loseRequest (N : LossyNetwork C) (V R : String) : Option LinkEvent × LossyNetwork C :=
  match N.requests V R with
  | [] => (none, N)
  | _ :: rest =>
    (some ⟨V, R, .requestLost⟩, { N with requests := setQueue N.requests V R rest })

/-- The first request in flight reaches the server, whose answer is then in flight. -/
def deliverRequest (N : LossyNetwork C) (V R : String) (env : ServerEnv) :
    Option LinkEvent × LossyNetwork C :=
  match N.requests V R, N.servers.get R with
  | data :: rest, some S =>
    match S.handleAuthRequest env data with
    | (.error _, S) => (some ⟨V, R, .rejected⟩, { N with
        servers := N.servers.set R S
        requests := setQueue N.requests V R rest })
    | (.ok result, S) => (some ⟨V, R, .accepted result.sessionKey⟩, { N with
        servers := N.servers.set R S
        requests := setQueue N.requests V R rest
        responses := setQueue N.responses V R (N.responses V R ++ [result.responseBytes]) })
  | _, _ => (none, N)

/-- The first response in flight is lost. -/
def loseResponse (N : LossyNetwork C) (V R : String) : Option LinkEvent × LossyNetwork C :=
  match N.responses V R with
  | [] => (none, N)
  | _ :: rest =>
    (some ⟨V, R, .answerLost⟩, { N with responses := setQueue N.responses V R rest })

/-- The first response in flight reaches the device. -/
def deliverResponse (N : LossyNetwork C) (V R : String) (monotonic : ℚ) :
    Option LinkEvent × LossyNetwork C :=
  match N.responses V R, N.devices.get V with
  | data :: rest, some D =>
    match D.completeAuth monotonic data with
    | (.error _, D) => (some ⟨V, R, .failed⟩, { N with
        devices := N.devices.set V D
        responses := setQueue N.responses V R rest })
    | (.ok key, D) => (some ⟨V, R, .completed key⟩, { N with
        devices := N.devices.set V D
        responses := setQueue N.responses V R rest })
  | _, _ => (none, N)

/-- A network as a machine: its inputs are actions, its outputs what is seen of them. -/
def step (N : LossyNetwork C) : LinkAction → Option LinkEvent × LossyNetwork C
  | .send V R env => N.send V R env
  | .loseRequest V R => N.loseRequest V R
  | .deliverRequest V R env => N.deliverRequest V R env
  | .loseResponse V R => N.loseResponse V R
  | .deliverResponse V R monotonic => N.deliverResponse V R monotonic

/-- What is seen of a step. -/
def observe (N : LossyNetwork C) (a : LinkAction) : Option LinkEvent := (N.step a).1

/-- What is seen of a pair along a run. -/
def seenOf (V R : String) (N : LossyNetwork C) (actions : List LinkAction) :
    List (LossyHandshake.Output Bytes) :=
  (Machine.events observe step N actions).filterMap (LinkEvent.ofPair V R)

/-- The premises about one action, when `F` is how far each server looks ahead: everybody is in
range, and epochs, with the window above them, have 64 bits. -/
def Fair (F : String → ℕ) (N : LossyNetwork C) : LinkAction → Prop
  | .send V R env => env.coverage R = true ∧
      ∀ D, N.devices.get V = some D → D.nextEpoch R + F R < 2 ^ 64
  | .deliverRequest V _ env => env.coverage V = true
  | _ => True

end LossyNetwork

end HybridEccAuth

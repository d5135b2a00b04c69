import HybridEccAuth.HeaProto.Device
import HybridEccAuth.Library.Machine

/-!
# The firmware

`main.cpp`, the program of the microcontroller around the C device: `setup` restores the
epoch from a record in flash, `run_batch` builds, stores, sends and completes, and
`loop` waits for commands.

The program is a machine that goes from one point to the next (`Point`), and loses its
memory, but not the flash, when the power is lost, which can happen at every point.  The
write of a record is one step: `EEPROM.commit` is taken as atomic.  A power loss inside
of a step is one before it or after it, since nothing else of a step outlasts the
memory and only the attempt to send can be observed.
-/

namespace HybridEccAuth.HeaProto

/-! ## The epoch record -/

/-- `EpochRecord`. -/
structure EpochRecord where
  magic : UInt32
  generation : UInt32
  epoch : UInt64
  deriving DecidableEq

/-- What is compiled in: the constants of `config.h`, and `HEA_BENCH_N`. -/
structure FirmwareConfig where
  epochGeneration : UInt32
  lamDevice : Block 32
  lamServer : Block 32
  serverId : Bytes
  benchN : ℕ := 20

/-- `MAGIC`: `"HEA1"`. -/
def epochMagic : UInt32 := 0x48454131

/-- `epoch_load`. -/
def epochLoad (cfg : FirmwareConfig) (r : EpochRecord) : UInt64 :=
  if r.magic = epochMagic ∧ r.generation = cfg.epochGeneration then r.epoch else 0

/-- `epoch_store`: the record that is written. -/
def epochStore (cfg : FirmwareConfig) (e : UInt64) : EpochRecord :=
  ⟨epochMagic, cfg.epochGeneration, e⟩

/-- What is stored is loaded. -/
@[simp] lemma epochLoad_epochStore (cfg : FirmwareConfig) (e : UInt64) :
    epochLoad cfg (epochStore cfg e) = e := if_pos ⟨rfl, rfl⟩

/-! ## The exchange with the server -/

/-- What becomes of the connection in `exchange`: it is not established, or M1 is written and a
response is read or not. -/
inductive Network
  | down
  | up (resp : Option Bytes)

/-- Whether M1 is written. -/
def Network.sends : Network → Bool
  | down => false
  | up _ => true

/-- `exchange`, into a buffer of `cap` bytes: the response, if it is read as a whole and fits. -/
def Network.exchange (cap : ℕ) : Network → Option Bytes
  | down => none
  | up resp => resp.filter (·.length ≤ cap)

/-! ## The state -/

/-- The contents of `last_m1`, with the request that it belongs to, and how many M1 were built
before it since the first boot. -/
structure LastM1 where
  serial : ℕ
  text : Bytes
  pending : HeaPending

/-- The epoch of an M1. -/
def LastM1.epoch (m : LastM1) : ℕ := m.pending.epoch.toNat

/-- Where the program is. -/
inductive Point
  /-- At the head of the loop of `run_batch`, with this many iterations left. -/
  | head (left : ℕ)
  /-- After `hea_build_m1`. -/
  | built (m : LastM1) (left : ℕ)
  /-- After `epoch_store`. -/
  | stored (m : LastM1) (left : ℕ)
  /-- After an `exchange` that returned a response. -/
  | answered (m : LastM1) (resp : Bytes) (left : ℕ)
  /-- After the `exchange` of the replay returned a response. -/
  | replayed (resp : Bytes)
  /-- In `loop`. -/
  | idle

/-- Where the program goes on after the exchange of a new M1. -/
def Point.afterAttempt (m : LastM1) (left : ℕ) : Option Bytes → Point
  | none => .head left
  | some resp => .answered m resp left

/-- Where the program goes on after the exchange of the replay. -/
def Point.afterReplay : Option Bytes → Point
  | none => .idle
  | some resp => .replayed resp

/-- What is lost with the power. -/
structure Ram where
  dev : HeaDevice
  lastM1 : Option LastM1
  point : Point

/-- The state of the microcontroller: the flash, the memory while it has power, and the number of M1
that were built since the first boot, which the program does not know. -/
structure Firmware where
  flash : EpochRecord
  ram : Option Ram
  builds : ℕ

/-- Before the first boot, with whatever is in the flash. -/
def Firmware.unpowered (flash : EpochRecord) : Firmware := ⟨flash, none, 0⟩

/-! ## The steps -/

/-- The random bytes and the connection that a step finds. -/
structure FirmwareEnv where
  nonce : Urandom
  iv : Urandom
  network : Network

/-- What happens to the microcontroller. -/
inductive FirmwareInput
  /-- The power comes on. -/
  | boot
  | powerLoss
  /-- The program takes its next step. -/
  | proceed (env : FirmwareEnv)
  /-- `loop` reads a character. -/
  | serial (ch : Char)

/-- What can be observed. -/
inductive FirmwareEvent
  | powerLoss
  /-- The exchange of a new M1, and whether it was written. -/
  | attempt (m : LastM1) (written : Bool)
  /-- The exchange of the replay, and whether it was written. -/
  | replay (m : LastM1) (written : Bool)
  /-- The result of `hea_complete` that is printed. -/
  | completed (rc : ℤ)

/-- The arrays `key` and `err` of `run_batch`. -/
def batchBuffers : CallerBuffers := ⟨List.replicate 32 0, [], 120⟩

/-- `hea_pending dummy = {}`. -/
def dummyPending : HeaPending :=
  ⟨⟨List.replicate 32 0, List.length_replicate⟩, ⟨List.replicate 16 0, List.length_replicate⟩, 0⟩

/-- `setup`, up to the first batch. -/
def setup (C : Crypto) (cfg : FirmwareConfig) (s : Firmware) : Firmware :=
  { s with
    ram := some
      { dev := heaInit C cfg.lamDevice cfg.lamServer cfg.serverId (epochLoad cfg s.flash)
        lastM1 := none
        point := .head cfg.benchN } }

/-- The program goes on at another point. -/
def Firmware.goto (s : Firmware) (ram : Ram) (point : Point) : Firmware :=
  { s with ram := some { ram with point := point } }

/-- `last_m1_len = hea_build_m1(&dev, &p, last_m1, sizeof last_m1)`. -/
def buildLastM1 (C : Crypto) (env : FirmwareEnv) (s : Firmware) (ram : Ram) (left : ℕ) : Firmware :=
  let built := heaBuildM1 C ram.dev env.nonce env.iv 512
  let m : LastM1 := ⟨s.builds, built.out.take built.len, built.pending⟩
  { s with
    ram := some { dev := built.device, lastM1 := some m, point := .built m left }
    builds := s.builds + 1 }

/-- The end of `run_batch`: the last M1, if there is one, is sent again. -/
def replayLastM1 (env : FirmwareEnv) (s : Firmware) (ram : Ram) : Option FirmwareEvent × Firmware :=
  match ram.lastM1 with
  | none => (none, s.goto ram .idle)
  | some m =>
    if m.text = [] then (none, s.goto ram .idle)
    else (some (.replay m env.network.sends),
      s.goto ram (.afterReplay (env.network.exchange 1024)))

/-- The next step of the program. -/
def proceed (C : Crypto) (cfg : FirmwareConfig) (env : FirmwareEnv) (s : Firmware) (ram : Ram) :
    Option FirmwareEvent × Firmware :=
  match ram.point with
  | .head 0 => replayLastM1 env s ram
  | .head (left + 1) => (none, buildLastM1 C env s ram left)
  | .built m left =>
    (none, { s with flash := epochStore cfg ram.dev.epoch }.goto ram (.stored m left))
  | .stored m left => (some (.attempt m env.network.sends),
      s.goto ram (.afterAttempt m left (env.network.exchange 1024)))
  | .answered m resp left =>
    (some (.completed (heaComplete C ram.dev m.pending resp batchBuffers).1),
      s.goto ram (.head left))
  | .replayed resp =>
    (some (.completed (heaComplete C ram.dev dummyPending resp batchBuffers).1), s.goto ram .idle)
  | .idle => (none, s)

/-- `loop` with a character: another batch, or the epoch is reset. -/
def command (cfg : FirmwareConfig) (ch : Char) (s : Firmware) (ram : Ram) : Firmware :=
  match ram.point with
  | .idle =>
    if ch = 'a' then s.goto ram (.head cfg.benchN)
    else if ch = 'z' then
      { s with
        flash := epochStore cfg 0
        ram := some { ram with dev := { ram.dev with epoch := 0 } } }
    else s
  | _ => s

/-- What an input does. -/
def firmwareStep (C : Crypto) (cfg : FirmwareConfig) (s : Firmware) :
    FirmwareInput → Option FirmwareEvent × Firmware
  | .boot =>
    match s.ram with
    | none => (none, setup C cfg s)
    | some _ => (none, s)
  | .powerLoss =>
    match s.ram with
    | none => (none, s)
    | some _ => (some .powerLoss, { s with ram := none })
  | .proceed env =>
    match s.ram with
    | none => (none, s)
    | some ram => proceed C cfg env s ram
  | .serial ch =>
    match s.ram with
    | none => (none, s)
    | some ram => (none, command cfg ch s ram)

/-! ## What is observed of a run -/

/-- The M1 that was written. -/
def FirmwareEvent.written? : FirmwareEvent → Option LastM1
  | attempt m true | replay m true => some m
  | _ => none

/-- What can make an epoch go unused: a loss of the power, or the exchange of a new M1. -/
def FirmwareEvent.isMiss : FirmwareEvent → Bool
  | powerLoss | attempt _ _ => true
  | _ => false

/-- The number of power losses and of exchanges of new M1.  Between an M1 that a server has accepted
and the next one that it accepts, these M1 are those that were dropped. -/
def misses (events : List FirmwareEvent) : ℕ := events.countP FirmwareEvent.isMiss

/-- What is observed of a run. -/
def firmwareEvents (C : Crypto) (cfg : FirmwareConfig) : Firmware → List FirmwareInput →
    List FirmwareEvent :=
  Machine.events (fun s i => (firmwareStep C cfg s i).1) (firmwareStep C cfg)

/-- The steps of the runs without the command that resets the epoch, in which the counter does not
overflow. -/
def Ordinary (s : Firmware) (i : FirmwareInput) : Prop :=
  i ≠ .serial 'z' ∧ ∀ ram left, s.ram = some ram → ram.point = .head (left + 1) →
    ram.dev.epoch.toNat < 2 ^ 64 - 1

end HybridEccAuth.HeaProto

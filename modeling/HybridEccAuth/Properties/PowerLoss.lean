import HybridEccAuth.HeaProto.Firmware
import HybridEccAuth.Properties.CounterCompleteness
import HybridEccAuth.Properties.ResponseReading

/-!
# Epochs and power losses

What the epoch counter of the firmware is for: no two M1 that leave the device have the
same epoch, whenever the power is lost, and a power loss makes at most one epoch go
unused.

A `Supply` is what an observer of the device could keep instead of its memory and flash: the epoch
of the next M1 that leaves, and the last M1.  One step of the firmware changes it as `Advances` says
(`Firmware.Consistent.advances`), and the results about runs follow from that alone.
-/

namespace HybridEccAuth.HeaProto

variable {C : Crypto} {cfg : FirmwareConfig}

/-! ## Supplies of epochs -/

/-- A supply of epochs: the epoch of the next M1 that leaves the device, the number of M1 that were
built, and the last one, until it is forgotten. -/
structure Supply where
  next : ℕ
  builds : ℕ
  last : Option LastM1

/-- What a step does to the supply, and what is observed of it. -/
inductive Advances : Supply → Option FirmwareEvent → Supply → Prop
  | silent (x : Supply) : Advances x none x
  | completed (x : Supply) (rc : ℤ) : Advances x (some (.completed rc)) x
  | build (n b : ℕ) (l : Option LastM1) (m : LastM1) : m.serial = b → m.epoch = n →
      Advances ⟨n, b, l⟩ none ⟨n, b + 1, some m⟩
  | attempt (b : ℕ) (m : LastM1) (written : Bool) :
      Advances ⟨m.epoch, b, some m⟩ (some (.attempt m written)) ⟨m.epoch + 1, b, some m⟩
  | replay (b : ℕ) (m : LastM1) (written : Bool) :
      Advances ⟨m.epoch + 1, b, some m⟩ (some (.replay m written)) ⟨m.epoch + 1, b, some m⟩
  | loss (n b : ℕ) (l : Option LastM1) : Advances ⟨n, b, l⟩ (some .powerLoss) ⟨n, b, none⟩
  | skip (n b : ℕ) (l : Option LastM1) : Advances ⟨n, b, l⟩ (some .powerLoss) ⟨n + 1, b, none⟩

/-- The next epoch never goes back, and goes forward by at most one, when something is lost or
sent. -/
lemma Advances.bounds {x y : Supply} {event : Option FirmwareEvent} (h : Advances x event y) :
    x.next ≤ y.next ∧ y.next ≤ x.next + misses event.toList := by
  cases h with
  | silent => exact ⟨le_rfl, le_rfl⟩
  | completed => exact ⟨le_rfl, le_rfl⟩
  | build => exact ⟨le_rfl, le_rfl⟩
  | attempt => exact ⟨Nat.le_succ _, le_rfl⟩
  | replay => exact ⟨le_rfl, le_rfl⟩
  | loss => exact ⟨le_rfl, Nat.le_succ _⟩
  | skip => exact ⟨Nat.le_succ _, le_rfl⟩

/-- What is sent is the last M1, with the next epoch or the one before it. -/
lemma Advances.of_written {x y : Supply} {event : Option FirmwareEvent} {m : LastM1}
    (h : Advances x event y) (hm : event.bind FirmwareEvent.written? = some m) :
    x.last = some m ∧ y = ⟨m.epoch + 1, x.builds, some m⟩ ∧ m.epoch ≤ x.next := by
  cases h with
  | silent => cases hm
  | completed => cases hm
  | build => cases hm
  | attempt b m' written =>
    rcases written <;> cases hm
    exact ⟨rfl, rfl, le_rfl⟩
  | replay b m' written =>
    rcases written <;> cases hm
    exact ⟨rfl, rfl, Nat.le_succ _⟩
  | loss => cases hm
  | skip => cases hm

/-! ## The supply of the firmware -/

/-- The M1 that is on its way out of the device. -/
def Point.outgoing : Point → Option LastM1
  | built m _ | stored m _ => some m
  | _ => none

/-- After its exchange an M1 is no longer on its way out. -/
lemma Point.outgoing_afterAttempt (m : LastM1) (left : ℕ) (resp : Option Bytes) :
    (afterAttempt m left resp).outgoing = none := by
  cases resp <;> rfl

/-- The same for the replay. -/
lemma Point.outgoing_afterReplay (resp : Option Bytes) : (afterReplay resp).outgoing = none := by
  cases resp <;> rfl

/-- The supply of a state with power. -/
def Ram.supply (ram : Ram) (builds : ℕ) : Supply :=
  ⟨(ram.point.outgoing.map LastM1.epoch).getD ram.dev.epoch.toNat, builds, ram.lastM1⟩

/-- The supply of a state: without power, the next epoch is the one that is restored. -/
def Firmware.supply (cfg : FirmwareConfig) (s : Firmware) : Supply :=
  match s.ram with
  | none => ⟨(epochLoad cfg s.flash).toNat, s.builds, none⟩
  | some ram => ram.supply s.builds

/-- The supply while no M1 is on its way out. -/
lemma Ram.supply_of_none {ram : Ram} (h : ram.point.outgoing = none) (builds : ℕ) :
    ram.supply builds = ⟨ram.dev.epoch.toNat, builds, ram.lastM1⟩ := by
  rw [supply, h]
  rfl

/-- The supply while an M1 is on its way out. -/
lemma Ram.supply_of_some {ram : Ram} {m : LastM1} (h : ram.point.outgoing = some m) (builds : ℕ) :
    ram.supply builds = ⟨m.epoch, builds, ram.lastM1⟩ := by
  rw [supply, h]
  rfl

/-- A device with power has the supply of its working memory. -/
lemma Firmware.supply_of_ram {s : Firmware} {ram : Ram} (h : s.ram = some ram) :
    s.supply cfg = ram.supply s.builds := by
  rw [supply, h]

/-! ## Consistent states -/

/-- The device of the firmware, with the counter at an epoch. -/
def firmwareDevice (C : Crypto) (cfg : FirmwareConfig) (e : UInt64) : HeaDevice :=
  heaInit C cfg.lamDevice cfg.lamServer cfg.serverId e

/-- An M1 that was built by the device. -/
def LastM1.Genuine (C : Crypto) (cfg : FirmwareConfig) (m : LastM1) : Prop :=
  ∃ nonce iv, m.text = (heaBuildM1 C (firmwareDevice C cfg m.pending.epoch) nonce iv 512).out ∧
    m.pending = (heaBuildM1 C (firmwareDevice C cfg m.pending.epoch) nonce iv 512).pending

/-- What holds at every point: the record in the flash holds the counter of the device, except that
between building and storing it is one behind. -/
structure Ram.Consistent (C : Crypto) (cfg : FirmwareConfig) (flash : EpochRecord) (builds : ℕ)
    (ram : Ram) : Prop where
  dev_eq : ram.dev = firmwareDevice C cfg ram.dev.epoch
  last : ∀ m, ram.lastM1 = some m →
    m.Genuine C cfg ∧ m.serial + 1 = builds ∧ m.epoch + 1 = ram.dev.epoch.toNat
  outgoing : ∀ m, ram.point.outgoing = some m → ram.lastM1 = some m
  built : ∀ m left, ram.point = .built m left → (epochLoad cfg flash).toNat = m.epoch
  stored : (∀ m left, ram.point ≠ .built m left) → epochLoad cfg flash = ram.dev.epoch

/-- The states that the firmware reaches. -/
def Firmware.Consistent (C : Crypto) (cfg : FirmwareConfig) (s : Firmware) : Prop :=
  ∀ ram, s.ram = some ram → ram.Consistent C cfg s.flash s.builds

/-- An M1 that fits is written as a whole, and the counter goes on. -/
lemma frame_heaBuildM1 {d : HeaDevice} {nonce iv : Urandom} {cap : ℕ}
    (h : (heaBuildM1 C d nonce iv cap).len ≠ 0) :
    (heaBuildM1 C d nonce iv cap).len = (heaBuildM1 C d nonce iv cap).out.length ∧
      (heaBuildM1 C d nonce iv cap).device = { d with epoch := d.epoch + 1 } := by
  unfold heaBuildM1 at h ⊢
  dsimp only at h ⊢
  split_ifs at h ⊢
  · exact absurd rfl h
  · exact ⟨rfl, rfl⟩

/-! ## The steps -/

section Steps

variable {s : Firmware} {ram : Ram} {env : FirmwareEnv}

/-- A state with power is consistent when its memory is. -/
lemma Firmware.consistent_of_ram (hram : s.ram = some ram)
    (h : ram.Consistent C cfg s.flash s.builds) : s.Consistent C cfg := by
  intro ram' hram'
  obtain rfl := Option.some.inj (hram.symm.trans hram')
  exact h

/-- While no M1 is on its way out the flash holds the counter. -/
lemma Ram.Consistent.epochLoad_eq {flash : EpochRecord} {builds : ℕ}
    (h : ram.Consistent C cfg flash builds) (hpoint : ram.point.outgoing = none) :
    epochLoad cfg flash = ram.dev.epoch := by
  apply h.stored
  intro m left hbuilt
  rw [hbuilt] at hpoint
  cases hpoint

/-- Going on at a point at which no M1 is on its way out, once the flash holds the counter. -/
lemma Ram.Consistent.goto (h : ram.Consistent C cfg s.flash s.builds)
    (hflash : epochLoad cfg s.flash = ram.dev.epoch) (point : Point)
    (hpoint : point.outgoing = none) :
    (s.goto ram point).supply cfg = ⟨ram.dev.epoch.toNat, s.builds, ram.lastM1⟩ ∧
      (s.goto ram point).Consistent C cfg := by
  refine ⟨Ram.supply_of_none hpoint s.builds, Firmware.consistent_of_ram rfl
    ⟨h.dev_eq, h.last, fun m hm => ?_, fun m left hbuilt => ?_, fun _ => hflash⟩⟩
  · cases hpoint.symm.trans hm
  · obtain rfl : point = .built m left := hbuilt
    cases hpoint

/-- Starting up restores the counter. -/
lemma setup_consistent (hoff : s.ram = none) :
    (setup C cfg s).supply cfg = s.supply cfg ∧ (setup C cfg s).Consistent C cfg := by
  refine ⟨?_, Firmware.consistent_of_ram rfl ⟨rfl, fun m hm => ?_, fun m hm => ?_,
    fun m left hm => ?_, fun _ => rfl⟩⟩
  · rw [Firmware.supply, Firmware.supply, hoff]
    rfl
  · cases hm
  · cases hm
  · cases hm

/-- Building an M1 keeps the epoch of the next M1 that leaves. -/
lemma Ram.Consistent.buildLastM1 (h : ram.Consistent C cfg s.flash s.builds) {left : ℕ}
    (hpoint : ram.point = .head (left + 1)) (hbelow : ram.dev.epoch.toNat < 2 ^ 64 - 1) :
    Advances ⟨ram.dev.epoch.toNat, s.builds, ram.lastM1⟩ none
        ((HeaProto.buildLastM1 C env s ram left).supply cfg) ∧
      (HeaProto.buildLastM1 C env s ram left).Consistent C cfg := by
  have hlen : (heaBuildM1 C ram.dev env.nonce env.iv 512).len ≠ 0 := by
    rw [len_heaBuildM1 (by decide)]
    decide
  obtain ⟨hout, hdev⟩ := frame_heaBuildM1 hlen
  have hepoch : (heaBuildM1 C ram.dev env.nonce env.iv 512).pending.epoch = ram.dev.epoch :=
    (pending_heaBuildM1 ram.dev env.nonce env.iv 512).2.2
  have hstored : epochLoad cfg s.flash = ram.dev.epoch := h.epochLoad_eq (by rw [hpoint]; rfl)
  have hnext : (ram.dev.epoch + 1).toNat = ram.dev.epoch.toNat + 1 := by
    rw [UInt64.toNat_add, UInt64.toNat_one]
    exact Nat.mod_eq_of_lt (by omega)
  refine ⟨?_, Firmware.consistent_of_ram rfl ⟨?_, ?_, fun m hm => hm, ?_, fun hm => ?_⟩⟩
  · have hsupply : (HeaProto.buildLastM1 C env s ram left).supply cfg = ⟨_, s.builds + 1, some _⟩ :=
      Ram.supply_of_some rfl (s.builds + 1)
    rw [hsupply, LastM1.epoch, hepoch]
    exact .build _ _ _ _ rfl (congrArg UInt64.toNat hepoch)
  · dsimp only
    rw [hdev, h.dev_eq]
    rfl
  · rintro m hm
    obtain rfl := Option.some.inj hm
    refine ⟨⟨env.nonce, env.iv, ?_⟩, rfl, ?_⟩
    · dsimp only
      rw [hepoch, ← h.dev_eq, hout, List.take_length]
      exact ⟨rfl, rfl⟩
    · rw [LastM1.epoch, hepoch, hdev, hnext]
  · rintro m left' hm
    obtain ⟨rfl, rfl⟩ := Point.built.inj hm
    exact congrArg UInt64.toNat (hstored.trans hepoch.symm)
  · exact absurd rfl (hm _ _)

/-- Storing the counter keeps the epoch of the next M1 that leaves. -/
lemma Ram.Consistent.store (h : ram.Consistent C cfg s.flash s.builds) {m : LastM1} {left : ℕ}
    (hpoint : ram.point = .built m left) {s' : Firmware}
    (hs' : s' = { s with flash := epochStore cfg ram.dev.epoch }.goto ram (.stored m left)) :
    s'.supply cfg = ram.supply s.builds ∧ s'.Consistent C cfg := by
  subst hs'
  have hout : ram.point.outgoing = some m := by
    rw [hpoint]
    rfl
  refine ⟨(Ram.supply_of_some hout s.builds).symm, Firmware.consistent_of_ram rfl
    ⟨h.dev_eq, h.last, fun m' hm => ?_, fun m' left' hm => ?_,
      fun _ => epochLoad_epochStore cfg ram.dev.epoch⟩⟩
  · obtain rfl := Option.some.inj hm
    exact h.outgoing m hout
  · cases hm

/-- Sending the last M1 again. -/
lemma Ram.Consistent.replayLastM1 (h : ram.Consistent C cfg s.flash s.builds)
    (hpoint : ram.point.outgoing = none) :
    Advances ⟨ram.dev.epoch.toNat, s.builds, ram.lastM1⟩ (replayLastM1 env s ram).1
        ((HeaProto.replayLastM1 env s ram).2.supply cfg) ∧
      (HeaProto.replayLastM1 env s ram).2.Consistent C cfg := by
  have hflash := h.epochLoad_eq hpoint
  have hidle := h.goto hflash .idle rfl
  unfold HeaProto.replayLastM1
  split
  · exact ⟨hidle.1.symm ▸ .silent _, hidle.2⟩
  · rename_i m hm
    split_ifs
    · exact ⟨hidle.1.symm ▸ .silent _, hidle.2⟩
    · obtain ⟨hsupply, hconsistent⟩ := h.goto hflash (.afterReplay (env.network.exchange 1024))
        (Point.outgoing_afterReplay _)
      refine ⟨?_, hconsistent⟩
      dsimp only
      rw [hsupply, hm, ← (h.last m hm).2.2]
      exact .replay _ m _

/-- Every step of the program advances the supply. -/
lemma Ram.Consistent.proceed (h : ram.Consistent C cfg s.flash s.builds) (hram : s.ram = some ram)
    (hbelow : ∀ left, ram.point = .head (left + 1) → ram.dev.epoch.toNat < 2 ^ 64 - 1) :
    Advances (ram.supply s.builds) (HeaProto.proceed C cfg env s ram).1
        ((HeaProto.proceed C cfg env s ram).2.supply cfg) ∧
      (HeaProto.proceed C cfg env s ram).2.Consistent C cfg := by
  have hnone : ram.point.outgoing = none →
      ram.supply s.builds = ⟨ram.dev.epoch.toNat, s.builds, ram.lastM1⟩ ∧
        epochLoad cfg s.flash = ram.dev.epoch :=
    fun hnone => ⟨Ram.supply_of_none hnone s.builds, h.epochLoad_eq hnone⟩
  unfold HeaProto.proceed
  split <;> rename_i hpoint
  · have hout : ram.point.outgoing = none := by rw [hpoint]; rfl
    rw [(hnone hout).1]
    exact h.replayLastM1 hout
  · rw [(hnone (by rw [hpoint]; rfl)).1]
    exact h.buildLastM1 hpoint (hbelow _ hpoint)
  · obtain ⟨hsupply, hconsistent⟩ := h.store hpoint rfl
    exact ⟨by rw [hsupply]; exact .silent _, hconsistent⟩
  · -- an M1 leaves the device, and the flash already holds the next epoch
    rename_i m left
    have hout : ram.point.outgoing = some m := by rw [hpoint]; rfl
    have hflash : epochLoad cfg s.flash = ram.dev.epoch :=
      h.stored fun m' left' hbuilt => by cases hpoint.symm.trans hbuilt
    have hlast := h.outgoing m hout
    obtain ⟨hsupply, hconsistent⟩ := h.goto hflash
      (.afterAttempt m left (env.network.exchange 1024)) (Point.outgoing_afterAttempt _ _ _)
    refine ⟨?_, hconsistent⟩
    dsimp only
    rw [Ram.supply_of_some hout, hsupply, hlast, ← (h.last m hlast).2.2]
    exact .attempt _ m _
  · rename_i m resp left
    obtain ⟨hstart, hflash⟩ := hnone (by rw [hpoint]; rfl)
    obtain ⟨hsupply, hconsistent⟩ := h.goto hflash (.head left) rfl
    exact ⟨by rw [hstart, hsupply]; exact .completed _ _, hconsistent⟩
  · obtain ⟨hstart, hflash⟩ := hnone (by rw [hpoint]; rfl)
    obtain ⟨hsupply, hconsistent⟩ := h.goto hflash .idle rfl
    exact ⟨by rw [hstart, hsupply]; exact .completed _ _, hconsistent⟩
  · exact ⟨by rw [Firmware.supply_of_ram hram]; exact .silent _, Firmware.consistent_of_ram hram h⟩

/-- A command other than the reset keeps the supply. -/
lemma Ram.Consistent.command (h : ram.Consistent C cfg s.flash s.builds) (hram : s.ram = some ram)
    {ch : Char} (hch : ch ≠ 'z') :
    (HeaProto.command cfg ch s ram).supply cfg = ram.supply s.builds ∧
      (HeaProto.command cfg ch s ram).Consistent C cfg := by
  unfold HeaProto.command
  split <;> rename_i hpoint
  · have hnone : ram.point.outgoing = none := by
      rw [hpoint]
      rfl
    split_ifs
    · obtain ⟨hsupply, hconsistent⟩ := h.goto (h.epochLoad_eq hnone) (.head cfg.benchN) rfl
      exact ⟨hsupply.trans (Ram.supply_of_none hnone s.builds).symm, hconsistent⟩
    · exact ⟨Firmware.supply_of_ram hram, Firmware.consistent_of_ram hram h⟩
  · exact ⟨Firmware.supply_of_ram hram, Firmware.consistent_of_ram hram h⟩

/-- When the power is lost the counter is back at what the flash holds, which skips at most the M1
that is on its way out. -/
lemma Ram.Consistent.powerLoss (h : ram.Consistent C cfg s.flash s.builds) :
    Advances (ram.supply s.builds) (some .powerLoss)
      ⟨(epochLoad cfg s.flash).toNat, s.builds, none⟩ := by
  rcases hout : ram.point.outgoing with _ | m
  · rw [Ram.supply_of_none hout, h.epochLoad_eq hout]
    exact .loss _ _ _
  · rw [Ram.supply_of_some hout]
    by_cases hbuilt : ∃ m' left, ram.point = .built m' left
    · obtain ⟨m', left, hpoint⟩ := hbuilt
      rw [hpoint] at hout
      obtain rfl := Option.some.inj hout
      rw [h.built m' left hpoint]
      exact .loss _ _ _
    · have hstored := h.stored fun m' left hpoint => hbuilt ⟨m', left, hpoint⟩
      rw [hstored, ← (h.last m (h.outgoing m hout)).2.2]
      exact .skip _ _ _

/-- Every step advances the supply and keeps the state consistent. -/
theorem Firmware.Consistent.advances (h : s.Consistent C cfg) {i : FirmwareInput}
    (hi : Ordinary s i) :
    Advances (s.supply cfg) (firmwareStep C cfg s i).1 ((firmwareStep C cfg s i).2.supply cfg) ∧
      (firmwareStep C cfg s i).2.Consistent C cfg := by
  have hsame : Advances (s.supply cfg) none (s.supply cfg) ∧ s.Consistent C cfg := ⟨.silent _, h⟩
  cases i with
  | boot =>
    rcases hram : s.ram with _ | ram
    · obtain ⟨hsupply, hconsistent⟩ : (setup C cfg s).supply cfg = s.supply cfg ∧
        (setup C cfg s).Consistent C cfg := setup_consistent hram
      simp only [firmwareStep, hram]
      exact ⟨hsupply.symm ▸ .silent _, hconsistent⟩
    · simpa only [firmwareStep, hram] using hsame
  | powerLoss =>
    rcases hram : s.ram with _ | ram
    · simpa only [firmwareStep, hram] using hsame
    · rw [Firmware.supply_of_ram hram]
      simp only [firmwareStep, hram]
      exact ⟨(h ram hram).powerLoss, fun ram' hram' => by cases hram'⟩
  | proceed env =>
    rcases hram : s.ram with _ | ram
    · simpa only [firmwareStep, hram] using hsame
    · rw [Firmware.supply_of_ram hram]
      simp only [firmwareStep, hram]
      exact (h ram hram).proceed hram fun left => hi.2 ram left hram
  | serial ch =>
    rcases hram : s.ram with _ | ram
    · simpa only [firmwareStep, hram] using hsame
    · have hch : ch ≠ 'z' := fun hz => hi.1 (congrArg FirmwareInput.serial hz)
      obtain ⟨hsupply, hconsistent⟩ := (h ram hram).command hram hch
      rw [Firmware.supply_of_ram hram]
      simp only [firmwareStep, hram]
      exact ⟨hsupply.symm ▸ .silent _, hconsistent⟩

end Steps

/-! ## Runs -/

/-- One M1 was built before another one, with a smaller epoch. -/
def LastM1.Before (a b : LastM1) : Prop := a.serial < b.serial ∧ a.epoch < b.epoch

/-- An M1 that has left the device, seen from a later supply. -/
def LastM1.Behind (a : LastM1) (x : Supply) : Prop :=
  a.epoch < x.next ∧ a.serial < x.builds ∧ ∀ m, x.last = some m → a = m ∨ a.Before m

/-- What has left the device stays behind. -/
lemma Advances.behind {x y : Supply} {event : Option FirmwareEvent} (h : Advances x event y)
    {a : LastM1} (ha : a.Behind x) : a.Behind y := by
  obtain ⟨hepoch, hserial, hlast⟩ := ha
  cases h with
  | silent => exact ⟨hepoch, hserial, hlast⟩
  | completed => exact ⟨hepoch, hserial, hlast⟩
  | build n b l m hm hn =>
    refine ⟨hepoch, Nat.lt_succ_of_lt hserial, fun m' hm' => ?_⟩
    obtain rfl := Option.some.inj hm'
    exact Or.inr ⟨hm ▸ hserial, hn ▸ hepoch⟩
  | attempt => exact ⟨Nat.lt_succ_of_lt hepoch, hserial, hlast⟩
  | replay => exact ⟨hepoch, hserial, hlast⟩
  | loss => exact ⟨hepoch, hserial, fun m hm => by cases hm⟩
  | skip => exact ⟨Nat.lt_succ_of_lt hepoch, hserial, fun m hm => by cases hm⟩

/-- No M1 with an epoch below the bound will leave the device. -/
def Supply.AtLeast (n : ℕ) (x : Supply) : Prop := n ≤ x.next ∧ ∀ m, x.last = some m → n ≤ m.epoch

/-- A bound from below stays one. -/
lemma Advances.atLeast {x y : Supply} {event : Option FirmwareEvent}
    (h : Advances x event y) {n : ℕ}
    (hx : x.AtLeast n) : y.AtLeast n := by
  obtain ⟨hnext, hlast⟩ := hx
  cases h with
  | silent => exact ⟨hnext, hlast⟩
  | completed => exact ⟨hnext, hlast⟩
  | build n' b l m hm hn =>
    refine ⟨hnext, fun m' hm' => ?_⟩
    obtain rfl := Option.some.inj hm'
    exact hn ▸ hnext
  | attempt => exact ⟨Nat.le_succ_of_le hnext, hlast⟩
  | replay => exact ⟨hnext, hlast⟩
  | loss => exact ⟨hnext, fun m hm => by cases hm⟩
  | skip => exact ⟨Nat.le_succ_of_le hnext, fun m hm => by cases hm⟩

/-- The last M1 of a consistent state. -/
lemma Firmware.Consistent.last {s : Firmware} (h : s.Consistent C cfg) {m : LastM1}
    (hm : (s.supply cfg).last = some m) : m.Genuine C cfg ∧ m.serial < (s.supply cfg).builds := by
  rcases hram : s.ram with _ | ram
  · rw [supply, hram] at hm
    cases hm
  · rw [supply_of_ram hram] at hm ⊢
    obtain ⟨hgenuine, hserial, -⟩ := (h ram hram).last m hm
    exact ⟨hgenuine, lt_of_lt_of_eq (Nat.lt_succ_self _) hserial⟩

/-- Before the first boot everything is consistent. -/
lemma Firmware.consistent_unpowered (flash : EpochRecord) :
    (unpowered flash).Consistent C cfg := fun ram hram => by cases hram

section Runs

variable {s : Firmware} {inputs : List FirmwareInput}

/-- The M1 that leave the device in a run: each is sent again or comes after all the earlier
ones. -/
theorem Firmware.Consistent.written_pairwise (h : s.Consistent C cfg)
    (hrun : Machine.AllSteps (firmwareStep C cfg) Ordinary s inputs) :
    ((firmwareEvents C cfg s inputs).filterMap FirmwareEvent.written?).Pairwise
      fun a b => a = b ∨ a.Before b := by
  rw [firmwareEvents, Machine.filterMap_events]
  have hstep : ∀ (seen : List LastM1) (s : Firmware) (i : FirmwareInput),
      (s.Consistent C cfg ∧ ∀ a ∈ seen, a.Behind (s.supply cfg)) → Ordinary s i →
      (∀ m, (firmwareStep C cfg s i).1.bind FirmwareEvent.written? = some m →
        ∀ a ∈ seen, a = m ∨ a.Before m) ∧ (firmwareStep C cfg s i).2.Consistent C cfg ∧
      ∀ a ∈ seen ++ ((firmwareStep C cfg s i).1.bind FirmwareEvent.written?).toList,
        a.Behind ((firmwareStep C cfg s i).2.supply cfg) := by
    rintro seen s i ⟨hconsistent, hseen⟩ hi
    obtain ⟨hadvances, hnext⟩ := hconsistent.advances hi
    refine ⟨fun m hm a ha => (hseen a ha).2.2 m (hadvances.of_written hm).1, hnext, fun a ha => ?_⟩
    rcases List.mem_append.mp ha with ha | ha
    · exact hadvances.behind (hseen a ha)
    · obtain ⟨hlast, heq, -⟩ := hadvances.of_written (Option.mem_toList.mp ha)
      obtain ⟨-, hserial⟩ := hconsistent.last hlast
      rw [heq]
      exact ⟨Nat.lt_succ_self _, hserial, fun m hm => Or.inl (Option.some.inj hm)⟩
  exact Machine.pairwise_events hstep ⟨h, fun a ha => by cases ha⟩ hrun

/-- Along a run the next epoch goes forward by at most the number of misses. -/
lemma Firmware.Consistent.next_le (h : s.Consistent C cfg)
    (hrun : Machine.AllSteps (firmwareStep C cfg) Ordinary s inputs) :
    ((Machine.final (firmwareStep C cfg) s inputs).supply cfg).next ≤
      (s.supply cfg).next + misses (firmwareEvents C cfg s inputs) := by
  have hstep : ∀ (s : Firmware) (i : FirmwareInput), s.Consistent C cfg → Ordinary s i →
      (firmwareStep C cfg s i).2.Consistent C cfg ∧
      (s.supply cfg).next ≤ ((firmwareStep C cfg s i).2.supply cfg).next ∧
      ((firmwareStep C cfg s i).2.supply cfg).next ≤
        (s.supply cfg).next + misses (firmwareStep C cfg s i).1.toList := by
    intro s i hs hi
    obtain ⟨hadvances, hnext⟩ := hs.advances hi
    exact ⟨hnext, hadvances.bounds⟩
  exact (Machine.measure_final (μ := fun s => (s.supply cfg).next) hstep h hrun).2

/-- A run keeps the state consistent, and a bound of the epochs from below. -/
lemma Firmware.Consistent.final (h : s.Consistent C cfg)
    (hrun : Machine.AllSteps (firmwareStep C cfg) Ordinary s inputs) {n : ℕ}
    (hn : (s.supply cfg).AtLeast n) :
    (Machine.final (firmwareStep C cfg) s inputs).Consistent C cfg ∧
      ((Machine.final (firmwareStep C cfg) s inputs).supply cfg).AtLeast n := by
  have hstep : ∀ (s : Firmware) (i : FirmwareInput),
      (s.Consistent C cfg ∧ (s.supply cfg).AtLeast n) → Ordinary s i →
      (firmwareStep C cfg s i).2.Consistent C cfg ∧
        ((firmwareStep C cfg s i).2.supply cfg).AtLeast n := by
    rintro s i ⟨hs, hn⟩ hi
    obtain ⟨hadvances, hnext⟩ := hs.advances hi
    exact ⟨hnext, hadvances.atLeast hn⟩
  exact Machine.invariant_final hstep ⟨h, hn⟩ hrun

/-- An M1 that leaves the device is genuine, its epoch is at least every bound, and at most the next
one at the start of the run and what was missed since; after it the next epoch is the one above. -/
theorem Firmware.Consistent.of_written (h : s.Consistent C cfg)
    (hrun : Machine.AllSteps (firmwareStep C cfg) Ordinary s inputs) {pre post : List FirmwareEvent}
    {y : FirmwareEvent} {b : LastM1} (hevents : firmwareEvents C cfg s inputs = pre ++ y :: post)
    (hb : y.written? = some b) {n : ℕ} (hn : (s.supply cfg).AtLeast n) :
    b.Genuine C cfg ∧ n ≤ b.epoch ∧ b.epoch ≤ (s.supply cfg).next + misses pre ∧
      ∃ (s' : Firmware) (inputs' : List FirmwareInput), s'.Consistent C cfg ∧
        (s'.supply cfg).next = b.epoch + 1 ∧ firmwareEvents C cfg s' inputs' = post ∧
        Machine.AllSteps (firmwareStep C cfg) Ordinary s' inputs' := by
  obtain ⟨before, i, after, rfl, hpre, hi, hpost⟩ := Machine.exists_of_events_eq_append_cons hevents
  obtain ⟨hbefore, hstep, hafter⟩ := Machine.allSteps_append.mp hrun
  obtain ⟨hconsistent, hbound⟩ := h.final hbefore hn
  obtain ⟨hadvances, hnext⟩ := hconsistent.advances hstep
  have hwritten : (firmwareStep C cfg (Machine.final (firmwareStep C cfg) s before) i).1.bind
      FirmwareEvent.written? = some b := by
    rw [hi]
    exact hb
  obtain ⟨hlast, heq, hepoch⟩ := hadvances.of_written hwritten
  have hle := h.next_le hbefore
  rw [firmwareEvents, hpre] at hle
  refine ⟨(hconsistent.last hlast).1, hbound.2 b hlast, le_trans hepoch hle, _, after, hnext, ?_,
    hpost, hafter⟩
  rw [heq]

end Runs

/-! ## The server -/

/-- The firmware and a server were enrolled together: the server knows the device as `V`. -/
structure Enrolled (cfg : FirmwareConfig) (V : String) (S : Server C) : Prop where
  server_role : S.credential.role = .server
  server_secret : cfg.lamServer = lamBlock S.credential.lam
  device_secret : ∃ lam, cfg.lamDevice = lamBlock lam ∧ S.peers.get V = some lam

/-- An M1 of the firmware is one that a Python device with its secrets builds. -/
lemma LastM1.Genuine.exists_build {m : LastM1} (h : m.Genuine C cfg) {S : Server C} {V : String}
    (hS : Enrolled cfg V S) (hbelow : m.epoch < 2 ^ 64 - 1) : ∃ (D D' : Device C) (env : BuildEnv)
      (session : PendingSession), Paired D V S S.credential.identity ∧
        D.buildAuthRequest env S.credential.identity = (.ok m.text, D') ∧
        D'.pending.get S.credential.identity = some session ∧ session.epoch = m.epoch := by
  obtain ⟨hrole, hlamServer, lam, hlamDevice, hlam⟩ := hS
  obtain ⟨nonce, iv, htext, -⟩ := h
  let D : Device C :=
    { entity :=
        { credential :=
            { identity := V
              role := .device
              lam := lam
              peerSecrets := Dict.empty.set S.credential.identity S.credential.lam } }
      epoch := Dict.empty.set S.credential.identity (m.epoch : ℤ) }
  have hsecret : D.credential.peerSecrets.get S.credential.identity = some S.credential.lam :=
    Dict.get_set_self _ _ _
  have hnext : D.nextEpoch S.credential.identity = m.pending.epoch.toNat := by
    rw [Device.nextEpoch, Dict.get_set_self]
    rfl
  obtain ⟨data, D', session, hbuild, hsession, -, hsame, -⟩ :=
    exists_build_heaBuildM1 D ⟨fun _ => true, 0, nonce, iv, 0⟩ S.credential.identity
      S.credential.lam cfg.serverId m.pending.epoch hbelow rfl hsecret rfl rfl hnext rfl rfl
  have hdevice : firmwareDevice C cfg m.pending.epoch =
      heaInit C (lamBlock D.credential.lam) (lamBlock S.credential.lam) cfg.serverId
        m.pending.epoch := by
    rw [firmwareDevice, hlamServer, hlamDevice]
  -- the length of the text does not depend on the buffer that it is written into
  have hlen : data.length = 216 := by
    obtain ⟨hdata, -⟩ := hsame (data.length + 217) (by omega)
    rw [← hdata, len_heaBuildM1 (by omega)]
  obtain ⟨-, hout, -, -, hepoch, -⟩ := hsame 512 (by omega)
  rw [← hdevice, ← htext] at hout
  subst hout
  refine ⟨D, D', _, session, ⟨rfl, hrole, hlam, hsecret⟩, hbuild, hsession, ?_⟩
  rw [← hepoch, ← hdevice, (pending_heaBuildM1 _ _ _ _).2.2]
  rfl

/-- The server answers an M1 as that of `V`, as long as `V` is in range. -/
def Answers (S : Server C) (V : String) (m : LastM1) : Prop :=
  ∀ env : ServerEnv, env.coverage V = true →
    ∃ result, (S.handleAuthRequest env m.text).1 = .ok result ∧ result.peerIdentity = V

/-- An M1 of the firmware whose epoch lies in the forward window is answered. -/
lemma LastM1.Genuine.answers {m : LastM1} (h : m.Genuine C cfg) {S : Server C} {V : String}
    (hS : Enrolled cfg V S) (hcounts : S.Counts) (hinj : PseudonymsInjective C S.peers)
    (hbits : S.nonceBits ∈ supportedNonceBits) (hblocked : S.sessionLog.isBlocked V = false)
    (hnew : S.sessionLog.last V < m.epoch) (htol : m.epoch ≤ S.sessionLog.last V + S.tolerance)
    (hnext : m.epoch + S.tolerance < 2 ^ 64) : Answers S V m := by
  intro env hcoverage
  obtain ⟨D, D', buildEnv, session, hpaired, hbuild, hsession, hepoch⟩ :=
    h.exists_build hS (by omega)
  obtain ⟨result, hresult, -, hpeer⟩ := hcounts.answered hinj hbits hpaired hbuild hsession hblocked
    hcoverage (hepoch ▸ hnew) (hepoch ▸ htol) (by rw [hepoch]; exact_mod_cast hnext)
  exact ⟨result, hresult, hpeer⟩

/-! ## Power losses and drops -/

/-- An M1 leaves the device after so many misses. -/
def Leaves (events : List FirmwareEvent) (b : LastM1) (k : ℕ) : Prop :=
  ∃ pre y post, events = pre ++ y :: post ∧ y.written? = some b ∧ misses pre = k

/-- An M1 leaves the device after another one, with so many misses in between. -/
def LeavesAfter (events : List FirmwareEvent) (a b : LastM1) (k : ℕ) : Prop :=
  ∃ pre x rest, events = pre ++ x :: rest ∧ x.written? = some a ∧ Leaves rest b k

section Runs

variable {s : Firmware} {inputs : List FirmwareInput} {a b : LastM1} {k : ℕ}

/-- The epoch of an M1 is at least every bound, and at most the one that the run started with and
what was missed since. -/
lemma Firmware.Consistent.of_leaves (h : s.Consistent C cfg)
    (hrun : Machine.AllSteps (firmwareStep C cfg) Ordinary s inputs)
    (hb : Leaves (firmwareEvents C cfg s inputs) b k) {n : ℕ} (hn : (s.supply cfg).AtLeast n) :
    b.Genuine C cfg ∧ n ≤ b.epoch ∧ b.epoch ≤ (s.supply cfg).next + k := by
  obtain ⟨pre, y, post, hevents, hy, rfl⟩ := hb
  obtain ⟨hgenuine, hbound, hepoch, -⟩ := h.of_written hrun hevents hy hn
  exact ⟨hgenuine, hbound, hepoch⟩

/-- The epoch of an M1 is at most that of an earlier one, one more, and what was missed in
between. -/
lemma Firmware.Consistent.of_leavesAfter (h : s.Consistent C cfg)
    (hrun : Machine.AllSteps (firmwareStep C cfg) Ordinary s inputs)
    (hb : LeavesAfter (firmwareEvents C cfg s inputs) a b k) :
    b.Genuine C cfg ∧ b.epoch ≤ a.epoch + 1 + k ∧ (a = b ∨ a.Before b) := by
  obtain ⟨pre, x, rest, hevents, hx, hleaves⟩ := hb
  have horder : a = b ∨ a.Before b := by
    have hpairwise := h.written_pairwise hrun
    obtain ⟨mid, y, post, rfl, hy, -⟩ := hleaves
    rw [hevents, List.filterMap_append, List.pairwise_append, List.filterMap_cons, hx,
      List.pairwise_cons] at hpairwise
    refine hpairwise.2.1.1 b (List.mem_filterMap.mpr ⟨y, ?_, hy⟩)
    exact List.mem_append_right _ List.mem_cons_self
  have hzero : ∀ x : Supply, x.AtLeast 0 := fun x => ⟨Nat.zero_le _, fun m _ => Nat.zero_le _⟩
  obtain ⟨-, -, -, s', inputs', hconsistent, hnext, hrest, hrun'⟩ :=
    h.of_written hrun hevents hx (hzero _)
  obtain ⟨hgenuine, -, hepoch⟩ := hconsistent.of_leaves hrun' (hrest.symm ▸ hleaves) (hzero _)
  exact ⟨hgenuine, hnext ▸ hepoch, horder⟩

end Runs

/-- The pseudonym of an M1 of the device. -/
lemma LastM1.Genuine.pid_eq {m : LastM1} (h : m.Genuine C cfg) :
    m.pending.pid.val = sha256Pid C cfg.lamDevice.val m.pending.epoch := by
  obtain ⟨nonce, iv, -, hpending⟩ := h
  conv_lhs => rw [hpending]
  exact (pending_heaBuildM1 _ nonce iv 512).1

/-- The inputs up to the first M1 after a boot. -/
def bootAndSend (env : FirmwareEnv) : List FirmwareInput :=
  [.boot, .proceed env, .proceed env, .proceed env]

/-- The first M1 after a boot has the epoch that was restored, and the next one is in the flash. -/
lemma first_attempt {generation : UInt32} {lamDevice lamServer : Block 32}
    {serverId : Bytes} {n : ℕ}
    (hcfg : cfg = ⟨generation, lamDevice, lamServer, serverId, n + 1⟩) {flash : EpochRecord}
    (hbelow : (epochLoad cfg flash).toNat < 2 ^ 64 - 1) (env : FirmwareEnv) (builds : ℕ) :
    ∃ m, Machine.AllSteps (firmwareStep C cfg) Ordinary ⟨flash, none, builds⟩ (bootAndSend env) ∧
      firmwareEvents C cfg ⟨flash, none, builds⟩ (bootAndSend env) =
        [.attempt m env.network.sends] ∧
      m.epoch = (epochLoad cfg flash).toNat ∧ ∃ ram builds',
      Machine.final (firmwareStep C cfg) ⟨flash, none, builds⟩ (bootAndSend env) =
          ⟨epochStore cfg (epochLoad cfg flash + 1), some ram, builds'⟩ ∧
        ram.dev.epoch = epochLoad cfg flash + 1 := by
  subst hcfg
  have hlen : (heaBuildM1 C (heaInit C lamDevice lamServer serverId
      (epochLoad ⟨generation, lamDevice, lamServer, serverId, n + 1⟩ flash)) env.nonce env.iv
        512).len ≠ 0 := by
    rw [len_heaBuildM1 (by omega)]
    decide
  have hflash : (Machine.final (firmwareStep C ⟨generation, lamDevice, lamServer, serverId, n + 1⟩)
      ⟨flash, none, builds⟩ (bootAndSend env)).flash = epochStore _ (epochLoad _ flash + 1) :=
    congrArg (fun d : HeaDevice => epochStore _ d.epoch) (frame_heaBuildM1 hlen).2
  refine ⟨_, ⟨⟨FirmwareInput.noConfusion, fun ram left hram hpoint => ?_⟩,
    ⟨FirmwareInput.noConfusion, fun ram left hram hpoint => ?_⟩,
    ⟨FirmwareInput.noConfusion, fun ram left hram hpoint => ?_⟩,
    ⟨FirmwareInput.noConfusion, fun ram left hram hpoint => ?_⟩, trivial⟩, rfl, ?_, ?_⟩
  · cases hram
  · obtain rfl := Option.some.inj hram
    exact hbelow
  · obtain rfl := Option.some.inj hram
    cases hpoint
  · obtain rfl := Option.some.inj hram
    cases hpoint
  · exact congrArg UInt64.toNat (pending_heaBuildM1 _ env.nonce env.iv 512).2.2
  · rw [← hflash]
    exact ⟨_, _, rfl, congrArg HeaDevice.epoch (frame_heaBuildM1 hlen).2⟩

/-- Epochs and power losses.  In every run from power off, with any record in the flash, without the
command that resets the epoch and with epochs below the bound: of any two different M1 that leave
the device the later one was built later and has the larger epoch, so no pseudonym is used twice; at
most one epoch is skipped for each power loss and each M1 that was lost; and a server with tolerance
`F`, in any state that it reaches in which the last accepted epoch of the device is that of an M1,
or the one before the first epoch of the device, answers the next M1 that it gets if there were
fewer than `F` losses and drops since, as long as the windows of the server, the next one included,
have 64 bits. -/
theorem epochs_survive_power_loss {flash : EpochRecord} {inputs : List FirmwareInput}
    (hrun : Machine.AllSteps (firmwareStep C cfg) Ordinary (.unpowered flash) inputs) :
    let events := firmwareEvents C cfg (.unpowered flash) inputs
    (events.filterMap FirmwareEvent.written?).Pairwise (fun a b => a = b ∨ a.Before b) ∧
    (Function.Injective (sha256Pid C cfg.lamDevice.val) →
      (events.filterMap FirmwareEvent.written?).Pairwise
        fun a b => a = b ∨ a.pending.pid ≠ b.pending.pid) ∧
    (∀ b k, Leaves events b k → b.epoch ≤ (epochLoad cfg flash).toNat + k) ∧
    (∀ a b k, LeavesAfter events a b k → b.epoch ≤ a.epoch + 1 + k) ∧
    ∀ (cred : Credential Lam Bytes) (nonceBits F : ℕ) (S : Server C) (V : String),
      PseudonymsInjective C cred.peerSecrets → nonceBits ∈ supportedNonceBits →
      S.CountsFrom cred nonceBits F → Enrolled cfg V S → S.sessionLog.isBlocked V = false →
      (∀ b k, Leaves events b k → S.sessionLog.last V + 1 = (epochLoad cfg flash).toNat → k < F →
        b.epoch + F < 2 ^ 64 → Answers S V b) ∧
      ∀ a b k, LeavesAfter events a b k → a ≠ b → S.sessionLog.last V = a.epoch → k < F →
        b.epoch + F < 2 ^ 64 → Answers S V b := by
  intro events
  have hstart : (Firmware.unpowered flash).Consistent C cfg := Firmware.consistent_unpowered flash
  have hnext : ((Firmware.unpowered flash).supply cfg).next = (epochLoad cfg flash).toNat := rfl
  have hpairwise := hstart.written_pairwise hrun
  have hfirst := fun b k (hb : Leaves events b k) =>
    hstart.of_leaves hrun hb ⟨le_of_eq hnext.symm, fun m hm => by cases hm⟩
  have hafter := fun a b k (hb : LeavesAfter events a b k) => hstart.of_leavesAfter hrun hb
  have hgenuine : ∀ m ∈ events.filterMap FirmwareEvent.written?, m.Genuine C cfg := by
    intro m hm
    obtain ⟨y, hy, hym⟩ := List.mem_filterMap.mp hm
    obtain ⟨pre, post, hsplit⟩ := List.append_of_mem hy
    exact (hfirst m _ ⟨pre, y, post, hsplit, hym, rfl⟩).1
  refine ⟨hpairwise, fun hinj => ?_, fun b k hb => (hfirst b k hb).2.2,
    fun a b k hb => (hafter a b k hb).2.1, ?_⟩
  · refine hpairwise.imp_of_mem fun ha hb hab => hab.imp id fun hbefore hpid => ?_
    have hepoch := congrArg Subtype.val hpid
    rw [(hgenuine _ ha).pid_eq, (hgenuine _ hb).pid_eq] at hepoch
    exact absurd (congrArg UInt64.toNat (hinj hepoch)) (ne_of_lt hbefore.2)
  · intro cred nonceBits F S V hinj hbits hS henrolled hblocked
    obtain ⟨hcounts, rfl, rfl, rfl⟩ := hS.counts hinj
    constructor
    · intro b k hb hlast hk hbelow
      obtain ⟨hgen, hlow, hhigh⟩ := hfirst b k hb
      exact hgen.answers henrolled hcounts hinj hbits hblocked (by omega) (by omega) hbelow
    · intro a b k hb hab hlast hk hbelow
      obtain ⟨hgen, hhigh, horder⟩ := hafter a b k hb
      obtain ⟨-, hlow⟩ := horder.resolve_left hab
      exact hgen.answers henrolled hcounts hinj hbits hblocked (by omega) (by omega) hbelow

/-- The firmware of the device of the sample pair. -/
def sampleFirmware : FirmwareConfig where
  epochGeneration := 1
  lamDevice := lamBlock 1
  lamServer := lamBlock 2
  serverId := asciiBytes "server-A"

/-- Surroundings in which M1 is written and no response is read. -/
def noResponse : FirmwareEnv := ⟨.zeros, .zeros, .up none⟩

/-- The sample firmware is that of the device of the sample pair. -/
lemma enrolled_sampleFirmware {S : Server C} (hS : S.credential = serverA) :
    Enrolled sampleFirmware "device-1" S where
  server_role := by rw [hS]; rfl
  server_secret := by rw [hS]; rfl
  device_secret := ⟨1, rfl, by rw [Server.peers, hS]; decide⟩

/-- The first M1 of the sample firmware after a boot. -/
lemma first_attempt_sampleFirmware {flash : EpochRecord}
    (hbelow : (epochLoad sampleFirmware flash).toNat < 2 ^ 64 - 1) (builds : ℕ) :
    ∃ m, Machine.AllSteps (firmwareStep C sampleFirmware) Ordinary ⟨flash, none, builds⟩
        (bootAndSend noResponse) ∧
      firmwareEvents C sampleFirmware ⟨flash, none, builds⟩ (bootAndSend noResponse) =
        [.attempt m true] ∧
      m.epoch = (epochLoad sampleFirmware flash).toNat ∧ ∃ ram builds',
      Machine.final (firmwareStep C sampleFirmware) ⟨flash, none, builds⟩ (bootAndSend noResponse) =
          ⟨epochStore sampleFirmware (epochLoad sampleFirmware flash + 1), some ram, builds'⟩ ∧
        ram.dev.epoch = epochLoad sampleFirmware flash + 1 :=
  first_attempt rfl hbelow noResponse builds

/-- Two M1 of the sample firmware, with a power loss between them. -/
lemma two_attempts_sampleFirmware : ∃ m₁ m₂,
    Machine.AllSteps (firmwareStep C sampleFirmware) Ordinary (.unpowered ⟨0, 0, 0⟩)
      (bootAndSend noResponse ++ .powerLoss :: bootAndSend noResponse) ∧
    firmwareEvents C sampleFirmware (.unpowered ⟨0, 0, 0⟩)
        (bootAndSend noResponse ++ .powerLoss :: bootAndSend noResponse) =
      [.attempt m₁ true, .powerLoss, .attempt m₂ true] ∧
    m₁.epoch = 0 ∧ m₂.epoch = 1 := by
  have hfirst : (epochLoad sampleFirmware ⟨0, 0, 0⟩).toNat < 2 ^ 64 - 1 := by decide
  obtain ⟨m₁, hrun₁, hevents₁, hepoch₁, ram₁, builds₁, hfinal₁, hram₁⟩ :=
    first_attempt_sampleFirmware (C := C) hfirst 0
  have hnext : (epochLoad sampleFirmware (epochStore sampleFirmware
      (epochLoad sampleFirmware ⟨0, 0, 0⟩ + 1))).toNat = 1 := by
    rw [epochLoad_epochStore]
    decide
  generalize epochStore sampleFirmware (epochLoad sampleFirmware ⟨0, 0, 0⟩ + 1) =
    flash at hfinal₁ hnext
  obtain ⟨m₂, hrun₂, hevents₂, hepoch₂, -⟩ := first_attempt_sampleFirmware (C := C)
    (show (epochLoad sampleFirmware flash).toNat < 2 ^ 64 - 1 by rw [hnext]; decide) builds₁
  have hloss : firmwareStep C sampleFirmware ⟨flash, some ram₁, builds₁⟩ .powerLoss =
      (some .powerLoss, ⟨flash, none, builds₁⟩) := rfl
  refine ⟨m₁, m₂, Machine.allSteps_append.mpr ⟨hrun₁, ?_⟩, ?_, hepoch₁.trans (by decide),
    hepoch₂.trans hnext⟩
  · rw [Firmware.unpowered, hfinal₁]
    refine ⟨⟨FirmwareInput.noConfusion, fun ram left hram hpoint => ?_⟩, ?_⟩
    · obtain rfl := Option.some.inj hram
      rw [hram₁]
      decide
    · rw [hloss]
      exact hrun₂
  · rw [firmwareEvents, Machine.events_append, Firmware.unpowered, hfinal₁]
    rw [Machine.events, hloss]
    exact congrArg₂ (fun xs ys => xs ++ .powerLoss :: ys) hevents₁ hevents₂

/-- After a power loss the second M1 of the sample firmware has the next epoch, and a server that
goes on from the log in which the first one was accepted answers it. -/
theorem epochs_survive_power_loss_twice : ∃ m₁ m₂,
    firmwareEvents .plain sampleFirmware (.unpowered ⟨0, 0, 0⟩)
        (bootAndSend noResponse ++ .powerLoss :: bootAndSend noResponse) =
      [.attempt m₁ true, .powerLoss, .attempt m₂ true] ∧ m₁.epoch = 0 ∧ m₂.epoch = 1 ∧
    Answers (⟨{ credential := serverA }, 128, ({} : SessionLog).acceptEpoch "device-1" 0,
      .linearScan {}⟩ : Server .plain) "device-1" m₂ := by
  obtain ⟨m₁, m₂, hrun, hevents, h₁, h₂⟩ := two_attempts_sampleFirmware (C := .plain)
  have hlast : (({} : SessionLog).acceptEpoch "device-1" 0).last "device-1" = 0 := by decide
  have hfit : EpochsBelow serverA.peerSecrets (({} : SessionLog).acceptEpoch "device-1" 0) := by
    intro p _
    rw [SessionLog.last_acceptEpoch]
    simp only [SessionLog.last_fresh]
    split_ifs <;> decide
  have hcreate : Server.create serverA 128 (({} : SessionLog).acceptEpoch "device-1" 0)
      (.linearScan {}) 0 = .ok (⟨{ credential := serverA }, 128,
        ({} : SessionLog).acceptEpoch "device-1" 0, .linearScan {}⟩ : Server .plain) := rfl
  have hcounts := Server.countsFrom_create (r := .linearScan {}) trivial hfit hcreate
  obtain ⟨-, hnext⟩ := (epochs_survive_power_loss hrun).2.2.2.2 serverA 128 8 _ "device-1"
    pseudonymsInjective_serverA (by decide) hcounts (enrolled_sampleFirmware rfl) rfl
  refine ⟨m₁, m₂, hevents, h₁, h₂, hnext m₁ m₂ 1 ?_ ?_ ?_ (by decide) (by rw [h₂]; decide)⟩
  · exact ⟨[], _, _, hevents, rfl, [.powerLoss], _, [], rfl, rfl, rfl⟩
  · rintro rfl
    rw [h₁] at h₂
    cases h₂
  · rw [h₁]
    exact hlast

/-- At the end of the epochs of 64 bits a counter table is not refilled any more, and an M1 is not
answered although nothing was lost. -/
theorem exhausted_table_does_not_answer :
    ∃ (S : Server .plain) (m : LastM1),
      Server.create serverA 128 (({} : SessionLog).acceptEpoch "device-1" (2 ^ 64 - 9))
        (.counterTable {}) 0 = .ok S ∧
      S.tolerance = 8 ∧ Enrolled sampleFirmware "device-1" S ∧
      S.sessionLog.isBlocked "device-1" = false ∧
      Machine.AllSteps (firmwareStep .plain sampleFirmware) Ordinary
        (.unpowered (epochStore sampleFirmware (.ofNat (2 ^ 64 - 8))))
        (bootAndSend noResponse) ∧
      firmwareEvents .plain sampleFirmware
          (.unpowered (epochStore sampleFirmware (.ofNat (2 ^ 64 - 8))))
        (bootAndSend noResponse) = [.attempt m true] ∧
      S.sessionLog.last "device-1" + 1 = m.epoch ∧ m.epoch < 2 ^ 64 - 1 ∧
      ∀ env result, (S.handleAuthRequest env m.text).1 ≠ .ok result := by
  have hfirst : (epochLoad sampleFirmware (epochStore sampleFirmware (.ofNat (2 ^ 64 - 8)))).toNat =
      2 ^ 64 - 8 := by
    rw [epochLoad_epochStore]
    rfl
  obtain ⟨m, hrun, hevents, hepoch, -⟩ :=
    first_attempt_sampleFirmware (C := .plain) (by rw [hfirst]; decide) 0
  rw [hfirst] at hepoch
  have hlast : (({} : SessionLog).acceptEpoch "device-1" (2 ^ 64 - 9)).last "device-1" =
      2 ^ 64 - 9 := by
    rw [SessionLog.last_acceptEpoch, SessionLog.last_fresh]
    decide
  have hfit : (Resolver.counterTable {}).EpochsFit serverA.peerSecrets
      (({} : SessionLog).acceptEpoch "device-1" (2 ^ 64 - 9)) := by
    intro p _
    rw [SessionLog.last_acceptEpoch]
    simp only [SessionLog.last_fresh]
    split_ifs <;> decide
  obtain ⟨S, hcreate⟩ := Server.exists_create (r := .counterTable {}) 128 0 trivial (by decide)
    pseudonymsInjective_serverA hfit
  obtain ⟨-, hcred, -, hlog, -, hatt⟩ := Server.valid_create hcreate
  obtain ⟨hcounts, htol⟩ := Server.counts_create (r := .counterTable {}) trivial hcreate
    pseudonymsInjective_serverA hfit
  have hresolver : Resolver.counterTable _ = S.resolver := congrArg Prod.snd hatt
  have htolerance : S.tolerance = 8 := htol.trans rfl
  have henrolled : Enrolled sampleFirmware "device-1" S := enrolled_sampleFirmware hcred
  have hgenuine : m.Genuine .plain sampleFirmware :=
    ((Firmware.consistent_unpowered _).of_leaves hrun ⟨[], _, [], hevents, rfl, rfl⟩
      ⟨Nat.zero_le _, fun m _ => Nat.zero_le _⟩).1
  refine ⟨S, m, hcreate, htolerance, henrolled, ?_, hrun, hevents, ?_, ?_, fun env result => ?_⟩
  · rw [hlog]
    rfl
  · rw [hlog, hlast, hepoch]
    decide
  · rw [hepoch]
    decide
  · obtain ⟨D, D', buildEnv, session, hpaired, hbuild, hsession, hsessionEpoch⟩ :=
      hgenuine.exists_build henrolled (by rw [hepoch]; decide)
    have hinj : PseudonymsInjective .plain S.peers := by
      rw [Server.peers, hcred]
      exact pseudonymsInjective_serverA
    refine hcounts.not_answered_beyond hinj hresolver.symm hpaired hbuild hsession ?_ result
    rw [hsessionEpoch, htolerance, hepoch]
    decide

end HybridEccAuth.HeaProto

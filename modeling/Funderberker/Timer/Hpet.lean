import Funderberker.Collections.IdTracker
import Funderberker.Interrupts.Idt

/-!
# The HPET

The timers of `drivers/src/timer/hpet.rs`.  A timer takes its id from the allocator of the
HPET; to be told of its interrupts it takes a line from the allocator of the IRQs and
registers a stub.  Ids are given back by `custom_unlock`, which runs whenever a guard of the
timer's lock is dropped.

The first part of this module is the driver, with the device as an array of registers.  The
second is about the ids.

## Main definitions

* `Hpet`, `TimerSystem` — the device and what the driver changes.
* `configDeliveryMode`, `configure`, `HpetTimer.new`, `customUnlock`.
* `TimerRun` — timers that are created, locked, configured and unlocked.
* `TimerIds.Owned` — no id is free while a timer has it.

## Main results

* `timer_ids_owned` — ids are owned until a guard is dropped, and never after that.
-/

namespace Funderberker

open Panicking

inductive TimerError
  | invalidTimePeriod
  | noTimerAvailable
  | unsupportedTimerMode
  | invalidTimerFlags
  | idtError
  | irqError
  deriving DecidableEq, Repr

inductive InterruptRoutingMode
  | normal
  | legacy
  deriving DecidableEq, Repr

inductive TriggerMode
  | edgeTriggered
  | levelTriggered
  deriving DecidableEq, Repr

inductive TimerMode
  | oneShot
  | periodic
  deriving DecidableEq, Repr

inductive DeliveryMode
  | interrupt (isrStub : BitVec 64) (intType : TriggerMode)
  | fsb (route : BitVec 64)

def PIT_IRQ : ℕ := 0
def RTC_IRQ : ℕ := 8

/-! ## Registers -/

/-- The configuration register of a timer. -/
abbrev TimerConfiguration := BitVec 64

namespace TimerConfiguration

variable (c : TimerConfiguration)

def periodicIntCapable : Bool := c.getLsbD 4
def sizeCapable : Bool := c.getLsbD 5
def fsbIntDelivery : Bool := c.getLsbD 15
def intRouteCap : BitVec 32 := c.extractLsb' 32 32

def setIntType : TriggerMode → TimerConfiguration
  | .edgeTriggered => setBits c 1 0#1
  | .levelTriggered => setBits c 1 1#1

def setTimerType : TimerMode → TimerConfiguration
  | .oneShot => setBits c 3 0#1
  | .periodic => setBits c 3 1#1

def setIntEnable (b : Bool) : TimerConfiguration := setBits c 2 (BitVec.ofBool b)
def setValueSet (b : Bool) : TimerConfiguration := setBits c 6 (BitVec.ofBool b)
def setTimer32bitMode (b : Bool) : TimerConfiguration := setBits c 8 (BitVec.ofBool b)
def setFsbIntEnable (b : Bool) : TimerConfiguration := setBits c 14 (BitVec.ofBool b)

end TimerConfiguration

structure Hpet where
  /-- The registers of the device, by their offsets. -/
  regs : ℕ → BitVec 64
  mainClockPeriod : ℕ
  timerIds : IdTracker
  intRoutingMode : InterruptRoutingMode

def MAIN_COUNTER_VALUE : ℕ := 0xf0

def NANO_TO_FEMTOSEC : ℕ := 1000000

/-- The time is given in nanoseconds. -/
def Hpet.timeToCycles (hpet : Hpet) (time : ℕ) : Except Panic ℕ := do
  let femtosec := time * NANO_TO_FEMTOSEC
  let remainder ← Usize.rem femtosec hpet.mainClockPeriod
  let adjusted :=
    if remainder ≠ 0 then femtosec + (hpet.mainClockPeriod - remainder) else femtosec
  .ok (adjusted / hpet.mainClockPeriod % 2 ^ 64)

def Hpet.writeReg (hpet : Hpet) (offset : ℕ) (v : BitVec 64) : Hpet :=
  { hpet with regs := Function.update hpet.regs offset v }

/-- What the driver reads and changes. -/
structure TimerSystem where
  hpet : Hpet
  irqAllocator : IdTracker
  tables : Tables

structure HpetTimer where
  id : ℕ
  size64Bits : Bool
  deriving DecidableEq

namespace HpetTimer

variable (timer : HpetTimer)

def configRegOffset : ℕ := 0x100 + 0x20 * timer.id
def comparatorRegOffset : ℕ := 0x108 + 0x20 * timer.id
def fsbInterruptRouteRegOffset : ℕ := 0x110 + 0x20 * timer.id

end HpetTimer

/-! ## Lines -/

section Lines

variable (m : Overflow) (overrides : List IrqOverride)

/-- One id for each GSI of the system. -/
def initIrqAllocator (ioApics : List IoApic) : Except Panic IdTracker := do
  let gsiCount ← ioApics.foldlM (fun acc a => Usize.add m acc a.gsiCount) 0
  IdTracker.new m 0 (← Usize.sub m gsiCount 1)

def allocateIrqAt (irqAllocator : IdTracker) (irq : ℕ) :
    Except Panic (Except IdTrackerError Unit × IdTracker) :=
  irqAllocator.allocateAt m irq

/-- A fixed line of the legacy mode. -/
def takeIrq (irqAllocator : IdTracker) (irq : ℕ) :
    Except Panic (Except TimerError ℕ × IdTracker) := do
  match ← allocateIrqAt m irqAllocator irq with
  | (.ok (), t) => .ok (.ok irq, t)
  | (.error _, t) => .ok (.error .irqError, t)

/-- The first line from `i` on that the timer may use and that is free, of `k` lines. -/
def findLine (cap : BitVec 32) : ℕ → ℕ → IdTracker → Except Panic (Option ℕ × IdTracker)
  | 0, _, t => .ok (none, t)
  | k + 1, i, t =>
      if cap.getLsbD i then do
        match ← allocateIrqAt m t i with
        | (.ok (), t) => .ok (some i, t)
        | (.error _, t) => findLine cap k (i + 1) t
      else findLine cap k (i + 1) t

/-- The IRQ of a timer, which is taken from the allocator. -/
def chooseIrq (mode : InterruptRoutingMode) (id : ℕ) (cap : BitVec 32) (irqAllocator : IdTracker) :
    Except Panic (Except TimerError ℕ × IdTracker) :=
  match mode, id with
  | .legacy, 0 => takeIrq m irqAllocator PIT_IRQ
  | .legacy, 1 => takeIrq m irqAllocator RTC_IRQ
  | _, _ => do
      match ← findLine m cap 32 0 irqAllocator with
      | (some gsi, t) => .ok (.ok (gsiToIrq overrides gsi), t)
      | (none, t) => .ok (.error .irqError, t)

end Lines

/-! ## Timers -/

section Timers

variable (m : Overflow) (overrides : List IrqOverride) (cs : BitVec 16)

/-- Returns the configuration, and the IRQ that has been registered. -/
def configDeliveryMode (timer : HpetTimer) (s : TimerSystem) (config : TimerConfiguration) :
    DeliveryMode → Except Panic (Except TimerError (TimerConfiguration × Option ℕ) × TimerSystem)
  | .fsb route =>
      if config.fsbIntDelivery then
        .ok (.ok ((config.setFsbIntEnable true).setIntType .edgeTriggered, none),
          { s with hpet := s.hpet.writeReg timer.fsbInterruptRouteRegOffset route })
      else .ok (.error .invalidTimerFlags, s)
  | .interrupt isrStub intType => do
      match ← chooseIrq m overrides s.hpet.intRoutingMode timer.id config.intRouteCap
          s.irqAllocator with
      | (.error e, irqAllocator) => .ok (.error e, { s with irqAllocator := irqAllocator })
      | (.ok irq, irqAllocator) => do
          let (_, _, tables) ← registerIrq m overrides cs s.tables irq isrStub
          .ok (.ok ((config.setFsbIntEnable false).setIntType intType, some irq),
            { s with irqAllocator := irqAllocator, tables := tables })

/-- Returns the cycles the timer will tick for, and the IRQ that has been registered. -/
def configure (timer : HpetTimer) (s : TimerSystem) (time : ℕ) (timerMode : TimerMode)
    (receiveInterrupts : Bool) (deliveryMode : DeliveryMode) :
    Except Panic (Except TimerError (ℕ × Option ℕ) × TimerSystem) := do
  let config : TimerConfiguration := s.hpet.regs timer.configRegOffset
  if timerMode = .periodic ∧ config.periodicIntCapable = false then
    .ok (.error .unsupportedTimerMode, s)
  else do
    let cyclesDelta ← s.hpet.timeToCycles time
    let targetCycles ← Usize.add m (s.hpet.regs MAIN_COUNTER_VALUE).toNat cyclesDelta
    match ← configDeliveryMode m overrides cs timer s config deliveryMode with
    | (.error e, s) => .ok (.error e, s)
    | (.ok (config, irq), s) => do
        let config := config.setTimer32bitMode false
        let config := config.setTimerType timerMode
        let config := config.setIntEnable receiveInterrupts
        match timerMode with
        | .periodic => do
            let config := config.setValueSet true
            let hpet := s.hpet.writeReg timer.configRegOffset config
            let hpet := hpet.writeReg timer.comparatorRegOffset (BitVec.ofNat 64 targetCycles)
            let hpet := hpet.writeReg timer.comparatorRegOffset (BitVec.ofNat 64 cyclesDelta)
            .ok (.ok (cyclesDelta, irq), { s with hpet := hpet })
        | .oneShot => do
            let hpet := s.hpet.writeReg timer.configRegOffset config
            let hpet := hpet.writeReg timer.comparatorRegOffset (BitVec.ofNat 64 targetCycles)
            .ok (.ok (cyclesDelta, irq), { s with hpet := hpet })

def HpetTimer.new (s : TimerSystem) : Except Panic (Except TimerError HpetTimer × TimerSystem) := do
  match ← s.hpet.timerIds.allocate m with
  | (.error _, ids) => .ok (.error .noTimerAvailable, { s with hpet.timerIds := ids })
  | (.ok id, ids) => do
      let timer : HpetTimer := ⟨id, false⟩
      let config : TimerConfiguration := s.hpet.regs timer.configRegOffset
      .ok (.ok { timer with size64Bits := config.sizeCapable }, { s with hpet.timerIds := ids })

def HpetTimer.setDisabled (timer : HpetTimer) (s : TimerSystem) (state : Bool) : TimerSystem :=
  let config : TimerConfiguration := s.hpet.regs timer.configRegOffset
  { s with hpet := s.hpet.writeReg timer.configRegOffset (config.setIntEnable !state) }

/-- What is run before the lock of a timer is released. -/
def HpetTimer.customUnlock (timer : HpetTimer) (s : TimerSystem) : Except Panic TimerSystem := do
  let s := timer.setDisabled s true
  let (res, ids) ← s.hpet.timerIds.free m timer.id
  IdTracker.unwrap res
  .ok { s with hpet.timerIds := ids }

end Timers

/-! ## Runs of timers -/

/-- Where a timer is. -/
inductive TimerPlace
  /-- It is not in a lock. -/
  | bare
  | unlocked
  /-- There is a guard. -/
  | locked
  deriving DecidableEq

/-- The timers that exist, in the order of their creation. -/
structure TimerIds where
  system : TimerSystem
  timers : List (HpetTimer × TimerPlace)

inductive TimerEvent
  | new
  | wrap (i : ℕ)
  | lock (i : ℕ)
  | dropGuard (i : ℕ)
  | configure (i : ℕ)

/-- One step.  A timer is configured through a mutable reference, of the timer or of a
guard. -/
inductive TimerStep (m : Overflow) (overrides : List IrqOverride) (cs : BitVec 16) (s : TimerIds) :
    TimerEvent → TimerIds → Prop
  | new {timer : HpetTimer} {sys : TimerSystem}
      (h : HpetTimer.new m s.system = .ok (.ok timer, sys)) :
      TimerStep m overrides cs s .new ⟨sys, s.timers ++ [(timer, .bare)]⟩
  | newFails {e : TimerError} {sys : TimerSystem}
      (h : HpetTimer.new m s.system = .ok (.error e, sys)) :
      TimerStep m overrides cs s .new ⟨sys, s.timers⟩
  | wrap {i : ℕ} {timer : HpetTimer} (hi : s.timers[i]? = some (timer, .bare)) :
      TimerStep m overrides cs s (.wrap i) { s with timers := s.timers.set i (timer, .unlocked) }
  | lock {i : ℕ} {timer : HpetTimer} (hi : s.timers[i]? = some (timer, .unlocked)) :
      TimerStep m overrides cs s (.lock i) { s with timers := s.timers.set i (timer, .locked) }
  | dropGuard {i : ℕ} {timer : HpetTimer} {sys : TimerSystem}
      (hi : s.timers[i]? = some (timer, .locked)) (h : timer.customUnlock m s.system = .ok sys) :
      TimerStep m overrides cs s (.dropGuard i) ⟨sys, s.timers.set i (timer, .unlocked)⟩
  | configure {i : ℕ} {timer : HpetTimer} {place : TimerPlace} {time : ℕ} {timerMode : TimerMode}
      {receive : Bool} {mode : DeliveryMode} {res : Except TimerError (ℕ × Option ℕ)}
      {sys : TimerSystem} (hi : s.timers[i]? = some (timer, place)) (hplace : place ≠ .unlocked)
      (h : Funderberker.configure m overrides cs timer s.system time timerMode receive mode =
        .ok (res, sys)) :
      TimerStep m overrides cs s (.configure i) ⟨sys, s.timers⟩

/-- The events since the HPET was initialized with no timer created, each with the state
after it, the last one first. -/
inductive TimerRun (m : Overflow) (overrides : List IrqOverride) (cs : BitVec 16) (maxIndex : ℕ) :
    List (TimerEvent × TimerIds) → TimerIds → Prop
  | start {sys : TimerSystem} (h : IdTracker.new m 0 maxIndex = .ok sys.hpet.timerIds) :
      TimerRun m overrides cs maxIndex [] ⟨sys, []⟩
  | step {log : List (TimerEvent × TimerIds)} {s s' : TimerIds} {e : TimerEvent}
      (hrun : TimerRun m overrides cs maxIndex log s) (hstep : TimerStep m overrides cs s e s') :
      TimerRun m overrides cs maxIndex ((e, s') :: log) s'

/-- No id is free while a timer has it. -/
def TimerIds.Owned (s : TimerIds) : Prop :=
  ∀ t ∈ s.timers, s.system.hpet.timerIds.bitmap.isSet (t.1.id - s.system.hpet.timerIds.min) =
    .ok (.ok true)

/-- No guard has been dropped. -/
def NoDrops (log : List (TimerEvent × TimerIds)) : Prop := ∀ x ∈ log, ∀ i, x.1 ≠ .dropGuard i

/-! ## Ids -/

/-- What is written to the configuration register, after the delivery mode. -/
def TimerConfiguration.finish (config : TimerConfiguration) (timerMode : TimerMode)
    (receive : Bool) : TimerConfiguration :=
  let config := ((config.setTimer32bitMode false).setTimerType timerMode).setIntEnable receive
  match timerMode with
  | .periodic => config.setValueSet true
  | .oneShot => config

section Ids

variable {m : Overflow} {overrides : List IrqOverride} {cs : BitVec 16} {timer : HpetTimer}
  {sys sys' : TimerSystem} {maxIndex : ℕ} {live : Set ℕ} {l : List Bool}

theorem configDeliveryMode_timerIds {config : TimerConfiguration} {mode : DeliveryMode}
    {res : Except TimerError (TimerConfiguration × Option ℕ)}
    (h : configDeliveryMode m overrides cs timer sys config mode = .ok (res, sys')) :
    sys'.hpet.timerIds = sys.hpet.timerIds := by
  cases mode with
  | fsb route =>
      rw [configDeliveryMode] at h
      split at h
      · obtain ⟨-, rfl⟩ := Prod.mk.inj (Except.ok.inj h)
        rfl
      · obtain ⟨-, rfl⟩ := Prod.mk.inj (Except.ok.inj h)
        rfl
  | interrupt isrStub intType =>
      rw [configDeliveryMode] at h
      obtain ⟨⟨choice, t⟩, -, h⟩ := bind_eq_ok.mp h
      cases choice with
      | error e =>
          obtain ⟨-, rfl⟩ := Prod.mk.inj (Except.ok.inj h)
          rfl
      | ok irq =>
          obtain ⟨x, -, h⟩ := bind_eq_ok.mp h
          obtain ⟨-, rfl⟩ := Prod.mk.inj (Except.ok.inj h)
          rfl

/-- What the delivery of interrupts does when it is accepted: it takes an IRQ and registers the
stub for it. -/
theorem configDeliveryMode_interrupt {config config' : TimerConfiguration} {isrStub : BitVec 64}
    {intType : TriggerMode} {irq? : Option ℕ}
    (h : configDeliveryMode m overrides cs timer sys config (.interrupt isrStub intType) =
      .ok (.ok (config', irq?), sys')) :
    ∃ irq t v trace, irq? = some irq ∧
      chooseIrq m overrides sys.hpet.intRoutingMode timer.id config.intRouteCap
        sys.irqAllocator = .ok (.ok irq, t) ∧
      registerIrq m overrides cs sys.tables irq isrStub = .ok (v, trace, sys'.tables) ∧
      config' = (config.setFsbIntEnable false).setIntType intType ∧
      sys'.hpet = sys.hpet ∧ sys'.irqAllocator = t := by
  rw [configDeliveryMode] at h
  obtain ⟨⟨choice, t⟩, hchoose, h⟩ := bind_eq_ok.mp h
  cases choice with
  | error e => cases (Prod.mk.inj (Except.ok.inj h)).1
  | ok irq =>
      obtain ⟨⟨v, trace, tables⟩, hregister, h⟩ := bind_eq_ok.mp h
      obtain ⟨hres, rfl⟩ := Prod.mk.inj (Except.ok.inj h)
      obtain ⟨rfl, rfl⟩ := Prod.mk.inj (Except.ok.inj hres)
      exact ⟨irq, t, v, trace, rfl, hchoose, hregister, rfl, rfl, rfl⟩

/-- What `configure` can do: refuse, fail in the delivery mode, or write registers after it. -/
theorem configure_cases {time : ℕ} {timerMode : TimerMode} {receive : Bool}
    {mode : DeliveryMode} {res : Except TimerError (ℕ × Option ℕ)}
    (h : configure m overrides cs timer sys time timerMode receive mode = .ok (res, sys')) :
    (∃ e, res = .error e ∧ sys' = sys) ∨
    ∃ delivery sys₁, configDeliveryMode m overrides cs timer sys
        (sys.hpet.regs timer.configRegOffset) mode = .ok (delivery, sys₁) ∧
      ((∃ e, delivery = .error e ∧ res = .error e ∧ sys' = sys₁) ∨
        ∃ config irq cycles regs, delivery = .ok (config, irq) ∧ res = .ok (cycles, irq) ∧
          sys' = { sys₁ with hpet.regs := regs } ∧
          regs timer.configRegOffset = config.finish timerMode receive) := by
  rw [configure] at h
  dsimp only at h
  split at h
  · obtain ⟨rfl, rfl⟩ := Prod.mk.inj (Except.ok.inj h)
    exact Or.inl ⟨_, rfl, rfl⟩
  · obtain ⟨delta, -, h⟩ := bind_eq_ok.mp h
    obtain ⟨target, -, h⟩ := bind_eq_ok.mp h
    obtain ⟨⟨delivery, sys₁⟩, hdelivery, h⟩ := bind_eq_ok.mp h
    refine Or.inr ⟨delivery, sys₁, hdelivery, ?_⟩
    cases delivery with
    | error e =>
        obtain ⟨rfl, rfl⟩ := Prod.mk.inj (Except.ok.inj h)
        exact Or.inl ⟨e, rfl, rfl, rfl⟩
    | ok x =>
        obtain ⟨config, irq⟩ := x
        -- the comparator is another register
        have hne : timer.configRegOffset ≠ timer.comparatorRegOffset := by
          rw [HpetTimer.configRegOffset, HpetTimer.comparatorRegOffset]
          omega
        cases timerMode with
        | oneShot =>
            obtain ⟨rfl, rfl⟩ := Prod.mk.inj (Except.ok.inj h)
            refine Or.inr ⟨config, irq, delta, _, rfl, rfl, rfl, ?_⟩
            simp only [Hpet.writeReg, Function.update_of_ne hne, Function.update_self]
            rfl
        | periodic =>
            obtain ⟨rfl, rfl⟩ := Prod.mk.inj (Except.ok.inj h)
            refine Or.inr ⟨config, irq, delta, _, rfl, rfl, rfl, ?_⟩
            simp only [Hpet.writeReg, Function.update_of_ne hne, Function.update_self]
            rfl

/-- Configuring a timer leaves the ids alone. -/
theorem configure_timerIds {time : ℕ} {timerMode : TimerMode} {receive : Bool}
    {mode : DeliveryMode} {res : Except TimerError (ℕ × Option ℕ)}
    (h : configure m overrides cs timer sys time timerMode receive mode = .ok (res, sys')) :
    sys'.hpet.timerIds = sys.hpet.timerIds := by
  rcases configure_cases h with ⟨_, -, rfl⟩ | ⟨_, sys₁, hdelivery, ⟨_, -, -, rfl⟩ |
    ⟨_, _, _, regs, -, -, rfl, -⟩⟩
  · rfl
  · exact configDeliveryMode_timerIds hdelivery
  · -- Only registers are written after the delivery mode.
    change sys₁.hpet.timerIds = sys.hpet.timerIds
    exact configDeliveryMode_timerIds hdelivery

/-- What `HpetTimer::new` does to the ids. -/
theorem new_spec {res : Except TimerError HpetTimer}
    (ht : IdTracker.Tracks 0 maxIndex live l sys.hpet.timerIds)
    (h : HpetTimer.new m sys = .ok (res, sys')) :
    (∃ e, res = .error e ∧ ∃ l', IdTracker.Tracks 0 maxIndex live l' sys'.hpet.timerIds) ∨
      ∃ timer l', res = .ok timer ∧ timer.id ∉ live ∧
        IdTracker.Tracks 0 maxIndex (insert timer.id live) l' sys'.hpet.timerIds := by
  obtain ⟨x, hallocate, hx⟩ := IdTracker.allocate_spec (m := m) ht
  rw [HpetTimer.new, hallocate, ok_bind] at h
  cases hx with
  | ok hleast ht' =>
      obtain ⟨rfl, rfl⟩ := Prod.mk.inj (Except.ok.inj h)
      exact Or.inr ⟨_, _, rfl, hleast.1.2.2, ht'⟩
  | full =>
      obtain ⟨rfl, rfl⟩ := Prod.mk.inj (Except.ok.inj h)
      exact Or.inl ⟨_, rfl, l, ht⟩

/-- An id that is live is given back. -/
theorem customUnlock_of_mem (ht : IdTracker.Tracks 0 maxIndex live l sys.hpet.timerIds)
    (hid : timer.id ∈ live) : ∃ sys', timer.customUnlock m sys = .ok sys' := by
  obtain ⟨x, hfree, hx⟩ := IdTracker.free_spec (m := m) ht timer.id
  cases hx with
  | ok hlive ht' =>
      rw [HpetTimer.customUnlock]
      simp only [HpetTimer.setDisabled, Hpet.writeReg, hfree, ok_bind, IdTracker.unwrap]
      exact ⟨_, rfl⟩
  | free _ _ hnot => exact absurd hid hnot
  | invalid hrange => exact absurd (ht.range _ hid) hrange

/-- An id that has been given back is free. -/
theorem customUnlock_tracks (ht : IdTracker.Tracks 0 maxIndex live l sys.hpet.timerIds)
    (h : timer.customUnlock m sys = .ok sys') :
    ∃ l', IdTracker.Tracks 0 maxIndex (live \ {timer.id}) l' sys'.hpet.timerIds := by
  obtain ⟨x, hfree, hx⟩ := IdTracker.free_spec (m := m) ht timer.id
  rw [HpetTimer.customUnlock] at h
  simp only [HpetTimer.setDisabled, Hpet.writeReg, hfree, ok_bind] at h
  cases hx with
  | ok hlive ht' =>
      obtain rfl := Except.ok.inj h
      exact ⟨_, ht'⟩
  | free => cases h
  | invalid => cases h

/-- Whether an id is owned, in terms of the live ids. -/
theorem isSet_iff_mem {t : IdTracker} {id : ℕ} (ht : IdTracker.Tracks 0 maxIndex live l t) :
    t.bitmap.isSet (id - t.min) = .ok (.ok true) ↔ id ∈ live := by
  rw [ht.min_eq, Nat.sub_zero]
  constructor
  · intro h
    rcases Nat.lt_or_ge id l.length with hid | hid
    · rw [ht.isSet hid] at h
      have hbit : l.getD id false = true := by simpa using h
      have hmem := (ht.live_iff id).mp hbit
      rwa [Nat.zero_add] at hmem
    · rw [ht.represents.isSet, List.getElem?_eq_none hid] at h
      cases h
  · intro hmem
    have hrange := ht.range id hmem
    have hlen := ht.length
    rw [ht.isSet (by omega), (ht.live_iff id).mpr (by rwa [Nat.zero_add])]

variable {s s' : TimerIds} {e : TimerEvent} {log : List (TimerEvent × TimerIds)}

/-- What holds in every state: the allocator keeps a set of ids, and until a guard is
dropped the ids of the timers are in it. -/
def TimerIds.Inv (maxIndex : ℕ) (clean : Prop) (s : TimerIds) : Prop :=
  ∃ live l, IdTracker.Tracks 0 maxIndex live l s.system.hpet.timerIds ∧
    (clean → ∀ t ∈ s.timers, t.1.id ∈ live)

/-- A timer that is moved keeps its id. -/
theorem id_of_mem_set {timers : List (HpetTimer × TimerPlace)} {i : ℕ} {place place' : TimerPlace}
    (hi : timers[i]? = some (timer, place)) {t : HpetTimer × TimerPlace}
    (ht : t ∈ timers.set i (timer, place')) : ∃ t' ∈ timers, t'.1.id = t.1.id := by
  rcases List.mem_or_eq_of_mem_set ht with ht | rfl
  · exact ⟨t, ht, rfl⟩
  · exact ⟨(timer, place), List.mem_of_getElem? hi, rfl⟩

theorem TimerStep.inv {clean : Prop} (hinv : s.Inv maxIndex clean)
    (hstep : TimerStep m overrides cs s e s') :
    s'.Inv maxIndex (clean ∧ ∀ i, e ≠ .dropGuard i) := by
  obtain ⟨live, l, ht, hlive⟩ := hinv
  cases hstep with
  | new h =>
      rcases new_spec ht h with ⟨_, hres, -⟩ | ⟨timer, l', hres, -, ht'⟩
      · cases hres
      · obtain rfl := Except.ok.inj hres
        refine ⟨_, l', ht', fun hclean t hmem => ?_⟩
        rcases List.mem_append.mp hmem with hmem | hmem
        · exact Or.inr (hlive hclean.1 t hmem)
        · rw [List.mem_singleton.mp hmem]
          exact Or.inl rfl
  | newFails h =>
      rcases new_spec ht h with ⟨_, -, l', ht'⟩ | ⟨_, _, hres, -⟩
      · exact ⟨live, l', ht', fun hclean => hlive hclean.1⟩
      · cases hres
  | wrap hi =>
      refine ⟨live, l, ht, fun hclean t hmem => ?_⟩
      obtain ⟨t', hmem', hid⟩ := id_of_mem_set hi hmem
      exact hid ▸ hlive hclean.1 t' hmem'
  | lock hi =>
      refine ⟨live, l, ht, fun hclean t hmem => ?_⟩
      obtain ⟨t', hmem', hid⟩ := id_of_mem_set hi hmem
      exact hid ▸ hlive hclean.1 t' hmem'
  | dropGuard hi h =>
      obtain ⟨l', ht'⟩ := customUnlock_tracks ht h
      exact ⟨_, l', ht', fun hclean => absurd rfl (hclean.2 _)⟩
  | configure hi hplace h =>
      refine ⟨live, l, ?_, fun hclean => hlive hclean.1⟩
      rw [configure_timerIds h]
      exact ht

theorem TimerRun.inv (hmax : maxIndex < 2 ^ 64 - 1)
    (hrun : TimerRun m overrides cs maxIndex log s) : s.Inv maxIndex (NoDrops log) := by
  induction hrun with
  | start h =>
      obtain ⟨t, hnew, ht⟩ := IdTracker.Tracks.new (m := m) (Nat.zero_le maxIndex) hmax
      obtain rfl := Except.ok.inj (h.symm.trans hnew)
      exact ⟨∅, _, ht, fun _ => by simp⟩
  | step _ hstep ih =>
      obtain ⟨live, l, ht, hlive⟩ := hstep.inv ih
      refine ⟨live, l, ht, fun hclean => hlive ⟨fun x hx => ?_, fun i => ?_⟩⟩
      · exact hclean x (List.mem_cons_of_mem _ hx)
      · exact hclean _ List.mem_cons_self i

theorem TimerIds.Inv.owned (hinv : s.Inv maxIndex True) : s.Owned := by
  obtain ⟨live, l, ht, hlive⟩ := hinv
  exact fun t hmem => (isSet_iff_mem ht).mpr (hlive trivial t hmem)

/-- The timer whose guard is dropped still exists, and its id is free. -/
theorem not_owned_of_dropGuard {i : ℕ} {clean : Prop} (hinv : s.Inv maxIndex clean)
    (hstep : TimerStep m overrides cs s (.dropGuard i) s') : ¬ s'.Owned := by
  obtain ⟨live, l, ht, -⟩ := hinv
  cases hstep with
  | @dropGuard _ timer _ hi h =>
      obtain ⟨l', ht'⟩ := customUnlock_tracks ht h
      intro howned
      have hlt := (List.getElem?_eq_some_iff.mp hi).1
      have hset := howned (timer, .unlocked)
        (List.mem_of_getElem? (List.getElem?_set_self hlt))
      exact ((isSet_iff_mem ht').mp hset).2 rfl

/-- **Ids are owned until a guard is dropped.**  In a run, no id is free while a timer has
it in every state if and only if no guard is dropped; then a new timer has an id that no
other has, and giving an id back would not panic. -/
theorem timer_ids_owned (hmax : maxIndex < 2 ^ 64 - 1)
    (hrun : TimerRun m overrides cs maxIndex log s) :
    ((∀ x ∈ log, x.2.Owned) ↔ NoDrops log) ∧
    (NoDrops log → s.Owned ∧
      (∀ timer sys, HpetTimer.new m s.system = .ok (.ok timer, sys) →
        ∀ t ∈ s.timers, t.1.id ≠ timer.id) ∧
      ∀ t ∈ s.timers, ∃ sys, t.1.customUnlock m s.system = .ok sys) := by
  refine ⟨⟨fun howned x hx i hdrop => ?_, fun hclean x hx => ?_⟩, fun hclean => ⟨?_, ?_, ?_⟩⟩
  · -- The state after a drop is not owned.
    induction hrun with
    | start => cases hx
    | step hrun hstep ih =>
        rcases List.mem_cons.mp hx with rfl | hx
        · obtain rfl : _ = TimerEvent.dropGuard i := hdrop
          exact not_owned_of_dropGuard (hrun.inv hmax) hstep (howned _ List.mem_cons_self)
        · exact ih (fun y hy => howned y (List.mem_cons_of_mem _ hy)) hx
  · induction hrun with
    | start => cases hx
    | step hrun hstep ih =>
        rcases List.mem_cons.mp hx with rfl | hx
        · obtain ⟨live, l, ht, hlive⟩ := (hrun.step hstep).inv hmax
          exact TimerIds.Inv.owned ⟨live, l, ht, fun _ => hlive hclean⟩
        · exact ih (fun y hy => hclean y (List.mem_cons_of_mem _ hy)) hx
  all_goals obtain ⟨live, l, ht, hlive⟩ := hrun.inv hmax
  · exact TimerIds.Inv.owned ⟨live, l, ht, fun _ => hlive hclean⟩
  · intro timer sys hnew t hmem heq
    rcases new_spec ht hnew with ⟨_, hres, -⟩ | ⟨_, _, hres, hnot, -⟩
    · cases hres
    · obtain rfl := Except.ok.inj hres
      exact hnot (heq ▸ hlive hclean t hmem)
  · exact fun t hmem => customUnlock_of_mem ht (hlive hclean t hmem)

/-- An HPET with three timers of which none has been created. -/
def threeTimers : TimerSystem :=
  ⟨⟨fun _ => 0, 1, ⟨⟨[0], 3⟩, 0⟩, .normal⟩, IdTracker.uninit, ⟨fun _ => .DEFAULT, []⟩⟩

/-- A timer is created. -/
theorem first_timer_owned : ∃ s, TimerRun .checked [] 0 2 [(.new, s)] s ∧ s.timers ≠ [] ∧ s.Owned := by
  have hstart : TimerRun .checked [] 0 2 [] ⟨threeTimers, []⟩ := .start rfl
  have hrun := hstart.step (.new rfl)
  refine ⟨_, hrun, List.cons_ne_nil _ _, ?_⟩
  refine ((timer_ids_owned (by omega) hrun).2 ?_).1
  intro x hx i hdrop
  rw [List.mem_singleton.mp hx] at hdrop
  cases hdrop

/-- A timer is created, put in a lock, locked and unlocked.  Its id is then free, and the
next timer gets it. -/
theorem unlocked_timer_not_owned : ∃ log s, TimerRun .checked [] 0 2 log s ∧ ¬ s.Owned ∧
    ∃ timer sys, HpetTimer.new .checked s.system = .ok (.ok timer, sys) ∧
      ∃ t ∈ s.timers, t.1.id = timer.id := by
  have hstart : TimerRun .checked [] 0 2 [] ⟨threeTimers, []⟩ := .start rfl
  have hnew := hstart.step (.new rfl)
  have hwrap := hnew.step (.wrap (i := 0) rfl)
  have hlock := hwrap.step (.lock (i := 0) rfl)
  have hdrop := hlock.step (.dropGuard (i := 0) rfl rfl)
  refine ⟨_, _, hdrop, fun howned => ?_, _, _, rfl, (⟨0, false⟩, .unlocked), List.mem_cons_self, rfl⟩
  cases howned (⟨0, false⟩, .unlocked) List.mem_cons_self

end Ids

end Funderberker

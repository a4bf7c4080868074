import Funderberker.Interrupts.Redirection

/-!
# The local APICs

`kernel/src/arch/x86_64/apic/lapic.rs`.  A local APIC is a base address with the numbers of its
processor; its registers are memory at offsets from the base.  All of them are usually mapped
to one page, so that the registers are kept for the addresses and not for the local APICs.

A page that is mapped is taken to be there: a pointer is the physical address it is mapped to.

## Main definitions

* `LocalApic`, `LocalApics` — the registered local APICs, and the memory of the registers.
* `LocalApics.add`, `LocalApics.configLints`, `LocalApics.overrideBase`.
* `LocalApic.configTimer`, `LocalApic.setTimerDisabled` — the timer.
-/

namespace Funderberker

open Panicking

/-! ## Registers -/

/-- The 32-bit registers of devices, by their physical addresses. -/
abbrev Mmio := PhysAddr → BitVec 32

def SPURIOUS_INTERRUPT_VECTOR : ℕ := 0xf0
def TASK_PRIORITY : ℕ := 0x80
def LVT_TIMER : ℕ := 0x320
def LVT_LINT0 : ℕ := 0x350
def LVT_LINT1 : ℕ := 0x360
def LVT_ERROR : ℕ := 0x370
def TIMER_INITIAL_COUNT : ℕ := 0x380
def TIMER_DIVIDE_CONFIG : ℕ := 0x3e0

/-- A register of the local vector table. -/
abbrev LvtReg := BitVec 32

namespace LvtReg

variable (r : LvtReg)

def setDeliveryMode (v : Apic.DeliveryMode) : LvtReg := setBits r 8 v.code
def setPinPolarity (v : BitVec 1) : LvtReg := setBits r 13 v
def setTriggerMode (v : BitVec 1) : LvtReg := setBits r 15 v
def setMask (b : Bool) : LvtReg := setBits r 16 (BitVec.ofBool b)
def setReserved2 (v : BitVec 15) : LvtReg := setBits r 17 v

end LvtReg

namespace Apic

inductive PinPolarity
  | activeHigh
  | activeLow
  deriving DecidableEq, Repr

def PinPolarity.code : PinPolarity → BitVec 1
  | activeHigh => 0b0
  | activeLow => 0b1

/-- The default is active low. -/
def PinPolarity.tryFrom (value : BitVec 16) : Option PinPolarity :=
  match value.toNat with
  | 0b1 => some .activeHigh
  | 0b11 => some .activeLow
  | 0b0 => some .activeLow
  | _ => none

inductive TriggerMode
  | edgeTriggered
  | levelTriggered
  deriving DecidableEq, Repr

def TriggerMode.code : TriggerMode → BitVec 1
  | edgeTriggered => 0b0
  | levelTriggered => 0b1

/-- The default is edge triggered. -/
def TriggerMode.tryFrom (value : BitVec 16) : Option TriggerMode :=
  match value.toNat with
  | 0b1 => some .edgeTriggered
  | 0b0 => some .edgeTriggered
  | 0b11 => some .levelTriggered
  | _ => none

inductive TimerDivisor
  | div2
  | div4
  | div8
  | div16
  | div32
  | div64
  | div128
  | div1
  deriving DecidableEq, Repr

def TimerDivisor.code : TimerDivisor → BitVec 32
  | div2 => 0b000
  | div4 => 0b001
  | div8 => 0b010
  | div16 => 0b011
  | div32 => 0b100
  | div64 => 0b101
  | div128 => 0b110
  | div1 => 0b111

inductive TimerMode
  | oneShot
  | periodic
  | tsc
  | reserved
  deriving DecidableEq, Repr

def TimerMode.code : TimerMode → BitVec 15
  | oneShot => 0b0
  | periodic => 0b1
  | tsc => 0b10
  | reserved => 0b11

end Apic

/-! ## One local APIC -/

structure LocalApic where
  /-- The address of its registers. -/
  base : PhysAddr
  acpiProcessorId : BitVec 32
  apicId : BitVec 32
  deriving DecidableEq

namespace LocalApic

variable (a : LocalApic) (mmio : Mmio)

def read (reg : ℕ) : BitVec 32 := mmio (a.base + reg)

def write (reg : ℕ) (v : BitVec 32) : Mmio := Function.update mmio (a.base + reg) v

/-- Bit 9 of `EDX` says whether there are local APICs. -/
def new (cpuidEdx : BitVec 32) (base : PhysAddr) (acpiProcessorId apicId : BitVec 32) :
    Except Panic (LocalApic × Mmio) :=
  if cpuidEdx &&& (0x1 <<< 9) = 0 then .error .assertion
  else
    let a : LocalApic := ⟨base, acpiProcessorId, apicId⟩
    let mmio := a.write mmio SPURIOUS_INTERRUPT_VECTOR 0x1ff
    .ok (a, a.write mmio TASK_PRIORITY 0x0)

/-- One of the two pins is for NMIs, and the other for external interrupts. -/
def writeLvts (nmiLint extIntLint : ℕ) (polarity : Apic.PinPolarity) (trigger : Apic.TriggerMode) :
    Mmio :=
  let nmiLintEntry : LvtReg := a.read mmio nmiLint
  let extIntLintEntry : LvtReg := a.read mmio extIntLint
  let nmiLintEntry := nmiLintEntry.setDeliveryMode .nmi
  let nmiLintEntry := nmiLintEntry.setTriggerMode trigger.code
  let nmiLintEntry := nmiLintEntry.setPinPolarity polarity.code
  let nmiLintEntry := nmiLintEntry.setMask false
  let extIntLintEntry := extIntLintEntry.setDeliveryMode .extInt
  let extIntLintEntry := extIntLintEntry.setTriggerMode Apic.TriggerMode.edgeTriggered.code
  let extIntLintEntry := extIntLintEntry.setMask false
  let error : LvtReg := a.read mmio LVT_ERROR
  let error := error.setMask false
  let mmio := a.write mmio nmiLint nmiLintEntry
  let mmio := a.write mmio extIntLint extIntLintEntry
  a.write mmio LVT_ERROR error

def setupLvts (nmiLint : BitVec 8) (polarity : Apic.PinPolarity) (trigger : Apic.TriggerMode) :
    Except Panic Mmio :=
  match nmiLint.toNat with
  | 0 => .ok (a.writeLvts mmio LVT_LINT0 LVT_LINT1 polarity trigger)
  | 1 => .ok (a.writeLvts mmio LVT_LINT1 LVT_LINT0 polarity trigger)
  | _ => .error (.explicit "Invalid LINT number")

/-! ### The timer -/

def setTimerDividerConfig (divider : Apic.TimerDivisor) : Mmio :=
  a.write mmio TIMER_DIVIDE_CONFIG ((divider.code &&& 0b11) ||| (divider.code <<< 1))

/-- The mode is in bits that are reserved in the other registers of the table. -/
def configTimer (cycleCount : BitVec 32) (timerMode : Apic.TimerMode) : Mmio :=
  let lvtt : LvtReg := a.read mmio LVT_TIMER
  let mmio := a.write mmio LVT_TIMER (lvtt.setReserved2 timerMode.code)
  a.write mmio TIMER_INITIAL_COUNT cycleCount

def setTimerDisabled (disable : Bool) : Mmio :=
  let lvtt : LvtReg := a.read mmio LVT_TIMER
  a.write mmio LVT_TIMER (lvtt.setMask disable)

@[simp] theorem write_same (reg : ℕ) (v : BitVec 32) : a.read (a.write mmio reg v) reg = v :=
  Function.update_self ..

theorem write_of_ne {reg reg' : ℕ} (v : BitVec 32) (h : reg' ≠ reg) :
    a.read (a.write mmio reg v) reg' = a.read mmio reg' :=
  Function.update_of_ne (fun heq => h (Nat.add_left_cancel heq)) ..

end LocalApic

/-! ## All of them -/

structure LocalApics where
  lapics : List LocalApic
  mmio : Mmio

namespace LocalApics

variable (s : LocalApics)

def getApic (apicId : BitVec 32) : Except Panic LocalApic :=
  match s.lapics.find? fun a => a.apicId = apicId with
  | some a => .ok a
  | none => .error (.expect "No APIC matching this APIC ID")

/-- A processor that is neither enabled nor may be is not registered. -/
def add (cpuidEdx : BitVec 32) (base : PhysAddr) (acpiProcessorId apicId flags : BitVec 32) :
    Except Panic LocalApics :=
  if flags &&& 0x1 ≠ 1 ∧ flags &&& 0x2 ≠ 0x2 then .ok s
  else do
    let (a, mmio) ← LocalApic.new s.mmio cpuidEdx base acpiProcessorId apicId
    .ok ⟨s.lapics ++ [a], mmio⟩

/-- Set up the pins of one local APIC as the flags say. -/
def configLint (lint : BitVec 8) (flags : BitVec 16) (mmio : Mmio) (a : LocalApic) :
    Except Panic Mmio := do
  let polarity ← ofOption .unwrapErr (Apic.PinPolarity.tryFrom (flags &&& 0b11))
  let trigger ← ofOption .unwrapErr (Apic.TriggerMode.tryFrom ((flags >>> 2) &&& 0b11))
  a.setupLvts mmio lint polarity trigger

def ALL_PROCESSORS_ID : BitVec 32 := 0xff

def configLints (acpiProcessorId : BitVec 32) (lint : BitVec 8) (flags : BitVec 16) :
    Except Panic LocalApics := do
  let mmio ←
    if acpiProcessorId = ALL_PROCESSORS_ID then s.lapics.foldlM (configLint lint flags) s.mmio
    else
      s.lapics.foldlM (fun mmio a =>
        if a.acpiProcessorId = acpiProcessorId then configLint lint flags mmio a else .ok mmio) s.mmio
  .ok { s with mmio := mmio }

def overrideBase (base : PhysAddr) : LocalApics :=
  { s with lapics := s.lapics.map fun a => { a with base := base } }

end LocalApics

end Funderberker

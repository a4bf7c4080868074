import Funderberker.Acpi.Madt
import Funderberker.Timer.Hpet
import Funderberker.Interrupts.LocalApic

/-!
# Parsing the MADT

`Madt::parse` of `boot/src/acpi/madt.rs`: each entry acts at once on the local APICs, the IO APICs
and the overrides that there are so far, and at the end there is an IRQ for each GSI.

Pages that are mapped for devices are taken to be there, and a pointer is the physical address it
is mapped to.  The old interrupt controller, which is masked off first, is not modelled.

## Main definitions

* `Madt.Entry`, `Madt.Entry.decode` — an entry, and the one at an offset.
* `Machine`, `Apics` — the devices, and what has been found of them.
* `Madt.parseEntry`, `Madt.parseEntries`, `Madt.parse`.

## Main results

* `Madt.parse_of_entries` — a well-formed table is parsed as the list of its entries.
-/

namespace Funderberker

open Panicking

/-- The devices as the firmware leaves them. -/
structure Machine where
  cpuidEdx : BitVec 32
  /-- The registers of local APICs. -/
  mmio : Mmio
  /-- The registers of the IO APIC at an address. -/
  ioApicRegs : PhysAddr → ℕ → BitVec 32

/-- What has been found. -/
structure Apics where
  lapics : LocalApics
  ioApics : List IoApicUnit
  overrides : List IrqOverride

namespace Madt

/-! ## Entries -/

inductive Entry
  | localApic (acpiProcessorId apicId : BitVec 8) (flags : BitVec 32)
  | ioApic (ioApicId : BitVec 8) (ioApicAddr gsiBase : BitVec 32)
  | ioApicIso (irqSource : BitVec 8) (gsi : BitVec 32) (flags : BitVec 16)
  | ioApicNmiIso (nmiSource : BitVec 8) (gsi : BitVec 32) (flags : BitVec 16)
  | localApicNmi (acpiProcessorId : BitVec 8) (flags : BitVec 16) (lint : BitVec 8)
  | localApicAddrOverride (localApicPhysAddr : BitVec 64)
  | processorLocalX2Apic (x2apicId flags processorAcpiId : BitVec 32)
  /-- A type that is not known. -/
  | other (entryType : BitVec 8)
  deriving DecidableEq

/-- Two bytes as a number, the lowest first. -/
def le16 (bytes : ℕ → BitVec 8) (p : ℕ) : BitVec 16 := bytes (p + 1) ++ bytes p

def le64 (bytes : ℕ → BitVec 8) (p : ℕ) : BitVec 64 := le32 bytes (p + 4) ++ le32 bytes p

/-- The entry at an offset. -/
def Entry.decode (bytes : ℕ → BitVec 8) (p : ℕ) : Entry :=
  let entryType := bytes p
  if entryType = EntryType.LOCAL_APIC then
    .localApic (bytes (p + 2)) (bytes (p + 3)) (le32 bytes (p + 4))
  else if entryType = EntryType.IO_APIC then
    .ioApic (bytes (p + 2)) (le32 bytes (p + 4)) (le32 bytes (p + 8))
  else if entryType = EntryType.IO_APIC_ISO then
    .ioApicIso (bytes (p + 3)) (le32 bytes (p + 4)) (le16 bytes (p + 8))
  else if entryType = EntryType.IO_APIC_NMI_ISO then
    .ioApicNmiIso (bytes (p + 2)) (le32 bytes (p + 6)) (le16 bytes (p + 4))
  else if entryType = EntryType.LOCAL_APIC_NMI then
    .localApicNmi (bytes (p + 2)) (le16 bytes (p + 3)) (bytes (p + 5))
  else if entryType = EntryType.LOCAL_APIC_ADDR_OVERRIDE then
    .localApicAddrOverride (le64 bytes (p + 4))
  else if entryType = EntryType.PROCESSOR_LOCAL_X2APIC then
    .processorLocalX2Apic (le32 bytes (p + 4)) (le32 bytes (p + 8)) (le32 bytes (p + 12))
  else .other entryType

/-! ## The arms -/

variable (m : Overflow) (machine : Machine) (localApicAddr : BitVec 32)

/-- The address of the local APICs is that of the header of the table. -/
def parseEntry (s : Apics) : Entry → Except Panic Apics
  | .localApic acpiProcessorId apicId flags => do
      let lapics ← s.lapics.add machine.cpuidEdx localApicAddr.toNat
        (acpiProcessorId.setWidth 32) (apicId.setWidth 32) flags
      .ok { s with lapics := lapics }
  | .ioApic ioApicId ioApicAddr gsiBase => do
      let a ← IoApicUnit.new m (machine.ioApicRegs ioApicAddr.toNat) gsiBase.toNat ioApicId
      .ok { s with ioApics := s.ioApics ++ [a] }
  | .ioApicIso irqSource gsi flags => do
      let (overrides, ioApics) ← overrideIrq m s.overrides s.ioApics irqSource gsi flags none
      .ok { s with overrides := overrides, ioApics := ioApics }
  | .ioApicNmiIso nmiSource gsi flags => do
      let (overrides, ioApics) ←
        overrideIrq m s.overrides s.ioApics nmiSource gsi flags (some .nmi)
      .ok { s with overrides := overrides, ioApics := ioApics }
  | .localApicNmi acpiProcessorId flags lint => do
      let lapics ← s.lapics.configLints (acpiProcessorId.setWidth 32) lint flags
      .ok { s with lapics := lapics }
  | .localApicAddrOverride localApicPhysAddr =>
      .ok { s with lapics := s.lapics.overrideBase localApicPhysAddr.toNat }
  | .processorLocalX2Apic x2apicId flags processorAcpiId => do
      let lapics ← s.lapics.add machine.cpuidEdx localApicAddr.toNat processorAcpiId x2apicId flags
      .ok { s with lapics := lapics }
  | .other _ => .ok s

/-- Nothing has been found. -/
def start : Apics := ⟨⟨[], machine.mmio⟩, [], []⟩

/-- The entries one after the other, and the allocator of the IRQs. -/
def parseEntries (es : List Entry) : Except Panic (Apics × IdTracker) := do
  let s ← es.foldlM (parseEntry m machine localApicAddr) (start machine)
  let irqAllocator ← initIrqAllocator m (devices s.ioApics)
  .ok (s, irqAllocator)

/-! ## The table -/

/-- The loop over the entries.  It is `none` when the fuel is not enough. -/
def parseGo (bytes : ℕ → BitVec 8) : ℕ → Iter → Apics → Option (Except Panic Apics)
  | 0, _, _ => none
  | fuel + 1, it, s =>
      match it.next m bytes with
      | .error e => some (.error e)
      | .ok none => some (.ok s)
      | .ok (some (p, it)) =>
          match parseEntry m machine localApicAddr s (Entry.decode bytes p) with
          | .error e => some (.error e)
          | .ok s => parseGo bytes fuel it s

/-- Whether the checksum is valid, and if so what has been found. -/
def parse (bytes : ℕ → BitVec 8) (fuel : ℕ) :
    Option (Except Panic (Except AcpiError (Apics × IdTracker))) :=
  match SdtHeader.validateChecksum bytes (headerLength bytes) with
  | .error e => some (.ok (.error e))
  | .ok () =>
      match iter m bytes with
      | .error e => some (.error e)
      | .ok it =>
          (parseGo m machine (le32 bytes 36) bytes fuel it (start machine)).map fun res => do
            let s ← res
            let irqAllocator ← initIrqAllocator m (devices s.ioApics)
            .ok (.ok (s, irqAllocator))

variable {m machine localApicAddr} {bytes : ℕ → BitVec 8} {stop p : ℕ}

/-- The entries of a well-formed table, by their offsets. -/
theorem parseGo_of_entries (h : Entries bytes stop p) :
    ∃ ptrs : List ℕ, (∀ q ∈ ptrs, q + entrySize (bytes q) ≤ stop) ∧ ∃ n, ∀ fuel s, n ≤ fuel →
      parseGo m machine localApicAddr bytes fuel ⟨p, stop - p⟩ s =
        some ((ptrs.map (Entry.decode bytes)).foldlM (parseEntry m machine localApicAddr) s) := by
  induction h with
  | done =>
      refine ⟨[], by simp, 1, fun fuel s hfuel => ?_⟩
      obtain ⟨k, rfl⟩ := Nat.exists_eq_add_of_le' hfuel
      rw [parseGo, Iter.next_eq_none_iff.mpr (Nat.sub_self stop)]
      rfl
  | @entry p hlen hsize hrest ih =>
      obtain ⟨ptrs, hinside, n, hrun⟩ := ih
      refine ⟨p :: ptrs, List.forall_mem_cons.mpr ⟨hsize, hinside⟩, n + 1, fun fuel s hfuel => ?_⟩
      obtain ⟨k, rfl⟩ := Nat.exists_eq_add_of_le' (Nat.le_of_add_left_le hfuel)
      have hle := hrest.le
      have htwo := two_le_entrySize (bytes p)
      have hne : stop - p ≠ 0 := by omega
      have hfits : (bytes (p + 1)).toNat ≤ stop - p := by omega
      rw [parseGo, Iter.next_of_le hne hfits, List.map_cons, List.foldlM_cons]
      dsimp only
      cases parseEntry m machine localApicAddr s (Entry.decode bytes p) with
      | error e => rfl
      | ok s' =>
          dsimp only
          rw [Nat.sub_sub, hrun k s' (by omega)]
          rfl

/-- **A well-formed table** with a valid checksum is parsed as the list of the entries in it. -/
theorem parse_of_entries
    (hvalid : SdtHeader.validateChecksum bytes (headerLength bytes) = .ok ())
    (hlength : OFFSET_TO_ENTRIES ≤ (headerLength bytes).toNat)
    (h : Entries bytes (headerLength bytes).toNat OFFSET_TO_ENTRIES) :
    ∃ ptrs : List ℕ, (∀ p ∈ ptrs, p + entrySize (bytes p) ≤ (headerLength bytes).toNat) ∧
      ∃ n, ∀ fuel, n ≤ fuel → parse m machine bytes fuel = some ((parseEntries m machine
        (le32 bytes 36) (ptrs.map (Entry.decode bytes))).map .ok) := by
  obtain ⟨ptrs, hinside, n, hrun⟩ := @parseGo_of_entries m machine (le32 bytes 36) _ _ _ h
  refine ⟨ptrs, hinside, n, fun fuel hfuel => ?_⟩
  rw [parse, hvalid, iter_eq hlength]
  dsimp only
  rw [hrun fuel _ hfuel, Option.map_some, parseEntries]
  congr 1
  cases (ptrs.map (Entry.decode bytes)).foldlM (parseEntry m machine (le32 bytes 36))
    (start machine) with
  | error e => rfl
  | ok s =>
      rw [ok_bind, ok_bind]
      cases initIrqAllocator m (devices s.ioApics) with
      | error e => rfl
      | ok t => rfl

end Madt

end Funderberker

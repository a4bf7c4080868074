import Funderberker.Acpi.Reading

/-!
# Starting from the tables of the firmware

`boot/src/acpi/`: `init` follows the RSDP to the XSDT and from there to every table.  What it reads
is behind pages that it maps as it goes on, and so are the registers of the devices that it finds:
local APICs, IO APICs, the HPET and the functions of the PCI Express bus.

The kernel's part in this, its pages and pointers, should not be seen in what comes out.  What the
tables say is a function of the bytes of physical memory.

The registers of local APICs, of IO APICs and of the HPET are kept for their physical addresses.
Tables are not in memory that the kernel uses, so that their bytes stay as they are.  The old
interrupt controller, which is masked off before a MADT is parsed, and the lines that are logged
before a driver is found are left out.

## Main definitions

* `Acpi.init` — the code.
* `Firmware.outcome` — what the tables say.
-/

namespace Funderberker

open Panicking PageTable MemoryMap

/-! ## The HPET -/

namespace Hpet

def GENERAL_CAPABILITIES : ℕ := 0x0
def GENERAL_CONFIGURATION : ℕ := 0x10
def MAX_TIMER_AMOUNT : ℕ := 32

def new (m : Overflow) (regs : ℕ → BitVec 64) (intRoutingMode : InterruptRoutingMode) :
    Except Panic Hpet := do
  let capabilities := regs GENERAL_CAPABILITIES
  let counterClockPeriod := (capabilities.extractLsb' 32 32).toNat
  let numTimCap := (capabilities.extractLsb' 8 5).toNat
  sanityAssert m (capabilities.extractLsb' 0 8 ≠ 0)
  sanityAssert m (counterClockPeriod < 0x05F5E100)
  sanityAssert m (numTimCap < MAX_TIMER_AMOUNT)
  let timerIds ← IdTracker.new m 0 numTimCap
  .ok ⟨regs, counterClockPeriod, timerIds, intRoutingMode⟩

variable (hpet : Hpet)

def write (reg : ℕ) (v : BitVec 64) : Hpet := { hpet with regs := Function.update hpet.regs reg v }

def setDisabled (state : Bool) : Hpet :=
  hpet.write GENERAL_CONFIGURATION
    (setBits (hpet.regs GENERAL_CONFIGURATION) 0 (BitVec.ofBool (!state)))

def setInterruptRouting (intRoutingMode : InterruptRoutingMode) : Except Panic Hpet :=
  if intRoutingMode = .legacy ∧ (hpet.regs GENERAL_CAPABILITIES).getLsbD 15 = false then
    .error .assertion
  else .ok (hpet.write GENERAL_CONFIGURATION (setBits (hpet.regs GENERAL_CONFIGURATION) 1
    (BitVec.ofBool (intRoutingMode = .legacy))))

def init (m : Overflow) (regs : ℕ → BitVec 64) (intRoutingMode : InterruptRoutingMode) :
    Except Panic Hpet := do
  let hpet ← new m regs intRoutingMode
  let hpet ← (hpet.setDisabled true).setInterruptRouting intRoutingMode
  .ok ((hpet.write MAIN_COUNTER_VALUE 0).setDisabled false)

end Hpet

/-! ## The machine -/

/-- What the firmware leaves: memory, and the registers of the devices. -/
structure Firmware where
  ram : Ram
  machine : Machine
  hpetRegs : PhysAddr → ℕ → BitVec 64
  config : ConfigRegs

/-- What has been set up, and the lines that were logged. -/
structure Hardware where
  apics : Apics
  irqAllocator : Option IdTracker
  hpet : Option Hpet
  log : List String

/-- The kernel while it parses, with the pointers that it has to functions of the bus and to other
registers. -/
structure Platform (σ : Type) where
  manager : PagingManager σ
  hardware : Hardware
  devices : List VirtAddr
  pointers : List VirtAddr

/-- The flags of a page of registers. -/
def registerFlags : Flags := Flags.new.setReadWrite true

/-! ## Values in tables -/

namespace SdtHeader

def SIZE : ℕ := 36

def entryCount (m : Overflow) (length : BitVec 32) (size : ℕ) : Except Panic ℕ := do
  let bytesCount ← Usize.sub m length.toNat SIZE
  sanityAssert m (bytesCount % size = 0)
  .ok (bytesCount / size)

end SdtHeader

/-- The entry of an MCFG at an offset. -/
def ConfigSpace.decode (bytes : ℕ → BitVec 8) (p : ℕ) : ConfigSpace :=
  ⟨Madt.le64 bytes p, bytes (p + 10), bytes (p + 11)⟩

namespace Mcfg

def SIZE : ℕ := 44

def determineEntriesCount (m : Overflow) (length : BitVec 32) : Except Panic ℕ := do
  let totalSize ← Usize.sub m length.toNat SIZE
  sanityAssert m (totalSize % 16 = 0)
  .ok (totalSize / 16)

end Mcfg

/-- The page of registers that is mapped for an entry. -/
def Madt.Entry.page (localApicAddr : BitVec 32) : Madt.Entry → Option PhysAddr
  | .localApic _ _ flags =>
      if flags &&& 0x1 ≠ 1 ∧ flags &&& 0x2 ≠ 0x2 then none else some localApicAddr.toNat
  | .ioApic _ ioApicAddr _ => some ioApicAddr.toNat
  | .localApicAddrOverride localApicPhysAddr => some localApicPhysAddr.toNat
  | .processorLocalX2Apic _ flags _ =>
      if flags &&& 0x1 ≠ 1 ∧ flags &&& 0x2 ≠ 0x2 then none else some localApicAddr.toNat
  | _ => none

/-! ## The code -/

section

variable {σ : Type} [PmmAllocator σ] (m : Overflow) (fw : Firmware) (fuel : ℕ)

def Platform.mapDevice (x : Platform σ) (physAddr : PhysAddr) : Except Panic (Platform σ) := do
  match ← x.manager.mapPages m physAddr 1 registerFlags .size4kb with
  | (.error _, _) => .error .unwrapErr
  | (.ok ptr, s) => .ok { x with manager := s, pointers := x.pointers ++ [ptr] }

def Platform.mapEntry (localApicAddr : BitVec 32) (x : Platform σ) (e : Madt.Entry) :
    Except Panic (Platform σ) :=
  match e.page localApicAddr with
  | some physAddr => x.mapDevice m physAddr
  | none => .ok x

namespace Madt

/-- An arm maps the page of its device, if there is one, and goes on with it. -/
def parseEntryIn (localApicAddr : BitVec 32) (x : Platform σ) (e : Entry) :
    Except Panic (Platform σ) := do
  let x ← x.mapEntry m localApicAddr e
  let apics ← parseEntry m fw.machine localApicAddr x.hardware.apics e
  .ok { x with hardware := { x.hardware with apics := apics } }

/-- The loop over the entries.  Without fuel it has not ended. -/
def parseGoIn (localApicAddr : BitVec 32) (table : VirtAddr) :
    ℕ → Iter → Platform σ → Except Panic (Platform σ)
  | 0, _, _ => .error .unreachable
  | fuel + 1, it, x => do
      match ← it.nextIn m x.manager fw.ram table with
      | none => .ok x
      | some (p, it) => do
          let e ← Entry.read x.manager fw.ram (table + p)
          let x ← parseEntryIn m fw localApicAddr x e
          parseGoIn localApicAddr table fuel it x

def parseIn (table : VirtAddr) (x : Platform σ) :
    Except Panic (Except AcpiError (Platform σ)) := do
  match ← SdtHeader.validateChecksumIn x.manager fw.ram table with
  | .error e => .ok (.error e)
  | .ok () => do
      let length ← readAs x.manager fw.ram 4 le32 (table + 4)
      let len ← Usize.sub m length.toNat OFFSET_TO_ENTRIES
      let localApicAddr ← readAs x.manager fw.ram 4 le32 (table + 36)
      let x ← parseGoIn m fw localApicAddr table fuel ⟨OFFSET_TO_ENTRIES, len⟩ x
      let irqAllocator ← initIrqAllocator m (Funderberker.devices x.hardware.apics.ioApics)
      .ok (.ok { x with hardware := { x.hardware with irqAllocator := some irqAllocator } })

end Madt

/-- The minimum tick is read, and left out of what is kept. -/
def Hpet.setupHpet (table : VirtAddr) (x : Platform σ) :
    Except Panic (Except AcpiError (Platform σ)) := do
  match ← SdtHeader.validateChecksumIn x.manager fw.ram table with
  | .error e => .ok (.error e)
  | .ok () => do
      let physAddr ← readAs x.manager fw.ram 8 Madt.le64 (table + 44)
      let x ← x.mapDevice m physAddr.toNat
      let _minimumTick ← readAs x.manager fw.ram 2 Madt.le16 (table + 52)
      let hpet ← Hpet.init m (fw.hpetRegs physAddr.toNat) .legacy
      .ok (.ok { x with hardware := { x.hardware with hpet := some hpet } })

def Mcfg.parseIn (table : VirtAddr) (x : Platform σ) :
    Except Panic (Except AcpiError (Platform σ)) := do
  match ← SdtHeader.validateChecksumIn x.manager fw.ram table with
  | .error e => .ok (.error e)
  | .ok () => do
      let length ← readAs x.manager fw.ram 4 Madt.le32 (table + 4)
      let count ← determineEntriesCount m length
      let entries ← (List.range count).mapM fun i =>
        readAs x.manager fw.ram 16 ConfigSpace.decode (table + (SIZE + 16 * i))
      let (log, devices, s) ← PcieManager.init m fw.config (x.devices, x.manager) entries
      let hardware := { x.hardware with log := x.hardware.log ++ log }
      .ok (.ok { x with manager := s, devices := devices, hardware := hardware })

namespace Xsdt

def parseTable (table : VirtAddr) (x : Platform σ) :
    Except Panic (Except AcpiError (Platform σ)) := do
  let signature ← readBytes x.manager fw.ram table 4
  match AcpiTable.ofSignature signature with
  | some .madt => Madt.parseIn m fw fuel table x
  | some .hpet => Hpet.setupHpet m fw table x
  | some .mcfg => Mcfg.parseIn m fw table x
  | none => .ok (.ok x)

/-- The loop over the addresses; some of them are left. -/
def parseTablesGo : ℕ → VirtAddr → Platform σ → Except Panic (Except AcpiError (Platform σ))
  | 0, _, x => .ok (.ok x)
  | count + 1, ptr, x => do
      let addr ← readAs x.manager fw.ram 8 Madt.le64 ptr
      let (table, s) ← mapTable m x.manager addr.toNat
      match ← parseTable m fw fuel table { x with manager := s } with
      | .error e => .ok (.error e)
      | .ok x => parseTablesGo count (ptr + 8) x

def parseTables (table : VirtAddr) (x : Platform σ) :
    Except Panic (Except AcpiError (Platform σ)) := do
  match ← SdtHeader.validateChecksumIn x.manager fw.ram table with
  | .error e => .ok (.error e)
  | .ok () => do
      let length ← readAs x.manager fw.ram 4 Madt.le32 (table + 4)
      let count ← SdtHeader.entryCount m length 8
      parseTablesGo m fw fuel count (table + SdtHeader.SIZE) x

end Xsdt

/-- The old part and the new one have sums of their own. -/
def Rsdp2.validateChecksum (s : PagingManager σ) (ram : Ram) (rsdp : VirtAddr) :
    Except Panic (Except AcpiError Unit) := do
  let old ← readBytes s ram rsdp 20
  if SdtHeader.sum (Madt.ofList old) 20 &&& 0xff ≠ 0 then .ok (.error .invalidChecksum)
  else do
    let new ← readBytes s ram (rsdp + 20) 16
    if SdtHeader.sum (Madt.ofList new) 16 &&& 0xff ≠ 0 then .ok (.error .invalidChecksum)
    else .ok (.ok ())

def Acpi.init (rsdpAddr : PhysAddr) (x : Platform σ) :
    Except Panic (Except AcpiError (Platform σ)) := do
  let (rsdp, s) ← mapTable m x.manager rsdpAddr
  match ← Rsdp2.validateChecksum s fw.ram rsdp with
  | .error e => .ok (.error e)
  | .ok () => do
      let xsdtAddress ← readAs s fw.ram 8 Madt.le64 (rsdp + 24)
      let (xsdt, s) ← Rsdp2.getXsdt m s xsdtAddress
      Xsdt.parseTables m fw fuel xsdt { x with manager := s }

end

/-! ## What the tables say -/

/-- The entries of a MADT, from an offset on; all have a length. -/
def Madt.listedGo (bytes : ℕ → BitVec 8) (stop : ℕ) : ℕ → ℕ → List Madt.Entry
  | 0, _ => []
  | fuel + 1, p =>
      if stop ≤ p then []
      else Madt.Entry.decode bytes p :: listedGo bytes stop fuel (p + (bytes (p + 1)).toNat)

def Madt.listed (bytes : ℕ → BitVec 8) : List Madt.Entry :=
  listedGo bytes (headerLength bytes).toNat (headerLength bytes).toNat OFFSET_TO_ENTRIES

/-- The entries of an MCFG. -/
def Mcfg.listed (bytes : ℕ → BitVec 8) : List ConfigSpace :=
  (List.range (((Madt.headerLength bytes).toNat - SIZE) / 16)).map fun i =>
    ConfigSpace.decode bytes (SIZE + 16 * i)

/-- What has been set up, with the physical addresses of the functions of the bus and of the other
registers. -/
structure Listed where
  hardware : Hardware
  functions : List PhysAddr
  registers : List PhysAddr

namespace Firmware

variable (m : Overflow) (fw : Firmware)

/-- Nothing has been set up. -/
def start : Hardware := ⟨Madt.start fw.machine, none, none, []⟩

def parseEntry (localApicAddr : BitVec 32) (h : Listed) (e : Madt.Entry) :
    Except Panic Listed := do
  let apics ← Madt.parseEntry m fw.machine localApicAddr h.hardware.apics e
  .ok { h with
    hardware := { h.hardware with apics := apics }
    registers := h.registers ++ (e.page localApicAddr).toList }

/-- What a table with a valid checksum says. -/
def content (a : PhysAddr) (h : Listed) : AcpiTable → Except Panic Listed
  | .madt => do
      let bytes := fw.ram.table a
      let h ← (Madt.listed bytes).foldlM (fw.parseEntry m (Madt.le32 bytes 36)) h
      let irqAllocator ← initIrqAllocator m (devices h.hardware.apics.ioApics)
      .ok { h with hardware := { h.hardware with irqAllocator := some irqAllocator } }
  | .hpet => do
      let base := (Madt.le64 (fw.ram.table a) 44).toNat
      let hpet ← Hpet.init m (fw.hpetRegs base) .legacy
      .ok { h with
        hardware := { h.hardware with hpet := some hpet }
        registers := h.registers ++ [base] }
  | .mcfg =>
      let functions := h.functions ++ functionsOfAll fw.config (Mcfg.listed (fw.ram.table a))
      let log := List.replicate (functions.countP (IsNvme fw.config)) "Found NVMe"
      .ok { h with
        hardware := { h.hardware with log := h.hardware.log ++ log }
        functions := functions }

/-- The parser for a table. -/
def kind (a : PhysAddr) : Option AcpiTable :=
  AcpiTable.ofSignature ((List.range 4).map (fw.ram.table a))

def length (a : PhysAddr) : ℕ := (Madt.headerLength (fw.ram.table a)).toNat

def validate (a : PhysAddr) : Except AcpiError Unit :=
  SdtHeader.validateChecksum (fw.ram.table a) (Madt.headerLength (fw.ram.table a))

def parseKnown (a : PhysAddr) (h : Listed) (t : AcpiTable) :
    Except Panic (Except AcpiError Listed) :=
  match fw.validate a with
  | .error e => .ok (.error e)
  | .ok () => do
      let h ← fw.content m a h t
      .ok (.ok h)

/-- A table without a parser says nothing. -/
def parseTable (a : PhysAddr) (h : Listed) : Except Panic (Except AcpiError Listed) :=
  match fw.kind a with
  | some t => fw.parseKnown m a h t
  | none => .ok (.ok h)

/-- One table after the other, up to one whose checksum is wrong. -/
def parseTables : List PhysAddr → Listed → Except Panic (Except AcpiError Listed)
  | [], h => .ok (.ok h)
  | a :: tables, h => do
      match ← fw.parseTable m a h with
      | .error e => .ok (.error e)
      | .ok h => parseTables tables h

/-- The address in the RSDP. -/
def xsdt (rsdpAddr : PhysAddr) : PhysAddr := (Madt.le64 (fw.ram.table rsdpAddr) 24).toNat

/-- The addresses in an XSDT. -/
def tables (xsdt : PhysAddr) : List PhysAddr :=
  (List.range ((fw.length xsdt - SdtHeader.SIZE) / 8)).map fun i =>
    (Madt.le64 (fw.ram.table xsdt) (SdtHeader.SIZE + 8 * i)).toNat

def parseXsdt (xsdt : PhysAddr) (h : Listed) : Except Panic (Except AcpiError Listed) :=
  match fw.validate xsdt with
  | .error e => .ok (.error e)
  | .ok () => fw.parseTables m (fw.tables xsdt) h

/-- The two sums of the RSDP. -/
def RsdpValid (rsdpAddr : PhysAddr) : Prop :=
  SdtHeader.sum (fw.ram.table rsdpAddr) 20 % 2 ^ 8 = 0 ∧
    SdtHeader.sum (fw.ram.table (rsdpAddr + 20)) 16 % 2 ^ 8 = 0

instance (rsdpAddr : PhysAddr) : Decidable (fw.RsdpValid rsdpAddr) :=
  inferInstanceAs (Decidable (_ ∧ _))

def outcome (rsdpAddr : PhysAddr) (h : Listed) : Except Panic (Except AcpiError Listed) :=
  if fw.RsdpValid rsdpAddr then fw.parseXsdt m (fw.xsdt rsdpAddr) h
  else .ok (.error .invalidChecksum)

end Firmware

end Funderberker

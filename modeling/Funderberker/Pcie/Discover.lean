import Funderberker.Paging.Kernel

/-!
# Finding the devices of the PCI Express bus

`drivers/src/bus/pcie.rs`: every function of every device on every bus of a segment group has a
page of registers at a place that its numbers tell.  Whether there is such a function is only known
once the page is mapped and its first register read, so each page is mapped, and unmapped again when
nothing answers.  Functions 1 to 7 are only tried when function 0 says that there are more.

The vector of devices is a list, and the memory it takes from the heap is left out.

## Main definitions

* `PcieManager.checkDevice`, `discoverDeviceFunctions`, `bruteForceDiscover` — the code.
* `functionsOf` — the functions of a device that answer.
* `Adds` — what a part of the search does.

## Main results

* `pcie_functions_found` — the search finds what answers, and maps nothing else.
-/

namespace Funderberker

open Panicking MemoryMap

/-! ## The code -/

def VENDOR_ID_INVALID : BitVec 32 := 0xffff

namespace StandardHeader

def DEVICE_VENDOR_ID : ℕ := 0x00
def CLASS_REVISION : ℕ := 0x08
def BIST_HEADER_LATENCY_CACHE : ℕ := 0x0c

end StandardHeader

/-- The buses of a segment group, and where their registers are. -/
structure ConfigSpace where
  baseAddress : BitVec 64
  startBusNumber : BitVec 8
  endBusNumber : BitVec 8

/-- The registers of the functions, by their physical addresses.  Where nothing answers, all bits
are set. -/
abbrev ConfigRegs := PhysAddr → BitVec 32

section

variable {σ : Type} [PmmAllocator σ] (m : Overflow) (regs : ConfigRegs)

/-- An access through a pointer.  Where nothing is mapped, the handler of the page fault panics. -/
def PagingManager.access (s : PagingManager σ) (v : VirtAddr) : Except Panic PhysAddr :=
  match pageWalk s.world.mem s.pml v with
  | some p => .ok p
  | none => .error (.explicit
      ("Exception Page Fault at address: 0x" ++ String.ofList (Nat.toDigits 16 v)))

def MmioArea.read (s : PagingManager σ) (base : VirtAddr) (reg : ℕ) : Except Panic (BitVec 32) := do
  let p ← s.access (base + reg)
  .ok (regs p)

namespace PcieDevice

def getBaseAddress (bus device function : BitVec 8) (segmentGroupBase : BitVec 64) :
    Except Panic PhysAddr :=
  Usize.add m segmentGroupBase.toNat
    (bus.toNat <<< 20 ||| device.toNat <<< 15 ||| function.toNat <<< 12)

/-- The flags of a page of registers. -/
def flags : Flags := (Flags.new.setReadWrite true).setPat .writeThrough .size4kb

end PcieDevice

namespace PcieManager

/-- The registers of a function, if it answers. -/
def checkDevice (s : PagingManager σ) (bus device function : BitVec 8)
    (segmentGroupBase : BitVec 64) : Except Panic (Option VirtAddr × PagingManager σ) := do
  let physAddr ← PcieDevice.getBaseAddress m bus device function segmentGroupBase
  match ← s.mapPages m physAddr 1 PcieDevice.flags .size4kb with
  | (.error _, _) => .error .unwrapErr
  | (.ok configSpace, s) => do
      let vendorId ← MmioArea.read regs s configSpace StandardHeader.DEVICE_VENDOR_ID
      if vendorId &&& 0xffff = VENDOR_ID_INVALID then
        match ← s.unmapPages m configSpace 1 .size4kb with
        | (.error _, _) => .error .unwrapErr
        | (.ok (), s) => .ok (none, s)
      else .ok (some configSpace, s)

/-- One turn of the loop over the functions from 1 on. -/
def discoverFunction (bus device : BitVec 8) (segmentGroup : ConfigSpace)
    (x : List VirtAddr × PagingManager σ) (function : BitVec 8) :
    Except Panic (List VirtAddr × PagingManager σ) := do
  match ← checkDevice m regs x.2 bus device function segmentGroup.baseAddress with
  | (some configSpace, s) => .ok (x.1 ++ [configSpace], s)
  | (none, s) => .ok (x.1, s)

def discoverDeviceFunctions (bus : BitVec 8) (segmentGroup : ConfigSpace)
    (x : List VirtAddr × PagingManager σ) (device : BitVec 8) :
    Except Panic (List VirtAddr × PagingManager σ) := do
  match ← checkDevice m regs x.2 bus device 0 segmentGroup.baseAddress with
  | (none, s) => .ok (x.1, s)
  | (some configSpace, s) => do
      let devices := x.1 ++ [configSpace]
      let last ← ofOption .unwrapNone devices.getLast?
      let reg ← MmioArea.read regs s last StandardHeader.BIST_HEADER_LATENCY_CACHE
      let headerType := (reg >>> 16) &&& 0xff
      if headerType &&& 0x80 ≠ 0 then
        [1, 2, 3, 4, 5, 6, 7].foldlM (discoverFunction m regs bus device segmentGroup) (devices, s)
      else .ok (devices, s)

/-- The buses of a segment group, the last one with them. -/
def buses (segmentGroup : ConfigSpace) : List (BitVec 8) :=
  (List.range' segmentGroup.startBusNumber.toNat
    (segmentGroup.endBusNumber.toNat + 1 - segmentGroup.startBusNumber.toNat)).map (BitVec.ofNat 8)

/-- The numbers of the devices of a bus. -/
def deviceNumbers : List (BitVec 8) := (List.range 32).map (BitVec.ofNat 8)

def bruteForceDiscover (x : List VirtAddr × PagingManager σ) (segmentGroups : List ConfigSpace) :
    Except Panic (List VirtAddr × PagingManager σ) :=
  segmentGroups.foldlM (fun x segmentGroup =>
    (buses segmentGroup).foldlM (fun x bus =>
      deviceNumbers.foldlM (discoverDeviceFunctions m regs bus segmentGroup) x) x) x

/-- One turn of the loop that looks for drivers, with the lines that were logged. -/
def loadDeviceDriver (s : PagingManager σ) (log : List String) (configSpace : VirtAddr) :
    Except Panic (List String) := do
  let classCode := (← MmioArea.read regs s configSpace StandardHeader.CLASS_REVISION) >>> 24
  let subclass :=
    ((← MmioArea.read regs s configSpace StandardHeader.CLASS_REVISION) >>> 16) &&& 0xff
  let progIf := ((← MmioArea.read regs s configSpace StandardHeader.CLASS_REVISION) >>> 8) &&& 0xff
  if classCode = 0x1 ∧ subclass = 0x8 ∧ progIf = 0x2 then .ok (log ++ ["Found NVMe"]) else .ok log

def loadDeviceDrivers (x : List VirtAddr × PagingManager σ) : Except Panic (List String) :=
  x.1.foldlM (loadDeviceDriver regs x.2) []

/-- The new devices, and what was logged. -/
def init (x : List VirtAddr × PagingManager σ) (segmentGroups : List ConfigSpace) :
    Except Panic (List String × List VirtAddr × PagingManager σ) := do
  let x ← bruteForceDiscover m regs x segmentGroups
  let log ← loadDeviceDrivers regs x
  .ok (log, x)

end PcieManager

end

/-! ## What there is to be found -/

/-- The pages of registers of a segment group are pages, and the processor can address them. -/
structure ConfigSpace.Proper (g : ConfigSpace) : Prop where
  aligned : g.baseAddress.toNat % 4096 = 0
  fits : g.baseAddress.toNat + 2 ^ 28 ≤ 2 ^ 52

/-- The page at `v` shows the registers at `p`. -/
def Shows (s : PagingManager BuddyAllocator) (v : VirtAddr) (p : PhysAddr) : Prop :=
  ∀ off < BASIC_PAGE_SIZE, pageWalk s.world.mem s.pml (v + off) = some (p + off)

/-- Where the registers of a function are. -/
def functionAddr (g : ConfigSpace) (bus device function : BitVec 8) : PhysAddr :=
  g.baseAddress.toNat + (bus.toNat * 2 ^ 20 + device.toNat * 2 ^ 15 + function.toNat * 2 ^ 12)

/-- The function answers. -/
def Answers (regs : ConfigRegs) (p : PhysAddr) : Prop := (regs p).toNat % 2 ^ 16 ≠ 0xffff

instance (regs : ConfigRegs) : DecidablePred (Answers regs) := fun _ =>
  inferInstanceAs (Decidable (_ ≠ _))

/-- The device has more functions than one. -/
def MultiFunction (regs : ConfigRegs) (p : PhysAddr) : Bool :=
  (regs (p + StandardHeader.BIST_HEADER_LATENCY_CACHE)).getLsbD 23

/-- The function is a disk that speaks NVMe. -/
def IsNvme (regs : ConfigRegs) (p : PhysAddr) : Prop :=
  (regs (p + StandardHeader.CLASS_REVISION)).toNat / 2 ^ 8 = 0x010802

instance (regs : ConfigRegs) : DecidablePred (IsNvme regs) := fun _ =>
  inferInstanceAs (Decidable (_ = _))

/-- The functions of a device that answer. -/
def functionsOf (regs : ConfigRegs) (g : ConfigSpace) (bus device : BitVec 8) : List PhysAddr :=
  if Answers regs (functionAddr g bus device 0) then
    functionAddr g bus device 0 ::
      if MultiFunction regs (functionAddr g bus device 0) then
        ([1, 2, 3, 4, 5, 6, 7].map (functionAddr g bus device)).filter (Answers regs)
      else []
  else []

/-- The functions of all devices of all buses. -/
def functionsOfAll (regs : ConfigRegs) (groups : List ConfigSpace) : List PhysAddr :=
  groups.flatMap fun g => (PcieManager.buses g).flatMap fun bus =>
    PcieManager.deviceNumbers.flatMap fun device => functionsOf regs g bus device

/-! ## Numbers and registers -/

section

variable {regs : ConfigRegs} {g : ConfigSpace} {p : PhysAddr} {bus device function : BitVec 8}

/-- The numbers of a function do not overlap in its place. -/
theorem shiftLeft_or_eq {b d f : ℕ} (hd : d < 32) (hf : f < 8) :
    b <<< 20 ||| d <<< 15 ||| f <<< 12 = b * 2 ^ 20 + d * 2 ^ 15 + f * 2 ^ 12 := by
  have hfield : d <<< 15 ||| f <<< 12 = d * 2 ^ 15 + f * 2 ^ 12 := by
    rw [← Nat.shiftLeft_add_eq_or_of_lt (show f <<< 12 < 2 ^ 15 by rw [Nat.shiftLeft_eq]; omega),
      Nat.shiftLeft_eq, Nat.shiftLeft_eq]
  rw [Nat.or_assoc, hfield, ← Nat.shiftLeft_add_eq_or_of_lt (by omega), Nat.shiftLeft_eq,
    Nat.add_assoc]

theorem getBaseAddress_eq {m : Overflow} (hg : g.Proper)
    (hd : device.toNat < 32) (hf : function.toNat < 8) :
    PcieDevice.getBaseAddress m bus device function g.baseAddress =
      .ok (functionAddr g bus device function) := by
  have hb := bus.isLt
  have hfits := hg.fits
  rw [PcieDevice.getBaseAddress, shiftLeft_or_eq hd hf, Usize.add_eq (by omega)]
  rfl

theorem functionAddr_mod (hg : g.Proper) : functionAddr g bus device function % 4096 = 0 := by
  have halign := hg.aligned
  have h : (g.baseAddress.toNat +
      (bus.toNat * 2 ^ 20 + device.toNat * 2 ^ 15 + function.toNat * 2 ^ 12)) % 4096 = 0 := by omega
  exact h

theorem functionAddr_lt (hg : g.Proper) (hd : device.toNat < 32) (hf : function.toNat < 8) :
    functionAddr g bus device function < 2 ^ 52 := by
  have hb := bus.isLt
  have hfits := hg.fits
  have h : g.baseAddress.toNat +
      (bus.toNat * 2 ^ 20 + device.toNat * 2 ^ 15 + function.toNat * 2 ^ 12) < 2 ^ 52 := by omega
  exact h

theorem vendorId_invalid_iff :
    regs p &&& 0xffff = VENDOR_ID_INVALID ↔ ¬ Answers regs p := by
  rw [Answers, not_not, VENDOR_ID_INVALID, ← BitVec.toNat_inj, BitVec.toNat_and]
  exact Eq.congr_left (Nat.and_two_pow_sub_one_eq_mod _ 16)

/-- Bit 7 of the header type. -/
theorem headerType_iff {x : BitVec 32} :
    ((x >>> 16) &&& 0xff) &&& 0x80 ≠ 0 ↔ x.getLsbD 23 = true := by
  have hmask : ((x >>> 16) &&& (0xff : BitVec 32)) &&& (0x80 : BitVec 32) =
      (x >>> 16) &&& BitVec.twoPow 32 7 := by
    rw [BitVec.and_assoc]
    rfl
  rw [hmask, BitVec.and_twoPow, BitVec.getLsbD_ushiftRight]
  cases x.getLsbD 23 <;> decide

theorem Shows.access {s : PagingManager BuddyAllocator} {v : VirtAddr} {off : ℕ} (h : Shows s v p)
    (hoff : off < BASIC_PAGE_SIZE) : s.access (v + off) = .ok (p + off) := by
  rw [PagingManager.access, h off hoff]

theorem Shows.read {s : PagingManager BuddyAllocator} {v : VirtAddr} {reg : ℕ} (h : Shows s v p)
    (hreg : reg < BASIC_PAGE_SIZE) : MmioArea.read regs s v reg = .ok (regs (p + reg)) := by
  rw [MmioArea.read, h.access hreg]
  rfl

theorem pcieFlags_built : PcieDevice.flags.Built := .pat (.readWrite .new true) .writeThrough

end

/-! ## Searching -/

/-- Where a search starts. -/
structure Origin where
  bound : ℕ
  pages : Set ℕ
  boot : ℕ → Option (ℕ × Word)
  kernel : KernelState
  next : ℕ
  devices : List VirtAddr

/-- What a search has done when it comes to the page `next`: it has called the kernel about new
pages only, and the pages that it kept show what it found. -/
structure Search (m : Overflow) (o : Origin) (found : List PhysAddr) (next : ℕ)
    (x : List VirtAddr × PagingManager BuddyAllocator) (S : Set ℕ) (c : KernelState)
    (pages : List ℕ) : Prop where
  run : KernelRun m o.kernel S c
  inv : ∃ pm, KernelInv o.bound o.pages o.boot c pm next
  manager : c.manager = x.2
  owned : c.owned = o.kernel.owned
  devices : ∀ y, y ∈ c.devices ↔ y ∈ o.kernel.devices ∨ y ∈ pages.zip found
  listed : x.1 = o.devices ++ pages.map (· * BASIC_PAGE_SIZE)
  length : pages.length = found.length
  sorted : pages.Pairwise (· < ·)
  new : ∀ k ∈ pages, o.next ≤ k ∧ k < next
  touched : ∀ k ∈ S, o.next ≤ k
  le : o.next ≤ next

def Found (m : Overflow) (o : Origin) (found : List PhysAddr) (next : ℕ)
    (x : List VirtAddr × PagingManager BuddyAllocator) : Prop :=
  ∃ S c pages, Search m o found next x S c pages

/-- A part of the search that takes up to `room` pages and finds `new`. -/
def Finds (m : Overflow) (o : Origin) (room : ℕ) (new : List PhysAddr)
    (f : List VirtAddr × PagingManager BuddyAllocator →
      Except Panic (List VirtAddr × PagingManager BuddyAllocator)) : Prop :=
  ∀ found next x, Found m o found next x → next + room ≤ LOW_PAGES →
    Yields (Exhausted m) (fun x' => ∃ next', next' ≤ next + room ∧
      Found m o (found ++ new) next' x') (f x)

section

variable {m : Overflow} {o : Origin} {regs : ConfigRegs} {g : ConfigSpace}
  {bus device function : BitVec 8} {found : List PhysAddr} {next : ℕ}
  {devices : List VirtAddr} {s : PagingManager BuddyAllocator} {p : PhysAddr}

/-- Nothing is found yet. -/
theorem Found.start (hinv : ∃ pm, KernelInv o.bound o.pages o.boot o.kernel pm next)
    (hnext : o.next = next) : Found m o [] next (o.devices, o.kernel.manager) :=
  ⟨∅, o.kernel, [], .refl, hinv, rfl, rfl, fun _ => ⟨Or.inl, Or.rec id nofun⟩,
    (List.append_nil _).symm, rfl, .nil, nofun, nofun, hnext.le⟩

/-- A loop finds what its turns find. -/
theorem Finds.foldlM {α : Type} {F : α → List PhysAddr} {n : ℕ} {l : List α}
    {f : List VirtAddr × PagingManager BuddyAllocator → α →
      Except Panic (List VirtAddr × PagingManager BuddyAllocator)}
    (h : ∀ a ∈ l, Finds m o n (F a) (f · a)) :
    Finds m o (l.length * n) (l.flatMap F) (l.foldlM f ·) := by
  intro found next x hx hroom
  refine Yields.foldlM (P := fun passed x' => ∃ next', next' ≤ next + passed.length * n ∧
    Found m o (found ++ passed.flatMap F) next' x') ⟨next, by simp, by simpa using hx⟩ ?_
  rintro passed a left x' rfl ⟨next', hle, hx'⟩
  have hlen : (passed ++ a :: left).length * n =
      passed.length * n + n + left.length * n := by
    rw [List.length_append, List.length_cons, Nat.add_mul, Nat.add_mul, Nat.one_mul]
    omega
  have ha : a ∈ passed ++ a :: left := List.mem_append_right _ List.mem_cons_self
  refine (h a ha _ next' x' hx' (by omega)).imp ?_
  rintro x'' ⟨next'', hle', hx''⟩
  refine ⟨next'', ?_, ?_⟩
  · rw [List.length_append, List.length_singleton, Nat.add_mul, Nat.one_mul]
    omega
  · rw [List.flatMap_append, List.flatMap_singleton, ← List.append_assoc]
    exact hx''

theorem Finds.mono {n n' : ℕ} {new : List PhysAddr}
    {f : List VirtAddr × PagingManager BuddyAllocator →
      Except Panic (List VirtAddr × PagingManager BuddyAllocator)}
    (h : Finds m o n new f) (hle : n ≤ n') : Finds m o n' new f := by
  intro found next x hx hroom
  refine (h found next x hx (by omega)).imp ?_
  rintro x' ⟨next', hle', hx'⟩
  exact ⟨next', by omega, hx'⟩

/-- The last page shows what was found last. -/
theorem Search.keep {S : Set ℕ} {c : KernelState} {pages : List ℕ}
    (h : Search m o found next (devices, s) S c pages) {s' : PagingManager BuddyAllocator}
    (hstep : KernelStep m c {next} ⟨s', c.owned, insert (next, p) c.devices⟩)
    (hinv : ∃ pm, KernelInv o.bound o.pages o.boot ⟨s', c.owned, insert (next, p) c.devices⟩ pm
      (next + 1)) :
    Found m o (found ++ [p]) (next + 1) (devices ++ [next * BASIC_PAGE_SIZE], s') := by
  refine ⟨S ∪ {next}, _, pages ++ [next], h.run.step hstep, hinv, rfl, h.owned, fun y => ?_, ?_, ?_,
    ?_, fun k hk => ?_, ?_, h.le.trans (Nat.le_succ next)⟩
  · rw [List.zip_append h.length, List.mem_append, ← or_assoc, ← h.devices y, Set.mem_insert_iff,
      or_comm]
    simp
  · rw [List.map_append, ← List.append_assoc, ← h.listed]
    rfl
  · rw [List.length_append, List.length_append, h.length]
    rfl
  · refine List.pairwise_append.mpr ⟨h.sorted, List.pairwise_singleton _ _, fun k hk j hj => ?_⟩
    rw [List.mem_singleton.mp hj]
    exact (h.new k hk).2
  · rcases List.mem_append.mp hk with hk | hk
    · exact ⟨(h.new k hk).1, (h.new k hk).2.trans (Nat.lt_succ_self next)⟩
    · rw [List.mem_singleton.mp hk]
      exact ⟨h.le, Nat.lt_succ_self next⟩
  · rintro k (hk | rfl)
    · exact h.touched k hk
    · exact h.le

/-- A page that was mapped and unmapped leaves nothing behind. -/
theorem Search.drop {S : Set ℕ} {c c' : KernelState} {pages : List ℕ}
    (h : Search m o found next (devices, s) S c pages)
    (hrun : KernelRun m o.kernel (S ∪ {next} ∪ {next}) c')
    (hinv : ∃ pm, KernelInv o.bound o.pages o.boot c' pm (next + 1)) (howned : c'.owned = c.owned)
    (hdevices : c'.devices = c.devices) :
    Found m o found (next + 1) (devices, c'.manager) := by
  refine ⟨_, c', pages, hrun, hinv, rfl, howned.trans h.owned, fun y => ?_, h.listed, h.length,
    h.sorted, fun k hk => ⟨(h.new k hk).1, (h.new k hk).2.trans (Nat.lt_succ_self next)⟩, ?_,
    h.le.trans (Nat.le_succ next)⟩
  · rw [hdevices]
    exact h.devices y
  · rintro k ((hk | rfl) | rfl)
    · exact h.touched k hk
    · exact h.le
    · exact h.le

/-- A page is mapped: what is returned, the call, and the invariant after it. -/
theorem KernelInv.mapStep {T : ℕ} {A : Set ℕ} {boot : ℕ → Option (ℕ × Word)} {c : KernelState}
    {pm : ℕ → Option PhysAddr} {flags : Flags} (hinv : KernelInv T A boot c pm next)
    (hT : T * BASIC_PAGE_SIZE ≤ 2 ^ 52) (hf : flags.Built) (hroom : next + 1 ≤ LOW_PAGES)
    (hmod : p % 4096 = 0) (hlt : p < 2 ^ 52) :
    Yields (Exhausted m) (fun x => x.1 = .ok (next * BASIC_PAGE_SIZE) ∧
      x.2.vaa = .startingFrom (next + 1) ∧
      KernelStep m c {next} ⟨x.2, c.owned, insert (next, p) c.devices⟩ ∧
      ∃ pm', KernelInv T A boot ⟨x.2, c.owned, insert (next, p) c.devices⟩ pm' (next + 1))
      (c.manager.mapPages m p 1 flags .size4kb) := by
  refine (hinv.mapPages hT hf hroom hmod hlt).returned.imp ?_
  rintro ⟨res, s'⟩ ⟨hrun, rfl, hvaa, ⟨pm', next', hinv'⟩, -, -⟩
  obtain rfl : next' = next + 1 :=
    congrArg (fun v : VirtualAddressAllocator => v.hander.next) (hinv'.vaa.symm.trans hvaa)
  have hnext : c.manager.vaa.hander.next = next := by
    rw [hinv.vaa]
    rfl
  have hpage : next * BASIC_PAGE_SIZE / BASIC_PAGE_SIZE = next :=
    Nat.mul_div_cancel _ basicPageSize_pos
  have hstep := KernelStep.map (c := c) hf (hnext.symm ▸ hroom) hmod hlt hrun
  rw [hpage] at hstep
  exact ⟨rfl, hvaa, hstep, pm', hinv'⟩

/-- **One function.** -/
theorem Found.checkDevice (hT : o.bound * BASIC_PAGE_SIZE ≤ 2 ^ 52)
    (h : Found m o found next (devices, s)) (hroom : next + 1 ≤ LOW_PAGES) (hg : g.Proper)
    (hd : device.toNat < 32) (hf : function.toNat < 8)
    (hp : functionAddr g bus device function = p) :
    Yields (Exhausted m) (fun y =>
      Answers regs p ∧ y.1 = some (next * BASIC_PAGE_SIZE) ∧ Shows y.2 (next * BASIC_PAGE_SIZE) p ∧
        Found m o (found ++ [p]) (next + 1) (devices ++ [next * BASIC_PAGE_SIZE], y.2) ∨
      ¬ Answers regs p ∧ y.1 = none ∧ Found m o found (next + 1) (devices, y.2))
      (PcieManager.checkDevice m regs s bus device function g.baseAddress) := by
  obtain ⟨S, c, pages, hs⟩ := h
  obtain ⟨pm, hinv⟩ := hs.inv
  obtain rfl : c.manager = s := hs.manager
  have hmod : p % 4096 = 0 := hp ▸ functionAddr_mod hg
  have hlt : p < 2 ^ 52 := hp ▸ functionAddr_lt hg hd hf
  rw [PcieManager.checkDevice, getBaseAddress_eq hg hd hf, ok_bind, hp]
  refine (hinv.mapStep hT pcieFlags_built hroom hmod hlt).bind ?_
  rintro ⟨res, s'⟩ ⟨rfl, hvaa, hstep, pm', hinv'⟩
  have hshows : Shows s' (next * BASIC_PAGE_SIZE) p := fun off hoff =>
    hinv'.walk (hinv'.devices _ (Set.mem_insert _ _)).2 hoff
  dsimp only
  have hreg : p + StandardHeader.DEVICE_VENDOR_ID = p := Nat.add_zero p
  rw [hshows.read (by decide), ok_bind, hreg]
  by_cases hanswers : Answers regs p
  · rw [if_neg (fun hbad => vendorId_invalid_iff.mp hbad hanswers)]
    exact Or.inl ⟨hanswers, rfl, hshows, hs.keep hstep ⟨pm', hinv'⟩⟩
  · rw [if_pos (vendorId_invalid_iff.mpr hanswers)]
    obtain ⟨s'', hrun', hvaa', ⟨pm'', next'', hinv''⟩, -, -⟩ :=
      hinv'.unmapPages (m := m) (Set.mem_insert _ _)
    obtain rfl : next'' = next + 1 :=
      congrArg (fun v : VirtualAddressAllocator => v.hander.next)
        (hinv''.vaa.symm.trans (hvaa'.trans hvaa))
    rw [hrun', ok_bind]
    have hrun'' := (hs.run.step hstep).step (.unmap (Set.mem_insert _ _) hrun')
    refine Or.inr ⟨hanswers, rfl, hs.drop hrun'' ⟨pm'', hinv''⟩ rfl ?_⟩
    -- The page is new, so nothing else is unmapped with it.
    ext y
    refine ⟨fun hy => hy.1.resolve_left fun heq => hy.2 (heq ▸ rfl), fun hy => ⟨Or.inr hy, ?_⟩⟩
    exact (hinv.new (Nat.le_refl next)).2 y hy

theorem finds_discoverFunction (hT : o.bound * BASIC_PAGE_SIZE ≤ 2 ^ 52) (hg : g.Proper)
    (hd : device.toNat < 32) (hf : function.toNat < 8) :
    Finds m o 1 (if Answers regs (functionAddr g bus device function) then
        [functionAddr g bus device function] else [])
      (PcieManager.discoverFunction m regs bus device g · function) := by
  rintro found next ⟨devices, s⟩ hx hroom
  dsimp only
  rw [PcieManager.discoverFunction]
  refine (hx.checkDevice hT hroom hg hd hf rfl).bind ?_
  rintro ⟨res, s'⟩ (⟨hanswers, rfl, -, hfound⟩ | ⟨hanswers, rfl, hfound⟩)
  · rw [if_pos hanswers]
    exact ⟨next + 1, Nat.le_refl _, hfound⟩
  · rw [if_neg hanswers, List.append_nil]
    exact ⟨next + 1, Nat.le_refl _, hfound⟩

theorem flatMap_ite_singleton {α : Type} (P : α → Prop) [DecidablePred P] (l : List α) :
    l.flatMap (fun a => if P a then [a] else []) = l.filter P := by
  induction l with
  | nil => rfl
  | cons a l ih =>
      rw [List.flatMap_cons, ih]
      by_cases h : P a <;> simp [h]

/-- **One device.** -/
theorem finds_discoverDeviceFunctions (hT : o.bound * BASIC_PAGE_SIZE ≤ 2 ^ 52) (hg : g.Proper)
    (hd : device.toNat < 32) :
    Finds m o 8 (functionsOf regs g bus device)
      (PcieManager.discoverDeviceFunctions m regs bus g · device) := by
  rintro found next ⟨devices, s⟩ hx hroom
  dsimp only
  rw [PcieManager.discoverDeviceFunctions, functionsOf]
  refine (hx.checkDevice hT (by omega) hg hd (by decide) rfl).bind ?_
  rintro ⟨res, s'⟩ (⟨hanswers, rfl, hshows, hfound⟩ | ⟨hanswers, rfl, hfound⟩)
  · rw [if_pos hanswers]
    dsimp only
    rw [List.getLast?_concat, ofOption_some, ok_bind, hshows.read (by decide), ok_bind]
    by_cases hmulti : MultiFunction regs (functionAddr g bus device 0)
    · rw [if_pos (headerType_iff.mpr hmulti), if_pos hmulti, List.append_cons,
        ← flatMap_ite_singleton, List.flatMap_map]
      have hfinds := Finds.foldlM (m := m) (o := o) (l := [1, 2, 3, 4, 5, 6, 7])
        (f := PcieManager.discoverFunction m regs bus device g) fun function hfunction =>
          finds_discoverFunction hT hg hd (by revert hfunction; revert function; decide)
      refine (hfinds _ _ _ hfound (by simp; omega)).imp ?_
      rintro x' ⟨next', hle, hx'⟩
      exact ⟨next', by simp at hle; omega, hx'⟩
    · rw [if_neg (fun hbad => hmulti (headerType_iff.mp hbad)), if_neg hmulti]
      exact ⟨next + 1, by omega, hfound⟩
  · rw [if_neg hanswers, List.append_nil]
    exact ⟨next + 1, by omega, hfound⟩

theorem mem_deviceNumbers {device : BitVec 8} (h : device ∈ PcieManager.deviceNumbers) :
    device.toNat < 32 := by
  obtain ⟨i, hi, rfl⟩ := List.mem_map.mp h
  rw [List.mem_range] at hi
  rw [BitVec.toNat_ofNat]
  omega

theorem length_buses_le (g : ConfigSpace) : (PcieManager.buses g).length ≤ 256 := by
  have := g.endBusNumber.isLt
  rw [PcieManager.buses, List.length_map, List.length_range']
  omega

/-- **The whole search.** -/
theorem finds_bruteForceDiscover {groups : List ConfigSpace}
    (hT : o.bound * BASIC_PAGE_SIZE ≤ 2 ^ 52) (hg : ∀ g ∈ groups, g.Proper) :
    Finds m o (groups.length * 65536) (functionsOfAll regs groups)
      (PcieManager.bruteForceDiscover m regs · groups) := by
  refine Finds.foldlM fun g hmem => ?_
  refine Finds.mono (n := (PcieManager.buses g).length * 256) (Finds.foldlM fun bus _ => ?_) ?_
  · exact Finds.foldlM (n := 8) fun device hdevice =>
      finds_discoverDeviceFunctions hT (hg g hmem) (mem_deviceNumbers hdevice)
  · have := length_buses_le g
    omega

/-- What was found is shown. -/
theorem Search.shows {x : List VirtAddr × PagingManager BuddyAllocator} {S : Set ℕ}
    {c : KernelState} {pages : List ℕ} (h : Search m o found next x S c pages) :
    List.Forall₂ (Shows x.2) (pages.map (· * BASIC_PAGE_SIZE)) found := by
  obtain ⟨pm, hinv⟩ := h.inv
  rw [List.forall₂_map_left_iff, List.forall₂_iff_zip, ← h.manager]
  refine ⟨h.length, fun {k p} hmem off hoff => hinv.walk (hinv.devices (k, p) ?_).2 hoff⟩
  exact (h.devices (k, p)).mpr (Or.inr hmem)

theorem Search.nodup {x : List VirtAddr × PagingManager BuddyAllocator} {S : Set ℕ}
    {c : KernelState} {pages : List ℕ} (h : Search m o found next x S c pages) :
    (pages.map (· * BASIC_PAGE_SIZE)).Nodup := by
  rw [List.nodup_map_iff_inj_on (h.sorted.imp Nat.ne_of_lt)]
  exact fun k _ j _ heq => Nat.eq_of_mul_eq_mul_right basicPageSize_pos heq

end

/-! ## Drivers -/

section

variable {regs : ConfigRegs} {s : PagingManager BuddyAllocator} {p : PhysAddr} {v : VirtAddr}

theorem classRevision_iff {x : BitVec 32} :
    x >>> 24 = 0x1 ∧ (x >>> 16) &&& 0xff = 0x8 ∧ (x >>> 8) &&& 0xff = 0x2 ↔
      x.toNat / 2 ^ 8 = 0x010802 := by
  have hx := x.isLt
  have hand : ∀ y : BitVec 32, (y &&& 0xff).toNat = y.toNat % 2 ^ 8 := fun y => by
    rw [BitVec.toNat_and]
    exact Nat.and_two_pow_sub_one_eq_mod _ 8
  simp only [← BitVec.toNat_inj, hand, BitVec.toNat_ushiftRight, Nat.shiftRight_eq_div_pow]
  change x.toNat / 2 ^ 24 = 1 ∧ x.toNat / 2 ^ 16 % 2 ^ 8 = 8 ∧ x.toNat / 2 ^ 8 % 2 ^ 8 = 2 ↔ _
  omega

theorem loadDeviceDriver_eq {log : List String} (h : Shows s v p) :
    PcieManager.loadDeviceDriver regs s log v =
      .ok (log ++ if IsNvme regs p then ["Found NVMe"] else []) := by
  rw [PcieManager.loadDeviceDriver, h.read (by decide), ok_bind, ok_bind, ok_bind]
  by_cases hnvme : IsNvme regs p
  · rw [if_pos (classRevision_iff.mpr hnvme), if_pos hnvme]
  · rw [if_neg (fun hbad => hnvme (classRevision_iff.mp hbad)), if_neg hnvme, List.append_nil]

theorem loadDeviceDrivers_eq {x : List VirtAddr × PagingManager BuddyAllocator}
    {found : List PhysAddr} (h : List.Forall₂ (Shows x.2) x.1 found) :
    PcieManager.loadDeviceDrivers regs x =
      .ok (List.replicate (found.countP (IsNvme regs)) "Found NVMe") := by
  suffices ∀ vs log, List.Forall₂ (Shows x.2) vs found →
      vs.foldlM (PcieManager.loadDeviceDriver regs x.2) log =
        .ok (log ++ List.replicate (found.countP (IsNvme regs)) "Found NVMe") from this x.1 [] h
  intro vs log hvs
  clear h
  induction hvs generalizing log with
  | nil => exact congrArg Except.ok (List.append_nil log).symm
  | @cons v p vs found hshows _ ih =>
      rw [List.foldlM_cons, loadDeviceDriver_eq hshows, ok_bind, ih, List.append_assoc]
      by_cases hnvme : IsNvme regs p <;> simp [hnvme, List.replicate_succ]

end

/-! ## Finding all -/

/-- What is known when all drivers have been looked for: the kernel was called about new pages only,
and kept those that show what answers, one page each. -/
structure Discovered (m : Overflow) (regs : ConfigRegs) (groups : List ConfigSpace)
    (c c' : KernelState) (log : List String) (devices : List VirtAddr) : Prop where
  run : ∃ S, KernelRun m c S c' ∧ ∀ k ∈ S, k ∉ c.owned ∧ ∀ x ∈ c.devices, x.1 ≠ k
  owned : c'.owned = c.owned
  kept : ∀ y, y ∈ c'.devices ↔
    y ∈ c.devices ∨ y ∈ (devices.map (· / BASIC_PAGE_SIZE)).zip (functionsOfAll regs groups)
  shown : List.Forall₂ (Shows c'.manager) devices (functionsOfAll regs groups)
  nodup : devices.Nodup
  logged : log = List.replicate ((functionsOfAll regs groups).countP (IsNvme regs)) "Found NVMe"

section

variable {m : Overflow} {framebuffer : Bool} {hhdm : ℕ} {kernelVirt : VirtAddr}
  {kernelPhys : PhysAddr} {memMap : List Entry} {entry : Entry} {nodes : VirtAddr → PhysAddr}
  {words : PhysAddr → ℕ → Word} {groups : List ConfigSpace}

/-- The virtual addresses are those of the start. -/
theorem initMemory_vaa {s₀ : PagingManager BuddyAllocator} (h : initMemory m framebuffer hhdm
    kernelVirt kernelPhys nodes words memMap = .ok s₀) :
    initVaaFromLimine m hhdm memMap = .ok s₀.vaa := by
  obtain ⟨vaa, hvaa, h⟩ := bind_eq_ok.mp h
  obtain ⟨⟨pmm, usedByPmm⟩, -, h⟩ := bind_eq_ok.mp h
  obtain ⟨⟨pml, world⟩, -, h⟩ := bind_eq_ok.mp h
  cases h
  exact hvaa

end

end Funderberker

import Funderberker.Paging.Table

/-!
# The first page tables

`init_from_limine` (`kernel/src/arch/x86_64/paging/mod.rs`) fills a fresh top-level table with
`map_in_entry`, once for each region that stays mapped.  A region is cut into pages from its
start on: each page is the largest for which both addresses are aligned and the rest is long
enough.

What the tables mean is what the processor makes of them, so the walk of the processor is
defined here too, from the bits of the words and not from the functions of the kernel.

## Main definitions

* `mapInEntry` — mapping one region.
* `mapRegions` — mapping regions one after another.
* `pageWalk` — the four-level page walk of the architecture.
-/

namespace Funderberker

open Panicking

/-! ## Mapping a region -/

section

variable {σ : Type} [PmmAllocator σ] (m : Overflow)

/-- The test for a page of the given size. -/
def pageFits (totalSize physAddr virtAddr : ℕ) (pageSize : PageSize) : Prop :=
  totalSize ≥ pageSize.size ∧ physAddr % pageSize.size = 0 ∧ virtAddr % pageSize.size = 0

instance (totalSize physAddr virtAddr : ℕ) (pageSize : PageSize) :
    Decidable (pageFits totalSize physAddr virtAddr pageSize) :=
  inferInstanceAs (Decidable (_ ∧ _ ∧ _))

/-- The size of the next page, if there is one. -/
def nextPageSize (totalSize physAddr virtAddr : ℕ) : Option PageSize :=
  if pageFits totalSize physAddr virtAddr .size1gb then some .size1gb
  else if pageFits totalSize physAddr virtAddr .size2mb then some .size2mb
  else if pageFits totalSize physAddr virtAddr .size4kb then some .size4kb
  else none

/-- The loop of `map_in_entry`, for fewer than `fuel` pages. -/
def mapInEntryGo (newPml : PhysAddr) (pat : Option PatType) :
    ℕ → VirtAddr → PhysAddr → ℕ → Flags → World σ → Except Panic (World σ)
  | 0, _, _, _, _, _ => .error .unreachable
  | fuel + 1, baseVirtAddr, basePhysAddr, totalSize, flags, w =>
      if totalSize = 0 then .ok w
      else
        match nextPageSize totalSize basePhysAddr baseVirtAddr with
        | none => .error .unreachable
        | some pageSize => do
            let flags := pat.elim flags fun patType => flags.setPat patType pageSize
            let (res, w) ← PageTable.mapPages m newPml w baseVirtAddr basePhysAddr 1 pageSize flags
            match res with
            | .error _ => .error .unwrapErr
            | .ok () => do
                let totalSize ← Usize.sub m totalSize pageSize.size
                let basePhysAddr ← Usize.add m basePhysAddr pageSize.size
                let baseVirtAddr ← Usize.add m baseVirtAddr pageSize.size
                mapInEntryGo newPml pat fuel baseVirtAddr basePhysAddr totalSize flags w

/-- Map a region.  A page is at least one byte long, so there are never more pages than
bytes. -/
def mapInEntry (baseVirtAddr : VirtAddr) (basePhysAddr : PhysAddr) (totalSize : ℕ)
    (newPml : PhysAddr) (flags : Flags) (pat : Option PatType) (w : World σ) :
    Except Panic (World σ) :=
  mapInEntryGo m newPml pat (totalSize + 1) baseVirtAddr basePhysAddr totalSize flags w

end

/-- A region of memory that is mapped at boot. -/
structure BootRegion where
  virtAddr : VirtAddr
  physAddr : PhysAddr
  size : ℕ
  deriving DecidableEq, Repr

/-- The flags of the regions. -/
def bootFlags : Flags := Flags.new.setReadWrite true

/-- Map regions one after another. -/
def mapRegions {σ : Type} [PmmAllocator σ] (m : Overflow) (newPml : PhysAddr) :
    List BootRegion → World σ → Except Panic (World σ)
  | [], w => .ok w
  | k :: ks, w => do
      let w ← mapInEntry m k.virtAddr k.physAddr k.size newPml bootFlags none w
      mapRegions m newPml ks w

/-! ## The walk of the processor -/

/-- The address in a word: its bits from `shift` up to bit 51. -/
def addressField (e : Word) (shift : ℕ) : PhysAddr := e.toNat % 2 ^ 52 / 2 ^ shift * 2 ^ shift

/-- The bits of an address that are translated at a level or below it. -/
def levelShift (level : ℕ) : ℕ := 12 + 9 * level

/-- The walk from a table of the given level on: level 3 is the top-level table, level 0 holds
the entries of basic pages.  Bit 0 of a word is set when it is present.  At levels 1 and 2, bit
7 is set when the word maps a page of 2MB or of 1GB. -/
def pageWalkGo (mem : PhysAddr → ℕ → Word) (v : VirtAddr) : ℕ → PhysAddr → Option PhysAddr
  | 0, table =>
      let e := mem table (v / 2 ^ levelShift 0 % 512)
      if e.getLsbD 0 then some (addressField e (levelShift 0) + v % 2 ^ levelShift 0) else none
  | level + 1, table =>
      let e := mem table (v / 2 ^ levelShift (level + 1) % 512)
      if e.getLsbD 0 then
        if level + 1 ≤ 2 ∧ e.getLsbD 7 then
          some (addressField e (levelShift (level + 1)) + v % 2 ^ levelShift (level + 1))
        else pageWalkGo mem v level (addressField e (levelShift 0))
      else none

/-- The physical address that a virtual address is translated to.  An address that is not
canonical is never walked. -/
def pageWalk (mem : PhysAddr → ℕ → Word) (pml : PhysAddr) (v : VirtAddr) : Option PhysAddr :=
  if Canonical v then pageWalkGo mem v 3 pml else none

/-! ## The words of tables -/

variable {a i k : ℕ}

theorem PageSize.size_eq (s : PageSize) : s.size = 2 ^ levelShift s.bottomPagingLevel := by
  cases s <;> rfl

/-- An aligned address and bits below it add up. -/
theorem toNat_ofNat_or (ha : a % 4096 = 0) (ha64 : a < 2 ^ 64) (hk : k < 2 ^ 12) :
    (BitVec.ofNat 64 a ||| BitVec.ofNat 64 k).toNat = a + k := by
  obtain ⟨c, rfl⟩ := Nat.dvd_of_mod_eq_zero ha
  rw [BitVec.toNat_or, BitVec.toNat_ofNat, BitVec.toNat_ofNat, Nat.mod_eq_of_lt ha64,
    Nat.mod_eq_of_lt (by omega), show (4096 : ℕ) = 2 ^ 12 from rfl,
    Nat.two_pow_add_eq_or_of_lt hk]

theorem getLsbD_ofNat_or (ha : a % 4096 = 0) (hi : i < 12) :
    (BitVec.ofNat 64 a ||| BitVec.ofNat 64 k).getLsbD i = k.testBit i := by
  rw [BitVec.getLsbD_or, Entry.getLsbD_ofNat_aligned ha hi, Bool.false_or, BitVec.getLsbD_ofNat,
    decide_eq_true (by omega), Bool.true_and]

theorem tableEntry_eq (a : PhysAddr) :
    Entry.tableEntry a = BitVec.ofNat 64 a ||| BitVec.ofNat 64 3 := rfl

theorem large_tableEntry (ha : a % 4096 = 0) : (Entry.tableEntry a).getLsbD 7 = false := by
  rw [tableEntry_eq, getLsbD_ofNat_or ha (by omega)]
  rfl

theorem addressField_tableEntry (ha : a % 4096 = 0) (hlt : a < 2 ^ 52) :
    addressField (Entry.tableEntry a) (levelShift 0) = a := by
  rw [addressField, tableEntry_eq, toNat_ofNat_or ha (by omega) (by omega), levelShift]
  change (_ : ℕ) = a
  omega

end Funderberker

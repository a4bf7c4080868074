import Funderberker.Paging.Entry

/-!
# Page tables

Page tables as `kernel/src/arch/x86_64/paging/mod.rs` walks and changes them.  A
table is the address of its frame; a `&mut PageTable` is that address together with
the memory it lies in.  Tables are reached through the direct map, which the model
identifies with physical memory, so the memory is a function from frames and indices
to words, of which the code uses the first `ENTRIES_PER_TABLE` of a frame.

A loop over levels is a recursion on the number of levels left, and a loop over the
entries of a table on the number of entries left.

## Main definitions

* `World` — memory and the PMM.
* `PageTable.getEntry`, `getCreateTableRange`, `getTableRange` — walks.
* `PageTable.mapPages`, `unmapPages`, `translate` — the operations.
-/

namespace Funderberker

open Panicking

/-- The number of entries per page table. -/
def ENTRIES_PER_TABLE : ℕ := 512

def MAX_BOTTOM_PAGING_LEVEL : ℕ := 3

/-- The index into the table of a level. -/
def nextLevelIndex (addr : VirtAddr) (level : ℕ) : ℕ :=
  (addr >>> (PageSize.size4kb.offsetBitCount + level * 9)) &&& 0b111111111

/-- Memory as seen by the page tables, and the PMM. -/
structure World (σ : Type) where
  mem : PhysAddr → ℕ → Word
  pmm : σ

namespace World

variable {σ : Type}

/-- Write entry `i` of the table at `t`. -/
def write (w : World σ) (t : PhysAddr) (i : ℕ) (e : Word) : World σ :=
  { w with mem := fun u j => if u = t ∧ j = i then e else w.mem u j }

/-- Clear a frame. -/
def memset (w : World σ) (a : PhysAddr) : World σ :=
  { w with mem := fun u j => if u = a then 0 else w.mem u j }

end World

namespace PageTable

variable {σ : Type} [PmmAllocator σ] (m : Overflow)

/-- Allocate a new page table. -/
def new (w : World σ) : Except Panic (PhysAddr × World σ) := do
  match ← PmmAllocator.allocate m w.pmm PageSize.size4kb.pageAlignment 1 with
  | (.error _, _) => .error (.expect "Failed to allocate page table")
  | (.ok physAddr, pmm) => .ok (physAddr, { w with pmm := pmm }.memset physAddr)

/-! ## Walks -/

/-- The loop of `get_entry` with `k` levels left: the entry's table and index, and
the page size of its level. -/
def getEntryGo (mem : PhysAddr → ℕ → Word) (virtAddr : VirtAddr) :
    ℕ → PhysAddr → Except Panic (Option (PhysAddr × ℕ × PageSize))
  | 0, _ => .error .unreachable
  | level + 1, table =>
      let i := nextLevelIndex virtAddr level
      let flags := Entry.getFlags (mem table i)
      if flags.getLastEntry then
        .ok ((PageSize.fromBottomPagingLevel level).map fun pageSize => (table, i, pageSize))
      else if flags.getPresent then do
        let table ← Entry.nextLevelTable (mem table i)
        getEntryGo mem virtAddr level table
      else .ok none

def getEntry (mem : PhysAddr → ℕ → Word) (table : PhysAddr) (virtAddr : VirtAddr) :
    Except Panic (Option (PhysAddr × ℕ × PageSize)) :=
  getEntryGo mem virtAddr (MAX_BOTTOM_PAGING_LEVEL + 1) table

/-- A new table for an entry that is not present.  The entry is marked present before
it has an address. -/
def createNextLevel (table : PhysAddr) (i : ℕ) (w : World σ) : Except Panic (World σ) := do
  let flags := Entry.getFlags (w.mem table i)
  let w := w.write table i
    (Entry.setFlags (w.mem table i) ((flags.setPresent true).setReadWrite true))
  let (physAddr, w) ← new m w
  let e ← Entry.setAddr (w.mem table i) physAddr .size4kb
  .ok (w.write table i e)

/-- The loop of `get_create_table_range` with `k` levels left. -/
def getCreateTableRangeGo (baseAddr : VirtAddr) (bottom : ℕ) :
    ℕ → PhysAddr → World σ → Except Panic (PhysAddr × World σ)
  | 0, table, w => .ok (table, w)
  | k + 1, table, w => do
      let i := nextLevelIndex baseAddr (bottom + (k + 1))
      let flags := Entry.getFlags (w.mem table i)
      let w ← (if ¬ flags.getPresent then createNextLevel m table i w else .ok w)
      let table ← Entry.nextLevelTable (w.mem table i)
      getCreateTableRangeGo baseAddr bottom k table w

/-- A check that only debug builds make. -/
def sanityAssert (cond : Prop) [Decidable cond] : Except Panic Unit :=
  if m = .checked ∧ ¬ cond then .error .sanity else .ok ()

/-- The parent table of a page; missing tables are created. -/
def getCreateTableRange (table : PhysAddr) (w : World σ) (baseAddr : VirtAddr)
    (pageSize : PageSize) : Except Panic (PhysAddr × World σ) := do
  sanityAssert m (baseAddr % pageSize.size = 0)
  let bottom := pageSize.bottomPagingLevel
  getCreateTableRangeGo m baseAddr bottom (MAX_BOTTOM_PAGING_LEVEL - bottom) table w

/-- The loop of `get_table_range` with `k` levels left. -/
def getTableRangeGo (mem : PhysAddr → ℕ → Word) (baseAddr : VirtAddr) (bottom : ℕ) :
    ℕ → PhysAddr → Except Panic (Option PhysAddr)
  | 0, table => .ok (some table)
  | k + 1, table =>
      let i := nextLevelIndex baseAddr (bottom + (k + 1))
      if ¬ (Entry.getFlags (mem table i)).getPresent then .ok none
      else do
        let table ← Entry.nextLevelTable (mem table i)
        getTableRangeGo mem baseAddr bottom k table

/-- The parent table of a page, if every table on the way is there. -/
def getTableRange (mem : PhysAddr → ℕ → Word) (table : PhysAddr) (baseAddr : VirtAddr)
    (pageSize : PageSize) : Except Panic (Option PhysAddr) := do
  sanityAssert m (baseAddr % pageSize.size = 0)
  let bottom := pageSize.bottomPagingLevel
  getTableRangeGo mem baseAddr bottom (MAX_BOTTOM_PAGING_LEVEL - bottom) table

/-! ## Operations -/

/-- The loop of `map_pages` from page `i` on, with `k` pages left. -/
def mapPagesGo (table : PhysAddr) (toSkip : ℕ) (physAddr : PhysAddr) (pageSize : PageSize)
    (flags : Flags) : ℕ → ℕ → World σ → Except Panic (Except PagingError Unit × World σ)
  | 0, _, w => .ok (.ok (), w)
  | k + 1, i, w => do
      let offset ← Usize.mul m i pageSize.size
      let addr ← Usize.add m physAddr offset
      let (r, e) ← Entry.map (w.mem table (toSkip + i)) addr flags pageSize
      let w := w.write table (toSkip + i) e
      match r with
      | .error err => .ok (.error err, w)
      | .ok () => mapPagesGo table toSkip physAddr pageSize flags k (i + 1) w

/-- Map pages at the given virtual address. -/
def mapPages (table : PhysAddr) (w : World σ) (baseAddr : VirtAddr) (physAddr : PhysAddr)
    (pageCount : ℕ) (pageSize : PageSize) (flags : Flags) :
    Except Panic (Except PagingError Unit × World σ) :=
  if baseAddr % pageSize.size ≠ 0 then .ok (.error .invalidVirtualAddress, w)
  else if physAddr % pageSize.size ≠ 0 then .ok (.error .invalidPhysicalAddress, w)
  else do
    let (table, w) ← getCreateTableRange m table w baseAddr pageSize
    let toSkip := nextLevelIndex baseAddr pageSize.bottomPagingLevel
    let sum ← Usize.add m toSkip pageCount
    if sum > ENTRIES_PER_TABLE then .ok (.error .badPageCountAndAddressCombination, w)
    else
      mapPagesGo m table toSkip physAddr pageSize flags
        (min pageCount (ENTRIES_PER_TABLE - toSkip)) 0 w

/-- The loop of `unmap_pages` from entry `j` on, with `k` entries left. -/
def unmapPagesGo (table : PhysAddr) (pageSize : PageSize) :
    ℕ → ℕ → World σ → Except Panic (Except PagingError Unit × World σ)
  | 0, _, w => .ok (.ok (), w)
  | k + 1, j, w => do
      let (r, e, pmm) ← Entry.release m w.pmm (w.mem table j) pageSize
      let w := { w with pmm := pmm }.write table j e
      match r with
      | .error err => .ok (.error err, w)
      | .ok () => unmapPagesGo table pageSize k (j + 1) w

/-- Unmap pages at the given virtual address. -/
def unmapPages (table : PhysAddr) (w : World σ) (baseAddr : VirtAddr) (pageCount : ℕ)
    (pageSize : PageSize) : Except Panic (Except PagingError Unit × World σ) :=
  if baseAddr % pageSize.size ≠ 0 then .ok (.error .invalidVirtualAddress, w)
  else do
    match ← getTableRange m w.mem table baseAddr pageSize with
    | none => .ok (.error .pageNotPresent, w)
    | some table => do
        let toSkip := nextLevelIndex baseAddr pageSize.bottomPagingLevel
        let sum ← Usize.add m toSkip pageCount
        if sum > ENTRIES_PER_TABLE then .ok (.error .badPageCountAndAddressCombination, w)
        else
          unmapPagesGo m table pageSize (min pageCount (ENTRIES_PER_TABLE - toSkip)) toSkip w

/-- The physical address that a virtual address is mapped to. -/
def translate (mem : PhysAddr → ℕ → Word) (table : PhysAddr) (baseAddr : VirtAddr) :
    Except Panic (Option PhysAddr) := do
  match ← getEntry mem table baseAddr with
  | none => .ok none
  | some (table, i, pageSize) =>
      if ¬ (Entry.getFlags (mem table i)).getPresent then .ok none
      else do
        let physAddr ← Entry.getAddr (mem table i) pageSize
        .ok (some physAddr)

end PageTable

end Funderberker

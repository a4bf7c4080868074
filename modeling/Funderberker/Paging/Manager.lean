import Funderberker.Paging.Table

/-!
# The paging manager

Virtual pages are reserved by a bump allocator (`kernel/src/mem/vaa.rs` over
`utils/src/collections/id/hander.rs`) and mapped by the default methods of
`PagingManager` (`kernel/src/mem/paging.rs`).  The manager is the top-level table, the
memory with the PMM, and the bump allocator; the top-level table is the one that `CR3`
holds and never changes.

Locks are not modelled: each call holds the lock it takes for as long as it needs it.

## Main definitions

* `IdHander`, `VirtualAddressAllocator.handout` — reserving page numbers.
* `PagingManager.allocatePages`, `freePages`, `mapPages`.
-/

namespace Funderberker

open Panicking

/-! ## Reserving virtual pages -/

/-- A bump allocator of numbers. -/
structure IdHander where
  /-- The next number to be handed out. -/
  next : ℕ
  /-- The largest number that can be handed out. -/
  max : ℕ
  deriving DecidableEq, Repr

/-- Hand out the next number and skip `count` numbers. -/
def IdHander.handoutAndSkip (m : Overflow) (h : IdHander) (count : ℕ) :
    Except Panic (Option ℕ × IdHander) :=
  if h.next > h.max then .ok (none, h)
  else do
    let next ← Usize.add m h.next count
    .ok (some h.next, { h with next := next })

structure VirtualAddressAllocator where
  hander : IdHander
  deriving DecidableEq, Repr

namespace VirtualAddressAllocator

/-- The offset that aligns a pointer to a type of size zero.  No offset moves such a
pointer, so the answer is zero or, for a pointer that is not aligned, the largest
number. -/
def alignOffset (ptr align : ℕ) : Except Panic ℕ :=
  if ¬ isPowerOfTwo align then .error (.explicit "align_offset: align is not a power-of-two")
  else .ok (if ptr % align = 0 then 0 else 2 ^ 64 - 1)

/-- Reserve `count` basic pages. -/
def handout (m : Overflow) (vaa : VirtualAddressAllocator)
    (count pageAlignment : ℕ) : Except Panic (VirtAddr × VirtualAddressAllocator) := do
  let skip ← alignOffset vaa.hander.next pageAlignment
  let total ← Usize.add m skip count
  match ← vaa.hander.handoutAndSkip m total with
  | (none, _) => .error (.expect "Virtual address allocator ran out of IDs")
  | (some pageId, hander) => do
      let addr ← Usize.mul m pageId BASIC_PAGE_SIZE
      .ok (addr, ⟨hander⟩)

end VirtualAddressAllocator

/-! ## The manager -/

/-- What the manager works on. -/
structure PagingManager (σ : Type) where
  /-- The top-level table. -/
  pml : PhysAddr
  world : World σ
  vaa : VirtualAddressAllocator

namespace PagingManager

variable {σ : Type} [PmmAllocator σ] (m : Overflow)

/-- The loop of `allocate_pages` from page `i` on, with `k` pages left. -/
def allocatePagesGo (pml : PhysAddr) (baseVirtAddr : VirtAddr) (flags : Flags)
    (pageSize : PageSize) : ℕ → ℕ → World σ → Except Panic (Except PagingError Unit × World σ)
  | 0, _, w => .ok (.ok (), w)
  | k + 1, i, w => do
      let offset ← Usize.mul m i pageSize.size
      let virtAddr ← Usize.add m baseVirtAddr offset
      match ← PmmAllocator.allocate m w.pmm 1 pageSize.toDefaultPageCount with
      | (.error _, _) => .error .unwrapErr
      | (.ok physAddr, pmm) => do
          let (res, w) ←
            PageTable.mapPages m pml { w with pmm := pmm } virtAddr physAddr 1 pageSize flags
          match res with
          | .error err => .ok (.error err, w)
          | .ok () => allocatePagesGo pml baseVirtAddr flags pageSize k (i + 1) w

/-- Reserve virtual pages and map each to a page of the PMM. -/
def allocatePages (s : PagingManager σ) (pageCount : ℕ) (flags : Flags) (pageSize : PageSize) :
    Except Panic (Except PagingError VirtAddr × PagingManager σ) := do
  let (baseVirtAddr, vaa) ← s.vaa.handout m pageCount pageSize.pageAlignment
  let (res, w) ← allocatePagesGo m s.pml baseVirtAddr flags pageSize pageCount 0 s.world
  let s := { s with world := w, vaa := vaa }
  match res with
  | .error err => .ok (.error err, s)
  | .ok () => if baseVirtAddr = 0 then .error .unwrapNone else .ok (.ok baseVirtAddr, s)

/-- The loop of `free_pages` from page `i` on, with `k` pages left.  Each turn
translates the first address and unmaps `count` pages from the address of page `i`. -/
def freePagesGo (pml : PhysAddr) (virtAddr : VirtAddr) (count : ℕ) (pageSize : PageSize) :
    ℕ → ℕ → World σ → Except Panic (Except PagingError Unit × World σ)
  | 0, _, w => .ok (.ok (), w)
  | k + 1, i, w => do
      let offset ← Usize.mul m i pageSize.size
      let addr ← Usize.add m virtAddr offset
      match ← PageTable.translate w.mem pml virtAddr with
      | none => .ok (.error .pageNotPresent, w)
      | some physAddr => do
          let (res, w) ← PageTable.unmapPages m pml w addr count pageSize
          match res with
          | .error err => .ok (.error err, w)
          | .ok () => do
              let (res, pmm) ← PmmAllocator.free m w.pmm physAddr pageSize.toDefaultPageCount
              let w := { w with pmm := pmm }
              match res with
              | .error _ => .ok (.error .pageNotPresent, w)
              | .ok () => freePagesGo pml virtAddr count pageSize k (i + 1) w

/-- Unmap pages and give them back to the PMM. -/
def freePages (s : PagingManager σ) (ptr : VirtAddr) (count : ℕ) (pageSize : PageSize) :
    Except Panic (Except PagingError Unit × PagingManager σ) := do
  let (res, w) ← freePagesGo m s.pml ptr count pageSize count 0 s.world
  .ok (res, { s with world := w })

/-- Reserve virtual pages for given physical ones and map them. -/
def mapPages (s : PagingManager σ) (physAddr pageCount : ℕ) (flags : Flags)
    (pageSize : PageSize) : Except Panic (Except PagingError VirtAddr × PagingManager σ) := do
  let (virtAddr, vaa) ← s.vaa.handout m 1 pageSize.pageAlignment
  let (res, w) ← PageTable.mapPages m s.pml s.world virtAddr physAddr pageCount pageSize flags
  let s := { s with world := w, vaa := vaa }
  match res with
  | .error err => .ok (.error err, s)
  | .ok () => .ok (.ok virtAddr, s)

end PagingManager

end Funderberker

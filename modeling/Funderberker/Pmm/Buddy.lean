import Funderberker.Base

/-!
# The buddy allocator

The physical memory manager as `pmm/src/buddy.rs` computes it.  A zone is the
sequence of nodes of one linked list, front to back; a node keeps its own address
and the physical address it stands for, so moving a node between a zone and the
pool is visible in the model.

A mutable borrow of the allocator is an argument and a result.  A function that
returns a `Result` returns it together with the allocator, since an error does not
undo what was done before it; a panic returns nothing.  A `for` loop over zone
indices is a recursion on the number of indices left.

## Main definitions

* `BuddyAllocator` — the zones and the node pool.
* `allocate`, `allocateAt`, `isPageFree`, `free` — the `PmmAllocator` interface.
* `findBucket`, `findBucketAt`, `disband`, `coalesce` — what they are made of.
* `breakIntoBucketsNFree` — handing a region over.
-/

namespace Funderberker

open Panicking

/-- Errors that the PMM might encounter. -/
inductive PmmError
  | outOfBounds
  | noAvailableBlock
  | freeOfAlreadyFree
  | invalidAlignment
  | invalidAddress
  | emptyAllocation
  | emptyFree
  | tooBigAllocation
  deriving DecidableEq, Repr

/-- What `pmm::get()` gives access to. -/
class PmmAllocator (σ : Type) where
  allocate (m : Overflow) (s : σ) (alignment pageCount : ℕ) :
    Except Panic (Except PmmError PhysAddr × σ)
  allocateAt (m : Overflow) (s : σ) (addr : PhysAddr) (pageCount : ℕ) :
    Except Panic (Except PmmError Unit × σ)
  free (m : Overflow) (s : σ) (addr : PhysAddr) (pageCount : ℕ) :
    Except Panic (Except PmmError Unit × σ)
  isPageFree (m : Overflow) (s : σ) (addr : PhysAddr) (pageCount : ℕ) :
    Except Panic (Except PmmError Bool)

/-- A linked-list node: where it lives, and its data. -/
structure Node where
  ptr : ℕ
  data : PhysAddr
  deriving DecidableEq, Repr

structure BuddyAllocator where
  /-- The zones, from single pages up. -/
  zones : List (List Node)
  /-- The pool of unused nodes. -/
  freelist : List Node
  deriving DecidableEq, Repr

namespace BuddyAllocator

variable (m : Overflow)

/-- The zone level of `BASIC_PAGE_SIZE`. -/
def MIN_ZONE_LEVEL : ℕ := Nat.log2 BASIC_PAGE_SIZE

/-- The slice access `zones[zone_index]`. -/
def zoneAt (s : BuddyAllocator) (zoneIndex : ℕ) : Except Panic (List Node) :=
  ofOption .indexOutOfBounds s.zones[zoneIndex]?

/-- `2_usize.pow(i as u32) * BASIC_PAGE_SIZE`. -/
def bucketSize (i : ℕ) : Except Panic ℕ := do
  let pages ← Usize.pow m 2 (Usize.asU32 i)
  Usize.mul m pages BASIC_PAGE_SIZE

/-! ## Moving nodes -/

/-- `LinkedList::remove_at_node`. -/
def removeAtNode (l : List Node) (index : ℕ) : Option (Node × List Node) :=
  l[index]?.map fun node => (node, l.eraseIdx index)

/-- Move one node from a zone to the back of the pool. -/
def popFromZone (s : BuddyAllocator) (zoneIndex nodeIndex : ℕ) :
    Except Panic BuddyAllocator := do
  let zone ← s.zoneAt zoneIndex
  let (node, zone') ← ofOption .unwrapNone (removeAtNode zone nodeIndex)
  .ok { zones := s.zones.set zoneIndex zone', freelist := s.freelist ++ [node] }

/-- Move the last node of the pool to the back of a zone, standing for `buddyAddr`. -/
def pushToZone (s : BuddyAllocator) (buddyAddr : PhysAddr) (zoneIndex : ℕ) :
    Except Panic BuddyAllocator := do
  let buddy ← ofOption .poolEmpty s.freelist.getLast?
  let zone ← s.zoneAt zoneIndex
  .ok { zones := s.zones.set zoneIndex (zone ++ [{ buddy with data := buddyAddr }]),
        freelist := s.freelist.dropLast }

/-! ## Buddies -/

/-- The address of the buddy of `addr` at a zone. -/
def getBuddyAddr (addr : PhysAddr) (zoneIndex : ℕ) : Except Panic PhysAddr := do
  let level ← Usize.add m zoneIndex MIN_ZONE_LEVEL
  let size ← Usize.pow m 2 (Usize.asU32 level)
  let off ← Usize.rem addr size
  if off ≠ 0 then .error .assertion
  else do
    let double ← Usize.mul m size 2
    let half ← Usize.rem addr double
    if half = 0 then Usize.add m addr size else Usize.sub m addr size

/-- The address of the block that two buddies make up. -/
def determineNextBucketAddr (addr buddyAddr : PhysAddr) : PhysAddr := min addr buddyAddr

/-- `disband` from zone `i` on, with `k` zones left to visit. -/
def disbandGo (s : BuddyAllocator) (addr : PhysAddr) (i : ℕ) : ℕ → Except Panic BuddyAllocator
  | 0 => .ok s
  | k + 1 => do
      let buddyAddr ← getBuddyAddr m addr i
      let s' ← s.pushToZone buddyAddr i
      disbandGo s' (determineNextBucketAddr addr buddyAddr) (i + 1) k

/-- Give back what is left of a block of zone `usedIndex` once the block of zone
`startIndex` at `addr` is taken out of it. -/
def disband (s : BuddyAllocator) (addr : PhysAddr) (startIndex usedIndex : ℕ) :
    Except Panic BuddyAllocator :=
  disbandGo m s addr startIndex (usedIndex - startIndex)

/-- `coalesce` from zone `i` on, with `k` zones left to visit. -/
def coalesceGo (s : BuddyAllocator) (addr : PhysAddr) (i : ℕ) : ℕ → Except Panic BuddyAllocator
  | 0 => .error .unreachable
  | k + 1 => do
      let buddyAddr ← getBuddyAddr m addr i
      let zone ← s.zoneAt i
      match ← findEnum (fun node => .ok (decide (node.data = buddyAddr))) 0 zone with
      | some (index, _) => do
          let s' ← s.popFromZone i index
          coalesceGo s' (determineNextBucketAddr addr buddyAddr) (i + 1) k
      | none => s.pushToZone addr i

/-- Merge the block at `addr` upwards as long as its buddy is free, then keep it. -/
def coalesce (s : BuddyAllocator) (addr : PhysAddr) (startIndex : ℕ) :
    Except Panic BuddyAllocator :=
  coalesceGo m s addr startIndex (s.zones.length - startIndex)

/-! ## Finding a block -/

def findBucketGo (s : BuddyAllocator) (alignment i : ℕ) :
    ℕ → Except Panic (Except PmmError (PhysAddr × ℕ) × BuddyAllocator)
  | 0 => .ok (.error .noAvailableBlock, s)
  | k + 1 => do
      let zone ← s.zoneAt i
      let test := fun node : Node => do
        let size ← Usize.mul m BASIC_PAGE_SIZE alignment
        let off ← Usize.rem node.data size
        .ok (decide (off = 0))
      match ← findEnum test 0 zone with
      | some (index, node) => do
          let s' ← s.popFromZone i index
          .ok (.ok (node.data, i), s')
      | none => findBucketGo s alignment (i + 1) k

/-- Take the first block, from zone `startIndex` up, whose address is a multiple of
`alignment` pages. -/
def findBucket (s : BuddyAllocator) (alignment startIndex : ℕ) :
    Except Panic (Except PmmError (PhysAddr × ℕ) × BuddyAllocator) :=
  findBucketGo m s alignment startIndex (s.zones.length - startIndex)

/-- Whether `addr` lies in the `size` bytes from `bucket`. -/
def inBucket (bucket addr : PhysAddr) (size : ℕ) : Except Panic Bool :=
  if bucket ≤ addr then do
    let stop ← Usize.add m bucket size
    .ok (decide (addr < stop))
  else .ok false

def findBucketAtGo (s : BuddyAllocator) (addr : PhysAddr) (i : ℕ) :
    ℕ → Except Panic (Except PmmError ℕ × BuddyAllocator)
  | 0 => .ok (.error .noAvailableBlock, s)
  | k + 1 => do
      let size ← bucketSize m i
      let zone ← s.zoneAt i
      match ← findEnum (fun node => inBucket m node.data addr size) 0 zone with
      | some (index, _) => do
          let s' ← s.popFromZone i index
          .ok (.ok i, s')
      | none => findBucketAtGo s addr (i + 1) k

/-- Take the first block, from zone `startIndex` up, that contains `addr`. -/
def findBucketAt (s : BuddyAllocator) (addr : PhysAddr) (startIndex : ℕ) :
    Except Panic (Except PmmError ℕ × BuddyAllocator) :=
  findBucketAtGo m s addr startIndex (s.zones.length - startIndex)

def isPageFreeGo (s : BuddyAllocator) (addr : PhysAddr) (i : ℕ) : ℕ → Except Panic Bool
  | 0 => .ok false
  | k + 1 => do
      let size ← bucketSize m i
      let zone ← s.zoneAt i
      match ← findEnum (fun node => inBucket m node.data addr size) 0 zone with
      | some _ => .ok true
      | none => isPageFreeGo s addr (i + 1) k

/-! ## The allocator interface -/

def allocateAt (s : BuddyAllocator) (addr : PhysAddr) (pageCount : ℕ) :
    Except Panic (Except PmmError Unit × BuddyAllocator) :=
  if pageCount = 0 then .ok (.error .emptyAllocation, s)
  else do
    let limit ← Usize.pow m 2 (Usize.asU32 s.zones.length)
    if pageCount > limit then .ok (.error .tooBigAllocation, s)
    else do
      let size ← Usize.mul m BASIC_PAGE_SIZE pageCount
      let off ← Usize.rem addr size
      if off ≠ 0 then .ok (.error .invalidAlignment, s)
      else match checkedNextPowerOfTwo pageCount with
        | none => .ok (.error .noAvailableBlock, s)
        | some pageCount => do
            let startIndex := Nat.log2 pageCount
            match ← s.findBucketAt m addr startIndex with
            | (.error e, s') => .ok (.error e, s')
            | (.ok usedIndex, s') => do
                let s'' ← s'.disband m addr startIndex usedIndex
                .ok (.ok (), s'')

def allocate (s : BuddyAllocator) (alignment pageCount : ℕ) :
    Except Panic (Except PmmError PhysAddr × BuddyAllocator) :=
  if pageCount = 0 then .ok (.error .emptyAllocation, s)
  else do
    let limit ← Usize.pow m 2 (Usize.asU32 s.zones.length)
    if pageCount > limit then .ok (.error .tooBigAllocation, s)
    else if !isPowerOfTwo alignment then .ok (.error .invalidAlignment, s)
    else match checkedNextPowerOfTwo pageCount with
      | none => .ok (.error .noAvailableBlock, s)
      | some pageCount => do
          let startIndex := Nat.log2 pageCount
          match ← s.findBucket m alignment startIndex with
          | (.error e, s') => .ok (.error e, s')
          | (.ok (usedAddr, usedIndex), s') => do
              let s'' ← s'.disband m usedAddr startIndex usedIndex
              .ok (.ok usedAddr, s'')

def isPageFree (s : BuddyAllocator) (addr : PhysAddr) (pageCount : ℕ) :
    Except Panic (Except PmmError Bool) :=
  if pageCount = 0 then .ok (.error .emptyAllocation)
  else do
    let size ← Usize.mul m BASIC_PAGE_SIZE pageCount
    let off ← Usize.rem addr size
    if off ≠ 0 then .ok (.error .invalidAlignment)
    else match checkedNextPowerOfTwo pageCount with
      | none => .ok (.error .noAvailableBlock)
      | some pageCount => do
          let startIndex := Nat.log2 pageCount
          let found ← s.isPageFreeGo m addr startIndex (s.zones.length - startIndex)
          .ok (.ok found)

def free (s : BuddyAllocator) (addr : PhysAddr) (pageCount : ℕ) :
    Except Panic (Except PmmError Unit × BuddyAllocator) :=
  if pageCount = 0 then .ok (.error .emptyFree, s)
  else do
    match ← s.isPageFree m addr pageCount with
    | .error e => .ok (.error e, s)
    | .ok true => .ok (.error .freeOfAlreadyFree, s)
    | .ok false =>
        match checkedNextPowerOfTwo pageCount with
        | none => .ok (.error .noAvailableBlock, s)
        | some pageCount => do
            let s' ← s.coalesce m addr (Nat.log2 pageCount)
            .ok (.ok (), s')

instance : PmmAllocator BuddyAllocator where
  allocate := allocate
  allocateAt := allocateAt
  free := free
  isPageFree := isPageFree

/-! ## Handing a region over -/

/-- The inner loop of `break_into_buckets_n_free`: the largest zone below `i` whose
block starts at page `addrId` and fits `totalPageCount` pages. -/
def pickBucket (addrId totalPageCount : ℕ) : ℕ → Except Panic (Option ℕ)
  | 0 => .ok none
  | i + 1 => do
      let pageCount ← Usize.pow m 2 (Usize.asU32 i)
      let off ← Usize.rem addrId pageCount
      if off = 0 ∧ totalPageCount ≥ pageCount then .ok (some pageCount)
      else pickBucket addrId totalPageCount i

/-- The outer loop.  Every turn takes at least one page, so as many turns as pages
are enough. -/
def breakGo (s : BuddyAllocator) (addrId totalPageCount : ℕ) : ℕ → Except Panic BuddyAllocator
  | 0 => .ok s
  | fuel + 1 =>
      if totalPageCount = 0 then .ok s
      else do
        match ← pickBucket m addrId totalPageCount s.zones.length with
        | none => .error .unreachable
        | some pageCount => do
            let addr ← Usize.mul m addrId BASIC_PAGE_SIZE
            match ← s.free m addr pageCount with
            | (.error _, _) => .error .unwrapErr
            | (.ok (), s') => do
                let rest ← Usize.sub m totalPageCount pageCount
                let next ← Usize.add m addrId pageCount
                breakGo s' next rest fuel

def breakIntoBucketsNFree (s : BuddyAllocator) (addr : PhysAddr) (totalPageCount : ℕ) :
    Except Panic BuddyAllocator :=
  breakGo m s (addr / BASIC_PAGE_SIZE) totalPageCount totalPageCount

end BuddyAllocator
end Funderberker

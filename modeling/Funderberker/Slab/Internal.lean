import Funderberker.Base

/-!
# The slab allocator

An allocator for objects of one layout.  A slab is a page cut into objects, with the
slab's own node behind them; the free objects of a slab form a stack.  Allocating takes
the first free object of the first slab that has one, and takes a new page when none
has.  Reaping gives back the pages of unused slabs at the front of the list.

The pages come from the paging layer: what it returns for a request is an argument
here, as is its answer to a page given back.

A stack is the list of the addresses of its nodes, top first, and a linked list is the
list of its elements.  A slab lies inside a page and a page inside the address space, so
none of the sums below overflows.

## Main definitions

* `Layout` — a size and an alignment.
* `Slab`, `InternalSlabAllocator` — the state.
* `InternalSlabAllocator.allocate`, `free`, `reap` — the operations.
-/

namespace Funderberker

open Panicking

/-- `core::alloc::Layout`. -/
structure Layout where
  size : ℕ
  align : ℕ
  align_pow2 : isPowerOfTwo align = true
  deriving DecidableEq

theorem Layout.align_pos (layout : Layout) : 0 < layout.align := by
  obtain ⟨e, he⟩ := exists_of_isPowerOfTwo layout.align_pow2
  rw [he]
  exact Nat.two_pow_pos e

/-- Of `n` objects behind one another, each ends before the end of all. -/
theorem Layout.object_end_le (layout : Layout) {k n : ℕ} (hk : k < n) :
    k * layout.size + layout.size ≤ n * layout.size := by
  calc
    k * layout.size + layout.size = (k + 1) * layout.size := (Nat.succ_mul _ _).symm
    _ ≤ n * layout.size := Nat.mul_le_mul_right _ hk

/-- The errors of the slab allocator. -/
inductive SlabError
  | badPtrRange
  | doubleFree
  | slabFullInternalError
  | pagingError
  | invalidLayout
  deriving DecidableEq, Repr

/-- `Layout::new::<ObjectNode>()`: a node of the stack of free objects. -/
def objectNode : Layout := ⟨8, 8, by decide⟩

/-- `Layout::new::<SlabNode>()`: a node of the list of slabs. -/
def slabNode : Layout := ⟨56, 8, by decide⟩

/-- The next multiple of `align`, which is a power of two. -/
def alignUp (value align : ℕ) : ℕ := (value + align - 1) &&& (2 ^ 64 - 1 - (align - 1))

theorem alignUp_eq {value e : ℕ} (he : e < 64) (h : value + 2 ^ e - 1 < 2 ^ 64) :
    alignUp value (2 ^ e) = (value + 2 ^ e - 1) / 2 ^ e * 2 ^ e := by
  have hpos := Nat.two_pow_pos e
  have hmask : 2 ^ 64 - 1 - (2 ^ e - 1) = 2 ^ 64 - ((2 ^ e - 1) + 1) := by omega
  have hlt : 2 ^ e - 1 < 2 ^ 64 := by
    have := Nat.pow_lt_pow_right (show 1 < 2 by omega) he
    omega
  rw [alignUp, hmask]
  refine Nat.eq_of_testBit_eq fun i => ?_
  rw [Nat.testBit_and, Nat.testBit_two_pow_sub_succ hlt, Nat.testBit_two_pow_sub_one,
    Nat.testBit_mul_two_pow, Nat.testBit_div_two_pow]
  by_cases hi : i < 64
  · by_cases hie : i < e
    · simp [hi, hie, Nat.not_le.mpr hie]
    · simp [hi, hie, Nat.not_lt.mp hie]
  · have hbig : (value + 2 ^ e - 1).testBit i = false :=
      Nat.testBit_lt_two_pow (h.trans_le (Nat.pow_le_pow_right (by omega) (by omega)))
    have hsub : i - e + e = i := by omega
    simp [hi, hsub, hbig]

structure Slab where
  /-- The address of the slab's page. -/
  buffer : ℕ
  /-- The free objects, the one handed out next first. -/
  freeObjects : List ℕ
  allocatedCount : ℕ
  capacity : ℕ
  deriving DecidableEq, Repr

namespace Slab

/-- The loop of `Slab::new` from object `i` on, with `k` objects left. -/
def newGo (buffer : ℕ) (layout : Layout) (freeObjects : List ℕ) (i : ℕ) :
    ℕ → Except SlabError (List ℕ)
  | 0 => .ok freeObjects
  | k + 1 =>
      let objectPtr := buffer + i * layout.size
      if objectPtr % layout.align ≠ 0 then .error .invalidLayout
      else newGo buffer layout (objectPtr :: freeObjects) (i + 1) k

/-- A slab all of whose objects are free. -/
def new (buffer : ℕ) (capacity : ℕ) (layout : Layout) : Except SlabError Slab := do
  let freeObjects ← newGo buffer layout [] 0 capacity
  .ok { buffer := buffer, freeObjects := freeObjects, allocatedCount := 0, capacity := capacity }

def containsPtr (s : Slab) (ptr : ℕ) (layout : Layout) : Bool :=
  s.buffer ≤ ptr ∧ ptr < s.buffer + s.capacity * layout.size

def isEmpty (s : Slab) : Bool := s.allocatedCount = 0

def allocate (s : Slab) (layout : Layout) : Except SlabError ℕ × Slab :=
  match s.freeObjects with
  | [] => (.error .slabFullInternalError, s)
  | ptr :: rest =>
      let s' := { s with freeObjects := rest, allocatedCount := s.allocatedCount + 1 }
      if ptr % layout.align ≠ 0 then (.error .invalidLayout, s') else (.ok ptr, s')

/-- The subtraction saturates, as does that of `ℕ`. -/
def free (s : Slab) (ptr : ℕ) (layout : Layout) : Except SlabError Unit × Slab :=
  let offset := ptr - s.buffer
  if offset % layout.size ≠ 0 then (.error .badPtrRange, s)
  else if ptr ∈ s.freeObjects then (.error .doubleFree, s)
  else
    (.ok (), { s with freeObjects := ptr :: s.freeObjects, allocatedCount := s.allocatedCount - 1 })

end Slab

structure InternalSlabAllocator where
  slabs : List Slab
  /-- How many pages a slab has. -/
  pageCount : ℕ
  /-- How many objects a slab has. -/
  objectCount : ℕ
  layout : Layout
  deriving DecidableEq

namespace InternalSlabAllocator

/-- How many objects fit before a node of layout `node`. -/
def calculateObjectCount (node layout : Layout) (pageCount : ℕ) : ℕ :=
  let totalSize := pageCount * BASIC_PAGE_SIZE
  let availableForObjects := totalSize - node.size
  let alignmentWaste := availableForObjects % node.align
  let usableSpace := availableForObjects - alignmentWaste
  usableSpace / layout.size

/-- An object is at least as large and as aligned as a stack node. -/
def adjustLayout (layout : Layout) : Layout :=
  { size := max layout.size objectNode.size
    align := max layout.align objectNode.align
    align_pow2 := isPowerOfTwo_max layout.align_pow2 objectNode.align_pow2 }

def new (layout : Layout) : InternalSlabAllocator :=
  let adjustedLayout := adjustLayout layout
  let pageCount := 1
  { slabs := []
    pageCount := pageCount
    objectCount := calculateObjectCount slabNode adjustedLayout pageCount
    layout := adjustedLayout }

/-- Where in its page a slab's node is placed. -/
def metadataOffset (al : InternalSlabAllocator) : ℕ :=
  let objectsSize := al.objectCount * al.layout.size
  alignUp objectsSize slabNode.align

/-- Add a slab in the page that the paging layer returned. -/
def grow (m : Overflow) (pages : Except PagingError ℕ) (al : InternalSlabAllocator) :
    Except Panic (Except SlabError Unit × InternalSlabAllocator) :=
  match pages with
  | .error _ => .ok (.error .pagingError, al)
  | .ok buffer =>
      if m = .checked ∧ ¬ al.metadataOffset + slabNode.size ≤ al.pageCount * BASIC_PAGE_SIZE then
        .error .sanity
      else match Slab.new buffer al.objectCount al.layout with
        | .error e => .ok (.error e, al)
        | .ok slab => .ok (.ok (), { al with slabs := al.slabs ++ [slab] })

/-- The first object that a slab of the list hands out. -/
def allocateFrom (layout : Layout) : List Slab → Option ℕ × List Slab
  | [] => (none, [])
  | slab :: rest =>
      match slab.allocate layout with
      | (.ok ptr, slab') => (some ptr, slab' :: rest)
      | (.error _, slab') =>
          let (ptr, rest') := allocateFrom layout rest
          (ptr, slab' :: rest')

/-- The second try of `allocate`, with the slab just added. -/
def allocateBack (al : InternalSlabAllocator) : Except SlabError ℕ × InternalSlabAllocator :=
  match al.slabs.getLast? with
  | none => (.error .slabFullInternalError, al)
  | some slab =>
      match slab.allocate al.layout with
      | (.ok ptr, slab') => (.ok ptr, { al with slabs := al.slabs.dropLast ++ [slab'] })
      | (.error _, slab') =>
          (.error .slabFullInternalError, { al with slabs := al.slabs.dropLast ++ [slab'] })

def allocate (m : Overflow) (pages : Except PagingError ℕ) (al : InternalSlabAllocator) :
    Except Panic (Except SlabError ℕ × InternalSlabAllocator) :=
  match allocateFrom al.layout al.slabs with
  | (some ptr, slabs) => .ok (.ok ptr, { al with slabs := slabs })
  | (none, slabs) => do
      match ← grow m pages { al with slabs := slabs } with
      | (.error e, al') => .ok (.error e, al')
      | (.ok (), al') => .ok al'.allocateBack

/-- Free `ptr` in the first slab of the list whose objects are around it. -/
def freeIn (layout : Layout) (ptr : ℕ) : List Slab → Except SlabError Unit × List Slab
  | [] => (.error .badPtrRange, [])
  | slab :: rest =>
      if slab.containsPtr ptr layout then
        let (r, slab') := slab.free ptr layout
        (r, slab' :: rest)
      else
        let (r, rest') := freeIn layout ptr rest
        (r, slab :: rest')

def free (ptr : ℕ) (al : InternalSlabAllocator) :
    Except SlabError Unit × InternalSlabAllocator :=
  if ptr % al.layout.align ≠ 0 then (.error .badPtrRange, al)
  else
    let (r, slabs) := freeIn al.layout ptr al.slabs
    (r, { al with slabs := slabs })

/-- The loop of `reap`: drop unused slabs at the front, giving their pages back. -/
def reapGo (m : Overflow) (freePages : ℕ → ℕ → Except PagingError Unit) (pageCount : ℕ) :
    List Slab → Except Panic (ℕ × List Slab)
  | [] => .ok (0, [])
  | slab :: rest =>
      if slab.isEmpty then
        if m = .checked ∧ slab.buffer % BASIC_PAGE_SIZE ≠ 0 then .error .sanity
        else match freePages slab.buffer pageCount with
          | .error _ => .error .unwrapErr
          | .ok () => do
              let (n, slabs) ← reapGo m freePages pageCount rest
              .ok (n + 1, slabs)
      else .ok (0, slab :: rest)

def reap (m : Overflow) (freePages : ℕ → ℕ → Except PagingError Unit)
    (al : InternalSlabAllocator) : Except Panic (ℕ × InternalSlabAllocator) := do
  let (n, slabs) ← reapGo m freePages al.pageCount al.slabs
  .ok (n, { al with slabs := slabs })

end InternalSlabAllocator
end Funderberker

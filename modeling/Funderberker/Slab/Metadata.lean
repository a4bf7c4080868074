import Funderberker.Lib.Rounding
import Funderberker.Slab.Internal

/-!
# Where a slab's node is placed

A slab's node lies in the slab's pages, behind the objects and at an address aligned for
it.  Two functions see to it: `calculate_object_count` rounds the space before the last
place for a node down to the node's alignment, and `grow` rounds the space of the
objects up to it, in the first case by a remainder and in the second by a mask.

`NodeFits` says what a place for a node is.  As the two roundings are adjoint, there is
a place for a node behind `n` objects exactly when `n` is at most the computed count,
and then `grow` finds one.

The functions are modelled again here, for slabs of any number of pages and a node of
any layout, in the 64-bit arithmetic of the machine.  For the allocators whose slabs
lie in the address space they are those of `Slab.Internal`.

## Main definitions

* `NodeFits` — an offset at which a node fits behind the objects.
* `Usize.calculateObjectCount`, `Usize.metadataOffset`, `Usize.grow` — the functions.

## Main results

* `InternalSlabAllocator.Sized.usize_grow_eq` — where the two models agree.
* `exists_nodeFits_iff` — for how many objects there is a place for the node.
* `metadata_fits` — the count is the largest one for which `grow` finds a place.
-/

namespace Funderberker

open Panicking Rounding

variable {m : Overflow} {node layout : Layout} {n i offset total pageCount value : ℕ}
  {al : InternalSlabAllocator}

/-- The layout of a type that has a size: in an array of its values each is aligned. -/
structure TypeLayout extends Layout where
  size_pos : 0 < size
  align_dvd : align ∣ size

theorem TypeLayout.align_le_size (node : TypeLayout) : node.align ≤ node.size :=
  Nat.le_of_dvd node.size_pos node.align_dvd

/-- The type `SlabNode`. -/
def slabNodeType : TypeLayout := { slabNode with size_pos := by decide, align_dvd := by decide }

/-! ## Room for a node -/

/-- At `offset` a node fits behind `n` objects, in `total` bytes. -/
structure NodeFits (node layout : Layout) (n offset total : ℕ) : Prop where
  behind : n * layout.size ≤ offset
  aligned : node.align ∣ offset
  inside : offset + node.size ≤ total

/-- Every object ends before the node. -/
theorem NodeFits.object_le (h : NodeFits node layout n offset total) (hi : i < n) :
    i * layout.size + layout.size ≤ offset :=
  (layout.object_end_le hi).trans h.behind

/-- The last place for a node in `total` bytes, and the space before it. -/
def usableSpace (node : Layout) (total : ℕ) : ℕ := roundDown node.align (total - node.size)

theorem usableSpace_le (node : Layout) (hfit : node.size ≤ total) :
    usableSpace node total + node.size ≤ total := by
  have := roundDown_le node.align_pos (total - node.size)
  rw [usableSpace]
  omega

/-- The first aligned place behind the objects is one for a node, if any is. -/
theorem nodeFits_roundUp (hfit : node.size ≤ total)
    (h : n * layout.size ≤ usableSpace node total) :
    NodeFits node layout n (roundUp node.align (n * layout.size)) total where
  behind := le_roundUp node.align_pos _
  aligned := dvd_roundUp _ _
  inside := by
    have hle := (gc_roundUp_roundDown node.align_pos).l_le h
    omega

/-- There is a place for a node behind as many objects as the usable space has room for. -/
theorem exists_nodeFits_iff (hsize : 0 < layout.size) (hfit : node.size ≤ total) :
    (∃ offset, NodeFits node layout n offset total) ↔
      n ≤ usableSpace node total / layout.size := by
  rw [Nat.le_div_iff_mul_le hsize, usableSpace, ← exists_dvd_between_iff node.align_pos]
  constructor
  · rintro ⟨offset, hbehind, haligned, hinside⟩
    exact ⟨offset, haligned, hbehind, Nat.le_sub_of_add_le hinside⟩
  · rintro ⟨offset, haligned, hbehind, hinside⟩
    exact ⟨offset, hbehind, haligned, (Nat.le_sub_iff_add_le hfit).mp hinside⟩

/-! ## The functions on numbers -/

theorem calculateObjectCount_eq :
    InternalSlabAllocator.calculateObjectCount node layout pageCount =
      usableSpace node (pageCount * BASIC_PAGE_SIZE) / layout.size := by
  rw [usableSpace, ← sub_mod_eq_roundDown]
  rfl

/-- The mask rounds up. -/
theorem alignUp_eq_roundUp (layout : Layout) (h : value + layout.align < 2 ^ 64) :
    alignUp value layout.align = roundUp layout.align value := by
  obtain ⟨e, he⟩ := exists_of_isPowerOfTwo layout.align_pow2
  rw [he] at h ⊢
  have hlt : e < 64 := (Nat.pow_lt_pow_iff_right (by omega)).mp (Nat.lt_of_add_left_lt h)
  rw [alignUp_eq hlt (by omega), Nat.mul_comm]
  rfl

/-! ## The functions on machine words -/

/-- The end of `grow`, with the pages at `buffer`. -/
def InternalSlabAllocator.addSlab (buffer : ℕ) (al : InternalSlabAllocator) :
    Except SlabError Unit × InternalSlabAllocator :=
  match Slab.new buffer al.objectCount al.layout with
  | .error e => (.error e, al)
  | .ok slab => (.ok (), { al with slabs := al.slabs ++ [slab] })

namespace Usize

/-- The next multiple of `align`, which is a power of two. -/
def alignUp (m : Overflow) (value align : ℕ) : Except Panic ℕ := do
  let top ← sub m (← add m value align) 1
  let low ← sub m align 1
  .ok (top &&& (2 ^ 64 - 1 - low))

/-- How many objects fit before a node of layout `node`. -/
def calculateObjectCount (m : Overflow) (node layout : Layout) (pageCount : ℕ) :
    Except Panic ℕ := do
  let totalSize ← mul m pageCount BASIC_PAGE_SIZE
  let availableForObjects ← sub m totalSize node.size
  let alignmentWaste ← rem availableForObjects node.align
  let usableSpace ← sub m availableForObjects alignmentWaste
  div usableSpace layout.size

/-- Where in its pages a slab's node is placed. -/
def metadataOffset (m : Overflow) (node : Layout) (al : InternalSlabAllocator) :
    Except Panic ℕ := do
  let objectsSize ← mul m al.objectCount al.layout.size
  alignUp m objectsSize node.align

/-- The `sanity_assert!` of `grow`, which only debug builds evaluate. -/
def assertFits (m : Overflow) (node : Layout) (al : InternalSlabAllocator) (offset : ℕ) :
    Except Panic Unit :=
  match m with
  | .wrapping => .ok ()
  | .checked => do
      let stop ← add m offset node.size
      let total ← mul m al.pageCount BASIC_PAGE_SIZE
      if stop ≤ total then .ok () else .error .sanity

/-- Add a slab in the pages that the paging layer returned. -/
def grow (m : Overflow) (node : Layout) (pages : Except PagingError ℕ)
    (al : InternalSlabAllocator) :
    Except Panic (Except SlabError Unit × InternalSlabAllocator) :=
  match pages with
  | .error _ => .ok (.error .pagingError, al)
  | .ok buffer => do
      let offset ← metadataOffset m node al
      assertFits m node al offset
      .ok (al.addSlab buffer)

theorem alignUp_eq (h : value + layout.align < 2 ^ 64) :
    alignUp m value layout.align = .ok (roundUp layout.align value) := by
  have hpos := layout.align_pos
  rw [← alignUp_eq_roundUp layout h]
  simp only [alignUp]
  rw [add_eq h, ok_bind, sub_eq (by omega), ok_bind, sub_eq (by omega), ok_bind]
  rfl

/-- The count is the number of objects that the usable space has room for. -/
theorem calculateObjectCount_eq (hsize : 0 < layout.size)
    (htotal : mul m pageCount BASIC_PAGE_SIZE = .ok total) (hfit : node.size ≤ total) :
    calculateObjectCount m node layout pageCount =
      .ok (usableSpace node total / layout.size) := by
  rw [calculateObjectCount, htotal, ok_bind, sub_eq hfit, ok_bind, rem_eq node.align_pos.ne',
    ok_bind, sub_eq (Nat.mod_le _ _), ok_bind, div_eq hsize.ne', sub_mod_eq_roundDown]
  rfl

/-- The offset is the first aligned one behind the objects, if they leave room. -/
theorem metadataOffset_eq (node : TypeLayout) (hlt : total < 2 ^ 64) (hfit : node.size ≤ total)
    (h : al.objectCount * al.layout.size ≤ usableSpace node.toLayout total) :
    metadataOffset m node.toLayout al =
      .ok (roundUp node.align (al.objectCount * al.layout.size)) := by
  have hle := usableSpace_le node.toLayout hfit
  have hal := node.align_le_size
  rw [metadataOffset, mul_eq (by omega), ok_bind, alignUp_eq (by omega)]

theorem assertFits_eq (hlt : total < 2 ^ 64)
    (htotal : mul m al.pageCount BASIC_PAGE_SIZE = .ok total)
    (hinside : offset + node.size ≤ total) : assertFits m node al offset = .ok () := by
  cases m with
  | wrapping => rfl
  | checked =>
      rw [assertFits, add_eq (hinside.trans_lt hlt), ok_bind, htotal, ok_bind, if_pos hinside]

/-- When the objects leave room for the node, growing does not stop. -/
theorem grow_eq (node : TypeLayout)
    (htotal : mul m al.pageCount BASIC_PAGE_SIZE = .ok total) (hfit : node.size ≤ total)
    (h : al.objectCount * al.layout.size ≤ usableSpace node.toLayout total)
    (pages : Except PagingError ℕ) :
    grow m node.toLayout pages al = .ok (match pages with
      | .error _ => (.error .pagingError, al)
      | .ok buffer => al.addSlab buffer) := by
  have hlt := mul_lt htotal
  cases pages with
  | error e => rfl
  | ok buffer =>
      simp only [grow]
      rw [metadataOffset_eq node hlt hfit h, ok_bind,
        assertFits_eq hlt htotal (nodeFits_roundUp hfit h).inside, ok_bind]

end Usize

/-! ## Allocators in the address space -/

namespace InternalSlabAllocator

/-- The pages of a slab lie in the address space and have room for the slab's node, and
the number of objects is the computed one. -/
structure Sized (al : InternalSlabAllocator) : Prop where
  pages_lt : al.pageCount * BASIC_PAGE_SIZE < 2 ^ 64
  node_le : slabNode.size ≤ al.pageCount * BASIC_PAGE_SIZE
  count_eq : al.objectCount = calculateObjectCount slabNode al.layout al.pageCount

theorem sized_of_one (hpages : al.pageCount = 1)
    (hcount : al.objectCount = calculateObjectCount slabNode al.layout 1) : Sized al := by
  constructor
  · rw [hpages]
    decide
  · rw [hpages]
    decide
  · rw [hcount, hpages]

theorem Sized.objects_le (h : Sized al) : al.objectCount * al.layout.size ≤
    usableSpace slabNode (al.pageCount * BASIC_PAGE_SIZE) := by
  rw [h.count_eq, calculateObjectCount_eq]
  exact Nat.div_mul_le_self _ _

/-- The node fits at the offset computed for it. -/
theorem Sized.nodeFits (h : Sized al) : NodeFits slabNode al.layout al.objectCount
    al.metadataOffset (al.pageCount * BASIC_PAGE_SIZE) := by
  have hspace := usableSpace_le slabNode h.node_le
  have hobjects := h.objects_le
  have hpages := h.pages_lt
  have hal : slabNode.align ≤ slabNode.size := slabNodeType.align_le_size
  have heq : al.metadataOffset = roundUp slabNode.align (al.objectCount * al.layout.size) :=
    alignUp_eq_roundUp slabNode (by omega)
  rw [heq]
  exact nodeFits_roundUp h.node_le hobjects

theorem Sized.grow_ok (h : Sized al) (buffer : ℕ) :
    grow m (.ok buffer) al = .ok (al.addSlab buffer) := by
  have hsane : ¬ (m = .checked ∧
      ¬ al.metadataOffset + slabNode.size ≤ al.pageCount * BASIC_PAGE_SIZE) :=
    fun hbad => hbad.2 h.nodeFits.inside
  simp only [grow, if_neg hsane, addSlab]
  cases Slab.new buffer al.objectCount al.layout <;> rfl

/-- No result of the machine's `grow` leaves 64 bits. -/
theorem Sized.usize_grow_eq (h : Sized al) (pages : Except PagingError ℕ) :
    Usize.grow m slabNode pages al = grow m pages al := by
  have htotal := Usize.mul_eq (m := m) h.pages_lt
  have heq := Usize.grow_eq slabNodeType htotal h.node_le h.objects_le pages
  cases pages with
  | error e => rfl
  | ok buffer => exact heq.trans (h.grow_ok buffer).symm

end InternalSlabAllocator

/-! ## The place that is found -/

/-- **The node fits behind the objects.**  Let `total` be what the machine computes for
the bytes of the pages, and let a node fit into that many.  Then `calculate_object_count`
returns a number `n` of objects.  For an allocator with this number, `grow` computes an
aligned offset behind the objects at which a node fits, and it does not stop.  There is
no place for a node behind `n + 1` objects. -/
theorem metadata_fits (m : Overflow) (node : TypeLayout) (layout : Layout) (pageCount : ℕ)
    (hsize : 0 < layout.size)
    (htotal : Usize.mul m pageCount BASIC_PAGE_SIZE = .ok total) (hfit : node.size ≤ total) :
    ∃ n, Usize.calculateObjectCount m node.toLayout layout pageCount = .ok n ∧
      (∀ al : InternalSlabAllocator,
        al.layout = layout → al.pageCount = pageCount → al.objectCount = n →
        (∃ offset, Usize.metadataOffset m node.toLayout al = .ok offset ∧
          NodeFits node.toLayout layout n offset total ∧
          ∀ i < n, i * layout.size + layout.size ≤ offset) ∧
        ∀ pages, ∃ res, Usize.grow m node.toLayout pages al = .ok res) ∧
      ∀ offset, ¬ NodeFits node.toLayout layout (n + 1) offset total := by
  refine ⟨_, Usize.calculateObjectCount_eq hsize htotal hfit, ?_, ?_⟩
  · rintro al rfl rfl hcount
    have hroom : al.objectCount * al.layout.size ≤ usableSpace node.toLayout total := by
      rw [hcount]
      exact Nat.div_mul_le_self _ _
    have hplace := nodeFits_roundUp hfit hroom
    rw [← hcount]
    refine ⟨⟨_, Usize.metadataOffset_eq node (Usize.mul_lt htotal) hfit hroom, hplace, ?_⟩, ?_⟩
    · exact fun i => hplace.object_le
    · exact fun pages => ⟨_, Usize.grow_eq node htotal hfit hroom pages⟩
  · intro offset hplace
    have hle := (exists_nodeFits_iff hsize hfit).mp ⟨offset, hplace⟩
    omega

/-- In a page there are 134 objects of 30 bytes, and with one more there is no place. -/
theorem metadata_fits_page :
    (∃ offset, NodeFits slabNode { objectNode with size := 30 } 134 offset BASIC_PAGE_SIZE) ∧
      ∀ offset, ¬ NodeFits slabNode { objectNode with size := 30 } 135 offset BASIC_PAGE_SIZE := by
  obtain ⟨n, hcount, hplace, hmax⟩ := metadata_fits .checked slabNodeType
    { objectNode with size := 30 } 1 (by decide) rfl (by decide)
  obtain rfl : 134 = n := Except.ok.inj hcount
  obtain ⟨⟨offset, -, hfits, -⟩, -⟩ := hplace ⟨[], 1, 134, _⟩ rfl rfl rfl
  exact ⟨⟨offset, hfits⟩, hmax⟩

end Funderberker

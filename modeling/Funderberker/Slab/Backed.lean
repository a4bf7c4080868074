import Funderberker.Paging.Kernel
import Funderberker.Slab.AnyClass
import Mathlib.Algebra.Order.Interval.Set.SuccPred

/-!
# The heap in the kernel's memory

The pages of the slabs come from the paging layer, and it gets them back when the heap is reaped.
So all of the kernel's memory hangs together: the objects of the heap are on pages that the kernel
owns, these are mapped to frames of the PMM, and the frames of a page are its own.

## Main definitions

* `Heap.allocIn`, `Heap.reapIn` — the heap, with the paging layer it calls.
* `SystemStep`, `SystemRun` — the calls of the kernel and of the heap, in any order.
* `SystemInv` — the invariant.

## Main results

* `heap_in_memory` — objects in use are at places of memory that nothing else uses.
-/

namespace Funderberker

open Panicking InternalSlabAllocator MemoryMap

/-! ## The code -/

/-- The flags of the pages of a slab. -/
def slabFlags : Flags := Flags.new.setReadWrite true

namespace InternalSlabAllocator

variable {σ : Type} [PmmAllocator σ] (m : Overflow)

/-- `grow`, with the pages that the paging layer has. -/
def growIn (s : PagingManager σ) (al : InternalSlabAllocator) :
    Except Panic ((Except SlabError Unit × InternalSlabAllocator) × PagingManager σ) := do
  let (pages, s) ← s.allocatePages m al.pageCount slabFlags .size4kb
  let r ← al.grow m pages
  .ok (r, s)

/-- `allocate`.  Pages are only asked for when no slab has an object. -/
def allocateIn (s : PagingManager σ) (al : InternalSlabAllocator) :
    Except Panic ((Except SlabError ℕ × InternalSlabAllocator) × PagingManager σ) :=
  match allocateFrom al.layout al.slabs with
  | (some ptr, slabs) => .ok ((.ok ptr, { al with slabs := slabs }), s)
  | (none, slabs) => do
      match ← growIn m s { al with slabs := slabs } with
      | ((.error e, al'), s) => .ok ((.error e, al'), s)
      | ((.ok (), al'), s) => .ok (al'.allocateBack, s)

/-- The loop of `reap`. -/
def reapGoIn (pageCount : ℕ) (s : PagingManager σ) :
    List Slab → Except Panic ((ℕ × List Slab) × PagingManager σ)
  | [] => .ok ((0, []), s)
  | slab :: rest =>
      if slab.isEmpty then
        if m = .checked ∧ slab.buffer % BASIC_PAGE_SIZE ≠ 0 then .error .sanity
        else do
          match ← s.freePages m slab.buffer pageCount .size4kb with
          | (.error _, _) => .error .unwrapErr
          | (.ok (), s) => do
              let ((n, slabs), s) ← reapGoIn pageCount s rest
              .ok ((n + 1, slabs), s)
      else .ok ((0, slab :: rest), s)

def reapIn (s : PagingManager σ) (al : InternalSlabAllocator) :
    Except Panic ((ℕ × InternalSlabAllocator) × PagingManager σ) := do
  let ((n, slabs), s) ← reapGoIn m al.pageCount s al.slabs
  .ok ((n, { al with slabs := slabs }), s)

end InternalSlabAllocator

namespace Heap

variable {σ : Type} [PmmAllocator σ] (m : Overflow)

def allocIn (s : PagingManager σ) (heap : Heap) (layout : Layout) :
    Except Panic ((ℕ × Heap) × PagingManager σ) := do
  let c ← layoutToAllocator layout
  match ← (heap.allocator c).allocateIn m s with
  | ((.ok ptr, al), s) => .ok ((ptr, heap.set c al), s)
  | ((.error _, al), s) => .ok ((0, heap.set c al), s)

def reapAllIn (s : PagingManager σ) (heap : Heap) :
    List SizeClass → Except Panic ((ℕ × Heap) × PagingManager σ)
  | [] => .ok ((0, heap), s)
  | c :: rest => do
      let ((n, al), s) ← (heap.allocator c).reapIn m s
      let ((total, heap'), s) ← reapAllIn s (heap.set c al) rest
      .ok ((n + total, heap'), s)

def reapIn (s : PagingManager σ) (heap : Heap) : Except Panic ((ℕ × Heap) × PagingManager σ) :=
  reapAllIn m s heap [.slab64, .slab128, .slab256, .slab512, .slab1024, .slab2048, .slab4096]

/-- The virtual pages that the heap holds. -/
def pages (heap : Heap) : Set ℕ := {k | k * BASIC_PAGE_SIZE ∈ heap.buffers}

end Heap

/-! ## Runs -/

/-- The kernel's memory, the heap in it, and the allocations that were not given back yet. -/
structure SystemState where
  kernel : KernelState
  heap : Heap
  live : List (ℕ × Layout)

/-- One call of the kernel or of the heap.  The kernel leaves the pages of the heap to it. -/
inductive SystemStep (m : Overflow) (c : SystemState) : SystemState → Prop
  | kernel {S : Set ℕ} {k : KernelState} (h : KernelStep m c.kernel S k)
      (hapart : Disjoint S c.heap.pages) : SystemStep m c ⟨k, c.heap, c.live⟩
  | alloc {layout : Layout} {ptr : ℕ} {heap : Heap} {s : PagingManager BuddyAllocator}
      (hroom : c.kernel.manager.vaa.hander.next + 1 ≤ LOW_PAGES)
      (h : c.heap.allocIn m c.kernel.manager layout = .ok ((ptr, heap), s)) :
      SystemStep m c ⟨⟨s, c.kernel.owned ∪ heap.pages, c.kernel.devices⟩, heap,
        if ptr = 0 then c.live else (ptr, layout) :: c.live⟩
  | dealloc {ptr : ℕ} {layout : Layout} (hlive : (ptr, layout) ∈ c.live) {heap : Heap}
      (h : c.heap.dealloc ptr layout = .ok heap) :
      SystemStep m c ⟨c.kernel, heap, c.live.erase (ptr, layout)⟩
  | reap {n : ℕ} {heap : Heap} {s : PagingManager BuddyAllocator}
      (h : c.heap.reapIn m c.kernel.manager = .ok ((n, heap), s)) :
      SystemStep m c ⟨⟨s, c.kernel.owned \ (c.heap.pages \ heap.pages), c.kernel.devices⟩, heap,
        c.live⟩

/-- The calls of a run. -/
def SystemRun (m : Overflow) : SystemState → SystemState → Prop :=
  Relation.ReflTransGen (SystemStep m)

/-- The invariant: the pages of the heap are among those that the kernel owns. -/
structure SystemInv (T : ℕ) (A : Set ℕ) (boot : ℕ → Option (ℕ × Word)) (c : SystemState) :
    Prop where
  kernel : ∃ pm next, KernelInv T A boot c.kernel pm next
  heap : HeapSound ⟨c.heap, c.live⟩
  held : c.heap.pages ⊆ c.kernel.owned

/-! ## The heap and the paging layer -/

section

variable {σ : Type} [PmmAllocator σ] {m : Overflow} {s : PagingManager σ}
  {al : InternalSlabAllocator}

/-- With an object at hand, the paging layer is not called. -/
theorem InternalSlabAllocator.allocateIn_of_some {ptr : ℕ} {slabs : List Slab}
    (h : allocateFrom al.layout al.slabs = (some ptr, slabs)) :
    al.allocateIn m s = .ok ((.ok ptr, { al with slabs := slabs }), s) := by
  rw [allocateIn, h]

/-- Otherwise it is, and the allocator does with its answer what it always does. -/
theorem InternalSlabAllocator.allocateIn_of_none
    (h : allocateFrom al.layout al.slabs = (none, al.slabs)) :
    al.allocateIn m s = s.allocatePages m al.pageCount slabFlags .size4kb >>= fun x =>
      al.allocate m x.1 >>= fun r => .ok (r, x.2) := by
  rw [allocateIn, h]
  dsimp only
  rw [growIn]
  cases hpages : s.allocatePages m al.pageCount slabFlags .size4kb with
  | error e => rfl
  | ok x =>
      obtain ⟨pages, s'⟩ := x
      rw [ok_bind, ok_bind, allocate_of_none h]
      dsimp only
      cases hgrow : al.grow m pages with
      | error e => rfl
      | ok r => obtain ⟨_ | _, al'⟩ := r <;> rfl

/-- An allocator that grows holds one page more. -/
theorem InternalSlabAllocator.buffers_of_grown {p : ℕ} (hI : al.Inv)
    (hp : FreshPage al.buffers (.ok p)) (h : allocateFrom al.layout al.slabs = (none, al.slabs))
    {r : Except SlabError ℕ} {al' : InternalSlabAllocator}
    (hrun : al.allocate m (.ok p) = .ok (r, al')) : al'.buffers = al.buffers ++ [p] := by
  obtain ⟨s, hgrow, -, hbuf, -, hI'⟩ := grow_spec (m := m) hI hp
  rw [allocate_of_none h, hgrow, ok_bind] at hrun
  rcases allocateBack_spec hI' with hback | ⟨ptr, s', htakes, hback⟩
  · obtain ⟨-, rfl⟩ := Prod.mk.inj (Except.ok.inj ((congrArg _ hback).symm.trans hrun))
    simp [buffers, hbuf]
  · obtain ⟨-, rfl⟩ := Prod.mk.inj (Except.ok.inj ((congrArg _ hback).symm.trans hrun))
    simp [buffers, htakes.buffer, hbuf]

theorem PagingManager.allocatePages_ne_zero {n : ℕ} {flags : Flags} {pageSize : PageSize}
    {base : VirtAddr} {s' : PagingManager σ}
    (h : s.allocatePages m n flags pageSize = .ok (.ok base, s')) : base ≠ 0 := by
  rw [PagingManager.allocatePages] at h
  obtain ⟨⟨base', vaa⟩, -, h⟩ := bind_eq_ok.mp h
  obtain ⟨⟨res, w⟩, -, h⟩ := bind_eq_ok.mp h
  cases res with
  | error e => cases h
  | ok _ =>
      dsimp only at h
      split at h
      · cases h
      · rename_i hne
        obtain ⟨heq, -⟩ := Prod.mk.inj (Except.ok.inj h)
        exact Except.ok.inj heq ▸ hne

theorem Heap.allocIn_of_some {heap : Heap} {layout : Layout} {k : SizeClass} {ptr : ℕ}
    {slabs : List Slab} (hk : layoutToAllocator layout = .ok k)
    (h : allocateFrom (heap.allocator k).layout (heap.allocator k).slabs = (some ptr, slabs))
    (pages : Except PagingError ℕ) :
    heap.allocIn m s layout = heap.alloc m pages layout >>= fun r => .ok (r, s) := by
  have hrun : (heap.allocator k).allocate m pages =
      .ok (.ok ptr, { heap.allocator k with slabs := slabs }) := by
    rw [allocate, h]
  rw [alloc_of_ok hk hrun, ok_bind, allocIn, hk, ok_bind, allocateIn_of_some h, ok_bind]

theorem Heap.allocIn_of_none {heap : Heap} {layout : Layout} {k : SizeClass}
    (hk : layoutToAllocator layout = .ok k) (hcount : (heap.allocator k).pageCount = 1)
    (h : allocateFrom (heap.allocator k).layout (heap.allocator k).slabs =
      (none, (heap.allocator k).slabs)) :
    heap.allocIn m s layout = s.allocatePages m 1 slabFlags .size4kb >>= fun x =>
      heap.alloc m x.1 layout >>= fun r => .ok (r, x.2) := by
  rw [allocIn, hk, ok_bind, allocateIn_of_none h, hcount]
  cases s.allocatePages m 1 slabFlags .size4kb with
  | error e => rfl
  | ok x =>
      rw [ok_bind, ok_bind, alloc, hk, ok_bind]
      cases (heap.allocator k).allocate m x.1 with
      | error e => rfl
      | ok r => obtain ⟨_ | _, al'⟩ := r <;> rfl

end

/-! ## The pages of the heap -/

section

variable {m : Overflow} {d : HeapClient} {heap : Heap} {k : SizeClass} {al : InternalSlabAllocator}
  {layout : Layout} {ptr p j : ℕ}

theorem Heap.mem_pages : j ∈ heap.pages ↔ ∃ k, j * BASIC_PAGE_SIZE ∈ (heap.allocator k).buffers :=
  Heap.mem_buffers

theorem HeapSound.buffer_mod (h : HeapSound d) (hp : p ∈ (d.heap.allocator k).buffers) :
    p % BASIC_PAGE_SIZE = 0 := by
  obtain ⟨s, hs, rfl⟩ := List.mem_map.mp hp
  exact ((h.inv k).slabs s hs).1.page

theorem HeapSound.div_mem_pages (h : HeapSound d) (hp : p ∈ (d.heap.allocator k).buffers) :
    p / BASIC_PAGE_SIZE ∈ d.heap.pages := by
  refine Heap.mem_pages.mpr ⟨k, ?_⟩
  rwa [Nat.div_mul_cancel (Nat.dvd_of_mod_eq_zero (h.buffer_mod hp))]

/-- An object in use is on a page of the heap, to its last byte. -/
theorem HeapSound.live_page (h : HeapSound d) {x : ℕ × Layout} (hx : x ∈ d.live) {off : ℕ}
    (hoff : off < x.2.size) : (x.1 + off) / BASIC_PAGE_SIZE ∈ d.heap.pages := by
  obtain ⟨k, hk⟩ := h.accepted x hx
  have hlive : x.1 ∈ (d.heap.allocator k).live := h.mem_live hx hk
  obtain ⟨s, hs, hslot, -⟩ := hlive
  have hI := ((h.inv k).slabs s hs).1
  have hbounds := hI.slot_bounds hslot
  have hsize := (Heap.layoutToAllocator_spec hk).1
  have hbytes : (d.heap.allocator k).layout.size = k.bytes := by
    rw [h.layout]
    rfl
  have hpage := hI.page
  have hdiv : (x.1 + off) / BASIC_PAGE_SIZE = s.buffer / BASIC_PAGE_SIZE := by
    rw [BASIC_PAGE_SIZE] at *
    omega
  rw [hdiv]
  exact h.div_mem_pages (List.mem_map_of_mem hs)

theorem Heap.mem_pages_set : j ∈ (heap.set k al).pages ↔
    j * BASIC_PAGE_SIZE ∈ al.buffers ∨
      ∃ i ≠ k, j * BASIC_PAGE_SIZE ∈ (heap.allocator i).buffers := by
  rw [Heap.mem_pages]
  constructor
  · rintro ⟨i, hi⟩
    by_cases hik : i = k
    · subst hik
      rw [allocator_set_self] at hi
      exact Or.inl hi
    · rw [allocator_set_of_ne hik] at hi
      exact Or.inr ⟨i, hik, hi⟩
  · rintro (hk | ⟨i, hik, hi⟩)
    · exact ⟨k, by rwa [allocator_set_self]⟩
    · exact ⟨i, by rwa [allocator_set_of_ne hik]⟩

theorem Heap.mem_pages_iff (k : SizeClass) : j ∈ heap.pages ↔
    j * BASIC_PAGE_SIZE ∈ (heap.allocator k).buffers ∨
      ∃ i ≠ k, j * BASIC_PAGE_SIZE ∈ (heap.allocator i).buffers := by
  rw [← mem_pages_set, set, Function.update_eq_self]

theorem Heap.pages_set_same (h : al.buffers = (heap.allocator k).buffers) :
    (heap.set k al).pages = heap.pages := by
  ext j
  rw [mem_pages_set, mem_pages_iff k, h]

theorem Heap.pages_set_grown
    (h : al.buffers = (heap.allocator k).buffers ++ [p * BASIC_PAGE_SIZE]) :
    (heap.set k al).pages = insert p heap.pages := by
  ext j
  rw [mem_pages_set, Set.mem_insert_iff, mem_pages_iff k, h, List.mem_append, List.mem_singleton,
    Nat.mul_left_inj basicPageSize_pos.ne', or_comm (b := j = p), or_assoc]

/-- With an object at hand, the heap keeps its pages. -/
theorem HeapSound.pages_of_some (h : HeapSound d) (hk : Heap.layoutToAllocator layout = .ok k)
    {pages : Except PagingError ℕ} {slabs : List Slab} {q : ℕ}
    (hsome : allocateFrom (d.heap.allocator k).layout (d.heap.allocator k).slabs = (some q, slabs))
    (hrun : d.heap.alloc m pages layout = .ok (ptr, heap)) : heap.pages = d.heap.pages := by
  have hI := h.inv k
  rcases allocateFrom_spec (fun s hs => (hI.slabs s hs).1) hI.size_pos hI.size_mul with
    hnone | ⟨pre, s, post, ptr', s', hsplit, htakes, hfrom⟩
  · rw [hnone] at hsome
    cases (Prod.mk.inj hsome).1
  · have hrun' : (d.heap.allocator k).allocate m pages =
        .ok (.ok ptr', { d.heap.allocator k with slabs := pre ++ s' :: post }) := by
      rw [allocate, hfrom]
    obtain ⟨-, rfl⟩ := Prod.mk.inj (Except.ok.inj ((Heap.alloc_of_ok hk hrun').symm.trans hrun))
    refine Heap.pages_set_same ?_
    rw [buffers, buffers, hsplit, List.map_append, List.map_append, List.map_cons, List.map_cons,
      htakes.buffer]

/-- Otherwise it has the new one, be it of use or not. -/
theorem HeapSound.pages_of_none (h : HeapSound d) (hk : Heap.layoutToAllocator layout = .ok k)
    (hp : FreshPage d.heap.buffers (.ok (p * BASIC_PAGE_SIZE)))
    (hnone : allocateFrom (d.heap.allocator k).layout (d.heap.allocator k).slabs =
      (none, (d.heap.allocator k).slabs))
    (hrun : d.heap.alloc m (.ok (p * BASIC_PAGE_SIZE)) layout = .ok (ptr, heap)) :
    heap.pages = insert p d.heap.pages := by
  obtain ⟨r, al, hrun', -⟩ := allocate_spec (m := m) (h.inv k) (hp.of_class k)
  have hgrown := Heap.pages_set_grown (buffers_of_grown (h.inv k) (hp.of_class k) hnone hrun')
  cases r with
  | ok q =>
      obtain ⟨-, rfl⟩ := Prod.mk.inj (Except.ok.inj ((Heap.alloc_of_ok hk hrun').symm.trans hrun))
      exact hgrown
  | error e =>
      obtain ⟨-, rfl⟩ :=
        Prod.mk.inj (Except.ok.inj ((Heap.alloc_of_error hk hrun').symm.trans hrun))
      exact hgrown

theorem HeapSound.ne_zero (h : HeapSound d) (hk : Heap.layoutToAllocator layout = .ok k)
    {pages : Except PagingError ℕ} (hp : FreshPage d.heap.buffers pages)
    (hsome : ∃ q al, (d.heap.allocator k).allocate m pages = .ok (.ok q, al))
    (hrun : d.heap.alloc m pages layout = .ok (ptr, heap)) : ptr ≠ 0 := by
  obtain ⟨q, al, hal⟩ := hsome
  obtain ⟨r, al', hrun', hspec⟩ := allocate_spec (m := m) (h.inv k) (hp.of_class k)
  obtain ⟨rfl, rfl⟩ := Prod.mk.inj (Except.ok.inj (hrun'.symm.trans hal))
  obtain ⟨rfl, -⟩ := Prod.mk.inj (Except.ok.inj ((Heap.alloc_of_ok hk hal).symm.trans hrun))
  exact ne_zero_of_slot hspec.inv (hspec.of_ok q rfl).1

end

/-! ## What a step keeps -/

theorem slabFlags_built : slabFlags.Built := .readWrite .new true

section

variable {m : Overflow} {T : ℕ} {A : Set ℕ} {boot : ℕ → Option (ℕ × Word)} {c c' : SystemState}
  {k : SizeClass} {layout : Layout} {ptr : ℕ}

/-- What the paging layer returns is fit for a slab. -/
theorem SystemInv.freshPage {pm : ℕ → Option PhysAddr} {next : ℕ} (h : SystemInv T A boot c)
    (hkernel : KernelInv T A boot c.kernel pm next) (hne : next * BASIC_PAGE_SIZE ≠ 0) :
    FreshPage c.heap.buffers (.ok (next * BASIC_PAGE_SIZE)) :=
  freshPage_ok_iff.mpr ⟨Nat.mul_mod_left _ _, hne, fun hmem =>
    (hkernel.new (Nat.le_refl next)).1 (h.held hmem)⟩

/-- Allocating from the heap. -/
theorem SystemInv.alloc (h : SystemInv T A boot c) (hT : T * BASIC_PAGE_SIZE ≤ 2 ^ 52)
    (hroom : c.kernel.manager.vaa.hander.next + 1 ≤ LOW_PAGES)
    (hk : Heap.layoutToAllocator layout = .ok k) :
    Yields (Exhausted m) (fun x =>
      SystemInv T A boot ⟨⟨x.2, c.kernel.owned ∪ x.1.2.pages, c.kernel.devices⟩, x.1.2,
        if x.1.1 = 0 then c.live else (x.1.1, layout) :: c.live⟩ ∧
      (k ≠ .slab4096 → x.1.1 ≠ 0)) (c.heap.allocIn m c.kernel.manager layout) := by
  obtain ⟨pm, next, hkernel⟩ := h.kernel
  have hnext : c.kernel.manager.vaa.hander.next = next := by
    rw [hkernel.vaa]
    rfl
  have hI := h.heap.inv k
  rcases allocateFrom_spec (fun s hs => (hI.slabs s hs).1) hI.size_pos hI.size_mul with
    hnone | ⟨_, s, _, q, _, -, -, hsome⟩
  · rw [Heap.allocIn_of_none hk hI.pageCount_eq hnone]
    have hpages := hkernel.allocatePages (m := m) (n := 1) hT slabFlags_built (hnext ▸ hroom)
    cases hrun : c.kernel.manager.allocatePages m 1 slabFlags .size4kb with
    | error e => exact hpages.reason hrun
    | ok x =>
        obtain ⟨res, s'⟩ := x
        obtain ⟨rfl, ⟨pm', next', hkernel'⟩, -⟩ := hpages.post hrun
        have hfresh := h.freshPage hkernel (PagingManager.allocatePages_ne_zero hrun)
        obtain ⟨ptr, heap, halloc, hsound, -⟩ := h.heap.alloc (m := m) hfresh hk
        have hset := h.heap.pages_of_none hk hfresh hnone halloc
        have howned : c.kernel.owned ∪ heap.pages = c.kernel.owned ∪ Set.Ico next (next + 1) := by
          rw [hset, Set.insert_eq, ← Set.union_assoc, Set.union_right_comm,
            Set.union_eq_self_of_subset_right h.held, Set.Ico_add_one_right_eq_Icc, Set.Icc_self]
        rw [ok_bind, halloc]
        refine ⟨⟨⟨pm', next', ?_⟩, hsound, Set.subset_union_right⟩, fun hne => ?_⟩
        · dsimp only
          rw [howned]
          exact hkernel'
        · have hcount : 0 < (c.heap.allocator k).objectCount := by
            rw [hI.objectCount_eq, h.heap.layout k]
            exact k.objectCount_pos_iff.mpr hne
          have hserved := (hI.allocate_ok_iff (m := m) (hfresh.of_class k)).mpr hcount
          exact h.heap.ne_zero hk hfresh hserved halloc
  · rw [Heap.allocIn_of_some hk hsome (.error .outOfMemory)]
    obtain ⟨ptr, heap, halloc, hsound, -⟩ := h.heap.alloc (m := m) freshPage_error hk
    have hset := h.heap.pages_of_some hk hsome halloc
    have howned : c.kernel.owned ∪ heap.pages = c.kernel.owned := by
      rw [hset]
      exact Set.union_eq_self_of_subset_right h.held
    rw [halloc]
    refine ⟨⟨⟨pm, next, ?_⟩, hsound, Set.subset_union_right⟩, fun _ => ?_⟩
    · dsimp only
      rw [howned]
      exact hkernel
    · exact h.heap.ne_zero hk freshPage_error ⟨q, _, by rw [allocate, hsome]⟩ halloc

/-- The pages of some slabs. -/
def slabPages (slabs : List Slab) : Set ℕ := {j | j * BASIC_PAGE_SIZE ∈ slabs.map Slab.buffer}

theorem slabPages_nil : slabPages [] = ∅ :=
  Set.eq_empty_of_forall_notMem fun _ => List.not_mem_nil

theorem slabPages_cons {s : Slab} {slabs : List Slab} (hs : s.buffer % BASIC_PAGE_SIZE = 0) :
    slabPages (s :: slabs) = insert (s.buffer / BASIC_PAGE_SIZE) (slabPages slabs) := by
  ext j
  rw [slabPages, Set.mem_ofPred_eq, List.map_cons, List.mem_cons, Set.mem_insert_iff,
    BuddyAllocator.mul_eq_iff_page hs]
  rfl

/-- The loop of `reap` gives back the pages of the unused slabs in front. -/
theorem KernelInv.reapGoIn {c : KernelState} {pm : ℕ → Option PhysAddr} {next : ℕ}
    (h : KernelInv T A boot c pm next) (hA : ∀ p ∈ A, p < T) {slabs : List Slab}
    (hpage : ∀ s ∈ slabs, s.buffer % BASIC_PAGE_SIZE = 0)
    (hnodup : (slabs.map Slab.buffer).Nodup) (hown : slabPages slabs ⊆ c.owned) :
    Yields (· = .poolEmpty) (fun x =>
      x.1 = ((slabs.takeWhile Slab.isEmpty).length, slabs.dropWhile Slab.isEmpty) ∧
      ∃ pm next, KernelInv T A boot
        ⟨x.2, c.owned \ slabPages (slabs.takeWhile Slab.isEmpty), c.devices⟩ pm next)
      (InternalSlabAllocator.reapGoIn m 1 c.manager slabs) := by
  induction slabs generalizing c pm next with
  | nil =>
      refine ⟨rfl, pm, next, ?_⟩
      rw [List.takeWhile_nil, slabPages_nil, Set.sdiff_empty]
      exact h
  | cons s slabs ih =>
      have hs := hpage s List.mem_cons_self
      have hrest := fun t ht => hpage t (List.mem_cons_of_mem s ht)
      rw [InternalSlabAllocator.reapGoIn]
      by_cases hempty : s.isEmpty = true
      · rw [if_pos hempty, if_neg fun hbad => hbad.2 hs, List.takeWhile_cons_of_pos hempty,
          List.dropWhile_cons_of_pos hempty, slabPages_cons hs]
        rw [slabPages_cons hs] at hown
        obtain ⟨hfirst, hown⟩ := Set.insert_subset_iff.mp hown
        rw [List.map_cons, List.nodup_cons] at hnodup
        have hfree := h.freePages (m := m) hA hfirst
        rw [Nat.div_mul_cancel (Nat.dvd_of_mod_eq_zero hs)] at hfree
        refine hfree.bind ?_
        rintro ⟨res, s'⟩ ⟨rfl, ⟨pm', next', h'⟩, -⟩
        -- The pages still to come are other ones.
        have hown' : slabPages slabs ⊆ c.owned \ {s.buffer / BASIC_PAGE_SIZE} := by
          refine fun j hj => ⟨hown hj, ?_⟩
          rintro rfl
          rw [slabPages, Set.mem_ofPred_eq, Nat.div_mul_cancel (Nat.dvd_of_mod_eq_zero hs)] at hj
          exact hnodup.1 hj
        refine (ih h' hrest hnodup.2 hown').bind ?_
        rintro ⟨⟨n, slabs'⟩, s''⟩ ⟨heq, pm'', next'', h''⟩
        obtain ⟨rfl, rfl⟩ := Prod.mk.inj heq
        refine ⟨rfl, pm'', next'', ?_⟩
        rw [Set.sdiff_sdiff, Set.singleton_union] at h''
        exact h''
      · rw [if_neg hempty, List.takeWhile_cons_of_neg hempty, List.dropWhile_cons_of_neg hempty]
        refine ⟨rfl, pm, next, ?_⟩
        rw [slabPages_nil, Set.sdiff_empty]
        exact h

/-- An allocator without the unused slabs in front. -/
def InternalSlabAllocator.reaped (al : InternalSlabAllocator) : InternalSlabAllocator :=
  { al with slabs := al.slabs.dropWhile Slab.isEmpty }

theorem HeapSound.set_reaped {d : HeapClient} (h : HeapSound d) (k : SizeClass) :
    HeapSound ⟨d.heap.set k (d.heap.allocator k).reaped, d.live⟩ := by
  obtain ⟨dropped, al, hrun, hI, hlay, hsplit, -, hlive⟩ :=
    reap_spec (m := .checked) (h.inv k) fun (_ _ : ℕ) => rfl
  have hal : al = (d.heap.allocator k).reaped := by
    rw [reap, reapGo_eq (fun s hs => ((h.inv k).slabs s hs).1.page) fun _ _ => rfl, ok_bind] at hrun
    exact (Prod.mk.inj (Except.ok.inj hrun)).2.symm
  rw [← hal]
  refine h.set_same hI (hlay.trans (h.layout k)) (fun p hp => Or.inl ?_) hlive
  rw [buffers, hsplit, List.map_append]
  exact List.mem_append_right _ hp

/-- The pages that are given up are those of the slabs that are dropped. -/
theorem HeapSound.pages_sdiff_reaped {d : HeapClient} (h : HeapSound d) (k : SizeClass) :
    d.heap.pages \ (d.heap.set k (d.heap.allocator k).reaped).pages =
      slabPages ((d.heap.allocator k).slabs.takeWhile Slab.isEmpty) := by
  have hsplit : (d.heap.allocator k).buffers =
      ((d.heap.allocator k).slabs.takeWhile Slab.isEmpty).map Slab.buffer ++
        (d.heap.allocator k).reaped.buffers := by
    rw [buffers, reaped, buffers, ← List.map_append, List.takeWhile_append_dropWhile]
  have hnodup := (h.inv k).distinct
  rw [hsplit, List.nodup_append] at hnodup
  ext j
  rw [Set.mem_sdiff, Heap.mem_pages_iff k, Heap.mem_pages_set, not_or, slabPages,
    Set.mem_ofPred_eq]
  constructor
  · rintro ⟨hmem | hother, hnot, hnone⟩
    · rw [hsplit, List.mem_append] at hmem
      exact hmem.resolve_right hnot
    · exact absurd hother hnone
  · intro hmem
    have hk : j * BASIC_PAGE_SIZE ∈ (d.heap.allocator k).buffers := by
      rw [hsplit]
      exact List.mem_append_left _ hmem
    refine ⟨Or.inl hk, fun hrest => hnodup.2.2 _ hmem _ hrest rfl, ?_⟩
    rintro ⟨i, hik, hi⟩
    exact hik (h.pages i k _ hi hk)

theorem Heap.pages_set_reaped_subset (heap : Heap) (k : SizeClass) :
    (heap.set k (heap.allocator k).reaped).pages ⊆ heap.pages := by
  intro j hj
  rw [Heap.mem_pages_set] at hj
  refine (Heap.mem_pages_iff k).mpr (hj.imp_left fun hmem => ?_)
  obtain ⟨s, hs, heq⟩ := List.mem_map.mp hmem
  exact List.mem_map.mpr ⟨s, (List.dropWhile_sublist _).subset hs, heq⟩

/-- Reaping one allocator. -/
theorem SystemInv.reapOne (h : SystemInv T A boot c) (hA : ∀ p ∈ A, p < T) (k : SizeClass) :
    Yields (· = .poolEmpty) (fun x => x.1.2 = (c.heap.allocator k).reaped ∧
      SystemInv T A boot ⟨⟨x.2, c.kernel.owned \
        (c.heap.pages \ (c.heap.set k (c.heap.allocator k).reaped).pages), c.kernel.devices⟩,
        c.heap.set k (c.heap.allocator k).reaped, c.live⟩)
      ((c.heap.allocator k).reapIn m c.kernel.manager) := by
  obtain ⟨pm, next, hkernel⟩ := h.kernel
  have hI := h.heap.inv k
  have hown : slabPages (c.heap.allocator k).slabs ⊆ c.kernel.owned := fun j hj =>
    h.held (Heap.mem_pages.mpr ⟨k, hj⟩)
  have hgo := hkernel.reapGoIn (m := m) hA (fun s hs => (hI.slabs s hs).1.page) hI.distinct hown
  rw [← hI.pageCount_eq] at hgo
  rw [InternalSlabAllocator.reapIn]
  refine hgo.bind ?_
  rintro ⟨⟨n, slabs⟩, s⟩ ⟨heq, pm', next', h'⟩
  obtain ⟨rfl, rfl⟩ := Prod.mk.inj heq
  rw [← h.heap.pages_sdiff_reaped k] at h'
  refine ⟨rfl, ⟨pm', next', h'⟩, h.heap.set_reaped k, fun j hj => ⟨h.held ?_, fun hgone => ?_⟩⟩
  · exact c.heap.pages_set_reaped_subset k hj
  · exact hgone.2 hj

/-- Reaping some allocators in turn. -/
theorem SystemInv.reapAll (h : SystemInv T A boot c) (hA : ∀ p ∈ A, p < T) (ks : List SizeClass) :
    Yields (· = .poolEmpty) (fun x => x.1.2.pages ⊆ c.heap.pages ∧
      SystemInv T A boot ⟨⟨x.2, c.kernel.owned \ (c.heap.pages \ x.1.2.pages), c.kernel.devices⟩,
        x.1.2, c.live⟩)
      (c.heap.reapAllIn m c.kernel.manager ks) := by
  induction ks generalizing c with
  | nil =>
      refine ⟨subset_rfl, ?_⟩
      rw [Set.sdiff_self, Set.sdiff_empty]
      exact h
  | cons k ks ih =>
      rw [Heap.reapAllIn]
      refine (h.reapOne hA k).bind ?_
      rintro ⟨⟨n, al⟩, s⟩ ⟨rfl, h'⟩
      refine (ih h').bind ?_
      rintro ⟨⟨total, heap⟩, s'⟩ ⟨hsub, h''⟩
      have hsub' := c.heap.pages_set_reaped_subset k
      refine ⟨hsub.trans hsub', ?_⟩
      rw [Set.sdiff_sdiff, Set.sdiff_union_sdiff_cancel hsub' hsub] at h''
      exact h''

/-- Giving an object back takes no page from the heap. -/
theorem HeapSound.pages_of_dealloc {d : HeapClient} {heap : Heap} (h : HeapSound d)
    (hlive : (ptr, layout) ∈ d.live) (hrun : d.heap.dealloc ptr layout = .ok heap) :
    heap.pages = d.heap.pages := by
  obtain ⟨k, hk⟩ := h.accepted _ hlive
  have hmem := h.mem_live hlive hk
  have hne : ptr ≠ 0 := ne_zero_of_slot (h.inv k) (mem_slots_of_live hmem)
  obtain ⟨al, hfree, -, -, hbuf, -⟩ := free_live (h.inv k) hmem
  rw [Heap.dealloc, hk, ok_bind, if_neg hne, hfree] at hrun
  rw [← Except.ok.inj hrun]
  exact Heap.pages_set_same hbuf

/-- A page that the kernel owns stays so in every call that is not about it. -/
theorem KernelStep.sdiff_subset {c c' : KernelState} {S : Set ℕ} (h : KernelStep m c S c') :
    c.owned \ S ⊆ c'.owned := by
  cases h with
  | allocate hf hroom hrun => exact fun j hj => Or.inl hj.1
  | free hk hrun => exact subset_rfl
  | map hf hroom hphys hlt hrun => exact fun j hj => hj.1
  | unmap hk hrun => exact fun j hj => hj.1

/-- **One call.** -/
theorem SystemInv.step (h : SystemInv T A boot c) (hT : T * BASIC_PAGE_SIZE ≤ 2 ^ 52)
    (hA : ∀ p ∈ A, p < T) (hstep : SystemStep m c c') : SystemInv T A boot c' := by
  cases hstep with
  | kernel hk hapart =>
      obtain ⟨pm, next, hkernel⟩ := h.kernel
      exact ⟨(hk.kept hT hA hkernel).1, h.heap, fun j hj =>
        hk.sdiff_subset ⟨h.held hj, Set.disjoint_right.mp hapart hj⟩⟩
  | @alloc layout ptr heap s hroom hrun =>
      cases hk : Heap.layoutToAllocator layout with
      | error e =>
          rw [Heap.allocIn, hk, error_bind] at hrun
          cases hrun
      | ok k => exact ((h.alloc hT hroom hk).post hrun).1
  | dealloc hlive hrun =>
      obtain ⟨heap', hrun', hsound⟩ := h.heap.dealloc hlive
      obtain rfl := Except.ok.inj (hrun'.symm.trans hrun)
      refine ⟨h.kernel, hsound, ?_⟩
      rw [h.heap.pages_of_dealloc hlive hrun]
      exact h.held
  | reap hrun => exact ((h.reapAll hA _).post hrun).2

/-- **Every run.** -/
theorem SystemRun.inv (hrun : SystemRun m c c') (hT : T * BASIC_PAGE_SIZE ≤ 2 ^ 52)
    (hA : ∀ p ∈ A, p < T) (h : SystemInv T A boot c) : SystemInv T A boot c' := by
  induction hrun with
  | refl => exact h
  | tail _ hstep ih => exact ih.step hT hA hstep

/-! ## Safety -/

/-- What holds of the heap, as the processor sees it.  Every byte of an object in use is mapped to a
byte of usable memory that is no other's: no other object's, no other page's, no table's, and the
PMM does not have it.  What is asked for in a layout that is served is handed out, unless there is
no memory, and what is given back is taken. -/
structure HeapSafe (m : Overflow) (memMap : List Entry) (entry : Entry) (c : SystemState) :
    Prop where
  mapped : ∀ x ∈ c.live, ∀ off < x.2.size, ∃ p : ℕ,
    pageWalk c.kernel.manager.world.mem c.kernel.manager.pml (x.1 + off) = some p ∧
      p / BASIC_PAGE_SIZE ∈ usablePages memMap \ reserved memMap entry ∧
      p / BASIC_PAGE_SIZE ∉ c.kernel.manager.world.pmm.freePages ∧
      p / BASIC_PAGE_SIZE * BASIC_PAGE_SIZE ∉
        PageTable.tables c.kernel.manager.world.mem c.kernel.manager.pml
  disjoint : ∀ x ∈ c.live, ∀ y ∈ c.live, ∀ off < x.2.size, ∀ off' < y.2.size,
    pageWalk c.kernel.manager.world.mem c.kernel.manager.pml (x.1 + off) =
      pageWalk c.kernel.manager.world.mem c.kernel.manager.pml (y.1 + off') → x = y ∧ off = off'
  apart : ∀ x ∈ c.live, ∀ off < x.2.size, ∀ k ∈ c.kernel.owned, k ∉ c.heap.pages →
    ∀ off' < BASIC_PAGE_SIZE,
      pageWalk c.kernel.manager.world.mem c.kernel.manager.pml (x.1 + off) ≠
        pageWalk c.kernel.manager.world.mem c.kernel.manager.pml (k * BASIC_PAGE_SIZE + off')
  alloc : ∀ layout : Layout, layout.padToAlign.size ≤ 2048 → layout.align ≤ 2048 →
    c.kernel.manager.vaa.hander.next + 1 ≤ LOW_PAGES →
    Yields (Exhausted m) (fun x => x.1.1 ≠ 0) (c.heap.allocIn m c.kernel.manager layout)
  dealloc : ∀ ptr layout, (ptr, layout) ∈ c.live → ∃ heap, c.heap.dealloc ptr layout = .ok heap
  reap : Yields (· = .poolEmpty) (fun x => x.1.2.pages ⊆ c.heap.pages)
    (c.heap.reapIn m c.kernel.manager)

theorem page_add_div {a x : ℕ} (ha : a % 4096 = 0) (hx : x < 4096) :
    (a + x) / 4096 = a / 4096 := by
  omega

theorem Heap.exists_layoutToAllocator {layout : Layout} (hsize : layout.padToAlign.size ≤ 2048)
    (halign : layout.align ≤ 2048) : ∃ k, layoutToAllocator layout = .ok k ∧ k ≠ .slab4096 := by
  obtain ⟨k, hk⟩ : ∃ k, layoutToAllocator layout = .ok k := by
    unfold layoutToAllocator
    dsimp only
    split
    · exact ⟨_, rfl⟩
    · rename_i hnone
      exact absurd (decide_eq_true (And.intro hsize halign))
        (List.find?_eq_none.mp hnone .slab2048 (by decide))
  exact ⟨k, hk, (ne_slab4096_iff hk).mpr ⟨hsize, halign⟩⟩

variable {framebuffer : Bool} {hhdm : ℕ} {kernelVirt : VirtAddr} {kernelPhys : PhysAddr}
  {memMap : List Entry} {entry : Entry} {nodes : VirtAddr → PhysAddr}
  {words : PhysAddr → ℕ → Word}

theorem SystemInv.safe (h : SystemInv T A boot c) (hT : T * BASIC_PAGE_SIZE ≤ 2 ^ 52)
    (hA : ∀ p ∈ A, p < T)
    (hsafe : MemorySafe framebuffer hhdm kernelVirt kernelPhys memMap entry c.kernel) :
    HeapSafe m memMap entry c := by
  have howned : ∀ x ∈ c.live, ∀ off < x.2.size, (x.1 + off) / BASIC_PAGE_SIZE ∈ c.kernel.owned :=
    fun x hx off hoff => h.held (h.heap.live_page hx hoff)
  refine ⟨fun x hx off hoff => ?_, fun x hx y hy off hoff off' hoff' heq => ?_,
    fun x hx off hoff k hk hnot off' hoff' heq => ?_, fun layout hsize halign hroom => ?_,
    fun ptr layout hlive => ?_, (h.reapAll hA _).imp fun x hx => hx.1⟩
  · obtain ⟨f, hmod, husable, hfree, htable, hwalk⟩ := hsafe.owned _ (howned x hx off hoff)
    have hwalk := hwalk _ (Nat.mod_lt (x.1 + off) basicPageSize_pos)
    rw [Nat.div_add_mod'] at hwalk
    have hdiv : (f + (x.1 + off) % BASIC_PAGE_SIZE) / BASIC_PAGE_SIZE = f / BASIC_PAGE_SIZE :=
      page_add_div hmod (Nat.mod_lt _ basicPageSize_pos)
    refine ⟨_, hwalk, ?_⟩
    rw [hdiv, BuddyAllocator.page_mul hmod]
    exact ⟨husable, hfree, htable⟩
  · have hsum := hsafe.exclusive _ _ (howned x hx off hoff) (howned y hy off' hoff') heq
    have hstart : x.1 = y.1 := by
      by_contra hne
      have hapart : x.1 + x.2.size ≤ y.1 ∨ y.1 + y.2.size ≤ x.1 := h.heap.live_disjoint hx hy hne
      omega
    exact ⟨List.inj_on_of_nodup_map h.heap.nodup hx hy hstart, by omega⟩
  · have hdiv : (k * BASIC_PAGE_SIZE + off') / BASIC_PAGE_SIZE = k := by
      rw [Nat.mul_comm, Nat.mul_add_div basicPageSize_pos, Nat.div_eq_of_lt hoff', Nat.add_zero]
    have hsum := hsafe.exclusive _ _ (howned x hx off hoff) (hdiv.symm ▸ hk) heq
    have hpage := h.heap.live_page hx hoff
    rw [hsum, hdiv] at hpage
    exact hnot hpage
  · obtain ⟨k, hk, hne⟩ := Heap.exists_layoutToAllocator hsize halign
    exact (h.alloc hT hroom hk).imp fun x hx => hx.2 hne
  · obtain ⟨heap, hrun, -⟩ := h.heap.dealloc hlive
    exact ⟨heap, hrun⟩

end

end Funderberker

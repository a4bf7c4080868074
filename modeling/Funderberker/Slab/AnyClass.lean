import Funderberker.Slab.Heap
import Funderberker.Slab.Laid
import Mathlib.Data.List.TakeWhile

/-!
# What the heap promises, and for which size classes

Two promises that one size class of the eight does not keep.  A slab of the largest class
has no object, as the slab's node takes up some of the page, so a request that goes there
gets null.  And reaping leaves the smallest class out, so its pages stay with the heap.

## Main definitions

* `Heap.slabCount` — the slabs of all classes.
* `Heap.ReapsWhole` — reaping releases all of them.

## Main results

* `heap_alloc_iff`, `heap_reap_iff` — when these hold.
-/

namespace Funderberker

open Panicking InternalSlabAllocator

variable {m : Overflow} {layout : Layout} {p ptr : ℕ} {c : HeapClient} {k : SizeClass}
  {heap : Heap} {al : InternalSlabAllocator}

/-! ## Layouts that are served -/

namespace SizeClass

/-- Only a slab of the largest class is without objects. -/
theorem objectCount_pos_iff (k : SizeClass) :
    0 < calculateObjectCount slabNode k.layout 1 ↔ k ≠ slab4096 := by
  cases k <;> decide

theorem bytes_le (h : k ≠ slab4096) : k.bytes ≤ 2048 := by
  cases k with
  | slab4096 => exact absurd rfl h
  | _ => decide

end SizeClass

namespace Heap

/-- A request goes to the largest class when no other fits. -/
theorem ne_slab4096_iff (hk : layoutToAllocator layout = .ok k) :
    k ≠ .slab4096 ↔ layout.padToAlign.size ≤ 2048 ∧ layout.align ≤ 2048 := by
  have hfind := find?_of_layoutToAllocator hk
  constructor
  · intro hne
    have hp := List.find?_some hfind
    have hp := of_decide_eq_true hp
    have hle := SizeClass.bytes_le hne
    exact ⟨hp.1.trans hle, hp.2.trans hle⟩
  · rintro hfits rfl
    let others : List SizeClass :=
      [.slab32, .slab64, .slab128, .slab256, .slab512, .slab1024, .slab2048]
    have hall : SizeClass.all = others ++ [.slab4096] := rfl
    rw [hall, List.find?_append] at hfind
    cases hfirst : others.find? fun c =>
        decide (layout.padToAlign.size ≤ c.bytes ∧ layout.padToAlign.align ≤ c.bytes) with
    | none => exact List.find?_eq_none.mp hfirst .slab2048 (by decide) (decide_eq_true hfits)
    | some j =>
        rw [hfirst, Option.some_or] at hfind
        rw [Option.some.inj hfind] at hfirst
        exact absurd (List.mem_of_find?_eq_some hfirst) (by decide)

end Heap

/-- **Which layouts the heap serves.**  With a page at hand, a layout that some class is
chosen for gets an object, after any run, exactly when its padded size and its alignment
are 2048 at most. -/
theorem heap_alloc_iff (h : HeapReachable m c) (hp : FreshPage c.heap.buffers (.ok p))
    (hk : Heap.layoutToAllocator layout = .ok k) :
    (∃ ptr heap, c.heap.alloc m (.ok p) layout = .ok (ptr, heap) ∧ ptr ≠ 0) ↔
      layout.padToAlign.size ≤ 2048 ∧ layout.align ≤ 2048 := by
  have hsound := h.sound
  have hI := hsound.inv k
  have hp' := hp.of_class k
  obtain ⟨r, al, hrun, hal⟩ := allocate_spec (m := m) hI hp'
  have hserved := hI.allocate_ok_iff (m := m) hp'
  rw [hI.objectCount_eq, hsound.layout k, k.objectCount_pos_iff, Heap.ne_slab4096_iff hk] at hserved
  rw [← hserved, hrun]
  cases r with
  | ok ptr =>
      have hne := ne_zero_of_slot hal.inv (hal.of_ok ptr rfl).1
      exact iff_of_true ⟨ptr, _, Heap.alloc_of_ok hk hrun, hne⟩ ⟨ptr, al, rfl⟩
  | error e =>
      refine iff_of_false ?_ ?_
      · rintro ⟨ptr, heap, heq, hne⟩
        rw [Heap.alloc_of_error hk hrun] at heq
        exact hne (Prod.mk.inj (Except.ok.inj heq)).1.symm
      · rintro ⟨ptr, al', heq⟩
        cases heq

theorem smallHeap_serves : ∃ ptr heap,
    smallHeap.heap.alloc .checked (.ok 0x2000) ⟨1500, 8, isPowerOfTwo_eight⟩ = .ok (ptr, heap) ∧
      ptr ≠ 0 := by
  have hfresh : FreshPage smallHeap.heap.buffers (.ok 0x2000) := by decide
  have hk : Heap.layoutToAllocator ⟨1500, 8, isPowerOfTwo_eight⟩ = .ok .slab2048 := rfl
  exact (heap_alloc_iff smallHeap_reachable hfresh hk).mpr (by decide)

/-- **A layout that is accepted and gets null**: one of a whole page. -/
theorem page_sized_refused :
    Heap.layoutToAllocator ⟨4096, 4096, by decide⟩ = .ok .slab4096 ∧
      FreshPage Heap.new.buffers (.ok 0x1000) ∧
      ∃ heap, Heap.new.alloc .checked (.ok 0x1000) ⟨4096, 4096, by decide⟩ = .ok (0, heap) :=
  ⟨rfl, by decide, _, Heap.alloc_of_error (k := .slab4096) rfl rfl⟩

/-! ## Reaping -/

namespace Heap

/-- Reaping some classes drops the unused slabs in front of each of them. -/
theorem reapAll_eq {freePages : ℕ → ℕ → Except PagingError Unit} (heap : Heap)
    (ks : List SizeClass) (hnodup : ks.Nodup) (hlaid : ∀ k ∈ ks, (heap.allocator k).Laid)
    (hfree : ∀ k ∈ ks, ∀ p ∈ (heap.allocator k).buffers, freePages p 1 = .ok ()) :
    ∃ heap', heap.reapAll m freePages ks =
        .ok ((ks.map fun k => ((heap.allocator k).slabs.takeWhile Slab.isEmpty).length).sum,
          heap') ∧
      ∀ k, (heap'.allocator k).slabs =
        if k ∈ ks then (heap.allocator k).slabs.dropWhile Slab.isEmpty
        else (heap.allocator k).slabs := by
  induction ks generalizing heap with
  | nil => exact ⟨heap, rfl, fun k => by simp⟩
  | cons k ks ih =>
      obtain ⟨hnotin, hnodup⟩ := List.nodup_cons.mp hnodup
      have hk := hlaid k List.mem_cons_self
      have hown : ∀ p ∈ (heap.allocator k).buffers,
          freePages p (heap.allocator k).pageCount = .ok () := by
        rw [hk.pageCount_eq]
        exact hfree k List.mem_cons_self
      -- The classes still to come are as they were.
      have hsame : ∀ al, ∀ j ∈ ks, (heap.set k al).allocator j = heap.allocator j :=
        fun al j hj => allocator_set_of_ne fun heq => hnotin (heq ▸ hj)
      obtain ⟨heap', hrest, hslabs⟩ := ih (heap.set k
          { heap.allocator k with slabs := (heap.allocator k).slabs.dropWhile Slab.isEmpty }) hnodup
        (fun j hj => by
          rw [hsame _ j hj]
          exact hlaid j (List.mem_cons_of_mem k hj))
        (fun j hj => by
          rw [hsame _ j hj]
          exact hfree j (List.mem_cons_of_mem k hj))
      refine ⟨heap', ?_, fun j => ?_⟩
      · rw [reapAll, hk.reap hown, ok_bind]
        simp only [hrest, ok_bind, List.map_cons, List.sum_cons]
        rw [List.map_congr_left fun j hj => by rw [hsame _ j hj]]
      · rw [hslabs j]
        by_cases hjk : j = k
        · subst hjk
          simp [hnotin, allocator_set_self]
        · simp [hjk, allocator_set_of_ne hjk]

/-- The slabs of all classes. -/
def slabCount (heap : Heap) : ℕ := (SizeClass.all.map fun k => (heap.allocator k).slabs.length).sum

/-- Reaping releases every slab, and the heap holds no page afterwards. -/
def ReapsWhole (m : Overflow) (freePages : ℕ → ℕ → Except PagingError Unit) (heap : Heap) : Prop :=
  ∃ heap', heap.reap m freePages = .ok (heap.slabCount, heap') ∧ heap'.buffers = []

theorem buffers_eq_nil_iff : heap.buffers = [] ↔ ∀ k, (heap.allocator k).slabs = [] := by
  rw [List.eq_nil_iff_forall_not_mem]
  simp only [mem_buffers, not_exists]
  constructor
  · intro hnone k
    exact List.map_eq_nil_iff.mp (List.eq_nil_iff_forall_not_mem.mpr fun p => hnone p k)
  · intro hnil p k hp
    rw [InternalSlabAllocator.buffers, hnil k] at hp
    cases hp

/-- Reaping when all slabs are unused. -/
theorem reapsWhole_iff {freePages : ℕ → ℕ → Except PagingError Unit}
    (hlaid : ∀ k, (heap.allocator k).Laid) (hfree : ∀ p ∈ heap.buffers, freePages p 1 = .ok ())
    (hunused : ∀ k, ∀ s ∈ (heap.allocator k).slabs, s.isEmpty) :
    heap.ReapsWhole m freePages ↔ (heap.allocator .slab32).slabs = [] := by
  obtain ⟨heap', hrun, hslabs⟩ := reapAll_eq (m := m) heap
    [.slab64, .slab128, .slab256, .slab512, .slab1024, .slab2048, .slab4096]
    (by decide) (fun k _ => hlaid k) fun k _ p hp => hfree p (mem_buffers.mpr ⟨k, hp⟩)
  have htake : ∀ k, (heap.allocator k).slabs.takeWhile Slab.isEmpty = (heap.allocator k).slabs :=
    fun k => List.takeWhile_eq_self_iff.mpr (hunused k)
  have hdrop : ∀ k, (heap.allocator k).slabs.dropWhile Slab.isEmpty = [] :=
    fun k => List.dropWhile_eq_nil_iff.mpr (hunused k)
  simp only [htake] at hrun
  simp only [hdrop] at hslabs
  constructor
  · rintro ⟨heap'', hrun', hnil⟩
    obtain ⟨-, rfl⟩ := Prod.mk.inj (Except.ok.inj (hrun.symm.trans hrun'))
    rw [← buffers_eq_nil_iff.mp hnil .slab32, hslabs .slab32, if_neg (by decide)]
  · intro hsmall
    refine ⟨heap', ?_, buffers_eq_nil_iff.mpr fun k => ?_⟩
    · have hcount : heap.slabCount = ([.slab64, .slab128, .slab256, .slab512, .slab1024, .slab2048,
          .slab4096].map fun k => (heap.allocator k).slabs.length).sum := by
        simp [slabCount, SizeClass.all, hsmall]
      rw [hcount]
      exact hrun
    · rw [hslabs k]
      split
      · rfl
      · cases k with
        | slab32 => exact hsmall
        | _ => contradiction

end Heap

/-- Without live allocations every slab is unused. -/
theorem HeapSound.isEmpty (h : HeapSound c) (hlive : c.live = []) {s : Slab}
    (hs : s ∈ (c.heap.allocator k).slabs) : s.isEmpty := by
  have hI := h.inv k
  refine (hI.slabs s hs).1.isEmpty_of_live hI.size_pos (Set.eq_empty_iff_forall_notMem.mpr ?_)
  intro a ha
  obtain ⟨l, hl, -⟩ := (h.live_iff k a).mp ⟨s, hs, ha⟩
  rw [hlive] at hl
  cases hl

/-- **When reaping covers the whole heap.**  With every allocation given back it does, after
any run, exactly when the allocator of the smallest objects has no slab. -/
theorem heap_reap_iff (h : HeapReachable m c) (hlive : c.live = [])
    {freePages : ℕ → ℕ → Except PagingError Unit}
    (hfree : ∀ p ∈ c.heap.buffers, freePages p 1 = .ok ()) :
    c.heap.ReapsWhole m freePages ↔ (c.heap.allocator .slab32).slabs = [] :=
  Heap.reapsWhole_iff (fun k => (h.sound.inv k).laid) hfree fun _ _ hs => h.sound.isEmpty hlive hs

/-- The heap after one object of 1500 bytes was allocated and given back. -/
def unusedHeap : HeapClient :=
  ⟨smallHeap.heap.set .slab2048 ⟨[⟨0x1000, [0x1000], 0, 1⟩], 1, 1, SizeClass.slab2048.layout⟩, []⟩

theorem unusedHeap_reachable : HeapReachable .checked unusedHeap := by
  have hrun : smallHeap.heap.dealloc 0x1000 ⟨1500, 8, isPowerOfTwo_eight⟩ = .ok unusedHeap.heap :=
    rfl
  have hstep := HeapStep.dealloc (m := .checked) List.mem_cons_self hrun
  exact .tail smallHeap_reachable hstep

theorem unusedHeap_reapsWhole : unusedHeap.heap.ReapsWhole .checked fun _ _ => .ok () :=
  (heap_reap_iff unusedHeap_reachable rfl fun _ _ => rfl).mpr (by decide)

/-- The allocator of the smallest objects with one slab, and how many objects of it are in
use. -/
def smallestWith (inUse : ℕ) : InternalSlabAllocator :=
  { InternalSlabAllocator.new SizeClass.slab32.layout with
    slabs := [⟨0x1000, ((List.range (126 - inUse)).map fun i => 0x1000 + i * 32).reverse, inUse,
      126⟩] }

/-- The heap after one object of 8 bytes was allocated and given back. -/
def forgottenHeap : HeapClient :=
  ⟨(Heap.new.set .slab32 (smallestWith 1)).set .slab32 (smallestWith 0), []⟩

theorem forgottenHeap_reachable : HeapReachable .checked forgottenHeap := by
  have hk : Heap.layoutToAllocator ⟨8, 8, isPowerOfTwo_eight⟩ = .ok .slab32 := rfl
  have hfresh : FreshPage Heap.new.buffers (.ok 0x1000) := by decide
  have halloc : (Heap.new.allocator .slab32).allocate .checked (.ok 0x1000) =
      .ok (.ok 0x1fa0, smallestWith 1) := by decide +kernel
  have hfree : (smallestWith 1).free 0x1fa0 = (.ok (), smallestWith 0) := by decide +kernel
  have hstep := HeapStep.alloc (c := ⟨.new, []⟩) hfresh (Heap.alloc_of_ok hk halloc)
  have hback : (Heap.new.set .slab32 (smallestWith 1)).dealloc 0x1fa0 ⟨8, 8, isPowerOfTwo_eight⟩ =
      .ok forgottenHeap.heap := by
    rw [Heap.dealloc, hk, ok_bind, if_neg (by decide), Heap.allocator_set_self, hfree]
    rfl
  have hstep' := HeapStep.dealloc (m := .checked)
    (c := ⟨_, [(0x1fa0, ⟨8, 8, isPowerOfTwo_eight⟩)]⟩) List.mem_cons_self hback
  exact .tail (.tail .refl hstep) hstep'

/-- **A page that is never released**: that of an 8-byte object. -/
theorem smallest_class_left_out :
    HeapReachable .checked forgottenHeap ∧ forgottenHeap.live = [] ∧
      forgottenHeap.heap.slabCount = 1 ∧
      ∃ heap, forgottenHeap.heap.reap .checked (fun _ _ => .ok ()) = .ok (0, heap) ∧
        heap.buffers = [0x1000] :=
  ⟨forgottenHeap_reachable, rfl, rfl, _, rfl, rfl⟩

end Funderberker

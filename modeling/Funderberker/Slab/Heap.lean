import Funderberker.Slab.Run

/-!
# The kernel heap

The heap has a slab allocator for each of eight sizes.  A request goes to the smallest
size that its padded size and its alignment both fit, and the object comes back to the
allocator that the same layout selects.

## Main definitions

* `SizeClass`, `Heap` — the eight allocators.
* `Heap.alloc`, `Heap.dealloc`, `Heap.reap` — the operations.
* `HeapClient`, `HeapStep`, `HeapReachable` — runs.
* `HeapSound` — the run invariant.

## Main results

* `heap_contract` — alignment and disjointness of what is handed out, and no panic when
  it is given back.
-/

namespace Funderberker

open Panicking InternalSlabAllocator

/-! ## The code -/

/-- The allocators of the heap. -/
inductive SizeClass
  | slab32 | slab64 | slab128 | slab256 | slab512 | slab1024 | slab2048 | slab4096
  deriving DecidableEq, Repr

namespace SizeClass

/-- The size and alignment of the objects. -/
def bytes : SizeClass → ℕ
  | slab32 => 32
  | slab64 => 64
  | slab128 => 128
  | slab256 => 256
  | slab512 => 512
  | slab1024 => 1024
  | slab2048 => 2048
  | slab4096 => 4096

/-- The allocators, in the order they are tried. -/
def all : List SizeClass :=
  [slab32, slab64, slab128, slab256, slab512, slab1024, slab2048, slab4096]

theorem bytes_pow2 (c : SizeClass) : isPowerOfTwo c.bytes = true := by
  cases c <;> decide

def layout (c : SizeClass) : Layout := ⟨c.bytes, c.bytes, c.bytes_pow2⟩

end SizeClass

/-- `Layout::pad_to_align`: the size rounded up to a multiple of the alignment. -/
def Layout.padToAlign (layout : Layout) : Layout :=
  { layout with size := (layout.size + layout.align - 1) / layout.align * layout.align }

structure Heap where
  allocator : SizeClass → InternalSlabAllocator

namespace Heap

def new : Heap := ⟨fun c => .new c.layout⟩

def set (heap : Heap) (c : SizeClass) (al : InternalSlabAllocator) : Heap :=
  ⟨Function.update heap.allocator c al⟩

/-- The allocator for a layout: the first whose objects are large and aligned enough. -/
def layoutToAllocator (layout : Layout) : Except Panic SizeClass :=
  let layout := layout.padToAlign
  match SizeClass.all.find? fun c => layout.size ≤ c.bytes ∧ layout.align ≤ c.bytes with
  | some c => .ok c
  | none =>
      .error (.explicit
        ("No allocator for size " ++ toString layout.size ++ " and alignment " ++
          toString layout.align))

/-- The pointer to an object for `layout`, or null. -/
def alloc (m : Overflow) (pages : Except PagingError ℕ) (heap : Heap) (layout : Layout) :
    Except Panic (ℕ × Heap) := do
  let c ← layoutToAllocator layout
  match ← (heap.allocator c).allocate m pages with
  | (.ok ptr, al) => .ok (ptr, heap.set c al)
  | (.error _, al) => .ok (0, heap.set c al)

def dealloc (heap : Heap) (ptr : ℕ) (layout : Layout) : Except Panic Heap := do
  let c ← layoutToAllocator layout
  if ptr = 0 then .error (.expect "Tried to deallocate a null pointer")
  else match (heap.allocator c).free ptr with
    | (.ok (), al) => .ok (heap.set c al)
    | (.error _, _) => .error .unwrapErr

/-- Reap the given allocators in turn. -/
def reapAll (m : Overflow) (freePages : ℕ → ℕ → Except PagingError Unit) (heap : Heap) :
    List SizeClass → Except Panic (ℕ × Heap)
  | [] => .ok (0, heap)
  | c :: rest => do
      let (n, al) ← (heap.allocator c).reap m freePages
      let (total, heap') ← reapAll m freePages (heap.set c al) rest
      .ok (n + total, heap')

/-- The allocator of the smallest objects is not reaped. -/
def reap (m : Overflow) (freePages : ℕ → ℕ → Except PagingError Unit) (heap : Heap) :
    Except Panic (ℕ × Heap) :=
  heap.reapAll m freePages
    [.slab64, .slab128, .slab256, .slab512, .slab1024, .slab2048, .slab4096]

/-- The pages held by all allocators. -/
def buffers (heap : Heap) : List ℕ := SizeClass.all.flatMap fun c => (heap.allocator c).buffers

end Heap

/-! ## Runs -/

/-- The heap together with the allocations that were not given back yet. -/
structure HeapClient where
  heap : Heap
  live : List (ℕ × Layout)

/-- One call.  What is given back is live, with the layout it was allocated with. -/
inductive HeapStep (m : Overflow) (c : HeapClient) : HeapClient → Prop
  | alloc {pages : Except PagingError ℕ} (hp : FreshPage c.heap.buffers pages) {layout : Layout}
      {ptr : ℕ} {heap : Heap} (h : c.heap.alloc m pages layout = .ok (ptr, heap)) :
      HeapStep m c ⟨heap, if ptr = 0 then c.live else (ptr, layout) :: c.live⟩
  | dealloc {ptr : ℕ} {layout : Layout} (hlive : (ptr, layout) ∈ c.live) {heap : Heap}
      (h : c.heap.dealloc ptr layout = .ok heap) :
      HeapStep m c ⟨heap, c.live.erase (ptr, layout)⟩
  | reap {freePages : ℕ → ℕ → Except PagingError Unit} (hfree : ∀ p n, freePages p n = .ok ())
      {n : ℕ} {heap : Heap} (h : c.heap.reap m freePages = .ok (n, heap)) :
      HeapStep m c ⟨heap, c.live⟩

/-- The states that a run can reach. -/
def HeapReachable (m : Overflow) : HeapClient → Prop :=
  Relation.ReflTransGen (HeapStep m) ⟨.new, []⟩

/-- The run invariant. -/
structure HeapSound (c : HeapClient) : Prop where
  inv : ∀ k, (c.heap.allocator k).Inv
  layout : ∀ k, (c.heap.allocator k).layout = k.layout
  /-- The live objects of an allocator are the live allocations that select it. -/
  live_iff : ∀ k p, p ∈ (c.heap.allocator k).live ↔
    ∃ l, (p, l) ∈ c.live ∧ Heap.layoutToAllocator l = .ok k
  accepted : ∀ x ∈ c.live, ∃ k, Heap.layoutToAllocator x.2 = .ok k
  nodup : (c.live.map Prod.fst).Nodup
  /-- No page belongs to two allocators. -/
  pages : ∀ k l p, p ∈ (c.heap.allocator k).buffers → p ∈ (c.heap.allocator l).buffers → k = l

variable {m : Overflow} {c c' : HeapClient} {k : SizeClass} {ptr : ℕ} {layout : Layout}
  {al : InternalSlabAllocator} {live : List (ℕ × Layout)} {heap : Heap}

/-! ## Choosing an allocator -/

theorem Layout.padToAlign_size (layout : Layout) :
    layout.padToAlign.size = Rounding.roundUp layout.align layout.size :=
  Nat.mul_comm _ _

theorem Layout.size_le_padToAlign (layout : Layout) : layout.size ≤ layout.padToAlign.size := by
  rw [layout.padToAlign_size]
  exact Rounding.le_roundUp layout.align_pos layout.size

theorem Heap.find?_of_layoutToAllocator (h : layoutToAllocator layout = .ok k) :
    (SizeClass.all.find? fun c =>
      layout.padToAlign.size ≤ c.bytes ∧ layout.padToAlign.align ≤ c.bytes) = some k := by
  unfold layoutToAllocator at h
  simp only at h
  split at h
  · rename_i k' hfind
    rw [← Except.ok.inj h]
    exact hfind
  · cases h

/-- The objects of the chosen allocator are large and aligned enough. -/
theorem Heap.layoutToAllocator_spec (h : layoutToAllocator layout = .ok k) :
    layout.size ≤ k.bytes ∧ layout.align ∣ k.bytes := by
  have hp := List.find?_some (find?_of_layoutToAllocator h)
  have hp := of_decide_eq_true hp
  exact ⟨layout.size_le_padToAlign.trans hp.1,
    dvd_of_pow2_le layout.align_pow2 k.bytes_pow2 hp.2⟩

/-! ## What a step keeps -/

theorem mem_buffers_of_slot (hI : al.Inv) (h : ptr ∈ al.slots) :
    ptr / BASIC_PAGE_SIZE * BASIC_PAGE_SIZE ∈ al.buffers := by
  obtain ⟨s, hs, hslot⟩ := h
  rw [(hI.slabs s hs).1.page_of_slot hslot]
  exact List.mem_map_of_mem hs

theorem ne_zero_of_slot (hI : al.Inv) (h : ptr ∈ al.slots) : ptr ≠ 0 := by
  obtain ⟨s, hs, hslot⟩ := h
  have := ((hI.slabs s hs).1.slot_bounds hslot).1
  have := (hI.slabs s hs).1.nonnull
  omega

theorem Heap.mem_buffers {heap : Heap} {p : ℕ} :
    p ∈ heap.buffers ↔ ∃ k, p ∈ (heap.allocator k).buffers := by
  simp only [buffers, List.mem_flatMap]
  constructor
  · rintro ⟨k, -, hp⟩
    exact ⟨k, hp⟩
  · rintro ⟨k, hp⟩
    exact ⟨k, by cases k <;> simp [SizeClass.all], hp⟩

theorem Heap.allocator_set_self : (heap.set k al).allocator k = al := Function.update_self _ _ _

theorem Heap.allocator_set_of_ne {j : SizeClass} (h : j ≠ k) :
    (heap.set k al).allocator j = heap.allocator j := Function.update_of_ne h _ _

theorem Heap.alloc_of_ok {pages : Except PagingError ℕ} (hk : layoutToAllocator layout = .ok k)
    (h : (heap.allocator k).allocate m pages = .ok (.ok ptr, al)) :
    heap.alloc m pages layout = .ok (ptr, heap.set k al) := by
  rw [alloc, hk, ok_bind, h, ok_bind]

theorem Heap.alloc_of_error {pages : Except PagingError ℕ} {e : SlabError}
    (hk : layoutToAllocator layout = .ok k)
    (h : (heap.allocator k).allocate m pages = .ok (.error e, al)) :
    heap.alloc m pages layout = .ok (0, heap.set k al) := by
  rw [alloc, hk, ok_bind, h, ok_bind]

/-- Exchanging one allocator, together with its live allocations. -/
theorem HeapSound.set (h : HeapSound c) (hI : al.Inv) (hlay : al.layout = k.layout)
    (hbuf : ∀ p ∈ al.buffers, p ∈ (c.heap.allocator k).buffers ∨ p ∉ c.heap.buffers)
    (hk : ∀ p, p ∈ al.live ↔ ∃ l, (p, l) ∈ live ∧ Heap.layoutToAllocator l = .ok k)
    (hother : ∀ j ≠ k, ∀ p, (∃ l, (p, l) ∈ live ∧ Heap.layoutToAllocator l = .ok j) ↔
      ∃ l, (p, l) ∈ c.live ∧ Heap.layoutToAllocator l = .ok j)
    (hacc : ∀ x ∈ live, ∃ j, Heap.layoutToAllocator x.2 = .ok j)
    (hnodup : (live.map Prod.fst).Nodup) : HeapSound ⟨c.heap.set k al, live⟩ := by
  have hat : (c.heap.set k al).allocator k = al := Heap.allocator_set_self
  have hne : ∀ {j}, j ≠ k → (c.heap.set k al).allocator j = c.heap.allocator j := fun hj =>
    Heap.allocator_set_of_ne hj
  refine ⟨?_, ?_, ?_, hacc, hnodup, ?_⟩
  · intro j
    by_cases hj : j = k
    · subst hj
      rw [hat]
      exact hI
    · rw [hne hj]
      exact h.inv j
  · intro j
    by_cases hj : j = k
    · subst hj
      rw [hat]
      exact hlay
    · rw [hne hj]
      exact h.layout j
  · intro j p
    by_cases hj : j = k
    · subst hj
      rw [hat]
      exact hk p
    · rw [hne hj, h.live_iff, hother j hj]
  · -- A page of the new allocator is one it had before, or one that nobody had.
    have hcross : ∀ j ≠ k, ∀ p ∈ al.buffers, p ∉ (c.heap.allocator j).buffers := by
      intro j hj p hp hpj
      rcases hbuf p hp with hold | hnew
      · exact hj (h.pages j k p hpj hold)
      · exact hnew (Heap.mem_buffers.mpr ⟨j, hpj⟩)
    intro i j p hi hj
    by_cases hik : i = k <;> by_cases hjk : j = k
    · rw [hik, hjk]
    · subst hik
      rw [hat] at hi
      rw [hne hjk] at hj
      exact absurd hj (hcross j hjk p hi)
    · subst hjk
      rw [hat] at hj
      rw [hne hik] at hi
      exact absurd hi (hcross i hik p hj)
    · rw [hne hik] at hi
      rw [hne hjk] at hj
      exact h.pages i j p hi hj

/-- The same, when the live allocations stay as they are. -/
theorem HeapSound.set_same (h : HeapSound c) (hI : al.Inv) (hlay : al.layout = k.layout)
    (hbuf : ∀ p ∈ al.buffers, p ∈ (c.heap.allocator k).buffers ∨ p ∉ c.heap.buffers)
    (hlive : al.live = (c.heap.allocator k).live) : HeapSound ⟨c.heap.set k al, c.live⟩ :=
  h.set hI hlay hbuf (fun p => by rw [hlive, h.live_iff]) (fun _ _ _ => Iff.rfl) h.accepted h.nodup

/-- A live allocation is an object of the allocator for its layout. -/
theorem HeapSound.mem_live (h : HeapSound c) (hlive : (ptr, layout) ∈ c.live)
    (hk : Heap.layoutToAllocator layout = .ok k) : ptr ∈ (c.heap.allocator k).live :=
  (h.live_iff k ptr).mpr ⟨layout, hlive, hk⟩

/-- An object that is new to its allocator is new to the heap: its page is this allocator's
alone. -/
theorem HeapSound.notMem_live (h : HeapSound c) (hI : al.Inv)
    (hbuf : ∀ p ∈ al.buffers, p ∈ (c.heap.allocator k).buffers ∨ p ∉ c.heap.buffers)
    (hslot : ptr ∈ al.slots) (hfresh : ptr ∉ (c.heap.allocator k).live) :
    ptr ∉ c.live.map Prod.fst := by
  intro hmem
  obtain ⟨⟨p, l⟩, hx, rfl⟩ := List.mem_map.mp hmem
  obtain ⟨j, hj⟩ := h.accepted _ hx
  have hlive := h.mem_live hx hj
  by_cases hjk : j = k
  · subst hjk
    exact hfresh hlive
  · have hpj := mem_buffers_of_slot (h.inv j) (mem_slots_of_live hlive)
    rcases hbuf _ (mem_buffers_of_slot hI hslot) with hold | hnone
    · exact hjk (h.pages j k _ hpj hold)
    · exact hnone (Heap.mem_buffers.mpr ⟨j, hpj⟩)

/-- Exchanging one allocator for one with one more live object. -/
theorem HeapSound.set_insert (h : HeapSound c) (hI : al.Inv) (hlay : al.layout = k.layout)
    (hbuf : ∀ p ∈ al.buffers, p ∈ (c.heap.allocator k).buffers ∨ p ∉ c.heap.buffers)
    (hk : Heap.layoutToAllocator layout = .ok k)
    (hlive : al.live = insert ptr (c.heap.allocator k).live)
    (hnew : ptr ∉ c.live.map Prod.fst) :
    HeapSound ⟨c.heap.set k al, (ptr, layout) :: c.live⟩ := by
  refine h.set hI hlay hbuf (fun p => ?_) (fun j hj p => ?_) ?_ ?_
  · rw [hlive, Set.mem_insert_iff, h.live_iff]
    constructor
    · rintro (rfl | ⟨l, hl, hlk⟩)
      · exact ⟨layout, List.mem_cons_self, hk⟩
      · exact ⟨l, List.mem_cons_of_mem _ hl, hlk⟩
    · rintro ⟨l, hl, hlk⟩
      rcases List.mem_cons.mp hl with heq | hl
      · exact Or.inl (Prod.mk.inj heq).1
      · exact Or.inr ⟨l, hl, hlk⟩
  · constructor
    · rintro ⟨l, hl, hlj⟩
      rcases List.mem_cons.mp hl with heq | hl
      · rw [(Prod.mk.inj heq).2, hk] at hlj
        exact absurd (Except.ok.inj hlj).symm hj
      · exact ⟨l, hl, hlj⟩
    · rintro ⟨l, hl, hlj⟩
      exact ⟨l, List.mem_cons_of_mem _ hl, hlj⟩
  · exact List.forall_mem_cons.mpr ⟨⟨k, hk⟩, h.accepted⟩
  · rw [List.map_cons, List.nodup_cons]
    exact ⟨hnew, h.nodup⟩

/-- An object is aligned for every layout that its allocator accepts. -/
theorem aligned_of_slot (hI : al.Inv) (hlay : al.layout = k.layout)
    (hk : Heap.layoutToAllocator layout = .ok k) (hslot : ptr ∈ al.slots) :
    ptr % layout.align = 0 := by
  have hal := hI.slot_aligned hslot
  rw [hlay] at hal
  exact Nat.mod_eq_zero_of_dvd
    ((Heap.layoutToAllocator_spec hk).2.trans (Nat.dvd_of_mod_eq_zero hal))

theorem InternalSlabAllocator.FreshPage.of_class {pages : Except PagingError ℕ}
    (h : FreshPage c.heap.buffers pages) (k : SizeClass) : FreshPage (c.heap.allocator k).buffers pages := by
  intro p hp
  obtain ⟨h1, h2, h3⟩ := h p hp
  exact ⟨h1, h2, fun hmem => h3 (Heap.mem_buffers.mpr ⟨k, hmem⟩)⟩

/-- Allocating for a layout that some allocator accepts. -/
theorem HeapSound.alloc {pages : Except PagingError ℕ} (h : HeapSound c)
    (hp : FreshPage c.heap.buffers pages) (hk : Heap.layoutToAllocator layout = .ok k) :
    ∃ ptr heap, c.heap.alloc m pages layout = .ok (ptr, heap) ∧
      HeapSound ⟨heap, if ptr = 0 then c.live else (ptr, layout) :: c.live⟩ ∧
      (ptr ≠ 0 → ptr % layout.align = 0) := by
  obtain ⟨r, al, hrun, hal⟩ := allocate_spec (m := m) (h.inv k) (hp.of_class k)
  have hbuf : ∀ p ∈ al.buffers, p ∈ (c.heap.allocator k).buffers ∨ p ∉ c.heap.buffers := by
    intro p hmem
    rcases hal.buffers with hsame | ⟨q, hq, hgrown⟩
    · exact Or.inl (hsame ▸ hmem)
    · rw [hgrown, List.mem_append, List.mem_singleton] at hmem
      rcases hmem with hmem | rfl
      · exact Or.inl hmem
      · exact Or.inr (hp p hq).2.2
  have hlay : al.layout = k.layout := hal.layout.trans (h.layout k)
  cases r with
  | error e =>
      refine ⟨0, c.heap.set k al, Heap.alloc_of_error hk hrun, ?_, fun h0 => absurd rfl h0⟩
      rw [if_pos rfl]
      exact h.set_same hal.inv hlay hbuf (hal.of_error e rfl)
  | ok ptr =>
      obtain ⟨hslot, hfresh, hins⟩ := hal.of_ok ptr rfl
      have hnew := h.notMem_live hal.inv hbuf hslot hfresh
      refine ⟨ptr, c.heap.set k al, Heap.alloc_of_ok hk hrun, ?_,
        fun _ => aligned_of_slot hal.inv hlay hk hslot⟩
      rw [if_neg (ne_zero_of_slot hal.inv hslot)]
      exact h.set_insert hal.inv hlay hbuf hk hins hnew

/-- Giving back a live allocation. -/
theorem HeapSound.dealloc (h : HeapSound c) (hlive : (ptr, layout) ∈ c.live) :
    ∃ heap, c.heap.dealloc ptr layout = .ok heap ∧
      HeapSound ⟨heap, c.live.erase (ptr, layout)⟩ := by
  obtain ⟨k, hk⟩ := h.accepted _ hlive
  have hmem := h.mem_live hlive hk
  have hne : ptr ≠ 0 := ne_zero_of_slot (h.inv k) (mem_slots_of_live hmem)
  obtain ⟨al, hrun, hI, hlay, hbuf, hdiff⟩ := free_live (h.inv k) hmem
  -- A pointer is live once, so erasing the allocation is erasing the pointer.
  have herase : ∀ p l, (p, l) ∈ c.live.erase (ptr, layout) ↔ (p, l) ∈ c.live ∧ p ≠ ptr := by
    intro p l
    rw [(List.Nodup.of_map _ h.nodup).mem_erase_iff]
    constructor
    · rintro ⟨hpl, hin⟩
      refine ⟨hin, fun heq => hpl ?_⟩
      exact List.inj_on_of_nodup_map h.nodup hin hlive heq
    · rintro ⟨hin, hpne⟩
      exact ⟨fun heq => hpne (Prod.mk.inj heq).1, hin⟩
  refine ⟨c.heap.set k al, ?_, h.set hI (hlay.trans (h.layout k)) ?_ ?_ ?_ ?_ ?_⟩
  · rw [Heap.dealloc, hk, ok_bind, if_neg hne, hrun]
  · exact fun p hp => Or.inl (hbuf ▸ hp)
  · intro p
    rw [hdiff, Set.mem_sdiff, Set.mem_singleton_iff, h.live_iff]
    constructor
    · rintro ⟨⟨l, hl, hlk⟩, hpne⟩
      exact ⟨l, (herase p l).mpr ⟨hl, hpne⟩, hlk⟩
    · rintro ⟨l, hl, hlk⟩
      exact ⟨⟨l, ((herase p l).mp hl).1, hlk⟩, ((herase p l).mp hl).2⟩
  · intro j hj p
    constructor
    · rintro ⟨l, hl, hlj⟩
      exact ⟨l, ((herase p l).mp hl).1, hlj⟩
    · rintro ⟨l, hl, hlj⟩
      refine ⟨l, (herase p l).mpr ⟨hl, fun heq => ?_⟩, hlj⟩
      have hsame := List.inj_on_of_nodup_map h.nodup hl hlive heq
      rw [(Prod.mk.inj hsame).2, hk] at hlj
      exact hj (Except.ok.inj hlj).symm
  · exact fun x hx => h.accepted x (List.mem_of_mem_erase hx)
  · exact h.nodup.sublist (List.erase_sublist.map _)

theorem HeapSound.reapAll {freePages : ℕ → ℕ → Except PagingError Unit}
    (hfree : ∀ p n, freePages p n = .ok ()) {heap : Heap} (ks : List SizeClass)
    (h : HeapSound ⟨heap, live⟩) :
    ∃ n heap', heap.reapAll m freePages ks = .ok (n, heap') ∧ HeapSound ⟨heap', live⟩ := by
  induction ks generalizing heap with
  | nil => exact ⟨0, heap, rfl, h⟩
  | cons k ks ih =>
      obtain ⟨dropped, al, hrun, hI, hlay, hsplit, -, hlive⟩ :=
        reap_spec (m := m) (h.inv k) hfree
      have hset : HeapSound ⟨heap.set k al, live⟩ := by
        refine h.set_same hI (hlay.trans (h.layout k)) ?_ hlive
        intro p hp
        refine Or.inl ?_
        rw [buffers, hsplit, List.map_append]
        exact List.mem_append_right _ hp
      obtain ⟨n, heap', hrest, hsound⟩ := ih hset
      refine ⟨dropped.length + n, heap', ?_, hsound⟩
      rw [Heap.reapAll, hrun, ok_bind]
      simp only [hrest, ok_bind]

theorem HeapSound.step (h : HeapSound c) (hstep : HeapStep m c c') : HeapSound c' := by
  cases hstep with
  | @alloc pages hp layout ptr heap hrun =>
      cases hk : Heap.layoutToAllocator layout with
      | error e =>
          rw [Heap.alloc, hk, error_bind] at hrun
          cases hrun
      | ok k =>
          obtain ⟨ptr', heap', hrun', hsound, -⟩ := h.alloc (m := m) hp hk
          obtain ⟨rfl, rfl⟩ := Prod.mk.inj (Except.ok.inj (hrun'.symm.trans hrun))
          exact hsound
  | dealloc hlive hrun =>
      obtain ⟨heap', hrun', hsound⟩ := h.dealloc hlive
      have heq := Except.ok.inj (hrun'.symm.trans hrun)
      rw [← heq]
      exact hsound
  | reap hfree hrun =>
      obtain ⟨n, heap', hrun', hsound⟩ := HeapSound.reapAll (m := m) hfree _ h
      obtain ⟨-, rfl⟩ := Prod.mk.inj (Except.ok.inj (hrun'.symm.trans hrun))
      exact hsound

theorem SizeClass.adjustLayout_layout (k : SizeClass) : adjustLayout k.layout = k.layout := by
  cases k <;> rfl

theorem heapSound_new : HeapSound ⟨.new, []⟩ where
  inv k := by
    refine inv_new ?_
    rw [k.adjustLayout_layout]
    exact Nat.mod_self k.bytes
  layout k := k.adjustLayout_layout
  live_iff k p := by simp [Heap.new, live_new]
  accepted x hx := by cases hx
  nodup := List.nodup_nil
  pages k l p hp := by cases hp

/-- **The run invariant of the heap.** -/
theorem HeapReachable.sound (h : HeapReachable m c) : HeapSound c := by
  induction h with
  | refl => exact heapSound_new
  | tail _ hstep ih => exact ih.step hstep

/-- A live allocation is aligned. -/
theorem HeapSound.live_aligned (h : HeapSound c) {x : ℕ × Layout} (hx : x ∈ c.live) :
    x.1 % x.2.align = 0 := by
  obtain ⟨k, hk⟩ := h.accepted x hx
  exact aligned_of_slot (h.inv k) (h.layout k) hk (mem_slots_of_live (h.mem_live hx hk))

/-- Live allocations do not overlap, be they of one allocator or of two. -/
theorem HeapSound.live_disjoint (h : HeapSound c) {x y : ℕ × Layout} (hx : x ∈ c.live)
    (hy : y ∈ c.live) (hne : x.1 ≠ y.1) : x.1 + x.2.size ≤ y.1 ∨ y.1 + y.2.size ≤ x.1 := by
  obtain ⟨k, hk⟩ := h.accepted x hx
  obtain ⟨l, hl⟩ := h.accepted y hy
  have hxl := h.mem_live hx hk
  have hyl := h.mem_live hy hl
  have hxs := (Heap.layoutToAllocator_spec hk).1
  have hys := (Heap.layoutToAllocator_spec hl).1
  have hsize : ∀ j, (c.heap.allocator j).layout.size = j.bytes := fun j => by rw [h.layout]; rfl
  by_cases hkl : k = l
  · subst hkl
    have hsound : SlabSound ⟨c.heap.allocator k, (c.heap.allocator k).live⟩ := ⟨h.inv k, rfl⟩
    have := hsound.live_disjoint hxl hyl hne
    simp only [hsize] at this
    omega
  · obtain ⟨s, hs, hxm⟩ := hxl
    obtain ⟨t, ht, hym⟩ := hyl
    have hbuf : s.buffer ≠ t.buffer := fun heq =>
      hkl (h.pages k l s.buffer (List.mem_map_of_mem hs) (heq ▸ List.mem_map_of_mem ht))
    have hsI := ((h.inv k).slabs s hs).1
    have htI := ((h.inv l).slabs t ht).1
    have hsb := hsI.slot_bounds hxm.1
    have htb := htI.slot_bounds hym.1
    have hsp := hsI.page
    have htp := htI.page
    rw [hsize] at hsb htb
    simp only [BASIC_PAGE_SIZE] at hsb htb hsp htp
    omega

/-- **The heap contract.**  After every run: what `alloc` returns next is null or aligned
for its layout, the live allocations are aligned and do not overlap, and giving one of
them back does not panic. -/
theorem heap_contract (hc : HeapReachable m c) :
    (∀ pages layout ptr heap, FreshPage c.heap.buffers pages →
      c.heap.alloc m pages layout = .ok (ptr, heap) → ptr ≠ 0 → ptr % layout.align = 0) ∧
    (∀ x ∈ c.live, x.1 % x.2.align = 0) ∧
    c.live.Pairwise (fun x y => x.1 + x.2.size ≤ y.1 ∨ y.1 + y.2.size ≤ x.1) ∧
    ∀ ptr layout, (ptr, layout) ∈ c.live → ∃ heap, c.heap.dealloc ptr layout = .ok heap := by
  have h := hc.sound
  refine ⟨?_, ?_, ?_, ?_⟩
  · intro pages layout ptr heap hp hrun hne
    cases hk : Heap.layoutToAllocator layout with
    | error e =>
        rw [Heap.alloc, hk, error_bind] at hrun
        cases hrun
    | ok k =>
        obtain ⟨ptr', heap', hrun', -, hal⟩ := h.alloc (m := m) hp hk
        obtain ⟨rfl, -⟩ := Prod.mk.inj (Except.ok.inj (hrun'.symm.trans hrun))
        exact hal hne
  · exact fun x hx => h.live_aligned hx
  · refine (List.pairwise_map.mp h.nodup).imp_of_mem ?_
    exact fun hx hy hne => h.live_disjoint hx hy hne
  · intro ptr layout hlive
    obtain ⟨heap, hrun, -⟩ := h.dealloc hlive
    exact ⟨heap, hrun⟩

theorem isPowerOfTwo_eight : isPowerOfTwo 8 = true := by decide

/-- The heap with one object of 1500 bytes. -/
def smallHeap : HeapClient :=
  ⟨Heap.new.set .slab2048 ⟨[⟨0x1000, [], 1, 1⟩], 1, 1, SizeClass.slab2048.layout⟩,
    [(0x1000, ⟨1500, 8, isPowerOfTwo_eight⟩)]⟩

theorem smallHeap_reachable : HeapReachable .checked smallHeap := by
  have hfresh : FreshPage Heap.new.buffers (.ok 0x1000) := by decide
  have hrun : Heap.new.alloc .checked (.ok 0x1000) ⟨1500, 8, by decide⟩ =
      .ok (0x1000, smallHeap.heap) := rfl
  have hstep := HeapStep.alloc (c := ⟨.new, []⟩) hfresh hrun
  exact .tail .refl hstep

theorem small_heap_contract :
    ∃ heap, smallHeap.heap.dealloc 0x1000 ⟨1500, 8, by decide⟩ = .ok heap :=
  (heap_contract smallHeap_reachable).2.2.2 _ _ List.mem_cons_self

end Funderberker

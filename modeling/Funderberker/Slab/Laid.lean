import Funderberker.Slab.Run

/-!
# Slab allocators for any layout

A slab is built from a page by putting every object of the page on a stack, each after a
look at its alignment.  Whether that works depends on the layout: `adjust_layout` raises
the size and the alignment to those of a stack node one by one, so the size need not be a
multiple of the alignment any more, and an object may be so large that none fits.

What does not depend on the layout is `Laid`: the slabs that were built are aligned, and
so is everything on their stacks.  It is enough to say exactly how a request is answered.

## Main definitions

* `InternalSlabAllocator.Laid` — the run invariant for any layout.
* `InternalSlabAllocator.Full`, `InternalSlabAllocator.Accepts` — what an answer depends on.
* `InternalSlabAllocator.Answers` — the outcome of a request.

## Main results

* `InternalSlabAllocator.Laid.allocate` — every request has one of these outcomes.
* `SlabReachable.laid` — the invariant holds after every run.
-/

namespace Funderberker

open Panicking

variable {m : Overflow} {layout : Layout} {i k p ptr buffer : ℕ} {s s' : Slab}
  {slabs : List Slab} {al al' : InternalSlabAllocator} {pages : Except PagingError ℕ}

/-! ## One slab -/

namespace Slab

/-- The objects of a slab, and all of its stack, are aligned. -/
structure Laid (layout : Layout) (s : Slab) : Prop where
  page : s.buffer % BASIC_PAGE_SIZE = 0
  aligned : ∀ k < s.capacity, (s.buffer + k * layout.size) % layout.align = 0
  free_aligned : ∀ a ∈ s.freeObjects, a % layout.align = 0

/-- A slab is built exactly when all its objects are aligned. -/
theorem new_cases (layout : Layout) (capacity : ℕ) (hpage : buffer % BASIC_PAGE_SIZE = 0) :
    ((∀ k < capacity, (buffer + k * layout.size) % layout.align = 0) ∧
      ∃ s, Slab.new buffer capacity layout = .ok s ∧ Laid layout s ∧ s.capacity = capacity ∧
        s.freeObjects.length = capacity) ∨
    (¬ (∀ k < capacity, (buffer + k * layout.size) % layout.align = 0) ∧
      Slab.new buffer capacity layout = .error .invalidLayout) := by
  have hiff : (∀ a ∈ slotList buffer layout 0 capacity, a % layout.align = 0) ↔
      ∀ k < capacity, (buffer + k * layout.size) % layout.align = 0 := by
    simp [slotList]
  rw [new_eq]
  split
  · rename_i hall
    refine Or.inl ⟨hiff.mp hall, _, rfl, ⟨hpage, hiff.mp hall, ?_⟩, rfl, ?_⟩
    · exact fun a ha => hall a (List.mem_reverse.mp ha)
    · rw [List.length_reverse, length_slotList]
  · rename_i hnot
    exact Or.inr ⟨hiff.not.mp hnot, rfl⟩

/-- A slab with an aligned stack stays one without the top. -/
theorem Laid.take (h : Laid layout s) {rest : List ℕ} (hfree : s.freeObjects = ptr :: rest) :
    ptr % layout.align = 0 ∧
      Laid layout { s with freeObjects := rest, allocatedCount := s.allocatedCount + 1 } := by
  refine ⟨h.free_aligned ptr (by simp [hfree]), h.page, h.aligned, ?_⟩
  intro a ha
  exact h.free_aligned a (by simp [hfree, ha])

theorem Laid.free (h : Laid layout s) (hptr : ptr % layout.align = 0) :
    Laid layout (s.free ptr layout).2 ∧ (s.free ptr layout).2.capacity = s.capacity := by
  unfold Slab.free
  simp only
  split
  · exact ⟨h, rfl⟩
  split
  · exact ⟨h, rfl⟩
  · refine ⟨⟨h.page, h.aligned, ?_⟩, rfl⟩
    intro a ha
    rcases List.mem_cons.mp ha with rfl | ha
    · exact hptr
    · exact h.free_aligned a ha

end Slab

/-! ## The list of slabs -/

namespace InternalSlabAllocator

/-- The run invariant for any layout. -/
structure Laid (al : InternalSlabAllocator) : Prop where
  pageCount_eq : al.pageCount = 1
  objectCount_eq : al.objectCount = calculateObjectCount slabNode al.layout 1
  slabs : ∀ s ∈ al.slabs, s.Laid al.layout ∧ s.capacity = al.objectCount

/-- No slab has a free object. -/
def Full (al : InternalSlabAllocator) : Prop := ∀ s ∈ al.slabs, s.freeObjects = []

instance (al : InternalSlabAllocator) : Decidable al.Full :=
  inferInstanceAs (Decidable (∀ s ∈ al.slabs, s.freeObjects = []))

/-- Every object of a slab in the page `p` is aligned. -/
def Accepts (al : InternalSlabAllocator) (p : ℕ) : Prop :=
  ∀ k < al.objectCount, (p + k * al.layout.size) % al.layout.align = 0

instance (al : InternalSlabAllocator) (p : ℕ) : Decidable (al.Accepts p) :=
  inferInstanceAs (Decidable (∀ k < al.objectCount, (p + k * al.layout.size) % al.layout.align = 0))

/-- The outcome of a request. -/
inductive Answers (al : InternalSlabAllocator) :
    Except PagingError ℕ → Except SlabError ℕ → InternalSlabAllocator → Prop
  /-- A slab has a free object. -/
  | taken {pages : Except PagingError ℕ} (ptr : ℕ) (al' : InternalSlabAllocator)
      (hfull : ¬ al.Full) (hptr : ptr % al.layout.align = 0) : Answers al pages (.ok ptr) al'
  /-- No page for a new slab. -/
  | refused (e : PagingError) (hfull : al.Full) : Answers al (.error e) (.error .pagingError) al
  /-- The page is no use: some object in it would not be aligned. -/
  | misfit (p : ℕ) (hfull : al.Full) (h : ¬ al.Accepts p) :
      Answers al (.ok p) (.error .invalidLayout) al
  /-- A slab without objects. -/
  | hollow (p : ℕ) (hfull : al.Full) (h : al.objectCount = 0) (s : Slab) :
      Answers al (.ok p) (.error .slabFullInternalError) { al with slabs := al.slabs ++ [s] }
  /-- The first object of a new slab. -/
  | fresh (p ptr : ℕ) (al' : InternalSlabAllocator) (hfull : al.Full) (h : al.Accepts p)
      (hpos : 0 < al.objectCount) (hptr : ptr % al.layout.align = 0) :
      Answers al (.ok p) (.ok ptr) al'

theorem Laid.replace (h : Laid al) {pre post : List Slab} (hsplit : al.slabs = pre ++ s :: post)
    (hs' : s'.Laid al.layout) (hcap : s'.capacity = s.capacity) :
    Laid { al with slabs := pre ++ s' :: post } := by
  refine ⟨h.pageCount_eq, h.objectCount_eq, fun t ht => ?_⟩
  simp only [List.mem_append, List.mem_cons] at ht
  rcases ht with ht | rfl | ht
  · exact h.slabs t (by simp [hsplit, ht])
  · exact ⟨hs', hcap.trans (h.slabs s (by simp [hsplit])).2⟩
  · exact h.slabs t (by simp [hsplit, ht])

theorem Laid.append (h : Laid al) (hs : s.Laid al.layout) (hcap : s.capacity = al.objectCount) :
    Laid { al with slabs := al.slabs ++ [s] } := by
  refine ⟨h.pageCount_eq, h.objectCount_eq, fun t ht => ?_⟩
  rcases List.mem_append.mp ht with ht | ht
  · exact h.slabs t ht
  · rw [List.mem_singleton.mp ht]
    exact ⟨hs, hcap⟩

theorem Laid.sized (h : Laid al) : Sized al := sized_of_one h.pageCount_eq h.objectCount_eq

/-- Growing adds a slab when the page can be used. -/
theorem Laid.grow (h : Laid al) (hp : p % BASIC_PAGE_SIZE = 0) :
    (¬ al.Accepts p ∧ grow m (.ok p) al = .ok (.error .invalidLayout, al)) ∨
    (al.Accepts p ∧ ∃ s, grow m (.ok p) al = .ok (.ok (), { al with slabs := al.slabs ++ [s] }) ∧
      s.Laid al.layout ∧ s.capacity = al.objectCount ∧ s.freeObjects.length = al.objectCount) := by
  have hgrow := h.sized.grow_ok (m := m) p
  rcases Slab.new_cases al.layout al.objectCount hp with
    ⟨hall, s, hnew, hs, hcap, hlen⟩ | ⟨hnot, hnew⟩
  · refine Or.inr ⟨hall, s, ?_, hs, hcap, hlen⟩
    rw [hgrow, addSlab, hnew]
  · refine Or.inl ⟨hnot, ?_⟩
    rw [hgrow, addSlab, hnew]

/-- The second try, with a slab that has just been added. -/
theorem Laid.allocateBack (h : Laid al) (hs : s.Laid al.layout) (hcap : s.capacity = al.objectCount)
    (hlen : s.freeObjects.length = al.objectCount) :
    (al.objectCount = 0 ∧ allocateBack { al with slabs := al.slabs ++ [s] } =
        (.error .slabFullInternalError, { al with slabs := al.slabs ++ [s] })) ∨
    (0 < al.objectCount ∧ ∃ ptr al', allocateBack { al with slabs := al.slabs ++ [s] } =
        (.ok ptr, al') ∧ ptr % al.layout.align = 0 ∧ Laid al' ∧ al'.layout = al.layout) := by
  cases hfree : s.freeObjects with
  | nil =>
      rw [hfree, List.length_nil] at hlen
      refine Or.inl ⟨hlen.symm, ?_⟩
      simp [InternalSlabAllocator.allocateBack, Slab.allocate_nil hfree]
  | cons ptr rest =>
      rw [hfree, List.length_cons] at hlen
      obtain ⟨hptr, hs'⟩ := hs.take hfree
      refine Or.inr ⟨by omega, ptr, _, ?_, hptr, h.append hs' hcap, rfl⟩
      simp [InternalSlabAllocator.allocateBack, Slab.allocate_cons hfree hptr]

/-- **How a request is answered**, whatever the layout. -/
theorem Laid.allocate (h : Laid al) (hp : FreshPage al.buffers pages) :
    ∃ r al', allocate m pages al = .ok (r, al') ∧ Answers al pages r al' ∧ Laid al' ∧
      al'.layout = al.layout := by
  by_cases hfull : al.Full
  · rw [allocate_of_none (allocateFrom_of_full hfull)]
    cases pages with
    | error e => exact ⟨_, al, rfl, .refused e hfull, h, rfl⟩
    | ok p =>
        rcases h.grow (m := m) (hp p rfl).1 with ⟨hacc, hrun⟩ | ⟨hacc, s, hrun, hs, hcap, hlen⟩
        · exact ⟨_, al, by rw [hrun, ok_bind], .misfit p hfull hacc, h, rfl⟩
        · rw [hrun, ok_bind]
          rcases h.allocateBack hs hcap hlen with
            ⟨hzero, hback⟩ | ⟨hpos, ptr, al', hback, hptr, hlaid, hlay⟩
          · exact ⟨_, _, congrArg _ hback, .hollow p hfull hzero s, h.append hs hcap, rfl⟩
          · exact ⟨_, al', congrArg _ hback, .fresh p ptr al' hfull hacc hpos hptr, hlaid, hlay⟩
  · obtain ⟨pre, s, post, ptr, rest, hsplit, hfree, hrun⟩ :=
      allocateFrom_of_not_full (fun s hs => (h.slabs s hs).1.free_aligned) hfull
    obtain ⟨hptr, hs'⟩ := (h.slabs s (by simp [hsplit])).1.take hfree
    refine ⟨_, _, by rw [InternalSlabAllocator.allocate, hrun], .taken ptr _ hfull hptr,
      h.replace hsplit hs' rfl, rfl⟩

theorem Laid.free (h : Laid al) (ptr : ℕ) :
    Laid (free ptr al).2 ∧ (free ptr al).2.layout = al.layout := by
  unfold InternalSlabAllocator.free
  split
  · exact ⟨h, rfl⟩
  rename_i hptr
  rcases freeIn_spec al.layout ptr al.slabs with
    ⟨hrun, -⟩ | ⟨pre, s, post, hsplit, -, hrun⟩
  · rw [hrun]
    exact ⟨h, rfl⟩
  · obtain ⟨hs', hcap⟩ := (h.slabs s (by simp [hsplit])).1.free (not_not.mp hptr)
    rw [hrun]
    exact ⟨h.replace hsplit hs' hcap, rfl⟩

/-- Reaping drops the unused slabs in front of the first that is in use. -/
theorem Laid.reap (h : Laid al) {freePages : ℕ → ℕ → Except PagingError Unit}
    (hfree : ∀ p ∈ al.buffers, freePages p al.pageCount = .ok ()) :
    reap m freePages al = .ok ((al.slabs.takeWhile Slab.isEmpty).length,
      { al with slabs := al.slabs.dropWhile Slab.isEmpty }) := by
  have hrun := reapGo_eq (m := m) (fun s hs => (h.slabs s hs).1.page)
    fun s hs => hfree s.buffer (List.mem_map_of_mem hs)
  rw [InternalSlabAllocator.reap, hrun]
  rfl

/-- What is known when the size is a multiple of the alignment is enough. -/
theorem Inv.laid (hI : Inv al) : Laid al where
  pageCount_eq := hI.pageCount_eq
  objectCount_eq := hI.objectCount_eq
  slabs s hs := by
    obtain ⟨hsI, hcap⟩ := hI.slabs s hs
    refine ⟨⟨hsI.page, fun k hk => ?_, fun a ha => ?_⟩, hcap⟩
    · exact Slab.slot_aligned hsI.page hI.size_pos hI.size_mul hsI.fits (by omega) k
    · exact hI.slot_aligned ⟨s, hs, hsI.free_slots a ha⟩

/-- Then a request with a page at hand is answered when slabs have objects at all. -/
theorem Inv.allocate_ok_iff (hI : Inv al) (hp : FreshPage al.buffers (.ok p)) :
    (∃ ptr al', allocate m (.ok p) al = .ok (.ok ptr, al')) ↔ 0 < al.objectCount := by
  obtain ⟨r, al', hrun, hans, -, -⟩ := hI.laid.allocate (m := m) hp
  rw [hrun]
  cases hans with
  | taken ptr al' hfull hptr =>
      refine iff_of_true ⟨ptr, al', rfl⟩ (Nat.pos_of_ne_zero fun hzero => hfull fun s hs => ?_)
      obtain ⟨hsI, hcap⟩ := hI.slabs s hs
      have hcount := hsI.count
      exact List.length_eq_zero_iff.mp (by omega)
  | misfit _ hfull hacc =>
      refine absurd (fun k hk => ?_) hacc
      exact Slab.slot_aligned (hp p rfl).1 hI.size_pos hI.size_mul hI.fits (by omega) k
  | hollow _ hfull hzero s =>
      refine iff_of_false ?_ (by omega)
      rintro ⟨ptr, al', heq⟩
      cases heq
  | fresh _ ptr al' hfull hacc hpos hptr => exact iff_of_true ⟨ptr, al', rfl⟩ hpos

theorem laid_new (layout : Layout) : Laid (new layout) where
  pageCount_eq := rfl
  objectCount_eq := rfl
  slabs s hs := by cases hs

end InternalSlabAllocator

/-! ## Runs -/

variable {c c' : SlabClient}

theorem SlabStep.laid (h : c.alloc.Laid) (hstep : SlabStep m c c') :
    c'.alloc.Laid ∧ c'.alloc.layout = c.alloc.layout := by
  cases hstep with
  | allocate hp hrun =>
      obtain ⟨r, al', hrun', -, hlaid, hlay⟩ := h.allocate (m := m) hp
      obtain ⟨rfl, rfl⟩ := Prod.mk.inj (Except.ok.inj (hrun'.symm.trans hrun))
      exact ⟨hlaid, hlay⟩
  | allocateErr hp hrun =>
      obtain ⟨r, al', hrun', -, hlaid, hlay⟩ := h.allocate (m := m) hp
      obtain ⟨rfl, rfl⟩ := Prod.mk.inj (Except.ok.inj (hrun'.symm.trans hrun))
      exact ⟨hlaid, hlay⟩
  | @free ptr al hrun =>
      have hfree := h.free ptr
      rw [hrun] at hfree
      exact hfree
  | @freeErr ptr e al hrun =>
      have hfree := h.free ptr
      rw [hrun] at hfree
      exact hfree
  | reap hfree hrun =>
      rw [h.reap fun p _ => hfree p _] at hrun
      cases hrun
      refine ⟨⟨h.pageCount_eq, h.objectCount_eq, fun s hs => ?_⟩, rfl⟩
      exact h.slabs s ((List.dropWhile_sublist _).subset hs)

/-- **The run invariant of a slab allocator, whatever its layout.** -/
theorem SlabReachable.laid (h : SlabReachable m layout c) :
    c.alloc.Laid ∧ c.alloc.layout = InternalSlabAllocator.adjustLayout layout := by
  induction h with
  | refl => exact ⟨InternalSlabAllocator.laid_new layout, rfl⟩
  | tail _ hstep ih =>
      obtain ⟨hlaid, hlay⟩ := hstep.laid ih.1
      exact ⟨hlaid, hlay.trans ih.2⟩

end Funderberker

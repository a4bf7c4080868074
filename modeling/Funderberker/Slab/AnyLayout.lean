import Funderberker.Slab.Laid

/-!
# What slab allocators promise, and for which layouts

Three promises that hold for some layouts or lists of slabs only.  A request is answered
when a slab can be built, which takes an object size that is a multiple of the alignment
or a slab of one object.  A request that fails leaves nothing behind, unless a page was
taken for it: the page is given back neither when no slab can be built nor when the slab
has no object.  And reaping stops at the first slab in use, so unused ones behind it stay.

## Main definitions

* `InternalSlabAllocator.pagesTaken` — the pages that a request takes.
* `InternalSlabAllocator.LeavesNothing` — a failed request changes nothing.
* `InternalSlabAllocator.ReapsAll` — reaping releases all unused slabs and no other.

## Main results

* `typed_allocate_iff`, `failed_allocate_iff`, `reap_all_iff` — when these hold.
-/

namespace Funderberker

open Panicking InternalSlabAllocator

variable {m : Overflow} {layout : Layout} {p : ℕ} {c : SlabClient} {pages : Except PagingError ℕ}
  {al : InternalSlabAllocator}

/-! ## Types that fit -/

theorem align_dvd_adjustLayout (layout : Layout) :
    layout.align ∣ (adjustLayout layout).align :=
  dvd_of_pow2_le layout.align_pow2 (adjustLayout layout).align_pow2 (le_max_left _ _)

/-- Which pages can be used: all of them or none. -/
theorem accepts_iff (halign : al.layout.align ≤ BASIC_PAGE_SIZE) (hp : p % BASIC_PAGE_SIZE = 0)
    (hpos : 0 < al.objectCount) :
    al.Accepts p ↔ al.layout.size % al.layout.align = 0 ∨ al.objectCount = 1 := by
  have hdvd : al.layout.align ∣ p :=
    (dvd_of_pow2_le al.layout.align_pow2 (by decide) halign).trans (Nat.dvd_of_mod_eq_zero hp)
  constructor
  · intro hacc
    by_cases hone : al.objectCount = 1
    · exact Or.inr hone
    · have hsecond := Nat.dvd_of_mod_eq_zero (hacc 1 (by omega))
      rw [Nat.one_mul] at hsecond
      exact Or.inl (Nat.mod_eq_zero_of_dvd ((Nat.dvd_add_right hdvd).mp hsecond))
  · rintro (hmul | hone) k hk
    · exact Nat.mod_eq_zero_of_dvd
        (Nat.dvd_add hdvd ((Nat.dvd_of_mod_eq_zero hmul).mul_left k))
    · obtain rfl : k = 0 := by omega
      rw [Nat.zero_mul, Nat.add_zero]
      exact Nat.mod_eq_zero_of_dvd hdvd

/-- **Which types a typed allocator works for.**  With a page at hand, a request for an
object that fits is answered, after any run, exactly when the adjusted size is a multiple
of the adjusted alignment or a slab has one object only. -/
theorem typed_allocate_iff (halign : layout.align ≤ BASIC_PAGE_SIZE)
    (hpos : 1 ≤ calculateObjectCount slabNode (adjustLayout layout) 1)
    (h : SlabReachable m layout c) (hp : FreshPage c.alloc.buffers (.ok p)) :
    (∃ ptr al, c.alloc.allocate m (.ok p) = .ok (.ok ptr, al) ∧ ptr % layout.align = 0) ↔
      (adjustLayout layout).size % (adjustLayout layout).align = 0 ∨
        calculateObjectCount slabNode (adjustLayout layout) 1 = 1 := by
  obtain ⟨hlaid, hlay⟩ := h.laid
  have hcount := hlaid.objectCount_eq
  rw [hlay] at hcount
  have hbound : c.alloc.layout.align ≤ BASIC_PAGE_SIZE := by
    rw [hlay]
    exact max_le halign (by decide)
  have haccepts : ∀ q, q % BASIC_PAGE_SIZE = 0 → (c.alloc.Accepts q ↔
      (adjustLayout layout).size % (adjustLayout layout).align = 0 ∨
        calculateObjectCount slabNode (adjustLayout layout) 1 = 1) := by
    intro q hq
    rw [accepts_iff hbound hq (by omega), hlay, hcount]
  have hvalid : ∀ ptr, ptr % c.alloc.layout.align = 0 → ptr % layout.align = 0 := by
    intro ptr hptr
    rw [hlay] at hptr
    exact Nat.mod_eq_zero_of_dvd
      ((align_dvd_adjustLayout layout).trans (Nat.dvd_of_mod_eq_zero hptr))
  obtain ⟨r, al, hrun, hans, -, -⟩ := hlaid.allocate (m := m) hp
  rw [hrun]
  cases hans with
  | taken ptr al hfull hptr =>
      refine iff_of_true ⟨ptr, al, rfl, hvalid ptr hptr⟩ ?_
      -- Some slab was built before, and its page is like any other.
      obtain ⟨s, hs⟩ : ∃ s, s ∈ c.alloc.slabs := by
        by_contra hnone
        exact hfull fun s hs => absurd ⟨s, hs⟩ hnone
      obtain ⟨hslab, hcap⟩ := hlaid.slabs s hs
      refine (haccepts s.buffer hslab.page).mp ?_
      rw [Accepts, ← hcap]
      exact hslab.aligned
  | misfit _ hfull hacc =>
      refine iff_of_false ?_ ((haccepts p (hp p rfl).1).not.mp hacc)
      rintro ⟨ptr, al, heq, -⟩
      cases heq
  | hollow _ hfull hzero s => omega
  | fresh _ ptr al hfull hacc hpos hptr =>
      exact iff_of_true ⟨ptr, al, rfl, hvalid ptr hptr⟩ ((haccepts p (hp p rfl).1).mp hacc)

/-- An allocator for 1024-byte objects in use. -/
theorem smallSlab_allocates :
    ∃ ptr al, smallSlab.alloc.allocate .checked (.ok 0x2000) = .ok (.ok ptr, al) ∧
      ptr % 1024 = 0 := by
  have hfresh : FreshPage smallSlab.alloc.buffers (.ok 0x2000) := by decide
  have hserved := typed_allocate_iff (by decide) (by decide) smallSlab_reachable hfresh
  exact hserved.mpr (Or.inl (by decide))

/-- **A type that fits and gets no object.**  Twelve bytes aligned to four: the alignment is
raised to eight, the size stays, and the second object of a slab is not aligned. -/
theorem twelve_bytes_refused :
    (⟨12, 4, by decide⟩ : Layout).size % (⟨12, 4, by decide⟩ : Layout).align = 0 ∧
      1 ≤ calculateObjectCount slabNode (adjustLayout ⟨12, 4, by decide⟩) 1 ∧
      SlabReachable .checked ⟨12, 4, by decide⟩ ⟨.new ⟨12, 4, by decide⟩, ∅⟩ ∧
      (InternalSlabAllocator.new ⟨12, 4, by decide⟩).allocate .checked (.ok 0x1000) =
        .ok (.error .invalidLayout, .new ⟨12, 4, by decide⟩) :=
  ⟨by decide, by decide, .refl, by decide⟩

/-! ## Requests that fail -/

namespace InternalSlabAllocator

/-- The pages that a request takes.  `grow` asks for them when the first pass finds no
object, and nothing gives them back. -/
def pagesTaken (pages : Except PagingError ℕ) (al : InternalSlabAllocator) : ℕ :=
  match allocateFrom al.layout al.slabs, pages with
  | (none, _), .ok _ => al.pageCount
  | _, _ => 0

/-- A request that fails leaves slabs, stacks and counters as they were, and takes no
page. -/
def LeavesNothing (m : Overflow) (pages : Except PagingError ℕ) (al : InternalSlabAllocator) :
    Prop :=
  ∀ e al', al.allocate m pages = .ok (.error e, al') → al' = al ∧ al.pagesTaken pages = 0

theorem pagesTaken_of_full (hfull : al.Full) : al.pagesTaken (.ok p) = al.pageCount := by
  simp only [pagesTaken, allocateFrom_of_full hfull]

end InternalSlabAllocator

/-- **When a failed request leaves nothing behind.**  It does unless no slab has a free
object and a page was taken that holds no object, or one that is not aligned. -/
theorem failed_allocate_iff (h : SlabReachable m layout c) (hp : FreshPage c.alloc.buffers pages) :
    c.alloc.LeavesNothing m pages ↔
      (c.alloc.Full → ∀ p, pages = .ok p → 0 < c.alloc.objectCount ∧ c.alloc.Accepts p) := by
  obtain ⟨hlaid, -⟩ := h.laid
  obtain ⟨r, al, hrun, hans, -, -⟩ := hlaid.allocate (m := m) hp
  have hone := hlaid.pageCount_eq
  cases hans with
  | taken ptr al hfull hptr =>
      refine iff_of_true ?_ fun h => absurd h hfull
      intro e al' herr
      rw [hrun] at herr
      cases herr
  | refused e hfull =>
      refine iff_of_true ?_ fun _ p h => by cases h
      intro e' al' herr
      rw [hrun] at herr
      cases herr
      exact ⟨rfl, by simp only [pagesTaken, allocateFrom_of_full hfull]⟩
  | misfit p hfull hacc =>
      refine iff_of_false ?_ fun h => hacc (h hfull p rfl).2
      intro hnothing
      have htaken := (hnothing _ _ hrun).2
      rw [pagesTaken_of_full hfull, hone] at htaken
      cases htaken
  | hollow p hfull hzero s =>
      refine iff_of_false ?_ fun h => (h hfull p rfl).1.ne' hzero
      intro hnothing
      have htaken := (hnothing _ _ hrun).2
      rw [pagesTaken_of_full hfull, hone] at htaken
      cases htaken
  | fresh p ptr al hfull hacc hpos hptr =>
      refine iff_of_true ?_ fun _ q hq => ?_
      · intro e al' herr
        rw [hrun] at herr
        cases herr
      · obtain rfl := Except.ok.inj hq
        exact ⟨hpos, hacc⟩

/-- A request that fails for want of a page. -/
theorem refused_leavesNothing :
    let al := InternalSlabAllocator.new ⟨1024, 1024, by decide⟩
    al.allocate .checked (.error .outOfMemory) = .ok (.error .pagingError, al) ∧
      al.LeavesNothing .checked (.error .outOfMemory) := by
  have hreach : SlabReachable .checked ⟨1024, 1024, by decide⟩
      ⟨.new ⟨1024, 1024, by decide⟩, ∅⟩ := .refl
  refine ⟨by decide, (failed_allocate_iff hreach freshPage_error).mpr ?_⟩
  rintro - p ⟨⟩

/-- **Failed requests that keep a page.**  A request for 4096 bytes adds a slab without
objects, one for twelve bytes takes a page that no slab holds. -/
theorem failed_requests_keep_page :
    SlabReachable .checked ⟨4096, 4096, by decide⟩ ⟨.new ⟨4096, 4096, by decide⟩, ∅⟩ ∧
      (InternalSlabAllocator.new ⟨4096, 4096, by decide⟩).allocate .checked (.ok 0x1000) =
        .ok (.error .slabFullInternalError,
          ⟨[⟨0x1000, [], 0, 0⟩], 1, 0, ⟨4096, 4096, by decide⟩⟩) ∧
      (InternalSlabAllocator.new ⟨12, 4, by decide⟩).allocate .checked (.ok 0x1000) =
        .ok (.error .invalidLayout, .new ⟨12, 4, by decide⟩) ∧
      (InternalSlabAllocator.new ⟨12, 4, by decide⟩).pagesTaken (.ok 0x1000) = 1 :=
  ⟨.refl, by decide, by decide, by decide⟩

/-! ## Reaping -/

/-- What is left behind the accepted elements at the front is what is not accepted exactly
when no accepted element comes after one that is not. -/
theorem dropWhile_eq_filter_iff {α : Type} (q : α → Bool) (l : List α) :
    l.dropWhile q = l.filter (fun a => !q a) ↔ l.Pairwise fun a b => q b → q a := by
  induction l with
  | nil => simp
  | cons a l ih =>
      by_cases ha : q a
      · simp [ha, ih]
      · have hnone : (∀ b ∈ l, q b = false) → l.Pairwise fun a b => q b → q a := by
          intro hall
          refine List.pairwise_iff_forall_sublist.mpr fun {x y} hsub hy => ?_
          have hfalse := hall y (hsub.subset (by simp))
          rw [hfalse] at hy
          cases hy
        simp only [List.dropWhile_cons_of_neg ha, List.pairwise_cons]
        rw [List.filter_cons_of_pos (by simpa using ha), List.cons.injEq, eq_comm (a := l),
          List.filter_eq_self]
        simp only [true_and, Bool.not_eq_eq_eq_not, Bool.not_true]
        constructor
        · intro hall
          exact ⟨fun b hb hq => absurd hq (by simp [hall b hb]), hnone hall⟩
        · rintro ⟨hfront, -⟩ b hb
          exact Bool.eq_false_iff.mpr fun hq => ha (hfront b hb hq)

namespace InternalSlabAllocator

/-- Reaping drops the unused slabs, keeps all others as they are, and returns how many it
dropped. -/
def ReapsAll (m : Overflow) (freePages : ℕ → ℕ → Except PagingError Unit)
    (al : InternalSlabAllocator) : Prop :=
  al.reap m freePages = .ok (al.slabs.countP Slab.isEmpty,
    { al with slabs := al.slabs.filter fun s => !s.isEmpty })

/-- An unused slab behind one in use stays. -/
theorem Laid.reapsAll_iff (h : al.Laid) {freePages : ℕ → ℕ → Except PagingError Unit}
    (hfree : ∀ p ∈ al.buffers, freePages p al.pageCount = .ok ()) :
    al.ReapsAll m freePages ↔ al.slabs.Pairwise fun s t => t.isEmpty → s.isEmpty := by
  rw [ReapsAll, h.reap hfree, ← dropWhile_eq_filter_iff]
  constructor
  · intro heq
    exact congrArg InternalSlabAllocator.slabs (Prod.mk.inj (Except.ok.inj heq)).2
  · intro heq
    have hcount : (al.slabs.takeWhile Slab.isEmpty).length = al.slabs.countP Slab.isEmpty := by
      have hsplit := congrArg List.length
        (List.takeWhile_append_dropWhile (p := Slab.isEmpty) (l := al.slabs))
      have htotal := List.length_eq_countP_add_countP (p := Slab.isEmpty) (l := al.slabs)
      have hrest := List.countP_eq_length_filter (p := fun s : Slab => !s.isEmpty) (l := al.slabs)
      rw [List.length_append, heq] at hsplit
      simp only [Bool.not_eq_true, Bool.decide_eq_false] at htotal
      omega
    rw [hcount, heq]

end InternalSlabAllocator

/-- **When reaping releases every unused slab.**  It does, after any run, exactly when no
unused slab comes after one in use. -/
theorem reap_all_iff (h : SlabReachable m layout c)
    {freePages : ℕ → ℕ → Except PagingError Unit}
    (hfree : ∀ p ∈ c.alloc.buffers, freePages p c.alloc.pageCount = .ok ()) :
    c.alloc.ReapsAll m freePages ↔
      c.alloc.slabs.Pairwise fun s t => t.isEmpty → s.isEmpty :=
  h.laid.1.reapsAll_iff hfree

theorem smallSlab_reapsAll : smallSlab.alloc.ReapsAll .checked fun _ _ => .ok () :=
  (reap_all_iff smallSlab_reachable fun _ _ => rfl).mpr (List.pairwise_singleton _ _)

/-- Two slabs of one object each, of which only the first is in use. -/
def unusedBehind : SlabClient :=
  ⟨⟨[⟨0x1000, [], 1, 1⟩, ⟨0x2000, [0x2000], 0, 1⟩], 1, 1, ⟨2048, 2048, by decide⟩⟩,
    insert 0x2000 (insert 0x1000 ∅) \ {0x2000}⟩

/-- Two objects are allocated, and the second is freed. -/
theorem unusedBehind_reachable : SlabReachable .checked ⟨2048, 2048, by decide⟩ unusedBehind := by
  let al : InternalSlabAllocator := .new ⟨2048, 2048, by decide⟩
  let one : InternalSlabAllocator := { al with slabs := [⟨0x1000, [], 1, 1⟩] }
  let two : InternalSlabAllocator :=
    { al with slabs := [⟨0x1000, [], 1, 1⟩, ⟨0x2000, [], 1, 1⟩] }
  have hfresh1 : FreshPage al.buffers (.ok 0x1000) := by decide
  have hfresh2 : FreshPage one.buffers (.ok 0x2000) := by decide
  have hrun1 : al.allocate .checked (.ok 0x1000) = .ok (.ok 0x1000, one) := by decide
  have hrun2 : one.allocate .checked (.ok 0x2000) = .ok (.ok 0x2000, two) := by decide
  have hrun3 : two.free 0x2000 = (.ok (), unusedBehind.alloc) := by decide
  exact .tail (.tail (.tail .refl (.allocate hfresh1 hrun1))
    (SlabStep.allocate (c := ⟨one, _⟩) hfresh2 hrun2)) (SlabStep.free (c := ⟨two, _⟩) hrun3)

/-- **An unused slab that stays.**  Behind a slab in use it is not looked at. -/
theorem unused_slab_stays :
    SlabReachable .checked ⟨2048, 2048, by decide⟩ unusedBehind ∧
      unusedBehind.alloc.slabs.countP Slab.isEmpty = 1 ∧
      unusedBehind.alloc.reap .checked (fun _ _ => .ok ()) = .ok (0, unusedBehind.alloc) :=
  ⟨unusedBehind_reachable, by decide, by decide⟩

end Funderberker

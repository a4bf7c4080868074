import Funderberker.Slab.Metadata
import Mathlib.Data.List.Nodup
import Mathlib.Data.List.Perm.Subperm

/-!
# What the slab operations do

The objects of a slab are the multiples of the object size from its page on.  An object
is live when it is not on its slab's stack; the invariant says that the stack holds
objects only, each once, and that the counter agrees with it.

An operation on the allocator changes one slab of its list, adds one at the back, or
drops some at the front.  `Inv.replace` and `Inv.live_split` carry the invariant and the
live objects through the first case.

## Main definitions

* `Slab.slots`, `Slab.live` — the objects of a slab and those in use.
* `Slab.Inv`, `InternalSlabAllocator.Inv` — the invariants.
* `FreshPage` — what is assumed about pages from the paging layer.

## Main results

* `InternalSlabAllocator.allocate_spec`, `free_live`, `free_of_free`, `free_of_not_slot`,
  `reap_spec` — the operations.
-/

namespace Funderberker

open Panicking

variable {m : Overflow} {layout : Layout} {a b k ptr : ℕ} {s s' : Slab} {slabs slabs' : List Slab}
  {al al' : InternalSlabAllocator}

/-! ## One slab -/

namespace Slab

/-- The objects of a slab. -/
def slots (s : Slab) (layout : Layout) : Set ℕ :=
  {a | ∃ k < s.capacity, a = s.buffer + k * layout.size}

/-- The objects in use. -/
def live (s : Slab) (layout : Layout) : Set ℕ := {a ∈ s.slots layout | a ∉ s.freeObjects}

/-- The slab invariant. -/
structure Inv (layout : Layout) (s : Slab) : Prop where
  page : s.buffer % BASIC_PAGE_SIZE = 0
  nonnull : s.buffer ≠ 0
  /-- The objects end before the slab's node. -/
  fits : s.capacity * layout.size + slabNode.size ≤ BASIC_PAGE_SIZE
  free_slots : ∀ a ∈ s.freeObjects, a ∈ s.slots layout
  nodup : s.freeObjects.Nodup
  count : s.allocatedCount + s.freeObjects.length = s.capacity

/-- Every object lies in the slab's page, before the slab's node. -/
theorem Inv.slot_bounds (hI : Inv layout s) (ha : a ∈ s.slots layout) :
    s.buffer ≤ a ∧ a + layout.size + slabNode.size ≤ s.buffer + BASIC_PAGE_SIZE := by
  obtain ⟨k, hk, rfl⟩ := ha
  have := layout.object_end_le hk
  have := hI.fits
  omega

/-- The page of an object is the slab's. -/
theorem Inv.page_of_slot (hI : Inv layout s) (ha : a ∈ s.slots layout) :
    a / BASIC_PAGE_SIZE * BASIC_PAGE_SIZE = s.buffer := by
  have hb := hI.slot_bounds ha
  have hp := hI.page
  simp only [BASIC_PAGE_SIZE, slabNode] at hb hp ⊢
  omega

/-- Two objects of a slab do not overlap. -/
theorem slots_disjoint (ha : a ∈ s.slots layout) (hb : b ∈ s.slots layout) (hne : a ≠ b) :
    a + layout.size ≤ b ∨ b + layout.size ≤ a := by
  obtain ⟨k, -, rfl⟩ := ha
  obtain ⟨l, -, rfl⟩ := hb
  rcases Nat.lt_trichotomy k l with h | rfl | h
  · have := layout.object_end_le h
    omega
  · exact absurd rfl hne
  · have := layout.object_end_le h
    omega

/-- The range test and the boundary test together single out the objects. -/
theorem mem_slots_iff (hsize : 0 < layout.size) :
    ptr ∈ s.slots layout ↔ s.containsPtr ptr layout ∧ (ptr - s.buffer) % layout.size = 0 := by
  simp only [containsPtr, decide_eq_true_eq]
  constructor
  · rintro ⟨k, hk, rfl⟩
    have := layout.object_end_le hk
    refine ⟨⟨by omega, by omega⟩, ?_⟩
    rw [Nat.add_sub_cancel_left, Nat.mul_mod_left]
  · rintro ⟨⟨hlow, hhigh⟩, hmod⟩
    refine ⟨(ptr - s.buffer) / layout.size, ?_, ?_⟩
    · rw [Nat.div_lt_iff_lt_mul hsize]
      omega
    · rw [Nat.div_mul_cancel (Nat.dvd_of_mod_eq_zero hmod)]
      omega

/-- The addresses of `k` objects, from object `i` on. -/
def slotList (buffer : ℕ) (layout : Layout) (i k : ℕ) : List ℕ :=
  (List.range' i k).map fun j => buffer + j * layout.size

theorem length_slotList (buffer : ℕ) (layout : Layout) (i k : ℕ) :
    (slotList buffer layout i k).length = k := by
  rw [slotList, List.length_map, List.length_range']

theorem nodup_slotList (buffer i k : ℕ) (hsize : 0 < layout.size) :
    (slotList buffer layout i k).Nodup := by
  refine List.Nodup.map ?_ List.nodup_range'
  intro j l heq
  exact Nat.eq_of_mul_eq_mul_right hsize (Nat.add_left_cancel heq)

theorem mem_slotList : a ∈ slotList s.buffer layout 0 s.capacity ↔ a ∈ s.slots layout := by
  simp [slotList, slots, eq_comm (a := a)]

/-- The loop puts all objects on the stack, unless one of them is not aligned. -/
theorem newGo_eq (buffer : ℕ) (layout : Layout) (freeObjects : List ℕ) (i k : ℕ) :
    newGo buffer layout freeObjects i k =
      if ∀ a ∈ slotList buffer layout i k, a % layout.align = 0 then
        .ok ((slotList buffer layout i k).reverse ++ freeObjects)
      else .error .invalidLayout := by
  induction k generalizing i freeObjects with
  | zero => simp [newGo, slotList]
  | succ k ih =>
      have hcons : slotList buffer layout i (k + 1) =
          (buffer + i * layout.size) :: slotList buffer layout (i + 1) k := by
        simp [slotList, List.range'_succ]
      by_cases hal : (buffer + i * layout.size) % layout.align = 0
      · simp [newGo, hcons, hal, ih]
      · simp [newGo, hcons, hal]

/-- A slab is built when all its objects are aligned, with all of them free. -/
theorem new_eq (buffer capacity : ℕ) (layout : Layout) :
    Slab.new buffer capacity layout =
      if ∀ a ∈ slotList buffer layout 0 capacity, a % layout.align = 0 then
        .ok ⟨buffer, (slotList buffer layout 0 capacity).reverse, 0, capacity⟩
      else .error .invalidLayout := by
  rw [Slab.new, newGo_eq]
  split
  · rw [ok_bind, List.append_nil]
  · rw [error_bind]

/-- A new slab has no object in use. -/
theorem new_spec {buffer : ℕ} (capacity : ℕ) (hpage : buffer % BASIC_PAGE_SIZE = 0) (hnn : buffer ≠ 0)
    (hal : capacity ≠ 0 → ∀ j, (buffer + j * layout.size) % layout.align = 0)
    (hsize : 0 < layout.size)
    (hfits : capacity * layout.size + slabNode.size ≤ BASIC_PAGE_SIZE) :
    ∃ s, Slab.new buffer capacity layout = .ok s ∧ Inv layout s ∧ s.buffer = buffer ∧
      s.capacity = capacity ∧ s.live layout = ∅ := by
  let s : Slab := ⟨buffer, (slotList buffer layout 0 capacity).reverse, 0, capacity⟩
  have hfree : ∀ a, a ∈ s.freeObjects ↔ a ∈ s.slots layout := fun a =>
    List.mem_reverse.trans (mem_slotList (s := s))
  refine ⟨s, ?_, ⟨hpage, hnn, hfits, fun a => (hfree a).mp, ?_, ?_⟩, rfl, rfl, ?_⟩
  · rw [new_eq, if_pos]
    intro a ha
    obtain ⟨j, hj, rfl⟩ := List.mem_map.mp ha
    have := List.mem_range'_1.mp hj
    exact hal (by omega) j
  · exact List.nodup_reverse.mpr (nodup_slotList buffer 0 capacity hsize)
  · simp [s, length_slotList]
  · rw [Set.eq_empty_iff_forall_notMem]
    rintro a ⟨hslot, hnot⟩
    exact hnot ((hfree a).mpr hslot)

/-- A page is aligned for every object that fits into it. -/
theorem slot_aligned {buffer capacity : ℕ} (hpage : buffer % BASIC_PAGE_SIZE = 0)
    (hsize : 0 < layout.size) (hmul : layout.size % layout.align = 0)
    (hfits : capacity * layout.size + slabNode.size ≤ BASIC_PAGE_SIZE) (hcap : capacity ≠ 0)
    (j : ℕ) : (buffer + j * layout.size) % layout.align = 0 := by
  obtain ⟨e, he⟩ := exists_of_isPowerOfTwo layout.align_pow2
  have hle : layout.align ≤ layout.size := Nat.le_of_dvd hsize (Nat.dvd_of_mod_eq_zero hmul)
  have hone : layout.size ≤ capacity * layout.size :=
    Nat.le_mul_of_pos_left _ (Nat.pos_of_ne_zero hcap)
  have hlt : 2 ^ e < 2 ^ 12 := by
    simp only [BASIC_PAGE_SIZE, slabNode] at hfits
    omega
  have hdvd : layout.align ∣ BASIC_PAGE_SIZE := by
    rw [he]
    exact Nat.pow_dvd_pow 2 ((Nat.pow_lt_pow_iff_right (by omega)).mp hlt).le
  refine Nat.mod_eq_zero_of_dvd (Nat.dvd_add ?_ ?_)
  · exact hdvd.trans (Nat.dvd_of_mod_eq_zero hpage)
  · exact (Nat.dvd_of_mod_eq_zero hmul).mul_left j

/-- The free objects and one in use are no more than there are. -/
theorem Inv.length_lt (hI : Inv layout s) (ha : a ∈ s.live layout) :
    s.freeObjects.length < s.capacity := by
  have hsub : (a :: s.freeObjects) ⊆ slotList s.buffer layout 0 s.capacity := by
    intro x hx
    rcases List.mem_cons.mp hx with rfl | hx
    · exact mem_slotList.mpr ha.1
    · exact mem_slotList.mpr (hI.free_slots x hx)
  have hnodup : (a :: s.freeObjects).Nodup := List.nodup_cons.mpr ⟨ha.2, hI.nodup⟩
  have hle := (List.subperm_of_subset hnodup hsub).length_le
  rw [length_slotList] at hle
  exact hle

/-- A slab is unused when no object is in use. -/
theorem Inv.isEmpty_of_live (hI : Inv layout s) (hsize : 0 < layout.size)
    (h : s.live layout = ∅) : s.isEmpty := by
  have hsub : slotList s.buffer layout 0 s.capacity ⊆ s.freeObjects := by
    intro a ha
    by_contra hfree
    have hlive : a ∈ s.live layout := ⟨mem_slotList.mp ha, hfree⟩
    rw [h] at hlive
    exact hlive
  have hle := (List.subperm_of_subset (nodup_slotList _ 0 _ hsize) hsub).length_le
  have hcount := hI.count
  rw [length_slotList] at hle
  simp only [isEmpty, decide_eq_true_eq]
  omega

/-- `s'` is `s` with the free object `ptr` handed out. -/
structure Takes (layout : Layout) (s : Slab) (ptr : ℕ) (s' : Slab) : Prop where
  inv : Inv layout s'
  buffer : s'.buffer = s.buffer
  capacity : s'.capacity = s.capacity
  slot : ptr ∈ s.slots layout
  fresh : ptr ∉ s.live layout
  live : s'.live layout = insert ptr (s.live layout)

theorem allocate_nil (h : s.freeObjects = []) :
    s.allocate layout = (.error .slabFullInternalError, s) := by
  simp [allocate, h]

/-- Allocating takes the top of the stack. -/
theorem allocate_cons {rest : List ℕ} (h : s.freeObjects = ptr :: rest)
    (hal : ptr % layout.align = 0) :
    s.allocate layout =
      (.ok ptr, { s with freeObjects := rest, allocatedCount := s.allocatedCount + 1 }) := by
  simp [allocate, h, hal]

theorem Inv.aligned (hI : Inv layout s) (hsize : 0 < layout.size)
    (hmul : layout.size % layout.align = 0) (ha : a ∈ s.slots layout) : a % layout.align = 0 := by
  obtain ⟨k, hk, rfl⟩ := ha
  exact slot_aligned hI.page hsize hmul hI.fits (by omega) k

/-- The top of the stack is in use afterwards, and nothing else changes. -/
theorem Inv.takes (hI : Inv layout s) {rest : List ℕ} (hfree : s.freeObjects = ptr :: rest) :
    Takes layout s ptr
      { s with freeObjects := rest, allocatedCount := s.allocatedCount + 1 } := by
  have hslot : ptr ∈ s.slots layout := hI.free_slots ptr (by simp [hfree])
  have hnodup := hI.nodup
  rw [hfree, List.nodup_cons] at hnodup
  refine ⟨⟨hI.page, hI.nonnull, hI.fits, ?_, hnodup.2, ?_⟩, rfl, rfl, hslot, ?_, ?_⟩
  · exact fun x hx => hI.free_slots x (by simp [hfree, hx])
  · have := hI.count
    rw [hfree, List.length_cons] at this
    simp only
    omega
  · exact fun h => h.2 (by simp [hfree])
  · ext x
    simp only [live, slots, hfree, Set.mem_insert_iff, Set.mem_sep_iff, List.mem_cons, not_or]
    constructor
    · rintro ⟨hx, hrest⟩
      by_cases hxp : x = ptr
      · exact Or.inl hxp
      · exact Or.inr ⟨hx, hxp, hrest⟩
    · rintro (rfl | ⟨hx, -, hrest⟩)
      · exact ⟨hslot, hnodup.1⟩
      · exact ⟨hx, hrest⟩

/-- Allocating takes the top of the stack, if there is one. -/
theorem allocate_spec (hI : Inv layout s) (hsize : 0 < layout.size)
    (hmul : layout.size % layout.align = 0) :
    (s.freeObjects = [] ∧ s.allocate layout = (.error .slabFullInternalError, s)) ∨
      ∃ ptr s', s.allocate layout = (.ok ptr, s') ∧ Takes layout s ptr s' := by
  cases hfree : s.freeObjects with
  | nil => exact Or.inl ⟨rfl, allocate_nil hfree⟩
  | cons ptr rest =>
      have hslot : ptr ∈ s.slots layout := hI.free_slots ptr (by simp [hfree])
      exact Or.inr ⟨ptr, _, allocate_cons hfree (hI.aligned hsize hmul hslot), hI.takes hfree⟩

/-- Freeing an object in use puts it on the stack; the counter does not saturate. -/
theorem free_live (hI : Inv layout s) (hsize : 0 < layout.size) (h : ptr ∈ s.live layout) :
    ∃ s', s.free ptr layout = (.ok (), s') ∧ Inv layout s' ∧ s'.buffer = s.buffer ∧
      s'.capacity = s.capacity ∧ s'.live layout = s.live layout \ {ptr} ∧
      s'.allocatedCount + 1 = s.allocatedCount := by
  have hmod := ((mem_slots_iff hsize).mp h.1).2
  have hlt := hI.length_lt h
  have hcount := hI.count
  refine ⟨{ s with freeObjects := ptr :: s.freeObjects, allocatedCount := s.allocatedCount - 1 },
    by simp [free, hmod, h.2], ?_, rfl, rfl, ?_, by simp only; omega⟩
  · refine ⟨hI.page, hI.nonnull, hI.fits, ?_, List.nodup_cons.mpr ⟨h.2, hI.nodup⟩, ?_⟩
    · rintro x (_ | ⟨_, hx⟩)
      · exact h.1
      · exact hI.free_slots x hx
    · simp only [List.length_cons]
      omega
  · ext x
    simp only [live, slots, Set.mem_sep_iff, List.mem_cons, not_or, Set.mem_sdiff,
      Set.mem_singleton_iff]
    tauto

theorem free_of_free (hsize : 0 < layout.size) (h : ptr ∈ s.slots layout)
    (hfree : ptr ∈ s.freeObjects) : s.free ptr layout = (.error .doubleFree, s) := by
  simp [free, ((mem_slots_iff hsize).mp h).2, hfree]

theorem free_of_not_slot (hsize : 0 < layout.size) (hin : s.containsPtr ptr layout)
    (h : ptr ∉ s.slots layout) : s.free ptr layout = (.error .badPtrRange, s) := by
  have hmod : (ptr - s.buffer) % layout.size ≠ 0 := fun hmod =>
    h ((mem_slots_iff hsize).mpr ⟨hin, hmod⟩)
  simp [free, hmod]

end Slab

/-! ## The list of slabs -/

namespace InternalSlabAllocator

/-- The objects in use of a list of slabs. -/
def liveIn (layout : Layout) (slabs : List Slab) : Set ℕ := {a | ∃ s ∈ slabs, a ∈ s.live layout}

/-- The objects of all slabs, in use or free. -/
def slots (al : InternalSlabAllocator) : Set ℕ := {a | ∃ s ∈ al.slabs, a ∈ s.slots al.layout}

/-- The objects in use. -/
def live (al : InternalSlabAllocator) : Set ℕ := liveIn al.layout al.slabs

/-- The pages held. -/
def buffers (al : InternalSlabAllocator) : List ℕ := al.slabs.map Slab.buffer

/-- The allocator invariant. -/
structure Inv (al : InternalSlabAllocator) : Prop where
  size_pos : 0 < al.layout.size
  size_mul : al.layout.size % al.layout.align = 0
  pageCount_eq : al.pageCount = 1
  objectCount_eq : al.objectCount = calculateObjectCount slabNode al.layout 1
  slabs : ∀ s ∈ al.slabs, s.Inv al.layout ∧ s.capacity = al.objectCount
  distinct : al.buffers.Nodup

theorem mem_liveIn_append {xs ys : List Slab} :
    a ∈ liveIn layout (xs ++ ys) ↔ a ∈ liveIn layout xs ∨ a ∈ liveIn layout ys := by
  simp [liveIn, or_and_right, exists_or]

theorem mem_liveIn_cons : a ∈ liveIn layout (s :: slabs) ↔
    a ∈ s.live layout ∨ a ∈ liveIn layout slabs := by
  simp [liveIn]

/-- Objects of different slabs lie in different pages. -/
theorem Inv.slab_eq (hI : Inv al) {t : Slab} (hs : s ∈ al.slabs) (ht : t ∈ al.slabs)
    (ha : a ∈ s.slots al.layout) (hb : a ∈ t.slots al.layout) : s = t := by
  have hbuf : s.buffer = t.buffer := by
    rw [← (hI.slabs s hs).1.page_of_slot ha, (hI.slabs t ht).1.page_of_slot hb]
  exact List.inj_on_of_nodup_map hI.distinct hs ht hbuf

/-- Exchanging one slab for another in the same page. -/
theorem Inv.replace (hI : Inv al) {pre post : List Slab} (hsplit : al.slabs = pre ++ s :: post)
    (hs' : s'.Inv al.layout) (hbuf : s'.buffer = s.buffer) (hcap : s'.capacity = s.capacity) :
    Inv { al with slabs := pre ++ s' :: post } where
  size_pos := hI.size_pos
  size_mul := hI.size_mul
  pageCount_eq := hI.pageCount_eq
  objectCount_eq := hI.objectCount_eq
  slabs t ht := by
    have hmem : s ∈ al.slabs := by simp [hsplit]
    rcases List.mem_append.mp ht with ht | ht
    · exact hI.slabs t (by simp [hsplit, ht])
    · rcases List.mem_cons.mp ht with rfl | ht
      · exact ⟨hs', hcap.trans (hI.slabs s hmem).2⟩
      · exact hI.slabs t (by simp [hsplit, ht])
  distinct := by
    have := hI.distinct
    rw [buffers, hsplit] at this
    simpa [buffers, hbuf] using this

/-- What the other slabs have in use lies outside the exchanged slab. -/
theorem Inv.live_split (hI : Inv al) {pre post : List Slab}
    (hsplit : al.slabs = pre ++ s :: post) :
    ∃ others : Set ℕ, al.live = s.live al.layout ∪ others ∧
      (∀ s', liveIn al.layout (pre ++ s' :: post) = s'.live al.layout ∪ others) ∧
      Disjoint others (s.slots al.layout) := by
  have hlive : ∀ s', liveIn al.layout (pre ++ s' :: post) =
      s'.live al.layout ∪ liveIn al.layout (pre ++ post) := by
    intro s'
    ext a
    simp only [mem_liveIn_append, mem_liveIn_cons, Set.mem_union]
    tauto
  refine ⟨liveIn al.layout (pre ++ post), ?_, hlive, ?_⟩
  · rw [live, hsplit]
    exact hlive s
  · rw [Set.disjoint_left]
    rintro a ⟨t, ht, ha⟩ ha'
    have hsmem : s ∈ al.slabs := by simp [hsplit]
    have htmem : t ∈ al.slabs := by
      rw [hsplit]
      simp only [List.mem_append, List.mem_cons] at ht ⊢
      tauto
    have heq : s = t := hI.slab_eq hsmem htmem ha' ha.1
    subst heq
    have hnodup := hI.distinct
    rw [buffers, hsplit] at hnodup
    have hnot : s.buffer ∉ (pre ++ post).map Slab.buffer := by
      have := List.nodup_middle.mp (by simpa using hnodup)
      simpa using (List.nodup_cons.mp this).1
    exact hnot (List.mem_map_of_mem ht)

/-! ## The operations -/

/-- A page for a new slab: aligned, and not held already. -/
def FreshPage (held : List ℕ) (pages : Except PagingError ℕ) : Prop :=
  ∀ p, pages = .ok p → p % BASIC_PAGE_SIZE = 0 ∧ p ≠ 0 ∧ p ∉ held

theorem freshPage_ok_iff {held : List ℕ} {p : ℕ} :
    FreshPage held (.ok p) ↔ p % BASIC_PAGE_SIZE = 0 ∧ p ≠ 0 ∧ p ∉ held := by
  constructor
  · intro h
    exact h p rfl
  · rintro h q ⟨⟩
    exact h

theorem freshPage_error {held : List ℕ} {e : PagingError} : FreshPage held (.error e) := by
  rintro p ⟨⟩

instance (held : List ℕ) : (pages : Except PagingError ℕ) → Decidable (FreshPage held pages)
  | .ok _ => decidable_of_iff _ freshPage_ok_iff.symm
  | .error _ => isTrue freshPage_error

/-- The outcome of `allocate`. -/
structure Allocates (al : InternalSlabAllocator) (pages : Except PagingError ℕ)
    (r : Except SlabError ℕ) (al' : InternalSlabAllocator) : Prop where
  inv : Inv al'
  layout : al'.layout = al.layout
  buffers : al'.buffers = al.buffers ∨ ∃ p, pages = .ok p ∧ al'.buffers = al.buffers ++ [p]
  of_ok : ∀ ptr, r = .ok ptr → ptr ∈ al'.slots ∧ ptr ∉ al.live ∧ al'.live = insert ptr al.live
  of_error : ∀ e, r = .error e → al'.live = al.live

/-- Handing out an object of one slab. -/
theorem Inv.take (hI : Inv al) {pre post : List Slab} (hsplit : al.slabs = pre ++ s :: post)
    (h : s.Takes al.layout ptr s') :
    Inv { al with slabs := pre ++ s' :: post } ∧ ptr ∉ al.live ∧
      liveIn al.layout (pre ++ s' :: post) = insert ptr al.live := by
  obtain ⟨others, hlive, hrep, hdisj⟩ := hI.live_split hsplit
  refine ⟨hI.replace hsplit h.inv h.buffer h.capacity, ?_, ?_⟩
  · rw [hlive]
    rintro (hmem | hmem)
    · exact h.fresh hmem
    · exact Set.disjoint_left.mp hdisj hmem h.slot
  · rw [hrep, hlive, h.live, Set.insert_union]

/-- With every stack empty the first pass finds nothing, and touches nothing. -/
theorem allocateFrom_of_full (h : ∀ s ∈ slabs, s.freeObjects = []) :
    allocateFrom layout slabs = (none, slabs) := by
  induction slabs with
  | nil => rfl
  | cons s slabs ih =>
      rw [allocateFrom, Slab.allocate_nil (h s List.mem_cons_self),
        ih fun t ht => h t (List.mem_cons_of_mem s ht)]

/-- Otherwise it takes the top of the first stack that is not empty. -/
theorem allocateFrom_of_not_full (hal : ∀ s ∈ slabs, ∀ a ∈ s.freeObjects, a % layout.align = 0)
    (h : ¬ ∀ s ∈ slabs, s.freeObjects = []) :
    ∃ pre s post ptr rest, slabs = pre ++ s :: post ∧ s.freeObjects = ptr :: rest ∧
      allocateFrom layout slabs = (some ptr, pre ++
        { s with freeObjects := rest, allocatedCount := s.allocatedCount + 1 } :: post) := by
  induction slabs with
  | nil => simp at h
  | cons s slabs ih =>
      cases hfree : s.freeObjects with
      | nil =>
          have hrest : ¬ ∀ t ∈ slabs, t.freeObjects = [] := by
            intro hall
            exact h (List.forall_mem_cons.mpr ⟨hfree, hall⟩)
          obtain ⟨pre, t, post, ptr, rest, rfl, ht, hrun⟩ :=
            ih (fun t ht => hal t (List.mem_cons_of_mem s ht)) hrest
          refine ⟨s :: pre, t, post, ptr, rest, rfl, ht, ?_⟩
          rw [allocateFrom, Slab.allocate_nil hfree, hrun]
          rfl
      | cons ptr rest =>
          have hptr := hal s List.mem_cons_self ptr (by simp [hfree])
          refine ⟨[], s, slabs, ptr, rest, rfl, hfree, ?_⟩
          rw [allocateFrom, Slab.allocate_cons hfree hptr]
          rfl

theorem allocateFrom_spec (hI : ∀ s ∈ slabs, s.Inv layout) (hsize : 0 < layout.size)
    (hmul : layout.size % layout.align = 0) :
    allocateFrom layout slabs = (none, slabs) ∨
      ∃ pre s post ptr s', slabs = pre ++ s :: post ∧ s.Takes layout ptr s' ∧
        allocateFrom layout slabs = (some ptr, pre ++ s' :: post) := by
  by_cases hfull : ∀ s ∈ slabs, s.freeObjects = []
  · exact Or.inl (allocateFrom_of_full hfull)
  · have hal : ∀ s ∈ slabs, ∀ a ∈ s.freeObjects, a % layout.align = 0 := fun s hs a ha =>
      (hI s hs).aligned hsize hmul ((hI s hs).free_slots a ha)
    obtain ⟨pre, s, post, ptr, rest, hsplit, hfree, hrun⟩ := allocateFrom_of_not_full hal hfull
    exact Or.inr ⟨pre, s, post, ptr, _, hsplit, (hI s (by simp [hsplit])).takes hfree, hrun⟩

theorem Inv.sized (hI : Inv al) : Sized al := sized_of_one hI.pageCount_eq hI.objectCount_eq

theorem Inv.fits (hI : Inv al) :
    al.objectCount * al.layout.size + slabNode.size ≤ BASIC_PAGE_SIZE := by
  obtain ⟨hbehind, -, hinside⟩ := hI.sized.nodeFits
  rw [hI.pageCount_eq] at hinside
  omega

/-- Growing adds a slab with no object in use. -/
theorem grow_spec {p : ℕ} (hI : Inv al) (hp : FreshPage al.buffers (.ok p)) :
    ∃ s, grow m (.ok p) al = .ok (.ok (), { al with slabs := al.slabs ++ [s] }) ∧
      s.Inv al.layout ∧ s.buffer = p ∧ s.live al.layout = ∅ ∧
      Inv { al with slabs := al.slabs ++ [s] } := by
  obtain ⟨hpage, hnn, hnot⟩ := hp p rfl
  obtain ⟨s, hnew, hs, hbuf, hcap, hlive⟩ := Slab.new_spec al.objectCount hpage hnn
    (fun hcap => Slab.slot_aligned hpage hI.size_pos hI.size_mul hI.fits hcap)
    hI.size_pos hI.fits
  refine ⟨s, ?_, hs, hbuf, hlive, ?_⟩
  · rw [hI.sized.grow_ok, addSlab, hnew]
  · refine ⟨hI.size_pos, hI.size_mul, hI.pageCount_eq, hI.objectCount_eq, ?_, ?_⟩
    · intro t ht
      rcases List.mem_append.mp ht with ht | ht
      · exact hI.slabs t ht
      · rw [List.mem_singleton.mp ht]
        exact ⟨hs, hcap⟩
    · simp only [buffers, List.map_append, List.map_cons, List.map_nil, hbuf]
      refine List.nodup_append.mpr ⟨hI.distinct, List.nodup_singleton p, ?_⟩
      intro x hx y hy hxy
      rw [List.mem_singleton.mp hy] at hxy
      exact hnot (hxy ▸ hx)

theorem mem_slots_of_live (h : a ∈ al.live) : a ∈ al.slots := by
  obtain ⟨s, hs, ha⟩ := h
  exact ⟨s, hs, ha.1⟩

/-- The second try takes an object of the new slab, if it has one. -/
theorem allocateBack_spec (hI : Inv { al with slabs := slabs ++ [s] }) :
    allocateBack { al with slabs := slabs ++ [s] } =
        (.error .slabFullInternalError, { al with slabs := slabs ++ [s] }) ∨
      ∃ ptr s', s.Takes al.layout ptr s' ∧ allocateBack { al with slabs := slabs ++ [s] } =
        (.ok ptr, { al with slabs := slabs ++ [s'] }) := by
  have hs : s.Inv al.layout := (hI.slabs s (by simp)).1
  rcases Slab.allocate_spec hs hI.size_pos hI.size_mul with ⟨-, hrun⟩ | ⟨ptr, s', hrun, htakes⟩
  · exact Or.inl (by simp [allocateBack, hrun])
  · exact Or.inr ⟨ptr, s', htakes, by simp [allocateBack, hrun]⟩

theorem allocate_of_none {pages : Except PagingError ℕ}
    (h : allocateFrom al.layout al.slabs = (none, al.slabs)) :
    allocate m pages al = grow m pages al >>= fun
      | (.error e, al') => .ok (.error e, al')
      | (.ok (), al') => .ok al'.allocateBack := by
  rewrite [allocate, h]
  rfl

/-- Handing out an object of one slab, in the words of `Allocates`. -/
theorem Allocates.of_take (pages : Except PagingError ℕ) (hI : Inv al) {pre post : List Slab}
    (hsplit : al.slabs = pre ++ s :: post) (h : s.Takes al.layout ptr s') :
    Allocates al pages (.ok ptr) { al with slabs := pre ++ s' :: post } := by
  obtain ⟨hI', hfresh, hins⟩ := hI.take hsplit h
  refine ⟨hI', rfl, Or.inl (by simp [InternalSlabAllocator.buffers, hsplit, h.buffer]), ?_, ?_⟩
  · rintro _ ⟨⟩
    refine ⟨mem_slots_of_live ?_, hfresh, hins⟩
    rw [live, hins]
    exact Set.mem_insert _ _
  · rintro e ⟨⟩

theorem allocate_spec {pages : Except PagingError ℕ} (hI : Inv al)
    (hp : FreshPage al.buffers pages) :
    ∃ r al', allocate m pages al = .ok (r, al') ∧ Allocates al pages r al' := by
  rcases allocateFrom_spec (fun s hs => (hI.slabs s hs).1) hI.size_pos hI.size_mul with
    hnone | ⟨pre, s, post, ptr, s', hsplit, htakes, hfrom⟩
  · rw [allocate_of_none hnone]
    cases pages with
    | error e =>
        refine ⟨.error .pagingError, al, rfl, hI, rfl, Or.inl rfl, ?_, fun _ _ => rfl⟩
        rintro ptr ⟨⟩
    | ok p =>
        obtain ⟨s, hgrow, hs, hbuf, hlive, hI'⟩ := grow_spec (m := m) hI hp
        have hbuf' : ({ al with slabs := al.slabs ++ [s] } : InternalSlabAllocator).buffers =
            al.buffers ++ [p] := by simp [buffers, hbuf]
        have hlive' : ({ al with slabs := al.slabs ++ [s] } : InternalSlabAllocator).live =
            al.live := by
          ext a
          simp only [live, mem_liveIn_append, mem_liveIn_cons, hlive, Set.mem_empty_iff_false]
          simp [liveIn]
        rw [hgrow, ok_bind]
        rcases allocateBack_spec hI' with hback | ⟨ptr, s', htakes, hback⟩
        · refine ⟨_, _, congrArg _ hback, hI', rfl, Or.inr ⟨p, rfl, hbuf'⟩, ?_, fun _ _ => hlive'⟩
          rintro ptr ⟨⟩
        · have hsplit : al.slabs ++ [s] = al.slabs ++ s :: [] := rfl
          have h := Allocates.of_take (.ok p) hI' hsplit htakes
          refine ⟨_, _, congrArg _ hback, h.inv, rfl, ?_, ?_, ?_⟩
          · refine Or.inr ⟨p, rfl, ?_⟩
            simp [buffers, htakes.buffer, hbuf]
          · rw [← hlive']
            exact h.of_ok
          · rintro e ⟨⟩
  · exact ⟨_, _, by rw [allocate, hfrom], Allocates.of_take _ hI hsplit htakes⟩

theorem freeIn_spec (layout : Layout) (ptr : ℕ) (slabs : List Slab) :
    (freeIn layout ptr slabs = (.error .badPtrRange, slabs) ∧
      ∀ s ∈ slabs, ¬ s.containsPtr ptr layout) ∨
      ∃ pre s post, slabs = pre ++ s :: post ∧ s.containsPtr ptr layout ∧
        freeIn layout ptr slabs =
          ((s.free ptr layout).1, pre ++ (s.free ptr layout).2 :: post) := by
  induction slabs with
  | nil => exact Or.inl ⟨rfl, by simp⟩
  | cons s slabs ih =>
      by_cases hs : s.containsPtr ptr layout
      · exact Or.inr ⟨[], s, slabs, rfl, hs, by simp [freeIn, hs]⟩
      · rcases ih with ⟨hrun, hall⟩ | ⟨pre, t, post, rfl, ht, hrun⟩
        · refine Or.inl ⟨by simp [freeIn, hs, hrun], ?_⟩
          simpa [hs] using hall
        · exact Or.inr ⟨s :: pre, t, post, rfl, ht, by simp [freeIn, hs, hrun]⟩

/-- The objects of an allocator are aligned for its layout. -/
theorem Inv.slot_aligned (hI : Inv al) (ha : a ∈ al.slots) : a % al.layout.align = 0 := by
  obtain ⟨s, hs, hslot⟩ := ha
  exact (hI.slabs s hs).1.aligned hI.size_pos hI.size_mul hslot

/-- What is not an object is refused. -/
theorem free_of_not_slot (hI : Inv al) (h : ptr ∉ al.slots) :
    free ptr al = (.error .badPtrRange, al) := by
  unfold free
  split
  · rfl
  rcases freeIn_spec al.layout ptr al.slabs with
    ⟨hrun, -⟩ | ⟨pre, s, post, hsplit, hin, hrun⟩
  · rw [hrun]
  · have hslot : ptr ∉ s.slots al.layout := fun hs => h ⟨s, by simp [hsplit], hs⟩
    rw [hrun, Slab.free_of_not_slot hI.size_pos hin hslot, ← hsplit]

/-- For an object, `free` acts on its slab alone. -/
theorem free_of_slot (hI : Inv al) (hs : s ∈ al.slabs) (h : ptr ∈ s.slots al.layout) :
    ∃ pre post, al.slabs = pre ++ s :: post ∧ free ptr al = ((s.free ptr al.layout).1,
      { al with slabs := pre ++ (s.free ptr al.layout).2 :: post }) := by
  have hal : ptr % al.layout.align = 0 := hI.slot_aligned ⟨s, hs, h⟩
  have hin := ((Slab.mem_slots_iff hI.size_pos).mp h).1
  rcases freeIn_spec al.layout ptr al.slabs with
    ⟨-, hall⟩ | ⟨pre, t, post, hsplit, hint, hrun⟩
  · exact absurd hin (hall s hs)
  · have htmem : t ∈ al.slabs := by simp [hsplit]
    -- Only one slab has the pointer in its range, as the range lies in the slab's page.
    have hpage : ∀ {u : Slab}, u ∈ al.slabs → u.containsPtr ptr al.layout →
        u.buffer = ptr / BASIC_PAGE_SIZE * BASIC_PAGE_SIZE := by
      intro u hu hptr
      have huI := (hI.slabs u hu).1
      have hup := huI.page
      have hfits := huI.fits
      simp only [Slab.containsPtr, decide_eq_true_eq] at hptr
      simp only [BASIC_PAGE_SIZE, slabNode] at hup hfits ⊢
      omega
    have heq : s = t := List.inj_on_of_nodup_map hI.distinct hs htmem
      ((hpage hs hin).trans (hpage htmem hint).symm)
    subst heq
    exact ⟨pre, post, hsplit, by simp [free, hal, hrun]⟩

theorem free_of_free (hI : Inv al) (hslot : ptr ∈ al.slots) (h : ptr ∉ al.live) :
    free ptr al = (.error .doubleFree, al) := by
  obtain ⟨s, hs, hmem⟩ := hslot
  have hfree : ptr ∈ s.freeObjects := by
    by_contra hnot
    exact h ⟨s, hs, hmem, hnot⟩
  obtain ⟨pre, post, hsplit, hrun⟩ := free_of_slot hI hs hmem
  rw [hrun, Slab.free_of_free hI.size_pos hmem hfree, ← hsplit]

/-- Freeing a live object. -/
theorem free_live (hI : Inv al) (h : ptr ∈ al.live) :
    ∃ al', free ptr al = (.ok (), al') ∧ Inv al' ∧ al'.layout = al.layout ∧
      al'.buffers = al.buffers ∧ al'.live = al.live \ {ptr} := by
  obtain ⟨s, hs, hmem⟩ := h
  obtain ⟨pre, post, hsplit, hrun⟩ := free_of_slot hI hs hmem.1
  obtain ⟨s', hs', hI', hbuf, hcap, hlive, -⟩ := Slab.free_live (hI.slabs s hs).1 hI.size_pos hmem
  obtain ⟨others, hold, hrep, hdisj⟩ := hI.live_split hsplit
  rw [hs'] at hrun
  refine ⟨_, hrun, hI.replace hsplit hI' hbuf hcap, rfl, by simp [buffers, hsplit, hbuf], ?_⟩
  have hnot : ptr ∉ others := fun ho => Set.disjoint_left.mp hdisj ho hmem.1
  rw [live, hrep, hold, hlive]
  ext x
  simp only [Set.mem_union, Set.mem_sdiff, Set.mem_singleton_iff]
  constructor
  · rintro (⟨hx, hne⟩ | hx)
    · exact ⟨Or.inl hx, hne⟩
    · exact ⟨Or.inr hx, fun heq => hnot (heq ▸ hx)⟩
  · rintro ⟨hx | hx, hne⟩
    · exact Or.inl ⟨hx, hne⟩
    · exact Or.inr hx

/-- An unused slab has no object in use. -/
theorem live_of_isEmpty (hs : s.Inv layout) (h : s.isEmpty) : s.live layout = ∅ := by
  rw [Set.eq_empty_iff_forall_notMem]
  intro a ha
  have hlt := hs.length_lt ha
  have hcount := hs.count
  simp only [Slab.isEmpty, decide_eq_true_eq] at h
  omega

/-- The loop drops the unused slabs in front of the first that is in use. -/
theorem reapGo_eq {freePages : ℕ → ℕ → Except PagingError Unit} {n : ℕ}
    (hpage : ∀ s ∈ slabs, s.buffer % BASIC_PAGE_SIZE = 0)
    (hfree : ∀ s ∈ slabs, freePages s.buffer n = .ok ()) :
    reapGo m freePages n slabs =
      .ok ((slabs.takeWhile Slab.isEmpty).length, slabs.dropWhile Slab.isEmpty) := by
  induction slabs with
  | nil => rfl
  | cons s slabs ih =>
      have hrest := ih (fun t ht => hpage t (List.mem_cons_of_mem s ht))
        fun t ht => hfree t (List.mem_cons_of_mem s ht)
      by_cases hempty : s.isEmpty
      · simp [reapGo, hempty, hpage s List.mem_cons_self, hfree s List.mem_cons_self, hrest]
      · simp [reapGo, hempty]

/-- Reaping drops slabs without an object in use from the front. -/
theorem reapGo_spec {freePages : ℕ → ℕ → Except PagingError Unit} {n : ℕ}
    (hI : ∀ s ∈ slabs, s.Inv layout) (hfree : ∀ p, freePages p n = .ok ()) :
    ∃ dropped slabs', reapGo m freePages n slabs = .ok (dropped.length, slabs') ∧
      slabs = dropped ++ slabs' ∧ ∀ s ∈ dropped, s.live layout = ∅ := by
  refine ⟨_, _, reapGo_eq (fun s hs => (hI s hs).page) fun s _ => hfree s.buffer,
    List.takeWhile_append_dropWhile.symm, fun s hs => ?_⟩
  have hmem := (List.takeWhile_sublist _).subset hs
  exact live_of_isEmpty (hI s hmem) (List.all_eq_true.mp List.all_takeWhile s hs)

theorem reap_spec {freePages : ℕ → ℕ → Except PagingError Unit} (hI : Inv al)
    (hfree : ∀ p n, freePages p n = .ok ()) :
    ∃ dropped al', reap m freePages al = .ok (dropped.length, al') ∧ Inv al' ∧
      al'.layout = al.layout ∧ al.slabs = dropped ++ al'.slabs ∧
      (∀ s ∈ dropped, s.live al.layout = ∅) ∧ al'.live = al.live := by
  obtain ⟨dropped, slabs', hrun, hsplit, hdrop⟩ := reapGo_spec (m := m) (n := al.pageCount)
    (fun s hs => (hI.slabs s hs).1) fun p => hfree p _
  refine ⟨dropped, { al with slabs := slabs' }, by rw [reap, hrun]; rfl, ?_, rfl, hsplit, hdrop, ?_⟩
  · refine ⟨hI.size_pos, hI.size_mul, hI.pageCount_eq, hI.objectCount_eq, ?_, ?_⟩
    · exact fun s hs => hI.slabs s (by rw [hsplit]; exact List.mem_append_right _ hs)
    · have := hI.distinct
      rw [buffers, hsplit, List.map_append] at this
      exact (List.nodup_append.mp this).2.1
  · ext a
    rw [live, live, hsplit, mem_liveIn_append]
    constructor
    · exact Or.inr
    · rintro (⟨s, hs, ha⟩ | ha)
      · rw [hdrop s hs] at ha
        exact absurd ha (Set.notMem_empty a)
      · exact ha

theorem inv_new (h : (adjustLayout layout).size % (adjustLayout layout).align = 0) :
    Inv (new layout) where
  size_pos := by simp only [new, adjustLayout, objectNode]; omega
  size_mul := h
  pageCount_eq := rfl
  objectCount_eq := rfl
  slabs s hs := by cases hs
  distinct := List.nodup_nil

theorem live_new (layout : Layout) : (new layout).live = ∅ := by
  simp [live, liveIn, new]

end InternalSlabAllocator

end Funderberker

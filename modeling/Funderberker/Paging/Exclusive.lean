import Funderberker.Paging.Manager
import Funderberker.Paging.Refine

/-!
# Every frame has one role

A frame is free in the PMM, or used as a table, or mapped by one page.  `FrameInv`
adds to the invariant of the tables that the frames of mapped pages are respected by
the PMM, are no tables, and are all different; `allocate_pages` and `free_pages` keep
it, whatever they return.

`free_pages` unmaps all its pages in its first turn and then frees the frame of the
first page, which no entry maps any more; its second turn finds nothing to translate.

## Main definitions

* `FrameInv` — the invariant.
* `FrameReaches` — runs of `allocate_pages` and `free_pages`.
* `FramesExclusive` — no frame has two roles.

## Main results

* `frames_exclusive`.
-/

namespace Funderberker

open Panicking PageTable

section Invariant

variable {σ : Type} [PmmAllocator σ] {m : Overflow} {r : PhysAddr} {w w' : World σ}
  {bound : ℕ} {respects : Set PhysAddr → σ → Prop} {U U' : Set PhysAddr} {W W' : ℕ → Word}
  {n k i : ℕ} {res : Except PagingError Unit}

/-! ## The invariant -/

/-- The frames of mapped pages, given the tables. -/
structure Mappings (bound : ℕ) (T U : Set PhysAddr) (W : ℕ → Word) : Prop where
  used : ∀ k, Present (W k) → Entry.frame (W k) ∈ U
  noTable : ∀ k, Present (W k) → Entry.frame (W k) ∉ T
  below : ∀ k, Present (W k) → Entry.frame (W k) < bound
  injective : ∀ k l, Present (W k) → Present (W l) →
    Entry.frame (W k) = Entry.frame (W l) → k = l

/-- The invariant of tables and frames. -/
structure FrameInv (bound : ℕ) (respects : Set PhysAddr → σ → Prop) (r : PhysAddr)
    (U : Set PhysAddr) (w : World σ) : Prop where
  tables : TableInv respects r U w
  mappings : Mappings bound (PageTable.tables w.mem r) U (word w.mem r)

/-- New tables lie in frames that were not used. -/
theorem Mappings.grow {T T' : Set PhysAddr} (h : Mappings bound T U W) (hU : U ⊆ U')
    (hT : ∀ t ∈ T', t ∈ T ∨ t ∉ U) : Mappings bound T' U' W where
  used k hk := hU (h.used k hk)
  noTable k hk hmem := by
    rcases hT _ hmem with ht | ht
    · exact h.noTable k hk ht
    · exact ht (h.used k hk)
  below := h.below
  injective := h.injective

/-- A page is mapped to a frame that was not used. -/
theorem Mappings.map {T : Set PhysAddr} (h : Mappings bound T U W) {e : Word}
    (hnew : Entry.frame e ∉ U) (hU : insert (Entry.frame e) U ⊆ U') (hT : Entry.frame e ∉ T)
    (hlt : Entry.frame e < bound) : Mappings bound T U' (Function.update W k e) where
  used := (Function.forall_update_iff W fun _ e => Present e → Entry.frame e ∈ U').mpr
    ⟨fun _ => hU (Set.mem_insert _ U), fun l _ hl => hU (Set.mem_insert_of_mem _ (h.used l hl))⟩
  noTable := (Function.forall_update_iff W fun _ e => Present e → Entry.frame e ∉ T).mpr
    ⟨fun _ => hT, fun l _ => h.noTable l⟩
  below := (Function.forall_update_iff W fun _ e => Present e → Entry.frame e < bound).mpr
    ⟨fun _ => hlt, fun l _ => h.below l⟩
  injective l j hl hj heq := by
    by_cases hlk : l = k
    · by_cases hjk : j = k
      · rw [hlk, hjk]
      · subst hlk
        rw [Function.update_self, Function.update_of_ne hjk] at heq
        rw [Function.update_of_ne hjk] at hj
        exact absurd (heq ▸ h.used j hj) hnew
    · rw [Function.update_of_ne hlk] at hl heq
      by_cases hjk : j = k
      · subst hjk
        rw [Function.update_self] at heq
        exact absurd (heq ▸ h.used l hl) hnew
      · rw [Function.update_of_ne hjk] at hj heq
        exact h.injective l j hl hj heq

/-- Pages are unmapped, and the frame of one of them is given back. -/
theorem Mappings.unmap {T : Set PhysAddr} (h : Mappings bound T U W)
    (hsub : ∀ l, Present (W' l) → W' l = W l) (hU : ∀ l, Present (W' l) →
      Entry.frame (W' l) ∈ U → Entry.frame (W' l) ∈ U') : Mappings bound T U' W' := by
  have hold : ∀ l, Present (W' l) → Present (W l) := fun l hl => hsub l hl ▸ hl
  refine ⟨fun l hl => hU l hl ?_, fun l hl => ?_, fun l hl => ?_, fun l j hl hj heq => ?_⟩
  · rw [hsub l hl]
    exact h.used l (hold l hl)
  · rw [hsub l hl]
    exact h.noTable l (hold l hl)
  · rw [hsub l hl]
    exact h.below l (hold l hl)
  · rw [hsub l hl, hsub j hj] at heq
    exact h.injective l j (hold l hl) (hold j hj) heq

/-! ## Passes -/

/-- Unmapping leaves the entries that stay present as they were. -/
theorem PageTable.Unmaps.eq_of_present (h : Unmaps n k i W W' res) :
    ∀ l, Present (W' l) → W' l = W l := by
  refine Processed.preserves (J := fun V => ∀ l, Present (V l) → V l = W l) h ?_ fun _ _ => rfl
  intro V j _ hV _
  exact (Function.forall_update_iff V fun l e => Present e → e = W l).mpr
    ⟨fun hpres => absurd hpres (not_present_released _), fun l _ => hV l⟩

/-- A pass of at least one page that succeeds unmaps its first page. -/
theorem PageTable.Unmaps.first_absent (h : Unmaps n k i W W' (.ok ())) (hn : 1 ≤ n) :
    ¬ Present (W' k) := by
  cases h with
  | done => omega
  | next _ hrest =>
      refine Processed.preserves (J := fun V => ¬ Present (V k)) hrest ?_ ?_
      · intro V j _ hV _
        by_cases hkj : k = j
        · subst hkj
          rw [Function.update_self]
          exact not_present_released _
        · rw [Function.update_of_ne hkj]
          exact hV
      · rw [Function.update_self]
        exact not_present_released _

theorem frameAt_zero {a : ℕ} (ha : a < 2 ^ 64) : frameAt a 0 = a := by
  rw [frameAt, Nat.zero_mul, Nat.add_zero, Nat.mod_eq_of_lt ha]

theorem reach_one (base : VirtAddr) : reach base 1 = 1 := by
  rw [reach, ENTRIES_PER_TABLE]
  omega

/-- A pass of one page. -/
theorem PageTable.Maps.one {phys : ℕ} {flags : Flags} (h : Maps phys flags 1 k 0 W W' res) :
    Present (W k) ∧ W' = W ∧ res = .error .pageAlreadyPresent ∨
      ¬ Present (W k) ∧ W' = Function.update W k (Entry.leaf (frameAt phys 0) flags) ∧
        res = .ok () := by
  cases h with
  | stop h => exact Or.inl ⟨not_not.mp h, rfl, rfl⟩
  | next h hrest =>
      cases hrest
      exact Or.inr ⟨h, rfl, rfl⟩

/-! ## The steps -/

/-- What mapping one page to the frame `a` leaves behind, where `U` are the other frames in
use. -/
structure PageMapped (bound : ℕ) (respects : Set PhysAddr → σ → Prop) (r : PhysAddr)
    (U : Set PhysAddr) (a : PhysAddr) (base : VirtAddr) (flags : Flags) (W : ℕ → Word)
    (U' : Set PhysAddr) (x : Except PagingError Unit × World σ) : Prop where
  inv : FrameInv bound respects r U' x.2
  subset : insert a U ⊆ U'
  added : U' ⊆ insert a U ∪ PageTable.tables x.2.mem r
  noTable : a ∉ PageTable.tables x.2.mem r
  mapped : x.1 = .ok () → base % 4096 = 0 ∧
    word x.2.mem r = Function.update W (pageOf base) (Entry.leaf a flags)

/-- Mapping one page to a frame that the PMM has just handed out. -/
theorem FrameInv.mapPage (law : Supplies σ m bound respects) (hI : FrameInv bound respects r U w)
    {a : ℕ} {pmm : σ} (hmod : a % 4096 = 0) (hlt : a < bound) (hnew : a ∉ U)
    (hres : respects (insert a U) pmm) (base : VirtAddr) {flags : Flags} (hf : flags.Plain) :
    Yields (Stops σ m)
      (fun x => ∃ U', PageMapped bound respects r U a base flags (word w.mem r) U' x)
      (mapPages m r { w with pmm := pmm } base a 1 .size4kb flags) := by
  have ha64 : a < 2 ^ 64 := hlt.trans_le law.bound_le
  have hsub : U ⊆ insert a U := Set.subset_insert a U
  have hS : Shape w.mem r (insert a U) :=
    hI.tables.shape.resize (hI.tables.shape.tables_subset.trans hsub)
  have hsame : FrameInv bound respects r (insert a U) { w with pmm := pmm } :=
    ⟨⟨hS, hres, hI.tables.leaves⟩, hI.mappings.grow hsub fun _ => Or.inl⟩
  have hold : a ∉ PageTable.tables w.mem r := fun ht => hnew (hI.tables.shape.tables_subset ht)
  have hfailed : ∀ (e : PagingError) {P : Prop}, (.error e : Except PagingError Unit) = .ok () → P :=
    fun _ _ h => by cases h
  refine (mapPages_spec law (w := { w with pmm := pmm }) hS hres base a 1 flags).imp ?_
  intro x hx
  cases hx with
  | misalignedVirt => exact ⟨_, hsame, subset_rfl, Set.subset_union_left, hold, hfailed _⟩
  | misalignedPhys => exact ⟨_, hsame, subset_rfl, Set.subset_union_left, hold, hfailed _⟩
  | tooMany _ _ hcount =>
      rw [ENTRIES_PER_TABLE] at hcount
      omega
  | @pass U' w' res hbase _ _ hafter hpass =>
      have hgrown := hsame.mappings.grow hafter.subset hafter.fresh
      -- The new frame is no table: the old tables are used, the new ones are not `a`.
      have hnoTable : a ∉ PageTable.tables w'.mem r := by
        intro hmem
        rcases hafter.fresh a hmem with ht | ht
        · exact hold ht
        · exact ht (Set.mem_insert a U)
      have htables : TableInv respects r U' w' :=
        ⟨hafter.shape, hafter.respects, hpass.leaves hmod hf hI.tables.leaves⟩
      rw [reach_one] at hpass
      rcases hpass.one with ⟨-, hW, rfl⟩ | ⟨-, hW, -⟩
      · exact ⟨_, ⟨htables, hW ▸ hgrown⟩, hafter.subset, hafter.added, hnoTable, hfailed _⟩
      · rw [frameAt_zero ha64] at hW
        refine ⟨_, ⟨htables, ?_⟩, hafter.subset, hafter.added, hnoTable, fun _ => ⟨hbase, hW⟩⟩
        have hframe : Entry.frame (Entry.leaf a flags) = a := Entry.frame_leaf hmod ha64 hf
        have hgrow : Mappings bound (PageTable.tables w'.mem r) U (word w.mem r) :=
          hI.mappings.grow subset_rfl
            fun t ht => (hafter.fresh t ht).imp_right fun h hU => h (hsub hU)
        dsimp only
        rw [hW]
        exact hgrow.map (hframe.symm ▸ hnew) (hframe.symm ▸ hafter.subset)
          (hframe.symm ▸ hnoTable) (hframe.symm ▸ hlt)

theorem FrameInv.allocatePagesGo (law : Supplies σ m bound respects)
    (hI : FrameInv bound respects r U w) (base : VirtAddr) {flags : Flags} (hf : flags.Plain) :
    Yields (fun _ => True) (fun x => ∃ U', FrameInv bound respects r U' x.2)
      (PagingManager.allocatePagesGo m r base flags .size4kb n i w) := by
  induction n generalizing i w U with
  | zero => exact ⟨U, hI⟩
  | succ n ih =>
      rw [PagingManager.allocatePagesGo, show PageSize.size4kb.toDefaultPageCount = 1 from rfl]
      refine (yields_any _).bind fun offset _ => (yields_any _).bind fun virtAddr _ => ?_
      cases hrun : PmmAllocator.allocate m w.pmm 1 1 with
      | error x => trivial
      | ok x =>
          obtain ⟨res, pmm⟩ := x
          cases res with
          | error _ => trivial
          | ok a =>
              obtain ⟨hmod, hlt, hnew, hres⟩ := law.allocate hI.tables.respected hrun
              rw [ok_bind]
              refine Yields.bind ((hI.mapPage law hmod hlt hnew hres virtAddr hf).allow
                fun _ _ => trivial) ?_
              rintro ⟨res, w'⟩ ⟨U', hmapped⟩
              cases res with
              | error _ => exact ⟨U', hmapped.inv⟩
              | ok _ => exact ih hmapped.inv

/-- The address of page 0 of a range is on the page of the range's address. -/
theorem pageOf_add_zero (addr : VirtAddr) : pageOf ((addr + 0) % 2 ^ 64) = pageOf addr := by
  have hcore : ∀ x : ℕ, x % 2 ^ 64 / 4096 % 2 ^ 36 = x / 4096 % 2 ^ 36 := by
    intro x
    omega
  exact hcore addr

/-- Unmapping pages and giving the frame of the first back. -/
theorem FrameInv.release (laws : Reclaims σ m bound respects) (hI : FrameInv bound respects r U w)
    (hw : Rewritten r U w w') (hpass : Unmaps n k i (word w.mem r) (word w'.mem r) (.ok ()))
    (hn : 1 ≤ n) (hk : Present (word w.mem r k)) {pmm : σ} {res : Except PmmError Unit}
    (hrun : PmmAllocator.free m w'.pmm (Entry.frame (word w.mem r k)) 1 = .ok (res, pmm)) :
    ∃ U', FrameInv bound respects r U' { w' with pmm := pmm } := by
  have hfirst := hpass.first_absent hn
  have hres := laws.free (hw.pmm_eq ▸ hI.tables.respected) (hI.mappings.used k hk)
    (Entry.frame_mod _) (hI.mappings.below k hk) hrun
  have hsub : PageTable.tables w'.mem r ⊆ U \ {Entry.frame (word w.mem r k)} := by
    intro t ht
    rw [hw.tables_eq] at ht
    refine ⟨hI.tables.shape.tables_subset ht, ?_⟩
    rintro rfl
    exact hI.mappings.noTable k hk ht
  refine ⟨_, ⟨hw.shape.resize hsub, hres, hpass.leaves hI.tables.leaves⟩, ?_⟩
  dsimp only
  rw [hw.tables_eq]
  refine hI.mappings.unmap hpass.eq_of_present fun l hl hU => ⟨hU, fun heq => ?_⟩
  -- An entry with the freed frame is the first one, which is absent.
  have hWl := hpass.eq_of_present l hl
  rw [Set.mem_singleton_iff, hWl] at heq
  have hlk := hI.mappings.injective l k (hWl ▸ hl) hk heq
  exact hfirst (hlk ▸ hl)

/-- A turn of `free_pages` whose first page is not mapped. -/
theorem FrameInv.freePagesGo_absent (hI : FrameInv bound respects r U w) {ptr : VirtAddr}
    (habsent : ¬ Present (word w.mem r (pageOf ptr))) (count : ℕ) :
    Yields (fun _ => True) (· = (.error .pageNotPresent, w))
      (PagingManager.freePagesGo m r ptr count .size4kb (n + 1) i w) := by
  rw [PagingManager.freePagesGo, translate_eq hI.tables.shape hI.tables.leaves.last,
    target_of_absent habsent]
  refine (yields_any _).bind fun offset _ => (yields_any _).bind fun addr _ => ?_
  rfl

/-- The first turn of `free_pages`: it fails, or unmaps the first page. -/
theorem FrameInv.freePagesGo_first (laws : Reclaims σ m bound respects)
    (hI : FrameInv bound respects r U w) {ptr : VirtAddr} {count : ℕ} (hcount : 1 ≤ count)
    (hpres : Present (word w.mem r (pageOf ptr))) {Q : Except PagingError Unit × World σ → Prop}
    (hfail : ∀ U' w' e, FrameInv bound respects r U' w' → Q (.error e, w'))
    (hnext : ∀ i U' w', FrameInv bound respects r U' w' → ¬ Present (word w'.mem r (pageOf ptr)) →
      Yields (fun _ => True) Q (PagingManager.freePagesGo m r ptr count .size4kb n i w')) :
    Yields (fun _ => True) Q (PagingManager.freePagesGo m r ptr count .size4kb (n + 1) 0 w) := by
  rw [PagingManager.freePagesGo, show PageSize.size4kb.toDefaultPageCount = 1 from rfl,
    translate_eq hI.tables.shape hI.tables.leaves.last, Usize.mul_eq (by omega), ok_bind,
    Nat.zero_mul, target_of_present hpres]
  refine ((Usize.add_spec m ptr 0).allow fun _ _ => trivial).bind ?_
  intro addr haddr
  have hpage : pageOf addr = pageOf ptr := haddr ▸ pageOf_add_zero ptr
  rw [ok_bind]
  refine ((unmapPages_spec hI.tables.shape hI.tables.leaves.noneAllocated addr count).allow
    fun _ _ => trivial).bind ?_
  intro x hx
  cases hx with
  | misalignedVirt => exact hfail U w _ hI
  | noTable => exact hfail U w _ hI
  | tooMany => exact hfail U w _ hI
  | @pass w' res _ _ hw hpass =>
      rw [hpage] at hpass
      cases res with
      | error _ =>
          refine hfail U w' _ ⟨⟨hw.shape, hw.pmm_eq ▸ hI.tables.respected,
            hpass.leaves hI.tables.leaves⟩, ?_⟩
          rw [hw.tables_eq]
          exact hI.mappings.unmap hpass.eq_of_present fun _ _ => id
      | ok _ =>
          have hreach : 1 ≤ reach addr count := by
            rw [reach, ENTRIES_PER_TABLE]
            omega
          cases hrun : PmmAllocator.free m w'.pmm (Entry.frame (word w.mem r (pageOf ptr))) 1 with
          | error _ => simp [hrun]
          | ok x =>
              obtain ⟨res, pmm⟩ := x
              obtain ⟨U', hI'⟩ := hI.release laws hw hpass hreach hpres hrun
              simp only [hrun, ok_bind]
              cases res with
              | error _ => exact hfail U' _ _ hI'
              | ok _ => exact hnext _ U' _ hI' (hpass.first_absent hreach)

theorem FrameInv.freePagesGo (laws : Reclaims σ m bound respects)
    (hI : FrameInv bound respects r U w) (ptr : VirtAddr) {count : ℕ} (hcount : 1 ≤ count) :
    Yields (fun _ => True) (fun x => ∃ U', FrameInv bound respects r U' x.2)
      (PagingManager.freePagesGo m r ptr count .size4kb n 0 w) := by
  have habsent : ∀ n i U w, FrameInv bound respects r U w →
      ¬ Present (word w.mem r (pageOf ptr)) →
      Yields (fun _ => True) (fun x => ∃ U', FrameInv bound respects r U' x.2)
        (PagingManager.freePagesGo m r ptr count .size4kb n i w) := by
    intro n i U w hI habsent
    cases n with
    | zero => exact ⟨U, hI⟩
    | succ n =>
        refine (hI.freePagesGo_absent habsent count).imp ?_
        rintro x rfl
        exact ⟨U, hI⟩
  by_cases hpres : Present (word w.mem r (pageOf ptr))
  · cases n with
    | zero => exact ⟨U, hI⟩
    | succ n =>
        exact hI.freePagesGo_first laws hcount hpres (fun U' _ _ hI' => ⟨U', hI'⟩)
          (habsent n)
  · exact habsent n 0 U w hI hpres

end Invariant

/-! ## Runs -/

/-- Runs of `allocate_pages` and `free_pages` for basic pages, whatever the calls
return.  What is freed need not have been allocated. -/
inductive FrameReaches (m : Overflow) (s₀ : PagingManager BuddyAllocator) :
    PagingManager BuddyAllocator → Prop
  | start : FrameReaches m s₀ s₀
  | allocate {s s' : PagingManager BuddyAllocator} {n : ℕ} {flags : Flags}
      {res : Except PagingError VirtAddr} (h : FrameReaches m s₀ s) (hf : flags.Built)
      (hrun : s.allocatePages m n flags .size4kb = .ok (res, s')) : FrameReaches m s₀ s'
  | free {s s' : PagingManager BuddyAllocator} {ptr : VirtAddr} {n : ℕ}
      {res : Except PagingError Unit} (h : FrameReaches m s₀ s)
      (hrun : s.freePages m ptr n .size4kb = .ok (res, s')) : FrameReaches m s₀ s'

/-- The numbers of the frames used as tables. -/
def tableFrames (s : PagingManager BuddyAllocator) : Set ℕ :=
  {f | ∃ t ∈ PageTable.tables s.world.mem s.pml, t / BASIC_PAGE_SIZE = f}

/-- The number of the frame of an entry. -/
def frameNumber (e : Word) : ℕ := Entry.frame e / BASIC_PAGE_SIZE

/-- The numbers of the frames mapped by a present entry. -/
def mappedFrames (s : PagingManager BuddyAllocator) : Set ℕ :=
  {f | ∃ k, Present (word s.world.mem s.pml k) ∧ frameNumber (word s.world.mem s.pml k) = f}

/-- No frame has two roles, and none is mapped twice. -/
structure FramesExclusive (s : PagingManager BuddyAllocator) : Prop where
  free_tables : Disjoint s.world.pmm.freePages (tableFrames s)
  free_mapped : Disjoint s.world.pmm.freePages (mappedFrames s)
  tables_mapped : Disjoint (tableFrames s) (mappedFrames s)
  mapped_once : ∀ k l, Present (word s.world.mem s.pml k) → Present (word s.world.mem s.pml l) →
    frameNumber (word s.world.mem s.pml k) = frameNumber (word s.world.mem s.pml l) → k = l

variable {m : Overflow} {T : ℕ} {s₀ s s' : PagingManager BuddyAllocator} {U : Set PhysAddr}

/-- The invariant at the buddy allocator. -/
abbrev BuddyInv (T : ℕ) (U : Set PhysAddr) (s : PagingManager BuddyAllocator) : Prop :=
  FrameInv (T * BASIC_PAGE_SIZE) (BuddyAllocator.Respects T) s.pml U s.world

theorem BuddyInv.allocatePages (hI : BuddyInv T U s) {n : ℕ} {flags : Flags}
    (hf : flags.Built) {res : Except PagingError VirtAddr}
    (hrun : s.allocatePages m n flags .size4kb = .ok (res, s')) : ∃ U', BuddyInv T U' s' := by
  obtain ⟨⟨base, vaa⟩, -, hrun⟩ := bind_eq_ok.mp hrun
  obtain ⟨⟨res', w⟩, hgo, hrun⟩ := bind_eq_ok.mp hrun
  have hlaw := BuddyAllocator.supplies m hI.tables.respected.inv.bound_le_word
  obtain ⟨U', hI'⟩ := (hI.allocatePagesGo hlaw base hf.plain).post hgo
  dsimp only at hI' hrun
  cases res' with
  | error _ =>
      cases hrun
      exact ⟨U', hI'⟩
  | ok _ =>
      dsimp only at hrun
      split at hrun
      · cases hrun
      · cases hrun
        exact ⟨U', hI'⟩

theorem BuddyInv.freePages (hI : BuddyInv T U s) {ptr : VirtAddr} {n : ℕ}
    {res : Except PagingError Unit} (hrun : s.freePages m ptr n .size4kb = .ok (res, s')) :
    ∃ U', BuddyInv T U' s' := by
  obtain ⟨⟨res', w⟩, hgo, hrun⟩ := bind_eq_ok.mp hrun
  cases hrun
  rcases Nat.eq_zero_or_pos n with rfl | hn
  · cases hgo
    exact ⟨U, hI⟩
  · exact (hI.freePagesGo (BuddyAllocator.reclaims m T) ptr hn).post hgo

/-- The start: a cleared top-level table whose frame is not free. -/
theorem buddyInv_start (hzero : ∀ i, s.world.mem s.pml i = 0)
    (hres : BuddyAllocator.Respects T {s.pml} s.world.pmm) : BuddyInv T {s.pml} s := by
  obtain ⟨hI, hword⟩ := tableInv_start hzero hres
  refine ⟨hI, ?_⟩
  rw [hword]
  have habsent : ¬ Present 0 := by decide
  exact ⟨fun _ h => absurd h habsent, fun _ h => absurd h habsent, fun _ h => absurd h habsent,
    fun _ _ h => absurd h habsent⟩

/-- **The invariant holds in every reachable state.** -/
theorem FrameReaches.inv (hzero : ∀ i, s₀.world.mem s₀.pml i = 0)
    (hres : BuddyAllocator.Respects T {s₀.pml} s₀.world.pmm) (h : FrameReaches m s₀ s) :
    ∃ U, BuddyInv T U s := by
  induction h with
  | start => exact ⟨_, buddyInv_start hzero hres⟩
  | allocate _ hf hrun ih =>
      obtain ⟨U, hI⟩ := ih
      exact hI.allocatePages hf hrun
  | free _ hrun ih =>
      obtain ⟨U, hI⟩ := ih
      exact hI.freePages hrun

/-- What the invariant says about the roles of frames. -/
theorem BuddyInv.exclusive (hI : BuddyInv T U s) : FramesExclusive s where
  free_tables := by
    rw [Set.disjoint_right]
    rintro f ⟨t, ht, rfl⟩
    exact hI.tables.respected.notFree t (hI.tables.shape.tables_subset ht)
  free_mapped := by
    rw [Set.disjoint_right]
    rintro f ⟨k, hk, rfl⟩
    exact hI.tables.respected.notFree _ (hI.mappings.used k hk)
  tables_mapped := by
    rw [Set.disjoint_left]
    rintro f ⟨t, ht, rfl⟩ ⟨k, hk, heq⟩
    have hmod := hI.tables.respected.aligned t (hI.tables.shape.tables_subset ht)
    exact hI.mappings.noTable k hk (eq_of_div_eq (Entry.frame_mod _) hmod heq ▸ ht)
  mapped_once k l hk hl heq :=
    hI.mappings.injective k l hk hl (eq_of_div_eq (Entry.frame_mod _) (Entry.frame_mod _) heq)

/-- **Every frame has one role.**  From a cleared top-level table whose frame is not
free and a well-formed PMM, in every state that calls of `allocate_pages` and
`free_pages` for basic pages reach, no frame is in two of the roles free, table and
mapped, and no frame is mapped by two entries. -/
theorem frames_exclusive (hzero : ∀ i, s₀.world.mem s₀.pml i = 0) (hpml : s₀.pml % 4096 = 0)
    (hInv : BuddyAllocator.Inv T s₀.world.pmm)
    (hfree : s₀.pml / BASIC_PAGE_SIZE ∉ s₀.world.pmm.freePages) (h : FrameReaches m s₀ s) :
    FramesExclusive s := by
  have hres := BuddyAllocator.respects_singleton hInv hpml hfree
  obtain ⟨U, hI⟩ := h.inv hzero hres
  exact hI.exclusive

/-- The manager over the small supplier. -/
def smallManager : PagingManager BuddyAllocator := ⟨0x1000, smallWorld, ⟨⟨3, 100⟩⟩⟩

/-- Two pages allocated through three new tables. -/
def smallAllocated : PagingManager BuddyAllocator :=
  stateAfter smallManager (smallManager.allocatePages .checked 2 smallFlags .size4kb)

theorem small_frames_exclusive :
    (smallManager.allocatePages .checked 2 smallFlags .size4kb).map Prod.fst = .ok (.ok 0x3000) ∧
      FramesExclusive smallAllocated := by
  have hrun : (smallManager.allocatePages .checked 2 smallFlags .size4kb).map Prod.fst =
      .ok (.ok 0x3000) := by decide
  have hfree : smallManager.pml / BASIC_PAGE_SIZE ∉ smallManager.world.pmm.freePages :=
    smallSupply_respects.notFree smallManager.pml (Set.mem_singleton _)
  have hreaches : FrameReaches .checked smallManager smallAllocated :=
    .allocate .start (.readWrite .new true) (eq_ok_stateAfter smallManager hrun)
  exact ⟨hrun, frames_exclusive (fun _ => rfl) rfl smallSupply_frees.inv hfree hreaches⟩

end Funderberker

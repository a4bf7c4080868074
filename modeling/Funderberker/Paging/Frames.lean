import Funderberker.Paging.Walk
import Funderberker.Pmm.Run

/-!
# The buddy allocator as the supplier of frames

The page tables take frames from the buddy allocator and give some of them back.  A
frame in use is one that is not free, and that is all the tables need: a well-formed
allocator hands out only free pages, and takes back any page below its bound that is
not free.

## Main definitions

* `BuddyAllocator.Respects` — the allocator is well formed and has none of the frames.
* `BuddyAllocator.Accounts` — it has all pages of a set but for the frames.
* `Reclaims` — what those who give frames back need of the PMM.

## Main results

* `BuddyAllocator.supplies`, `BuddyAllocator.reclaims`.
-/

namespace Funderberker

open Panicking DyadicBlock BuddyAllocator PageTable

/-- What those who give frames back need of the PMM: a respected frame can be taken
out of the set. -/
structure Reclaims (σ : Type) [PmmAllocator σ] (m : Overflow) (bound : ℕ)
    (respects : Set PhysAddr → σ → Prop) : Prop where
  free : ∀ {U : Set PhysAddr} {s s' : σ} {a : PhysAddr} {res : Except PmmError Unit},
    respects U s → a ∈ U → a % 4096 = 0 → a < bound →
    PmmAllocator.free m s a 1 = .ok (res, s') → respects (U \ {a}) s'

/-- An aligned frame is determined by its page. -/
theorem eq_of_div_eq {a b : ℕ} (ha : a % 4096 = 0) (hb : b % 4096 = 0)
    (h : a / BASIC_PAGE_SIZE = b / BASIC_PAGE_SIZE) : a = b := by
  rw [BASIC_PAGE_SIZE] at h
  omega

namespace BuddyAllocator

/-- A well-formed allocator that has none of the frames `U`. -/
structure Respects (T : ℕ) (U : Set PhysAddr) (s : BuddyAllocator) : Prop where
  inv : Inv T s
  aligned : ∀ a ∈ U, a % 4096 = 0
  notFree : ∀ a ∈ U, a / BASIC_PAGE_SIZE ∉ s.freePages

variable {m : Overflow} {T : ℕ} {U : Set PhysAddr} {s s' : BuddyAllocator} {a : PhysAddr}

theorem respects_singleton (hI : Inv T s) (hmod : a % 4096 = 0)
    (hfree : a / BASIC_PAGE_SIZE ∉ s.freePages) : Respects T {a} s := by
  refine ⟨hI, ?_, ?_⟩
  · rintro b rfl
    exact hmod
  · rintro b rfl
    exact hfree

theorem page_blockAddr_zero (c : ℕ) : blockAddr 0 c / BASIC_PAGE_SIZE = c := by
  rw [blockAddr_zero, Nat.mul_div_cancel _ basicPageSize_pos]

theorem Inv.bound_le_word (hI : Inv T s) : T * BASIC_PAGE_SIZE ≤ 2 ^ 64 := by
  have := hI.bound_le
  rw [BASIC_PAGE_SIZE]
  omega

/-- A page that the allocator hands out. -/
theorem allocate_page (hI : Inv T s) (hrun : s.allocate m 1 1 = .ok (.ok a, s')) :
    a % 4096 = 0 ∧ a / BASIC_PAGE_SIZE ∈ s.freePages ∧
      Frees T s s' (s.freePages \ {a / BASIC_PAGE_SIZE}) := by
  cases (allocate_spec (e := 0) (f := 0) hI (by omega)).post hrun with
  | some c s' _ hfree hfrees =>
      rw [points_zero] at hfrees
      rw [page_blockAddr_zero]
      refine ⟨?_, hfree (points_zero c ▸ Set.mem_singleton c), hfrees⟩
      rw [blockAddr_zero]
      exact Nat.mul_mod_left c BASIC_PAGE_SIZE

/-- A page given back. -/
theorem Respects.free_page (h : Respects T U s) (hU : a ∈ U) (hlt : a < T * BASIC_PAGE_SIZE) :
    Yields (PoolOut s (s.freePages ∪ {a / BASIC_PAGE_SIZE}))
      (fun x => x.1 = .ok () ∧ Frees T s x.2 (s.freePages ∪ {a / BASIC_PAGE_SIZE}))
      (s.free m a 1) := by
  obtain ⟨c, rfl⟩ : ∃ c, a = blockAddr 0 c := by
    refine ⟨a / BASIC_PAGE_SIZE, ?_⟩
    rw [blockAddr_zero]
    exact (Nat.div_mul_cancel (Nat.dvd_of_mod_eq_zero (h.aligned a hU))).symm
  have hc : c ∉ s.freePages := page_blockAddr_zero c ▸ h.notFree _ hU
  have hcT : c < T := by
    rw [blockAddr_zero] at hlt
    exact Nat.lt_of_mul_lt_mul_right hlt
  have hd : Disjoint (points 0 c) s.freePages := by
    rw [points_zero]
    exact Set.disjoint_singleton_left.mpr hc
  have hb : ∀ p ∈ points 0 c, p < T := by
    intro p hp
    rw [points_zero, Set.mem_singleton_iff] at hp
    rw [hp]
    exact hcT
  rw [page_blockAddr_zero, ← points_zero]
  exact free_spec h.inv hd hb

theorem Respects.allocate (h : Respects T U s)
    (hrun : s.allocate m 1 1 = .ok (.ok a, s')) :
    a % 4096 = 0 ∧ a < T * BASIC_PAGE_SIZE ∧ a ∉ U ∧ Respects T (insert a U) s' := by
  obtain ⟨hmod, hfree, hfrees⟩ := allocate_page h.inv hrun
  refine ⟨hmod, ?_, fun hU => h.notFree a hU hfree, hfrees.inv, ?_, ?_⟩
  · exact (Nat.div_lt_iff_lt_mul basicPageSize_pos).mp (h.inv.bounded _ hfree)
  · rintro b (rfl | hb)
    · exact hmod
    · exact h.aligned b hb
  · rintro b (rfl | hb)
    · rw [hfrees.free]
      exact fun hmem => hmem.2 rfl
    · rw [hfrees.free]
      exact fun hmem => h.notFree b hb hmem.1

/-- **The buddy allocator supplies frames.** -/
theorem supplies (m : Overflow) (hT : T * BASIC_PAGE_SIZE ≤ 2 ^ 64) :
    Supplies BuddyAllocator m (T * BASIC_PAGE_SIZE) (Respects T) :=
  ⟨hT, fun h hrun => h.allocate hrun⟩

/-- **The buddy allocator takes frames back.** -/
theorem reclaims (m : Overflow) (T : ℕ) :
    Reclaims BuddyAllocator m (T * BASIC_PAGE_SIZE) (Respects T) where
  free := by
    intro U s s' a res h hU hmod hlt hrun
    have hfrees := ((h.free_page hU hlt).post hrun).2
    refine ⟨hfrees.inv, fun b hb => h.aligned b hb.1, ?_⟩
    rintro b ⟨hbU, hne⟩
    rw [hfrees.free]
    rintro (hmem | heq)
    · exact h.notFree b hbU hmem
    · exact hne (eq_of_div_eq (h.aligned b hbU) hmod heq)

/-! ## Accounting for pages -/

variable {C : Set ℕ} {N : ℕ}

/-- An allocator with `N` nodes that has the pages `C` but for the frames `U`. -/
structure Accounts (T : ℕ) (C : Set ℕ) (N : ℕ) (U : Set PhysAddr) (s : BuddyAllocator) : Prop
    extends Respects T U s where
  free_eq : s.freePages = C \ {p | p * BASIC_PAGE_SIZE ∈ U}
  nodes : s.nodeCount = N

theorem page_mul (h : a % 4096 = 0) : a / BASIC_PAGE_SIZE * BASIC_PAGE_SIZE = a :=
  Nat.div_mul_cancel (Nat.dvd_of_mod_eq_zero h)

theorem accounts_start (h : Respects T U s) :
    Accounts T s.freePages s.nodeCount U s := by
  refine ⟨h, ?_, rfl⟩
  refine (Disjoint.sdiff_eq_left ?_).symm
  rw [Set.disjoint_left]
  intro p hfree hp
  refine h.notFree _ hp ?_
  rwa [Nat.mul_div_cancel _ basicPageSize_pos]

/-- The buddy allocator supplies frames and keeps the account. -/
theorem accounts_supplies (m : Overflow) (hT : T * BASIC_PAGE_SIZE ≤ 2 ^ 64) :
    Supplies BuddyAllocator m (T * BASIC_PAGE_SIZE) (Accounts T C N) where
  bound_le := hT
  allocate := by
    intro U s s' a h hrun
    obtain ⟨hmod, -, hfrees⟩ := allocate_page h.inv hrun
    obtain ⟨-, hlt, hnew, hres⟩ := h.toRespects.allocate hrun
    refine ⟨hmod, hlt, hnew, hres, ?_, hfrees.keeps.nodeCount_eq.trans h.nodes⟩
    have hpage : ∀ p, p = a / BASIC_PAGE_SIZE ↔ p * BASIC_PAGE_SIZE = a := by
      intro p
      constructor
      · rintro rfl
        exact page_mul hmod
      · rintro rfl
        exact (Nat.mul_div_cancel _ basicPageSize_pos).symm
    rw [hfrees.free, h.free_eq]
    ext p
    simp only [Set.mem_sdiff, Set.mem_singleton_iff, Set.mem_ofPred_eq, Set.mem_insert_iff, hpage]
    tauto

/-- As long as a page of the account is left and the pool does for every page taken, there is a
frame. -/
theorem Accounts.exists_frame_of_pool (h : Accounts T C N U s)
    (hpool : ∀ c, ¬ Exceeds s.nodeCount s.zones.length (s.freePages \ {c})) {p : ℕ} (hp : p ∈ C)
    (hU : p * BASIC_PAGE_SIZE ∉ U) : ∃ a s', s.allocate m 1 1 = .ok (.ok a, s') := by
  have hfree : p ∈ s.freePages := by
    rw [h.free_eq]
    exact ⟨hp, hU⟩
  obtain ⟨⟨res, s'⟩, hrun, hres⟩ :=
    (allocate_spec (m := m) (e := 0) (f := 0) h.inv (by omega)).exists_ok fun x hx => by
      obtain ⟨c, -, hout⟩ := hx
      rw [points_zero] at hout
      exact hpool c hout.2
  cases hres with
  | tooBig hbig => omega
  | none hnone =>
      obtain ⟨i, hc⟩ := mem_cover.mp hfree
      exact absurd (by simp) (hnone i _ (Nat.zero_le i) hc)
  | some c s' _ _ _ => exact ⟨_, s', hrun⟩

/-- As long as a page of the account is left, there is a frame. -/
theorem Accounts.exists_frame (h : Accounts T C N U s) (hC : ∀ p ∈ C, p < T)
    (hnodes : (pairs C).ncard ≤ N) {p : ℕ} (hp : p ∈ C) (hU : p * BASIC_PAGE_SIZE ∉ U) :
    ∃ a s', s.allocate m 1 1 = .ok (.ok a, s') := by
  have hfin : (pairs C).Finite := ((Set.finite_lt_nat T).subset hC).image _
  have hsub : s.freePages ⊆ C := by
    rw [h.free_eq]
    exact Set.sdiff_subset
  refine h.exists_frame_of_pool (fun c => ?_) hp hU
  exact not_exceeds_of_pairs (Set.sdiff_subset.trans hsub) hfin (h.nodes ▸ hnodes)

/-! ## Managed pages -/

/-- An allocator that has all pages `A` but for the frames `U`, which are of them. -/
structure Managed (T : ℕ) (A : Set ℕ) (U : Set PhysAddr) (s : BuddyAllocator) : Prop
    extends Respects T U s where
  free_eq : s.freePages = A \ {p | p * BASIC_PAGE_SIZE ∈ U}
  frames : ∀ a ∈ U, a / BASIC_PAGE_SIZE ∈ A

variable {A : Set ℕ}

theorem mul_eq_iff_page (hmod : a % 4096 = 0) {p : ℕ} :
    p * BASIC_PAGE_SIZE = a ↔ p = a / BASIC_PAGE_SIZE := by
  constructor
  · rintro rfl
    exact (Nat.mul_div_cancel _ basicPageSize_pos).symm
  · rintro rfl
    exact page_mul hmod

theorem managed_singleton (hI : Inv T s) (hmod : a % 4096 = 0) (hA : a / BASIC_PAGE_SIZE ∈ A)
    (hfree : s.freePages = A \ {a / BASIC_PAGE_SIZE}) : Managed T A {a} s := by
  refine ⟨respects_singleton hI hmod (hfree ▸ fun hin => hin.2 rfl), ?_, ?_⟩
  · rw [hfree]
    ext p
    rw [Set.mem_sdiff, Set.mem_sdiff, Set.mem_ofPred_eq, Set.mem_singleton_iff,
      Set.mem_singleton_iff, mul_eq_iff_page hmod]
  · rintro b rfl
    exact hA

theorem Managed.allocate (h : Managed T A U s) (hrun : s.allocate m 1 1 = .ok (.ok a, s')) :
    a % 4096 = 0 ∧ a < T * BASIC_PAGE_SIZE ∧ a ∉ U ∧ Managed T A (insert a U) s' := by
  obtain ⟨hmod, hlt, hnew, hres⟩ := h.toRespects.allocate hrun
  obtain ⟨-, hfree, hfrees⟩ := allocate_page h.inv hrun
  rw [h.free_eq] at hfree
  refine ⟨hmod, hlt, hnew, hres, ?_, Set.forall_mem_insert.mpr ⟨hfree.1, h.frames⟩⟩
  rw [hfrees.free, h.free_eq]
  ext p
  simp only [Set.mem_sdiff, Set.mem_singleton_iff, Set.mem_ofPred_eq, Set.mem_insert_iff,
    mul_eq_iff_page hmod]
  tauto

theorem managed_supplies (m : Overflow) (hT : T * BASIC_PAGE_SIZE ≤ 2 ^ 64) :
    Supplies BuddyAllocator m (T * BASIC_PAGE_SIZE) (Managed T A) :=
  ⟨hT, fun h hrun => h.allocate hrun⟩

theorem Managed.free_page (h : Managed T A U s) (hU : a ∈ U) (hlt : a < T * BASIC_PAGE_SIZE) :
    Yields (PoolOut s (s.freePages ∪ {a / BASIC_PAGE_SIZE}))
      (fun x => x.1 = .ok () ∧ Managed T A (U \ {a}) x.2) (s.free m a 1) := by
  have hmod := h.aligned a hU
  refine (h.toRespects.free_page hU hlt).imp ?_
  rintro ⟨res, s'⟩ ⟨rfl, hfrees⟩
  refine ⟨rfl, ⟨hfrees.inv, fun b hb => h.aligned b hb.1, fun b hb => ?_⟩, ?_, fun b hb =>
    h.frames b hb.1⟩
  · rw [hfrees.free]
    rintro (hmem | heq)
    · exact h.notFree b hb.1 hmem
    · exact hb.2 (eq_of_div_eq (h.aligned b hb.1) hmod heq)
  · rw [hfrees.free, h.free_eq]
    ext p
    simp only [Set.mem_union, Set.mem_sdiff, Set.mem_singleton_iff, Set.mem_ofPred_eq,
      mul_eq_iff_page hmod]
    constructor
    · rintro (⟨hp, hnot⟩ | rfl)
      · exact ⟨hp, fun hin => hnot hin.1⟩
      · exact ⟨h.frames a hU, fun hin => hin.2 rfl⟩
    · rintro ⟨hp, hnot⟩
      by_cases heq : p = a / BASIC_PAGE_SIZE
      · exact Or.inr heq
      · exact Or.inl ⟨hp, fun hin => hnot ⟨hin, heq⟩⟩

end BuddyAllocator

/-- A small supplier: pages 8 to 15 in one block. -/
def smallSupply : BuddyAllocator :=
  ⟨[[], [], [], [⟨72, 0x8000⟩], []], [⟨0, 0⟩, ⟨24, 0⟩, ⟨48, 0⟩]⟩

theorem smallSupply_frees : Frees 31 (Client.start 5 [⟨0, 0⟩, ⟨24, 0⟩, ⟨48, 0⟩, ⟨72, 0⟩]).pmm
    smallSupply (Set.Ico 8 (8 + 8)) := by
  have hspec := breakIntoBucketsNFree_spec (m := .checked) (p := 8) (n := 8)
    (inv_start (z := 5) (T := 31) (by omega) (by omega) [⟨0, 0⟩, ⟨24, 0⟩, ⟨48, 0⟩, ⟨72, 0⟩])
    (by rw [freePages_start]; exact Set.disjoint_empty _) (by omega)
  have hfrees := hspec.post (a := smallSupply) (by decide)
  rw [freePages_start, Set.empty_union] at hfrees
  exact hfrees

/-- It has a node for each pair of its pages. -/
theorem smallSupply_pairs : (pairs smallSupply.freePages).ncard ≤ smallSupply.nodeCount := by
  have hfree : smallSupply.freePages = Set.Ico 8 16 := smallSupply_frees.free
  have hsub : pairs (Set.Ico 8 16) ⊆ (({4, 5, 6, 7} : Finset ℕ) : Set ℕ) := by
    rintro q ⟨p, hp, rfl⟩
    rw [Set.mem_Ico] at hp
    simp only [Finset.mem_coe, Finset.mem_insert, Finset.mem_singleton]
    omega
  rw [hfree]
  calc
    (pairs (Set.Ico 8 16)).ncard ≤ (({4, 5, 6, 7} : Finset ℕ) : Set ℕ).ncard :=
      Set.ncard_le_ncard hsub (Finset.finite_toSet _)
    _ = 4 := Set.ncard_coe_finset _

/-- Page 1 can be a top-level table beside it. -/
theorem smallSupply_respects : Respects 31 {0x1000} smallSupply where
  inv := smallSupply_frees.inv
  aligned := by
    rintro a rfl
    rfl
  notFree := by
    rintro a rfl
    rw [smallSupply_frees.free, Set.mem_Ico]
    decide

end Funderberker

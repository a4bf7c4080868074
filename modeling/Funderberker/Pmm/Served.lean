import Funderberker.Pmm.Run
import Mathlib.Order.Interval.Finset.Nat

/-!
# Calls with any arguments

Counts need not be powers of two: every operation rounds its count up, and an alignment
or an address can be anything.  A run is here a sequence of calls with any arguments.
Calls that take pages need no promise, since whatever they take was free; a `free` that
succeeds is promised a range, rounded up, of pages that are not free.

The allocator's invariant holds in every state of such a run.

## Main definitions

* `Served` — runs of calls with any arguments.

## Main results

* `Served.inv` — the run invariant.
* `Reachable.served` — the runs with promised arguments are among them.
* `isPageFree_exact` — `is_page_free` answers for the whole range.
* `region_freed` — handing a region over.
-/

namespace Funderberker

open Panicking DyadicBlock

namespace BuddyAllocator

variable {m : Overflow} {s s' : BuddyAllocator} {T i j k e n c : ℕ} {addr b : PhysAddr}

/-! ## The calls, for any arguments -/

/-- Addresses that are no block's have no buddy. -/
theorem getBuddyAddr_misaligned (hi : i ≤ 50) (h : addr % (BASIC_PAGE_SIZE * 2 ^ i) ≠ 0) :
    getBuddyAddr m addr i = .error .assertion := by
  have hsize := pow_le_of_le hi
  have hpos := Nat.two_pow_pos (i + 12)
  have hlevel : MIN_ZONE_LEVEL = 12 := by decide
  have hu32 : Usize.asU32 (i + 12) = i + 12 := Usize.asU32_eq (by omega)
  rw [pageSize_mul_two_pow, Nat.add_comm] at h
  rw [getBuddyAddr, hlevel, Usize.add_eq (by omega), ok_bind, hu32, Usize.pow_eq (by omega),
    ok_bind, Usize.rem_eq hpos.ne', ok_bind, if_pos h]

/-- Only a block of the order asked for is ever merged. -/
theorem exists_block_of_coalesce (hI : Inv T s) (h : coalesce m s addr e = .ok s') :
    e < s.zones.length ∧ ∃ c, addr = blockAddr e c := by
  have hlen := hI.zones_le
  rw [coalesce] at h
  cases hk : s.zones.length - e with
  | zero =>
      rw [hk] at h
      cases h
  | succ k =>
      refine ⟨by omega, exists_blockAddr_of_mod (by_contra fun hmod => ?_)⟩
      rw [hk, coalesceGo, getBuddyAddr_misaligned (by omega) hmod, error_bind] at h
      cases h

/-- What a successful `free` did. -/
theorem coalesce_of_free (h : free m s addr n = .ok (.ok (), s')) :
    coalesce m s addr (Nat.clog 2 n) = .ok s' := by
  rw [free] at h
  split at h
  · cases h
  obtain ⟨r, -, h⟩ := bind_eq_ok.mp h
  cases r with
  | error x => cases h
  | ok found =>
      cases found with
      | true => cases h
      | false =>
          cases hnext : checkedNextPowerOfTwo n with
          | none =>
              simp only [hnext] at h
              cases h
          | some p =>
              simp only [hnext] at h
              obtain ⟨s₁, hrun, hdone⟩ := bind_eq_ok.mp h
              rw [(eq_clog_of_checkedNextPowerOfTwo hnext).1, Nat.log2_two_pow] at hrun
              cases hdone
              exact hrun

/-- A `free` that is refused changes nothing. -/
theorem eq_of_free_error {x : PmmError} (h : free m s addr n = .ok (.error x, s')) : s' = s := by
  rw [free] at h
  split at h
  · cases h
    rfl
  obtain ⟨r, -, h⟩ := bind_eq_ok.mp h
  cases r with
  | error y =>
      cases h
      rfl
  | ok found =>
      cases found with
      | true =>
          cases h
          rfl
      | false =>
          cases hnext : checkedNextPowerOfTwo n with
          | none =>
              simp only [hnext] at h
              cases h
              rfl
          | some p =>
              simp only [hnext] at h
              obtain ⟨s₁, -, h⟩ := bind_eq_ok.mp h
              cases h

/-- Freeing a range, rounded up, outside the free pages. -/
theorem free_any (hI : Inv T s) (h : free m s addr n = .ok (.ok (), s'))
    (hd : Disjoint (pagesFrom addr (2 ^ Nat.clog 2 n)) s.freePages)
    (hb : ∀ p ∈ pagesFrom addr (2 ^ Nat.clog 2 n), p < T) :
    Frees T s s' (s.freePages ∪ pagesFrom addr (2 ^ Nat.clog 2 n)) := by
  have hrun := coalesce_of_free h
  obtain ⟨hlt, c, rfl⟩ := exists_block_of_coalesce hI hrun
  rw [pagesFrom_blockAddr] at hd hb ⊢
  obtain ⟨hI', hkeep, hfree⟩ := (coalesceGo_spec hI (by omega) hd hb).post hrun
  exact ⟨hI', hkeep, hfree⟩

/-- Taking a block returns its node to the pool. -/
theorem findBucketAtGo_freelist (h : findBucketAtGo m s addr i k = .ok (.ok j, s')) :
    s'.freelist.length = s.freelist.length + 1 := by
  induction k generalizing i with
  | zero => cases h
  | succ k ih =>
      rw [findBucketAtGo] at h
      obtain ⟨size, -, h⟩ := bind_eq_ok.mp h
      obtain ⟨zone, -, h⟩ := bind_eq_ok.mp h
      obtain ⟨found, -, h⟩ := bind_eq_ok.mp h
      cases found with
      | none => exact ih h
      | some hit =>
          obtain ⟨s₁, hpop, h⟩ := bind_eq_ok.mp h
          cases h
          exact popFromZone_freelist hpop

theorem allocateAt_found (hI : Inv T s) (hn : n ≠ 0) (hle : n ≤ 2 ^ s.zones.length)
    (hmod : addr % (BASIC_PAGE_SIZE * n) = 0) :
    (allocateAt m s addr n = .ok (.error .noAvailableBlock, s) ∧
      ∀ j, Nat.clog 2 n ≤ j → addr / BASIC_PAGE_SIZE / 2 ^ j ∉ s.blocks j) ∨
    ∃ j s', Nat.clog 2 n ≤ j ∧ Took T s j (addr / BASIC_PAGE_SIZE / 2 ^ j) s' ∧
      s'.freelist.length = s.freelist.length + 1 ∧
      allocateAt m s addr n =
        (disband m s' addr (Nat.clog 2 n) j >>= fun s'' => .ok (.ok (), s'')) := by
  have hclog : Nat.clog 2 n ≤ s.zones.length := Nat.clog_le_of_le_pow hle
  obtain ⟨r, hr, hfound⟩ := findBucketAtGo_spec (m := m) (i := Nat.clog 2 n)
    (k := s.zones.length - Nat.clog 2 n) hI addr (by omega)
  rw [allocateAt_eq hI hn hle hmod, findBucketAt, hr, ok_bind]
  cases hfound with
  | none h => exact Or.inl ⟨rfl, h⟩
  | some j s' hij h => exact Or.inr ⟨j, s', hij, h, findBucketAtGo_freelist hr, rfl⟩

/-- Splitting a block from an address that is no block's stops, unless there is nothing to
split. -/
theorem disband_misaligned (hi : j ≤ 50) (hij : i ≤ j)
    (h : addr % (BASIC_PAGE_SIZE * 2 ^ i) ≠ 0) :
    (i = j ∧ disband m s addr i j = .ok s) ∨
      i < j ∧ disband m s addr i j = .error .assertion := by
  rcases Nat.eq_or_lt_of_le hij with rfl | hlt
  · exact Or.inl ⟨rfl, by rw [disband, Nat.sub_self]; rfl⟩
  · obtain ⟨k, hk⟩ := Nat.exists_eq_add_of_lt hlt
    refine Or.inr ⟨hlt, ?_⟩
    rw [disband, show j - i = k + 1 by omega, disbandGo, getBuddyAddr_misaligned (by omega) h,
      error_bind]

/-- Whatever the arguments, a call of `allocate_at` that returns keeps the invariant and
frees nothing. -/
theorem allocateAt_any (hI : Inv T s) {r : Except PmmError Unit}
    (h : allocateAt m s addr n = .ok (r, s')) :
    Inv T s' ∧ Keeps s s' ∧ s'.freePages ⊆ s.freePages := by
  by_cases hargs : n = 0 ∨ 2 ^ s.zones.length < n ∨ addr % (BASIC_PAGE_SIZE * n) ≠ 0
  · obtain ⟨x, hx⟩ := allocateAt_refused (m := m) hI hargs
    rw [hx] at h
    cases h
    exact ⟨hI, Keeps.refl s, subset_rfl⟩
  simp only [not_or, not_lt, not_not] at hargs
  obtain ⟨hn, hle, hmod⟩ := hargs
  rcases allocateAt_found (m := m) hI hn hle hmod with
    ⟨hx, -⟩ | ⟨j, s₁, hij, htook, -, hrun⟩
  · rw [hx] at h
    cases h
    exact ⟨hI, Keeps.refl s, subset_rfl⟩
  rw [hrun] at h
  obtain ⟨s₂, hsplit, h⟩ := bind_eq_ok.mp h
  cases h
  by_cases hal : addr % (BASIC_PAGE_SIZE * 2 ^ Nat.clog 2 n) = 0
  · obtain ⟨c, rfl⟩ := exists_blockAddr_of_mod hal
    rw [page_of_blockAddr hij] at htook
    have hfrees := (disband_spec hI hij htook).post hsplit
    exact ⟨hfrees.inv, hfrees.keeps, by rw [hfrees.free]; exact Set.sdiff_subset⟩
  · have hlen := hI.zones_le
    have hlt := lt_of_mem_blocks htook.held
    rcases disband_misaligned (m := m) (s := s₁) (by omega) hij hal with ⟨-, hsame⟩ | ⟨-, hstop⟩
    · rw [hsame] at hsplit
      cases hsplit
      refine ⟨htook.inv, htook.keeps, ?_⟩
      rw [freePages, htook.blocks, hI.tiling.cover_erase htook.held]
      exact Set.sdiff_subset
    · rw [hstop] at hsplit
      cases hsplit

end BuddyAllocator

open BuddyAllocator

/-! ## Runs -/

/-- The states that a run from `s₀` can reach, with the pages handed over on the way. -/
inductive Served (m : Overflow) (T : ℕ) (s₀ : BuddyAllocator) : Set ℕ → BuddyAllocator → Prop
  | start : Served m T s₀ ∅ s₀
  | region {M : Set ℕ} {s s' : BuddyAllocator} (hs : Served m T s₀ M s) (p n : ℕ)
      (hnew : Disjoint (Set.Ico p (p + n)) M) (hT : p + n ≤ T)
      (h : s.breakIntoBucketsNFree m (p * BASIC_PAGE_SIZE) n = .ok s') :
      Served m T s₀ (M ∪ Set.Ico p (p + n)) s'
  | allocate {M : Set ℕ} {s s' : BuddyAllocator} (hs : Served m T s₀ M s) (al n : ℕ)
      {r : Except PmmError PhysAddr} (h : s.allocate m al n = .ok (r, s')) : Served m T s₀ M s'
  | allocateAt {M : Set ℕ} {s s' : BuddyAllocator} (hs : Served m T s₀ M s) (addr : PhysAddr)
      (n : ℕ) {r : Except PmmError Unit} (h : s.allocateAt m addr n = .ok (r, s')) :
      Served m T s₀ M s'
  | free {M : Set ℕ} {s s' : BuddyAllocator} (hs : Served m T s₀ M s) (addr : PhysAddr) (n : ℕ)
      {r : Except PmmError Unit} (h : s.free m addr n = .ok (r, s'))
      (hlive : r = .ok () → pagesFrom addr (2 ^ Nat.clog 2 n) ⊆ M \ s.freePages) :
      Served m T s₀ M s'

variable {m : Overflow} {T z n : ℕ} {M : Set ℕ} {s s' s₀ : BuddyAllocator} {addr : PhysAddr}
  {pool : List Node} {g g₀ : Client}

/-- The run invariant: the allocator's own, no node created or lost, and only pages that
were handed over are free. -/
structure Serving (T : ℕ) (s₀ : BuddyAllocator) (M : Set ℕ) (s : BuddyAllocator) : Prop where
  inv : Inv T s
  keeps : Keeps s₀ s
  managed : s.freePages ⊆ M
  bounded : ∀ p ∈ M, p < T

theorem Served.serving (hI : Inv T s₀) (hempty : s₀.freePages = ∅) (h : Served m T s₀ M s) :
    Serving T s₀ M s := by
  induction h with
  | start => exact ⟨hI, Keeps.refl s₀, by rw [hempty], fun p hp => by cases hp⟩
  | region _ p n hnew hT hrun ih =>
      have hfrees := (breakIntoBucketsNFree_spec ih.inv (hnew.mono_right ih.managed) hT).post hrun
      refine ⟨hfrees.inv, ih.keeps.trans hfrees.keeps, ?_, ?_⟩
      · rw [hfrees.free]
        exact Set.union_subset_union_left _ ih.managed
      · rintro q (hq | hq)
        · exact ih.bounded q hq
        · exact hq.2.trans_le hT
  | allocate _ al n hrun ih =>
      rcases allocate_any ih.inv hrun with ⟨x, hx⟩ | ⟨c, -, -, hfrees⟩
      · cases hx
        exact ih
      · refine ⟨hfrees.inv, ih.keeps.trans hfrees.keeps, ?_, ih.bounded⟩
        rw [hfrees.free]
        exact Set.sdiff_subset.trans ih.managed
  | allocateAt _ addr n hrun ih =>
      obtain ⟨hI', hkeep, hsub⟩ := allocateAt_any ih.inv hrun
      exact ⟨hI', ih.keeps.trans hkeep, hsub.trans ih.managed, ih.bounded⟩
  | @free M s s' _ addr n r hrun hlive ih =>
      cases r with
      | error x =>
          rw [eq_of_free_error hrun]
          exact ih
      | ok u =>
          have hsub := hlive rfl
          have hfrees := free_any ih.inv hrun (Set.disjoint_sdiff_left.mono_left hsub)
            fun p hp => ih.bounded p (hsub hp).1
          refine ⟨hfrees.inv, ih.keeps.trans hfrees.keeps, ?_, ih.bounded⟩
          rw [hfrees.free]
          exact Set.union_subset ih.managed (hsub.trans Set.sdiff_subset)

/-- **The allocator's invariant holds after any calls.** -/
theorem Served.inv (hz : z ≤ 51) (hT : T < 2 ^ z)
    (h : Served m T (Client.start z pool).pmm M s) : Inv T s :=
  (h.serving (inv_start hz hT pool) (freePages_start z pool)).inv

/-- Runs whose callers keep their promises are runs. -/
theorem Reachable.served (hz : z ≤ 51) (hT : T < 2 ^ z)
    (h : Reachable m T (Client.start z pool) g) :
    Served m T (Client.start z pool).pmm g.managed g.pmm := by
  induction h with
  | start => exact .start
  | @step g g' hg hstep ih =>
      have hsound := hg.sound hz hT
      cases hstep with
      | region p n hnew hT' h => exact ih.region p n hnew hT' h
      | call hcall =>
          cases hcall with
          | allocateAt hargs h => exact ih.allocateAt _ _ h
          | allocateAtErr hargs h => exact ih.allocateAt _ _ h
          | request hreq =>
              cases hreq with
              | allocate hargs h => exact ih.allocate _ _ h
              | allocateErr hargs h => exact ih.allocate _ _ h
              | freeErr hargs h => exact ih.free _ _ h (by rintro ⟨⟩)
              | free hargs h =>
                  refine ih.free _ _ h fun _ => ?_
                  obtain ⟨e, c, rfl, rfl, hlive, hd, -⟩ := hargs.exists_block hsound
                  rw [Nat.clog_pow 2 e (by omega), pagesFrom_blockAddr]
                  intro p hp
                  refine ⟨?_, Set.disjoint_left.mp hd hp⟩
                  rw [← hsound.partition]
                  exact Or.inr (hlive hp)

/-! ## Questions -/

/-- **`is_page_free` is exact.**  It looks for one block around the first page only, and
that decides for the whole aligned range. -/
theorem isPageFree_exact (hz : z ≤ 51) (hT : T < 2 ^ z)
    (h : Served m T (Client.start z pool).pmm M s) (hn : IsPow2 n)
    (hfit : BASIC_PAGE_SIZE * n < 2 ^ 64) (haddr : addr % (BASIC_PAGE_SIZE * n) = 0) :
    (∃ b, s.isPageFree m addr n = .ok (.ok b)) ∧
      (s.isPageFree m addr n = .ok (.ok true) ↔ pagesFrom addr n ⊆ s.freePages) := by
  have hI := h.inv hz hT
  obtain ⟨e, rfl⟩ := hn
  obtain ⟨c, rfl⟩ := exists_blockAddr_of_mod haddr
  have he : e < 52 := pageSize_mul_two_pow_lt_iff.mp hfit
  obtain ⟨b, hb, hiff⟩ := isPageFree_spec (m := m) (c := c) hI he
  rw [hb, pagesFrom_blockAddr, ← hiff]
  exact ⟨⟨b, rfl⟩, by simp⟩

theorem small_isPageFree : smallPmm.isPageFree .checked 4096 1 = .ok (.ok true) ↔
    pagesFrom 4096 1 ⊆ smallPmm.freePages :=
  (isPageFree_exact (by omega) (by omega) (small_reachable.served (by omega) (by omega)) ⟨0, rfl⟩
    (by decide) (by decide)).2

/-! ## Handing a region over -/

/-- Enough nodes for handing over the `n` pages from page `p`: however many of them are
free already, the free pages make up no more blocks than there are nodes. -/
def EnoughNodes (s : BuddyAllocator) (p n : ℕ) : Prop :=
  ∀ q ≤ n, ¬ Exceeds s.nodeCount s.zones.length (s.freePages ∪ Set.Ico p (p + q))

/-- A node for each aligned pair of pages is enough. -/
theorem enoughNodes_of_pairs {p : ℕ} (hfin : s.freePages.Finite)
    (h : (pairs (s.freePages ∪ Set.Ico p (p + n))).ncard ≤ s.nodeCount) : EnoughNodes s p n := by
  intro q hq
  refine not_exceeds_of_pairs ?_ ((hfin.union (Set.finite_Ico _ _)).image _) h
  exact Set.union_subset_union_right _ (Set.Ico_subset_Ico_right (by omega))

/-- **Handing a region over frees exactly its pages**, whatever the alignment of its first
page and the binary form of its length.  The loop always ends; it can stop early only for
want of a node, and not when there are enough. -/
theorem region_freed (hI : Inv T s) (haddr : addr % BASIC_PAGE_SIZE = 0)
    (hd : Disjoint (pagesFrom addr n) s.freePages) (hb : ∀ p ∈ pagesFrom addr n, p < T) :
    (EnoughNodes s (addr / BASIC_PAGE_SIZE) n → ∃ s', s.breakIntoBucketsNFree m addr n = .ok s') ∧
      Yields (· = .poolEmpty)
        (fun s' => Inv T s' ∧ Keeps s s' ∧ s'.freePages = s.freePages ∪ pagesFrom addr n)
        (s.breakIntoBucketsNFree m addr n) := by
  obtain ⟨p, rfl⟩ := Nat.dvd_of_mod_eq_zero haddr
  rw [Nat.mul_comm BASIC_PAGE_SIZE] at hd hb ⊢
  rw [pagesFrom, Nat.mul_div_cancel _ basicPageSize_pos] at hd hb ⊢
  rcases Nat.eq_zero_or_pos n with rfl | hn
  · exact ⟨fun _ => ⟨s, rfl⟩, hI, Keeps.refl s, by simp⟩
  · have hend : p + n ≤ T := by
      have := hb (p + n - 1) (Set.mem_Ico.mpr (by omega))
      omega
    have hspec := breakIntoBucketsNFree_spec (m := m) hI hd hend
    refine ⟨fun hnodes => ?_, ?_⟩
    · obtain ⟨s', hrun, -⟩ := hspec.exists_ok fun x hx => by
        obtain ⟨q, hq, hout⟩ := hx
        exact hnodes q hq hout.2
      exact ⟨s', hrun⟩
    · refine hspec.mono ?_ ?_
      · rintro x ⟨q, -, hout⟩
        exact hout.1
      · intro s' hfrees
        exact ⟨hfrees.inv, hfrees.keeps, hfrees.free⟩

/-- Two pages handed over to an empty allocator. -/
theorem two_pages_freed :
    ∃ s', (Client.start 2 smallPool).pmm.breakIntoBucketsNFree .checked 0 2 = .ok s' := by
  have hpages : pagesFrom 0 2 = Set.Ico 0 2 := rfl
  refine (region_freed (inv_start (show 2 ≤ 51 by omega) (show 3 < 2 ^ 2 by omega) _)
    (by decide) ?_ ?_).1 ?_
  · rw [freePages_start]
    exact Set.disjoint_empty _
  · intro p hp
    rw [hpages, Set.mem_Ico] at hp
    omega
  · refine enoughNodes_of_pairs (by rw [freePages_start]; exact Set.finite_empty) ?_
    have hsub : pairs (∅ ∪ Set.Ico 0 (0 + 2)) ⊆ {0} := by
      rintro _ ⟨p, hp, rfl⟩
      simp only [Set.empty_union, Set.mem_Ico, Set.mem_singleton_iff] at hp ⊢
      omega
    rw [freePages_start, nodeCount_start]
    refine (Set.ncard_le_ncard hsub (Set.finite_singleton 0)).trans ?_
    rw [Set.ncard_singleton]
    decide

end Funderberker

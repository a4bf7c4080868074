import Funderberker.Pmm.Zones
import Mathlib.Order.Interval.Set.Disjoint

/-!
# What the allocator's operations do to the free pages

One theorem for each function of the allocator.  From a state with `Inv`, an
operation returns a state with `Inv` whose free pages differ by exactly the pages it
was asked about; the only way it can abort is by running out of nodes, and then the
free pages it was heading for have a tiling with more blocks than there are nodes
(`PoolOut`).

The upward loop of `coalesce` and the downward split of `disband` break the
invariant's tiling only by the block in hand: `coalesceGo_spec` carries a block
outside the free pages, and `disbandGo_spec` carries the part of a split block that
is not back yet.

## Main results

* `disbandGo_spec`, `coalesceGo_spec` — the two loops.
* `findBucket_spec`, `findBucketAt_spec`, `isPageFree_spec` — the searches.
* `allocate_spec`, `allocateAt_spec`, `free_spec` — the interface.
* `breakIntoBucketsNFree_spec` — handing a region over.
-/

namespace Funderberker

open Panicking DyadicBlock

namespace BuddyAllocator

variable {m : Overflow} {s s' : BuddyAllocator} {T i j k c : ℕ} {C : Set ℕ}

/-! ## Addresses of blocks -/

/-- A block of pages below `T` ends at or below `T`. -/
theorem block_end_le (h : ∀ p ∈ points i c, p < T) : c * 2 ^ i + 2 ^ i ≤ T := by
  have hpos := Nat.two_pow_pos i
  have := h (c * 2 ^ i + 2 ^ i - 1) (mem_points_iff.mpr (by omega))
  omega

theorem Inv.bound_le (hI : Inv T s) : T ≤ 2 ^ 51 :=
  le_trans hI.bound_lt.le (Nat.pow_le_pow_right (by omega) hI.zones_le)

/-- An allocator that covers some page has a zone. -/
theorem Inv.zones_pos (hI : Inv T s) (hT : 0 < T) : 0 < s.zones.length := by
  by_contra hnone
  have hlt := hI.bound_lt
  rw [Nat.eq_zero_of_not_pos hnone] at hlt
  omega

theorem Inv.end_le (hI : Inv T s) (hk : k ∈ s.blocks i) : k * 2 ^ i + 2 ^ i ≤ 2 ^ 51 :=
  (block_end_le fun p hp => hI.bounded p (points_subset_cover hk hp)).trans hI.bound_le

/-- The size of a block of order `i`, with room for it to double. -/
theorem pow_le_of_le (hi : i ≤ 50) : 2 ^ (i + 12) ≤ 2 ^ 62 :=
  Nat.pow_le_pow_right (by omega) (by omega)

theorem getBuddyAddr_spec (hi : i ≤ 50) (hb : c * 2 ^ i + 2 ^ i ≤ 2 ^ 51) :
    getBuddyAddr m (blockAddr i c) i = .ok (blockAddr i (sibling c)) := by
  have hsize := pow_le_of_le hi
  have hpos := Nat.two_pow_pos (i + 12)
  have hend : c * 2 ^ (i + 12) + 2 ^ (i + 12) ≤ 2 ^ 63 := by
    calc
      c * 2 ^ (i + 12) + 2 ^ (i + 12) = (c * 2 ^ i + 2 ^ i) * 2 ^ 12 := by
        rw [pow_add]; ring
      _ ≤ 2 ^ 51 * 2 ^ 12 := Nat.mul_le_mul_right _ hb
      _ = 2 ^ 63 := by norm_num
  have hlevel : MIN_ZONE_LEVEL = 12 := by decide
  have hu32 : Usize.asU32 (i + 12) = i + 12 := Usize.asU32_eq (by omega)
  have hhalf : c * 2 ^ (i + 12) % (2 ^ (i + 12) * 2) = c % 2 * 2 ^ (i + 12) := by
    rw [Nat.mul_comm (2 ^ (i + 12)) 2, Nat.mul_mod_mul_right]
  simp only [getBuddyAddr, blockAddr_eq, hlevel, Usize.add_eq (show i + 12 < 2 ^ 64 by omega),
    hu32, Usize.pow_eq (show 2 ^ (i + 12) < 2 ^ 64 by omega), Usize.rem_eq hpos.ne',
    Usize.mul_eq (show 2 ^ (i + 12) * 2 < 2 ^ 64 by omega), Usize.rem_eq
    (show 2 ^ (i + 12) * 2 ≠ 0 by omega), ok_bind, Nat.mul_mod_left, ne_eq, not_true, if_false,
    hhalf]
  rcases Nat.mod_two_eq_zero_or_one c with hc | hc
  · have hs : sibling c = c + 1 := by simp [sibling, hc]
    rw [if_pos (by rw [hc, Nat.zero_mul]), Usize.add_eq (by omega), hs, Nat.add_mul, Nat.one_mul]
  · have hs : sibling c = c - 1 := by simp [sibling, hc]
    have hle : 2 ^ (i + 12) ≤ c * 2 ^ (i + 12) := Nat.le_mul_of_pos_left _ (by omega)
    rw [if_neg (by rw [hc, Nat.one_mul]; exact hpos.ne'), Usize.sub_eq hle, hs, Nat.sub_mul,
      Nat.one_mul]

theorem bucketSize_spec (hi : i ≤ 50) : bucketSize m i = .ok (2 ^ i * BASIC_PAGE_SIZE) := by
  have hle : 2 ^ i ≤ 2 ^ 50 := Nat.pow_le_pow_right (by omega) hi
  have hmul : 2 ^ i * BASIC_PAGE_SIZE < 2 ^ 64 := by
    simp only [BASIC_PAGE_SIZE]
    omega
  rw [bucketSize, Usize.asU32_eq (by omega), Usize.pow_eq (by omega), ok_bind, Usize.mul_eq hmul]

/-- The containment test, on a block below the 64-bit limit. -/
theorem inBucket_spec (hb : c * 2 ^ i + 2 ^ i ≤ 2 ^ 51) (addr : PhysAddr) :
    inBucket m (blockAddr i c) addr (2 ^ i * BASIC_PAGE_SIZE) =
      .ok (decide (addr / BASIC_PAGE_SIZE / 2 ^ i = c)) := by
  have hiff := mem_block_iff addr i c
  rw [mem_points] at hiff
  have hend : blockAddr i c + 2 ^ i * BASIC_PAGE_SIZE < 2 ^ 64 := by
    rw [blockAddr, ← Nat.add_mul]
    exact lt_of_le_of_lt (Nat.mul_le_mul_right _ hb) (by norm_num [BASIC_PAGE_SIZE])
  unfold inBucket
  split
  · rename_i hle
    rw [Usize.add_eq hend, ok_bind]
    simp only [← hiff, hle, true_and]
  · rename_i hle
    simp only [← hiff, hle, false_and, decide_false]

/-! ## The two loops -/

/-- Out of nodes, on the way to a state whose free pages are `C`. -/
def PoolOut (s : BuddyAllocator) (C : Set ℕ) (p : Panic) : Prop :=
  p = .poolEmpty ∧ Exceeds s.nodeCount s.zones.length C

theorem PoolOut.of_keeps (h : Keeps s s') {p : Panic} (hp : PoolOut s' C p) : PoolOut s C p := by
  unfold PoolOut at hp ⊢
  rwa [h.nodeCount_eq, h.zones] at hp

/-- A push either inserts the block or finds the pool empty.  `F` is any tiling that
the push leads towards. -/
theorem pushToZone_yields (hI : Inv T s) (hi : i < s.zones.length)
    (hd : Disjoint (points i c) s.freePages) (hs : sibling c ∉ s.blocks i)
    (hb : ∀ p ∈ points i c, p < T) {F : Family} (hF : Tiling F)
    (hsub : ∀ j, s.blocks.insert i c j ⊆ F j) :
    Yields (PoolOut s (cover F))
      (fun s' => Inv T s' ∧ Keeps s s' ∧ s'.blocks = s.blocks.insert i c)
      (s.pushToZone (blockAddr i c) i) := by
  by_cases hpool : s.freelist = []
  · rw [pushToZone_of_empty hpool, yields_error]
    have hnew : c ∉ s.blocks i := fun h =>
      Set.disjoint_left.mp hd (first_mem_points i c)
        (points_subset_cover h (first_mem_points i c))
    exact ⟨rfl, exceeds_of_empty hI hpool hF (fun j l hl => hsub j (Or.inl hl))
      (hsub i (Or.inr ⟨rfl, rfl⟩)) hnew hi⟩
  · obtain ⟨s', hrun, hI', hkeep, hblocks⟩ := pushToZone_spec hI hi hd hs hb hpool
    rw [hrun, yields_ok]
    exact ⟨hI', hkeep, hblocks⟩

/-- `disband` puts back everything of the ancestor block but the block at `c`. -/
theorem disbandGo_spec (hI : Inv T s) (hS : Splits s.blocks i c k)
    (hk : i + k ≤ s.zones.length) (hb : ∀ p ∈ points (i + k) (c / 2 ^ k), p < T) :
    Yields (PoolOut s (s.freePages ∪ rest i c k))
      (fun s' => Inv T s' ∧ Keeps s s' ∧ s'.freePages = s.freePages ∪ rest i c k)
      (disbandGo m s (blockAddr i c) i k) := by
  induction k generalizing s i c with
  | zero => simpa [disbandGo] using ⟨hI, Keeps.refl s⟩
  | succ k ih =>
      have hin : ∀ p, p ∈ points i c ∨ p ∈ points i (sibling c) → p < T := by
        intro p hp
        apply hb
        have hpar : p ∈ points (i + 1) (c / 2) := by
          rw [points_parent]
          exact hp
        have := points_subset_ancestor (j := i + (k + 1)) (by omega) hpar
        rwa [Nat.div_div_eq_div_mul, ← pow_succ', show i + (k + 1) - (i + 1) + 1 = k + 1 by omega]
          at this
      have hlen := hI.zones_le
      have hend := (block_end_le fun p hp => hin p (Or.inl hp)).trans hI.bound_le
      rw [disbandGo, getBuddyAddr_spec (by omega) hend, ok_bind]
      -- The tiling that the remaining pushes lead to.
      obtain ⟨G, hG, hcov, hsub⟩ := hS.step.exists_filled
      have hgoal : cover G = s.freePages ∪ rest i c (k + 1) := by
        rw [hcov, cover_insert, rest_succ, Set.union_assoc, freePages]
      rw [← hgoal]
      refine (pushToZone_yields hI (by omega) hS.sibling_disjoint hS.notMem
        (fun p hp => hin p (Or.inr hp)) hG hsub).bind ?_
      rintro s' ⟨hI', hkeep, hblocks⟩
      have hS' : Splits s'.blocks (i + 1) (c / 2) k := by
        rw [hblocks]
        exact hS.step
      have hanc : points (i + 1 + k) (c / 2 / 2 ^ k) = points (i + (k + 1)) (c / 2 ^ (k + 1)) := by
        rw [Nat.div_div_eq_div_mul, ← pow_succ', Nat.add_right_comm, Nat.add_assoc]
      rw [determineNextBucketAddr_sibling]
      have hfree : s'.freePages ∪ rest (i + 1) (c / 2) k = cover G := by
        rw [freePages, hblocks, hcov]
      have := ih hI' hS' (by rw [hkeep.zones]; omega) (by rw [hanc]; exact hb)
      rw [hfree] at this
      refine this.mono (fun p hp => hp.of_keeps hkeep) ?_
      rintro s'' ⟨hI'', hkeep', hfree'⟩
      exact ⟨hI'', hkeep.trans hkeep', hfree'⟩

/-- `coalesce` adds a block that is outside the free pages.  When the buddy is held,
the two merge and the loop goes on with their parent; the block in hand stays
outside the free pages. -/
theorem coalesceGo_spec (hI : Inv T s) (hk : i + k = s.zones.length)
    (hd : Disjoint (points i c) s.freePages) (hb : ∀ p ∈ points i c, p < T) :
    Yields (PoolOut s (s.freePages ∪ points i c))
      (fun s' => Inv T s' ∧ Keeps s s' ∧ s'.freePages = s.freePages ∪ points i c)
      (coalesceGo m s (blockAddr i c) i k) := by
  have hend := block_end_le hb
  induction k generalizing s i c with
  | zero =>
      -- Past the top zone the block would be larger than all managed memory.
      have := hI.bound_lt
      rw [← hk, Nat.add_zero] at this
      have hpos : 0 ≤ c * 2 ^ i := Nat.zero_le _
      omega
  | succ k ih =>
      have hlen := hI.zones_le
      have hlt : i < s.zones.length := by omega
      rw [coalesceGo, getBuddyAddr_spec (by omega) (hend.trans hI.bound_le), ok_bind,
        zoneAt_eq hlt, ok_bind]
      rcases findEnum_spec (p := fun node : Node =>
          (.ok (decide (node.data = blockAddr i (sibling c))) : Except Panic Bool))
          (s.zones.getD i []) 0 (fun _ _ => rfl) with ⟨hrun, hnone⟩ | ⟨idx, node, hrun, hidx, hdata⟩
      · have hs : sibling c ∉ s.blocks i := by
          intro h
          obtain ⟨node, hmem, hnode⟩ := List.mem_map.mp h
          exact hnone node hmem hnode
        rw [hrun, ok_bind, freePages, ← cover_insert]
        refine (pushToZone_yields hI hlt hd hs hb (hI.tiling.insert hd hs)
          (fun _ => subset_refl _)).imp ?_
        rintro s' ⟨hI', hkeep, hblocks⟩
        exact ⟨hI', hkeep, by rw [freePages, hblocks]⟩
      · obtain ⟨s', hpop, hI', hkeep, hblocks⟩ := popFromZone_spec hI hlt hidx hdata
        have hheld : sibling c ∈ s.blocks i :=
          List.mem_map.mpr ⟨node, List.mem_of_getElem? hidx, hdata⟩
        have hfree' : s'.freePages = s.freePages \ points i (sibling c) := by
          rw [freePages, hblocks, hI.tiling.cover_erase hheld, freePages]
        have hsub : points i (sibling c) ⊆ s.freePages := points_subset_cover hheld
        rw [hrun, ok_bind]
        simp only [Nat.zero_add]
        rw [hpop, ok_bind, determineNextBucketAddr_sibling]
        have hd' : Disjoint (points (i + 1) (c / 2)) s'.freePages := by
          rw [points_parent, hfree', Set.disjoint_union_left]
          exact ⟨hd.mono_right Set.sdiff_subset, Set.disjoint_sdiff_right⟩
        have hb' : ∀ p ∈ points (i + 1) (c / 2), p < T := by
          intro p hp
          rw [points_parent] at hp
          exact hp.elim (hb p) fun h => hI.bounded p (hsub h)
        have hgoal : s'.freePages ∪ points (i + 1) (c / 2) = s.freePages ∪ points i c := by
          rw [hfree', points_parent, Set.union_comm (points i c), ← Set.union_assoc,
            Set.sdiff_union_of_subset hsub]
        have := ih hI' (by rw [hkeep.zones]; omega) hd' hb' (block_end_le hb')
        rw [hgoal] at this
        refine this.mono (fun p hp => hp.of_keeps hkeep) ?_
        rintro s'' ⟨hI'', hkeep', hfree''⟩
        exact ⟨hI'', hkeep.trans hkeep', hfree''⟩

/-! ## The searches -/

variable {e f al : ℕ} {addr : PhysAddr}

/-- What a search that takes the block `(j, c)` out of `s` leaves behind. -/
structure Took (T : ℕ) (s : BuddyAllocator) (j c : ℕ) (s' : BuddyAllocator) : Prop where
  held : c ∈ s.blocks j
  inv : Inv T s'
  keeps : Keeps s s'
  blocks : s'.blocks = s.blocks.erase j c

theorem took_of_getElem? (hI : Inv T s) (hi : i < s.zones.length) {idx : ℕ} {node : Node}
    (hidx : (s.zones.getD i [])[idx]? = some node) :
    ∃ c s', node.data = blockAddr i c ∧ s.popFromZone i idx = .ok s' ∧ Took T s i c s' := by
  have hmem : node.data ∈ s.addrs i := List.mem_map.mpr ⟨node, List.mem_of_getElem? hidx, rfl⟩
  obtain ⟨c, hc⟩ := hI.aligned i _ hmem
  obtain ⟨s', hpop, hI', hkeep, hblocks⟩ := popFromZone_spec hI hi hidx hc
  exact ⟨c, s', hc, hpop, by rw [mem_blocks, ← hc]; exact hmem, hI', hkeep, hblocks⟩

/-- Taking a block returns its node to the pool. -/
theorem popFromZone_freelist {idx : ℕ} (h : s.popFromZone i idx = .ok s') :
    s'.freelist.length = s.freelist.length + 1 := by
  obtain ⟨zone, -, h⟩ := bind_eq_ok.mp h
  obtain ⟨taken, -, h⟩ := bind_eq_ok.mp h
  cases h
  simp

/-- The outcome of `findBucket`: an aligned block, or none at all. -/
inductive FoundBucket (T : ℕ) (s : BuddyAllocator) (al i : ℕ) :
    Except PmmError (PhysAddr × ℕ) × BuddyAllocator → Prop
  | none (h : ∀ j, i ≤ j → ∀ a ∈ s.addrs j, a % (BASIC_PAGE_SIZE * al) ≠ 0) :
      FoundBucket T s al i (.error .noAvailableBlock, s)
  | some (j c : ℕ) (s' : BuddyAllocator) (hij : i ≤ j)
      (hal : blockAddr j c % (BASIC_PAGE_SIZE * al) = 0) (h : Took T s j c s') :
      FoundBucket T s al i (.ok (blockAddr j c, j), s')

theorem findBucketGo_spec (hI : Inv T s) (hk : i + k = s.zones.length) (hal : 0 < al)
    (hfit : BASIC_PAGE_SIZE * al < 2 ^ 64) :
    ∃ r, findBucketGo m s al i k = .ok r ∧ FoundBucket T s al i r := by
  induction k generalizing i with
  | zero =>
      refine ⟨_, rfl, .none fun j hj a ha => ?_⟩
      rw [addrs_of_le (by omega)] at ha
      cases ha
  | succ k ih =>
      have hlt : i < s.zones.length := by omega
      have hne : BASIC_PAGE_SIZE * al ≠ 0 := (Nat.mul_pos basicPageSize_pos hal).ne'
      rw [findBucketGo, zoneAt_eq hlt, ok_bind]
      simp only [Usize.mul_eq hfit, Usize.rem_eq hne, ok_bind]
      rcases findEnum_spec (p := fun node : Node =>
          (.ok (decide (node.data % (BASIC_PAGE_SIZE * al) = 0)) : Except Panic Bool))
          (s.zones.getD i []) 0 (fun _ _ => rfl) with ⟨hrun, hnone⟩ | ⟨idx, node, hrun, hidx, hnode⟩
      · obtain ⟨r, hr, hfound⟩ := ih (i := i + 1) (by omega)
        rw [hrun, ok_bind, hr]
        refine ⟨r, rfl, ?_⟩
        cases hfound with
        | none h =>
            refine .none fun j hj a ha => ?_
            rcases Nat.eq_or_lt_of_le hj with rfl | hj
            · obtain ⟨node, hmem, rfl⟩ := List.mem_map.mp ha
              exact hnone node hmem
            · exact h j hj a ha
        | some j c s' hij hal h => exact .some j c s' (by omega) hal h
      · obtain ⟨c, s', hc, hpop, htook⟩ := took_of_getElem? hI hlt hidx
        rw [hrun, ok_bind]
        simp only [Nat.zero_add]
        rw [hpop, ok_bind, hc]
        exact ⟨_, rfl, .some i c s' (le_refl i) (hc ▸ hnode) htook⟩

/-- The outcome of `findBucketAt`: the block around `addr`, or none at all. -/
inductive FoundBucketAt (T : ℕ) (s : BuddyAllocator) (addr i : ℕ) :
    Except PmmError ℕ × BuddyAllocator → Prop
  | none (h : ∀ j, i ≤ j → addr / BASIC_PAGE_SIZE / 2 ^ j ∉ s.blocks j) :
      FoundBucketAt T s addr i (.error .noAvailableBlock, s)
  | some (j : ℕ) (s' : BuddyAllocator) (hij : i ≤ j)
      (h : Took T s j (addr / BASIC_PAGE_SIZE / 2 ^ j) s') :
      FoundBucketAt T s addr i (.ok j, s')

/-- The containment test answers for every node of a zone. -/
theorem inBucket_node (hI : Inv T s) (addr : PhysAddr) :
    ∀ node ∈ s.zones.getD i [], inBucket m node.data addr (2 ^ i * BASIC_PAGE_SIZE) =
      .ok (decide (node.data = blockAddr i (addr / BASIC_PAGE_SIZE / 2 ^ i))) := by
  intro node hmem
  have ha : node.data ∈ s.addrs i := List.mem_map.mpr ⟨node, hmem, rfl⟩
  obtain ⟨c, hc⟩ := hI.aligned i _ ha
  rw [hc, inBucket_spec (hI.end_le (by rw [mem_blocks, ← hc]; exact ha))]
  simp only [(blockAddr_injective i).eq_iff, eq_comm]

theorem findBucketAtGo_spec (hI : Inv T s) (addr : PhysAddr) (hk : i + k = s.zones.length) :
    ∃ r, findBucketAtGo m s addr i k = .ok r ∧ FoundBucketAt T s addr i r := by
  induction k generalizing i with
  | zero =>
      refine ⟨_, rfl, .none fun j hj ha => ?_⟩
      have := lt_of_mem_blocks ha
      omega
  | succ k ih =>
      have hlen := hI.zones_le
      have hlt : i < s.zones.length := by omega
      rw [findBucketAtGo, bucketSize_spec (by omega), ok_bind, zoneAt_eq hlt, ok_bind]
      rcases findEnum_spec (s.zones.getD i []) 0 (inBucket_node (m := m) hI addr) with
        ⟨hrun, hnone⟩ | ⟨idx, node, hrun, hidx, hnode⟩
      · obtain ⟨r, hr, hfound⟩ := ih (i := i + 1) (by omega)
        rw [hrun, ok_bind, hr]
        refine ⟨r, rfl, ?_⟩
        cases hfound with
        | none h =>
            refine .none fun j hj ha => ?_
            rcases Nat.eq_or_lt_of_le hj with rfl | hj
            · obtain ⟨node, hmem, hdata⟩ := List.mem_map.mp ha
              exact hnone node hmem hdata
            · exact h j hj ha
        | some j s' hij h => exact .some j s' (by omega) h
      · obtain ⟨c, s', hc, hpop, htook⟩ := took_of_getElem? hI hlt hidx
        have hcc : c = addr / BASIC_PAGE_SIZE / 2 ^ i :=
          blockAddr_injective i (hc.symm.trans hnode)
        rw [hrun, ok_bind]
        simp only [Nat.zero_add]
        rw [hpop, ok_bind]
        exact ⟨_, rfl, .some i s' (le_refl i) (hcc ▸ htook)⟩

theorem isPageFreeGo_spec (hI : Inv T s) (hk : i + k = s.zones.length) :
    ∃ b, isPageFreeGo m s addr i k = .ok b ∧
      (b = true ↔ ∃ j, i ≤ j ∧ addr / BASIC_PAGE_SIZE / 2 ^ j ∈ s.blocks j) := by
  induction k generalizing i with
  | zero =>
      refine ⟨false, rfl, by simp, ?_⟩
      rintro ⟨j, hj, ha⟩
      have := lt_of_mem_blocks ha
      omega
  | succ k ih =>
      have hlen := hI.zones_le
      have hlt : i < s.zones.length := by omega
      rw [isPageFreeGo, bucketSize_spec (by omega), ok_bind, zoneAt_eq hlt, ok_bind]
      rcases findEnum_spec (s.zones.getD i []) 0 (inBucket_node (m := m) hI addr) with
        ⟨hrun, hnone⟩ | ⟨idx, node, hrun, hidx, hnode⟩
      · obtain ⟨b, hr, hiff⟩ := ih (i := i + 1) (by omega)
        rw [hrun, ok_bind, hr]
        refine ⟨b, rfl, hiff.trans ?_⟩
        constructor
        · rintro ⟨j, hj, ha⟩
          exact ⟨j, by omega, ha⟩
        · rintro ⟨j, hj, ha⟩
          rcases Nat.eq_or_lt_of_le hj with rfl | hj
          · obtain ⟨node, hmem, hdata⟩ := List.mem_map.mp ha
            exact absurd hdata (hnone node hmem)
          · exact ⟨j, hj, ha⟩
      · rw [hrun, ok_bind]
        refine ⟨true, rfl, fun _ => ⟨i, le_refl i, ?_⟩, fun _ => rfl⟩
        exact List.mem_map.mpr ⟨node, List.mem_of_getElem? hidx, hnode⟩

/-! ## The interface -/

theorem limit_eq (hI : Inv T s) :
    Usize.pow m 2 (Usize.asU32 s.zones.length) = .ok (2 ^ s.zones.length) := by
  have hlen := hI.zones_le
  rw [Usize.asU32_eq (by omega),
    Usize.pow_eq (Nat.pow_lt_pow_right (by omega) (by omega))]

/-- The free pages after an operation that keeps all zones and nodes. -/
structure Frees (T : ℕ) (s s' : BuddyAllocator) (C : Set ℕ) : Prop where
  inv : Inv T s'
  keeps : Keeps s s'
  free : s'.freePages = C

theorem Frees.trans {D E : Set ℕ} {s'' : BuddyAllocator} (h : Frees T s s' C)
    (h' : Frees T s' s'' D) (hD : D = E) : Frees T s s'' E :=
  ⟨h'.inv, h.keeps.trans h'.keeps, h'.free.trans hD⟩

/-- Taking the block `(e, c)` out of a held ancestor and splitting the ancestor. -/
theorem disband_spec (hI : Inv T s) (hej : e ≤ j) (h : Took T s j (c / 2 ^ (j - e)) s') :
    Yields (PoolOut s (s.freePages \ points e c)) (Frees T s · (s.freePages \ points e c))
      (disband m s' (blockAddr e c) e j) := by
  obtain ⟨d, rfl⟩ := Nat.exists_eq_add_of_le hej
  rw [Nat.add_sub_cancel_left] at h
  have hcov := cover_erase_union_rest hI.tiling h.held
  rw [← h.blocks] at hcov
  have hsplit : Splits s'.blocks e c d := by
    rw [h.blocks]
    exact hI.tiling.splits_erase h.held
  have hlen := lt_of_mem_blocks h.held
  have hgo := disbandGo_spec (m := m) h.inv hsplit (by rw [h.keeps.zones]; omega)
    (fun p hp => hI.bounded p (points_subset_cover h.held hp))
  rw [freePages, hcov] at hgo
  rw [disband, Nat.add_sub_cancel_left]
  refine hgo.mono (fun p hp => hp.of_keeps h.keeps) ?_
  rintro s'' ⟨hI'', hkeep, hfree⟩
  exact ⟨hI'', h.keeps.trans hkeep, hfree⟩

/-- The outcome of `allocate` for `2 ^ e` pages aligned to `2 ^ f` pages. -/
inductive Allocated (T : ℕ) (s : BuddyAllocator) (f e : ℕ) :
    Except PmmError PhysAddr × BuddyAllocator → Prop
  | tooBig (h : s.zones.length < e) : Allocated T s f e (.error .tooBigAllocation, s)
  | none (h : ∀ j c, e ≤ j → c ∈ s.blocks j → ¬ 2 ^ f ∣ c * 2 ^ j) :
      Allocated T s f e (.error .noAvailableBlock, s)
  | some (c : ℕ) (s' : BuddyAllocator) (hal : 2 ^ f ∣ c * 2 ^ e)
      (hfree : points e c ⊆ s.freePages) (h : Frees T s s' (s.freePages \ points e c)) :
      Allocated T s f e (.ok (blockAddr e c), s')

theorem blockAddr_mod_eq_zero_iff :
    blockAddr j c % (BASIC_PAGE_SIZE * 2 ^ f) = 0 ↔ 2 ^ f ∣ c * 2 ^ j := by
  rw [blockAddr, Nat.mul_comm BASIC_PAGE_SIZE, Nat.mul_mod_mul_right,
    Nat.mul_eq_zero, Nat.dvd_iff_mod_eq_zero]
  simp [basicPageSize_pos.ne']

/-- The sub-block of order `e` that starts where a larger block does. -/
theorem blockAddr_of_le (h : e ≤ j) : blockAddr j c = blockAddr e (c * 2 ^ (j - e)) := by
  rw [blockAddr, blockAddr, Nat.mul_assoc c (2 ^ (j - e)), ← pow_add, Nat.sub_add_cancel h]

theorem pageSize_mul_two_pow (e : ℕ) : BASIC_PAGE_SIZE * 2 ^ e = 2 ^ (12 + e) := by
  rw [pow_add]
  rfl

/-- The powers of two whose number of bytes fits 64 bits. -/
theorem pageSize_mul_two_pow_lt_iff : BASIC_PAGE_SIZE * 2 ^ e < 2 ^ 64 ↔ e < 52 := by
  rw [pageSize_mul_two_pow, Nat.pow_lt_pow_iff_right (by omega)]
  omega

/-- The arguments that `allocate` refuses at once. -/
theorem allocate_refused (hI : Inv T s) {n : ℕ}
    (h : n = 0 ∨ 2 ^ s.zones.length < n ∨ isPowerOfTwo al = false) :
    ∃ x, allocate m s al n = .ok (.error x, s) := by
  by_cases hn : n = 0
  · exact ⟨_, by rw [allocate, if_pos hn]⟩
  by_cases hlim : 2 ^ s.zones.length < n
  · exact ⟨_, by rw [allocate, if_neg hn, limit_eq hI, ok_bind, if_pos hlim]⟩
  have hal := (h.resolve_left hn).resolve_left hlim
  refine ⟨.invalidAlignment, ?_⟩
  rw [allocate, if_neg hn, limit_eq hI, ok_bind, if_neg hlim, if_pos (by rw [hal]; rfl)]

/-- Otherwise it searches the zones from the rounded-up count on. -/
theorem allocate_eq (hI : Inv T s) {n : ℕ} (hn : n ≠ 0) (hle : n ≤ 2 ^ s.zones.length)
    (hal : isPowerOfTwo al = true) :
    allocate m s al n = findBucket m s al (Nat.clog 2 n) >>= fun
      | (.error x, s') => .ok (.error x, s')
      | (.ok (usedAddr, usedIndex), s') =>
          (disband m s' usedAddr (Nat.clog 2 n) usedIndex >>= fun s'' =>
            .ok (.ok usedAddr, s'')) := by
  have hlen := hI.zones_le
  have hclog : Nat.clog 2 n ≤ s.zones.length := Nat.clog_le_of_le_pow hle
  rw [allocate, if_neg hn, limit_eq hI, ok_bind, if_neg (not_lt.mpr hle),
    if_neg (by rw [hal]; decide), checkedNextPowerOfTwo_eq (by omega)]
  dsimp only
  rewrite [Nat.log2_two_pow]
  rfl

theorem allocate_spec (hI : Inv T s) (hf : f < 52) :
    Yields (fun p => ∃ c, points e c ⊆ s.freePages ∧ PoolOut s (s.freePages \ points e c) p)
      (Allocated T s f e) (allocate m s (2 ^ f) (2 ^ e)) := by
  by_cases hbig : 2 ^ s.zones.length < 2 ^ e
  · rw [allocate, if_neg (Nat.two_pow_pos e).ne', limit_eq hI, ok_bind, if_pos hbig]
    exact .tooBig ((Nat.pow_lt_pow_iff_right (by omega)).mp hbig)
  have hele : e ≤ s.zones.length := (Nat.pow_le_pow_iff_right (by omega)).mp (not_lt.mp hbig)
  rw [allocate_eq hI (Nat.two_pow_pos e).ne' (not_lt.mp hbig) (isPowerOfTwo_two_pow f),
    Nat.clog_pow 2 e (by omega), findBucket]
  obtain ⟨r, hr, hfound⟩ := findBucketGo_spec (m := m) (i := e) (k := s.zones.length - e) hI
    (by omega) (Nat.two_pow_pos f) (pageSize_mul_two_pow_lt_iff.mpr hf)
  rw [hr, ok_bind]
  cases hfound with
  | none h =>
      refine .none fun j c hj hc hdvd => ?_
      exact h j hj _ hc (blockAddr_mod_eq_zero_iff.mpr hdvd)
  | some j c s' hij hal h =>
      let c' := c * 2 ^ (j - e)
      have hc' : c' / 2 ^ (j - e) = c := Nat.mul_div_cancel _ (Nat.two_pow_pos _)
      have hsub : points e c' ⊆ s.freePages := by
        refine (points_subset_ancestor hij).trans ?_
        rw [hc']
        exact points_subset_cover h.held
      have hdvd : 2 ^ f ∣ c' * 2 ^ e := by
        have := blockAddr_mod_eq_zero_iff.mp hal
        rwa [Nat.mul_assoc, ← pow_add, Nat.sub_add_cancel hij]
      simp only [blockAddr_of_le hij]
      rw [← hc'] at h
      refine ((disband_spec hI hij h).allow fun p hp => ⟨c', hsub, hp⟩).bind ?_
      exact fun s'' h'' => .some c' s'' hdvd hsub h''

/-- The number of bytes of `n` pages, as the build computes it, can be divided by. -/
def Sizable (m : Overflow) (n : ℕ) : Prop :=
  BASIC_PAGE_SIZE * n < 2 ^ 64 ∨ m = .wrapping ∧ BASIC_PAGE_SIZE * n % 2 ^ 64 ≠ 0

theorem Sizable.size_eq {n : ℕ} (hn : n ≠ 0) (h : Sizable m n) :
    Usize.mul m BASIC_PAGE_SIZE n = .ok (BASIC_PAGE_SIZE * n % 2 ^ 64) ∧
      BASIC_PAGE_SIZE * n % 2 ^ 64 ≠ 0 := by
  by_cases hfit : BASIC_PAGE_SIZE * n < 2 ^ 64
  · rw [Usize.mul_eq hfit, Nat.mod_eq_of_lt hfit]
    exact ⟨rfl, (Nat.mul_pos basicPageSize_pos (Nat.pos_of_ne_zero hn)).ne'⟩
  · obtain ⟨rfl, hne⟩ := h.resolve_left hfit
    refine ⟨?_, hne⟩
    rw [Usize.mul, Overflow.fit.eq_def, if_neg hfit, ofOption_some]

/-- Otherwise a remainder aborts: the product overflows, or wraps to a zero divisor. -/
theorem rem_of_not_sizable {n : ℕ} (h : ¬ Sizable m n) :
    ∃ p, ∀ (a : ℕ) {β : Type} (cont : ℕ → Except Panic β),
      (Usize.mul m BASIC_PAGE_SIZE n >>= fun size => Usize.rem a size >>= cont) = .error p := by
  simp only [Sizable, not_or, not_and, not_not] at h
  obtain ⟨hbig, hzero⟩ := h
  cases m with
  | checked =>
      refine ⟨.overflow, fun a β cont => ?_⟩
      simp only [Usize.mul, Overflow.fit, if_neg hbig, ofOption_none, error_bind]
  | wrapping =>
      refine ⟨.remByZero, fun a β cont => ?_⟩
      simp only [Usize.mul, Overflow.fit, if_neg hbig, ofOption_some, ok_bind, hzero rfl, Usize.rem,
        if_true, error_bind]

theorem not_sizable_two_pow (hf : 52 ≤ f) : ¬ Sizable m (2 ^ f) := by
  rintro (hfit | ⟨-, hne⟩)
  · have := pageSize_mul_two_pow_lt_iff.mp hfit
    omega
  · rw [pageSize_mul_two_pow] at hne
    exact hne (Nat.mod_eq_zero_of_dvd (Nat.pow_dvd_pow 2 (by omega)))

/-- An alignment of 2^64 bytes or more aborts at the first node that is tested. -/
theorem findBucketGo_of_overflow (hf : 52 ≤ f)
    {r : Except PmmError (PhysAddr × ℕ) × BuddyAllocator}
    (h : findBucketGo m s (2 ^ f) i k = .ok r) : r = (.error .noAvailableBlock, s) := by
  obtain ⟨p, htest⟩ := rem_of_not_sizable (m := m) (not_sizable_two_pow hf)
  induction k generalizing i with
  | zero => exact (Except.ok.inj h).symm
  | succ k ih =>
      rw [findBucketGo] at h
      obtain ⟨zone, -, h⟩ := bind_eq_ok.mp h
      simp only [htest] at h
      cases zone with
      | nil => exact ih h
      | cons node zone => cases h

/-- Rounding the count first gives the same call. -/
theorem allocate_round (hI : Inv T s) {n : ℕ} (hn : n ≠ 0) (hle : n ≤ 2 ^ s.zones.length) :
    allocate m s (2 ^ f) n = allocate m s (2 ^ f) (2 ^ Nat.clog 2 n) := by
  have hclog : Nat.clog 2 n ≤ s.zones.length := Nat.clog_le_of_le_pow hle
  rw [allocate_eq hI hn hle (isPowerOfTwo_two_pow f),
    allocate_eq hI (Nat.two_pow_pos _).ne' (Nat.pow_le_pow_right (by omega) hclog)
      (isPowerOfTwo_two_pow f), Nat.clog_pow 2 _ (by omega)]

/-- Whatever the arguments, a call of `allocate` that returns hands out free pages, as many
as asked for when rounded up, or changes nothing. -/
theorem allocate_any (hI : Inv T s) {al n : ℕ} {r : Except PmmError PhysAddr × BuddyAllocator}
    (h : allocate m s al n = .ok r) :
    (∃ x, r = (.error x, s)) ∨ ∃ c, r.1 = .ok (blockAddr (Nat.clog 2 n) c) ∧
      points (Nat.clog 2 n) c ⊆ s.freePages ∧
      Frees T s r.2 (s.freePages \ points (Nat.clog 2 n) c) := by
  by_cases hargs : n = 0 ∨ 2 ^ s.zones.length < n ∨ isPowerOfTwo al = false
  · obtain ⟨x, hx⟩ := allocate_refused (m := m) hI hargs
    rw [hx] at h
    exact Or.inl ⟨x, (Except.ok.inj h).symm⟩
  simp only [not_or, not_lt, Bool.not_eq_false] at hargs
  obtain ⟨hn, hle, hal⟩ := hargs
  obtain ⟨f, rfl⟩ := exists_of_isPowerOfTwo hal
  have hlen := hI.zones_le
  have hclog : Nat.clog 2 n ≤ s.zones.length := Nat.clog_le_of_le_pow hle
  rcases Nat.lt_or_ge f 52 with hf | hf
  · rw [allocate_round hI hn hle] at h
    cases (allocate_spec hI hf).post h with
    | tooBig => exact Or.inl ⟨_, rfl⟩
    | none => exact Or.inl ⟨_, rfl⟩
    | some c s' hal hfree hfrees => exact Or.inr ⟨c, rfl, hfree, hfrees⟩
  · rw [allocate_eq hI hn hle hal] at h
    obtain ⟨r', hfind, h⟩ := bind_eq_ok.mp h
    rw [findBucketGo_of_overflow hf hfind] at h
    exact Or.inl ⟨_, (Except.ok.inj h).symm⟩

/-- The outcome of `allocateAt` for `2 ^ e` pages. -/
inductive AllocatedAt (T : ℕ) (s : BuddyAllocator) (addr : PhysAddr) (e : ℕ) :
    Except PmmError Unit × BuddyAllocator → Prop
  | tooBig (h : s.zones.length < e) : AllocatedAt T s addr e (.error .tooBigAllocation, s)
  | misaligned (h : ∀ c, addr ≠ blockAddr e c) :
      AllocatedAt T s addr e (.error .invalidAlignment, s)
  | none (c : ℕ) (haddr : addr = blockAddr e c) (h : ¬ points e c ⊆ s.freePages) :
      AllocatedAt T s addr e (.error .noAvailableBlock, s)
  | some (c : ℕ) (s' : BuddyAllocator) (haddr : addr = blockAddr e c)
      (hfree : points e c ⊆ s.freePages) (h : Frees T s s' (s.freePages \ points e c)) :
      AllocatedAt T s addr e (.ok (), s')

theorem page_of_blockAddr (h : e ≤ j) :
    blockAddr e c / BASIC_PAGE_SIZE / 2 ^ j = c / 2 ^ (j - e) := by
  rw [blockAddr, Nat.mul_div_cancel _ basicPageSize_pos, div_pow_of_le _ h,
    Nat.mul_div_cancel _ (Nat.two_pow_pos e)]

/-- A range is covered exactly when one held block of at least its size is around it.
This is what the scan over the larger zones relies on. -/
theorem subset_freePages_iff (hI : Inv T s) :
    points e c ⊆ s.freePages ↔
      ∃ j, e ≤ j ∧ blockAddr e c / BASIC_PAGE_SIZE / 2 ^ j ∈ s.blocks j := by
  constructor
  · intro h
    obtain ⟨j, hj, hm⟩ := hI.tiling.exists_mem_of_subset h
    exact ⟨j, hj, by rwa [page_of_blockAddr hj]⟩
  · rintro ⟨j, hj, hm⟩
    rw [page_of_blockAddr hj] at hm
    exact (points_subset_ancestor hj).trans (points_subset_cover hm)

theorem exists_blockAddr_of_mod (h : addr % (BASIC_PAGE_SIZE * 2 ^ e) = 0) :
    ∃ c, addr = blockAddr e c := by
  obtain ⟨c, hc⟩ := Nat.dvd_of_mod_eq_zero h
  exact ⟨c, by rw [hc, blockAddr]; ring⟩

theorem blockAddr_mod (e c : ℕ) : blockAddr e c % (BASIC_PAGE_SIZE * 2 ^ e) = 0 := by
  rw [blockAddr, Nat.mul_assoc, Nat.mul_comm (2 ^ e), Nat.mul_mod_left]

theorem pageSize_mul_fits (hI : Inv T s) {n : ℕ} (hle : n ≤ 2 ^ s.zones.length) :
    BASIC_PAGE_SIZE * n < 2 ^ 64 := by
  have hpow : 2 ^ s.zones.length ≤ 2 ^ 51 := Nat.pow_le_pow_right (by omega) hI.zones_le
  simp only [BASIC_PAGE_SIZE]
  omega

/-- The arguments that `allocate_at` refuses at once. -/
theorem allocateAt_refused (hI : Inv T s) {n : ℕ}
    (h : n = 0 ∨ 2 ^ s.zones.length < n ∨ addr % (BASIC_PAGE_SIZE * n) ≠ 0) :
    ∃ x, allocateAt m s addr n = .ok (.error x, s) := by
  by_cases hn : n = 0
  · exact ⟨_, by rw [allocateAt, if_pos hn]⟩
  by_cases hlim : 2 ^ s.zones.length < n
  · exact ⟨_, by rw [allocateAt, if_neg hn, limit_eq hI, ok_bind, if_pos hlim]⟩
  have hmod := (h.resolve_left hn).resolve_left hlim
  have hne : BASIC_PAGE_SIZE * n ≠ 0 :=
    (Nat.mul_pos basicPageSize_pos (Nat.pos_of_ne_zero hn)).ne'
  refine ⟨.invalidAlignment, ?_⟩
  rw [allocateAt, if_neg hn, limit_eq hI, ok_bind, if_neg hlim,
    Usize.mul_eq (pageSize_mul_fits hI (not_lt.mp hlim)), ok_bind, Usize.rem_eq hne, ok_bind,
    if_pos hmod]

/-- Otherwise it looks for a block around the address, and splits the block it finds from
the address on. -/
theorem allocateAt_eq (hI : Inv T s) {n : ℕ} (hn : n ≠ 0) (hle : n ≤ 2 ^ s.zones.length)
    (hmod : addr % (BASIC_PAGE_SIZE * n) = 0) :
    allocateAt m s addr n = findBucketAt m s addr (Nat.clog 2 n) >>= fun
      | (.error x, s') => .ok (.error x, s')
      | (.ok usedIndex, s') =>
          (disband m s' addr (Nat.clog 2 n) usedIndex >>= fun s'' => .ok (.ok (), s'')) := by
  have hlen := hI.zones_le
  have hclog : Nat.clog 2 n ≤ s.zones.length := Nat.clog_le_of_le_pow hle
  have hne : BASIC_PAGE_SIZE * n ≠ 0 :=
    (Nat.mul_pos basicPageSize_pos (Nat.pos_of_ne_zero hn)).ne'
  rw [allocateAt, if_neg hn, limit_eq hI, ok_bind, if_neg (not_lt.mpr hle),
    Usize.mul_eq (pageSize_mul_fits hI hle), ok_bind, Usize.rem_eq hne, ok_bind,
    if_neg (not_not.mpr hmod), checkedNextPowerOfTwo_eq (by omega)]
  dsimp only
  rewrite [Nat.log2_two_pow]
  rfl

theorem allocateAt_spec (hI : Inv T s) :
    Yields (fun p => ∃ c, addr = blockAddr e c ∧ PoolOut s (s.freePages \ points e c) p)
      (AllocatedAt T s addr e) (allocateAt m s addr (2 ^ e)) := by
  by_cases hbig : 2 ^ s.zones.length < 2 ^ e
  · rw [allocateAt, if_neg (Nat.two_pow_pos e).ne', limit_eq hI, ok_bind, if_pos hbig]
    exact .tooBig ((Nat.pow_lt_pow_iff_right (by omega)).mp hbig)
  have hele : e ≤ s.zones.length := (Nat.pow_le_pow_iff_right (by omega)).mp (not_lt.mp hbig)
  have hne : BASIC_PAGE_SIZE * 2 ^ e ≠ 0 :=
    (Nat.mul_pos basicPageSize_pos (Nat.two_pow_pos e)).ne'
  by_cases hoff : addr % (BASIC_PAGE_SIZE * 2 ^ e) = 0
  swap
  · rw [allocateAt, if_neg (Nat.two_pow_pos e).ne', limit_eq hI, ok_bind, if_neg hbig,
      Usize.mul_eq (pageSize_mul_fits hI (not_lt.mp hbig)), ok_bind, Usize.rem_eq hne, ok_bind,
      if_pos hoff]
    refine .misaligned fun c hc => hoff ?_
    rw [hc, blockAddr_mod]
  obtain ⟨c, rfl⟩ := exists_blockAddr_of_mod hoff
  rw [allocateAt_eq hI (Nat.two_pow_pos e).ne' (not_lt.mp hbig) hoff, Nat.clog_pow 2 e (by omega),
    findBucketAt]
  obtain ⟨r, hr, hfound⟩ := findBucketAtGo_spec (m := m) (i := e)
    (k := s.zones.length - e) hI (blockAddr e c) (by omega)
  rw [hr, ok_bind]
  cases hfound with
  | none h =>
      refine .none c rfl fun hsub => ?_
      obtain ⟨j, hj, hm⟩ := (subset_freePages_iff hI).mp hsub
      exact h j hj hm
  | some j s' hij h =>
      have hsub := (subset_freePages_iff hI).mpr ⟨j, hij, h.held⟩
      rw [page_of_blockAddr hij] at h
      refine ((disband_spec hI hij h).allow fun p hp => ⟨c, rfl, hp⟩).bind ?_
      exact fun s'' h'' => .some c s'' rfl hsub h''

/-- Taking one page that is free. -/
theorem allocateAt_page (hI : Inv T s) {p : ℕ} (hp : p ∈ s.freePages) :
    Yields (PoolOut s (s.freePages \ {p}))
      (fun x => x.1 = .ok () ∧ Frees T s x.2 (s.freePages \ {p}))
      (allocateAt m s (p * BASIC_PAGE_SIZE) 1) := by
  refine (allocateAt_spec (e := 0) hI).mono ?_ ?_
  · rintro x ⟨c, hc, hx⟩
    rw [← blockAddr_zero] at hc
    obtain rfl := blockAddr_injective 0 hc
    rwa [points_zero] at hx
  · rintro x hx
    cases hx with
    | tooBig h => omega
    | misaligned h => exact absurd (blockAddr_zero p).symm (h p)
    | none c haddr h =>
        rw [← blockAddr_zero] at haddr
        obtain rfl := blockAddr_injective 0 haddr
        rw [points_zero, Set.singleton_subset_iff] at h
        exact absurd hp h
    | some c s' haddr _ h =>
        rw [← blockAddr_zero] at haddr
        obtain rfl := blockAddr_injective 0 haddr
        rw [points_zero] at h
        exact ⟨rfl, h⟩

/-- For an aligned address `is_page_free` scans the zones from the rounded-up count on. -/
theorem isPageFree_eq {n : ℕ} (hn : n ≠ 0) (hfit : BASIC_PAGE_SIZE * n < 2 ^ 64)
    (hmod : addr % (BASIC_PAGE_SIZE * n) = 0) :
    isPageFree m s addr n =
      (isPageFreeGo m s addr (Nat.clog 2 n) (s.zones.length - Nat.clog 2 n) >>= fun found =>
        .ok (.ok found)) := by
  have hne : BASIC_PAGE_SIZE * n ≠ 0 :=
    (Nat.mul_pos basicPageSize_pos (Nat.pos_of_ne_zero hn)).ne'
  have hclog : Nat.clog 2 n ≤ 52 := by
    refine Nat.clog_le_of_le_pow ?_
    simp only [BASIC_PAGE_SIZE] at hfit
    omega
  rw [isPageFree, if_neg hn, Usize.mul_eq hfit, ok_bind, Usize.rem_eq hne, ok_bind,
    if_neg (not_not.mpr hmod), checkedNextPowerOfTwo_eq (by omega)]
  simp only [Nat.log2_two_pow]

/-- The scan of the larger zones decides whether a whole aligned range is free. -/
theorem isPageFree_spec (hI : Inv T s) (he : e < 52) :
    ∃ b, isPageFree m s (blockAddr e c) (2 ^ e) = .ok (.ok b) ∧
      (b = true ↔ points e c ⊆ s.freePages) := by
  have hscan : ∃ b, isPageFreeGo m s (blockAddr e c) e (s.zones.length - e) = .ok b ∧
      (b = true ↔ ∃ j, e ≤ j ∧ blockAddr e c / BASIC_PAGE_SIZE / 2 ^ j ∈ s.blocks j) := by
    rcases Nat.le_total e s.zones.length with hle | hle
    · exact isPageFreeGo_spec hI (by omega)
    · rw [Nat.sub_eq_zero_of_le hle]
      refine ⟨false, rfl, by simp, ?_⟩
      rintro ⟨j, hj, hm⟩
      have := lt_of_mem_blocks hm
      omega
  obtain ⟨b, hb, hiff⟩ := hscan
  refine ⟨b, ?_, hiff.trans (subset_freePages_iff hI).symm⟩
  rw [isPageFree_eq (Nat.two_pow_pos e).ne' (pageSize_mul_two_pow_lt_iff.mpr he) (blockAddr_mod e c),
    Nat.clog_pow 2 e (by omega), hb, ok_bind]

/-- Freeing a range of which every page is free is refused. -/
theorem free_of_subset (hI : Inv T s) (he : e < 52) (h : points e c ⊆ s.freePages) :
    free m s (blockAddr e c) (2 ^ e) = .ok (.error .freeOfAlreadyFree, s) := by
  obtain ⟨b, hb, hiff⟩ := isPageFree_spec (m := m) hI he
  rw [hiff.mpr h] at hb
  rw [free, if_neg (Nat.two_pow_pos e).ne', hb, ok_bind]

/-- Freeing a range of which some page is not free goes on to `coalesce`. -/
theorem free_eq_coalesce (hI : Inv T s) (he : e < 52) (h : ¬ points e c ⊆ s.freePages) :
    free m s (blockAddr e c) (2 ^ e) =
      (coalesce m s (blockAddr e c) e >>= fun s' => .ok (.ok (), s')) := by
  obtain ⟨b, hb, hiff⟩ := isPageFree_spec (m := m) (c := c) hI he
  have hfalse : b = false := by
    cases b with
    | false => rfl
    | true => exact absurd (hiff.mp rfl) h
  rw [hfalse] at hb
  rw [free, if_neg (Nat.two_pow_pos e).ne', hb, ok_bind]
  simp only [checkedNextPowerOfTwo_two_pow (show e < 64 by omega), Nat.log2_two_pow]

/-- Freeing a range outside the free pages adds exactly its pages. -/
theorem free_spec (hI : Inv T s) (hd : Disjoint (points e c) s.freePages)
    (hb : ∀ p ∈ points e c, p < T) :
    Yields (PoolOut s (s.freePages ∪ points e c))
      (fun r => r.1 = .ok () ∧ Frees T s r.2 (s.freePages ∪ points e c))
      (free m s (blockAddr e c) (2 ^ e)) := by
  have hend := block_end_le hb
  have hlt : e < s.zones.length := by
    have hT := hI.bound_lt
    refine (Nat.pow_lt_pow_iff_right (show 1 < 2 by omega)).mp ?_
    have : 0 ≤ c * 2 ^ e := Nat.zero_le _
    omega
  have hlen := hI.zones_le
  have hnot : ¬ points e c ⊆ s.freePages := fun hsub =>
    Set.disjoint_left.mp hd (first_mem_points e c) (hsub (first_mem_points e c))
  rw [free_eq_coalesce hI (by omega) hnot, coalesce]
  refine (coalesceGo_spec hI (by omega) hd hb).bind ?_
  rintro s' ⟨hI', hkeep, hfree⟩
  exact ⟨rfl, hI', hkeep, hfree⟩

/-- Freeing the block that was just taken restores the free pages.  The pool cannot run out:
the state to be reached is one whose blocks had nodes before. -/
theorem free_taken (hI : Inv T s) (hsub : points e c ⊆ s.freePages)
    (h : Frees T s s' (s.freePages \ points e c)) :
    ∃ s'', free m s' (blockAddr e c) (2 ^ e) = .ok (.ok (), s'') ∧ Inv T s'' ∧
      s''.freePages = s.freePages := by
  have hback : s'.freePages ∪ points e c = s.freePages := by
    rw [h.free, Set.sdiff_union_of_subset hsub]
  have hd : Disjoint (points e c) s'.freePages := by
    rw [h.free]
    exact Set.disjoint_sdiff_right
  have hspec := free_spec (m := m) h.inv hd fun p hp => hI.bounded p (hsub hp)
  rw [hback] at hspec
  have hroom : ∀ p, ¬ PoolOut s' s.freePages p := by
    intro p hp
    obtain ⟨-, hex⟩ := hp.of_keeps h.keeps
    exact not_exceeds hI _ hex
  obtain ⟨⟨r, s''⟩, hrun, hr, hfrees⟩ := hspec.exists_ok hroom
  simp only at hr
  rw [hr] at hrun
  exact ⟨s'', hrun, hfrees.inv, hfrees.free⟩

/-! ## Handing a region over -/

/-- The inner loop finds a block that starts at the region and fits into it. -/
theorem pickBucket_spec {p n z : ℕ} (hz : z ≤ 51) (hz0 : 0 < z) (hn : 0 < n) :
    ∃ i, i < z ∧ pickBucket m p n z = .ok (some (2 ^ i)) ∧ p % 2 ^ i = 0 ∧ 2 ^ i ≤ n := by
  induction z with
  | zero => omega
  | succ z ih =>
      have hle : 2 ^ z ≤ 2 ^ 50 := Nat.pow_le_pow_right (by omega) (by omega)
      rw [pickBucket, Usize.asU32_eq (by omega), Usize.pow_eq (by omega), ok_bind,
        Usize.rem_eq (Nat.two_pow_pos z).ne', ok_bind]
      by_cases htest : p % 2 ^ z = 0 ∧ n ≥ 2 ^ z
      · rw [if_pos htest]
        exact ⟨z, by omega, rfl, htest.1, htest.2⟩
      · rw [if_neg htest]
        rcases Nat.eq_zero_or_pos z with rfl | hpos
        · exact absurd ⟨Nat.mod_one p, hn⟩ htest
        · obtain ⟨i, hi, hrest⟩ := ih (by omega) hpos
          exact ⟨i, by omega, hrest⟩

theorem points_eq_Ico {p : ℕ} (h : p % 2 ^ i = 0) : points i (p / 2 ^ i) = Set.Ico p (p + 2 ^ i) := by
  ext q
  rw [mem_points_iff, Nat.div_mul_cancel (Nat.dvd_of_mod_eq_zero h), Set.mem_Ico]

theorem Ico_union {p a b : ℕ} :
    Set.Ico p (p + a) ∪ Set.Ico (p + a) (p + a + b) = Set.Ico p (p + (a + b)) := by
  rw [Set.Ico_union_Ico_eq_Ico (Nat.le_add_right _ _) (Nat.le_add_right _ _), Nat.add_assoc]

/-- Out of nodes part-way through handing over the pages from `p` to `p + n`. -/
def PoolOutIn (s : BuddyAllocator) (p n : ℕ) (x : Panic) : Prop :=
  ∃ q ≤ n, PoolOut s (s.freePages ∪ Set.Ico p (p + q)) x

theorem breakGo_spec {p n fuel : ℕ} (hI : Inv T s) (hfuel : n ≤ fuel)
    (hd : Disjoint (Set.Ico p (p + n)) s.freePages) (hb : p + n ≤ T) :
    Yields (PoolOutIn s p n) (Frees T s · (s.freePages ∪ Set.Ico p (p + n)))
      (breakGo m s p n fuel) := by
  induction fuel generalizing s p n with
  | zero =>
      obtain rfl : n = 0 := by omega
      exact ⟨hI, Keeps.refl s, by simp⟩
  | succ fuel ih =>
      rw [breakGo]
      split
      · rename_i hn
        subst hn
        exact ⟨hI, Keeps.refl s, by simp⟩
      rename_i hn
      have hbound := hI.bound_le
      obtain ⟨i, hi, hpick, hmod, hle⟩ := pickBucket_spec (m := m) (p := p) (n := n) hI.zones_le
        (hI.zones_pos (by omega)) (by omega)
      have haddr : p * BASIC_PAGE_SIZE = blockAddr i (p / 2 ^ i) := by
        rw [blockAddr, Nat.div_mul_cancel (Nat.dvd_of_mod_eq_zero hmod)]
      have hfit : p * BASIC_PAGE_SIZE < 2 ^ 64 := by
        calc
          p * BASIC_PAGE_SIZE ≤ 2 ^ 51 * BASIC_PAGE_SIZE := Nat.mul_le_mul_right _ (by omega)
          _ < 2 ^ 64 := by norm_num [BASIC_PAGE_SIZE]
      have hsub : Set.Ico p (p + 2 ^ i) ⊆ Set.Ico p (p + n) :=
        Set.Ico_subset_Ico_right (by omega)
      have hblock := points_eq_Ico hmod
      rw [hpick, ok_bind]
      simp only [Usize.mul_eq hfit, ok_bind, haddr]
      refine ((free_spec hI (by rw [hblock]; exact hd.mono_left hsub) ?_).allow ?_).bind ?_
      · rw [hblock]
        intro q hq
        rw [Set.mem_Ico] at hq
        omega
      · rw [hblock]
        exact fun x hx => ⟨2 ^ i, hle, hx⟩
      rintro ⟨_, s'⟩ ⟨rfl, hfrees⟩
      rw [hblock] at hfrees
      simp only [Usize.sub_eq hle, Usize.add_eq (show p + 2 ^ i < 2 ^ 64 by omega), ok_bind]
      have hd' : Disjoint (Set.Ico (p + 2 ^ i) (p + 2 ^ i + (n - 2 ^ i))) s'.freePages := by
        rw [hfrees.free, Set.disjoint_union_right]
        constructor
        · exact hd.mono_left (Set.Ico_subset_Ico (by omega) (by omega))
        · exact Set.Ico_disjoint_Ico_same.symm
      refine (ih hfrees.inv (by have := Nat.two_pow_pos i; omega) hd' (by omega)).mono ?_ ?_
      · rintro x ⟨q, hq, hx⟩
        refine ⟨2 ^ i + q, by omega, ?_⟩
        rw [hfrees.free, Set.union_assoc, Ico_union] at hx
        exact hx.of_keeps hfrees.keeps
      · intro s'' h''
        refine hfrees.trans h'' ?_
        rw [hfrees.free, Set.union_assoc, Ico_union, Nat.add_sub_cancel' hle]

/-- **Handing a region over frees exactly its pages**, whatever the alignment of its
first page and the binary form of its length. -/
theorem breakIntoBucketsNFree_spec {p n : ℕ} (hI : Inv T s)
    (hd : Disjoint (Set.Ico p (p + n)) s.freePages) (hb : p + n ≤ T) :
    Yields (PoolOutIn s p n) (Frees T s · (s.freePages ∪ Set.Ico p (p + n)))
      (breakIntoBucketsNFree m s (p * BASIC_PAGE_SIZE) n) := by
  rw [breakIntoBucketsNFree, Nat.mul_div_cancel _ basicPageSize_pos]
  exact breakGo_spec hI (le_refl n) hd hb

end BuddyAllocator
end Funderberker

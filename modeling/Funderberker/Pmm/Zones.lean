import Funderberker.Lib.DyadicBlock
import Funderberker.Pmm.Buddy
import Mathlib.Algebra.BigOperators.Group.Finset.Basic
import Mathlib.Data.List.Nodup

/-!
# The zones as a tiling of the free pages

Zone `i` of the allocator holds addresses of blocks of `2 ^ i` pages.  Read as
block indices, the zones are a family of dyadic blocks over page numbers, and the
free pages are its cover.  `Inv` says that this family is a tiling inside the first
`T` pages; it is what every operation keeps.

The two node moves, `popFromZone` and `pushToZone`, erase and insert one block of
that family.  Nothing later looks inside a zone again.

## Main definitions

* `blockAddr` — the address of a block.
* `BuddyAllocator.blocks`, `BuddyAllocator.freePages` — the two views of a state.
* `BuddyAllocator.Inv` — the allocator invariant.
* `BuddyAllocator.Keeps` — no zone and no node is created or lost.
* `Exceeds` — the tiling of a set of pages takes more nodes than there are.
* `pairs` — the pairs of pages a set meets, which bound how far it can fragment.
-/

namespace Funderberker

open Panicking DyadicBlock
open scoped List

/-- The address of the block of order `i` and index `k`. -/
def blockAddr (i k : ℕ) : PhysAddr := k * 2 ^ i * BASIC_PAGE_SIZE

theorem blockAddr_eq (i k : ℕ) : blockAddr i k = k * 2 ^ (i + 12) := by
  simp only [blockAddr, BASIC_PAGE_SIZE, pow_add]
  ring

/-- A single page as a block. -/
theorem blockAddr_zero (c : ℕ) : blockAddr 0 c = c * BASIC_PAGE_SIZE := by
  rw [blockAddr, pow_zero, Nat.mul_one]

theorem blockAddr_injective (i : ℕ) : Function.Injective (blockAddr i) := by
  intro k l h
  simp only [blockAddr_eq] at h
  exact Nat.eq_of_mul_eq_mul_right (Nat.two_pow_pos _) h

/-- A byte lies in a block exactly when its page does. -/
theorem mem_block_iff (addr i k : ℕ) :
    (blockAddr i k ≤ addr ∧ addr < blockAddr i k + 2 ^ i * BASIC_PAGE_SIZE) ↔
      addr / BASIC_PAGE_SIZE ∈ points i k := by
  rw [mem_points_iff, Nat.le_div_iff_mul_le basicPageSize_pos,
    Nat.div_lt_iff_lt_mul basicPageSize_pos, blockAddr, Nat.add_mul]

/-- The block two siblings make up starts where the lower one does. -/
theorem determineNextBucketAddr_sibling (i k : ℕ) :
    BuddyAllocator.determineNextBucketAddr (blockAddr i k) (blockAddr i (sibling k)) =
      blockAddr (i + 1) (k / 2) := by
  have hup : blockAddr (i + 1) (k / 2) = blockAddr i (2 * (k / 2)) := by
    simp only [blockAddr, pow_succ]
    ring
  have hmono : ∀ a b, a ≤ b → blockAddr i a ≤ blockAddr i b := by
    intro a b h
    exact Nat.mul_le_mul_right _ (Nat.mul_le_mul_right _ h)
  rw [hup, BuddyAllocator.determineNextBucketAddr]
  rcases Nat.mod_two_eq_zero_or_one k with hk | hk
  · have hs : sibling k = k + 1 := by simp [sibling, hk]
    rw [hs, min_eq_left (hmono _ _ (by omega)), show 2 * (k / 2) = k by omega]
  · have hs : sibling k = k - 1 := by simp [sibling, hk]
    rw [hs, min_eq_right (hmono _ _ (by omega)), show 2 * (k / 2) = k - 1 by omega]

/-- The tiling of `C` by blocks of order below `z` has more than `n` blocks. -/
def Exceeds (n z : ℕ) (C : Set ℕ) : Prop :=
  ∃ (F : Family) (B : Finset (ℕ × ℕ)), Tiling F ∧ cover F = C ∧
    (∀ b ∈ B, b.2 ∈ F b.1 ∧ b.1 < z) ∧ n < B.card

/-- The aligned pairs of pages that a set of pages meets. -/
def pairs (C : Set ℕ) : Set ℕ := (· / 2) '' C

/-- A tiling never has two blocks in one pair. -/
theorem not_exceeds_of_pairs {n z : ℕ} {C D : Set ℕ} (hsub : C ⊆ D) (hfin : (pairs D).Finite)
    (h : (pairs D).ncard ≤ n) : ¬ Exceeds n z C := by
  rintro ⟨F, B, hF, rfl, hB, hcard⟩
  have hle := hF.card_le_of_half (fun b hb => (hB b hb).1) (Q := hfin.toFinset) fun p hp => by
    rw [Set.Finite.mem_toFinset]
    exact ⟨p, hsub hp, rfl⟩
  rw [Set.ncard_eq_toFinset_card _ hfin] at h
  omega

/-- A tiling has at most one block of each order for every edge. -/
theorem not_exceeds_of_edges {n k z : ℕ} {C : Set ℕ} (hC : EdgesLe C k) (h : z * k ≤ n) :
    ¬ Exceeds n z C := by
  rintro ⟨F, B, hF, rfl, hB, hcard⟩
  obtain ⟨E, hEcard, hE⟩ := hC
  have hle := hF.card_le_of_edges hB hE
  have := Nat.mul_le_mul_left z hEcard
  omega

namespace BuddyAllocator

/-! ## Views of a state -/

/-- The addresses a zone holds, front to back. -/
def addrs (s : BuddyAllocator) (i : ℕ) : List PhysAddr := (s.zones.getD i []).map Node.data

/-- The block indices held at each order. -/
def blocks (s : BuddyAllocator) : Family := fun i => {k | blockAddr i k ∈ s.addrs i}

/-- The page numbers that lie in some held block. -/
def freePages (s : BuddyAllocator) : Set ℕ := cover s.blocks

/-- The addresses of all nodes, in the zones and in the pool. -/
def ptrs (s : BuddyAllocator) : List ℕ := (s.zones.flatten ++ s.freelist).map Node.ptr

/-- How many nodes there are, in the zones and in the pool. -/
def nodeCount (s : BuddyAllocator) : ℕ := (s.zones.map List.length).sum + s.freelist.length

/-- The allocator invariant, for an allocator that manages pages below `T`. -/
structure Inv (T : ℕ) (s : BuddyAllocator) : Prop where
  /-- With 52 zones `bucket_size * 2` would leave 64 bits. -/
  zones_le : s.zones.length ≤ 51
  bound_lt : T < 2 ^ s.zones.length
  aligned : ∀ i, ∀ a ∈ s.addrs i, ∃ k, a = blockAddr i k
  nodup : ∀ i, (s.addrs i).Nodup
  tiling : Tiling s.blocks
  bounded : ∀ p ∈ s.freePages, p < T

/-- No zone and no node is created or lost. -/
structure Keeps (s s' : BuddyAllocator) : Prop where
  zones : s'.zones.length = s.zones.length
  nodes : s'.ptrs.Perm s.ptrs

variable {m : Overflow} {s s' s'' : BuddyAllocator} {T i j k idx : ℕ}

theorem Keeps.refl (s : BuddyAllocator) : Keeps s s := ⟨rfl, List.Perm.refl _⟩

theorem Keeps.trans (h : Keeps s s') (h' : Keeps s' s'') : Keeps s s'' :=
  ⟨h'.zones.trans h.zones, h'.nodes.trans h.nodes⟩

theorem nodeCount_eq_length_ptrs (s : BuddyAllocator) : s.nodeCount = s.ptrs.length := by
  simp [nodeCount, ptrs, List.length_flatten, Function.comp_def]

theorem Keeps.nodeCount_eq (h : Keeps s s') : s'.nodeCount = s.nodeCount := by
  rw [nodeCount_eq_length_ptrs, nodeCount_eq_length_ptrs, h.nodes.length_eq]

instance (s : BuddyAllocator) (i k : ℕ) : Decidable (k ∈ s.blocks i) :=
  inferInstanceAs (Decidable (blockAddr i k ∈ s.addrs i))

@[simp] theorem mem_blocks : k ∈ s.blocks i ↔ blockAddr i k ∈ s.addrs i := Iff.rfl

theorem addrs_of_le (h : s.zones.length ≤ i) : s.addrs i = [] := by
  simp [addrs, List.getElem?_eq_none h]

theorem lt_of_mem_blocks (h : k ∈ s.blocks i) : i < s.zones.length := by
  by_contra hi
  rw [mem_blocks, addrs_of_le (not_lt.mp hi)] at h
  cases h

theorem zoneAt_eq (h : i < s.zones.length) : s.zoneAt i = .ok (s.zones.getD i []) := by
  simp [zoneAt, List.getElem?_eq_getElem h]

theorem addrs_set (z : List Node) (f : List Node) (h : i < s.zones.length) (j : ℕ) :
    ({ zones := s.zones.set i z, freelist := f } : BuddyAllocator).addrs j =
      if j = i then z.map Node.data else s.addrs j := by
  by_cases hj : j = i
  · subst hj
    simp [addrs, h]
  · simp [addrs, hj, List.getElem?_set_ne (Ne.symm hj)]

/-- Replacing one zone exchanges its nodes for the new ones. -/
theorem flatten_set_perm {zs : List (List Node)} (h : i < zs.length) (z : List Node) :
    ((zs.set i z).flatten ++ zs.getD i []).Perm (zs.flatten ++ z) := by
  induction zs generalizing i with
  | nil => simp at h
  | cons y ys ih =>
      cases i with
      | zero =>
          simp only [List.set_cons_zero, List.flatten_cons, List.getD_cons_zero]
          calc
            z ++ ys.flatten ++ y ~ y ++ (z ++ ys.flatten) := List.perm_append_comm
            _ ~ y ++ (ys.flatten ++ z) := List.perm_append_comm.append_left y
            _ = y ++ ys.flatten ++ z := (List.append_assoc _ _ _).symm
      | succ i =>
          simp only [List.set_cons_succ, List.flatten_cons, List.getD_cons_succ,
            List.append_assoc]
          exact (ih (by simpa using h)).append_left y

/-! ## Moving one node -/

theorem eraseIdx_perm {l : List Node} {node : Node} (h : l[idx]? = some node) :
    l.Perm (node :: l.eraseIdx idx) := by
  obtain ⟨hlt, rfl⟩ := List.getElem?_eq_some_iff.mp h
  exact (List.getElem_cons_eraseIdx_perm hlt).symm

/-- One zone and the pool are exchanged for lists of the same nodes. -/
theorem keeps_set {z f : List Node} (hi : i < s.zones.length)
    (h : ((z ++ f).map Node.ptr).Perm ((s.zones.getD i [] ++ s.freelist).map Node.ptr)) :
    Keeps s ⟨s.zones.set i z, f⟩ := by
  refine ⟨List.length_set, ?_⟩
  have hset := (flatten_set_perm hi z).map Node.ptr
  -- The nodes that were in the zone are added on both sides.
  refine (List.perm_append_right_iff ((s.zones.getD i []).map Node.ptr)).mp ?_
  simp only [ptrs, List.map_append] at h hset ⊢
  set old := (s.zones.getD i []).map Node.ptr
  calc
    (s.zones.set i z).flatten.map Node.ptr ++ f.map Node.ptr ++ old
        ~ (s.zones.set i z).flatten.map Node.ptr ++ old ++ f.map Node.ptr := by
          rw [List.append_assoc, List.append_assoc]
          exact List.perm_append_comm.append_left _
    _ ~ s.zones.flatten.map Node.ptr ++ z.map Node.ptr ++ f.map Node.ptr := hset.append_right _
    _ = s.zones.flatten.map Node.ptr ++ (z.map Node.ptr ++ f.map Node.ptr) :=
          List.append_assoc _ _ _
    _ ~ s.zones.flatten.map Node.ptr ++ (old ++ s.freelist.map Node.ptr) := h.append_left _
    _ ~ s.zones.flatten.map Node.ptr ++ s.freelist.map Node.ptr ++ old := by
          rw [List.append_assoc]
          exact List.perm_append_comm.append_left _

/-- A zone without the address of one block. -/
theorem blocks_set_erase {z f : List Node} (hI : Inv T s) (hi : i < s.zones.length)
    (hz : (s.addrs i).Perm (blockAddr i k :: z.map Node.data)) :
    blocks ⟨s.zones.set i z, f⟩ = s.blocks.erase i k := by
  have hnot : blockAddr i k ∉ z.map Node.data :=
    (List.nodup_cons.mp (hz.nodup_iff.mp (hI.nodup i))).1
  funext j
  ext l
  rw [Family.mem_erase, mem_blocks, mem_blocks, addrs_set z f hi]
  by_cases hj : j = i
  · subst hj
    rw [if_pos rfl, hz.mem_iff, List.mem_cons, (blockAddr_injective j).eq_iff]
    constructor
    · intro hl
      exact ⟨Or.inr hl, fun h => hnot (h.2 ▸ hl)⟩
    · rintro ⟨rfl | hl, hne⟩
      · exact absurd ⟨rfl, rfl⟩ hne
      · exact hl
  · rw [if_neg hj]
    exact ⟨fun h => ⟨h, fun h' => hj h'.1⟩, fun h => h.1⟩

/-- A zone with the address of one more block. -/
theorem blocks_set_insert {z f : List Node} (hi : i < s.zones.length)
    (hz : z.map Node.data = s.addrs i ++ [blockAddr i k]) :
    blocks ⟨s.zones.set i z, f⟩ = s.blocks.insert i k := by
  funext j
  ext l
  rw [Family.mem_insert, mem_blocks, mem_blocks, addrs_set z f hi, hz]
  by_cases hj : j = i
  · subst hj
    simp [(blockAddr_injective j).eq_iff]
  · simp [hj]

/-- Exchanging one zone keeps the invariant when the new zone holds addresses of blocks,
each once. -/
theorem Inv.set_zone {z f : List Node} (hI : Inv T s) (hi : i < s.zones.length)
    (haligned : ∀ a ∈ z.map Node.data, ∃ k, a = blockAddr i k) (hnodup : (z.map Node.data).Nodup)
    (htiling : Tiling (blocks ⟨s.zones.set i z, f⟩))
    (hbounded : ∀ p ∈ freePages ⟨s.zones.set i z, f⟩, p < T) : Inv T ⟨s.zones.set i z, f⟩ where
  zones_le := List.length_set.trans_le hI.zones_le
  bound_lt := by
    rw [List.length_set]
    exact hI.bound_lt
  aligned := by
    intro j a ha
    rw [addrs_set z f hi] at ha
    split at ha
    case isTrue hj => exact hj ▸ haligned a ha
    case isFalse => exact hI.aligned j a ha
  nodup := by
    intro j
    rw [addrs_set z f hi]
    split
    case isTrue => exact hnodup
    case isFalse => exact hI.nodup j
  tiling := htiling
  bounded := hbounded

/-- Popping a node erases its block and puts the node at the back of the pool. -/
theorem popFromZone_spec (hI : Inv T s) (hi : i < s.zones.length) {node : Node}
    (hn : (s.zones.getD i [])[idx]? = some node) (hk : node.data = blockAddr i k) :
    ∃ s', s.popFromZone i idx = .ok s' ∧ Inv T s' ∧ Keeps s s' ∧
      s'.blocks = s.blocks.erase i k := by
  set zone' := (s.zones.getD i []).eraseIdx idx
  have hrun : s.popFromZone i idx = .ok ⟨s.zones.set i zone', s.freelist ++ [node]⟩ := by
    simp only [popFromZone, zoneAt_eq hi, removeAtNode, hn, Option.map_some, ofOption_some,
      ok_bind]
    rfl
  have hperm := eraseIdx_perm hn
  have hdata : (s.addrs i).Perm (blockAddr i k :: zone'.map Node.data) := by
    have := hperm.map Node.data
    rwa [List.map_cons, hk] at this
  have hblocks := blocks_set_erase (f := s.freelist ++ [node]) hI hi hdata
  have hkeep : Keeps s ⟨s.zones.set i zone', s.freelist ++ [node]⟩ := by
    refine keeps_set hi (List.Perm.map Node.ptr ?_)
    calc
      zone' ++ (s.freelist ++ [node]) = zone' ++ s.freelist ++ [node] :=
            (List.append_assoc _ _ _).symm
      _ ~ node :: (zone' ++ s.freelist) := List.perm_append_singleton _ _
      _ ~ s.zones.getD i [] ++ s.freelist := hperm.symm.append_right _
  have hsub : (zone'.map Node.data).Sublist (s.addrs i) := (List.eraseIdx_sublist _ _).map _
  refine ⟨_, hrun, hI.set_zone hi ?_ ?_ ?_ ?_, hkeep, hblocks⟩
  · exact fun a ha => hI.aligned i a (hsub.subset ha)
  · exact hsub.nodup (hI.nodup i)
  · rw [hblocks]
    exact hI.tiling.erase i k
  · rintro p ⟨j, hj⟩
    rw [hblocks] at hj
    exact hI.bounded p ⟨j, hj.1⟩

/-- Pushing a block outside the free pages whose sibling is not held inserts it. -/
theorem pushToZone_spec (hI : Inv T s) (hi : i < s.zones.length)
    (hd : Disjoint (points i k) s.freePages) (hs : sibling k ∉ s.blocks i)
    (hb : ∀ p ∈ points i k, p < T) (hpool : s.freelist ≠ []) :
    ∃ s', s.pushToZone (blockAddr i k) i = .ok s' ∧ Inv T s' ∧ Keeps s s' ∧
      s'.blocks = s.blocks.insert i k := by
  obtain ⟨pool, node, hfl⟩ : ∃ pool node, s.freelist = pool ++ [node] :=
    ⟨_, _, (List.dropLast_concat_getLast hpool).symm⟩
  set zone' := s.zones.getD i [] ++ [{ node with data := blockAddr i k }] with hzone
  have hrun : s.pushToZone (blockAddr i k) i = .ok ⟨s.zones.set i zone', pool⟩ := by
    simp only [pushToZone, zoneAt_eq hi, hfl, List.getLast?_append, List.getLast?_singleton,
      Option.some_or, ofOption_some, ok_bind, List.dropLast_concat]
    rfl
  have hdata : zone'.map Node.data = s.addrs i ++ [blockAddr i k] := by
    rw [hzone, List.map_append]
    rfl
  have hblocks := blocks_set_insert (f := pool) hi hdata
  have hfree : freePages ⟨s.zones.set i zone', pool⟩ = s.freePages ∪ points i k := by
    rw [freePages, hblocks, cover_insert, freePages]
  have hnew : blockAddr i k ∉ s.addrs i := fun h =>
    Set.disjoint_left.mp hd (first_mem_points i k)
      (points_subset_cover (mem_blocks.mpr h) (first_mem_points i k))
  have hkeep : Keeps s ⟨s.zones.set i zone', pool⟩ := by
    refine keeps_set hi ?_
    rw [hzone, hfl, List.append_assoc, List.map_append, List.map_append, List.map_append,
      List.map_append]
    exact List.perm_append_comm.append_left _
  refine ⟨_, hrun, hI.set_zone hi ?_ ?_ ?_ ?_, hkeep, hblocks⟩
  · rw [hdata]
    intro a ha
    rcases List.mem_append.mp ha with ha | ha
    · exact hI.aligned i a ha
    · exact ⟨k, List.mem_singleton.mp ha⟩
  · rw [hdata]
    refine List.nodup_append.mpr ⟨hI.nodup i, List.nodup_singleton _, ?_⟩
    intro a ha b hb hab
    exact hnew (List.mem_singleton.mp hb ▸ hab ▸ ha)
  · rw [hblocks]
    exact hI.tiling.insert hd hs
  · intro p hp
    rw [hfree] at hp
    exact hp.elim (hI.bounded p) (hb p)

/-- With an empty pool a push aborts. -/
theorem pushToZone_of_empty {a : PhysAddr} (h : s.freelist = []) :
    s.pushToZone a i = .error .poolEmpty := by
  simp [pushToZone, h]

/-! ## Counting nodes -/

/-- The held blocks, as a finite set of order and index. -/
def held (s : BuddyAllocator) : Finset (ℕ × ℕ) :=
  (Finset.range s.zones.length).biUnion fun i =>
    ((s.addrs i).map fun a => (i, a / (2 ^ i * BASIC_PAGE_SIZE))).toFinset

theorem blockAddr_div (i k : ℕ) : blockAddr i k / (2 ^ i * BASIC_PAGE_SIZE) = k := by
  rw [blockAddr, Nat.mul_assoc, Nat.mul_div_cancel]
  exact Nat.mul_pos (Nat.two_pow_pos i) basicPageSize_pos

theorem mem_held (hI : Inv T s) {b : ℕ × ℕ} : b ∈ s.held ↔ b.2 ∈ s.blocks b.1 := by
  obtain ⟨i, k⟩ := b
  simp only [held, Finset.mem_biUnion, Finset.mem_range, List.mem_toFinset, List.mem_map,
    Prod.mk.injEq]
  constructor
  · rintro ⟨_, _, a, ha, rfl, rfl⟩
    obtain ⟨k, rfl⟩ := hI.aligned _ a ha
    rwa [blockAddr_div]
  · intro hk
    exact ⟨i, lt_of_mem_blocks hk, blockAddr i k, hk, rfl, blockAddr_div i k⟩

theorem sum_map_length_eq (zs : List (List Node)) :
    (zs.map List.length).sum = ∑ i ∈ Finset.range zs.length, (zs.getD i []).length := by
  induction zs with
  | nil => simp
  | cons z zs ih =>
      rw [List.map_cons, List.sum_cons, List.length_cons, Finset.sum_range_succ', ih]
      simp [Nat.add_comm]

/-- Every node of a zone stands for a block of its own. -/
theorem card_held (hI : Inv T s) : s.held.card = (s.zones.map List.length).sum := by
  rw [sum_map_length_eq, held, Finset.card_biUnion]
  · refine Finset.sum_congr rfl fun i _ => ?_
    rw [List.toFinset_card_of_nodup, List.length_map, addrs, List.length_map]
    refine (List.nodup_map_iff_inj_on (hI.nodup i)).mpr ?_
    intro a ha b hb hab
    obtain ⟨k, rfl⟩ := hI.aligned i a ha
    obtain ⟨l, rfl⟩ := hI.aligned i b hb
    simp only [blockAddr_div, Prod.mk.injEq, true_and] at hab
    rw [hab]
  · intro i _ j _ hij
    rw [Function.onFun, Finset.disjoint_left]
    intro b hb hb'
    simp only [List.mem_toFinset, List.mem_map] at hb hb'
    obtain ⟨_, _, rfl⟩ := hb
    obtain ⟨_, _, h⟩ := hb'
    exact hij (Prod.mk.inj h).1.symm

/-- Every free set that a state has fits its nodes. -/
theorem not_exceeds (hI : Inv T s) (z : ℕ) : ¬ Exceeds s.nodeCount z s.freePages := by
  rintro ⟨F, B, hF, hc, hB, hcard⟩
  have heq : F = s.blocks := hF.eq_of_cover_eq hI.tiling hc
  have hle : B.card ≤ s.held.card := by
    refine Finset.card_le_card fun b hb => ?_
    rw [mem_held hI, ← heq]
    exact (hB b hb).1
  rw [card_held hI] at hle
  unfold nodeCount at hcard
  omega

/-- With an empty pool, one more block is one too many.  The block goes into a
family `F` that extends the held blocks, such as the one an operation is about to
reach. -/
theorem exceeds_of_empty (hI : Inv T s) (hpool : s.freelist = []) {F : Family} (hF : Tiling F)
    (hsub : ∀ i, s.blocks i ⊆ F i) (hk : k ∈ F i) (hnew : k ∉ s.blocks i)
    (hi : i < s.zones.length) : Exceeds s.nodeCount s.zones.length (cover F) := by
  refine ⟨F, insert (i, k) s.held, hF, rfl, ?_, ?_⟩
  · intro b hb
    rcases Finset.mem_insert.mp hb with rfl | hb
    · exact ⟨hk, hi⟩
    · have := (mem_held hI).mp hb
      exact ⟨hsub _ this, lt_of_mem_blocks this⟩
  · have hnot : (i, k) ∉ s.held := by
      rw [mem_held hI]
      exact hnew
    rw [Finset.card_insert_of_notMem hnot, card_held hI, nodeCount, hpool]
    simp

end BuddyAllocator
end Funderberker

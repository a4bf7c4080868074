import Funderberker.Pmm.Limine

/-!
# When the node pool runs out

Every free block takes a node, and the pool has a fixed number of them, however much
memory the map offers.  Free memory is most fragmented when just one page of every
aligned pair is free: then each of those pages is a block of its own, and no set of
free pages inside the same pairs has more blocks.  So the pool lasts exactly as long
as the pages in use meet no more pairs than there are nodes.

## Main definitions

* `PoolNeverEmpty` — no push of the initialisation and of any run of requests after it
  finds the pool empty.

## Main results

* `poolNeverEmpty_condition` — when that holds.
* `bigMap_poolEmpty` — it fails with 1GB of memory.
-/

namespace Funderberker

open Panicking DyadicBlock BuddyAllocator MemoryMap

/-- After any run of requests, no request finds the pool empty. -/
def Lasting (m : Overflow) (g₀ : Client) : Prop :=
  ∀ g, Requests m g₀ g →
    (∀ al n, AllocateArgs al n → g.pmm.allocate m al n ≠ .error .poolEmpty) ∧
      ∀ addr n, FreeArgs g addr n → g.pmm.free m addr n ≠ .error .poolEmpty

/-- The pool is never found empty, neither by the initialisation nor by the requests
after it. -/
def PoolNeverEmpty (m : Overflow) (hhdm : ℕ) (mem : VirtAddr → PhysAddr) (memMap : List Entry) :
    Prop :=
  initFromLimine m hhdm mem memMap ≠ .error .poolEmpty ∧
    ∀ s entry, initFromLimine m hhdm mem memMap = .ok (s, entry) → Lasting m (firstClient s)

variable {m : Overflow} {hhdm T : ℕ} {mem : VirtAddr → PhysAddr} {memMap : List Entry}
  {entry : Entry} {s : BuddyAllocator} {g g₀ : Client}

/-! ## The pool lasts -/

theorem finite_of_bounded {C : Set ℕ} (h : ∀ p ∈ C, p < T) : C.Finite :=
  (Finset.range T).finite_toSet.subset fun p hp => by simpa using h p hp

/-- As long as the managed pages meet no more pairs than there are nodes, no request
finds the pool empty. -/
theorem Sound.pool_lasts (hg : Sound T g₀ g) (h : (pairs g.managed).ncard ≤ g.pmm.nodeCount) :
    (∀ al n, AllocateArgs al n → g.pmm.allocate m al n ≠ .error .poolEmpty) ∧
      ∀ addr n, FreeArgs g addr n → g.pmm.free m addr n ≠ .error .poolEmpty := by
  have hfin : (pairs g.managed).Finite := (finite_of_bounded hg.bounded).image _
  have hfits : ∀ C ⊆ g.managed, ∀ x, ¬ PoolOut g.pmm C x := fun C hC x hx =>
    not_exceeds_of_pairs hC hfin h hx.2
  have hfree : g.pmm.freePages ⊆ g.managed := by
    rw [← hg.partition]
    exact Set.subset_union_left
  refine ⟨?_, ?_⟩
  · intro al n hargs hrun
    obtain ⟨f, e, rfl, rfl, hf, he⟩ := hargs.exists_orders
    obtain ⟨c, -, hout⟩ := (allocate_spec hg.inv hf).reason hrun
    exact hfits _ (Set.sdiff_subset.trans hfree) _ hout
  · intro addr n hargs hrun
    obtain ⟨e, c, rfl, rfl, hlive, hd, hb⟩ := hargs.exists_block hg
    refine hfits _ ?_ _ ((free_spec hg.inv hd hb).reason hrun)
    refine Set.union_subset hfree (hlive.trans ?_)
    rw [← hg.partition]
    exact Set.subset_union_right

/-! ## The pool runs out -/

/-- Single points, at most one of each pair, form a tiling. -/
theorem tiling_singles {P : Set ℕ} (h : Set.InjOn (· / 2) P) :
    Tiling fun i => if i = 0 then P else ∅ where
  disjoint p i j hi hj := by
    by_cases h0 : i = 0 <;> by_cases h1 : j = 0 <;> simp_all
  merged i k hk hs := by
    by_cases h0 : i = 0
    · subst h0
      simp only [if_true] at hk hs
      have hne : k ≠ sibling k := by
        unfold sibling
        split <;> omega
      exact hne (h hk hs (by simp only [sibling]; split <;> omega))
    · simp [h0] at hk

/-- A state in which only single pages are free has a node for each of them. -/
theorem card_le_of_singles {P : Finset ℕ} (hI : Inv T s) (hfree : s.freePages = ↑P)
    (hP : Set.InjOn (· / 2) (P : Set ℕ)) : P.card ≤ s.nodeCount := by
  by_contra hlt
  refine not_exceeds hI 1 ⟨_, P.map ⟨fun p => (0, p), fun _ _ h => (Prod.mk.inj h).2⟩,
    tiling_singles hP, ?_, ?_, ?_⟩
  · rw [hfree]
    ext p
    simp [cover]
  · intro b hb
    obtain ⟨p, hp, rfl⟩ := Finset.mem_map.mp hb
    exact ⟨hp, Nat.zero_lt_one⟩
  · rw [Finset.card_map]
    exact not_le.mp hlt

/-- Allocating single pages until none is left. -/
theorem exists_drained (hlast : Lasting m g₀) (hg₀ : Sound T g₀ g₀) :
    ∃ g, Requests m g₀ g ∧ Sound T g₀ g ∧ g.pmm.freePages = ∅ ∧ g.managed = g₀.managed := by
  have hfin := finite_of_bounded hg₀.inv.bounded
  -- The induction is on how many pages are still free.
  suffices h : ∀ n g, g.pmm.freePages.ncard = n → Requests m g₀ g → Sound T g₀ g →
      g.managed = g₀.managed → ∃ g', Requests m g₀ g' ∧ Sound T g₀ g' ∧
        g'.pmm.freePages = ∅ ∧ g'.managed = g₀.managed from
    h _ g₀ rfl .refl hg₀ rfl
  intro n
  induction n with
  | zero =>
      intro g hn hrun hg hman
      have hempty := (Set.ncard_eq_zero (finite_of_bounded hg.inv.bounded)).mp hn
      exact ⟨g, hrun, hg, hempty, hman⟩
  | succ n ih =>
      intro g hn hrun hg hman
      have hfin := finite_of_bounded hg.inv.bounded
      obtain ⟨p, j, hp⟩ := Set.nonempty_of_ncard_ne_zero (show g.pmm.freePages.ncard ≠ 0 by omega)
      have hspec := allocate_spec (m := m) (f := 0) (e := 0) hg.inv (by omega)
      have hnever := (hlast g hrun).1 1 1 onePage_args
      cases hres : g.pmm.allocate m 1 1 with
      | error x =>
          obtain ⟨c, -, hout⟩ := hspec.reason hres
          rw [hres, hout.1] at hnever
          exact absurd rfl hnever
      | ok r =>
          obtain ⟨r, s⟩ := r
          cases hspec.post hres with
          | tooBig h => omega
          | none h => exact absurd (one_dvd _) (h j _ (Nat.zero_le j) hp)
          | some c s hal hsub hfrees =>
              have hstep : Request m g ⟨s, g.managed, g.allocated ∪ pagesFrom (blockAddr 0 c) 1⟩ :=
                .allocate onePage_args hres
              refine ih _ ?_ (hrun.tail hstep) (hg.request hstep) hman
              have hone := Set.ncard_sdiff_singleton_of_mem (hsub (first_mem_points 0 c))
              rw [pow_zero, Nat.mul_one] at hone
              simp only [hfrees.free, points_zero, hone]
              omega

/-- From a state with no free page, freeing any set of pages one by one. -/
theorem exists_freed (hlast : Lasting m g₀) (hrun : Requests m g₀ g) (hg : Sound T g₀ g)
    (hempty : g.pmm.freePages = ∅) {P : Finset ℕ} (hP : ↑P ⊆ g.managed) :
    ∃ g', Requests m g₀ g' ∧ Sound T g₀ g' ∧ g'.pmm.freePages = ↑P ∧
      g'.managed = g.managed := by
  induction P using Finset.induction_on with
  | empty => exact ⟨g, hrun, hg, by simpa using hempty, rfl⟩
  | insert p P hp ih =>
      rw [Finset.coe_insert, Set.insert_subset_iff] at hP
      obtain ⟨g', hrun', hg', hfree, hman⟩ := ih hP.2
      have hlive : points 0 p ⊆ g'.allocated := by
        rw [points_zero, Set.singleton_subset_iff]
        have hmem : p ∈ g'.pmm.freePages ∪ g'.allocated := by
          rw [hg'.partition, hman]
          exact hP.1
        exact hmem.resolve_left (by rw [hfree]; exact_mod_cast hp)
      have hargs : FreeArgs g' (blockAddr 0 p) 1 := by
        refine ⟨⟨0, rfl⟩, blockAddr_mod 0 p, ?_⟩
        have := pagesFrom_blockAddr 0 p
        rw [pow_zero] at this
        rw [this]
        exact hlive
      have hd : Disjoint (points 0 p) g'.pmm.freePages := (hg'.disjoint.mono_right hlive).symm
      have hb : ∀ q ∈ points 0 p, q < T := fun q hq =>
        hg'.bounded q (hg'.partition ▸ Or.inr (hlive hq))
      have hspec := free_spec (m := m) hg'.inv hd hb
      have hnever := (hlast g' hrun').2 _ _ hargs
      cases hres : g'.pmm.free m (blockAddr 0 p) 1 with
      | error x =>
          rw [hres, (hspec.reason hres).1] at hnever
          exact absurd rfl hnever
      | ok r =>
          obtain ⟨r, s⟩ := r
          obtain ⟨hr, hfrees⟩ := hspec.post hres
          simp only at hr
          subst hr
          have hstep : Request m g' ⟨s, g'.managed, g'.allocated \ pagesFrom (blockAddr 0 p) 1⟩ :=
            .free hargs hres
          refine ⟨_, hrun'.tail hstep, hg'.request hstep, ?_, hman⟩
          rw [hfrees.free, hfree, points_zero, Finset.coe_insert, Set.union_comm,
            Set.singleton_union]

/-- One element of each pair that a set of pages meets. -/
theorem exists_representatives {C : Set ℕ} (hfin : (pairs C).Finite) :
    ∃ P : Finset ℕ, ↑P ⊆ C ∧ Set.InjOn (· / 2) (P : Set ℕ) ∧ P.card = (pairs C).ncard := by
  have hex : ∀ q ∈ pairs C, ∃ p ∈ C, p / 2 = q := fun q hq => hq
  choose! rep hrepC hrep using hex
  refine ⟨hfin.toFinset.image rep, ?_, ?_, ?_⟩
  · intro p hp
    obtain ⟨q, hq, rfl⟩ := Finset.mem_image.mp hp
    exact hrepC q (hfin.mem_toFinset.mp hq)
  · intro p hp p' hp' heq
    obtain ⟨q, hq, rfl⟩ := Finset.mem_image.mp hp
    obtain ⟨q', hq', rfl⟩ := Finset.mem_image.mp hp'
    rw [hfin.mem_toFinset] at hq hq'
    simp only [hrep q hq, hrep q' hq'] at heq
    rw [heq]
  · rw [Finset.card_image_of_injOn, Set.ncard_eq_toFinset_card _ hfin]
    intro q hq q' hq' heq
    rw [Finset.mem_coe, hfin.mem_toFinset] at hq hq'
    rw [← hrep q hq, ← hrep q' hq', heq]

/-- Requests can only last when there is a node for each pair of the managed pages. -/
theorem pairs_le_of_lasting (hlast : Lasting m g₀) (hg₀ : Sound T g₀ g₀) :
    (pairs g₀.managed).ncard ≤ g₀.pmm.nodeCount := by
  have hfin : (pairs g₀.managed).Finite := (finite_of_bounded hg₀.bounded).image _
  obtain ⟨P, hPsub, hPinj, hPcard⟩ := exists_representatives hfin
  obtain ⟨g, hrun, hg, hempty, hman⟩ := exists_drained hlast hg₀
  rw [← hman] at hPsub
  obtain ⟨g', -, hg', hfree, -⟩ := exists_freed hlast hrun hg hempty hPsub
  rw [← hPcard, ← hg'.keeps.nodeCount_eq]
  exact card_le_of_singles hg'.inv hfree hPinj

/-! ## The condition on the memory map -/

theorem Ready.nodeCount_eq (h : Ready hhdm mem memMap entry s) : s.nodeCount = bucketsCount :=
  h.keeps.nodeCount_eq.trans nodeCount_emptyAllocator

theorem Ready.lasting (h : Ready hhdm mem memMap entry s)
    (hpairs : (pairs (usablePages memMap \ reserved memMap entry)).ncard ≤ bucketsCount) :
    Lasting m (firstClient s) := by
  intro g hg
  obtain ⟨hsound, hman⟩ := h.sound.calls hg.calls
  refine hsound.pool_lasts ?_
  have hnodes : g.pmm.nodeCount = s.nodeCount := hsound.keeps.nodeCount_eq
  have hmanaged : g.managed = s.freePages := hman
  rw [hnodes, h.nodeCount_eq, hmanaged, h.free]
  exact hpairs

/-- With more pairs of pages than nodes, some run finds the pool empty. -/
theorem pairs_le_of_poolNeverEmpty (hwf : WellFormed hhdm memMap)
    (hch : chosenEntry memMap = some entry) (h : PoolNeverEmpty m hhdm mem memMap) :
    (pairs (usablePages memMap \ reserved memMap entry)).ncard ≤ bucketsCount := by
  have hspec := initFromLimine_spec (m := m) mem hwf hch
  cases hres : initFromLimine m hhdm mem memMap with
  | error x =>
      have hx := (hspec.reason hres).1
      rw [hx] at hres
      exact absurd hres h.1
  | ok r =>
      obtain ⟨s, entry'⟩ := r
      obtain ⟨hready, -⟩ := hspec.post hres
      have := pairs_le_of_lasting (h.2 s entry' hres) hready.sound
      rw [← hready.free, ← hready.nodeCount_eq]
      exact this

/-- **When the pool lasts.**  For every well-formed memory map: the pool can only last
when the pages left after the initialisation meet no more aligned pairs of pages than
there are nodes; and then it does last, provided that the initialisation itself does not
exhaust it, for which few regions, or few usable pages, are enough. -/
theorem poolNeverEmpty_condition (hwf : WellFormed hhdm memMap) :
    (PoolNeverEmpty m hhdm mem memMap → ∀ entry, chosenEntry memMap = some entry →
      (pairs (usablePages memMap \ reserved memMap entry)).ncard ≤ bucketsCount) ∧
    ((FewRegions memMap ∨ (pairs (usablePages memMap)).ncard ≤ bucketsCount) →
      (∀ entry, chosenEntry memMap = some entry →
        (pairs (usablePages memMap \ reserved memMap entry)).ncard ≤ bucketsCount) →
      PoolNeverEmpty m hhdm mem memMap) := by
  refine ⟨fun h entry hch => pairs_le_of_poolNeverEmpty hwf hch h, ?_⟩
  intro hinit hpairs
  cases hch : chosenEntry memMap with
  | none =>
      -- Without an entry to live in, the allocator is never built.
      have hnew := newFromLimine_spec (m := m) mem hwf
      cases hres : newFromLimine m hhdm mem memMap with
      | error x =>
          have hx := (hnew.reason hres).1
          have hrun : initFromLimine m hhdm mem memMap = .error x := by
            rw [initFromLimine, hres, error_bind]
          refine ⟨?_, ?_⟩
          · rw [hrun]
            exact fun heq => hx (Except.error.inj heq)
          · intro s entry hs
            rw [hrun] at hs
            cases hs
      | ok r =>
          have := (hnew.post hres).1
          rw [hch] at this
          cases this
  | some entry =>
      have hfin : (pairs (usablePages memMap)).Finite :=
        (finite_of_bounded fun p => lt_pageBound_of_usable hwf).image _
      have hroom : ∀ C ⊆ usablePages memMap, EdgesLe C (2 * usableCount memMap + 2) →
          ¬ Exceeds bucketsCount (zonesCount memMap) C := by
        intro C hC hedges
        rcases hinit with hfew | hfits
        · exact not_exceeds_of_edges hedges hfew
        · exact not_exceeds_of_pairs hC hfin hfits
      obtain ⟨⟨s, entry'⟩, hrun, hready, -⟩ :=
        (initFromLimine_spec (m := m) mem hwf hch).exists_ok (by
          rintro x ⟨_, C, hC, hedges, hex⟩
          exact hroom C hC hedges hex)
      refine ⟨by rw [hrun]; simp, ?_⟩
      intro s' entry'' hs'
      have hsame : s = s' := (Prod.mk.inj (Except.ok.inj (hrun.symm.trans hs'))).1
      subst hsame
      exact hready.lasting (hpairs entry hch)

theorem ncard_pairs_le {C : Set ℕ} {k : ℕ} (h : ∀ p ∈ C, p < 2 * k) : (pairs C).ncard ≤ k := by
  have hsub : pairs C ⊆ (Finset.range k : Set ℕ) := by
    rintro q ⟨p, hp, rfl⟩
    have := h p hp
    simp only [Finset.coe_range, Set.mem_Iio]
    omega
  calc
    (pairs C).ncard ≤ (Finset.range k : Set ℕ).ncard :=
      Set.ncard_le_ncard hsub (Finset.finite_toSet _)
    _ = k := by rw [Set.ncard_coe_finset, Finset.card_range]

theorem le_ncard_pairs {C : Set ℕ} {a k : ℕ} (hfin : C.Finite)
    (h : ∀ q < k, 2 * (a + q) ∈ C) : k ≤ (pairs C).ncard := by
  have hinj : Function.Injective (a + · : ℕ → ℕ) := fun x y hxy => Nat.add_left_cancel hxy
  have hsub : ((Finset.range k).map ⟨_, hinj⟩ : Set ℕ) ⊆ pairs C := by
    intro q hq
    obtain ⟨i, hi, rfl⟩ := Finset.mem_map.mp hq
    refine ⟨_, h i (Finset.mem_range.mp hi), ?_⟩
    simp
  calc
    k = ((Finset.range k).map ⟨_, hinj⟩ : Set ℕ).ncard := by
      rw [Set.ncard_coe_finset, Finset.card_map, Finset.card_range]
    _ ≤ (pairs C).ncard := Set.ncard_le_ncard hsub (hfin.image _)

/-- On the machine with 128MB the pool lasts. -/
theorem smallMap_poolNeverEmpty :
    PoolNeverEmpty .checked 0xffff800000000000 (fun _ => 0) smallMap := by
  refine (poolNeverEmpty_condition smallMap_wellFormed).2
    (Or.inl (by unfold FewRegions; decide)) fun entry _ => ?_
  have hle : (pairs (usablePages smallMap \ reserved smallMap entry)).ncard ≤ 16384 := by
    refine ncard_pairs_le fun p hp => ?_
    have hlt := lt_pageBound_of_usable smallMap_wellFormed hp.1
    have hbound : pageBound smallMap = 32768 := by decide
    omega
  exact hle.trans (by decide)

/-- The memory map of a machine with 1GB, in one usable entry. -/
def bigMap : List Entry := [⟨0x100000, 0x40000000, .usable⟩]

theorem bigMap_wellFormed : WellFormed 0xffff800000000000 bigMap := by
  constructor <;> decide

theorem bigMap_free {p : ℕ} (hlow : 1000 ≤ p) (hhigh : p < 262400) :
    p ∈ usablePages bigMap \ reserved bigMap ⟨0x100000, 0x40000000, .usable⟩ := by
  have hbase : 0x100000 / BASIC_PAGE_SIZE = 256 := by decide
  have hlen : 0x40000000 / BASIC_PAGE_SIZE = 262144 := by decide
  have hcount : reservedCount bigMap = 513 := by decide
  simp only [usablePages, reserved, bigMap, pagesFrom, Set.mem_sdiff, Set.mem_Ico,
    List.mem_singleton, hbase] at hcount ⊢
  refine ⟨⟨_, rfl, rfl, ?_⟩, ?_⟩
  · simp only [hbase, hlen]
    omega
  · rw [hcount]
    omega

/-- **The pool runs out on a machine with 1GB.** -/
theorem bigMap_poolEmpty :
    WellFormed 0xffff800000000000 bigMap ∧
      ¬ PoolNeverEmpty .checked 0xffff800000000000 (fun _ => 0) bigMap := by
  refine ⟨bigMap_wellFormed, fun h => ?_⟩
  have hch : chosenEntry bigMap = some ⟨0x100000, 0x40000000, .usable⟩ := by decide
  have hle := pairs_le_of_poolNeverEmpty bigMap_wellFormed hch h
  have hge := le_ncard_pairs (a := 1000) (k := 100000) (finite_of_bounded fun p hp =>
    lt_pageBound_of_usable bigMap_wellFormed hp.1) fun q hq => bigMap_free (by omega) (by omega)
  have hlt : bucketsCount < 100000 := by decide
  omega

end Funderberker

import Funderberker.Pmm.Run

/-!
# The zones depend only on the free pages

A state that satisfies the invariant holds exactly the maximal blocks of its free
pages, so two states with the same free pages have the same zones up to the order in
which a zone lists its nodes.  How the pages came to be free does not matter.

Two consequences for clients: freeing what was just allocated restores every zone, and
the order in which blocks are freed leaves no trace.

## Main definitions

* `SameZones` — the zones agree up to list order.
* `freeAll` — free blocks from left to right.

## Main results

* `canonical_zones` — the three statements above, for reachable states.
-/

namespace Funderberker

open Panicking DyadicBlock BuddyAllocator

/-- The zones agree up to list order. -/
def SameZones (s t : BuddyAllocator) : Prop := ∀ i, (s.addrs i).Perm (t.addrs i)

/-- Free blocks from left to right, collecting the results. -/
def freeAll (m : Overflow) (s : BuddyAllocator) :
    List (PhysAddr × ℕ) → Except Panic (List (Except PmmError Unit) × BuddyAllocator)
  | [] => .ok ([], s)
  | (addr, n) :: bs => do
      let (r, s') ← s.free m addr n
      let (rs, s'') ← freeAll m s' bs
      .ok (r :: rs, s'')

/-- The pages of some blocks. -/
def pagesOf (bs : List (PhysAddr × ℕ)) : Set ℕ := {p | ∃ b ∈ bs, p ∈ pagesFrom b.1 b.2}

/-- Blocks that are handed out and have no page in common. -/
structure LiveBlocks (g : Client) (bs : List (PhysAddr × ℕ)) : Prop where
  live : ∀ b ∈ bs, FreeArgs g b.1 b.2
  disjoint : bs.Pairwise fun b b' => Disjoint (pagesFrom b.1 b.2) (pagesFrom b'.1 b'.2)

variable {m m' : Overflow} {T T' z n al : ℕ} {g g' g₀ : Client} {a : PhysAddr} {s s' t : BuddyAllocator}
  {pool pool' : List Node} {bs bs' : List (PhysAddr × ℕ)}

/-- **Same free pages, same zones.** -/
theorem sameZones_of_freePages_eq (hs : Inv T s) (ht : Inv T' t)
    (h : s.freePages = t.freePages) : SameZones s t := by
  have hblocks : s.blocks = t.blocks := hs.tiling.eq_of_cover_eq ht.tiling h
  intro i
  refine (List.perm_ext_iff_of_nodup (hs.nodup i) (ht.nodup i)).mpr fun a => ?_
  have hiff : ∀ k, blockAddr i k ∈ s.addrs i ↔ blockAddr i k ∈ t.addrs i := by
    intro k
    rw [← mem_blocks, ← mem_blocks, hblocks]
  constructor
  · intro ha
    obtain ⟨k, rfl⟩ := hs.aligned i a ha
    exact (hiff k).mp ha
  · intro ha
    obtain ⟨k, rfl⟩ := ht.aligned i a ha
    exact (hiff k).mpr ha

/-- Freeing what was just allocated restores the free pages. -/
theorem free_of_allocate (hg : Sound T g₀ g) (hargs : AllocateArgs al n)
    (h : g.pmm.allocate m al n = .ok (.ok a, s)) :
    ∃ s', s.free m a n = .ok (.ok (), s') ∧ Inv T s' ∧ s'.freePages = g.pmm.freePages := by
  obtain ⟨f, e, rfl, rfl, hf, he⟩ := hargs.exists_orders
  cases (allocate_spec hg.inv hf).post h with
  | some c s hal hfree hfrees => exact free_taken hg.inv hfree hfrees

theorem pagesOf_cons (b : PhysAddr × ℕ) (bs : List (PhysAddr × ℕ)) :
    pagesOf (b :: bs) = pagesFrom b.1 b.2 ∪ pagesOf bs := by
  ext p
  simp [pagesOf]

theorem LiveBlocks.perm (h : LiveBlocks g bs) (hp : bs.Perm bs') : LiveBlocks g bs' where
  live b hb := h.live b (hp.mem_iff.mpr hb)
  disjoint := (hp.pairwise_iff fun h => h.symm).mp h.disjoint

/-- After the first block is freed the others are still handed out. -/
theorem LiveBlocks.tail {b : PhysAddr × ℕ} (h : LiveBlocks g (b :: bs)) (s : BuddyAllocator) :
    LiveBlocks ⟨s, g.managed, g.allocated \ pagesFrom b.1 b.2⟩ bs where
  live b' hb' := by
    have hold := h.live b' (List.mem_cons_of_mem b hb')
    refine ⟨hold.count, hold.aligned, fun p hp => ⟨hold.live hp, fun hp' => ?_⟩⟩
    exact Set.disjoint_left.mp ((List.pairwise_cons.mp h.disjoint).1 b' hb') hp' hp
  disjoint := (List.pairwise_cons.mp h.disjoint).2

/-- Freeing handed-out blocks succeeds for each of them and frees all their pages. -/
theorem freeAll_spec (hg : Sound T g₀ g) (h : LiveBlocks g bs) :
    Yields (· = .poolEmpty)
      (fun r => (∀ x ∈ r.1, x = .ok ()) ∧ Inv T r.2 ∧
        r.2.freePages = g.pmm.freePages ∪ pagesOf bs)
      (freeAll m g.pmm bs) := by
  induction bs generalizing g with
  | nil => exact ⟨by simp, hg.inv, by simp [pagesOf]⟩
  | cons b bs ih =>
      obtain ⟨addr, n⟩ := b
      have hargs := h.live (addr, n) List.mem_cons_self
      obtain ⟨e, c, haddr, hn, hlive, hd, hb⟩ := hargs.exists_block hg
      simp only at haddr hn
      have hpages : pagesFrom addr n = points e c := by rw [haddr, hn, pagesFrom_blockAddr]
      rw [freeAll, pagesOf_cons, hpages, haddr, hn]
      refine ((free_spec hg.inv hd hb).allow fun p hp => hp.1).bind ?_
      rintro ⟨r, s'⟩ ⟨rfl, hfrees⟩
      have hg' := hg.give hlive hfrees
      have hlive' := h.tail s'
      simp only [hpages] at hlive'
      refine (ih hg' hlive').bind ?_
      rintro ⟨rs, s''⟩ ⟨hrs, hI'', hfree''⟩
      refine ⟨?_, hI'', ?_⟩
      · simpa using hrs
      · rw [hfree'', hfrees.free, Set.union_assoc]

theorem pagesOf_perm (h : bs.Perm bs') : pagesOf bs = pagesOf bs' := by
  ext p
  simp [pagesOf, h.mem_iff]

/-- **Canonical form.**  Reachable states with the same free pages have the same zones;
allocating and freeing the result restores every zone; and freeing live blocks in two
orders gives the same zones.  The pool may run out in the last case, and nothing else
can go wrong. -/
theorem canonical_zones (hz : z ≤ 51) (hT : T < 2 ^ z) (hT' : T' < 2 ^ z)
    (h : Reachable m T (Client.start z pool) g) (h' : Reachable m' T' (Client.start z pool') g') :
    (g.pmm.freePages = g'.pmm.freePages → SameZones g.pmm g'.pmm) ∧
    (∀ al n a s, AllocateArgs al n → g.pmm.allocate m al n = .ok (.ok a, s) →
      ∃ s', s.free m a n = .ok (.ok (), s') ∧ SameZones s' g.pmm) ∧
    (∀ bs bs', LiveBlocks g bs → bs.Perm bs' →
      (∀ r r', freeAll m g.pmm bs = .ok r → freeAll m g.pmm bs' = .ok r' →
        (∀ x ∈ r.1, x = .ok ()) ∧ SameZones r.2 r'.2) ∧
      ∀ p, freeAll m g.pmm bs = .error p → p = .poolEmpty) := by
  have hg := h.sound hz hT
  have hg' := h'.sound hz hT'
  refine ⟨sameZones_of_freePages_eq hg.inv hg'.inv, ?_, ?_⟩
  · intro al n a s hargs hrun
    obtain ⟨s', hfree, hI, hpages⟩ := free_of_allocate hg hargs hrun
    exact ⟨s', hfree, sameZones_of_freePages_eq hI hg.inv hpages⟩
  · intro bs bs' hlive hperm
    refine ⟨?_, fun p hp => (freeAll_spec hg hlive).reason hp⟩
    intro r r' hr hr'
    obtain ⟨hok, hI, hfree⟩ := (freeAll_spec hg hlive).post hr
    obtain ⟨-, hI', hfree'⟩ := (freeAll_spec hg (hlive.perm hperm)).post hr'
    refine ⟨hok, sameZones_of_freePages_eq hI hI' ?_⟩
    rw [hfree, hfree', pagesOf_perm hperm]

/-- The last free page of the small allocator, handed out and freed again. -/
theorem small_allocate_free :
    ∃ s', BuddyAllocator.free .checked ⟨[[], []], [⟨0, 0⟩, ⟨24, 0⟩, ⟨48, 4096⟩]⟩ 4096 1 =
      .ok (.ok (), s') ∧ SameZones s' smallPmm :=
  (canonical_zones (by omega) (by omega) (by omega) small_reachable small_reachable).2.1 1 1 4096 _
    ⟨⟨0, rfl⟩, by decide, ⟨0, rfl⟩, by decide⟩ (by decide)

end Funderberker

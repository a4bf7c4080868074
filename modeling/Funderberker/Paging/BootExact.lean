import Funderberker.Paging.Pages

/-!
# The boot mappings are exact

`init_from_limine` maps its regions one after another, all with the same flags.  Regions that do
not overlap have pages that do not overlap, so every one of them is mapped where it should be.

## Main definitions

* `Mapped` — the tables hold the given pages and nothing else.
* `bootTables` — the tables that regions need.

## Main results

* `boot_mappings_exact`.
-/

namespace Funderberker

open Panicking PageTable

/-- What the tables hold at the page. -/
def BootPage.leaf (p : BootPage) : ℕ × Word :=
  (p.pageSize.bottomPagingLevel, pageWord p.physAddr p.pageSize)

/-- What tables that map the pages hold. -/
def lookup (ps : List BootPage) (D : List ℕ) : Option (ℕ × Word) :=
  (ps.find? fun p => p.path <+: D).map BootPage.leaf

/-- The tables hold the pages and nothing else, and every table is on the way to one. -/
structure Mapped (T : ℕ) (C : Set ℕ) (N : ℕ) (r : PhysAddr) (P : Finset (List ℕ))
    (ps : List BootPage) (w : World BuddyAllocator) : Prop where
  inv : BootInv T C N r w
  proper : ∀ p ∈ ps, p.Proper
  tables : ∀ p ∈ ps, ∀ q ∈ p.tables, q ∈ P
  content_eq : ∀ D : List ℕ, D.length = 4 → content w.mem r D = lookup ps D
  nodes : ∀ q t, q ≠ [] → q.length ≤ 3 → node w.mem r q = some t → ∃ p ∈ ps, q <+: p.parent

section

variable {m : Overflow} {T N : ℕ} {C : Set ℕ} {r : PhysAddr} {P : Finset (List ℕ)}
  {w : World BuddyAllocator} {p : BootPage} {ps : List BootPage} {D : List ℕ}

theorem flaggedLeaf_bootFlags (hp : p.Proper) : flaggedLeaf (p, bootFlags) = p.leaf :=
  congrArg (Prod.mk _) (Entry.mapped_empty hp.phys)

theorem lookupFlagged_bootFlags (hps : ∀ p ∈ ps, p.Proper) :
    lookupFlagged (ps.map fun p => (p, bootFlags)) D = lookup ps D := by
  induction ps with
  | nil => rfl
  | cons p ps ih =>
      rw [List.forall_mem_cons] at hps
      rw [List.map_cons, lookupFlagged_cons, ih hps.2, flaggedLeaf_bootFlags hps.1]
      by_cases h : p.path <+: D
      · rw [if_pos h, lookup, List.find?_cons, decide_eq_true h]
        rfl
      · rw [if_neg h, lookup, lookup, List.find?_cons, decide_eq_false h]

/-- Pages that are mapped at boot all have the same flags. -/
theorem mapped_iff : Mapped T C N r P ps w ↔
    Holds BootWord T C N r P (ps.map fun p => (p, bootFlags)) w := by
  constructor
  · rintro ⟨hinv, hproper, htables, hcontent, hnodes⟩
    refine ⟨hinv.sizedInv, List.forall_mem_map.mpr hproper, List.forall_mem_map.mpr htables,
      fun D hD => ?_, fun q t hne hq ht => ?_⟩
    · rw [hcontent D hD, lookupFlagged_bootFlags hproper]
    · obtain ⟨p, hp, hpre⟩ := hnodes q t hne hq ht
      exact ⟨_, List.mem_map_of_mem hp, hpre⟩
  · rintro ⟨hinv, hproper, htables, hcontent, hnodes⟩
    rw [List.forall_mem_map] at hproper htables
    refine ⟨hinv.bootInv, hproper, htables, fun D hD => ?_, fun q t hne hq ht => ?_⟩
    · rw [hcontent D hD, lookupFlagged_bootFlags hproper]
    · obtain ⟨x, hx, hpre⟩ := hnodes q t hne hq ht
      obtain ⟨p, hp, rfl⟩ := List.mem_map.mp hx
      exact ⟨p, hp, hpre⟩

/-! ## Mapping regions -/

/-- The loop of `map_in_entry` maps the pages of the region. -/
theorem Mapped.mapInEntryGo {fuel : ℕ} {k : BootRegion} (h : Mapped T C N r P ps w)
    (hsupply : Supply T C N r P) (hk : k.Proper) (hfuel : k.size < fuel)
    (hdis : ∀ p ∈ ps, Disjoint k.range p.range)
    (hP : ∀ p ∈ BootRegion.cut fuel k, ∀ q ∈ p.tables, q ∈ P) :
    ∃ w', mapInEntryGo m r none fuel k.virtAddr k.physAddr k.size bootFlags w = .ok w' ∧
      Mapped T C N r P ((BootRegion.cut fuel k).reverse ++ ps) w' := by
  have hcut := hk.cutInto hfuel
  have hflags : k.flagged none fuel bootFlags =
      (BootRegion.cut fuel k).map fun p => (p, bootFlags) := BootRegion.flagged_none
  have hneeds : ∀ x ∈ k.flagged none fuel bootFlags, ∀ q ∈ x.1.tables, q ∈ P := by
    rw [hflags]
    exact List.forall_mem_map.mpr hP
  have hword : ∀ x ∈ k.flagged none fuel bootFlags, Entry.Joins x.2 x.1.pageSize →
      BootWord (flaggedLeaf x).1 (flaggedLeaf x).2 := by
    rw [hflags]
    refine List.forall_mem_map.mpr fun p hp _ => ?_
    rw [flaggedLeaf_bootFlags (hcut.proper p hp)]
    exact .page (hcut.proper p hp).phys (hcut.proper p hp).phys_lt
  have hjoins : ∀ x ∈ k.flagged none fuel bootFlags, Entry.Joins x.2 x.1.pageSize := by
    rw [hflags]
    exact List.forall_mem_map.mpr fun p _ => joins_bootFlags p.pageSize
  obtain ⟨w', hrun, hholds⟩ := ((mapped_iff.mp h).mapInEntryGo (m := m) grammar_bootWord
    absentEmpty_bootWord hsupply hk hfuel (List.forall_mem_map.mpr hdis) hneeds hword).1 hjoins
  refine ⟨w', hrun, mapped_iff.mpr ?_⟩
  rw [List.map_append, List.map_reverse, ← hflags]
  exact hholds

/-- The pages of all regions. -/
def bootPages (ks : List BootRegion) : List BootPage := ks.flatMap BootRegion.pages

/-- The tables that regions need, but for the top-level table. -/
def bootTables (ks : List BootRegion) : Finset (List ℕ) :=
  ((bootPages ks).flatMap BootPage.tables).toFinset

theorem Mapped.mapRegions {ks : List BootRegion} (h : Mapped T C N r P ps w)
    (hsupply : Supply T C N r P) (hks : ∀ k ∈ ks, k.Proper)
    (hpair : ks.Pairwise fun k k' => Disjoint k.range k'.range)
    (hdis : ∀ k ∈ ks, ∀ p ∈ ps, Disjoint k.range p.range)
    (hP : ∀ p ∈ bootPages ks, ∀ q ∈ p.tables, q ∈ P) :
    ∃ w', mapRegions m r ks w = .ok w' ∧
      Mapped T C N r P ((bootPages ks).reverse ++ ps) w' := by
  induction ks generalizing ps w with
  | nil => exact ⟨w, rfl, h⟩
  | cons k ks ih =>
      rw [List.forall_mem_cons] at hks hdis
      rw [List.pairwise_cons] at hpair
      rw [bootPages, List.flatMap_cons, List.forall_mem_append] at hP
      obtain ⟨w₁, hrun, h₁⟩ :=
        h.mapInEntryGo (m := m) hsupply hks.1 (Nat.lt_succ_self _) hdis.1 hP.1
      have hcut := hks.1.cutInto (Nat.lt_succ_self _)
      obtain ⟨w', hrun', h'⟩ := ih h₁ hks.2 hpair.2 (fun k' hk' => by
        rw [List.forall_mem_append]
        refine ⟨fun p hp => ?_, hdis.2 k' hk'⟩
        exact (hpair.1 k' hk').symm.mono_right (hcut.subset p (List.mem_reverse.mp hp))) hP.2
      refine ⟨w', ?_, ?_⟩
      · rw [Funderberker.mapRegions, mapInEntry, hrun, ok_bind, hrun']
      · rw [bootPages, List.flatMap_cons, List.reverse_append, List.append_assoc]
        exact h'

/-! ## The walk after boot -/

theorem Mapped.pageWalk_none {v : VirtAddr} (h : Mapped T C N r P ps w)
    (hv : ∀ p ∈ ps, v ∉ p.range) : pageWalk w.mem r v = none :=
  (mapped_iff.mp h).pageWalk_none grammar_bootWord marksLarge_bootWord (List.forall_mem_map.mpr hv)

/-- A mapped address is translated by one of the pages that it is on. -/
theorem Mapped.pageWalk_some {v : VirtAddr} (h : Mapped T C N r P ps w) (hcanonical : Canonical v)
    (hp : p ∈ ps) (hv : v ∈ p.range) :
    ∃ p' ∈ ps, v ∈ p'.range ∧ pageWalk w.mem r v = some (translated v p'.leaf) := by
  obtain ⟨x, hx, hxv, hcontent⟩ := (mapped_iff.mp h).content_some hcanonical
    (x := (p, bootFlags)) (List.mem_map_of_mem hp) hv
  obtain ⟨p', hp', rfl⟩ := List.mem_map.mp hx
  refine ⟨p', hp', hxv, ?_⟩
  rw [h.inv.pageWalk_eq hcanonical, hcontent, flaggedLeaf_bootFlags (h.proper p' hp')]
  rfl

end

/-- **The boot mappings are exact.**  Whatever regions are mapped one after another, as long as
they do not overlap and the PMM has the frames for their tables: no call stops, every address
of a region is translated to its place in the physical region, and no other address is
translated. -/
theorem boot_mappings_exact {m : Overflow} {T : ℕ} {pml : PhysAddr} {ks : List BootRegion}
    {w : World BuddyAllocator} (hks : ∀ k ∈ ks, k.Proper)
    (hpair : ks.Pairwise fun k k' => Disjoint k.range k'.range) (hmod : pml % 4096 = 0)
    (hzero : ∀ i, w.mem pml i = 0) (hpmm : BuddyAllocator.Inv T w.pmm)
    (hsupply : Supply T w.pmm.freePages w.pmm.nodeCount pml (bootTables ks)) :
    ∃ w', mapRegions m pml ks w = .ok w' ∧
      (∀ k ∈ ks, ∀ off < k.size,
        pageWalk w'.mem pml (k.virtAddr + off) = some (k.physAddr + off)) ∧
      ∀ v, (∀ k ∈ ks, v ∉ k.range) → pageWalk w'.mem pml v = none := by
  have hstart : Mapped T w.pmm.freePages w.pmm.nodeCount pml (bootTables ks) [] w :=
    mapped_iff.mpr (holds_start grammar_bootWord hzero
      (BuddyAllocator.respects_singleton hpmm hmod hsupply.root))
  obtain ⟨w', hrun, hmapped⟩ := hstart.mapRegions (m := m) hsupply hks hpair nofun
    fun p hp q hq => List.mem_toFinset.mpr (List.mem_flatMap.mpr ⟨p, hp, hq⟩)
  rw [List.append_nil] at hmapped
  have hcut : ∀ k ∈ ks, k.CutInto k.pages := fun k hk => (hks k hk).cutInto (Nat.lt_succ_self _)
  have hpages : ∀ p ∈ (bootPages ks).reverse, ∃ k ∈ ks, p ∈ k.pages := fun p hp =>
    List.mem_flatMap.mp (List.mem_reverse.mp hp)
  refine ⟨w', hrun, fun k hk off hoff => ?_, fun v hv => hmapped.pageWalk_none fun p hp hpv => ?_⟩
  · have hv : k.virtAddr + off ∈ k.range := ⟨Nat.le_add_right _ _, Nat.add_lt_add_left hoff _⟩
    obtain ⟨p, hp, hpv⟩ := (hcut k hk).cover _ hv
    obtain ⟨p', hp', hpv', hwalk⟩ := hmapped.pageWalk_some ((hks k hk).canonical _ hv)
      (List.mem_reverse.mpr (List.mem_flatMap.mpr ⟨k, hk, hp⟩)) hpv
    -- The page is one of this region, since the regions do not overlap.
    obtain ⟨k', hk', hpk'⟩ := hpages p' hp'
    obtain rfl : k = k' := by
      by_contra hne
      have : Std.Symm fun k k' : BootRegion => Disjoint k.range k'.range := ⟨fun _ _ h => h.symm⟩
      exact Set.disjoint_left.mp (hpair.forall hk hk' hne) hv ((hcut k' hk').subset p' hpk' hpv')
    have hoffset := (hcut k hk).offset p' hpk'
    have hproper := hmapped.proper p' hp'
    have htrans := BootPage.translated_of_field hproper hpv'
      (addressField_pageWord hproper.phys hproper.phys_lt)
    rw [hwalk]
    refine congrArg some (Nat.add_right_cancel (m := p'.virtAddr) ?_)
    calc
      translated (k.virtAddr + off) p'.leaf + p'.virtAddr = p'.physAddr + (k.virtAddr + off) := htrans
      _ = p'.physAddr + k.virtAddr + off := (Nat.add_assoc _ _ _).symm
      _ = k.physAddr + p'.virtAddr + off := by rw [hoffset]
      _ = k.physAddr + off + p'.virtAddr := Nat.add_right_comm _ _ _
  · obtain ⟨k, hk, hpk⟩ := hpages p hp
    exact hv k hk ((hcut k hk).subset p hpk hpv)

/-- A page of 2MB and a basic page after it, and two basic pages in the upper half. -/
def smallRegions : List BootRegion :=
  [⟨0x200000, 0x400000, 0x201000⟩, ⟨0xffffffff80000000, 0x1000, 0x2000⟩]

theorem smallRegions_proper : ∀ k ∈ smallRegions, k.Proper := by
  simp only [smallRegions, List.forall_mem_cons]
  refine ⟨⟨rfl, rfl, rfl, by decide, by decide, ?_⟩, ⟨rfl, rfl, rfl, by decide, by decide, ?_⟩, nofun⟩
  · rintro v ⟨-, hv⟩
    exact Or.inl (hv.trans (by decide))
  · rintro v ⟨hle, hv⟩
    exact Or.inr ⟨Nat.le_trans (by decide) hle, hv.trans (by decide)⟩

theorem small_boot_mappings : ∃ w', mapRegions .checked 0x1000 smallRegions smallWorld = .ok w' ∧
    (∀ k ∈ smallRegions, ∀ off < k.size,
      pageWalk w'.mem 0x1000 (k.virtAddr + off) = some (k.physAddr + off)) ∧
    ∀ v, (∀ k ∈ smallRegions, v ∉ k.range) → pageWalk w'.mem 0x1000 v = none := by
  have hfree : smallSupply.freePages = Set.Ico 8 16 := smallSupply_frees.free
  refine boot_mappings_exact smallRegions_proper ?_ rfl (fun _ => rfl) smallSupply_frees.inv
    ⟨by decide, smallSupply_frees.inv.bounded, smallSupply_respects.notFree _ rfl,
      smallSupply_pairs, ?_⟩
  · refine List.pairwise_pair.mpr (Set.disjoint_left.mpr fun v hv hv' => ?_)
    exact Nat.not_lt.mpr hv'.1 (hv.2.trans (by decide))
  · change (bootTables smallRegions).card ≤ smallSupply.freePages.ncard
    rw [hfree, Set.ncard_Ico_nat]
    decide +kernel

end Funderberker

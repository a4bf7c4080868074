import Funderberker.Paging.BootTree
import Funderberker.Paging.Refine
import Mathlib.Order.Interval.Set.Nat

/-!
# Pages of a region

`map_in_entry` cuts a region into pages of all three sizes.  A page is known by the indices
that lead to its word, and on canonical addresses the lists of indices that begin with the path
of a page are those of the addresses on the page.  So pages that do not overlap have paths of
which none begins with another, and mapping one after the other never meets a word that is
present.

The flags are those of the call, with the bits of the cache type set anew for each page on top of
what the page before left.

## Main definitions

* `BootPage`, `BootRegion.pages` — the pages that a region is cut into.
* `BootRegion.flagged` — the pages with the flags that each is mapped with.
* `Holds` — the tables hold the given pages and nothing else.

## Main results

* `Holds.mapPage` — mapping a page that overlaps no other.
* `Holds.mapInEntryGo_stocked` — mapping a region.
-/

namespace Funderberker

open Panicking PageTable

/-! ## Pages -/

/-- A page that is mapped at boot. -/
structure BootPage where
  virtAddr : VirtAddr
  physAddr : PhysAddr
  pageSize : PageSize
  deriving DecidableEq, Repr

namespace BootPage

/-- The indices that lead to the word of the page. -/
def path (p : BootPage) : List ℕ := pagePath p.virtAddr p.pageSize

/-- The indices that lead to the table of the page. -/
def parent (p : BootPage) : List ℕ :=
  PageTable.path p.virtAddr p.pageSize.bottomPagingLevel (3 - p.pageSize.bottomPagingLevel)

/-- The tables on the way to the page, but for the top-level table. -/
def tables (p : BootPage) : List (List ℕ) := p.parent.inits.filter (· ≠ [])

def range (p : BootPage) : Set ℕ := Set.Ico p.virtAddr (p.virtAddr + p.pageSize.size)

structure Proper (p : BootPage) : Prop where
  virt : p.virtAddr % p.pageSize.size = 0
  phys : p.physAddr % p.pageSize.size = 0
  phys_lt : p.physAddr < 2 ^ 52
  canonical : Canonical p.virtAddr

variable {p p' : BootPage} {v : ℕ}

theorem virtAddr_mem_range (p : BootPage) : p.virtAddr ∈ p.range :=
  ⟨Nat.le_refl _, Nat.lt_add_of_pos_right p.pageSize.size_pos⟩

/-- The addresses on a page are those whose indices begin with the path of the page. -/
theorem path_prefix_iff (hp : p.Proper) (hv : Canonical v) :
    p.path <+: pagePath v .size4kb ↔ v ∈ p.range := by
  obtain ⟨virt, phys, pageSize⟩ := p
  obtain ⟨hvirt, -, -, hcanonical⟩ := hp
  have hcore4kb : ∀ x y : ℕ, (x < 2 ^ 47 ∨ 2 ^ 64 - 2 ^ 47 ≤ x ∧ x < 2 ^ 64) →
      (y < 2 ^ 47 ∨ 2 ^ 64 - 2 ^ 47 ≤ y ∧ y < 2 ^ 64) → x % 0x1000 = 0 →
      (x / 2 ^ 39 % 512 = y / 2 ^ 39 % 512 ∧ x / 2 ^ 30 % 512 = y / 2 ^ 30 % 512 ∧
        x / 2 ^ 21 % 512 = y / 2 ^ 21 % 512 ∧ x / 2 ^ 12 % 512 = y / 2 ^ 12 % 512 ↔
        x ≤ y ∧ y < x + 0x1000) := by
    intro x y hx hy hmod
    omega
  have hcore2mb : ∀ x y : ℕ, (x < 2 ^ 47 ∨ 2 ^ 64 - 2 ^ 47 ≤ x ∧ x < 2 ^ 64) →
      (y < 2 ^ 47 ∨ 2 ^ 64 - 2 ^ 47 ≤ y ∧ y < 2 ^ 64) → x % 0x200000 = 0 →
      (x / 2 ^ 39 % 512 = y / 2 ^ 39 % 512 ∧ x / 2 ^ 30 % 512 = y / 2 ^ 30 % 512 ∧
        x / 2 ^ 21 % 512 = y / 2 ^ 21 % 512 ↔ x ≤ y ∧ y < x + 0x200000) := by
    intro x y hx hy hmod
    omega
  have hcore1gb : ∀ x y : ℕ, (x < 2 ^ 47 ∨ 2 ^ 64 - 2 ^ 47 ≤ x ∧ x < 2 ^ 64) →
      (y < 2 ^ 47 ∨ 2 ^ 64 - 2 ^ 47 ≤ y ∧ y < 2 ^ 64) → x % 0x40000000 = 0 →
      (x / 2 ^ 39 % 512 = y / 2 ^ 39 % 512 ∧ x / 2 ^ 30 % 512 = y / 2 ^ 30 % 512 ↔
        x ≤ y ∧ y < x + 0x40000000) := by
    intro x y hx hy hmod
    omega
  cases pageSize with
  | size4kb =>
      simpa [range, PageSize.size, path, pagePath, PageTable.path, PageSize.bottomPagingLevel,
        nextLevelIndex_eq] using hcore4kb virt v hcanonical hv hvirt
  | size2mb =>
      simpa [range, PageSize.size, path, pagePath, PageTable.path, PageSize.bottomPagingLevel,
        nextLevelIndex_eq] using hcore2mb virt v hcanonical hv hvirt
  | size1gb =>
      simpa [range, PageSize.size, path, pagePath, PageTable.path, PageSize.bottomPagingLevel,
        nextLevelIndex_eq] using hcore1gb virt v hcanonical hv hvirt

/-- Pages that do not overlap have paths of which none begins with the other. -/
theorem not_prefix_of_disjoint (hp : p.Proper) (hp' : p'.Proper) (h : Disjoint p.range p'.range) :
    ¬ p.path <+: p'.path := by
  intro hpre
  have hself : p'.path <+: pagePath p'.virtAddr .size4kb :=
    (path_prefix_iff hp' hp'.canonical).mpr p'.virtAddr_mem_range
  have hmem : p'.virtAddr ∈ p.range := (path_prefix_iff hp hp'.canonical).mp (hpre.trans hself)
  exact Set.disjoint_left.mp h hmem p'.virtAddr_mem_range

theorem length_path (p : BootPage) : p.path.length + p.pageSize.bottomPagingLevel = 4 :=
  length_pagePath p.virtAddr p.pageSize

theorem mem_tables {q : List ℕ} : q ∈ p.tables ↔ q ≠ [] ∧ q <+: p.parent := by
  rw [tables, List.mem_filter, List.mem_inits, decide_eq_true_iff, and_comm]

theorem parent_begins (p : BootPage) : p.parent <+: p.path := List.prefix_append _ _

/-- An address on the page is translated by its distance to the start, when the word of the page
has its address. -/
theorem translated_of_field {e : Word} (hp : p.Proper) (hv : v ∈ p.range)
    (he : addressField e (levelShift p.pageSize.bottomPagingLevel) = p.physAddr) :
    translated v (p.pageSize.bottomPagingLevel, e) + p.virtAddr = p.physAddr + v := by
  have hmod : v % p.pageSize.size + p.virtAddr = v := by
    obtain ⟨c, hc⟩ := Nat.dvd_of_mod_eq_zero hp.virt
    obtain ⟨d, rfl⟩ := Nat.exists_eq_add_of_le hv.1
    have hd : d < p.pageSize.size := Nat.lt_of_add_lt_add_left hv.2
    rw [hc, Nat.mul_add_mod, Nat.mod_eq_of_lt hd, Nat.add_comm]
  rw [translated, he, ← PageSize.size_eq, Nat.add_assoc, hmod]

end BootPage

/-! ## Tables that hold pages -/

/-- What the tables hold at a page that is mapped with the given flags. -/
def flaggedLeaf (x : BootPage × Flags) : ℕ × Word :=
  (x.1.pageSize.bottomPagingLevel, Entry.mapped 0 x.1.physAddr x.2 x.1.pageSize)

/-- What tables that map the pages hold. -/
def lookupFlagged (xs : List (BootPage × Flags)) (D : List ℕ) : Option (ℕ × Word) :=
  (xs.find? fun x => x.1.path <+: D).map flaggedLeaf

variable {x : BootPage × Flags} {xs : List (BootPage × Flags)} {D : List ℕ}

theorem lookupFlagged_cons : lookupFlagged (x :: xs) D =
    if x.1.path <+: D then some (flaggedLeaf x) else lookupFlagged xs D := by
  rw [lookupFlagged, List.find?_cons]
  by_cases h : x.1.path <+: D
  · rw [decide_eq_true h, if_pos h]
    rfl
  · rw [decide_eq_false h, if_neg h]
    rfl

theorem lookupFlagged_eq_none : lookupFlagged xs D = none ↔ ∀ x ∈ xs, ¬ x.1.path <+: D := by
  rw [lookupFlagged, Option.map_eq_none_iff, List.find?_eq_none]
  simp only [decide_eq_true_iff]

theorem lookupFlagged_eq_some {e : ℕ × Word} (h : lookupFlagged xs D = some e) :
    ∃ x ∈ xs, x.1.path <+: D ∧ e = flaggedLeaf x := by
  obtain ⟨x, hfind, rfl⟩ := Option.map_eq_some_iff.mp h
  have hpre := List.find?_some hfind
  exact ⟨x, List.mem_of_find?_eq_some hfind, of_decide_eq_true hpre, rfl⟩

/-- The tables hold the pages and nothing else, and every table is on the way to one. -/
structure Holds (W : ℕ → Word → Prop) (T : ℕ) (C : Set ℕ) (N : ℕ) (r : PhysAddr)
    (P : Finset (List ℕ)) (xs : List (BootPage × Flags)) (w : World BuddyAllocator) : Prop where
  inv : SizedInv W (BuddyAllocator.Accounts T C N) r w
  proper : ∀ x ∈ xs, x.1.Proper
  tables : ∀ x ∈ xs, ∀ q ∈ x.1.tables, q ∈ P
  content_eq : ∀ D : List ℕ, D.length = 4 → content w.mem r D = lookupFlagged xs D
  nodes : ∀ q t, q ≠ [] → q.length ≤ 3 → node w.mem r q = some t → ∃ x ∈ xs, q <+: x.1.parent

section

variable {W : ℕ → Word → Prop} {m : Overflow} {T N : ℕ} {C : Set ℕ} {r : PhysAddr}
  {P : Finset (List ℕ)} {w : World BuddyAllocator} {p : BootPage} {flags : Flags} {v : VirtAddr}

/-- Below every table there is a page. -/
theorem Holds.inhabited (h : Holds W T C N r P xs w) {q : List ℕ} {t : PhysAddr} (hne : q ≠ [])
    (hq : q.length ≤ 3) (ht : node w.mem r q = some t) :
    q ∈ P ∧ ∃ D : List ℕ, D.length = 4 ∧ q <+: D ∧ content w.mem r D ≠ none := by
  obtain ⟨x, hx, hpre⟩ := h.nodes q t hne hq ht
  have hlen : (x.1.path ++ List.replicate x.1.pageSize.bottomPagingLevel 0).length = 4 := by
    rw [List.length_append, List.length_replicate, x.1.length_path]
  refine ⟨h.tables x hx q (BootPage.mem_tables.mpr ⟨hne, hpre⟩), _, hlen,
    (hpre.trans x.1.parent_begins).trans (List.prefix_append _ _), fun hnone => ?_⟩
  rw [h.content_eq _ hlen, lookupFlagged_eq_none] at hnone
  exact hnone x hx (List.prefix_append _ _)

/-- Nothing is mapped where a page that overlaps no other goes. -/
theorem Holds.blank (h : Holds W T C N r P xs w) (hp : p.Proper)
    (hdis : ∀ x ∈ xs, Disjoint p.range x.1.range) (hD : D.length = 4) (hpre : p.path <+: D) :
    content w.mem r D = none := by
  rw [h.content_eq D hD, lookupFlagged_eq_none]
  intro x hx hpre'
  rcases List.prefix_or_prefix_of_prefix hpre hpre' with hle | hle
  · exact BootPage.not_prefix_of_disjoint hp (h.proper x hx) (hdis x hx) hle
  · exact BootPage.not_prefix_of_disjoint (h.proper x hx) hp (hdis x hx).symm hle

/-- Mapping a page that overlaps no other. -/
theorem Holds.mapPage (hG : Grammar W) (hW : AbsentEmpty W) (h : Holds W T C N r P xs w)
    (hstocked : Stocked m T C N r P) (hp : p.Proper)
    (hdis : ∀ x ∈ xs, Disjoint p.range x.1.range) (hP : ∀ q ∈ p.tables, q ∈ P)
    (hword : Entry.Joins flags p.pageSize →
      W p.pageSize.bottomPagingLevel (Entry.mapped 0 p.physAddr flags p.pageSize)) :
    ∃ w', mapPages m r w p.virtAddr p.physAddr 1 p.pageSize flags =
        .ok (if Entry.Joins flags p.pageSize then .ok () else .error .invalidFlags, w') ∧
      (Entry.Joins flags p.pageSize → Holds W T C N r P ((p, flags) :: xs) w') := by
  obtain ⟨w', hrun, hdone⟩ := h.inv.mapPage hG hW hstocked
    (fun q t hne hq ht => h.inhabited hne hq ht)
    (fun q hne hpre => hP q (BootPage.mem_tables.mpr ⟨hne, hpre⟩))
    (fun D hD hpre => h.blank hp hdis hD hpre) hp.virt hp.phys hp.phys_lt hword
  refine ⟨w', hrun, fun hjoins => ?_⟩
  obtain ⟨hinv, hnodes, hcontent⟩ := hdone hjoins
  refine ⟨hinv, ?_, ?_, fun D hD => ?_, fun q t hne hq ht => ?_⟩
  · exact List.forall_mem_cons.mpr ⟨hp, h.proper⟩
  · exact List.forall_mem_cons.mpr ⟨hP, h.tables⟩
  · rw [hcontent D hD, lookupFlagged_cons, h.content_eq D hD]
    rfl
  · rcases hnodes q t hq ht with hold | hpre
    · obtain ⟨x, hx, hpre⟩ := h.nodes q t hne hq hold
      exact ⟨x, List.mem_cons_of_mem _ hx, hpre⟩
    · exact ⟨(p, flags), List.mem_cons_self, hpre⟩

/-- A cleared table maps nothing. -/
theorem holds_start (hG : Grammar W) (hzero : ∀ i, w.mem r i = 0)
    (hres : BuddyAllocator.Respects T {r} w.pmm) :
    Holds W T w.pmm.freePages w.pmm.nodeCount r P [] w where
  inv := by
    refine ⟨sized_of_zero hG hzero, ?_⟩
    rw [tables_of_zero hzero]
    exact BuddyAllocator.accounts_start hres
  proper := nofun
  tables := nofun
  content_eq D hD := content_of_zero hzero (List.ne_nil_of_length_pos (by omega))
  nodes q t hne _ ht := absurd (node_of_zero hzero ht).1 hne

/-! ## The walk of the processor -/

theorem Holds.pageWalk_none (hG : Grammar W) (hlarge : MarksLarge W)
    (h : Holds W T C N r P xs w) (hv : ∀ x ∈ xs, v ∉ x.1.range) : pageWalk w.mem r v = none := by
  by_cases hcanonical : Canonical v
  · have hnone : lookupFlagged xs (pagePath v .size4kb) = none := by
      refine lookupFlagged_eq_none.mpr fun x hx hpre => hv x hx ?_
      exact (BootPage.path_prefix_iff (h.proper x hx) hcanonical).mp hpre
    rw [h.inv.sized.pageWalk_eq hG hlarge hcanonical, h.content_eq _ (length_pagePath v .size4kb),
      hnone]
    rfl
  · exact if_neg hcanonical

/-- A mapped address is translated by one of the pages that it is on. -/
theorem Holds.content_some (h : Holds W T C N r P xs w) (hcanonical : Canonical v) (hx : x ∈ xs)
    (hv : v ∈ x.1.range) : ∃ y ∈ xs, v ∈ y.1.range ∧
      content w.mem r (pagePath v .size4kb) = some (flaggedLeaf y) := by
  rw [h.content_eq _ (length_pagePath v .size4kb)]
  cases hlook : lookupFlagged xs (pagePath v .size4kb) with
  | none =>
      have hpre := (BootPage.path_prefix_iff (h.proper x hx) hcanonical).mpr hv
      exact absurd hpre (lookupFlagged_eq_none.mp hlook x hx)
  | some e =>
      obtain ⟨y, hy, hpre, rfl⟩ := lookupFlagged_eq_some hlook
      exact ⟨y, hy, (BootPage.path_prefix_iff (h.proper y hy) hcanonical).mp hpre, rfl⟩

end

/-! ## Cutting a region -/

theorem pageFits_nextPageSize {size phys virt : ℕ} {pageSize : PageSize}
    (h : nextPageSize size phys virt = some pageSize) : pageFits size phys virt pageSize := by
  unfold nextPageSize at h
  split at h
  · obtain rfl := Option.some.inj h
    assumption
  · split at h
    · obtain rfl := Option.some.inj h
      assumption
    · split at h
      · obtain rfl := Option.some.inj h
        assumption
      · cases h

/-- As long as something is left, there is a next page. -/
theorem exists_nextPageSize {size phys virt : ℕ} (hne : size ≠ 0) (hsize : size % 4096 = 0)
    (hphys : phys % 4096 = 0) (hvirt : virt % 4096 = 0) :
    ∃ pageSize, nextPageSize size phys virt = some pageSize := by
  have hlast : pageFits size phys virt .size4kb := by
    refine ⟨?_, hphys, hvirt⟩
    change size ≥ 4096
    omega
  rw [nextPageSize, if_pos hlast]
  split
  · exact ⟨_, rfl⟩
  · split
    · exact ⟨_, rfl⟩
    · exact ⟨_, rfl⟩

namespace BootRegion

def range (k : BootRegion) : Set ℕ := Set.Ico k.virtAddr (k.virtAddr + k.size)

/-- Aligned to basic pages, physical addresses below `2 ^ 52`, and virtual addresses that are
canonical and do not wrap. -/
structure Proper (k : BootRegion) : Prop where
  virt : k.virtAddr % 4096 = 0
  phys : k.physAddr % 4096 = 0
  aligned : k.size % 4096 = 0
  phys_le : k.physAddr + k.size ≤ 2 ^ 52
  virt_lt : k.virtAddr + k.size < 2 ^ 64
  canonical : ∀ v ∈ k.range, Canonical v

/-- The region after its first page. -/
def rest (k : BootRegion) (pageSize : PageSize) : BootRegion :=
  ⟨k.virtAddr + pageSize.size, k.physAddr + pageSize.size, k.size - pageSize.size⟩

/-- The first pages of a region, at most `fuel` of them. -/
def cut : ℕ → BootRegion → List BootPage
  | 0, _ => []
  | fuel + 1, k =>
      if k.size = 0 then []
      else
        match nextPageSize k.size k.physAddr k.virtAddr with
        | none => []
        | some pageSize => ⟨k.virtAddr, k.physAddr, pageSize⟩ :: cut fuel (k.rest pageSize)

/-- The pages that a region is cut into. -/
def pages (k : BootRegion) : List BootPage := cut (k.size + 1) k

variable {k : BootRegion} {pageSize : PageSize}

theorem first_subset (hfits : pageFits k.size k.physAddr k.virtAddr pageSize) :
    BootPage.range ⟨k.virtAddr, k.physAddr, pageSize⟩ ⊆ k.range :=
  Set.Ico_subset_Ico_right (Nat.add_le_add_left hfits.1 _)

/-- The first page of a region. -/
theorem Proper.first (hk : k.Proper) (hfits : pageFits k.size k.physAddr k.virtAddr pageSize) :
    BootPage.Proper ⟨k.virtAddr, k.physAddr, pageSize⟩ where
  virt := hfits.2.2
  phys := hfits.2.1
  phys_lt :=
    calc
      k.physAddr < k.physAddr + k.size :=
        Nat.lt_add_of_pos_right (pageSize.size_pos.trans_le hfits.1)
      _ ≤ 2 ^ 52 := hk.phys_le
  canonical := hk.canonical _ (first_subset hfits (BootPage.virtAddr_mem_range _))

/-- The end stays where it is when the first page is taken off. -/
theorem end_rest (hsize : pageSize.size ≤ k.size) (a : ℕ) :
    a + pageSize.size + (k.size - pageSize.size) = a + k.size := by
  rw [Nat.add_assoc, Nat.add_sub_cancel' hsize]

/-- An address of a region is on the first page or after it. -/
theorem range_eq (hfits : pageFits k.size k.physAddr k.virtAddr pageSize) :
    k.range = BootPage.range ⟨k.virtAddr, k.physAddr, pageSize⟩ ∪ (k.rest pageSize).range := by
  rw [range, range, BootPage.range, rest, end_rest hfits.1]
  exact (Set.Ico_union_Ico_eq_Ico (Nat.le_add_right _ _) (Nat.add_le_add_left hfits.1 _)).symm

theorem first_disjoint_rest (k : BootRegion) (pageSize : PageSize) :
    Disjoint (BootPage.range ⟨k.virtAddr, k.physAddr, pageSize⟩) (k.rest pageSize).range :=
  Set.disjoint_left.mpr fun _ hfirst hrest => Nat.not_le.mpr hfirst.2 hrest.1

theorem rest_subset (hfits : pageFits k.size k.physAddr k.virtAddr pageSize) :
    (k.rest pageSize).range ⊆ k.range := by
  rw [range_eq hfits]
  exact Set.subset_union_right

theorem Proper.rest (hk : k.Proper) (hfits : pageFits k.size k.physAddr k.virtAddr pageSize) :
    (k.rest pageSize).Proper where
  virt := Nat.mod_eq_zero_of_dvd (Nat.dvd_add (Nat.dvd_of_mod_eq_zero hk.virt) pageSize.basic_dvd)
  phys := Nat.mod_eq_zero_of_dvd (Nat.dvd_add (Nat.dvd_of_mod_eq_zero hk.phys) pageSize.basic_dvd)
  aligned :=
    Nat.mod_eq_zero_of_dvd (Nat.dvd_sub (Nat.dvd_of_mod_eq_zero hk.aligned) pageSize.basic_dvd)
  phys_le := (end_rest hfits.1 k.physAddr).trans_le hk.phys_le
  virt_lt := (end_rest hfits.1 k.virtAddr).trans_lt hk.virt_lt
  canonical v hv := hk.canonical v (rest_subset hfits hv)

theorem rest_size_lt (hfits : pageFits k.size k.physAddr k.virtAddr pageSize) :
    (k.rest pageSize).size < k.size :=
  Nat.sub_lt (pageSize.size_pos.trans_le hfits.1) pageSize.size_pos

/-- The next page of a region that is not empty. -/
theorem Proper.exists_first (hk : k.Proper) (hne : k.size ≠ 0) :
    ∃ pageSize, nextPageSize k.size k.physAddr k.virtAddr = some pageSize ∧
      pageFits k.size k.physAddr k.virtAddr pageSize := by
  obtain ⟨pageSize, hnext⟩ := exists_nextPageSize hne hk.aligned hk.phys hk.virt
  exact ⟨pageSize, hnext, pageFits_nextPageSize hnext⟩

theorem cut_succ {fuel : ℕ} (hne : k.size ≠ 0)
    (hnext : nextPageSize k.size k.physAddr k.virtAddr = some pageSize) :
    cut (fuel + 1) k = ⟨k.virtAddr, k.physAddr, pageSize⟩ :: cut fuel (k.rest pageSize) := by
  rw [cut, if_neg hne, hnext]

/-- Pages that make up a region. -/
structure CutInto (k : BootRegion) (ps : List BootPage) : Prop where
  proper : ∀ p ∈ ps, p.Proper
  subset : ∀ p ∈ ps, p.range ⊆ k.range
  offset : ∀ p ∈ ps, p.physAddr + k.virtAddr = k.physAddr + p.virtAddr
  cover : ∀ v ∈ k.range, ∃ p ∈ ps, v ∈ p.range

theorem Proper.cutInto {fuel : ℕ} (hk : k.Proper) (hfuel : k.size < fuel) :
    CutInto k (cut fuel k) := by
  induction fuel generalizing k with
  | zero => omega
  | succ fuel ih =>
      by_cases hzero : k.size = 0
      · rw [cut, if_pos hzero]
        refine ⟨nofun, nofun, nofun, fun v hv => ?_⟩
        rw [range, hzero, Nat.add_zero, Set.Ico_self] at hv
        exact absurd hv (Set.notMem_empty v)
      · obtain ⟨pageSize, hnext, hfits⟩ := hk.exists_first hzero
        have hrest := ih (hk.rest hfits) (by have := rest_size_lt hfits; omega)
        rw [cut_succ hzero hnext]
        refine ⟨List.forall_mem_cons.mpr ⟨hk.first hfits, hrest.proper⟩,
          List.forall_mem_cons.mpr ⟨first_subset hfits, fun p hp =>
            (hrest.subset p hp).trans (rest_subset hfits)⟩,
          List.forall_mem_cons.mpr ⟨rfl, fun p hp => ?_⟩, fun v hv => ?_⟩
        · have hoff := hrest.offset p hp
          rw [BootRegion.rest] at hoff
          dsimp only at hoff
          rw [← Nat.add_assoc, Nat.add_right_comm k.physAddr] at hoff
          exact Nat.add_right_cancel hoff
        · rw [range_eq hfits] at hv
          rcases hv with hfirst | hlater
          · exact ⟨_, List.mem_cons_self, hfirst⟩
          · obtain ⟨p, hp, hpv⟩ := hrest.cover v hlater
            exact ⟨p, List.mem_cons_of_mem _ hp, hpv⟩

/-- The pages that a region is cut into do not overlap. -/
theorem Proper.pairwise_cut {fuel : ℕ} (hk : k.Proper) (hfuel : k.size < fuel) :
    (cut fuel k).Pairwise fun p p' => Disjoint p.range p'.range := by
  induction fuel generalizing k with
  | zero => omega
  | succ fuel ih =>
      by_cases hzero : k.size = 0
      · rw [cut, if_pos hzero]
        exact .nil
      · obtain ⟨pageSize, hnext, hfits⟩ := hk.exists_first hzero
        have hlt : (k.rest pageSize).size < fuel := by
          have := rest_size_lt hfits
          omega
        rw [cut_succ hzero hnext]
        refine .cons (fun p hp => ?_) (ih (hk.rest hfits) hlt)
        exact (first_disjoint_rest k pageSize).mono_right
          (((hk.rest hfits).cutInto hlt).subset p hp)

/-! ## The flags of the pages -/

/-- The pages of a region with the flags that each is mapped with. -/
def flagged (pat : Option PatType) : ℕ → BootRegion → Flags → List (BootPage × Flags)
  | 0, _, _ => []
  | fuel + 1, k, flags =>
      if k.size = 0 then []
      else
        match nextPageSize k.size k.physAddr k.virtAddr with
        | none => []
        | some pageSize =>
            let flags := pat.elim flags fun patType => flags.setPat patType pageSize
            (⟨k.virtAddr, k.physAddr, pageSize⟩, flags) ::
              flagged pat fuel (k.rest pageSize) flags

variable {pat : Option PatType} {flags : Flags}

theorem flagged_of_empty {fuel : ℕ} (hzero : k.size = 0) : flagged pat fuel k flags = [] := by
  cases fuel with
  | zero => rfl
  | succ fuel => exact if_pos hzero

theorem flagged_succ {fuel : ℕ} (hne : k.size ≠ 0)
    (hnext : nextPageSize k.size k.physAddr k.virtAddr = some pageSize) :
    flagged pat (fuel + 1) k flags =
      (⟨k.virtAddr, k.physAddr, pageSize⟩,
        pat.elim flags fun patType => flags.setPat patType pageSize) ::
        flagged pat fuel (k.rest pageSize)
          (pat.elim flags fun patType => flags.setPat patType pageSize) := by
  rw [flagged, if_neg hne, hnext]

theorem map_fst_flagged {fuel : ℕ} : (flagged pat fuel k flags).map Prod.fst = cut fuel k := by
  induction fuel generalizing k flags with
  | zero => rfl
  | succ fuel ih =>
      rw [flagged, cut]
      split
      · rfl
      · split
        · rfl
        · rw [List.map_cons, ih]

/-- Without a cache type the flags are the same for all pages. -/
theorem flagged_none {fuel : ℕ} :
    flagged none fuel k flags = (cut fuel k).map fun p => (p, flags) := by
  induction fuel generalizing k with
  | zero => rfl
  | succ fuel ih =>
      rw [flagged, cut]
      split
      · rfl
      · split
        · rfl
        · rw [List.map_cons, ← ih]
          rfl

end BootRegion

/-! ## Mapping a region -/

/-- Mapping a page that overlaps no other keeps the invariant. -/
def Kept (m : Overflow) (W : ℕ → Word → Prop) (T : ℕ) (C : Set ℕ) (N : ℕ) (r : PhysAddr)
    (P : Finset (List ℕ)) (I : World BuddyAllocator → Prop) : Prop :=
  ∀ {xs : List (BootPage × Flags)} {w w' : World BuddyAllocator} {p : BootPage} {flags : Flags},
    Holds W T C N r P xs w → I w → p.Proper → (∀ x ∈ xs, Disjoint p.range x.1.range) →
    W p.pageSize.bottomPagingLevel (Entry.mapped 0 p.physAddr flags p.pageSize) →
    mapPages m r w p.virtAddr p.physAddr 1 p.pageSize flags = .ok (.ok (), w') → I w'

/-- **Mapping a region.**  All its pages are mapped if their flags join with the page sizes, and
the call stops otherwise. -/
theorem Holds.mapInEntryGo_stocked {W : ℕ → Word → Prop} {m : Overflow} {T N : ℕ} {C : Set ℕ}
    {r : PhysAddr} {P : Finset (List ℕ)} {w : World BuddyAllocator} {k : BootRegion}
    {pat : Option PatType} {flags : Flags} {fuel : ℕ} {I : World BuddyAllocator → Prop}
    (hG : Grammar W) (hW : AbsentEmpty W) (h : Holds W T C N r P xs w)
    (hstocked : Stocked m T C N r P) (hkept : Kept m W T C N r P I) (hI : I w) (hk : k.Proper)
    (hfuel : k.size < fuel) (hdis : ∀ x ∈ xs, Disjoint k.range x.1.range)
    (hP : ∀ x ∈ k.flagged pat fuel flags, ∀ q ∈ x.1.tables, q ∈ P)
    (hword : ∀ x ∈ k.flagged pat fuel flags, Entry.Joins x.2 x.1.pageSize →
      W (flaggedLeaf x).1 (flaggedLeaf x).2) :
    ((∀ x ∈ k.flagged pat fuel flags, Entry.Joins x.2 x.1.pageSize) →
      ∃ w', mapInEntryGo m r pat fuel k.virtAddr k.physAddr k.size flags w = .ok w' ∧
        Holds W T C N r P ((k.flagged pat fuel flags).reverse ++ xs) w' ∧ I w') ∧
    ((¬ ∀ x ∈ k.flagged pat fuel flags, Entry.Joins x.2 x.1.pageSize) →
      mapInEntryGo m r pat fuel k.virtAddr k.physAddr k.size flags w = .error .unwrapErr) := by
  induction fuel generalizing k xs w flags with
  | zero => omega
  | succ fuel ih =>
      by_cases hzero : k.size = 0
      · rw [BootRegion.flagged_of_empty hzero]
        exact ⟨fun _ => ⟨w, if_pos hzero, h, hI⟩, fun hno => absurd (List.forall_mem_nil _) hno⟩
      · obtain ⟨pageSize, hnext, hfits⟩ := hk.exists_first hzero
        rw [BootRegion.flagged_succ hzero hnext] at hP hword ⊢
        rw [Funderberker.mapInEntryGo, if_neg hzero, hnext]
        dsimp only
        set flags' := pat.elim flags fun patType => flags.setPat patType pageSize
        rw [List.forall_mem_cons] at hP hword
        rw [List.forall_mem_cons]
        have hfirst : ∀ x ∈ xs, Disjoint (BootPage.range ⟨k.virtAddr, k.physAddr, pageSize⟩)
            x.1.range := fun x hx => (hdis x hx).mono_left (BootRegion.first_subset hfits)
        obtain ⟨w₁, hrun, h₁⟩ := h.mapPage hG hW hstocked (hk.first hfits) hfirst hP.1 hword.1
        by_cases hjoins : Entry.Joins flags' pageSize
        · rw [if_pos hjoins] at hrun
          have hI₁ := hkept h hI (hk.first hfits) hfirst (hword.1 hjoins) hrun
          have hphys : k.physAddr + pageSize.size < 2 ^ 64 :=
            ((Nat.add_le_add_left hfits.1 _).trans hk.phys_le).trans_lt (by norm_num)
          have hvirt : k.virtAddr + pageSize.size < 2 ^ 64 :=
            (Nat.add_le_add_left hfits.1 _).trans_lt hk.virt_lt
          have hrest := ih (h₁ hjoins) hI₁ (hk.rest hfits)
            (by have := BootRegion.rest_size_lt hfits; omega)
            (List.forall_mem_cons.mpr ⟨(BootRegion.first_disjoint_rest k pageSize).symm,
              fun x hx => (hdis x hx).mono_left (BootRegion.rest_subset hfits)⟩) hP.2 hword.2
          rw [hrun, ok_bind]
          dsimp only
          rw [Usize.sub_eq hfits.1, ok_bind, Usize.add_eq hphys, ok_bind, Usize.add_eq hvirt,
            ok_bind, List.reverse_cons, List.append_assoc, List.singleton_append]
          exact ⟨fun hall => hrest.1 hall.2, fun hno => hrest.2 fun hall => hno ⟨hjoins, hall⟩⟩
        · rw [hrun, ok_bind, if_neg hjoins]
          exact ⟨fun hall => absurd hall.1 hjoins, fun _ => rfl⟩

/-- Mapping a region, with a page for every table and a node for every pair of pages. -/
theorem Holds.mapInEntryGo {W : ℕ → Word → Prop} {m : Overflow} {T N : ℕ} {C : Set ℕ}
    {r : PhysAddr} {P : Finset (List ℕ)} {w : World BuddyAllocator} {k : BootRegion}
    {pat : Option PatType} {flags : Flags} {fuel : ℕ} (hG : Grammar W) (hW : AbsentEmpty W)
    (h : Holds W T C N r P xs w) (hsupply : Supply T C N r P) (hk : k.Proper)
    (hfuel : k.size < fuel) (hdis : ∀ x ∈ xs, Disjoint k.range x.1.range)
    (hP : ∀ x ∈ k.flagged pat fuel flags, ∀ q ∈ x.1.tables, q ∈ P)
    (hword : ∀ x ∈ k.flagged pat fuel flags, Entry.Joins x.2 x.1.pageSize →
      W (flaggedLeaf x).1 (flaggedLeaf x).2) :
    ((∀ x ∈ k.flagged pat fuel flags, Entry.Joins x.2 x.1.pageSize) →
      ∃ w', mapInEntryGo m r pat fuel k.virtAddr k.physAddr k.size flags w = .ok w' ∧
        Holds W T C N r P ((k.flagged pat fuel flags).reverse ++ xs) w') ∧
    ((¬ ∀ x ∈ k.flagged pat fuel flags, Entry.Joins x.2 x.1.pageSize) →
      mapInEntryGo m r pat fuel k.virtAddr k.physAddr k.size flags w = .error .unwrapErr) :=
  have hgo := h.mapInEntryGo_stocked (I := fun _ => True) hG hW hsupply.stocked
    (fun _ _ _ _ _ _ => trivial) trivial hk hfuel hdis hP hword
  ⟨fun hall => (hgo.1 hall).imp fun _ hx => ⟨hx.1, hx.2.1⟩, hgo.2⟩

end Funderberker

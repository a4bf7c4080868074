import Funderberker.Paging.Calls
import Funderberker.Paging.Remap

/-!
# One basic page

Mapping a basic page where nothing is mapped, and unmapping one that is mapped, change the
content of the tables at one place.  These are the calls that a kernel makes when it keeps book
of its pages: none of them can fail but for want of a frame.

The PMM respects more than the tables: frames that are mapped stay out of its hands as well
(`Beside`).

## Main definitions

* `Beside` — frames that are respected beside the tables.
* `PageTable.pageEntry` — what the tables hold for a page number.

## Main results

* `SizedInv.mapOne`, `SizedInv.unmapOne`.
-/

namespace Funderberker

open Panicking RadixTree PageTable

/-! ## Frames beside the tables -/

section

variable {σ : Type} [PmmAllocator σ] {m : Overflow} {bound : ℕ}
  {respects : Set PhysAddr → σ → Prop}

/-- The frames `F` are respected beside others, and are none of them. -/
def Beside (F : Set PhysAddr) (respects : Set PhysAddr → σ → Prop) (U : Set PhysAddr) (s : σ) :
    Prop :=
  respects (F ∪ U) s ∧ Disjoint F U

theorem PageTable.Supplies.beside (law : Supplies σ m bound respects) (F : Set PhysAddr) :
    Supplies σ m bound (Beside F respects) where
  bound_le := law.bound_le
  allocate {U s s' a} h hrun := by
    obtain ⟨hmod, hlt, hnew, hres⟩ := law.allocate h.1 hrun
    rw [Set.mem_union, not_or] at hnew
    refine ⟨hmod, hlt, hnew.2, ?_, Set.disjoint_insert_right.mpr ⟨hnew.1, h.2⟩⟩
    rw [Set.union_insert]
    exact hres

end

/-! ## Pages by their numbers -/

namespace PageTable

variable {mem : PhysAddr → ℕ → Word} {r : PhysAddr} {k j : ℕ} {v : VirtAddr}

/-- The indices of a page. -/
def indices (k : ℕ) : List ℕ := pathOf k ++ [k % 512]

theorem pagePath_size4kb (v : VirtAddr) : pagePath v .size4kb = indices (pageOf v) := by
  rw [indices, ← path_eq, ← nextLevelIndex_zero]
  rfl

theorem length_indices (k : ℕ) : (indices k).length = 4 := rfl

theorem indices_inj (hk : k < PAGES) (hj : j < PAGES) (h : indices k = indices j) : k = j := by
  obtain ⟨hpath, hlast⟩ := List.append_inj' h rfl
  exact eq_of_pathOf_eq hk hj hpath (List.cons.inj hlast).1

/-- What the tables hold for a page. -/
def pageEntry (mem : PhysAddr → ℕ → Word) (r : PhysAddr) (k : ℕ) : Option (ℕ × Word) :=
  content mem r (indices k)

theorem pageOf_add {off : ℕ} (hk : k < PAGES) (hoff : off < BASIC_PAGE_SIZE) :
    pageOf (k * BASIC_PAGE_SIZE + off) = k := by
  rw [pageOf, BASIC_PAGE_SIZE]
  rw [BASIC_PAGE_SIZE] at hoff
  rw [PAGES] at hk ⊢
  omega

theorem pageOf_mul (hk : k < PAGES) : pageOf (k * BASIC_PAGE_SIZE) = k := by
  have hadd := pageOf_add hk basicPageSize_pos
  rwa [Nat.add_zero] at hadd

/-! ## Mapping and unmapping -/

variable {σ : Type} {w : World σ} {bound : ℕ} {respects : Set PhysAddr → σ → Prop}
  {W : ℕ → Word → Prop} {a : PhysAddr} {flags : Flags} {t : PhysAddr} {e : Word}

/-- Writing a word that points to no table in the entry of a page. -/
theorem SizedInv.writeOne (hI : SizedInv W respects r w)
    (ht : node w.mem r (path v 0 3) = some t) (hold : child (w.mem t (nextLevelIndex v 0)) = none)
    (hnew : child e = none) (hword : W 0 e) :
    SizedInv W respects r (w.write t (nextLevelIndex v 0) e) ∧ ∀ j < PAGES,
      pageEntry (w.write t (nextLevelIndex v 0) e).mem r j =
        if j = pageOf v then held 0 e else pageEntry w.mem r j := by
  have hlen : (path v 0 3).length = 3 := length_path v 0 3
  obtain ⟨hsized, hnode, hcontent⟩ := hI.sized.write hlen.le ht hold hnew (by rw [hlen]; exact hword)
  refine ⟨⟨hsized, tables_congr hnode ▸ hI.respected⟩, fun j hj => ?_⟩
  have hiff : path v 0 3 ++ [nextLevelIndex v 0] <+: indices j ↔ j = pageOf v := by
    rw [show path v 0 3 ++ [nextLevelIndex v 0] = indices (pageOf v) from pagePath_size4kb v]
    constructor
    · exact fun hpre => (indices_inj (pageOf_lt v) hj (hpre.eq_of_length rfl)).symm
    · rintro rfl
      exact List.prefix_rfl
  rw [pageEntry, hcontent _ (length_indices j), hlen]
  simp only [hiff]
  rfl

section

variable [PmmAllocator σ] {m : Overflow}

/-- **Mapping one page** where nothing is mapped: the page gets its word, or there is no frame for
a table. -/
theorem SizedInv.mapOne (hG : Grammar W) (law : Supplies σ m bound respects)
    (hbound : bound ≤ 2 ^ 52) (hI : SizedInv W respects r w)
    (hunused : ∀ level e, level ≠ 0 → W level e → e.getLsbD 0 = false → Entry.Unused e)
    (hword : W 0 (Entry.leaf a flags)) (hv : v % 4096 = 0) (ha : a % 4096 = 0) (hlt : a < 2 ^ 64)
    (hblank : pageEntry w.mem r (pageOf v) = none) :
    Yields (Stops σ m) (fun x => x.1 = .ok () ∧ SizedInv W respects r x.2 ∧ ∀ j < PAGES,
      pageEntry x.2.mem r j =
        if j = pageOf v then some (0, Entry.leaf a flags) else pageEntry w.mem r j)
      (mapPages m r w v a 1 .size4kb flags) := by
  have hgone : content w.mem r (path v 0 3 ++ [nextLevelIndex v 0]) = none := by
    rw [← hblank, pageEntry, ← pagePath_size4kb]
    rfl
  have hway : Passes Entry.Unused w.mem v 0 3 r :=
    hI.sized.passes (p := []) hG hunused (by simp) rfl hgone
  have hgo := getCreateTableRangeGo_yields (m := m) (p := []) (D := path v 0 3)
    (fun w q t i hI hq ht hfree _ => hI.create_spec hG law hbound hq ht hfree) hI (by simp) rfl
    List.prefix_rfl hway
  cases hrun : getCreateTableRangeGo m v 0 3 r w with
  | error x =>
      rw [mapPages_of_aligned hv ha, show PageSize.size4kb.bottomPagingLevel = 0 from rfl, hrun]
      exact hgo.reason hrun
  | ok x =>
      obtain ⟨t, w₁⟩ := x
      obtain ⟨hI₁, hleads⟩ := hgo.post hrun
      dsimp only at hI₁ hleads
      rw [List.nil_append] at hleads
      have ht : node w₁.mem r (path v 0 3) = some t := hleads.node_eq
      have hgone₁ : content w₁.mem r (path v 0 3 ++ [nextLevelIndex v 0]) = none := by
        have hlen : (path v 0 3 ++ [nextLevelIndex v 0]).length = 4 := length_pagePath v .size4kb
        rw [hleads.opened.content_eq _ hlen, hgone]
      have hchild : child (w₁.mem t (nextLevelIndex v 0)) = none := by
        have hlevel := hI₁.sized.words _ t (nextLevelIndex v 0) (length_path v 0 3).le ht
        rw [length_path] at hlevel
        rcases hG.child_cases hlevel with hfree | ⟨-, hzero⟩ | ⟨-, hlast⟩
        · exact child_of_absent (hfree.getLsbD (by omega))
        · exact absurd rfl hzero
        · exact child_of_last hlast
      have habsent : (w₁.mem t (nextLevelIndex v 0)).getLsbD 0 = false := by
        rw [content_of_leaf ht hchild, held] at hgone₁
        split at hgone₁
        · cases hgone₁
        · next h => exact Bool.eq_false_iff.mpr h
      have hjoins : Entry.Joins flags .size4kb := Or.inl rfl
      have hleaf : Entry.mapped (w₁.mem t (nextLevelIndex v 0)) a flags .size4kb =
          Entry.leaf a flags := by
        have heq := Entry.map_eq habsent (s := .size4kb) ha flags
        rw [Entry.map_size4kb habsent ha] at heq
        exact (Prod.mk.inj (Except.ok.inj heq)).2.symm
      have hpres : (Entry.leaf a flags).getLsbD 0 = true := by
        rw [← hleaf]
        exact Entry.present_mapped hjoins
      have hlast : (Entry.leaf a flags).getLsbD 10 = true := by
        rw [← hleaf]
        exact Entry.last_mapped hjoins
      rw [mapPages_one hrun hv ha hlt, show PageSize.size4kb.bottomPagingLevel = 0 from rfl,
        habsent, if_neg Bool.false_ne_true, if_pos hjoins, hleaf]
      obtain ⟨hI', hentry⟩ := hI₁.writeOne ht hchild (child_of_last hlast) hword
      refine ⟨rfl, hI', fun j hj => ?_⟩
      rw [hentry j hj, held_of_present hpres, pageEntry, pageEntry,
        hleads.opened.content_eq _ (length_indices j)]

/-- **Unmapping one page** that is mapped. -/
theorem SizedInv.unmapOne (hG : Grammar W) (hI : SizedInv W respects r w) (hv : v % 4096 = 0)
    (hentry : pageEntry w.mem r (pageOf v) = some (0, e)) (hkeep : e.getLsbD 9 = false)
    (hlast : e.getLsbD 10 = true) (hword : W 0 (Entry.released e)) :
    ∃ w', unmapPages m r w v 1 .size4kb = .ok (.ok (), w') ∧ w'.pmm = w.pmm ∧
      SizedInv W respects r w' ∧ ∀ j < PAGES, pageEntry w'.mem r j =
        if j = pageOf v then none else pageEntry w.mem r j := by
  rw [pageEntry, ← pagePath_size4kb] at hentry
  obtain ⟨t, -, ht, rfl, hpres⟩ := hI.sized.exists_page hG hentry
  have hway : Passes (·.getLsbD 0 = false) w.mem v 0 3 r := passes_of_node (q := []) rfl ht
  have hi := nextLevelIndex_lt v 0
  have habsent : (Entry.released (w.mem t (nextLevelIndex v 0))).getLsbD 0 = false := by
    rw [Entry.getLsbD_released, if_pos rfl]
  obtain ⟨hI', hnew⟩ := hI.writeOne ht (child_of_last hlast) (child_of_absent habsent) hword
  have hbase : v % PageSize.size4kb.size = 0 := hv
  refine ⟨w.write t (nextLevelIndex v 0) (Entry.released (w.mem t (nextLevelIndex v 0))), ?_, rfl,
    hI', fun j hj => ?_⟩
  · rw [unmapPages, if_neg (not_not.mpr hbase), getTableRange, sanityAssert_eq hbase, ok_bind,
      MAX_BOTTOM_PAGING_LEVEL, show PageSize.size4kb.bottomPagingLevel = 0 from rfl,
      getTableRangeGo_passes (p := []) rfl hway, List.nil_append, ht, ok_bind]
    dsimp only
    rw [Usize.add_eq (by omega), ok_bind, ENTRIES_PER_TABLE, if_neg (by omega),
      Nat.min_eq_left (by omega), unmapPagesGo, Entry.release_of_present hpres hkeep, ok_bind]
    rfl
  · rw [hnew j hj, held_of_absent habsent]

end

end PageTable

end Funderberker

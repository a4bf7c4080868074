import Funderberker.Paging.Exclusive
import Funderberker.Paging.Writes

/-!
# Allocations that fail

`allocate_pages` takes a frame for each page and maps it, and neither a frame that is missing nor
a page that cannot be mapped is handled: the first is unwrapped, and after the second the frame
is forgotten.  So the call never returns an error for want of memory, and never leaves the PMM as
it was when it returns an error.

## Main definitions

* `Extends` — what calls do to tables and to the PMM.
* `ReachesTurn` — a turn of the loop that is reached.
* `PagingManager.RunsOut`, `PagingManager.Refused` — the two ways to fail.
* `PagingManager.FailsCleanly` — what callers rely on.

## Main results

* `allocatePages_clean_iff`
* `allocatePages_unclean` — a PMM without pages.
-/

namespace Funderberker

open Panicking PageTable

/-! ## Frames that become tables -/

namespace PageTable

variable {m : Overflow} {T : ℕ} {w w' w'' : World BuddyAllocator} {t a r : PhysAddr} {i : ℕ}
  {e : Word} {U : Set PhysAddr} {s : PageSize} {flags : Flags}

theorem child_linked {b : PhysAddr} (ha : a % 4096 = 0) (hlt : a < 2 ^ 64)
    (h : child (linked e a) = some b) : b = a := by
  rw [child] at h
  split at h
  · rw [← Option.some.inj h, linked, BitVec.or_comm]
    refine Entry.frame_ofNat_or ha hlt fun j hj => ?_
    rw [BitVec.getLsbD_and, getLsbD_flagMask, decide_eq_false (by omega), Bool.and_false]
  · cases h

/-- The PMM hands out frames only, and the words that lead to tables are as they were or lead to
such frames. -/
def Extends (T : ℕ) (w w' : World BuddyAllocator) : Prop :=
  ∀ U, BuddyAllocator.Respects T U w.pmm → ∃ V, Disjoint U V ∧
    BuddyAllocator.Respects T (U ∪ V) w'.pmm ∧ w'.pmm.freePages ⊆ w.pmm.freePages ∧
    ∀ u i b, child (w'.mem u i) = some b → b ∈ V ∨ u ∉ V ∧ child (w.mem u i) = some b

theorem Extends.refl (w : World BuddyAllocator) : Extends T w w := by
  intro U hU
  refine ⟨∅, Set.disjoint_empty U, ?_, subset_rfl, fun u i b h => Or.inr ⟨Set.notMem_empty u, h⟩⟩
  rw [Set.union_empty]
  exact hU

theorem Extends.trans (h : Extends T w w') (h' : Extends T w' w'') : Extends T w w'' := by
  intro U hU
  obtain ⟨V, hdis, hV, hfree, hchild⟩ := h U hU
  obtain ⟨V', hdis', hV', hfree', hchild'⟩ := h' (U ∪ V) hV
  rw [Set.disjoint_union_left] at hdis'
  refine ⟨V ∪ V', Set.disjoint_union_right.mpr ⟨hdis, hdis'.1⟩, ?_, hfree'.trans hfree, ?_⟩
  · rw [← Set.union_assoc]
    exact hV'
  · intro u i b hb
    rcases hchild' u i b hb with hnew | ⟨hu, hb⟩
    · exact Or.inl (Or.inr hnew)
    · rcases hchild u i b hb with hnew | ⟨hu', hb⟩
      · exact Or.inl (Or.inl hnew)
      · exact Or.inr ⟨fun h => h.elim hu' hu, hb⟩

theorem extends_write (habsent : (w.mem t i).getLsbD 0 = false) (ha : a % s.size = 0) :
    Extends T w (w.write t i (Entry.mapped (w.mem t i) a flags s)) := by
  intro U hU
  refine ⟨∅, Set.disjoint_empty U, ?_, subset_rfl, fun u j b h => Or.inr ⟨Set.notMem_empty u, ?_⟩⟩
  · rw [Set.union_empty]
    exact hU
  · by_cases hslot : u = t ∧ j = i
    · obtain ⟨rfl, rfl⟩ := hslot
      rw [show (w.write u j _).mem u j = _ from if_pos ⟨rfl, rfl⟩] at h
      by_cases hjoins : Entry.Joins flags s
      · rw [child_of_last (Entry.last_mapped hjoins)] at h
        cases h
      · have hstays := Entry.getLsbD_mapped_of_not (e := w.mem u j) hjoins ha (show 0 < 12 by omega)
        rw [child_of_absent (hstays.trans habsent)] at h
        cases h
    · rwa [show (w.write t i _).mem u j = _ from if_neg hslot] at h

theorem extends_create (h : createNextLevel m t i w = .ok w') : Extends T w w' := by
  intro U hU
  obtain ⟨a, pmm, halloc, rfl, hcreation⟩ := createNextLevel_inv h
  obtain ⟨-, hlt, ha, hres⟩ := hU.allocate halloc
  have hword : a < 2 ^ 64 := hlt.trans_le hU.inv.bound_le_word
  refine ⟨{a}, Set.disjoint_singleton_right.mpr ha, ?_, ?_, fun u j b hb => ?_⟩
  · rw [Set.union_singleton]
    exact hres
  · rw [(BuddyAllocator.allocate_page hU.inv halloc).2.2.free]
    exact Set.sdiff_subset
  · by_cases hua : u = a
    · subst hua
      by_cases hslot : u = t ∧ j = i
      · obtain ⟨rfl, rfl⟩ := hslot
        have habsent : (w'.mem u j).getLsbD 0 = false := by
          rw [hcreation.entry_self rfl]
          exact Entry.getLsbD_ofNat_aligned hcreation.aligned (by omega)
        rw [child_of_absent habsent] at hb
        cases hb
      · rw [hcreation.cleared j fun hut hj => hslot ⟨hut, hj⟩, child_zero] at hb
        cases hb
    · by_cases hslot : u = t ∧ j = i
      · obtain ⟨rfl, rfl⟩ := hslot
        rw [hcreation.entry hua] at hb
        exact Or.inl (child_linked hcreation.aligned hword hb)
      · rw [hcreation.other u j hua fun hut hj => hslot ⟨hut, hj⟩] at hb
        exact Or.inr ⟨hua, hb⟩

/-- Mapping pages, whatever is met on the way. -/
theorem mapPages_extends {v : VirtAddr} {n : ℕ} {res : Except PagingError Unit}
    (h : mapPages m r w v a n s flags = .ok (res, w')) : Extends T w w' :=
  mapPages_rel .refl (fun _ _ _ => .trans) (fun _ _ _ _ _ => extends_create)
    (fun _ _ _ _ => extends_write) h

/-- Tables that are there afterwards were there before, or are in new frames. -/
theorem tables_subset_union {mem mem' : PhysAddr → ℕ → Word} {V : Set PhysAddr}
    (h : ∀ u i b, child (mem' u i) = some b → b ∈ V ∨ u ∉ V ∧ child (mem u i) = some b) :
    tables mem' r ⊆ tables mem r ∪ V := by
  have hnode : ∀ q t, node mem' r q = some t → t ∈ V ∨ node mem r q = some t := by
    intro q
    induction q using List.reverseRecOn with
    | nil => exact fun t ht => Or.inr ht
    | append_singleton q i ih =>
        intro t ht
        rw [node_concat_eq] at ht ⊢
        cases hu : node mem' r q with
        | none =>
            rw [slot_of_none hu, child_zero] at ht
            cases ht
        | some u =>
            rw [slot_of_some hu] at ht
            rcases h u i t ht with hnew | ⟨hout, hold⟩
            · exact Or.inl hnew
            · rw [slot_of_some ((ih u hu).resolve_left hout)]
              exact Or.inr hold
  rintro t ⟨q, hq, ht⟩
  exact (hnode q t ht).elim Or.inr fun hold => Or.inl ⟨q, hq, hold⟩

/-! ## Frames that are handed out -/

theorem toDefaultPageCount_eq (s : PageSize) :
    s.toDefaultPageCount = 2 ^ (9 * s.bottomPagingLevel) := by
  cases s <;> rfl

/-- A frame for a page of any size. -/
theorem allocate_frame {pmm pmm' : BuddyAllocator} (hU : BuddyAllocator.Respects T U pmm)
    (h : pmm.allocate m 1 s.toDefaultPageCount = .ok (.ok a, pmm')) :
    a % s.size = 0 ∧ a < 2 ^ 64 ∧ a / BASIC_PAGE_SIZE ∈ pmm.freePages ∧ a ∉ U ∧
      BuddyAllocator.Respects T (insert a U) pmm' ∧ pmm'.freePages ⊆ pmm.freePages := by
  have hle := bottomPagingLevel_le s
  rw [toDefaultPageCount_eq] at h
  cases (BuddyAllocator.allocate_spec (f := 0) hU.inv (by omega)).post h with
  | some c _ _ hfree hfrees =>
      set e := 9 * s.bottomPagingLevel with he
      have hpage : blockAddr e c / BASIC_PAGE_SIZE = c * 2 ^ e := by
        rw [blockAddr, Nat.mul_div_cancel _ basicPageSize_pos]
      have hmem : blockAddr e c / BASIC_PAGE_SIZE ∈ DyadicBlock.points e c := by
        rw [hpage]
        exact DyadicBlock.first_mem_points e c
      have hmod : blockAddr e c % s.size = 0 := by
        rw [blockAddr, Nat.mul_assoc, Nat.mul_comm (2 ^ e), BuddyAllocator.pageSize_mul_two_pow,
          PageSize.size_eq, levelShift]
        exact Nat.mul_mod_left c _
      have hsub : pmm'.freePages ⊆ pmm.freePages := by
        rw [hfrees.free]
        exact Set.sdiff_subset
      have hlt : blockAddr e c < 2 ^ 64 := by
        have hT := hU.inv.bounded _ (hfree hmem)
        exact ((Nat.div_lt_iff_lt_mul basicPageSize_pos).mp hT).trans_le hU.inv.bound_le_word
      refine ⟨hmod, hlt, hfree hmem, fun haU => hU.notFree _ haU (hfree hmem), ⟨hfrees.inv, ?_, ?_⟩,
        hsub⟩
      · exact Set.forall_mem_insert.mpr ⟨mod_basic hmod, hU.aligned⟩
      · refine Set.forall_mem_insert.mpr ⟨?_, fun b hb hin => hU.notFree b hb (hsub hin)⟩
        rw [hfrees.free]
        exact fun hin => hin.2 hmem

end PageTable

/-! ## Turns of the loop -/

section

variable {σ : Type} [PmmAllocator σ]

/-- The PMM does not hand out the pages. -/
def Unserved (m : Overflow) (pmm : σ) (count : ℕ) : Prop :=
  ∀ a pmm', PmmAllocator.allocate m pmm 1 count ≠ .ok (.ok a, pmm')

/-- On the way down, a table is missing and the PMM does not hand out a frame for it. -/
def LacksTable (m : Overflow) (addr : VirtAddr) (bottom : ℕ) : ℕ → PhysAddr → World σ → Prop
  | 0, _, _ => False
  | k + 1, t, w =>
      let i := nextLevelIndex addr (bottom + (k + 1))
      if (w.mem t i).getLsbD 0 then LacksTable m addr bottom k (Entry.frame (w.mem t i)) w
      else Unserved m w.pmm 1 ∨ ∃ w', createNextLevel m t i w = .ok w' ∧
        LacksTable m addr bottom k (Entry.frame (w'.mem t i)) w'

/-- The address of page `i`. -/
def pageAddr (m : Overflow) (baseVirtAddr : VirtAddr) (pageSize : PageSize) (i : ℕ) :
    Except Panic VirtAddr := do
  let offset ← Usize.mul m i pageSize.size
  Usize.add m baseVirtAddr offset

/-- The PMM does not hand out what the page needs: its frame, or the frame of a table. -/
def LacksFrame (m : Overflow) (pml : PhysAddr) (baseVirtAddr : VirtAddr) (pageSize : PageSize)
    (i : ℕ) (w : World σ) : Prop :=
  ∃ v, pageAddr m baseVirtAddr pageSize i = .ok v ∧
    (Unserved m w.pmm pageSize.toDefaultPageCount ∨
      ∃ a pmm, PmmAllocator.allocate m w.pmm 1 pageSize.toDefaultPageCount = .ok (.ok a, pmm) ∧
        (v % pageSize.size = 0 ∧ a % pageSize.size = 0) ∧
        LacksTable m v pageSize.bottomPagingLevel (3 - pageSize.bottomPagingLevel) pml
          { w with pmm := pmm })

/-- The page cannot be mapped: its address is not aligned, or its entry is present, or the flags
do not join with the page size. -/
def RefusesPage (m : Overflow) (pml : PhysAddr) (baseVirtAddr : VirtAddr) (flags : Flags)
    (pageSize : PageSize) (i : ℕ) (w : World σ) : Prop :=
  ∃ v a pmm, pageAddr m baseVirtAddr pageSize i = .ok v ∧
    PmmAllocator.allocate m w.pmm 1 pageSize.toDefaultPageCount = .ok (.ok a, pmm) ∧
    (v % pageSize.size ≠ 0 ∨ ∃ t w', getCreateTableRange m pml { w with pmm := pmm } v pageSize =
        .ok (t, w') ∧
      ((w'.mem t (nextLevelIndex v pageSize.bottomPagingLevel)).getLsbD 0 = true ∨
        ¬ Entry.Joins flags pageSize))

/-- With `k` pages left from page `i` on, the loop comes to a page at which `B` holds. -/
inductive ReachesTurn (m : Overflow) (pml : PhysAddr) (baseVirtAddr : VirtAddr) (flags : Flags)
    (pageSize : PageSize) (B : ℕ → World σ → Prop) : ℕ → ℕ → World σ → Prop
  | here {k i : ℕ} {w : World σ} (h : B i w) :
      ReachesTurn m pml baseVirtAddr flags pageSize B (k + 1) i w
  | next {k i : ℕ} {w w' : World σ} {v : VirtAddr} {a : PhysAddr} {pmm : σ}
      (hv : pageAddr m baseVirtAddr pageSize i = .ok v)
      (ha : PmmAllocator.allocate m w.pmm 1 pageSize.toDefaultPageCount = .ok (.ok a, pmm))
      (hmap : mapPages m pml { w with pmm := pmm } v a 1 pageSize flags = .ok (.ok (), w'))
      (h : ReachesTurn m pml baseVirtAddr flags pageSize B k (i + 1) w') :
      ReachesTurn m pml baseVirtAddr flags pageSize B (k + 1) i w

variable {m : Overflow} {pml t : PhysAddr} {base v : VirtAddr} {bottom k i : ℕ} {w : World σ}

/-- Without a frame for a table, the way down ends in a panic. -/
theorem LacksTable.stops (h : LacksTable m v bottom k t w) :
    ∃ x, getCreateTableRangeGo m v bottom k t w = .error x := by
  induction k generalizing t w with
  | zero => exact h.elim
  | succ k ih =>
      rw [getCreateTableRangeGo, Flags.getPresent_getFlags]
      rw [LacksTable] at h
      split at h
      · next hpres =>
          rw [if_neg (not_not.mpr hpres), ok_bind, Entry.nextLevelTable_eq, ok_bind]
          exact ih h
      · next habsent =>
          rw [if_pos habsent]
          rcases h with hunserved | ⟨w', hcreate, h⟩
          · cases hrun : createNextLevel m t (nextLevelIndex v (bottom + (k + 1))) w with
            | error x => exact ⟨x, rfl⟩
            | ok w' =>
                obtain ⟨a, pmm, halloc, -⟩ := createNextLevel_inv hrun
                exact absurd halloc (hunserved a pmm)
          · rw [hcreate, ok_bind, Entry.nextLevelTable_eq, ok_bind]
            exact ih h

/-- When one page is refused. -/
theorem mapPages_refused_iff {a : PhysAddr} {s : PageSize} {flags : Flags} (ha : a % s.size = 0)
    (hlt : a < 2 ^ 64) :
    (∃ err w', mapPages m pml w v a 1 s flags = .ok (.error err, w')) ↔
      v % s.size ≠ 0 ∨ ∃ t w', getCreateTableRange m pml w v s = .ok (t, w') ∧
        ((w'.mem t (nextLevelIndex v s.bottomPagingLevel)).getLsbD 0 = true ∨
          ¬ Entry.Joins flags s) := by
  by_cases hv : v % s.size = 0
  · rw [or_iff_right (not_not.mpr hv), getCreateTableRange_of_aligned hv]
    cases hgo : getCreateTableRangeGo m v s.bottomPagingLevel (3 - s.bottomPagingLevel) pml w with
    | error x =>
        rw [mapPages_of_aligned hv ha, hgo, error_bind]
        constructor
        · rintro ⟨err, w', h⟩
          cases h
        · rintro ⟨t, w', h, -⟩
          cases h
    | ok x =>
        obtain ⟨t, w'⟩ := x
        rw [mapPages_one hgo hv ha hlt]
        constructor
        · rintro ⟨err, w'', h⟩
          refine ⟨t, w', rfl, ?_⟩
          split at h
          · next hpres => exact Or.inl hpres
          · split at h
            · cases h
            · next hno => exact Or.inr hno
        · rintro ⟨t', w'', heq, hrefused⟩
          cases heq
          split
          · exact ⟨_, _, rfl⟩
          · next habsent =>
              rw [if_neg (hrefused.resolve_left habsent)]
              exact ⟨_, _, rfl⟩
  · refine ⟨fun _ => Or.inl hv, fun _ => ?_⟩
    rw [mapPages, if_pos hv]
    exact ⟨_, _, rfl⟩

section

variable {flags : Flags} {s : PageSize} {a : PhysAddr} {pmm : σ}

theorem allocatePagesGo_succ (hv : pageAddr m base s i = .ok v) :
    PagingManager.allocatePagesGo m pml base flags s (k + 1) i w =
      (PmmAllocator.allocate m w.pmm 1 s.toDefaultPageCount >>= fun x =>
        match x with
        | (.error _, _) => .error .unwrapErr
        | (.ok physAddr, pmm) =>
            mapPages m pml { w with pmm := pmm } v physAddr 1 s flags >>= fun y =>
              match y.1 with
              | .error err => .ok (.error err, y.2)
              | .ok () => PagingManager.allocatePagesGo m pml base flags s k (i + 1) y.2) := by
  obtain ⟨offset, hmul, hadd⟩ := bind_eq_ok.mp hv
  rw [PagingManager.allocatePagesGo, hmul, ok_bind, hadd]
  rfl

/-- A turn whose frame is handed out. -/
theorem allocatePagesGo_served (hv : pageAddr m base s i = .ok v)
    (ha : PmmAllocator.allocate m w.pmm 1 s.toDefaultPageCount = .ok (.ok a, pmm)) :
    PagingManager.allocatePagesGo m pml base flags s (k + 1) i w =
      (mapPages m pml { w with pmm := pmm } v a 1 s flags >>= fun y =>
        match y.1 with
        | .error err => .ok (.error err, y.2)
        | .ok () => PagingManager.allocatePagesGo m pml base flags s k (i + 1) y.2) := by
  rw [allocatePagesGo_succ hv, ha, ok_bind]

/-- Without a frame, the loop ends in a panic. -/
theorem ReachesTurn.stops
    (h : ReachesTurn m pml base flags s (LacksFrame m pml base s) k i w) :
    ∃ x, PagingManager.allocatePagesGo m pml base flags s k i w = .error x := by
  induction h with
  | @here k i w h =>
      obtain ⟨v, hv, hunserved | ⟨a, pmm, ha, ⟨hvirt, hphys⟩, hlacks⟩⟩ := h
      · rw [allocatePagesGo_succ hv]
        cases ha : PmmAllocator.allocate m w.pmm 1 s.toDefaultPageCount with
        | error x => exact ⟨x, rfl⟩
        | ok x =>
            obtain ⟨res, pmm⟩ := x
            cases res with
            | error _ => exact ⟨_, rfl⟩
            | ok a => exact absurd ha (hunserved a pmm)
      · obtain ⟨x, hstop⟩ := hlacks.stops
        rw [allocatePagesGo_served hv ha, mapPages_of_aligned hvirt hphys, hstop]
        exact ⟨x, rfl⟩
  | next hv ha hmap _ ih =>
      rw [allocatePagesGo_served hv ha, hmap, ok_bind]
      exact ih

end

end

/-! ## The frame that is forgotten -/

section

variable {m : Overflow} {T k i : ℕ} {pml : PhysAddr} {base : VirtAddr} {flags : Flags}
  {s : PageSize} {U : Set PhysAddr} {w w' : World BuddyAllocator}

theorem BuddyAllocator.Respects.mono {U' : Set PhysAddr} {pmm : BuddyAllocator}
    (h : BuddyAllocator.Respects T U pmm) (hsub : U' ⊆ U) : BuddyAllocator.Respects T U' pmm :=
  ⟨h.inv, fun a ha => h.aligned a (hsub ha), fun a ha => h.notFree a (hsub ha)⟩

/-- Errors come from pages that are refused. -/
theorem reachesTurn_of_error {err : PagingError} (hU : BuddyAllocator.Respects T U w.pmm)
    (h : PagingManager.allocatePagesGo m pml base flags s k i w = .ok (.error err, w')) :
    ReachesTurn m pml base flags s (RefusesPage m pml base flags s) k i w := by
  induction k generalizing i w U with
  | zero => cases h
  | succ k ih =>
      cases hv : pageAddr m base s i with
      | error x =>
          rw [PagingManager.allocatePagesGo, ← bind_assoc] at h
          change pageAddr m base s i >>= _ = _ at h
          rw [hv] at h
          cases h
      | ok v =>
          rw [allocatePagesGo_succ hv] at h
          obtain ⟨⟨res, pmm⟩, ha, h⟩ := bind_eq_ok.mp h
          cases res with
          | error _ => cases h
          | ok a =>
              obtain ⟨⟨res, w₁⟩, hmap, h⟩ := bind_eq_ok.mp h
              obtain ⟨hmod, hlt, -, -, hres, -⟩ := allocate_frame hU ha
              cases res with
              | error _ =>
                  exact .here ⟨v, a, pmm, hv, ha, (mapPages_refused_iff hmod hlt).mp ⟨_, _, hmap⟩⟩
              | ok _ =>
                  obtain ⟨V, -, hV, -⟩ := mapPages_extends hmap _ hres
                  exact .next hv ha hmap (ih hV h)

/-- **A frame is forgotten.**  When a page is refused, its frame is no longer free and has not
become a table. -/
theorem ReachesTurn.forgets (hU : BuddyAllocator.Respects T (tables w.mem pml) w.pmm)
    (h : ReachesTurn m pml base flags s (RefusesPage m pml base flags s) k i w) :
    ∃ err w', PagingManager.allocatePagesGo m pml base flags s k i w = .ok (.error err, w') ∧
      ∃ p ∈ w.pmm.freePages, p ∉ w'.pmm.freePages ∧ p * BASIC_PAGE_SIZE ∉ tables w'.mem pml := by
  induction h with
  | here h =>
      obtain ⟨v, a, pmm, hv, ha, hrefused⟩ := h
      obtain ⟨hmod, hlt, hfree, hnew, hres, -⟩ := allocate_frame hU ha
      obtain ⟨err, w', hmap⟩ := (mapPages_refused_iff hmod hlt).mpr hrefused
      obtain ⟨V, hdis, hV, -, hchild⟩ := mapPages_extends hmap _ hres
      rw [Set.disjoint_insert_left] at hdis
      refine ⟨err, w', ?_, _, hfree, ?_, ?_⟩
      · rw [allocatePagesGo_served hv ha, hmap, ok_bind]
      · exact hV.notFree a (Or.inl (Set.mem_insert a _))
      · rw [BuddyAllocator.page_mul (mod_basic hmod)]
        intro htable
        exact (tables_subset_union hchild htable).elim hnew hdis.1
  | next hv ha hmap _ ih =>
      obtain ⟨-, -, -, -, hres, hsub⟩ := allocate_frame hU ha
      obtain ⟨V, -, hV, hfree, hchild⟩ :=
        mapPages_extends hmap _ (hres.mono (Set.subset_insert _ _))
      obtain ⟨err, w'', hrun, p, hp, hrest⟩ := ih (hV.mono (tables_subset_union hchild))
      refine ⟨err, w'', ?_, p, hsub (hfree hp), hrest⟩
      rw [allocatePagesGo_served hv ha, hmap, ok_bind]
      exact hrun

end

/-! ## Calls that fail -/

namespace PagingManager

/-- The loop of the call comes to a page at which `B` holds. -/
def Comes {σ : Type} [PmmAllocator σ] (m : Overflow) (s : PagingManager σ) (pageCount : ℕ)
    (flags : Flags) (pageSize : PageSize) (B : VirtAddr → ℕ → World σ → Prop) : Prop :=
  ∃ base vaa, s.vaa.handout m pageCount pageSize.pageAlignment = .ok (base, vaa) ∧
    ReachesTurn m s.pml base flags pageSize (B base) pageCount 0 s.world

/-- The PMM does not hand out all frames that the call needs. -/
def RunsOut {σ : Type} [PmmAllocator σ] (m : Overflow) (s : PagingManager σ) (pageCount : ℕ)
    (flags : Flags) (pageSize : PageSize) : Prop :=
  s.Comes m pageCount flags pageSize fun base => LacksFrame m s.pml base pageSize

/-- One of the pages is refused. -/
def Refused {σ : Type} [PmmAllocator σ] (m : Overflow) (s : PagingManager σ) (pageCount : ℕ)
    (flags : Flags) (pageSize : PageSize) : Prop :=
  s.Comes m pageCount flags pageSize fun base => RefusesPage m s.pml base flags pageSize

/-- No page is translated that was not, and the PMM has its pages but for those that are tables
now. -/
structure Undone (s s' : PagingManager BuddyAllocator) : Prop where
  untranslated : ∀ v, pageWalk s.world.mem s.pml v = none → pageWalk s'.world.mem s'.pml v = none
  free_subset : s'.world.pmm.freePages ⊆ s.world.pmm.freePages
  taken : ∀ p ∈ s.world.pmm.freePages, p ∉ s'.world.pmm.freePages →
    p * BASIC_PAGE_SIZE ∈ tables s'.world.mem s'.pml

/-- The call returns an error when the PMM runs out, and every error leaves things as they
were. -/
structure FailsCleanly (m : Overflow) (s : PagingManager BuddyAllocator) (pageCount : ℕ)
    (flags : Flags) (pageSize : PageSize) : Prop where
  shortage : s.RunsOut m pageCount flags pageSize →
    ∃ err s', s.allocatePages m pageCount flags pageSize = .ok (.error err, s')
  clean : ∀ err s', s.allocatePages m pageCount flags pageSize = .ok (.error err, s') →
    s.Undone s'

variable {m : Overflow} {T n : ℕ} {s : PagingManager BuddyAllocator} {flags : Flags}
  {pageSize : PageSize}

theorem RunsOut.stops (h : s.RunsOut m n flags pageSize) :
    ∃ x, s.allocatePages m n flags pageSize = .error x := by
  obtain ⟨base, vaa, hhandout, h⟩ := h
  obtain ⟨x, hstop⟩ := h.stops
  rw [allocatePages, hhandout, ok_bind]
  dsimp only
  rw [hstop]
  exact ⟨x, rfl⟩

theorem refused_of_error {err : PagingError} {s' : PagingManager BuddyAllocator}
    (hs : BuddyAllocator.Respects T (tables s.world.mem s.pml) s.world.pmm)
    (h : s.allocatePages m n flags pageSize = .ok (.error err, s')) :
    s.Refused m n flags pageSize := by
  rw [allocatePages] at h
  obtain ⟨⟨base, vaa⟩, hhandout, h⟩ := bind_eq_ok.mp h
  obtain ⟨⟨res, w⟩, hgo, h⟩ := bind_eq_ok.mp h
  cases res with
  | error err => exact ⟨base, vaa, hhandout, reachesTurn_of_error hs hgo⟩
  | ok _ =>
      dsimp only at h
      split at h
      · cases h
      · cases h

theorem Refused.not_undone (h : s.Refused m n flags pageSize)
    (hs : BuddyAllocator.Respects T (tables s.world.mem s.pml) s.world.pmm) :
    ∃ err s', s.allocatePages m n flags pageSize = .ok (.error err, s') ∧ ¬ s.Undone s' := by
  obtain ⟨base, vaa, hhandout, h⟩ := h
  obtain ⟨err, w', hrun, p, hp, hgone, htable⟩ := h.forgets hs
  refine ⟨err, { s with world := w', vaa := vaa }, ?_, fun hundone => htable ?_⟩
  · rw [allocatePages, hhandout, ok_bind]
    dsimp only
    rw [hrun]
    rfl
  · exact hundone.taken p hp hgone

end PagingManager

/-- **When `allocate_pages` fails cleanly.**  In every state in which the PMM has none of the
tables: exactly when the PMM hands out all frames that the call needs, and no page is refused. -/
theorem allocatePages_clean_iff {m : Overflow} {T n : ℕ} {s : PagingManager BuddyAllocator}
    {flags : Flags} {pageSize : PageSize}
    (hs : BuddyAllocator.Respects T (tables s.world.mem s.pml) s.world.pmm) :
    s.FailsCleanly m n flags pageSize ↔
      ¬ s.RunsOut m n flags pageSize ∧ ¬ s.Refused m n flags pageSize := by
  constructor
  · intro h
    refine ⟨fun hout => ?_, fun hrefused => ?_⟩
    · obtain ⟨x, hstop⟩ := hout.stops
      obtain ⟨err, s', hrun⟩ := h.shortage hout
      cases hstop.symm.trans hrun
    · obtain ⟨err, s', hrun, hno⟩ := hrefused.not_undone hs
      exact hno (h.clean err s' hrun)
  · rintro ⟨hout, hrefused⟩
    exact ⟨fun h => absurd h hout, fun err s' hrun =>
      absurd (PagingManager.refused_of_error hs hrun) hrefused⟩

/-- Two pages, for which there are frames. -/
theorem small_allocatePages_clean : smallManager.FailsCleanly .checked 2 smallFlags .size4kb := by
  have hrun := eq_ok_stateAfter smallManager (a := .ok 0x3000)
    (x := smallManager.allocatePages .checked 2 smallFlags .size4kb) (by decide)
  have hs : BuddyAllocator.Respects 31 (tables smallManager.world.mem smallManager.pml)
      smallManager.world.pmm := by
    rw [tables_of_zero fun _ => rfl]
    exact smallSupply_respects
  refine (allocatePages_clean_iff hs).mpr ⟨fun hout => ?_, fun hrefused => ?_⟩
  · obtain ⟨x, hstop⟩ := hout.stops
    cases hstop.symm.trans hrun
  · obtain ⟨err, s', herr, -⟩ := hrefused.not_undone hs
    cases herr.symm.trans hrun

/-- A manager whose PMM has no page. -/
def emptyManager : PagingManager BuddyAllocator :=
  { smallManager with world := ⟨fun _ _ => 0, ⟨[[], [], [], [], []], []⟩⟩ }

/-- **A PMM without pages stops the kernel.**  So does one with eight, which are too few for six
pages and three tables. -/
theorem allocatePages_unclean :
    emptyManager.RunsOut .checked 1 smallFlags .size4kb ∧
    (∃ x, emptyManager.allocatePages .checked 1 smallFlags .size4kb = .error x) ∧
    ¬ emptyManager.FailsCleanly .checked 1 smallFlags .size4kb ∧
    ∃ x, smallManager.allocatePages .checked 6 smallFlags .size4kb = .error x := by
  have hnone : emptyManager.world.pmm.allocate .checked 1 1 =
      .ok (.error .noAvailableBlock, emptyManager.world.pmm) := by
    decide
  have hout : emptyManager.RunsOut .checked 1 smallFlags .size4kb := by
    refine ⟨0x3000, ⟨⟨4, 100⟩⟩, by decide, .here ⟨0x3000, by decide, Or.inl fun a pmm ha => ?_⟩⟩
    cases hnone.symm.trans ha
  have hstop := hout.stops
  have hsix : (smallManager.allocatePages .checked 6 smallFlags .size4kb).toOption.isNone := by
    decide
  refine ⟨hout, hstop, fun h => ?_, ?_⟩
  · obtain ⟨x, hstop⟩ := hstop
    obtain ⟨err, s', hrun⟩ := h.shortage hout
    cases hstop.symm.trans hrun
  · cases hrun : smallManager.allocatePages .checked 6 smallFlags .size4kb with
    | error x => exact ⟨x, rfl⟩
    | ok x =>
        rw [hrun] at hsix
        cases hsix

end Funderberker

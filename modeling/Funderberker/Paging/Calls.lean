import Funderberker.Paging.Sweep

/-!
# Calls on trees of pages of several sizes

What a call of `map_pages` or `unmap_pages` does to the content of the tables, and what holds
after any number of calls.

A call is clear when it meets no page on its way down.  Then, whatever its arguments, there is
a number of pages up to which it changes the content, one page after the other, and it changes
nothing else; and it returns an error when it stops before the last page or does not begin.

## Main definitions

* `TableCall` — a call with its arguments.
* `TableCall.Clear` — a call that goes through no page.
* `TableCall.Outcome` — what a call does to the content, and what it returns.
* `CallsReach` — the states after calls that meet a condition.

## Main results

* `TableCall.run_spec` — one call.
* `CallsReach.sizedInv` — every run.
-/

namespace Funderberker

open Panicking PageTable

/-- A call that changes the tables. -/
inductive TableCall
  | map (baseAddr : VirtAddr) (physAddr : PhysAddr) (pageCount : ℕ) (pageSize : PageSize)
      (flags : Flags)
  | unmap (baseAddr : VirtAddr) (pageCount : ℕ) (pageSize : PageSize)
  deriving DecidableEq, Repr

namespace TableCall

def run {σ : Type} [PmmAllocator σ] (m : Overflow) (r : PhysAddr) (w : World σ) :
    TableCall → Except Panic (Except PagingError Unit × World σ)
  | map baseAddr physAddr pageCount pageSize flags =>
      mapPages m r w baseAddr physAddr pageCount pageSize flags
  | unmap baseAddr pageCount pageSize => unmapPages m r w baseAddr pageCount pageSize

def baseAddr : TableCall → VirtAddr
  | map baseAddr _ _ _ _ => baseAddr
  | unmap baseAddr _ _ => baseAddr

def pageCount : TableCall → ℕ
  | map _ _ pageCount _ _ => pageCount
  | unmap _ pageCount _ => pageCount

def pageSize : TableCall → PageSize
  | map _ _ _ pageSize _ => pageSize
  | unmap _ _ pageSize => pageSize

/-- The addresses are multiples of the page size. -/
def Aligned : TableCall → Prop
  | map baseAddr physAddr _ pageSize _ =>
      baseAddr % pageSize.size = 0 ∧ physAddr % pageSize.size = 0
  | unmap baseAddr _ pageSize => baseAddr % pageSize.size = 0

/-- The index of the first page in its table. -/
def index (c : TableCall) : ℕ := nextLevelIndex c.baseAddr c.pageSize.bottomPagingLevel

/-- The pages are in one table, as the check of the code sees it. -/
def Fits (c : TableCall) : Prop := (c.index + c.pageCount) % 2 ^ 64 ≤ ENTRIES_PER_TABLE

/-- The number of entries that the loop goes through. -/
def reach (c : TableCall) : ℕ := min c.pageCount (ENTRIES_PER_TABLE - c.index)

/-- The indices that lead to the table of the pages. -/
def parent (c : TableCall) : List ℕ := parentPath c.baseAddr c.pageSize

/-- The indices that lead to the entry of page `l`. -/
def entryPath (c : TableCall) (l : ℕ) : List ℕ := c.parent ++ [c.index + l]

/-- The entry of page `l`. -/
def entry (c : TableCall) (mem : PhysAddr → ℕ → Word) (r : PhysAddr) (l : ℕ) : Word :=
  slot mem r c.parent (c.index + l)

/-- The entries that a call does not refuse. -/
def Accepts : TableCall → Word → Prop
  | map _ _ _ pageSize flags, e => Vacant flags pageSize e
  | unmap _ _ _, e => e.getLsbD 0 = true

/-- The word that a call writes in the entry of page `l`. -/
def written : TableCall → ℕ → Word → Word
  | map _ physAddr _ pageSize flags, l, e =>
      Entry.mapped e (addrAt physAddr pageSize l) flags pageSize
  | unmap _ _ _, _, e => Entry.released e

/-- The call meets no page on its way down and takes no table away. -/
def Clear (mem : PhysAddr → ℕ → Word) (r : PhysAddr) : TableCall → Prop
  | map baseAddr physAddr pageCount pageSize flags =>
      (map baseAddr physAddr pageCount pageSize flags).Aligned →
        Passes Entry.Unused mem baseAddr pageSize.bottomPagingLevel
          (3 - pageSize.bottomPagingLevel) r
  | unmap baseAddr pageCount pageSize =>
      (unmap baseAddr pageCount pageSize).Aligned →
        Passes (·.getLsbD 0 = false) mem baseAddr pageSize.bottomPagingLevel
          (3 - pageSize.bottomPagingLevel) r ∧
        ∀ l < (unmap baseAddr pageCount pageSize).reach,
          ¬ PointsToTable ((unmap baseAddr pageCount pageSize).entry mem r l)

instance (c : TableCall) : Decidable c.Aligned := by
  cases c with
  | map => exact inferInstanceAs (Decidable (_ ∧ _))
  | unmap => exact inferInstanceAs (Decidable (_ = _))

instance (c : TableCall) : Decidable c.Fits := inferInstanceAs (Decidable (_ ≤ _))

instance (mem : PhysAddr → ℕ → Word) (r : PhysAddr) (c : TableCall) :
    Decidable (c.Clear mem r) := by
  cases c with
  | map => exact inferInstanceAs (Decidable (_ → _))
  | unmap => exact inferInstanceAs (Decidable (_ → _ ∧ _))

/-- The words that a call writes are of the grammar. -/
def Admits (W : ℕ → Word → Prop) : TableCall → Prop
  | map _ physAddr pageCount pageSize flags =>
      physAddr % pageSize.size = 0 → ∀ l < pageCount, ∀ e, W pageSize.bottomPagingLevel e →
        e.getLsbD 0 = false → W pageSize.bottomPagingLevel
          (Entry.mapped e (addrAt physAddr pageSize l) flags pageSize)
  | unmap _ _ pageSize =>
      ∀ e, W pageSize.bottomPagingLevel e → e.getLsbD 0 = true → ¬ PointsToTable e →
        e.getLsbD 9 = false ∧ W pageSize.bottomPagingLevel (Entry.released e)

/-- The first `j` pages were changed, and nothing else. -/
structure Affects (c : TableCall) (r : PhysAddr) (j : ℕ) (mem mem' : PhysAddr → ℕ → Word) :
    Prop where
  same : ∀ D : List ℕ, D.length = 4 → (∀ l < j, ¬ c.entryPath l <+: D) →
    content mem' r D = content mem r D
  before : ∀ l < j, ∀ D : List ℕ, D.length = 4 → c.entryPath l <+: D →
    content mem r D = held c.pageSize.bottomPagingLevel (c.entry mem r l)
  after : ∀ l < j, ∀ D : List ℕ, D.length = 4 → c.entryPath l <+: D →
    content mem' r D = held c.pageSize.bottomPagingLevel (c.written l (c.entry mem r l))
  entries : ∀ l < j, c.entry mem' r l = c.written l (c.entry mem r l)
  accepted : ∀ l < j, c.Accepts (c.entry mem r l)

/-- What a call does, and what it returns: all pages were changed, or it stopped at one that it
refuses, or it did not begin. -/
def Outcome (c : TableCall) (r : PhysAddr) (mem : PhysAddr → ℕ → Word)
    (res : Except PagingError Unit) (mem' : PhysAddr → ℕ → Word) : Prop :=
  ∃ j ≤ c.reach, c.Affects r j mem mem' ∧
    (res = .ok () ∧ c.Aligned ∧ c.Fits ∧ j = c.reach ∨
      (∃ err, res = .error err) ∧ c.Aligned ∧ c.Fits ∧ ¬ c.Accepts (c.entry mem r j) ∨
      (∃ err, res = .error err) ∧ ¬ (c.Aligned ∧ c.Fits) ∧ j = 0)

variable {mem mem' mem'' : PhysAddr → ℕ → Word} {r t : PhysAddr} {c : TableCall} {j : ℕ}
  {res : Except PagingError Unit} {W : ℕ → Word → Prop}

/-- Nothing was changed. -/
theorem affects_zero (h : ∀ D : List ℕ, D.length = 4 → content mem' r D = content mem r D) :
    c.Affects r 0 mem mem' := by
  refine ⟨fun D hD _ => h D hD, ?_, ?_, ?_, ?_⟩ <;>
    exact fun l hl => absurd hl (Nat.not_lt_zero l)

theorem length_parent (c : TableCall) : c.parent.length + c.pageSize.bottomPagingLevel = 3 :=
  length_parentPath c.baseAddr c.pageSize

theorem parent_le (c : TableCall) : c.parent.length ≤ 3 := by
  have := c.length_parent
  omega

theorem level_eq (c : TableCall) : 3 - c.parent.length = c.pageSize.bottomPagingLevel := by
  have := c.length_parent
  omega

theorem Aligned.base {c : TableCall} (h : c.Aligned) : c.baseAddr % c.pageSize.size = 0 := by
  cases c with
  | map => exact h.1
  | unmap => exact h

theorem index_lt (c : TableCall) : c.index < 512 := nextLevelIndex_lt _ _

/-- A pass through entries of the table changes the pages of a call. -/
theorem affects_of_swept (hleads : Leads r c.parent mem t mem')
    (hswept : Swept r c.parent t c.index j c.written mem' mem'')
    (haccepts : ∀ l < j, c.Accepts (mem' t (c.index + l)))
    (hleaves : ∀ l < j, ¬ PointsToTable (mem' t (c.index + l))) : c.Affects r j mem mem'' := by
  have hentry : ∀ l, mem' t (c.index + l) = c.entry mem r l := by
    intro l
    rw [entry, ← hleads.slot_eq, slot_of_some hleads.node_eq]
  refine ⟨fun D hD hnot => ?_, fun l hl D hD hpre => ?_, fun l hl D hD hpre => ?_,
    fun l hl => ?_, fun l hl => ?_⟩
  · rw [hswept.same D hD hnot, hleads.opened.content_eq D hD]
  · obtain ⟨rest, rfl⟩ := hpre
    have hrest : rest.length = c.pageSize.bottomPagingLevel := by
      have hlen := c.length_parent
      rw [entryPath, List.length_append, List.length_append, List.length_singleton] at hD
      omega
    rw [← hleads.opened.content_eq _ hD, entryPath, List.append_assoc, List.singleton_append,
      content_of_leaf hleads.node_eq (if_neg (hleaves l hl)), hrest, hentry]
  · rw [hswept.changed l hl D hD hpre, level_eq, hentry]
  · rw [← hentry, ← hswept.entries l hl, entry,
      slot_of_some ((hswept.node_eq _).trans hleads.node_eq)]
  · rw [← hentry]
    exact haccepts l hl

/-- How the pass ends decides what the call returns. -/
theorem outcome_of_swept (halign : c.Aligned) (hfits : c.Fits)
    (hleads : Leads r c.parent mem t mem')
    (hswept : Swept r c.parent t c.index j c.written mem' mem'')
    (hends : Ends c.Accepts t c.index c.reach j mem' res)
    (hleaves : ∀ l < j, ¬ PointsToTable (mem' t (c.index + l))) : c.Outcome r mem res mem'' := by
  have haffects := affects_of_swept hleads hswept hends.1 hleaves
  rcases hends.2 with ⟨hres, hj⟩ | ⟨herr, hlt, hnot⟩
  · exact ⟨j, hj.le, haffects, Or.inl ⟨hres, halign, hfits, hj⟩⟩
  · refine ⟨j, hlt.le, haffects, Or.inr (Or.inl ⟨herr, halign, hfits, ?_⟩)⟩
    rw [entry, ← hleads.slot_eq, slot_of_some hleads.node_eq]
    exact hnot

/-- A call that changes nothing. -/
theorem outcome_of_refused {err : PagingError} (hsame : ∀ D : List ℕ, D.length = 4 →
    content mem' r D = content mem r D) (h : ¬ (c.Aligned ∧ c.Fits)) :
    c.Outcome r mem (.error err) mem' :=
  ⟨0, Nat.zero_le _, affects_zero hsame, Or.inr (Or.inr ⟨⟨_, rfl⟩, h, rfl⟩)⟩

section

variable {σ : Type} [PmmAllocator σ] {m : Overflow} {w : World σ} {bound : ℕ}
  {respects : Set PhysAddr → σ → Prop} {baseAddr : VirtAddr} {physAddr : PhysAddr}
  {pageCount : ℕ} {s : PageSize} {flags : Flags}

/-- One call of `map_pages`. -/
theorem run_map_spec (hG : Grammar W) (law : Supplies σ m bound respects)
    (hbound : bound ≤ 2 ^ 52) (hI : SizedInv W respects r w)
    (hclear : (map baseAddr physAddr pageCount s flags).Clear w.mem r)
    (hadmits : (map baseAddr physAddr pageCount s flags).Admits W) :
    Yields (Stops σ m) (fun x => SizedInv W respects r x.2 ∧
      (map baseAddr physAddr pageCount s flags).Outcome r w.mem x.1 x.2.mem)
      (mapPages m r w baseAddr physAddr pageCount s flags) := by
  set c := map baseAddr physAddr pageCount s flags with hc
  by_cases hbase : baseAddr % s.size = 0
  · by_cases hphys : physAddr % s.size = 0
    · rw [mapPages_of_aligned hbase hphys]
      refine Yields.bind (getCreateTableRangeGo_yields (p := []) (D := c.parent)
        (fun w q t i hI hq ht hunused _ => hI.create_spec hG law hbound hq ht hunused) hI
        (by simp) rfl List.prefix_rfl (hclear ⟨hbase, hphys⟩)) ?_
      rintro ⟨t, w₁⟩ ⟨hI₁, hleads⟩
      refine Yields.bind ((Usize.add_spec m _ _).allow fun x hx => hx.1 ▸ .overflow hx.2) ?_
      rintro sum rfl
      change Yields _ _ (if (c.index + c.pageCount) % 2 ^ 64 > ENTRIES_PER_TABLE then _
        else mapPagesGo m t c.index physAddr s flags c.reach 0 w₁)
      by_cases hfits : c.Fits
      · rw [if_neg (Nat.not_lt.mpr hfits)]
        have hreach : 0 + c.reach ≤ 512 := by
          rw [reach, ENTRIES_PER_TABLE]
          omega
        refine (hI₁.sized.mapPagesGo_spec (p := c.parent) (i := 0) c.parent_le hleads.node_eq
          c.level_eq hphys hreach fun l hl e he habsent => ?_).imp ?_
        · exact hadmits hphys l (Nat.lt_of_lt_of_le hl (by simp [reach, hc, TableCall.pageCount]))
            e he habsent
        · rintro x ⟨hsized, hpmm, j, hj, hswept, hends⟩
          simp only [Nat.zero_add, Nat.add_zero] at hswept hends
          have htables := tables_congr hswept.node_eq
          refine ⟨⟨hsized, ?_⟩, outcome_of_swept ⟨hbase, hphys⟩ hfits hleads hswept hends ?_⟩
          · rw [htables, hpmm]
            exact hI₁.respected
          · intro l hl hpoints
            have hvacant := (hends.1 l hl).1
            rw [hpoints.1] at hvacant
            cases hvacant
      · rw [if_pos (Nat.not_le.mp hfits), yields_ok]
        exact ⟨hI₁, outcome_of_refused (fun D hD => hleads.opened.content_eq D hD)
          fun h => hfits h.2⟩
    · rw [mapPages, if_neg (not_not.mpr hbase), if_pos hphys, yields_ok]
      exact ⟨hI, outcome_of_refused (fun _ _ => rfl) fun h => hphys h.1.2⟩
  · rw [mapPages, if_pos hbase, yields_ok]
    exact ⟨hI, outcome_of_refused (fun _ _ => rfl) fun h => hbase h.1.1⟩

/-- One call of `unmap_pages`. -/
theorem run_unmap_spec (hI : SizedInv W respects r w)
    (hclear : (unmap baseAddr pageCount s).Clear w.mem r)
    (hadmits : (unmap baseAddr pageCount s).Admits W) :
    Yields (Stops σ m) (fun x => SizedInv W respects r x.2 ∧
      (unmap baseAddr pageCount s).Outcome r w.mem x.1 x.2.mem)
      (unmapPages m r w baseAddr pageCount s) := by
  set c := unmap baseAddr pageCount s with hc
  rw [unmapPages]
  by_cases hbase : baseAddr % s.size = 0
  · obtain ⟨hway, hleaves⟩ := hclear hbase
    rw [if_neg (not_not.mpr hbase), getTableRange, sanityAssert_eq hbase, ok_bind,
      MAX_BOTTOM_PAGING_LEVEL, getTableRangeGo_passes (p := []) rfl hway, ok_bind,
      List.nil_append, show path baseAddr s.bottomPagingLevel (3 - s.bottomPagingLevel) =
        c.parent from rfl]
    cases ht : node w.mem r c.parent with
    | none =>
        rw [yields_ok]
        refine ⟨hI, 0, Nat.zero_le _, affects_zero fun _ _ => rfl, ?_⟩
        by_cases hfits : c.Fits
        · refine Or.inr (Or.inl ⟨⟨_, rfl⟩, hbase, hfits, ?_⟩)
          rw [entry, slot_of_none ht]
          change ¬ (0 : Word).getLsbD 0 = true
          decide
        · exact Or.inr (Or.inr ⟨⟨_, rfl⟩, fun h => hfits h.2, rfl⟩)
    | some t =>
        have hleads : Leads r c.parent w.mem t w.mem := ⟨.refl r _ w.mem, ht, fun _ => rfl⟩
        refine Yields.bind ((Usize.add_spec m _ _).allow fun x hx => hx.1 ▸ .overflow hx.2) ?_
        rintro sum rfl
        change Yields _ _ (if (c.index + c.pageCount) % 2 ^ 64 > ENTRIES_PER_TABLE then _
          else unmapPagesGo m t s c.reach c.index w)
        by_cases hfits : c.Fits
        · rw [if_neg (Nat.not_lt.mpr hfits)]
          have hleaves' : ∀ l < c.reach, ¬ PointsToTable (w.mem t (c.index + l)) := by
            intro l hl
            have := hleaves l hl
            rwa [← hc, entry, slot_of_some ht] at this
          obtain ⟨x, hrun, hsized, hpmm, j, hj, hswept, hends⟩ := hI.sized.unmapPagesGo_spec
            (m := m) (s := s) (p := c.parent) c.parent_le ht hleaves'
            (by rw [level_eq]; exact hadmits)
          rw [hrun, yields_ok]
          refine ⟨⟨hsized, ?_⟩, outcome_of_swept hbase hfits hleads hswept hends fun l hl =>
            hleaves' l (by omega)⟩
          rw [tables_congr hswept.node_eq, hpmm]
          exact hI.respected
        · rw [if_pos (Nat.not_le.mp hfits), yields_ok]
          exact ⟨hI, outcome_of_refused (fun _ _ => rfl) fun h => hfits h.2⟩
  · rw [if_pos hbase, yields_ok]
    exact ⟨hI, outcome_of_refused (fun _ _ => rfl) fun h => hbase h.1⟩

/-- **One call.** -/
theorem run_spec (hG : Grammar W) (law : Supplies σ m bound respects) (hbound : bound ≤ 2 ^ 52)
    (hI : SizedInv W respects r w) (hclear : c.Clear w.mem r) (hadmits : c.Admits W) :
    Yields (Stops σ m) (fun x => SizedInv W respects r x.2 ∧ c.Outcome r w.mem x.1 x.2.mem)
      (c.run m r w) := by
  cases c with
  | map => exact run_map_spec hG law hbound hI hclear hadmits
  | unmap => exact run_unmap_spec hI hclear hadmits

end

end TableCall

/-! ## Runs -/

section

variable {σ : Type} [PmmAllocator σ]

/-- The states after calls that each meet a condition, with the calls so far. -/
inductive CallsReach (m : Overflow) (r : PhysAddr) (w₀ : World σ)
    (allowed : List TableCall → World σ → TableCall → Prop) : List TableCall → World σ → Prop
  | start : CallsReach m r w₀ allowed [] w₀
  | step {log : List TableCall} {w w' : World σ} {c : TableCall}
      {res : Except PagingError Unit} (h : CallsReach m r w₀ allowed log w)
      (hc : allowed log w c) (hrun : c.run m r w = .ok (res, w')) :
      CallsReach m r w₀ allowed (c :: log) w'

variable {m : Overflow} {r : PhysAddr} {w₀ w : World σ} {bound : ℕ}
  {respects : Set PhysAddr → σ → Prop} {W : ℕ → Word → Prop}
  {allowed : List TableCall → World σ → TableCall → Prop} {log : List TableCall}

/-- **Every run.**  Calls that are clear keep the invariant. -/
theorem CallsReach.sizedInv (hG : Grammar W) (law : Supplies σ m bound respects)
    (hbound : bound ≤ 2 ^ 52) (hzero : ∀ i, w₀.mem r i = 0) (hU : respects {r} w₀.pmm)
    (hallowed : ∀ log w c, allowed log w c → c.Clear w.mem r ∧ c.Admits W)
    (h : CallsReach m r w₀ allowed log w) : SizedInv W respects r w := by
  induction h with
  | start => exact ⟨sized_of_zero hG hzero, tables_of_zero hzero ▸ hU⟩
  | step _ hc hrun ih =>
      obtain ⟨hclear, hadmits⟩ := hallowed _ _ _ hc
      exact ((TableCall.run_spec hG law hbound ih hclear hadmits).post hrun).1

end

end Funderberker

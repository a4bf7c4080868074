import Funderberker.Paging.Limine
import Funderberker.Pmm.Served
import Funderberker.Sync.Shared

/-!
# Pages that threads share

`pmm::get` of `pmm/src/lib.rs` returns the guard of one spin lock, and every call of the PMM is made
through it.  The PMM keeps no record of what it has handed out: that a page is used by one thread
only is a fact about all calls of all threads.

The calls may ask for anything, but `allocate_at` gets powers of two: with other counts it can take
another block than the one at the address.  A thread frees pages that it has, all that it got at
once or some of them.

## Main definitions

* `PmmCall`, `ServesPages` — the calls of the PMM.
* `SharesPages` — the invariant.

## Main results

* `pages_held_apart` — a page is held by one thread, and none is lost.
-/

namespace Funderberker

open Panicking DyadicBlock BuddyAllocator MemoryMap

instance : SpinLockable BuddyAllocator := {}

/-! ## Calls -/

/-- The numbers of the pages from an address on, as many as the PMM makes of a count. -/
def pageList (addr : PhysAddr) (pageCount : ℕ) : List ℕ :=
  List.range' (addr / BASIC_PAGE_SIZE) (2 ^ Nat.clog 2 pageCount)

inductive PmmCall
  | allocate (alignment pageCount : ℕ)
  | allocateAt (addr : PhysAddr) (pageCount : ℕ)
  | free (addr : PhysAddr) (pageCount : ℕ)
  | isPageFree (addr : PhysAddr) (pageCount : ℕ)

namespace PmmCall

/-- What callers promise about the arguments. -/
def Promised : PmmCall → Prop
  | allocateAt _ pageCount => AllocateAtArgs pageCount
  | _ => True

/-- What a call does, with the pages that the thread has.  It frees no page of another thread. -/
def run (m : Overflow) : PmmCall → Access (List ℕ) BuddyAllocator
  | allocate alignment pageCount => fun (pages, s) =>
      match s.allocate m alignment pageCount with
      | .ok (.ok addr, s') => some (pageList addr pageCount ++ pages, s')
      | .ok (.error _, s') => some (pages, s')
      | .error _ => none
  | allocateAt addr pageCount => fun (pages, s) =>
      match s.allocateAt m addr pageCount with
      | .ok (.ok (), s') => some (pageList addr pageCount ++ pages, s')
      | .ok (.error _, s') => some (pages, s')
      | .error _ => none
  | free addr pageCount => fun (pages, s) =>
      if ∀ p ∈ pageList addr pageCount, p ∈ pages then
        match s.free m addr pageCount with
        | .ok (.ok (), s') => some (pages.filter (· ∉ pageList addr pageCount), s')
        | .ok (.error _, s') => some (pages, s')
        | .error _ => none
      else none
  | isPageFree addr pageCount => fun (pages, s) =>
      match s.isPageFree m addr pageCount with
      | .ok _ => some (pages, s)
      | .error _ => none

end PmmCall

/-- A call of the PMM, in any number of accesses. -/
def ServesPages (m : Overflow) : Set (List (Access (List ℕ) BuddyAllocator)) :=
  {body | ∃ call : PmmCall, call.Promised ∧ ∀ x, runAll body x = call.run m x}

/-! ## The pages of all threads -/

section

variable {ι : Type} [DecidableEq ι] {held : ι → List ℕ} {i : ι} {l : List ℕ} {addr : PhysAddr}
  {n p : ℕ}

theorem mem_pageList : p ∈ pageList addr n ↔ p ∈ pagesFrom addr (2 ^ Nat.clog 2 n) := by
  rw [pageList, List.mem_range'_1, pagesFrom, Set.mem_Ico]

/-- The pages of all threads. -/
def heldPages {ι : Type} (held : ι → List ℕ) : Set ℕ := {p | ∃ i, p ∈ held i}

theorem mem_heldPages_update :
    p ∈ heldPages (Function.update held i l) ↔ p ∈ l ∨ ∃ j, j ≠ i ∧ p ∈ held j := by
  constructor
  · rintro ⟨j, hj⟩
    by_cases hji : j = i
    · subst hji
      rw [Function.update_self] at hj
      exact Or.inl hj
    · rw [Function.update_of_ne hji] at hj
      exact Or.inr ⟨j, hji, hj⟩
  · rintro (hl | ⟨j, hji, hj⟩)
    · exact ⟨i, by rwa [Function.update_self]⟩
    · exact ⟨j, by rwa [Function.update_of_ne hji]⟩

theorem mem_heldPages_iff (i : ι) : p ∈ heldPages held ↔ p ∈ held i ∨ ∃ j, j ≠ i ∧ p ∈ held j := by
  rw [← mem_heldPages_update, Function.update_eq_self]

/-- A thread gets pages. -/
theorem heldPages_append : heldPages (Function.update held i (pageList addr n ++ held i)) =
    heldPages held ∪ pagesFrom addr (2 ^ Nat.clog 2 n) := by
  ext p
  rw [mem_heldPages_update, List.mem_append, mem_pageList, Set.mem_union, mem_heldPages_iff i,
    or_assoc, or_comm]

/-- A thread gives back pages that no other has. -/
theorem heldPages_filter (h : ∀ j k, j ≠ k → List.Disjoint (held j) (held k))
    (hl : ∀ p ∈ pageList addr n, p ∈ held i) :
    heldPages (Function.update held i ((held i).filter (· ∉ pageList addr n))) =
      heldPages held \ pagesFrom addr (2 ^ Nat.clog 2 n) := by
  ext p
  rw [mem_heldPages_update, List.mem_filter, decide_eq_true_iff, mem_pageList, Set.mem_sdiff,
    mem_heldPages_iff i, or_and_right]
  refine or_congr_right ⟨fun ⟨j, hji, hj⟩ => ⟨⟨j, hji, hj⟩, fun hp => ?_⟩, And.left⟩
  exact h j i hji hj (hl p (mem_pageList.mpr hp))

end

/-! ## The invariant -/

section

variable {ι : Type} [DecidableEq ι] {m : Overflow} {T : ℕ} {s₀ s' : BuddyAllocator}
  {a a' : (ι → List ℕ) × BuddyAllocator} {i : ι} {addr : PhysAddr} {n c : ℕ}

/-- The PMM has all pages but those that threads have, and no page is there twice. -/
structure SharesPages (T : ℕ) (s₀ : BuddyAllocator) (a : (ι → List ℕ) × BuddyAllocator) :
    Prop where
  sound : Sound T (firstClient s₀) ⟨a.2, s₀.freePages, heldPages a.1⟩
  nodup : ∀ i, (a.1 i).Nodup
  apart : ∀ i j, i ≠ j → List.Disjoint (a.1 i) (a.1 j)

/-- A thread gets a block that was free. -/
theorem SharesPages.take (h : SharesPages T s₀ a) (haddr : addr = blockAddr (Nat.clog 2 n) c)
    (hfree : points (Nat.clog 2 n) c ⊆ a.2.freePages)
    (hfrees : Frees T a.2 s' (a.2.freePages \ points (Nat.clog 2 n) c)) :
    SharesPages T s₀ (Function.update a.1 i (pageList addr n ++ a.1 i), s') := by
  subst haddr
  have hnew : ∀ j, List.Disjoint (pageList (blockAddr (Nat.clog 2 n) c) n) (a.1 j) :=
    fun j p hp hj => by
      rw [mem_pageList, pagesFrom_blockAddr] at hp
      exact Set.disjoint_left.mp h.sound.disjoint (hfree hp) ⟨j, hj⟩
  refine ⟨?_, fun j => ?_, apart_update (fun _ _ => List.Disjoint.symm) h.apart fun j hji => ?_⟩
  · rw [heldPages_append, pagesFrom_blockAddr]
    exact h.sound.take hfree hfrees
  · dsimp only
    by_cases hji : j = i
    · subst hji
      rw [Function.update_self]
      exact List.nodup_append'.mpr ⟨List.nodup_range', h.nodup j, hnew j⟩
    · rw [Function.update_of_ne hji]
      exact h.nodup j
  · exact List.disjoint_append_left.mpr ⟨hnew j, h.apart i j hji.symm⟩

/-- A thread gives back a block that it has. -/
theorem SharesPages.give (h : SharesPages T s₀ a) (hmem : ∀ p ∈ pageList addr n, p ∈ a.1 i)
    (hres : a.2.free m addr n = .ok (.ok (), s')) :
    SharesPages T s₀
      (Function.update a.1 i ((a.1 i).filter (· ∉ pageList addr n)), s') := by
  have hlive : pagesFrom addr (2 ^ Nat.clog 2 n) ⊆ heldPages a.1 := fun p hp =>
    ⟨i, hmem p (mem_pageList.mpr hp)⟩
  have hfrees := free_any h.sound.inv hres (h.sound.disjoint.symm.mono_left hlive) fun p hp =>
    h.sound.bounded p ((Set.ext_iff.mp h.sound.partition p).mp (Or.inr (hlive hp)))
  obtain ⟨-, c, haddr⟩ := exists_block_of_coalesce h.sound.inv (coalesce_of_free hres)
  refine ⟨?_, fun j => ?_, apart_update (fun _ _ => List.Disjoint.symm) h.apart fun j hji => ?_⟩
  · rw [heldPages_filter h.apart hmem]
    rw [haddr, pagesFrom_blockAddr] at hfrees hlive ⊢
    exact h.sound.give hlive hfrees
  · dsimp only
    by_cases hji : j = i
    · subst hji
      rw [Function.update_self]
      exact (h.nodup j).filter _
    · rw [Function.update_of_ne hji]
      exact h.nodup j
  · exact fun p hp hj => h.apart i j hji.symm (List.mem_of_mem_filter hp) hj

/-- A call that fails leaves all as it was. -/
theorem SharesPages.same (h : SharesPages T s₀ a) :
    SharesPages T s₀ (Function.update a.1 i (a.1 i), a.2) := by
  rw [Function.update_eq_self]
  exact h

/-- One call. -/
theorem SharesPages.step (h : SharesPages T s₀ a)
    (hstep : AtomicStep (fun _ => ServesPages m) a a') : SharesPages T s₀ a' := by
  obtain ⟨hbody, hrun⟩ := hstep
  rename_i i body pages s
  obtain ⟨call, hpromised, hcall⟩ := hbody
  rw [hcall] at hrun
  cases call with
  | allocate alignment pageCount =>
      simp only [PmmCall.run] at hrun
      split at hrun
      · next addr s' hres =>
          cases hrun
          rcases allocate_any h.sound.inv hres with ⟨e, heq⟩ | ⟨c, haddr, hfree, hfrees⟩
          · cases heq
          · exact h.take (Except.ok.inj haddr) hfree hfrees
      · next hres =>
          cases hrun
          rcases allocate_any h.sound.inv hres with ⟨e, heq⟩ | ⟨c, haddr, -⟩
          · cases heq
            exact h.same
          · cases haddr
      · cases hrun
  | allocateAt addr pageCount =>
      obtain ⟨e, rfl, -⟩ := AllocateAtArgs.exists_order hpromised
      have hclog : Nat.clog 2 (2 ^ e) = e := Nat.clog_pow 2 e (by omega)
      simp only [PmmCall.run] at hrun
      split at hrun
      · next s' hres =>
          cases hrun
          cases (allocateAt_spec h.sound.inv).post hres with
          | some c s haddr hfree hfrees =>
              rw [← hclog] at haddr hfree hfrees
              exact h.take haddr hfree hfrees
      · next hres =>
          cases hrun
          cases (allocateAt_spec h.sound.inv).post hres <;> exact h.same
      · cases hrun
  | free addr pageCount =>
      simp only [PmmCall.run] at hrun
      split at hrun
      case isFalse => cases hrun
      case isTrue hmem =>
        split at hrun
        · next s' hres =>
            cases hrun
            exact h.give hmem hres
        · next hres =>
            cases hrun
            rw [eq_of_free_error hres]
            exact h.same
        · cases hrun
  | isPageFree addr pageCount =>
      simp only [PmmCall.run] at hrun
      split at hrun
      · cases hrun
        exact h.same
      · cases hrun

end

/-! ## After boot -/

section

variable {ι : Type} [DecidableEq ι] {m : Overflow} {hhdm : ℕ} {nodes : VirtAddr → PhysAddr}
  {memMap : List Entry} {entry : Entry} {s₀ : BuddyAllocator}

theorem ready_of_initFromLimine (hwf : WellFormed hhdm memMap)
    (hinit : initFromLimine m hhdm nodes memMap = .ok (s₀, entry)) :
    Ready hhdm nodes memMap entry s₀ := by
  have hrun := hinit
  rw [initFromLimine] at hrun
  obtain ⟨⟨s, e, n⟩, hnew, -⟩ := bind_eq_ok.mp hrun
  have hchosen := ((newFromLimine_spec nodes hwf).post hnew).1
  obtain ⟨hready, hentry⟩ := (initFromLimine_spec nodes hwf hchosen).post hinit
  dsimp only at hready hentry
  rw [hentry]
  exact hready

/-- **No page is held by two threads.**  After boot, threads allocate pages, at any place or at a
given one, and free those that they have, and whatever their steps are and however these follow one
another: no thread has a page that another has, nor one page twice, all are usable and not those of
the PMM's own data, and while no thread works on the PMM all the others are free. -/
theorem pages_held_apart (hwf : WellFormed hhdm memMap)
    (hinit : initFromLimine m hhdm nodes memMap = .ok (s₀, entry))
    {s : Threads ι (List ℕ) BuddyAllocator}
    (hrun : Relation.ReflTransGen (ThreadStep fun _ => ServesPages m) (.start s₀ fun _ => []) s) :
    (∀ i, ¬ (s.control i).Inside → (s.kept i).Nodup ∧
      ∀ p ∈ s.kept i, p ∈ usablePages memMap \ reserved memMap entry) ∧
    (∀ i j, i ≠ j → ¬ (s.control i).Inside → ¬ (s.control j).Inside →
      List.Disjoint (s.kept i) (s.kept j)) ∧
    ((∀ i, ¬ (s.control i).Inside) → s.lock.data.freePages =
      (usablePages memMap \ reserved memMap entry) \ {p | ∃ i, p ∈ s.kept i}) := by
  have hready := ready_of_initFromLimine hwf hinit
  have hnone : heldPages (fun _ : ι => ([] : List ℕ)) = ∅ :=
    Set.eq_empty_of_forall_notMem fun _ hp => hp.elim fun _ hmem => List.not_mem_nil hmem
  have hstart : SharesPages (pageBound memMap) s₀ ((fun _ : ι => []), s₀) := by
    refine ⟨?_, fun _ => List.nodup_nil, fun _ _ _ => List.disjoint_nil_left _⟩
    rw [hnone]
    exact hready.sound
  obtain ⟨a, ha, h⟩ := exists_atomic_of_invariant hstart (fun _ _ h => h.step) hrun
  refine ⟨fun i hi => ?_, fun i j hij hi hj => ?_, fun hall => ?_⟩
  · rw [h.kept i hi]
    refine ⟨ha.nodup i, fun p hp => ?_⟩
    rw [← hready.free, ← show _ = s₀.freePages from ha.sound.partition]
    exact Or.inr ⟨i, hp⟩
  · rw [h.kept i hi, h.kept j hj]
    exact ha.apart i j hij
  · have hheld : {p | ∃ i, p ∈ s.kept i} = heldPages a.1 := by
      ext p
      exact exists_congr fun i => by rw [h.kept i (hall i)]
    rw [h.data hall, hheld, ← hready.free, ← show _ = s₀.freePages from ha.sound.partition]
    exact (Set.union_sdiff_cancel_right ha.sound.disjoint.le_bot).symm

end

/-- Of two threads, one has allocated a page. -/
theorem imageMap_pages_apart : ∃ s₀ entry,
    initFromLimine .checked 0xffff800000000000 (fun _ => 0) imageMap = .ok (s₀, entry) ∧
      ∃ s : Threads Bool (List ℕ) BuddyAllocator, (∃ p, s.kept true = [p]) ∧
        (∀ i, ¬ (s.control i).Inside → (s.kept i).Nodup ∧
          ∀ p ∈ s.kept i, p ∈ usablePages imageMap \ reserved imageMap entry) ∧
        (∀ i j, i ≠ j → ¬ (s.control i).Inside → ¬ (s.control j).Inside →
          List.Disjoint (s.kept i) (s.kept j)) ∧
        ((∀ i, ¬ (s.control i).Inside) → s.lock.data.freePages =
          (usablePages imageMap \ reserved imageMap entry) \ {p | ∃ i, p ∈ s.kept i}) := by
  have hwf := imageMap_bootMap.toWellFormed
  have hchosen : chosenEntry imageMap = some ⟨0x200000, 0x7c00000, .usable⟩ := by decide
  obtain ⟨s₀, hinit, hready⟩ := initFromLimine_of_fewRegions (m := .checked) (fun _ => 0) hwf
    hchosen (imageMap_room.fewRegions hwf hchosen)
  obtain ⟨r, pmm, hpage⟩ := hready.exists_page (m := .checked) imageMap_room
  have hcall : AtomicStep (fun _ : Bool => ServesPages .checked) ((fun _ => []), s₀)
      (Function.update (fun _ => []) true [r / BASIC_PAGE_SIZE], pmm) := by
    refine .call ⟨.allocate 1 1, trivial, runAll_singleton _⟩ ?_
    rw [runAll_singleton]
    simp only [PmmCall.run, hpage]
    rfl
  exact ⟨s₀, _, hinit, _, ⟨_, rfl⟩, pages_held_apart hwf hinit (run_of_atomic hcall)⟩

end Funderberker

import Funderberker.Pmm.AnyCount

/-!
# Which bad arguments are reported

A bad argument should give an error, whatever it is.  Three things stand in the way.  The
number of bytes of a count or of an alignment is computed before anything limits it, and
from 2^52 pages on it leaves 64 bits: a build that checks stops there, one that wraps
divides by zero when nothing is left.  `free` does not compare its count with the zones,
so an aligned range larger than the largest block reaches the `unreachable!()` behind the
last zone.  And splitting a block takes a node for each zone, so one node in the pool is
not enough.

## Main definitions

* `Reports` — a call returns, and changes nothing when it is refused.
* `AllocateReports`, `FreeReports` — when it does so.

## Main results

* `pmm_reports_iff` — for every state of a run and all arguments.
-/

namespace Funderberker

open Panicking DyadicBlock

/-- The call returns, and a call that is refused has changed nothing. -/
def Reports {α : Type} (s : BuddyAllocator)
    (x : Except Panic (Except PmmError α × BuddyAllocator)) : Prop :=
  ∃ r s', x = .ok (r, s') ∧ ∀ e, r = .error e → s' = s

namespace BuddyAllocator

variable {m : Overflow} {s s' : BuddyAllocator} {T al n e f i j k c : ℕ} {a addr : PhysAddr}

/-- The arguments of `allocate` are refused at once; or the alignment can be tested and
there are nodes to split the first block at hand; or there is no block to test at all. -/
def AllocateReports (s : BuddyAllocator) (al n : ℕ) : Prop :=
  n = 0 ∨ 2 ^ s.zones.length < n ∨ isPowerOfTwo al = false ∨
    (BASIC_PAGE_SIZE * al < 2 ^ 64 ∧ ∀ b, s.firstBlock al (Nat.clog 2 n) = some b →
      b.1 ≤ Nat.clog 2 n + s.freelist.length + 1) ∨
    s.blocksFrom (Nat.clog 2 n) (s.zones.length - Nat.clog 2 n) = []

/-- A range of more pages than any block has is refused by `free`: its size can be divided
by, and the address is no multiple of it or the count cannot be rounded up. -/
def FreeReports (m : Overflow) (addr : PhysAddr) (n : ℕ) : Prop :=
  n = 0 ∨ Sizable m n ∧ (addr % (BASIC_PAGE_SIZE * n % 2 ^ 64) ≠ 0 ∨ 2 ^ 63 < n)

/-! ## Alignments -/

/-- An alignment of 2^64 bytes or more aborts at the first block that is tested. -/
theorem findBucketGo_overflow_iff (hf : 52 ≤ f) (hk : i + k = s.zones.length) :
    (∃ r, findBucketGo m s (2 ^ f) i k = .ok r) ↔ s.blocksFrom i k = [] := by
  obtain ⟨p, htest⟩ := rem_of_not_sizable (m := m) (not_sizable_two_pow hf)
  induction k generalizing i with
  | zero => exact iff_of_true ⟨_, rfl⟩ rfl
  | succ k ih =>
      have hlt : i < s.zones.length := by omega
      rw [findBucketGo, zoneAt_eq hlt, ok_bind, blocksFrom, List.range'_succ, List.flatMap_cons,
        List.append_eq_nil_iff, List.map_eq_nil_iff, addrs, List.map_eq_nil_iff]
      simp only [htest]
      cases hzone : s.zones.getD i [] with
      | nil =>
          simp only [true_and]
          exact ih (by omega)
      | cons node zone =>
          refine iff_of_false ?_ (by simp)
          rintro ⟨r, hr⟩
          cases hr

theorem allocate_reports_iff (hI : Inv T s) :
    Reports s (allocate m s al n) ↔ AllocateReports s al n := by
  by_cases hargs : n = 0 ∨ 2 ^ s.zones.length < n ∨ isPowerOfTwo al = false
  · obtain ⟨x, hx⟩ := allocate_refused (m := m) hI hargs
    refine iff_of_true ⟨_, _, hx, fun _ _ => rfl⟩ ?_
    exact hargs.imp_right (Or.imp_right Or.inl)
  simp only [not_or, not_lt, Bool.not_eq_false] at hargs
  obtain ⟨hn, hle, hal⟩ := hargs
  obtain ⟨f, rfl⟩ := exists_of_isPowerOfTwo hal
  have hclog : Nat.clog 2 n ≤ s.zones.length := Nat.clog_le_of_le_pow hle
  have hk : Nat.clog 2 n + (s.zones.length - Nat.clog 2 n) = s.zones.length := by omega
  have hcond : AllocateReports s (2 ^ f) n ↔
      (f < 52 ∧ ∀ b, s.firstBlock (2 ^ f) (Nat.clog 2 n) = some b →
        b.1 ≤ Nat.clog 2 n + s.freelist.length + 1) ∨
      s.blocksFrom (Nat.clog 2 n) (s.zones.length - Nat.clog 2 n) = [] := by
    simp only [AllocateReports, hn, not_lt.mpr hle, hal, Bool.true_eq_false, false_or,
      pageSize_mul_two_pow_lt_iff]
  rw [hcond, allocate_eq hI hn hle hal, findBucket]
  rcases Nat.lt_or_ge f 52 with hf | hf
  · have hfit := pageSize_mul_two_pow_lt_iff.mpr hf
    obtain ⟨⟨r, s'⟩, hr, hfound⟩ := findBucketGo_spec (m := m) hI hk (Nat.two_pow_pos f) hfit
    have hfirst : s.firstBlock (2 ^ f) (Nat.clog 2 n) = r.toOption.map Prod.swap :=
      findBucketGo_first (Nat.two_pow_pos f) hfit hr
    rw [hr, ok_bind]
    cases hfound with
    | none =>
        refine iff_of_true ⟨_, _, rfl, fun _ _ => rfl⟩ (Or.inl ⟨hf, fun b hb => ?_⟩)
        rw [hfirst] at hb
        cases hb
    | some j c s' hij hmul htook =>
        have hsplit := split_ok_iff (m := m) hI hij htook
        rw [(findBucketGo_freelist hr).1] at hsplit
        have hsome : s.blocksFrom (Nat.clog 2 n) (s.zones.length - Nat.clog 2 n) ≠ [] := by
          intro hnil
          rw [firstBlock, hnil] at hfirst
          cases hfirst
        constructor
        · rintro ⟨r, s₁, hrun, -⟩
          obtain ⟨s₂, hs₂, -⟩ := bind_eq_ok.mp hrun
          refine Or.inl ⟨hf, fun b hb => ?_⟩
          obtain rfl := Option.some.inj (hfirst.symm.trans hb)
          exact hsplit.mp ⟨s₂, hs₂⟩
        · rintro (⟨-, hall⟩ | hnil)
          · obtain ⟨s₂, hs₂⟩ := hsplit.mpr (hall _ hfirst)
            refine ⟨.ok (blockAddr j c), s₂, ?_, fun x hx => by cases hx⟩
            simp only [hs₂, ok_bind]
          · exact absurd hnil hsome
  · rw [← findBucketGo_overflow_iff (m := m) hf hk]
    constructor
    · rintro ⟨r, s', hrun, -⟩
      obtain ⟨r', hr', -⟩ := bind_eq_ok.mp hrun
      exact Or.inr ⟨r', hr'⟩
    · rintro (⟨hlt, -⟩ | ⟨r, hr⟩)
      · omega
      · obtain rfl := findBucketGo_of_overflow hf hr
        exact ⟨.error .noAvailableBlock, s, by rw [hr, ok_bind], fun _ _ => rfl⟩

/-! ## Counts -/

/-- A scan from any zone on answers. -/
theorem isPageFreeGo_ok (hI : Inv T s) (addr : PhysAddr) (i : ℕ) :
    ∃ b, isPageFreeGo m s addr i (s.zones.length - i) = .ok b := by
  rcases Nat.le_total i s.zones.length with hle | hle
  · exact (isPageFreeGo_spec hI (by omega)).imp fun b hb => hb.1
  · rw [Nat.sub_eq_zero_of_le hle]
    exact ⟨false, rfl⟩

theorem isPageFree_ok_iff (hI : Inv T s) :
    (∃ r, isPageFree m s addr n = .ok r) ↔ n = 0 ∨ Sizable m n := by
  by_cases hn : n = 0
  · exact iff_of_true ⟨_, by rw [isPageFree, if_pos hn]⟩ (Or.inl hn)
  simp only [hn, false_or]
  by_cases hsize : Sizable m n
  · refine iff_of_true ?_ hsize
    obtain ⟨hmul, hne⟩ := hsize.size_eq hn
    rw [isPageFree, if_neg hn, hmul, ok_bind, Usize.rem_eq hne, ok_bind]
    split
    · exact ⟨_, rfl⟩
    · cases checkedNextPowerOfTwo n with
      | none => exact ⟨_, rfl⟩
      | some p =>
          obtain ⟨b, hb⟩ := isPageFreeGo_ok (m := m) hI addr (Nat.log2 p)
          simp only [hb, ok_bind]
          exact ⟨_, rfl⟩
  · refine iff_of_false ?_ hsize
    obtain ⟨p, hp⟩ := rem_of_not_sizable hsize
    rintro ⟨r, hr⟩
    rw [isPageFree, if_neg hn, hp] at hr
    cases hr

/-- A range larger than every block: past the last zone nothing is left but a panic. -/
theorem free_reports_iff (hbig : ∀ i < s.zones.length, 2 ^ i < n) :
    Reports s (free m s addr n) ↔ FreeReports m addr n := by
  by_cases hn : n = 0
  · exact iff_of_true ⟨_, _, by rw [free, if_pos hn], fun _ _ => rfl⟩ (Or.inl hn)
  simp only [FreeReports, hn, false_or]
  by_cases hsize : Sizable m n
  swap
  · obtain ⟨p, hp⟩ := rem_of_not_sizable hsize
    refine iff_of_false ?_ fun h => hsize h.1
    rintro ⟨r, s', hrun, -⟩
    rw [free, if_neg hn, isPageFree, if_neg hn, hp, error_bind] at hrun
    cases hrun
  obtain ⟨hmul, hne⟩ := hsize.size_eq hn
  simp only [hsize, true_and]
  rw [free, if_neg hn, isPageFree, if_neg hn, hmul, ok_bind, Usize.rem_eq hne, ok_bind]
  by_cases hoff : addr % (BASIC_PAGE_SIZE * n % 2 ^ 64) ≠ 0
  · rw [if_pos hoff, ok_bind]
    exact iff_of_true ⟨_, _, rfl, fun _ _ => rfl⟩ (Or.inl hoff)
  rw [if_neg hoff]
  cases hnext : checkedNextPowerOfTwo n with
  | none =>
      refine iff_of_true ⟨_, _, rfl, fun _ _ => rfl⟩ (Or.inr ?_)
      exact checkedNextPowerOfTwo_eq_none_iff.mp hnext
  | some p =>
      obtain ⟨rfl, -⟩ := eq_clog_of_checkedNextPowerOfTwo hnext
      have hlast : s.zones.length - Nat.clog 2 n = 0 := by
        have hle := Nat.le_pow_clog (show 1 < 2 by omega) n
        by_contra hpos
        have := hbig (Nat.clog 2 n) (by omega)
        omega
      refine iff_of_false ?_ ?_
      · rintro ⟨r, s', hrun, -⟩
        simp only [Nat.log2_two_pow, coalesce, hlast] at hrun
        cases hrun
      · rintro (h | h)
        · exact hoff h
        · rw [checkedNextPowerOfTwo_eq_none_iff.mpr h] at hnext
          cases hnext

end BuddyAllocator

open BuddyAllocator

variable {m : Overflow} {T z : ℕ} {M : Set ℕ} {s : BuddyAllocator} {pool : List Node}

/-- **Which bad arguments are reported**, in any state of a run and for all arguments:
exactly when a request for pages, a question about a range, and a range given back that is
larger than every block, get an answer. -/
theorem pmm_reports_iff (hz : z ≤ 51) (hT : T < 2 ^ z)
    (h : Served m T (Client.start z pool).pmm M s) :
    (∀ al n, Reports s (s.allocate m al n) ↔ AllocateReports s al n) ∧
    (∀ addr n, (∃ r, s.isPageFree m addr n = .ok r) ↔ n = 0 ∨ Sizable m n) ∧
    ∀ addr n, (∀ i < s.zones.length, 2 ^ i < n) →
      (Reports s (s.free m addr n) ↔ FreeReports m addr n) := by
  have hI := h.inv hz hT
  exact ⟨fun _ _ => allocate_reports_iff hI, fun _ _ => isPageFree_ok_iff hI,
    fun _ _ hbig => free_reports_iff hbig⟩

/-- The four pages are handed out, and a question and a large range get their answers. -/
theorem four_pages_report :
    Reports fourPages (fourPages.allocate .checked 1 4) ∧
      (∃ r, fourPages.isPageFree .checked 0x6000 3 = .ok r) ∧
      Reports fourPages (fourPages.free .checked 0x1000 9) := by
  have hclog : Nat.clog 2 4 = 2 := Nat.clog_pow 2 2 (by omega)
  have hfirst : fourPages.firstBlock 1 2 = some (2, 0x4000) := by decide
  obtain ⟨hallocate, hquestion, hfree⟩ :=
    pmm_reports_iff (show 4 ≤ 51 by omega) (show 8 < 2 ^ 4 by omega) fourPages_served
  refine ⟨(hallocate 1 4).mpr ?_, (hquestion _ _).mpr ?_, (hfree _ _ (by decide)).mpr ?_⟩
  · refine Or.inr (Or.inr (Or.inr (Or.inl ⟨by decide, fun b hb => ?_⟩)))
    rw [hclog, hfirst] at hb
    cases hb
    rw [hclog]
    decide
  · exact Or.inr (Or.inl (by decide))
  · exact Or.inr ⟨Or.inl (by decide), Or.inl (by decide)⟩

/-- **Arguments that are not reported.**  Both states have nodes in the pool.  An alignment
or a count of 2^52 pages overflows, or divides by zero; nine pages given back are more
than the largest block; and one node is not enough to split eight pages down to one. -/
theorem bad_arguments_panic :
    Served .checked 8 (Client.start 4 smallPool).pmm (∅ ∪ Set.Ico 4 (4 + 4)) fourPages ∧
      fourPages.freelist ≠ [] ∧
      fourPages.allocate .checked (2 ^ 52) 1 = .error .overflow ∧
      fourPages.allocate .wrapping (2 ^ 52) 1 = .error .remByZero ∧
      fourPages.isPageFree .checked 0 (2 ^ 52) = .error .overflow ∧
      fourPages.isPageFree .wrapping 0 (2 ^ 52) = .error .remByZero ∧
      fourPages.free .checked 0 9 = .error .unreachable ∧
      Served .checked 8 (Client.start 4 [⟨0, 0⟩, ⟨24, 0⟩]).pmm (∅ ∪ Set.Ico 0 (0 + 8))
        ⟨[[], [], [], [⟨24, 0⟩]], [⟨0, 0⟩]⟩ ∧
      BuddyAllocator.allocate .checked ⟨[[], [], [], [⟨24, 0⟩]], [⟨0, 0⟩]⟩ 1 1 =
        .error .poolEmpty := by
  refine ⟨fourPages_served, by decide, by decide +kernel, by decide +kernel, by decide +kernel,
    by decide +kernel, by decide, ?_, by decide⟩
  exact .region .start 0 8 (Set.disjoint_empty _) (by omega) (by decide)

end Funderberker

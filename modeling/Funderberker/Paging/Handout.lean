import Funderberker.Paging.Manager

/-!
# Runs of the virtual address allocator

`handout` looks up the next page number, asks `align_offset` how far it is from the
alignment, and adds the answer to the count that it skips.  Two things go wrong when the
next number is not aligned.  The pointer has a pointee of size zero, so the answer is
`usize::MAX` and not the distance; and the padding is skipped after the number that is
returned, not before it.  A build that checks stops at the addition; a build that wraps
returns the number as it is and skips one page too few, so the next range overlaps.

The ranges are aligned and disjoint exactly when no padding is ever needed.

## Main definitions

* `HandoutCall`, `handouts` — calls, and a run of them.
* `AlignedDisjoint` — what a run should return.
* `InStep` — no call needs padding.

## Main results

* `handouts_aligned_disjoint_iff`
* `handouts_misaligned` — a run that needs padding, in both builds.
-/

namespace Funderberker

open Panicking

/-- The largest page number, `Id::MAX_ID`. -/
def MAX_ID : ℕ := 2 ^ 64 - 1

/-- One call of `handout`. -/
structure HandoutCall where
  count : ℕ
  pageAlignment : ℕ
  deriving DecidableEq, Repr

/-- The page numbers that a call which returned `id` has reserved. -/
def HandoutCall.range (c : HandoutCall) (id : ℕ) : Set ℕ := Set.Ico id (id + c.count)

namespace VirtualAddressAllocator

/-- An allocator whose first page number is `start`, as `new` makes it. -/
def startingFrom (start : ℕ) : VirtualAddressAllocator := ⟨⟨start, MAX_ID⟩⟩

/-- Serve calls from left to right and collect the page numbers. -/
def handouts (m : Overflow) (vaa : VirtualAddressAllocator) :
    List HandoutCall → Except Panic (List ℕ × VirtualAddressAllocator)
  | [] => .ok ([], vaa)
  | c :: cs => do
      let (addr, vaa) ← vaa.handout m c.count c.pageAlignment
      let (ids, vaa) ← handouts m vaa cs
      .ok (addr / BASIC_PAGE_SIZE :: ids, vaa)

/-- Every number is a multiple of what its call asked for, and no page is reserved
twice. -/
structure AlignedDisjoint (calls : List HandoutCall) (ids : List ℕ) : Prop where
  aligned : List.Forall₂ (fun c id => c.pageAlignment ∣ id) calls ids
  disjoint : (calls.zip ids).Pairwise fun x y => Disjoint (x.1.range x.2) (y.1.range y.2)

/-- The pages of a run of calls. -/
def total (calls : List HandoutCall) : ℕ := (calls.map HandoutCall.count).sum

/-- Every call's alignment divides the start plus the counts of the calls before it. -/
def InStep (start : ℕ) (calls : List HandoutCall) : Prop :=
  ∀ before c after, calls = before ++ c :: after → c.pageAlignment ∣ start + total before

variable {m : Overflow} {next start : ℕ} {c : HandoutCall} {calls : List HandoutCall}

@[simp] theorem total_nil : total [] = 0 := rfl

@[simp] theorem total_cons (c : HandoutCall) (calls : List HandoutCall) :
    total (c :: calls) = c.count + total calls := rfl

theorem inStep_nil (start : ℕ) : InStep start [] := by
  intro before c after h
  simp at h

theorem inStep_cons : InStep start (c :: calls) ↔
    c.pageAlignment ∣ start ∧ InStep (start + c.count) calls := by
  constructor
  · intro h
    refine ⟨by simpa using h [] c calls rfl, ?_⟩
    intro before d after heq
    have := h (c :: before) d after (by rw [heq]; rfl)
    rwa [total_cons, ← Nat.add_assoc] at this
  · rintro ⟨hdvd, h⟩ before d after heq
    cases before with
    | nil =>
        obtain ⟨rfl, rfl⟩ := List.cons.inj heq
        simpa using hdvd
    | cons e before =>
        obtain ⟨rfl, htail⟩ := List.cons.inj heq
        rw [total_cons, ← Nat.add_assoc]
        exact h before d after htail

/-! ## One call -/

theorem alignOffset_of_dvd {align : ℕ} (hpow : isPowerOfTwo align = true) (hdvd : align ∣ next) :
    alignOffset next align = .ok 0 := by
  rw [alignOffset, if_neg (not_not.mpr hpow), if_pos (Nat.mod_eq_zero_of_dvd hdvd)]

theorem alignOffset_of_not_dvd {align : ℕ} (hpow : isPowerOfTwo align = true)
    (hdvd : ¬ align ∣ next) : alignOffset next align = .ok (2 ^ 64 - 1) := by
  rw [alignOffset, if_neg (not_not.mpr hpow), if_neg fun h => hdvd (Nat.dvd_of_mod_eq_zero h)]

/-- What a call does once the count that it skips is known. -/
theorem handout_of_skip {skip total : ℕ} (hskip : alignOffset next c.pageAlignment = .ok skip)
    (htotal : Usize.add m skip c.count = .ok total) (hfit : next + total ≤ 2 ^ 52)
    (hnext : next < 2 ^ 52) :
    (startingFrom next).handout m c.count c.pageAlignment =
      .ok (next * BASIC_PAGE_SIZE, startingFrom (next + total)) := by
  have hmul : next * BASIC_PAGE_SIZE < 2 ^ 64 := by
    rw [BASIC_PAGE_SIZE]
    omega
  have hmax : ¬ next > MAX_ID := by
    rw [MAX_ID]
    omega
  simp only [handout, startingFrom, hskip, htotal, IdHander.handoutAndSkip, hmax, if_false,
    Usize.add_eq (show next + total < 2 ^ 64 by omega), Usize.mul_eq hmul, ok_bind]

/-- On an aligned number the call reserves the pages from it. -/
theorem handout_of_dvd (hpow : isPowerOfTwo c.pageAlignment = true)
    (hdvd : c.pageAlignment ∣ next) (hcount : 1 ≤ c.count) (hfit : next + c.count ≤ 2 ^ 52) :
    (startingFrom next).handout m c.count c.pageAlignment =
      .ok (next * BASIC_PAGE_SIZE, startingFrom (next + c.count)) := by
  refine handout_of_skip (alignOffset_of_dvd hpow hdvd) ?_ hfit (by omega)
  rw [Usize.add_eq (by omega), Nat.zero_add]

/-- On any other number the call returns the number all the same, if it returns. -/
theorem handout_of_not_dvd (hpow : isPowerOfTwo c.pageAlignment = true)
    (hdvd : ¬ c.pageAlignment ∣ next) (hcount : 1 ≤ c.count) (hfit : next + c.count ≤ 2 ^ 52)
    {x : VirtAddr × VirtualAddressAllocator}
    (h : (startingFrom next).handout m c.count c.pageAlignment = .ok x) :
    x.1 = next * BASIC_PAGE_SIZE := by
  have hskip := alignOffset_of_not_dvd hpow hdvd
  have hbig : ¬ 2 ^ 64 - 1 + c.count < 2 ^ 64 := by omega
  cases m with
  | checked =>
      simp only [handout, startingFrom, hskip, Usize.add, Overflow.fit, if_neg hbig, ofOption_none,
        ok_bind, error_bind] at h
      cases h
  | wrapping =>
      have htotal : Usize.add .wrapping (2 ^ 64 - 1) c.count = .ok (c.count - 1) := by
        rw [Usize.add, Overflow.fit.eq_def, if_neg hbig, ofOption_some]
        congr 1
        omega
      rw [handout_of_skip hskip htotal (by omega) (by omega)] at h
      cases h
      rfl

/-! ## Runs -/

/-- The numbers of a run that is in step follow one another. -/
theorem handouts_of_inStep (hcalls : ∀ c ∈ calls, 1 ≤ c.count ∧ isPowerOfTwo c.pageAlignment)
    (hfit : start + total calls ≤ 2 ^ 52) (h : InStep start calls) :
    ∃ ids, handouts m (startingFrom start) calls =
        .ok (ids, startingFrom (start + total calls)) ∧
      AlignedDisjoint calls ids ∧ ∀ x ∈ calls.zip ids, start ≤ x.2 := by
  induction calls generalizing start with
  | nil => exact ⟨[], rfl, ⟨.nil, .nil⟩, by simp⟩
  | cons c calls ih =>
      obtain ⟨hdvd, h⟩ := inStep_cons.mp h
      obtain ⟨hcount, hpow⟩ := hcalls c List.mem_cons_self
      rw [total_cons] at hfit
      obtain ⟨ids, hrun, hids, hge⟩ := ih
        (fun d hd => hcalls d (List.mem_cons_of_mem c hd)) (by omega) h
      refine ⟨start :: ids, ?_, ⟨.cons hdvd hids.aligned, ?_⟩, ?_⟩
      · simp only [handouts, handout_of_dvd hpow hdvd hcount (show start + c.count ≤ 2 ^ 52 by omega),
          hrun, ok_bind, Nat.mul_div_cancel _ basicPageSize_pos, total_cons, Nat.add_assoc]
      · -- The ranges of the later calls start where this one ends.
        rw [List.zip_cons_cons]
        refine .cons ?_ hids.disjoint
        intro y hy
        have hle := hge y hy
        rw [Set.disjoint_left]
        intro p hp hq
        simp only [HandoutCall.range, Set.mem_Ico] at hp hq
        omega
      · intro x hx
        rw [List.zip_cons_cons, List.mem_cons] at hx
        rcases hx with rfl | hx
        · exact le_refl _
        · exact le_trans (Nat.le_add_right _ _) (hge x hx)

/-- A run that returns aligned numbers is in step. -/
theorem inStep_of_aligned (hcalls : ∀ c ∈ calls, 1 ≤ c.count ∧ isPowerOfTwo c.pageAlignment)
    (hfit : start + total calls ≤ 2 ^ 52) {ids : List ℕ} {vaa : VirtualAddressAllocator}
    (hrun : handouts m (startingFrom start) calls = .ok (ids, vaa))
    (h : List.Forall₂ (fun c id => c.pageAlignment ∣ id) calls ids) : InStep start calls := by
  induction calls generalizing start ids with
  | nil => exact inStep_nil start
  | cons c calls ih =>
      obtain ⟨hcount, hpow⟩ := hcalls c List.mem_cons_self
      rw [total_cons] at hfit
      rw [handouts] at hrun
      obtain ⟨⟨addr, vaa₁⟩, hcall, hrun⟩ := bind_eq_ok.mp hrun
      obtain ⟨⟨rest, vaa₂⟩, hrest, hrun⟩ := bind_eq_ok.mp hrun
      cases hrun
      obtain ⟨hfirst, htail⟩ := List.forall₂_cons.mp h
      have hdvd : c.pageAlignment ∣ start := by
        by_contra hdvd
        have haddr := handout_of_not_dvd hpow hdvd hcount (by omega) hcall
        simp only at haddr
        rw [haddr, Nat.mul_div_cancel _ basicPageSize_pos] at hfirst
        exact hdvd hfirst
      rw [handout_of_dvd hpow hdvd hcount (by omega)] at hcall
      cases hcall
      exact inStep_cons.mpr ⟨hdvd, ih (fun d hd => hcalls d (List.mem_cons_of_mem c hd)) (by omega)
        hrest htail⟩

/-- **When the ranges are aligned and disjoint.**  For calls that stay within the page
numbers of a 64-bit address space, in either build: all of them return, with aligned and
disjoint ranges, exactly when each alignment divides the start plus the counts before
it. -/
theorem handouts_aligned_disjoint_iff
    (hcalls : ∀ c ∈ calls, 1 ≤ c.count ∧ isPowerOfTwo c.pageAlignment)
    (hfit : start + total calls ≤ 2 ^ 52) :
    (∃ ids vaa, handouts m (startingFrom start) calls = .ok (ids, vaa) ∧
      AlignedDisjoint calls ids) ↔ InStep start calls := by
  constructor
  · rintro ⟨ids, vaa, hrun, hids⟩
    exact inStep_of_aligned hcalls hfit hrun hids.aligned
  · intro h
    obtain ⟨ids, hrun, hids, -⟩ := handouts_of_inStep (m := m) hcalls hfit h
    exact ⟨ids, _, hrun, hids⟩

theorem example_handouts :
    InStep 512 [⟨512, 512⟩, ⟨3, 1024⟩] ∧
      ∃ ids vaa, handouts .checked (startingFrom 512) [⟨512, 512⟩, ⟨3, 1024⟩] = .ok (ids, vaa) ∧
        AlignedDisjoint [⟨512, 512⟩, ⟨3, 1024⟩] ids := by
  have hstep : InStep 512 [⟨512, 512⟩, ⟨3, 1024⟩] :=
    inStep_cons.mpr ⟨by decide, inStep_cons.mpr ⟨by decide, inStep_nil _⟩⟩
  exact ⟨hstep, (handouts_aligned_disjoint_iff (by decide) (by decide)).mpr hstep⟩

/-- **A run that is neither aligned nor disjoint.**  From page number 1, a call that asks
for an even number is given 1, and so is the next call; a build that checks stops at the
first call. -/
theorem handouts_misaligned :
    handouts .wrapping (startingFrom 1) [⟨1, 2⟩, ⟨1, 1⟩] = .ok ([1, 1], startingFrom 2) ∧
      ¬ 2 ∣ 1 ∧ ¬ AlignedDisjoint [⟨1, 2⟩, ⟨1, 1⟩] [1, 1] ∧
      ¬ Disjoint (HandoutCall.range ⟨1, 2⟩ 1) (HandoutCall.range ⟨1, 1⟩ 1) ∧
      handouts .checked (startingFrom 1) [⟨1, 2⟩, ⟨1, 1⟩] = .error .overflow := by
  refine ⟨by decide, by decide, fun h => ?_, fun h => ?_, by decide⟩
  · exact absurd (List.forall₂_cons.mp h.aligned).1 (by decide)
  · exact Set.disjoint_left.mp h (show 1 ∈ Set.Ico 1 (1 + 1) by simp)
      (show 1 ∈ Set.Ico 1 (1 + 1) by simp)

end VirtualAddressAllocator
end Funderberker

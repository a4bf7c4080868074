import Funderberker.Pmm.Run

/-!
# When a request for pages succeeds

`find_bucket` looks at the first address of each held block and at no address inside
it.  That loses nothing: an aligned range of free pages lies in one held block of at
least its size, and either the block is at least as large as the alignment, so its own
first address is aligned, or the alignment is larger than the block, and then the only
aligned address in the block is its first one.

A request therefore fails for want of a block exactly when no range of the rounded-up
size is free at a suitable address.  Splitting the block needs one node for each zone
that is passed; `Roomy` pools have them.

## Main definitions

* `Suitable` — the addresses a request may be answered with.
* `Roomy` — enough nodes for any split.

## Main results

* `allocate_complete` — for every reachable state.
-/

namespace Funderberker

open Panicking DyadicBlock

namespace BuddyAllocator

variable {m : Overflow} {s s' : BuddyAllocator} {T al n e f i j k c : ℕ} {a addr : PhysAddr}

/-- An address for `k` pages at a multiple of `al` pages: aligned to both, and all `k`
pages are free. -/
def Suitable (s : BuddyAllocator) (al k : ℕ) (a : PhysAddr) : Prop :=
  a % (BASIC_PAGE_SIZE * max al k) = 0 ∧ pagesFrom a k ⊆ s.freePages

/-- Enough nodes to split a block of the top zone down to one page: the node of the
block itself is one of them. -/
def Roomy (s : BuddyAllocator) : Prop := s.zones.length ≤ s.freelist.length + 2

instance (s : BuddyAllocator) : Decidable (Roomy s) :=
  inferInstanceAs (Decidable (s.zones.length ≤ s.freelist.length + 2))

/-! ## Suitable addresses and held blocks -/

theorem suitable_iff : Suitable s (2 ^ f) (2 ^ e) a ↔
    ∃ c, a = blockAddr e c ∧ 2 ^ f ∣ c * 2 ^ e ∧ points e c ⊆ s.freePages := by
  constructor
  · rintro ⟨hmod, hfree⟩
    have hdvd := Nat.dvd_of_mod_eq_zero hmod
    have hmax : ∀ d, d ≤ max (2 ^ f) (2 ^ e) → (∃ l, d = 2 ^ l) → BASIC_PAGE_SIZE * d ∣ a := by
      rintro _ hle ⟨l, rfl⟩
      refine dvd_trans (Nat.mul_dvd_mul_left _ ?_) hdvd
      rcases le_total (2 ^ f) (2 ^ e) with h | h
      · rw [max_eq_right h] at hle ⊢
        exact Nat.pow_dvd_pow 2 ((Nat.pow_le_pow_iff_right (by omega)).mp hle)
      · rw [max_eq_left h] at hle ⊢
        exact Nat.pow_dvd_pow 2 ((Nat.pow_le_pow_iff_right (by omega)).mp hle)
    obtain ⟨c, rfl⟩ :=
      exists_blockAddr_of_mod (Nat.mod_eq_zero_of_dvd (hmax _ (le_max_right _ _) ⟨e, rfl⟩))
    rw [pagesFrom_blockAddr] at hfree
    refine ⟨c, rfl, ?_, hfree⟩
    exact blockAddr_mod_eq_zero_iff.mp
      (Nat.mod_eq_zero_of_dvd (hmax _ (le_max_left _ _) ⟨f, rfl⟩))
  · rintro ⟨c, rfl, hdvd, hfree⟩
    refine ⟨?_, by rwa [pagesFrom_blockAddr]⟩
    rcases le_total (2 ^ f) (2 ^ e) with h | h
    · rw [max_eq_right h, blockAddr_mod]
    · rw [max_eq_left h, blockAddr_mod_eq_zero_iff]
      exact hdvd

/-- The first page of the block around an aligned page is aligned. -/
theorem dvd_ancestor (hej : e ≤ j) (h : 2 ^ f ∣ c * 2 ^ e) :
    2 ^ f ∣ c / 2 ^ (j - e) * 2 ^ j := by
  rcases le_total f j with hfj | hjf
  · exact dvd_mul_of_dvd_right (Nat.pow_dvd_pow 2 hfj) _
  · -- The alignment is larger than the block, so the page is the first of the block.
    have hsplit : 2 ^ (j - e) * 2 ^ e = 2 ^ j := by rw [← pow_add, Nat.sub_add_cancel hej]
    have hdvd : 2 ^ (j - e) ∣ c := by
      apply Nat.dvd_of_mul_dvd_mul_right (Nat.two_pow_pos e)
      rw [hsplit]
      exact (Nat.pow_dvd_pow 2 hjf).trans h
    rwa [← hsplit, ← Nat.mul_assoc, Nat.div_mul_cancel hdvd]

/-- **Looking at first addresses loses nothing.** -/
theorem exists_suitable_iff (hI : Inv T s) :
    (∃ a, Suitable s (2 ^ f) (2 ^ e) a) ↔
      ∃ j c, e ≤ j ∧ c ∈ s.blocks j ∧ 2 ^ f ∣ c * 2 ^ j := by
  simp only [suitable_iff]
  constructor
  · rintro ⟨a, c, rfl, hdvd, hfree⟩
    obtain ⟨j, hej, hheld⟩ := hI.tiling.exists_mem_of_subset hfree
    exact ⟨j, _, hej, hheld, dvd_ancestor hej hdvd⟩
  · rintro ⟨j, c, hej, hheld, hdvd⟩
    refine ⟨blockAddr j c, c * 2 ^ (j - e), blockAddr_of_le hej, ?_, ?_⟩
    · rwa [Nat.mul_assoc, ← pow_add, Nat.sub_add_cancel hej]
    · refine (points_subset_ancestor hej).trans ?_
      rw [Nat.mul_div_cancel _ (Nat.two_pow_pos _)]
      exact points_subset_cover hheld

/-! ## Enough nodes -/

/-- Not for want of a node. -/
abbrev NotPool (p : Panic) : Prop := p ≠ .poolEmpty

theorem getBuddyAddr_notPool (addr : PhysAddr) (i : ℕ) :
    Yields NotPool (fun _ => True) (getBuddyAddr m addr i) := by
  have hfit : ∀ n, Yields NotPool (fun _ => True) (ofOption Panic.overflow (m.fit 64 n)) := by
    intro n
    refine (Usize.fit_spec m n).mono ?_ fun _ _ => trivial
    rintro _ ⟨rfl, -⟩
    decide
  have hrem : ∀ a b, Yields NotPool (fun _ => True) (Usize.rem a b) := by
    intro a b
    rw [Usize.rem]
    split
    · exact fun h => by cases h
    · trivial
  refine (hfit _).bind fun level _ => (hfit _).bind fun size _ => (hrem _ _).bind fun off _ => ?_
  split
  · exact fun h => by cases h
  refine (hfit _).bind fun double _ => (hrem _ _).bind fun half _ => ?_
  split
  · exact hfit _
  · rw [Usize.sub, Overflow.fitSub.eq_def]
    split
    · trivial
    · cases m with
      | checked => exact fun h => by cases h
      | wrapping => trivial

/-- A split that has a node for each zone it passes does not run out. -/
theorem disbandGo_notPool (h : k ≤ s.freelist.length) :
    Yields NotPool (fun _ => True) (disbandGo m s addr i k) := by
  induction k generalizing s addr i with
  | zero => trivial
  | succ k ih =>
      rw [disbandGo]
      refine (getBuddyAddr_notPool addr i).bind fun buddyAddr _ => ?_
      have hne : s.freelist ≠ [] := by
        intro hnil
        simp [hnil] at h
      rw [pushToZone, List.getLast?_eq_some_getLast hne, ofOption_some, ok_bind, zoneAt]
      cases s.zones[i]? with
      | none => exact fun h => by cases h
      | some zone =>
          apply ih
          simp only [List.length_dropLast]
          omega

/-- The block that is taken leaves its node in the pool. -/
theorem findBucketGo_freelist (h : findBucketGo m s al i k = .ok (.ok (a, j), s')) :
    s'.freelist.length = s.freelist.length + 1 ∧ j < i + k := by
  induction k generalizing i with
  | zero => cases h
  | succ k ih =>
      rw [findBucketGo] at h
      obtain ⟨zone, -, h⟩ := bind_eq_ok.mp h
      obtain ⟨found, -, h⟩ := bind_eq_ok.mp h
      cases found with
      | none =>
          obtain ⟨hlen, hj⟩ := ih h
          exact ⟨hlen, by omega⟩
      | some hit =>
          obtain ⟨s₁, hpop, h⟩ := bind_eq_ok.mp h
          cases h
          exact ⟨popFromZone_freelist hpop, by omega⟩

theorem allocate_notPool (hI : Inv T s) (hroom : Roomy s) (hle : e ≤ s.zones.length)
    (hf : f < 52) : Yields NotPool (fun _ => True) (allocate m s (2 ^ f) (2 ^ e)) := by
  rw [allocate_eq hI (Nat.two_pow_pos e).ne' (Nat.pow_le_pow_right (by omega) hle)
    (isPowerOfTwo_two_pow f), Nat.clog_pow 2 e (by omega), findBucket]
  obtain ⟨⟨r, s'⟩, hr, -⟩ := findBucketGo_spec (m := m) hI
    (show e + (s.zones.length - e) = s.zones.length by omega) (Nat.two_pow_pos f)
    (pageSize_mul_two_pow_lt_iff.mpr hf)
  rw [hr, ok_bind]
  cases r with
  | error x => trivial
  | ok found =>
      obtain ⟨hlen, hj⟩ := findBucketGo_freelist hr
      refine (disbandGo_notPool ?_).bind fun _ _ => trivial
      unfold Roomy at hroom
      omega

end BuddyAllocator

open BuddyAllocator

variable {m : Overflow} {T z al n : ℕ} {g : Client} {pool : List Node}

/-- **Requests are complete up to natural alignment.**  Let `k` be the page count
rounded up to a power of two.  A request fails with `NoAvailableBlock` exactly when no
address that is a multiple of both the alignment and `k` pages has `k` free pages;
otherwise, when there are nodes for the split, it returns such an address. -/
theorem allocate_complete (hz : z ≤ 51) (hT : T < 2 ^ z)
    (h : Reachable m T (Client.start z pool) g) (hal : IsPow2 al)
    (hfit : BASIC_PAGE_SIZE * al < 2 ^ 64) (hn : 1 ≤ n) (hle : n ≤ 2 ^ g.pmm.zones.length)
    (hroom : Roomy g.pmm) :
    ((∃ s, g.pmm.allocate m al n = .ok (.error .noAvailableBlock, s)) ↔
      ¬ ∃ a, Suitable g.pmm al (2 ^ Nat.clog 2 n) a) ∧
    ((∃ a, Suitable g.pmm al (2 ^ Nat.clog 2 n) a) →
      ∃ a s, g.pmm.allocate m al n = .ok (.ok a, s) ∧
        Suitable g.pmm al (2 ^ Nat.clog 2 n) a) := by
  have hI := (h.sound hz hT).inv
  have hlen := hI.zones_le
  obtain ⟨f, rfl⟩ := hal
  have hf : f < 52 := pageSize_mul_two_pow_lt_iff.mp hfit
  have hclog : Nat.clog 2 n ≤ g.pmm.zones.length := Nat.clog_le_of_le_pow hle
  rw [allocate_round hI (by omega) hle]
  have hspec := allocate_spec (m := m) (e := Nat.clog 2 n) hI hf
  have hroom' := allocate_notPool (m := m) hI hroom hclog hf
  -- The call returns, and its outcome is one of three.
  cases hrun : g.pmm.allocate m (2 ^ f) (2 ^ Nat.clog 2 n) with
  | error p => exact absurd (hspec.reason hrun).choose_spec.2.1 (hroom'.reason hrun)
  | ok r =>
      cases hspec.post hrun with
      | tooBig hbig => omega
      | none hnone =>
          have hno : ¬ ∃ a, Suitable g.pmm (2 ^ f) (2 ^ Nat.clog 2 n) a := by
            rw [exists_suitable_iff hI]
            rintro ⟨j, c, hej, hheld, hdvd⟩
            exact hnone j c hej hheld hdvd
          exact ⟨⟨fun _ => hno, fun _ => ⟨_, rfl⟩⟩, fun hsome => absurd hsome hno⟩
      | some c s hdvd hfree hfrees =>
          have hsuit : Suitable g.pmm (2 ^ f) (2 ^ Nat.clog 2 n) (blockAddr (Nat.clog 2 n) c) :=
            suitable_iff.mpr ⟨c, rfl, hdvd, hfree⟩
          refine ⟨⟨?_, fun hno => absurd ⟨_, hsuit⟩ hno⟩, fun _ => ⟨_, s, rfl, hsuit⟩⟩
          rintro ⟨s', hs'⟩
          cases hs'

/-- One page of the small allocator is left; a request for one page is answered. -/
theorem small_allocate_complete :
    Roomy smallPmm ∧ ∃ a s, smallPmm.allocate .checked 1 1 = .ok (.ok a, s) ∧
      Suitable smallPmm 1 (2 ^ Nat.clog 2 1) a := by
  refine ⟨by decide, (allocate_complete (by omega) (by omega) small_reachable ⟨0, rfl⟩ (by decide)
    (by omega) (by decide) (by decide)).2 ?_⟩
  refine ⟨4096, by decide, fun p hp => ?_⟩
  obtain rfl : p = 1 := by
    have hdiv : 4096 / BASIC_PAGE_SIZE = 1 := by decide
    simp only [pagesFrom, Nat.clog_one_right, pow_zero, hdiv, Set.mem_Ico] at hp
    omega
  exact ⟨0, by decide⟩

end Funderberker

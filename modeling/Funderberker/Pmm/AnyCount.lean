import Funderberker.Pmm.Complete
import Funderberker.Pmm.Served

/-!
# Counts that are no powers of two

`allocate`, `allocate_at` and `free` round a count up to a power of two, but they check
an address against the count as it was passed.  For a power of two the two are the same.
For other counts `allocate` returns addresses that `free` then refuses with the same
count, and `allocate_at` goes on with addresses at which no block of the rounded size
begins: the block it then takes is another one.

## Main definitions

* `firstBlock` — the block that `find_bucket` takes.
* `ReservesExactly`, `Reservable` — what `allocate_at` should do, and when it does.

## Main results

* `allocate_free_iff` — when a successful allocation can be freed with the same count.
* `allocateAt_reserves_iff` — when `allocate_at` reserves what was asked for.
-/

namespace Funderberker

open Panicking DyadicBlock

namespace BuddyAllocator

variable {m : Overflow} {s s' : BuddyAllocator} {T al n e f i j k c : ℕ} {a addr : PhysAddr}

/-! ## The block that is taken -/

/-- The held blocks of `k` zones from zone `i` up, each with its zone, in the order in which
`find_bucket` looks at them. -/
def blocksFrom (s : BuddyAllocator) (i k : ℕ) : List (ℕ × PhysAddr) :=
  (List.range' i k).flatMap fun j => (s.addrs j).map fun a => (j, a)

/-- The first block, from zone `i` up, at a multiple of `al` pages. -/
def firstBlock (s : BuddyAllocator) (al i : ℕ) : Option (ℕ × PhysAddr) :=
  (s.blocksFrom i (s.zones.length - i)).find? fun b => b.2 % (BASIC_PAGE_SIZE * al) = 0

theorem findBucketGo_first (hal : 0 < al) (hfit : BASIC_PAGE_SIZE * al < 2 ^ 64)
    {r : Except PmmError (PhysAddr × ℕ)} (h : findBucketGo m s al i k = .ok (r, s')) :
    (s.blocksFrom i k).find? (fun b => b.2 % (BASIC_PAGE_SIZE * al) = 0) =
      r.toOption.map Prod.swap := by
  induction k generalizing i with
  | zero =>
      cases h
      rfl
  | succ k ih =>
      have hne : BASIC_PAGE_SIZE * al ≠ 0 := (Nat.mul_pos basicPageSize_pos hal).ne'
      rw [findBucketGo] at h
      obtain ⟨zone, hzone, h⟩ := bind_eq_ok.mp h
      simp only [Usize.mul_eq hfit, Usize.rem_eq hne, ok_bind] at h
      obtain ⟨found, hfound, h⟩ := bind_eq_ok.mp h
      have hfirst := find?_of_findEnum (q := fun node : Node =>
        node.data % (BASIC_PAGE_SIZE * al) = 0) (fun _ _ => rfl) hfound
      have haddrs : s.addrs i = zone.map Node.data := by
        rw [zoneAt] at hzone
        cases hget : s.zones[i]? with
        | none =>
            rw [hget] at hzone
            cases hzone
        | some zone' =>
            rw [hget] at hzone
            cases hzone
            simp [addrs, hget]
      have hsplit : (s.blocksFrom i (k + 1)).find? (fun b => b.2 % (BASIC_PAGE_SIZE * al) = 0) =
          ((found.map Prod.snd).map fun node => (i, node.data)).or
            ((s.blocksFrom (i + 1) k).find? fun b => b.2 % (BASIC_PAGE_SIZE * al) = 0) := by
        rw [blocksFrom, List.range'_succ, List.flatMap_cons, List.find?_append, haddrs,
          List.map_map, List.find?_map, ← hfirst]
        rfl
      rw [hsplit]
      cases found with
      | none => exact ih h
      | some hit =>
          obtain ⟨s₁, -, h⟩ := bind_eq_ok.mp h
          cases h
          rfl

/-- What `allocate` returns is the address of the first block at hand. -/
theorem firstBlock_of_allocate (hI : Inv T s) (h : allocate m s al n = .ok (.ok a, s')) :
    n ≠ 0 ∧ n ≤ 2 ^ s.zones.length ∧ ∃ j, s.firstBlock al (Nat.clog 2 n) = some (j, a) := by
  by_cases hargs : n = 0 ∨ 2 ^ s.zones.length < n ∨ isPowerOfTwo al = false
  · obtain ⟨x, hx⟩ := allocate_refused (m := m) hI hargs
    rw [hx] at h
    cases h
  simp only [not_or, not_lt, Bool.not_eq_false] at hargs
  obtain ⟨hn, hle, hal⟩ := hargs
  rw [allocate_eq hI hn hle hal] at h
  obtain ⟨⟨r, s₁⟩, hfind, h⟩ := bind_eq_ok.mp h
  obtain ⟨f, rfl⟩ := exists_of_isPowerOfTwo hal
  refine ⟨hn, hle, ?_⟩
  rcases Nat.lt_or_ge f 52 with hf | hf
  · have hfirst := findBucketGo_first (Nat.two_pow_pos f) (pageSize_mul_two_pow_lt_iff.mpr hf) hfind
    cases r with
    | error x => cases h
    | ok found =>
        obtain ⟨s₂, -, h⟩ := bind_eq_ok.mp h
        cases h
        exact ⟨found.2, hfirst⟩
  · have hnone := findBucketGo_of_overflow hf hfind
    cases hnone
    cases h

/-! ## Freeing with the same count -/

/-- A count that divides its address is freed like the rounded-up one. -/
theorem free_round (hn : n ≠ 0) (hfit : BASIC_PAGE_SIZE * n < 2 ^ 64) (hclog : Nat.clog 2 n < 52)
    (hmod : addr % (BASIC_PAGE_SIZE * n) = 0)
    (hround : addr % (BASIC_PAGE_SIZE * 2 ^ Nat.clog 2 n) = 0) :
    free m s addr n = free m s addr (2 ^ Nat.clog 2 n) := by
  have hpos := (Nat.two_pow_pos (Nat.clog 2 n)).ne'
  rw [free, free, if_neg hn, if_neg hpos, isPageFree_eq hn hfit hmod,
    isPageFree_eq hpos (pageSize_mul_two_pow_lt_iff.mpr hclog) hround,
    Nat.clog_pow 2 _ (by omega), checkedNextPowerOfTwo_eq (by omega),
    checkedNextPowerOfTwo_two_pow (by omega)]

/-- Other addresses are refused. -/
theorem free_misaligned (hn : n ≠ 0) (hfit : BASIC_PAGE_SIZE * n < 2 ^ 64)
    (hmod : addr % (BASIC_PAGE_SIZE * n) ≠ 0) :
    free m s addr n = .ok (.error .invalidAlignment, s) := by
  have hne : BASIC_PAGE_SIZE * n ≠ 0 :=
    (Nat.mul_pos basicPageSize_pos (Nat.pos_of_ne_zero hn)).ne'
  rw [free, if_neg hn, isPageFree, if_neg hn, Usize.mul_eq hfit, ok_bind, Usize.rem_eq hne,
    ok_bind, if_pos hmod, ok_bind]

end BuddyAllocator

open BuddyAllocator

variable {m : Overflow} {T z al n : ℕ} {M : Set ℕ} {s s₁ : BuddyAllocator} {a addr : PhysAddr}
  {pool : List Node}

/-- **Which allocations can be freed with the same count.**  The first block of the zones,
from the rounded-up count on, that is at a multiple of the alignment is the one handed
out; freeing it again with the count that was asked for works exactly when its address is
a multiple of that count of pages. -/
theorem allocate_free_iff (hz : z ≤ 51) (hT : T < 2 ^ z)
    (h : Served m T (Client.start z pool).pmm M s) (hrun : s.allocate m al n = .ok (.ok a, s₁)) :
    (∃ s₂, s₁.free m a n = .ok (.ok (), s₂) ∧ s₂.freePages = s.freePages) ↔
      ∃ b, s.firstBlock al (Nat.clog 2 n) = some b ∧ b.2 % (BASIC_PAGE_SIZE * n) = 0 := by
  have hI := h.inv hz hT
  obtain ⟨hn, hle, j, hfirst⟩ := firstBlock_of_allocate hI hrun
  have hfit := pageSize_mul_fits hI hle
  rcases allocate_any hI hrun with ⟨x, hx⟩ | ⟨c, ha, hsub, hfrees⟩
  · cases hx
  obtain rfl : a = blockAddr (Nat.clog 2 n) c := Except.ok.inj ha
  constructor
  · rintro ⟨s₂, hfree, -⟩
    refine ⟨_, hfirst, by_contra fun hmod => ?_⟩
    rw [free_misaligned hn hfit hmod] at hfree
    cases hfree
  · rintro ⟨b, hb, hmod⟩
    obtain rfl := Option.some.inj (hb.symm.trans hfirst)
    have hlen := hI.zones_le
    have hclog : Nat.clog 2 n ≤ s.zones.length := Nat.clog_le_of_le_pow hle
    obtain ⟨s₂, hfree, -, hback⟩ := free_taken (m := m) hI hsub hfrees
    exact ⟨s₂, by rw [free_round hn hfit (by omega) hmod (blockAddr_mod _ c), hfree], hback⟩

/-- Four pages handed over, from page 4 on. -/
def fourPages : BuddyAllocator := ⟨[[], [], [⟨48, 0x4000⟩], []], [⟨0, 0⟩, ⟨24, 0⟩]⟩

theorem fourPages_served :
    Served .checked 8 (Client.start 4 smallPool).pmm (∅ ∪ Set.Ico 4 (4 + 4)) fourPages :=
  .region .start 4 4 (Set.disjoint_empty _) (by omega) (by decide)

/-- All four of them are handed out and given back. -/
theorem four_pages_freed : ∃ s₂,
    BuddyAllocator.free .checked ⟨[[], [], [], []], [⟨0, 0⟩, ⟨24, 0⟩, ⟨48, 0x4000⟩]⟩ 0x4000 4 =
      .ok (.ok (), s₂) ∧ s₂.freePages = fourPages.freePages := by
  have hclog : Nat.clog 2 4 = 2 := Nat.clog_pow 2 2 (by omega)
  have hrun : fourPages.allocate .checked 1 4 =
      .ok (.ok 0x4000, ⟨[[], [], [], []], [⟨0, 0⟩, ⟨24, 0⟩, ⟨48, 0x4000⟩]⟩) := by decide
  refine (allocate_free_iff (by omega) (by omega) fourPages_served hrun).mpr ?_
  rw [hclog]
  exact ⟨(2, 0x4000), by decide, by decide⟩

/-- **An allocation that cannot be freed.**  Three pages are handed out at page 4, and page
4 is no multiple of three. -/
theorem three_pages_not_freed :
    Served .checked 8 (Client.start 4 smallPool).pmm (∅ ∪ Set.Ico 4 (4 + 4)) fourPages ∧
      fourPages.allocate .checked 1 3 =
        .ok (.ok 0x4000, ⟨[[], [], [], []], [⟨0, 0⟩, ⟨24, 0⟩, ⟨48, 0x4000⟩]⟩) ∧
      BuddyAllocator.free .checked ⟨[[], [], [], []], [⟨0, 0⟩, ⟨24, 0⟩, ⟨48, 0x4000⟩]⟩ 0x4000 3 =
        .ok (.error .invalidAlignment,
          ⟨[[], [], [], []], [⟨0, 0⟩, ⟨24, 0⟩, ⟨48, 0x4000⟩]⟩) :=
  ⟨fourPages_served, by decide, by decide⟩

/-! ## Reserving given pages -/

/-- `allocate_at` returns; on success the pages asked for were free and are not any more,
and nothing outside the rounded-up range changes; on failure nothing changes at all. -/
def ReservesExactly (m : Overflow) (s : BuddyAllocator) (addr : PhysAddr) (n : ℕ) : Prop :=
  ∃ r s', s.allocateAt m addr n = .ok (r, s') ∧
    (r = .ok () → pagesFrom addr n ⊆ s.freePages ∧ Disjoint (pagesFrom addr n) s'.freePages ∧
      ∀ p, p ∉ pagesFrom addr (2 ^ Nat.clog 2 n) → (p ∈ s'.freePages ↔ p ∈ s.freePages)) ∧
    ∀ x, r = .error x → s' = s

/-- The arguments are refused at once, or, if a block of at least the rounded-up size is
around the address, then the address is a multiple of that size and there is a node for
each zone that splitting the block passes. -/
def Reservable (s : BuddyAllocator) (addr : PhysAddr) (n : ℕ) : Prop :=
  n = 0 ∨ 2 ^ s.zones.length < n ∨ addr % (BASIC_PAGE_SIZE * n) ≠ 0 ∨
    ∀ j, Nat.clog 2 n ≤ j → addr / BASIC_PAGE_SIZE / 2 ^ j ∈ s.blocks j →
      addr % (BASIC_PAGE_SIZE * 2 ^ Nat.clog 2 n) = 0 ∧ j ≤ Nat.clog 2 n + s.freelist.length + 1

namespace BuddyAllocator

variable {s' : BuddyAllocator} {T e i j k c : ℕ}

/-- A split that is carried out takes one node for each zone. -/
theorem disbandGo_freelist (h : disbandGo m s addr i k = .ok s') :
    s'.freelist.length + k = s.freelist.length := by
  induction k generalizing s addr i with
  | zero =>
      cases h
      rfl
  | succ k ih =>
      rw [disbandGo] at h
      obtain ⟨buddyAddr, -, h⟩ := bind_eq_ok.mp h
      obtain ⟨s₁, hpush, h⟩ := bind_eq_ok.mp h
      have hlen := ih h
      rw [pushToZone] at hpush
      cases hlast : s.freelist.getLast? with
      | none =>
          rw [hlast] at hpush
          cases hpush
      | some node =>
          rw [hlast, ofOption_some, ok_bind] at hpush
          obtain ⟨zone, -, hpush⟩ := bind_eq_ok.mp hpush
          cases hpush
          have hne : s.freelist ≠ [] := by
            intro hnil
            simp [hnil] at hlast
          have hpos := List.length_pos_iff.mpr hne
          simp only [List.length_dropLast] at hlen
          omega

/-- Splitting off a block succeeds exactly when there are nodes for it. -/
theorem disband_ok_iff (hI : Inv T s) (hej : e ≤ j) (h : Took T s j (c / 2 ^ (j - e)) s') :
    (∃ s'', disband m s' (blockAddr e c) e j = .ok s'') ↔ j ≤ e + s'.freelist.length := by
  constructor
  · rintro ⟨s'', hrun⟩
    have := disbandGo_freelist hrun
    omega
  · intro hle
    have hpool : Yields NotPool (fun _ => True) (disband m s' (blockAddr e c) e j) :=
      disbandGo_notPool (by omega)
    cases hrun : disband m s' (blockAddr e c) e j with
    | ok s'' => exact ⟨s'', rfl⟩
    | error x => exact absurd ((disband_spec hI hej h).reason hrun).1 (hpool.reason hrun)

/-- Splitting a block down to a smaller one at its own address. -/
theorem split_ok_iff (hI : Inv T s) (hej : e ≤ j) (h : Took T s j c s') :
    (∃ s'', disband m s' (blockAddr j c) e j = .ok s'') ↔ j ≤ e + s'.freelist.length := by
  rw [blockAddr_of_le hej]
  refine disband_ok_iff hI hej ?_
  rwa [Nat.mul_div_cancel _ (Nat.two_pow_pos _)]

/-- A call that is refused and changes nothing is as it should be. -/
theorem reserves_of_error {x : PmmError} (h : allocateAt m s addr n = .ok (.error x, s)) :
    ReservesExactly m s addr n := by
  refine ⟨.error x, s, h, ?_, fun _ _ => rfl⟩
  intro hok
  cases hok

theorem pagesFrom_subset (addr : PhysAddr) {a b : ℕ} (h : a ≤ b) :
    pagesFrom addr a ⊆ pagesFrom addr b :=
  Set.Ico_subset_Ico_right (by omega)

/-- Around a page there is one block at most. -/
theorem order_unique (hI : Inv T s) {p : ℕ} (hi : p / 2 ^ i ∈ s.blocks i)
    (hj : p / 2 ^ j ∈ s.blocks j) : i = j :=
  hI.tiling.disjoint p i j hi hj

/-- At a multiple of the rounded-up count, the call does what was asked for when there are
nodes for the split. -/
theorem reserves_of_aligned (hI : Inv T s) (hej : Nat.clog 2 n ≤ j)
    (h : Took T s j (c / 2 ^ (j - Nat.clog 2 n)) s')
    (hrun : allocateAt m s (blockAddr (Nat.clog 2 n) c) n =
      (disband m s' (blockAddr (Nat.clog 2 n) c) (Nat.clog 2 n) j >>= fun s'' =>
        .ok (.ok (), s''))) :
    ReservesExactly m s (blockAddr (Nat.clog 2 n) c) n ↔
      j ≤ Nat.clog 2 n + s'.freelist.length := by
  rw [← disband_ok_iff (m := m) hI hej h]
  constructor
  · rintro ⟨r, s₂, hok, -⟩
    rw [hrun] at hok
    obtain ⟨s₃, hsplit, -⟩ := bind_eq_ok.mp hok
    exact ⟨s₃, hsplit⟩
  · rintro ⟨s₂, hsplit⟩
    have hfrees := (disband_spec hI hej h).post hsplit
    have hround := pagesFrom_subset (blockAddr (Nat.clog 2 n) c)
      (Nat.le_pow_clog (show 1 < 2 by omega) n)
    have hsub : points (Nat.clog 2 n) c ⊆ s.freePages :=
      (points_subset_ancestor hej).trans (points_subset_cover h.held)
    refine ⟨.ok (), s₂, by rw [hrun, hsplit, ok_bind], fun _ => ?_, fun x hx => by cases hx⟩
    rw [pagesFrom_blockAddr] at hround ⊢
    rw [hfrees.free]
    refine ⟨hround.trans hsub, Set.disjoint_sdiff_right.mono_left hround, fun p hp => ?_⟩
    exact ⟨fun hmem => hmem.1, fun hmem => ⟨hmem, hp⟩⟩

/-- At other addresses it stops, or takes the block around the address, which begins at a
page before it. -/
theorem not_reserves_of_misaligned (hI : Inv T s) (hej : Nat.clog 2 n ≤ j)
    (h : Took T s j (addr / BASIC_PAGE_SIZE / 2 ^ j) s') (hpage : addr % BASIC_PAGE_SIZE = 0)
    (hrun : allocateAt m s addr n =
      (disband m s' addr (Nat.clog 2 n) j >>= fun s'' => .ok (.ok (), s'')))
    (hmod : addr % (BASIC_PAGE_SIZE * 2 ^ Nat.clog 2 n) ≠ 0) : ¬ ReservesExactly m s addr n := by
  rintro ⟨r, s₂, hok, hdone, -⟩
  rw [hrun] at hok
  obtain ⟨s₃, hsplit, hok⟩ := bind_eq_ok.mp hok
  cases hok
  have hlen := hI.zones_le
  have hlt := lt_of_mem_blocks h.held
  rcases disband_misaligned (m := m) (s := s') (by omega) hej hmod with
    ⟨rfl, hsame⟩ | ⟨-, hstop⟩
  · obtain rfl := Except.ok.inj (hsame.symm.trans hsplit)
    -- The first page of the block that is taken is outside the range.
    set e := Nat.clog 2 n
    set p := addr / BASIC_PAGE_SIZE
    have hfirst : p / 2 ^ e * 2 ^ e ∈ points e (p / 2 ^ e) := first_mem_points e _
    have hbefore : p / 2 ^ e * 2 ^ e < p := by
      refine Nat.lt_of_le_of_ne (Nat.div_mul_le_self p _) fun heq => hmod ?_
      have haddr : addr = blockAddr e (p / 2 ^ e) := by
        rw [blockAddr, heq, Nat.div_mul_cancel (Nat.dvd_of_mod_eq_zero hpage)]
      rw [haddr, blockAddr_mod]
    have hout : p / 2 ^ e * 2 ^ e ∉ pagesFrom addr (2 ^ e) := by
      intro hin
      exact absurd hin.1 (not_le.mpr hbefore)
    have hafter : p / 2 ^ e * 2 ^ e ∉ s'.freePages := by
      rw [freePages, h.blocks, hI.tiling.cover_erase h.held]
      exact fun hin => hin.2 hfirst
    exact hafter (((hdone rfl).2.2 _ hout).mpr (points_subset_cover h.held hfirst))
  · rw [hstop] at hsplit
    cases hsplit

end BuddyAllocator

/-- **When `allocate_at` reserves exactly what was asked for.** -/
theorem allocateAt_reserves_iff (hz : z ≤ 51) (hT : T < 2 ^ z)
    (h : Served m T (Client.start z pool).pmm M s) :
    ReservesExactly m s addr n ↔ Reservable s addr n := by
  have hI := h.inv hz hT
  by_cases hargs : n = 0 ∨ 2 ^ s.zones.length < n ∨ addr % (BASIC_PAGE_SIZE * n) ≠ 0
  · obtain ⟨x, hx⟩ := allocateAt_refused (m := m) hI hargs
    refine iff_of_true (reserves_of_error hx) ?_
    exact hargs.imp_right (Or.imp_right Or.inl)
  simp only [not_or, not_lt, not_not] at hargs
  obtain ⟨hn, hle, hmod⟩ := hargs
  rcases allocateAt_found (m := m) hI hn hle hmod with
    ⟨hx, hnone⟩ | ⟨j, s', hij, htook, hlen, hrun⟩
  · refine iff_of_true (reserves_of_error hx) ?_
    exact Or.inr (Or.inr (Or.inr fun j hj hheld => absurd hheld (hnone j hj)))
  have hcond : Reservable s addr n ↔ addr % (BASIC_PAGE_SIZE * 2 ^ Nat.clog 2 n) = 0 ∧
      j ≤ Nat.clog 2 n + s'.freelist.length := by
    simp only [Reservable, hn, not_lt.mpr hle, hmod, ne_eq, not_true, false_or]
    rw [hlen]
    constructor
    · intro hall
      exact hall j hij htook.held
    · intro hj i hi hheld
      rw [order_unique hI hheld htook.held]
      exact hj
  rw [hcond]
  by_cases hal : addr % (BASIC_PAGE_SIZE * 2 ^ Nat.clog 2 n) = 0
  · obtain ⟨c, rfl⟩ := exists_blockAddr_of_mod hal
    rw [page_of_blockAddr hij] at htook
    simp only [hal, true_and]
    exact reserves_of_aligned hI hij htook hrun
  · simp only [hal, false_and, iff_false]
    have hpage : addr % BASIC_PAGE_SIZE = 0 :=
      Nat.mod_eq_zero_of_dvd ((Nat.dvd_mul_right _ _).trans (Nat.dvd_of_mod_eq_zero hmod))
    exact not_reserves_of_misaligned hI hij htook hpage hrun hal

/-- The four pages are reserved. -/
theorem four_pages_reserved : ReservesExactly .checked fourPages 0x4000 4 := by
  have hclog : Nat.clog 2 4 = 2 := Nat.clog_pow 2 2 (by omega)
  refine (allocateAt_reserves_iff (by omega) (by omega) fourPages_served).mpr ?_
  refine Or.inr (Or.inr (Or.inr fun j hj hheld => ?_))
  have hlt : j < 4 := lt_of_mem_blocks hheld
  rw [hclog] at hj ⊢
  exact ⟨by decide, by change j ≤ 2 + 2 + 1; omega⟩

/-- **A reservation that takes other pages.**  Three pages are asked for at page 6, of
which page 8 is not even handed over; the call succeeds, and pages 4 and 5 are gone too.
With the block of pages 0 to 7 free, the same call panics. -/
theorem three_pages_not_reserved :
    Served .checked 8 (Client.start 4 smallPool).pmm (∅ ∪ Set.Ico 4 (4 + 4)) fourPages ∧
      fourPages.allocateAt .checked 0x6000 3 =
        .ok (.ok (), ⟨[[], [], [], []], [⟨0, 0⟩, ⟨24, 0⟩, ⟨48, 0x4000⟩]⟩) ∧
      ¬ ReservesExactly .checked fourPages 0x6000 3 ∧
      Served .checked 8 (Client.start 4 smallPool).pmm (∅ ∪ Set.Ico 0 (0 + 8))
        ⟨[[], [], [], [⟨48, 0⟩]], [⟨0, 0⟩, ⟨24, 0⟩]⟩ ∧
      BuddyAllocator.allocateAt .checked ⟨[[], [], [], [⟨48, 0⟩]], [⟨0, 0⟩, ⟨24, 0⟩]⟩ 0x6000 3 =
        .error .assertion := by
  refine ⟨fourPages_served, by decide, ?_,
    .region .start 0 8 (Set.disjoint_empty _) (by omega) (by decide), by decide⟩
  have hrun : fourPages.allocateAt .checked 0x6000 3 =
      .ok (.ok (), ⟨[[], [], [], []], [⟨0, 0⟩, ⟨24, 0⟩, ⟨48, 0x4000⟩]⟩) := by decide
  rintro ⟨r, s', hok, hdone, -⟩
  rw [hrun] at hok
  cases hok
  have hnone : ∀ j < 4, 8 / 2 ^ j ∉ fourPages.blocks j := by decide
  obtain ⟨j, hj⟩ := (hdone rfl).1 (show 8 ∈ pagesFrom 0x6000 3 by decide)
  exact hnone j (lt_of_mem_blocks hj) hj

end Funderberker

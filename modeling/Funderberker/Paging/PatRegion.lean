import Funderberker.Paging.BootExact
import Funderberker.Paging.Encode

/-!
# Regions with a cache type

`map_in_entry` sets the bits of the cache type in its flags for each page, and never clears what
the page before has left.  The third PAT bit is bit 7 for a basic page and bit 12 for a larger
one, so after a basic page it stands where a larger page has its page-size bit, and after a
larger page it stands in the address of a basic page.  The page-size bit is refused, and the call
stops; the address is taken as it is, and the page is mapped to the wrong frame.

## Main definitions

* `FreshWord` — the words of tables from which nothing was unmapped.
* `BootRegion.Small`, `BootRegion.Large` — regions that are cut into pages of one kind.
* `Placed` — the region is where it should be.

## Main results

* `cached_region_placed_iff`
* `cached_region_displaced` — a region of both kinds of pages, in both orders.
-/

namespace Funderberker

open Panicking PageTable

/-! ## Words -/

/-- The words that occur at a level when no page has been unmapped, whatever the flags of the
pages. -/
def FreshWord (level : ℕ) (e : Word) : Prop :=
  e = 0 ∨ (∃ a, e = Entry.tableEntry a ∧ a % 4096 = 0 ∧ a < 2 ^ 52 ∧ level ≠ 0) ∨
    (level ≤ 2 ∧ e.getLsbD 10 = true) ∧ e.getLsbD 0 = true ∧ (level ≠ 0 → e.getLsbD 7 = true)

theorem grammar_freshWord : Grammar FreshWord where
  zero _ := Or.inl rfl
  table level a ha hlt := Or.inr (Or.inl ⟨a, rfl, ha, hlt, Nat.succ_ne_zero level⟩)
  cases h := by
    rcases h with rfl | htable | ⟨hlast, -⟩
    · exact Or.inl Entry.unused_zero
    · exact Or.inr (Or.inl htable)
    · exact Or.inr (Or.inr hlast)

theorem absentEmpty_freshWord : AbsentEmpty FreshWord := by
  intro level e h habsent
  rcases h with rfl | ⟨a, rfl, -⟩ | ⟨-, hpres, -⟩
  · rfl
  · rw [Entry.present_tableEntry] at habsent
    cases habsent
  · rw [hpres] at habsent
    cases habsent

theorem marksLarge_freshWord : MarksLarge FreshWord := by
  intro level e h hpres hlast
  rcases h with rfl | ⟨a, rfl, ha, -⟩ | ⟨-, -, hlarge⟩
  · cases hpres
  · rw [Entry.last_tableEntry ha] at hlast
    cases hlast
  · exact hlarge (Nat.succ_ne_zero level)

namespace Entry

variable {a i shift : ℕ} {f : Flags} {s : PageSize}

theorem freshWord_mapped (h : Joins f s) : FreshWord s.bottomPagingLevel (mapped 0 a f s) := by
  refine Or.inr (Or.inr ⟨⟨bottomPagingLevel_le s, last_mapped h⟩, present_mapped h, fun hs => ?_⟩)
  have hlarge : s ≠ .size4kb := by
    rintro rfl
    exact hs rfl
  rw [getLsbD_mapped h (by omega), getLsbD_leafFlags]
  simp [hlarge]

/-- The bits of an address field. -/
theorem testBit_addressField (e : Word) : (addressField e shift).testBit i =
    (decide (shift ≤ i) && (decide (i < 52) && e.getLsbD i)) := by
  rw [addressField, Nat.testBit_mul_two_pow]
  by_cases hi : shift ≤ i
  · rw [decide_eq_true hi, Nat.testBit_div_two_pow, Nat.sub_add_cancel hi,
      Nat.testBit_mod_two_pow]
    rfl
  · rw [decide_eq_false hi]
    rfl

/-- The offset bits of an aligned address. -/
theorem testBit_offset (ha : a % s.size = 0) (hi : i < s.offsetBitCount) : a.testBit i = false := by
  obtain ⟨q, rfl⟩ := Nat.dvd_of_mod_eq_zero ha
  rw [s.size_eq_two_pow, Nat.testBit_two_pow_mul, decide_eq_false (Nat.not_le.mpr hi),
    Bool.false_and]

/-- The bits of the address and those of the flags are written over each other. -/
theorem getLsbD_mapped_high (hjoins : Joins f s) (ha : a % s.size = 0) (hge : 12 ≤ i)
    (hlt : i < 64) : (mapped 0 a f s).getLsbD i = (a.testBit i || f.getLsbD i) := by
  have hword : mapped 0 a f s = pageEntry a f s := if_pos hjoins
  have hflags : (leafFlags f s).getLsbD i = f.getLsbD i := by
    rw [getLsbD_leafFlags]
    simp [show i ≠ 0 by omega, show i ≠ 10 by omega, show i ≠ 7 by omega]
  rw [hword, getLsbD_pageEntry ha hlt, hflags, BitVec.getLsbD_ofNat, decide_eq_true hlt,
    Bool.true_and]
  by_cases hoff : s.offsetBitCount ≤ i
  · rw [decide_eq_true hoff, Bool.true_and]
  · rw [testBit_offset ha (Nat.not_le.mp hoff), Bool.and_false]

/-- The address of a page can be read from its word, unless the PAT bit of a large page is in the
field and not in the address. -/
theorem addressField_mapped_iff (hjoins : Joins f s) (ha : a % s.size = 0) (hlt : a < 2 ^ 52)
    (hshift : 12 ≤ shift) (hle : shift ≤ s.offsetBitCount)
    (hf : ∀ i, 12 < i → i < 52 → f.getLsbD i = false) :
    addressField (mapped 0 a f s) shift = a ↔
      12 < shift ∨ f.getLsbD 12 = false ∨ a.testBit 12 = true := by
  constructor
  · intro h
    rcases Nat.lt_or_ge 12 shift with hlarge | hsmall
    · exact Or.inl hlarge
    · have hself : (addressField (mapped 0 a f s) shift).testBit 12 = _ := testBit_addressField _
      rw [h, getLsbD_mapped_high hjoins ha (by omega) (by omega), decide_eq_true (by omega),
        decide_eq_true (by omega), Bool.true_and, Bool.true_and] at hself
      cases hpat : f.getLsbD 12 with
      | false => exact Or.inr (Or.inl rfl)
      | true =>
          rw [hpat, Bool.or_true] at hself
          exact Or.inr (Or.inr hself)
  · intro h
    apply Nat.eq_of_testBit_eq
    intro i
    rw [testBit_addressField]
    by_cases hlow : shift ≤ i
    · by_cases hhigh : i < 52
      · rw [decide_eq_true hlow, decide_eq_true hhigh, Bool.true_and, Bool.true_and,
          getLsbD_mapped_high hjoins ha (by omega) (by omega)]
        by_cases hi : i = 12
        · subst hi
          rcases h with h | h | h
          · omega
          · rw [h, Bool.or_false]
          · rw [h, Bool.true_or]
        · rw [hf i (by omega) hhigh, Bool.or_false]
      · have hpow : 2 ^ 52 ≤ 2 ^ i := Nat.pow_le_pow_right (by omega) (Nat.not_lt.mp hhigh)
        rw [decide_eq_false hhigh, Bool.false_and, Bool.and_false,
          Nat.testBit_lt_two_pow (hlt.trans_le hpow)]
    · rw [decide_eq_false hlow, Bool.false_and, testBit_offset ha (by omega)]

end Entry

/-! ## Regions of one kind of pages -/

namespace BootRegion

/-- No page of 2MB fits anywhere in the region, so it is cut into basic pages. -/
def Small (k : BootRegion) : Prop :=
  ∀ off, ¬ pageFits (k.size - off) (k.physAddr + off) (k.virtAddr + off) .size2mb

/-- Everything is aligned to 2MB, so no basic page is needed. -/
def Large (k : BootRegion) : Prop :=
  k.virtAddr % PageSize.size2mb.size = 0 ∧ k.physAddr % PageSize.size2mb.size = 0 ∧
    k.size % PageSize.size2mb.size = 0

variable {k : BootRegion} {s : PageSize} {t : PatType} {flags : Flags} {fuel : ℕ}

theorem large_size_dvd (hs : s ≠ .size4kb) : PageSize.size2mb.size ∣ s.size := by
  cases s with
  | size4kb => exact absurd rfl hs
  | size2mb => exact Nat.dvd_refl _
  | size1gb => decide

/-- A basic page is taken where no page of 2MB fits. -/
theorem nextPageSize_small_iff (hnext : nextPageSize k.size k.physAddr k.virtAddr = some s) :
    s = .size4kb ↔ ¬ pageFits k.size k.physAddr k.virtAddr .size2mb := by
  constructor
  · rintro rfl hfits
    rw [nextPageSize, if_pos hfits] at hnext
    split at hnext
    · cases hnext
    · cases hnext
  · intro hno
    by_contra hs
    have hfits := pageFits_nextPageSize hnext
    have hdvd := large_size_dvd hs
    exact hno ⟨(Nat.le_of_dvd s.size_pos hdvd).trans hfits.1,
      Nat.mod_eq_zero_of_dvd (hdvd.trans (Nat.dvd_of_mod_eq_zero hfits.2.1)),
      Nat.mod_eq_zero_of_dvd (hdvd.trans (Nat.dvd_of_mod_eq_zero hfits.2.2))⟩

/-- After a basic page, a page of 2MB fits where it did before. -/
theorem small_rest_iff (hk : k.Proper)
    (hnext : nextPageSize k.size k.physAddr k.virtAddr = some .size4kb) :
    (k.rest .size4kb).Small ↔ k.Small := by
  have hno := (nextPageSize_small_iff hnext).mp rfl
  have hshift : ∀ off, pageFits ((k.rest .size4kb).size - off) ((k.rest .size4kb).physAddr + off)
      ((k.rest .size4kb).virtAddr + off) .size2mb ↔
      pageFits (k.size - (4096 + off)) (k.physAddr + (4096 + off)) (k.virtAddr + (4096 + off))
        .size2mb := by
    intro off
    rw [← Nat.sub_sub, ← Nat.add_assoc, ← Nat.add_assoc]
    rfl
  have hbasic : ∀ a off : ℕ, a % 4096 = 0 → (a + off) % 2097152 = 0 → off ≠ 0 → 4096 ≤ off := by
    intro a off ha hoff hne
    omega
  constructor
  · intro h off hfits
    by_cases hzero : off = 0
    · subst hzero
      exact hno hfits
    · obtain ⟨c, rfl⟩ := Nat.exists_eq_add_of_le (hbasic _ off hk.phys hfits.2.1 hzero)
      exact h c ((hshift c).mpr hfits)
  · intro h off hfits
    exact h _ ((hshift off).mp hfits)

theorem small_of_empty (hzero : k.size = 0) : k.Small := by
  intro off hfits
  have hle : PageSize.size2mb.size ≤ k.size - off := hfits.1
  rw [hzero, Nat.zero_sub] at hle
  exact absurd hle (by decide)

/-- A small region is cut into basic pages. -/
theorem Small.eq_small (hk : k.Small)
    (hnext : nextPageSize k.size k.physAddr k.virtAddr = some s) : s = .size4kb :=
  (nextPageSize_small_iff hnext).mpr (hk 0)

theorem Large.ne_small (hk : k.Large) (hne : k.size ≠ 0)
    (hnext : nextPageSize k.size k.physAddr k.virtAddr = some s) : s ≠ .size4kb := by
  intro hs
  refine (nextPageSize_small_iff hnext).mp hs ⟨?_, hk.2.1, hk.1⟩
  exact Nat.le_of_dvd (Nat.pos_of_ne_zero hne) (Nat.dvd_of_mod_eq_zero hk.2.2)

/-- A larger page leaves the region aligned as it was. -/
theorem large_rest_iff (hs : s ≠ .size4kb) (hfits : pageFits k.size k.physAddr k.virtAddr s) :
    (k.rest s).Large ↔ k.Large := by
  have hdvd := large_size_dvd hs
  have hadd : ∀ a : ℕ, (a + s.size) % PageSize.size2mb.size = a % PageSize.size2mb.size := by
    intro a
    rw [Nat.add_mod, Nat.mod_eq_zero_of_dvd hdvd, Nat.add_zero, Nat.mod_mod]
  have hsub : (k.size - s.size) % PageSize.size2mb.size = k.size % PageSize.size2mb.size := by
    rw [← hadd, Nat.sub_add_cancel hfits.1]
  rw [Large, Large, rest, hadd, hadd, hsub]

/-! ## The flags along a region -/

/-- A property of all pages and their flags, from an invariant of the loop. -/
theorem Proper.forall_flagged {I : BootRegion → Flags → Prop} {Q : BootPage × Flags → Prop}
    (hstep : ∀ (k : BootRegion) (flags : Flags) (s : PageSize), k.Proper → k.size ≠ 0 →
      nextPageSize k.size k.physAddr k.virtAddr = some s →
      pageFits k.size k.physAddr k.virtAddr s → I k flags →
        Q (⟨k.virtAddr, k.physAddr, s⟩, flags.setPat t s) ∧ I (k.rest s) (flags.setPat t s))
    (hk : k.Proper) (hI : I k flags) : ∀ x ∈ k.flagged (some t) fuel flags, Q x := by
  induction fuel generalizing k flags with
  | zero => exact List.forall_mem_nil Q
  | succ fuel ih =>
      by_cases hzero : k.size = 0
      · rw [flagged_of_empty hzero]
        exact List.forall_mem_nil Q
      · obtain ⟨s, hnext, hfits⟩ := hk.exists_first hzero
        obtain ⟨hQ, hI'⟩ := hstep k flags s hk hzero hnext hfits hI
        rw [flagged_succ hzero hnext]
        exact List.forall_mem_cons.mpr ⟨hQ, ih (hk.rest hfits) hI'⟩

/-- A page without a property, from an invariant that keeps the loop going until it meets one. -/
theorem Proper.not_forall_flagged {I : BootRegion → Flags → Prop} {Q : BootPage × Flags → Prop}
    (hsize : ∀ k flags, I k flags → k.size ≠ 0)
    (hstep : ∀ (k : BootRegion) (flags : Flags) (s : PageSize), k.Proper →
      nextPageSize k.size k.physAddr k.virtAddr = some s →
      pageFits k.size k.physAddr k.virtAddr s → I k flags →
        Q (⟨k.virtAddr, k.physAddr, s⟩, flags.setPat t s) → I (k.rest s) (flags.setPat t s))
    (hk : k.Proper) (hfuel : k.size < fuel) (hI : I k flags) :
    ¬ ∀ x ∈ k.flagged (some t) fuel flags, Q x := by
  induction fuel generalizing k flags with
  | zero => omega
  | succ fuel ih =>
      intro hall
      have hzero := hsize k flags hI
      obtain ⟨s, hnext, hfits⟩ := hk.exists_first hzero
      rw [flagged_succ hzero hnext, List.forall_mem_cons] at hall
      refine ih (hk.rest hfits) ?_ (hstep k flags s hk hnext hfits hI hall.1) hall.2
      have := rest_size_lt hfits
      omega

/-- The flags join with the page size, and leave the address of a basic page alone. -/
def Fitting (x : BootPage × Flags) : Prop :=
  Entry.Joins x.2 x.1.pageSize ∧
    (x.1.pageSize ≠ .size4kb ∨ x.2.getLsbD 12 = false ∨ x.1.physAddr.testBit 12 = true)

theorem getLsbD_setPat_small :
    (flags.setPat t .size4kb).getLsbD 7 = t.indexBit 0b100 ∧
      (flags.setPat t .size4kb).getLsbD 12 = flags.getLsbD 12 := by
  rw [Flags.getLsbD_setPat, Flags.getLsbD_setPat]
  exact ⟨rfl, rfl⟩

theorem getLsbD_setPat_large (hs : s ≠ .size4kb) :
    (flags.setPat t s).getLsbD 7 = flags.getLsbD 7 ∧
      (flags.setPat t s).getLsbD 12 = t.indexBit 0b100 := by
  have hbit : s.getPatBit = 12 := by
    cases s with
    | size4kb => exact absurd rfl hs
    | size2mb => rfl
    | size1gb => rfl
  rw [Flags.getLsbD_setPat, Flags.getLsbD_setPat, hbit]
  exact ⟨rfl, rfl⟩

/-- Types whose third bit is clear never set one of the two bits. -/
theorem fitting_of_clear (hk : k.Proper) (ht : t.indexBit 0b100 = false)
    (hflags : flags.getLsbD 7 = false ∧ flags.getLsbD 12 = false) :
    ∀ x ∈ k.flagged (some t) fuel flags, Fitting x := by
  refine hk.forall_flagged (I := fun _ flags => flags.getLsbD 7 = false ∧
    flags.getLsbD 12 = false) ?_ hflags
  intro k flags s _ _ _ _ hI
  have hclear : (flags.setPat t s).getLsbD 7 = false ∧ (flags.setPat t s).getLsbD 12 = false := by
    by_cases hs : s = .size4kb
    · subst hs
      rw [getLsbD_setPat_small.1, getLsbD_setPat_small.2]
      exact ⟨ht, hI.2⟩
    · rw [(getLsbD_setPat_large hs).1, (getLsbD_setPat_large hs).2]
      exact ⟨hI.1, ht⟩
  exact ⟨⟨Or.inr hclear.1, Or.inr (Or.inl hclear.2)⟩, hclear⟩

theorem Small.fitting (hsmall : k.Small) (hk : k.Proper) (hflags : flags.getLsbD 12 = false) :
    ∀ x ∈ k.flagged (some t) fuel flags, Fitting x := by
  refine hk.forall_flagged (I := fun k flags => k.Small ∧ flags.getLsbD 12 = false) ?_
    ⟨hsmall, hflags⟩
  intro k flags s hk _ hnext _ hI
  obtain rfl := hI.1.eq_small hnext
  have hclear : (flags.setPat t .size4kb).getLsbD 12 = false := by
    rw [getLsbD_setPat_small.2]
    exact hI.2
  exact ⟨⟨Or.inl rfl, Or.inr (Or.inl hclear)⟩, (small_rest_iff hk hnext).mpr hI.1, hclear⟩

theorem Large.fitting (hlarge : k.Large) (hk : k.Proper) (hflags : flags.getLsbD 7 = false) :
    ∀ x ∈ k.flagged (some t) fuel flags, Fitting x := by
  refine hk.forall_flagged (I := fun k flags => k.Large ∧ flags.getLsbD 7 = false) ?_
    ⟨hlarge, hflags⟩
  intro k flags s _ hne hnext hfits hI
  have hs := hI.1.ne_small hne hnext
  have hclear : (flags.setPat t s).getLsbD 7 = false := by
    rw [(getLsbD_setPat_large hs).1]
    exact hI.2
  exact ⟨⟨Or.inr hclear, Or.inl hs⟩, (large_rest_iff hs hfits).mpr hI.1, hclear⟩

/-- After a basic page, a page of 2MB is refused. -/
theorem not_fitting_of_small (hk : k.Proper) (hfuel : k.size < fuel) (ht : t.indexBit 0b100 = true)
    (hsmall : ¬ k.Small) (hflags : flags.getLsbD 7 = true) :
    ¬ ∀ x ∈ k.flagged (some t) fuel flags, Fitting x := by
  refine hk.not_forall_flagged (I := fun k flags => ¬ k.Small ∧ flags.getLsbD 7 = true) ?_ ?_
    hfuel ⟨hsmall, hflags⟩
  · exact fun k flags hI hzero => hI.1 (small_of_empty hzero)
  · intro k flags s hk hnext hfits hI hfitting
    by_cases hs : s = .size4kb
    · subst hs
      rw [small_rest_iff hk hnext, getLsbD_setPat_small.1]
      exact ⟨hI.1, ht⟩
    · have hclear := hfitting.1.resolve_left hs
      rw [(getLsbD_setPat_large hs).1, hI.2] at hclear
      cases hclear

/-- After a larger page, the first basic page is mapped elsewhere. -/
theorem not_fitting_of_large (hk : k.Proper) (hfuel : k.size < fuel) (ht : t.indexBit 0b100 = true)
    (hvirt : k.virtAddr % PageSize.size2mb.size = 0)
    (hphys : k.physAddr % PageSize.size2mb.size = 0)
    (hlarge : ¬ k.Large) (hflags : flags.getLsbD 12 = true) :
    ¬ ∀ x ∈ k.flagged (some t) fuel flags, Fitting x := by
  refine hk.not_forall_flagged (I := fun k flags => (k.virtAddr % PageSize.size2mb.size = 0 ∧
    k.physAddr % PageSize.size2mb.size = 0) ∧ ¬ k.Large ∧ flags.getLsbD 12 = true) ?_ ?_
    hfuel ⟨⟨hvirt, hphys⟩, hlarge, hflags⟩
  · intro k flags hI hzero
    refine hI.2.1 ⟨hI.1.1, hI.1.2, ?_⟩
    rw [hzero, Nat.zero_mod]
  · intro k flags s hk hnext hfits hI hfitting
    obtain ⟨⟨hvirt, hphys⟩, hlarge, hset⟩ := hI
    have hs : s ≠ .size4kb := by
      rintro rfl
      rcases hfitting.2 with hs | hclear | hbit
      · exact hs rfl
      · rw [getLsbD_setPat_small.2, hset] at hclear
        cases hclear
      · have hclear : k.physAddr.testBit 12 = false := Entry.testBit_offset hphys (by decide)
        rw [hclear] at hbit
        cases hbit
    have hdvd := large_size_dvd hs
    refine ⟨⟨?_, ?_⟩, fun h => hlarge ((large_rest_iff hs hfits).mp h), ?_⟩
    · exact Nat.mod_eq_zero_of_dvd (Nat.dvd_add (Nat.dvd_of_mod_eq_zero hvirt) hdvd)
    · exact Nat.mod_eq_zero_of_dvd (Nat.dvd_add (Nat.dvd_of_mod_eq_zero hphys) hdvd)
    · rw [(getLsbD_setPat_large hs).2, ht]

/-- **When all flags fit.** -/
theorem Proper.fitting_iff (hk : k.Proper) (hfuel : k.size < fuel)
    (hflags : flags.getLsbD 7 = false ∧ flags.getLsbD 12 = false) :
    (∀ x ∈ k.flagged (some t) fuel flags, Fitting x) ↔
      t.indexBit 0b100 = false ∨ k.Small ∨ k.Large := by
  constructor
  · intro hall
    cases ht : t.indexBit 0b100 with
    | false => exact Or.inl rfl
    | true =>
        by_contra hno
        obtain ⟨hsmall, hlarge⟩ := not_or.mp fun h => hno (Or.inr h)
        -- The first page decides which of the two bits is left behind.
        obtain ⟨fuel, rfl⟩ : ∃ n, fuel = n + 1 := Nat.exists_eq_succ_of_ne_zero (by omega)
        have hzero : k.size ≠ 0 := fun hzero => hsmall (small_of_empty hzero)
        obtain ⟨s, hnext, hfits⟩ := hk.exists_first hzero
        have hlt := rest_size_lt hfits
        rw [flagged_succ hzero hnext, List.forall_mem_cons] at hall
        by_cases hs : s = .size4kb
        · subst hs
          refine not_fitting_of_small (hk.rest hfits) (by omega) ht ?_ ?_ hall.2
          · rw [small_rest_iff hk hnext]
            exact hsmall
          · exact getLsbD_setPat_small.1.trans ht
        · have hdvd := large_size_dvd hs
          have hvirt := hdvd.trans (Nat.dvd_of_mod_eq_zero hfits.2.2)
          have hphys := hdvd.trans (Nat.dvd_of_mod_eq_zero hfits.2.1)
          refine not_fitting_of_large (hk.rest hfits) (by omega) ht
            (Nat.mod_eq_zero_of_dvd (Nat.dvd_add hvirt hdvd))
            (Nat.mod_eq_zero_of_dvd (Nat.dvd_add hphys hdvd))
            (fun h => hlarge ((large_rest_iff hs hfits).mp h)) ?_ hall.2
          exact (getLsbD_setPat_large hs).2.trans ht
  · rintro (ht | hsmall | hlarge)
    · exact fitting_of_clear hk ht hflags
    · exact hsmall.fitting hk hflags.2
    · exact hlarge.fitting hk hflags.1

/-- The flags that pages are mapped with have no bit in the addresses but the PAT bit. -/
theorem Proper.address_bits (hk : k.Proper)
    (hflags : ∀ i, 12 < i → i < 52 → flags.getLsbD i = false) :
    ∀ x ∈ k.flagged (some t) fuel flags, ∀ i, 12 < i → i < 52 → x.2.getLsbD i = false := by
  refine hk.forall_flagged (I := fun _ flags => ∀ i, 12 < i → i < 52 → flags.getLsbD i = false)
    ?_ hflags
  intro k flags s _ _ _ _ hI
  have hclear : ∀ i, 12 < i → i < 52 → (flags.setPat t s).getLsbD i = false := by
    intro i hi hlt
    have hbit := s.getPatBit_cases
    rw [Flags.getLsbD_setPat, if_neg (by omega), if_neg (by omega), if_neg (by omega)]
    exact hI i hi hlt
  exact ⟨hclear, hclear⟩

end BootRegion

/-! ## Mapping a region -/

/-- The frame address in the word of a page: the bits from 12 up to 51, but for the PAT bit of a
large page. -/
def storedFrame (e : Word) (s : PageSize) : PhysAddr :=
  addressField e (if s = .size4kb then 12 else 13)

/-- The entry of every page holds its frame, and every address is translated to its place. -/
structure Placed (k : BootRegion) (mem : PhysAddr → ℕ → Word) (pml : PhysAddr) : Prop where
  frames : ∀ p ∈ k.pages, storedFrame (slot mem pml p.parent
    (nextLevelIndex p.virtAddr p.pageSize.bottomPagingLevel)) p.pageSize = p.physAddr
  walks : ∀ off < k.size, pageWalk mem pml (k.virtAddr + off) = some (k.physAddr + off)

/-- The pages of a region with a cache type, and their flags. -/
def cachedPages (k : BootRegion) (t : PatType) : List (BootPage × Flags) :=
  k.flagged (some t) (k.size + 1) bootFlags

section

variable {T N : ℕ} {C : Set ℕ} {r : PhysAddr} {P : Finset (List ℕ)} {w : World BuddyAllocator}
  {k : BootRegion} {t : PatType} {x y : BootPage × Flags} {v : VirtAddr}

theorem map_fst_cachedPages (k : BootRegion) (t : PatType) :
    (cachedPages k t).map Prod.fst = k.pages :=
  BootRegion.map_fst_flagged

theorem mem_pages_iff {p : BootPage} : p ∈ k.pages ↔ ∃ x ∈ cachedPages k t, x.1 = p := by
  rw [← map_fst_cachedPages k t]
  exact List.mem_map

/-- An address is on one page only. -/
theorem cachedPages_unique (hk : k.Proper) (hx : x ∈ cachedPages k t) (hy : y ∈ cachedPages k t)
    (hvx : v ∈ x.1.range) (hvy : v ∈ y.1.range) : x = y := by
  have hpair : (cachedPages k t).Pairwise fun x y => Disjoint x.1.range y.1.range := by
    have hcut : k.pages.Pairwise fun p p' => Disjoint p.range p'.range :=
      hk.pairwise_cut (Nat.lt_succ_self k.size)
    rw [← map_fst_cachedPages k t, List.pairwise_map] at hcut
    exact hcut
  by_contra hne
  have : Std.Symm fun x y : BootPage × Flags => Disjoint x.1.range y.1.range :=
    ⟨fun _ _ h => h.symm⟩
  exact Set.disjoint_left.mp (hpair.forall hx hy hne) hvx hvy

/-- An address on a page is translated by the word of that page. -/
theorem Holds.content_eq_leaf (h : Holds FreshWord T C N r P (cachedPages k t).reverse w)
    (hk : k.Proper) (hx : x ∈ cachedPages k t) (hv : v ∈ x.1.range) :
    Canonical v ∧ content w.mem r (pagePath v .size4kb) = some (flaggedLeaf x) := by
  have hsubset := (hk.cutInto (Nat.lt_succ_self _)).subset x.1 (mem_pages_iff.mpr ⟨x, hx, rfl⟩)
  have hcanonical := hk.canonical v (hsubset hv)
  obtain ⟨y, hy, hvy, hcontent⟩ := h.content_some hcanonical (List.mem_reverse.mpr hx) hv
  obtain rfl := cachedPages_unique hk hx (List.mem_reverse.mp hy) hv hvy
  exact ⟨hcanonical, hcontent⟩

theorem Holds.slot_eq_leaf (h : Holds FreshWord T C N r P (cachedPages k t).reverse w)
    (hk : k.Proper) (hx : x ∈ cachedPages k t) :
    slot w.mem r x.1.parent (nextLevelIndex x.1.virtAddr x.1.pageSize.bottomPagingLevel) =
      (flaggedLeaf x).2 := by
  obtain ⟨-, hcontent⟩ := h.content_eq_leaf hk hx x.1.virtAddr_mem_range
  obtain ⟨table, -, hnode, hword, -⟩ := h.inv.sized.exists_page grammar_freshWord hcontent
  exact (slot_of_some hnode _).trans hword

/-- The address of a page can be read from its word exactly when its flags fit. -/
theorem field_eq_iff {shift : ℕ} (hk : k.Proper) (hx : x ∈ cachedPages k t)
    (hjoins : Entry.Joins x.2 x.1.pageSize) (hshift : 12 ≤ shift)
    (hle : shift ≤ x.1.pageSize.offsetBitCount) (hlarge : 12 < shift ↔ x.1.pageSize ≠ .size4kb) :
    addressField (flaggedLeaf x).2 shift = x.1.physAddr ↔ BootRegion.Fitting x := by
  have hproper := (hk.cutInto (Nat.lt_succ_self _)).proper x.1 (mem_pages_iff.mpr ⟨x, hx, rfl⟩)
  have hbits : ∀ i, 12 < i → i < 52 → bootFlags.getLsbD i = false := by
    intro i hi _
    rw [bootFlags, Flags.setReadWrite, Flags.FLAG_RW, Flags.getLsbD_set (by omega),
      if_neg (by omega)]
    exact BitVec.getLsbD_zero
  rw [flaggedLeaf, Entry.addressField_mapped_iff hjoins hproper.phys hproper.phys_lt hshift hle
    (hk.address_bits hbits x hx), hlarge]
  exact ⟨fun h => ⟨hjoins, h⟩, fun h => h.2⟩

theorem storedFrame_eq_iff (hk : k.Proper) (hx : x ∈ cachedPages k t)
    (hjoins : Entry.Joins x.2 x.1.pageSize) :
    storedFrame (flaggedLeaf x).2 x.1.pageSize = x.1.physAddr ↔ BootRegion.Fitting x := by
  apply field_eq_iff hk hx hjoins
  · split <;> omega
  · cases x.1.pageSize <;> decide
  · cases x.1.pageSize <;> decide

/-- **A region is where it should be exactly when all flags fit.** -/
theorem Holds.placed_iff (h : Holds FreshWord T C N r P (cachedPages k t).reverse w)
    (hk : k.Proper) (hjoins : ∀ x ∈ cachedPages k t, Entry.Joins x.2 x.1.pageSize) :
    Placed k w.mem r ↔ ∀ x ∈ cachedPages k t, BootRegion.Fitting x := by
  have hcut := hk.cutInto (Nat.lt_succ_self _)
  constructor
  · intro hplaced x hx
    have hframe := hplaced.frames x.1 (mem_pages_iff.mpr ⟨x, hx, rfl⟩)
    rw [h.slot_eq_leaf hk hx] at hframe
    exact (storedFrame_eq_iff hk hx (hjoins x hx)).mp hframe
  · intro hfits
    refine ⟨fun p hp => ?_, fun off hoff => ?_⟩
    · obtain ⟨x, hx, rfl⟩ := mem_pages_iff.mp hp
      rw [h.slot_eq_leaf hk hx]
      exact (storedFrame_eq_iff hk hx (hjoins x hx)).mpr (hfits x hx)
    · have hv : k.virtAddr + off ∈ k.range := ⟨Nat.le_add_right _ _, Nat.add_lt_add_left hoff _⟩
      obtain ⟨p, hp, hpv⟩ := hcut.cover _ hv
      obtain ⟨x, hx, rfl⟩ := mem_pages_iff.mp hp
      obtain ⟨hcanonical, hcontent⟩ := h.content_eq_leaf hk hx hpv
      have hfield : addressField (flaggedLeaf x).2 (levelShift x.1.pageSize.bottomPagingLevel) =
          x.1.physAddr := by
        refine (field_eq_iff hk hx (hjoins x hx) (Nat.le_add_right _ _) ?_ ?_).mpr (hfits x hx)
        · cases x.1.pageSize <;> decide
        · cases x.1.pageSize <;> decide
      have htrans := BootPage.translated_of_field (hcut.proper x.1 hp) hpv hfield
      have hoffset := hcut.offset x.1 hp
      rw [h.inv.sized.pageWalk_eq grammar_freshWord marksLarge_freshWord hcanonical, hcontent]
      refine congrArg some (Nat.add_right_cancel (m := x.1.virtAddr) ?_)
      calc
        translated (k.virtAddr + off) (flaggedLeaf x) + x.1.virtAddr
          = x.1.physAddr + (k.virtAddr + off) := htrans
        _ = x.1.physAddr + k.virtAddr + off := (Nat.add_assoc _ _ _).symm
        _ = k.physAddr + x.1.virtAddr + off := by rw [hoffset]
        _ = k.physAddr + off + x.1.virtAddr := Nat.add_right_comm _ _ _

end

/-- **When a region with a cache type is mapped.**  On a cleared top-level table, and with frames
for the tables it needs, the call returns with every page and every address in its place exactly
when the third bit of the type's index is clear, or only basic pages fit in the region, or it is
aligned to pages of 2MB. -/
theorem cached_region_placed_iff {m : Overflow} {T : ℕ} {pml : PhysAddr} {k : BootRegion}
    {t : PatType} {w : World BuddyAllocator} (hk : k.Proper) (hmod : pml % 4096 = 0)
    (hzero : ∀ i, w.mem pml i = 0) (hpmm : BuddyAllocator.Inv T w.pmm)
    (hsupply : Supply T w.pmm.freePages w.pmm.nodeCount pml (bootTables [k])) :
    (∃ w', mapInEntry m k.virtAddr k.physAddr k.size pml bootFlags (some t) w = .ok w' ∧
      Placed k w'.mem pml) ↔ t.indexBit 0b100 = false ∨ k.Small ∨ k.Large := by
  have hstart : Holds FreshWord T w.pmm.freePages w.pmm.nodeCount pml (bootTables [k]) [] w :=
    holds_start grammar_freshWord hzero (BuddyAllocator.respects_singleton hpmm hmod hsupply.root)
  have hneeds : ∀ x ∈ cachedPages k t, ∀ q ∈ x.1.tables, q ∈ bootTables [k] := by
    intro x hx q hq
    have hp : x.1 ∈ bootPages [k] := by
      rw [bootPages, List.flatMap_singleton]
      exact mem_pages_iff.mpr ⟨x, hx, rfl⟩
    exact List.mem_toFinset.mpr (List.mem_flatMap.mpr ⟨x.1, hp, hq⟩)
  have hgo := hstart.mapInEntryGo (m := m) grammar_freshWord absentEmpty_freshWord hsupply hk
    (Nat.lt_succ_self _) (List.forall_mem_nil _) hneeds
    (fun x _ hjoins => Entry.freshWord_mapped hjoins)
  have hiff : (∀ x ∈ cachedPages k t, BootRegion.Fitting x) ↔
      t.indexBit 0b100 = false ∨ k.Small ∨ k.Large :=
    hk.fitting_iff (Nat.lt_succ_self _) (by decide)
  rw [← hiff]
  by_cases hjoins : ∀ x ∈ cachedPages k t, Entry.Joins x.2 x.1.pageSize
  · obtain ⟨w', hrun, hholds⟩ := hgo.1 hjoins
    rw [List.append_nil] at hholds
    rw [← Holds.placed_iff hholds hk hjoins]
    constructor
    · rintro ⟨w'', hrun', hplaced⟩
      cases hrun.symm.trans hrun'
      exact hplaced
    · exact fun hplaced => ⟨w', hrun, hplaced⟩
  · constructor
    · rintro ⟨w', hrun, -⟩
      cases (hgo.2 hjoins).symm.trans hrun
    · exact fun hfits => absurd (fun x hx => (hfits x hx).1) hjoins

/-- One page of 2MB, for write-combining. -/
def largeRegion : BootRegion := ⟨0x200000, 0x400000, 0x200000⟩

theorem largeRegion_proper : largeRegion.Proper := by
  refine ⟨rfl, rfl, rfl, by decide, by decide, fun v hv => Or.inl ?_⟩
  exact hv.2.trans (by decide)

theorem large_cached_region : ∃ w', mapInEntry .checked largeRegion.virtAddr largeRegion.physAddr
      largeRegion.size 0x1000 bootFlags (some .writeCombining) smallWorld = .ok w' ∧
    Placed largeRegion w'.mem 0x1000 := by
  have hfree : smallSupply.freePages = Set.Ico 8 16 := smallSupply_frees.free
  have hsupply : Supply 31 smallSupply.freePages smallSupply.nodeCount 0x1000
      (bootTables [largeRegion]) := by
    refine ⟨by decide, smallSupply_frees.inv.bounded, smallSupply_respects.notFree _ rfl,
      smallSupply_pairs, ?_⟩
    rw [hfree, Set.ncard_Ico_nat]
    decide +kernel
  have hlarge : largeRegion.Large := ⟨rfl, rfl, rfl⟩
  exact (cached_region_placed_iff largeRegion_proper rfl (fun _ => rfl) smallSupply_frees.inv
    hsupply).mpr (Or.inr (Or.inr hlarge))

/-- **Regions of both kinds of pages, for write-combining.**  A basic page after one of 2MB is
mapped to the frame behind its own, and a page of 2MB after a basic page stops the kernel. -/
theorem cached_region_displaced :
    (∃ w', mapInEntry .checked 0x200000 0x400000 0x201000 0x1000 bootFlags (some .writeCombining)
        smallWorld = .ok w' ∧
      pageWalk w'.mem 0x1000 (0x200000 + 0x200000) = some 0x601000) ∧
    mapInEntry .checked 0x1ff000 0x3ff000 0x201000 0x1000 bootFlags (some .writeCombining)
      smallWorld = .error .unwrapErr := by
  have hwalk : (mapInEntry .checked 0x200000 0x400000 0x201000 0x1000 bootFlags
      (some .writeCombining) smallWorld).map (fun w => pageWalk w.mem 0x1000 0x400000) =
        .ok (some 0x601000) := by
    decide +kernel
  have hstop : (mapInEntry .checked 0x1ff000 0x3ff000 0x201000 0x1000 bootFlags
      (some .writeCombining) smallWorld).map (fun _ => ()) = .error .unwrapErr := by
    decide +kernel
  constructor
  · cases hrun : mapInEntry .checked 0x200000 0x400000 0x201000 0x1000 bootFlags
        (some .writeCombining) smallWorld with
    | error _ =>
        rw [hrun] at hwalk
        cases hwalk
    | ok w' =>
        rw [hrun] at hwalk
        exact ⟨w', rfl, Except.ok.inj hwalk⟩
  · cases hrun : mapInEntry .checked 0x1ff000 0x3ff000 0x201000 0x1000 bootFlags
        (some .writeCombining) smallWorld with
    | error _ =>
        rw [hrun] at hstop
        exact congrArg Except.error (Except.error.inj hstop)
    | ok _ =>
        rw [hrun] at hstop
        cases hstop

end Funderberker

import Funderberker.Paging.Pat

/-!
# What an entry gives back

`Entry::map` puts an address and flags into one word, and `get_addr` and `get_flags` take
them out again.  The writer keeps every bit of the flags; the readers take the low twelve
bits for the flags and all bits above the offset for the address.  Two flags lie above the
low twelve bits: execute disable, bit 63, and the PAT bit of a large page, bit 12.  Neither
is reported as a flag, the first is read as part of the address, and the second trips the
alignment check of `get_addr`.

## Main definitions

* `Flags.BuiltFor` — flags that callers can build for a page size.
* `Lossless` — an entry gives back what was put in.

## Main results

* `entry_lossless_iff`
* `entry_lossy` — what happens to the two flags.
-/

namespace Funderberker

open Panicking

namespace Flags

/-- Flags that callers can build for pages of a size. -/
inductive BuiltFor (s : PageSize) : Flags → Prop
  | new : BuiltFor s new
  | readWrite {f : Flags} (hf : BuiltFor s f) (status : Bool) : BuiltFor s (setReadWrite f status)
  | userSupervisor {f : Flags} (hf : BuiltFor s f) (status : Bool) :
      BuiltFor s (setUserSupervisor f status)
  | global {f : Flags} (hf : BuiltFor s f) (status : Bool) : BuiltFor s (setGlobal f status)
  | executeDisable {f : Flags} (hf : BuiltFor s f) (status : Bool) :
      BuiltFor s (setExecuteDisable f status)
  | pat {f : Flags} (hf : BuiltFor s f) (patType : PatType) : BuiltFor s (setPat f patType s)

variable {s : PageSize} {f : Flags} {k : ℕ}

/-- The bits that the setters write. -/
def settable (s : PageSize) : List ℕ := [1, 2, 3, 4, 8, 63, s.getPatBit]

theorem getLsbD_set_of_notMem (hk : k < 64) (hmem : k ∈ settable s)
    (hf : ∀ i, i ∉ settable s → f.getLsbD i = false) (b : Bool) :
    ∀ i, i ∉ settable s → (set f (BitVec.twoPow 64 k) b).getLsbD i = false := by
  intro i hi
  have hne : i ≠ k := by
    rintro rfl
    exact hi hmem
  rw [getLsbD_set hk, if_neg hne]
  exact hf i hi

/-- No other bit is ever set. -/
theorem BuiltFor.getLsbD_eq_false (h : BuiltFor s f) :
    ∀ i, i ∉ settable s → f.getLsbD i = false := by
  induction h with
  | new => exact fun i _ => BitVec.getLsbD_zero
  | readWrite _ b ih => exact getLsbD_set_of_notMem (by omega) (by simp [settable]) ih b
  | userSupervisor _ b ih => exact getLsbD_set_of_notMem (by omega) (by simp [settable]) ih b
  | global _ b ih => exact getLsbD_set_of_notMem (by omega) (by simp [settable]) ih b
  | executeDisable _ b ih => exact getLsbD_set_of_notMem (by omega) (by simp [settable]) ih b
  | pat _ t ih =>
      intro i hi
      have hmem := hi
      simp only [settable, List.mem_cons, List.not_mem_nil, or_false, not_or] at hmem
      obtain ⟨-, -, h3, h4, -, -, hpat⟩ := hmem
      rw [getLsbD_setPat, if_neg h4, if_neg h3, if_neg hpat]
      exact ih i hi

/-- The page size is left to the entry. -/
theorem BuiltFor.joins (h : BuiltFor s f) : Entry.Joins f s := by
  by_cases hs : s = .size4kb
  · exact Or.inl hs
  · refine Or.inr (h.getLsbD_eq_false 7 ?_)
    have hbit : s.getPatBit = 12 := by
      cases s with
      | size4kb => exact absurd rfl hs
      | size2mb => rfl
      | size1gb => rfl
    simp [settable, hbit]

/-- Without the two high flags, all flags are among the low twelve bits. -/
theorem BuiltFor.high (h : BuiltFor s f) (hxd : f.getLsbD 63 = false) (hpat : f.getLsbD 12 = false)
    {i : ℕ} (hi : 12 ≤ i) : f.getLsbD i = false := by
  by_cases h63 : i = 63
  · rw [h63]
    exact hxd
  · by_cases h12 : i = 12
    · rw [h12]
      exact hpat
    · refine h.getLsbD_eq_false i ?_
      have hbit := s.getPatBit_cases
      simp only [settable, List.mem_cons, List.not_mem_nil, or_false]
      omega

end Flags

/-- The entry of a page that is mapped in an empty entry gives the address back, and
reports every flag. -/
def Lossless (s : PageSize) (a : PhysAddr) (f : Flags) : Prop :=
  ∃ w, Entry.map 0 a f s = .ok (.ok (), w) ∧ Entry.getAddr w s = .ok a ∧
    ∀ i, f.getLsbD i = true → (Entry.getFlags w).getLsbD i = true

namespace Entry

variable {s : PageSize} {f : Flags} {a : PhysAddr} {w : Word} {i : ℕ}

/-- The word of a page of any size, mapped in an empty entry. -/
def pageEntry (a : PhysAddr) (f : Flags) (s : PageSize) : Word :=
  setFlags (readdressed 0 a s) (leafFlags f s)

theorem getLsbD_pageEntry (ha : a % s.size = 0) (hi : i < 64) : (pageEntry a f s).getLsbD i =
    (decide (s.offsetBitCount ≤ i) && (BitVec.ofNat 64 a).getLsbD i ||
      (leafFlags f s).getLsbD i) := by
  have hle := s.offsetBitCount_le
  rw [pageEntry, getLsbD_setFlags hi, getLsbD_readdressed ha]
  by_cases hoff : i < s.offsetBitCount
  · simp [hoff]
  · simp [hoff, Nat.not_lt.mp hoff, show 12 ≤ i by omega]

theorem map_zero (ha : a % s.size = 0) (hf : Joins f s) :
    map 0 a f s = .ok (.ok (), pageEntry a f s) := by
  rw [map_of_absent (w := 0) BitVec.getLsbD_zero ha, if_pos hf, pageEntry]

/-- The address, when no flag is above the low twelve bits. -/
theorem getAddr_pageEntry (ha : a % s.size = 0) (hlt : a < 2 ^ 52)
    (hf : ∀ i, 12 ≤ i → f.getLsbD i = false) : getAddr (pageEntry a f s) s = .ok a := by
  have hle := s.offsetBitCount_le
  have hflags : ∀ i, 12 ≤ i → (leafFlags f s).getLsbD i = false := by
    intro i hi
    rw [getLsbD_leafFlags, hf i hi]
    simp [show i ≠ 0 by omega, show i ≠ 10 by omega, show i ≠ 7 by omega]
  have hoffset : pageEntry a f s &&& ~~~0xFFF#64 &&& s.getOffsetMask = 0 := by
    refine BitVec.eq_of_getLsbD_eq fun i hi => ?_
    rw [BitVec.getLsbD_and, BitVec.getLsbD_and, BitVec.getLsbD_not, getLsbD_flagMask,
      getLsbD_offsetMask, getLsbD_pageEntry ha hi]
    by_cases h12 : i < 12
    · simp [h12]
    · by_cases hoff : i < s.offsetBitCount
      · simp [hflags i (by omega), Nat.not_le.mpr hoff]
      · simp [hoff]
  have haddr : pageEntry a f s &&& ~~~s.getOffsetMask = BitVec.ofNat 64 a := by
    refine BitVec.eq_of_getLsbD_eq fun i hi => ?_
    rw [BitVec.getLsbD_and, BitVec.getLsbD_not, getLsbD_offsetMask, getLsbD_pageEntry ha hi]
    by_cases hoff : i < s.offsetBitCount
    · simp [hoff, getLsbD_ofNat_offset ha hoff]
    · rw [hflags i (by omega)]
      simp [hoff, hi, Nat.not_lt.mp hoff]
  rw [getAddr, if_pos hoffset, haddr, BitVec.toNat_ofNat,
    Nat.mod_eq_of_lt (hlt.trans (by norm_num))]

/-- The reader of flags sees the low twelve bits only. -/
theorem getLsbD_getFlags : (getFlags w).getLsbD i = (w.getLsbD i && decide (i < 12)) := by
  rw [getFlags, BitVec.getLsbD_and, getLsbD_flagMask]

end Entry

open Entry

/-- **When an entry is lossless.**  For an aligned address and flags that callers can build
for the page size: mapping gives the address back and reports every flag exactly when
neither execute disable nor the PAT bit of a large page is set. -/
theorem entry_lossless_iff {s : PageSize} {a : PhysAddr} {f : Flags} (ha : a % s.size = 0)
    (hlt : a < 2 ^ 52) (hf : f.BuiltFor s) :
    Lossless s a f ↔ f.get Flags.FLAG_XD = false ∧ f.get Flags.FLAG_BIG_PAGES_PAT = false := by
  rw [Flags.FLAG_XD, Flags.FLAG_BIG_PAGES_PAT, Flags.get_twoPow (by omega),
    Flags.get_twoPow (by omega)]
  constructor
  · rintro ⟨w, -, -, hreport⟩
    have hlost : ∀ i, 12 ≤ i → f.getLsbD i = false := by
      intro i hi
      rw [Bool.eq_false_iff]
      intro hset
      have := hreport i hset
      rw [getLsbD_getFlags, decide_eq_false (by omega), Bool.and_false] at this
      cases this
    exact ⟨hlost 63 (by omega), hlost 12 (by omega)⟩
  · rintro ⟨hxd, hpat⟩
    have hhigh : ∀ i, 12 ≤ i → f.getLsbD i = false := fun i hi => hf.high hxd hpat hi
    refine ⟨pageEntry a f s, map_zero ha hf.joins, getAddr_pageEntry ha hlt hhigh, fun i hset => ?_⟩
    have hi : i < 12 := by
      by_contra hge
      rw [hhigh i (by omega)] at hset
      cases hset
    rw [getLsbD_getFlags, getLsbD_pageEntry ha (by omega), getLsbD_leafFlags, hset]
    simp [hi]

theorem example_lossless :
    Lossless .size2mb 0x400000 ((Flags.new.setReadWrite true).setPat .writeThrough .size2mb) :=
  (entry_lossless_iff (by decide) (by decide) (.pat (.readWrite .new true) .writeThrough)).mpr
    (by decide)

/-- **The two flags that are lost.**  With execute disable, a mapped entry reports no such
flag and its address has bit 63 set; with write-combining on a large page, asking for the
address panics. -/
theorem entry_lossy :
    (∃ w, Entry.map 0 0x1000 (Flags.new.setExecuteDisable true) .size4kb = .ok (.ok (), w) ∧
      Entry.getAddr w .size4kb = .ok (0x1000 + 2 ^ 63) ∧
      (Entry.getFlags w).get Flags.FLAG_XD = false) ∧
    (∃ w, Entry.map 0 0x400000 (Flags.new.setPat .writeCombining .size2mb) .size2mb =
        .ok (.ok (), w) ∧
      Entry.getAddr w .size2mb = .error (.explicit "Address is not aligned to the page size")) ∧
    ¬ Lossless .size4kb 0x1000 (Flags.new.setExecuteDisable true) := by
  refine ⟨⟨_, rfl, by decide, by decide⟩, ⟨_, rfl, by decide⟩, ?_⟩
  rintro ⟨w, hmap, haddr, -⟩
  have hrun : Entry.map 0 0x1000 (Flags.new.setExecuteDisable true) .size4kb =
      .ok (.ok (), 0x8000000000001401#64) := by decide
  rw [hrun] at hmap
  cases hmap
  exact absurd haddr (by decide)

end Funderberker

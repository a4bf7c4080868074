import Funderberker.Pmm.Buddy

/-!
# Page-table entries

Flags, page sizes and entries as `kernel/src/arch/x86_64/paging` and
`kernel/src/mem/paging.rs` compute them.  An entry and a set of flags are both one
64-bit word; `set_flags` and `set_addr` write parts of it.

What a proof needs of a word is which bits are set, so each function of flags and
entries has a lemma about the bits of its result.

## Main definitions

* `Flags.set`, `Flags.get`, `Flags.join`, and one setter and getter for each flag.
* `PageSize`, `PatType`, `Flags.setPat`.
* `Entry.getFlags`, `setFlags`, `getAddr`, `setAddr`, `map`, `release`.
* `Entry.frame`, `Entry.leaf` — the address in a word, and the word of a mapped page.
* `Flags.Built` — the flags that callers can build for basic pages.
-/

namespace Funderberker

open Panicking

/-- A machine word. -/
abbrev Word := BitVec 64

/-- Flags of an entry, as a word. -/
abbrev Flags := BitVec 64

/-! ## Page sizes -/

/-- The page sizes of the architecture. -/
inductive PageSize
  | size4kb
  | size2mb
  | size1gb
  deriving DecidableEq, Repr

namespace PageSize

def size : PageSize → ℕ
  | size4kb => 0x1000
  | size2mb => 0x200000
  | size1gb => 0x40000000

/-- Alignment in basic pages. -/
def pageAlignment (s : PageSize) : ℕ := s.size / BASIC_PAGE_SIZE

/-- Size in basic pages. -/
def toDefaultPageCount (s : PageSize) : ℕ := s.size / BASIC_PAGE_SIZE

def fromBottomPagingLevel : ℕ → Option PageSize
  | 0 => some size4kb
  | 1 => some size2mb
  | 2 => some size1gb
  | _ => none

def bottomPagingLevel : PageSize → ℕ
  | size4kb => 0
  | size2mb => 1
  | size1gb => 2

def offsetBitCount : PageSize → ℕ
  | size4kb => 12
  | size2mb => 21
  | size1gb => 30

def getOffsetMask (s : PageSize) : Word := BitVec.ofNat 64 (s.size - 1)

end PageSize

/-! ## Memory types -/

/-- The memory types of the page attribute table. -/
inductive PatType
  | uncacheable
  | writeCombining
  | writeThrough
  | writeProtected
  | writeBack
  | uncached
  deriving DecidableEq, Repr

/-- The entries of the page attribute table. -/
inductive PatEntry
  | pat0
  | pat1
  | pat2
  | pat3
  | pat4
  | pat5
  | pat6
  | pat7
  deriving DecidableEq, Repr

/-- The number of an entry. -/
def PatEntry.asUsize : PatEntry → ℕ
  | pat0 => 0b000
  | pat1 => 0b001
  | pat2 => 0b010
  | pat3 => 0b011
  | pat4 => 0b100
  | pat5 => 0b101
  | pat6 => 0b110
  | pat7 => 0b111

/-- The entry that holds a type. -/
def PatType.toPatEntry : PatType → PatEntry
  | writeBack => .pat0
  | writeThrough => .pat1
  | uncached => .pat2
  | uncacheable => .pat3
  | writeCombining => .pat4
  | writeProtected => .pat5

/-! ## Flags -/

namespace Flags

/-- Present. -/
def FLAG_P : Word := BitVec.twoPow 64 0
/-- Read/write. -/
def FLAG_RW : Word := BitVec.twoPow 64 1
/-- User/supervisor. -/
def FLAG_US : Word := BitVec.twoPow 64 2
/-- Write-through, also bit 0 of the PAT index. -/
def FLAG_PWT : Word := BitVec.twoPow 64 3
/-- Cache disable, also bit 1 of the PAT index. -/
def FLAG_PCD : Word := BitVec.twoPow 64 4
/-- Page size. -/
def FLAG_PS : Word := BitVec.twoPow 64 7
/-- Global. -/
def FLAG_G : Word := BitVec.twoPow 64 8
/-- Marks a page to be freed when its entry is released. -/
def FLAG_ALLOCATED : Word := BitVec.twoPow 64 9
/-- Marks the entry that ends a translation. -/
def FLAG_LAST_ENTRY : Word := BitVec.twoPow 64 10
def HLAT : Word := BitVec.twoPow 64 11
/-- The third PAT bit of a 2MB or 1GB page. -/
def FLAG_BIG_PAGES_PAT : Word := BitVec.twoPow 64 12
/-- The third PAT bit of a 4KB page. -/
def FLAG_4KB_PAT : Word := BitVec.twoPow 64 7
/-- Execute disable. -/
def FLAG_XD : Word := BitVec.twoPow 64 63

def new : Flags := 0

def get (f : Flags) (data : Word) : Bool := f &&& data != 0

def set (f : Flags) (data : Word) (status : Bool) : Flags :=
  if status then f ||| data else f &&& ~~~data

/-- Both sets of flags, if they do not overlap. -/
def join (f other : Flags) : Option Flags :=
  if f &&& other != 0 then none else some (set f other true)

def setPresent (f : Flags) : Bool → Flags := set f FLAG_P
def setReadWrite (f : Flags) : Bool → Flags := set f FLAG_RW
def setUserSupervisor (f : Flags) : Bool → Flags := set f FLAG_US
def setPwt (f : Flags) : Bool → Flags := set f FLAG_PWT
def setPcd (f : Flags) : Bool → Flags := set f FLAG_PCD
def setPatBigPages (f : Flags) : Bool → Flags := set f FLAG_BIG_PAGES_PAT
def setPat4kb (f : Flags) : Bool → Flags := set f FLAG_4KB_PAT
def setPageSize (f : Flags) : Bool → Flags := set f FLAG_PS
def setGlobal (f : Flags) : Bool → Flags := set f FLAG_G
def setHlat (f : Flags) : Bool → Flags := set f HLAT
def setExecuteDisable (f : Flags) : Bool → Flags := set f FLAG_XD
def setLastEntry (f : Flags) : Bool → Flags := set f FLAG_LAST_ENTRY

def getPresent (f : Flags) : Bool := get f FLAG_P
def getAllocated (f : Flags) : Bool := get f FLAG_ALLOCATED
def getLastEntry (f : Flags) : Bool := get f FLAG_LAST_ENTRY

/-- The bits that select a memory type, on a page of the given size. -/
def setPat (f : Flags) (patType : PatType) (pageSize : PageSize) : Flags :=
  let pat := patType.toPatEntry.asUsize
  let f := if pageSize = .size4kb then setPat4kb f (pat &&& 0b100 != 0)
    else setPatBigPages f (pat &&& 0b100 != 0)
  setPcd (setPwt f (pat &&& 0b010 != 0)) (pat &&& 0b001 != 0)

end Flags

/-- The flags that go with a page size. -/
def PageSize.toFlags : PageSize → Flags
  | size4kb => Flags.new
  | _ => Flags.setPageSize Flags.new true

/-! ## Entries -/

namespace Entry

def getFlags (w : Word) : Flags := w &&& 0xFFF#64

def setFlags (w : Word) (flags : Flags) : Word := (w &&& ~~~0xFFF#64) ||| flags

def getAddr (w : Word) (pageSize : PageSize) : Except Panic PhysAddr :=
  if w &&& ~~~0xFFF#64 &&& pageSize.getOffsetMask = 0 then
    .ok (w &&& ~~~pageSize.getOffsetMask).toNat
  else .error (.explicit "Address is not aligned to the page size")

def setAddr (w : Word) (addr : PhysAddr) (pageSize : PageSize) : Except Panic Word :=
  let addr := BitVec.ofNat 64 addr
  if addr &&& pageSize.getOffsetMask = 0 then
    .ok ((w &&& pageSize.getOffsetMask) ||| (addr &&& ~~~pageSize.getOffsetMask))
  else .error (.explicit "Address is not aligned to the page size")

/-- The table an entry points to.  Tables are reached through the direct map, which
the model identifies with physical memory. -/
def nextLevelTable (w : Word) : Except Panic PhysAddr := getAddr w .size4kb

/-- Map the entry.  The address is written before the flags are joined, so an entry
is changed even when they cannot be. -/
def map (w : Word) (physAddr : PhysAddr) (flags : Flags) (pageSize : PageSize) :
    Except Panic (Except PagingError Unit × Word) :=
  if (getFlags w).getPresent then .ok (.error .pageAlreadyPresent, w)
  else do
    let w ← setAddr w physAddr pageSize
    match ((flags.setPresent true).setLastEntry true).join pageSize.toFlags with
    | none => .ok (.error .invalidFlags, w)
    | some flags => .ok (.ok (), setFlags w flags)

/-- Mark the entry as not present, and free its page if it is marked so. -/
def release {σ : Type} [PmmAllocator σ] (m : Overflow) (pmm : σ) (w : Word)
    (pageSize : PageSize) : Except Panic (Except PagingError Unit × Word × σ) :=
  let flags := getFlags w
  if ¬ flags.getPresent then .ok (.error .pageNotPresent, w, pmm)
  else do
    let pmm ← if flags.getAllocated then do
        let physAddr ← getAddr w pageSize
        match ← PmmAllocator.free m pmm physAddr 1 with
        | (.ok (), pmm) => .ok pmm
        | (.error _, _) => .error (.expect "Failed to free page")
      else .ok pmm
    .ok (.ok (), setFlags w (flags.setPresent false), pmm)

end Entry

/-! ## Bits -/

variable {f : Flags} {w : Word} {i k : ℕ} {a : PhysAddr}

theorem getLsbD_flagMask (i : ℕ) : (0xFFF#64).getLsbD i = decide (i < 12) := by
  rw [show (0xFFF : ℕ) = 2 ^ 12 - 1 from rfl, BitVec.getLsbD_ofNat, Nat.testBit_two_pow_sub_one]
  simp only [Bool.and_eq_right_iff_imp, decide_eq_true_eq]
  omega

theorem getOffsetMask_size4kb : PageSize.size4kb.getOffsetMask = 0xFFF#64 := rfl

namespace Flags

theorem get_twoPow (hk : k < 64) : get f (BitVec.twoPow 64 k) = f.getLsbD k := by
  have hne : BitVec.twoPow 64 k ≠ 0#64 := by
    intro h
    have := congrArg (BitVec.getLsbD · k) h
    simp [hk] at this
  rw [get, BitVec.and_twoPow]
  cases f.getLsbD k <;> simp [hne]

theorem getLsbD_set (hk : k < 64) (b : Bool) :
    (set f (BitVec.twoPow 64 k) b).getLsbD i = if i = k then b else f.getLsbD i := by
  by_cases hik : i = k
  · subst hik
    cases b <;> simp [set, hk]
  · have hki : ¬ k = i := fun h => hik h.symm
    cases b with
    | true => simp [set, hk, hik, hki]
    | false =>
        rcases Nat.lt_or_ge i 64 with hi | hi
        · simp [set, hik, hi]
        · simp [set, hik, BitVec.getLsbD_of_ge _ i hi]

/-- A flag among the low bits of an entry. -/
theorem get_getFlags (hk : k < 12) :
    get (Entry.getFlags w) (BitVec.twoPow 64 k) = w.getLsbD k := by
  rw [get_twoPow (by omega), Entry.getFlags, BitVec.getLsbD_and, getLsbD_flagMask,
    decide_eq_true hk, Bool.and_true]

theorem getPresent_getFlags : getPresent (Entry.getFlags w) = w.getLsbD 0 :=
  get_getFlags (by omega)

theorem getAllocated_getFlags : getAllocated (Entry.getFlags w) = w.getLsbD 9 :=
  get_getFlags (by omega)

theorem getLastEntry_getFlags : getLastEntry (Entry.getFlags w) = w.getLsbD 10 :=
  get_getFlags (by omega)

/-- Flags for basic pages that callers can build with the public setters. -/
inductive Built : Flags → Prop
  | new : Built new
  | readWrite {f : Flags} (hf : Built f) (status : Bool) : Built (setReadWrite f status)
  | userSupervisor {f : Flags} (hf : Built f) (status : Bool) : Built (setUserSupervisor f status)
  | global {f : Flags} (hf : Built f) (status : Bool) : Built (setGlobal f status)
  | pat {f : Flags} (hf : Built f) (patType : PatType) : Built (setPat f patType .size4kb)

/-- The flags stay out of the address, and no page is marked to be freed. -/
structure Plain (f : Flags) : Prop where
  allocated : f.getLsbD 9 = false
  high : ∀ i, 12 ≤ i → f.getLsbD i = false

theorem Plain.set (h : Plain f) (hk : k < 9) (b : Bool) : Plain (set f (BitVec.twoPow 64 k) b) where
  allocated := by
    rw [getLsbD_set (by omega), if_neg (by omega)]
    exact h.allocated
  high i hi := by
    rw [getLsbD_set (by omega), if_neg (by omega)]
    exact h.high i hi

theorem Built.plain (h : Built f) : Plain f := by
  induction h with
  | new => exact ⟨rfl, fun i _ => BitVec.getLsbD_zero⟩
  | readWrite _ b ih => exact ih.set (k := 1) (by omega) b
  | userSupervisor _ b ih => exact ih.set (k := 2) (by omega) b
  | global _ b ih => exact ih.set (k := 8) (by omega) b
  | pat _ t ih =>
      have h7 := ih.set (k := 7) (by omega) (t.toPatEntry.asUsize &&& 0b100 != 0)
      have h3 := h7.set (k := 3) (by omega) (t.toPatEntry.asUsize &&& 0b010 != 0)
      exact h3.set (k := 4) (by omega) (t.toPatEntry.asUsize &&& 0b001 != 0)

end Flags

namespace Entry

/-- The address in a word of a basic page or of a table. -/
def frame (w : Word) : PhysAddr := (w &&& ~~~0xFFF#64).toNat

theorem and_not_flagMask_and (w : Word) : w &&& ~~~0xFFF#64 &&& 0xFFF#64 = 0 := by
  rw [BitVec.and_assoc, BitVec.and_comm (~~~0xFFF#64)]
  simp

theorem frame_mod (w : Word) : frame w % 4096 = 0 := by
  have hnat := congrArg BitVec.toNat (and_not_flagMask_and w)
  rw [BitVec.toNat_and] at hnat
  exact (Nat.and_two_pow_sub_one_eq_mod _ 12).symm.trans hnat

theorem getAddr_size4kb (w : Word) : getAddr w .size4kb = .ok (frame w) := by
  rw [getAddr, getOffsetMask_size4kb, if_pos (and_not_flagMask_and w), frame]

theorem nextLevelTable_eq (w : Word) : nextLevelTable w = .ok (frame w) := getAddr_size4kb w

/-- An aligned address has none of the flag bits. -/
theorem getLsbD_ofNat_aligned (ha : a % 4096 = 0) (hi : i < 12) :
    (BitVec.ofNat 64 a).getLsbD i = false := by
  obtain ⟨q, rfl⟩ := Nat.dvd_of_mod_eq_zero ha
  rw [BitVec.getLsbD_ofNat, show (4096 : ℕ) = 2 ^ 12 from rfl, Nat.testBit_two_pow_mul]
  simp [show ¬ 12 ≤ i by omega]

/-- Clearing the flag bits leaves an aligned address. -/
theorem ofNat_or_and_not_flagMask (ha : a % 4096 = 0) (hf : ∀ i, 12 ≤ i → f.getLsbD i = false) :
    (BitVec.ofNat 64 a ||| f) &&& ~~~0xFFF#64 = BitVec.ofNat 64 a := by
  refine BitVec.eq_of_getLsbD_eq fun i hi => ?_
  rw [BitVec.getLsbD_and, BitVec.getLsbD_or, BitVec.getLsbD_not, getLsbD_flagMask]
  by_cases h : i < 12
  · simp [h, getLsbD_ofNat_aligned ha h]
  · rw [hf i (by omega)]
    simp [h, hi]

theorem setAddr_size4kb (ha : a % 4096 = 0) :
    setAddr w a .size4kb = .ok ((w &&& 0xFFF#64) ||| BitVec.ofNat 64 a) := by
  have hlow : BitVec.ofNat 64 a &&& 0xFFF#64 = 0#64 := by
    refine BitVec.eq_of_getLsbD_eq fun i hi => ?_
    rw [BitVec.getLsbD_and, getLsbD_flagMask, BitVec.getLsbD_zero]
    by_cases h : i < 12
    · rw [getLsbD_ofNat_aligned ha h, Bool.false_and]
    · simp [h]
  have hkeep : BitVec.ofNat 64 a &&& ~~~0xFFF#64 = BitVec.ofNat 64 a := by
    rw [← ofNat_or_and_not_flagMask (f := 0#64) ha fun _ _ => BitVec.getLsbD_zero, BitVec.or_zero]
    simp only [BitVec.and_assoc, BitVec.and_self]
  simp only [setAddr, getOffsetMask_size4kb, hlow, hkeep]
  rfl

/-- An aligned address together with flags that stay out of it. -/
theorem frame_ofNat_or (ha : a % 4096 = 0) (ha64 : a < 2 ^ 64)
    (hf : ∀ i, 12 ≤ i → f.getLsbD i = false) : frame (BitVec.ofNat 64 a ||| f) = a := by
  rw [frame, ofNat_or_and_not_flagMask ha hf, BitVec.toNat_ofNat, Nat.mod_eq_of_lt ha64]

/-- The word of a mapped basic page. -/
def leaf (a : PhysAddr) (flags : Flags) : Word :=
  BitVec.ofNat 64 a ||| (flags.setPresent true).setLastEntry true

/-- The word of an entry that points to a table. -/
def tableEntry (a : PhysAddr) : Word :=
  BitVec.ofNat 64 a ||| (Flags.new.setPresent true).setReadWrite true

theorem getLsbD_leaf (ha : a % 4096 = 0) (hi : i < 12) :
    (leaf a f).getLsbD i = (decide (i = 0) || decide (i = 10) || f.getLsbD i) := by
  rw [leaf, BitVec.getLsbD_or, getLsbD_ofNat_aligned ha hi, Flags.setLastEntry,
    Flags.FLAG_LAST_ENTRY, Flags.getLsbD_set (by omega), Flags.setPresent, Flags.FLAG_P,
    Flags.getLsbD_set (by omega)]
  by_cases h0 : i = 0 <;> by_cases h10 : i = 10 <;> simp [h0, h10]

theorem frame_leaf (ha : a % 4096 = 0) (ha64 : a < 2 ^ 64) (hf : f.Plain) :
    frame (leaf a f) = a := by
  refine frame_ofNat_or ha ha64 fun i hi => ?_
  rw [Flags.setLastEntry, Flags.FLAG_LAST_ENTRY, Flags.getLsbD_set (by omega),
    if_neg (by omega), Flags.setPresent, Flags.FLAG_P, Flags.getLsbD_set (by omega),
    if_neg (by omega)]
  exact hf.high i hi

theorem present_tableEntry (a : PhysAddr) : (tableEntry a).getLsbD 0 = true := by
  rw [tableEntry, BitVec.getLsbD_or, Bool.or_eq_true]
  exact Or.inr rfl

theorem last_tableEntry (ha : a % 4096 = 0) : (tableEntry a).getLsbD 10 = false := by
  rw [tableEntry, BitVec.getLsbD_or, getLsbD_ofNat_aligned ha (by omega), Bool.false_or]
  rfl

theorem frame_tableEntry (ha : a % 4096 = 0) (ha64 : a < 2 ^ 64) : frame (tableEntry a) = a := by
  refine frame_ofNat_or ha ha64 fun i hi => ?_
  have hsmall : (Flags.new.setPresent true).setReadWrite true = 3#64 := rfl
  rw [hsmall, BitVec.getLsbD_ofNat,
    Nat.testBit_lt_two_pow (show 3 < 2 ^ i from lt_of_lt_of_le (by norm_num)
      (Nat.pow_le_pow_right (show 0 < 2 by norm_num) hi)), Bool.and_false]

/-- Mapping a basic page leaves nothing of the old word. -/
theorem map_size4kb (hw : w.getLsbD 0 = false) (ha : a % 4096 = 0) (flags : Flags) :
    map w a flags .size4kb = .ok (.ok (), leaf a flags) := by
  have hjoin : ((flags.setPresent true).setLastEntry true).join PageSize.size4kb.toFlags =
      some ((flags.setPresent true).setLastEntry true) := by
    simp [Flags.join, PageSize.toFlags, Flags.new, Flags.set]
  have hset : setFlags ((w &&& 0xFFF#64) ||| BitVec.ofNat 64 a)
      ((flags.setPresent true).setLastEntry true) = leaf a flags := by
    have hlow : ∀ i, 12 ≤ i → (w &&& 0xFFF#64).getLsbD i = false := by
      intro i hi
      rw [BitVec.getLsbD_and, getLsbD_flagMask, decide_eq_false (by omega), Bool.and_false]
    rw [setFlags, leaf, BitVec.or_comm (w &&& 0xFFF#64), ofNat_or_and_not_flagMask ha hlow]
  rw [map, Flags.getPresent_getFlags, hw, setAddr_size4kb ha]
  simp only [Bool.false_eq_true, if_false, ok_bind, hjoin, hset]

theorem map_of_present (hw : w.getLsbD 0 = true) (a : PhysAddr) (flags : Flags)
    (pageSize : PageSize) : map w a flags pageSize = .ok (.error .pageAlreadyPresent, w) := by
  rw [map, Flags.getPresent_getFlags, hw, if_pos rfl]

/-- The word of an entry after its release. -/
def released (w : Word) : Word := setFlags w ((getFlags w).setPresent false)

theorem getLsbD_released (i : ℕ) :
    (released w).getLsbD i = if i = 0 then false else w.getLsbD i := by
  rcases Nat.lt_or_ge i 64 with hi | hi
  · rw [released, setFlags, BitVec.getLsbD_or, BitVec.getLsbD_and, BitVec.getLsbD_not,
      getLsbD_flagMask, Flags.setPresent, Flags.FLAG_P, Flags.getLsbD_set (by omega), getFlags,
      BitVec.getLsbD_and, getLsbD_flagMask]
    by_cases h0 : i = 0
    · simp [h0]
    · by_cases h : i < 12 <;> simp [h0, h, hi]
  · simp [BitVec.getLsbD_of_ge _ i hi]

section Release

variable {σ : Type} [PmmAllocator σ] {m : Overflow} {pmm : σ}

theorem release_of_present (hw : w.getLsbD 0 = true) (hal : w.getLsbD 9 = false)
    (pageSize : PageSize) : release m pmm w pageSize = .ok (.ok (), released w, pmm) := by
  rw [← Flags.getPresent_getFlags] at hw
  rw [← Flags.getAllocated_getFlags] at hal
  simp [release, hw, hal, released]

theorem release_of_absent (hw : w.getLsbD 0 = false) (pageSize : PageSize) :
    release m pmm w pageSize = .ok (.error .pageNotPresent, w, pmm) := by
  rw [← Flags.getPresent_getFlags] at hw
  simp [release, hw]

end Release

end Entry

/-! ## Pages of any size -/

section

variable {s : PageSize} {flags : Flags}

theorem PageSize.basic_dvd (s : PageSize) : 4096 ∣ s.size := by
  cases s <;> decide

theorem PageSize.size_pos (s : PageSize) : 0 < s.size := by
  cases s <;> decide

theorem mod_basic (ha : a % s.size = 0) : a % 4096 = 0 :=
  Nat.mod_eq_zero_of_dvd (s.basic_dvd.trans (Nat.dvd_of_mod_eq_zero ha))

theorem PageSize.size_eq_two_pow (s : PageSize) : s.size = 2 ^ s.offsetBitCount := by
  cases s <;> rfl

theorem PageSize.offsetBitCount_le (s : PageSize) :
    12 ≤ s.offsetBitCount ∧ s.offsetBitCount ≤ 30 := by
  cases s <;> decide

theorem getLsbD_offsetMask (s : PageSize) (i : ℕ) :
    s.getOffsetMask.getLsbD i = decide (i < s.offsetBitCount) := by
  have hle := s.offsetBitCount_le
  rw [PageSize.getOffsetMask, s.size_eq_two_pow, BitVec.getLsbD_ofNat,
    Nat.testBit_two_pow_sub_one]
  simp only [Bool.and_eq_right_iff_imp, decide_eq_true_eq]
  omega

/-- An aligned address has no bit of the offset. -/
theorem getLsbD_ofNat_offset (ha : a % s.size = 0) (hi : i < s.offsetBitCount) :
    (BitVec.ofNat 64 a).getLsbD i = false := by
  obtain ⟨q, rfl⟩ := Nat.dvd_of_mod_eq_zero ha
  rw [BitVec.getLsbD_ofNat, s.size_eq_two_pow, Nat.testBit_two_pow_mul]
  simp [Nat.not_le.mpr hi]

theorem ofNat_and_offsetMask (ha : a % s.size = 0) :
    BitVec.ofNat 64 a &&& s.getOffsetMask = 0#64 := by
  refine BitVec.eq_of_getLsbD_eq fun i _ => ?_
  rw [BitVec.getLsbD_and, getLsbD_offsetMask, BitVec.getLsbD_zero]
  by_cases hi : i < s.offsetBitCount
  · rw [getLsbD_ofNat_offset ha hi, Bool.false_and]
  · rw [decide_eq_false hi, Bool.and_false]

theorem and_not_of_and_eq_zero {x y : Word} (h : x &&& y = 0) : x &&& ~~~y = x := by
  refine BitVec.eq_of_getLsbD_eq fun i hi => ?_
  have hbit : (x &&& y).getLsbD i = false := by
    rw [h]
    exact BitVec.getLsbD_zero
  rw [BitVec.getLsbD_and] at hbit
  rw [BitVec.getLsbD_and, BitVec.getLsbD_not, decide_eq_true hi, Bool.true_and]
  cases hx : x.getLsbD i with
  | false => rfl
  | true =>
      rw [hx, Bool.true_and] at hbit
      rw [hbit]
      rfl

namespace Entry

/-- The flags of a mapped page. -/
def leafFlags (flags : Flags) (s : PageSize) : Flags :=
  (flags.setPresent true).setLastEntry true ||| s.toFlags

/-- The word after an address has been written. -/
def readdressed (w : Word) (a : PhysAddr) (s : PageSize) : Word :=
  (w &&& s.getOffsetMask) ||| BitVec.ofNat 64 a

/-- The flags leave the page size to the entry. -/
def Joins (flags : Flags) (s : PageSize) : Prop := s = .size4kb ∨ flags.getLsbD 7 = false

instance (flags : Flags) (s : PageSize) : Decidable (Joins flags s) :=
  inferInstanceAs (Decidable (_ ∨ _))

theorem setAddr_eq (ha : a % s.size = 0) : setAddr w a s = .ok (readdressed w a s) := by
  have hlow := ofNat_and_offsetMask ha
  simp only [setAddr, readdressed, and_not_of_and_eq_zero hlow, hlow]
  rfl

theorem getLsbD_setLeaf (i : ℕ) : ((flags.setPresent true).setLastEntry true).getLsbD i =
    (decide (i = 0) || decide (i = 10) || flags.getLsbD i) := by
  rw [Flags.setLastEntry, Flags.FLAG_LAST_ENTRY, Flags.getLsbD_set (by omega), Flags.setPresent,
    Flags.FLAG_P, Flags.getLsbD_set (by omega)]
  by_cases h0 : i = 0 <;> by_cases h10 : i = 10 <;> simp [h0, h10]

theorem toFlags_of_ne (hs : s ≠ .size4kb) : s.toFlags = BitVec.twoPow 64 7 := by
  cases s with
  | size4kb => exact absurd rfl hs
  | size2mb => rfl
  | size1gb => rfl

theorem join_eq (flags : Flags) (s : PageSize) :
    ((flags.setPresent true).setLastEntry true).join s.toFlags =
      if Joins flags s then some (leafFlags flags s) else none := by
  by_cases hs : s = .size4kb
  · subst hs
    simp [Flags.join, Joins, leafFlags, PageSize.toFlags, Flags.new, Flags.set]
  · have hbit : ((flags.setPresent true).setLastEntry true &&& BitVec.twoPow 64 7 != 0) =
        flags.getLsbD 7 := by
      change Flags.get _ _ = _
      rw [Flags.get_twoPow (by omega), getLsbD_setLeaf]
      simp
    rw [Flags.join, leafFlags, toFlags_of_ne hs, hbit]
    cases h : flags.getLsbD 7 with
    | false => exact (if_pos (Or.inr h)).symm
    | true =>
        have hno : ¬ Joins flags s := fun hj => hj.elim hs fun h' => by rw [h] at h'; cases h'
        exact (if_neg hno).symm

/-- Mapping an entry that is not present.  The address is written in any case. -/
theorem map_of_absent (hw : w.getLsbD 0 = false) (ha : a % s.size = 0) (flags : Flags) :
    map w a flags s = .ok (if Joins flags s
      then (.ok (), setFlags (readdressed w a s) (leafFlags flags s))
      else (.error .invalidFlags, readdressed w a s)) := by
  rw [map, Flags.getPresent_getFlags, hw, setAddr_eq ha]
  simp only [Bool.false_eq_true, if_false, ok_bind, join_eq]
  by_cases h : Joins flags s
  · simp only [if_pos h]
  · simp only [if_neg h]

theorem getLsbD_leafFlags (i : ℕ) : (leafFlags flags s).getLsbD i =
    (decide (i = 0) || decide (i = 10) || flags.getLsbD i ||
      (decide (i = 7) && decide (s ≠ .size4kb))) := by
  have hsize : s.toFlags.getLsbD i = (decide (i = 7) && decide (s ≠ .size4kb)) := by
    by_cases hs : s = .size4kb
    · subst hs
      simp [PageSize.toFlags, Flags.new]
    · rw [toFlags_of_ne hs, BitVec.getLsbD_twoPow]
      simp [hs, eq_comm]
  rw [leafFlags, BitVec.getLsbD_or, getLsbD_setLeaf, hsize]

/-- The bits of a word after an address has been written. -/
theorem getLsbD_readdressed (ha : a % s.size = 0) (i : ℕ) : (readdressed w a s).getLsbD i =
    if i < s.offsetBitCount then w.getLsbD i else (BitVec.ofNat 64 a).getLsbD i := by
  rw [readdressed, BitVec.getLsbD_or, BitVec.getLsbD_and, getLsbD_offsetMask]
  by_cases hi : i < s.offsetBitCount
  · simp [hi, getLsbD_ofNat_offset ha hi]
  · simp [hi]

theorem getLsbD_setFlags (hi : i < 64) : (setFlags w flags).getLsbD i =
    ((decide (12 ≤ i) && w.getLsbD i) || flags.getLsbD i) := by
  rw [setFlags, BitVec.getLsbD_or, BitVec.getLsbD_and, BitVec.getLsbD_not, getLsbD_flagMask]
  by_cases h : i < 12
  · simp [h, Nat.not_le.mpr h]
  · simp [h, hi, Nat.not_lt.mp h]

end Entry

end

end Funderberker

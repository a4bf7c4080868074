import Funderberker.Paging.Entry

/-!
# The page attribute table

The kernel writes six memory types into the model-specific register `IA32_PAT`
(`kernel/src/arch/x86_64/paging/pat.rs`, over `cpu/msr.rs`), one byte for each entry of
the table, and selects an entry by three bits of a page's flags.  The processor reads the
index as the PAT bit, `PCD`, `PWT`, from the high bit down; `set_pat` writes the middle
bit into `PWT` and the low bit into `PCD`.  The types whose two low bits differ are
therefore read as another type.  The PAT bit itself has two places, bit 7 of a 4KB page
and bit 12 of a larger one, and `set_pat` clears only the one of the size it is given.

## Main definitions

* `MsrData`, `PatEntry.set`, `PatEntry.getType`, `setupPat` — the register.
* `Flags.patIndex` — the index as the processor reads it.
* `SelectsType` — what `set_pat` should do.

## Main results

* `getType_setupPat` — every type is in its entry, whatever the register held before.
* `setPat_selects_iff` — when `set_pat` selects the type it is given and leaves nothing of
  an earlier call.
-/

namespace Funderberker

open Panicking

/-! ## The register -/

/-- The two halves of a model-specific register. -/
structure MsrData where
  low : BitVec 32
  high : BitVec 32
  deriving DecidableEq, Repr

namespace MsrData

def toU64 (data : MsrData) : Word := (data.high.setWidth 64 <<< 32) ||| data.low.setWidth 64

def ofU64 (value : Word) : MsrData where
  low := value.setWidth 32
  high := (value >>> 32).setWidth 32

@[simp] theorem toU64_ofU64 (value : Word) : (ofU64 value).toU64 = value := by
  refine BitVec.eq_of_getLsbD_eq fun i hi => ?_
  simp only [toU64, ofU64, BitVec.getLsbD_or, BitVec.getLsbD_shiftLeft, BitVec.getLsbD_setWidth,
    BitVec.getLsbD_ushiftRight]
  by_cases h : i < 32
  · simp [h, hi]
  · simp [h, hi, show i - 32 < 32 by omega, show i - 32 < 64 by omega,
      show 32 + (i - 32) = i by omega]

end MsrData

/-- The encoding of a type in the register. -/
def PatType.asU8 : PatType → BitVec 8
  | uncacheable => 0b00
  | writeCombining => 0b01
  | writeThrough => 0b100
  | writeProtected => 0b101
  | writeBack => 0b110
  | uncached => 0b111

def PatType.tryFrom (value : BitVec 8) : Option PatType :=
  if value = 0b00 then some .uncacheable
  else if value = 0b01 then some .writeCombining
  else if value = 0b100 then some .writeThrough
  else if value = 0b101 then some .writeProtected
  else if value = 0b110 then some .writeBack
  else if value = 0b111 then some .uncached
  else none

/-- The bits between two entries of the register. -/
def SHIFTING_SIZE : ℕ := 8

namespace PatEntry

/-- Set an entry to a type. -/
def set (entry : PatEntry) (patType : PatType) (msr : MsrData) : MsrData :=
  let pat := msr.toU64
  let pat := pat &&& ~~~(0b111#64 <<< (entry.asUsize * SHIFTING_SIZE))
  let pat := pat ||| (patType.asU8.setWidth 64 <<< (entry.asUsize * SHIFTING_SIZE))
  MsrData.ofU64 pat

/-- The encoded type of an entry. -/
def typeCode (entry : PatEntry) (msr : MsrData) : BitVec 8 :=
  ((msr.toU64 >>> (entry.asUsize * SHIFTING_SIZE)) &&& 0b111#64).setWidth 8

def getType (entry : PatEntry) (msr : MsrData) : Except Panic PatType :=
  ofOption .unwrapErr (PatType.tryFrom (entry.typeCode msr))

end PatEntry

/-- The register after all six entries are set up. -/
def setupEntries (msr : MsrData) : MsrData :=
  let msr := PatEntry.set .pat0 .writeBack msr
  let msr := PatEntry.set .pat1 .writeThrough msr
  let msr := PatEntry.set .pat2 .uncached msr
  let msr := PatEntry.set .pat3 .uncacheable msr
  let msr := PatEntry.set .pat4 .writeCombining msr
  PatEntry.set .pat5 .writeProtected msr

/-- Set up the register.  `edx` is what leaf 1 of `cpuid` returns in that register. -/
def setupPat (edx : BitVec 32) (msr : MsrData) : Except Panic MsrData :=
  if edx &&& BitVec.twoPow 32 16 ≠ 0 then .ok (setupEntries msr)
  else .error (.explicit "PAT is not supported by this CPU")

theorem getLsbD_three (i : ℕ) : (0b111#64).getLsbD i = decide (i < 3) := by
  rw [show (0b111 : ℕ) = 2 ^ 3 - 1 from rfl, BitVec.getLsbD_ofNat, Nat.testBit_two_pow_sub_one]
  simp only [Bool.and_eq_right_iff_imp, decide_eq_true_eq]
  omega

/-- The encoding of a type has three bits. -/
theorem PatType.getLsbD_asU8 (t : PatType) {i : ℕ} (hi : 3 ≤ i) : t.asU8.getLsbD i = false := by
  have hlt : t.asU8.toNat < 2 ^ i :=
    lt_of_lt_of_le (show t.asU8.toNat < 2 ^ 3 by cases t <;> decide)
      (Nat.pow_le_pow_right (by omega) hi)
  rw [BitVec.getLsbD, Nat.testBit_lt_two_pow hlt]

theorem PatType.tryFrom_asU8 (t : PatType) : PatType.tryFrom t.asU8 = some t := by
  cases t <;> rfl

namespace PatEntry

theorem asUsize_lt (e : PatEntry) : e.asUsize < 8 := by cases e <;> decide

theorem asUsize_injective : Function.Injective asUsize := by
  intro e e' h
  cases e <;> cases e' <;> first | rfl | (simp [asUsize] at h)

theorem getLsbD_typeCode (e : PatEntry) (msr : MsrData) (i : ℕ) :
    (e.typeCode msr).getLsbD i = (decide (i < 3) && msr.toU64.getLsbD (e.asUsize * 8 + i)) := by
  simp only [typeCode, SHIFTING_SIZE, BitVec.getLsbD_setWidth, BitVec.getLsbD_and,
    BitVec.getLsbD_ushiftRight, getLsbD_three]
  by_cases h : i < 3
  · simp [h, show i < 8 by omega]
  · simp [h]

theorem getLsbD_set (e : PatEntry) (t : PatType) (msr : MsrData) {i : ℕ} (hi : i < 64) :
    (e.set t msr).toU64.getLsbD i =
      if e.asUsize * 8 ≤ i ∧ i < e.asUsize * 8 + 3 then t.asU8.getLsbD (i - e.asUsize * 8)
      else msr.toU64.getLsbD i := by
  simp only [set, SHIFTING_SIZE, MsrData.toU64_ofU64, BitVec.getLsbD_or, BitVec.getLsbD_and,
    BitVec.getLsbD_not, BitVec.getLsbD_shiftLeft, BitVec.getLsbD_setWidth, getLsbD_three]
  by_cases hlow : i < e.asUsize * 8
  · rw [if_neg (by omega)]
    simp [hlow, hi]
  · by_cases hin : i < e.asUsize * 8 + 3
    · rw [if_pos (by omega)]
      simp [hlow, hi, show i - e.asUsize * 8 < 3 by omega, show i - e.asUsize * 8 < 64 by omega]
    · rw [if_neg (by omega), t.getLsbD_asU8 (by omega)]
      simp [hlow, hi, show ¬ i - e.asUsize * 8 < 3 by omega]

/-- A write sets its own entry and leaves the others. -/
theorem typeCode_set (e e' : PatEntry) (t : PatType) (msr : MsrData) :
    e.typeCode (e'.set t msr) = if e = e' then t.asU8 else e.typeCode msr := by
  have he := e.asUsize_lt
  have he' := e'.asUsize_lt
  refine BitVec.eq_of_getLsbD_eq fun i hi => ?_
  rw [getLsbD_typeCode]
  by_cases h3 : i < 3
  · rw [getLsbD_set e' t msr (by omega)]
    by_cases heq : e = e'
    · subst heq
      rw [if_pos rfl, if_pos (by omega)]
      simp [h3]
    · have hne : e.asUsize ≠ e'.asUsize := fun h => heq (asUsize_injective h)
      rw [if_neg heq, if_neg (by omega), getLsbD_typeCode]
  · split
    · simp [h3, t.getLsbD_asU8 (show 3 ≤ i by omega)]
    · rw [getLsbD_typeCode]
      simp [h3]

end PatEntry

/-- **Every type is in its entry once the register is set up.** -/
theorem getType_setupPat {edx : BitVec 32} {msr msr' : MsrData} (t : PatType)
    (h : setupPat edx msr = .ok msr') : t.toPatEntry.getType msr' = .ok t := by
  have hcode : t.toPatEntry.typeCode (setupEntries msr) = t.asU8 := by
    cases t <;> simp [setupEntries, PatEntry.typeCode_set, PatType.toPatEntry]
  unfold setupPat at h
  split at h
  · cases h
    rw [PatEntry.getType, hcode, PatType.tryFrom_asU8, ofOption_some]
  · cases h

/-! ## Selecting an entry -/

/-- The place of the third PAT bit. -/
def PageSize.getPatBit : PageSize → ℕ
  | size4kb => 7
  | size2mb => 12
  | size1gb => 12

theorem PageSize.getPatBit_cases (s : PageSize) : s.getPatBit = 7 ∨ s.getPatBit = 12 := by
  cases s <;> decide

/-- A bit of the number of a type's entry. -/
def PatType.indexBit (t : PatType) (mask : ℕ) : Bool := t.toPatEntry.asUsize &&& mask != 0

namespace Flags

variable {f : Flags} {t t₁ : PatType} {s s₁ : PageSize} {i : ℕ}

/-- The entry that the processor selects for a page. -/
def patIndex (f : Flags) (s : PageSize) : ℕ :=
  4 * (f.getLsbD s.getPatBit).toNat + 2 * (get f FLAG_PCD).toNat + (get f FLAG_PWT).toNat

theorem getLsbD_setPat : (setPat f t s).getLsbD i =
    if i = 4 then t.indexBit 0b001 else if i = 3 then t.indexBit 0b010
    else if i = s.getPatBit then t.indexBit 0b100 else f.getLsbD i := by
  have hpat : (if s = .size4kb then setPat4kb f (t.indexBit 0b100)
      else setPatBigPages f (t.indexBit 0b100)) =
      set f (BitVec.twoPow 64 s.getPatBit) (t.indexBit 0b100) := by
    cases s <;> rfl
  have hbit := s.getPatBit_cases
  change (set (set (if s = .size4kb then setPat4kb f (t.indexBit 0b100)
    else setPatBigPages f (t.indexBit 0b100)) (BitVec.twoPow 64 3) (t.indexBit 0b010))
    (BitVec.twoPow 64 4) (t.indexBit 0b001)).getLsbD i = _
  rw [hpat, getLsbD_set (by omega), getLsbD_set (by omega), getLsbD_set (by omega)]

/-- `set_pat` writes the two low bits of the index the wrong way round. -/
theorem patIndex_setPat : patIndex (setPat f t s) s =
    4 * (t.indexBit 0b100).toNat + 2 * (t.indexBit 0b001).toNat + (t.indexBit 0b010).toNat := by
  have hpcd : get (setPat f t s) FLAG_PCD = t.indexBit 0b001 := by
    rw [FLAG_PCD, get_twoPow (by omega), getLsbD_setPat, if_pos rfl]
  have hpwt : get (setPat f t s) FLAG_PWT = t.indexBit 0b010 := by
    rw [FLAG_PWT, get_twoPow (by omega), getLsbD_setPat, if_neg (by omega), if_pos rfl]
  have hpat : (setPat f t s).getLsbD s.getPatBit = t.indexBit 0b100 := by
    have hbit := s.getPatBit_cases
    rw [getLsbD_setPat, if_neg (by omega), if_neg (by omega), if_pos rfl]
  rw [patIndex, hpat, hpcd, hpwt]

/-- The bits that select an entry on some page size. -/
def patBits : List ℕ := [3, 4, 7, 12]

/-- The call `set_pat(t, s)` selects the entry that holds `t` and changes nothing else,
and an earlier call leaves nothing behind. -/
structure SelectsType (f : Flags) (t₁ : PatType) (s₁ : PageSize) (t : PatType) (s : PageSize) :
    Prop where
  index : patIndex (setPat f t s) s = t.toPatEntry.asUsize
  holds : ∀ edx msr msr', setupPat edx msr = .ok msr' → t.toPatEntry.getType msr' = .ok t
  unchanged : ∀ i, i ∉ patBits → (setPat f t s).getLsbD i = f.getLsbD i
  lastWins : ∀ i ∈ patBits, (setPat (setPat f t₁ s₁) t s).getLsbD i = (setPat f t s).getLsbD i

/-- The types whose index reads the same with its two low bits exchanged. -/
theorem index_eq_iff : 4 * (t.indexBit 0b100).toNat + 2 * (t.indexBit 0b001).toNat +
    (t.indexBit 0b010).toNat = t.toPatEntry.asUsize ↔
      t = .writeBack ∨ t = .uncacheable ∨ t = .writeCombining := by
  cases t <;> decide

/-- An earlier call is undone when it wrote the same PAT bit, or wrote what was there. -/
theorem lastWins_iff :
    (∀ i ∈ patBits, (setPat (setPat f t₁ s₁) t s).getLsbD i = (setPat f t s).getLsbD i) ↔
      s₁.getPatBit = s.getPatBit ∨ f.getLsbD s₁.getPatBit = t₁.indexBit 0b100 := by
  have hbit := s.getPatBit_cases
  have hbit₁ := s₁.getPatBit_cases
  constructor
  · intro h
    by_cases hs : s₁.getPatBit = s.getPatBit
    · exact Or.inl hs
    · have hmem : s₁.getPatBit ∈ patBits := by
        rcases hbit₁ with h | h <;> simp [patBits, h]
      have := h _ hmem
      rw [getLsbD_setPat, getLsbD_setPat, getLsbD_setPat, if_neg (by omega), if_neg (by omega),
        if_neg hs, if_neg (by omega), if_neg (by omega), if_pos rfl, if_neg (by omega),
        if_neg (by omega), if_neg hs] at this
      exact Or.inr this.symm
  · intro h i _
    rw [getLsbD_setPat, getLsbD_setPat, getLsbD_setPat]
    by_cases hi : i = s₁.getPatBit
    · subst hi
      rcases h with h | h
      · simp [h]
      · simp [h, show s₁.getPatBit ≠ 3 by omega, show s₁.getPatBit ≠ 4 by omega]
    · simp only [if_neg hi]
      split
      · rfl
      · split <;> rfl

/-- **When `set_pat` selects the type it is given.**  The two low bits of the entry's
number have to be equal, and an earlier call has to be for a page whose PAT bit is at the
same place, or to have written the bit that was there already. -/
theorem setPat_selects_iff (f : Flags) (t₁ : PatType) (s₁ : PageSize) (t : PatType)
    (s : PageSize) : SelectsType f t₁ s₁ t s ↔
      (t = .writeBack ∨ t = .uncacheable ∨ t = .writeCombining) ∧
        (s₁.getPatBit = s.getPatBit ∨ f.getLsbD s₁.getPatBit = t₁.indexBit 0b100) := by
  constructor
  · intro h
    exact ⟨index_eq_iff.mp (patIndex_setPat.symm.trans h.index), lastWins_iff.mp h.lastWins⟩
  · rintro ⟨hindex, hlast⟩
    refine ⟨patIndex_setPat.trans (index_eq_iff.mpr hindex),
      fun edx msr msr' h => getType_setupPat t h, ?_, lastWins_iff.mpr hlast⟩
    intro i hi
    have hbit := s.getPatBit_cases
    simp only [patBits, List.mem_cons, List.not_mem_nil, or_false, not_or] at hi
    rw [getLsbD_setPat, if_neg hi.2.1, if_neg hi.1, if_neg (by omega)]

/-- **Types that are read as others, and a bit left behind.**  Write-through selects the
entry of uncached memory, and a type with the third bit set for a 4KB page leaves that bit
in the flags of a larger one. -/
theorem setPat_misselects :
    patIndex (setPat new .writeThrough .size4kb) .size4kb = PatType.uncached.toPatEntry.asUsize ∧
      PatType.writeThrough.toPatEntry.asUsize ≠ PatType.uncached.toPatEntry.asUsize ∧
      (setPat (setPat new .writeCombining .size4kb) .writeBack .size2mb).getLsbD 7 ≠
        (setPat new .writeBack .size2mb).getLsbD 7 ∧
      ¬ SelectsType new .writeCombining .size4kb .writeThrough .size2mb := by
  refine ⟨by decide, by decide, by decide, fun h => ?_⟩
  exact absurd h.index (by decide)

end Flags
end Funderberker

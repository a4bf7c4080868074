import Funderberker.Base

/-!
# Segment selectors

`kernel/src/arch/x86_64/gdt.rs`: a selector is resolved through the descriptor table.  The
index field of a selector starts above the privilege level and the table indicator, so that it
is the number of a descriptor, and the lookup shifts it by three bits once more.

## Main definitions

* `SegmentDescriptor`, `SegmentSelector` — the fields of the two words.
* `Gdt.index`, `Gdt.readFullSelector` — the lookup.
* `Segment`, `Segment.encode` — the layout of a descriptor, as the processor reads it.

## Main results

* `readFullSelector_eq` — what the lookup returns for every selector.
* `readFullSelector_own_iff` — when that is what the selector stands for.
-/

namespace Funderberker

open Panicking

/-! ## Descriptors -/

/-- An entry of the table.  The base and the limit are scattered over it. -/
abbrev SegmentDescriptor := BitVec 64

namespace SegmentDescriptor

variable (d : SegmentDescriptor)

def limit0 : BitVec 16 := d.extractLsb' 0 16
def base0 : BitVec 24 := d.extractLsb' 16 24
def access : BitVec 8 := d.extractLsb' 40 8
def limit1 : BitVec 4 := d.extractLsb' 48 4
def flags : BitVec 4 := d.extractLsb' 52 4
def base1 : BitVec 8 := d.extractLsb' 56 8

def getBase : BitVec 32 := (d.base1.setWidth 32 <<< 24) ||| d.base0.setWidth 32

/-- 20 bits of the result are used. -/
def getLimit : BitVec 32 := (d.limit1.setWidth 32 <<< 16) ||| d.limit0.setWidth 32

end SegmentDescriptor

/-! ## Selectors -/

/-- The visible part of a segment register. -/
abbrev SegmentSelector := BitVec 16

namespace SegmentSelector

variable (s : SegmentSelector)

/-- The bits above the privilege level and the table indicator. -/
def index : BitVec 13 := s.extractLsb' 3 13

/-- The descriptor that the processor takes for the selector. -/
def number : ℕ := s.toNat >>> 3

end SegmentSelector

/-- A selector with what the processor caches of its descriptor. -/
structure FullSegmentSelector where
  selector : SegmentSelector
  attributes : BitVec 16
  limit : BitVec 32
  base : BitVec 64
  deriving DecidableEq

/-! ## The table -/

structure Gdt where
  segments : Fin 6 → SegmentDescriptor

namespace Gdt

variable (g : Gdt)

/-- The descriptor of a selector. -/
def index (selector : SegmentSelector) : Except Panic SegmentDescriptor :=
  let i := selector.index.toNat >>> 3
  if h : i ≤ 5 then .ok (g.segments ⟨i, Nat.lt_succ_of_le h⟩) else .error .assertion

def readFullSelector (selector : SegmentSelector) : Except Panic FullSegmentSelector := do
  let descriptor ← g.index selector
  .ok
    { selector := selector
      attributes := descriptor.access.setWidth 16
      limit := descriptor.getLimit
      base := descriptor.getBase.setWidth 64 }

end Gdt

/-! ## What a descriptor stands for -/

/-- A segment, as it is handed to an encoder. -/
structure Segment where
  base : BitVec 32
  limit : BitVec 20
  access : BitVec 8
  flags : BitVec 4
  deriving DecidableEq

namespace Segment

/-- The fields from the highest bits down. -/
def encode (s : Segment) : SegmentDescriptor :=
  s.base.extractLsb' 24 8 ++ s.flags ++ s.limit.extractLsb' 16 4 ++ s.access ++
    s.base.extractLsb' 0 24 ++ s.limit.extractLsb' 0 16

/-- What an entry of the table encodes. -/
def decode (d : SegmentDescriptor) : Segment :=
  ⟨d.base1 ++ d.base0, d.limit1 ++ d.limit0, d.access, d.flags⟩

variable (s : Segment)

@[simp] theorem limit0_encode : s.encode.limit0 = s.limit.extractLsb' 0 16 := by
  simp (disch := omega) only [SegmentDescriptor.limit0, encode, BitVec.extractLsb'_append_eq_right]

@[simp] theorem base0_encode : s.encode.base0 = s.base.extractLsb' 0 24 := by
  simp (disch := omega) only [SegmentDescriptor.base0, encode, BitVec.extractLsb'_append_eq_of_le,
    BitVec.extractLsb'_append_eq_right, Nat.sub_self]

@[simp] theorem access_encode : s.encode.access = s.access := by
  simp (disch := omega) only [SegmentDescriptor.access, encode, BitVec.extractLsb'_append_eq_of_le,
    BitVec.extractLsb'_append_eq_right, Nat.reduceSub]

@[simp] theorem limit1_encode : s.encode.limit1 = s.limit.extractLsb' 16 4 := by
  simp (disch := omega) only [SegmentDescriptor.limit1, encode, BitVec.extractLsb'_append_eq_of_le,
    BitVec.extractLsb'_append_eq_right, Nat.reduceSub]

@[simp] theorem flags_encode : s.encode.flags = s.flags := by
  simp (disch := omega) only [SegmentDescriptor.flags, encode, BitVec.extractLsb'_append_eq_of_le,
    BitVec.extractLsb'_append_eq_right, Nat.reduceSub]

@[simp] theorem base1_encode : s.encode.base1 = s.base.extractLsb' 24 8 := by
  simp (disch := omega) only [SegmentDescriptor.base1, encode, BitVec.extractLsb'_append_eq_of_le,
    Nat.reduceSub]
  exact BitVec.extractLsb'_eq_self

/-- The fields of the base, joined. -/
theorem base_join : s.base.extractLsb' 24 8 ++ s.base.extractLsb' 0 24 = s.base :=
  (BitVec.extractLsb'_append_extractLsb'_eq_extractLsb' rfl).trans BitVec.extractLsb'_eq_self

theorem limit_join : s.limit.extractLsb' 16 4 ++ s.limit.extractLsb' 0 16 = s.limit :=
  (BitVec.extractLsb'_append_extractLsb'_eq_extractLsb' rfl).trans BitVec.extractLsb'_eq_self

theorem decode_encode : decode s.encode = s := by
  rw [decode, base1_encode, base0_encode, limit1_encode, limit0_encode, access_encode, flags_encode,
    base_join, limit_join]

theorem encode_decode (d : SegmentDescriptor) : (decode d).encode = d := by
  simp only [decode, encode, BitVec.extractLsb'_append_eq_left, BitVec.extractLsb'_append_eq_right]
  simp only [SegmentDescriptor.base1, SegmentDescriptor.flags, SegmentDescriptor.limit1,
    SegmentDescriptor.access, SegmentDescriptor.base0, SegmentDescriptor.limit0]
  -- From the top, each field starts where the next one ends.
  simp (disch := rfl) only [BitVec.extractLsb'_append_extractLsb'_eq_extractLsb']
  exact BitVec.extractLsb'_eq_self

/-- A word is its high bits before its low bits. -/
theorem shiftLeft_or_setWidth {n k w : ℕ} (x : BitVec n) (y : BitVec k) :
    (x.setWidth w <<< k) ||| y.setWidth w = (x ++ y).setWidth w := by
  refine BitVec.eq_of_getLsbD_eq fun i hi => ?_
  simp only [BitVec.getLsbD_or, BitVec.getLsbD_shiftLeft, BitVec.getLsbD_setWidth,
    BitVec.getLsbD_append, hi, decide_true, Bool.true_and]
  by_cases hk : i < k
  · simp [hk]
  · have hsub : i - k < w := by omega
    simp [hk, hsub, BitVec.getLsbD_of_ge y i (Nat.not_lt.mp hk)]

theorem getBase_encode : s.encode.getBase = s.base := by
  rw [SegmentDescriptor.getBase, base1_encode, base0_encode, shiftLeft_or_setWidth, base_join,
    BitVec.setWidth_eq]

theorem getLimit_encode : s.encode.getLimit = s.limit.setWidth 32 := by
  rw [SegmentDescriptor.getLimit, limit1_encode, limit0_encode, shiftLeft_or_setWidth, limit_join]

end Segment

/-! ## The lookup -/

variable {g : Gdt} {selector : SegmentSelector}

/-- The field of the index is the number of the descriptor. -/
theorem SegmentSelector.toNat_index : selector.index.toNat = selector.number := by
  rw [index, number, BitVec.extractLsb'_toNat]
  have hlt : selector.toNat >>> 3 < 2 ^ 13 := by
    rw [Nat.shiftRight_eq_div_pow]
    have := selector.isLt
    omega
  exact Nat.mod_eq_of_lt hlt

/-- **The lookup.**  Eight numbers share a descriptor. -/
theorem readFullSelector_eq (h : selector.number / 8 < 6) :
    g.readFullSelector selector = .ok
      { selector := selector
        attributes := (g.segments ⟨selector.number / 8, h⟩).access.setWidth 16
        limit := (g.segments ⟨selector.number / 8, h⟩).getLimit
        base := (g.segments ⟨selector.number / 8, h⟩).getBase.setWidth 64 } := by
  have hindex : g.index selector = .ok (g.segments ⟨selector.number / 8, h⟩) := by
    have hi : selector.index.toNat >>> 3 = selector.number / 8 := by
      rw [SegmentSelector.toNat_index, Nat.shiftRight_eq_div_pow]
    simp only [Gdt.index, hi]
    rw [dif_pos (Nat.le_of_lt_succ h)]
  rw [Gdt.readFullSelector, hindex, ok_bind]

/-- The assertion fails only for numbers that no table has. -/
theorem readFullSelector_panics (h : 6 ≤ selector.number / 8) :
    g.readFullSelector selector = .error .assertion := by
  have hindex : g.index selector = .error .assertion := by
    have hi : selector.index.toNat >>> 3 = selector.number / 8 := by
      rw [SegmentSelector.toNat_index, Nat.shiftRight_eq_div_pow]
    simp only [Gdt.index, hi]
    rw [dif_neg (by omega)]
  rw [Gdt.readFullSelector, hindex]
  rfl

/-- The lookup returns the base and the limit of a segment. -/
def Resolves (g : Gdt) (selector : SegmentSelector) (s : Segment) : Prop :=
  ∃ full, g.readFullSelector selector = .ok full ∧ full.base = s.base.setWidth 64 ∧
    full.limit = s.limit.setWidth 32

/-- A value that is widened is not lost. -/
theorem setWidth_injective {n w : ℕ} (h : n ≤ w) :
    Function.Injective (BitVec.setWidth w : BitVec n → BitVec w) := by
  intro x y hxy
  have hnat := congrArg BitVec.toNat hxy
  rw [BitVec.toNat_setWidth_of_le h, BitVec.toNat_setWidth_of_le h] at hnat
  exact BitVec.eq_of_toNat_eq hnat

/-- A segment that is resolved has the base and the limit of the descriptor that is read. -/
theorem resolves_iff {s t : Segment} (h : selector.number / 8 < 6)
    (ht : g.segments ⟨selector.number / 8, h⟩ = t.encode) :
    Resolves g selector s ↔ s.base = t.base ∧ s.limit = t.limit := by
  rw [Resolves, readFullSelector_eq h, ht, Segment.getBase_encode, Segment.getLimit_encode]
  constructor
  · rintro ⟨full, hfull, hbase, hlimit⟩
    obtain rfl := Except.ok.inj hfull
    exact ⟨setWidth_injective (by omega) hbase.symm, setWidth_injective (by omega) hlimit.symm⟩
  · rintro ⟨hbase, hlimit⟩
    exact ⟨_, rfl, by rw [hbase], by rw [hlimit]⟩

/-- **A selector is resolved to the first descriptor.**  Every table encodes six segments, and
the lookup of a number below six returns the base and the limit of its own segment if and
only if they are those of the first one. -/
theorem readFullSelector_own_iff (g : Gdt) (selector : SegmentSelector)
    (hn : selector.number < 6) :
    ∃ segments : Fin 6 → Segment, (∀ i, g.segments i = (segments i).encode) ∧
      (Resolves g selector (segments ⟨selector.number, hn⟩) ↔
        (segments ⟨selector.number, hn⟩).base = (segments 0).base ∧
        (segments ⟨selector.number, hn⟩).limit = (segments 0).limit) := by
  refine ⟨fun i => Segment.decode (g.segments i), fun i => (Segment.encode_decode _).symm, ?_⟩
  have hzero : selector.number / 8 = 0 := by omega
  refine resolves_iff (by omega) ?_
  rw [Segment.encode_decode]
  congr 1
  exact Fin.ext hzero

/-- A flat code segment after the null descriptor. -/
def nullAndCode : Gdt :=
  ⟨fun i => if i = 1 then Segment.encode ⟨0, 0xfffff, 0x9a, 0xa⟩ else 0⟩

theorem nullAndCode_own_iff :
    ∃ segments : Fin 6 → Segment, (∀ i, nullAndCode.segments i = (segments i).encode) ∧
      (Resolves nullAndCode 0x8 (segments 1) ↔
        (segments 1).base = (segments 0).base ∧ (segments 1).limit = (segments 0).limit) :=
  readFullSelector_own_iff nullAndCode 0x8 (by decide)

/-- The selector of the code segment is resolved to the limit of the null descriptor. -/
theorem nullAndCode_unresolved :
    SegmentSelector.number 0x8 = 1 ∧
      nullAndCode.segments 1 = Segment.encode ⟨0, 0xfffff, 0x9a, 0xa⟩ ∧
      ¬ Resolves nullAndCode 0x8 ⟨0, 0xfffff, 0x9a, 0xa⟩ := by
  refine ⟨by decide, rfl, ?_⟩
  rintro ⟨full, hfull, -, hlimit⟩
  obtain rfl := Except.ok.inj hfull
  exact absurd hlimit (by decide)

end Funderberker

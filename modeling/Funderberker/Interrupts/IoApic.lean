import Funderberker.Base
import Mathlib.Logic.Function.Basic

/-!
# The IO APICs

`kernel/src/arch/x86_64/apic/ioapic.rs`: the IRQ overrides, and the redirection entries of
the IO APICs.  A device is an array of 32-bit registers behind two cells: what is written to
`io_sel` is the index of the register that `io_win` reads and writes.

`read_redirection_entry` and `write_redirection_entry` take the high half of an entry from
the register 18 past the low half, which is the low half of another entry.  They agree on
it, so that an update which leaves the high half alone writes back what it read.

## Main definitions

* `irqToGsi`, `gsiToIrq` — the overrides.
* `IoApic`, `readRedirectionEntry`, `writeRedirectionEntry`.
* `updateEntry`, `setDisabled`, `mapIrqToVector` — with the devices after each register write.
* `Routed` — a GSI that the lookup finds an IO APIC for.

## Main results

* `updateEntry_spec` — one register changes.
-/

namespace Funderberker

open Panicking

/-! ## 32-bit arithmetic -/

namespace U32

variable (m : Overflow) (a b : ℕ)

def add : Except Panic ℕ := ofOption .overflow (m.fit 32 (a + b))
def sub : Except Panic ℕ := ofOption .overflow (m.fitSub 32 a b)
def mul : Except Panic ℕ := ofOption .overflow (m.fit 32 (a * b))

variable {m a b}

theorem add_eq (h : a + b < 2 ^ 32) : add m a b = .ok (a + b) := by
  rw [add, Overflow.fit_of_lt h, ofOption_some]

theorem sub_eq (h : b ≤ a) : sub m a b = .ok (a - b) := by
  rw [sub, Overflow.fitSub_of_le h, ofOption_some]

theorem mul_eq (h : a * b < 2 ^ 32) : mul m a b = .ok (a * b) := by
  rw [mul, Overflow.fit_of_lt h, ofOption_some]

/-- A sum that is returned is not more than the sum. -/
theorem le_of_add_eq_ok {c : ℕ} (h : add m a b = .ok c) : c ≤ a + b := by
  rw [add, Overflow.fit.eq_def] at h
  split at h
  · exact (Except.ok.inj h).ge
  · cases m with
    | checked => cases h
    | wrapping => exact Except.ok.inj h ▸ Nat.mod_le _ _

end U32

/-! ## Overrides -/

/-- An IRQ that is wired to another GSI than its own number. -/
structure IrqOverride where
  irq : ℕ
  gsi : ℕ
  irq_lt : irq < 2 ^ 8
  gsi_lt : gsi < 2 ^ 32
  deriving DecidableEq

def gsiToIrq (overrides : List IrqOverride) (gsi : ℕ) : ℕ :=
  (overrides.find? fun o => o.gsi = gsi).elim (gsi % 2 ^ 8) IrqOverride.irq

def irqToGsi (overrides : List IrqOverride) (irq : ℕ) : ℕ :=
  (overrides.find? fun o => o.irq = irq).elim irq IrqOverride.gsi

/-! ## Fields of a word -/

/-- Replace the bits of `x` from `lo` on by `v`. -/
def setBits {w n : ℕ} (x : BitVec w) (lo : ℕ) (v : BitVec n) : BitVec w :=
  (x &&& ~~~((BitVec.allOnes n).setWidth w <<< lo)) ||| (v.setWidth w <<< lo)

theorem getLsbD_setBits {w n : ℕ} (x : BitVec w) (lo : ℕ) (v : BitVec n) {i : ℕ} (hi : i < w) :
    (setBits x lo v).getLsbD i =
      if lo ≤ i ∧ i < lo + n then v.getLsbD (i - lo) else x.getLsbD i := by
  rw [setBits]
  simp only [BitVec.getLsbD_or, BitVec.getLsbD_and, BitVec.getLsbD_not, BitVec.getLsbD_shiftLeft,
    BitVec.getLsbD_setWidth, BitVec.getLsbD_allOnes, hi, decide_true, Bool.true_and]
  have hlt : i - lo < w := by omega
  by_cases hlo : i < lo
  · simp [hlo]
  · by_cases hn : i - lo < n
    · have hin : lo ≤ i ∧ i < lo + n := by omega
      simp [hlo, hlt, hn, hin]
    · have hout : ¬ (lo ≤ i ∧ i < lo + n) := by omega
      simp [hlo, hlt, hn, hout, BitVec.getLsbD_of_ge v (i - lo) (by omega)]

/-! ## Redirection entries -/

/-- An entry of the redirection table. -/
abbrev RedirectionEntry := BitVec 64

namespace RedirectionEntry

def setVector (e : RedirectionEntry) (v : BitVec 8) : RedirectionEntry := setBits e 0 v

def setMask (e : RedirectionEntry) (b : Bool) : RedirectionEntry := setBits e 16 (BitVec.ofBool b)

def getLow (e : RedirectionEntry) : BitVec 32 := (e &&& 0xffffffff).setWidth 32

def getHigh (e : RedirectionEntry) : BitVec 32 := ((e >>> 32) &&& 0xffffffff).setWidth 32

end RedirectionEntry

/-! ## The device -/

/-- An IO APIC with its registers, and the range of GSIs that it is responsible for. -/
structure IoApic where
  ioSel : ℕ
  regs : ℕ → BitVec 32
  gsiBase : ℕ
  gsiCount : ℕ
  gsiCount_le : gsiCount ≤ 256

inductive IoApicError
  | invalidGsi
  deriving DecidableEq, Repr

def APIC_VERSION : ℕ := 0x1
def APIC_REDIRACTION_TABLE_BASE : ℕ := 0x10

namespace IoApic

variable (m : Overflow) (a : IoApic)

/-- Write the select register. -/
def select (index : ℕ) : IoApic := { a with ioSel := index }

/-- Read the window register. -/
def window : BitVec 32 := a.regs a.ioSel

/-- Write the window register. -/
def setWindow (v : BitVec 32) : IoApic := { a with regs := Function.update a.regs a.ioSel v }

/-- The number of the GSIs is read from the version register. -/
def new (regs : ℕ → BitVec 32) (gsiBase : ℕ) : Except Panic IoApic :=
  let maxGsi := (regs APIC_VERSION >>> 16) &&& 0xff
  if m = .checked ∧ ¬ (0 < maxGsi.toNat ∧ maxGsi.toNat < 256) then .error .sanity
  else .ok
    { ioSel := APIC_VERSION
      regs := regs
      gsiBase := gsiBase
      gsiCount := maxGsi.toNat + 1
      gsiCount_le := by
        have hle : maxGsi.toNat ≤ 255 := by
          rw [BitVec.toNat_and]
          exact Nat.and_le_right
        omega }

/-- The index of the register with the low half of an entry. -/
def redTblToIndex (irqIndex : ℕ) : Except Panic ℕ := do
  let twice ← U32.mul m irqIndex 2
  U32.add m twice APIC_REDIRACTION_TABLE_BASE

def readRedirectionEntry (offset : ℕ) : Except Panic (RedirectionEntry × IoApic) := do
  let a := a.select offset
  let raw := a.window.setWidth 64
  let a := a.select (← U32.add m offset (← redTblToIndex m 1))
  .ok (raw ||| (a.window.setWidth 64 <<< 32), a)

/-- Returns the device after each of the two register writes. -/
def writeRedirectionEntry (offset : ℕ) (entry : RedirectionEntry) :
    Except Panic (List IoApic × IoApic) := do
  let a := (a.select offset).setWindow entry.getLow
  let a' := (a.select (← U32.add m offset (← redTblToIndex m 1))).setWindow entry.getHigh
  .ok ([a, a'], a')

/-- The base of the GSIs and their number. -/
def range : ℕ × ℕ := (a.gsiBase, a.gsiCount)

end IoApic

/-- The test of the lookup; the end of a range is computed only if the GSI is not below its
start. -/
def covers (m : Overflow) (gsi : ℕ) (range : ℕ × ℕ) : Except Panic Bool :=
  if range.1 ≤ gsi then do
    let e ← U32.add m range.1 range.2
    .ok (gsi < e)
  else .ok false

/-- The devices after each register write of an update, and at its end. -/
structure Written where
  trace : List (List IoApic)
  ioApics : List IoApic

variable (m : Overflow) (overrides : List IrqOverride) (ioApics : List IoApic)

/-- Read the entry of an IRQ, change it and write it back. -/
def updateEntry (irq : ℕ) (f : RedirectionEntry → RedirectionEntry) :
    Except Panic (Except IoApicError Written) := do
  let gsi := irqToGsi overrides irq
  match ← findEnum (fun a => covers m gsi a.range) 0 ioApics with
  | none => .ok (.error .invalidGsi)
  | some (k, a) => do
      let offset ← IoApic.redTblToIndex m (← U32.sub m gsi a.gsiBase)
      let (entry, a) ← a.readRedirectionEntry m offset
      let (trace, a) ← a.writeRedirectionEntry m offset (f entry)
      .ok (.ok ⟨trace.map (ioApics.set k ·), ioApics.set k a⟩)

def setDisabled (irq : ℕ) (status : Bool) : Except Panic (Except IoApicError Written) :=
  updateEntry m overrides ioApics irq (·.setMask status)

/-- The interrupt is masked off. -/
def mapIrqToVector (vector : BitVec 8) (irq : ℕ) : Except Panic (Except IoApicError Written) :=
  updateEntry m overrides ioApics irq fun e => (e.setVector vector).setMask true

/-! ## What an update changes -/

/-- The registers of all devices. -/
def registers : List (ℕ → BitVec 32) := ioApics.map IoApic.regs

def ranges : List (ℕ × ℕ) := ioApics.map IoApic.range

/-- The lookup of a GSI finds the IO APIC at position `k`, whose GSIs start at `base`. -/
def Routed (gsi k base : ℕ) : Prop :=
  ∃ count, findEnum (covers m gsi) 0 (ranges ioApics) = .ok (some (k, base, count))

/-- The register with the low half of the entry of a GSI. -/
def entryIndex (gsi base : ℕ) : ℕ := 2 * (gsi - base) + APIC_REDIRACTION_TABLE_BASE

/-- An update of the low half of an entry. -/
structure LowHalf (f : RedirectionEntry → RedirectionEntry) (g : BitVec 32 → BitVec 32) :
    Prop where
  low : ∀ e, (f e).getLow = g e.getLow
  high : ∀ e, (f e).getHigh = e.getHigh

namespace RedirectionEntry

/-- The bits of the mask of a half. -/
theorem getLsbD_halfMask {i : ℕ} (hi : i < 32) : (0xffffffff : BitVec 64).getLsbD i = true := by
  have hmask : (0xffffffff : BitVec 64) = (BitVec.allOnes 32).setWidth 64 := by decide
  rw [hmask, BitVec.getLsbD_setWidth, BitVec.getLsbD_allOnes]
  simp only [hi, decide_true, Bool.and_true, decide_eq_true_eq]
  omega

theorem getLsbD_getLow (e : RedirectionEntry) {i : ℕ} (hi : i < 32) :
    e.getLow.getLsbD i = e.getLsbD i := by
  rw [getLow, BitVec.getLsbD_setWidth, BitVec.getLsbD_and, getLsbD_halfMask hi]
  simp only [hi, decide_true, Bool.and_true, Bool.true_and]

theorem getLsbD_getHigh (e : RedirectionEntry) {i : ℕ} (hi : i < 32) :
    e.getHigh.getLsbD i = e.getLsbD (32 + i) := by
  rw [getHigh, BitVec.getLsbD_setWidth, BitVec.getLsbD_and, getLsbD_halfMask hi,
    BitVec.getLsbD_ushiftRight]
  simp only [hi, decide_true, Bool.and_true, Bool.true_and]

variable {n : ℕ}

/-- A field of the low half. -/
theorem lowHalf_setBits (lo : ℕ) (v : BitVec n) (hlo : lo + n ≤ 32) :
    LowHalf (setBits · lo v) (setBits · lo v) := by
  refine ⟨fun e => BitVec.eq_of_getLsbD_eq fun i hi => ?_,
    fun e => BitVec.eq_of_getLsbD_eq fun i hi => ?_⟩
  · rw [getLsbD_getLow _ hi, getLsbD_setBits _ _ _ (by omega), getLsbD_setBits _ _ _ hi,
      getLsbD_getLow _ hi]
  · rw [getLsbD_getHigh _ hi, getLsbD_setBits _ _ _ (by omega), if_neg (by omega),
      getLsbD_getHigh _ hi]

theorem getLow_join (low high : BitVec 32) :
    getLow (low.setWidth 64 ||| (high.setWidth 64 <<< 32)) = low := by
  refine BitVec.eq_of_getLsbD_eq fun i hi => ?_
  have hi' : i < 64 := by omega
  rw [getLsbD_getLow _ hi]
  simp [hi, hi']

theorem getHigh_join (low high : BitVec 32) :
    getHigh (low.setWidth 64 ||| (high.setWidth 64 <<< 32)) = high := by
  refine BitVec.eq_of_getLsbD_eq fun i hi => ?_
  have hi' : 32 + i < 64 := by omega
  rw [getLsbD_getHigh _ hi]
  simp [hi']

end RedirectionEntry

theorem LowHalf.comp {f f' : RedirectionEntry → RedirectionEntry} {g g' : BitVec 32 → BitVec 32}
    (hf : LowHalf f g) (hf' : LowHalf f' g') : LowHalf (fun e => f' (f e)) fun x => g' (g x) :=
  ⟨fun e => by rw [hf'.low, hf.low], fun e => by rw [hf'.high, hf.high]⟩

variable {m overrides ioApics} {gsi k base irq : ℕ} {f : RedirectionEntry → RedirectionEntry}
  {g : BitVec 32 → BitVec 32}

theorem le_of_covers {r : ℕ × ℕ} (h : covers m gsi r = .ok true) : r.1 ≤ gsi ∧ gsi < r.1 + r.2 := by
  rw [covers] at h
  split at h
  case isFalse => cases h
  case isTrue hle =>
      obtain ⟨e, he, h⟩ := bind_eq_ok.mp h
      have hlt : gsi < e := of_decide_eq_true (Except.ok.inj h)
      exact ⟨hle, hlt.trans_le (U32.le_of_add_eq_ok he)⟩

/-- The device that a lookup finds. -/
theorem Routed.ioApic (h : Routed m ioApics gsi k base) :
    ∃ a, findEnum (fun a => covers m gsi a.range) 0 ioApics = .ok (some (k, a)) ∧
      ioApics[k]? = some a ∧ a.gsiBase = base ∧ base ≤ gsi ∧ gsi - base < 256 := by
  obtain ⟨count, hfind⟩ := h
  rw [ranges, findEnum_map] at hfind
  cases hsearch : findEnum (fun a => covers m gsi (IoApic.range a)) 0 ioApics with
  | error e =>
      rw [hsearch] at hfind
      cases hfind
  | ok found =>
      rw [hsearch] at hfind
      obtain ⟨⟨i, a⟩, rfl, hia⟩ := Option.map_eq_some_iff.mp (Except.ok.inj hfind)
      obtain ⟨rfl, hrange⟩ := Prod.mk.inj hia
      obtain ⟨j, rfl, hj, hcovers⟩ := of_findEnum_eq_some hsearch
      obtain ⟨hle, hlt⟩ := le_of_covers hcovers
      have hbase : a.gsiBase = base := congrArg Prod.fst hrange
      have hcount := a.gsiCount_le
      simp only [IoApic.range] at hle hlt
      rw [id, Nat.zero_add]
      exact ⟨a, rfl, hj, hbase, hbase ▸ hle, by omega⟩

/-- Only the ranges matter to a lookup. -/
theorem Routed.congr {ioApics' : List IoApic} (h : Routed m ioApics gsi k base)
    (hranges : ranges ioApics' = ranges ioApics) : Routed m ioApics' gsi k base := by
  obtain ⟨count, hfind⟩ := h
  exact ⟨count, hranges ▸ hfind⟩

theorem redTblToIndex_eq {i : ℕ} (hi : i < 256) :
    IoApic.redTblToIndex m i = .ok (2 * i + APIC_REDIRACTION_TABLE_BASE) := by
  rw [IoApic.redTblToIndex, U32.mul_eq (by omega), ok_bind,
    U32.add_eq (by rw [APIC_REDIRACTION_TABLE_BASE]; omega), Nat.mul_comm]

/-- The register that is taken for the high half of an entry. -/
theorem highIndex_eq {offset : ℕ} (ho : offset < 1024) :
    (do U32.add m offset (← IoApic.redTblToIndex m 1)) = .ok (offset + 18) := by
  rw [redTblToIndex_eq (by omega), ok_bind, U32.add_eq (by rw [APIC_REDIRACTION_TABLE_BASE]; omega)]
  rfl

variable {a : IoApic} {e : ℕ} {entry : RedirectionEntry}

theorem readRedirectionEntry_eq (he : e < 1024) :
    a.readRedirectionEntry m e =
      .ok ((a.regs e).setWidth 64 ||| ((a.regs (e + 18)).setWidth 64 <<< 32), a.select (e + 18)) := by
  have hhigh := highIndex_eq (m := m) he
  obtain ⟨i, hi, hadd⟩ := bind_eq_ok.mp hhigh
  rw [IoApic.readRedirectionEntry, hi, ok_bind, hadd, ok_bind]
  rfl

/-- An entry whose high half is what is there already. -/
theorem writeRedirectionEntry_spec (he : e < 1024) (hhigh : entry.getHigh = a.regs (e + 18)) :
    ∃ a₁ a₂, a.writeRedirectionEntry m e entry = .ok ([a₁, a₂], a₂) ∧
      a₁.regs = Function.update a.regs e entry.getLow ∧
      a₂.regs = Function.update a.regs e entry.getLow ∧ a₂.range = a.range := by
  obtain ⟨i, hi, hadd⟩ := bind_eq_ok.mp (highIndex_eq (m := m) he)
  set a₁ := (a.select e).setWindow entry.getLow with ha₁
  refine ⟨a₁, (a₁.select (e + 18)).setWindow entry.getHigh, ?_, rfl, ?_, rfl⟩
  · rw [IoApic.writeRedirectionEntry, hi, ok_bind, hadd, ok_bind]
  · have hsame : entry.getHigh = a₁.regs (e + 18) := by
      rw [hhigh]
      exact (Function.update_of_ne (Nat.ne_of_gt (Nat.lt_add_of_pos_right (by omega))) _ _).symm
    rw [IoApic.setWindow, hsame]
    exact Function.update_eq_self _ _

/-- **One register changes.**  An update of the low half of the entry of a routed GSI
rewrites the register of that half; the register that is taken for the high half is
written back as it was. -/
theorem updateEntry_spec (hroute : Routed m ioApics (irqToGsi overrides irq) k base)
    (hf : LowHalf f g) :
    ∃ w r, updateEntry m overrides ioApics irq f = .ok (.ok w) ∧
      (registers ioApics)[k]? = some r ∧ ranges w.ioApics = ranges ioApics ∧
      registers w.ioApics = (registers ioApics).set k
        (Function.update r (entryIndex (irqToGsi overrides irq) base)
          (g (r (entryIndex (irqToGsi overrides irq) base)))) ∧
      ∀ u ∈ w.trace, registers u = registers w.ioApics := by
  obtain ⟨a, hfind, hk, rfl, hle, hlt⟩ := hroute.ioApic
  rw [updateEntry, hfind, ok_bind]
  dsimp only
  generalize irqToGsi overrides irq = gsi at *
  have hoffset : IoApic.redTblToIndex m (gsi - a.gsiBase) = .ok (entryIndex gsi a.gsiBase) :=
    redTblToIndex_eq hlt
  rw [U32.sub_eq hle, ok_bind, hoffset, ok_bind]
  have he : entryIndex gsi a.gsiBase < 1024 := by
    rw [entryIndex, APIC_REDIRACTION_TABLE_BASE]
    omega
  generalize entryIndex gsi a.gsiBase = e at *
  rw [readRedirectionEntry_eq he, ok_bind]
  set entry : RedirectionEntry := (a.regs e).setWidth 64 ||| ((a.regs (e + 18)).setWidth 64 <<< 32)
  have hhigh : (f entry).getHigh = (a.select (e + 18)).regs (e + 18) := by
    rw [hf.high, RedirectionEntry.getHigh_join]
    rfl
  have hlow : (f entry).getLow = g (a.regs e) := by
    rw [hf.low, RedirectionEntry.getLow_join]
  obtain ⟨a₁, a₂, hwrite, h₁, h₂, hrange⟩ := writeRedirectionEntry_spec he hhigh
  rw [hlow] at h₁ h₂
  refine ⟨⟨[ioApics.set k a₁, ioApics.set k a₂], ioApics.set k a₂⟩, a.regs, ?_, ?_, ?_, ?_, ?_⟩
  · dsimp only
    rw [hwrite, ok_bind]
    rfl
  · rw [registers, List.getElem?_map, hk, Option.map_some]
  · obtain ⟨hlen, rfl⟩ := List.getElem?_eq_some_iff.mp hk
    have hlen' : k < (ioApics.map IoApic.range).length := by rwa [List.length_map]
    have hself : a₂.range = (ioApics.map IoApic.range)[k] := by
      rw [hrange, List.getElem_map]
      rfl
    rw [ranges, ranges, List.map_set, hself, List.set_getElem_self]
  · rw [registers, List.map_set, h₂]
    rfl
  · intro u hu
    simp only [List.mem_cons, List.not_mem_nil, or_false] at hu
    rcases hu with rfl | rfl
    · rw [registers, registers, List.map_set, List.map_set, h₁, h₂]
    · rfl

end Funderberker

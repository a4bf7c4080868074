import Funderberker.Interrupts.IoApic

/-!
# Whole redirection entries

`override_irq` rewrites both halves of an entry: polarity and trigger mode are in the low half,
and the destination is the top byte of the high half.  What is read and written as the high
half is the low half of the entry nine places on, so that the destination goes there.

## Main definitions

* `entryAt` — the entry of which a register and the next one are the halves.
* `WrittenWhole` — the two registers have changed, and no other.
* `IoApicUnit`, `overrideIrq` — the devices with their IDs, and the override of an IRQ.

## Main results

* `writeRedirectionEntry_whole_iff` — when an entry is written to its own registers.
* `overrideIrq_whole_iff` — when an override is written to its own entry.
* `redirection_whole_iff` — both.
-/

namespace Funderberker

open Panicking

/-! ## Fields -/

namespace Apic

inductive DeliveryMode
  | fixed
  | lowestPriority
  | smi
  | nmi
  | init
  | startUp
  | extInt
  deriving DecidableEq, Repr

def DeliveryMode.code : DeliveryMode → BitVec 3
  | fixed => 0b000
  | lowestPriority => 0b001
  | smi => 0b010
  | nmi => 0b100
  | init => 0b101
  | startUp => 0b110
  | extInt => 0b111

def PHYSICAL_MODE : BitVec 1 := 0b0

end Apic

namespace RedirectionEntry

variable (e : RedirectionEntry)

def pinPolarity : BitVec 1 := e.extractLsb' 13 1
def triggerMode : BitVec 1 := e.extractLsb' 15 1
def destination : BitVec 8 := e.extractLsb' 56 8

def setDeliveryMode (v : BitVec 3) : RedirectionEntry := setBits e 8 v
def setDestinationMode (v : BitVec 1) : RedirectionEntry := setBits e 11 v
def setPinPolarity (v : BitVec 1) : RedirectionEntry := setBits e 13 v
def setTriggerMode (v : BitVec 1) : RedirectionEntry := setBits e 15 v
def setDestination (v : BitVec 8) : RedirectionEntry := setBits e 56 v

end RedirectionEntry

/-! ## Overrides -/

/-- An IO APIC with its ID, which only an override reads. -/
structure IoApicUnit extends IoApic where
  apicId : BitVec 8

def IoApicUnit.new (m : Overflow) (regs : ℕ → BitVec 32) (gsiBase : ℕ) (apicId : BitVec 8) :
    Except Panic IoApicUnit := do
  let a ← IoApic.new m regs gsiBase
  .ok ⟨a, apicId⟩

/-- The polarity of the flags of an override. -/
def flagPolarity (flags : BitVec 16) : BitVec 1 := ((flags &&& 2) >>> 1).setWidth 1

def flagTrigger (flags : BitVec 16) : BitVec 1 := ((flags &&& 8) >>> 3).setWidth 1

/-- The settings of an override. -/
def overrideEntry (flags : BitVec 16) (apicId : BitVec 8)
    (deliveryMode : Option Apic.DeliveryMode) (entry : RedirectionEntry) : RedirectionEntry :=
  let entry := entry.setPinPolarity (flagPolarity flags)
  let entry := entry.setTriggerMode (flagTrigger flags)
  let entry := entry.setDestinationMode Apic.PHYSICAL_MODE
  let entry := entry.setDestination apicId
  match deliveryMode with
  | some deliveryMode => entry.setDeliveryMode deliveryMode.code
  | none => entry

/-- Set up the entry of a GSI, and record that the IRQ is wired to it. -/
def overrideIrq (m : Overflow) (overrides : List IrqOverride) (ioApics : List IoApicUnit)
    (irq : BitVec 8) (gsi : BitVec 32) (flags : BitVec 16)
    (deliveryMode : Option Apic.DeliveryMode) :
    Except Panic (List IrqOverride × List IoApicUnit) := do
  match ← findEnum (fun a : IoApicUnit => covers m gsi.toNat a.range) 0 ioApics with
  | none => .error (.expect "Invalid GSI for override")
  | some (k, a) => do
      let offset ← IoApic.redTblToIndex m (← U32.sub m gsi.toNat a.gsiBase)
      let (entry, dev) ← a.toIoApic.readRedirectionEntry m offset
      let (_, dev) ← dev.writeRedirectionEntry m offset
        (overrideEntry flags a.apicId deliveryMode entry)
      .ok (overrides ++ [⟨irq.toNat, gsi.toNat, irq.isLt, gsi.isLt⟩],
        ioApics.set k ⟨dev, a.apicId⟩)

/-! ## Entries and their registers -/

/-- The entry whose low half is in the register at `i`, and its high half in the next. -/
def entryAt (r : ℕ → BitVec 32) (i : ℕ) : RedirectionEntry :=
  (r i).setWidth 64 ||| ((r (i + 1)).setWidth 64 <<< 32)

/-- The registers at `i` and after it hold the halves of an entry, and the others are as they
were. -/
structure WrittenWhole (r r' : ℕ → BitVec 32) (i : ℕ) (entry : RedirectionEntry) : Prop where
  low : r' i = entry.getLow
  high : r' (i + 1) = entry.getHigh
  other : ∀ j, j ≠ i → j ≠ i + 1 → r' j = r j

/-- Only the entry at `i` has changed, and it has the settings of an override. -/
structure OverriddenWhole (r r' : ℕ → BitVec 32) (i : ℕ) (flags : BitVec 16) (apicId : BitVec 8) :
    Prop where
  destination : (entryAt r' i).destination = apicId
  pinPolarity : (entryAt r' i).pinPolarity = flagPolarity flags
  triggerMode : (entryAt r' i).triggerMode = flagTrigger flags
  other : ∀ j, j ≠ i → j ≠ i + 1 → r' j = r j

/-- An update of both halves of an entry. -/
structure Halves (f : RedirectionEntry → RedirectionEntry) (g h : BitVec 32 → BitVec 32) :
    Prop where
  low : ∀ e, (f e).getLow = g e.getLow
  high : ∀ e, (f e).getHigh = h e.getHigh

theorem LowHalf.halves {f : RedirectionEntry → RedirectionEntry} {g : BitVec 32 → BitVec 32}
    (hf : LowHalf f g) : Halves f g id := ⟨hf.low, hf.high⟩

theorem Halves.comp {f f' : RedirectionEntry → RedirectionEntry} {g g' h h' : BitVec 32 → BitVec 32}
    (hf : Halves f g h) (hf' : Halves f' g' h') :
    Halves (fun e => f' (f e)) (fun x => g' (g x)) fun x => h' (h x) :=
  ⟨fun e => by rw [hf'.low, hf.low], fun e => by rw [hf'.high, hf.high]⟩

namespace RedirectionEntry

variable {n : ℕ}

/-- A field of the high half. -/
theorem halves_setBits (lo : ℕ) (v : BitVec n) :
    Halves (setBits · (32 + lo) v) id (setBits · lo v) := by
  refine ⟨fun e => BitVec.eq_of_getLsbD_eq fun i hi => ?_,
    fun e => BitVec.eq_of_getLsbD_eq fun i hi => ?_⟩
  · rw [getLsbD_getLow _ hi, getLsbD_setBits _ _ _ (by omega), if_neg (by omega), id,
      getLsbD_getLow _ hi]
  · rw [getLsbD_getHigh _ hi, getLsbD_setBits _ _ _ (by omega), getLsbD_setBits _ _ _ hi,
      getLsbD_getHigh _ hi, Nat.add_sub_add_left]
    simp only [Nat.add_le_add_iff_left, Nat.add_assoc, Nat.add_lt_add_iff_left]

/-- The two halves are the entry. -/
theorem join_halves (e : RedirectionEntry) :
    e.getLow.setWidth 64 ||| (e.getHigh.setWidth 64 <<< 32) = e := by
  refine BitVec.eq_of_getLsbD_eq fun i hi => ?_
  simp only [BitVec.getLsbD_or, BitVec.getLsbD_setWidth, BitVec.getLsbD_shiftLeft, hi, decide_true,
    Bool.true_and]
  by_cases hlow : i < 32
  · rw [getLsbD_getLow _ hlow]
    simp [hlow]
  · have hsub : i - 32 < 32 := by omega
    have hsub' : i - 32 < 64 := by omega
    have hsum : 32 + (i - 32) = i := by omega
    rw [getLsbD_getHigh _ hsub, hsum, BitVec.getLsbD_of_ge e.getLow i (by omega)]
    simp [hlow, hsub']

end RedirectionEntry

/-- A field that is set is read back. -/
theorem extractLsb'_setBits {w n : ℕ} (x : BitVec w) (lo : ℕ) (v : BitVec n) (h : lo + n ≤ w) :
    (setBits x lo v).extractLsb' lo n = v := by
  refine BitVec.eq_of_getLsbD_eq fun i hi => ?_
  rw [BitVec.getLsbD_extractLsb', getLsbD_setBits _ _ _ (by omega), if_pos (by omega),
    Nat.add_sub_cancel_left]
  simp [hi]

/-- A field that is set leaves the others. -/
theorem extractLsb'_setBits_of_ne {w n k lo hi : ℕ} (x : BitVec w) (v : BitVec n) (hw : hi + k ≤ w)
    (h : hi + k ≤ lo ∨ lo + n ≤ hi) : (setBits x lo v).extractLsb' hi k = x.extractLsb' hi k := by
  refine BitVec.eq_of_getLsbD_eq fun i hi => ?_
  rw [BitVec.getLsbD_extractLsb', BitVec.getLsbD_extractLsb', getLsbD_setBits _ _ _ (by omega),
    if_neg (by omega)]

/-- A field that is set to what it was. -/
theorem setBits_eq_self_iff {w n : ℕ} (x : BitVec w) (lo : ℕ) (v : BitVec n) (h : lo + n ≤ w) :
    setBits x lo v = x ↔ x.extractLsb' lo n = v := by
  constructor
  · intro heq
    rw [← heq, extractLsb'_setBits _ _ _ h]
  · rintro rfl
    refine BitVec.eq_of_getLsbD_eq fun i hi => ?_
    rw [getLsbD_setBits _ _ _ hi]
    split
    case isTrue hin =>
        have hsub : i - lo < n := by omega
        have hsum : lo + (i - lo) = i := by omega
        simp [hsub, hsum]
    case isFalse => rfl

/-! ## What is written -/

variable {m : Overflow} {a : IoApic} {e : ℕ} {entry : RedirectionEntry}

/-- The high half goes 18 registers up. -/
theorem writeRedirectionEntry_eq (he : e < 1024) (entry : RedirectionEntry) :
    ∃ a₁ a₂, a.writeRedirectionEntry m e entry = .ok ([a₁, a₂], a₂) ∧
      a₂.regs = Function.update (Function.update a.regs e entry.getLow) (e + 18) entry.getHigh ∧
      a₂.range = a.range := by
  obtain ⟨i, hi, hadd⟩ := bind_eq_ok.mp (highIndex_eq (m := m) he)
  set a₁ := (a.select e).setWindow entry.getLow with ha₁
  refine ⟨a₁, (a₁.select (e + 18)).setWindow entry.getHigh, ?_, rfl, rfl⟩
  rw [IoApic.writeRedirectionEntry, hi, ok_bind, hadd, ok_bind]

section Update

variable (r : ℕ → BitVec 32) (e : ℕ) (low high : BitVec 32)

/-- The registers after an entry is written. -/
def writtenRegs : ℕ → BitVec 32 := Function.update (Function.update r e low) (e + 18) high

@[simp] theorem writtenRegs_low : writtenRegs r e low high e = low := by
  rw [writtenRegs, Function.update_of_ne (by omega), Function.update_self]

@[simp] theorem writtenRegs_high : writtenRegs r e low high (e + 18) = high :=
  Function.update_self ..

theorem writtenRegs_of_ne {j : ℕ} (hlow : j ≠ e) (hhigh : j ≠ e + 18) :
    writtenRegs r e low high j = r j := by
  rw [writtenRegs, Function.update_of_ne hhigh, Function.update_of_ne hlow]

@[simp] theorem writtenRegs_next : writtenRegs r e low high (e + 1) = r (e + 1) :=
  writtenRegs_of_ne r e low high (by omega) (by omega)

variable {r e low high}

/-- No other register has changed if the one 18 up was so already. -/
theorem writtenRegs_other_iff :
    (∀ j, j ≠ e → j ≠ e + 1 → writtenRegs r e low high j = r j) ↔ high = r (e + 18) := by
  constructor
  · intro hother
    rw [← hother (e + 18) (by omega) (by omega), writtenRegs_high]
  · intro hsame j hlow _
    by_cases hj : j = e + 18
    · rw [hj, writtenRegs_high, hsame]
    · exact writtenRegs_of_ne r e low high hlow hj

end Update

/-- **Writing an entry.**  It is read back.  It is written to its own two registers if and
only if its high half was there already, and in the register that is taken for it. -/
theorem writeRedirectionEntry_whole_iff {k : ℕ} (hk : k < a.gsiCount) (entry : RedirectionEntry) :
    ∃ trace a' a'', IoApic.redTblToIndex m k = .ok (0x10 + 2 * k) ∧
      a.writeRedirectionEntry m (0x10 + 2 * k) entry = .ok (trace, a') ∧
      a'.readRedirectionEntry m (0x10 + 2 * k) = .ok (entry, a'') ∧
      (WrittenWhole a.regs a'.regs (0x10 + 2 * k) entry ↔
        a.regs (0x11 + 2 * k) = entry.getHigh ∧ a.regs (0x22 + 2 * k) = entry.getHigh) := by
  have hcount := a.gsiCount_le
  have hindex : IoApic.redTblToIndex m k = .ok (0x10 + 2 * k) := by
    rw [redTblToIndex_eq (by omega), APIC_REDIRACTION_TABLE_BASE, Nat.add_comm]
  have hnext : 0x11 + 2 * k = 0x10 + 2 * k + 1 := by omega
  have hhigh : 0x22 + 2 * k = 0x10 + 2 * k + 18 := by omega
  have he : 0x10 + 2 * k < 1024 := by omega
  rw [hnext, hhigh]
  generalize 0x10 + 2 * k = e at *
  obtain ⟨a₁, a₂, hwrite, hregs, -⟩ := writeRedirectionEntry_eq (m := m) (a := a) he entry
  have hregs : a₂.regs = writtenRegs a.regs e entry.getLow entry.getHigh := hregs
  refine ⟨_, a₂, a₂.select (e + 18), hindex, hwrite, ?_, ?_⟩
  · rw [readRedirectionEntry_eq he, hregs, writtenRegs_low, writtenRegs_high,
      RedirectionEntry.join_halves]
  · rw [hregs]
    constructor
    · intro h
      exact ⟨by rw [← h.high, writtenRegs_next], (writtenRegs_other_iff.mp h.other).symm⟩
    · rintro ⟨hown, htaken⟩
      exact ⟨writtenRegs_low .., by rw [writtenRegs_next, hown], writtenRegs_other_iff.mpr htaken.symm⟩

/-! ## What an override changes -/

/-- The settings in the low half. -/
def overrideLow (flags : BitVec 16) (deliveryMode : Option Apic.DeliveryMode) (low : BitVec 32) :
    BitVec 32 :=
  let low := setBits (setBits (setBits low 13 (flagPolarity flags)) 15 (flagTrigger flags)) 11
    Apic.PHYSICAL_MODE
  match deliveryMode with
  | some deliveryMode => setBits low 8 deliveryMode.code
  | none => low

section Override

variable (flags : BitVec 16) (apicId : BitVec 8) (deliveryMode : Option Apic.DeliveryMode)

theorem halves_overrideEntry :
    Halves (overrideEntry flags apicId deliveryMode) (overrideLow flags deliveryMode)
      (setBits · 24 apicId) := by
  have hlow := fun (lo n : ℕ) (v : BitVec n) (hlo : lo + n ≤ 32) =>
    (RedirectionEntry.lowHalf_setBits lo v hlo).halves
  have hcommon := (((hlow 13 _ (flagPolarity flags) (by omega)).comp
    (hlow 15 _ (flagTrigger flags) (by omega))).comp
      (hlow 11 _ Apic.PHYSICAL_MODE (by omega))).comp
        (RedirectionEntry.halves_setBits 24 apicId)
  cases deliveryMode with
  | none => exact hcommon
  | some mode => exact hcommon.comp (hlow 8 _ mode.code (by omega))

theorem extractLsb'_overrideLow (low : BitVec 32) :
    (overrideLow flags deliveryMode low).extractLsb' 13 1 = flagPolarity flags ∧
      (overrideLow flags deliveryMode low).extractLsb' 15 1 = flagTrigger flags := by
  have hcommon : ∀ x : BitVec 32,
      (setBits (setBits (setBits x 13 (flagPolarity flags)) 15 (flagTrigger flags)) 11
        Apic.PHYSICAL_MODE).extractLsb' 13 1 = flagPolarity flags ∧
      (setBits (setBits (setBits x 13 (flagPolarity flags)) 15 (flagTrigger flags)) 11
        Apic.PHYSICAL_MODE).extractLsb' 15 1 = flagTrigger flags := by
    intro x
    refine ⟨?_, ?_⟩
    · rw [extractLsb'_setBits_of_ne _ _ (by omega) (by omega),
        extractLsb'_setBits_of_ne _ _ (by omega) (by omega), extractLsb'_setBits _ _ _ (by omega)]
    · rw [extractLsb'_setBits_of_ne _ _ (by omega) (by omega), extractLsb'_setBits _ _ _ (by omega)]
  cases deliveryMode with
  | none => exact hcommon low
  | some mode =>
      obtain ⟨hpolarity, htrigger⟩ := hcommon low
      refine ⟨?_, ?_⟩
      · rw [overrideLow, extractLsb'_setBits_of_ne _ _ (by omega) (by omega), hpolarity]
      · rw [overrideLow, extractLsb'_setBits_of_ne _ _ (by omega) (by omega), htrigger]

end Override

section EntryAt

variable (r : ℕ → BitVec 32) (i : ℕ)

theorem getLow_entryAt : (entryAt r i).getLow = r i := RedirectionEntry.getLow_join ..

theorem getHigh_entryAt : (entryAt r i).getHigh = r (i + 1) := RedirectionEntry.getHigh_join ..

/-- A field in the low half. -/
theorem extractLsb'_entryAt_low {n : ℕ} (lo : ℕ) (h : lo + n ≤ 32) :
    (entryAt r i).extractLsb' lo n = (r i).extractLsb' lo n := by
  refine BitVec.eq_of_getLsbD_eq fun j hj => ?_
  rw [BitVec.getLsbD_extractLsb', BitVec.getLsbD_extractLsb', ← getLow_entryAt r i,
    RedirectionEntry.getLsbD_getLow _ (by omega)]

/-- A field in the high half. -/
theorem extractLsb'_entryAt_high {n : ℕ} (lo : ℕ) (h : lo + n ≤ 32) :
    (entryAt r i).extractLsb' (32 + lo) n = (r (i + 1)).extractLsb' lo n := by
  refine BitVec.eq_of_getLsbD_eq fun j hj => ?_
  rw [BitVec.getLsbD_extractLsb', BitVec.getLsbD_extractLsb', ← getHigh_entryAt r i,
    RedirectionEntry.getLsbD_getHigh _ (by omega), Nat.add_assoc]

theorem destination_entryAt : (entryAt r i).destination = (r (i + 1)).extractLsb' 24 8 :=
  extractLsb'_entryAt_high r i 24 (by omega)

theorem pinPolarity_entryAt : (entryAt r i).pinPolarity = (r i).extractLsb' 13 1 :=
  extractLsb'_entryAt_low r i 13 (by omega)

theorem triggerMode_entryAt : (entryAt r i).triggerMode = (r i).extractLsb' 15 1 :=
  extractLsb'_entryAt_low r i 15 (by omega)

end EntryAt

/-- The devices without their IDs. -/
def devices (units : List IoApicUnit) : List IoApic := units.map IoApicUnit.toIoApic

variable {units : List IoApicUnit} {overrides : List IrqOverride} {irq : BitVec 8}
  {gsi : BitVec 32} {flags : BitVec 16} {deliveryMode : Option Apic.DeliveryMode} {k base : ℕ}

/-- The device that a lookup finds, with its ID. -/
theorem Routed.unit (h : Routed m (devices units) gsi.toNat k base) :
    ∃ u, findEnum (fun a : IoApicUnit => covers m gsi.toNat a.range) 0 units = .ok (some (k, u)) ∧
      units[k]? = some u ∧ u.gsiBase = base ∧ base ≤ gsi.toNat ∧ gsi.toNat - base < 256 := by
  obtain ⟨a, hfind, hk, hbase, hle, hlt⟩ := h.ioApic
  rw [devices, findEnum_map] at hfind
  cases hsearch : findEnum (fun a : IoApicUnit => covers m gsi.toNat a.range) 0 units with
  | error e =>
      rw [hsearch] at hfind
      cases hfind
  | ok found =>
      rw [hsearch] at hfind
      obtain ⟨⟨i, u⟩, rfl, hia⟩ := Option.map_eq_some_iff.mp (Except.ok.inj hfind)
      obtain ⟨rfl, rfl⟩ := Prod.mk.inj hia
      obtain ⟨j, rfl, hj, -⟩ := of_findEnum_eq_some hsearch
      rw [id, Nat.zero_add]
      exact ⟨u, rfl, hj, hbase, hle, hlt⟩

/-- What an override writes. -/
theorem overrideIrq_spec (hroute : Routed m (devices units) gsi.toNat k base) :
    ∃ u units', overrideIrq m overrides units irq gsi flags deliveryMode =
        .ok (overrides ++ [⟨irq.toNat, gsi.toNat, irq.isLt, gsi.isLt⟩], units') ∧
      units[k]? = some u ∧ ranges (devices units') = ranges (devices units) ∧
      registers (devices units') = (registers (devices units)).set k
        (writtenRegs u.regs (entryIndex gsi.toNat base)
          (overrideLow flags deliveryMode (u.regs (entryIndex gsi.toNat base)))
          (setBits (u.regs (entryIndex gsi.toNat base + 18)) 24 u.apicId)) := by
  obtain ⟨u, hfind, hk, rfl, hle, hlt⟩ := hroute.unit
  rw [overrideIrq, hfind, ok_bind]
  dsimp only
  have hoffset : IoApic.redTblToIndex m (gsi.toNat - u.gsiBase) =
      .ok (entryIndex gsi.toNat u.gsiBase) := redTblToIndex_eq hlt
  rw [U32.sub_eq hle, ok_bind, hoffset, ok_bind]
  have he : entryIndex gsi.toNat u.gsiBase < 1024 := by
    rw [entryIndex, APIC_REDIRACTION_TABLE_BASE]
    omega
  generalize entryIndex gsi.toNat u.gsiBase = e at *
  rw [readRedirectionEntry_eq he, ok_bind]
  dsimp only
  set entry : RedirectionEntry := (u.regs e).setWidth 64 ||| ((u.regs (e + 18)).setWidth 64 <<< 32)
  obtain ⟨a₁, a₂, hwrite, hregs, hrange⟩ := writeRedirectionEntry_eq (m := m)
    (a := u.select (e + 18)) he (overrideEntry flags u.apicId deliveryMode entry)
  have hhalves := halves_overrideEntry flags u.apicId deliveryMode
  have hlow : (overrideEntry flags u.apicId deliveryMode entry).getLow =
      overrideLow flags deliveryMode (u.regs e) := by
    rw [hhalves.low, RedirectionEntry.getLow_join]
  have hhigh : (overrideEntry flags u.apicId deliveryMode entry).getHigh =
      setBits (u.regs (e + 18)) 24 u.apicId := by
    rw [hhalves.high, RedirectionEntry.getHigh_join]
  rw [hlow, hhigh] at hregs
  have hregs : a₂.regs = writtenRegs u.regs e (overrideLow flags deliveryMode (u.regs e))
    (setBits (u.regs (e + 18)) 24 u.apicId) := hregs
  refine ⟨u, units.set k ⟨a₂, u.apicId⟩, ?_, hk, ?_, ?_⟩
  · rw [hwrite, ok_bind]
  · obtain ⟨hlen, rfl⟩ := List.getElem?_eq_some_iff.mp hk
    rw [ranges, ranges, devices, devices, List.map_map, List.map_map, List.map_set]
    have hlen' : k < (units.map (IoApic.range ∘ IoApicUnit.toIoApic)).length := by
      rwa [List.length_map]
    have hself : (IoApic.range ∘ IoApicUnit.toIoApic) ⟨a₂, units[k].apicId⟩ =
        (units.map (IoApic.range ∘ IoApicUnit.toIoApic))[k] := by
      rw [List.getElem_map]
      exact hrange
    rw [hself, List.set_getElem_self]
  · rw [registers, registers, devices, devices, List.map_map, List.map_map, List.map_set]
    simp only [Function.comp_apply, hregs]

/-- **Overriding an IRQ.**  Only the entry of the GSI changes, and it gets the settings, if
and only if its destination was that already, and so was the byte that is taken for it. -/
theorem overrideIrq_whole_iff (hroute : Routed m (devices units) gsi.toNat k base) :
    ∃ u overrides' units' r', overrideIrq m overrides units irq gsi flags deliveryMode =
        .ok (overrides', units') ∧ units[k]? = some u ∧
      registers (devices units') = (registers (devices units)).set k r' ∧
      (OverriddenWhole u.regs r' (entryIndex gsi.toNat base) flags u.apicId ↔
        (u.regs (entryIndex gsi.toNat base + 1)).extractLsb' 24 8 = u.apicId ∧
        (u.regs (entryIndex gsi.toNat base + 18)).extractLsb' 24 8 = u.apicId) := by
  obtain ⟨u, units', hrun, hk, -, hregs⟩ := @overrideIrq_spec m units overrides irq gsi flags
    deliveryMode k base hroute
  refine ⟨u, _, units', _, hrun, hk, hregs, ?_⟩
  generalize entryIndex gsi.toNat base = e
  have hsame := setBits_eq_self_iff (u.regs (e + 18)) 24 u.apicId (by omega)
  constructor
  · intro h
    have hdest := h.destination
    rw [destination_entryAt, writtenRegs_next] at hdest
    exact ⟨hdest, hsame.mp (writtenRegs_other_iff.mp h.other)⟩
  · rintro ⟨hdest, htaken⟩
    obtain ⟨hpolarity, htrigger⟩ := extractLsb'_overrideLow flags deliveryMode (u.regs e)
    refine ⟨?_, ?_, ?_, writtenRegs_other_iff.mpr (hsame.mpr htaken)⟩
    · rw [destination_entryAt, writtenRegs_next, hdest]
    · rw [pinPolarity_entryAt, writtenRegs_low, hpolarity]
    · rw [triggerMode_entryAt, writtenRegs_low, htrigger]

/-- **Entries are whole only if they were so already.**  An entry that is written is read
back, and is in its own registers if and only if its high half was already there and in the
register that is taken for it; and an override keeps to the entry of its GSI if and only if the
destination was already there and in that register. -/
theorem redirection_whole_iff (m : Overflow) :
    (∀ (a : IoApic) (k : ℕ) (entry : RedirectionEntry), k < a.gsiCount →
      ∃ trace a' a'', IoApic.redTblToIndex m k = .ok (0x10 + 2 * k) ∧
        a.writeRedirectionEntry m (0x10 + 2 * k) entry = .ok (trace, a') ∧
        a'.readRedirectionEntry m (0x10 + 2 * k) = .ok (entry, a'') ∧
        (WrittenWhole a.regs a'.regs (0x10 + 2 * k) entry ↔
          a.regs (0x11 + 2 * k) = entry.getHigh ∧ a.regs (0x22 + 2 * k) = entry.getHigh)) ∧
    (∀ (units : List IoApicUnit) (overrides : List IrqOverride) (irq : BitVec 8)
      (gsi : BitVec 32) (flags : BitVec 16) (deliveryMode : Option Apic.DeliveryMode) (k base : ℕ),
      Routed m (devices units) gsi.toNat k base →
      ∃ u overrides' units' r', overrideIrq m overrides units irq gsi flags deliveryMode =
          .ok (overrides', units') ∧ units[k]? = some u ∧
        registers (devices units') = (registers (devices units)).set k r' ∧
        (OverriddenWhole u.regs r' (entryIndex gsi.toNat base) flags u.apicId ↔
          (u.regs (entryIndex gsi.toNat base + 1)).extractLsb' 24 8 = u.apicId ∧
          (u.regs (entryIndex gsi.toNat base + 18)).extractLsb' 24 8 = u.apicId)) :=
  ⟨fun _ _ entry hk => writeRedirectionEntry_whole_iff hk entry,
    fun _ _ _ _ _ _ _ _ hroute => overrideIrq_whole_iff hroute⟩

/-- An IO APIC with 16 GSIs, and all registers zero. -/
def blankUnit (apicId : BitVec 8) : IoApicUnit := ⟨⟨0, fun _ => 0, 0, 16, by decide⟩, apicId⟩

/-- The entry of GSI 2 of a device with the ID zero. -/
theorem blankUnit_whole :
    (∃ trace a' a'', IoApic.redTblToIndex .checked 2 = .ok (0x10 + 2 * 2) ∧
      (blankUnit 0).writeRedirectionEntry .checked (0x10 + 2 * 2) 0x30 = .ok (trace, a') ∧
      a'.readRedirectionEntry .checked (0x10 + 2 * 2) = .ok (0x30, a'') ∧
      (WrittenWhole (blankUnit 0).regs a'.regs (0x10 + 2 * 2) 0x30 ↔
        (blankUnit 0).regs (0x11 + 2 * 2) = RedirectionEntry.getHigh 0x30 ∧
        (blankUnit 0).regs (0x22 + 2 * 2) = RedirectionEntry.getHigh 0x30)) ∧
    ∃ u overrides' units' r', overrideIrq .checked [] [blankUnit 0] 0 2 0 none =
        .ok (overrides', units') ∧ [blankUnit 0][0]? = some u ∧
      registers (devices units') = (registers (devices [blankUnit 0])).set 0 r' ∧
      (OverriddenWhole u.regs r' (entryIndex 2 0) 0 u.apicId ↔
        (u.regs (entryIndex 2 0 + 1)).extractLsb' 24 8 = u.apicId ∧
        (u.regs (entryIndex 2 0 + 18)).extractLsb' 24 8 = u.apicId) :=
  ⟨(redirection_whole_iff .checked).1 (blankUnit 0).toIoApic 2 0x30 (by decide),
    (redirection_whole_iff .checked).2 [blankUnit 0] [] 0 2 0 none 0 0 ⟨16, rfl⟩⟩

/-- The destination of the first entry is written to the low half of the tenth. -/
theorem destination_misplaced :
    (∃ trace a', (blankUnit 1).writeRedirectionEntry .checked 0x10 (0x01 <<< 56) =
        .ok (trace, a') ∧ a'.regs 0x11 = 0 ∧ a'.regs 0x22 = 0x01000000 ∧
      ¬ WrittenWhole (blankUnit 1).regs a'.regs 0x10 (0x01 <<< 56)) ∧
    ∃ overrides' units' r', overrideIrq .checked [] [blankUnit 1] 0 0 0 none =
        .ok (overrides', units') ∧ registers (devices units') = [r'] ∧
      ¬ OverriddenWhole (blankUnit 1).regs r' (entryIndex 0 0) 0 1 := by
  refine ⟨⟨_, _, rfl, rfl, rfl, fun h => ?_⟩, ⟨_, _, _, rfl, rfl, fun h => ?_⟩⟩
  · exact absurd (h.other 0x22 (by decide) (by decide)) (by decide)
  · exact absurd (h.other 0x22 (by decide) (by decide)) (by decide)

end Funderberker

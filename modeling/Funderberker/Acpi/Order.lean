import Funderberker.Acpi.Parse
import Funderberker.Timer.Lines
import Mathlib.Algebra.Order.BigOperators.Group.List

/-!
# The order of the entries of the MADT

An entry acts on what has been found before it.  An override of an IRQ needs the IO APIC of its
GSI, the override of the address reaches the local APICs that are registered by then, and so do the
settings of their pins.

So the result depends on the order, unless every entry that acts on others has nothing to change.

## Main definitions

* `Madt.WellFormed` — lists of entries for which the order should be of no account.
* `Madt.Same` — two results with the same devices and settings.
* `Madt.OrderIndependent` — every order of the entries gives the same.
* `Madt.OrderFree` — the entries have nothing to change.

## Main results

* `Madt.foldlM_parseEntry_adds` — the run of entries that only add.
* `Madt.orderIndependent_iff` — when the order is of no account.
* `Madt.override_before_device` — overrides that come before their devices.
-/

namespace Funderberker

open Panicking

/-! ## The pins of a local APIC -/

namespace LvtReg

/-- What `setup_lvts` makes of the register of a pin. -/
def pin (nmi : Bool) (polarity : Apic.PinPolarity) (trigger : Apic.TriggerMode) (r : LvtReg) :
    LvtReg :=
  if nmi then
    (((r.setDeliveryMode .nmi).setTriggerMode trigger.code).setPinPolarity polarity.code).setMask
      false
  else
    ((r.setDeliveryMode .extInt).setTriggerMode Apic.TriggerMode.edgeTriggered.code).setMask false

theorem pin_pin (nmi : Bool) (polarity : Apic.PinPolarity) (trigger : Apic.TriggerMode)
    (r : LvtReg) : pin nmi polarity trigger (pin nmi polarity trigger r) =
      pin nmi polarity trigger r := by
  refine BitVec.eq_of_getLsbD_eq fun i hi => ?_
  have hbit : ∀ {n : ℕ} (x : BitVec 32) (lo : ℕ) (v : BitVec n), (setBits x lo v).getLsbD i =
      if lo ≤ i ∧ i < lo + n then v.getLsbD (i - lo) else x.getLsbD i := fun x lo v =>
    getLsbD_setBits x lo v hi
  cases nmi
  · simp only [pin, setDeliveryMode, setTriggerMode, setMask, hbit, Bool.false_eq_true, if_false]
    grind
  · simp only [pin, setDeliveryMode, setTriggerMode, setPinPolarity, setMask, hbit, if_true]
    grind

end LvtReg

section Pins

variable {a : LocalApic} {mmio mmio' mmio'' : Mmio} {lint : BitVec 8} {flags : BitVec 16}
  {polarity : Apic.PinPolarity} {trigger : Apic.TriggerMode} {base : PhysAddr}

/-- The settings that an entry asks for are allowed: there are two pins, and no value of the flags
is reserved. -/
structure LintAllowed (flags : BitVec 16) (lint : BitVec 8) : Prop where
  lint_le : lint.toNat ≤ 1
  polarity : Apic.PinPolarity.tryFrom (flags &&& 0b11) ≠ none
  trigger : Apic.TriggerMode.tryFrom ((flags >>> 2) &&& 0b11) ≠ none

/-- The registers of the pins at a base. -/
structure SamePins (base : PhysAddr) (mmio mmio' : Mmio) : Prop where
  lint0 : mmio' (base + LVT_LINT0) = mmio (base + LVT_LINT0)
  lint1 : mmio' (base + LVT_LINT1) = mmio (base + LVT_LINT1)

/-- The pins are set up as the entry asks, so that setting them up changes nothing. -/
structure PinsSet (base : PhysAddr) (flags : BitVec 16) (lint : BitVec 8) (mmio : Mmio) : Prop where
  lint0 : ∀ polarity trigger, Apic.PinPolarity.tryFrom (flags &&& 0b11) = some polarity →
    Apic.TriggerMode.tryFrom ((flags >>> 2) &&& 0b11) = some trigger →
    LvtReg.pin (lint = 0) polarity trigger (mmio (base + LVT_LINT0)) = mmio (base + LVT_LINT0)
  lint1 : ∀ polarity trigger, Apic.PinPolarity.tryFrom (flags &&& 0b11) = some polarity →
    Apic.TriggerMode.tryFrom ((flags >>> 2) &&& 0b11) = some trigger →
    LvtReg.pin (lint = 1) polarity trigger (mmio (base + LVT_LINT1)) = mmio (base + LVT_LINT1)

theorem SamePins.refl (base : PhysAddr) (mmio : Mmio) : SamePins base mmio mmio := ⟨rfl, rfl⟩

theorem SamePins.symm (h : SamePins base mmio mmio') : SamePins base mmio' mmio :=
  ⟨h.lint0.symm, h.lint1.symm⟩

theorem SamePins.trans (h : SamePins base mmio mmio') (h' : SamePins base mmio' mmio'') :
    SamePins base mmio mmio'' := ⟨h'.lint0.trans h.lint0, h'.lint1.trans h.lint1⟩

theorem PinsSet.congr (h : PinsSet base flags lint mmio) (hsame : SamePins base mmio mmio') :
    PinsSet base flags lint mmio' := by
  constructor
  · rw [hsame.lint0]
    exact h.lint0
  · rw [hsame.lint1]
    exact h.lint1

/-- Both pins are set up: one for NMIs, the other for external interrupts. -/
theorem setupLvts_spec (hlint : lint.toNat ≤ 1) : ∃ mmio',
    a.setupLvts mmio lint polarity trigger = .ok mmio' ∧
      mmio' (a.base + LVT_LINT0) =
        LvtReg.pin (lint = 0) polarity trigger (mmio (a.base + LVT_LINT0)) ∧
      mmio' (a.base + LVT_LINT1) =
        LvtReg.pin (lint = 1) polarity trigger (mmio (a.base + LVT_LINT1)) := by
  have hwrite : ∀ nmiLint extIntLint, nmiLint ≠ extIntLint → nmiLint ≠ LVT_ERROR →
      extIntLint ≠ LVT_ERROR →
      a.read (a.writeLvts mmio nmiLint extIntLint polarity trigger) nmiLint =
        LvtReg.pin true polarity trigger (a.read mmio nmiLint) ∧
      a.read (a.writeLvts mmio nmiLint extIntLint polarity trigger) extIntLint =
        LvtReg.pin false polarity trigger (a.read mmio extIntLint) := by
    intro nmiLint extIntLint hne hne' hne''
    rw [LocalApic.writeLvts, LocalApic.write_of_ne _ _ _ hne', LocalApic.write_of_ne _ _ _ hne,
      LocalApic.write_same, LocalApic.write_of_ne _ _ _ hne'', LocalApic.write_same]
    exact ⟨rfl, rfl⟩
  obtain hzero | hone : lint = 0 ∨ lint = 1 := by
    rcases Nat.le_one_iff_eq_zero_or_eq_one.mp hlint with h | h
    · exact Or.inl (BitVec.eq_of_toNat_eq h)
    · exact Or.inr (BitVec.eq_of_toNat_eq h)
  · subst hzero
    obtain ⟨h0, h1⟩ := hwrite LVT_LINT0 LVT_LINT1 (by decide) (by decide) (by decide)
    exact ⟨_, rfl, h0, h1⟩
  · subst hone
    obtain ⟨h1, h0⟩ := hwrite LVT_LINT1 LVT_LINT0 (by decide) (by decide) (by decide)
    exact ⟨_, rfl, h0, h1⟩

/-- Setting up a local APIC sets the pins at its base; pins that are set stay as they are. -/
theorem configLint_spec (hallowed : LintAllowed flags lint) : ∃ mmio',
    LocalApics.configLint lint flags mmio a = .ok mmio' ∧ PinsSet a.base flags lint mmio' ∧
      (PinsSet a.base flags lint mmio → SamePins a.base mmio mmio') := by
  obtain ⟨polarity, hpolarity⟩ := Option.ne_none_iff_exists'.mp hallowed.polarity
  obtain ⟨trigger, htrigger⟩ := Option.ne_none_iff_exists'.mp hallowed.trigger
  obtain ⟨mmio', hrun, h0, h1⟩ := @setupLvts_spec a mmio lint polarity trigger hallowed.lint_le
  refine ⟨mmio', ?_, ⟨?_, ?_⟩, fun hset => ⟨?_, ?_⟩⟩
  · rw [LocalApics.configLint, hpolarity, htrigger]
    exact hrun
  · intro polarity' trigger' hpolarity' htrigger'
    rw [hpolarity] at hpolarity'
    rw [htrigger] at htrigger'
    cases hpolarity'
    cases htrigger'
    rw [h0, LvtReg.pin_pin]
  · intro polarity' trigger' hpolarity' htrigger'
    rw [hpolarity] at hpolarity'
    rw [htrigger] at htrigger'
    cases hpolarity'
    cases htrigger'
    rw [h1, LvtReg.pin_pin]
  · rw [h0, hset.lint0 polarity trigger hpolarity htrigger]
  · rw [h1, hset.lint1 polarity trigger hpolarity htrigger]

/-- A local APIC that an entry is about. -/
def Targets (acpiProcessorId : BitVec 32) (a : LocalApic) : Prop :=
  acpiProcessorId = LocalApics.ALL_PROCESSORS_ID ∨ a.acpiProcessorId = acpiProcessorId

instance (acpiProcessorId : BitVec 32) (a : LocalApic) : Decidable (Targets acpiProcessorId a) :=
  inferInstanceAs (Decidable (_ ∨ _))

/-- Both arms go through the local APICs that the entry is about. -/
theorem configLints_eq (s : LocalApics) (acpiProcessorId : BitVec 32) :
    s.configLints acpiProcessorId lint flags = (do
      let mmio ← s.lapics.foldlM (fun mmio a =>
        if Targets acpiProcessorId a then LocalApics.configLint lint flags mmio a
        else .ok mmio) s.mmio
      .ok { s with mmio := mmio }) := by
  rw [LocalApics.configLints]
  split
  · next hall =>
      have htargets : ∀ a, Targets acpiProcessorId a := fun a => Or.inl hall
      simp only [htargets, if_true]
  · next hall => simp only [Targets, hall, false_or]

/-- Going through local APICs that have one base. -/
theorem configLints_spec (hallowed : LintAllowed flags lint) (acpiProcessorId : BitVec 32)
    (lapics : List LocalApic) (hbase : ∀ a ∈ lapics, a.base = base) (mmio : Mmio) :
    ∃ mmio', lapics.foldlM (fun mmio a =>
        if Targets acpiProcessorId a then LocalApics.configLint lint flags mmio a
        else .ok mmio) mmio = .ok mmio' ∧
      ((∃ a ∈ lapics, Targets acpiProcessorId a) → PinsSet base flags lint mmio') ∧
      (((∃ a ∈ lapics, Targets acpiProcessorId a) → PinsSet base flags lint mmio) →
        SamePins base mmio mmio') := by
  induction lapics generalizing mmio with
  | nil => exact ⟨mmio, rfl, by simp, fun _ => .refl base mmio⟩
  | cons a lapics ih =>
      have htail : ∀ b ∈ lapics, b.base = base := fun b hb => hbase b (List.mem_cons_of_mem a hb)
      by_cases htarget : Targets acpiProcessorId a
      · obtain ⟨mmio₁, hconfig, hset, hkept⟩ := @configLint_spec a mmio lint flags hallowed
        rw [hbase a List.mem_cons_self] at hset hkept
        obtain ⟨mmio₂, hrun, -, hsame⟩ := ih htail mmio₁
        have hsame := hsame fun _ => hset
        refine ⟨mmio₂, ?_, fun _ => hset.congr hsame, fun h => ?_⟩
        · rw [List.foldlM_cons, if_pos htarget, hconfig, ok_bind, hrun]
        · exact (hkept (h ⟨a, List.mem_cons_self, htarget⟩)).trans hsame
      · obtain ⟨mmio₂, hrun, hset, hsame⟩ := ih htail mmio
        have hiff : (∃ b ∈ a :: lapics, Targets acpiProcessorId b) ↔
            ∃ b ∈ lapics, Targets acpiProcessorId b := by
          simp only [List.mem_cons, exists_eq_or_imp, htarget, false_or]
        refine ⟨mmio₂, ?_, fun h => hset (hiff.mp h), fun h => hsame fun h' => h (hiff.mpr h')⟩
        rw [List.foldlM_cons, if_neg htarget, ok_bind, hrun]

end Pins

namespace Madt

/-! ## What an entry registers -/

namespace Entry

variable (m : Overflow) (machine : Machine) (base : PhysAddr)

/-- The flags of a processor that is not registered. -/
def Disabled (flags : BitVec 32) : Prop := flags &&& 0x1 ≠ 1 ∧ flags &&& 0x2 ≠ 0x2

instance (flags : BitVec 32) : Decidable (Disabled flags) := inferInstanceAs (Decidable (_ ∧ _))

def lapic : Entry → Option LocalApic
  | localApic acpiProcessorId apicId flags =>
      if Disabled flags then none else some ⟨base, acpiProcessorId.setWidth 32, apicId.setWidth 32⟩
  | processorLocalX2Apic x2apicId flags processorAcpiId =>
      if Disabled flags then none else some ⟨base, processorAcpiId, x2apicId⟩
  | _ => none

theorem base_lapic {base : PhysAddr} {e : Entry} {a : LocalApic} (h : e.lapic base = some a) :
    a.base = base := by
  have hnew : ∀ {flags acpiProcessorId apicId : BitVec 32},
      (if Disabled flags then none else some ⟨base, acpiProcessorId, apicId⟩) = some a →
        a.base = base := by
    intro flags acpiProcessorId apicId h
    split at h
    · cases h
    · cases h
      rfl
  cases e with
  | localApic => exact hnew h
  | processorLocalX2Apic => exact hnew h
  | _ => cases h

theorem base_of_mem {base : PhysAddr} {es : List Entry} {a : LocalApic}
    (h : a ∈ es.filterMap (lapic base)) : a.base = base := by
  obtain ⟨e, -, he⟩ := List.mem_filterMap.mp h
  exact base_lapic he

def unit : Entry → Option IoApicUnit
  | ioApic ioApicId ioApicAddr gsiBase =>
      (IoApicUnit.new m (machine.ioApicRegs ioApicAddr.toNat) gsiBase.toNat ioApicId).toOption
  | _ => none

theorem gsiCount_unit_pos {m : Overflow} {machine : Machine} {e : Entry} {u : IoApicUnit}
    (h : e.unit m machine = some u) : 0 < u.gsiCount := by
  cases e with
  | ioApic ioApicId ioApicAddr gsiBase =>
      rw [unit, IoApicUnit.new, IoApic.new] at h
      split at h
      · cases h
      · cases h
        exact Nat.succ_pos _
  | _ => cases h

theorem gsiCount_pos_of_mem {m : Overflow} {machine : Machine} {es : List Entry} {u : IoApicUnit}
    (h : u ∈ es.filterMap (unit m machine)) : 0 < u.gsiCount := by
  obtain ⟨e, -, he⟩ := List.mem_filterMap.mp h
  exact gsiCount_unit_pos he

/-- The IRQ and the GSI of an override. -/
def overridden : Entry → Option (BitVec 8 × BitVec 32)
  | ioApicIso irqSource gsi _ => some (irqSource, gsi)
  | ioApicNmiIso nmiSource gsi _ => some (nmiSource, gsi)
  | _ => none

/-- The flags that say how a pin is wired. -/
def pinFlags : Entry → Option (BitVec 16)
  | ioApicIso _ _ flags => some flags
  | ioApicNmiIso _ _ flags => some flags
  | localApicNmi _ flags _ => some flags
  | _ => none

end Entry

/-- The numbers of the IRQs, of the pins and of the flags are allowed, and no two entries are about
one IRQ or one pin. -/
structure WellFormed (m : Overflow) (machine : Machine) (base : PhysAddr) (es : List Entry) :
    Prop where
  /-- The length of a table is 32 bits. -/
  length_lt : es.length < 2 ^ 32
  flags : ∀ flags ∈ es.filterMap Entry.pinFlags, Apic.PinPolarity.tryFrom (flags &&& 0b11) ≠ none ∧
    Apic.TriggerMode.tryFrom ((flags >>> 2) &&& 0b11) ≠ none
  lint_le : ∀ acpiProcessorId flags lint, .localApicNmi acpiProcessorId flags lint ∈ es →
    lint.toNat ≤ 1
  covered : ∀ o ∈ es.filterMap Entry.overridden, ∃ u ∈ es.filterMap (Entry.unit m machine),
    u.gsiBase ≤ o.2.toNat ∧ o.2.toNat < u.gsiBase + u.gsiCount
  irqs : ((es.filterMap Entry.overridden).map Prod.fst).Nodup
  pins : es.Pairwise fun e e' => ∀ p flags lint p' flags' lint', e = .localApicNmi p flags lint →
    e' = .localApicNmi p' flags' lint' → lint = lint' → ∀ a ∈ es.filterMap (Entry.lapic base),
      Targets (p.setWidth 32) a → ¬ Targets (p'.setWidth 32) a

/-- The same devices and settings.  The register that selects another one is left out. -/
structure Same (s s' : Apics) : Prop where
  lapics : s'.lapics.lapics.Perm s.lapics.lapics
  pins : ∀ a ∈ s.lapics.lapics, SamePins a.base s.lapics.mmio s'.lapics.mmio
  ioApics : (s'.ioApics.map fun u => { u with ioSel := 0 }).Perm
    (s.ioApics.map fun u => { u with ioSel := 0 })
  overrides : s'.overrides.Perm s.overrides

/-- Every order of the entries gives the same, and all local APICs are at the address that an
entry gives. -/
def OrderIndependent (m : Overflow) (machine : Machine) (localApicAddr : BitVec 32)
    (es : List Entry) : Prop :=
  ∃ s t, parseEntries m machine localApicAddr es = .ok (s, t) ∧
    ∀ es', es'.Perm es → ∃ s' t', parseEntries m machine localApicAddr es' = .ok (s', t') ∧
      Same s s' ∧ ∀ localApicPhysAddr, .localApicAddrOverride localApicPhysAddr ∈ es →
        ∀ a ∈ s'.lapics.lapics, a.base = localApicPhysAddr.toNat

/-- The entry is no more than a device to add to what has been found, whichever of `lapics` are
registered by then. -/
structure Entry.Adds (m : Overflow) (machine : Machine) (base : PhysAddr)
    (lapics : List LocalApic) (e : Entry) : Prop where
  not_override : e.overridden = none
  addr : ∀ localApicPhysAddr, e = .localApicAddrOverride localApicPhysAddr → lapics ≠ [] →
    localApicPhysAddr.toNat = base
  lapic : e.lapic base ≠ none → machine.cpuidEdx &&& (0x1 <<< 9) ≠ 0
  ioApic : ∀ ioApicId ioApicAddr gsiBase, e = .ioApic ioApicId ioApicAddr gsiBase → m = .checked →
    (machine.ioApicRegs ioApicAddr.toNat APIC_VERSION >>> 16) &&& 0xff ≠ 0

def Entry.Allowed (e : Entry) : Prop := ∀ acpiProcessorId flags lint,
  e = .localApicNmi acpiProcessorId flags lint → LintAllowed flags lint

/-- The pins that the entry is about are set up as it asks. -/
def Entry.Keeps (base : PhysAddr) (lapics : List LocalApic) (mmio : Mmio) (e : Entry) : Prop :=
  ∀ acpiProcessorId flags lint, e = .localApicNmi acpiProcessorId flags lint →
    (∃ a ∈ lapics, Targets (acpiProcessorId.setWidth 32) a) → PinsSet base flags lint mmio

theorem Entry.Adds.mono {m : Overflow} {machine : Machine} {base : PhysAddr}
    {lapics lapics' : List LocalApic} {e : Entry} (h : e.Adds m machine base lapics')
    (hsub : lapics ⊆ lapics') : e.Adds m machine base lapics := by
  refine ⟨h.not_override, fun addr heq hne => h.addr addr heq fun hnil => hne ?_, h.lapic, h.ioApic⟩
  rw [hnil] at hsub
  exact List.subset_nil.mp hsub

theorem Entry.Keeps.mono {base : PhysAddr} {lapics lapics' : List LocalApic} {mmio : Mmio}
    {e : Entry} (h : e.Keeps base lapics' mmio) (hsub : lapics ⊆ lapics') :
    e.Keeps base lapics mmio := by
  rintro acpiProcessorId flags lint heq ⟨a, ha, htarget⟩
  exact h _ _ _ heq ⟨a, hsub ha, htarget⟩

theorem Entry.Keeps.congr {base : PhysAddr} {lapics : List LocalApic} {mmio mmio' : Mmio}
    {e : Entry} (h : e.Keeps base lapics mmio) (hsame : SamePins base mmio mmio') :
    e.Keeps base lapics mmio' := fun _ _ _ heq htarget => (h _ _ _ heq htarget).congr hsame

theorem WellFormed.allowed {m : Overflow} {machine : Machine} {base : PhysAddr} {es : List Entry}
    (h : WellFormed m machine base es) : ∀ e ∈ es, e.Allowed := by
  rintro e he acpiProcessorId flags lint rfl
  obtain ⟨hpolarity, htrigger⟩ := h.flags flags (List.mem_filterMap.mpr ⟨_, he, rfl⟩)
  exact ⟨h.lint_le _ _ _ he, hpolarity, htrigger⟩

/-! ## One entry -/

/-- What has been added to what had been found. -/
structure Registered (s s' : Apics) (lapics : List LocalApic) (units : List IoApicUnit) : Prop where
  lapics : s'.lapics.lapics = s.lapics.lapics ++ lapics
  ioApics : s'.ioApics = s.ioApics ++ units
  overrides : s'.overrides = s.overrides

variable {m : Overflow} {machine : Machine} {localApicAddr : BitVec 32} {s s' s'' : Apics}
  {e : Entry} {es : List Entry}

theorem Registered.trans {lapics lapics' : List LocalApic} {units units' : List IoApicUnit}
    (h : Registered s s' lapics units) (h' : Registered s' s'' lapics' units') :
    Registered s s'' (lapics ++ lapics') (units ++ units') := by
  refine ⟨?_, ?_, h'.overrides.trans h.overrides⟩
  · rw [h'.lapics, h.lapics, List.append_assoc]
  · rw [h'.ioApics, h.ioApics, List.append_assoc]

theorem add_spec (s : LocalApics) (base : PhysAddr) (acpiProcessorId apicId : BitVec 32)
    {cpuidEdx flags : BitVec 32} (hcpu : ¬ Entry.Disabled flags → cpuidEdx &&& (0x1 <<< 9) ≠ 0) :
    ∃ s', s.add cpuidEdx base acpiProcessorId apicId flags = .ok s' ∧
      s'.lapics = s.lapics ++
        (if Entry.Disabled flags then none else some ⟨base, acpiProcessorId, apicId⟩).toList ∧
      SamePins base s.mmio s'.mmio := by
  by_cases hdisabled : Entry.Disabled flags
  · refine ⟨s, if_pos hdisabled, ?_, .refl ..⟩
    rw [if_pos hdisabled, Option.toList_none, List.append_nil]
  · let a : LocalApic := ⟨base, acpiProcessorId, apicId⟩
    have hnew : LocalApic.new s.mmio cpuidEdx base acpiProcessorId apicId =
        .ok (a, a.write (a.write s.mmio SPURIOUS_INTERRUPT_VECTOR 0x1ff) TASK_PRIORITY 0x0) :=
      if_neg (hcpu hdisabled)
    have hkept : ∀ reg, reg ≠ SPURIOUS_INTERRUPT_VECTOR → reg ≠ TASK_PRIORITY →
        a.read (a.write (a.write s.mmio SPURIOUS_INTERRUPT_VECTOR 0x1ff) TASK_PRIORITY 0x0) reg =
          a.read s.mmio reg := by
      intro reg hne hne'
      rw [LocalApic.write_of_ne _ _ _ hne', LocalApic.write_of_ne _ _ _ hne]
    refine ⟨⟨s.lapics ++ [a], a.write (a.write s.mmio SPURIOUS_INTERRUPT_VECTOR 0x1ff)
      TASK_PRIORITY 0x0⟩, ?_, ?_, hkept LVT_LINT0 (by decide) (by decide),
      hkept LVT_LINT1 (by decide) (by decide)⟩
    · have hnot : ¬ (flags &&& 0x1 ≠ 1 ∧ flags &&& 0x2 ≠ 0x2) := hdisabled
      rw [LocalApics.add, if_neg hnot, hnew, ok_bind]
    · rw [if_neg hdisabled, Option.toList_some]

theorem of_add_eq_ok {s s' : LocalApics} {cpuidEdx acpiProcessorId apicId flags : BitVec 32}
    {base : PhysAddr} (henabled : ¬ Entry.Disabled flags)
    (h : s.add cpuidEdx base acpiProcessorId apicId flags = .ok s') :
    cpuidEdx &&& (0x1 <<< 9) ≠ 0 ∧ s'.lapics = s.lapics ++ [⟨base, acpiProcessorId, apicId⟩] := by
  have hnot : ¬ (flags &&& 0x1 ≠ 1 ∧ flags &&& 0x2 ≠ 0x2) := henabled
  rw [LocalApics.add, if_neg hnot] at h
  obtain ⟨⟨a, mmio⟩, hnew, h⟩ := bind_eq_ok.mp h
  cases h
  rw [LocalApic.new] at hnew
  split at hnew
  · cases hnew
  · next hcpu =>
      cases hnew
      exact ⟨hcpu, rfl⟩

/-- A local APIC that has been registered is at the address of the header. -/
theorem of_parseEntry_lapic {a : LocalApic} (h : parseEntry m machine localApicAddr s e = .ok s')
    (ha : e.lapic localApicAddr.toNat = some a) :
    machine.cpuidEdx &&& (0x1 <<< 9) ≠ 0 ∧ a ∈ s'.lapics.lapics := by
  have hadd : ∀ {flags acpiProcessorId apicId : BitVec 32} {lapics : LocalApics},
      (if Entry.Disabled flags then none
        else some ⟨localApicAddr.toNat, acpiProcessorId, apicId⟩) = some a →
      s.lapics.add machine.cpuidEdx localApicAddr.toNat acpiProcessorId apicId flags = .ok lapics →
      machine.cpuidEdx &&& (0x1 <<< 9) ≠ 0 ∧ a ∈ lapics.lapics := by
    intro flags acpiProcessorId apicId lapics ha hrun
    split at ha
    · cases ha
    · next henabled =>
        cases ha
        obtain ⟨hcpu, hadded⟩ := of_add_eq_ok henabled hrun
        rw [hadded]
        exact ⟨hcpu, List.mem_append_right _ (List.mem_singleton_self _)⟩
  cases e with
  | localApic =>
      obtain ⟨lapics, hrun, hs'⟩ := bind_eq_ok.mp h
      cases hs'
      exact hadd ha hrun
  | processorLocalX2Apic =>
      obtain ⟨lapics, hrun, hs'⟩ := bind_eq_ok.mp h
      cases hs'
      exact hadd ha hrun
  | _ => cases ha

/-- An IO APIC is made if its version register has a number of GSIs. -/
theorem ioApicUnit_new_iff {regs : ℕ → BitVec 32} {gsiBase : ℕ} {apicId : BitVec 8} :
    (∃ u, IoApicUnit.new m regs gsiBase apicId = .ok u) ↔
      (m = .checked → (regs APIC_VERSION >>> 16) &&& 0xff ≠ 0) := by
  have hle : ((regs APIC_VERSION >>> 16) &&& 0xff).toNat ≤ 255 := by
    rw [BitVec.toNat_and]
    exact Nat.and_le_right
  have hpos : 0 < ((regs APIC_VERSION >>> 16) &&& 0xff).toNat ↔
      (regs APIC_VERSION >>> 16) &&& 0xff ≠ 0 := by
    rw [Nat.pos_iff_ne_zero, ne_eq, ne_eq, ← BitVec.toNat_inj]
    rfl
  rw [IoApicUnit.new, IoApic.new, ← hpos]
  split
  · next hfail =>
      obtain ⟨hm, hrange⟩ := hfail
      constructor
      · rintro ⟨u, hu⟩
        cases hu
      · intro h
        exact absurd ⟨h hm, by omega⟩ hrange
  · next hpass =>
      refine ⟨fun _ hm => ?_, fun _ => ⟨_, rfl⟩⟩
      by_contra hzero
      exact hpass ⟨hm, fun h => hzero h.1⟩

/-- What an entry does that is handled by `add`: its local APIC is registered if it is
not disabled. -/
theorem parseEntry_add {lapics : List LocalApic} {acpiProcessorId apicId flags : BitVec 32}
    (hadds : e.Adds m machine localApicAddr.toNat lapics)
    (hlapic : e.lapic localApicAddr.toNat = if Entry.Disabled flags then none
      else some ⟨localApicAddr.toNat, acpiProcessorId, apicId⟩)
    (hunit : e.unit m machine = none)
    (hparse : parseEntry m machine localApicAddr s e = do
      let lapics ← s.lapics.add machine.cpuidEdx localApicAddr.toNat acpiProcessorId apicId flags
      .ok { s with lapics := lapics }) :
    ∃ s', parseEntry m machine localApicAddr s e = .ok s' ∧
      Registered s s' (e.lapic localApicAddr.toNat).toList (e.unit m machine).toList ∧
      SamePins localApicAddr.toNat s.lapics.mmio s'.lapics.mmio := by
  have hcpu : ¬ Entry.Disabled flags → machine.cpuidEdx &&& (0x1 <<< 9) ≠ 0 := by
    intro henabled
    refine hadds.lapic ?_
    rw [hlapic, if_neg henabled]
    exact Option.some_ne_none _
  obtain ⟨lapics', hrun, hadded, hsame⟩ :=
    add_spec s.lapics localApicAddr.toNat acpiProcessorId apicId hcpu
  rw [hlapic, hunit]
  refine ⟨{ s with lapics := lapics' }, ?_, ⟨hadded, (List.append_nil _).symm, rfl⟩, hsame⟩
  rw [hparse, hrun, ok_bind]

/-- What an entry does that only adds: the device is added, and the pins are set up as it asks.
Pins that were so are left. -/
theorem parseEntry_adds (hadds : e.Adds m machine localApicAddr.toNat s.lapics.lapics)
    (hallowed : e.Allowed) (hbase : ∀ a ∈ s.lapics.lapics, a.base = localApicAddr.toNat) :
    ∃ s', parseEntry m machine localApicAddr s e = .ok s' ∧
      Registered s s' (e.lapic localApicAddr.toNat).toList (e.unit m machine).toList ∧
      e.Keeps localApicAddr.toNat s.lapics.lapics s'.lapics.mmio ∧
      (e.Keeps localApicAddr.toNat s.lapics.lapics s.lapics.mmio →
        SamePins localApicAddr.toNat s.lapics.mmio s'.lapics.mmio) := by
  cases e with
  | localApic acpiProcessorId apicId flags =>
      obtain ⟨s', hrun, hreg, hsame⟩ := parseEntry_add (s := s) hadds rfl rfl rfl
      refine ⟨s', hrun, hreg, ?_, fun _ => hsame⟩
      rintro _ _ _ ⟨⟩
  | processorLocalX2Apic x2apicId flags processorAcpiId =>
      obtain ⟨s', hrun, hreg, hsame⟩ := parseEntry_add (s := s) hadds rfl rfl rfl
      refine ⟨s', hrun, hreg, ?_, fun _ => hsame⟩
      rintro _ _ _ ⟨⟩
  | ioApic ioApicId ioApicAddr gsiBase =>
      obtain ⟨u, hu⟩ := ioApicUnit_new_iff.mpr (hadds.ioApic ioApicId ioApicAddr gsiBase rfl)
      refine ⟨{ s with ioApics := s.ioApics ++ [u] }, ?_, ⟨(List.append_nil _).symm, ?_, rfl⟩, ?_,
        fun _ => .refl ..⟩
      · rw [parseEntry, hu, ok_bind]
      · rw [Entry.unit, hu]
        rfl
      · rintro _ _ _ ⟨⟩
  | ioApicIso irqSource gsi flags => cases hadds.not_override
  | ioApicNmiIso nmiSource gsi flags => cases hadds.not_override
  | localApicNmi acpiProcessorId flags lint =>
      obtain ⟨mmio, hrun, hset, hsame⟩ := configLints_spec (hallowed _ _ _ rfl)
        (acpiProcessorId.setWidth 32) s.lapics.lapics hbase s.lapics.mmio
      refine ⟨{ s with lapics := { s.lapics with mmio := mmio } }, ?_,
        ⟨(List.append_nil _).symm, (List.append_nil _).symm, rfl⟩, ?_, fun h => hsame (h _ _ _ rfl)⟩
      · rw [parseEntry, configLints_eq, hrun, ok_bind, ok_bind]
      · rintro _ _ _ ⟨⟩
        exact hset
  | localApicAddrOverride localApicPhysAddr =>
      refine ⟨_, rfl, ⟨?_, (List.append_nil _).symm, rfl⟩, ?_, fun _ => .refl ..⟩
      · have hsame : ∀ a ∈ s.lapics.lapics, { a with base := localApicPhysAddr.toNat } = a := by
          intro a ha
          rw [hadds.addr _ rfl (List.ne_nil_of_mem ha), ← hbase a ha]
        exact ((List.map_congr_left hsame).trans (List.map_id _)).trans (List.append_nil _).symm
      · rintro _ _ _ ⟨⟩
  | other entryType =>
      refine ⟨s, rfl, ⟨(List.append_nil _).symm, (List.append_nil _).symm, rfl⟩, ?_,
        fun _ => .refl ..⟩
      rintro _ _ _ ⟨⟩

/-! ## All entries -/

theorem filterMap_cons_eq {β : Type} (f : Entry → Option β) (e : Entry) (es : List Entry) :
    (e :: es).filterMap f = (f e).toList ++ es.filterMap f := by
  cases h : f e with
  | none => rw [List.filterMap_cons_none h, Option.toList_none, List.nil_append]
  | some b => rw [List.filterMap_cons_some h, Option.toList_some, List.singleton_append]

/-- What a list of entries does that only add, whichever local APICs are registered by then. -/
theorem foldlM_parseEntry_adds (es : List Entry) (s : Apics) (hallowed : ∀ e ∈ es, e.Allowed)
    (hadds : ∀ e ∈ es, e.Adds m machine localApicAddr.toNat
      (s.lapics.lapics ++ es.filterMap (Entry.lapic localApicAddr.toNat)))
    (hbase : ∀ a ∈ s.lapics.lapics, a.base = localApicAddr.toNat) :
    ∃ s', es.foldlM (parseEntry m machine localApicAddr) s = .ok s' ∧
      Registered s s' (es.filterMap (Entry.lapic localApicAddr.toNat))
        (es.filterMap (Entry.unit m machine)) ∧
      ((∀ e ∈ es, e.Keeps localApicAddr.toNat
        (s.lapics.lapics ++ es.filterMap (Entry.lapic localApicAddr.toNat)) s.lapics.mmio) →
        SamePins localApicAddr.toNat s.lapics.mmio s'.lapics.mmio) := by
  set base : PhysAddr := localApicAddr.toNat with hbaseAddr
  induction es generalizing s with
  | nil =>
      refine ⟨s, rfl, ⟨?_, ?_, rfl⟩, fun _ => .refl ..⟩
      · exact (List.append_nil _).symm
      · exact (List.append_nil _).symm
  | cons e es ih =>
      rw [filterMap_cons_eq] at hadds ⊢
      obtain ⟨s₁, hstep, hreg, -, hsame⟩ := parseEntry_adds
        ((hadds e List.mem_cons_self).mono (List.subset_append_left ..))
        (hallowed e List.mem_cons_self) hbase
      have hall : s₁.lapics.lapics ++ es.filterMap (Entry.lapic base) =
          s.lapics.lapics ++ ((e.lapic base).toList ++ es.filterMap (Entry.lapic base)) := by
        rw [hreg.lapics, List.append_assoc]
      have hbase₁ : ∀ a ∈ s₁.lapics.lapics, a.base = base := by
        intro a ha
        rw [hreg.lapics] at ha
        rcases List.mem_append.mp ha with ha | ha
        · exact hbase a ha
        · exact Entry.base_lapic (Option.mem_toList.mp ha)
      obtain ⟨s₂, hrun, hreg', hsame'⟩ := ih s₁
        (fun e' he' => hallowed e' (List.mem_cons_of_mem e he'))
        (fun e' he' => hall ▸ hadds e' (List.mem_cons_of_mem e he')) hbase₁
      refine ⟨s₂, ?_, ?_, fun hkeeps => ?_⟩
      · rw [List.foldlM_cons, hstep, ok_bind, hrun]
      · rw [filterMap_cons_eq]
        exact hreg.trans hreg'
      · have hfirst := hsame ((hkeeps e List.mem_cons_self).mono (List.subset_append_left ..))
        refine hfirst.trans (hsame' fun e' he' => ?_)
        rw [hall]
        exact (hkeeps e' (List.mem_cons_of_mem e he')).congr hfirst

/-- What is found in the end if all entries only add. -/
structure Collected (m : Overflow) (machine : Machine) (base : PhysAddr) (es : List Entry)
    (s : Apics) : Prop where
  lapics : s.lapics.lapics = es.filterMap (Entry.lapic base)
  ioApics : s.ioApics = es.filterMap (Entry.unit m machine)
  overrides : s.overrides = []

/-- The run of a list of entries that only add. -/
theorem run_adds (hallowed : ∀ e ∈ es, e.Allowed)
    (hadds : ∀ e ∈ es, e.Adds m machine localApicAddr.toNat
      (es.filterMap (Entry.lapic localApicAddr.toNat))) :
    ∃ s, es.foldlM (parseEntry m machine localApicAddr) (start machine) = .ok s ∧
      Collected m machine localApicAddr.toNat es s ∧
      ((∀ e ∈ es, e.Keeps localApicAddr.toNat (es.filterMap (Entry.lapic localApicAddr.toNat))
        machine.mmio) → SamePins localApicAddr.toNat machine.mmio s.lapics.mmio) := by
  obtain ⟨s, hrun, hreg, hsame⟩ := foldlM_parseEntry_adds es (start machine) hallowed hadds
    (fun a ha => absurd ha List.not_mem_nil)
  exact ⟨s, hrun, ⟨hreg.lapics, hreg.ioApics, hreg.overrides⟩, hsame⟩

/-- The GSIs are numbered from zero, so that there must be one unless subtraction wraps. -/
theorem initIrqAllocator_devices_iff {units : List IoApicUnit} (hlength : units.length < 2 ^ 32)
    (hpos : ∀ u ∈ units, 0 < u.gsiCount) :
    (∃ t, initIrqAllocator m (devices units) = .ok t) ↔ (m = .checked → units ≠ []) := by
  cases units with
  | nil =>
      cases m with
      | checked => exact iff_of_false (by rintro ⟨t, ht⟩; cases ht) fun h => h rfl rfl
      | wrapping => exact iff_of_true ⟨_, rfl⟩ (by rintro ⟨⟩)
  | cons u units =>
      refine iff_of_true ?_ fun _ => List.cons_ne_nil _ _
      have hsum : ((devices (u :: units)).map IoApic.gsiCount).sum ≤ (u :: units).length * 256 := by
        have hle : ∀ n ∈ (devices (u :: units)).map IoApic.gsiCount, n ≤ 256 := by
          intro n hn
          obtain ⟨a, -, rfl⟩ := List.mem_map.mp hn
          exact a.gsiCount_le
        have h := List.sum_le_card_nsmul _ 256 hle
        rwa [devices, List.length_map, List.length_map, Nat.nsmul_eq_mul] at h
      have hfirst := hpos u List.mem_cons_self
      have hcount : ((devices (u :: units)).map IoApic.gsiCount).sum =
          ((devices (u :: units)).map IoApic.gsiCount).sum - 1 + 1 := by
        have hone : u.gsiCount ≤ ((devices (u :: units)).map IoApic.gsiCount).sum := by
          rw [devices, List.map_cons, List.map_cons, List.sum_cons]
          exact Nat.le_add_right ..
        omega
      rw [initIrqAllocator_eq hcount (by omega)]
      obtain ⟨t, ht, -⟩ := @IdTracker.Tracks.new m 0
        (((devices (u :: units)).map IoApic.gsiCount).sum - 1) (Nat.zero_le _) (by omega)
      exact ⟨t, ht⟩

/-- No entry has anything to change. -/
structure OrderFree (m : Overflow) (machine : Machine) (base : PhysAddr) (es : List Entry) :
    Prop where
  adds : ∀ e ∈ es, e.Adds m machine base (es.filterMap (Entry.lapic base))
  keeps : ∀ e ∈ es, e.Keeps base (es.filterMap (Entry.lapic base)) machine.mmio
  ioApics : m = .checked → es.filterMap (Entry.unit m machine) ≠ []

theorem OrderFree.perm {base : PhysAddr} {es' : List Entry} (h : OrderFree m machine base es)
    (hperm : es'.Perm es) : OrderFree m machine base es' := by
  have hlapics := hperm.filterMap (Entry.lapic base)
  refine ⟨fun e he => ?_, fun e he => ?_, fun hm hnil => h.ioApics hm ?_⟩
  · exact (h.adds e (hperm.mem_iff.mp he)).mono hlapics.subset
  · exact (h.keeps e (hperm.mem_iff.mp he)).mono hlapics.subset
  · rw [← List.perm_nil, ← hnil]
    exact (hperm.filterMap _).symm

/-- The run of a list with nothing to change. -/
theorem OrderFree.run (h : OrderFree m machine localApicAddr.toNat es)
    (hallowed : ∀ e ∈ es, e.Allowed) (hlength : es.length < 2 ^ 32) :
    ∃ s t, parseEntries m machine localApicAddr es = .ok (s, t) ∧
      Collected m machine localApicAddr.toNat es s ∧
      SamePins localApicAddr.toNat machine.mmio s.lapics.mmio := by
  obtain ⟨s, hrun, hfound, hsame⟩ := run_adds hallowed h.adds
  obtain ⟨t, ht⟩ := (initIrqAllocator_devices_iff (m := m)
    ((List.length_filterMap_le (Entry.unit m machine) es).trans_lt hlength)
    fun u hu => Entry.gsiCount_pos_of_mem hu).mpr h.ioApics
  refine ⟨s, t, ?_, hfound, hsame h.keeps⟩
  rw [parseEntries, hrun, ok_bind, hfound.ioApics, ht, ok_bind]

/-- With nothing to change the order is of no account. -/
theorem OrderFree.independent (h : OrderFree m machine localApicAddr.toNat es)
    (hallowed : ∀ e ∈ es, e.Allowed) (hlength : es.length < 2 ^ 32) :
    OrderIndependent m machine localApicAddr es := by
  obtain ⟨s, t, hrun, hfound, hpins⟩ := h.run hallowed hlength
  refine ⟨s, t, hrun, fun es' hperm => ?_⟩
  obtain ⟨s', t', hrun', hfound', hpins'⟩ := (h.perm hperm).run
    (fun e he => hallowed e (hperm.mem_iff.mp he)) (hperm.length_eq ▸ hlength)
  have hlapics : s'.lapics.lapics.Perm s.lapics.lapics := by
    rw [hfound.lapics, hfound'.lapics]
    exact hperm.filterMap _
  have hbase : ∀ a ∈ s.lapics.lapics, a.base = localApicAddr.toNat := by
    rw [hfound.lapics]
    exact fun a ha => Entry.base_of_mem ha
  refine ⟨s', t', hrun', ⟨hlapics, fun a ha => ?_, ?_, ?_⟩, fun addr haddr a ha => ?_⟩
  · rw [hbase a ha]
    exact hpins.symm.trans hpins'
  · rw [hfound.ioApics, hfound'.ioApics]
    exact (hperm.filterMap _).map _
  · rw [hfound'.overrides, hfound.overrides]
  · have ha := hlapics.subset ha
    have hne := List.ne_nil_of_mem ha
    rw [hfound.lapics] at hne
    rw [hbase a ha, (h.adds _ haddr).addr addr rfl hne]

/-- Each entry of a list that is parsed is parsed. -/
theorem parseEntry_of_run (h : es.foldlM (parseEntry m machine localApicAddr) s = .ok s')
    (he : e ∈ es) : ∃ s₁ s₂, parseEntry m machine localApicAddr s₁ e = .ok s₂ := by
  induction es generalizing s with
  | nil => cases he
  | cons e' es ih =>
      rw [List.foldlM_cons] at h
      obtain ⟨s₁, hstep, hrest⟩ := bind_eq_ok.mp h
      cases he with
      | head => exact ⟨s, s₁, hstep⟩
      | tail _ he => exact ih hrest he

theorem of_parseEntries {t : IdTracker} (h : parseEntries m machine localApicAddr es = .ok (s, t)) :
    es.foldlM (parseEntry m machine localApicAddr) (start machine) = .ok s ∧
      initIrqAllocator m (devices s.ioApics) = .ok t := by
  obtain ⟨s', hfold, h⟩ := bind_eq_ok.mp h
  obtain ⟨t', hallocator, h⟩ := bind_eq_ok.mp h
  cases h
  exact ⟨hfold, hallocator⟩

/-- The run of a list with an entry at the end. -/
theorem of_run_concat (h : (es ++ [e]).foldlM (parseEntry m machine localApicAddr) s = .ok s') :
    ∃ s₁, es.foldlM (parseEntry m machine localApicAddr) s = .ok s₁ ∧
      parseEntry m machine localApicAddr s₁ e = .ok s' := by
  rw [List.foldlM_append] at h
  obtain ⟨s₁, hfold, h⟩ := bind_eq_ok.mp h
  rw [List.foldlM_cons] at h
  obtain ⟨s₂, hlast, h⟩ := bind_eq_ok.mp h
  cases Except.ok.inj h
  exact ⟨s₁, hfold, hlast⟩

/-- An entry may be put last. -/
theorem perm_erase_concat (he : e ∈ es) : (es.erase e ++ [e]).Perm es :=
  (List.perm_append_singleton ..).trans (List.perm_cons_erase he).symm

/-- Entries of a list that may be in any order only add. -/
theorem OrderIndependent.adds (h : OrderIndependent m machine localApicAddr es) :
    ∀ e ∈ es, e.Adds m machine localApicAddr.toNat
      (es.filterMap (Entry.lapic localApicAddr.toNat)) := by
  obtain ⟨s, t, hrun, hindependent⟩ := h
  intro e he
  obtain ⟨s₁, s₂, hstep⟩ := parseEntry_of_run (of_parseEntries hrun).1 he
  refine ⟨?_, ?_, ?_, ?_⟩
  · -- no device is there when the entry is the first
    obtain ⟨s', t', hrun', -⟩ := hindependent (e :: es.erase e) (List.perm_cons_erase he).symm
    have hfold := (of_parseEntries hrun').1
    rw [List.foldlM_cons] at hfold
    obtain ⟨s₃, hfirst, -⟩ := bind_eq_ok.mp hfold
    cases e with
    | ioApicIso => cases hfirst
    | ioApicNmiIso => cases hfirst
    | _ => rfl
  · -- a local APIC that is the last keeps its address
    rintro addr rfl hne
    obtain ⟨a, ha⟩ := List.exists_mem_of_ne_nil _ hne
    obtain ⟨e', he', hlapic⟩ := List.mem_filterMap.mp ha
    obtain ⟨s', t', hrun', -, hbase⟩ := hindependent _ (perm_erase_concat he')
    obtain ⟨s₃, -, hlast⟩ := of_run_concat (of_parseEntries hrun').1
    rw [← hbase addr he a (of_parseEntry_lapic hlast hlapic).2, Entry.base_lapic hlapic]
  · intro hne
    obtain ⟨a, ha⟩ := Option.ne_none_iff_exists'.mp hne
    exact (of_parseEntry_lapic hstep ha).1
  · rintro ioApicId ioApicAddr gsiBase rfl
    obtain ⟨u, hu, -⟩ := bind_eq_ok.mp hstep
    exact ioApicUnit_new_iff.mp ⟨u, hu⟩

/-- The entries of the pins. -/
def Entry.isLint : Entry → Bool
  | localApicNmi .. => true
  | _ => false

theorem Entry.lapic_of_isLint {base : PhysAddr} (h : e.isLint = true) : e.lapic base = none := by
  cases e with
  | localApicNmi => rfl
  | _ => cases h

/-- Entries that add do so in any part of the list. -/
theorem adds_of_subset {base : PhysAddr} {es' : List Entry}
    (h : ∀ e ∈ es, e.Adds m machine base (es.filterMap (Entry.lapic base))) (hsub : es' ⊆ es) :
    ∀ e ∈ es', e.Adds m machine base (es'.filterMap (Entry.lapic base)) := by
  refine fun e he => (h e (hsub he)).mono fun a ha => ?_
  obtain ⟨e', he', ha⟩ := List.mem_filterMap.mp ha
  exact List.mem_filterMap.mpr ⟨e', hsub he', ha⟩

/-- With the entries of the pins first, when there is no local APIC yet, the pins are left. -/
theorem run_lints_first (hallowed : ∀ e ∈ es, e.Allowed)
    (hadds : ∀ e ∈ es, e.Adds m machine localApicAddr.toNat
      (es.filterMap (Entry.lapic localApicAddr.toNat))) :
    ∃ s, (es.filter Entry.isLint ++ es.filter fun e => !e.isLint).foldlM
        (parseEntry m machine localApicAddr) (start machine) = .ok s ∧
      SamePins localApicAddr.toNat machine.mmio s.lapics.mmio := by
  have hnone : (es.filter Entry.isLint).filterMap (Entry.lapic localApicAddr.toNat) = [] := by
    refine List.filterMap_eq_nil_iff.mpr fun e he => ?_
    exact Entry.lapic_of_isLint (List.mem_filter.mp he).2
  obtain ⟨s₁, hrun, hfound, hsame⟩ := run_adds
    (fun e he => hallowed e (List.mem_of_mem_filter he))
    (adds_of_subset hadds (List.filter_sublist (p := Entry.isLint)).subset)
  have hlapics : s₁.lapics.lapics = [] := hfound.lapics.trans hnone
  have hpins := hsame fun e _ acpiProcessorId flags lint _ htarget => by
    rw [hnone] at htarget
    obtain ⟨a, ha, -⟩ := htarget
    cases ha
  obtain ⟨s₂, hrun', -, hsame'⟩ := foldlM_parseEntry_adds (es.filter fun e => !e.isLint) s₁
    (fun e he => hallowed e (List.mem_of_mem_filter he))
    (by
      rw [hlapics]
      exact adds_of_subset hadds List.filter_sublist.subset)
    (fun a ha => by
      rw [hlapics] at ha
      cases ha)
  refine ⟨s₂, ?_, hpins.trans (hsame' ?_)⟩
  · rw [List.foldlM_append, hrun, ok_bind, hrun']
  · rintro e he acpiProcessorId flags lint rfl
    cases (List.mem_filter.mp he).2

/-- The pins that the entries of a list that may be in any order are about are set up so. -/
theorem OrderIndependent.keeps (h : OrderIndependent m machine localApicAddr es)
    (hallowed : ∀ e ∈ es, e.Allowed) :
    ∀ e ∈ es, e.Keeps localApicAddr.toNat (es.filterMap (Entry.lapic localApicAddr.toNat))
      machine.mmio := by
  have hadds := h.adds
  obtain ⟨s, t, hrun, hindependent⟩ := h
  rintro e he acpiProcessorId flags lint rfl ⟨a, ha, htarget⟩
  set e : Entry := .localApicNmi acpiProcessorId flags lint
  have hbase := Entry.base_of_mem ha
  -- all the local APICs of the list are there at the end
  obtain ⟨s₀, hfold, hfound, -⟩ := run_adds hallowed hadds
  have hmem : a ∈ s.lapics.lapics := by
    cases hfold.symm.trans (of_parseEntries hrun).1
    rw [hfound.lapics]
    exact ha
  -- with the entry last its pins are set up
  obtain ⟨s', t', hrun', hsame, -⟩ := hindependent _ (perm_erase_concat he)
  obtain ⟨s₁, hfold₁, hlast⟩ := of_run_concat (of_parseEntries hrun').1
  have hset : PinsSet localApicAddr.toNat flags lint s'.lapics.mmio := by
    obtain ⟨s₂, hfold₂, hfound₂, -⟩ := run_adds
      (fun e' he' => hallowed e' (List.mem_of_mem_erase he'))
      (adds_of_subset hadds (List.erase_subset (a := e)))
    cases hfold₂.symm.trans hfold₁
    have hperm := (List.perm_cons_erase he).filterMap (Entry.lapic localApicAddr.toNat)
    rw [List.filterMap_cons_none (Entry.lapic_of_isLint rfl), ← hfound₂.lapics] at hperm
    obtain ⟨s₃, hstep, -, hkeeps, -⟩ := parseEntry_adds ((hadds e he).mono hperm.symm.subset)
      (hallowed e he) fun b hb => Entry.base_of_mem (hperm.symm.subset hb)
    cases hstep.symm.trans hlast
    exact hkeeps _ _ _ rfl ⟨a, hperm.subset ha, htarget⟩
  -- with the entries of the pins first they are left
  obtain ⟨s'', t'', hrun'', hsame', -⟩ := hindependent _ (List.filter_append_perm Entry.isLint es)
  obtain ⟨s₂, hfold₂, hleft⟩ := run_lints_first hallowed hadds
  cases hfold₂.symm.trans (of_parseEntries hrun'').1
  have hpins := hsame.pins a hmem
  have hpins' := hsame'.pins a hmem
  rw [hbase] at hpins hpins'
  exact ((hset.congr hpins.symm).congr hpins').congr hleft.symm

/-- There is an IO APIC in a list that may be in any order, unless subtraction wraps. -/
theorem OrderIndependent.ioApics (h : OrderIndependent m machine localApicAddr es)
    (hallowed : ∀ e ∈ es, e.Allowed) (hlength : es.length < 2 ^ 32) :
    m = .checked → es.filterMap (Entry.unit m machine) ≠ [] := by
  have hadds := h.adds
  obtain ⟨s, t, hrun, -⟩ := h
  obtain ⟨hfold, hallocator⟩ := of_parseEntries hrun
  obtain ⟨s', hfold', hfound, -⟩ := run_adds hallowed hadds
  cases hfold.symm.trans hfold'
  rw [hfound.ioApics] at hallocator
  have hunits : (es.filterMap (Entry.unit m machine)).length < 2 ^ 32 :=
    (List.length_filterMap_le ..).trans_lt hlength
  exact (initIrqAllocator_devices_iff hunits fun u hu => Entry.gsiCount_pos_of_mem hu).mp
    ⟨t, hallocator⟩

/-- A machine whose IO APICs have 24 GSIs each.  The second pin of the local APICs is for NMIs. -/
def pcMachine : Machine where
  cpuidEdx := 0x200
  mmio := fun p =>
    if p = 0xfee00000 + LVT_LINT1 then LvtReg.pin true .activeLow .edgeTriggered 0
    else LvtReg.pin false .activeLow .edgeTriggered 0
  ioApicRegs := fun _ _ => 0x00170011

/-- The address is overridden by what it is, and the second pin is already for NMIs. -/
def settledEntries : List Entry :=
  [.localApicAddrOverride 0xfee00000, .localApicNmi 0xff 0 1, .ioApic 0 0xfec00000 0,
    .localApic 0 0 1]

end Madt

end Funderberker

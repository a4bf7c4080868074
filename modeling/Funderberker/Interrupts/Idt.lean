import Funderberker.Interrupts.IoApic
import Mathlib.Data.Fintype.Card
import Mathlib.Data.List.FinRange
import Mathlib.Order.Interval.Finset.Fin

/-!
# Interrupt registration

`kernel/src/arch/x86_64/interrupts.rs`: the interrupt descriptor table, and `register_irq`,
which masks the redirection entry of an IRQ, installs the stub at the first vector that is
not in use, maps the IRQ to it and unmasks the entry.

## Main definitions

* `GateDescriptor`, `Idt`, `installIsr`.
* `registerIrq` — with the tables after each register write.
* `IrqReach` — the calls since `Idt::init`.

## Main results

* `registerIrq_consistent` — the two tables agree after, and during, each call.
-/

namespace Funderberker

open Panicking

/-! ## Gates -/

/-- A gate descriptor by its fields. -/
structure GateDescriptor where
  offset0 : BitVec 16
  segmentSelector : BitVec 16
  ist : BitVec 3
  reserved0 : BitVec 5
  gateType : BitVec 4
  zero : BitVec 1
  dpl : BitVec 2
  present : BitVec 1
  offset1 : BitVec 16
  offset2 : BitVec 32
  reserved1 : BitVec 32
  deriving DecidableEq

inductive GateType
  | interrupt
  | trap

def GateType.code : GateType → BitVec 4
  | interrupt => 0b1110
  | trap => 0b1111

inductive Dpl
  | kernel
  | user

def Dpl.code : Dpl → BitVec 2
  | kernel => 0b00
  | user => 0b11

inductive GateDescriptor.Present
  | notPresent
  | present

def GateDescriptor.Present.code : GateDescriptor.Present → BitVec 1
  | notPresent => 0
  | present => 1

namespace GateDescriptor

def DEFAULT : GateDescriptor := ⟨0, 0, 0, 0, 0, 0, 0, 0, 0, 0, 0⟩

def install (g : GateDescriptor) (offset : BitVec 64) (segmentSelector : BitVec 16) (ist : BitVec 3)
    (gateType : GateType) (dpl : Dpl) (presence : Present) : GateDescriptor :=
  { g with
    offset0 := offset.setWidth 16
    segmentSelector := segmentSelector
    ist := ist
    gateType := gateType.code
    dpl := dpl.code
    present := presence.code
    offset1 := (offset >>> 16).setWidth 16
    offset2 := (offset >>> 32).setWidth 32 }

/-- The address that the processor jumps to: the three offset fields, one after another. -/
def address (g : GateDescriptor) : BitVec 64 := g.offset2 ++ g.offset1 ++ g.offset0

end GateDescriptor

open GateDescriptor (Present)

/-! ## The table -/

def GENERIC_ISR_VECTOR : Fin 256 := 255

abbrev Idt := Fin 256 → GateDescriptor

namespace Idt

/-- The stubs of the exceptions, and the one of the generic ISR. -/
structure Stubs where
  exception : ℕ → BitVec 64
  generic : BitVec 64

/-- `cs` is the code segment. -/
def installExceptionIsrs (idt : Idt) (cs : BitVec 16) (stubs : Stubs) : Idt := fun v =>
  if v < 32 then (idt v).install (stubs.exception v) cs 0 .trap .kernel .present
  else if v = GENERIC_ISR_VECTOR then
    (idt v).install stubs.generic cs 0 .interrupt .kernel .present
  else idt v

/-- The table starts with default gates. -/
def init (cs : BitVec 16) (stubs : Stubs) : Idt :=
  installExceptionIsrs (fun _ => GateDescriptor.DEFAULT) cs stubs

end Idt

/-- Install a stub at the first vector that is not present. -/
def installIsr (idt : Idt) (isrStub : BitVec 64) (segmentSelector : BitVec 16) (ist : BitVec 3)
    (gateType : GateType) (dpl : Dpl) (presence : Present) : Except Panic (Fin 256 × Idt) :=
  match (List.finRange 256).find? fun v => (idt v).present = Present.notPresent.code with
  | none => .error .unwrapNone
  | some v =>
      .ok (v, Function.update idt v
        ((idt v).install isrStub segmentSelector ist gateType dpl presence))

/-- The two tables. -/
structure Tables where
  idt : Idt
  ioApics : List IoApic

/-- `unwrap` of the result of an update. -/
def unwrapWritten : Except IoApicError Written → Except Panic Written
  | .ok w => .ok w
  | .error _ => .error .unwrapErr

/-- Returns the vector that is used, the tables after each register write, and the tables
at the end. -/
def registerIrq (m : Overflow) (overrides : List IrqOverride) (cs : BitVec 16) (s : Tables)
    (irq : ℕ) (isrStub : BitVec 64) : Except Panic (Fin 256 × List Tables × Tables) := do
  let masked ← unwrapWritten (← setDisabled m overrides s.ioApics irq true)
  let (vector, idt) ← installIsr s.idt isrStub cs 0 .interrupt .kernel .present
  let mapped ← unwrapWritten
    (← mapIrqToVector m overrides masked.ioApics (BitVec.ofNat 8 vector) irq)
  let unmasked ← unwrapWritten (← setDisabled m overrides mapped.ioApics irq false)
  .ok (vector, masked.trace.map (Tables.mk s.idt) ++ mapped.trace.map (Tables.mk idt) ++
    unmasked.trace.map (Tables.mk idt), ⟨idt, unmasked.ioApics⟩)

/-! ## Runs -/

/-- The calls so far, with their vectors. -/
structure Registration where
  irq : ℕ
  isrStub : BitVec 64
  vector : Fin 256

/-- The calls of `register_irq` since `Idt::init`, the last one first. -/
inductive IrqReach (m : Overflow) (overrides : List IrqOverride) (cs : BitVec 16)
    (stubs : Idt.Stubs) (ioApics₀ : List IoApic) : List Registration → Tables → Prop
  | start : IrqReach m overrides cs stubs ioApics₀ [] ⟨Idt.init cs stubs, ioApics₀⟩
  | step {log : List Registration} {s s' : Tables} {irq : ℕ} {isrStub : BitVec 64}
      {vector : Fin 256} {trace : List Tables} (hreach : IrqReach m overrides cs stubs ioApics₀ log s)
      (hrun : registerIrq m overrides cs s irq isrStub = .ok (vector, trace, s')) :
      IrqReach m overrides cs stubs ioApics₀ (⟨irq, isrStub, vector⟩ :: log) s'

/-! ## Entries -/

/-- The vector of the low half of an entry. -/
def entryVector (low : BitVec 32) : Fin 256 := (low.setWidth 8).toFin

/-- The mask bit of the low half of an entry. -/
def entryMasked (low : BitVec 32) : Bool := low.getLsbD 16

/-- An entry that is not masked has a vector whose gate is installed. -/
def Tables.Guarded (s : Tables) (low : BitVec 32) : Prop :=
  entryMasked low = false → (s.idt (entryVector low)).present = Present.present.code

/-- Only the vector and the mask have changed: the vector is `v`, and the entry is not
masked. -/
structure Retargeted (low low' : BitVec 32) (v : Fin 256) : Prop where
  vector : entryVector low' = v
  unmasked : entryMasked low' = false
  other : ∀ i, 8 ≤ i → i < 32 → i ≠ 16 → low'.getLsbD i = low.getLsbD i

/-! ## One call -/

theorem GateDescriptor.install_address (g : GateDescriptor) (offset : BitVec 64) (cs : BitVec 16)
    (ist : BitVec 3) (t : GateType) (dpl : Dpl) (p : Present) :
    (g.install offset cs ist t dpl p).address = offset := by
  refine BitVec.eq_of_getLsbD_eq fun i hi => ?_
  simp only [address, install, BitVec.getLsbD_append, BitVec.getLsbD_setWidth,
    BitVec.getLsbD_ushiftRight]
  by_cases h₁ : i < 16
  · simp [h₁]
  · by_cases h₂ : i - 16 < 16
    · have hsum : 16 + (i - 16) = i := by omega
      simp [h₁, h₂, hsum]
    · have h₃ : i - 16 - 16 < 32 := by omega
      have hsum : 32 + (i - 16 - 16) = i := by omega
      simp [h₁, h₂, h₃, hsum]

section Entry

variable (x : BitVec 32) (b : Bool) (v : Fin 256)

theorem entryMasked_setMask : entryMasked (setBits x 16 (BitVec.ofBool b)) = b := by
  rw [entryMasked, getLsbD_setBits _ _ _ (by omega), if_pos (by omega)]
  cases b <;> rfl

theorem entryVector_setMask : entryVector (setBits x 16 (BitVec.ofBool b)) = entryVector x := by
  rw [entryVector, entryVector]
  congr 1
  refine BitVec.eq_of_getLsbD_eq fun i hi => ?_
  rw [BitVec.getLsbD_setWidth, BitVec.getLsbD_setWidth, getLsbD_setBits _ _ _ (by omega),
    if_neg (by omega)]

theorem entryVector_setVector : entryVector (setBits x 0 (BitVec.ofNat 8 v)) = v := by
  have hword : (setBits x 0 (BitVec.ofNat 8 v)).setWidth 8 = BitVec.ofNat 8 v := by
    refine BitVec.eq_of_getLsbD_eq fun i hi => ?_
    rw [BitVec.getLsbD_setWidth, getLsbD_setBits _ _ _ (by omega), if_pos (by omega)]
    simp [hi]
  rw [entryVector, hword]
  apply Fin.ext
  simp

/-- The entry at the end of `register_irq`. -/
theorem retargeted_setBits :
    Retargeted x (setBits (setBits (setBits (setBits x 16 (BitVec.ofBool true)) 0
      (BitVec.ofNat 8 v)) 16 (BitVec.ofBool true)) 16 (BitVec.ofBool false)) v := by
  refine ⟨?_, entryMasked_setMask _ _, fun i h8 hi h16 => ?_⟩
  · rw [entryVector_setMask, entryVector_setMask, entryVector_setVector]
  · rw [getLsbD_setBits _ _ _ hi, if_neg (by omega), getLsbD_setBits _ _ _ hi, if_neg (by omega),
      getLsbD_setBits _ _ _ hi, if_neg (by omega), getLsbD_setBits _ _ _ hi, if_neg (by omega)]

end Entry

variable {m : Overflow} {overrides : List IrqOverride} {cs : BitVec 16} {s : Tables} {irq k base : ℕ}
  {isrStub : BitVec 64} {v : Fin 256}

theorem installIsr_eq
    (hv : ((List.finRange 256).find? fun v => (s.idt v).present = Present.notPresent.code) = some v) :
    installIsr s.idt isrStub cs 0 .interrupt .kernel .present =
      .ok (v, Function.update s.idt v ((s.idt v).install isrStub cs 0 .interrupt .kernel .present)) := by
  rw [installIsr, hv]

/-- **One call.**  Each of the three updates rewrites the one register, and in the last one
the gate is there. -/
theorem registerIrq_spec
    (hv : ((List.finRange 256).find? fun v => (s.idt v).present = Present.notPresent.code) = some v)
    (hroute : Routed m s.ioApics (irqToGsi overrides irq) k base) :
    ∃ trace s' r low', registerIrq m overrides cs s irq isrStub = .ok (v, trace, s') ∧
      s'.idt = Function.update s.idt v
        ((s.idt v).install isrStub cs 0 .interrupt .kernel .present) ∧
      ranges s'.ioApics = ranges s.ioApics ∧ (registers s.ioApics)[k]? = some r ∧
      registers s'.ioApics = (registers s.ioApics).set k
        (Function.update r (entryIndex (irqToGsi overrides irq) base) low') ∧
      Retargeted (r (entryIndex (irqToGsi overrides irq) base)) low' v ∧
      ∀ u ∈ trace, ∃ r', (registers u.ioApics)[k]? = some r' ∧
        u.Guarded (r' (entryIndex (irqToGsi overrides irq) base)) := by
  obtain ⟨w₁, r, hrun₁, hr, hranges₁, hregs₁, htrace₁⟩ := updateEntry_spec hroute
    (RedirectionEntry.lowHalf_setBits 16 (BitVec.ofBool true) (by omega))
  have hroute₁ := hroute.congr hranges₁
  obtain ⟨w₂, r₁, hrun₂, hr₁, hranges₂, hregs₂, htrace₂⟩ := updateEntry_spec hroute₁
    ((RedirectionEntry.lowHalf_setBits 0 (BitVec.ofNat 8 v) (by omega)).comp
      (RedirectionEntry.lowHalf_setBits 16 (BitVec.ofBool true) (by omega)))
  have hroute₂ := hroute₁.congr hranges₂
  obtain ⟨w₃, r₂, hrun₃, hr₂, hranges₃, hregs₃, htrace₃⟩ := updateEntry_spec hroute₂
    (RedirectionEntry.lowHalf_setBits 16 (BitVec.ofBool false) (by omega))
  generalize entryIndex (irqToGsi overrides irq) base = e at *
  -- The register goes through three values.
  have hk : k < (registers s.ioApics).length := (List.getElem?_eq_some_iff.mp hr).1
  rw [hregs₁, List.getElem?_set_self hk] at hr₁
  obtain rfl := Option.some.inj hr₁
  rw [hregs₁, List.set_set, Function.update_self, Function.update_idem] at hregs₂
  rw [hregs₂, List.getElem?_set_self hk] at hr₂
  obtain rfl := Option.some.inj hr₂
  rw [hregs₂, List.set_set, Function.update_self, Function.update_idem] at hregs₃
  set idt' := Function.update s.idt v ((s.idt v).install isrStub cs 0 .interrupt .kernel .present)
  have hgate : (idt' v).present = Present.present.code := by
    simp only [idt', Function.update_self]
    rfl
  refine ⟨w₁.trace.map (Tables.mk s.idt) ++ w₂.trace.map (Tables.mk idt') ++
    w₃.trace.map (Tables.mk idt'), ⟨idt', w₃.ioApics⟩, r, _, ?_, rfl, ?_, hr, hregs₃,
    retargeted_setBits _ v, ?_⟩
  · have hrun₁' : setDisabled m overrides s.ioApics irq true = .ok (.ok w₁) := hrun₁
    have hrun₂' : mapIrqToVector m overrides w₁.ioApics (BitVec.ofNat 8 v) irq = .ok (.ok w₂) :=
      hrun₂
    have hrun₃' : setDisabled m overrides w₂.ioApics irq false = .ok (.ok w₃) := hrun₃
    simp only [registerIrq, hrun₁', ok_bind, unwrapWritten, installIsr_eq hv, hrun₂', hrun₃']
    rfl
  · rw [hranges₃, hranges₂, hranges₁]
  · intro u hu
    simp only [List.mem_append, List.mem_map] at hu
    rcases hu with (⟨x, hx, rfl⟩ | ⟨x, hx, rfl⟩) | ⟨x, hx, rfl⟩
    · refine ⟨_, by rw [htrace₁ x hx, hregs₁, List.getElem?_set_self hk], fun hmask => ?_⟩
      rw [Function.update_self, entryMasked_setMask] at hmask
      cases hmask
    · refine ⟨_, by rw [htrace₂ x hx, hregs₂, List.getElem?_set_self hk], fun hmask => ?_⟩
      rw [Function.update_self, entryMasked_setMask] at hmask
      cases hmask
    · refine ⟨_, by rw [htrace₃ x hx, hregs₃, List.getElem?_set_self hk], fun _ => ?_⟩
      rw [Function.update_self, (retargeted_setBits _ v).vector]
      exact hgate

/-! ## Every run -/

variable {stubs : Idt.Stubs} {ioApics₀ : List IoApic} {log : List Registration}

/-- What holds after any calls: the vectors in use are those of the exceptions, the generic
one and those of the calls, and the gate of a call has its stub. -/
structure TablesInv (ioApics₀ : List IoApic) (log : List Registration) (s : Tables) : Prop where
  ranges : ranges s.ioApics = ranges ioApics₀
  free : ∀ v, (s.idt v).present = Present.notPresent.code ↔
    32 ≤ v ∧ v ≠ GENERIC_ISR_VECTOR ∧ v ∉ log.map Registration.vector
  gate : ∀ reg ∈ log, (s.idt reg.vector).address = reg.isrStub

/-- Fewer than 223 calls leave a vector. -/
theorem TablesInv.exists_free (hinv : TablesInv ioApics₀ log s) (hlen : log.length < 223) :
    ∃ v, ((List.finRange 256).find? fun v => (s.idt v).present = Present.notPresent.code) = some v ∧
      (s.idt v).present = Present.notPresent.code := by
  by_contra hnone
  have hall : ∀ v, (s.idt v).present ≠ Present.notPresent.code := by
    intro v hv
    have hsome : ((List.finRange 256).find? fun v =>
        (s.idt v).present = Present.notPresent.code).isSome := by
      rw [List.find?_isSome]
      exact ⟨v, List.mem_finRange v, decide_eq_true hv⟩
    obtain ⟨u, hu⟩ := Option.isSome_iff_exists.mp hsome
    have hfree := List.find?_some hu
    exact hnone ⟨u, hu, of_decide_eq_true hfree⟩
  -- All 223 vectors are those of calls.
  have hsub : Finset.Icc (32 : Fin 256) 254 ⊆ (log.map Registration.vector).toFinset := by
    intro v hv
    obtain ⟨h32, h254⟩ := Finset.mem_Icc.mp hv
    rw [List.mem_toFinset]
    by_contra hmem
    refine hall v ((hinv.free v).mpr ⟨h32, fun heq => ?_, hmem⟩)
    subst heq
    exact absurd h254 (by decide)
  have hcard := (Finset.card_le_card hsub).trans (List.toFinset_card_le _)
  rw [Fin.card_Icc, List.length_map] at hcard
  have h223 : ((254 : Fin 256) : ℕ) + 1 - ((32 : Fin 256) : ℕ) = 223 := by decide
  omega

theorem tablesInv_init (cs : BitVec 16) (stubs : Idt.Stubs) :
    TablesInv ioApics₀ [] ⟨Idt.init cs stubs, ioApics₀⟩ := by
  refine ⟨rfl, fun v => ?_, by simp⟩
  simp only [Idt.init, Idt.installExceptionIsrs]
  split
  case isTrue hv =>
      exact ⟨nofun, fun h => absurd hv (not_lt.mpr h.1)⟩
  case isFalse hv =>
      split
      case isTrue heq => exact ⟨nofun, fun h => absurd heq h.2.1⟩
      case isFalse hne => exact ⟨fun _ => ⟨not_lt.mp hv, hne, by simp⟩, fun _ => rfl⟩

/-- A call keeps the invariant. -/
theorem TablesInv.step {s' : Tables} (hinv : TablesInv ioApics₀ log s)
    (hv : (s.idt v).present = Present.notPresent.code)
    (hidt : s'.idt = Function.update s.idt v
      ((s.idt v).install isrStub cs 0 .interrupt .kernel .present))
    (hranges : Funderberker.ranges s'.ioApics = Funderberker.ranges s.ioApics) :
    TablesInv ioApics₀ (⟨irq, isrStub, v⟩ :: log) s' := by
  refine ⟨hranges.trans hinv.ranges, fun u => ?_, fun reg hreg => ?_⟩
  · rw [hidt, List.map_cons, List.mem_cons]
    by_cases hu : u = v
    · subst hu
      rw [Function.update_self]
      exact ⟨nofun, fun h => absurd (Or.inl rfl) h.2.2⟩
    · rw [Function.update_of_ne hu, hinv.free]
      simp only [hu, false_or]
  · rw [hidt]
    rcases List.mem_cons.mp hreg with rfl | hmem
    · rw [Function.update_self, GateDescriptor.install_address]
    · have hne : reg.vector ≠ v := by
        rintro rfl
        exact ((hinv.free _).mp hv).2.2 (List.mem_map_of_mem hmem)
      rw [Function.update_of_ne hne, hinv.gate reg hmem]

theorem IrqReach.inv (hreach : IrqReach m overrides cs stubs ioApics₀ log s)
    (hroutes : ∀ reg ∈ log, ∃ k base, Routed m ioApics₀ (irqToGsi overrides reg.irq) k base)
    (hlen : log.length ≤ 223) : TablesInv ioApics₀ log s := by
  induction hreach with
  | start => exact tablesInv_init cs stubs
  | step _ hrun ih =>
      have hinv := ih (fun reg hreg => hroutes reg (List.mem_cons_of_mem _ hreg))
        (Nat.le_of_succ_le hlen)
      obtain ⟨k, base, hroute⟩ := hroutes _ List.mem_cons_self
      obtain ⟨v, hfind, hv⟩ := hinv.exists_free hlen
      obtain ⟨_, _, _, _, hrun', hidt, hranges, -⟩ :=
        registerIrq_spec hfind (hroute.congr hinv.ranges)
      obtain ⟨rfl, hrest⟩ := Prod.mk.inj (Except.ok.inj (hrun.symm.trans hrun'))
      obtain ⟨-, rfl⟩ := Prod.mk.inj hrest
      exact hinv.step hv hidt hranges

/-- **Registration keeps the two tables consistent.**  After `Idt::init` and any fewer than
223 calls for routed IRQs, the gates of these calls have their stubs, and a further call for
a routed IRQ returns.  It uses a vector that no call has used, changes only the gate of that
vector and only the register of the entry, whose vector and mask it sets; and after each of
its register writes, an entry that is not masked has a vector whose gate is installed. -/
theorem registerIrq_consistent (hreach : IrqReach m overrides cs stubs ioApics₀ log s)
    (hroutes : ∀ reg ∈ log, ∃ k base, Routed m ioApics₀ (irqToGsi overrides reg.irq) k base)
    (hlen : log.length < 223)
    (hroute : Routed m ioApics₀ (irqToGsi overrides irq) k base) (isrStub : BitVec 64) :
    (∀ reg ∈ log, (s.idt reg.vector).address = reg.isrStub ∧
      (s.idt reg.vector).present = Present.present.code) ∧
    ∃ v trace s' r low', registerIrq m overrides cs s irq isrStub = .ok (v, trace, s') ∧
      32 ≤ v ∧ v ≤ 254 ∧ v ∉ log.map Registration.vector ∧
      (∀ u, u ≠ v → s'.idt u = s.idt u) ∧ (s'.idt v).address = isrStub ∧
      (s'.idt v).present = Present.present.code ∧
      (registers s.ioApics)[k]? = some r ∧
      registers s'.ioApics = (registers s.ioApics).set k
        (Function.update r (entryIndex (irqToGsi overrides irq) base) low') ∧
      Retargeted (r (entryIndex (irqToGsi overrides irq) base)) low' v ∧
      ∀ u ∈ trace, ∃ r', (registers u.ioApics)[k]? = some r' ∧
        u.Guarded (r' (entryIndex (irqToGsi overrides irq) base)) := by
  have hinv := hreach.inv hroutes hlen.le
  refine ⟨fun reg hreg => ⟨hinv.gate reg hreg, ?_⟩, ?_⟩
  · have hused : (s.idt reg.vector).present ≠ Present.notPresent.code := fun h =>
      ((hinv.free _).mp h).2.2 (List.mem_map_of_mem hreg)
    exact (BitVec.eq_zero_or_eq_one _).resolve_left hused
  · obtain ⟨v, hfind, hv⟩ := hinv.exists_free hlen
    obtain ⟨h32, hgeneric, hnew⟩ := (hinv.free v).mp hv
    obtain ⟨trace, s', r, low', hrun, hidt, -, hr, hregs, hlow, htrace⟩ :=
      registerIrq_spec hfind (hroute.congr hinv.ranges)
    refine ⟨v, trace, s', r, low', hrun, h32, ?_, hnew, fun u hu => ?_, ?_, ?_, hr, hregs, hlow,
      htrace⟩
    · have hne : (v : ℕ) ≠ 255 := fun h => hgeneric (Fin.ext h)
      have hle : (v : ℕ) ≤ 254 := by omega
      exact hle
    · rw [hidt, Function.update_of_ne hu]
    · rw [hidt, Function.update_self, GateDescriptor.install_address]
    · rw [hidt, Function.update_self]
      rfl

/-- The timer IRQ, which is wired to GSI 2. -/
theorem timer_registration_consistent :
    ∃ v trace s', registerIrq .checked [⟨0, 2, by decide, by decide⟩] 8
        ⟨Idt.init 8 ⟨fun _ => 0, 0⟩, [⟨0, fun _ => 0x10000, 0, 24, by decide⟩]⟩ 0 0xffff800000001234 =
          .ok (v, trace, s') ∧
      32 ≤ v ∧ v ≤ 254 ∧ (s'.idt v).address = 0xffff800000001234 := by
  have hroute : Routed .checked [⟨0, fun _ => 0x10000, 0, 24, by decide⟩]
      (irqToGsi [⟨0, 2, by decide, by decide⟩] 0) 0 0 := ⟨24, rfl⟩
  obtain ⟨-, v, trace, s', r, low', hrun, h32, h254, -, -, haddress, -⟩ :=
    registerIrq_consistent (@IrqReach.start _ _ 8 ⟨fun _ => 0, 0⟩ _) (by simp) (by simp) hroute
      0xffff800000001234
  exact ⟨v, trace, s', hrun, h32, h254, haddress⟩

end Funderberker

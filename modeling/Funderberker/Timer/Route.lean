import Funderberker.Timer.Lines

/-!
# The route of a timer

The number that a timer takes is translated to an IRQ, and the IRQ to the GSI whose entry is
programmed.  The two translations are inverse where the overrides are of distinct IRQs to
distinct GSIs.

The device raises the line of its route field.  `configure` reads the lines that the timer may
use from the configuration register, and writes the register back with the route that was
there.

## Main definitions

* `offeredLine` — the number that the search of a timer takes.
* `Told` — the route of a configuration is a GSI that the timer may use.

## Main results

* `gsi_irq_inverse` — the two translations.
* `configure_told_iff` — when the device is told of the GSI that has been programmed.
-/

namespace Funderberker

open Panicking
open GateDescriptor (Present)

/-! ## Translations -/

section Translations

variable {overrides : List IrqOverride} {i : ℕ}

/-- Translating to an IRQ and back. -/
theorem irqToGsi_gsiToIrq (h : ProperOverrides overrides) (hi : i < 2 ^ 8) :
    irqToGsi overrides (gsiToIrq overrides (irqToGsi overrides i)) = irqToGsi overrides i := by
  by_cases hirq : ∃ o ∈ overrides, o.irq = i
  · obtain ⟨o, ho, rfl⟩ := hirq
    rw [irqToGsi_of_mem h ho, gsiToIrq_of_mem h ho, irqToGsi_of_mem h ho]
  · have hnot : ∀ o ∈ overrides, o.irq ≠ i := fun o ho heq => hirq ⟨o, ho, heq⟩
    rw [irqToGsi_of_notMem hnot]
    by_cases hgsi : ∃ o ∈ overrides, o.gsi = i
    · obtain ⟨o, ho, rfl⟩ := hgsi
      rw [gsiToIrq_of_mem h ho, irqToGsi_of_mem h ho]
    · have hnot' : ∀ o ∈ overrides, o.gsi ≠ i := fun o ho heq => hgsi ⟨o, ho, heq⟩
      rw [gsiToIrq_of_notMem hnot' hi, irqToGsi_of_notMem hnot]

/-- An IRQ whose GSI no other IRQ has. -/
theorem gsiToIrq_irqToGsi (h : ProperOverrides overrides) (hi : i < 2 ^ 8)
    (halone : ∀ j, j < 2 ^ 8 → j ≠ i → irqToGsi overrides j ≠ irqToGsi overrides i) :
    gsiToIrq overrides (irqToGsi overrides i) = i := by
  by_contra hne
  have hlt : gsiToIrq overrides (irqToGsi overrides i) < 2 ^ 8 := by
    rw [gsiToIrq]
    cases overrides.find? fun o => o.gsi = irqToGsi overrides i with
    | none => exact Nat.mod_lt _ (Nat.two_pow_pos 8)
    | some o => exact o.irq_lt
  exact halone _ hlt hne (irqToGsi_gsiToIrq h hi)

/-- **The translations are inverse.**  The GSI of an IRQ is the GSI of the IRQ that it is
translated to, so that registering that IRQ programs the entry of the GSI; and an IRQ whose
GSI no other has is the IRQ of its GSI. -/
theorem gsi_irq_inverse (h : ProperOverrides overrides) (hi : i < 2 ^ 8) :
    irqToGsi overrides (gsiToIrq overrides (irqToGsi overrides i)) = irqToGsi overrides i ∧
    (∀ (m : Overflow) (cs : BitVec 16) (s : Tables) (isrStub : BitVec 64) (v : Fin 256)
      (k base : ℕ),
      ((List.finRange 256).find? fun v => (s.idt v).present = Present.notPresent.code) = some v →
      Routed m s.ioApics (irqToGsi overrides i) k base →
      ∃ trace s' r low', registerIrq m overrides cs s
          (gsiToIrq overrides (irqToGsi overrides i)) isrStub = .ok (v, trace, s') ∧
        (registers s.ioApics)[k]? = some r ∧
        registers s'.ioApics = (registers s.ioApics).set k
          (Function.update r (entryIndex (irqToGsi overrides i) base) low') ∧
        Retargeted (r (entryIndex (irqToGsi overrides i) base)) low' v) ∧
    ((∀ j, j < 2 ^ 8 → j ≠ i → irqToGsi overrides j ≠ irqToGsi overrides i) →
      gsiToIrq overrides (irqToGsi overrides i) = i) := by
  have hgsi := irqToGsi_gsiToIrq h hi
  refine ⟨hgsi, fun m cs s isrStub v k base hv hroute => ?_, gsiToIrq_irqToGsi h hi⟩
  rw [← hgsi] at hroute
  obtain ⟨trace, s', r, low', hrun, -, -, hr, hregs, hlow, -⟩ :=
    @registerIrq_spec m overrides cs s _ k base isrStub v hv hroute
  rw [hgsi] at hregs hlow
  exact ⟨trace, s', r, low', hrun, hr, hregs, hlow⟩

/-- The timer IRQ is wired to GSI 2, and GSI 0 has no IRQ. -/
theorem timer_irq_inverse :
    gsiToIrq [⟨0, 2, by decide, by decide⟩] 2 = 0 ∧
      irqToGsi [⟨0, 2, by decide, by decide⟩] 2 = 2 ∧
      irqToGsi [⟨0, 2, by decide, by decide⟩]
        (gsiToIrq [⟨0, 2, by decide, by decide⟩] (irqToGsi [⟨0, 2, by decide, by decide⟩] 2)) =
          irqToGsi [⟨0, 2, by decide, by decide⟩] 2 :=
  ⟨rfl, rfl, (gsi_irq_inverse ⟨by decide, by decide⟩ (by decide)).1⟩

end Translations

/-! ## The route -/

namespace TimerConfiguration

variable (c : TimerConfiguration)

/-- The line that the device raises. -/
def intRoute : BitVec 5 := c.extractLsb' 9 5

end TimerConfiguration

/-- The allocator hands out the number. -/
def accepts (m : Overflow) (t : IdTracker) (i : ℕ) : Bool :=
  match allocateIrqAt m t i with
  | .ok (.ok (), _) => true
  | _ => false

/-- The first number below 32 that the timer may use and that the allocator hands out. -/
def offeredLine (m : Overflow) (cap : BitVec 32) (t : IdTracker) : Option ℕ :=
  (List.range' 0 32).find? fun i => cap.getLsbD i && accepts m t i

/-- The device raises the line of the GSI, which the timer may use. -/
structure Told (c : TimerConfiguration) (gsi : ℕ) : Prop where
  route : c.intRoute.toNat = gsi
  capable : c.intRouteCap.getLsbD gsi = true

variable {m : Overflow} {overrides : List IrqOverride} {cs : BitVec 16} {cap : BitVec 32}
  {t t' : IdTracker} {n k i : ℕ}

/-- A number that is refused leaves the allocator. -/
theorem allocateIrqAt_error {e : IdTrackerError} (h : allocateIrqAt m t i = .ok (.error e, t')) :
    t' = t := by
  rw [allocateIrqAt, IdTracker.allocateAt] at h
  obtain ⟨out, -, h⟩ := bind_eq_ok.mp h
  cases out with
  | true =>
      obtain ⟨-, rfl⟩ := Prod.mk.inj (Except.ok.inj h)
      rfl
  | false =>
      obtain ⟨index, -, h⟩ := bind_eq_ok.mp h
      obtain ⟨bit, -, h⟩ := bind_eq_ok.mp h
      obtain ⟨found, -, h⟩ := bind_eq_ok.mp h
      cases found with
      | true =>
          obtain ⟨-, rfl⟩ := Prod.mk.inj (Except.ok.inj h)
          rfl
      | false =>
          obtain ⟨t₁, -, h⟩ := bind_eq_ok.mp h
          cases (Prod.mk.inj (Except.ok.inj h)).1

/-- The search takes the number that is offered, whatever the state of the allocator. -/
theorem findLine_offered (h : findLine m cap k i t = .ok (some n, t')) :
    ((List.range' i k).find? fun i => cap.getLsbD i && accepts m t i) = some n := by
  induction k generalizing i with
  | zero => cases h
  | succ k ih =>
      rw [findLine] at h
      rw [List.range'_succ, List.find?_cons]
      cases hcap : cap.getLsbD i with
      | false =>
          rw [hcap, if_neg Bool.false_ne_true] at h
          rw [Bool.false_and]
          exact ih h
      | true =>
          rw [hcap, if_pos rfl] at h
          obtain ⟨⟨res, t₁⟩, halloc, h⟩ := bind_eq_ok.mp h
          cases res with
          | ok _ =>
              obtain rfl := Option.some.inj (Prod.mk.inj (Except.ok.inj h)).1
              simp only [accepts, halloc, Bool.and_self]
          | error e =>
              have hrest : findLine m cap k (i + 1) t₁ = .ok (some n, t') := h
              rw [allocateIrqAt_error halloc] at hrest
              simp only [accepts, halloc, Bool.and_false]
              exact ih hrest

/-- A timer that is on no legacy branch registers the IRQ of the number that is offered. -/
theorem chooseIrq_offered {mode : InterruptRoutingMode} {id irq : ℕ} (hmode : mode = .normal ∨ 2 ≤ id)
    (h : chooseIrq m overrides mode id cap t = .ok (.ok irq, t')) :
    ∃ n, offeredLine m cap t = some n ∧ irq = gsiToIrq overrides n := by
  have hsearch : chooseIrq m overrides .normal id cap t = .ok (.ok irq, t') := by
    rcases mode with _ | _
    · exact h
    · rcases id with _ | _ | id
      · rcases hmode with hmode | hmode
        · cases hmode
        · omega
      · rcases hmode with hmode | hmode
        · cases hmode
        · omega
      · exact h
  obtain ⟨⟨n?, t₁⟩, hfind, hsearch⟩ := bind_eq_ok.mp hsearch
  cases n? with
  | none => cases (Prod.mk.inj (Except.ok.inj hsearch)).1
  | some n =>
      have hirq := Except.ok.inj (Prod.mk.inj (Except.ok.inj hsearch)).1
      exact ⟨n, findLine_offered hfind, hirq.symm⟩

/-! ## What is written -/

section Fields

variable {w : ℕ} (c : TimerConfiguration) (lo : ℕ) (v : BitVec w)

theorem intRoute_setBits (h : lo + w ≤ 9 ∨ 14 ≤ lo) :
    TimerConfiguration.intRoute (setBits c lo v) = TimerConfiguration.intRoute c := by
  refine BitVec.eq_of_getLsbD_eq fun i hi => ?_
  rw [TimerConfiguration.intRoute, TimerConfiguration.intRoute, BitVec.getLsbD_extractLsb',
    BitVec.getLsbD_extractLsb', getLsbD_setBits _ _ _ (by omega), if_neg (by omega)]

theorem intRouteCap_setBits (h : lo + w ≤ 32) :
    TimerConfiguration.intRouteCap (setBits c lo v) = TimerConfiguration.intRouteCap c := by
  refine BitVec.eq_of_getLsbD_eq fun i hi => ?_
  rw [TimerConfiguration.intRouteCap, TimerConfiguration.intRouteCap, BitVec.getLsbD_extractLsb',
    BitVec.getLsbD_extractLsb', getLsbD_setBits _ _ _ (by omega), if_neg (by omega)]

end Fields

/-- The two fields that say which line is raised are kept. -/
structure SameRoute (c c' : TimerConfiguration) : Prop where
  route : c'.intRoute = c.intRoute
  cap : c'.intRouteCap = c.intRouteCap

theorem SameRoute.trans {c c' c'' : TimerConfiguration} (h : SameRoute c c') (h' : SameRoute c' c'') :
    SameRoute c c'' :=
  ⟨h'.route.trans h.route, h'.cap.trans h.cap⟩

theorem sameRoute_setBits {w : ℕ} (c : TimerConfiguration) (lo : ℕ) (v : BitVec w)
    (h : lo + w ≤ 9 ∨ 14 ≤ lo) (hcap : lo + w ≤ 32) : SameRoute c (setBits c lo v) :=
  ⟨intRoute_setBits c lo v h, intRouteCap_setBits c lo v hcap⟩

namespace TimerConfiguration

variable (c : TimerConfiguration)

theorem sameRoute_setIntType (t : TriggerMode) : SameRoute c (c.setIntType t) := by
  cases t <;> exact sameRoute_setBits c 1 _ (by omega) (by omega)

theorem sameRoute_setTimerType (t : TimerMode) : SameRoute c (c.setTimerType t) := by
  cases t <;> exact sameRoute_setBits c 3 _ (by omega) (by omega)

theorem sameRoute_finish (timerMode : TimerMode) (receive : Bool) :
    SameRoute c (c.finish timerMode receive) := by
  have hsize := sameRoute_setBits c 8 (BitVec.ofBool false) (by omega) (by omega)
  have hmode := hsize.trans (sameRoute_setTimerType _ timerMode)
  have henable := hmode.trans (sameRoute_setBits _ 2 (BitVec.ofBool receive) (by omega) (by omega))
  cases timerMode with
  | oneShot => exact henable
  | periodic => exact henable.trans (sameRoute_setBits _ 6 _ (by omega) (by omega))

end TimerConfiguration

variable {timer : HpetTimer} {s s' : TimerSystem} {time cycles : ℕ} {timerMode : TimerMode}
  {receive : Bool} {isrStub : BitVec 64} {intType : TriggerMode} {irq? : Option ℕ}

/-- What `configure` does for an interrupt: it takes an IRQ, registers it, and writes the
configuration with the route that was there. -/
theorem configure_interrupt
    (h : configure m overrides cs timer s time timerMode receive (.interrupt isrStub intType) =
      .ok (.ok (cycles, irq?), s')) :
    ∃ irq t' v trace, irq? = some irq ∧
      chooseIrq m overrides s.hpet.intRoutingMode timer.id
        (TimerConfiguration.intRouteCap (s.hpet.regs timer.configRegOffset)) s.irqAllocator =
          .ok (.ok irq, t') ∧
      registerIrq m overrides cs s.tables irq isrStub = .ok (v, trace, s'.tables) ∧
      SameRoute (s.hpet.regs timer.configRegOffset) (s'.hpet.regs timer.configRegOffset) := by
  rcases configure_cases h with ⟨_, hres, -⟩ | ⟨_, s₁, hdelivery, ⟨_, -, hres, -⟩ |
    ⟨config, _, _, regs, rfl, hres, rfl, hregs⟩⟩
  · cases hres
  · cases hres
  · obtain ⟨-, rfl⟩ := Prod.mk.inj (Except.ok.inj hres)
    obtain ⟨irq, t', v, trace, rfl, hchoose, hregister, rfl, -, -⟩ :=
      configDeliveryMode_interrupt hdelivery
    have hfsb : SameRoute (s.hpet.regs timer.configRegOffset)
        (TimerConfiguration.setFsbIntEnable (s.hpet.regs timer.configRegOffset) false) :=
      sameRoute_setBits _ 14 _ (by omega) (by omega)
    have htype := hfsb.trans (TimerConfiguration.sameRoute_setIntType _ intType)
    have hwritten := htype.trans (TimerConfiguration.sameRoute_finish _ timerMode receive)
    rw [← hregs] at hwritten
    exact ⟨irq, t', v, trace, rfl, hchoose, hregister, hwritten⟩

/-- **When the device is told.**  A timer on no legacy branch that is configured for interrupts
has the entry of the GSI programmed that the offered number is translated to.  The
configuration that is written has that GSI as its route, and the timer may use it, if and
only if the route was that GSI before and the GSI is one of those that the timer may use. -/
theorem configure_told_iff (hmode : s.hpet.intRoutingMode = .normal ∨ 2 ≤ timer.id)
    (h : configure m overrides cs timer s time timerMode receive (.interrupt isrStub intType) =
      .ok (.ok (cycles, irq?), s')) :
    ∃ n irq v trace, irq? = some irq ∧
      offeredLine m (TimerConfiguration.intRouteCap (s.hpet.regs timer.configRegOffset))
        s.irqAllocator = some n ∧ irq = gsiToIrq overrides n ∧
      registerIrq m overrides cs s.tables irq isrStub = .ok (v, trace, s'.tables) ∧
      (Told (s'.hpet.regs timer.configRegOffset) (irqToGsi overrides irq) ↔
        (TimerConfiguration.intRoute (s.hpet.regs timer.configRegOffset)).toNat =
            irqToGsi overrides (gsiToIrq overrides n) ∧
          (TimerConfiguration.intRouteCap (s.hpet.regs timer.configRegOffset)).getLsbD
            (irqToGsi overrides (gsiToIrq overrides n)) = true) := by
  obtain ⟨irq, t', v, trace, rfl, hchoose, hregister, hroute⟩ := configure_interrupt h
  obtain ⟨n, hoffered, rfl⟩ := chooseIrq_offered hmode hchoose
  refine ⟨n, _, v, trace, rfl, hoffered, rfl, hregister, ?_⟩
  rw [← hroute.route, ← hroute.cap]
  exact ⟨fun htold => ⟨htold.route, htold.capable⟩, fun hwas => ⟨hwas.1, hwas.2⟩⟩

/-- One IO APIC with 24 GSIs, and timers that may use line 2. -/
def lineTwo : TimerSystem := { twoLines with hpet.regs := fun _ => 0x400000000 }

/-- A timer is given line 2. -/
theorem lineTwo_told_iff : ∃ s' n irq v trace,
    configure .checked [] 8 ⟨2, true⟩ lineTwo 1 .oneShot true (.interrupt 0 .edgeTriggered) =
      .ok (.ok (1000000, some irq), s') ∧
    offeredLine .checked (TimerConfiguration.intRouteCap (lineTwo.hpet.regs 0x140))
      lineTwo.irqAllocator = some n ∧ irq = gsiToIrq [] n ∧
    registerIrq .checked [] 8 lineTwo.tables irq 0 = .ok (v, trace, s'.tables) ∧
    (Told (s'.hpet.regs 0x140) (irqToGsi [] irq) ↔
      (TimerConfiguration.intRoute (lineTwo.hpet.regs 0x140)).toNat = irqToGsi [] (gsiToIrq [] n) ∧
        (TimerConfiguration.intRouteCap (lineTwo.hpet.regs 0x140)).getLsbD
          (irqToGsi [] (gsiToIrq [] n)) = true) := by
  obtain ⟨s', hrun⟩ : ∃ s', configure .checked [] 8 ⟨2, true⟩ lineTwo 1 .oneShot true
      (.interrupt 0 .edgeTriggered) = .ok (.ok (1000000, some 2), s') := ⟨_, rfl⟩
  obtain ⟨n, irq, v, trace, hirq, htold⟩ := configure_told_iff (Or.inl rfl) hrun
  rw [hirq] at hrun
  exact ⟨s', n, irq, v, trace, hrun, htold⟩

/-- The entry of GSI 2 is programmed, and the device goes on to raise line 0. -/
theorem lineTwo_not_told : ∃ s' v trace,
    configure .checked [] 8 ⟨2, true⟩ lineTwo 1 .oneShot true (.interrupt 0 .edgeTriggered) =
      .ok (.ok (1000000, some 2), s') ∧
    registerIrq .checked [] 8 lineTwo.tables 2 0 = .ok (v, trace, s'.tables) ∧
    irqToGsi [] 2 = 2 ∧ ¬ Told (s'.hpet.regs 0x140) 2 := by
  refine ⟨_, _, _, rfl, rfl, rfl, fun htold => ?_⟩
  exact absurd htold.route (by decide)

end Funderberker

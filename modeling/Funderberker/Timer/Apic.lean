import Funderberker.Interrupts.LocalApic
import Funderberker.Timer.Hpet

/-!
# The timer of a local APIC

`drivers/src/timer/apic.rs`: the timer counts down from the ticks that it is configured for, at
its base frequency.

The ticks are a million times the frequency divided by the microseconds, where a product was
meant.  The two are equal at a thousand microseconds.

## Main definitions

* `ApicTimer`, `ApicTimer.timeToTicks`, `ApicTimer.configure`.
* `Programmed` — the timer has been told to tick, and is not masked.

## Main results

* `timeToTicks_iff` — when the ticks are the frequency times the microseconds.
* `configure_ticks_iff` — when a timer is configured for them.
-/

namespace Funderberker

open Panicking

/-! ## Division -/

/-- `a / b` of 32-bit numbers.  A zero divisor aborts in every build. -/
def U32.div (a b : ℕ) : Except Panic ℕ :=
  if b = 0 then .error (.explicit "attempt to divide by zero") else .ok (a / b)

theorem U32.div_eq {a b : ℕ} (h : b ≠ 0) : U32.div a b = .ok (a / b) := if_neg h

theorem U32.div_zero (a : ℕ) : U32.div a 0 = .error (.explicit "attempt to divide by zero") :=
  if_pos rfl

/-! ## The driver -/

structure ApicTimer where
  /-- In MHz. -/
  baseFrequency : BitVec 32
  tscDeadlineSupported : Bool
  apicId : BitVec 32

/-- `Duration::as_micros`, of a time in nanoseconds. -/
def asMicros (time : ℕ) : ℕ := time / 1000

namespace ApicTimer

variable (m : Overflow) (timer : ApicTimer)

def timeToTicks (time : ℕ) : Except Panic ℕ := do
  U32.div (← U32.mul m timer.baseFrequency.toNat 1000000) (Usize.asU32 (asMicros time))

/-- Returns the ticks. -/
def configure (s : LocalApics) (time : ℕ) (timerMode : Apic.TimerMode) :
    Except Panic (Except TimerError ℕ × LocalApics) :=
  if timerMode = .reserved ∨ (timerMode = .tsc ∧ timer.tscDeadlineSupported = false) then
    .ok (.error .unsupportedTimerMode, s)
  else do
    let ticks ← timer.timeToTicks m time
    let apic ← s.getApic timer.apicId
    let mmio := apic.configTimer s.mmio (BitVec.ofNat 32 ticks) timerMode
    let mmio := apic.setTimerDisabled mmio false
    .ok (.ok ticks, { s with mmio := mmio })

def setDisabled (s : LocalApics) (disable : Bool) : Except Panic LocalApics := do
  let apic ← s.getApic timer.apicId
  .ok { s with mmio := apic.setTimerDisabled s.mmio disable }

/-- The mode is one that the timer has. -/
def Supports (timerMode : Apic.TimerMode) : Prop :=
  timerMode ≠ .reserved ∧ (timerMode = .tsc → timer.tscDeadlineSupported = true)

end ApicTimer

/-- The local APIC ticks for a count in a mode, and its interrupt is not masked. -/
structure Programmed (a : LocalApic) (mmio : Mmio) (ticks : BitVec 32) (timerMode : Apic.TimerMode) :
    Prop where
  count : a.read mmio TIMER_INITIAL_COUNT = ticks
  mode : (a.read mmio LVT_TIMER).extractLsb' 17 15 = timerMode.code
  unmasked : (a.read mmio LVT_TIMER).extractLsb' 16 1 = 0

/-! ## What is programmed -/

section Device

variable (a : LocalApic) (mmio : Mmio) (ticks : BitVec 32) (timerMode : Apic.TimerMode)

theorem programmed_configTimer :
    Programmed a (a.setTimerDisabled (a.configTimer mmio ticks timerMode) false) ticks timerMode := by
  have hne : TIMER_INITIAL_COUNT ≠ LVT_TIMER := by decide
  have hlvt : a.read (a.configTimer mmio ticks timerMode) LVT_TIMER =
      LvtReg.setReserved2 (a.read mmio LVT_TIMER) timerMode.code := by
    rw [LocalApic.configTimer, LocalApic.write_of_ne _ _ _ hne.symm, LocalApic.write_same]
  refine ⟨?_, ?_, ?_⟩
  · rw [LocalApic.setTimerDisabled, LocalApic.write_of_ne _ _ _ hne, LocalApic.configTimer,
      LocalApic.write_same]
  · rw [LocalApic.setTimerDisabled, LocalApic.write_same, hlvt, LvtReg.setMask, LvtReg.setReserved2,
      extractLsb'_setBits_of_ne _ _ (by omega) (by omega), extractLsb'_setBits _ _ _ (by omega)]
  · rw [LocalApic.setTimerDisabled, LocalApic.write_same, LvtReg.setMask,
      extractLsb'_setBits _ _ _ (by omega)]
    rfl

end Device

variable {m : Overflow} {timer : ApicTimer} {s s' : LocalApics} {time ticks : ℕ}
  {timerMode : Apic.TimerMode} {a : LocalApic}

/-- A supported mode is configured for the ticks of the time. -/
theorem configure_eq (hmode : timer.Supports timerMode) (hapic : s.getApic timer.apicId = .ok a) :
    timer.configure m s time timerMode = (do
      let ticks ← timer.timeToTicks m time
      let mmio := a.configTimer s.mmio (BitVec.ofNat 32 ticks) timerMode
      .ok (.ok ticks, { s with mmio := a.setTimerDisabled mmio false })) := by
  have hnot : ¬ (timerMode = .reserved ∨
      (timerMode = .tsc ∧ timer.tscDeadlineSupported = false)) := by
    rintro (h | ⟨htsc, hfalse⟩)
    · exact hmode.1 h
    · rw [hmode.2 htsc] at hfalse
      cases hfalse
  rw [ApicTimer.configure, if_neg hnot, hapic]
  rfl

/-! ## The ticks of a time -/

/-- The frequency times the microseconds is what the code computes: there is nothing to count;
or the time is a millisecond, and a million times the frequency is in 32 bits; or that number
is not, in a build that does not check, and its low bits happen to be right. -/
def TicksExact (m : Overflow) (f t : ℕ) : Prop :=
  (f = 0 ∧ t % 2 ^ 32 ≠ 0) ∨ (t = 1000 ∧ f * 1000000 < 2 ^ 32) ∨
    (m = .wrapping ∧ 2 ^ 32 ≤ f * 1000000 ∧ 0 < t ∧ f * t * t ≤ f * 1000000 % 2 ^ 32 ∧
      f * 1000000 % 2 ^ 32 < f * t * t + t)

theorem U32.div_eq_ok_iff {a b c : ℕ} : U32.div a b = .ok c ↔ 0 < b ∧ c * b ≤ a ∧ a < c * b + b := by
  rcases Nat.eq_zero_or_pos b with rfl | hpos
  · rw [U32.div_zero]
    exact iff_of_false nofun fun h => absurd h.1 (lt_irrefl 0)
  · rw [U32.div_eq hpos.ne', Except.ok.injEq, Nat.div_eq_iff hpos]
    omega

/-- A million is the square of a thousand. -/
theorem eq_thousand_iff {f t : ℕ} (hf : 0 < f) :
    f * t * t ≤ f * 1000000 ∧ f * 1000000 < f * t * t + t ↔ t = 1000 := by
  constructor
  · rintro ⟨hle, hlt⟩
    rw [Nat.mul_assoc] at hle hlt
    have hsq : t * t ≤ 1000000 := Nat.le_of_mul_le_mul_left hle hf
    have ht : t ≤ 1000 := by
      by_contra hgt
      have := Nat.mul_le_mul (show 1001 ≤ t by omega) (show 1001 ≤ t by omega)
      omega
    by_contra hne
    -- Below a thousand the square is too far from the million.
    have hle' : t * t ≤ 999 * 999 := Nat.mul_le_mul (by omega) (by omega)
    have hgap : f * (t * t) + f * 1999 ≤ f * 1000000 := by
      rw [← Nat.mul_add]
      exact Nat.mul_le_mul_left f (by omega)
    have hmul : 1 * 1999 ≤ f * 1999 := Nat.mul_le_mul_right _ hf
    omega
  · rintro rfl
    omega

/-- **When the ticks are right.** -/
theorem timeToTicks_iff (hfit : timer.baseFrequency.toNat * asMicros time < 2 ^ 32) :
    timer.timeToTicks m time = .ok (timer.baseFrequency.toNat * asMicros time) ↔
      TicksExact m timer.baseFrequency.toNat (asMicros time) := by
  rw [ApicTimer.timeToTicks, Usize.asU32, TicksExact]
  generalize timer.baseFrequency.toNat = f at *
  generalize asMicros time = t at *
  rcases Nat.eq_zero_or_pos f with rfl | hf
  · have hmul : U32.mul m 0 1000000 = .ok 0 := U32.mul_eq (by norm_num)
    rw [hmul, ok_bind, U32.div_eq_ok_iff]
    omega
  · have ht : t < 2 ^ 32 := (Nat.le_mul_of_pos_left t hf).trans_lt hfit
    rw [Nat.mod_eq_of_lt ht]
    by_cases hprod : f * 1000000 < 2 ^ 32
    · rw [U32.mul_eq hprod, ok_bind, U32.div_eq_ok_iff, eq_thousand_iff hf]
      omega
    · rw [U32.mul, Overflow.fit.eq_def, if_neg hprod]
      cases m with
      | checked =>
          refine iff_of_false (fun h => by cases h) ?_
          rintro (⟨hzero, -⟩ | ⟨-, hlt⟩ | ⟨hm, -⟩)
          · omega
          · exact hprod hlt
          · cases hm
      | wrapping =>
          rw [ofOption_some, ok_bind, U32.div_eq_ok_iff]
          constructor
          · exact fun h => Or.inr (Or.inr ⟨rfl, not_lt.mp hprod, h⟩)
          · rintro (⟨hzero, -⟩ | ⟨-, hlt⟩ | ⟨-, -, h⟩)
            · omega
            · exact absurd hlt hprod
            · exact h

/-- **Configuring a timer.**  For a supported mode of a timer whose local APIC is registered,
and a product that is in 32 bits, the timer is programmed for the frequency times the
microseconds, and these ticks are returned, if and only if they are what is computed. -/
theorem configure_ticks_iff (hmode : timer.Supports timerMode)
    (hapic : s.getApic timer.apicId = .ok a)
    (hfit : timer.baseFrequency.toNat * asMicros time < 2 ^ 32) :
    (∃ s', timer.configure m s time timerMode =
        .ok (.ok (timer.baseFrequency.toNat * asMicros time), s') ∧
      Programmed a s'.mmio (BitVec.ofNat 32 (timer.baseFrequency.toNat * asMicros time)) timerMode) ↔
      TicksExact m timer.baseFrequency.toNat (asMicros time) := by
  rw [← timeToTicks_iff hfit, configure_eq hmode hapic]
  constructor
  · rintro ⟨s', hrun, -⟩
    obtain ⟨ticks, hticks, hrun⟩ := bind_eq_ok.mp hrun
    rw [hticks, Except.ok.inj (Prod.mk.inj (Except.ok.inj hrun)).1]
  · intro hticks
    rw [hticks, ok_bind]
    exact ⟨_, rfl, programmed_configTimer a s.mmio _ timerMode⟩

/-- One local APIC, and a timer of 24 MHz. -/
def bspApics : LocalApics := ⟨[⟨0xfee00000, 0, 0⟩], fun _ => 0x10000⟩

def timer24 : ApicTimer := ⟨24, false, 0⟩

/-- A millisecond. -/
theorem millisecond_ticks_iff :
    (∃ s', timer24.configure .checked bspApics 1000000 .oneShot = .ok (.ok 24000, s') ∧
      Programmed ⟨0xfee00000, 0, 0⟩ s'.mmio 24000 .oneShot) ↔ TicksExact .checked 24 1000 :=
  @configure_ticks_iff .checked timer24 bspApics 1000000 .oneShot ⟨0xfee00000, 0, 0⟩
    ⟨nofun, nofun⟩ rfl (by decide)

/-- Ten milliseconds are a tenth of the ticks of one, and less than a microsecond is a division
by zero. -/
theorem ten_milliseconds_ticks :
    timer24.baseFrequency.toNat * asMicros 10000000 = 240000 ∧
      (∃ s', timer24.configure .checked bspApics 10000000 .oneShot = .ok (.ok 2400, s')) ∧
      (¬ ∃ s', timer24.configure .checked bspApics 10000000 .oneShot = .ok (.ok 240000, s')) ∧
      ∃ e, timer24.configure .checked bspApics 0 .oneShot = .error e := by
  have hrun : ∀ time, timer24.configure .checked bspApics time .oneShot = _ := fun time =>
    configure_eq (a := ⟨0xfee00000, 0, 0⟩) ⟨nofun, nofun⟩ rfl
  have hten : timer24.timeToTicks .checked 10000000 = .ok 2400 := by decide
  have hzero : timer24.timeToTicks .checked 0 = .error (.explicit "attempt to divide by zero") := by
    decide
  rw [hrun, hrun, hten, hzero]
  refine ⟨by decide, ⟨_, rfl⟩, ?_, _, rfl⟩
  rintro ⟨s', hrun'⟩
  have hticks := Except.ok.inj (Prod.mk.inj (Except.ok.inj hrun')).1
  omega

end Funderberker

import Funderberker.Timer.Apic
import Funderberker.Timer.Lines

/-!
# The frequency of the timer of a local APIC

`ApicTimer::find_base_frequency` of `drivers/src/timer/apic.rs`.  The frequency is that of a CPUID
leaf, or else it is measured: the timer is started, and when the HPET has counted a second, what
the timer has counted is taken.

The leaf gives the frequency in Hz, and it is returned as it is, where MHz are meant.  The
measurement is made up to the time at which the main counter of the HPET is a second's worth of
cycles, wherever it started.

Both counters run all the time, and the code sees them only at its polls.  Times are femtoseconds
from the start of the timer.

## Main definitions

* `Clocks` — the two counters, and when they are read.
* `startCalibration`, `findBaseFrequency`.
* `Clocks.Right` — a frequency that is right up to one polling step.

## Main results

* `findBaseFrequency_iff` — when the frequency is right.
* `counted_of_offset_zero` — a main counter that starts at zero.
-/

namespace Funderberker

open Panicking

/-- `EBX` and `ECX` of leaf `0x15`. -/
structure CpuidLeaf where
  ebx : BitVec 32
  ecx : BitVec 32

/-- The leaf gives a frequency. -/
def CpuidLeaf.Reports (leaf : CpuidLeaf) : Prop := leaf.ecx ≠ 0 ∧ leaf.ebx ≠ 0

instance (leaf : CpuidLeaf) : Decidable leaf.Reports := inferInstanceAs (Decidable (_ ∧ _))

/-- A second in femtoseconds. -/
def SECOND : ℕ := 10 ^ 15

def U32_MAX : ℕ := 2 ^ 32 - 1

/-- The counters of a local APIC and of the HPET, and the times at which a polling loop reads the
main counter and after it the count of the timer. -/
structure Clocks where
  /-- The frequency of the timer in Hz. -/
  frequency : ℕ
  frequency_lt : frequency < 2 ^ 32
  /-- How long the main counter has been running. -/
  offset : ℕ
  /-- When the timer of the HPET is configured. -/
  configured : ℕ
  poll : ℕ → ℕ
  read : ℕ → ℕ
  poll_le_read : ∀ j, poll j ≤ read j
  read_le_poll : ∀ j, read j ≤ poll (j + 1)
  poll_unbounded : ∀ t, ∃ j, t ≤ poll j

namespace Clocks

variable (c : Clocks)

/-- The main counter at a time. -/
def mainCounter (period t : ℕ) : ℕ := (c.offset + t) / period

/-- What the timer has counted by a time. -/
def counted (t : ℕ) : ℕ := min (c.frequency * t / SECOND) U32_MAX

/-- The timer counts down, and stops at zero. -/
def currentCount (t : ℕ) : ℕ := U32_MAX - c.counted t

/-- The first poll that is not before a time. -/
def firstPoll (t : ℕ) : ℕ := Nat.find (c.poll_unbounded t)

/-- Poll from poll `j` on until the main counter has reached the ticks. -/
def pollGo (period ticks : ℕ) : ℕ → ℕ → Option ℕ
  | 0, _ => none
  | fuel + 1, j =>
      if ticks ≤ c.mainCounter period (c.poll j) then some j else pollGo period ticks fuel (j + 1)

end Clocks

/-! ## The driver -/

section Driver

variable (m : Overflow) (overrides : List IrqOverride) (cs : BitVec 16) (isrStub : BitVec 64)

/-- What the measurement works on. -/
structure Calibration where
  ticks : ℕ
  apic : LocalApic
  timer : HpetTimer
  sys : TimerSystem
  mmio : Mmio

/-- Everything before the loop.  The main counter has gone on until the timer of the HPET is
configured. -/
def startCalibration (c : Clocks) (sys : TimerSystem) (apics : LocalApics) (apicId : BitVec 32) :
    Except Panic Calibration := do
  match ← HpetTimer.new m sys with
  | (.error _, _) => .error .unwrapErr
  | (.ok timer, sys) => do
      let ticks ← sys.hpet.timeToCycles 1000000000
      let apic ← apics.getApic apicId
      let mmio := apic.setTimerDividerConfig apics.mmio .div1
      let mmio := apic.configTimer mmio (BitVec.ofNat 32 U32_MAX) .oneShot
      let mainCounter := BitVec.ofNat 64 (c.mainCounter sys.hpet.mainClockPeriod c.configured)
      let sys := { sys with hpet := sys.hpet.writeReg MAIN_COUNTER_VALUE mainCounter }
      match ← configure m overrides cs timer sys 5000000000000 .oneShot false
          (.interrupt isrStub .edgeTriggered) with
      | (.error _, _) => .error .unwrapErr
      | (.ok _, sys) => .ok ⟨ticks, apic, timer, sys, apic.setTimerDisabled mmio false⟩

/-- The frequency, and the devices after the call.  It is `none` when the fuel is not enough for
the loop. -/
def findBaseFrequency (leaf : CpuidLeaf) (c : Clocks) (sys : TimerSystem) (apics : LocalApics)
    (apicId : BitVec 32) (fuel : ℕ) :
    Option (Except Panic (ℕ × TimerSystem × LocalApics)) :=
  if leaf.Reports then some (.ok (leaf.ecx.toNat, sys, apics))
  else
    match startCalibration m overrides cs isrStub c sys apics apicId with
    | .error e => some (.error e)
    | .ok s =>
        (c.pollGo sys.hpet.mainClockPeriod s.ticks fuel 0).map fun j => do
          let mmio := s.apic.setTimerDisabled s.mmio true
          let sys := s.timer.setDisabled s.sys true
          let ticksDelta ← U32.sub m U32_MAX (c.currentCount (c.read j))
          .ok (ticksDelta / 1000000, sys, { apics with mmio := mmio })

end Driver

/-! ## Counting -/

/-- The cycles of a second, rounded up to whole ones. -/
def secondCycles (period : ℕ) : ℕ := (SECOND + (period - 1)) / period

namespace Clocks

variable (c : Clocks) {period ticks : ℕ}

/-- The frequency in MHz is the one that the leaf gives; or it is measured, from no less than a
second up to the read after the first poll that is not before the last cycle of the second. -/
def Right (leaf : CpuidLeaf) (period v : ℕ) : Prop :=
  if leaf.Reports then v = c.frequency / 1000000
  else c.frequency / 1000000 ≤ v ∧
    v ≤ c.counted (c.read (c.firstPoll (secondCycles period * period))) / 1000000

theorem le_poll_firstPoll (t : ℕ) : t ≤ c.poll (c.firstPoll t) := Nat.find_spec (c.poll_unbounded t)

theorem firstPoll_mono {t t' : ℕ} (h : t ≤ t') : c.firstPoll t ≤ c.firstPoll t' :=
  Nat.find_le (h.trans (c.le_poll_firstPoll t'))

theorem read_mono : Monotone c.read :=
  monotone_nat_of_le_succ fun j => (c.read_le_poll j).trans (c.poll_le_read (j + 1))

theorem counted_mono : Monotone c.counted := fun _ _ h =>
  min_le_min_right _ (Nat.div_le_div_right (Nat.mul_le_mul_left _ h))

/-- The main counter has reached the ticks. -/
theorem le_mainCounter_iff (hperiod : 0 < period) {t : ℕ} :
    ticks ≤ c.mainCounter period t ↔ ticks * period - c.offset ≤ t := by
  rw [mainCounter, Nat.le_div_iff_mul_le hperiod, Nat.sub_le_iff_le_add']

/-- The loop stops at the first poll at which the main counter has reached the ticks. -/
theorem pollGo_eq (hperiod : 0 < period) {j fuel : ℕ}
    (hj : j ≤ c.firstPoll (ticks * period - c.offset)) :
    c.pollGo period ticks fuel j =
      if c.firstPoll (ticks * period - c.offset) < j + fuel then
        some (c.firstPoll (ticks * period - c.offset))
      else none := by
  induction fuel generalizing j with
  | zero => rw [pollGo, if_neg (by omega)]
  | succ fuel ih =>
      rw [pollGo]
      by_cases hreached : ticks ≤ c.mainCounter period (c.poll j)
      · have hstop : c.firstPoll (ticks * period - c.offset) = j :=
          le_antisymm (Nat.find_le ((c.le_mainCounter_iff hperiod).mp hreached)) hj
        rw [if_pos hreached, if_pos (by omega), hstop]
      · have hne : j ≠ c.firstPoll (ticks * period - c.offset) := by
          rintro rfl
          exact hreached ((c.le_mainCounter_iff hperiod).mpr (c.le_poll_firstPoll _))
        rw [if_neg hreached, ih (by omega)]
        congr 1
        rw [Nat.add_right_comm, Nat.add_assoc]

/-- What is left of the count tells what has been counted. -/
theorem sub_currentCount (m : Overflow) (t : ℕ) :
    U32.sub m U32_MAX (c.currentCount t) = .ok (c.counted t) := by
  have hle : c.counted t ≤ U32_MAX := min_le_right _ _
  rw [currentCount, U32.sub_eq (Nat.sub_le _ _), Nat.sub_sub_self hle]

/-- The megahertz are reached when that many million ticks have been counted. -/
theorem le_counted_iff {t : ℕ} : c.frequency / 1000000 ≤ c.counted t / 1000000 ↔
    c.frequency / 1000000 * 1000000 * SECOND ≤ c.frequency * t := by
  have hmax : c.frequency / 1000000 * 1000000 ≤ U32_MAX := by
    have hlt := c.frequency_lt
    rw [U32_MAX]
    omega
  rw [Nat.le_div_iff_mul_le (by norm_num), counted, le_min_iff, and_iff_left hmax,
    Nat.le_div_iff_mul_le (by norm_num [SECOND])]

end Clocks

/-- Adding what is missing rounds up. -/
theorem roundUp_div {a p : ℕ} (hp : 0 < p) :
    (if a % p ≠ 0 then a + (p - a % p) else a) / p = (a + (p - 1)) / p := by
  have hsplit : a / p * p + a % p = a := Nat.div_add_mod' a p
  have hlt := Nat.mod_lt a hp
  have hmul : ∀ k, (k + 1) * p = k * p + p := fun k => Nat.succ_mul k p
  split
  · next hne =>
      have hup : (a + (p - 1)) / p = a / p + 1 :=
        Nat.div_eq_of_lt_le (by rw [hmul]; omega) (by rw [hmul, hmul]; omega)
      rw [hup]
      exact Nat.div_eq_of_lt_le (by rw [hmul]; omega) (by rw [hmul, hmul]; omega)
  · next hzero => exact (Nat.div_eq_of_lt_le (by omega) (by rw [hmul]; omega)).symm

theorem timeToCycles_second {hpet : Hpet} {ticks : ℕ} (h : hpet.timeToCycles 1000000000 = .ok ticks) :
    0 < hpet.mainClockPeriod ∧ ticks = secondCycles hpet.mainClockPeriod := by
  obtain ⟨remainder, hrem, h⟩ := bind_eq_ok.mp h
  rw [Usize.rem] at hrem
  split at hrem
  · cases hrem
  next hperiod =>
  cases hrem
  have hpos := Nat.pos_of_ne_zero hperiod
  have hlt : secondCycles hpet.mainClockPeriod < 2 ^ 64 := by
    refine Nat.div_lt_of_lt_mul ?_
    have hle : SECOND ≤ 10 ^ 15 := Nat.le_refl _
    have := Nat.mul_le_mul_right (2 ^ 64 - 1) hpos
    omega
  dsimp only at h
  rw [roundUp_div hpos] at h
  refine ⟨hpos, ?_⟩
  rw [← Except.ok.inj h, show 1000000000 * NANO_TO_FEMTOSEC = SECOND from rfl]
  exact Nat.mod_eq_of_lt hlt

theorem second_le (period : ℕ) (hperiod : 0 < period) : SECOND ≤ secondCycles period * period := by
  have hlt := Nat.lt_div_mul_add (a := SECOND + (period - 1)) hperiod
  rw [secondCycles]
  omega

/-! ## Both sources -/

section

variable {m : Overflow} {overrides : List IrqOverride} {cs : BitVec 16} {isrStub : BitVec 64}
  {sys : TimerSystem} {apics : LocalApics} {apicId : BitVec 32} {c : Clocks} {s : Calibration}
  {leaf : CpuidLeaf}

theorem new_period {res : Except TimerError HpetTimer} {sys' : TimerSystem}
    (h : HpetTimer.new m sys = .ok (res, sys')) :
    sys'.hpet.mainClockPeriod = sys.hpet.mainClockPeriod := by
  obtain ⟨⟨id, ids⟩, -, h⟩ := bind_eq_ok.mp h
  cases id with
  | error e =>
      cases h
      rfl
  | ok id =>
      cases h
      rfl

/-- The ticks to wait for are those of a second. -/
theorem startCalibration_ticks
    (h : startCalibration m overrides cs isrStub c sys apics apicId = .ok s) :
    0 < sys.hpet.mainClockPeriod ∧ s.ticks = secondCycles sys.hpet.mainClockPeriod := by
  obtain ⟨⟨res, sys₁⟩, hnew, h⟩ := bind_eq_ok.mp h
  have hperiod := new_period hnew
  cases res with
  | error e => cases h
  | ok timer =>
      obtain ⟨ticks, hticks, h⟩ := bind_eq_ok.mp h
      obtain ⟨apic, -, h⟩ := bind_eq_ok.mp h
      obtain ⟨⟨res, sys₂⟩, -, h⟩ := bind_eq_ok.mp h
      cases res with
      | error e => cases h
      | ok x =>
          obtain rfl := Except.ok.inj h
          rw [← hperiod]
          exact timeToCycles_second hticks

theorem findBaseFrequency_of_reports (h : leaf.Reports) (fuel : ℕ) :
    findBaseFrequency m overrides cs isrStub leaf c sys apics apicId fuel =
      some (.ok (leaf.ecx.toNat, sys, apics)) := if_pos h

theorem findBaseFrequency_of_error {e : Panic} (h : ¬ leaf.Reports)
    (hstart : startCalibration m overrides cs isrStub c sys apics apicId = .error e) (fuel : ℕ) :
    findBaseFrequency m overrides cs isrStub leaf c sys apics apicId fuel = some (.error e) := by
  rw [findBaseFrequency, if_neg h, hstart]

/-- The poll at which a measurement ends. -/
def lastPoll (c : Clocks) (period : ℕ) : ℕ := c.firstPoll (secondCycles period * period - c.offset)

/-- A measurement that is started ends, with what has been counted. -/
theorem findBaseFrequency_of_ok (h : ¬ leaf.Reports)
    (hstart : startCalibration m overrides cs isrStub c sys apics apicId = .ok s) (fuel : ℕ) :
    findBaseFrequency m overrides cs isrStub leaf c sys apics apicId fuel =
      if lastPoll c sys.hpet.mainClockPeriod < fuel then
        some (.ok (c.counted (c.read (lastPoll c sys.hpet.mainClockPeriod)) / 1000000,
          s.timer.setDisabled s.sys true,
          { apics with mmio := s.apic.setTimerDisabled s.mmio true }))
      else none := by
  obtain ⟨hperiod, hticks⟩ := startCalibration_ticks hstart
  rw [findBaseFrequency, if_neg h, hstart]
  dsimp only
  rw [c.pollGo_eq hperiod (Nat.zero_le _), hticks, Nat.zero_add, ← lastPoll]
  split
  · rw [Option.map_some, Clocks.sub_currentCount]
    rfl
  · rfl

/-- **When the frequency is right.**  For every frequency of the timer, period of the HPET, and
value of the main counter at the start, when the leaf reports no other frequency: the call returns
the frequency in MHz, up to one polling step, exactly when the leaf reports none, the measurement
can be started, and the timer has counted that many million ticks at the read after the first poll
that sees a second's worth of cycles in the main counter. -/
theorem findBaseFrequency_iff (hleaf : leaf.Reports → leaf.ecx.toNat = c.frequency) :
    (∃ fuel v s', findBaseFrequency m overrides cs isrStub leaf c sys apics apicId fuel =
        some (.ok (v, s')) ∧ c.Right leaf sys.hpet.mainClockPeriod v) ↔
      ¬ leaf.Reports ∧
        (∃ s, startCalibration m overrides cs isrStub c sys apics apicId = .ok s) ∧
        c.frequency / 1000000 * 1000000 * SECOND ≤
          c.frequency * c.read (lastPoll c sys.hpet.mainClockPeriod) := by
  by_cases hreports : leaf.Reports
  · -- a number of Hz that is not zero is not a number of MHz
    refine iff_of_false ?_ fun h => h.1 hreports
    rintro ⟨fuel, v, s', hv, hright⟩
    rw [findBaseFrequency_of_reports hreports] at hv
    obtain ⟨rfl, -⟩ := Prod.mk.inj (Except.ok.inj (Option.some.inj hv))
    have hpos : leaf.ecx.toNat ≠ 0 := fun hzero => hreports.1 (BitVec.eq_of_toNat_eq hzero)
    rw [Clocks.Right, if_pos hreports] at hright
    rw [hleaf hreports] at hpos hright
    omega
  · simp only [Clocks.Right, if_neg hreports]
    cases hstart : startCalibration m overrides cs isrStub c sys apics apicId with
    | error e =>
        refine iff_of_false ?_ fun h => nomatch h.2.1
        rintro ⟨fuel, v, s', hv, -⟩
        rw [findBaseFrequency_of_error hreports hstart] at hv
        cases hv
    | ok s =>
        rw [← c.le_counted_iff]
        constructor
        · rintro ⟨fuel, v, s', hv, hle, -⟩
          rw [findBaseFrequency_of_ok hreports hstart] at hv
          split at hv
          · obtain ⟨rfl, -⟩ := Prod.mk.inj (Except.ok.inj (Option.some.inj hv))
            exact ⟨hreports, ⟨s, rfl⟩, hle⟩
          · cases hv
        · rintro ⟨-, -, hle⟩
          refine ⟨lastPoll c sys.hpet.mainClockPeriod + 1, _, _,
            (findBaseFrequency_of_ok hreports hstart _).trans (if_pos (Nat.lt_succ_self _)),
            hle, ?_⟩
          have hread : c.read (lastPoll c sys.hpet.mainClockPeriod) ≤ c.read (c.firstPoll
              (secondCycles sys.hpet.mainClockPeriod * sys.hpet.mainClockPeriod)) :=
            c.read_mono (c.firstPoll_mono (Nat.sub_le _ _))
          exact Nat.div_le_div_right (c.counted_mono hread)

/-- A main counter that starts at zero is waited for long enough. -/
theorem counted_of_offset_zero (hperiod : 0 < sys.hpet.mainClockPeriod) (hzero : c.offset = 0) :
    c.frequency / 1000000 * 1000000 * SECOND ≤
      c.frequency * c.read (lastPoll c sys.hpet.mainClockPeriod) := by
  refine Nat.mul_le_mul (Nat.div_mul_le_self _ _) ?_
  calc
    SECOND ≤ secondCycles sys.hpet.mainClockPeriod * sys.hpet.mainClockPeriod :=
      second_le _ hperiod
    _ = secondCycles sys.hpet.mainClockPeriod * sys.hpet.mainClockPeriod - c.offset := by
      rw [hzero, Nat.sub_zero]
    _ ≤ c.poll (lastPoll c sys.hpet.mainClockPeriod) := c.le_poll_firstPoll _
    _ ≤ c.read (lastPoll c sys.hpet.mainClockPeriod) := c.poll_le_read _

end

/-! ## One machine -/

/-- A timer of 24 MHz that is polled every millisecond, with a main counter that has been running
for a time. -/
def clocks24 (offset : ℕ) : Clocks where
  frequency := 24000000
  frequency_lt := by norm_num
  offset := offset
  configured := 0
  poll j := j * 10 ^ 12
  read j := j * 10 ^ 12 + 10 ^ 11
  poll_le_read j := Nat.le_add_right _ _
  read_le_poll j := by omega
  poll_unbounded t := ⟨t, Nat.le_mul_of_pos_right t (by norm_num)⟩

/-- An HPET with a period of 100 ns whose timers may use lines 0 and 2. -/
def hpet100 : TimerSystem :=
  { twoLines with
    hpet.mainClockPeriod := 10 ^ 8
    hpet.timerIds := ⟨⟨[0], 3⟩, 0⟩ }

/-- A main counter that starts at zero: the measurement gives 24 MHz. -/
theorem clocks24_right : ∃ fuel v s',
    findBaseFrequency .checked [] 8 0 ⟨0, 0⟩ (clocks24 0) hpet100 bspApics 0 fuel =
      some (.ok (v, s')) ∧ (clocks24 0).Right ⟨0, 0⟩ (10 ^ 8) v := by
  have hnone : ¬ CpuidLeaf.Reports ⟨0, 0⟩ := by decide
  exact (findBaseFrequency_iff fun h => absurd h hnone).mpr
    ⟨hnone, ⟨_, rfl⟩, counted_of_offset_zero (by decide) rfl⟩

/-- **Wrong frequencies.**  The leaf gives 24 million.  And a main counter that has been running
for two seconds ends the measurement at the first poll, with 0 MHz. -/
theorem clocks24_wrong :
    (findBaseFrequency .checked [] 8 0 ⟨1, 24000000⟩ (clocks24 0) hpet100 bspApics 0 1 =
        some (.ok (24000000, hpet100, bspApics)) ∧
      ¬ (clocks24 0).Right ⟨1, 24000000⟩ (10 ^ 8) 24000000) ∧
    ∃ s', findBaseFrequency .checked [] 8 0 ⟨0, 0⟩ (clocks24 (2 * SECOND)) hpet100 bspApics 0 1 =
        some (.ok (0, s')) ∧
      ¬ (clocks24 (2 * SECOND)).Right ⟨0, 0⟩ (10 ^ 8) 0 := by
  have hreports : CpuidLeaf.Reports ⟨1, 24000000⟩ := by decide
  have hnone : ¬ CpuidLeaf.Reports ⟨0, 0⟩ := by decide
  refine ⟨⟨findBaseFrequency_of_reports hreports 1, ?_⟩, _, rfl, ?_⟩
  · rw [Clocks.Right, if_pos hreports]
    decide
  · rw [Clocks.Right, if_neg hnone]
    intro h
    exact absurd h.1 (by decide)

end Funderberker

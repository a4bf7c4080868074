import Funderberker.Timer.Hpet

/-!
# Interrupt lines of the HPET timers

A timer takes a number from the IRQ allocator and has the entry of a GSI programmed.  On the
legacy branch the number is an IRQ, and on the other it is a GSI, which is translated to an
IRQ; `register_irq` then translates the IRQ to the GSI whose entry it programs.  The numbers
of two timers differ, and their GSIs need not: an override that joins IRQ `i` with GSI `g`
sends a timer that took `i` to the entry of the timer that took `g`.

## Main definitions

* `Use` — a number as it was taken, with `Use.line`, the GSI that is programmed for it.
* `Clash` — an override joins two uses.
* `LinesReach` — the timers that have been configured.
* `Clear` — no timer is about to take a number that clashes with one in use.

## Main results

* `Use.line_eq_iff` — two uses share a line if and only if they clash.
* `lines_nodup_iff` — the lines of a run are distinct if and only if it is clear.
-/

namespace Funderberker

open Panicking

/-! ## Overrides -/

/-- Overrides of distinct IRQs to distinct GSIs. -/
structure ProperOverrides (overrides : List IrqOverride) : Prop where
  irqs : (overrides.map IrqOverride.irq).Nodup
  gsis : (overrides.map IrqOverride.gsi).Nodup

section Overrides

variable {overrides : List IrqOverride} {o : IrqOverride} {n : ℕ}

/-- A key that is not repeated finds its element. -/
theorem find?_key {α β : Type} [DecidableEq β] {key : α → β} {l : List α} {a : α}
    (h : (l.map key).Nodup) (ha : a ∈ l) : (l.find? fun b => key b = key a) = some a := by
  cases hfind : l.find? fun b => key b = key a with
  | none =>
      have hnot := List.find?_eq_none.mp hfind a ha
      exact absurd (decide_eq_true rfl) hnot
  | some b =>
      have hkey := List.find?_some hfind
      rw [List.inj_on_of_nodup_map h (List.mem_of_find?_eq_some hfind) ha (of_decide_eq_true hkey)]

theorem irqToGsi_of_mem (h : ProperOverrides overrides) (ho : o ∈ overrides) :
    irqToGsi overrides o.irq = o.gsi := by
  rw [irqToGsi, find?_key h.irqs ho, Option.elim_some]

theorem irqToGsi_of_notMem (hn : ∀ o ∈ overrides, o.irq ≠ n) : irqToGsi overrides n = n := by
  have hfind : (overrides.find? fun o => o.irq = n) = none :=
    List.find?_eq_none.mpr fun o ho => by simpa using hn o ho
  rw [irqToGsi, hfind, Option.elim_none]

theorem gsiToIrq_of_mem (h : ProperOverrides overrides) (ho : o ∈ overrides) :
    gsiToIrq overrides o.gsi = o.irq := by
  rw [gsiToIrq, find?_key h.gsis ho, Option.elim_some]

theorem gsiToIrq_of_notMem (hn : ∀ o ∈ overrides, o.gsi ≠ n) (hlt : n < 2 ^ 8) :
    gsiToIrq overrides n = n := by
  have hfind : (overrides.find? fun o => o.gsi = n) = none :=
    List.find?_eq_none.mpr fun o ho => by simpa using hn o ho
  rw [gsiToIrq, hfind, Option.elim_none, Nat.mod_eq_of_lt hlt]

end Overrides

/-! ## Uses -/

/-- A number that was taken from the allocator, as an IRQ on the legacy branch and as a GSI
otherwise. -/
structure Use where
  legacy : Bool
  number : ℕ
  deriving DecidableEq

namespace Use

variable (overrides : List IrqOverride)

/-- The IRQ that is registered. -/
def irq (u : Use) : ℕ := if u.legacy then u.number else gsiToIrq overrides u.number

/-- The GSI whose entry is programmed. -/
def line (u : Use) : ℕ := irqToGsi overrides (u.irq overrides)

/-- The override sends the use to another number: it is the override of the number as an
IRQ, and on the branch where the number is a GSI no override has that GSI. -/
def MovedBy (u : Use) (o : IrqOverride) : Prop :=
  o ∈ overrides ∧ o.irq = u.number ∧ (u.legacy = false → ∀ o' ∈ overrides, o'.gsi ≠ u.number)

/-- An override joins the number of `u` with that of `u'`. -/
def Joins (u u' : Use) : Prop :=
  ∃ o, u.MovedBy overrides o ∧ o.gsi = u'.number ∧ ∀ o', ¬ u'.MovedBy overrides o'

/-- An override joins the two numbers, in either direction. -/
def Clash (u u' : Use) : Prop := u.Joins overrides u' ∨ u'.Joins overrides u

variable {overrides} {u u' : Use} {o : IrqOverride}

theorem line_of_movedBy (h : ProperOverrides overrides) (hlt : u.number < 2 ^ 8)
    (hmoved : u.MovedBy overrides o) : u.line overrides = o.gsi := by
  obtain ⟨ho, hirq, hgsi⟩ := hmoved
  rw [line, irq]
  split
  case isTrue => rw [← hirq, irqToGsi_of_mem h ho]
  case isFalse hlegacy =>
      rw [gsiToIrq_of_notMem (hgsi (Bool.eq_false_iff.mpr hlegacy)) hlt, ← hirq, irqToGsi_of_mem h ho]

theorem line_of_not_movedBy (h : ProperOverrides overrides) (hlt : u.number < 2 ^ 8)
    (hmoved : ∀ o, ¬ u.MovedBy overrides o) : u.line overrides = u.number := by
  rw [line, irq]
  split
  case isTrue hlegacy =>
      refine irqToGsi_of_notMem fun o ho hirq => hmoved o ⟨ho, hirq, fun hfalse => ?_⟩
      rw [hlegacy] at hfalse
      cases hfalse
  case isFalse =>
      by_cases hgsi : ∃ o ∈ overrides, o.gsi = u.number
      · obtain ⟨o, ho, hgsi⟩ := hgsi
        rw [← hgsi, gsiToIrq_of_mem h ho, irqToGsi_of_mem h ho]
      · simp only [not_exists, not_and] at hgsi
        rw [gsiToIrq_of_notMem hgsi hlt]
        exact irqToGsi_of_notMem fun o ho hirq => hmoved o ⟨ho, hirq, fun _ => hgsi⟩

/-- Only one override can move a use. -/
theorem MovedBy.eq {o' : IrqOverride} (h : ProperOverrides overrides) (ho : u.MovedBy overrides o)
    (ho' : u.MovedBy overrides o') : o = o' :=
  List.inj_on_of_nodup_map h.irqs ho.1 ho'.1 (ho.2.1.trans ho'.2.1.symm)

theorem not_joins (hu : ∀ o, ¬ u.MovedBy overrides o) : ¬ u.Joins overrides u' := by
  rintro ⟨o, ho, -⟩
  exact hu o ho

theorem not_joins_of_movedBy (ho : u'.MovedBy overrides o) : ¬ u.Joins overrides u' := by
  rintro ⟨_, _, _, hnot⟩
  exact hnot o ho

theorem clash_comm : u.Clash overrides u' ↔ u'.Clash overrides u := Or.comm

/-- One of the uses is moved and the other is not. -/
theorem line_eq_iff_of_movedBy (h : ProperOverrides overrides) (hlt : u.number < 2 ^ 8)
    (hlt' : u'.number < 2 ^ 8) (ho : u.MovedBy overrides o)
    (hu' : ∀ o', ¬ u'.MovedBy overrides o') :
    u.line overrides = u'.line overrides ↔ u.Clash overrides u' := by
  rw [line_of_movedBy h hlt ho, line_of_not_movedBy h hlt' hu', Clash, or_iff_left (not_joins hu')]
  constructor
  · exact fun hgsi => ⟨o, ho, hgsi, hu'⟩
  · rintro ⟨o', ho', hgsi, -⟩
    rw [ho.eq h ho', hgsi]

/-- **Lines and overrides.**  Two uses of different numbers share a line if and only if
they clash. -/
theorem line_eq_iff (h : ProperOverrides overrides) (hlt : u.number < 2 ^ 8)
    (hlt' : u'.number < 2 ^ 8) (hne : u.number ≠ u'.number) :
    u.line overrides = u'.line overrides ↔ u.Clash overrides u' := by
  by_cases hu : ∃ o, u.MovedBy overrides o
  · obtain ⟨o, ho⟩ := hu
    by_cases hu' : ∃ o', u'.MovedBy overrides o'
    · obtain ⟨o', ho'⟩ := hu'
      refine iff_of_false (fun heq => ?_)
        (not_or_intro (not_joins_of_movedBy ho') (not_joins_of_movedBy ho))
      -- Both would be moved by the same override, so that their numbers are its IRQ.
      rw [line_of_movedBy h hlt ho, line_of_movedBy h hlt' ho'] at heq
      obtain rfl := List.inj_on_of_nodup_map h.gsis ho.1 ho'.1 heq
      exact hne (ho.2.1.symm.trans ho'.2.1)
    · exact line_eq_iff_of_movedBy h hlt hlt' ho (not_exists.mp hu')
  · rw [not_exists] at hu
    by_cases hu' : ∃ o', u'.MovedBy overrides o'
    · obtain ⟨o', ho'⟩ := hu'
      rw [eq_comm, clash_comm]
      exact line_eq_iff_of_movedBy h hlt' hlt ho' hu
    · rw [not_exists] at hu'
      rw [line_of_not_movedBy h hlt hu, line_of_not_movedBy h hlt' hu']
      exact iff_of_false hne (not_or_intro (not_joins hu) (not_joins hu'))

end Use

/-! ## The number a timer is about to take -/

/-- A number of the allocator that has not been taken. -/
def IsFree (max : ℕ) (taken : List ℕ) (n : ℕ) : Prop := n ≤ max ∧ n ∉ taken

instance (max : ℕ) (taken : List ℕ) (n : ℕ) : Decidable (IsFree max taken n) :=
  inferInstanceAs (Decidable (_ ∧ _))

/-- IRQ 0 or 8 for the first two timers of the legacy mode, and otherwise the first number
below 32 that the timer may use; if it is free. -/
def nextUse (mode : InterruptRoutingMode) (max : ℕ) (id : ℕ) (cap : BitVec 32) (taken : List ℕ) :
    Option Use :=
  match mode, id with
  | .legacy, 0 => if IsFree max taken PIT_IRQ then some ⟨true, PIT_IRQ⟩ else none
  | .legacy, 1 => if IsFree max taken RTC_IRQ then some ⟨true, RTC_IRQ⟩ else none
  | _, _ =>
      ((List.range' 0 32).find? fun i => cap.getLsbD i ∧ IsFree max taken i).map (Use.mk false)

/-- What the timers, given by their ids and the lines that they may use, have taken; the
last one first. -/
def usesOf (mode : InterruptRoutingMode) (max : ℕ) : List (ℕ × BitVec 32) → List Use
  | [] => []
  | (id, cap) :: rest =>
      (nextUse mode max id cap ((usesOf mode max rest).map Use.number)).toList ++
        usesOf mode max rest

/-- No timer was about to take a number that clashes with one in use. -/
def Clear (overrides : List IrqOverride) (mode : InterruptRoutingMode) (max : ℕ) :
    List (ℕ × BitVec 32) → Prop
  | [] => True
  | (id, cap) :: rest => Clear overrides mode max rest ∧
      ∀ u ∈ nextUse mode max id cap ((usesOf mode max rest).map Use.number),
        ∀ u' ∈ usesOf mode max rest, ¬ u.Clash overrides u'

/-! ## Runs -/

/-- A timer that has been configured, with the lines that it may use and the IRQ that was
registered for it. -/
structure Configured where
  id : ℕ
  cap : BitVec 32
  irq : ℕ

/-- The timers that have been configured for interrupts since the IRQ allocator was
initialized, the last one first.  There are `max + 1` GSIs, and the registers of the HPET may change
at any time. -/
inductive LinesReach (m : Overflow) (overrides : List IrqOverride) (cs : BitVec 16)
    (mode : InterruptRoutingMode) (max : ℕ) : List Configured → TimerSystem → Prop
  | start {s : TimerSystem} (hmode : s.hpet.intRoutingMode = mode)
      (hcount : (s.tables.ioApics.map IoApic.gsiCount).sum = max + 1)
      (h : initIrqAllocator m s.tables.ioApics = .ok s.irqAllocator) :
      LinesReach m overrides cs mode max [] s
  | device {log : List Configured} {s : TimerSystem} (regs : ℕ → BitVec 64)
      (hreach : LinesReach m overrides cs mode max log s) :
      LinesReach m overrides cs mode max log { s with hpet.regs := regs }
  | step {log : List Configured} {s s' : TimerSystem} {timer : HpetTimer} {time cycles irq : ℕ}
      {timerMode : TimerMode} {receive : Bool} {isrStub : BitVec 64} {intType : TriggerMode}
      (hreach : LinesReach m overrides cs mode max log s)
      (hrun : configure m overrides cs timer s time timerMode receive (.interrupt isrStub intType) =
        .ok (.ok (cycles, some irq), s')) :
      LinesReach m overrides cs mode max
        (⟨timer.id, TimerConfiguration.intRouteCap (s.hpet.regs timer.configRegOffset), irq⟩ :: log) s'

/-! ## One timer -/

variable {m : Overflow} {overrides : List IrqOverride} {cs : BitVec 16}
  {mode : InterruptRoutingMode} {max : ℕ} {l : List Bool} {t t' : IdTracker} {taken : List ℕ}
  {cap : BitVec 32} {id irq : ℕ}

/-- The sum that the allocator is made for. -/
theorem foldlM_gsiCount (ioApics : List IoApic) (acc : ℕ)
    (h : acc + (ioApics.map IoApic.gsiCount).sum < 2 ^ 64) :
    ioApics.foldlM (fun acc a => Usize.add m acc a.gsiCount) acc =
      .ok (acc + (ioApics.map IoApic.gsiCount).sum) := by
  induction ioApics generalizing acc with
  | nil => rfl
  | cons a ioApics ih =>
      rw [List.map_cons, List.sum_cons, ← Nat.add_assoc] at h ⊢
      rw [List.foldlM_cons, Usize.add_eq (by omega), ok_bind, ih _ h]

theorem initIrqAllocator_eq {ioApics : List IoApic}
    (hcount : (ioApics.map IoApic.gsiCount).sum = max + 1) (hmax : max + 1 < 2 ^ 64) :
    initIrqAllocator m ioApics = IdTracker.new m 0 max := by
  rw [initIrqAllocator, foldlM_gsiCount ioApics 0 (by omega), ok_bind, Nat.zero_add, hcount,
    Usize.sub_eq (by omega), ok_bind, Nat.add_sub_cancel]

/-- Taking a number that may be in use. -/
theorem allocateIrqAt_spec (ht : IdTracker.Tracks 0 max {n | n ∈ taken} l t) (n : ℕ) :
    (IsFree max taken n ∧ ∃ t' l', allocateIrqAt m t n = .ok (.ok (), t') ∧
      IdTracker.Tracks 0 max {n' | n' ∈ n :: taken} l' t') ∨
    (¬ IsFree max taken n ∧ ∃ e, allocateIrqAt m t n = .ok (.error e, t)) := by
  obtain ⟨x, hrun, hx⟩ := IdTracker.allocateAt_spec (m := m) ht n
  rw [allocateIrqAt, hrun]
  cases hx with
  | @ok t' l' _ hhigh hfree ht' =>
      refine Or.inl ⟨⟨hhigh, hfree⟩, t', l', rfl, ?_⟩
      simpa only [List.mem_cons, Set.insert_def, Set.mem_ofPred_eq] using ht'
  | taken hlive => exact Or.inr ⟨fun hfree => hfree.2 hlive, _, rfl⟩
  | invalid hrange => exact Or.inr ⟨fun hfree => hrange ⟨Nat.zero_le n, hfree.1⟩, _, rfl⟩

/-- The search takes the first number that the timer may use and that is free. -/
theorem findLine_spec (m : Overflow) (cap : BitVec 32)
    (ht : IdTracker.Tracks 0 max {n | n ∈ taken} l t) (k i : ℕ) :
    ∃ n? t', findLine m cap k i t = .ok (n?, t') ∧
      n? = (List.range' i k).find? (fun n => cap.getLsbD n ∧ IsFree max taken n) ∧
      ∀ n ∈ n?, ∃ l', IdTracker.Tracks 0 max {n' | n' ∈ n :: taken} l' t' := by
  induction k generalizing i with
  | zero => exact ⟨none, t, rfl, rfl, nofun⟩
  | succ k ih =>
      rw [findLine, List.range'_succ, List.find?_cons]
      cases hcap : cap.getLsbD i with
      | false =>
          obtain ⟨n?, t', hrun, hn?, ht'⟩ := ih (i + 1)
          refine ⟨n?, t', hrun, ?_, ht'⟩
          simpa using hn?
      | true =>
          rcases allocateIrqAt_spec (m := m) ht i with ⟨hfree, t', l', hrun, ht'⟩ | ⟨hfree, e, hrun⟩
          · refine ⟨some i, t', ?_, ?_, ?_⟩
            · rw [if_pos rfl, hrun, ok_bind]
            · simp [hfree]
            · rintro n ⟨⟩
              exact ⟨l', ht'⟩
          · obtain ⟨n?, t', hrun', hn?, ht'⟩ := ih (i + 1)
            refine ⟨n?, t', ?_, ?_, ht'⟩
            · rw [if_pos rfl, hrun, ok_bind]
              exact hrun'
            · simpa [hfree] using hn?

/-- A fixed number of the legacy branch. -/
theorem takeIrq_spec (ht : IdTracker.Tracks 0 max {n | n ∈ taken} l t) {n : ℕ}
    (h : takeIrq m t n = .ok (.ok irq, t')) :
    irq = n ∧ IsFree max taken n ∧ ∃ l', IdTracker.Tracks 0 max {n' | n' ∈ n :: taken} l' t' := by
  rw [takeIrq] at h
  rcases allocateIrqAt_spec (m := m) ht n with ⟨hfree, t₁, l', hrun, ht'⟩ | ⟨-, e, hrun⟩
  · rw [hrun, ok_bind] at h
    obtain ⟨hirq, rfl⟩ := Prod.mk.inj (Except.ok.inj h)
    exact ⟨(Except.ok.inj hirq).symm, hfree, l', ht'⟩
  · rw [hrun, ok_bind] at h
    cases (Prod.mk.inj (Except.ok.inj h)).1

/-- The search of a timer that is on no legacy branch. -/
theorem searchIrq_spec (ht : IdTracker.Tracks 0 max {n | n ∈ taken} l t)
    (h : (do
      match ← findLine m cap 32 0 t with
      | (some gsi, t) => .ok (.ok (gsiToIrq overrides gsi), t)
      | (none, t) => .ok (.error .irqError, t) : Except Panic (Except TimerError ℕ × IdTracker)) =
        .ok (.ok irq, t')) :
    ∃ n, ((List.range' 0 32).find? fun i => cap.getLsbD i ∧ IsFree max taken i) = some n ∧
      gsiToIrq overrides n = irq ∧ ∃ l', IdTracker.Tracks 0 max {n' | n' ∈ n :: taken} l' t' := by
  obtain ⟨n?, t₁, hrun, hn?, ht'⟩ := findLine_spec m cap ht 32 0
  rw [hrun, ok_bind] at h
  cases n? with
  | none => cases (Prod.mk.inj (Except.ok.inj h)).1
  | some n =>
      obtain ⟨hirq, rfl⟩ := Prod.mk.inj (Except.ok.inj h)
      exact ⟨n, hn?.symm, Except.ok.inj hirq, ht' n rfl⟩

/-- The IRQ that is chosen is that of the number the timer was about to take. -/
theorem chooseIrq_spec (ht : IdTracker.Tracks 0 max {n | n ∈ taken} l t)
    (h : chooseIrq m overrides mode id cap t = .ok (.ok irq, t')) :
    ∃ u l', nextUse mode max id cap taken = some u ∧ u.irq overrides = irq ∧
      IdTracker.Tracks 0 max {n | n ∈ u.number :: taken} l' t' := by
  have hsearch : (∃ n, ((List.range' 0 32).find? fun i => cap.getLsbD i ∧ IsFree max taken i) = some n ∧
      gsiToIrq overrides n = irq ∧ ∃ l', IdTracker.Tracks 0 max {n' | n' ∈ n :: taken} l' t') →
      ∃ u l', ((List.range' 0 32).find? fun i => cap.getLsbD i ∧ IsFree max taken i).map
          (Use.mk false) = some u ∧ u.irq overrides = irq ∧
        IdTracker.Tracks 0 max {n | n ∈ u.number :: taken} l' t' := by
    rintro ⟨n, hfind, hirq, l', ht'⟩
    exact ⟨⟨false, n⟩, l', by rw [hfind, Option.map_some], hirq, ht'⟩
  rcases mode with _ | _
  · exact hsearch (searchIrq_spec ht h)
  · rcases id with _ | _ | id
    · obtain ⟨rfl, hfree, l', ht'⟩ := takeIrq_spec ht h
      exact ⟨⟨true, PIT_IRQ⟩, l', if_pos hfree, rfl, ht'⟩
    · obtain ⟨rfl, hfree, l', ht'⟩ := takeIrq_spec ht h
      exact ⟨⟨true, RTC_IRQ⟩, l', if_pos hfree, rfl, ht'⟩
    · exact hsearch (searchIrq_spec ht h)

/-- What is taken is free, and one of the first 32 numbers. -/
theorem nextUse_spec {u : Use} (h : nextUse mode max id cap taken = some u) :
    u.number < 32 ∧ u.number ∉ taken := by
  rw [nextUse.eq_def] at h
  split at h
  · split at h
    case isTrue hfree =>
        obtain rfl := Option.some.inj h
        exact ⟨by decide, hfree.2⟩
    case isFalse => cases h
  · split at h
    case isTrue hfree =>
        obtain rfl := Option.some.inj h
        exact ⟨by decide, hfree.2⟩
    case isFalse => cases h
  · obtain ⟨n, hfind, rfl⟩ := Option.map_eq_some_iff.mp h
    have hmem := List.mem_range'_1.mp (List.mem_of_find?_eq_some hfind)
    have hfree := List.find?_some hfind
    exact ⟨by simpa using hmem, (of_decide_eq_true hfree).2.2⟩

theorem usesOf_lt (inputs : List (ℕ × BitVec 32)) :
    ∀ u ∈ usesOf mode max inputs, u.number < 32 := by
  induction inputs with
  | nil => exact fun u hu => absurd hu List.not_mem_nil
  | cons x rest ih =>
      obtain ⟨id, cap⟩ := x
      intro u hu
      rw [usesOf, List.mem_append, Option.mem_toList] at hu
      rcases hu with hu | hu
      · exact (nextUse_spec hu).1
      · exact ih u hu

theorem usesOf_cons {u : Use} {rest : List (ℕ × BitVec 32)}
    (h : nextUse mode max id cap ((usesOf mode max rest).map Use.number) = some u) :
    usesOf mode max ((id, cap) :: rest) = u :: usesOf mode max rest := by
  rw [usesOf, h]
  rfl

/-- Configuring a timer for interrupts takes a line. -/
theorem configure_line {s s' : TimerSystem} {timer : HpetTimer} {time cycles : ℕ}
    {timerMode : TimerMode} {receive : Bool} {isrStub : BitVec 64} {intType : TriggerMode}
    (h : configure m overrides cs timer s time timerMode receive (.interrupt isrStub intType) =
      .ok (.ok (cycles, some irq), s')) :
    chooseIrq m overrides s.hpet.intRoutingMode timer.id
        (TimerConfiguration.intRouteCap (s.hpet.regs timer.configRegOffset)) s.irqAllocator =
      .ok (.ok irq, s'.irqAllocator) ∧ s'.hpet.intRoutingMode = s.hpet.intRoutingMode := by
  rcases configure_cases h with ⟨_, hres, -⟩ | ⟨_, s₁, hdelivery, ⟨_, -, hres, -⟩ |
    ⟨config, _, _, regs, rfl, hres, rfl, -⟩⟩
  · cases hres
  · cases hres
  · obtain ⟨-, rfl⟩ := Prod.mk.inj (Except.ok.inj hres)
    obtain ⟨irq', t, v, trace, hirq, hchoose, -, -, hhpet, rfl⟩ :=
      configDeliveryMode_interrupt hdelivery
    obtain rfl := Option.some.inj hirq
    have hmode : s₁.hpet.intRoutingMode = s.hpet.intRoutingMode := by rw [hhpet]
    exact ⟨hchoose, hmode⟩

/-! ## Every run -/

/-- What a call is given: the timer's id and the lines that it may use. -/
def Configured.input (c : Configured) : ℕ × BitVec 32 := (c.id, c.cap)

variable {log : List Configured} {s : TimerSystem}

/-- The allocator holds the numbers in use, and the IRQs are those of the uses. -/
structure LinesInv (overrides : List IrqOverride) (mode : InterruptRoutingMode) (max : ℕ)
    (log : List Configured) (s : TimerSystem) : Prop where
  routing : s.hpet.intRoutingMode = mode
  tracks : ∃ l, IdTracker.Tracks 0 max
    {n | n ∈ (usesOf mode max (log.map Configured.input)).map Use.number} l s.irqAllocator
  irqs : (usesOf mode max (log.map Configured.input)).map (Use.irq overrides) =
    log.map Configured.irq
  lt : ∀ u ∈ usesOf mode max (log.map Configured.input), u.number < 32

theorem LinesReach.inv (hmax : max + 1 < 2 ^ 64)
    (hreach : LinesReach m overrides cs mode max log s) : LinesInv overrides mode max log s := by
  induction hreach with
  | start hmode hcount h =>
      rw [initIrqAllocator_eq hcount hmax] at h
      obtain ⟨t, hnew, ht⟩ := IdTracker.Tracks.new (m := m) (Nat.zero_le max) (by omega)
      obtain rfl := Except.ok.inj (h.symm.trans hnew)
      refine ⟨hmode, ⟨List.replicate (max + 1) false, ?_⟩, rfl, usesOf_lt _⟩
      simpa [usesOf] using ht
  | device regs _ ih => exact ⟨ih.routing, ih.tracks, ih.irqs, ih.lt⟩
  | step _ hrun ih =>
      obtain ⟨l, ht⟩ := ih.tracks
      obtain ⟨hchoose, hmode⟩ := configure_line hrun
      rw [ih.routing] at hchoose
      obtain ⟨u, l', hnext, hirq, ht'⟩ := chooseIrq_spec ht hchoose
      have huses := usesOf_cons hnext
      refine ⟨hmode.trans ih.routing, ⟨l', ?_⟩, ?_, usesOf_lt _⟩
      · rw [List.map_cons, Configured.input, huses]
        exact ht'
      · rw [List.map_cons, Configured.input, huses, List.map_cons, List.map_cons, hirq, ih.irqs]

/-- The lines of the uses are distinct if and only if no use was about to clash. -/
theorem nodup_lines_iff (h : ProperOverrides overrides) (inputs : List (ℕ × BitVec 32)) :
    ((usesOf mode max inputs).map (Use.line overrides)).Nodup ↔
      Clear overrides mode max inputs := by
  induction inputs with
  | nil => exact iff_of_true List.nodup_nil trivial
  | cons x rest ih =>
      obtain ⟨id, cap⟩ := x
      rw [usesOf, Clear]
      cases hnext : nextUse mode max id cap ((usesOf mode max rest).map Use.number) with
      | none =>
          rw [Option.toList_none, List.nil_append]
          exact ih.trans (and_iff_left nofun).symm
      | some u =>
          obtain ⟨hlt, hnew⟩ := nextUse_spec hnext
          have hiff : ∀ u' ∈ usesOf mode max rest,
              (u.line overrides = u'.line overrides ↔ u.Clash overrides u') := by
            intro u' hu'
            have hlt' := usesOf_lt rest u' hu'
            refine Use.line_eq_iff h (by omega) (by omega) fun heq => hnew ?_
            exact List.mem_map.mpr ⟨u', hu', heq.symm⟩
          rw [Option.toList_some, List.singleton_append, List.map_cons, List.nodup_cons, and_comm]
          refine and_congr ih ?_
          constructor
          · rintro hline v ⟨⟩ u' hu' hclash
            exact hline (List.mem_map.mpr ⟨u', hu', ((hiff u' hu').mpr hclash).symm⟩)
          · intro hclear hmem
            obtain ⟨u', hu', hline⟩ := List.mem_map.mp hmem
            exact hclear u rfl u' hu' ((hiff u' hu').mp hline.symm)

/-- **When timers share no line.**  For overrides of distinct IRQs to distinct GSIs, the GSIs
whose entries are programmed for the timers of a run are distinct if and only if no timer was
about to take a number that an override joins with a number in use. -/
theorem lines_nodup_iff (h : ProperOverrides overrides) (hmax : max + 1 < 2 ^ 64)
    (hreach : LinesReach m overrides cs mode max log s) :
    (log.map fun c => irqToGsi overrides c.irq).Nodup ↔
      Clear overrides mode max (log.map Configured.input) := by
  rw [← nodup_lines_iff h]
  have hlines : (log.map fun c => irqToGsi overrides c.irq) =
      (usesOf mode max (log.map Configured.input)).map (Use.line overrides) := by
    have hirqs := congrArg (List.map (irqToGsi overrides)) (hreach.inv hmax).irqs
    rw [List.map_map, List.map_map] at hirqs
    exact hirqs.symm
  rw [hlines]

/-- One IO APIC with 24 GSIs, and timers that may use lines 0 and 2. -/
def twoLines : TimerSystem :=
  ⟨⟨fun _ => 0x500000000, 1, IdTracker.uninit, .normal⟩, ⟨⟨[0, 0, 0], 24⟩, 0⟩,
    ⟨Idt.init 8 ⟨fun _ => 0, 0⟩, [⟨0, fun _ => 0x10000, 0, 24, by decide⟩]⟩⟩

/-- With the timer IRQ wired to GSI 2, the timer that takes line 0 and the one that takes
line 2 have the same entry programmed. -/
theorem timers_share_line : ∃ log s,
    LinesReach .checked [⟨0, 2, by decide, by decide⟩] 8 .normal 23 log s ∧
      (log.map fun c => irqToGsi [⟨0, 2, by decide, by decide⟩] c.irq) = [2, 2] := by
  have hstart : LinesReach .checked [⟨0, 2, by decide, by decide⟩] 8 .normal 23 [] twoLines :=
    .start rfl rfl rfl
  have hfirst := @LinesReach.step _ _ _ _ _ _ _ _ ⟨0, true⟩ 1 _ _ .oneShot true 0 .edgeTriggered hstart rfl
  have hsecond := @LinesReach.step _ _ _ _ _ _ _ _ ⟨1, true⟩ 1 _ _ .oneShot true 0 .edgeTriggered hfirst rfl
  exact ⟨_, _, hsecond, rfl⟩

/-- Without overrides the two timers have two lines. -/
theorem two_lines_nodup_iff : ∃ log s, LinesReach .checked [] 8 .normal 23 log s ∧
    (log.map fun c => irqToGsi [] c.irq) = [2, 0] ∧
    ((log.map fun c => irqToGsi [] c.irq).Nodup ↔
      Clear [] .normal 23 (log.map Configured.input)) := by
  have hstart : LinesReach .checked [] 8 .normal 23 [] twoLines := .start rfl rfl rfl
  have hfirst := @LinesReach.step _ _ _ _ _ _ _ _ ⟨0, true⟩ 1 _ _ .oneShot true 0 .edgeTriggered hstart rfl
  have hsecond := @LinesReach.step _ _ _ _ _ _ _ _ ⟨1, true⟩ 1 _ _ .oneShot true 0 .edgeTriggered hfirst rfl
  exact ⟨_, _, hsecond, rfl,
    lines_nodup_iff ⟨List.nodup_nil, List.nodup_nil⟩ (by omega) hsecond⟩

end Funderberker

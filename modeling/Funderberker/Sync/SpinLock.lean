import Mathlib.Logic.Function.Basic
import Mathlib.Logic.Relation
import Mathlib.Tactic.Set

/-!
# The spin lock

`lock` swaps the flag for `true` until it finds `false`, and dropping the guard runs the data's own
clean-up and then stores `false`.  Between the two a thread works on the data, in as many accesses
as it likes, and any other thread may take its steps between any two of them.

All the same every call looks as if it had happened at once.  The order is that in which the guards
are dropped: a call that has not returned has not happened, whatever it has done to the data.

## Main definitions

* `SpinLock`, with `swap` and `unlock` — the code.
* `Threads`, `ThreadStep` — threads around one lock.
* `AtomicStep` — calls that happen at once.
* `Simulates` — how the two hang together.

## Main results

* `spin_lock_atomic` — a thread is alone with the data, and calls happen at once.
-/

namespace Funderberker

/-! ## The code -/

/-- Data behind a spin lock may want to run some code before the lock is released. -/
class SpinLockable (T : Type) where
  customUnlock : T → T := id

structure SpinLock (T : Type) where
  lock : Bool
  data : T

namespace SpinLock

variable {T : Type}

def new (data : T) : SpinLock T := ⟨false, data⟩

/-- The swap in `lock`, with what it returns. -/
def swap (s : SpinLock T) : Bool × SpinLock T := (s.lock, { s with lock := true })

/-- What is written through the guard. -/
def write (s : SpinLock T) (data : T) : SpinLock T := { s with data := data }

def unlock (s : SpinLock T) : SpinLock T := { s with lock := false }

end SpinLock

/-! ## Threads -/

variable {ι L T : Type}

/-- One access to the data through the guard, with what the thread keeps.  It may panic. -/
abbrev Access (L T : Type) := L × T → Option (L × T)

/-- The accesses of a call, one after another. -/
def runAll : List (Access L T) → L × T → Option (L × T)
  | [], x => some x
  | f :: fs, x => (f x).bind (runAll fs)

/-- Where a thread is. -/
inductive Control (L T : Type)
  | outside
  | spinning (body : List (Access L T))
  /-- The guard is there, and some accesses are left. -/
  | inside (rest : List (Access L T))
  /-- The clean-up is done, and the flag is still up. -/
  | leaving

namespace Control

/-- The thread is working on the data. -/
def Inside : Control L T → Prop
  | inside _ => True
  | _ => False

/-- The thread has put up the flag. -/
def Holds : Control L T → Prop
  | inside _ => True
  | leaving => True
  | _ => False

theorem Inside.holds {c : Control L T} (h : c.Inside) : c.Holds := by
  cases c <;> trivial

end Control

structure Threads (ι L T : Type) where
  lock : SpinLock T
  control : ι → Control L T
  kept : ι → L

/-- Nobody has called yet. -/
def Threads.start (data : T) (kept : ι → L) : Threads ι L T := ⟨.new data, fun _ => .outside, kept⟩

variable [DecidableEq ι] [SpinLockable T]

/-- A step of one thread.  Thread `i` makes the calls `calls i`, in any order. -/
inductive ThreadStep (calls : ι → Set (List (Access L T))) (s : Threads ι L T) :
    Threads ι L T → Prop
  | call {i : ι} {body : List (Access L T)} (h : s.control i = .outside) (hbody : body ∈ calls i) :
      ThreadStep calls s { s with control := Function.update s.control i (.spinning body) }
  | swap {i : ι} {body : List (Access L T)} (h : s.control i = .spinning body) :
      ThreadStep calls s { s with
        lock := s.lock.swap.2
        control :=
          if s.lock.swap.1 then s.control else Function.update s.control i (.inside body) }
  | access {i : ι} {f : Access L T} {rest : List (Access L T)} {l : L} {t : T}
      (h : s.control i = .inside (f :: rest)) (hrun : f (s.kept i, s.lock.data) = some (l, t)) :
      ThreadStep calls s { s with
        lock := s.lock.write t
        control := Function.update s.control i (.inside rest)
        kept := Function.update s.kept i l }
  | drop {i : ι} (h : s.control i = .inside []) :
      ThreadStep calls s { s with
        lock := s.lock.write (SpinLockable.customUnlock s.lock.data)
        control := Function.update s.control i .leaving }
  | unlock {i : ι} (h : s.control i = .leaving) :
      ThreadStep calls s { s with
        lock := s.lock.unlock
        control := Function.update s.control i .outside }

/-- A whole call at once. -/
inductive AtomicStep (calls : ι → Set (List (Access L T))) (a : (ι → L) × T) : (ι → L) × T → Prop
  | call {i : ι} {body : List (Access L T)} {l : L} {t : T} (hbody : body ∈ calls i)
      (hrun : runAll body (a.1 i, a.2) = some (l, t)) :
      AtomicStep calls a (Function.update a.1 i l, SpinLockable.customUnlock t)

/-! ## The simulation -/

section

variable {ι L T : Type} {calls : ι → Set (List (Access L T))} {s : Threads ι L T}
  {a : (ι → L) × T} {i j : ι}

/-- The threads are where they would be if the calls that returned had happened at once.  A thread
that works on the data has done the first part of its call. -/
structure Simulates (calls : ι → Set (List (Access L T))) (s : Threads ι L T) (a : (ι → L) × T) :
    Prop where
  lock_iff : s.lock.lock = true ↔ ∃ i, (s.control i).Holds
  unique : ∀ i j, (s.control i).Holds → (s.control j).Holds → i = j
  waiting : ∀ i body, s.control i = .spinning body → body ∈ calls i
  kept : ∀ i, ¬ (s.control i).Inside → s.kept i = a.1 i
  data : (∀ i, ¬ (s.control i).Inside) → s.lock.data = a.2
  part : ∀ i rest, s.control i = .inside rest → ∃ done, done ++ rest ∈ calls i ∧
    runAll done (a.1 i, a.2) = some (s.kept i, s.lock.data)

theorem runAll_append (fs gs : List (Access L T)) (x : L × T) :
    runAll (fs ++ gs) x = (runAll fs x).bind (runAll gs) := by
  induction fs generalizing x with
  | nil => rfl
  | cons f fs ih =>
      rw [List.cons_append, runAll, runAll, Option.bind_assoc]
      exact congrArg _ (funext ih)

theorem simulates_start (calls : ι → Set (List (Access L T))) (data : T) (kept : ι → L) :
    Simulates calls (.start data kept) (kept, data) where
  lock_iff := ⟨nofun, fun h => h.elim fun _ hi => hi.elim⟩
  unique _ _ h := h.elim
  waiting _ _ h := by cases h
  kept _ _ := rfl
  data _ := rfl
  part _ _ h := by cases h

/-- Beside a thread that has put up the flag no other works on the data. -/
theorem Simulates.alone (h : Simulates calls s a) (hi : (s.control i).Holds)
    (hj : (s.control j).Inside) : j = i :=
  h.unique j i hj.holds hi

theorem Simulates.nobody (h : Simulates calls s a) (hlock : s.lock.lock = false) (i : ι) :
    ¬ (s.control i).Holds := by
  intro hi
  rw [h.lock_iff.mpr ⟨i, hi⟩] at hlock
  cases hlock

/-- A thread that finds the flag up keeps waiting. -/
theorem Simulates.wait (h : Simulates calls s a) (hlock : s.lock.lock = true) :
    Simulates calls { s with lock := s.lock.swap.2 } a := by
  have hsame : s.lock.swap.2 = s.lock := by
    rw [SpinLock.swap, ← hlock]
  rw [hsame]
  exact h

variable [DecidableEq ι] {c : ι → Control L T} {x : Control L T}

theorem update_cases {y : Control L T} (h : Function.update c i x j = y) :
    j = i ∧ x = y ∨ j ≠ i ∧ c j = y := by
  by_cases hj : j = i
  · subst hj
    rw [Function.update_self] at h
    exact Or.inl ⟨rfl, h⟩
  · rw [Function.update_of_ne hj] at h
    exact Or.inr ⟨hj, h⟩

theorem holds_update_iff (h : x.Holds ↔ (c i).Holds) :
    (Function.update c i x j).Holds ↔ (c j).Holds := by
  by_cases hj : j = i
  · subst hj
    rw [Function.update_self, h]
  · rw [Function.update_of_ne hj]

theorem inside_update_iff (h : x.Inside ↔ (c i).Inside) :
    (Function.update c i x j).Inside ↔ (c j).Inside := by
  by_cases hj : j = i
  · subst hj
    rw [Function.update_self, h]
  · rw [Function.update_of_ne hj]

/-- A thread that calls. -/
theorem Simulates.call (h : Simulates calls s a) {body : List (Access L T)}
    (hout : s.control i = .outside) (hbody : body ∈ calls i) :
    Simulates calls { s with control := Function.update s.control i (.spinning body) } a := by
  have hholds : ∀ j, (Function.update s.control i (.spinning body) j).Holds ↔
      (s.control j).Holds := fun j => holds_update_iff (by rw [hout]; rfl)
  have hinside : ∀ j, (Function.update s.control i (.spinning body) j).Inside ↔
      (s.control j).Inside := fun j => inside_update_iff (by rw [hout]; rfl)
  refine ⟨?_, ?_, ?_, ?_, ?_, ?_⟩
  · exact h.lock_iff.trans (exists_congr fun j => (hholds j).symm)
  · exact fun j k hj hk => h.unique j k ((hholds j).mp hj) ((hholds k).mp hk)
  · intro j body' hj
    obtain ⟨rfl, heq⟩ | ⟨-, hj⟩ := update_cases hj
    · cases heq
      exact hbody
    · exact h.waiting j body' hj
  · exact fun j hj => h.kept j ((hinside j).not.mp hj)
  · exact fun hall => h.data fun j => (hinside j).not.mp (hall j)
  · intro j rest hj
    obtain ⟨-, heq⟩ | ⟨-, hj⟩ := update_cases hj
    · cases heq
    · exact h.part j rest hj

/-- A thread that finds it down works on what the last one left. -/
theorem Simulates.enter (h : Simulates calls s a) {body : List (Access L T)}
    (hspin : s.control i = .spinning body) (hlock : s.lock.lock = false) :
    Simulates calls { s with
      lock := s.lock.swap.2
      control := Function.update s.control i (.inside body) } a := by
  have hnobody := h.nobody hlock
  have hothers : ∀ j, (Function.update s.control i (.inside body) j).Holds → j = i := by
    intro j hj
    by_contra hji
    rw [Function.update_of_ne hji] at hj
    exact hnobody j hj
  have hself : (Function.update s.control i (.inside body) i).Inside := by
    rw [Function.update_self]
    trivial
  have hout : ¬ (s.control i).Inside := fun hi => hnobody i hi.holds
  refine ⟨?_, ?_, ?_, ?_, ?_, ?_⟩
  · exact iff_of_true rfl ⟨i, hself.holds⟩
  · exact fun j k hj hk => (hothers j hj).trans (hothers k hk).symm
  · intro j body' hj
    obtain ⟨-, heq⟩ | ⟨-, hj⟩ := update_cases hj
    · cases heq
    · exact h.waiting j body' hj
  · exact fun j _ => h.kept j fun hj => hnobody j hj.holds
  · exact fun hall => absurd hself (hall i)
  · intro j rest hj
    obtain ⟨rfl, heq⟩ | ⟨-, hj⟩ := update_cases hj
    case inr => exact absurd (show (s.control j).Holds by rw [hj]; trivial) (hnobody j)
    cases heq
    refine ⟨[], h.waiting j body hspin, ?_⟩
    rw [runAll, ← h.kept j hout, ← h.data fun k hk => hnobody k hk.holds]
    rfl

/-- A thread that works on the data goes on with its call. -/
theorem Simulates.access (h : Simulates calls s a) {f : Access L T} {rest : List (Access L T)}
    {l : L} {t : T} (hin : s.control i = .inside (f :: rest))
    (hrun : f (s.kept i, s.lock.data) = some (l, t)) :
    Simulates calls { s with
      lock := s.lock.write t
      control := Function.update s.control i (.inside rest)
      kept := Function.update s.kept i l } a := by
  have hi : (s.control i).Inside := by
    rw [hin]
    trivial
  have hholds : ∀ j, (Function.update s.control i (.inside rest) j).Holds ↔
      (s.control j).Holds := fun j => holds_update_iff (by rw [hin]; rfl)
  have hinside : ∀ j, (Function.update s.control i (.inside rest) j).Inside ↔
      (s.control j).Inside := fun j => inside_update_iff (by rw [hin]; rfl)
  refine ⟨?_, ?_, ?_, ?_, ?_, ?_⟩
  · exact h.lock_iff.trans (exists_congr fun j => (hholds j).symm)
  · exact fun j k hj hk => h.unique j k ((hholds j).mp hj) ((hholds k).mp hk)
  · intro j body' hj
    obtain ⟨-, heq⟩ | ⟨-, hj⟩ := update_cases hj
    · cases heq
    · exact h.waiting j body' hj
  · intro j hj
    have hji : j ≠ i := by
      rintro rfl
      exact hj ((hinside j).mpr hi)
    exact (Function.update_of_ne hji _ _).trans (h.kept j ((hinside j).not.mp hj))
  · exact fun hall => absurd ((hinside i).mpr hi) (hall i)
  · intro j rest' hj
    obtain ⟨rfl, heq⟩ | ⟨hji, hj⟩ := update_cases hj
    case inr => exact absurd (h.alone hi.holds (by rw [hj]; trivial)) hji
    cases heq
    obtain ⟨done, hmem, hdone⟩ := h.part j _ hin
    refine ⟨done ++ [f], ?_, ?_⟩
    · rw [List.append_assoc]
      exact hmem
    · dsimp only
      rw [runAll_append, hdone, Function.update_self]
      exact congrArg (fun x => x.bind (runAll [])) hrun

/-- A thread that puts the flag down has done its call before. -/
theorem Simulates.unlock (h : Simulates calls s a) (hleave : s.control i = .leaving) :
    Simulates calls { s with
      lock := s.lock.unlock
      control := Function.update s.control i .outside } a := by
  have hi : (s.control i).Holds := by
    rw [hleave]
    trivial
  have hinside : ∀ j, (Function.update s.control i .outside j).Inside ↔
      (s.control j).Inside := fun j => inside_update_iff (by rw [hleave]; rfl)
  have hnobody : ∀ j, ¬ (Function.update s.control i .outside j).Holds := by
    intro j hj
    by_cases hji : j = i
    · subst hji
      rw [Function.update_self] at hj
      exact hj
    · rw [Function.update_of_ne hji] at hj
      exact hji (h.unique j i hj hi)
  refine ⟨?_, ?_, ?_, ?_, ?_, ?_⟩
  · exact iff_of_false nofun fun hsome => hsome.elim hnobody
  · exact fun j k hj => absurd hj (hnobody j)
  · intro j body' hj
    obtain ⟨-, heq⟩ | ⟨-, hj⟩ := update_cases hj
    · cases heq
    · exact h.waiting j body' hj
  · exact fun j hj => h.kept j ((hinside j).not.mp hj)
  · exact fun hall => h.data fun j => (hinside j).not.mp (hall j)
  · intro j rest hj
    obtain ⟨-, heq⟩ | ⟨hji, hj⟩ := update_cases hj
    · cases heq
    · exact absurd (h.alone hi (by rw [hj]; trivial)) hji

variable [SpinLockable T]

/-- Dropping the guard is where the call happens. -/
theorem Simulates.drop (h : Simulates calls s a) (hin : s.control i = .inside []) :
    ∃ a', AtomicStep calls a a' ∧ Simulates calls { s with
      lock := s.lock.write (SpinLockable.customUnlock s.lock.data)
      control := Function.update s.control i .leaving } a' := by
  have hi : (s.control i).Holds := by
    rw [hin]
    trivial
  have hholds : ∀ j, (Function.update s.control i .leaving j).Holds ↔
      (s.control j).Holds := fun j => holds_update_iff (by rw [hin]; rfl)
  obtain ⟨done, hmem, hdone⟩ := h.part i _ hin
  rw [List.append_nil] at hmem
  have hout : ∀ j, j ≠ i → ¬ (s.control j).Inside := fun j hji hj => hji (h.alone hi hj)
  refine ⟨_, .call hmem hdone, ?_, ?_, ?_, ?_, fun _ => rfl, ?_⟩
  · exact h.lock_iff.trans (exists_congr fun j => (hholds j).symm)
  · exact fun j k hj hk => h.unique j k ((hholds j).mp hj) ((hholds k).mp hk)
  · intro j body' hj
    obtain ⟨-, heq⟩ | ⟨-, hj⟩ := update_cases hj
    · cases heq
    · exact h.waiting j body' hj
  · intro j _
    dsimp only
    by_cases hji : j = i
    · subst hji
      rw [Function.update_self]
    · rw [Function.update_of_ne hji]
      exact h.kept j (hout j hji)
  · intro j rest hj
    obtain ⟨-, heq⟩ | ⟨hji, hj⟩ := update_cases hj
    · cases heq
    · exact absurd (show (s.control j).Inside by rw [hj]; trivial) (hout j hji)

variable {s' : Threads ι L T}

/-- **One step.** -/
theorem Simulates.step (h : Simulates calls s a) (hstep : ThreadStep calls s s') :
    ∃ a', Relation.ReflTransGen (AtomicStep calls) a a' ∧ Simulates calls s' a' := by
  cases hstep with
  | call hout hbody => exact ⟨a, .refl, h.call hout hbody⟩
  | swap hspin =>
      refine ⟨a, .refl, ?_⟩
      split
      · exact h.wait ‹_›
      · exact h.enter hspin (Bool.eq_false_iff.mpr ‹_›)
  | access hin hrun => exact ⟨a, .refl, h.access hin hrun⟩
  | drop hin =>
      obtain ⟨a', hcall, h'⟩ := h.drop hin
      exact ⟨a', .single hcall, h'⟩
  | unlock hleave => exact ⟨a, .refl, h.unlock hleave⟩

/-- **Every run.** -/
theorem exists_atomic {data : T} {kept : ι → L}
    (hrun : Relation.ReflTransGen (ThreadStep calls) (.start data kept) s) :
    ∃ a, Relation.ReflTransGen (AtomicStep calls) (kept, data) a ∧ Simulates calls s a := by
  induction hrun with
  | refl => exact ⟨_, .refl, simulates_start calls data kept⟩
  | tail _ hstep ih =>
      obtain ⟨a, hatomic, h⟩ := ih
      obtain ⟨a', hmore, h'⟩ := h.step hstep
      exact ⟨a', hatomic.trans hmore, h'⟩

/-- What calls that happen at once keep holds of the data whenever no thread works on them, and of
what the threads keep that do not. -/
theorem exists_atomic_of_invariant {data : T} {kept : ι → L} {I : (ι → L) × T → Prop}
    (hstart : I (kept, data)) (hstep : ∀ a a', I a → AtomicStep calls a a' → I a')
    (hrun : Relation.ReflTransGen (ThreadStep calls) (.start data kept) s) :
    ∃ a, I a ∧ Simulates calls s a := by
  obtain ⟨a, hatomic, h⟩ := exists_atomic hrun
  refine ⟨a, ?_, h⟩
  clear h
  induction hatomic with
  | refl => exact hstart
  | tail _ hcall ih => exact hstep _ _ ih hcall

/-! ## Calls one after another -/

/-- A thread that works on the data does its accesses. -/
theorem run_accesses {body : List (Access L T)} {kept : ι → L} {data : T} {l : L} {t : T}
    (hrun : runAll body (kept i, data) = some (l, t)) :
    Relation.ReflTransGen (ThreadStep calls)
      ⟨⟨true, data⟩, Function.update c i (.inside body), kept⟩
      ⟨⟨true, t⟩, Function.update c i (.inside []), Function.update kept i l⟩ := by
  induction body generalizing kept data with
  | nil =>
      obtain ⟨rfl, rfl⟩ := Prod.mk.inj (Option.some.inj hrun)
      rw [Function.update_eq_self]
  | cons f fs ih =>
      obtain ⟨⟨l', t'⟩, hf, hrest⟩ := Option.bind_eq_some_iff.mp hrun
      have hstep : ThreadStep calls ⟨⟨true, data⟩, Function.update c i (.inside (f :: fs)), kept⟩
          ⟨⟨true, t'⟩, Function.update (Function.update c i (.inside (f :: fs))) i (.inside fs),
            Function.update kept i l'⟩ :=
        .access (Function.update_self _ _ _) hf
      rw [Function.update_idem] at hstep
      have hrest' : runAll fs (Function.update kept i l' i, t') = some (l, t) := by
        rw [Function.update_self]
        exact hrest
      have hgo := ih hrest'
      rw [Function.update_idem] at hgo
      exact .head hstep hgo

/-- A call that happens at once is a run of its thread. -/
theorem run_of_atomic {a' : (ι → L) × T} (h : AtomicStep calls a a') :
    Relation.ReflTransGen (ThreadStep calls) (.start a.2 a.1) (.start a'.2 a'.1) := by
  obtain ⟨hbody, hrun⟩ := h
  rename_i i body l t
  set c : ι → Control L T := fun _ => .outside
  have hself : ∀ x, Function.update c i x i = x := fun x => Function.update_self i x c
  have hcall : ThreadStep calls (.start a.2 a.1)
      ⟨⟨false, a.2⟩, Function.update c i (.spinning body), a.1⟩ := .call rfl hbody
  have hswap : ThreadStep calls ⟨⟨false, a.2⟩, Function.update c i (.spinning body), a.1⟩
      ⟨⟨true, a.2⟩, Function.update (Function.update c i (.spinning body)) i (.inside body), a.1⟩ :=
    .swap (hself (.spinning body))
  have hdrop : ThreadStep calls
      ⟨⟨true, t⟩, Function.update c i (.inside []), Function.update a.1 i l⟩
      ⟨⟨true, SpinLockable.customUnlock t⟩,
        Function.update (Function.update c i (.inside [])) i .leaving, Function.update a.1 i l⟩ :=
    .drop (hself (.inside []))
  have hunlock : ThreadStep calls
      ⟨⟨true, SpinLockable.customUnlock t⟩, Function.update c i .leaving, Function.update a.1 i l⟩
      ⟨⟨false, SpinLockable.customUnlock t⟩,
        Function.update (Function.update c i .leaving) i .outside, Function.update a.1 i l⟩ :=
    .unlock (hself .leaving)
  rw [Function.update_idem] at hswap hdrop hunlock
  have hback : Function.update c i .outside = c := Function.update_eq_self i c
  rw [hback] at hunlock
  exact .head hcall (.head hswap ((run_accesses hrun).tail hdrop |>.tail hunlock))

/-- **The spin lock makes calls atomic.**  However many threads there are, whatever accesses their
calls consist of and however the threads' steps follow one another: no two threads work on the data
at the same time, and there is an order of whole calls after which every thread that does not work
on the data has kept what it did keep, and the data is as it is unless a thread works on it.  When
all have returned, what can be is what whole calls can do, no more and no less. -/
theorem spin_lock_atomic (calls : ι → Set (List (Access L T))) (kept : ι → L) (data : T) :
    (∀ s, Relation.ReflTransGen (ThreadStep calls) (.start data kept) s →
      (∀ i j, (s.control i).Inside → (s.control j).Inside → i = j) ∧
      ∃ a, Relation.ReflTransGen (AtomicStep calls) (kept, data) a ∧
        (∀ i, ¬ (s.control i).Inside → s.kept i = a.1 i) ∧
        ((∀ i, ¬ (s.control i).Inside) → s.lock.data = a.2)) ∧
    ∀ kept' data', Relation.ReflTransGen (ThreadStep calls) (.start data kept)
        (.start data' kept') ↔
      Relation.ReflTransGen (AtomicStep calls) (kept, data) (kept', data') := by
  refine ⟨fun s hrun => ?_, fun kept' data' => ⟨fun hrun => ?_, fun hatomic => ?_⟩⟩
  · obtain ⟨a, hatomic, h⟩ := exists_atomic hrun
    exact ⟨fun i j hi hj => h.unique i j hi.holds hj.holds, a, hatomic, h.kept, h.data⟩
  · obtain ⟨a, hatomic, h⟩ := exists_atomic hrun
    have hkept : kept' = a.1 := funext fun i => h.kept i id
    have hdata : data' = a.2 := h.data fun _ => id
    rw [hkept, hdata]
    exact hatomic
  · exact Relation.ReflTransGen.lift' (fun a : (ι → L) × T => Threads.start a.2 a.1)
      (fun _ _ hcall => run_of_atomic hcall) _ _ hatomic

end

end Funderberker

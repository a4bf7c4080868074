import Funderberker.Base
import Funderberker.Lib.PackedBits

/-!
# Bitmaps

The growable bitmap of `utils/src/collections/bitmap.rs`: bits packed eight to a byte,
with the number of bits in use kept beside the bytes.  What a bitmap is for is a list
of booleans; the bits of the last byte beyond the count are hidden state.

A bitmap *represents* a list when every bit of its bytes, hidden ones included, agrees
with the list followed by `false` for ever.  Every operation keeps this but `shrink`,
which drops whole bytes and leaves the bits of the last one as they are.

## Main definitions

* `Bitmap` and its operations, `BitmapIterator`.
* `BitmapCall.run`, `BitmapCall.onList` — an operation on bitmaps and on lists.
* `Represents` — the refinement relation.
* `Tidy` — a `shrink` that hides no set bit.

## Main results

* `bitmap_refines` — runs of tidy calls behave as lists.
* `bitmap_shrink_grow` — other runs need not.
-/

namespace Funderberker

open Panicking PackedBits

/-- A growable bitmap. -/
structure Bitmap where
  entries : List (BitVec 8)
  usedBitsCount : ℕ
  deriving DecidableEq, Repr

inductive BitmapError
  | indexOutOfBounds (index size : ℕ)
  | invalidSize (size : ℕ)
  deriving DecidableEq, Repr

namespace Bitmap

def uninit : Bitmap := ⟨[], 0⟩

/-- `usize::div_ceil` by eight. -/
def entriesCount (n : ℕ) : ℕ := (n + 7) / 8

def new (usedBitsCount : ℕ) : Bitmap :=
  ⟨List.replicate (entriesCount usedBitsCount) 0, usedBitsCount⟩

/-- The test of the index that every access makes. -/
def checkIndex (b : Bitmap) (index : ℕ) : Except BitmapError Unit :=
  if index ≥ b.usedBitsCount then .error (.indexOutOfBounds index b.usedBitsCount) else .ok ()

/-- Change the byte of a bit. -/
def modify (b : Bitmap) (index : ℕ) (f : BitVec 8 → BitVec 8) :
    Except Panic (Except BitmapError Unit × Bitmap) :=
  match b.checkIndex index with
  | .error e => .ok (.error e, b)
  | .ok () => do
      let e ← ofOption .indexOutOfBounds b.entries[index / 8]?
      .ok (.ok (), { b with entries := b.entries.set (index / 8) (f e) })

def set (b : Bitmap) (index : ℕ) : Except Panic (Except BitmapError Unit × Bitmap) :=
  b.modify index (· ||| 1#8 <<< (index % 8))

def unset (b : Bitmap) (index : ℕ) : Except Panic (Except BitmapError Unit × Bitmap) :=
  b.modify index (· &&& ~~~(1#8 <<< (index % 8)))

def flip (b : Bitmap) (index : ℕ) : Except Panic (Except BitmapError Unit × Bitmap) :=
  b.modify index (· ^^^ 1#8 <<< (index % 8))

def isSet (b : Bitmap) (index : ℕ) : Except Panic (Except BitmapError Bool) :=
  match b.checkIndex index with
  | .error e => .ok (.error e)
  | .ok () => do
      let e ← ofOption .indexOutOfBounds b.entries[index / 8]?
      .ok (.ok (e &&& 1#8 <<< (index % 8) != 0))

/-- Bytes are only added when the new count needs more of them. -/
def grow (b : Bitmap) (newSize : ℕ) : Except BitmapError Unit × Bitmap :=
  if newSize < b.usedBitsCount then (.error (.invalidSize newSize), b)
  else
    let entries :=
      if entriesCount newSize > b.entries.length then
        b.entries ++ List.replicate (entriesCount newSize - b.entries.length) 0
      else b.entries
    (.ok (), ⟨entries, newSize⟩)

/-- Bytes that are no longer needed are dropped; the last one that is kept stays as it
is. -/
def shrink (b : Bitmap) (newSize : ℕ) : Except BitmapError Unit × Bitmap :=
  if newSize > b.usedBitsCount then (.error (.invalidSize newSize), b)
  else (.ok (), ⟨b.entries.take (entriesCount newSize), newSize⟩)

def clear (b : Bitmap) : Bitmap := { b with entries := b.entries.map fun _ => 0 }

end Bitmap

/-- An iterator over the bits.  The borrowing and the owning iterator of the source
have the same fields and the same step. -/
structure BitmapIterator where
  bitmap : Bitmap
  currentIndex : ℕ

def Bitmap.iter (b : Bitmap) : BitmapIterator := ⟨b, 0⟩

def Bitmap.intoIter (b : Bitmap) : BitmapIterator := ⟨b, 0⟩

def BitmapIterator.next (it : BitmapIterator) : Except Panic (Option Bool × BitmapIterator) :=
  if it.currentIndex ≥ it.bitmap.usedBitsCount then .ok (none, it)
  else do
    let result ← it.bitmap.isSet it.currentIndex
    .ok (some (result.toOption.getD false), { it with currentIndex := it.currentIndex + 1 })

/-! ## Calls -/

/-- The operations that change a bitmap. -/
inductive BitmapCall
  | new (n : ℕ)
  | set (index : ℕ)
  | unset (index : ℕ)
  | flip (index : ℕ)
  | grow (newSize : ℕ)
  | shrink (newSize : ℕ)
  | clear

/-- The call on a bitmap. -/
def BitmapCall.run (b : Bitmap) : BitmapCall → Except Panic (Except BitmapError Unit × Bitmap)
  | new n => .ok (.ok (), Bitmap.new n)
  | set index => b.set index
  | unset index => b.unset index
  | flip index => b.flip index
  | grow newSize => .ok (b.grow newSize)
  | shrink newSize => .ok (b.shrink newSize)
  | clear => .ok (.ok (), b.clear)

/-- Change an element of a list. -/
def BitmapCall.modifyList (l : List Bool) (index : ℕ) (f : Bool → Bool) :
    Except BitmapError Unit × List Bool :=
  if index < l.length then (.ok (), l.set index (f (l.getD index false)))
  else (.error (.indexOutOfBounds index l.length), l)

/-- The call on a list of booleans. -/
def BitmapCall.onList (l : List Bool) : BitmapCall → Except BitmapError Unit × List Bool
  | new n => (.ok (), List.replicate n false)
  | set index => modifyList l index fun _ => true
  | unset index => modifyList l index fun _ => false
  | flip index => modifyList l index not
  | grow newSize =>
      if newSize < l.length then (.error (.invalidSize newSize), l)
      else (.ok (), l ++ List.replicate (newSize - l.length) false)
  | shrink newSize =>
      if newSize > l.length then (.error (.invalidSize newSize), l)
      else (.ok (), l.take newSize)
  | clear => (.ok (), List.replicate l.length false)

/-- A call that hides no set bit: the bits that a `shrink` drops from the last byte it
keeps are clear. -/
def BitmapCall.Tidy (b : Bitmap) : BitmapCall → Prop
  | shrink newSize => newSize ≤ b.usedBitsCount →
      ∀ i, newSize ≤ i → i < 8 * Bitmap.entriesCount newSize → bit b.entries i = false
  | _ => True

/-- The results of the calls made so far, the last call first. -/
abbrev BitmapLog := List (BitmapCall × Except BitmapError Unit)

/-- Runs of calls that satisfy `P` in the state they are made in. -/
inductive BitmapReaches (P : Bitmap → BitmapCall → Prop) : BitmapLog → Bitmap → Prop
  | start : BitmapReaches P [] Bitmap.uninit
  | step {log : BitmapLog} {b b' : Bitmap} {call : BitmapCall} {res : Except BitmapError Unit}
      (h : BitmapReaches P log b) (hP : P b call) (hrun : call.run b = .ok (res, b')) :
      BitmapReaches P ((call, res) :: log) b'

/-- Runs of the list. -/
inductive BoolsReach : BitmapLog → List Bool → Prop
  | start : BoolsReach [] []
  | step {log : BitmapLog} {l : List Bool} (h : BoolsReach log l) (call : BitmapCall) :
      BoolsReach ((call, (call.onList l).1) :: log) (call.onList l).2

/-- What a bitmap shows of itself is the list. -/
structure Bitmap.Shows (b : Bitmap) (l : List Bool) : Prop where
  count : b.usedBitsCount = l.length
  isSet : ∀ i, b.isSet i = .ok (l[i]?.elim (.error (.indexOutOfBounds i l.length)) .ok)
  iter : Drains BitmapIterator.next (fun _ _ => True) b.iter l
  intoIter : Drains BitmapIterator.next (fun _ _ => True) b.intoIter l

/-! ## Representation -/

/-- Every bit of the bytes is the list's, and beyond the list it is clear. -/
structure Bitmap.Represents (b : Bitmap) (l : List Bool) : Prop where
  count : b.usedBitsCount = l.length
  length : b.entries.length = Bitmap.entriesCount l.length
  bits : ∀ i, bit b.entries i = l.getD i false

variable {b b' : Bitmap} {l l' : List Bool} {i n : ℕ}

theorem Bitmap.entry_lt (h : i < n) : i / 8 < entriesCount n := by
  rw [entriesCount]
  omega

/-- Reading a bit. -/
theorem Bitmap.isSet_of_lt (hi : i < b.usedBitsCount) (hlt : i / 8 < b.entries.length) :
    b.isSet i = .ok (.ok (bit b.entries i)) := by
  have he := List.getElem?_eq_getElem hlt
  have hmask : (1#8 <<< (i % 8)) = BitVec.twoPow 8 (i % 8) := rfl
  have hne : BitVec.twoPow 8 (i % 8) ≠ 0#8 := by
    intro h0
    have := congrArg (BitVec.getLsbD · (i % 8)) h0
    simp [Nat.mod_lt i (show 0 < 8 by omega)] at this
  rw [isSet, checkIndex, if_neg (by omega), bit_of_getElem? he, he]
  simp only [ofOption_some, ok_bind, hmask, BitVec.and_twoPow]
  cases b.entries[i / 8].getLsbD (i % 8) <;> simp [hne]

namespace Bitmap.Represents

theorem entry (h : b.Represents l) (hi : i < l.length) :
    ∃ e, b.entries[i / 8]? = some e ∧ e.getLsbD (i % 8) = l.getD i false := by
  have hlt : i / 8 < b.entries.length := h.length ▸ entry_lt hi
  have he := List.getElem?_eq_getElem hlt
  exact ⟨_, he, (bit_of_getElem? he).symm.trans (h.bits i)⟩

theorem checkIndex_of_lt (h : b.Represents l) (hi : i < l.length) : b.checkIndex i = .ok () := by
  rw [checkIndex, h.count, if_neg (by omega)]

theorem checkIndex_of_le (h : b.Represents l) (hi : l.length ≤ i) :
    b.checkIndex i = .error (.indexOutOfBounds i l.length) := by
  rw [checkIndex, h.count, if_pos hi]

/-- A byte operation that changes one bit of the byte changes one element. -/
theorem modify (h : b.Represents l) (f : BitVec 8 → BitVec 8) (g : Bool → Bool)
    (hf : ∀ e j, j < 8 → (f e).getLsbD j = if j = i % 8 then g (e.getLsbD j) else e.getLsbD j) :
    ∃ b', b.modify i f = .ok ((BitmapCall.modifyList l i g).1, b') ∧
      b'.Represents (BitmapCall.modifyList l i g).2 := by
  rw [Bitmap.modify, BitmapCall.modifyList]
  rcases Nat.lt_or_ge i l.length with hi | hi
  · obtain ⟨e, he, hbit⟩ := h.entry hi
    rw [h.checkIndex_of_lt hi, if_pos hi]
    simp only [he, ofOption_some, ok_bind]
    refine ⟨_, rfl, ?_, ?_, fun j => ?_⟩
    · simpa using h.count
    · simpa using h.length
    · have hlt : i / 8 < b.entries.length := h.length ▸ entry_lt hi
      rw [bit_set hlt, hf e _ (Nat.mod_lt _ (by omega)), List.getD_eq_getElem?_getD,
        List.getElem?_set]
      by_cases hij : i = j
      · subst hij
        simp only [if_true, hi, Option.getD_some, hbit]
      · by_cases hdiv : j / 8 = i / 8
        · have hmod : ¬ j % 8 = i % 8 := by omega
          rw [if_pos hdiv, if_neg hmod, if_neg hij, ← List.getD_eq_getElem?_getD, ← h.bits j]
          exact (bit_of_getElem? (hdiv ▸ he)).symm
        · rw [if_neg hdiv, if_neg hij, ← List.getD_eq_getElem?_getD, h.bits j]
  · rw [h.checkIndex_of_le hi, if_neg (by omega)]
    exact ⟨b, rfl, h⟩

theorem new (n : ℕ) : (Bitmap.new n).Represents (List.replicate n false) where
  count := by simp [Bitmap.new]
  length := by simp [Bitmap.new]
  bits i := by
    rw [Bitmap.new, bit_zeros, List.getD_eq_getElem?_getD, List.getElem?_replicate]
    split <;> rfl

theorem clear (h : b.Represents l) : b.clear.Represents (List.replicate l.length false) where
  count := by simpa [Bitmap.clear] using h.count
  length := by simpa [Bitmap.clear] using h.length
  bits i := by
    have hzeros : b.clear.entries = List.replicate b.entries.length 0 := List.map_const' ..
    rw [hzeros, bit_zeros, List.getD_eq_getElem?_getD, List.getElem?_replicate]
    split <;> rfl

theorem grow (h : b.Represents l) (hn : l.length ≤ n) :
    (b.grow n).1 = .ok () ∧
      (b.grow n).2.Represents (l ++ List.replicate (n - l.length) false) := by
  have hlen : (l ++ List.replicate (n - l.length) false).length = n := by
    rw [List.length_append, List.length_replicate]
    omega
  have hbits : ∀ i, (l ++ List.replicate (n - l.length) false).getD i false = l.getD i false := by
    intro i
    rcases Nat.lt_or_ge i l.length with hi | hi
    · rw [List.getD_append _ _ _ _ hi]
    · rw [List.getD_append_right _ _ _ _ hi, List.getD_eq_default _ _ hi,
        List.getD_eq_getElem?_getD, List.getElem?_replicate]
      split <;> rfl
  have hmono : entriesCount l.length ≤ entriesCount n := by
    rw [entriesCount, entriesCount]
    omega
  rw [Bitmap.grow, if_neg (by rw [h.count]; omega)]
  refine ⟨rfl, hlen.symm, ?_, fun i => ?_⟩
  · rw [hlen]
    split
    · rw [List.length_append, List.length_replicate, h.length]
      omega
    · rw [h.length] at *
      omega
  · rw [hbits, ← h.bits]
    dsimp only
    split
    · exact bit_append_zeros
    · rfl

/-- Shrinking represents the shorter list when the bits it hides are clear. -/
theorem shrink (h : b.Represents l) (hn : n ≤ l.length)
    (htidy : ∀ i, n ≤ i → i < 8 * entriesCount n → bit b.entries i = false) :
    (b.shrink n).1 = .ok () ∧ (b.shrink n).2.Represents (l.take n) := by
  have hlen : (l.take n).length = n := List.length_take_of_le hn
  have hmono : entriesCount n ≤ entriesCount l.length := by
    rw [entriesCount, entriesCount]
    omega
  rw [Bitmap.shrink, if_neg (by rw [h.count]; omega)]
  refine ⟨rfl, hlen.symm, ?_, fun i => ?_⟩
  · rw [hlen]
    exact List.length_take_of_le (h.length ▸ hmono)
  · rw [bit_take, List.getD_eq_getElem?_getD, List.getElem?_take]
    by_cases hi : i < n
    · rw [decide_eq_true (entry_lt hi), if_pos hi, Bool.true_and, h.bits,
        List.getD_eq_getElem?_getD]
    · rw [if_neg hi, Option.getD_none, Bool.and_eq_false_iff]
      by_cases hbyte : i / 8 < entriesCount n
      · exact Or.inr (htidy i (by omega) (by omega))
      · exact Or.inl (decide_eq_false hbyte)

theorem isSet (h : b.Represents l) (i : ℕ) :
    b.isSet i = .ok (l[i]?.elim (.error (.indexOutOfBounds i l.length)) .ok) := by
  rcases Nat.lt_or_ge i l.length with hi | hi
  · rw [isSet_of_lt (h.count ▸ hi) (h.length ▸ entry_lt hi), h.bits,
      List.getD_eq_getElem _ _ hi, List.getElem?_eq_getElem hi, Option.elim_some]
  · rw [Bitmap.isSet, h.checkIndex_of_le hi, List.getElem?_eq_none hi]
    rfl

/-- The iterators yield the list. -/
theorem drains (h : b.Represents l) :
    Drains BitmapIterator.next (fun _ _ => True) ⟨b, 0⟩ l := by
  refine drains_of_invariant (R := fun (it : BitmapIterator) rest => it.bitmap = b ∧
    it.currentIndex ≤ l.length ∧ rest = l.drop it.currentIndex) (fun _ _ _ => trivial) ?_ ?_ l
    ⟨b, 0⟩ ⟨rfl, Nat.zero_le _, rfl⟩
  · rintro ⟨_, k⟩ ⟨rfl, hk, hdrop⟩
    have hend : l.length ≤ k := List.drop_eq_nil_iff.mp hdrop.symm
    exact ⟨_, by rw [BitmapIterator.next, h.count, if_pos hend]⟩
  · rintro ⟨_, k⟩ a rest ⟨rfl, hk, hdrop⟩
    have hlt : k < l.length := by
      by_contra hge
      rw [List.drop_eq_nil_of_le (Nat.le_of_not_lt hge)] at hdrop
      cases hdrop
    rw [List.drop_eq_getElem_cons hlt] at hdrop
    obtain ⟨rfl, rfl⟩ := List.cons.inj hdrop
    refine ⟨⟨_, k + 1⟩, ?_, rfl, hlt, rfl⟩
    rw [BitmapIterator.next, h.count, if_neg (Nat.not_le.mpr hlt), h.isSet, ok_bind,
      List.getElem?_eq_getElem hlt]
    rfl

/-- Growing again shows a bit that shrinking has hidden. -/
theorem not_shows_of_hidden (h : b.Represents l) (hn : n ≤ l.length) (hi : n ≤ i)
    (hbyte : i < 8 * entriesCount n) (hset : bit b.entries i = true) :
    ¬ ((b.shrink n).2.grow (i + 1)).2.Shows (l.take n ++ List.replicate (i + 1 - n) false) := by
  have hmono : entriesCount n ≤ entriesCount l.length := by
    rw [entriesCount, entriesCount]
    omega
  have hlen : (b.entries.take (entriesCount n)).length = entriesCount n :=
    List.length_take_of_le (h.length ▸ hmono)
  have hgrow : ((b.shrink n).2.grow (i + 1)).2 = ⟨b.entries.take (entriesCount n), i + 1⟩ := by
    have hcount : ¬ entriesCount (i + 1) > entriesCount n := by
      simp only [entriesCount] at hbyte ⊢
      omega
    rw [Bitmap.shrink, if_neg (by rw [h.count]; omega), Bitmap.grow, if_neg (by dsimp only; omega)]
    dsimp only
    rw [hlen, if_neg hcount]
  rw [hgrow]
  intro hshows
  have hfalse := hshows.isSet i
  have hword : i / 8 < entriesCount n := by omega
  rw [isSet_of_lt (Nat.lt_succ_self i) (hword.trans_eq hlen.symm), bit_take, hset, decide_eq_true hword,
    List.getElem?_append_right (by rw [List.length_take_of_le hn]; exact hi),
    List.getElem?_replicate, if_pos (by rw [List.length_take_of_le hn]; omega)] at hfalse
  cases hfalse

theorem shows (h : b.Represents l) : b.Shows l := ⟨h.count, h.isSet, h.drains, h.drains⟩

/-- The derived equality of bitmaps is equality of the lists. -/
theorem eq_iff (h : b.Represents l) (h' : b'.Represents l') : b = b' ↔ l = l' := by
  constructor
  · rintro rfl
    refine List.ext_getElem (h.count.symm.trans h'.count) fun i hi hi' => ?_
    rw [← List.getD_eq_getElem l false hi, ← List.getD_eq_getElem l' false hi', ← h.bits,
      ← h'.bits]
  · rintro rfl
    have hentries : b.entries = b'.entries :=
      eq_of_bit_eq (h.length.trans h'.length.symm) fun i => (h.bits i).trans (h'.bits i).symm
    have hcount := h.count.trans h'.count.symm
    cases b
    cases b'
    cases hentries
    cases hcount
    rfl

end Bitmap.Represents

/-! ## Runs -/

theorem one_shiftLeft_getLsbD {k j : ℕ} (hj : j < 8) :
    (1#8 <<< k).getLsbD j = decide (j = k) := by
  rw [show (1#8 <<< k) = BitVec.twoPow 8 k from rfl, BitVec.getLsbD_twoPow]
  by_cases h : k = j
  · simp [h, hj]
  · have hne : ¬ j = k := fun h' => h h'.symm
    simp [h, hne]

/-- **One call.**  A tidy call answers as the list does and represents the list after
it. -/
theorem BitmapCall.run_spec (h : b.Represents l) (call : BitmapCall) (htidy : call.Tidy b) :
    ∃ b', call.run b = .ok ((call.onList l).1, b') ∧ b'.Represents (call.onList l).2 := by
  cases call with
  | new n => exact ⟨_, rfl, .new n⟩
  | set index =>
      refine h.modify _ (fun _ => true) fun e j hj => ?_
      rw [BitVec.getLsbD_or, one_shiftLeft_getLsbD hj]
      split <;> simp [*]
  | unset index =>
      refine h.modify _ (fun _ => false) fun e j hj => ?_
      rw [BitVec.getLsbD_and, BitVec.getLsbD_not, one_shiftLeft_getLsbD hj]
      split <;> simp [*]
  | flip index =>
      refine h.modify _ not fun e j hj => ?_
      rw [BitVec.getLsbD_xor, one_shiftLeft_getLsbD hj]
      split <;> simp [*]
  | grow newSize =>
      rw [run, onList]
      rcases Nat.lt_or_ge newSize l.length with hn | hn
      · rw [if_pos hn, Bitmap.grow, if_pos (h.count ▸ hn)]
        exact ⟨b, rfl, h⟩
      · rw [if_neg (by omega)]
        obtain ⟨hok, hrep⟩ := h.grow hn
        exact ⟨_, by rw [← hok], hrep⟩
  | shrink newSize =>
      rw [run, onList]
      rcases Nat.lt_or_ge l.length newSize with hn | hn
      · rw [if_pos hn, Bitmap.shrink, if_pos (h.count ▸ hn)]
        exact ⟨b, rfl, h⟩
      · rw [if_neg (by omega)]
        obtain ⟨hok, hrep⟩ := h.shrink hn (htidy (h.count ▸ hn))
        exact ⟨_, by rw [← hok], hrep⟩
  | clear => exact ⟨_, rfl, h.clear⟩

theorem Bitmap.Represents.set (h : b.Represents l) (hi : i < l.length) :
    ∃ b', b.set i = .ok (.ok (), b') ∧ b'.Represents (l.set i true) := by
  obtain ⟨b', hrun, hrep⟩ := BitmapCall.run_spec h (.set i) trivial
  rw [BitmapCall.onList, BitmapCall.modifyList, if_pos hi] at hrun hrep
  exact ⟨b', hrun, hrep⟩

theorem Bitmap.Represents.unset (h : b.Represents l) (hi : i < l.length) :
    ∃ b', b.unset i = .ok (.ok (), b') ∧ b'.Represents (l.set i false) := by
  obtain ⟨b', hrun, hrep⟩ := BitmapCall.run_spec h (.unset i) trivial
  rw [BitmapCall.onList, BitmapCall.modifyList, if_pos hi] at hrun hrep
  exact ⟨b', hrun, hrep⟩

theorem BitmapReaches.represents {log : BitmapLog}
    (h : BitmapReaches (fun b call => call.Tidy b) log b) :
    ∃ l, BoolsReach log l ∧ b.Represents l := by
  induction h with
  | start => exact ⟨[], .start, .new 0⟩
  | step _ htidy hrun ih =>
      obtain ⟨l, hreach, hrep⟩ := ih
      obtain ⟨b', hrun', hrep'⟩ := BitmapCall.run_spec hrep _ htidy
      obtain ⟨rfl, rfl⟩ := Prod.mk.inj (Except.ok.inj (hrun.symm.trans hrun'))
      exact ⟨_, hreach.step _, hrep'⟩

/-- **Bitmaps refine lists of booleans as long as no set bit is hidden.**  In every run
in which each call is tidy, the results are those of the list, the bitmap shows the
list, and two bitmaps are equal exactly when their lists are.  The next call does not
panic, and shrinking in a way that is not tidy lets a later `grow` show what the list
does not hold. -/
theorem bitmap_refines {log log' : BitmapLog}
    (h : BitmapReaches (fun b call => call.Tidy b) log b)
    (h' : BitmapReaches (fun b call => call.Tidy b) log' b') :
    ∃ l l', BoolsReach log l ∧ BoolsReach log' l' ∧ b.Shows l ∧ b'.Shows l' ∧ (b = b' ↔ l = l') ∧
      (∀ call : BitmapCall, call.Tidy b → ∃ c, call.run b = .ok ((call.onList l).1, c)) ∧
      ∀ n, ¬ (BitmapCall.shrink n).Tidy b → ∃ m, ¬ ((b.shrink n).2.grow m).2.Shows
        ((BitmapCall.grow m).onList ((BitmapCall.shrink n).onList l).2).2 := by
  obtain ⟨l, hreach, hrep⟩ := h.represents
  obtain ⟨l', hreach', hrep'⟩ := h'.represents
  refine ⟨l, l', hreach, hreach', hrep.shows, hrep'.shows, hrep.eq_iff hrep', ?_, ?_⟩
  · intro call htidy
    obtain ⟨c, hrun, -⟩ := BitmapCall.run_spec hrep call htidy
    exact ⟨c, hrun⟩
  · intro n hn
    simp only [BitmapCall.Tidy, not_forall, Bool.not_eq_false] at hn
    obtain ⟨hle, i, hi, hbyte, hset⟩ := hn
    rw [hrep.count] at hle
    refine ⟨i + 1, ?_⟩
    have hlen : (l.take n).length = n := List.length_take_of_le hle
    have hshrink : ((BitmapCall.shrink n).onList l).2 = l.take n := by
      rw [BitmapCall.onList, if_neg (by omega)]
    rw [hshrink, BitmapCall.onList, if_neg (by omega), hlen]
    exact hrep.not_shows_of_hidden hle hi hbyte hset

/-- Eight clear bits, and eight bits of which the third is set. -/
theorem small_bitmap_refines : ∃ l l', BoolsReach [(.set 2, .ok ()), (.new 8, .ok ())] l ∧
    BoolsReach [(.new 8, .ok ())] l' ∧ (⟨[4], 8⟩ : Bitmap).Shows l ∧ (⟨[0], 8⟩ : Bitmap).Shows l' ∧
      ((⟨[4], 8⟩ : Bitmap) = ⟨[0], 8⟩ ↔ l = l') := by
  have hnew : BitmapReaches (fun b call => call.Tidy b) [(.new 8, .ok ())] ⟨[0], 8⟩ :=
    .step .start trivial rfl
  have hset : BitmapReaches (fun b call => call.Tidy b) [(.set 2, .ok ()), (.new 8, .ok ())]
      ⟨[4], 8⟩ := .step hnew trivial rfl
  obtain ⟨l, l', hl, hl', hshows, hshows', heq, -⟩ := bitmap_refines hset hnew
  exact ⟨l, l', hl, hl', hshows, hshows', heq⟩

/-- A bit hidden by `shrink` is back after `grow`, where the list has `false`; and
before that two bitmaps with one list differ. -/
theorem bitmap_shrink_grow :
    (∃ log b l, BitmapReaches (fun _ _ => True) log b ∧ BoolsReach log l ∧ ¬ b.Shows l) ∧
    ∃ log log' b b' l, BitmapReaches (fun _ _ => True) log b ∧
      BitmapReaches (fun _ _ => True) log' b' ∧ BoolsReach log l ∧ BoolsReach log' l ∧ b ≠ b' := by
  have hset : BitmapReaches (fun _ _ => True) [(.set 7, .ok ()), (.new 8, .ok ())] ⟨[128], 8⟩ :=
    .step (.step .start trivial rfl) trivial rfl
  have hshrink : BitmapReaches (fun _ _ => True)
      [(.shrink 4, .ok ()), (.set 7, .ok ()), (.new 8, .ok ())] ⟨[128], 4⟩ :=
    hset.step trivial rfl
  have hgrow : BitmapReaches (fun _ _ => True)
      [(.grow 8, .ok ()), (.shrink 4, .ok ()), (.set 7, .ok ()), (.new 8, .ok ())] ⟨[128], 8⟩ :=
    hshrink.step trivial rfl
  have hlist := ((BoolsReach.start.step (.new 8)).step (.set 7)).step (.shrink 4)
  refine ⟨⟨_, _, _, hgrow, hlist.step (.grow 8), fun hshows => ?_⟩,
    _, _, ⟨[128], 4⟩, ⟨[0], 4⟩, _, hshrink, .step .start trivial rfl, hlist,
    BoolsReach.start.step (.new 4), by decide⟩
  have hbit := hshows.isSet 7
  revert hbit
  decide

end Funderberker

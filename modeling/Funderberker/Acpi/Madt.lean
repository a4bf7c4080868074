import Funderberker.Acpi.Tables

/-!
# The entries of the MADT

`boot/src/acpi/madt.rs`: after the header come entries of several types and lengths.  Each begins
with its type and its length, and the iterator goes on at the end of the entry, by the length that
the entry gives.

The length is not checked.  A length of zero leaves the iterator where it is, one that is larger
than what is left of the table takes the rest below zero, and a type may stand for a structure that
is longer than what is left.

## Main definitions

* `Madt.Iter`, `Madt.Iter.next` — the iterator.
* `Madt.EndsInside` — it ends, never takes the rest below zero, and stays inside the table.
* `Madt.Entries` — the tables for which it should.

## Main results

* `ends_inside_iff`
* `zero_length_endless` — an entry of length zero.
-/

namespace Funderberker

open Panicking

namespace Madt

/-! ## The iterator -/

/-- Four bytes as a number, the lowest first. -/
def le32 (bytes : ℕ → BitVec 8) (p : ℕ) : BitVec 32 :=
  bytes (p + 3) ++ bytes (p + 2) ++ bytes (p + 1) ++ bytes p

/-- The length in the header. -/
def headerLength (bytes : ℕ → BitVec 8) : BitVec 32 := le32 bytes 4

def OFFSET_TO_ENTRIES : ℕ := 0x2c

namespace EntryType

def LOCAL_APIC : BitVec 8 := 0
def IO_APIC : BitVec 8 := 1
def IO_APIC_ISO : BitVec 8 := 2
def IO_APIC_NMI_ISO : BitVec 8 := 3
def LOCAL_APIC_NMI : BitVec 8 := 4
def LOCAL_APIC_ADDR_OVERRIDE : BitVec 8 := 5
def PROCESSOR_LOCAL_X2APIC : BitVec 8 := 9

end EntryType

/-- The size of the structure that `parse` reads for a type; of an unknown type it reads the
header. -/
def entrySize (entryType : BitVec 8) : ℕ :=
  if entryType = EntryType.LOCAL_APIC then 8
  else if entryType = EntryType.IO_APIC then 12
  else if entryType = EntryType.IO_APIC_ISO then 10
  else if entryType = EntryType.IO_APIC_NMI_ISO then 10
  else if entryType = EntryType.LOCAL_APIC_NMI then 6
  else if entryType = EntryType.LOCAL_APIC_ADDR_OVERRIDE then 12
  else if entryType = EntryType.PROCESSOR_LOCAL_X2APIC then 16
  else 2

theorem two_le_entrySize (entryType : BitVec 8) : 2 ≤ entrySize entryType := by
  unfold entrySize
  repeat' split
  all_goals omega

/-- Pointers are offsets from the start of the table. -/
structure Iter where
  ptr : ℕ
  len : ℕ
  deriving DecidableEq, Repr

def iter (m : Overflow) (bytes : ℕ → BitVec 8) : Except Panic Iter := do
  let len ← Usize.sub m (headerLength bytes).toNat OFFSET_TO_ENTRIES
  .ok ⟨OFFSET_TO_ENTRIES, len⟩

/-- The next entry and what is left. -/
def Iter.next (m : Overflow) (bytes : ℕ → BitVec 8) (it : Iter) :
    Except Panic (Option (ℕ × Iter)) :=
  if it.len = 0 then .ok none
  else do
    let len := (bytes (it.ptr + 1)).toNat
    let rest ← Usize.sub m it.len len
    .ok (some (it.ptr, ⟨it.ptr + len, rest⟩))

/-- The entries that the iterator yields up to a state, the latest first. -/
inductive Iter.Yields (m : Overflow) (bytes : ℕ → BitVec 8) (start : Iter) : List ℕ → Iter → Prop
  | start : Iter.Yields m bytes start [] start
  | next {ptrs : List ℕ} {it it' : Iter} {p : ℕ} (h : Iter.Yields m bytes start ptrs it)
      (hnext : it.next m bytes = .ok (some (p, it'))) : Iter.Yields m bytes start (p :: ptrs) it'

/-- The iterator yields finitely many entries, its rest never goes below zero, and the structures
that are read are inside the table. -/
structure EndsInside (m : Overflow) (bytes : ℕ → BitVec 8) (start : Iter) : Prop where
  ends : ∃ ptrs it, Iter.Yields m bytes start ptrs it ∧ it.next m bytes = .ok none
  noUnderflow : ∀ ptrs it, Iter.Yields m bytes start ptrs it → it.len ≠ 0 →
    (bytes (it.ptr + 1)).toNat ≤ it.len
  inside : ∀ ptrs it, Iter.Yields m bytes start ptrs it →
    ∀ p ∈ ptrs, p + entrySize (bytes p) ≤ (headerLength bytes).toNat

/-! ## Well-formed tables -/

/-- From an offset up to the end of the table, there are entries one after the other: none has
length zero, the structure of each is inside the table, and the last ends where the table does. -/
inductive Entries (bytes : ℕ → BitVec 8) (stop : ℕ) : ℕ → Prop
  | done : Entries bytes stop stop
  | entry {p : ℕ} (hlen : bytes (p + 1) ≠ 0) (hsize : p + entrySize (bytes p) ≤ stop)
      (hrest : Entries bytes stop (p + (bytes (p + 1)).toNat)) : Entries bytes stop p

theorem Entries.le {bytes : ℕ → BitVec 8} {stop p : ℕ} (h : Entries bytes stop p) : p ≤ stop := by
  induction h with
  | done => exact Nat.le_refl stop
  | entry _ _ _ ih => exact (Nat.le_add_right _ _).trans ih

variable {m : Overflow} {bytes : ℕ → BitVec 8} {start it : Iter} {ptrs : List ℕ} {stop : ℕ}

theorem Iter.next_of_le (hlen : it.len ≠ 0) (hle : (bytes (it.ptr + 1)).toNat ≤ it.len) :
    it.next m bytes = .ok (some (it.ptr, ⟨it.ptr + (bytes (it.ptr + 1)).toNat,
      it.len - (bytes (it.ptr + 1)).toNat⟩)) := by
  simp only [Iter.next, if_neg hlen, Usize.sub_eq hle, ok_bind]

theorem Iter.next_eq_none_iff : it.next m bytes = .ok none ↔ it.len = 0 := by
  rw [Iter.next]
  split
  · next h => simp [h]
  · next h =>
      refine iff_of_false (fun hnone => ?_) h
      obtain ⟨rest, -, hnone⟩ := bind_eq_ok.mp hnone
      cases hnone

theorem iter_eq (h : OFFSET_TO_ENTRIES ≤ (headerLength bytes).toNat) : iter m bytes =
    .ok ⟨OFFSET_TO_ENTRIES, (headerLength bytes).toNat - OFFSET_TO_ENTRIES⟩ := by
  rw [iter, Usize.sub_eq h]
  rfl

/-- In a well-formed table, what the iterator has left are entries, and what it has yielded is
inside. -/
structure Remains (bytes : ℕ → BitVec 8) (stop : ℕ) (ptrs : List ℕ) (it : Iter) : Prop where
  stop_eq : it.ptr + it.len = stop
  entries : Entries bytes stop it.ptr
  inside : ∀ p ∈ ptrs, p + entrySize (bytes p) ≤ stop

theorem Remains.length_le (h : Remains bytes stop ptrs it) (hlen : it.len ≠ 0) :
    (bytes (it.ptr + 1)).toNat ≤ it.len := by
  have hstop := h.stop_eq
  cases h.entries with
  | done => omega
  | entry _ _ hrest =>
      have hle := hrest.le
      omega

/-- One step. -/
theorem Remains.next {it' : Iter} {p : ℕ} (h : Remains bytes stop ptrs it)
    (hnext : it.next m bytes = .ok (some (p, it'))) : Remains bytes stop (p :: ptrs) it' := by
  have hlen : it.len ≠ 0 := by
    intro hzero
    rw [Iter.next_eq_none_iff.mpr hzero] at hnext
    cases hnext
  have hle := h.length_le hlen
  rw [Iter.next_of_le hlen hle] at hnext
  cases hnext
  have hstop := h.stop_eq
  have hentries := h.entries
  cases hentries with
  | done => omega
  | entry _ hsize hrest =>
      refine ⟨?_, hrest, List.forall_mem_cons.mpr ⟨hsize, h.inside⟩⟩
      dsimp only
      omega

/-- Every run. -/
theorem Remains.yields (hstart : Remains bytes stop [] start)
    (h : Iter.Yields m bytes start ptrs it) : Remains bytes stop ptrs it := by
  induction h with
  | start => exact hstart
  | next _ hnext ih => exact ih.next hnext

/-- From entries, the iterator comes to the end. -/
theorem Entries.ends {p : ℕ} (h : Entries bytes stop p) :
    ∀ ptrs, Iter.Yields m bytes start ptrs ⟨p, stop - p⟩ →
      ∃ ptrs it, Iter.Yields m bytes start ptrs it ∧ it.next m bytes = .ok none := by
  induction h with
  | done =>
      intro ptrs hyields
      exact ⟨ptrs, _, hyields, Iter.next_eq_none_iff.mpr (Nat.sub_self stop)⟩
  | @entry p hlen hsize hrest ih =>
      intro ptrs hyields
      have hle := hrest.le
      have htwo := two_le_entrySize (bytes p)
      refine ih (p :: ptrs) (hyields.next ?_)
      have hfits : (bytes (p + 1)).toNat ≤ stop - p := by omega
      rw [Iter.next_of_le (by dsimp only; omega) hfits, Nat.sub_sub]

/-- A step that the iterator made. -/
theorem EndsInside.next {it' : Iter} {p : ℕ} (h : EndsInside m bytes start)
    (hyields : Iter.Yields m bytes start ptrs it) (hnext : it.next m bytes = .ok (some (p, it'))) :
    p = it.ptr ∧ it.ptr + (bytes (it.ptr + 1)).toNat = it'.ptr ∧
      it'.ptr + it'.len = it.ptr + it.len ∧ it.ptr + entrySize (bytes it.ptr) ≤
        (headerLength bytes).toNat := by
  have hlen : it.len ≠ 0 := by
    intro hzero
    rw [Iter.next_eq_none_iff.mpr hzero] at hnext
    cases hnext
  have hle := h.noUnderflow ptrs it hyields hlen
  have hinside := h.inside _ _ (hyields.next hnext) p List.mem_cons_self
  rw [Iter.next_of_le hlen hle] at hnext
  cases hnext
  refine ⟨rfl, rfl, ?_, hinside⟩
  dsimp only
  omega

/-- Every run keeps the end of the table. -/
theorem EndsInside.stop_eq (h : EndsInside m bytes start)
    (hyields : Iter.Yields m bytes start ptrs it) : it.ptr + it.len = start.ptr + start.len := by
  induction hyields with
  | start => rfl
  | next hyields hnext ih => exact (h.next hyields hnext).2.2.1.trans ih

/-- What the iterator goes through are entries, if they are so from where it has come to. -/
theorem EndsInside.entries_of (h : EndsInside m bytes start)
    (hyields : Iter.Yields m bytes start ptrs it)
    (hentries : Entries bytes (headerLength bytes).toNat it.ptr) :
    Entries bytes (headerLength bytes).toNat start.ptr := by
  induction hyields with
  | start => exact hentries
  | @next ptrs it it' p hyields hnext ih =>
      obtain ⟨rfl, hptr, -, hsize⟩ := h.next hyields hnext
      refine ih ?_
      by_cases hzero : bytes (it.ptr + 1) = 0
      · -- the iterator has stayed where it was
        rw [hzero] at hptr
        rwa [show it'.ptr = it.ptr from hptr.symm] at hentries
      · exact .entry hzero hsize (hptr ▸ hentries)

/-- **When parsing ends and stays inside the table.**  For every table that is long enough for its
header, whether or not its checksum is valid: exactly when it is made of entries. -/
theorem ends_inside_iff (m : Overflow) (bytes : ℕ → BitVec 8)
    (hlength : OFFSET_TO_ENTRIES ≤ (headerLength bytes).toNat) :
    (∃ start, iter m bytes = .ok start ∧ EndsInside m bytes start) ↔
      Entries bytes (headerLength bytes).toNat OFFSET_TO_ENTRIES := by
  rw [iter_eq hlength]
  constructor
  · rintro ⟨start, hstart, h⟩
    cases hstart
    obtain ⟨ptrs, it, hyields, hnone⟩ := h.ends
    refine h.entries_of hyields ?_
    have hstop := h.stop_eq hyields
    rw [Iter.next_eq_none_iff.mp hnone, Nat.add_zero, Nat.add_sub_cancel' hlength] at hstop
    exact hstop ▸ .done
  · intro hentries
    refine ⟨_, rfl, hentries.ends [] .start, ?_, ?_⟩
    all_goals
      intro ptrs it hyields
      have hremains := Remains.yields ⟨Nat.add_sub_cancel' hlength, hentries, by simp⟩ hyields
    · exact hremains.length_le
    · exact hremains.inside

/-! ## Two tables -/

/-- The bytes of a table. -/
def ofList (l : List (BitVec 8)) (i : ℕ) : BitVec 8 := l.getD i 0

/-- A table with one entry, for a processor; its checksum is valid. -/
def oneProcessor : ℕ → BitVec 8 :=
  ofList ([0x41, 0x50, 0x49, 0x43, 52, 0, 0, 0, 1, 165] ++ List.replicate 34 0 ++
    [0, 8, 0, 0, 1, 0, 0, 0])

theorem oneProcessor_ends_inside :
    SdtHeader.validateChecksum oneProcessor (headerLength oneProcessor) = .ok () ∧
    ∃ start, iter .checked oneProcessor = .ok start ∧ EndsInside .checked oneProcessor start := by
  refine ⟨by decide, (ends_inside_iff .checked oneProcessor (by decide)).mpr ?_⟩
  have hdone : Entries oneProcessor (headerLength oneProcessor).toNat 52 := .done
  exact .entry (by decide) (by decide) hdone

/-- An entry of length zero is yielded again and again. -/
theorem not_endsInside_of_zero (hzero : bytes (start.ptr + 1) = 0) (hlen : start.len ≠ 0) :
    ¬ EndsInside m bytes start := by
  intro h
  have hstays : ∀ ptrs it, Iter.Yields m bytes start ptrs it → it = start := by
    intro ptrs it hyields
    induction hyields with
    | start => rfl
    | next hyields hnext ih =>
        subst ih
        rw [Iter.next_of_le hlen (by rw [hzero]; exact Nat.zero_le _), hzero] at hnext
        cases hnext
        rfl
  obtain ⟨ptrs, it, hyields, hnone⟩ := h.ends
  rw [hstays ptrs it hyields, Iter.next_eq_none_iff] at hnone
  exact hlen hnone

/-- A table whose checksum is valid, with two bytes of zero for entries. -/
def zeroLength : ℕ → BitVec 8 :=
  ofList ([0x41, 0x50, 0x49, 0x43, 46, 0, 0, 0, 1, 180] ++ List.replicate 36 0)

/-- **An entry of length zero.** -/
theorem zero_length_endless :
    SdtHeader.validateChecksum zeroLength (headerLength zeroLength) = .ok () ∧
    OFFSET_TO_ENTRIES ≤ (headerLength zeroLength).toNat ∧
    iter .checked zeroLength = .ok ⟨OFFSET_TO_ENTRIES, 2⟩ ∧
    ¬ EndsInside .checked zeroLength ⟨OFFSET_TO_ENTRIES, 2⟩ :=
  ⟨by decide, by decide, by decide, not_endsInside_of_zero (by decide) (by decide)⟩

end Madt

end Funderberker

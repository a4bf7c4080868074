import Funderberker.Acpi.Parse
import Funderberker.Pcie.Discover

/-!
# Reading tables through the page tables

`boot/src/acpi/`: the parsers read a table byte by byte through a pointer, and each byte is where
the tables of the processor say.  A byte of a page that is not mapped is a page fault.

## Main definitions

* `readBytes`, `readAs` — reads through a pointer.
* `SdtHeader.validateChecksumIn`, `Madt.Entry.read`, `Madt.Iter.nextIn` — the parsers' reads.
* `Readable` — a pointer through which memory is read as it is.

## Main results

* `Readable.readAs_eq`, `Readable.validateChecksumIn_eq`, `Readable.read_eq`,
  `Readable.nextIn_eq` — what is read is what is there.
-/

namespace Funderberker

open Panicking

/-- The bytes of physical memory. -/
abbrev Ram := PhysAddr → BitVec 8

/-- The bytes from an address on. -/
def Ram.table (ram : Ram) (a : PhysAddr) : ℕ → BitVec 8 := fun i => ram (a + i)

/-! ## The code -/

section

variable {σ : Type} [PmmAllocator σ] (m : Overflow) (s : PagingManager σ) (ram : Ram)

def readBytes (v : VirtAddr) (n : ℕ) : Except Panic (List (BitVec 8)) :=
  (List.range n).mapM fun i => do
    let p ← s.access (v + i)
    .ok (ram p)

/-- A value that takes some bytes. -/
def readAs {α : Type} (n : ℕ) (decode : (ℕ → BitVec 8) → ℕ → α) (v : VirtAddr) :
    Except Panic α := do
  let bytes ← readBytes s ram v n
  .ok (decode (Madt.ofList bytes) 0)

/-- One byte. -/
def byteAt (bytes : ℕ → BitVec 8) (p : ℕ) : BitVec 8 := bytes p

/-- The length is in the header. -/
def SdtHeader.validateChecksumIn (table : VirtAddr) : Except Panic (Except AcpiError Unit) := do
  let length ← readAs s ram 4 Madt.le32 (table + 4)
  let bytes ← readBytes s ram table length.toNat
  .ok (validateChecksum (Madt.ofList bytes) length)

namespace Madt

/-- The type says how much more is read. -/
def Entry.read (entry : VirtAddr) : Except Panic Entry := do
  let entryType ← readAs s ram 1 byteAt entry
  readAs s ram (entrySize entryType) decode entry

def Iter.nextIn (table : VirtAddr) (it : Iter) : Except Panic (Option (ℕ × Iter)) :=
  if it.len = 0 then .ok none
  else do
    let len ← readAs s ram 1 byteAt (table + (it.ptr + 1))
    let rest ← Usize.sub m it.len len.toNat
    .ok (some (it.ptr, ⟨it.ptr + len.toNat, rest⟩))

end Madt

end

/-! ## What a value depends on -/

/-- The value depends on that many bytes. -/
def Reads {α : Type} (n : ℕ) (decode : (ℕ → BitVec 8) → ℕ → α) : Prop :=
  ∀ f g p q, (∀ i < n, f (p + i) = g (q + i)) → decode f p = decode g q

theorem reads_byte : Reads 1 byteAt := fun _ _ _ _ h => h 0 Nat.one_pos

theorem reads_le16 : Reads 2 Madt.le16 := by
  intro f g p q h
  rw [Madt.le16, Madt.le16, h 1 (by omega), show f p = g q from h 0 (by omega)]

theorem reads_le32 : Reads 4 Madt.le32 := by
  intro f g p q h
  rw [Madt.le32, Madt.le32, h 3 (by omega), h 2 (by omega), h 1 (by omega),
    show f p = g q from h 0 (by omega)]

theorem reads_le64 : Reads 8 Madt.le64 := by
  intro f g p q h
  rw [Madt.le64, Madt.le64, reads_le32 f g (p + 4) (q + 4) fun i hi => ?_,
    reads_le32 f g p q fun i hi => h i (by omega)]
  rw [Nat.add_assoc, Nat.add_assoc]
  exact h (4 + i) (by omega)

/-- A part of what is read, at an offset. -/
theorem Reads.at {α : Type} {n k : ℕ} {decode : (ℕ → BitVec 8) → ℕ → α} (h : Reads k decode)
    {f g : ℕ → BitVec 8} {p q off : ℕ} (hsame : ∀ i < n, f (p + i) = g (q + i))
    (hle : off + k ≤ n) : decode f (p + off) = decode g (q + off) :=
  h _ _ _ _ fun i hi => by
    rw [Nat.add_assoc, Nat.add_assoc]
    exact hsame (off + i) (by omega)

theorem decode_congr {f g : ℕ → BitVec 8} {p q : ℕ}
    (h : ∀ i < Madt.entrySize (g q), f (p + i) = g (q + i)) :
    Madt.Entry.decode f p = Madt.Entry.decode g q := by
  have htype : f p = g q := h 0 (Nat.lt_of_lt_of_le Nat.two_pos (Madt.two_le_entrySize _))
  have hbyte : ∀ off, off + 1 ≤ Madt.entrySize (g q) → f (p + off) = g (q + off) :=
    fun off hoff => h off hoff
  unfold Madt.Entry.decode
  rw [htype]
  unfold Madt.entrySize at h hbyte
  dsimp only
  split_ifs at h hbyte ⊢
  · rw [hbyte 2 (by omega), hbyte 3 (by omega), reads_le32.at h (by omega)]
  · rw [hbyte 2 (by omega), reads_le32.at h (by omega), reads_le32.at h (by omega)]
  · rw [hbyte 3 (by omega), reads_le32.at h (by omega), reads_le16.at h (by omega)]
  · rw [hbyte 2 (by omega), reads_le32.at h (by omega), reads_le16.at h (by omega)]
  · rw [hbyte 2 (by omega), reads_le16.at h (by omega), hbyte 5 (by omega)]
  · rw [reads_le64.at h (by omega)]
  · rw [reads_le32.at h (by omega), reads_le32.at h (by omega), reads_le32.at h (by omega)]
  · rfl

/-! ## Readable memory -/

/-- Through the pointer, that many bytes are read as they are from the address on. -/
def Readable {σ : Type} (s : PagingManager σ) (v : VirtAddr) (a : PhysAddr) (n : ℕ) : Prop :=
  ∀ i < n, s.access (v + i) = .ok (a + i)

section

variable {σ : Type} {m : Overflow} {s : PagingManager σ} {ram : Ram} {v : VirtAddr} {a : PhysAddr}
  {n k off : ℕ}

theorem Readable.mono (h : Readable s v a n) (hle : k ≤ n) : Readable s v a k :=
  fun i hi => h i (hi.trans_le hle)

theorem mapM_eq_ok {α β ε : Type} {f : α → Except ε β} {g : α → β} {l : List α}
    (h : ∀ x ∈ l, f x = .ok (g x)) : l.mapM f = .ok (l.map g) := by
  induction l with
  | nil => rfl
  | cons x l ih =>
      rw [List.forall_mem_cons] at h
      rw [List.mapM_cons, h.1, ih h.2]
      rfl

theorem ofList_map_range {f : ℕ → BitVec 8} {i : ℕ} (hi : i < n) :
    Madt.ofList ((List.range n).map f) i = f i := by
  rw [Madt.ofList, List.getD_eq_getElem?_getD, List.getElem?_map, List.getElem?_range hi]
  rfl

theorem Readable.readBytes_eq (h : Readable s v a n) (hle : off + k ≤ n) :
    readBytes s ram (v + off) k = .ok ((List.range k).map fun i => ram.table a (off + i)) := by
  refine mapM_eq_ok fun i hi => ?_
  rw [List.mem_range] at hi
  have haddr : v + off + i = v + (off + i) := Nat.add_assoc v off i
  rw [haddr, h (off + i) (by omega)]
  rfl

theorem Readable.readAs_eq {α : Type} {decode : (ℕ → BitVec 8) → ℕ → α} (h : Readable s v a n)
    (hdecode : Reads k decode) (hle : off + k ≤ n) :
    readAs s ram k decode (v + off) = .ok (decode (ram.table a) off) := by
  rw [readAs, h.readBytes_eq hle, ok_bind]
  refine congrArg Except.ok (hdecode _ _ _ _ fun i hi => ?_)
  rw [Nat.zero_add, ofList_map_range hi]

theorem Readable.readBytes_start (h : Readable s v a n) (hle : k ≤ n) :
    readBytes s ram v k = .ok ((List.range k).map (ram.table a)) := by
  refine mapM_eq_ok fun i hi => ?_
  rw [List.mem_range] at hi
  rw [h i (by omega)]
  rfl

/-- The checksum is that of the table. -/
theorem Readable.validateChecksumIn_eq (h : Readable s v a n) (hheader : 8 ≤ n)
    (hlength : (Madt.headerLength (ram.table a)).toNat ≤ n) :
    SdtHeader.validateChecksumIn s ram v = .ok
      (SdtHeader.validateChecksum (ram.table a) (Madt.headerLength (ram.table a))) := by
  rw [SdtHeader.validateChecksumIn, h.readAs_eq reads_le32 hheader, ok_bind]
  rw [show Madt.le32 (ram.table a) 4 = Madt.headerLength (ram.table a) from rfl,
    h.readBytes_start hlength, ok_bind, SdtHeader.validateChecksum, SdtHeader.validateChecksum,
    SdtHeader.sum_congr fun i hi => ofList_map_range hi]

/-- The entry is the one at the offset. -/
theorem Readable.read_eq (h : Readable s v a n)
    (hle : off + Madt.entrySize (ram.table a off) ≤ n) :
    Madt.Entry.read s ram (v + off) = .ok (Madt.Entry.decode (ram.table a) off) := by
  have htwo := Madt.two_le_entrySize (ram.table a off)
  rw [Madt.Entry.read, h.readAs_eq reads_byte (by omega), ok_bind, readAs, byteAt,
    h.readBytes_eq hle, ok_bind]
  refine congrArg Except.ok (decode_congr fun i hi => ?_)
  rw [Nat.zero_add, ofList_map_range hi]

/-- The iterator goes on as it does in the bytes of the table. -/
theorem Readable.nextIn_eq {it : Madt.Iter} (h : Readable s v a n)
    (hle : it.len ≠ 0 → it.ptr + 2 ≤ n) :
    it.nextIn m s ram v = it.next m (ram.table a) := by
  rw [Madt.Iter.nextIn, Madt.Iter.next]
  split
  · rfl
  · next hlen => rw [h.readAs_eq reads_byte (by have := hle hlen; omega), ok_bind, byteAt]

end

end Funderberker

import Funderberker.Paging.Atomic
import Funderberker.Paging.Exclusive

/-!
# Reading the ACPI tables

`boot/src/acpi/`: the tables are at physical addresses that the firmware chose.  Before one is
read, the page that its first byte is on is mapped, and the pointer to the table is the address of
that page plus the offset in it.  How long the table is, is known only then: the length is in its
header.

One page is mapped, so a table that goes on after the end of its first page is read through pages
that were not mapped for it.

## Main definitions

* `AcpiError`, `SdtHeader.validateChecksum`, `SdtHeader.entryCount`.
* `mapTable`, `Rsdp2.getXsdt`, `Xsdt.next` — the pointer to a table.
* `AcpiTable.bytesRead` — how much of a table is read.
* `PagingManager.MapsByte` — an address that a call has mapped.

## Main results

* `validateChecksum_reads` — the checksum is that of all bytes.
* `table_mapped_iff` — when all bytes that are read have been mapped.
-/

namespace Funderberker

open Panicking PageTable

/-! ## Headers -/

inductive AcpiError
  | invalidChecksum
  deriving DecidableEq, Repr

namespace SdtHeader

/-- The sum that `validate_checksum` takes of the bytes of a table. -/
def sum (bytes : ℕ → BitVec 8) (length : ℕ) : ℕ :=
  (List.range length).foldl (fun acc i => acc + (bytes i).toNat) 0

/-- The bytes are those from the start of the header on. -/
def validateChecksum (bytes : ℕ → BitVec 8) (length : BitVec 32) : Except AcpiError Unit :=
  if sum bytes length.toNat % 0x100 ≠ 0 then .error .invalidChecksum else .ok ()

theorem sum_succ (bytes : ℕ → BitVec 8) (length : ℕ) :
    sum bytes (length + 1) = sum bytes length + (bytes length).toNat := by
  rw [sum, sum, List.range_succ, List.foldl_append]
  rfl

theorem sum_congr {bytes bytes' : ℕ → BitVec 8} {length : ℕ}
    (h : ∀ i < length, bytes i = bytes' i) : sum bytes length = sum bytes' length := by
  induction length with
  | zero => rfl
  | succ n ih =>
      rw [sum_succ, sum_succ, ih fun i hi => h i (Nat.lt_succ_of_lt hi), h n (Nat.lt_succ_self n)]

/-- One byte may take any value from the sum. -/
theorem sum_update (bytes : ℕ → BitVec 8) {length i : ℕ} (h : i < length) (b : BitVec 8) :
    sum (Function.update bytes i b) length + (bytes i).toNat = sum bytes length + b.toNat := by
  induction length with
  | zero => exact absurd h (Nat.not_lt_zero i)
  | succ n ih =>
      rw [sum_succ, sum_succ]
      rcases Nat.lt_succ_iff_lt_or_eq.mp h with hlt | rfl
      · rw [Function.update_of_ne (Nat.ne_of_gt hlt)]
        have := ih hlt
        omega
      · have hother : ∀ j < i, Function.update bytes i b j = bytes j := fun j hj =>
          Function.update_of_ne (Nat.ne_of_lt hj) ..
        rw [Function.update_self, sum_congr hother]
        omega

theorem validateChecksum_ok_iff {bytes : ℕ → BitVec 8} {length : BitVec 32} :
    validateChecksum bytes length = .ok () ↔ sum bytes length.toNat % 0x100 = 0 := by
  rw [validateChecksum]
  split
  · next h => simpa using h
  · next h => simpa using h

/-- The checksum depends on every byte of the table: in a table that passes, no byte can be
changed alone. -/
theorem validateChecksum_reads {bytes : ℕ → BitVec 8} {length : BitVec 32}
    (hvalid : validateChecksum bytes length = .ok ()) {i : ℕ} (h : i < length.toNat)
    {b : BitVec 8} (hb : b ≠ bytes i) :
    validateChecksum (Function.update bytes i b) length = .error .invalidChecksum := by
  rw [validateChecksum_ok_iff] at hvalid
  have hsum := sum_update bytes h b
  rw [validateChecksum, if_pos]
  intro hzero
  refine hb (BitVec.eq_of_toNat_eq ?_)
  have hlt := b.isLt
  have hlt' := (bytes i).isLt
  omega

end SdtHeader

/-! ## Pointers to tables -/

section

variable {σ : Type} [PmmAllocator σ] (m : Overflow) (s : PagingManager σ)

/-- The page of the first byte is mapped. -/
def mapTable (addr : PhysAddr) : Except Panic (VirtAddr × PagingManager σ) := do
  let diff := addr % BASIC_PAGE_SIZE
  match ← s.mapPages m (addr - diff) 1 Flags.new .size4kb with
  | (.error _, _) => .error .unwrapErr
  | (.ok ptr, s) => .ok (ptr + diff, s)

def Rsdp2.getXsdt (xsdtAddress : BitVec 64) : Except Panic (VirtAddr × PagingManager σ) := do
  let (ptr, s) ← mapTable m s xsdtAddress.toNat
  sanityAssert m (ptr % 4 = 0)
  .ok (ptr, s)

/-- The iterator over the addresses in the XSDT, of which some are left. -/
def Xsdt.next : List (BitVec 64) →
    Except Panic (Option (VirtAddr × List (BitVec 64)) × PagingManager σ)
  | [] => .ok (none, s)
  | addr :: rest => do
      let (ptr, s) ← mapTable m s addr.toNat
      .ok (some (ptr, rest), s)

end

/-- The tables that have a parser. -/
inductive AcpiTable
  | madt
  | hpet
  | mcfg
  deriving DecidableEq, Repr

namespace AcpiTable

def SIGNATURE : AcpiTable → List (BitVec 8)
  | madt => [0x41, 0x50, 0x49, 0x43]
  | hpet => [0x48, 0x50, 0x45, 0x54]
  | mcfg => [0x4d, 0x43, 0x46, 0x47]

/-- The parser for a signature. -/
def ofSignature (signature : List (BitVec 8)) : Option AcpiTable :=
  [madt, hpet, mcfg].find? fun t => t.SIGNATURE = signature

end AcpiTable

/-- Where a pointer to a table comes from. -/
inductive TableSource
  /-- The address in the RSDP. -/
  | rsdp
  /-- The first of the addresses that are left in the XSDT; the table there has the signature. -/
  | xsdt (rest : List (BitVec 64)) (signature : List (BitVec 8))

namespace TableSource

/-- The pointer to the table. -/
def pointer {σ : Type} [PmmAllocator σ] (m : Overflow) (s : PagingManager σ) (addr : BitVec 64) :
    TableSource → Except Panic (VirtAddr × PagingManager σ)
  | rsdp => Rsdp2.getXsdt m s addr
  | xsdt rest _ => do
      match ← Xsdt.next m s (addr :: rest) with
      | (none, _) => .error .unreachable
      | (some (ptr, _), s) => .ok (ptr, s)

/-- How many bytes of the table are read.  Every parser begins with the checksum; of a table
without a parser only the signature is read. -/
def bytesRead (length : BitVec 32) : TableSource → ℕ
  | rsdp => length.toNat
  | xsdt _ signature =>
      if (AcpiTable.ofSignature signature).isSome then length.toNat else min 4 length.toNat

end TableSource

/-! ## What a call has mapped -/

section

variable {σ : Type}

/-- The page of the address was mapped to nothing before, and is mapped so that the address is
translated to `addr` after. -/
def PagingManager.MapsByte (s s' : PagingManager σ) (v : VirtAddr) (addr : PhysAddr) : Prop :=
  content s.world.mem s.pml (pagePath v .size4kb) = none ∧
    ∃ e, content s'.world.mem s'.pml (pagePath v .size4kb) = some (0, e) ∧
      Entry.frame e + v % BASIC_PAGE_SIZE = addr

/-- The address of the page that is reserved next. -/
def PagingManager.nextAddr (s : PagingManager σ) : VirtAddr :=
  s.vaa.hander.next * BASIC_PAGE_SIZE % 2 ^ 64

/-- Calls that mark no page to be freed, are clear, and unmap only basic pages. -/
def EarlyCalls (r : PhysAddr) (log : List TableCall) (w : World σ) (c : TableCall) : Prop :=
  PlainCalls r log w c ∧ ∀ baseAddr pageCount pageSize, c = .unmap baseAddr pageCount pageSize →
    pageSize = .size4kb

end

/-- The words of tables after such calls: what is absent above the bottom level has no flags. -/
def EarlyWord (level : ℕ) (e : Word) : Prop :=
  PlainWord level e ∧ (level ≠ 0 → e.getLsbD 0 = false → Entry.Unused e)

theorem grammar_earlyWord : Grammar EarlyWord where
  zero level := ⟨grammar_plainWord.zero level, fun _ _ => Entry.unused_zero⟩
  table level a ha hlt := ⟨grammar_plainWord.table level a ha hlt, fun _ habsent => by
    rw [Entry.present_tableEntry] at habsent
    cases habsent⟩
  cases h := grammar_plainWord.cases h.1

theorem EarlyCalls.admits {σ : Type} {r : PhysAddr} {log : List TableCall} {w : World σ}
    {c : TableCall} (h : EarlyCalls r log w c) : c.Admits EarlyWord := by
  have hplain := h.1.2.admits
  cases c with
  | map baseAddr physAddr pageCount s flags =>
      intro hphys l hl e he habsent
      refine ⟨hplain hphys l hl e he.1 habsent, fun hlevel hmapped => ?_⟩
      have hjoins : ¬ Entry.Joins flags s := by
        intro hjoins
        rw [Entry.present_mapped hjoins] at hmapped
        cases hmapped
      exact TableCall.unused_mapped_of_not hjoins (addrAt_mod hphys l) (he.2 hlevel habsent)
  | unmap baseAddr pageCount s =>
      obtain rfl := h.2 _ _ _ rfl
      intro e he hpres hleaf
      obtain ⟨hmark, hreleased⟩ := hplain e he.1 hpres hleaf
      exact ⟨hmark, hreleased, fun hlevel => absurd rfl hlevel⟩

/-! ## The pages of a table -/

section

variable {base : VirtAddr}

theorem pagePath_eq (v : VirtAddr) :
    pagePath v .size4kb = pathOf (pageOf v) ++ [pageOf v % 512] := by
  rw [← path_eq, ← nextLevelIndex_zero]
  rfl

theorem pagePath_eq_iff {v v' : VirtAddr} :
    pagePath v .size4kb = pagePath v' .size4kb ↔ pageOf v = pageOf v' := by
  rw [pagePath_eq, pagePath_eq]
  constructor
  · intro h
    obtain ⟨hpath, hindex⟩ := List.append_inj h rfl
    exact eq_of_pathOf_eq (pageOf_lt v) (pageOf_lt v') hpath (List.cons.inj hindex).1
  · intro h
    rw [h]

/-- An offset from a page is on that page when it is small, and on another when it is not. -/
theorem pageOf_add_iff {k : ℕ} (hbase : base % 4096 = 0) (hk : k < 2 ^ 33) :
    pageOf ((base + k) % 2 ^ 64) = pageOf base ↔ k < 4096 := by
  obtain ⟨q, rfl⟩ := Nat.dvd_of_mod_eq_zero hbase
  rw [pageOf, pageOf, BASIC_PAGE_SIZE, PAGES]
  omega

theorem add_mod_page {k : ℕ} (hbase : base % 4096 = 0) (hk : k < BASIC_PAGE_SIZE) :
    (base + k) % 2 ^ 64 % BASIC_PAGE_SIZE = k := by
  obtain ⟨q, rfl⟩ := Nat.dvd_of_mod_eq_zero hbase
  rw [BASIC_PAGE_SIZE] at hk ⊢
  omega

end

section

variable {σ : Type} {m : Overflow} {s s' : PagingManager σ} {w₀ : World σ}
  {bound : ℕ} {respects : Set PhysAddr → σ → Prop} {log : List TableCall} {ptr : VirtAddr}

theorem handout_basic {vaa vaa' : VirtualAddressAllocator} {virt : VirtAddr}
    (h : vaa.handout m 1 PageSize.size4kb.pageAlignment = .ok (virt, vaa')) :
    virt = vaa.hander.next * BASIC_PAGE_SIZE % 2 ^ 64 := by
  have halign : VirtualAddressAllocator.alignOffset vaa.hander.next
      PageSize.size4kb.pageAlignment = .ok 0 := by
    rw [show PageSize.size4kb.pageAlignment = 1 from rfl,
      VirtualAddressAllocator.alignOffset, if_neg (by decide), if_pos (Nat.mod_one _)]
  rw [VirtualAddressAllocator.handout, halign, ok_bind, Usize.add_eq (by omega), ok_bind,
    IdHander.handoutAndSkip] at h
  split at h
  · cases h
  · obtain ⟨⟨id, hander⟩, hid, h⟩ := bind_eq_ok.mp h
    obtain ⟨next, -, hid⟩ := bind_eq_ok.mp hid
    cases hid
    obtain ⟨addr, haddr, h⟩ := bind_eq_ok.mp h
    cases h
    exact (Usize.mul_spec m _ _).post haddr

/-- The call that maps the page of a table. -/
def tableCall (s : PagingManager σ) (addr : PhysAddr) : TableCall :=
  .map s.nextAddr (addr - addr % BASIC_PAGE_SIZE) 1 .size4kb Flags.new

theorem nextAddr_mod (s : PagingManager σ) : s.nextAddr % 4096 = 0 := by
  have hdvd : BASIC_PAGE_SIZE ∣ 2 ^ 64 := by decide
  rw [PagingManager.nextAddr, ← BASIC_PAGE_SIZE, Nat.mod_mod_of_dvd _ hdvd, Nat.mul_mod_left]

theorem bytesRead_lt (t : TableSource) (length : BitVec 32) : t.bytesRead length < 2 ^ 32 := by
  have hlt := length.isLt
  cases t with
  | rsdp => exact hlt
  | xsdt rest signature =>
      rw [TableSource.bytesRead]
      split <;> omega

/-- Where nothing is mapped, no page is on the way. -/
theorem tableCall_clear {addr : PhysAddr} (hI : SizedInv EarlyWord respects s.pml s.world)
    (hfree : content s.world.mem s.pml (pagePath s.nextAddr .size4kb) = none) :
    (tableCall s addr).Clear s.world.mem s.pml := fun _ =>
  hI.sized.passes (p := []) grammar_earlyWord (fun _ _ hlevel he habsent => he.2 hlevel habsent)
    (by simp) rfl hfree

theorem tableCall_admits (addr : PhysAddr) : (tableCall s addr).Admits EarlyWord := by
  intro hphys l _ e he habsent
  refine ⟨TableCall.plainWord_mapped rfl (addrAt_mod hphys l) he.1 habsent, fun hlevel => ?_⟩
  exact absurd rfl hlevel

variable [PmmAllocator σ]

theorem mapTable_ok {addr : PhysAddr} (h : mapTable m s addr = .ok (ptr, s')) :
    ptr = s.nextAddr + addr % BASIC_PAGE_SIZE ∧ s'.pml = s.pml ∧
      (tableCall s addr).run m s.pml s.world = .ok (.ok (), s'.world) := by
  obtain ⟨⟨res, s₁⟩, hmap, h⟩ := bind_eq_ok.mp h
  obtain ⟨⟨virt, vaa⟩, hhand, hmap⟩ := bind_eq_ok.mp hmap
  obtain rfl := handout_basic hhand
  obtain ⟨⟨res', w⟩, hcall, hmap⟩ := bind_eq_ok.mp hmap
  cases res' with
  | error e =>
      cases hmap
      cases h
  | ok _ =>
      cases hmap
      cases h
      exact ⟨rfl, rfl, hcall⟩

/-- A pointer is the result of `mapTable`, wherever the address comes from. -/
theorem TableSource.pointer_ok {t : TableSource} {addr : BitVec 64}
    (h : t.pointer m s addr = .ok (ptr, s')) : mapTable m s addr.toNat = .ok (ptr, s') := by
  cases t with
  | rsdp =>
      obtain ⟨⟨ptr, s₁⟩, hmap, h⟩ := bind_eq_ok.mp h
      obtain ⟨_, -, h⟩ := bind_eq_ok.mp h
      cases h
      exact hmap
  | xsdt rest signature =>
      obtain ⟨⟨x, s₁⟩, hnext, h⟩ := bind_eq_ok.mp h
      obtain ⟨⟨ptr, s₁⟩, hmap, hnext⟩ := bind_eq_ok.mp hnext
      cases hnext
      cases h
      exact hmap

/-- What the call maps: its page, to the page of the table, and nothing else. -/
theorem tableCall_spec {addr : PhysAddr} (law : Supplies σ m bound respects)
    (hbound : bound ≤ 2 ^ 52) (hI : SizedInv EarlyWord respects s.pml s.world)
    (haddr : addr < 2 ^ 64)
    (hfree : content s.world.mem s.pml (pagePath s.nextAddr .size4kb) = none)
    (hrun : (tableCall s addr).run m s.pml s.world = .ok (.ok (), s'.world)) :
    (∃ e, content s'.world.mem s.pml (pagePath s.nextAddr .size4kb) = some (0, e) ∧
      Entry.frame e = addr - addr % BASIC_PAGE_SIZE) ∧
    ∀ v, pageOf v ≠ pageOf s.nextAddr → content s'.world.mem s.pml (pagePath v .size4kb) =
      content s.world.mem s.pml (pagePath v .size4kb) := by
  obtain ⟨-, j, hj, haffects, hres⟩ := (TableCall.run_spec grammar_earlyWord law hbound hI
    (tableCall_clear hI hfree) (tableCall_admits addr)).post hrun
  have hentry : ∀ v, (tableCall s addr).entryPath 0 <+: pagePath v .size4kb ↔
      pageOf v = pageOf s.nextAddr := by
    intro v
    rw [← pagePath_eq_iff]
    constructor
    · intro hpre
      exact (hpre.eq_of_length rfl).symm
    · intro heq
      rw [heq]
      exact pagePath_begins s.nextAddr .size4kb
  have hone : (tableCall s addr).reach = 1 := by
    have := (tableCall s addr).index_lt
    change min 1 (512 - (tableCall s addr).index) = 1
    omega
  rcases hres with ⟨-, halign, -, rfl⟩ | ⟨⟨err, herr⟩, -⟩ | ⟨⟨err, herr⟩, -⟩
  · rw [hone] at haffects
    have hphys : (addr - addr % BASIC_PAGE_SIZE) % PageSize.size4kb.size = 0 := halign.2
    have hlt : addr - addr % BASIC_PAGE_SIZE < 2 ^ 64 := (Nat.sub_le _ _).trans_lt haddr
    obtain ⟨habsent, -⟩ := haffects.accepted 0 Nat.one_pos
    refine ⟨⟨Entry.leaf (addr - addr % BASIC_PAGE_SIZE) Flags.new, ?_, ?_⟩, fun v hv => ?_⟩
    · have hleaf : (tableCall s addr).written 0 ((tableCall s addr).entry s.world.mem s.pml 0) =
          Entry.leaf (addr - addr % BASIC_PAGE_SIZE) Flags.new := by
        have haddrAt : addrAt (addr - addr % BASIC_PAGE_SIZE) .size4kb 0 =
            addr - addr % BASIC_PAGE_SIZE := by
          rw [addrAt, Nat.zero_mul, Nat.add_zero, Nat.mod_eq_of_lt hlt]
        have hmap := Entry.map_eq habsent hphys Flags.new
        rw [Entry.map_size4kb habsent hphys] at hmap
        rw [tableCall, TableCall.written, haddrAt]
        exact (Prod.mk.inj (Except.ok.inj hmap)).2.symm
      have hafter := haffects.after 0 Nat.one_pos _ (length_pagePath s.nextAddr .size4kb)
        ((hentry s.nextAddr).mpr rfl)
      rw [hafter, hleaf]
      refine held_of_present ?_ 0
      rw [Entry.getLsbD_leaf hphys (by omega)]
      rfl
    · exact Entry.frame_leaf hphys hlt Flags.Built.new.plain
    · refine haffects.same _ (length_pagePath v .size4kb) fun l hl hpre => ?_
      obtain rfl : l = 0 := by omega
      exact hv ((hentry v).mp hpre)
  · cases herr
  · cases herr

/-- **When a table is mapped before it is read.**  After any run of calls that are clear and
unmap only basic pages, and for a pointer that the code makes: all bytes that are read of the
table are on pages that were mapped for it exactly when none is read, or nothing was mapped yet at
the reserved page and the bytes do not go past the end of the first page. -/
theorem table_mapped_iff (law : Supplies σ m bound respects) (hbound : bound ≤ 2 ^ 52)
    (hzero : ∀ i, w₀.mem s.pml i = 0) (hU : respects {s.pml} w₀.pmm)
    (h : CallsReach m s.pml w₀ (EarlyCalls s.pml) log s.world) (t : TableSource)
    (addr : BitVec 64) (length : BitVec 32) (hrun : t.pointer m s addr = .ok (ptr, s')) :
    (∀ i < t.bytesRead length, s.MapsByte s' ((ptr + i) % 2 ^ 64) (addr.toNat + i)) ↔
      t.bytesRead length = 0 ∨
        (content s.world.mem s.pml (pagePath s.nextAddr .size4kb) = none ∧
          addr.toNat % BASIC_PAGE_SIZE + t.bytesRead length ≤ BASIC_PAGE_SIZE) := by
  have hI : SizedInv EarlyWord respects s.pml s.world :=
    h.sizedInv grammar_earlyWord law hbound hzero hU fun _ _ c hc => ⟨hc.1.1, hc.admits⟩
  obtain ⟨rfl, hpml, hcall⟩ := mapTable_ok (t.pointer_ok hrun)
  have hread := bytesRead_lt t length
  have hpage : ∀ i < t.bytesRead length,
      (pageOf ((s.nextAddr + addr.toNat % BASIC_PAGE_SIZE + i) % 2 ^ 64) = pageOf s.nextAddr ↔
        addr.toNat % BASIC_PAGE_SIZE + i < BASIC_PAGE_SIZE) := by
    intro i hi
    have hk : addr.toNat % 4096 + i < 2 ^ 33 := by omega
    rw [Nat.add_assoc]
    exact pageOf_add_iff (nextAddr_mod s) hk
  constructor
  · intro hmaps
    by_cases hnone : t.bytesRead length = 0
    · exact Or.inl hnone
    · right
      have hfree : content s.world.mem s.pml (pagePath s.nextAddr .size4kb) = none := by
        obtain ⟨hbefore, -⟩ := hmaps 0 (Nat.pos_of_ne_zero hnone)
        have hdiff : addr.toNat % BASIC_PAGE_SIZE + 0 < BASIC_PAGE_SIZE :=
          Nat.mod_lt _ basicPageSize_pos
        rwa [pagePath_eq_iff.mpr ((hpage 0 (Nat.pos_of_ne_zero hnone)).mpr hdiff)] at hbefore
      refine ⟨hfree, ?_⟩
      -- the last byte that is read is on the page of the call
      by_contra hlong
      have hlast : t.bytesRead length - 1 < t.bytesRead length := by omega
      obtain ⟨hbefore, e, hafter, -⟩ := hmaps _ hlast
      have hother : pageOf ((s.nextAddr + addr.toNat % BASIC_PAGE_SIZE +
          (t.bytesRead length - 1)) % 2 ^ 64) ≠ pageOf s.nextAddr := by
        rw [Ne, hpage _ hlast]
        omega
      rw [hpml, (tableCall_spec law hbound hI addr.isLt hfree hcall).2 _ hother, hbefore] at hafter
      cases hafter
  · rintro (hnone | ⟨hfree, hfits⟩) i hi
    · omega
    · have hsame := (hpage i hi).mpr (by omega)
      obtain ⟨⟨e, hcontent, hframe⟩, -⟩ := tableCall_spec law hbound hI addr.isLt hfree hcall
      rw [PagingManager.MapsByte, pagePath_eq_iff.mpr hsame, hpml]
      refine ⟨hfree, e, hcontent, ?_⟩
      rw [hframe, Nat.add_assoc, add_mod_page (nextAddr_mod s) (by omega), ← Nat.add_assoc,
        Nat.sub_add_cancel (Nat.mod_le _ _)]

end

/-! ## One table -/

/-- The small manager after a table at an offset in its page has been mapped. -/
def afterTable (addr : BitVec 64) : PagingManager BuddyAllocator :=
  stateAfter smallManager (TableSource.rsdp.pointer .checked smallManager addr)

/-- A table of 36 bytes in the middle of a page. -/
theorem small_table_mapped :
    TableSource.rsdp.pointer .checked smallManager 0x20010 = .ok (0x3010, afterTable 0x20010) ∧
    ∀ i < 36,
      smallManager.MapsByte (afterTable 0x20010) ((0x3010 + i) % 2 ^ 64) (0x20010 + i) := by
  have hrun : TableSource.rsdp.pointer .checked smallManager 0x20010 =
      .ok (0x3010, afterTable 0x20010) := eq_ok_stateAfter smallManager (by decide)
  exact ⟨hrun, (table_mapped_iff (BuddyAllocator.supplies .checked
    smallSupply_frees.inv.bound_le_word) (by decide) (fun _ => rfl) smallSupply_respects .start
    .rsdp 0x20010 36 hrun).mpr (Or.inr ⟨by decide, by decide⟩)⟩

/-- **A table that crosses a page.**  The last 20 of its 36 bytes are on a page that is mapped to
nothing, before the call and after it. -/
theorem crossing_table_unmapped :
    TableSource.rsdp.pointer .checked smallManager 0x20ff0 =
      .ok (0x3ff0, afterTable 0x20ff0) ∧
    16 < TableSource.rsdp.bytesRead 36 ∧
    content (afterTable 0x20ff0).world.mem (afterTable 0x20ff0).pml
      (pagePath (0x3ff0 + 16) .size4kb) = none ∧
    ¬ smallManager.MapsByte (afterTable 0x20ff0) (0x3ff0 + 16) (0x20ff0 + 16) := by
  have hnone : content (afterTable 0x20ff0).world.mem (afterTable 0x20ff0).pml
      (pagePath (0x3ff0 + 16) .size4kb) = none := by decide
  refine ⟨eq_ok_stateAfter smallManager (by decide), by decide, hnone, ?_⟩
  rintro ⟨-, e, hafter, -⟩
  rw [hnone] at hafter
  cases hafter

end Funderberker

import Funderberker.Collections.IdTracker
import Funderberker.Cpu.Gdt

/-!
# Control blocks of guests

`hypervisor/src/svm/mod.rs`: a guest is created with the state of the processor that creates
it, and with an address-space id that no guest has.  The ids are handed out from one up to the
number that `CPUID` gives, and none is taken back.

The number that `CPUID` gives is the number of the ids, the host's id zero included.  The
allocator takes it for the greatest id, so that the last id it hands out is not one that the
processor has.

## Main definitions

* `Vmcb` — the fields of a control block that a creation writes.
* `Vmcb.initGuestState` — one creation.
* `VmcbReach` — runs of creations.

## Main results

* `VmcbReach.inv` — the ids of a run are the numbers from one on.
* `asids_valid_iff` — when they are all ids of the processor.
-/

namespace Funderberker

open Panicking

/-! ## The processor -/

/-- The limit and the base of a table. -/
structure DescriptorTablePtr where
  limit : BitVec 16
  base : BitVec 64

def DescriptorTablePtr.toFullSelector (p : DescriptorTablePtr) : FullSegmentSelector :=
  { selector := 0, attributes := 0, limit := p.limit.setWidth 32, base := p.base }

/-- The registers of the processor that a creation reads, and the table behind `GDTR`. -/
structure GuestSource where
  gdt : Gdt
  gdtr : DescriptorTablePtr
  idtr : DescriptorTablePtr
  cs : SegmentSelector
  ss : SegmentSelector
  es : SegmentSelector
  ds : SegmentSelector
  rsp : BitVec 64
  cr3 : BitVec 64
  cr4 : BitVec 64
  efer : BitVec 64
  dr6 : BitVec 64
  dr7 : BitVec 64

namespace Efer

def SVM : BitVec 64 := 1 <<< 12
def LMA : BitVec 64 := 1 <<< 10

/-- Every flag of the register. -/
def ALL : BitVec 64 :=
  1 <<< 0 ||| 1 <<< 8 ||| LMA ||| 1 <<< 11 ||| SVM ||| 1 <<< 13 ||| 1 <<< 14 ||| 1 <<< 15 |||
    1 <<< 16 ||| 1 <<< 17 ||| 1 <<< 18 ||| 1 <<< 19

end Efer

/-! ## Control blocks -/

/-- The fields of a control block that a creation writes; the others are zero. -/
structure Vmcb where
  cs : FullSegmentSelector
  ss : FullSegmentSelector
  es : FullSegmentSelector
  ds : FullSegmentSelector
  gdtr : FullSegmentSelector
  idtr : FullSegmentSelector
  rip : BitVec 64
  rsp : BitVec 64
  rax : BitVec 64
  rflags : BitVec 64
  cr0 : BitVec 64
  cr3 : BitVec 64
  cr4 : BitVec 64
  efer : BitVec 64
  dr6 : BitVec 64
  dr7 : BitVec 64
  cpl : BitVec 8
  interceptVmrun : Bool
  interceptCpuid : Bool
  interceptHlt : Bool
  interceptExceptions : BitVec 32
  guestAsid : ℕ

namespace Vmcb

variable (m : Overflow)

/-- A check that only debug builds make. -/
def sanityAssert (p : Prop) [Decidable p] : Except Panic Unit :=
  if m = .checked ∧ ¬ p then .error .sanity else .ok ()

def sanityCheckGuestState (v : Vmcb) : Except Panic Unit := do
  sanityAssert m ¬ (v.efer &&& Efer.SVM = 0)
  sanityAssert m ¬ (v.cr0.getLsbD 30 = false ∧ v.cr0.getLsbD 29 = true)
  sanityAssert m ¬ (v.cr0.extractLsb' 32 32 ≠ 0)
  sanityAssert m ¬ (v.cr3.extractLsb' 0 3 ≠ 0 ∨ v.cr3.extractLsb' 5 7 ≠ 0)
  sanityAssert m ¬ (v.cr4.getLsbD 15 = true ∨ v.cr4.getLsbD 19 = true ∨ v.cr4.extractLsb' 25 39 ≠ 0)
  sanityAssert m ¬ (v.dr6.extractLsb' 32 32 ≠ 0)
  sanityAssert m ¬ (v.dr7.extractLsb' 14 2 ≠ 0)
  sanityAssert m ¬ (v.efer &&& ~~~Efer.ALL ≠ 0)
  sanityAssert m
    ¬ (v.efer &&& Efer.LMA ≠ 0 ∧ v.cr0.getLsbD 31 = true ∧ v.cr4.getLsbD 5 = false)
  sanityAssert m
    ¬ (v.efer &&& Efer.LMA ≠ 0 ∧ v.cr0.getLsbD 31 = true ∧ v.cr0.getLsbD 0 = false)
  sanityAssert m ¬ (v.interceptVmrun = false)
  sanityAssert m ¬ (v.guestAsid = 0)
  sanityAssert m ¬ (v.cr4.getLsbD 23 = true ∧ v.cr0.getLsbD 16 = false)

/-- Fill in a control block that is all zero. -/
def initGuestState (source : GuestSource) (asidAllocator : IdTracker) (rip : BitVec 64) :
    Except Panic (Vmcb × IdTracker) := do
  if source.gdtr.base = 0 then .error .unwrapNone
  else do
    let cs ← source.gdt.readFullSelector source.cs
    let ss ← source.gdt.readFullSelector source.ss
    let es ← source.gdt.readFullSelector source.es
    let ds ← source.gdt.readFullSelector source.ds
    let (id, asidAllocator) ← asidAllocator.allocate m
    let id ← IdTracker.unwrap id
    let v : Vmcb :=
      { cs := cs
        ss := ss
        es := es
        ds := ds
        gdtr := source.gdtr.toFullSelector
        idtr := source.idtr.toFullSelector
        rip := rip
        rsp := source.rsp
        rax := 0
        rflags := 1 <<< 16
        cr0 := 1 <<< 30 ||| 1 <<< 29
        cr3 := source.cr3
        cr4 := source.cr4
        efer := source.efer
        dr6 := source.dr6
        dr7 := source.dr7
        cpl := 0
        interceptVmrun := true
        interceptCpuid := true
        interceptHlt := true
        interceptExceptions := 0xffffffff
        guestAsid := Usize.asU32 id }
    v.sanityCheckGuestState m
    .ok (v, asidAllocator)

end Vmcb

/-- The greatest id is what `CPUID` has in `EBX`. -/
def initAsidAllocator (m : Overflow) (ebx : BitVec 32) : Except Panic IdTracker :=
  IdTracker.new m 1 ebx.toNat

/-! ## Runs -/

/-- The control blocks that have been created since the ids were set up, the last one first.
Each may be created on another processor. -/
inductive VmcbReach (m : Overflow) (ebx : BitVec 32) : List Vmcb → IdTracker → Prop
  | start {t : IdTracker} (h : initAsidAllocator m ebx = .ok t) : VmcbReach m ebx [] t
  | step {vmcbs : List Vmcb} {t t' : IdTracker} {source : GuestSource} {rip : BitVec 64} {v : Vmcb}
      (hreach : VmcbReach m ebx vmcbs t)
      (hrun : Vmcb.initGuestState m source t rip = .ok (v, t')) :
      VmcbReach m ebx (v :: vmcbs) t'

/-- An id that guests may have on a processor with `nasid` ids. -/
def ValidAsid (nasid : BitVec 32) (asid : ℕ) : Prop := 1 ≤ asid ∧ asid ≤ nasid.toNat - 1

variable {m : Overflow} {ebx : BitVec 32} {vmcbs : List Vmcb} {t t' : IdTracker}
  {source : GuestSource} {rip : BitVec 64} {v : Vmcb} {live : Set ℕ} {l : List Bool}

/-- A creation takes the id that the allocator hands out. -/
theorem initGuestState_asid (h : Vmcb.initGuestState m source t rip = .ok (v, t')) :
    ∃ id, t.allocate m = .ok (.ok id, t') ∧ v.guestAsid = Usize.asU32 id := by
  rw [Vmcb.initGuestState] at h
  split at h
  case isTrue => cases h
  case isFalse =>
      obtain ⟨cs, -, h⟩ := bind_eq_ok.mp h
      obtain ⟨ss, -, h⟩ := bind_eq_ok.mp h
      obtain ⟨es, -, h⟩ := bind_eq_ok.mp h
      obtain ⟨ds, -, h⟩ := bind_eq_ok.mp h
      obtain ⟨⟨r, t₁⟩, halloc, h⟩ := bind_eq_ok.mp h
      obtain ⟨id, hid, h⟩ := bind_eq_ok.mp h
      obtain ⟨_, -, h⟩ := bind_eq_ok.mp h
      obtain ⟨rfl, rfl⟩ := Prod.mk.inj (Except.ok.inj h)
      cases r with
      | error e => cases hid
      | ok id' =>
          obtain rfl := Except.ok.inj hid
          exact ⟨id', halloc, rfl⟩

/-- What holds after `n` creations. -/
structure AsidInv (ebx : BitVec 32) (vmcbs : List Vmcb) (l : List Bool) (t : IdTracker) : Prop where
  tracks : IdTracker.Tracks 1 ebx.toNat {id | 1 ≤ id ∧ id ≤ vmcbs.length} l t
  length_le : vmcbs.length ≤ ebx.toNat
  asids : vmcbs.map Vmcb.guestAsid = (List.range' 1 vmcbs.length).reverse

theorem asidInv_init (hnasid : 1 ≤ ebx.toNat) (h : initAsidAllocator m ebx = .ok t) :
    ∃ l, AsidInv ebx [] l t := by
  have hlt := ebx.isLt
  obtain ⟨t₁, hnew, htracks⟩ := IdTracker.Tracks.new (m := m) hnasid (by omega)
  obtain rfl := Except.ok.inj (hnew.symm.trans h)
  have hempty : {id | 1 ≤ id ∧ id ≤ ([] : List Vmcb).length} = (∅ : Set ℕ) := by
    refine Set.eq_empty_of_forall_notMem fun id hid => ?_
    have hle : id ≤ 0 := hid.2
    have hge : 1 ≤ id := hid.1
    omega
  exact ⟨_, hempty ▸ htracks, Nat.zero_le _, rfl⟩

/-- A creation takes the next number. -/
theorem AsidInv.step (hinv : AsidInv ebx vmcbs l t)
    (hrun : Vmcb.initGuestState m source t rip = .ok (v, t')) :
    ∃ l', AsidInv ebx (v :: vmcbs) l' t' := by
  obtain ⟨id, halloc, hasid⟩ := initGuestState_asid hrun
  obtain ⟨x, hrun', hx⟩ := IdTracker.allocate_spec (m := m) hinv.tracks
  obtain rfl := Except.ok.inj (hrun'.symm.trans halloc)
  cases hx with
  | @ok _ _ l' hleast htracks =>
      obtain ⟨hlow, hhigh, hnew⟩ := hleast.1
      have hnext : id = vmcbs.length + 1 := by
        have hgt : vmcbs.length < id := by
          by_contra hle
          exact hnew ⟨hlow, not_lt.mp hle⟩
        have hle : id ≤ vmcbs.length + 1 :=
          hleast.2 ⟨by omega, by omega, fun hmem => absurd hmem.2 (by omega)⟩
        omega
      subst hnext
      have hlive : insert (vmcbs.length + 1) {id | 1 ≤ id ∧ id ≤ vmcbs.length} =
          {id | 1 ≤ id ∧ id ≤ (v :: vmcbs).length} := by
        ext id
        simp only [Set.mem_insert_iff, Set.mem_ofPred_eq, List.length_cons]
        omega
      have hlt := ebx.isLt
      refine ⟨l', hlive ▸ htracks, hhigh, ?_⟩
      rw [List.map_cons, hinv.asids, hasid, Usize.asU32_eq (by omega), List.length_cons,
        List.range'_1_concat, List.reverse_append, Nat.add_comm 1]
      rfl

/-- **The ids of a run.**  They are the numbers from one on, and every number that `CPUID`
gives is reached. -/
theorem VmcbReach.inv (hnasid : 1 ≤ ebx.toNat) (hreach : VmcbReach m ebx vmcbs t) :
    ∃ l, AsidInv ebx vmcbs l t := by
  induction hreach with
  | start h => exact asidInv_init hnasid h
  | step _ hrun ih =>
      obtain ⟨l, hinv⟩ := ih
      exact hinv.step hrun

/-- **Ids of guests.**  No two guests of a run share an id, and all of them have ids of the
processor if and only if fewer guests have been created than the processor has ids. -/
theorem asids_valid_iff (hnasid : 2 ≤ ebx.toNat) (hreach : VmcbReach m ebx vmcbs t) :
    (vmcbs.map Vmcb.guestAsid).Nodup ∧
      ((∀ v ∈ vmcbs, ValidAsid ebx v.guestAsid) ↔ vmcbs.length < ebx.toNat) := by
  obtain ⟨l, hinv⟩ := hreach.inv (by omega)
  have hmem : ∀ asid, (∃ v ∈ vmcbs, v.guestAsid = asid) ↔ 1 ≤ asid ∧ asid < 1 + vmcbs.length := by
    intro asid
    rw [← List.mem_map, hinv.asids, List.mem_reverse, List.mem_range'_1]
  refine ⟨?_, fun hvalid => ?_, fun hlt v hv => ?_⟩
  · rw [hinv.asids, List.nodup_reverse]
    exact List.nodup_range'
  · rcases Nat.eq_zero_or_pos vmcbs.length with hzero | hpos
    · omega
    · obtain ⟨v, hv, hlast⟩ := (hmem vmcbs.length).mpr ⟨hpos, by omega⟩
      have hle := (hvalid v hv).2
      omega
  · obtain ⟨hlow, hhigh⟩ := (hmem v.guestAsid).mp ⟨v, hv, rfl⟩
    exact ⟨hlow, by omega⟩

/-- A processor with SVM on. -/
def bareSource : GuestSource :=
  { gdt := ⟨fun _ => 0⟩
    gdtr := ⟨47, 0x1000⟩
    idtr := ⟨4095, 0x2000⟩
    cs := 0x28
    ss := 0x30
    es := 0x30
    ds := 0x30
    rsp := 0x8000
    cr3 := 0x3000
    cr4 := 0x20
    efer := Efer.SVM
    dr6 := 0xffff0ff0
    dr7 := 0x400 }

/-- Two guests on a processor with two ids. -/
theorem two_creations :
    ∃ v w t, VmcbReach .checked 2 [w, v] t ∧ v.guestAsid = 1 ∧ w.guestAsid = 2 := by
  have hstart : initAsidAllocator .checked 2 = .ok ⟨⟨[0], 2⟩, 1⟩ := by decide
  obtain ⟨v, hv, hv₁⟩ : ∃ v, Vmcb.initGuestState .checked bareSource ⟨⟨[0], 2⟩, 1⟩ 0x7c00 =
      .ok (v, ⟨⟨[1], 2⟩, 1⟩) ∧ v.guestAsid = 1 := ⟨_, rfl, rfl⟩
  obtain ⟨w, hw, hw₂⟩ : ∃ w, Vmcb.initGuestState .checked bareSource ⟨⟨[1], 2⟩, 1⟩ 0x7c00 =
      .ok (w, ⟨⟨[3], 2⟩, 1⟩) ∧ w.guestAsid = 2 := ⟨_, rfl, rfl⟩
  exact ⟨v, w, _, .step (.step (.start hstart) hv) hw, hv₁, hw₂⟩

theorem two_asids_valid_iff :
    ∃ v w t, VmcbReach .checked 2 [w, v] t ∧ ([w, v].map Vmcb.guestAsid).Nodup ∧
      ((∀ u ∈ [w, v], ValidAsid 2 u.guestAsid) ↔ [w, v].length < (2 : BitVec 32).toNat) := by
  obtain ⟨v, w, t, hreach, -, -⟩ := two_creations
  exact ⟨v, w, t, hreach, asids_valid_iff (by decide) hreach⟩

/-- The second guest gets the id that the processor does not have. -/
theorem second_asid_invalid :
    ∃ v w t, VmcbReach .checked 2 [w, v] t ∧ ¬ ∀ u ∈ [w, v], ValidAsid 2 u.guestAsid := by
  obtain ⟨v, w, t, hreach, -, hw⟩ := two_creations
  refine ⟨v, w, t, hreach, fun hvalid => ?_⟩
  have hle := (hvalid w (by simp)).2
  rw [hw] at hle
  exact absurd hle (by decide)

end Funderberker

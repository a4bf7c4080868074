import Funderberker.Paging.Calls
import Funderberker.Paging.PatRegion
import Funderberker.Pmm.Pool

/-!
# The address space that the kernel boots into

`init_from_limine` (`kernel/src/arch/x86_64/paging/mod.rs`) takes a frame for a new top-level
table and maps what stays reachable: the entry in which the PMM keeps its metadata, then the
other entries of the memory map, one after the other.  Memory goes to its place in the window at
`hhdm`, the kernel's image to the address that it was linked for, and a framebuffer is mapped
for write-combining.

All frames that the PMM hands out are usable memory, and so is every table.  So after the switch
to the new table the window still shows each frame and each table, which is what every later
change of the tables relies on.

## Main definitions

* `initPagingFromLimine` — the code.
* `BootMap`, `BootRoom` — what the bootloader promises, and that the PMM suffices.
* `RegionServed` — a region is translated to its place.

## Main results

* `Holds.mapCachedRegions` — mapping regions, with a cache type or without.
* `direct_map_established` — what the new table translates.
-/

namespace Funderberker

open Panicking PageTable MemoryMap

/-! ## The code -/

section

variable {σ : Type} [PmmAllocator σ] (m : Overflow) (framebuffer : Bool) (hhdm : ℕ)
  (kernelVirt : VirtAddr) (kernelPhys : PhysAddr)

/-- Map what an entry of the memory map describes.  Framebuffers are mapped in builds that have
the feature. -/
def mapMemMapEntry (newPml : PhysAddr) (entry : Entry) (w : World σ) : Except Panic (World σ) :=
  match entry.entryType with
  | .executableAndModules => mapInEntry m kernelVirt kernelPhys entry.length newPml bootFlags none w
  | .acpiReclaimable | .bootloaderReclaimable | .usable => do
      let virt ← addHhdmOffset m hhdm entry.base
      mapInEntry m virt entry.base entry.length newPml bootFlags none w
  | .framebuffer =>
      if framebuffer then do
        let virt ← addHhdmOffset m hhdm entry.base
        mapInEntry m virt entry.base entry.length newPml bootFlags (some .writeCombining) w
      else .ok w
  | _ => .ok w

/-- Map entries one after another. -/
def mapMemMap (newPml : PhysAddr) : List Entry → World σ → Except Panic (World σ)
  | [], w => .ok w
  | entry :: rest, w => do
      let w ← mapMemMapEntry m framebuffer hhdm kernelVirt kernelPhys newPml entry w
      mapMemMap newPml rest w

/-- Build the kernel's tables.  The entry of the PMM comes first and is left out later. -/
def initPagingFromLimine (memMap : List Entry) (usedByPmm : Entry) (w : World σ) :
    Except Panic (PhysAddr × World σ) := do
  let (newPml, w) ← PageTable.new m w
  let virt ← addHhdmOffset m hhdm usedByPmm.base
  let w ← mapInEntry m virt usedByPmm.base usedByPmm.length newPml bootFlags none w
  let w ← mapMemMap m framebuffer hhdm kernelVirt kernelPhys newPml
    (memMap.filter fun entry => entry.base ≠ usedByPmm.base) w
  .ok (newPml, w)

end

/-! ## Regions -/

/-- A region together with its cache type. -/
abbrev CachedRegion := BootRegion × Option PatType

/-- The pages of a region, with their flags. -/
def CachedRegion.pages (k : CachedRegion) : List (BootPage × Flags) :=
  k.1.flagged k.2 (k.1.size + 1) bootFlags

/-- Every page of the region gets the flags it should. -/
def CachedRegion.Fits (k : CachedRegion) : Prop :=
  ∀ t, k.2 = some t → t.indexBit 0b100 = false ∨ k.1.Small ∨ k.1.Large

/-- Map regions one after another. -/
def mapCachedRegions {σ : Type} [PmmAllocator σ] (m : Overflow) (newPml : PhysAddr) :
    List CachedRegion → World σ → Except Panic (World σ)
  | [], w => .ok w
  | k :: ks, w => do
      let w ← mapInEntry m k.1.virtAddr k.1.physAddr k.1.size newPml bootFlags k.2 w
      mapCachedRegions m newPml ks w

/-- Every address of the region is translated to its place. -/
def RegionServed (k : BootRegion) (mem : PhysAddr → ℕ → Word) (pml : PhysAddr) : Prop :=
  ∀ off < k.size, pageWalk mem pml (k.virtAddr + off) = some (k.physAddr + off)

/-! ## The words of the boot tables -/

/-- The words that occur at boot: no page has been unmapped, and none is marked to be freed. -/
def StartWord (level : ℕ) (e : Word) : Prop := FreshWord level e ∧ e.getLsbD 9 = false

theorem grammar_startWord : Grammar StartWord where
  zero level := ⟨grammar_freshWord.zero level, BitVec.getLsbD_zero⟩
  table level a ha hlt := by
    refine ⟨grammar_freshWord.table level a ha hlt, ?_⟩
    rw [tableEntry_eq, getLsbD_ofNat_or ha (by omega)]
    decide
  cases h := grammar_freshWord.cases h.1

theorem absentEmpty_startWord : AbsentEmpty StartWord := fun level e h =>
  absentEmpty_freshWord level e h.1

theorem marksLarge_startWord : MarksLarge StartWord := fun level e h =>
  marksLarge_freshWord level e h.1

variable {k : CachedRegion} {x y : BootPage × Flags} {flags : Flags} {i : ℕ}

/-- Bits that neither a cache type nor reading and writing is about are clear in all flags. -/
theorem CachedRegion.flags_clear (hk : k.1.Proper) (hi : i ≠ 1) (hpat : i ≠ 3 ∧ i ≠ 4 ∧ i ≠ 7)
    (hlarge : i ≠ 12) : ∀ x ∈ k.pages, x.2.getLsbD i = false := by
  have hstart : bootFlags.getLsbD i = false := by
    rw [bootFlags, Flags.setReadWrite, Flags.FLAG_RW, Flags.getLsbD_set (by omega), if_neg hi]
    exact BitVec.getLsbD_zero
  obtain ⟨k, _ | t⟩ := k
  · rw [pages, BootRegion.flagged_none]
    exact List.forall_mem_map.mpr fun _ _ => hstart
  · refine hk.forall_flagged (I := fun _ flags => flags.getLsbD i = false) ?_ hstart
    intro k flags s _ _ _ _ hI
    have hclear : (flags.setPat t s).getLsbD i = false := by
      have hbit := s.getPatBit_cases
      rw [Flags.getLsbD_setPat, if_neg (by omega), if_neg (by omega), if_neg (by omega)]
      exact hI
    exact ⟨hclear, hclear⟩

theorem CachedRegion.Fits.fitting (h : k.Fits) (hk : k.1.Proper) :
    ∀ x ∈ k.pages, BootRegion.Fitting x := by
  obtain ⟨k, _ | t⟩ := k
  · rw [pages, BootRegion.flagged_none]
    have hclear : bootFlags.getLsbD 12 = false := by decide
    exact List.forall_mem_map.mpr fun p _ =>
      ⟨joins_bootFlags p.pageSize, Or.inr (Or.inl hclear)⟩
  · exact (hk.fitting_iff (Nat.lt_succ_self _) (by decide)).mpr (h t rfl)

theorem startWord_leaf (hflags : x.2.getLsbD 9 = false) (hjoins : Entry.Joins x.2 x.1.pageSize) :
    StartWord (flaggedLeaf x).1 (flaggedLeaf x).2 := by
  refine ⟨Entry.freshWord_mapped hjoins, ?_⟩
  rw [flaggedLeaf, Entry.getLsbD_mapped hjoins (by omega), Entry.getLsbD_leafFlags, hflags]
  simp

/-- The processor reads the address of a page whose flags fit. -/
theorem field_of_fitting (hx : x.1.Proper) (hflags : ∀ i, 12 < i → i < 52 → x.2.getLsbD i = false)
    (hfits : BootRegion.Fitting x) :
    addressField (flaggedLeaf x).2 (levelShift x.1.pageSize.bottomPagingLevel) = x.1.physAddr := by
  have hlarge : 12 < levelShift x.1.pageSize.bottomPagingLevel ↔ x.1.pageSize ≠ .size4kb := by
    cases x.1.pageSize <;> decide
  have hle : levelShift x.1.pageSize.bottomPagingLevel ≤ x.1.pageSize.offsetBitCount := by
    cases x.1.pageSize <;> decide
  exact (Entry.addressField_mapped_iff hfits.1 hx.phys hx.phys_lt (Nat.le_add_right _ _) hle
    hflags).mpr (hfits.2.imp_left hlarge.mpr)

/-! ## Mapping regions -/

section

variable {m : Overflow} {T N : ℕ} {C : Set ℕ} {r : PhysAddr} {P : Finset (List ℕ)}
  {w : World BuddyAllocator} {xs : List (BootPage × Flags)} {ks : List CachedRegion}
  {v : VirtAddr} {I : World BuddyAllocator → Prop}

theorem CachedRegion.cutInto (hk : k.1.Proper) :
    k.1.CutInto (k.pages.map Prod.fst) := by
  rw [pages, BootRegion.map_fst_flagged]
  exact hk.cutInto (Nat.lt_succ_self _)

/-- **Mapping regions**, none of which overlaps another. -/
theorem Holds.mapCachedRegions (h : Holds StartWord T C N r P xs w)
    (hstocked : Stocked m T C N r P) (hkept : Kept m StartWord T C N r P I) (hI : I w)
    (hks : ∀ k ∈ ks, k.1.Proper) (hfits : ∀ k ∈ ks, k.Fits)
    (hpair : ks.Pairwise fun k k' => Disjoint k.1.range k'.1.range)
    (hdis : ∀ k ∈ ks, ∀ x ∈ xs, Disjoint k.1.range x.1.range)
    (hP : ∀ k ∈ ks, ∀ x ∈ k.pages, ∀ q ∈ x.1.tables, q ∈ P) :
    ∃ w', Funderberker.mapCachedRegions m r ks w = .ok w' ∧
      Holds StartWord T C N r P ((ks.flatMap CachedRegion.pages).reverse ++ xs) w' ∧ I w' := by
  induction ks generalizing xs w with
  | nil => exact ⟨w, rfl, h, hI⟩
  | cons k ks ih =>
      rw [List.forall_mem_cons] at hks hfits hdis hP
      rw [List.pairwise_cons] at hpair
      have hfitting := hfits.1.fitting hks.1
      obtain ⟨w₁, hrun, h₁, hI₁⟩ := (h.mapInEntryGo_stocked grammar_startWord absentEmpty_startWord
        hstocked hkept hI hks.1 (Nat.lt_succ_self _) hdis.1 hP.1 fun x hx hjoins =>
          startWord_leaf (CachedRegion.flags_clear hks.1 (by omega) (by omega) (by omega) x hx)
            hjoins).1 fun x hx => (hfitting x hx).1
      obtain ⟨w', hrun', h', hI'⟩ := ih h₁ hI₁ hks.2 hfits.2 hpair.2 (fun k' hk' => by
        rw [List.forall_mem_append]
        refine ⟨fun x hx => ?_, hdis.2 k' hk'⟩
        have hsub := (CachedRegion.cutInto hks.1).subset x.1
          (List.mem_map_of_mem (List.mem_reverse.mp hx))
        exact (hpair.1 k' hk').symm.mono_right hsub) hP.2
      refine ⟨w', ?_, ?_, hI'⟩
      · rw [Funderberker.mapCachedRegions, mapInEntry, hrun, ok_bind, hrun']
      · rw [List.flatMap_cons, List.reverse_append, List.append_assoc]
        exact h'

/-- Of regions that do not overlap, one has the address. -/
theorem eq_of_mem_range (hpair : ks.Pairwise fun k k' => Disjoint k.1.range k'.1.range)
    {k k' : CachedRegion} (hk : k ∈ ks) (hk' : k' ∈ ks) (hv : v ∈ k.1.range)
    (hv' : v ∈ k'.1.range) : k = k' := by
  by_contra hne
  have : Std.Symm fun k k' : CachedRegion => Disjoint k.1.range k'.1.range :=
    ⟨fun _ _ h => h.symm⟩
  exact Set.disjoint_left.mp (hpair.forall hk hk' hne) hv hv'

/-- The tables of the regions translate each of them to its place. -/
theorem Holds.served (h : Holds StartWord T C N r P (ks.flatMap CachedRegion.pages).reverse w)
    (hks : ∀ k ∈ ks, k.1.Proper) (hfits : ∀ k ∈ ks, k.Fits)
    (hpair : ks.Pairwise fun k k' => Disjoint k.1.range k'.1.range) (hk : k ∈ ks) :
    RegionServed k.1 w.mem r := by
  intro off hoff
  have hv : k.1.virtAddr + off ∈ k.1.range := ⟨Nat.le_add_right _ _, Nat.add_lt_add_left hoff _⟩
  have hcanonical := (hks k hk).canonical _ hv
  obtain ⟨p, hp, hpv⟩ := (CachedRegion.cutInto (hks k hk)).cover _ hv
  obtain ⟨x, hx, rfl⟩ := List.mem_map.mp hp
  obtain ⟨y, hy, hvy, hcontent⟩ := h.content_some hcanonical
    (List.mem_reverse.mpr (List.mem_flatMap.mpr ⟨k, hk, hx⟩)) hpv
  obtain ⟨k', hk', hy⟩ := List.mem_flatMap.mp (List.mem_reverse.mp hy)
  have hcut := CachedRegion.cutInto (hks k' hk')
  have hmem : y.1 ∈ k'.pages.map Prod.fst := List.mem_map_of_mem hy
  obtain rfl := eq_of_mem_range hpair hk hk' hv (hcut.subset _ hmem hvy)
  have hfield := field_of_fitting (hcut.proper _ hmem)
    (fun i hi hlt => CachedRegion.flags_clear (hks k hk) (by omega) (by omega) (by omega) y hy)
    ((hfits k hk).fitting (hks k hk) y hy)
  have htrans := BootPage.translated_of_field (hcut.proper _ hmem) hvy hfield
  have hoffset := hcut.offset _ hmem
  rw [h.inv.sized.pageWalk_eq grammar_startWord marksLarge_startWord hcanonical, hcontent]
  refine congrArg some (Nat.add_right_cancel (m := y.1.virtAddr) ?_)
  calc
    translated (k.1.virtAddr + off) (flaggedLeaf y) + y.1.virtAddr
      = y.1.physAddr + (k.1.virtAddr + off) := htrans
    _ = y.1.physAddr + k.1.virtAddr + off := (Nat.add_assoc _ _ _).symm
    _ = k.1.physAddr + y.1.virtAddr + off := by rw [hoffset]
    _ = k.1.physAddr + off + y.1.virtAddr := Nat.add_right_comm _ _ _

/-- They translate nothing else. -/
theorem Holds.unserved (h : Holds StartWord T C N r P (ks.flatMap CachedRegion.pages).reverse w)
    (hks : ∀ k ∈ ks, k.1.Proper) (hv : ∀ k ∈ ks, v ∉ k.1.range) : pageWalk w.mem r v = none := by
  refine h.pageWalk_none grammar_startWord marksLarge_startWord fun x hx hvx => ?_
  obtain ⟨k, hk, hx⟩ := List.mem_flatMap.mp (List.mem_reverse.mp hx)
  exact hv k hk ((CachedRegion.cutInto (hks k hk)).subset _ (List.mem_map_of_mem hx) hvx)

end

/-! ## The regions of the memory map -/

/-- The types of memory that are mapped in the window. -/
def MemoryMap.EntryType.isDirect (framebuffer : Bool) : EntryType → Bool
  | usable | acpiReclaimable | bootloaderReclaimable => true
  | EntryType.framebuffer => framebuffer
  | _ => false

/-- The place of an entry in the window. -/
def windowRegion (hhdm : ℕ) (e : Entry) : BootRegion := ⟨e.base + hhdm, e.base, e.length⟩

/-- The place of the kernel's image. -/
def imageRegion (kernelVirt : VirtAddr) (kernelPhys : PhysAddr) (e : Entry) : BootRegion :=
  ⟨kernelVirt, kernelPhys, e.length⟩

section

variable (framebuffer : Bool) (hhdm : ℕ) (kernelVirt : VirtAddr) (kernelPhys : PhysAddr)

/-- What is mapped for an entry. -/
def entryRegion (e : Entry) : Option CachedRegion :=
  match e.entryType with
  | .executableAndModules => some (imageRegion kernelVirt kernelPhys e, none)
  | .acpiReclaimable | .bootloaderReclaimable | .usable => some (windowRegion hhdm e, none)
  | .framebuffer =>
      if framebuffer then some (windowRegion hhdm e, some .writeCombining) else none
  | _ => none

/-- All that is mapped, in order. -/
def memMapRegions (memMap : List Entry) (usedByPmm : Entry) : List CachedRegion :=
  (windowRegion hhdm usedByPmm, none) ::
    (memMap.filter fun entry => entry.base ≠ usedByPmm.base).filterMap
      (entryRegion framebuffer hhdm kernelVirt kernelPhys)

/-- What the bootloader promises beyond a well-formed memory map: the window starts in the upper
half, what is mapped is made of whole pages and ends in the window, memory has addresses of 52
bits, and the image of the kernel is one entry, placed outside the window.  A framebuffer is
aligned to larger pages or too small for them. -/
structure BootMap (memMap : List Entry) : Prop extends WellFormed hhdm memMap where
  hhdm_aligned : hhdm % 4096 = 0
  hhdm_high : 2 ^ 64 - 2 ^ 47 ≤ hhdm
  aligned : ∀ e ∈ memMap, e.entryType.isDirect framebuffer = true →
    e.base % 4096 = 0 ∧ e.length % 4096 = 0
  inWindow : ∀ e ∈ memMap, e.entryType.isDirect framebuffer = true →
    e.base + e.length + hhdm < 2 ^ 64
  memory : ∀ e ∈ memMap, e.entryType.isCounted = true → e.base + e.length ≤ 2 ^ 52
  screen : ∀ e ∈ memMap, e.entryType = .framebuffer →
    (windowRegion hhdm e).Small ∨ (windowRegion hhdm e).Large
  image_one : memMap.Pairwise fun e d =>
    ¬ (e.entryType = .executableAndModules ∧ d.entryType = .executableAndModules)
  image : ∀ e ∈ memMap, e.entryType = .executableAndModules →
    (imageRegion kernelVirt kernelPhys e).Proper
  image_apart : ∀ e ∈ memMap, ∀ d ∈ memMap, e.entryType = .executableAndModules →
    d.entryType.isDirect framebuffer = true →
    Disjoint (imageRegion kernelVirt kernelPhys e).range (windowRegion hhdm d).range

end

variable {framebuffer : Bool} {hhdm : ℕ} {kernelVirt : VirtAddr} {kernelPhys : PhysAddr}
  {memMap : List Entry} {e d used : Entry}

theorem isDirect_of_usable (h : e.entryType = .usable) :
    e.entryType.isDirect framebuffer = true := by
  rw [h]
  rfl

/-- What is mapped for an entry is its place in the window, or the image. -/
theorem entryRegion_cases
    (h : entryRegion framebuffer hhdm kernelVirt kernelPhys e = some k) :
    (e.entryType.isDirect framebuffer = true ∧ k.1 = windowRegion hhdm e) ∨
      (e.entryType = .executableAndModules ∧ k.1 = imageRegion kernelVirt kernelPhys e) := by
  rw [entryRegion] at h
  split at h
  · exact Or.inr ⟨‹_›, by rw [← Option.some.inj h]⟩
  · exact Or.inl ⟨by rw [‹e.entryType = _›]; rfl, by rw [← Option.some.inj h]⟩
  · exact Or.inl ⟨by rw [‹e.entryType = _›]; rfl, by rw [← Option.some.inj h]⟩
  · exact Or.inl ⟨by rw [‹e.entryType = _›]; rfl, by rw [← Option.some.inj h]⟩
  · obtain ⟨hon, h⟩ := Option.ite_none_right_eq_some.mp h
    exact Or.inl ⟨by rw [‹e.entryType = _›]; exact hon, by rw [← Option.some.inj h]⟩
  · cases h

theorem exists_entryRegion_of_direct (h : e.entryType.isDirect framebuffer = true) :
    ∃ pat, entryRegion framebuffer hhdm kernelVirt kernelPhys e =
      some (windowRegion hhdm e, pat) := by
  rw [entryRegion]
  cases htype : e.entryType <;> rw [htype] at h <;>
    first | exact ⟨_, rfl⟩ | exact ⟨_, if_pos h⟩ | cases h

theorem entryRegion_of_image (h : e.entryType = .executableAndModules) :
    entryRegion framebuffer hhdm kernelVirt kernelPhys e =
      some (imageRegion kernelVirt kernelPhys e, none) := by
  rw [entryRegion, h]

/-- What the bootloader promises suffices for the place of an entry in the window. -/
theorem BootMap.window_proper (h : BootMap framebuffer hhdm kernelVirt kernelPhys memMap)
    (he : e ∈ memMap) (hdirect : e.entryType.isDirect framebuffer = true) :
    (windowRegion hhdm e).Proper := by
  obtain ⟨hbase, hlength⟩ := h.aligned e he hdirect
  have hin := h.inWindow e he hdirect
  have hhigh := h.hhdm_high
  have haligned := h.hhdm_aligned
  refine ⟨?_, hbase, hlength, ?_, ?_, fun v hv => Or.inr ?_⟩
  · change (e.base + hhdm) % 4096 = 0
    omega
  · change e.base + e.length ≤ 2 ^ 52
    omega
  · change e.base + hhdm + e.length < 2 ^ 64
    omega
  · have hlow : e.base + hhdm ≤ v := hv.1
    have hup : v < e.base + hhdm + e.length := hv.2
    have hend : e.base + hhdm + e.length ≤ 2 ^ 64 := by omega
    exact ⟨hhigh.trans ((Nat.le_add_left _ _).trans hlow), hup.trans_le hend⟩

/-- Entries that are apart in memory, and of which one at most is the kernel's image. -/
def Apart (e d : Entry) : Prop :=
  (e.base + e.length ≤ d.base ∨ d.base + d.length ≤ e.base) ∧
    ¬ (e.entryType = .executableAndModules ∧ d.entryType = .executableAndModules)

theorem Apart.symm (h : Apart e d) : Apart d e := ⟨h.1.symm, fun hboth => h.2 hboth.symm⟩

theorem Apart.disjoint_windows (h : Apart e d) :
    Disjoint (windowRegion hhdm e).range (windowRegion hhdm d).range := by
  rw [Set.disjoint_left]
  intro v hv hv'
  have hlow : e.base + hhdm ≤ v := hv.1
  have hup : v < e.base + hhdm + e.length := hv.2
  have hlow' : d.base + hhdm ≤ v := hv'.1
  have hup' : v < d.base + hhdm + d.length := hv'.2
  have := h.1
  omega

theorem BootMap.apart (h : BootMap framebuffer hhdm kernelVirt kernelPhys memMap) :
    memMap.Pairwise Apart :=
  (h.sorted.and h.image_one).imp fun hboth => ⟨Or.inl hboth.1, hboth.2⟩

theorem BootMap.entryRegion_proper (h : BootMap framebuffer hhdm kernelVirt kernelPhys memMap)
    (he : e ∈ memMap) (hk : entryRegion framebuffer hhdm kernelVirt kernelPhys e = some k) :
    k.1.Proper := by
  rcases entryRegion_cases hk with ⟨hdirect, heq⟩ | ⟨himage, heq⟩
  · rw [heq]
    exact h.window_proper he hdirect
  · rw [heq]
    exact h.image e he himage

/-- What is mapped for two entries does not overlap. -/
theorem BootMap.entryRegion_disjoint (h : BootMap framebuffer hhdm kernelVirt kernelPhys memMap)
    {k' : CachedRegion} (he : e ∈ memMap) (hd : d ∈ memMap) (hapart : Apart e d)
    (hk : entryRegion framebuffer hhdm kernelVirt kernelPhys e = some k)
    (hk' : entryRegion framebuffer hhdm kernelVirt kernelPhys d = some k') :
    Disjoint k.1.range k'.1.range := by
  rcases entryRegion_cases hk with ⟨hdirect, heq⟩ | ⟨himage, heq⟩ <;>
    rcases entryRegion_cases hk' with ⟨hdirect', heq'⟩ | ⟨himage', heq'⟩ <;>
      rw [heq, heq']
  · exact hapart.disjoint_windows
  · exact (h.image_apart d hd e he himage' hdirect).symm
  · exact h.image_apart e he d hd himage hdirect'
  · exact absurd ⟨himage, himage'⟩ hapart.2

theorem entryRegion_of_usable (h : e.entryType = .usable) :
    entryRegion framebuffer hhdm kernelVirt kernelPhys e = some (windowRegion hhdm e, none) := by
  rw [entryRegion, h]

/-- All that is mapped is mapped for some entry. -/
theorem exists_of_mem_regions (hused : used ∈ memMap) (husable : used.entryType = .usable)
    (hk : k ∈ memMapRegions framebuffer hhdm kernelVirt kernelPhys memMap used) :
    ∃ e ∈ memMap, entryRegion framebuffer hhdm kernelVirt kernelPhys e = some k := by
  rcases List.mem_cons.mp hk with rfl | hk
  · exact ⟨used, hused, entryRegion_of_usable husable⟩
  · obtain ⟨e, he, hregion⟩ := List.mem_filterMap.mp hk
    exact ⟨e, (List.mem_filter.mp he).1, hregion⟩

theorem BootMap.pairwise_regions (h : BootMap framebuffer hhdm kernelVirt kernelPhys memMap)
    (hused : used ∈ memMap) (husable : used.entryType = .usable) :
    (memMapRegions framebuffer hhdm kernelVirt kernelPhys memMap used).Pairwise
      fun k k' => Disjoint k.1.range k'.1.range := by
  have : Std.Symm Apart := ⟨fun _ _ => Apart.symm⟩
  rw [memMapRegions, List.pairwise_cons]
  constructor
  · intro k hk
    obtain ⟨e, he, hregion⟩ := List.mem_filterMap.mp hk
    obtain ⟨he, hbase⟩ := List.mem_filter.mp he
    have hne : used ≠ e := by
      rintro rfl
      exact of_decide_eq_true hbase rfl
    exact h.entryRegion_disjoint hused he (h.apart.forall hused he hne)
      (entryRegion_of_usable husable) hregion
  · rw [List.pairwise_filterMap]
    refine (h.apart.imp_of_mem ?_).filter _
    exact fun he hd hapart k hk k' hk' => h.entryRegion_disjoint he hd hapart hk hk'

theorem BootMap.fits (h : BootMap framebuffer hhdm kernelVirt kernelPhys memMap) (he : e ∈ memMap)
    (hk : entryRegion framebuffer hhdm kernelVirt kernelPhys e = some k) : k.Fits := by
  intro t ht
  rw [entryRegion] at hk
  split at hk
  all_goals try cases hk
  all_goals try cases ht
  obtain ⟨-, hk⟩ := Option.ite_none_right_eq_some.mp hk
  rw [← Option.some.inj hk]
  exact Or.inr (h.screen e he ‹_›)

/-! ## The code maps these regions -/

section

variable {σ : Type} [PmmAllocator σ] {m : Overflow} {pml : PhysAddr} {w : World σ}
  {es : List Entry}

theorem addHhdmOffset_eq (h : e.base + hhdm < 2 ^ 64) :
    addHhdmOffset m hhdm e.base = .ok (windowRegion hhdm e).virtAddr := Usize.add_eq h

theorem mapMemMapEntry_eq
    (h : e.entryType.isDirect framebuffer = true → e.base + hhdm < 2 ^ 64) :
    mapMemMapEntry m framebuffer hhdm kernelVirt kernelPhys pml e w =
      (entryRegion framebuffer hhdm kernelVirt kernelPhys e).elim (.ok w) fun k =>
        mapInEntry m k.1.virtAddr k.1.physAddr k.1.size pml bootFlags k.2 w := by
  rw [mapMemMapEntry, entryRegion]
  cases htype : e.entryType with
  | usable => rw [addHhdmOffset_eq (h (by rw [htype]; rfl))]; rfl
  | acpiReclaimable => rw [addHhdmOffset_eq (h (by rw [htype]; rfl))]; rfl
  | bootloaderReclaimable => rw [addHhdmOffset_eq (h (by rw [htype]; rfl))]; rfl
  | executableAndModules => rfl
  | framebuffer =>
      cases hon : framebuffer with
      | false => rfl
      | true => rw [addHhdmOffset_eq (h (by rw [htype, hon]; rfl))]; rfl
  | reserved => rfl
  | acpiNvs => rfl
  | badMemory => rfl

theorem mapMemMap_eq
    (h : ∀ e ∈ es, e.entryType.isDirect framebuffer = true → e.base + hhdm < 2 ^ 64) :
    mapMemMap m framebuffer hhdm kernelVirt kernelPhys pml es w =
      mapCachedRegions m pml (es.filterMap (entryRegion framebuffer hhdm kernelVirt kernelPhys))
        w := by
  induction es generalizing w with
  | nil => rfl
  | cons e es ih =>
      rw [List.forall_mem_cons] at h
      rw [mapMemMap, mapMemMapEntry_eq h.1]
      cases hregion : entryRegion framebuffer hhdm kernelVirt kernelPhys e with
      | none =>
          rw [List.filterMap_cons_none hregion]
          exact ih h.2
      | some k =>
          rw [List.filterMap_cons_some hregion, mapCachedRegions]
          exact congrArg _ (funext fun _ => ih h.2)

/-- After the top-level table has its frame, the code maps the regions of the memory map. -/
theorem BootMap.initPaging_eq (h : BootMap framebuffer hhdm kernelVirt kernelPhys memMap)
    (hused : used ∈ memMap) (husable : used.entryType = .usable) {w' : World σ}
    (hnew : PageTable.new m w = .ok (pml, w')) :
    initPagingFromLimine m framebuffer hhdm kernelVirt kernelPhys memMap used w =
      (mapCachedRegions m pml
        (memMapRegions framebuffer hhdm kernelVirt kernelPhys memMap used) w').map (pml, ·) := by
  have hfit : ∀ e ∈ memMap, e.entryType.isDirect framebuffer = true → e.base + hhdm < 2 ^ 64 :=
    fun e he hdirect => by
      have := h.inWindow e he hdirect
      omega
  rw [initPagingFromLimine, hnew, ok_bind]
  dsimp only
  rw [addHhdmOffset_eq (hfit used hused (isDirect_of_usable husable)), ok_bind, memMapRegions,
    mapCachedRegions]
  dsimp only [windowRegion]
  cases mapInEntry m (used.base + hhdm) used.base used.length pml bootFlags none w' with
  | error x => rfl
  | ok w₁ =>
      rw [ok_bind, ok_bind, mapMemMap_eq fun e he => hfit e (List.mem_filter.mp he).1]
      cases mapCachedRegions m pml _ w₁ <;> rfl

end

/-! ## The supply at boot -/

open DyadicBlock BuddyAllocator

/-- Every usable entry has two ends. -/
theorem edges_usablePages (memMap : List Entry) :
    EdgesLe (usablePages memMap) (2 * usableCount memMap) := by
  induction memMap with
  | nil =>
      have hnone : usablePages [] = ∅ := by simp [usablePages]
      rw [hnone]
      exact EdgesLe.empty
  | cons e es ih =>
      by_cases hu : e.entryType = .usable
      · have hcount : usableCount (e :: es) = usableCount es + 1 := by
          simp [usableCount, hu]
        rw [usablePages_cons_of_usable hu, Set.union_comm]
        exact (ih.union_Ico _ _).mono (by omega)
      · rw [usablePages_cons_of_not_usable hu]
        refine ih.mono ?_
        simp [usableCount, hu]

/-- The tables that regions need, but for the top-level table. -/
def regionTables (ks : List CachedRegion) : Finset (List ℕ) :=
  ((ks.flatMap CachedRegion.pages).flatMap fun x => x.1.tables).toFinset

/-- The PMM suffices for the tables: it has a page for each and for the top-level table, and nodes
even if every page that is taken leaves two more ends of free regions behind. -/
structure BootRoom (memMap : List Entry) (entry : Entry) (P : Finset (List ℕ)) : Prop where
  pages : P.card + 1 ≤ (usablePages memMap \ reserved memMap entry).ncard
  nodes : 51 * (2 * usableCount memMap + 4 + 2 * P.card) ≤ bucketsCount

section

variable {m : Overflow} {entry : Entry} {s : BuddyAllocator} {nodes : VirtAddr → PhysAddr}
  {words : PhysAddr → ℕ → Word} {P : Finset (List ℕ)} {T N : ℕ} {C A : Set ℕ} {r : PhysAddr}
  {w : World BuddyAllocator}

theorem BootMap.bound (h : BootMap framebuffer hhdm kernelVirt kernelPhys memMap) :
    pageBound memMap * BASIC_PAGE_SIZE ≤ 2 ^ 52 := by
  rw [pageBound]
  cases hd : memMap.reverse.find? (·.entryType.isCounted) with
  | none => simp
  | some d =>
      have hmem := List.mem_reverse.mp (List.mem_of_find?_eq_some hd)
      have hcount := List.find?_some (p := fun e : Entry => e.entryType.isCounted) hd
      exact (Nat.div_mul_le_self _ _).trans (h.memory d hmem hcount)

theorem BootRoom.fewRegions (h : BootRoom memMap entry P)
    (hwf : WellFormed hhdm memMap) (hch : chosenEntry memMap = some entry) : FewRegions memMap := by
  have hzones := zonesCount_le hwf (pageBound_ne_zero hwf hch)
  calc
    zonesCount memMap * (2 * usableCount memMap + 2)
      ≤ 51 * (2 * usableCount memMap + 4 + 2 * P.card) := Nat.mul_le_mul hzones (by omega)
    _ ≤ bucketsCount := h.nodes

theorem Ready.edges (h : Ready hhdm nodes memMap entry s) :
    EdgesLe s.freePages (2 * usableCount memMap + 2) := by
  rw [h.free]
  exact (edges_usablePages memMap).sdiff_Ico _ _

/-- A page can be allocated. -/
theorem Ready.exists_page (h : Ready hhdm nodes memMap entry s) (hroom : BootRoom memMap entry P) :
    ∃ r pmm, s.allocate m 1 1 = .ok (.ok r, pmm) := by
  have hpages := hroom.pages
  rw [← h.free] at hpages
  obtain ⟨p, hp⟩ := Set.nonempty_of_ncard_ne_zero (by omega : s.freePages.ncard ≠ 0)
  have haccounts : Accounts (pageBound memMap) s.freePages s.nodeCount ∅ s :=
    accounts_start ⟨h.inv, nofun, nofun⟩
  have hpool : ∀ c, ¬ Exceeds s.nodeCount s.zones.length (s.freePages \ {c}) := by
    intro c
    have hedges := h.edges.sdiff_finset {c}
    rw [Finset.coe_singleton, Finset.card_singleton] at hedges
    refine not_exceeds_of_edges hedges ?_
    rw [h.nodeCount_eq]
    exact (Nat.mul_le_mul h.inv.zones_le (by omega)).trans hroom.nodes
  exact haccounts.exists_frame_of_pool (m := m) hpool hp (Set.notMem_empty _)

variable (words) in
/-- The top-level table gets a frame, which is cleared. -/
theorem Ready.exists_new (h : Ready hhdm nodes memMap entry s) (hroom : BootRoom memMap entry P) :
    ∃ r pmm, PageTable.new m ⟨words, s⟩ = .ok (r, (World.mk words pmm).memset r) ∧
      r % 4096 = 0 ∧ r / BASIC_PAGE_SIZE ∈ s.freePages ∧
      Frees (pageBound memMap) s pmm (s.freePages \ {r / BASIC_PAGE_SIZE}) := by
  obtain ⟨r, pmm, hrun⟩ := h.exists_page (m := m) hroom
  obtain ⟨hmod, hfree, hfrees⟩ := allocate_page h.inv hrun
  refine ⟨r, pmm, ?_, hmod, hfree, hfrees⟩
  have hpmm : PmmAllocator.allocate m s PageSize.size4kb.pageAlignment 1 = .ok (.ok r, pmm) := hrun
  rw [PageTable.new, hpmm, ok_bind]

/-- Mapping pages takes frames only from those that are managed. -/
theorem kept_managed (hT : T * BASIC_PAGE_SIZE ≤ 2 ^ 52) :
    Kept m StartWord T C N r P (SizedInv StartWord (Managed T A) r) := by
  intro xs w w' p flags h hI hp hdis hword hrun
  have hblank : content w.mem r (PageTable.path p.virtAddr p.pageSize.bottomPagingLevel
      (3 - p.pageSize.bottomPagingLevel) ++
        (nextLevelIndex p.virtAddr p.pageSize.bottomPagingLevel ::
          List.replicate p.pageSize.bottomPagingLevel 0)) = none := by
    rw [List.append_cons]
    refine h.blank hp hdis ?_ (List.prefix_append _ _)
    rw [List.length_append, List.length_replicate]
    exact p.length_path
  have hunused : ∀ level e, level ≠ 0 → StartWord level e → e.getLsbD 0 = false →
      Entry.Unused e := by
    intro level e _ he habsent
    rw [absentEmpty_startWord level e he habsent]
    exact Entry.unused_zero
  have hclear : (TableCall.map p.virtAddr p.physAddr 1 p.pageSize flags).Clear w.mem r :=
    fun _ => h.inv.sized.passes (p := []) grammar_startWord hunused (by simp) rfl hblank
  have hadmits : (TableCall.map p.virtAddr p.physAddr 1 p.pageSize flags).Admits StartWord := by
    intro _ l hl e he habsent
    have haddr : addrAt p.physAddr p.pageSize l = p.physAddr := by
      rw [Nat.lt_one_iff.mp hl, addrAt, Nat.zero_mul, Nat.add_zero,
        Nat.mod_eq_of_lt (hp.phys_lt.trans (by norm_num))]
    rw [absentEmpty_startWord _ e he habsent, haddr]
    exact hword
  exact ((TableCall.run_spec grammar_startWord
    (managed_supplies m (hT.trans (by norm_num))) hT hI hclear hadmits).post hrun).1

/-- **The boot**, as the tables and the PMM see it. -/
theorem BootMap.boot (h : BootMap framebuffer hhdm kernelVirt kernelPhys memMap)
    (hch : chosenEntry memMap = some entry)
    (hroom : BootRoom memMap entry
      (regionTables (memMapRegions framebuffer hhdm kernelVirt kernelPhys memMap entry)))
    (m : Overflow) (nodes : VirtAddr → PhysAddr) (words : PhysAddr → ℕ → Word) :
    ∃ s pml w, initFromLimine m hhdm nodes memMap = .ok (s, entry) ∧
      initPagingFromLimine m framebuffer hhdm kernelVirt kernelPhys memMap entry ⟨words, s⟩ =
        .ok (pml, w) ∧
      pml / BASIC_PAGE_SIZE ∈ usablePages memMap \ reserved memMap entry ∧
      Holds StartWord (pageBound memMap)
        ((usablePages memMap \ reserved memMap entry) \ {pml / BASIC_PAGE_SIZE}) bucketsCount pml
        (regionTables (memMapRegions framebuffer hhdm kernelVirt kernelPhys memMap entry))
        ((memMapRegions framebuffer hhdm kernelVirt kernelPhys memMap entry).flatMap
          CachedRegion.pages).reverse w ∧
      SizedInv StartWord
        (Managed (pageBound memMap) (usablePages memMap \ reserved memMap entry)) pml w := by
  set ks := memMapRegions framebuffer hhdm kernelVirt kernelPhys memMap entry
  obtain ⟨hmem, husable, -⟩ := chosenEntry_spec hch
  obtain ⟨s, hinit, hready⟩ := initFromLimine_of_fewRegions (m := m) nodes h.toWellFormed hch
    (hroom.fewRegions h.toWellFormed hch)
  obtain ⟨pml, pmm, hnew, hmod, hpml, hfrees⟩ := hready.exists_new (m := m) words hroom
  have hnodes : pmm.nodeCount = bucketsCount := hfrees.keeps.nodeCount_eq.trans hready.nodeCount_eq
  have hnotfree : pml / BASIC_PAGE_SIZE ∉ pmm.freePages := by
    rw [hfrees.free]
    exact fun hin => hin.2 rfl
  set w₀ : World BuddyAllocator := (World.mk words pmm).memset pml
  have hzero : ∀ i, w₀.mem pml i = 0 := fun i => if_pos rfl
  have hrespects : Respects (pageBound memMap) {pml} w₀.pmm :=
    respects_singleton hfrees.inv hmod hnotfree
  have hstart := holds_start (P := regionTables ks) grammar_startWord hzero hrespects
  have hmanaged : SizedInv StartWord (Managed (pageBound memMap) s.freePages) pml w₀ := by
    refine ⟨sized_of_zero grammar_startWord hzero, ?_⟩
    rw [tables_of_zero hzero]
    exact managed_singleton hfrees.inv hmod hpml hfrees.free
  have hstocked : Stocked m (pageBound memMap) w₀.pmm.freePages w₀.pmm.nodeCount pml
      (regionTables ks) := by
    have hedges := hready.edges.sdiff_finset {pml / BASIC_PAGE_SIZE}
    rw [Finset.coe_singleton, Finset.card_singleton, ← hfrees.free] at hedges
    refine stocked_of_edges h.bound hnotfree ?_ hedges (hroom.nodes.trans hnodes.ge)
    have hpages := hroom.pages
    rw [← hready.free] at hpages
    have hcard := Set.ncard_sdiff_singleton_of_mem hpml
    rw [← hfrees.free] at hcard
    change _ ≤ pmm.freePages.ncard
    omega
  have hproper : ∀ k ∈ ks, k.1.Proper := by
    intro k hk
    obtain ⟨e, he, hregion⟩ := exists_of_mem_regions hmem husable hk
    exact h.entryRegion_proper he hregion
  have hfits : ∀ k ∈ ks, k.Fits := by
    intro k hk
    obtain ⟨e, he, hregion⟩ := exists_of_mem_regions hmem husable hk
    exact h.fits he hregion
  obtain ⟨w, hrun, hholds, hmanaged'⟩ := hstart.mapCachedRegions hstocked
    (kept_managed h.bound) hmanaged hproper hfits
    (h.pairwise_regions hmem husable) (fun _ _ => nofun) fun k hk x hx q hq =>
      List.mem_toFinset.mpr (List.mem_flatMap.mpr ⟨x, List.mem_flatMap.mpr ⟨k, hk, hx⟩, hq⟩)
  refine ⟨s, pml, w, hinit, ?_, hready.free ▸ hpml, ?_, hready.free ▸ hmanaged'⟩
  · rw [h.initPaging_eq hmem husable hnew, hrun]
    rfl
  · rw [List.append_nil] at hholds
    rw [← hready.free, ← hfrees.free, ← hnodes]
    exact hholds

/-- The kernel's address space after boot.  The window shows all memory of the map and with it
every table, the image is where the kernel was linked, nothing else is translated, and the PMM has
the usable pages but for its metadata and the tables. -/
structure Booted (framebuffer : Bool) (hhdm : ℕ) (kernelVirt : VirtAddr) (kernelPhys : PhysAddr)
    (memMap : List Entry) (entry : Entry) (pml : PhysAddr) (w : World BuddyAllocator) : Prop where
  direct : ∀ e ∈ memMap, e.entryType.isDirect framebuffer = true →
    RegionServed (windowRegion hhdm e) w.mem pml
  image : ∀ e ∈ memMap, e.entryType = .executableAndModules →
    RegionServed (imageRegion kernelVirt kernelPhys e) w.mem pml
  nothingElse : ∀ v, (∀ e ∈ memMap, ∀ k,
    entryRegion framebuffer hhdm kernelVirt kernelPhys e = some k → v ∉ k.1.range) →
      pageWalk w.mem pml v = none
  window : ∀ p ∈ usablePages memMap, ∀ off < BASIC_PAGE_SIZE,
    pageWalk w.mem pml (p * BASIC_PAGE_SIZE + off + hhdm) = some (p * BASIC_PAGE_SIZE + off)
  tables : ∀ t ∈ PageTable.tables w.mem pml,
    t / BASIC_PAGE_SIZE ∈ usablePages memMap \ reserved memMap entry
  free : w.pmm.freePages =
    (usablePages memMap \ reserved memMap entry) \
      {p | p * BASIC_PAGE_SIZE ∈ PageTable.tables w.mem pml}

/-- A page of a usable entry is at its place in the window. -/
theorem window_of_direct {mem : PhysAddr → ℕ → Word} {pml : PhysAddr}
    (hwf : WellFormed hhdm memMap)
    (h : ∀ e ∈ memMap, e.entryType = .usable → RegionServed (windowRegion hhdm e) mem pml) :
    ∀ p ∈ usablePages memMap, ∀ off < BASIC_PAGE_SIZE,
      pageWalk mem pml (p * BASIC_PAGE_SIZE + off + hhdm) = some (p * BASIC_PAGE_SIZE + off) := by
  rintro p ⟨e, he, hu, hp⟩ off hoff
  have hbase := hwf.base_aligned e he hu
  have hlength := hwf.length_aligned e he hu
  rw [pagesFrom, Set.mem_Ico] at hp
  simp only [BASIC_PAGE_SIZE] at hp hoff hbase hlength ⊢
  obtain ⟨d, hd⟩ := Nat.exists_eq_add_of_le (show e.base ≤ p * 4096 + off by omega)
  have hserved := h e he hu d (by change d < e.length; omega)
  rw [hd, Nat.add_right_comm]
  exact hserved

/-- The pages of the regions, as the tables hold them, make up the address space after boot. -/
theorem BootMap.booted (h : BootMap framebuffer hhdm kernelVirt kernelPhys memMap)
    (hch : chosenEntry memMap = some entry) {pml : PhysAddr}
    (hholds : Holds StartWord (pageBound memMap)
      ((usablePages memMap \ reserved memMap entry) \ {pml / BASIC_PAGE_SIZE}) bucketsCount pml P
      ((memMapRegions framebuffer hhdm kernelVirt kernelPhys memMap entry).flatMap
        CachedRegion.pages).reverse w)
    (hmanaged : SizedInv StartWord
      (Managed (pageBound memMap) (usablePages memMap \ reserved memMap entry)) pml w) :
    Booted framebuffer hhdm kernelVirt kernelPhys memMap entry pml w := by
  obtain ⟨hmem, husable, hlength⟩ := chosenEntry_spec hch
  have hregions : ∀ k ∈ memMapRegions framebuffer hhdm kernelVirt kernelPhys memMap entry,
      ∃ e ∈ memMap, entryRegion framebuffer hhdm kernelVirt kernelPhys e = some k :=
    fun k => exists_of_mem_regions hmem husable
  have hproper : ∀ k ∈ memMapRegions framebuffer hhdm kernelVirt kernelPhys memMap entry,
      k.1.Proper := fun k hk => (hregions k hk).elim fun e he => h.entryRegion_proper he.1 he.2
  have hfits : ∀ k ∈ memMapRegions framebuffer hhdm kernelVirt kernelPhys memMap entry, k.Fits :=
    fun k hk => (hregions k hk).elim fun e he => h.fits he.1 he.2
  have hserved : ∀ e ∈ memMap, ∀ k,
      entryRegion framebuffer hhdm kernelVirt kernelPhys e = some k → k.1.size = e.length →
      RegionServed k.1 w.mem pml := by
    intro e he k hregion hsize
    by_cases hbase : e.base = entry.base
    -- Of two entries that begin at one place, one is empty.
    · rcases eq_or_ne e entry with rfl | hne
      · rw [entryRegion_of_usable husable] at hregion
        refine hholds.served hproper hfits (h.pairwise_regions hmem husable) ?_
        rw [← Option.some.inj hregion]
        exact List.mem_cons_self
      · have : Std.Symm Apart := ⟨fun _ _ => Apart.symm⟩
        have hapart := (h.apart.forall he hmem hne).1
        have hpos : 0 < totalBufferSize (zonesCount memMap) := by
          rw [totalBufferSize, FREELIST_BUCKETS_SIZE]
          omega
        intro off hoff
        omega
    · refine hholds.served hproper hfits (h.pairwise_regions hmem husable) ?_
      exact List.mem_cons_of_mem _ (List.mem_filterMap.mpr
        ⟨e, List.mem_filter.mpr ⟨he, decide_eq_true hbase⟩, hregion⟩)
  have hdirect : ∀ e ∈ memMap, e.entryType.isDirect framebuffer = true →
      RegionServed (windowRegion hhdm e) w.mem pml := by
    intro e he hdirect
    obtain ⟨pat, hregion⟩ : ∃ pat, entryRegion framebuffer hhdm kernelVirt kernelPhys e =
        some (windowRegion hhdm e, pat) := exists_entryRegion_of_direct hdirect
    exact hserved e he _ hregion rfl
  refine ⟨hdirect, fun e he himage => ?_, fun v hv => ?_, ?_, ?_, ?_⟩
  · exact hserved e he _ (entryRegion_of_image himage) rfl
  · exact hholds.unserved hproper fun k hk =>
      (hregions k hk).elim fun e he => hv e he.1 k he.2
  · exact window_of_direct h.toWellFormed fun e he hu => hdirect e he (isDirect_of_usable hu)
  · exact hmanaged.respected.frames
  · exact hmanaged.respected.free_eq

end

/-- A memory map with the image of the kernel and a framebuffer. -/
def imageMap : List Entry :=
  [⟨0x200000, 0x7c00000, .usable⟩, ⟨0x7e00000, 0x200000, .executableAndModules⟩,
    ⟨0xfd000000, 0x1000000, .framebuffer⟩]

theorem imageMap_bootMap :
    BootMap true 0xffff800000000000 0xffffffff80000000 0x7e00000 imageMap where
  toWellFormed := by constructor <;> decide
  hhdm_aligned := by decide
  hhdm_high := by decide
  aligned := by decide
  inWindow := by decide
  memory := by decide
  screen := by
    simp only [imageMap, List.forall_mem_cons]
    exact ⟨nofun, nofun, fun _ => Or.inr ⟨rfl, rfl, rfl⟩, nofun⟩
  image_one := by decide
  image := by
    simp only [imageMap, List.forall_mem_cons]
    refine ⟨nofun, fun _ => ⟨rfl, rfl, rfl, by decide, by decide, fun v hv => Or.inr ?_⟩, nofun,
      nofun⟩
    exact ⟨Nat.le_trans (by decide) hv.1, Nat.lt_of_lt_of_le hv.2 (by decide)⟩
  image_apart := by
    have hbelow : ∀ d ∈ imageMap,
        (windowRegion 0xffff800000000000 d).virtAddr + d.length ≤ 0xffffffff80000000 := by
      decide
    intro e _ d hd _ _
    exact Set.disjoint_left.mpr fun v hv hv' =>
      Nat.not_lt.mpr ((hbelow d hd).trans hv.1) hv'.2

theorem imageMap_room : BootRoom imageMap ⟨0x200000, 0x7c00000, .usable⟩
    (regionTables (memMapRegions true 0xffff800000000000 0xffffffff80000000 0x7e00000 imageMap
      ⟨0x200000, 0x7c00000, .usable⟩)) := by
  have hcard : (regionTables (memMapRegions true 0xffff800000000000 0xffffffff80000000 0x7e00000
      imageMap ⟨0x200000, 0x7c00000, .usable⟩)).card = 5 := by
    decide +kernel
  refine ⟨?_, ?_⟩
  · have hcount : reservedCount imageMap = 513 := by decide
    have hfin : (usablePages imageMap \ reserved imageMap ⟨0x200000, 0x7c00000, .usable⟩).Finite :=
      finite_of_bounded fun p hp => lt_pageBound_of_usable imageMap_bootMap.toWellFormed hp.1
    have hsub : Set.Ico 2000 2006 ⊆
        usablePages imageMap \ reserved imageMap ⟨0x200000, 0x7c00000, .usable⟩ := by
      intro p hp
      have hbase : 0x200000 / BASIC_PAGE_SIZE = 512 := by decide
      have hlength : 0x7c00000 / BASIC_PAGE_SIZE = 31744 := by decide
      rw [Set.mem_Ico] at hp
      rw [reserved, pagesFrom, hcount, hbase]
      refine ⟨⟨_, List.mem_cons_self, rfl, ?_⟩, ?_⟩
      · rw [pagesFrom, hbase, hlength, Set.mem_Ico]
        omega
      · rw [Set.mem_Ico]
        omega
    rw [hcard]
    calc
      6 = (Set.Ico 2000 2006).ncard := (Set.ncard_Ico_nat 2000 2006).symm
      _ ≤ _ := Set.ncard_le_ncard hsub hfin
  · rw [hcard]
    decide

end Funderberker

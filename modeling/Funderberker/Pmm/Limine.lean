import Funderberker.Pmm.Run

/-!
# Building the allocator from the memory map

At boot the allocator is built from the memory map the bootloader hands over.  The
zones array and the node pool are placed at the start of the first usable entry that
is long enough; then every usable entry is freed, and the pages under the array and
the pool are allocated again, one by one.

## Main definitions

* `MemoryMap.Entry` — an entry of the memory map.
* `getPageCountFromMemMap`, `newFromLimine`, `initFromLimine` — the code.
* `WellFormed` — what the bootloader promises about the memory map.
* `usablePages`, `reserved` — the pages the map offers and the pages the allocator
  keeps for itself.
* `FewRegions` — the node pool is large enough to hold the regions as they are.

## Main results

* `initFromLimine_spec` — the allocator that a well-formed map gives.
* `initFromLimine_correct` — the free pages, and where the metadata lies.
-/

namespace Funderberker

open Panicking DyadicBlock

namespace MemoryMap

/-- `limine::memory_map::EntryType`. -/
inductive EntryType
  | usable
  | reserved
  | acpiReclaimable
  | acpiNvs
  | badMemory
  | bootloaderReclaimable
  | executableAndModules
  | framebuffer
  deriving DecidableEq, Repr

/-- `limine::memory_map::Entry`. -/
structure Entry where
  base : ℕ
  length : ℕ
  entryType : EntryType
  deriving DecidableEq, Repr

/-- The types of memory the page count is taken from. -/
def EntryType.isCounted : EntryType → Bool
  | usable | bootloaderReclaimable | acpiReclaimable | executableAndModules => true
  | _ => false

end MemoryMap

open MemoryMap

variable (m : Overflow)

/-! ## The code -/

/-- The maximum addressable page count: the end of the last counted entry. -/
def getPageCountFromMemMap (memMap : List Entry) : Except Panic ℕ := do
  let lastDescr ← ofOption .unwrapNone (memMap.reverse.find? (·.entryType.isCounted))
  let stop ← Usize.add m lastDescr.base lastDescr.length
  .ok (stop / BASIC_PAGE_SIZE)

/-- `PhysAddr::add_hhdm_offset`, for the window at `hhdm`. -/
def addHhdmOffset (hhdm : ℕ) (addr : PhysAddr) : Except Panic VirtAddr := Usize.add m addr hhdm

namespace BuddyAllocator

/-- The bytes set aside for nodes: 2MB. -/
def FREELIST_BUCKETS_SIZE : ℕ := 0x200000

/-- `size_of::<LinkedList<PhysAddr>>()`. -/
def listSize : ℕ := 24

/-- `size_of::<Node<PhysAddr>>()`. -/
def nodeSize : ℕ := 24

/-- `align_of::<Node<PhysAddr>>()`. -/
def nodeAlign : ℕ := 8

/-- The bytes the zones array and the pool take.  There are at most 64 zones, so
nothing here overflows. -/
def totalBufferSize (zonesCount : ℕ) : ℕ :=
  let zonesSize := zonesCount * listSize
  let alignToAdd := zonesSize % nodeAlign
  zonesSize + alignToAdd + FREELIST_BUCKETS_SIZE

/-- The first usable entry of at least `size` bytes. -/
def findEntry (memMap : List Entry) (size : ℕ) : Option Entry :=
  memMap.find? fun entry => entry.entryType = .usable ∧ entry.length ≥ size

/-- The zones array, as the address and the contents of each slot. -/
def createZones (zonesPtr zonesCount : ℕ) : List (VirtAddr × List Node) :=
  (List.range zonesCount).map fun i => (zonesPtr + i * listSize, [])

/-- `ptr.align_offset(align)`. -/
def alignOffset (ptr align : ℕ) : ℕ := (align - ptr % align) % align

/-- The node pool behind the zones array.  A node is linked in as it lies in memory,
so its data is what `mem` holds there. -/
def createFreelist (mem : VirtAddr → PhysAddr) (zonesPtr maxZoneLevel : ℕ) : List Node :=
  let ptr := zonesPtr + maxZoneLevel * listSize
  let ptr := ptr + alignOffset ptr nodeAlign
  let bucketsCount := FREELIST_BUCKETS_SIZE / nodeSize
  (List.range bucketsCount).map fun i => ⟨ptr + i * nodeSize, mem (ptr + i * nodeSize)⟩

/-- The empty allocator, the entry it lives in, and how many pages it takes there. -/
def newFromLimine (hhdm : ℕ) (mem : VirtAddr → PhysAddr) (memMap : List Entry) :
    Except Panic (BuddyAllocator × Entry × ℕ) := do
  let totalPageCount ← getPageCountFromMemMap m memMap
  let log ← ilog2 totalPageCount
  let zonesCount := log + 1
  let entry ← ofOption .unwrapNone (findEntry memMap (totalBufferSize zonesCount))
  let zonesPtr ← addHhdmOffset m hhdm entry.base
  if zonesPtr = 0 then .error .unwrapNone
  else
    .ok ({ zones := (createZones zonesPtr zonesCount).map Prod.snd,
           freelist := createFreelist mem zonesPtr zonesCount },
      entry, (totalBufferSize zonesCount + BASIC_PAGE_SIZE - 1) / BASIC_PAGE_SIZE)

/-- Hand over every usable entry. -/
def markFree (s : BuddyAllocator) : List Entry → Except Panic BuddyAllocator
  | [] => .ok s
  | entry :: rest =>
      if entry.entryType = .usable then do
        let s' ← s.breakIntoBucketsNFree m entry.base (entry.length / BASIC_PAGE_SIZE)
        markFree s' rest
      else markFree s rest

/-- Allocate page `i` of an entry and the `k - 1` pages after it. -/
def markUsed (s : BuddyAllocator) (base i : ℕ) : ℕ → Except Panic BuddyAllocator
  | 0 => .ok s
  | k + 1 => do
      let off ← Usize.mul m i BASIC_PAGE_SIZE
      let addr ← Usize.add m base off
      match ← s.allocateAt m addr 1 with
      | (.error _, _) => .error (.expect "Failed to allocate a page for the buddy allocator")
      | (.ok (), s') => markUsed s' base (i + 1) k

def initFromLimine (hhdm : ℕ) (mem : VirtAddr → PhysAddr) (memMap : List Entry) :
    Except Panic (BuddyAllocator × Entry) := do
  let (newPmm, entry, pageCount) ← newFromLimine m hhdm mem memMap
  let pmm ← newPmm.markFree m memMap
  let pmm ← pmm.markUsed m entry.base 0 pageCount
  .ok (pmm, entry)

end BuddyAllocator

/-! ## The memory map -/

open BuddyAllocator

/-- What the bootloader promises: entries sorted and apart, usable ones made of whole
pages, physical addresses as the processor has them (52 bits at most), and the usable
memory inside the window at `hhdm`. -/
structure WellFormed (hhdm : ℕ) (memMap : List Entry) : Prop where
  sorted : memMap.Pairwise fun a b => a.base + a.length ≤ b.base
  base_aligned : ∀ e ∈ memMap, e.entryType = .usable → e.base % BASIC_PAGE_SIZE = 0
  length_aligned : ∀ e ∈ memMap, e.entryType = .usable → e.length % BASIC_PAGE_SIZE = 0
  physical : ∀ e ∈ memMap, e.base + e.length < 2 ^ 63
  hhdm_pos : 0 < hhdm
  window : ∀ e ∈ memMap, e.entryType = .usable → e.base + e.length + hhdm ≤ 2 ^ 64

/-- The page number that the last counted entry ends at. -/
def pageBound (memMap : List Entry) : ℕ :=
  match memMap.reverse.find? (·.entryType.isCounted) with
  | some e => (e.base + e.length) / BASIC_PAGE_SIZE
  | none => 0

def zonesCount (memMap : List Entry) : ℕ := Nat.log2 (pageBound memMap) + 1

/-- The entry that the allocator places itself in. -/
def chosenEntry (memMap : List Entry) : Option Entry :=
  findEntry memMap (totalBufferSize (zonesCount memMap))

/-- How many pages the allocator takes for itself. -/
def reservedCount (memMap : List Entry) : ℕ :=
  (totalBufferSize (zonesCount memMap) + BASIC_PAGE_SIZE - 1) / BASIC_PAGE_SIZE

/-- The pages that the allocator takes for itself, at the start of `entry`. -/
def reserved (memMap : List Entry) (entry : Entry) : Set ℕ :=
  pagesFrom entry.base (reservedCount memMap)

/-- The pages of the usable entries. -/
def usablePages (memMap : List Entry) : Set ℕ :=
  {p | ∃ e ∈ memMap, e.entryType = .usable ∧ p ∈ pagesFrom e.base (e.length / BASIC_PAGE_SIZE)}

def usableCount (memMap : List Entry) : ℕ := memMap.countP (·.entryType = .usable)

/-- How many nodes `createFreelist` makes. -/
def bucketsCount : ℕ := FREELIST_BUCKETS_SIZE / nodeSize

/-- Even if every boundary of a region cost a node of each order, the pool would do. -/
def FewRegions (memMap : List Entry) : Prop :=
  zonesCount memMap * (2 * usableCount memMap + 2) ≤ bucketsCount

variable {m : Overflow} {hhdm T k : ℕ} {mem : VirtAddr → PhysAddr} {memMap : List Entry}
  {entry e : Entry} {s s' : BuddyAllocator}

/-- Every counted entry ends at or before the last one. -/
theorem end_le_last (hwf : WellFormed hhdm memMap) {d : Entry}
    (hd : memMap.reverse.find? (·.entryType.isCounted) = some d) (he : e ∈ memMap)
    (hcount : e.entryType.isCounted) : e.base + e.length ≤ d.base + d.length := by
  obtain ⟨-, as, bs, hsplit, has⟩ := List.find?_eq_some_iff_append.mp hd
  have hmem : e ∈ as ++ d :: bs := by
    rw [← hsplit]
    exact List.mem_reverse.mpr he
  have hpair : (as ++ d :: bs).Pairwise fun a b => b.base + b.length ≤ a.base := by
    rw [← hsplit]
    exact List.pairwise_reverse.mpr hwf.sorted
  rcases List.mem_append.mp hmem with h | h
  · have := has e h
    simp [hcount] at this
  · rcases List.mem_cons.mp h with rfl | h
    · exact le_refl _
    · have := (List.pairwise_cons.mp (List.pairwise_append.mp hpair).2.1).1 e h
      omega

theorem isCounted_of_usable (h : e.entryType = .usable) : e.entryType.isCounted = true := by
  rw [h]
  rfl

theorem page_end_le (hwf : WellFormed hhdm memMap) (he : e ∈ memMap)
    (hu : e.entryType = .usable) :
    e.base / BASIC_PAGE_SIZE + e.length / BASIC_PAGE_SIZE ≤ pageBound memMap := by
  have hcount := isCounted_of_usable hu
  have hle : e.base / BASIC_PAGE_SIZE + e.length / BASIC_PAGE_SIZE ≤
      (e.base + e.length) / BASIC_PAGE_SIZE := Nat.div_add_div_le_add_div
  unfold pageBound
  cases hd : memMap.reverse.find? (·.entryType.isCounted) with
  | none =>
      have := List.find?_eq_none.mp hd e (List.mem_reverse.mpr he)
      exact absurd hcount this
  | some d => exact hle.trans (Nat.div_le_div_right (end_le_last hwf hd he hcount))

theorem chosenEntry_spec (h : chosenEntry memMap = some entry) :
    entry ∈ memMap ∧ entry.entryType = .usable ∧
      totalBufferSize (zonesCount memMap) ≤ entry.length := by
  have hp := List.find?_some h
  rw [decide_eq_true_eq] at hp
  exact ⟨List.mem_of_find?_eq_some h, hp.1, hp.2⟩

theorem usablePages_cons_of_usable (hu : e.entryType = .usable) (es : List Entry) :
    usablePages (e :: es) =
      Set.Ico (e.base / BASIC_PAGE_SIZE) (e.base / BASIC_PAGE_SIZE + e.length / BASIC_PAGE_SIZE) ∪
        usablePages es := by
  ext p
  simp [usablePages, pagesFrom, hu]

theorem usablePages_cons_of_not_usable (hu : e.entryType ≠ .usable) (es : List Entry) :
    usablePages (e :: es) = usablePages es := by
  ext p
  simp [usablePages, hu]

theorem lt_pageBound_of_usable (hwf : WellFormed hhdm memMap) {p : ℕ} (hp : p ∈ usablePages memMap) :
    p < pageBound memMap := by
  obtain ⟨e, he, hu, hp⟩ := hp
  have := page_end_le hwf he hu
  rw [pagesFrom, Set.mem_Ico] at hp
  omega

theorem WellFormed.tail (h : WellFormed hhdm (e :: memMap)) : WellFormed hhdm memMap where
  sorted := (List.pairwise_cons.mp h.sorted).2
  base_aligned d hd := h.base_aligned d (List.mem_cons_of_mem e hd)
  length_aligned d hd := h.length_aligned d (List.mem_cons_of_mem e hd)
  physical d hd := h.physical d (List.mem_cons_of_mem e hd)
  hhdm_pos := h.hhdm_pos
  window d hd := h.window d (List.mem_cons_of_mem e hd)

/-- The first entry has no page in common with the usable entries after it. -/
theorem WellFormed.head_disjoint (h : WellFormed hhdm (e :: memMap)) :
    Disjoint (Set.Ico (e.base / BASIC_PAGE_SIZE)
      (e.base / BASIC_PAGE_SIZE + e.length / BASIC_PAGE_SIZE)) (usablePages memMap) := by
  rw [Set.disjoint_left]
  rintro p hp ⟨d, hd, -, hp'⟩
  have hle := (List.pairwise_cons.mp h.sorted).1 d hd
  have hdiv := Nat.div_le_div_right (c := BASIC_PAGE_SIZE) hle
  have hsum : e.base / BASIC_PAGE_SIZE + e.length / BASIC_PAGE_SIZE ≤
      (e.base + e.length) / BASIC_PAGE_SIZE := Nat.div_add_div_le_add_div
  rw [pagesFrom, Set.mem_Ico] at hp'
  rw [Set.mem_Ico] at hp
  omega

/-! ## The pieces of the initialisation -/

theorem zonesCount_le (hwf : WellFormed hhdm memMap) (h : pageBound memMap ≠ 0) :
    zonesCount memMap ≤ 51 := by
  have hlt : pageBound memMap < 2 ^ 51 := by
    unfold pageBound
    cases hd : memMap.reverse.find? (·.entryType.isCounted) with
    | none => simp
    | some d =>
        have hphys := hwf.physical d (List.mem_reverse.mp (List.mem_of_find?_eq_some hd))
        simp only [BASIC_PAGE_SIZE]
        omega
  have := (Nat.log2_lt h).mpr hlt
  unfold zonesCount
  omega

theorem pageBound_lt (memMap : List Entry) : pageBound memMap < 2 ^ zonesCount memMap :=
  Nat.lt_log2_self

/-- A map with a chosen entry has at least one page. -/
theorem pageBound_ne_zero (hwf : WellFormed hhdm memMap) (h : chosenEntry memMap = some entry) :
    pageBound memMap ≠ 0 := by
  obtain ⟨hmem, hu, hlen⟩ := chosenEntry_spec h
  have hend := page_end_le hwf hmem hu
  have hsize : BASIC_PAGE_SIZE ≤ entry.length := by
    refine le_trans ?_ hlen
    simp only [totalBufferSize, FREELIST_BUCKETS_SIZE, BASIC_PAGE_SIZE]
    omega
  have hpos := Nat.div_pos hsize basicPageSize_pos
  exact ((Nat.add_pos_right _ hpos).trans_le hend).ne'

theorem zonesPtr_lt (hwf : WellFormed hhdm memMap) (h : chosenEntry memMap = some entry) :
    entry.base + hhdm < 2 ^ 64 := by
  obtain ⟨hmem, hu, hlen⟩ := chosenEntry_spec h
  have hwin := hwf.window entry hmem hu
  simp only [totalBufferSize, FREELIST_BUCKETS_SIZE] at hlen
  omega

theorem createZones_map_snd (zonesPtr n : ℕ) :
    (createZones zonesPtr n).map Prod.snd = List.replicate n [] := by
  simp [createZones, Function.comp_def, List.map_const']

/-- The allocator that `newFromLimine` returns for an entry. -/
def emptyAllocator (hhdm : ℕ) (mem : VirtAddr → PhysAddr) (memMap : List Entry) (entry : Entry) :
    BuddyAllocator :=
  (Client.start (zonesCount memMap)
    (createFreelist mem (entry.base + hhdm) (zonesCount memMap))).pmm

theorem newFromLimine_spec (mem : VirtAddr → PhysAddr) (hwf : WellFormed hhdm memMap) :
    Yields (fun x => x ≠ .poolEmpty ∧ chosenEntry memMap = none)
      (fun r => chosenEntry memMap = some r.2.1 ∧
        r = (emptyAllocator hhdm mem memMap r.2.1, r.2.1, reservedCount memMap))
      (newFromLimine m hhdm mem memMap) := by
  unfold newFromLimine getPageCountFromMemMap
  cases hd : memMap.reverse.find? (·.entryType.isCounted) with
  | none =>
      refine ⟨by simp, ?_⟩
      cases hch : chosenEntry memMap with
      | none => rfl
      | some entry =>
          have hzero : pageBound memMap = 0 := by simp [pageBound, hd]
          exact absurd hzero (pageBound_ne_zero hwf hch)
  | some d =>
      have hphys := hwf.physical d (List.mem_reverse.mp (List.mem_of_find?_eq_some hd))
      have hbound : (d.base + d.length) / BASIC_PAGE_SIZE = pageBound memMap := by
        simp [pageBound, hd]
      rw [ofOption_some, ok_bind, Usize.add_eq (by omega), ok_bind, ok_bind, hbound]
      by_cases hzero : pageBound memMap = 0
      · rw [hzero, ilog2, if_pos rfl]
        refine ⟨by simp, ?_⟩
        cases hch : chosenEntry memMap with
        | none => rfl
        | some entry => exact absurd hzero (pageBound_ne_zero hwf hch)
      rw [ilog2_eq hzero, ok_bind]
      cases hch : chosenEntry memMap with
      | none =>
          rw [chosenEntry, zonesCount] at hch
          simp only [hch, ofOption_none, error_bind]
          exact ⟨by simp, trivial⟩
      | some entry =>
          have hpos := hwf.hhdm_pos
          have hne : entry.base + hhdm ≠ 0 := by omega
          have hfit := zonesPtr_lt hwf hch
          rw [chosenEntry, zonesCount] at hch
          simp only [hch, ofOption_some, ok_bind, addHhdmOffset, Usize.add_eq hfit]
          rw [if_neg hne, createZones_map_snd]
          exact ⟨rfl, rfl⟩

/-- The usable pages of the entries still to come are new to the allocator. -/
theorem markFree_spec (hwf : WellFormed hhdm memMap) (hI : Inv T s)
    (hd : Disjoint (usablePages memMap) s.freePages) (hT : ∀ e ∈ memMap, e.entryType = .usable →
      e.base / BASIC_PAGE_SIZE + e.length / BASIC_PAGE_SIZE ≤ T) (hedges : EdgesLe s.freePages k) :
    Yields
      (fun x => ∃ C ⊆ s.freePages ∪ usablePages memMap,
        EdgesLe C (k + 2 * usableCount memMap) ∧ PoolOut s C x)
      (fun s' => Frees T s s' (s.freePages ∪ usablePages memMap) ∧
        EdgesLe s'.freePages (k + 2 * usableCount memMap))
      (s.markFree m memMap) := by
  induction memMap generalizing s k with
  | nil =>
      have hnone : usablePages [] = ∅ := by simp [usablePages]
      rw [markFree, yields_ok, hnone, Set.union_empty]
      exact ⟨⟨hI, Keeps.refl s, rfl⟩, hedges⟩
  | cons e es ih =>
      have hTes := fun d hd => hT d (List.mem_cons_of_mem e hd)
      rw [markFree]
      by_cases hu : e.entryType = .usable
      · rw [usablePages_cons_of_usable hu] at hd ⊢
        have hcount : usableCount (e :: es) = usableCount es + 1 := by
          simp [usableCount, hu]
        have hbase : e.base = e.base / BASIC_PAGE_SIZE * BASIC_PAGE_SIZE :=
          (Nat.div_mul_cancel (Nat.dvd_of_mod_eq_zero
            (hwf.base_aligned e List.mem_cons_self hu))).symm
        have hend := hT e List.mem_cons_self hu
        have hnew := hwf.head_disjoint
        generalize e.base / BASIC_PAGE_SIZE = p at hd hbase hend hnew ⊢
        generalize e.length / BASIC_PAGE_SIZE = n at hd hend hnew ⊢
        rw [Set.disjoint_union_left] at hd
        rw [if_pos hu, hbase, hcount]
        refine ((breakIntoBucketsNFree_spec hI hd.1 hend).allow ?_).bind ?_
        · rintro x ⟨q, hq, hx⟩
          refine ⟨_, ?_, (hedges.union_Ico p (p + q)).mono (by omega), hx⟩
          have hsub : Set.Ico p (p + q) ⊆ Set.Ico p (p + n) := Set.Ico_subset_Ico_right (by omega)
          exact Set.union_subset_union_right _ (hsub.trans Set.subset_union_left)
        · intro s' hs'
          have hd' : Disjoint (usablePages es) s'.freePages := by
            rw [hs'.free, Set.disjoint_union_right]
            exact ⟨hd.2, hnew.symm⟩
          have hedges' : EdgesLe s'.freePages (k + 2) := by
            rw [hs'.free]
            exact hedges.union_Ico p (p + n)
          have hk : k + 2 + 2 * usableCount es = k + 2 * (usableCount es + 1) := by omega
          refine (ih hwf.tail hs'.inv hd' hTes hedges').mono ?_ ?_
          · rintro x ⟨C, hC, hCedges, hx⟩
            rw [hs'.free, Set.union_assoc] at hC
            rw [hk] at hCedges
            exact ⟨C, hC, hCedges, hx.of_keeps hs'.keeps⟩
          · rintro s'' ⟨hs'', hedges''⟩
            rw [hk] at hedges''
            refine ⟨hs'.trans hs'' ?_, hedges''⟩
            rw [hs'.free, Set.union_assoc]
      · have hcount : usableCount (e :: es) = usableCount es := by
          simp [usableCount, hu]
        rw [usablePages_cons_of_not_usable hu] at hd ⊢
        rw [if_neg hu, hcount]
        exact ih hwf.tail hI hd hTes hedges

/-- Taking free pages one by one. -/
theorem markUsed_spec {b i n : ℕ} (hI : Inv T s)
    (hfree : Set.Ico (b + i) (b + i + n) ⊆ s.freePages) :
    Yields (fun x => ∃ j ≤ n, PoolOut s (s.freePages \ Set.Ico (b + i) (b + i + j)) x)
      (Frees T s · (s.freePages \ Set.Ico (b + i) (b + i + n)))
      (s.markUsed m (b * BASIC_PAGE_SIZE) i n) := by
  induction n generalizing s i with
  | zero =>
      refine ⟨hI, Keeps.refl s, ?_⟩
      simp
  | succ n ih =>
      have hmem : b + i ∈ s.freePages := hfree (by rw [Set.mem_Ico]; omega)
      have hlt := (hI.bounded _ hmem).trans_le hI.bound_le
      have hpage : b * BASIC_PAGE_SIZE + i * BASIC_PAGE_SIZE = (b + i) * BASIC_PAGE_SIZE :=
        (Nat.add_mul _ _ _).symm
      have hfit : b * BASIC_PAGE_SIZE + i * BASIC_PAGE_SIZE < 2 ^ 64 := by
        simp only [BASIC_PAGE_SIZE]
        omega
      have hone : Set.Ico (b + i) (b + i + 1) = {b + i} := by
        ext q
        rw [Set.mem_Ico, Set.mem_singleton_iff]
        omega
      have hsplit : ∀ j, (s.freePages \ {b + i}) \ Set.Ico (b + (i + 1)) (b + (i + 1) + j) =
          s.freePages \ Set.Ico (b + i) (b + i + (j + 1)) := by
        intro j
        rw [← hone, Set.sdiff_sdiff, ← Nat.add_assoc b i 1, Ico_union, Nat.add_comm 1 j]
      rw [markUsed, Usize.mul_eq (by omega), ok_bind, Usize.add_eq hfit, ok_bind, hpage]
      refine ((allocateAt_page hI hmem).allow ?_).bind ?_
      · intro x hx
        rw [← hone] at hx
        exact ⟨1, by omega, hx⟩
      · rintro ⟨r, s'⟩ ⟨hr, h⟩
        dsimp only at hr h
        subst hr
        have hfree' : Set.Ico (b + (i + 1)) (b + (i + 1) + n) ⊆ s'.freePages := by
          rw [h.free, ← hone, Set.subset_sdiff]
          exact ⟨(Set.Ico_subset_Ico (by omega) (by omega)).trans hfree,
            Set.Ico_disjoint_Ico_same.symm⟩
        refine (ih h.inv hfree').mono ?_ ?_
        · rintro x ⟨j, hj, hx⟩
          rw [h.free, hsplit] at hx
          exact ⟨j + 1, by omega, hx.of_keeps h.keeps⟩
        · intro s'' hs''
          refine h.trans hs'' ?_
          rw [h.free, hsplit]

/-! ## The allocator after the initialisation -/

theorem reservedCount_le (hwf : WellFormed hhdm memMap) (h : chosenEntry memMap = some entry) :
    reservedCount memMap ≤ entry.length / BASIC_PAGE_SIZE := by
  obtain ⟨hmem, hu, hlen⟩ := chosenEntry_spec h
  have hmod := hwf.length_aligned entry hmem hu
  unfold reservedCount
  simp only [BASIC_PAGE_SIZE] at hmod ⊢
  omega

theorem reserved_subset (hwf : WellFormed hhdm memMap) (h : chosenEntry memMap = some entry) :
    reserved memMap entry ⊆ usablePages memMap := by
  obtain ⟨hmem, hu, -⟩ := chosenEntry_spec h
  have hle := reservedCount_le hwf h
  intro p hp
  refine ⟨entry, hmem, hu, ?_⟩
  rw [reserved, pagesFrom, Set.mem_Ico] at hp
  rw [pagesFrom, Set.mem_Ico]
  omega

/-- What the initialisation leaves behind. -/
structure Ready (hhdm : ℕ) (mem : VirtAddr → PhysAddr) (memMap : List Entry) (entry : Entry)
    (s : BuddyAllocator) : Prop where
  inv : Inv (pageBound memMap) s
  keeps : Keeps (emptyAllocator hhdm mem memMap entry) s
  free : s.freePages = usablePages memMap \ reserved memMap entry

theorem nodeCount_emptyAllocator :
    (emptyAllocator hhdm mem memMap entry).nodeCount = bucketsCount := by
  rw [emptyAllocator, nodeCount_start]
  simp [createFreelist, bucketsCount]

/-- The initialisation builds the allocator, unless some set of usable pages that it
passes through takes more nodes than there are. -/
theorem initFromLimine_spec (mem : VirtAddr → PhysAddr) (hwf : WellFormed hhdm memMap)
    (hch : chosenEntry memMap = some entry) :
    Yields
      (fun x => x = .poolEmpty ∧ ∃ C ⊆ usablePages memMap,
        EdgesLe C (2 * usableCount memMap + 2) ∧ Exceeds bucketsCount (zonesCount memMap) C)
      (fun r => Ready hhdm mem memMap entry r.1 ∧ r.2 = entry)
      (initFromLimine m hhdm mem memMap) := by
  have hzones := zonesCount_le hwf (pageBound_ne_zero hwf hch)
  have hI : Inv (pageBound memMap) (emptyAllocator hhdm mem memMap entry) :=
    inv_start hzones (pageBound_lt memMap) _
  have hempty : (emptyAllocator hhdm mem memMap entry).freePages = ∅ := freePages_start _ _
  have hout : ∀ C x, PoolOut (emptyAllocator hhdm mem memMap entry) C x →
      x = .poolEmpty ∧ Exceeds bucketsCount (zonesCount memMap) C := by
    intro C x hx
    rw [PoolOut, nodeCount_emptyAllocator, emptyAllocator, zones_start] at hx
    exact hx
  have hmark := markFree_spec (m := m) (k := 0) hwf hI
    (by rw [hempty]; exact Set.disjoint_empty _) (fun e he hu => page_end_le hwf he hu)
    (by rw [hempty]; exact EdgesLe.empty)
  rw [hempty, Set.empty_union, Nat.zero_add] at hmark
  obtain ⟨hmem, hu, -⟩ := chosenEntry_spec hch
  have hbase : entry.base = entry.base / BASIC_PAGE_SIZE * BASIC_PAGE_SIZE :=
    (Nat.div_mul_cancel (Nat.dvd_of_mod_eq_zero (hwf.base_aligned entry hmem hu))).symm
  have hnew := newFromLimine_spec (m := m) mem hwf
  rw [hch] at hnew
  rw [initFromLimine]
  refine (hnew.allow fun x hx => absurd hx.2 (by simp)).bind ?_
  rintro ⟨s₀, entry', n⟩ ⟨hentry, hr⟩
  have hsame : entry = entry' := Option.some.inj hentry
  subst hsame
  simp only [Prod.mk.injEq, true_and] at hr
  obtain ⟨rfl, rfl⟩ := hr
  refine (hmark.allow ?_).bind ?_
  · rintro x ⟨C, hC, hCedges, hx⟩
    exact ⟨(hout C x hx).1, C, hC, hCedges.mono (by omega), (hout C x hx).2⟩
  rintro s ⟨hs, hedges⟩
  have hused := markUsed_spec (m := m) (b := entry.base / BASIC_PAGE_SIZE) (i := 0)
    (n := reservedCount memMap) hs.inv (by rw [hs.free]; exact reserved_subset hwf hch)
  rw [← hbase, Nat.add_zero] at hused
  refine (hused.allow ?_).bind ?_
  · rintro x ⟨j, hj, hx⟩
    have hx' := hout _ x (hx.of_keeps hs.keeps)
    refine ⟨hx'.1, _, ?_, hedges.sdiff_Ico _ _, hx'.2⟩
    rw [hs.free]
    exact Set.sdiff_subset
  · intro s' hs'
    refine ⟨⟨hs'.inv, hs.keeps.trans hs'.keeps, ?_⟩, rfl⟩
    rw [hs'.free, hs.free]
    rfl

/-- With few regions the pool suffices for every set the initialisation passes. -/
theorem initFromLimine_of_fewRegions (mem : VirtAddr → PhysAddr) (hwf : WellFormed hhdm memMap)
    (hch : chosenEntry memMap = some entry) (hfew : FewRegions memMap) :
    ∃ s, initFromLimine m hhdm mem memMap = .ok (s, entry) ∧ Ready hhdm mem memMap entry s := by
  obtain ⟨⟨s, _⟩, hrun, hready, rfl⟩ := (initFromLimine_spec (m := m) mem hwf hch).exists_ok
    fun x ⟨_, C, _, hedges, hex⟩ => not_exceeds_of_edges hedges hfew hex
  exact ⟨s, hrun, hready⟩

/-- The first client of a fresh allocator. -/
def firstClient (s : BuddyAllocator) : Client := ⟨s, s.freePages, ∅⟩

theorem Ready.sound (h : Ready hhdm mem memMap entry s) :
    Sound (pageBound memMap) (firstClient s) (firstClient s) where
  inv := h.inv
  keeps := Keeps.refl s
  partition := Set.union_empty _
  disjoint := Set.disjoint_empty _
  bounded := h.inv.bounded

/-- Calls only ever free pages that the initialisation left free. -/
theorem Ready.freePages_subset (h : Ready hhdm mem memMap entry s) {g : Client}
    (hg : Calls m (firstClient s) g) : g.pmm.freePages ⊆ usablePages memMap \ reserved memMap entry := by
  obtain ⟨hsound, hmanaged⟩ := h.sound.calls hg
  rw [← h.free]
  refine le_trans ?_ hmanaged.subset
  rw [← hsound.partition]
  exact Set.subset_union_left

/-- The bytes of the window from `addr` on are bytes of reserved pages. -/
def InReserved (hhdm : ℕ) (memMap : List Entry) (entry : Entry) (addr size : ℕ) : Prop :=
  ∀ b < size, hhdm ≤ addr + b ∧ (addr + b - hhdm) / BASIC_PAGE_SIZE ∈ reserved memMap entry

theorem inReserved_of_le {addr size : ℕ} (hbase : entry.base % BASIC_PAGE_SIZE = 0) (hlow : entry.base + hhdm ≤ addr)
    (hhigh : addr + size ≤ entry.base + hhdm + totalBufferSize (zonesCount memMap)) :
    InReserved hhdm memMap entry addr size := by
  intro b hb
  refine ⟨by omega, ?_⟩
  rw [reserved, pagesFrom, Set.mem_Ico, reservedCount]
  simp only [BASIC_PAGE_SIZE] at hbase ⊢
  omega

theorem createZones_inReserved (hbase : entry.base % BASIC_PAGE_SIZE = 0) :
    ∀ slot ∈ createZones (entry.base + hhdm) (zonesCount memMap),
      InReserved hhdm memMap entry slot.1 listSize := by
  intro slot hslot
  obtain ⟨i, hi, rfl⟩ := List.mem_map.mp hslot
  rw [List.mem_range] at hi
  refine inReserved_of_le hbase (by simp only [listSize]; omega) ?_
  simp only [listSize, totalBufferSize, FREELIST_BUCKETS_SIZE]
  omega

/-- The 8 bytes that 2MB leaves over make room for the alignment of the first node. -/
theorem createFreelist_inReserved (hbase : entry.base % BASIC_PAGE_SIZE = 0) :
    ∀ node ∈ createFreelist mem (entry.base + hhdm) (zonesCount memMap),
      InReserved hhdm memMap entry node.ptr nodeSize := by
  intro node hnode
  obtain ⟨i, hi, rfl⟩ := List.mem_map.mp hnode
  rw [List.mem_range] at hi
  refine inReserved_of_le hbase (by simp only [listSize, nodeSize]; omega) ?_
  simp only [listSize, nodeSize, nodeAlign, alignOffset, totalBufferSize,
    FREELIST_BUCKETS_SIZE] at hi ⊢
  omega

theorem ptrs_start (z : ℕ) (pool : List Node) :
    (Client.start z pool).pmm.ptrs = pool.map Node.ptr := by
  simp [ptrs, Client.start]

theorem Ready.ptrs_inReserved (h : Ready hhdm mem memMap entry s)
    (hbase : entry.base % BASIC_PAGE_SIZE = 0) {g : Client} (hg : Calls m (firstClient s) g) :
    ∀ a ∈ g.pmm.ptrs, InReserved hhdm memMap entry a nodeSize := by
  intro a ha
  rw [((h.sound.calls hg).1.keeps.nodes.trans h.keeps.nodes).mem_iff] at ha
  have hpool : (emptyAllocator hhdm mem memMap entry).ptrs =
      (createFreelist mem (entry.base + hhdm) (zonesCount memMap)).map Node.ptr :=
    ptrs_start _ _
  rw [hpool] at ha
  obtain ⟨node, hnode, rfl⟩ := List.mem_map.mp ha
  exact createFreelist_inReserved hbase node hnode

/-- Runs of `allocate`, with any arguments. -/
def Allocations (m : Overflow) : BuddyAllocator → BuddyAllocator → Prop :=
  Relation.ReflTransGen fun s s' => ∃ al n r, s.allocate m al n = .ok (r, s')

/-- Allocating never frees a page. -/
theorem Allocations.shrink (hI : Inv T s) (h : Allocations m s s') :
    Inv T s' ∧ s'.freePages ⊆ s.freePages := by
  induction h with
  | refl => exact ⟨hI, subset_rfl⟩
  | tail _ hstep ih =>
      obtain ⟨al, n, r, hrun⟩ := hstep
      rcases allocate_any ih.1 hrun with ⟨x, hx⟩ | ⟨c, -, -, hfrees⟩
      · rw [(Prod.mk.inj hx).2]
        exact ih
      · refine ⟨hfrees.inv, ?_⟩
        rw [hfrees.free]
        exact Set.sdiff_subset.trans ih.2

/-- What `allocate` returns was free. -/
theorem pagesFrom_subset_of_allocate (hI : Inv T s) {al n : ℕ} {a : PhysAddr}
    (h : s.allocate m al n = .ok (.ok a, s')) : pagesFrom a n ⊆ s.freePages := by
  rcases allocate_any hI h with ⟨x, hx⟩ | ⟨c, ha, hsub, -⟩
  · cases (Prod.mk.inj hx).1
  · have ha' : a = blockAddr (Nat.clog 2 n) c := Except.ok.inj ha
    have hle := Nat.le_pow_clog (show 1 < 2 by omega) n
    refine le_trans ?_ hsub
    rw [← pagesFrom_blockAddr, ha']
    intro p hp
    rw [pagesFrom, Set.mem_Ico] at hp ⊢
    omega

/-- The memory map of a machine with 128MB. -/
def smallMap : List Entry :=
  [⟨0, 0x9f000, .usable⟩, ⟨0x9f000, 0x61000, .reserved⟩, ⟨0x100000, 0x7ee0000, .usable⟩,
    ⟨0x7fe0000, 0x20000, .bootloaderReclaimable⟩, ⟨0xfd000000, 0x1000000, .framebuffer⟩]

theorem smallMap_wellFormed : WellFormed 0xffff800000000000 smallMap := by
  constructor <;> decide

end Funderberker

import Funderberker.Paging.Handout
import Funderberker.Paging.Limine
import Funderberker.Paging.OnePage

/-!
# The kernel's memory

After boot the kernel changes its address space through four calls.  It allocates pages and
frees them one at a time, maps device memory and the tables of the firmware, and unmaps what it
no longer needs, always in basic pages.  The virtual pages come from the bump allocator, which
starts behind the memory map and stays in the lower half, and the mappings of the boot are all
in the upper half.

So no call meets a page that is mapped, and none fails but for want of memory.  The window and
the image stay as they were at boot, and a frame that the PMM has handed out has one use: it is
a table, or it is mapped by one page.

## Main definitions

* `initMemory` — the boot: virtual addresses, PMM, tables.
* `KernelStep`, `KernelRun` — the calls of the kernel, in any order.
* `Space`, `KernelInv` — the invariant.
* `MemorySafe`, `CallsServed` — what it is for.

## Main results

* `kernel_memory_safe` — what holds in every state.
* `kernel_calls_served` — no call returns an error.
* `kernel_calls_local` — a call leaves the other pages alone.
-/

namespace Funderberker

open Panicking PageTable BuddyAllocator MemoryMap

/-! ## The code -/

/-- The least number of bytes of virtual memory: 8TB, as the source has it. -/
def MIN_MEM_SPAN : ℕ := 8 * 0x1000 * 0x1000 * 0x1000 * 0x1000

/-- Virtual addresses from `startAddr` on. -/
def VirtualAddressAllocator.new (m : Overflow) (hhdm : ℕ) (startAddr : VirtAddr) :
    Except Panic VirtualAddressAllocator := do
  sanityAssert m (startAddr % PageSize.size4kb.size = 0)
  let span ← Usize.sub m hhdm startAddr
  if span ≥ MIN_MEM_SPAN then .ok (startingFrom (startAddr / PageSize.size4kb.size))
  else .error .assertion

/-- Virtual addresses from the end of the memory map on. -/
def initVaaFromLimine (m : Overflow) (hhdm : ℕ) (memMap : List Entry) :
    Except Panic VirtualAddressAllocator := do
  let lastEntry ← ofOption .unwrapNone memMap.getLast?
  let addr ← Usize.add m lastEntry.base lastEntry.length
  VirtualAddressAllocator.new m hhdm addr

/-- What `kmain` does before it parses the tables of the firmware: virtual addresses, the PMM,
and the tables. -/
def initMemory (m : Overflow) (framebuffer : Bool) (hhdm : ℕ) (kernelVirt : VirtAddr)
    (kernelPhys : PhysAddr) (nodes : VirtAddr → PhysAddr) (words : PhysAddr → ℕ → Word)
    (memMap : List Entry) : Except Panic (PagingManager BuddyAllocator) := do
  let vaa ← initVaaFromLimine m hhdm memMap
  let (pmm, usedByPmm) ← initFromLimine m hhdm nodes memMap
  let (pml, world) ← initPagingFromLimine m framebuffer hhdm kernelVirt kernelPhys memMap usedByPmm
    ⟨words, pmm⟩
  .ok { pml, world, vaa }

/-- Unmap pages that were mapped to memory of others. -/
def PagingManager.unmapPages {σ : Type} [PmmAllocator σ] (m : Overflow) (s : PagingManager σ)
    (virtAddr : VirtAddr) (pageCount : ℕ) (pageSize : PageSize) :
    Except Panic (Except PagingError Unit × PagingManager σ) := do
  let (res, w) ← PageTable.unmapPages m s.pml s.world virtAddr pageCount pageSize
  .ok (res, { s with world := w })

/-! ## The words -/

/-- The words of the kernel's tables: above the bottom level, those of the boot. -/
def KernelWord (level : ℕ) (e : Word) : Prop :=
  Entry.Unused e ∨ (∃ a, e = Entry.tableEntry a ∧ a % 4096 = 0 ∧ a < 2 ^ 52 ∧ level ≠ 0) ∨
    (level ≤ 2 ∧ e.getLsbD 10 = true) ∧ e.getLsbD 9 = false ∧
      (level ≠ 0 → e.getLsbD 0 = true ∧ e.getLsbD 7 = true)

theorem grammar_kernelWord : Grammar KernelWord where
  zero _ := Or.inl Entry.unused_zero
  table level a ha hlt := Or.inr (Or.inl ⟨a, rfl, ha, hlt, Nat.succ_ne_zero level⟩)
  cases h := h.imp_right fun h => h.imp_right And.left

theorem marksLarge_kernelWord : MarksLarge KernelWord := by
  intro level e h hpres hlast
  rcases h with hunused | ⟨a, rfl, ha, -⟩ | ⟨-, -, hlarge⟩
  · rw [hunused.getLsbD (by omega)] at hpres
    cases hpres
  · rw [Entry.last_tableEntry ha] at hlast
    cases hlast
  · exact (hlarge (Nat.succ_ne_zero level)).2

theorem KernelWord.unused {level : ℕ} {e : Word} (h : KernelWord level e) (hlevel : level ≠ 0)
    (habsent : e.getLsbD 0 = false) : Entry.Unused e := by
  rcases h with hunused | ⟨a, rfl, -⟩ | ⟨-, -, hlarge⟩
  · exact hunused
  · rw [Entry.present_tableEntry] at habsent
    cases habsent
  · rw [(hlarge hlevel).1] at habsent
    cases habsent

theorem StartWord.kernelWord {level : ℕ} {e : Word} (h : StartWord level e) :
    KernelWord level e := by
  obtain ⟨hfresh, hkeep⟩ := h
  rcases hfresh with rfl | htable | ⟨hlast, hpres, hlarge⟩
  · exact Or.inl Entry.unused_zero
  · exact Or.inr (Or.inl htable)
  · exact Or.inr (Or.inr ⟨hlast, hkeep, fun hlevel => ⟨hpres, hlarge hlevel⟩⟩)

variable {a : PhysAddr} {flags : Flags} {e : Word}

theorem kernelWord_leaf (ha : a % 4096 = 0) (hf : flags.Plain) :
    KernelWord 0 (Entry.leaf a flags) := by
  refine Or.inr (Or.inr ⟨⟨Nat.zero_le 2, ?_⟩, ?_, fun h => absurd rfl h⟩)
  · rw [Entry.getLsbD_leaf ha (by omega)]
    rfl
  · rw [Entry.getLsbD_leaf ha (by omega), hf.allocated]
    rfl

theorem kernelWord_released (ha : a % 4096 = 0) (hf : flags.Plain) :
    KernelWord 0 (Entry.released (Entry.leaf a flags)) := by
  refine Or.inr (Or.inr ⟨⟨Nat.zero_le 2, ?_⟩, ?_, fun h => absurd rfl h⟩)
  · rw [Entry.getLsbD_released, if_neg (by omega), Entry.getLsbD_leaf ha (by omega)]
    rfl
  · rw [Entry.getLsbD_released, if_neg (by omega), Entry.getLsbD_leaf ha (by omega), hf.allocated]
    rfl

/-! ## The pages of the lower half -/

/-- The number of pages in the lower half of the address space. -/
def LOW_PAGES : ℕ := 2 ^ 35

theorem lowPages_le : LOW_PAGES ≤ PAGES := by decide

/-- The tables hold what they held at boot in the upper half, and map a page of the lower half to
a frame if and only if `pm` says so. -/
structure Entries (boot : ℕ → Option (ℕ × Word)) (r : PhysAddr) (pm : ℕ → Option PhysAddr)
    (mem : PhysAddr → ℕ → Word) : Prop where
  high : ∀ k < PAGES, LOW_PAGES ≤ k → pageEntry mem r k = boot k
  mapped : ∀ k f, pm k = some f → k < LOW_PAGES ∧ f % 4096 = 0 ∧ f < 2 ^ 52 ∧
    ∃ flags : Flags, flags.Plain ∧ pageEntry mem r k = some (0, Entry.leaf f flags)
  rest : ∀ k < LOW_PAGES, pm k = none → pageEntry mem r k = none

section

variable {boot : ℕ → Option (ℕ × Word)} {r : PhysAddr} {pm : ℕ → Option PhysAddr}
  {mem mem' : PhysAddr → ℕ → Word} {k j : ℕ} {owned : Set ℕ}

theorem Entries.set (h : Entries boot r pm mem) (hk : k < LOW_PAGES) (ha : a % 4096 = 0)
    (hlt : a < 2 ^ 52) (hf : flags.Plain) (hentry : ∀ j < PAGES, pageEntry mem' r j =
      if j = k then some (0, Entry.leaf a flags) else pageEntry mem r j) :
    Entries boot r (Function.update pm k (some a)) mem' where
  high j hj hlow := by
    rw [hentry j hj, if_neg (by omega)]
    exact h.high j hj hlow
  mapped j f hf' := by
    by_cases hjk : j = k
    · subst hjk
      rw [Function.update_self] at hf'
      obtain rfl := Option.some.inj hf'
      exact ⟨hk, ha, hlt, flags, hf, (hentry j (hk.trans_le lowPages_le)).trans (if_pos rfl)⟩
    · rw [Function.update_of_ne hjk] at hf'
      obtain ⟨hj, hmod, hlt', flags', hplain, hold⟩ := h.mapped j f hf'
      refine ⟨hj, hmod, hlt', flags', hplain, ?_⟩
      rw [hentry j (hj.trans_le lowPages_le), if_neg hjk]
      exact hold
  rest j hj hnone := by
    by_cases hjk : j = k
    · subst hjk
      rw [Function.update_self] at hnone
      cases hnone
    · rw [Function.update_of_ne hjk] at hnone
      rw [hentry j (hj.trans_le lowPages_le), if_neg hjk]
      exact h.rest j hj hnone

theorem Entries.clear (h : Entries boot r pm mem) (hk : k < LOW_PAGES)
    (hentry : ∀ j < PAGES, pageEntry mem' r j = if j = k then none else pageEntry mem r j) :
    Entries boot r (Function.update pm k none) mem' where
  high j hj hlow := by
    rw [hentry j hj, if_neg (by omega)]
    exact h.high j hj hlow
  mapped j f hf' := by
    have hjk : j ≠ k := by
      rintro rfl
      rw [Function.update_self] at hf'
      cases hf'
    rw [Function.update_of_ne hjk] at hf'
    obtain ⟨hj, hmod, hlt, flags, hplain, hold⟩ := h.mapped j f hf'
    refine ⟨hj, hmod, hlt, flags, hplain, ?_⟩
    rw [hentry j (hj.trans_le lowPages_le), if_neg hjk]
    exact hold
  rest j hj hnone := by
    rw [hentry j (hj.trans_le lowPages_le)]
    by_cases hjk : j = k
    · exact if_pos hjk
    · rw [if_neg hjk]
      rw [Function.update_of_ne hjk] at hnone
      exact h.rest j hj hnone

/-- The frames of the pages that the kernel owns. -/
def framesOf (pm : ℕ → Option PhysAddr) (owned : Set ℕ) : Set PhysAddr :=
  {f | ∃ k ∈ owned, pm k = some f}

/-- Pages that are not owned do not matter. -/
theorem framesOf_update (hk : k ∉ owned) (v : Option PhysAddr) :
    framesOf (Function.update pm k v) owned = framesOf pm owned := by
  ext f
  refine exists_congr fun j => and_congr_right fun hj => ?_
  have hne : j ≠ k := by
    rintro rfl
    exact hk hj
  rw [Function.update_of_ne hne]

theorem framesOf_insert (hk : k ∉ owned) :
    framesOf (Function.update pm k (some a)) (insert k owned) = insert a (framesOf pm owned) := by
  rw [← framesOf_update hk (some a)]
  ext f
  constructor
  · rintro ⟨j, rfl | hj, hf⟩
    · rw [Function.update_self] at hf
      exact Or.inl (Option.some.inj hf).symm
    · exact Or.inr ⟨j, hj, hf⟩
  · rintro (rfl | ⟨j, hj, hf⟩)
    · exact ⟨k, Or.inl rfl, Function.update_self _ _ _⟩
    · exact ⟨j, Or.inr hj, hf⟩

/-- Every page that is owned has a frame of its own. -/
structure Owns (pm : ℕ → Option PhysAddr) (owned : Set ℕ) : Prop where
  some : ∀ k ∈ owned, ∃ f, pm k = some f
  unique : ∀ k ∈ owned, ∀ j ∈ owned, ∀ f, pm k = Option.some f → pm j = Option.some f → k = j

theorem Owns.insert (h : Owns pm owned) (hk : k ∉ owned) (ha : a ∉ framesOf pm owned) :
    Owns (Function.update pm k (Option.some a)) (insert k owned) := by
  have hne : ∀ j ∈ owned, j ≠ k := by
    rintro j hj rfl
    exact hk hj
  refine ⟨?_, ?_⟩
  · rintro j (rfl | hj)
    · exact ⟨a, Function.update_self _ _ _⟩
    · rw [Function.update_of_ne (hne j hj)]
      exact h.some j hj
  · rintro i (rfl | hi) j (rfl | hj) f hfi hfj
    · rfl
    · rw [Function.update_self] at hfi
      rw [Function.update_of_ne (hne j hj)] at hfj
      exact absurd ⟨j, hj, hfi ▸ hfj⟩ ha
    · rw [Function.update_self] at hfj
      rw [Function.update_of_ne (hne i hi)] at hfi
      exact absurd ⟨i, hi, hfj ▸ hfi⟩ ha
    · rw [Function.update_of_ne (hne i hi)] at hfi
      rw [Function.update_of_ne (hne j hj)] at hfj
      exact h.unique i hi j hj f hfi hfj

theorem Owns.update (h : Owns pm owned) (hk : k ∉ owned) (v : Option PhysAddr) :
    Owns (Function.update pm k v) owned := by
  have hne : ∀ j ∈ owned, Function.update pm k v j = pm j := fun j hj =>
    Function.update_of_ne (by rintro rfl; exact hk hj) _ _
  refine ⟨fun j hj => ?_, fun i hi j hj f hfi hfj => ?_⟩
  · rw [hne j hj]
    exact h.some j hj
  · rw [hne i hi] at hfi
    rw [hne j hj] at hfj
    exact h.unique i hi j hj f hfi hfj

theorem Owns.mono {owned' : Set ℕ} (h : Owns pm owned) (hsub : owned' ⊆ owned) : Owns pm owned' :=
  ⟨fun k hk => h.some k (hsub hk), fun k hk j hj => h.unique k (hsub hk) j (hsub hj)⟩

/-- The frame of a page that is given up. -/
theorem Owns.framesOf_remove (h : Owns pm owned) (hk : k ∈ owned) (hf : pm k = Option.some a) :
    framesOf pm (owned \ {k}) = framesOf pm owned \ {a} := by
  ext f
  constructor
  · rintro ⟨j, ⟨hj, hjk⟩, hfj⟩
    refine ⟨⟨j, hj, hfj⟩, ?_⟩
    rintro rfl
    exact hjk (h.unique j hj k hk _ hfj hf)
  · rintro ⟨⟨j, hj, hfj⟩, hne⟩
    refine ⟨j, ⟨hj, ?_⟩, hfj⟩
    rintro rfl
    exact hne (Option.some.inj (hfj.symm.trans hf))

end

/-! ## The invariant -/

/-- What the tables hold changed for no page but the pages `S`. -/
def Untouched (r : PhysAddr) (S : Set ℕ) (mem mem' : PhysAddr → ℕ → Word) : Prop :=
  ∀ j < PAGES, j ∉ S → pageEntry mem' r j = pageEntry mem r j

/-- The tables map the pages of the lower half as `pm` says, and the PMM respects the tables and
the frames of the pages that are owned, which are no tables.  All of them are pages `A`. -/
structure Space (T : ℕ) (A : Set ℕ) (boot : ℕ → Option (ℕ × Word)) (r : PhysAddr)
    (pm : ℕ → Option PhysAddr) (owned : Set ℕ) (w : World BuddyAllocator) : Prop where
  inv : SizedInv KernelWord (Beside (framesOf pm owned) (Managed T A)) r w
  entries : Entries boot r pm w.mem
  owns : Owns pm owned

section

variable {m : Overflow} {T : ℕ} {A : Set ℕ} {boot : ℕ → Option (ℕ × Word)} {r : PhysAddr}
  {pm : ℕ → Option PhysAddr} {owned : Set ℕ} {w : World BuddyAllocator} {k : ℕ}
  {pmm : BuddyAllocator}

theorem Space.notOwned (h : Space T A boot r pm owned w) (hk : pm k = none) : k ∉ owned := by
  intro hmem
  obtain ⟨f, hf⟩ := h.owns.some k hmem
  rw [hk] at hf
  cases hf

theorem pageAddr_mod (k : ℕ) : k * BASIC_PAGE_SIZE % 4096 = 0 := Nat.mul_mod_left k 4096

/-- Mapping a page of the lower half where nothing is mapped. -/
theorem Space.mapEntry {F : Set PhysAddr} (hT : T * BASIC_PAGE_SIZE ≤ 2 ^ 52)
    (hI : SizedInv KernelWord (Beside F (Managed T A)) r w) (he : Entries boot r pm w.mem)
    (hk : k < LOW_PAGES) (hnone : pm k = none) (ha : a % 4096 = 0) (hlt : a < 2 ^ 52)
    (hf : flags.Plain) :
    Yields (Stops BuddyAllocator m) (fun x => x.1 = .ok () ∧
      SizedInv KernelWord (Beside F (Managed T A)) r x.2 ∧
      Entries boot r (Function.update pm k (some a)) x.2.mem ∧ Untouched r {k} w.mem x.2.mem)
      (PageTable.mapPages m r w (k * BASIC_PAGE_SIZE) a 1 .size4kb flags) := by
  have hpage := pageOf_mul (hk.trans_le lowPages_le)
  refine (hI.mapOne (m := m) grammar_kernelWord
    ((managed_supplies m (hT.trans (by norm_num))).beside F) hT
    (fun level e hlevel h => h.unused hlevel) (kernelWord_leaf ha hf) (pageAddr_mod k) ha
    (hlt.trans (by norm_num)) (hpage.symm ▸ he.rest k hk hnone)).imp ?_
  rintro x ⟨hres, hI', hentry⟩
  rw [hpage] at hentry
  exact ⟨hres, hI', he.set hk ha hlt hf hentry, fun j hj hne => (hentry j hj).trans (if_neg hne)⟩

/-- A page is mapped to a frame that the PMM has just handed out. -/
theorem Space.allocateOne (h : Space T A boot r pm owned w) (hT : T * BASIC_PAGE_SIZE ≤ 2 ^ 52)
    (hk : k < LOW_PAGES) (hnone : pm k = none) (hf : flags.Plain)
    (halloc : w.pmm.allocate m 1 1 = .ok (.ok a, pmm)) :
    Yields (Stops BuddyAllocator m) (fun x => x.1 = .ok () ∧
      Space T A boot r (Function.update pm k (some a)) (insert k owned) x.2 ∧
      Untouched r {k} w.mem x.2.mem)
      (PageTable.mapPages m r { w with pmm := pmm } (k * BASIC_PAGE_SIZE) a 1 .size4kb flags) := by
  obtain ⟨hmanaged, hdis⟩ := h.inv.respected
  obtain ⟨hmod, hlt, hnew, hmanaged'⟩ := hmanaged.allocate halloc
  rw [Set.mem_union, not_or] at hnew
  have hI : SizedInv KernelWord (Beside (insert a (framesOf pm owned)) (Managed T A)) r
      { w with pmm := pmm } := by
    refine ⟨h.inv.sized, ?_, Set.disjoint_insert_left.mpr ⟨hnew.2, hdis⟩⟩
    rw [Set.insert_union]
    exact hmanaged'
  refine (Space.mapEntry hT hI h.entries hk hnone hmod (hlt.trans_le hT) hf).imp ?_
  rintro x ⟨hres, hI', hentries, hsame⟩
  refine ⟨hres, ⟨?_, hentries, h.owns.insert (h.notOwned hnone) hnew.1⟩, hsame⟩
  rw [framesOf_insert (h.notOwned hnone)]
  exact hI'

/-- A page is mapped to memory of a device. -/
theorem Space.mapDevice (h : Space T A boot r pm owned w) (hT : T * BASIC_PAGE_SIZE ≤ 2 ^ 52)
    (hk : k < LOW_PAGES) (hnone : pm k = none) (ha : a % 4096 = 0) (hlt : a < 2 ^ 52)
    (hf : flags.Plain) :
    Yields (Stops BuddyAllocator m) (fun x => x.1 = .ok () ∧
      Space T A boot r (Function.update pm k (some a)) owned x.2 ∧ Untouched r {k} w.mem x.2.mem)
      (PageTable.mapPages m r w (k * BASIC_PAGE_SIZE) a 1 .size4kb flags) := by
  refine (Space.mapEntry hT h.inv h.entries hk hnone ha hlt hf).imp ?_
  rintro x ⟨hres, hI', hentries, hsame⟩
  refine ⟨hres, ⟨?_, hentries, h.owns.update (h.notOwned hnone) _⟩, hsame⟩
  rw [framesOf_update (h.notOwned hnone)]
  exact hI'

/-- Unmapping a page of the lower half. -/
theorem Space.unmapEntry (h : Space T A boot r pm owned w) (hf : pm k = some a) :
    ∃ w', PageTable.unmapPages m r w (k * BASIC_PAGE_SIZE) 1 .size4kb = .ok (.ok (), w') ∧
      w'.pmm = w.pmm ∧ SizedInv KernelWord (Beside (framesOf pm owned) (Managed T A)) r w' ∧
      Entries boot r (Function.update pm k none) w'.mem ∧ Untouched r {k} w.mem w'.mem := by
  obtain ⟨hk, hmod, -, flags, hplain, hentry⟩ := h.entries.mapped k a hf
  have hpage := pageOf_mul (hk.trans_le lowPages_le)
  have hkeep : (Entry.leaf a flags).getLsbD 9 = false := by
    rw [Entry.getLsbD_leaf hmod (by omega), hplain.allocated]
    rfl
  have hlast : (Entry.leaf a flags).getLsbD 10 = true := by
    rw [Entry.getLsbD_leaf hmod (by omega)]
    rfl
  obtain ⟨w', hrun, hpmm, hI', hnew⟩ := h.inv.unmapOne (m := m) grammar_kernelWord
    (pageAddr_mod k) (hpage.symm ▸ hentry) hkeep hlast (kernelWord_released hmod hplain)
  rw [hpage] at hnew
  exact ⟨w', hrun, hpmm, hI', h.entries.clear hk hnew,
    fun j hj hne => (hnew j hj).trans (if_neg hne)⟩

theorem Space.unmapDevice (h : Space T A boot r pm owned w) (hk : k ∉ owned)
    (hf : pm k = some a) :
    ∃ w', PageTable.unmapPages m r w (k * BASIC_PAGE_SIZE) 1 .size4kb = .ok (.ok (), w') ∧
      Space T A boot r (Function.update pm k none) owned w' ∧ Untouched r {k} w.mem w'.mem := by
  obtain ⟨w', hrun, -, hI', hentries, hsame⟩ := h.unmapEntry (m := m) hf
  refine ⟨w', hrun, ⟨?_, hentries, h.owns.update hk _⟩, hsame⟩
  rw [framesOf_update hk]
  exact hI'

/-- Translation knows the pages of the lower half. -/
theorem Space.translate_eq (h : Space T A boot r pm owned w) (hf : pm k = some a) :
    translate w.mem r (k * BASIC_PAGE_SIZE) = .ok (some a) := by
  obtain ⟨hk, hmod, hlt, flags, hplain, hentry⟩ := h.entries.mapped k a hf
  rw [h.inv.sized.translate_eq grammar_kernelWord, pagePath_size4kb,
    pageOf_mul (hk.trans_le lowPages_le), ← pageEntry, hentry]
  change (Entry.getAddr (Entry.leaf a flags) .size4kb).map some = _
  rw [Entry.getAddr_size4kb, Entry.frame_leaf hmod (hlt.trans (by norm_num)) hplain]
  rfl

/-- A page that is owned is unmapped, and its frame is given back. -/
theorem Space.freeOne (h : Space T A boot r pm owned w) (hA : ∀ p ∈ A, p < T) (hk : k ∈ owned) :
    Yields (· = .poolEmpty) (fun x => x.1 = .ok () ∧
      Space T A boot r (Function.update pm k none) (owned \ {k}) x.2 ∧
      Untouched r {k} w.mem x.2.mem)
      (PagingManager.freePagesGo m r (k * BASIC_PAGE_SIZE) 1 .size4kb 1 0 w) := by
  obtain ⟨a, hf⟩ := h.owns.some k hk
  have hlow := (h.entries.mapped k a hf).1
  have hword : k * BASIC_PAGE_SIZE < 2 ^ 64 := by
    rw [LOW_PAGES] at hlow
    rw [BASIC_PAGE_SIZE]
    omega
  obtain ⟨w', hrun, hpmm, hI', hentries, hsame⟩ := h.unmapEntry (m := m) hf
  obtain ⟨hmanaged, hdis⟩ := hI'.respected
  have hmem : a ∈ framesOf pm owned := ⟨k, hk, hf⟩
  have hlt : a < T * BASIC_PAGE_SIZE :=
    (Nat.div_lt_iff_lt_mul basicPageSize_pos).mp (hA _ (hmanaged.frames a (Or.inl hmem)))
  have hgone : k ∉ owned \ {k} := fun hin => hin.2 rfl
  have hmul : Usize.mul m 0 PageSize.size4kb.size = .ok 0 := by
    rw [Usize.mul_eq (by norm_num), Nat.zero_mul]
  rw [PagingManager.freePagesGo, hmul, ok_bind, Usize.add_eq (by omega), ok_bind,
    h.translate_eq hf, ok_bind]
  dsimp only
  rw [Nat.add_zero, hrun, ok_bind]
  dsimp only
  refine ((hmanaged.free_page (m := m) (Or.inl hmem) hlt).allow fun x hx => hx.1).bind ?_
  rintro ⟨res, pmm⟩ ⟨rfl, hmanaged'⟩
  refine ⟨rfl, ⟨⟨hI'.sized, ?_⟩, hentries, ?_⟩, hsame⟩
  · rw [framesOf_update hgone, h.owns.framesOf_remove hk hf]
    refine ⟨?_, hdis.mono_left Set.sdiff_subset⟩
    have hnot : a ∉ PageTable.tables w'.mem r := Set.disjoint_left.mp hdis hmem
    have hset : framesOf pm owned \ {a} ∪ PageTable.tables w'.mem r =
        (framesOf pm owned ∪ PageTable.tables w'.mem r) \ {a} := by
      rw [Set.union_sdiff_distrib, Set.sdiff_singleton_eq_self hnot]
    rw [hset]
    exact hmanaged'
  · exact (h.owns.mono Set.sdiff_subset).update hgone _

theorem Untouched.refl (r : PhysAddr) (S : Set ℕ) (mem : PhysAddr → ℕ → Word) :
    Untouched r S mem mem := fun _ _ _ => rfl

theorem Untouched.trans {S S' : Set ℕ} {mem mem' mem'' : PhysAddr → ℕ → Word}
    (h : Untouched r S mem mem') (h' : Untouched r S' mem' mem'') :
    Untouched r (S ∪ S') mem mem'' := fun j hj hne =>
  (h' j hj fun hin => hne (Or.inr hin)).trans (h j hj fun hin => hne (Or.inl hin))

theorem singleton_union_Ico (b n : ℕ) :
    {b} ∪ Set.Ico (b + 1) (b + 1 + n) = Set.Ico b (b + (n + 1)) := by
  ext j
  rw [Set.mem_union, Set.mem_singleton_iff, Set.mem_Ico, Set.mem_Ico]
  omega

/-- Why a call that needs memory may panic: the PMM has none, or the first page of all would be
the null pointer. -/
inductive Exhausted (m : Overflow) : Panic → Prop
  | tables {x : Panic} (h : Stops BuddyAllocator m x) : Exhausted m x
  | noPage : Exhausted m .unwrapErr
  | null : Exhausted m .unwrapNone

/-- The loop of `allocate_pages`, on pages where nothing is mapped. -/
theorem Space.allocatePagesGo {b i n : ℕ} (h : Space T A boot r pm owned w)
    (hT : T * BASIC_PAGE_SIZE ≤ 2 ^ 52) (hf : flags.Plain) (hroom : b + i + n ≤ LOW_PAGES)
    (hfresh : ∀ j, b + i ≤ j → pm j = none) :
    Yields (Exhausted m) (fun x => x.1 = .ok () ∧
      (∃ pm', (∀ j, j ∉ Set.Ico (b + i) (b + i + n) → pm' j = pm j) ∧
        Space T A boot r pm' (owned ∪ Set.Ico (b + i) (b + i + n)) x.2) ∧
      Untouched r (Set.Ico (b + i) (b + i + n)) w.mem x.2.mem)
      (PagingManager.allocatePagesGo m r (b * BASIC_PAGE_SIZE) flags .size4kb n i w) := by
  induction n generalizing i pm owned w with
  | zero =>
      rw [Nat.add_zero, Set.Ico_self, Set.union_empty]
      exact ⟨rfl, ⟨pm, fun _ _ => rfl, h⟩, .refl r ∅ w.mem⟩
  | succ n ih =>
      have hlow : b + i < LOW_PAGES := by omega
      have hword : (b + i) * BASIC_PAGE_SIZE < 2 ^ 64 := by
        rw [LOW_PAGES] at hlow
        rw [BASIC_PAGE_SIZE]
        omega
      rw [Nat.add_mul] at hword
      rw [PagingManager.allocatePagesGo, show PageSize.size4kb.size = BASIC_PAGE_SIZE from rfl,
        show PageSize.size4kb.toDefaultPageCount = 1 from rfl, Usize.mul_eq (by omega), ok_bind,
        Usize.add_eq hword, ok_bind, ← Nat.add_mul]
      cases halloc : PmmAllocator.allocate m w.pmm 1 1 with
      | error x => exact .tables (.pmm halloc)
      | ok x =>
          obtain ⟨res, pmm⟩ := x
          rw [ok_bind]
          cases res with
          | error err => exact .noPage
          | ok a =>
              refine ((h.allocateOne hT hlow (hfresh _ (Nat.le_refl _)) hf halloc).allow
                fun _ => .tables).bind ?_
              rintro ⟨res, w₁⟩ ⟨rfl, h₁, hsame⟩
              have hfresh₁ : ∀ j, b + (i + 1) ≤ j →
                  Function.update pm (b + i) (some a) j = none := by
                intro j hj
                rw [Function.update_of_ne (by omega)]
                exact hfresh j (by omega)
              refine (ih h₁ (by omega) hfresh₁).imp ?_
              rintro x ⟨hres, ⟨pm', hkeep, h'⟩, hsame'⟩
              rw [← Nat.add_assoc] at hkeep h' hsame'
              rw [← singleton_union_Ico]
              refine ⟨hres, ⟨pm', fun j hj => ?_, ?_⟩, hsame.trans hsame'⟩
              · rw [Set.mem_union, not_or] at hj
                rw [hkeep j hj.2, Function.update_of_ne hj.1]
              · rw [← Set.union_assoc, Set.union_singleton]
                exact h'

/-! ## Reading the address space -/

theorem lowPages_canonical {off : ℕ} (hk : k < LOW_PAGES) (hoff : off < BASIC_PAGE_SIZE) :
    Canonical (k * BASIC_PAGE_SIZE + off) := by
  rw [LOW_PAGES] at hk
  rw [BASIC_PAGE_SIZE] at *
  have hlow : k * 4096 + off < 2 ^ 47 := by omega
  exact Or.inl hlow

theorem addressField_leaf (ha : a % 4096 = 0) (hlt : a < 2 ^ 52) (hf : flags.Plain) :
    addressField (Entry.leaf a flags) (levelShift 0) = a := by
  have hleaf : Entry.mapped 0 a flags .size4kb = Entry.leaf a flags := by
    have habsent : (0 : Word).getLsbD 0 = false := BitVec.getLsbD_zero
    have heq := Entry.map_eq habsent (s := .size4kb) ha flags
    rw [Entry.map_size4kb habsent ha] at heq
    exact (Prod.mk.inj (Except.ok.inj heq)).2.symm
  rw [← hleaf]
  exact (Entry.addressField_mapped_iff (Or.inl rfl) ha hlt (Nat.le_refl 12) (Nat.le_refl 12)
    fun i hi _ => hf.high i hi.le).mpr (Or.inr (Or.inl (hf.high 12 (Nat.le_refl 12))))

/-- The processor reads the entry of the page. -/
theorem Space.pageWalk_eq {v : VirtAddr} (h : Space T A boot r pm owned w) (hv : Canonical v) :
    pageWalk w.mem r v = (pageEntry w.mem r (pageOf v)).map (translated v) := by
  rw [h.inv.sized.pageWalk_eq grammar_kernelWord marksLarge_kernelWord hv, pagePath_size4kb,
    pageEntry]

theorem Space.pageWalk_mapped {off : ℕ} (h : Space T A boot r pm owned w) (hf : pm k = some a)
    (hoff : off < BASIC_PAGE_SIZE) :
    pageWalk w.mem r (k * BASIC_PAGE_SIZE + off) = some (a + off) := by
  obtain ⟨hk, hmod, hlt, flags, hplain, hentry⟩ := h.entries.mapped k a hf
  rw [h.pageWalk_eq (lowPages_canonical hk hoff), pageOf_add (hk.trans_le lowPages_le) hoff, hentry]
  have hoffset : (k * BASIC_PAGE_SIZE + off) % 2 ^ levelShift 0 = off := by
    rw [BASIC_PAGE_SIZE] at *
    change (k * 4096 + off) % 4096 = off
    omega
  rw [Option.map_some, translated, addressField_leaf hmod hlt hplain, hoffset]

theorem Space.pageWalk_rest {v : ℕ} (h : Space T A boot r pm owned w) (hv : v < 2 ^ 47)
    (hnone : pm (v / BASIC_PAGE_SIZE) = none) : pageWalk w.mem r v = none := by
  have hlow : v / BASIC_PAGE_SIZE < LOW_PAGES := by
    rw [BASIC_PAGE_SIZE, LOW_PAGES]
    omega
  have hpage : pageOf v = v / BASIC_PAGE_SIZE :=
    Nat.mod_eq_of_lt (hlow.trans_le lowPages_le)
  rw [h.pageWalk_eq (Or.inl hv), hpage, h.entries.rest _ hlow hnone]
  rfl

/-- Addresses on pages that were not touched are translated as before. -/
theorem Space.pageWalk_untouched {S : Set ℕ} {pm' : ℕ → Option PhysAddr} {owned' : Set ℕ}
    {w' : World BuddyAllocator} {v : VirtAddr} (h : Space T A boot r pm owned w)
    (h' : Space T A boot r pm' owned' w') (hsame : Untouched r S w.mem w'.mem)
    (hv : pageOf v ∉ S) : pageWalk w'.mem r v = pageWalk w.mem r v := by
  by_cases hcanonical : Canonical v
  · rw [h.pageWalk_eq hcanonical, h'.pageWalk_eq hcanonical, hsame _ (pageOf_lt v) hv]
  · rw [pageWalk, pageWalk, if_neg hcanonical, if_neg hcanonical]

end

/-! ## The calls of the kernel -/

/-- The manager, with the pages that are allocated and the pages that were mapped to frames of
others. -/
structure KernelState where
  manager : PagingManager BuddyAllocator
  owned : Set ℕ
  devices : Set (ℕ × PhysAddr)

/-- One call, and the virtual pages that it is about.  All pages are basic ones, and what is freed
or unmapped is one page that the kernel has. -/
inductive KernelStep (m : Overflow) (c : KernelState) : Set ℕ → KernelState → Prop
  | allocate {n : ℕ} {flags : Flags} {base : VirtAddr} {s' : PagingManager BuddyAllocator}
      (hf : flags.Built) (hroom : c.manager.vaa.hander.next + n ≤ LOW_PAGES)
      (hrun : c.manager.allocatePages m n flags .size4kb = .ok (.ok base, s')) :
      KernelStep m c (Set.Ico (base / BASIC_PAGE_SIZE) (base / BASIC_PAGE_SIZE + n))
        ⟨s', c.owned ∪ Set.Ico (base / BASIC_PAGE_SIZE) (base / BASIC_PAGE_SIZE + n), c.devices⟩
  | free {k : ℕ} {s' : PagingManager BuddyAllocator} (hk : k ∈ c.owned)
      (hrun : c.manager.freePages m (k * BASIC_PAGE_SIZE) 1 .size4kb = .ok (.ok (), s')) :
      KernelStep m c {k} ⟨s', c.owned \ {k}, c.devices⟩
  | map {physAddr : PhysAddr} {flags : Flags} {base : VirtAddr}
      {s' : PagingManager BuddyAllocator} (hf : flags.Built)
      (hroom : c.manager.vaa.hander.next + 1 ≤ LOW_PAGES) (hphys : physAddr % 4096 = 0)
      (hlt : physAddr < 2 ^ 52)
      (hrun : c.manager.mapPages m physAddr 1 flags .size4kb = .ok (.ok base, s')) :
      KernelStep m c {base / BASIC_PAGE_SIZE}
        ⟨s', c.owned, insert (base / BASIC_PAGE_SIZE, physAddr) c.devices⟩
  | unmap {k : ℕ} {physAddr : PhysAddr} {s' : PagingManager BuddyAllocator}
      (hk : (k, physAddr) ∈ c.devices)
      (hrun : c.manager.unmapPages m (k * BASIC_PAGE_SIZE) 1 .size4kb = .ok (.ok (), s')) :
      KernelStep m c {k} ⟨s', c.owned, {x ∈ c.devices | x.1 ≠ k}⟩

/-- Runs, with all virtual pages that their calls are about. -/
inductive KernelRun (m : Overflow) (c : KernelState) : Set ℕ → KernelState → Prop
  | refl : KernelRun m c ∅ c
  | step {S S' : Set ℕ} {c' c'' : KernelState} (h : KernelRun m c S c')
      (hstep : KernelStep m c' S' c'') : KernelRun m c (S ∪ S') c''

theorem KernelRun.trans {m : Overflow} {c c' c'' : KernelState} {S S' : Set ℕ}
    (h : KernelRun m c S c') (h' : KernelRun m c' S' c'') : KernelRun m c (S ∪ S') c'' := by
  induction h' with
  | refl =>
      rw [Set.union_empty]
      exact h
  | step _ hstep ih =>
      rw [← Set.union_assoc]
      exact ih.step hstep

/-- The invariant, with the pages that are mapped and the next page that is handed out. -/
structure KernelInv (T : ℕ) (A : Set ℕ) (boot : ℕ → Option (ℕ × Word)) (c : KernelState)
    (pm : ℕ → Option PhysAddr) (next : ℕ) : Prop where
  vaa : c.manager.vaa = .startingFrom next
  space : Space T A boot c.manager.pml pm c.owned c.manager.world
  devices : ∀ x ∈ c.devices, x.1 ∉ c.owned ∧ pm x.1 = some x.2
  known : ∀ k f, pm k = some f → (k ∈ c.owned ∨ (k, f) ∈ c.devices) ∧ k < next

section

variable {m : Overflow} {T : ℕ} {A : Set ℕ} {boot : ℕ → Option (ℕ × Word)}
  {pm : ℕ → Option PhysAddr} {c c' : KernelState} {next n k : ℕ} {S : Set ℕ}

/-- What a call leaves behind: the invariant, and the pages that it is not about as they were. -/
def KernelInv.Kept (T : ℕ) (A : Set ℕ) (boot : ℕ → Option (ℕ × Word)) (c : KernelState) (S : Set ℕ)
    (c' : KernelState) : Prop :=
  (∃ pm next, KernelInv T A boot c' pm next) ∧ c'.manager.pml = c.manager.pml ∧
    Untouched c.manager.pml S c.manager.world.mem c'.manager.world.mem

theorem KernelInv.fresh (h : KernelInv T A boot c pm next) {j : ℕ} (hj : next ≤ j) :
    pm j = none := by
  cases hf : pm j with
  | none => rfl
  | some f =>
      have := (h.known j f hf).2
      omega

theorem KernelInv.handout (h : KernelInv T A boot c pm next) (hroom : next + n ≤ LOW_PAGES) :
    c.manager.vaa.handout m n PageSize.size4kb.pageAlignment =
      .ok (next * BASIC_PAGE_SIZE, .startingFrom (next + n)) := by
  rw [LOW_PAGES] at hroom
  have htotal : Usize.add m 0 n = .ok n := by
    rw [Usize.add_eq (by omega), Nat.zero_add]
  rw [h.vaa]
  exact VirtualAddressAllocator.handout_of_skip (c := ⟨n, 1⟩)
    (VirtualAddressAllocator.alignOffset_of_dvd rfl (one_dvd next)) htotal (by omega) (by omega)

/-- `allocate_pages` returns the next pages. -/
theorem KernelInv.allocatePages (h : KernelInv T A boot c pm next)
    (hT : T * BASIC_PAGE_SIZE ≤ 2 ^ 52) (hf : flags.Built) (hroom : next + n ≤ LOW_PAGES) :
    Yields (Exhausted m) (fun x => x.1 = .ok (next * BASIC_PAGE_SIZE) ∧
      Kept T A boot c (Set.Ico next (next + n))
        ⟨x.2, c.owned ∪ Set.Ico next (next + n), c.devices⟩)
      (c.manager.allocatePages m n flags .size4kb) := by
  rw [PagingManager.allocatePages, h.handout hroom, ok_bind]
  dsimp only
  refine (h.space.allocatePagesGo (i := 0) hT hf.plain hroom fun j hj => h.fresh hj).bind ?_
  rintro ⟨res, w⟩ ⟨rfl, ⟨pm', hkeep, hspace⟩, hsame⟩
  dsimp only at hspace hsame ⊢
  rw [Nat.add_zero] at hkeep hspace hsame
  split
  · exact .null
  refine ⟨rfl, ⟨pm', next + n, rfl, hspace, fun x hx => ?_, fun j f hjf => ?_⟩, rfl, hsame⟩
  · obtain ⟨hnot, hmap⟩ := h.devices x hx
    have hlt := (h.known _ _ hmap).2
    have hout : x.1 ∉ Set.Ico next (next + n) := fun hin => by
      rw [Set.mem_Ico] at hin
      omega
    exact ⟨fun hin => hin.elim hnot hout, (hkeep _ hout).trans hmap⟩
  · by_cases hin : j ∈ Set.Ico next (next + n)
    · exact ⟨Or.inl (Or.inr hin), (Set.mem_Ico.mp hin).2⟩
    · rw [hkeep j hin] at hjf
      obtain ⟨hown, hlt⟩ := h.known j f hjf
      exact ⟨hown.imp_left Or.inl, by omega⟩

/-- `map_pages` returns the next page. -/
theorem KernelInv.mapPages (h : KernelInv T A boot c pm next)
    (hT : T * BASIC_PAGE_SIZE ≤ 2 ^ 52) (hf : flags.Built) (hroom : next + 1 ≤ LOW_PAGES)
    (ha : a % 4096 = 0) (hlt : a < 2 ^ 52) :
    Yields (Exhausted m) (fun x => x.1 = .ok (next * BASIC_PAGE_SIZE) ∧
      x.2.vaa = .startingFrom (next + 1) ∧
      Kept T A boot c {next} ⟨x.2, c.owned, insert (next, a) c.devices⟩)
      (c.manager.mapPages m a 1 flags .size4kb) := by
  rw [PagingManager.mapPages, h.handout hroom, ok_bind]
  dsimp only
  have hnone := h.fresh (Nat.le_refl next)
  refine ((h.space.mapDevice hT (Nat.lt_of_succ_le hroom) hnone ha hlt hf.plain).allow
    fun _ => .tables).bind ?_
  rintro ⟨res, w⟩ ⟨rfl, hspace, hsame⟩
  refine ⟨rfl, rfl, ⟨_, next + 1, rfl, hspace, ?_, fun j f hjf => ?_⟩, rfl, hsame⟩
  · rintro x (rfl | hx)
    · exact ⟨h.space.notOwned hnone, Function.update_self _ _ _⟩
    · obtain ⟨hnot, hmap⟩ := h.devices x hx
      have hne : x.1 ≠ next := by
        have := (h.known _ _ hmap).2
        omega
      exact ⟨hnot, (Function.update_of_ne hne _ _).trans hmap⟩
  · by_cases hne : j = next
    · subst hne
      rw [Function.update_self] at hjf
      obtain rfl := Option.some.inj hjf
      exact ⟨Or.inr (Set.mem_insert _ _), Nat.lt_succ_self j⟩
    · rw [Function.update_of_ne hne] at hjf
      obtain ⟨hown, hlt⟩ := h.known j f hjf
      exact ⟨hown.imp_right (Set.mem_insert_of_mem _), by omega⟩

/-- `free_pages` frees a page that is owned, unless the PMM has no node for it. -/
theorem KernelInv.freePages (h : KernelInv T A boot c pm next) (hA : ∀ p ∈ A, p < T)
    (hk : k ∈ c.owned) :
    Yields (· = .poolEmpty) (fun x => x.1 = .ok () ∧
      Kept T A boot c {k} ⟨x.2, c.owned \ {k}, c.devices⟩)
      (c.manager.freePages m (k * BASIC_PAGE_SIZE) 1 .size4kb) := by
  rw [PagingManager.freePages]
  refine (h.space.freeOne hA hk).bind ?_
  rintro ⟨res, w⟩ ⟨rfl, hspace, hsame⟩
  refine ⟨rfl, ⟨_, next, h.vaa, hspace, fun x hx => ?_, fun j f hjf => ?_⟩, rfl, hsame⟩
  · obtain ⟨hnot, hmap⟩ := h.devices x hx
    have hne : x.1 ≠ k := by
      rintro rfl
      exact hnot hk
    exact ⟨fun hin => hnot hin.1, (Function.update_of_ne hne _ _).trans hmap⟩
  · have hne : j ≠ k := by
      rintro rfl
      rw [Function.update_self] at hjf
      cases hjf
    rw [Function.update_of_ne hne] at hjf
    obtain ⟨hown, hlt⟩ := h.known j f hjf
    exact ⟨hown.imp_left fun hin => ⟨hin, hne⟩, hlt⟩

/-- `unmap_pages` unmaps a page that was mapped to memory of others. -/
theorem KernelInv.unmapPages (h : KernelInv T A boot c pm next) (hk : (k, a) ∈ c.devices) :
    ∃ s', c.manager.unmapPages m (k * BASIC_PAGE_SIZE) 1 .size4kb = .ok (.ok (), s') ∧
      s'.vaa = c.manager.vaa ∧ Kept T A boot c {k} ⟨s', c.owned, {x ∈ c.devices | x.1 ≠ k}⟩ := by
  obtain ⟨hnot, hmap⟩ := h.devices _ hk
  obtain ⟨w, hrun, hspace, hsame⟩ := h.space.unmapDevice (m := m) hnot hmap
  refine ⟨{ c.manager with world := w }, ?_, rfl, ⟨_, next, h.vaa, hspace, fun x hx => ?_,
    fun j f hjf => ?_⟩, rfl, hsame⟩
  · rw [PagingManager.unmapPages, hrun]
    rfl
  · obtain ⟨hnot', hmap'⟩ := h.devices x hx.1
    exact ⟨hnot', (Function.update_of_ne hx.2 _ _).trans hmap'⟩
  · have hne : j ≠ k := by
      rintro rfl
      rw [Function.update_self] at hjf
      cases hjf
    rw [Function.update_of_ne hne] at hjf
    obtain ⟨hown, hlt⟩ := h.known j f hjf
    exact ⟨hown.imp_right fun hin => ⟨hin, hne⟩, hlt⟩

theorem KernelInv.Kept.refl (h : KernelInv T A boot c pm next) : KernelInv.Kept T A boot c ∅ c :=
  ⟨⟨pm, next, h⟩, rfl, .refl _ _ _⟩

theorem KernelInv.Kept.trans {c'' : KernelState} {S' : Set ℕ} (h : KernelInv.Kept T A boot c S c')
    (h' : KernelInv.Kept T A boot c' S' c'') : KernelInv.Kept T A boot c (S ∪ S') c'' := by
  obtain ⟨-, hpml, hsame⟩ := h
  obtain ⟨hinv, hpml', hsame'⟩ := h'
  rw [hpml] at hsame'
  exact ⟨hinv, hpml'.trans hpml, hsame.trans hsame'⟩

/-- **One call.** -/
theorem KernelStep.kept (hstep : KernelStep m c S c') (hT : T * BASIC_PAGE_SIZE ≤ 2 ^ 52)
    (hA : ∀ p ∈ A, p < T) (h : KernelInv T A boot c pm next) : KernelInv.Kept T A boot c S c' := by
  have hnext : c.manager.vaa.hander.next = next := by
    rw [h.vaa]
    rfl
  have hpage : next * BASIC_PAGE_SIZE / BASIC_PAGE_SIZE = next :=
    Nat.mul_div_cancel _ basicPageSize_pos
  cases hstep with
  | allocate hf hroom hrun =>
      rw [hnext] at hroom
      obtain ⟨hres, hkept⟩ := (h.allocatePages hT hf hroom).post hrun
      rw [Except.ok.inj hres, hpage]
      exact hkept
  | free hk hrun => exact ((h.freePages hA hk).post hrun).2
  | map hf hroom hphys hlt hrun =>
      rw [hnext] at hroom
      obtain ⟨hres, -, hkept⟩ := (h.mapPages hT hf hroom hphys hlt).post hrun
      rw [Except.ok.inj hres, hpage]
      exact hkept
  | unmap hk hrun =>
      obtain ⟨s', hrun', -, hkept⟩ := h.unmapPages (m := m) hk
      obtain rfl := (Prod.mk.inj (Except.ok.inj (hrun.symm.trans hrun'))).2
      exact hkept

/-- **Every run.** -/
theorem KernelRun.kept (hrun : KernelRun m c S c') (hT : T * BASIC_PAGE_SIZE ≤ 2 ^ 52)
    (hA : ∀ p ∈ A, p < T) (h : KernelInv T A boot c pm next) : KernelInv.Kept T A boot c S c' := by
  induction hrun with
  | refl => exact .refl h
  | step _ hstep ih =>
      obtain ⟨pm', next', h'⟩ := ih.1
      exact ih.trans (hstep.kept hT hA h')

end

/-! ## The start -/

/-- What the boot of the kernel needs: a memory map as the bootloader promises it, which ends with
a whole page, an image in the upper half, and room for the metadata and the tables. -/
structure KernelBoot (framebuffer : Bool) (hhdm : ℕ) (kernelVirt : VirtAddr)
    (kernelPhys : PhysAddr) (memMap : List Entry) (entry : Entry) : Prop
    extends BootMap framebuffer hhdm kernelVirt kernelPhys memMap where
  chosen : chosenEntry memMap = some entry
  room : BootRoom memMap entry
    (regionTables (memMapRegions framebuffer hhdm kernelVirt kernelPhys memMap entry))
  image_high : 2 ^ 64 - 2 ^ 47 ≤ kernelVirt
  last_aligned : ∀ e, memMap.getLast? = some e → (e.base + e.length) % 4096 = 0

section

variable {m : Overflow} {framebuffer : Bool} {hhdm : ℕ} {kernelVirt : VirtAddr}
  {kernelPhys : PhysAddr} {memMap : List Entry} {entry : Entry} {nodes : VirtAddr → PhysAddr}
  {words : PhysAddr → ℕ → Word}

theorem KernelBoot.initVaa (h : KernelBoot framebuffer hhdm kernelVirt kernelPhys memMap entry) :
    ∃ next, initVaaFromLimine m hhdm memMap = .ok (.startingFrom next) := by
  have hmem := (chosenEntry_spec h.chosen).1
  obtain ⟨e, he⟩ : ∃ e, memMap.getLast? = some e :=
    ⟨_, List.getLast?_eq_some_getLast (List.ne_nil_of_mem hmem)⟩
  have hphys := h.physical e (List.mem_of_getLast? he)
  have hhigh := h.hhdm_high
  have halign : (e.base + e.length) % PageSize.size4kb.size = 0 := h.last_aligned e he
  have hspan : hhdm - (e.base + e.length) ≥ MIN_MEM_SPAN := by
    rw [MIN_MEM_SPAN]
    omega
  refine ⟨(e.base + e.length) / PageSize.size4kb.size, ?_⟩
  rw [initVaaFromLimine, he, ofOption_some, ok_bind, Usize.add_eq (by omega), ok_bind,
    VirtualAddressAllocator.new, sanityAssert_eq halign, ok_bind, Usize.sub_eq (by omega), ok_bind,
    if_pos hspan]

/-- All that is mapped at boot is in the upper half. -/
theorem KernelBoot.region_high (h : KernelBoot framebuffer hhdm kernelVirt kernelPhys memMap entry)
    {e : Entry} {k : CachedRegion} {v : VirtAddr}
    (hk : entryRegion framebuffer hhdm kernelVirt kernelPhys e = some k) (hv : v ∈ k.1.range) :
    2 ^ 64 - 2 ^ 47 ≤ v := by
  rcases entryRegion_cases hk with ⟨-, heq⟩ | ⟨-, heq⟩
  · rw [heq] at hv
    exact h.hhdm_high.trans ((Nat.le_add_left hhdm e.base).trans hv.1)
  · rw [heq] at hv
    exact h.image_high.trans hv.1

/-- **The invariant holds after boot.** -/
theorem KernelBoot.start (h : KernelBoot framebuffer hhdm kernelVirt kernelPhys memMap entry)
    (m : Overflow) (nodes : VirtAddr → PhysAddr) (words : PhysAddr → ℕ → Word) :
    ∃ s₀, initMemory m framebuffer hhdm kernelVirt kernelPhys nodes words memMap = .ok s₀ ∧
      Booted framebuffer hhdm kernelVirt kernelPhys memMap entry s₀.pml s₀.world ∧
      ∃ next, KernelInv (pageBound memMap) (usablePages memMap \ reserved memMap entry)
        (pageEntry s₀.world.mem s₀.pml) ⟨s₀, ∅, ∅⟩ (fun _ => none) next := by
  obtain ⟨next, hvaa⟩ := h.initVaa (m := m)
  obtain ⟨s, pml, w, hinit, hpaging, -, hholds, hmanaged⟩ :=
    h.toBootMap.boot h.chosen h.room m nodes words
  obtain ⟨hmem, husable, -⟩ := chosenEntry_spec h.chosen
  refine ⟨⟨pml, w, .startingFrom next⟩, ?_, h.toBootMap.booted h.chosen hholds hmanaged, next, rfl,
    ⟨⟨⟨hmanaged.sized.tree, fun q t i hq ht => (hmanaged.sized.words q t i hq ht).kernelWord⟩, ?_⟩,
      ⟨fun _ _ _ => rfl, nofun, fun k hk _ => ?_⟩, ⟨nofun, nofun⟩⟩, nofun, nofun⟩
  · rw [initMemory, hvaa, ok_bind, hinit, ok_bind]
    dsimp only
    rw [hpaging]
    rfl
  · have hnone : framesOf (fun _ => none) ∅ = ∅ :=
      Set.eq_empty_of_forall_notMem fun f hf => hf.elim fun _ hk => hk.1
    rw [hnone]
    refine ⟨?_, Set.empty_disjoint _⟩
    rw [Set.empty_union]
    exact hmanaged.respected
  -- A page of the lower half is in no region.
  · have hcanonical := lowPages_canonical hk basicPageSize_pos
    rw [Nat.add_zero] at hcanonical
    have hpath : indices k = pagePath (k * BASIC_PAGE_SIZE) .size4kb := by
      rw [pagePath_size4kb, pageOf_mul (hk.trans_le lowPages_le)]
    dsimp only
    rw [pageEntry, hholds.content_eq _ (length_indices k), hpath, lookupFlagged_eq_none]
    intro x hx hpre
    obtain ⟨k', hk', hx'⟩ := List.mem_flatMap.mp (List.mem_reverse.mp hx)
    obtain ⟨e, he, hregion⟩ := exists_of_mem_regions hmem husable hk'
    have hv := (CachedRegion.cutInto (h.entryRegion_proper he hregion)).subset _
      (List.mem_map_of_mem hx') ((BootPage.path_prefix_iff (hholds.proper x hx) hcanonical).mp hpre)
    have hhigh : 2 ^ 64 - 2 ^ 47 ≤ k * 4096 := h.region_high hregion hv
    rw [LOW_PAGES] at hk
    omega

theorem KernelBoot.page_lt (h : KernelBoot framebuffer hhdm kernelVirt kernelPhys memMap entry) :
    ∀ p ∈ usablePages memMap \ reserved memMap entry, p < pageBound memMap :=
  fun _ hp => lt_pageBound_of_usable h.toWellFormed hp.1

theorem pageOf_high {v : ℕ} (hlow : 2 ^ 64 - 2 ^ 47 ≤ v) (hlt : v < 2 ^ 64) :
    LOW_PAGES ≤ pageOf v := by
  rw [pageOf, LOW_PAGES, BASIC_PAGE_SIZE, PAGES]
  omega

/-- What was served at boot in the upper half is served in every state. -/
theorem KernelInv.served {T : ℕ} {A : Set ℕ} {s₀ : PagingManager BuddyAllocator}
    {c : KernelState} {pm₀ pm : ℕ → Option PhysAddr} {next₀ next : ℕ} {k : BootRegion}
    (h₀ : KernelInv T A (pageEntry s₀.world.mem s₀.pml) ⟨s₀, ∅, ∅⟩ pm₀ next₀)
    (h : KernelInv T A (pageEntry s₀.world.mem s₀.pml) c pm next)
    (hhigh : ∀ v ∈ k.range, 2 ^ 64 - 2 ^ 47 ≤ v)
    (hproper : k.Proper) (hserved : RegionServed k s₀.world.mem s₀.pml) :
    RegionServed k c.manager.world.mem c.manager.pml := by
  intro off hoff
  have hv : k.virtAddr + off ∈ k.range := ⟨Nat.le_add_right _ _, Nat.add_lt_add_left hoff _⟩
  have hcanonical := hproper.canonical _ hv
  have hlt : k.virtAddr + off < 2 ^ 64 := hv.2.trans hproper.virt_lt
  have hold := hserved off hoff
  rw [h₀.space.pageWalk_eq hcanonical] at hold
  rw [h.space.pageWalk_eq hcanonical,
    h.space.entries.high _ (pageOf_lt _) (pageOf_high (hhigh _ hv) hlt)]
  exact hold

end

/-! ## Safety -/

/-- What the processor and the PMM see of the kernel's memory. -/
structure MemorySafe (framebuffer : Bool) (hhdm : ℕ) (kernelVirt : VirtAddr)
    (kernelPhys : PhysAddr) (memMap : List Entry) (entry : Entry) (c : KernelState) : Prop where
  direct : ∀ e ∈ memMap, e.entryType.isDirect framebuffer = true →
    RegionServed (windowRegion hhdm e) c.manager.world.mem c.manager.pml
  image : ∀ e ∈ memMap, e.entryType = .executableAndModules →
    RegionServed (imageRegion kernelVirt kernelPhys e) c.manager.world.mem c.manager.pml
  window : ∀ p ∈ usablePages memMap, ∀ off < BASIC_PAGE_SIZE,
    pageWalk c.manager.world.mem c.manager.pml (p * BASIC_PAGE_SIZE + off + hhdm) =
      some (p * BASIC_PAGE_SIZE + off)
  owned : ∀ k ∈ c.owned, ∃ f, f % 4096 = 0 ∧
    f / BASIC_PAGE_SIZE ∈ usablePages memMap \ reserved memMap entry ∧
    f / BASIC_PAGE_SIZE ∉ c.manager.world.pmm.freePages ∧
    f ∉ PageTable.tables c.manager.world.mem c.manager.pml ∧
    ∀ off < BASIC_PAGE_SIZE,
      pageWalk c.manager.world.mem c.manager.pml (k * BASIC_PAGE_SIZE + off) = some (f + off)
  exclusive : ∀ v v' : ℕ, v / BASIC_PAGE_SIZE ∈ c.owned → v' / BASIC_PAGE_SIZE ∈ c.owned →
    pageWalk c.manager.world.mem c.manager.pml v = pageWalk c.manager.world.mem c.manager.pml v' →
      v = v'
  devices : ∀ x ∈ c.devices, x.1 ∉ c.owned ∧ ∀ off < BASIC_PAGE_SIZE,
    pageWalk c.manager.world.mem c.manager.pml (x.1 * BASIC_PAGE_SIZE + off) = some (x.2 + off)
  nothingElse : ∀ v : ℕ, v / BASIC_PAGE_SIZE ∉ c.owned →
    (∀ x ∈ c.devices, v / BASIC_PAGE_SIZE ≠ x.1) →
    (∀ e ∈ memMap, ∀ k,
      entryRegion framebuffer hhdm kernelVirt kernelPhys e = some k → v ∉ k.1.range) →
      pageWalk c.manager.world.mem c.manager.pml v = none
  tables : ∀ t ∈ PageTable.tables c.manager.world.mem c.manager.pml,
    t / BASIC_PAGE_SIZE ∈ usablePages memMap \ reserved memMap entry
  free : c.manager.world.pmm.freePages = (usablePages memMap \ reserved memMap entry) \
    {p | p * BASIC_PAGE_SIZE ∈ PageTable.tables c.manager.world.mem c.manager.pml ∨
      ∃ k ∈ c.owned, pageWalk c.manager.world.mem c.manager.pml (k * BASIC_PAGE_SIZE) =
        some (p * BASIC_PAGE_SIZE)}

section

variable {m : Overflow} {framebuffer : Bool} {hhdm : ℕ} {kernelVirt : VirtAddr}
  {kernelPhys : PhysAddr} {memMap : List Entry} {entry : Entry} {nodes : VirtAddr → PhysAddr}
  {words : PhysAddr → ℕ → Word} {T : ℕ} {A : Set ℕ} {boot : ℕ → Option (ℕ × Word)}
  {pm : ℕ → Option PhysAddr} {c : KernelState} {next k : ℕ} {f : PhysAddr}

theorem KernelInv.walk (h : KernelInv T A boot c pm next) (hf : pm k = some f) {off : ℕ}
    (hoff : off < BASIC_PAGE_SIZE) :
    pageWalk c.manager.world.mem c.manager.pml (k * BASIC_PAGE_SIZE + off) = some (f + off) :=
  h.space.pageWalk_mapped hf hoff

theorem KernelInv.walk_div (h : KernelInv T A boot c pm next) {v : ℕ}
    (hf : pm (v / BASIC_PAGE_SIZE) = some f) :
    pageWalk c.manager.world.mem c.manager.pml v = some (f + v % BASIC_PAGE_SIZE) := by
  have hwalk := h.walk hf (Nat.mod_lt v basicPageSize_pos)
  rwa [Nat.div_add_mod'] at hwalk

theorem page_offset_inj {a b x y : ℕ} (ha : a % 4096 = 0) (hb : b % 4096 = 0) (hx : x < 4096)
    (hy : y < 4096) (h : a + x = b + y) : a = b ∧ x = y := by
  omega

/-- Two addresses on pages that are owned are at two places. -/
theorem KernelInv.exclusive (h : KernelInv T A boot c pm next) {v v' : ℕ}
    (hv : v / BASIC_PAGE_SIZE ∈ c.owned) (hv' : v' / BASIC_PAGE_SIZE ∈ c.owned)
    (heq : pageWalk c.manager.world.mem c.manager.pml v =
      pageWalk c.manager.world.mem c.manager.pml v') : v = v' := by
  obtain ⟨f, hf⟩ := h.space.owns.some _ hv
  obtain ⟨f', hf'⟩ := h.space.owns.some _ hv'
  rw [h.walk_div hf, h.walk_div hf'] at heq
  obtain ⟨rfl, hoff : v % BASIC_PAGE_SIZE = v' % BASIC_PAGE_SIZE⟩ :=
    page_offset_inj (h.space.entries.mapped _ f hf).2.1 (h.space.entries.mapped _ f' hf').2.1
      (Nat.mod_lt v basicPageSize_pos) (Nat.mod_lt v' basicPageSize_pos) (Option.some.inj heq)
  have hpage := h.space.owns.unique _ hv _ hv' f hf hf'
  rw [← Nat.div_add_mod' v BASIC_PAGE_SIZE, ← Nat.div_add_mod' v' BASIC_PAGE_SIZE, hpage, hoff]

/-- The frame of a page that is owned is what the processor finds there. -/
theorem KernelInv.mem_framesOf_iff (h : KernelInv T A boot c pm next) :
    f ∈ framesOf pm c.owned ↔
      ∃ k ∈ c.owned, pageWalk c.manager.world.mem c.manager.pml (k * BASIC_PAGE_SIZE) = some f := by
  refine exists_congr fun k => and_congr_right fun hk => ?_
  obtain ⟨f', hf'⟩ := h.space.owns.some k hk
  have hwalk := h.walk hf' basicPageSize_pos
  rw [Nat.add_zero, Nat.add_zero] at hwalk
  rw [hf', hwalk]

/-- What is neither owned nor mapped in the lower half, and was not mapped at boot, is not
mapped. -/
theorem KernelInv.unmapped {s₀ : PagingManager BuddyAllocator} {pm₀ : ℕ → Option PhysAddr}
    {next₀ : ℕ} (h₀ : KernelInv T A (pageEntry s₀.world.mem s₀.pml) ⟨s₀, ∅, ∅⟩ pm₀ next₀)
    (h : KernelInv T A (pageEntry s₀.world.mem s₀.pml) c pm next) {v : ℕ}
    (howned : v / BASIC_PAGE_SIZE ∉ c.owned) (hdevices : ∀ x ∈ c.devices, v / BASIC_PAGE_SIZE ≠ x.1)
    (hboot : pageWalk s₀.world.mem s₀.pml v = none) :
    pageWalk c.manager.world.mem c.manager.pml v = none := by
  have hnone : pm (v / BASIC_PAGE_SIZE) = none := by
    cases hf : pm (v / BASIC_PAGE_SIZE) with
    | none => rfl
    | some f =>
        rcases (h.known _ f hf).1 with hin | hin
        · exact absurd hin howned
        · exact absurd rfl (hdevices _ hin)
  by_cases hcanonical : Canonical v
  · rcases hcanonical with hlow | ⟨hhigh, hlt⟩
    · exact h.space.pageWalk_rest hlow hnone
    · have hcan : Canonical v := Or.inr ⟨hhigh, hlt⟩
      rw [h₀.space.pageWalk_eq hcan] at hboot
      rw [h.space.pageWalk_eq hcan, h.space.entries.high _ (pageOf_lt v) (pageOf_high hhigh hlt)]
      exact hboot
  · rw [pageWalk, if_neg hcanonical]

/-- **The invariant is what is needed.** -/
theorem KernelInv.safe {s₀ : PagingManager BuddyAllocator} {pm₀ : ℕ → Option PhysAddr} {next₀ : ℕ}
    (h₀ : KernelInv T (usablePages memMap \ reserved memMap entry)
      (pageEntry s₀.world.mem s₀.pml) ⟨s₀, ∅, ∅⟩ pm₀ next₀)
    (hk : KernelBoot framebuffer hhdm kernelVirt kernelPhys memMap entry)
    (hbooted : Booted framebuffer hhdm kernelVirt kernelPhys memMap entry s₀.pml s₀.world)
    (h : KernelInv T (usablePages memMap \ reserved memMap entry)
      (pageEntry s₀.world.mem s₀.pml) c pm next) :
    MemorySafe framebuffer hhdm kernelVirt kernelPhys memMap entry c := by
  obtain ⟨hmanaged, hdis⟩ := h.space.inv.respected
  have hserved : ∀ e ∈ memMap, ∀ k, entryRegion framebuffer hhdm kernelVirt kernelPhys e = some k →
      RegionServed k.1 s₀.world.mem s₀.pml → RegionServed k.1 c.manager.world.mem c.manager.pml :=
    fun e he k hregion => h₀.served h (fun v hv => hk.region_high hregion hv)
      (hk.toBootMap.entryRegion_proper he hregion)
  have hdirect : ∀ e ∈ memMap, e.entryType.isDirect framebuffer = true →
      RegionServed (windowRegion hhdm e) c.manager.world.mem c.manager.pml := by
    intro e he hdirect
    obtain ⟨pat, hregion⟩ : ∃ pat, entryRegion framebuffer hhdm kernelVirt kernelPhys e =
        some (windowRegion hhdm e, pat) := exists_entryRegion_of_direct hdirect
    exact hserved e he _ hregion (hbooted.direct e he hdirect)
  refine ⟨hdirect, fun e he himage => ?_, ?_, fun k hk => ?_, fun v v' hv hv' => h.exclusive hv hv',
    fun x hx => ?_, fun v hv hdev hregion => ?_, fun t ht => hmanaged.frames t (Or.inr ht), ?_⟩
  · exact hserved e he _ (entryRegion_of_image himage) (hbooted.image e he himage)
  · exact window_of_direct hk.toWellFormed fun e he hu => hdirect e he (isDirect_of_usable hu)
  · obtain ⟨f, hf⟩ := h.space.owns.some k hk
    have hmem : f ∈ framesOf pm c.owned := ⟨k, hk, hf⟩
    exact ⟨f, (h.space.entries.mapped k f hf).2.1, hmanaged.frames f (Or.inl hmem),
      hmanaged.notFree f (Or.inl hmem), Set.disjoint_left.mp hdis hmem,
      fun off hoff => h.walk hf hoff⟩
  · obtain ⟨hnot, hmap⟩ := h.devices x hx
    exact ⟨hnot, fun off hoff => h.walk hmap hoff⟩
  · exact h₀.unmapped h hv hdev (hbooted.nothingElse v hregion)
  · rw [hmanaged.free_eq]
    ext p
    refine and_congr_right fun _ => not_congr ?_
    rw [Set.mem_ofPred_eq, Set.mem_ofPred_eq, Set.mem_union, h.mem_framesOf_iff, or_comm]

/-- The calls that the kernel may make next.  What is handed out is new, and nothing but want of
memory makes a call fail. -/
structure CallsServed (m : Overflow) (c : KernelState) : Prop where
  allocate : ∀ (n : ℕ) (flags : Flags), flags.Built → c.manager.vaa.hander.next + n ≤ LOW_PAGES →
    Yields (Exhausted m) (fun x => ∃ b, x.1 = .ok (b * BASIC_PAGE_SIZE) ∧
      ∀ k ∈ Set.Ico b (b + n), k ∉ c.owned ∧ ∀ x ∈ c.devices, x.1 ≠ k)
      (c.manager.allocatePages m n flags .size4kb)
  map : ∀ (physAddr : PhysAddr) (flags : Flags), flags.Built →
    c.manager.vaa.hander.next + 1 ≤ LOW_PAGES → physAddr % 4096 = 0 → physAddr < 2 ^ 52 →
    Yields (Exhausted m) (fun x => ∃ b, x.1 = .ok (b * BASIC_PAGE_SIZE) ∧
      b ∉ c.owned ∧ ∀ x ∈ c.devices, x.1 ≠ b)
      (c.manager.mapPages m physAddr 1 flags .size4kb)
  free : ∀ k ∈ c.owned, Yields (· = .poolEmpty) (fun x => x.1 = .ok ())
    (c.manager.freePages m (k * BASIC_PAGE_SIZE) 1 .size4kb)
  unmap : ∀ x ∈ c.devices, ∃ s',
    c.manager.unmapPages m (x.1 * BASIC_PAGE_SIZE) 1 .size4kb = .ok (.ok (), s')

theorem KernelInv.new (h : KernelInv T A boot c pm next) (hk : next ≤ k) :
    k ∉ c.owned ∧ ∀ x ∈ c.devices, x.1 ≠ k := by
  have hnone := h.fresh hk
  refine ⟨h.space.notOwned hnone, ?_⟩
  rintro x hx rfl
  rw [(h.devices x hx).2] at hnone
  cases hnone

theorem KernelInv.calls (h : KernelInv T A boot c pm next) (hT : T * BASIC_PAGE_SIZE ≤ 2 ^ 52)
    (hA : ∀ p ∈ A, p < T) : CallsServed m c := by
  have hnext : c.manager.vaa.hander.next = next := by
    rw [h.vaa]
    rfl
  refine ⟨fun n flags hf hroom => ?_, fun a flags hf hroom ha hlt => ?_, fun k hk => ?_,
    fun x hx => ?_⟩
  · exact (h.allocatePages hT hf (hnext ▸ hroom)).imp fun x hx =>
      ⟨next, hx.1, fun k hk => h.new hk.1⟩
  · exact (h.mapPages hT hf (hnext ▸ hroom) ha hlt).imp fun x hx =>
      ⟨next, hx.1, h.new (Nat.le_refl next)⟩
  · exact (h.freePages hA hk).imp fun x hx => hx.1
  · obtain ⟨s', hrun, -⟩ := h.unmapPages (m := m) hx
    exact ⟨s', hrun⟩

end

theorem imageMap_kernelBoot : KernelBoot true 0xffff800000000000 0xffffffff80000000 0x7e00000
    imageMap ⟨0x200000, 0x7c00000, .usable⟩ where
  toBootMap := imageMap_bootMap
  chosen := by decide
  room := imageMap_room
  image_high := by decide
  last_aligned := by decide

end Funderberker

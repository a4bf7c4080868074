import Funderberker.Paging.Exclusive

/-!
# The virtual ranges that the manager hands out

`allocate_pages` and `map_pages` reserve numbers of basic pages from the bump
allocator and then map pages of a given size.  The first reserves one number for each
page whatever its size, and the second reserves one number for the whole call, so a
call may map more than it reserved; a later call is then given pages that are mapped.

When every call reserves at least what it maps, and the numbers reserved since the
start can be told apart by four levels of tables, the ranges are disjoint and every
page is found free: the entries in use are those of numbers already handed out.

## Main definitions

* `RangeCall`, `RangeReaches` — runs of the two calls, under a condition on each.
* `RangesDisjoint` — the ranges of the calls that succeeded.
* `Reserves` — the condition.

## Main results

* `ranges_disjoint` — with the condition.
* `ranges_overlap` — without it.
-/

namespace Funderberker

open Panicking PageTable

/-! ## Runs -/

/-- A call that reserves virtual pages. -/
inductive RangeCall
  | allocate (n : ℕ) (flags : Flags) (pageSize : PageSize)
  | map (physAddr n : ℕ) (flags : Flags) (pageSize : PageSize)

namespace RangeCall

def pageCount : RangeCall → ℕ
  | allocate n _ _ => n
  | map _ n _ _ => n

def pageSize : RangeCall → PageSize
  | allocate _ _ s => s
  | map _ _ _ s => s

/-- The count that the call passes to `handout`. -/
def reserved : RangeCall → ℕ
  | allocate n _ _ => n
  | map _ _ _ _ => 1

def run (m : Overflow) (s : PagingManager BuddyAllocator) :
    RangeCall → Except Panic (Except PagingError VirtAddr × PagingManager BuddyAllocator)
  | allocate n flags pageSize => s.allocatePages m n flags pageSize
  | map physAddr n flags pageSize => s.mapPages m physAddr n flags pageSize

/-- The bytes that a call which returned `ptr` has mapped. -/
def range (call : RangeCall) (ptr : VirtAddr) : Set ℕ :=
  Set.Ico ptr (ptr + call.pageCount * call.pageSize.size)

end RangeCall

/-- Calls with their results, the latest first. -/
abbrev RangeLog := List (RangeCall × Except PagingError VirtAddr)

/-- The range of a call that succeeded. -/
def grantedRange : RangeCall × Except PagingError VirtAddr → Option (Set ℕ)
  | (call, .ok ptr) => some (call.range ptr)
  | (_, .error _) => none

/-- The ranges handed out are disjoint, and no call found a page present. -/
structure RangesDisjoint (log : RangeLog) : Prop where
  disjoint : (log.filterMap grantedRange).Pairwise Disjoint
  notPresent : ∀ x ∈ log, x.2 ≠ .error .pageAlreadyPresent

/-- Runs whose every call, in the state it is made in, meets the condition `P`. -/
inductive RangeReaches (P : PagingManager BuddyAllocator → RangeCall → Prop) (m : Overflow)
    (s₀ : PagingManager BuddyAllocator) : RangeLog → PagingManager BuddyAllocator → Prop
  | start : RangeReaches P m s₀ [] s₀
  | step {log : RangeLog} {s s' : PagingManager BuddyAllocator} {call : RangeCall}
      {res : Except PagingError VirtAddr} (h : RangeReaches P m s₀ log s)
      (hn : 1 ≤ call.pageCount) (hP : P s call) (hrun : call.run m s = .ok (res, s')) :
      RangeReaches P m s₀ ((call, res) :: log) s'

/-- The call reserves at least the bytes it maps, and the pages reserved since `start`
can be told apart. -/
structure Reserves (start : ℕ) (s : PagingManager BuddyAllocator) (call : RangeCall) : Prop where
  whole : call.pageCount * call.pageSize.size ≤ call.reserved * BASIC_PAGE_SIZE
  window : s.vaa.hander.next + call.pageCount ≤ start + PAGES

/-- Such a call is for basic pages, and reserves one number for each. -/
theorem Reserves.basic {start : ℕ} {s : PagingManager BuddyAllocator} {call : RangeCall}
    (h : Reserves start s call) (hn : 1 ≤ call.pageCount) :
    call.pageSize = .size4kb ∧ call.reserved = call.pageCount := by
  have hwhole := h.whole
  cases call with
  | allocate n flags pageSize =>
      simp only [RangeCall.pageCount, RangeCall.pageSize, RangeCall.reserved,
        BASIC_PAGE_SIZE] at hwhole hn ⊢
      cases pageSize with
      | size4kb => exact ⟨rfl, trivial⟩
      | size2mb => rw [PageSize.size] at hwhole; omega
      | size1gb => rw [PageSize.size] at hwhole; omega
  | map physAddr n flags pageSize =>
      simp only [RangeCall.pageCount, RangeCall.pageSize, RangeCall.reserved,
        BASIC_PAGE_SIZE] at hwhole hn ⊢
      cases pageSize with
      | size4kb => rw [PageSize.size] at hwhole; exact ⟨rfl, by omega⟩
      | size2mb => rw [PageSize.size] at hwhole; omega
      | size1gb => rw [PageSize.size] at hwhole; omega

/-! ## Reserving numbers -/

variable {m : Overflow} {vaa : VirtualAddressAllocator} {n start : ℕ}

/-- Reserving basic pages. -/
theorem handout_spec (hn : n < 2 ^ 64) (hlt : vaa.hander.next + n < 2 ^ 64) :
    Yields (fun _ => True) (fun x => x.1 = vaa.hander.next * BASIC_PAGE_SIZE % 2 ^ 64 ∧
      x.2.hander.next = vaa.hander.next + n)
      (vaa.handout m n PageSize.size4kb.pageAlignment) := by
  have halign : VirtualAddressAllocator.alignOffset vaa.hander.next PageSize.size4kb.pageAlignment = .ok 0 := by
    rw [show PageSize.size4kb.pageAlignment = 1 from rfl,
      VirtualAddressAllocator.alignOffset,
      if_neg (by decide), if_pos (Nat.mod_one _)]
  rw [VirtualAddressAllocator.handout, halign, ok_bind, Usize.add_eq (by omega), ok_bind,
    Nat.zero_add, IdHander.handoutAndSkip]
  split
  · trivial
  · rw [Usize.add_eq hlt, ok_bind, ok_bind]
    refine ((Usize.mul_spec m vaa.hander.next BASIC_PAGE_SIZE).allow fun _ _ => trivial).bind ?_
    rintro addr rfl
    exact ⟨rfl, rfl⟩

/-! ## The entries in use -/

/-- Every entry in use is that of a number from `start` up to `stop`. -/
def Filled (W : ℕ → Word) (start stop : ℕ) : Prop :=
  ∀ k, W k ≠ 0 → ∃ id, start ≤ id ∧ id < stop ∧ id % PAGES = k

theorem Filled.mono {W : ℕ → Word} {stop stop' : ℕ} (h : Filled W start stop)
    (hle : stop ≤ stop') : Filled W start stop' := by
  intro k hk
  obtain ⟨id, h₁, h₂, h₃⟩ := h k hk
  exact ⟨id, h₁, h₂.trans_le hle, h₃⟩

/-- The next number of the window is not in use. -/
theorem Filled.next_eq_zero {W : ℕ → Word} {stop : ℕ} (h : Filled W start stop)
    (hlt : stop < start + PAGES) : W (stop % PAGES) = 0 := by
  by_contra hne
  obtain ⟨id, h₁, h₂, h₃⟩ := h _ hne
  rw [PAGES] at hlt h₃
  omega

theorem Filled.update {W : ℕ → Word} {stop : ℕ} (h : Filled W start stop) (hle : start ≤ stop)
    (e : Word) : Filled (Function.update W (stop % PAGES) e) start (stop + 1) := by
  intro k hk
  by_cases hk' : k = stop % PAGES
  · exact ⟨stop, hle, Nat.lt_succ_self stop, hk'.symm⟩
  · rw [Function.update_of_ne hk'] at hk
    exact h.mono (Nat.le_succ stop) k hk

section Steps

variable {σ : Type} [PmmAllocator σ] {bound : ℕ} {respects : Set PhysAddr → σ → Prop}
  {r : PhysAddr} {U : Set PhysAddr} {w : World σ} {stop id i : ℕ}

/-- The tables, the PMM and the entries in use. -/
structure RangeInv (respects : Set PhysAddr → σ → Prop) (r : PhysAddr) (start stop : ℕ)
    (U : Set PhysAddr) (w : World σ) : Prop where
  shape : Shape w.mem r U
  respected : respects U w.pmm
  filled : Filled (word w.mem r) start stop

/-- Mapping the page of the next number. -/
theorem RangeInv.mapPage (law : Supplies σ m bound respects)
    (hI : RangeInv respects r start stop U w) (hle : start ≤ stop) (hlt : stop < start + PAGES)
    {virt : VirtAddr} (hpage : pageOf virt = stop % PAGES) (phys : ℕ) (flags : Flags) :
    Yields (Stops σ m) (fun x => x.1 ≠ .error .pageAlreadyPresent ∧
      ∃ U', RangeInv respects r start (stop + 1) U' x.2)
      (mapPages m r w virt phys 1 .size4kb flags) := by
  have hstay : RangeInv respects r start (stop + 1) U w :=
    ⟨hI.shape, hI.respected, hI.filled.mono (Nat.le_succ stop)⟩
  refine (mapPages_spec law hI.shape hI.respected virt phys 1 flags).imp ?_
  intro x hx
  cases hx with
  | misalignedVirt => exact ⟨by simp, U, hstay⟩
  | misalignedPhys => exact ⟨by simp, U, hstay⟩
  | tooMany _ _ _ hafter hword =>
      exact ⟨by simp, _, hafter.shape, hafter.respects, hword ▸ hstay.filled⟩
  | pass _ _ _ hafter hpass =>
      rw [reach_one, hpage] at hpass
      rcases hpass.one with ⟨hpres, -, -⟩ | ⟨-, hW, hres⟩
      · rw [hI.filled.next_eq_zero hlt] at hpres
        exact absurd hpres (by decide)
      · dsimp only
        rw [hres]
        refine ⟨by simp, _, hafter.shape, hafter.respects, ?_⟩
        rw [hW]
        exact hI.filled.update hle _

/-- The page of number `id + i`, from the address of number `id`. -/
theorem pageOf_number (id i : ℕ) :
    pageOf ((id * BASIC_PAGE_SIZE % 2 ^ 64 + i * BASIC_PAGE_SIZE) % 2 ^ 64) = (id + i) % PAGES := by
  rw [pageOf, BASIC_PAGE_SIZE, PAGES]
  omega

/-- The loop of `allocate_pages` maps the pages of the numbers from `id + i` on. -/
theorem RangeInv.allocatePagesGo (law : Supplies σ m bound respects)
    (hI : RangeInv respects r start (id + i) U w) (hle : start ≤ id + i)
    (hlt : id + i + n ≤ start + PAGES) (hi : i + n ≤ PAGES) (flags : Flags) :
    Yields (fun _ => True) (fun x => x.1 ≠ .error .pageAlreadyPresent ∧
      ∃ U', RangeInv respects r start (id + i + n) U' x.2)
      (PagingManager.allocatePagesGo m r (id * BASIC_PAGE_SIZE % 2 ^ 64) flags .size4kb n i w) := by
  induction n generalizing i w U with
  | zero => exact ⟨by simp, U, hI⟩
  | succ n ih =>
      have hmul : Usize.mul m i PageSize.size4kb.size = .ok (i * BASIC_PAGE_SIZE) := by
        refine Usize.mul_eq ?_
        rw [PAGES] at hi
        rw [PageSize.size]
        omega
      rw [PagingManager.allocatePagesGo, show PageSize.size4kb.toDefaultPageCount = 1 from rfl,
        hmul, ok_bind]
      refine ((Usize.add_spec m _ _).allow fun _ _ => trivial).bind ?_
      intro virt hvirt
      have hpage : pageOf virt = (id + i) % PAGES := hvirt ▸ pageOf_number id i
      cases hrun : PmmAllocator.allocate m w.pmm 1 1 with
      | error x => trivial
      | ok x =>
          obtain ⟨res, pmm⟩ := x
          cases res with
          | error _ => trivial
          | ok a =>
              obtain ⟨-, -, -, hres⟩ := law.allocate hI.respected hrun
              have hI' : RangeInv respects r start (id + i) (insert a U) { w with pmm := pmm } :=
                ⟨hI.shape.resize (hI.shape.tables_subset.trans (Set.subset_insert a U)), hres,
                  hI.filled⟩
              rw [ok_bind]
              refine ((hI'.mapPage law hle (by omega) hpage a flags).allow fun _ _ => trivial).bind ?_
              rintro ⟨res, w'⟩ ⟨hne, U', hI''⟩
              cases res with
              | error e =>
                  exact ⟨hne, U', hI''.shape, hI''.respected, hI''.filled.mono (by omega)⟩
              | ok _ =>
                  have hrec := ih (i := i + 1) hI'' (by omega) (by omega) (by omega)
                  rw [show id + (i + 1) + n = id + i + (n + 1) by omega] at hrec
                  exact hrec

end Steps

/-! ## The run -/

variable {T : ℕ} {s s' s₀ : PagingManager BuddyAllocator} {U : Set PhysAddr} {call : RangeCall}
  {log : RangeLog} {res : Except PagingError VirtAddr}

theorem pageOf_id (id : ℕ) : pageOf (id * BASIC_PAGE_SIZE % 2 ^ 64) = id % PAGES := by
  rw [pageOf, BASIC_PAGE_SIZE, PAGES]
  omega

/-- What a call that reserves enough does. -/
structure Granted (T start : ℕ) (s : PagingManager BuddyAllocator) (n : ℕ)
    (res : Except PagingError VirtAddr) (s' : PagingManager BuddyAllocator) : Prop where
  notPresent : res ≠ .error .pageAlreadyPresent
  pml_eq : s'.pml = s.pml
  next_eq : s'.vaa.hander.next = s.vaa.hander.next + n
  inv : ∃ U, RangeInv (BuddyAllocator.Respects T) s.pml start (s.vaa.hander.next + n) U s'.world
  address : ∀ ptr, res = .ok ptr → ptr = s.vaa.hander.next * BASIC_PAGE_SIZE % 2 ^ 64

theorem allocatePages_granted
    (hI : RangeInv (BuddyAllocator.Respects T) s.pml start s.vaa.hander.next U s.world)
    (hle : start ≤ s.vaa.hander.next) (hstart : start < 2 ^ 52)
    (hwin : s.vaa.hander.next + n ≤ start + PAGES) {flags : Flags}
    (hrun : s.allocatePages m n flags .size4kb = .ok (res, s')) : Granted T start s n res s' := by
  have hpages : PAGES = 2 ^ 36 := rfl
  have hlaw := BuddyAllocator.supplies m hI.respected.inv.bound_le_word
  obtain ⟨⟨base, vaa⟩, hhand, hrun⟩ := bind_eq_ok.mp hrun
  obtain ⟨hbase, hnext⟩ := (handout_spec (by omega) (by omega)).post hhand
  dsimp only at hbase hnext hrun
  subst hbase
  obtain ⟨⟨res', w⟩, hgo, hrun⟩ := bind_eq_ok.mp hrun
  obtain ⟨hne, hI'⟩ := (hI.allocatePagesGo (i := 0) hlaw hle hwin (by omega) flags).post hgo
  dsimp only at hne hI' hrun
  cases res' with
  | error e =>
      cases hrun
      exact ⟨by simpa using hne, rfl, hnext, hI', fun ptr h => nomatch h⟩
  | ok _ =>
      dsimp only at hrun
      split at hrun
      · cases hrun
      · cases hrun
        exact ⟨by simp, rfl, hnext, hI', fun ptr h => (Except.ok.inj h).symm⟩

theorem mapPages_granted
    (hI : RangeInv (BuddyAllocator.Respects T) s.pml start s.vaa.hander.next U s.world)
    (hle : start ≤ s.vaa.hander.next) (hstart : start < 2 ^ 52)
    (hwin : s.vaa.hander.next + 1 ≤ start + PAGES) {phys : ℕ} {flags : Flags}
    (hrun : s.mapPages m phys 1 flags .size4kb = .ok (res, s')) : Granted T start s 1 res s' := by
  have hpages : PAGES = 2 ^ 36 := rfl
  have hlaw := BuddyAllocator.supplies m hI.respected.inv.bound_le_word
  obtain ⟨⟨virt, vaa⟩, hhand, hrun⟩ := bind_eq_ok.mp hrun
  obtain ⟨hvirt, hnext⟩ := (handout_spec (by omega) (by omega)).post hhand
  dsimp only at hvirt hnext hrun
  subst hvirt
  obtain ⟨⟨res', w⟩, hmap, hrun⟩ := bind_eq_ok.mp hrun
  obtain ⟨hne, hI'⟩ :=
    (hI.mapPage hlaw hle (by omega) (pageOf_id s.vaa.hander.next) phys flags).post hmap
  dsimp only at hne hI' hrun
  cases res' with
  | error e =>
      cases hrun
      exact ⟨by simpa using hne, rfl, hnext, hI', fun ptr h => nomatch h⟩
  | ok _ =>
      cases hrun
      exact ⟨by simp, rfl, hnext, hI', fun ptr h => (Except.ok.inj h).symm⟩

/-- **One call.** -/
theorem RangeCall.run_granted
    (hI : RangeInv (BuddyAllocator.Respects T) s.pml start s.vaa.hander.next U s.world)
    (hle : start ≤ s.vaa.hander.next) (hstart : start < 2 ^ 52) (hn : 1 ≤ call.pageCount)
    (hR : Reserves start s call) (hrun : call.run m s = .ok (res, s')) :
    Granted T start s call.pageCount res s' := by
  obtain ⟨hsize, hcount⟩ := hR.basic hn
  have hwin := hR.window
  cases call with
  | allocate n flags pageSize =>
      obtain rfl : pageSize = .size4kb := hsize
      exact allocatePages_granted hI hle hstart hwin hrun
  | map phys n flags pageSize =>
      obtain rfl : pageSize = .size4kb := hsize
      obtain rfl : 1 = n := hcount
      exact mapPages_granted hI hle hstart hwin hrun

/-- The range of a call, in terms of the numbers it was given. -/
def FromIds (start stop : ℕ) (call : RangeCall) (ptr : VirtAddr) : Prop :=
  ∃ id, start ≤ id ∧ id + call.pageCount ≤ stop ∧ ptr = id * BASIC_PAGE_SIZE % 2 ^ 64 ∧
    call.pageSize = .size4kb

/-- Ranges of different numbers of one window are disjoint. -/
theorem disjoint_of_ids {id id' n n' : ℕ} (hle : start ≤ id) (hlt : id + n ≤ id')
    (hwin : id' + n' ≤ start + PAGES) :
    Disjoint (Set.Ico (id' * BASIC_PAGE_SIZE % 2 ^ 64)
        (id' * BASIC_PAGE_SIZE % 2 ^ 64 + n' * 4096))
      (Set.Ico (id * BASIC_PAGE_SIZE % 2 ^ 64) (id * BASIC_PAGE_SIZE % 2 ^ 64 + n * 4096)) := by
  rw [Set.disjoint_left]
  intro x hx hx'
  rw [BASIC_PAGE_SIZE, Set.mem_Ico] at hx hx'
  rw [PAGES] at hwin
  omega

/-- The run invariant. -/
structure RangeRun (T : ℕ) (s₀ : PagingManager BuddyAllocator) (log : RangeLog)
    (s : PagingManager BuddyAllocator) : Prop where
  pml_eq : s.pml = s₀.pml
  start_le : s₀.vaa.hander.next ≤ s.vaa.hander.next
  inv : ∃ U, RangeInv (BuddyAllocator.Respects T) s.pml s₀.vaa.hander.next s.vaa.hander.next U
    s.world
  granted : ∀ call ptr, (call, .ok ptr) ∈ log →
    FromIds s₀.vaa.hander.next s.vaa.hander.next call ptr
  disjoint : RangesDisjoint log

/-- A call extends a run. -/
theorem RangeRun.step (h : RangeRun T s₀ log s) (hwin : s.vaa.hander.next + call.pageCount ≤
      s₀.vaa.hander.next + PAGES) (hsize : call.pageSize = .size4kb)
    (hG : Granted T s₀.vaa.hander.next s call.pageCount res s') :
    RangeRun T s₀ ((call, res) :: log) s' where
  pml_eq := hG.pml_eq.trans h.pml_eq
  start_le := by
    rw [hG.next_eq]
    exact h.start_le.trans (Nat.le_add_right _ _)
  inv := by
    rw [hG.pml_eq, hG.next_eq]
    exact hG.inv
  granted c ptr hmem := by
    rcases List.mem_cons.mp hmem with heq | hmem
    · obtain ⟨rfl, rfl⟩ := Prod.mk.inj heq
      exact ⟨s.vaa.hander.next, h.start_le, hG.next_eq.ge, hG.address ptr rfl, hsize⟩
    · obtain ⟨id, h₁, h₂, h₃, h₄⟩ := h.granted c ptr hmem
      exact ⟨id, h₁, h₂.trans (hG.next_eq ▸ Nat.le_add_right _ _), h₃, h₄⟩
  disjoint := by
    refine ⟨?_, ?_⟩
    · cases res with
      | error e => exact h.disjoint.disjoint
      | ok ptr =>
          change List.Pairwise Disjoint (call.range ptr :: log.filterMap grantedRange)
          refine List.pairwise_cons.mpr ⟨?_, h.disjoint.disjoint⟩
          intro R hR
          obtain ⟨⟨c, res⟩, hmem, hgr⟩ := List.mem_filterMap.mp hR
          cases res with
          | error e => cases hgr
          | ok ptr' =>
              obtain rfl : c.range ptr' = R := Option.some.inj hgr
              obtain ⟨id, h₁, h₂, rfl, h₄⟩ := h.granted c ptr' hmem
              rw [hG.address ptr rfl, RangeCall.range, RangeCall.range, hsize, h₄]
              exact disjoint_of_ids h₁ h₂ hwin
    · intro x hx
      rcases List.mem_cons.mp hx with rfl | hx
      · exact hG.notPresent
      · exact h.disjoint.notPresent x hx

/-- **Every run that reserves enough.** -/
theorem RangeReaches.run (hzero : ∀ i, s₀.world.mem s₀.pml i = 0)
    (hres : BuddyAllocator.Respects T {s₀.pml} s₀.world.pmm) (hnext : s₀.vaa.hander.next < 2 ^ 52)
    (h : RangeReaches (Reserves s₀.vaa.hander.next) m s₀ log s) : RangeRun T s₀ log s := by
  induction h with
  | start =>
      obtain ⟨hS, hword, -⟩ := shape_of_zero hzero
      refine ⟨rfl, Nat.le_refl _, ⟨_, hS, hres, ?_⟩, by simp,
        List.Pairwise.nil, by simp⟩
      rw [hword]
      exact fun k hk => absurd rfl hk
  | step _ hn hP hrun ih =>
      obtain ⟨U, hI⟩ := ih.inv
      exact ih.step hP.window (hP.basic hn).1
        (RangeCall.run_granted hI ih.start_le hnext hn hP hrun)

/-- **Virtual ranges are disjoint when calls reserve what they map.**  From a cleared
top-level table and a well-formed PMM: in every run in which each call reserves at
least the bytes it maps, and the pages reserved since the start are at most as many as
four levels tell apart, the ranges of the calls that succeeded are pairwise disjoint and
no call fails because a page is present. -/
theorem ranges_disjoint (hzero : ∀ i, s₀.world.mem s₀.pml i = 0) (hpml : s₀.pml % 4096 = 0)
    (hInv : BuddyAllocator.Inv T s₀.world.pmm)
    (hfree : s₀.pml / BASIC_PAGE_SIZE ∉ s₀.world.pmm.freePages)
    (hnext : s₀.vaa.hander.next < 2 ^ 52)
    (h : RangeReaches (Reserves s₀.vaa.hander.next) m s₀ log s) : RangesDisjoint log :=
  (h.run hzero (BuddyAllocator.respects_singleton hInv hpml hfree) hnext).disjoint

/-- Two pages allocated, then one page mapped. -/
def smallAllocate : RangeCall := .allocate 2 smallFlags .size4kb

def onePage : RangeCall := .map 0x20000 1 smallFlags .size4kb

theorem small_ranges_disjoint :
    RangesDisjoint [(onePage, .ok 0x5000), (smallAllocate, .ok 0x3000)] := by
  have hfirst : smallAllocate.run .checked smallManager = .ok (.ok 0x3000, smallAllocated) :=
    eq_ok_stateAfter smallManager (by decide)
  have hnext : smallAllocated.vaa.hander.next = 5 := by decide
  have hsecond := eq_ok_stateAfter smallAllocated (a := .ok 0x5000)
    (x := onePage.run .checked smallAllocated) (by decide)
  have hreaches : RangeReaches (Reserves smallManager.vaa.hander.next) .checked smallManager
      [(onePage, .ok 0x5000), (smallAllocate, .ok 0x3000)]
      (stateAfter smallAllocated (onePage.run .checked smallAllocated)) :=
    .step (.step .start (by decide) ⟨by decide, by decide⟩ hfirst) (by decide)
      ⟨by decide, by rw [hnext]; decide⟩ hsecond
  exact ranges_disjoint (fun _ => rfl) rfl smallSupply_frees.inv
    (smallSupply_respects.notFree smallManager.pml (Set.mem_singleton _)) (by decide) hreaches

/-- The manager with the next number at the start of a large page. -/
def smallManagerAt512 : PagingManager BuddyAllocator :=
  { smallManager with vaa := ⟨⟨512, 1000⟩⟩ }

/-- Two pages mapped by one call. -/
def twoPages : RangeCall := .map 0x20000 2 smallFlags .size4kb

/-- One large page. -/
def largePage : RangeCall := .map 0x400000 1 smallFlags .size2mb

def afterTwoPages : PagingManager BuddyAllocator :=
  stateAfter smallManager (twoPages.run .checked smallManager)

def afterLargePage : PagingManager BuddyAllocator :=
  stateAfter smallManagerAt512 (largePage.run .checked smallManagerAt512)

/-- **Ranges overlap without the condition.**  After two pages mapped by one call, the
next call finds its page present; after one large page, the next call is given a page
inside it. -/
theorem ranges_overlap :
    (∃ s, RangeReaches (fun _ _ => True) .checked smallManager
      [(onePage, .error .pageAlreadyPresent), (twoPages, .ok 0x3000)] s) ∧
    ¬ RangesDisjoint [(onePage, .error .pageAlreadyPresent), (twoPages, .ok 0x3000)] ∧
    (∃ s, RangeReaches (fun _ _ => True) .checked smallManagerAt512
      [(onePage, .ok 0x201000), (largePage, .ok 0x200000)] s) ∧
    ¬ RangesDisjoint [(onePage, .ok 0x201000), (largePage, .ok 0x200000)] := by
  have hpages : twoPages.run .checked smallManager = .ok (.ok 0x3000, afterTwoPages) :=
    eq_ok_stateAfter smallManager (by decide)
  have hlarge : largePage.run .checked smallManagerAt512 = .ok (.ok 0x200000, afterLargePage) :=
    eq_ok_stateAfter smallManagerAt512 (by decide)
  have hpresent := eq_ok_stateAfter afterTwoPages (a := .error .pageAlreadyPresent)
    (x := onePage.run .checked afterTwoPages) (by decide)
  have hinside := eq_ok_stateAfter afterLargePage (a := .ok 0x201000)
    (x := onePage.run .checked afterLargePage) (by decide)
  refine ⟨⟨_, .step (.step .start (by decide) trivial hpages) (by decide) trivial hpresent⟩,
    fun h => h.notPresent _ List.mem_cons_self rfl,
    ⟨_, .step (.step .start (by decide) trivial hlarge) (by decide) trivial hinside⟩, fun h => ?_⟩
  have hdisjoint : Disjoint (onePage.range 0x201000) (largePage.range 0x200000) :=
    List.rel_of_pairwise_cons h.disjoint (List.mem_singleton_self _)
  have hmap : 0x201000 ∈ onePage.range 0x201000 := ⟨by decide, by decide⟩
  have hlarge : 0x201000 ∈ largePage.range 0x200000 := ⟨by decide, by decide⟩
  exact Set.disjoint_left.mp hdisjoint hmap hlarge

end Funderberker

import Funderberker.Pmm.Spec
import Mathlib.Logic.Relation

/-!
# Runs of the buddy allocator

A run starts from empty zones and a pool of nodes, hands regions over, and serves
requests.  The allocator keeps no record of what it handed out, so a `Client` adds
one: the pages handed over so far and the pages handed out and not yet freed.
`Request` is one `allocate` or `free`, with the promises its caller makes; `Call`
adds `allocate_at` and `Step` the handing over of a region.  A call that panics ends
the run.

`Sound` ties the record to the allocator and is what a step keeps; everything a
client may rely on in a reachable state is read off it.

## Main definitions

* `pagesFrom` — the page numbers of a range.
* `Client`, `Request`, `Call`, `Step`, `Reachable` — runs.
* `Sound` — the run invariant.
* `Guarantees` — what holds in a state, for its zones and for the next call.

## Main results

* `reachable_guarantees` — every reachable state has the guarantees.
* `free_reports_double_free_iff` — which double frees are detected.
-/

namespace Funderberker

open Panicking DyadicBlock BuddyAllocator

/-- The page numbers of the `n` pages from `addr`. -/
def pagesFrom (addr : PhysAddr) (n : ℕ) : Set ℕ :=
  Set.Ico (addr / BASIC_PAGE_SIZE) (addr / BASIC_PAGE_SIZE + n)

instance (addr : PhysAddr) (n p : ℕ) : Decidable (p ∈ pagesFrom addr n) :=
  inferInstanceAs (Decidable (addr / BASIC_PAGE_SIZE ≤ p ∧ p < addr / BASIC_PAGE_SIZE + n))

/-- A power of two. -/
def IsPow2 (n : ℕ) : Prop := ∃ e, n = 2 ^ e

theorem pagesFrom_blockAddr (e c : ℕ) : pagesFrom (blockAddr e c) (2 ^ e) = points e c := by
  ext p
  rw [pagesFrom, blockAddr, Nat.mul_div_cancel _ basicPageSize_pos, Set.mem_Ico, mem_points_iff]

/-- The allocator together with what its clients know. -/
structure Client where
  pmm : BuddyAllocator
  /-- Pages handed over to the allocator. -/
  managed : Set ℕ
  /-- Pages handed out and not freed since. -/
  allocated : Set ℕ

namespace Client

/-- Empty zones, a pool of nodes, and nothing handed over. -/
def start (zones : ℕ) (pool : List Node) : Client :=
  ⟨⟨List.replicate zones [], pool⟩, ∅, ∅⟩

end Client

/-- What callers promise about the arguments of `allocate`. -/
structure AllocateArgs (al n : ℕ) : Prop where
  alignment : IsPow2 al
  alignment_fits : BASIC_PAGE_SIZE * al < 2 ^ 64
  count : IsPow2 n
  count_fits : n < 2 ^ 64

/-- What callers promise about the arguments of `allocate_at`. -/
structure AllocateAtArgs (n : ℕ) : Prop where
  count : IsPow2 n
  count_fits : n < 2 ^ 64

/-- What callers promise about the arguments of `free`: an aligned range that is
handed out. -/
structure FreeArgs (g : Client) (addr : PhysAddr) (n : ℕ) : Prop where
  count : IsPow2 n
  aligned : addr % (BASIC_PAGE_SIZE * n) = 0
  live : pagesFrom addr n ⊆ g.allocated

/-- A request for pages, or pages given back.  An error leaves the record as it was. -/
inductive Request (m : Overflow) (g : Client) : Client → Prop
  | allocate {al n : ℕ} (hargs : AllocateArgs al n) {a : PhysAddr} {s : BuddyAllocator}
      (h : g.pmm.allocate m al n = .ok (.ok a, s)) :
      Request m g ⟨s, g.managed, g.allocated ∪ pagesFrom a n⟩
  | allocateErr {al n : ℕ} (hargs : AllocateArgs al n) {e : PmmError} {s : BuddyAllocator}
      (h : g.pmm.allocate m al n = .ok (.error e, s)) :
      Request m g ⟨s, g.managed, g.allocated⟩
  | free {addr : PhysAddr} {n : ℕ} (hargs : FreeArgs g addr n) {s : BuddyAllocator}
      (h : g.pmm.free m addr n = .ok (.ok (), s)) :
      Request m g ⟨s, g.managed, g.allocated \ pagesFrom addr n⟩
  | freeErr {addr : PhysAddr} {n : ℕ} (hargs : FreeArgs g addr n) {e : PmmError}
      {s : BuddyAllocator} (h : g.pmm.free m addr n = .ok (.error e, s)) :
      Request m g ⟨s, g.managed, g.allocated⟩

/-- One call of a client: a request, or a request for given pages. -/
inductive Call (m : Overflow) (g : Client) : Client → Prop
  | request {g' : Client} (h : Request m g g') : Call m g g'
  | allocateAt {addr : PhysAddr} {n : ℕ} (hargs : AllocateAtArgs n) {s : BuddyAllocator}
      (h : g.pmm.allocateAt m addr n = .ok (.ok (), s)) :
      Call m g ⟨s, g.managed, g.allocated ∪ pagesFrom addr n⟩
  | allocateAtErr {addr : PhysAddr} {n : ℕ} (hargs : AllocateAtArgs n) {e : PmmError}
      {s : BuddyAllocator} (h : g.pmm.allocateAt m addr n = .ok (.error e, s)) :
      Call m g ⟨s, g.managed, g.allocated⟩

/-- Runs of requests only. -/
def Requests (m : Overflow) : Client → Client → Prop := Relation.ReflTransGen (Request m)

/-- Runs of calls, with no more regions handed over. -/
def Calls (m : Overflow) : Client → Client → Prop := Relation.ReflTransGen (Call m)

/-- One step of a run: a region is handed over, or a client calls. -/
inductive Step (m : Overflow) (T : ℕ) (g : Client) : Client → Prop
  | region (p n : ℕ) (hnew : Disjoint (Set.Ico p (p + n)) g.managed) (hT : p + n ≤ T)
      {s : BuddyAllocator}
      (h : g.pmm.breakIntoBucketsNFree m (p * BASIC_PAGE_SIZE) n = .ok s) :
      Step m T g ⟨s, g.managed ∪ Set.Ico p (p + n), g.allocated⟩
  | call {g' : Client} (h : Call m g g') : Step m T g g'

/-- The states a run can reach. -/
inductive Reachable (m : Overflow) (T : ℕ) (g₀ : Client) : Client → Prop
  | start : Reachable m T g₀ g₀
  | step {g g' : Client} (hg : Reachable m T g₀ g) (h : Step m T g g') : Reachable m T g₀ g'

/-- The run invariant. -/
structure Sound (T : ℕ) (g₀ g : Client) : Prop where
  inv : Inv T g.pmm
  keeps : Keeps g₀.pmm g.pmm
  partition : g.pmm.freePages ∪ g.allocated = g.managed
  disjoint : Disjoint g.pmm.freePages g.allocated
  bounded : ∀ p ∈ g.managed, p < T

variable {m : Overflow} {T z al n e c : ℕ} {g g₀ g' : Client} {addr : PhysAddr}
  {pool : List Node} {s : BuddyAllocator}

/-! ## The start -/

theorem addrs_start (z : ℕ) (pool : List Node) (i : ℕ) : (Client.start z pool).pmm.addrs i = [] := by
  simp only [Client.start, addrs]
  rcases Nat.lt_or_ge i z with hi | hi
  · simp [hi]
  · simp [List.getElem?_eq_none (show (List.replicate z ([] : List Node)).length ≤ i by simpa)]

theorem blocks_start (z : ℕ) (pool : List Node) :
    (Client.start z pool).pmm.blocks = fun _ => ∅ := by
  funext i
  ext k
  simp [addrs_start]

theorem freePages_start (z : ℕ) (pool : List Node) :
    (Client.start z pool).pmm.freePages = ∅ := by
  rw [freePages, blocks_start, cover_empty]

@[simp] theorem zones_start (z : ℕ) (pool : List Node) :
    (Client.start z pool).pmm.zones.length = z := by
  simp [Client.start]

theorem nodeCount_start (z : ℕ) (pool : List Node) :
    (Client.start z pool).pmm.nodeCount = pool.length := by
  simp [Client.start, nodeCount]

theorem inv_start (hz : z ≤ 51) (hT : T < 2 ^ z) (pool : List Node) :
    Inv T (Client.start z pool).pmm where
  zones_le := by simpa using hz
  bound_lt := by simpa using hT
  aligned i a ha := by simp [addrs_start] at ha
  nodup i := by simp [addrs_start]
  tiling := by rw [blocks_start]; exact tiling_empty
  bounded p hp := by rw [freePages_start] at hp; cases hp

theorem sound_start (hz : z ≤ 51) (hT : T < 2 ^ z) (pool : List Node) :
    Sound T (Client.start z pool) (Client.start z pool) where
  inv := inv_start hz hT pool
  keeps := Keeps.refl _
  partition := by rw [freePages_start]; simp [Client.start]
  disjoint := by rw [freePages_start]; exact Set.empty_disjoint _
  bounded p hp := by cases hp

/-! ## Arguments as blocks -/

theorem AllocateArgs.exists_orders (h : AllocateArgs al n) :
    ∃ f e, al = 2 ^ f ∧ n = 2 ^ e ∧ f < 52 ∧ e < 64 := by
  obtain ⟨f, rfl⟩ := h.alignment
  obtain ⟨e, rfl⟩ := h.count
  refine ⟨f, e, rfl, rfl, ?_, ?_⟩
  · exact pageSize_mul_two_pow_lt_iff.mp h.alignment_fits
  · exact (Nat.pow_lt_pow_iff_right (by omega)).mp h.count_fits

theorem AllocateAtArgs.exists_order (h : AllocateAtArgs n) : ∃ e, n = 2 ^ e ∧ e < 64 := by
  obtain ⟨e, rfl⟩ := h.count
  exact ⟨e, rfl, (Nat.pow_lt_pow_iff_right (by omega)).mp h.count_fits⟩

/-- A range that may be freed is a block of pages that are not free. -/
theorem FreeArgs.exists_block (hg : Sound T g₀ g) (h : FreeArgs g addr n) :
    ∃ e c, addr = blockAddr e c ∧ n = 2 ^ e ∧ points e c ⊆ g.allocated ∧
      Disjoint (points e c) g.pmm.freePages ∧ ∀ p ∈ points e c, p < T := by
  obtain ⟨e, rfl⟩ := h.count
  obtain ⟨c, rfl⟩ := exists_blockAddr_of_mod h.aligned
  have hlive := h.live
  rw [pagesFrom_blockAddr] at hlive
  refine ⟨e, c, rfl, rfl, hlive, (hg.disjoint.mono_right hlive).symm, fun p hp => ?_⟩
  exact hg.bounded p (hg.partition ▸ Or.inr (hlive hp))

/-! ## What a step keeps -/

/-- Handing out free pages. -/
theorem Sound.take (hg : Sound T g₀ g) (hfree : points e c ⊆ g.pmm.freePages)
    (h : Frees T g.pmm s (g.pmm.freePages \ points e c)) :
    Sound T g₀ ⟨s, g.managed, g.allocated ∪ points e c⟩ where
  inv := h.inv
  keeps := hg.keeps.trans h.keeps
  partition := by
    rw [h.free, Set.union_comm g.allocated, ← Set.union_assoc, Set.sdiff_union_of_subset hfree]
    exact hg.partition
  disjoint := by
    rw [h.free, Set.disjoint_union_right]
    exact ⟨hg.disjoint.mono_left Set.sdiff_subset, Set.disjoint_sdiff_left⟩
  bounded := hg.bounded

/-- Taking pages back. -/
theorem Sound.give (hg : Sound T g₀ g) (hlive : points e c ⊆ g.allocated)
    (h : Frees T g.pmm s (g.pmm.freePages ∪ points e c)) :
    Sound T g₀ ⟨s, g.managed, g.allocated \ points e c⟩ where
  inv := h.inv
  keeps := hg.keeps.trans h.keeps
  partition := by
    rw [h.free, Set.union_assoc, Set.union_sdiff_cancel hlive]
    exact hg.partition
  disjoint := by
    rw [h.free, Set.disjoint_union_left]
    exact ⟨hg.disjoint.mono_right Set.sdiff_subset, Set.disjoint_sdiff_right⟩
  bounded := hg.bounded

/-- Handing a region over. -/
theorem Sound.region (hg : Sound T g₀ g) {p n : ℕ}
    (hnew : Disjoint (Set.Ico p (p + n)) g.managed) (hT : p + n ≤ T)
    (h : Frees T g.pmm s (g.pmm.freePages ∪ Set.Ico p (p + n))) :
    Sound T g₀ ⟨s, g.managed ∪ Set.Ico p (p + n), g.allocated⟩ where
  inv := h.inv
  keeps := hg.keeps.trans h.keeps
  partition := by
    rw [h.free, Set.union_right_comm, hg.partition]
  disjoint := by
    rw [h.free, Set.disjoint_union_left]
    refine ⟨hg.disjoint, hnew.mono_right ?_⟩
    rw [← hg.partition]
    exact Set.subset_union_right
  bounded := by
    rintro q (hq | hq)
    · exact hg.bounded q hq
    · rw [Set.mem_Ico] at hq
      omega

theorem Sound.region_disjoint (hg : Sound T g₀ g) {p n : ℕ}
    (hnew : Disjoint (Set.Ico p (p + n)) g.managed) :
    Disjoint (Set.Ico p (p + n)) g.pmm.freePages := by
  refine hnew.mono_right ?_
  rw [← hg.partition]
  exact Set.subset_union_left

theorem Sound.request (hg : Sound T g₀ g) (h : Request m g g') : Sound T g₀ g' := by
  cases h with
  | allocate hargs h =>
      obtain ⟨f, e, rfl, rfl, hf, he⟩ := hargs.exists_orders
      cases (allocate_spec hg.inv hf).post h with
      | some c s hal hfree hfrees =>
          rw [pagesFrom_blockAddr]
          exact hg.take hfree hfrees
  | allocateErr hargs h =>
      obtain ⟨f, e, rfl, rfl, hf, he⟩ := hargs.exists_orders
      cases (allocate_spec hg.inv hf).post h <;> exact hg
  | free hargs h =>
      obtain ⟨e, c, rfl, rfl, hlive, hd, hb⟩ := hargs.exists_block hg
      rw [pagesFrom_blockAddr]
      exact hg.give hlive ((free_spec hg.inv hd hb).post h).2
  | freeErr hargs h =>
      obtain ⟨e, c, rfl, rfl, hlive, hd, hb⟩ := hargs.exists_block hg
      cases ((free_spec hg.inv hd hb).post h).1

theorem Sound.call (hg : Sound T g₀ g) (h : Call m g g') : Sound T g₀ g' := by
  cases h with
  | request h => exact hg.request h
  | allocateAt hargs h =>
      obtain ⟨e, rfl, he⟩ := hargs.exists_order
      cases (allocateAt_spec hg.inv).post h with
      | some c s haddr hfree hfrees =>
          rw [haddr, pagesFrom_blockAddr]
          exact hg.take hfree hfrees
  | allocateAtErr hargs h =>
      obtain ⟨e, rfl, he⟩ := hargs.exists_order
      cases (allocateAt_spec hg.inv).post h <;> exact hg

/-- A call hands over no region. -/
theorem Call.managed_eq (h : Call m g g') : g'.managed = g.managed := by
  cases h with
  | request h => cases h <;> rfl
  | allocateAt => rfl
  | allocateAtErr => rfl

theorem Requests.calls (h : Requests m g g') : Calls m g g' := by
  induction h with
  | refl => exact .refl
  | tail _ hreq ih => exact ih.tail (.request hreq)

theorem Sound.calls (hg : Sound T g₀ g) (h : Calls m g g') :
    Sound T g₀ g' ∧ g'.managed = g.managed := by
  induction h with
  | refl => exact ⟨hg, rfl⟩
  | tail _ hcall ih => exact ⟨ih.1.call hcall, hcall.managed_eq.trans ih.2⟩

theorem Sound.step (hg : Sound T g₀ g) (h : Step m T g g') : Sound T g₀ g' := by
  cases h with
  | region p n hnew hT h =>
      exact hg.region hnew hT
        ((breakIntoBucketsNFree_spec hg.inv (hg.region_disjoint hnew) hT).post h)
  | call h => exact hg.call h

/-- **The run invariant holds in every reachable state.** -/
theorem Reachable.sound (hz : z ≤ 51) (hT : T < 2 ^ z)
    (h : Reachable m T (Client.start z pool) g) : Sound T (Client.start z pool) g := by
  induction h with
  | start => exact sound_start hz hT pool
  | step _ hstep ih => exact ih.step hstep

/-! ## What clients may rely on -/

/-- The zones, the record, and the effect of the next call. -/
structure Guarantees (m : Overflow) (T nodes : ℕ) (g : Client) : Prop where
  /-- Every address of zone `i` is a multiple of `2 ^ i` pages. -/
  aligned : ∀ i, ∀ a ∈ g.pmm.addrs i, a % (2 ^ i * BASIC_PAGE_SIZE) = 0
  /-- Two blocks, of one zone or of two, have no page in common. -/
  disjoint : ∀ (i j x y : ℕ) (a b : PhysAddr), (g.pmm.addrs i)[x]? = some a →
    (g.pmm.addrs j)[y]? = some b → (i, x) ≠ (j, y) →
    Disjoint (pagesFrom a (2 ^ i)) (pagesFrom b (2 ^ j))
  /-- No zone holds both buddies of a pair. -/
  merged : ∀ i, ∀ a ∈ g.pmm.addrs i, ∀ b ∈ g.pmm.addrs i, getBuddyAddr m a i ≠ .ok b
  /-- The free pages are the pages of the blocks. -/
  free_eq : g.pmm.freePages = {p | ∃ i, ∃ a ∈ g.pmm.addrs i, p ∈ pagesFrom a (2 ^ i)}
  /-- The free and the allocated pages partition the managed ones. -/
  partition : g.pmm.freePages ∪ g.allocated = g.managed
  partition_disjoint : Disjoint g.pmm.freePages g.allocated
  /-- No node is created or lost. -/
  nodes_eq : g.pmm.nodeCount = nodes
  /-- A call aborts only when it needs a node and the pool is empty. -/
  allocate : ∀ al n, AllocateArgs al n → Yields (· = .poolEmpty)
    (fun r => (∃ e, r = (.error e, g.pmm)) ∨ ∃ a, r.1 = .ok a ∧
      a % (BASIC_PAGE_SIZE * max al n) = 0 ∧ pagesFrom a n ⊆ g.pmm.freePages ∧
      r.2.freePages = g.pmm.freePages \ pagesFrom a n) (g.pmm.allocate m al n)
  allocateAt : ∀ addr n, AllocateAtArgs n → Yields (· = .poolEmpty)
    (fun r => (∃ e, r = (.error e, g.pmm)) ∨ r.1 = .ok () ∧
      pagesFrom addr n ⊆ g.pmm.freePages ∧
      r.2.freePages = g.pmm.freePages \ pagesFrom addr n) (g.pmm.allocateAt m addr n)
  free : ∀ addr n, FreeArgs g addr n → Yields (· = .poolEmpty)
    (fun r => r.1 = .ok () ∧ r.2.freePages = g.pmm.freePages ∪ pagesFrom addr n)
    (g.pmm.free m addr n)
  region : ∀ p n, Disjoint (Set.Ico p (p + n)) g.managed → p + n ≤ T → Yields (· = .poolEmpty)
    (fun s => s.freePages = g.pmm.freePages ∪ Set.Ico p (p + n))
    (g.pmm.breakIntoBucketsNFree m (p * BASIC_PAGE_SIZE) n)

namespace Sound

theorem addr_aligned (hg : Sound T g₀ g) {i : ℕ} {a : PhysAddr} (ha : a ∈ g.pmm.addrs i) :
    a % (2 ^ i * BASIC_PAGE_SIZE) = 0 := by
  obtain ⟨k, rfl⟩ := hg.inv.aligned i a ha
  rw [Nat.mul_comm, blockAddr_mod]

theorem blocks_disjoint (hg : Sound T g₀ g) {i j x y : ℕ} {a b : PhysAddr}
    (ha : (g.pmm.addrs i)[x]? = some a) (hb : (g.pmm.addrs j)[y]? = some b)
    (hne : (i, x) ≠ (j, y)) : Disjoint (pagesFrom a (2 ^ i)) (pagesFrom b (2 ^ j)) := by
  obtain ⟨k, rfl⟩ := hg.inv.aligned i a (List.mem_of_getElem? ha)
  obtain ⟨l, rfl⟩ := hg.inv.aligned j b (List.mem_of_getElem? hb)
  rw [pagesFrom_blockAddr, pagesFrom_blockAddr, Set.disjoint_left]
  intro p hp hq
  have hk : k ∈ g.pmm.blocks i := List.mem_of_getElem? ha
  have hl : l ∈ g.pmm.blocks j := List.mem_of_getElem? hb
  have hij : i = j := by
    refine hg.inv.tiling.disjoint p i j ?_ ?_
    · rw [mem_points.mp hp]
      exact hk
    · rw [mem_points.mp hq]
      exact hl
  subst hij
  -- One block of one zone: a position is determined by its address.
  have hkl : k = l := (mem_points.mp hp).symm.trans (mem_points.mp hq)
  subst hkl
  obtain ⟨hx, hxa⟩ := List.getElem?_eq_some_iff.mp ha
  obtain ⟨hy, hyb⟩ := List.getElem?_eq_some_iff.mp hb
  have := (hg.inv.nodup i).getElem_inj_iff.mp (hxa.trans hyb.symm)
  exact hne (by rw [this])

theorem buddy_notMem (hg : Sound T g₀ g) {i : ℕ} {a b : PhysAddr} (ha : a ∈ g.pmm.addrs i)
    (hb : b ∈ g.pmm.addrs i) : getBuddyAddr m a i ≠ .ok b := by
  obtain ⟨k, rfl⟩ := hg.inv.aligned i a ha
  have hlt := lt_of_mem_blocks (mem_blocks.mpr ha)
  have hlen := hg.inv.zones_le
  rw [getBuddyAddr_spec (by omega) (hg.inv.end_le ha)]
  intro h
  have hsib : blockAddr i (sibling k) = b := Except.ok.inj h
  rw [← hsib] at hb
  exact hg.inv.tiling.merged i k (mem_blocks.mpr ha) (mem_blocks.mpr hb)

theorem freePages_eq (hg : Sound T g₀ g) :
    g.pmm.freePages = {p | ∃ i, ∃ a ∈ g.pmm.addrs i, p ∈ pagesFrom a (2 ^ i)} := by
  ext p
  constructor
  · rintro ⟨i, hi⟩
    refine ⟨i, _, hi, ?_⟩
    rw [pagesFrom_blockAddr]
    exact mem_points.mpr rfl
  · rintro ⟨i, a, ha, hp⟩
    obtain ⟨k, rfl⟩ := hg.inv.aligned i a ha
    rw [pagesFrom_blockAddr] at hp
    exact points_subset_cover (mem_blocks.mpr ha) hp

theorem allocate_yields (hg : Sound T g₀ g) (h : AllocateArgs al n) : Yields (· = .poolEmpty)
    (fun r => (∃ e, r = (.error e, g.pmm)) ∨ ∃ a, r.1 = .ok a ∧
      a % (BASIC_PAGE_SIZE * max al n) = 0 ∧ pagesFrom a n ⊆ g.pmm.freePages ∧
      r.2.freePages = g.pmm.freePages \ pagesFrom a n) (g.pmm.allocate m al n) := by
  obtain ⟨f, e, rfl, rfl, hf, he⟩ := h.exists_orders
  refine (allocate_spec hg.inv hf).mono (fun p hp => hp.choose_spec.2.1) ?_
  intro r hr
  cases hr with
  | tooBig => exact Or.inl ⟨_, rfl⟩
  | none => exact Or.inl ⟨_, rfl⟩
  | some c s hal hfree hfrees =>
      refine Or.inr ⟨_, rfl, ?_, ?_, ?_⟩
      · rcases Nat.le_total (2 ^ f) (2 ^ e) with hle | hle
        · rw [max_eq_right hle, blockAddr_mod]
        · rw [max_eq_left hle, blockAddr_mod_eq_zero_iff]
          exact hal
      · rw [pagesFrom_blockAddr]
        exact hfree
      · rw [pagesFrom_blockAddr]
        exact hfrees.free

theorem allocateAt_yields (hg : Sound T g₀ g) (h : AllocateAtArgs n) : Yields (· = .poolEmpty)
    (fun r => (∃ e, r = (.error e, g.pmm)) ∨ r.1 = .ok () ∧
      pagesFrom addr n ⊆ g.pmm.freePages ∧
      r.2.freePages = g.pmm.freePages \ pagesFrom addr n) (g.pmm.allocateAt m addr n) := by
  obtain ⟨e, rfl, he⟩ := h.exists_order
  refine (allocateAt_spec hg.inv).mono (fun p hp => hp.choose_spec.2.1) ?_
  intro r hr
  cases hr with
  | tooBig => exact Or.inl ⟨_, rfl⟩
  | misaligned => exact Or.inl ⟨_, rfl⟩
  | none => exact Or.inl ⟨_, rfl⟩
  | some c s haddr hfree hfrees =>
      rw [haddr, pagesFrom_blockAddr]
      exact Or.inr ⟨rfl, hfree, hfrees.free⟩

theorem free_yields (hg : Sound T g₀ g) (h : FreeArgs g addr n) : Yields (· = .poolEmpty)
    (fun r => r.1 = .ok () ∧ r.2.freePages = g.pmm.freePages ∪ pagesFrom addr n)
    (g.pmm.free m addr n) := by
  obtain ⟨e, c, rfl, rfl, -, hd, hb⟩ := h.exists_block hg
  rw [pagesFrom_blockAddr]
  exact (free_spec hg.inv hd hb).mono (fun p hp => hp.1) fun r hr => ⟨hr.1, hr.2.free⟩

end Sound

/-- **The run invariant of the buddy allocator.**  In every state that a run can
reach, in either overflow mode: the zones are aligned, disjoint and fully merged, the
record partitions the managed pages, all nodes are still there, and every call does
exactly what was asked. -/
theorem reachable_guarantees (hz : z ≤ 51) (hT : T < 2 ^ z)
    (h : Reachable m T (Client.start z pool) g) : Guarantees m T pool.length g := by
  have hg := h.sound hz hT
  exact
    { aligned := fun _ _ => hg.addr_aligned
      disjoint := fun _ _ _ _ _ _ => hg.blocks_disjoint
      merged := fun _ _ ha _ => hg.buddy_notMem ha
      free_eq := hg.freePages_eq
      partition := hg.partition
      partition_disjoint := hg.disjoint
      nodes_eq := by rw [hg.keeps.nodeCount_eq, nodeCount_start]
      allocate := fun _ _ => hg.allocate_yields
      allocateAt := fun _ _ => hg.allocateAt_yields
      free := fun _ _ => hg.free_yields
      region := fun p n hnew hT' =>
        (breakIntoBucketsNFree_spec hg.inv (hg.region_disjoint hnew) hT').mono
          (fun _ hx => hx.choose_spec.2.1) fun _ hs => hs.free }

/-- A small allocator: pages 0 and 1, then page 0 handed out. -/
def smallPool : List Node := [⟨0, 0⟩, ⟨24, 0⟩, ⟨48, 0⟩]

def smallPmm : BuddyAllocator := ⟨[[⟨48, 4096⟩], []], [⟨0, 0⟩, ⟨24, 0⟩]⟩

def smallClient : Client := ⟨smallPmm, ∅ ∪ Set.Ico 0 (0 + 2), ∅ ∪ pagesFrom 0 1⟩

theorem onePage_args : AllocateArgs 1 1 := ⟨⟨0, rfl⟩, by decide, ⟨0, rfl⟩, by decide⟩

theorem small_reachable : Reachable .checked 3 (Client.start 2 smallPool) smallClient := by
  refine .step (.step .start (.region 0 2 (by simp [Client.start]) (by omega)
    (s := ⟨[[], [⟨48, 0⟩]], [⟨0, 0⟩, ⟨24, 0⟩]⟩) (by decide))) ?_
  exact .call (.request (.allocate onePage_args (by decide)))

theorem small_guarantees : Guarantees .checked 3 smallPool.length smallClient :=
  reachable_guarantees (by omega) (by omega) small_reachable

/-! ## Double frees

`free` refuses a range when one held block of at least its size is around its first
page.  A range that is only partly free lies in smaller blocks, which the scan does
not look at. -/

/-- A count whose size in bytes leaves 64 bits aborts. -/
theorem free_of_size_overflow (s : BuddyAllocator) (addr : PhysAddr) (he : 52 ≤ e) :
    ∃ p, s.free m addr (2 ^ e) = .error p := by
  obtain ⟨p, hp⟩ := rem_of_not_sizable (m := m) (not_sizable_two_pow he)
  refine ⟨p, ?_⟩
  rw [free, isPageFree, if_neg (Nat.two_pow_pos e).ne', if_neg (Nat.two_pow_pos e).ne', hp,
    error_bind]

/-- **Which double frees are reported.**  Given an aligned range with at least one
free page, `free` reports it and changes nothing exactly when all its pages are
free. -/
theorem free_reports_double_free_iff (hz : z ≤ 51) (hT : T < 2 ^ z)
    (h : Reachable m T (Client.start z pool) g) (hn : IsPow2 n)
    (haddr : addr % (BASIC_PAGE_SIZE * n) = 0)
    (hsome : ∃ p ∈ pagesFrom addr n, p ∈ g.pmm.freePages) :
    g.pmm.free m addr n = .ok (.error .freeOfAlreadyFree, g.pmm) ↔
      pagesFrom addr n ⊆ g.pmm.freePages := by
  have hI := (h.sound hz hT).inv
  obtain ⟨e, rfl⟩ := hn
  obtain ⟨c, rfl⟩ := exists_blockAddr_of_mod haddr
  rw [pagesFrom_blockAddr]
  rcases Nat.lt_or_ge e 52 with he | he
  · by_cases hsub : points e c ⊆ g.pmm.freePages
    · simp [free_of_subset hI he hsub, hsub]
    · rw [free_eq_coalesce hI he hsub]
      refine iff_of_false ?_ hsub
      intro hrun
      obtain ⟨s, -, hs⟩ := bind_eq_ok.mp hrun
      cases hs
  · obtain ⟨p, hp⟩ := free_of_size_overflow (m := m) g.pmm (blockAddr e c) he
    refine iff_of_false (by simp [hp]) fun hsub => ?_
    have hend := (block_end_le fun p hp => hI.bounded p (hsub hp)).trans hI.bound_le
    have hpow : 2 ^ 52 ≤ 2 ^ e := Nat.pow_le_pow_right (by omega) he
    omega

theorem small_free_reports :
    smallPmm.free .checked 4096 1 = .ok (.error .freeOfAlreadyFree, smallPmm) := by
  refine (free_reports_double_free_iff (by omega) (by omega) small_reachable ⟨0, rfl⟩
    (by decide) ⟨1, by decide, 0, by decide⟩).mpr ?_
  intro p hp
  have hp1 : p = 1 := by
    have hdiv : 4096 / BASIC_PAGE_SIZE = 1 := by decide
    simp only [pagesFrom, pow_zero, hdiv, Set.mem_Ico] at hp
    omega
  exact ⟨0, by subst hp1; decide⟩

/-- **A double free that is not reported.**  Page 1 of the range is free, and freeing
the whole range succeeds; afterwards page 1 lies in two blocks. -/
theorem double_free_unreported :
    Reachable .checked 3 (Client.start 2 smallPool) smallClient ∧
      IsPow2 2 ∧ 0 % (BASIC_PAGE_SIZE * 2) = 0 ∧
      (∃ p ∈ pagesFrom 0 2, p ∈ smallClient.pmm.freePages) ∧
      smallClient.pmm.free .checked 0 2 =
        .ok (.ok (), ⟨[[⟨48, 4096⟩], [⟨24, 0⟩]], [⟨0, 0⟩]⟩) ∧
      smallClient.pmm.free .checked 0 2 ≠ .ok (.error .freeOfAlreadyFree, smallClient.pmm) := by
  exact ⟨small_reachable, ⟨1, rfl⟩, by decide, ⟨1, by decide, 0, by decide⟩, by decide, by decide⟩

end Funderberker

import Funderberker.Slab.Spec
import Mathlib.Logic.Relation

/-!
# Runs of the slab allocator

A run starts from an empty allocator and consists of `allocate`, `free` and `reap`, in
any order and with any pointer passed to `free`.  The record `live` of a run holds what
was returned and not freed since.

## Main definitions

* `SlabClient`, `SlabStep`, `SlabReachable` — runs.
* `SlabSound` — the run invariant.
* `SlabGuarantees` — what holds in a state, for its slabs and for the next call.

## Main results

* `slab_guarantees` — every reachable state has the guarantees.
-/

namespace Funderberker

open Panicking

variable {m : Overflow} {layout : Layout} {a b ptr : ℕ} {s : Slab}

/-! ## Runs -/

open InternalSlabAllocator

/-- An allocator together with the pointers that were returned and not freed since. -/
structure SlabClient where
  alloc : InternalSlabAllocator
  live : Set ℕ

/-- One call.  Pages are fresh or refused, and pages given back are taken. -/
inductive SlabStep (m : Overflow) (c : SlabClient) : SlabClient → Prop
  | allocate {pages : Except PagingError ℕ} (hp : FreshPage c.alloc.buffers pages) {ptr : ℕ}
      {al : InternalSlabAllocator} (h : c.alloc.allocate m pages = .ok (.ok ptr, al)) :
      SlabStep m c ⟨al, insert ptr c.live⟩
  | allocateErr {pages : Except PagingError ℕ} (hp : FreshPage c.alloc.buffers pages) {e : SlabError}
      {al : InternalSlabAllocator} (h : c.alloc.allocate m pages = .ok (.error e, al)) :
      SlabStep m c ⟨al, c.live⟩
  | free {ptr : ℕ} {al : InternalSlabAllocator} (h : c.alloc.free ptr = (.ok (), al)) :
      SlabStep m c ⟨al, c.live \ {ptr}⟩
  | freeErr {ptr : ℕ} {e : SlabError} {al : InternalSlabAllocator}
      (h : c.alloc.free ptr = (.error e, al)) : SlabStep m c ⟨al, c.live⟩
  | reap {freePages : ℕ → ℕ → Except PagingError Unit} (hfree : ∀ p n, freePages p n = .ok ())
      {n : ℕ} {al : InternalSlabAllocator} (h : c.alloc.reap m freePages = .ok (n, al)) :
      SlabStep m c ⟨al, c.live⟩

/-- The states that a run can reach from an empty allocator. -/
def SlabReachable (m : Overflow) (layout : Layout) : SlabClient → Prop :=
  Relation.ReflTransGen (SlabStep m) ⟨.new layout, ∅⟩

/-- The run invariant. -/
structure SlabSound (c : SlabClient) : Prop where
  inv : c.alloc.Inv
  live_eq : c.live = c.alloc.live

variable {c c' : SlabClient}

/-- What `free` answers, and what it changes. -/
theorem SlabSound.free_cases (h : SlabSound c) (ptr : ℕ) :
    (ptr ∈ c.live ∧ ∃ al, c.alloc.free ptr = (.ok (), al) ∧ al.Inv ∧
      al.live = c.alloc.live \ {ptr}) ∨
    (ptr ∈ c.alloc.slots ∧ ptr ∉ c.live ∧ c.alloc.free ptr = (.error .doubleFree, c.alloc)) ∨
    (ptr ∉ c.alloc.slots ∧ ptr ∉ c.live ∧ c.alloc.free ptr = (.error .badPtrRange, c.alloc)) := by
  rw [h.live_eq]
  by_cases hlive : ptr ∈ c.alloc.live
  · obtain ⟨al, hrun, hI, -, -, hl⟩ := free_live h.inv hlive
    exact Or.inl ⟨hlive, al, hrun, hI, hl⟩
  by_cases hslot : ptr ∈ c.alloc.slots
  · exact Or.inr (Or.inl ⟨hslot, hlive, free_of_free h.inv hslot hlive⟩)
  · exact Or.inr (Or.inr ⟨hslot, hlive, free_of_not_slot h.inv hslot⟩)

theorem SlabSound.step (h : SlabSound c) (hstep : SlabStep m c c') : SlabSound c' := by
  cases hstep with
  | allocate hp hrun =>
      obtain ⟨r, al', hrun', hal⟩ := allocate_spec (m := m) h.inv hp
      obtain ⟨rfl, rfl⟩ := Prod.mk.inj (Except.ok.inj (hrun'.symm.trans hrun))
      refine ⟨hal.inv, ?_⟩
      simp only [(hal.of_ok _ rfl).2.2, h.live_eq]
  | allocateErr hp hrun =>
      obtain ⟨r, al', hrun', hal⟩ := allocate_spec (m := m) h.inv hp
      obtain ⟨rfl, rfl⟩ := Prod.mk.inj (Except.ok.inj (hrun'.symm.trans hrun))
      exact ⟨hal.inv, h.live_eq.trans (hal.of_error _ rfl).symm⟩
  | @free ptr al hrun =>
      rcases h.free_cases ptr with ⟨-, al', hrun', hI, hl⟩ | ⟨-, -, hrun'⟩ | ⟨-, -, hrun'⟩
      · obtain ⟨-, rfl⟩ := Prod.mk.inj (hrun'.symm.trans hrun)
        refine ⟨hI, ?_⟩
        simp only [hl, h.live_eq]
      · cases (Prod.mk.inj (hrun'.symm.trans hrun)).1
      · cases (Prod.mk.inj (hrun'.symm.trans hrun)).1
  | @freeErr ptr e al hrun =>
      rcases h.free_cases ptr with ⟨-, al', hrun', hI, hl⟩ | ⟨-, -, hrun'⟩ | ⟨-, -, hrun'⟩
      · cases (Prod.mk.inj (hrun'.symm.trans hrun)).1
      · rw [← (Prod.mk.inj (hrun'.symm.trans hrun)).2]
        exact h
      · rw [← (Prod.mk.inj (hrun'.symm.trans hrun)).2]
        exact h
  | reap hfree hrun =>
      obtain ⟨dropped, al', hrun', hI, -, -, -, hl⟩ := reap_spec (m := m) h.inv hfree
      obtain ⟨-, rfl⟩ := Prod.mk.inj (Except.ok.inj (hrun'.symm.trans hrun))
      exact ⟨hI, h.live_eq.trans hl.symm⟩

theorem SlabReachable.sound (hmul : (adjustLayout layout).size % (adjustLayout layout).align = 0)
    (h : SlabReachable m layout c) : SlabSound c := by
  induction h with
  | refl => exact ⟨inv_new hmul, (live_new layout).symm⟩
  | tail _ hstep ih => exact ih.step hstep

/-! ## What clients may rely on -/

/-- The slabs, the record, and the answers of the next call. -/
structure SlabGuarantees (m : Overflow) (c : SlabClient) : Prop where
  count : ∀ s ∈ c.alloc.slabs, s.allocatedCount + s.freeObjects.length = s.capacity
  nodup : ∀ s ∈ c.alloc.slabs, s.freeObjects.Nodup
  free_slots : ∀ s ∈ c.alloc.slabs, ∀ a ∈ s.freeObjects,
    ∃ k < s.capacity, a = s.buffer + k * c.alloc.layout.size
  /-- The live pointers are the objects that are not free. -/
  live_eq : c.live = {a | ∃ s ∈ c.alloc.slabs,
    (∃ k < s.capacity, a = s.buffer + k * c.alloc.layout.size) ∧ a ∉ s.freeObjects}
  live_disjoint : ∀ a ∈ c.live, ∀ b ∈ c.live, a ≠ b →
    a + c.alloc.layout.size ≤ b ∨ b + c.alloc.layout.size ≤ a
  metadata_disjoint : ∀ a ∈ c.live, ∀ s ∈ c.alloc.slabs,
    a + c.alloc.layout.size ≤ s.buffer + c.alloc.metadataOffset ∨
      s.buffer + c.alloc.metadataOffset + slabNode.size ≤ a
  /-- Allocating does not panic, and what it returns was not live. -/
  allocate : ∀ pages, FreshPage c.alloc.buffers pages →
    ∃ r al, c.alloc.allocate m pages = .ok (r, al) ∧ ∀ ptr, r = .ok ptr → ptr ∉ c.live
  free_ok : ∀ ptr, (c.alloc.free ptr).1 = .ok () ↔ ptr ∈ c.live
  free_double : ∀ ptr, (c.alloc.free ptr).1 = .error .doubleFree ↔
    ∃ s ∈ c.alloc.slabs, (∃ k < s.capacity, ptr = s.buffer + k * c.alloc.layout.size) ∧
      ptr ∈ s.freeObjects
  free_bad : ∀ ptr, (c.alloc.free ptr).1 = .error .badPtrRange ↔
    ¬ ∃ s ∈ c.alloc.slabs, ∃ k < s.capacity, ptr = s.buffer + k * c.alloc.layout.size
  free_err : ∀ ptr e, (c.alloc.free ptr).1 = .error e → (c.alloc.free ptr).2 = c.alloc
  /-- The counter that `free` decrements is positive. -/
  no_saturation : ∀ s ∈ c.alloc.slabs, ∀ ptr, s.containsPtr ptr c.alloc.layout →
    (s.free ptr c.alloc.layout).1 = .ok () → 0 < s.allocatedCount
  /-- Reaping drops slabs from the front, none of them with a live pointer in its page. -/
  reap : ∀ freePages, (∀ p n, freePages p n = .ok ()) → ∃ dropped al,
    c.alloc.reap m freePages = .ok (dropped.length, al) ∧ c.alloc.slabs = dropped ++ al.slabs ∧
      ∀ s ∈ dropped, ∀ a ∈ c.live,
        ¬ (s.buffer ≤ a ∧ a < s.buffer + c.alloc.pageCount * BASIC_PAGE_SIZE)

namespace SlabSound

theorem exists_slab (h : SlabSound c) (ha : a ∈ c.live) :
    ∃ s ∈ c.alloc.slabs, s.Inv c.alloc.layout ∧ a ∈ s.live c.alloc.layout := by
  rw [h.live_eq] at ha
  obtain ⟨s, hs, ha⟩ := ha
  exact ⟨s, hs, (h.inv.slabs s hs).1, ha⟩

/-- Live pointers do not overlap. -/
theorem live_disjoint (h : SlabSound c) (ha : a ∈ c.live) (hb : b ∈ c.live) (hne : a ≠ b) :
    a + c.alloc.layout.size ≤ b ∨ b + c.alloc.layout.size ≤ a := by
  obtain ⟨s, hs, hsI, has⟩ := h.exists_slab ha
  obtain ⟨t, ht, htI, hbt⟩ := h.exists_slab hb
  by_cases hst : s.buffer = t.buffer
  · have heq := List.inj_on_of_nodup_map h.inv.distinct hs ht hst
    subst heq
    exact Slab.slots_disjoint has.1 hbt.1 hne
  · have hsb := hsI.slot_bounds has.1
    have htb := htI.slot_bounds hbt.1
    have hsp := hsI.page
    have htp := htI.page
    simp only [BASIC_PAGE_SIZE] at hsb htb hsp htp
    omega

/-- A live pointer does not reach into the node of a slab. -/
theorem metadata_disjoint (h : SlabSound c) (ha : a ∈ c.live) (hs : s ∈ c.alloc.slabs) :
    a + c.alloc.layout.size ≤ s.buffer + c.alloc.metadataOffset ∨
      s.buffer + c.alloc.metadataOffset + slabNode.size ≤ a := by
  obtain ⟨t, ht, htI, hat⟩ := h.exists_slab ha
  obtain ⟨hsI, hcap⟩ := h.inv.slabs s hs
  obtain ⟨hlow, -, hhigh⟩ := h.inv.sized.nodeFits
  rw [h.inv.pageCount_eq] at hhigh
  by_cases hst : s.buffer = t.buffer
  · have heq := List.inj_on_of_nodup_map h.inv.distinct hs ht hst
    subst heq
    obtain ⟨k, hk, rfl⟩ := hat.1
    have hend := c.alloc.layout.object_end_le hk
    rw [hcap] at hend
    omega
  · have htb := htI.slot_bounds hat.1
    have hsp := hsI.page
    have htp := htI.page
    simp only [BASIC_PAGE_SIZE] at htb hsp htp hhigh
    omega

theorem no_saturation (h : SlabSound c) (hs : s ∈ c.alloc.slabs)
    (hin : s.containsPtr ptr c.alloc.layout) (hok : (s.free ptr c.alloc.layout).1 = .ok ()) :
    0 < s.allocatedCount := by
  have hsI := (h.inv.slabs s hs).1
  have hslot : ptr ∈ s.slots c.alloc.layout := by
    by_contra hnot
    rw [Slab.free_of_not_slot h.inv.size_pos hin hnot] at hok
    cases hok
  have hlive : ptr ∈ s.live c.alloc.layout := by
    refine ⟨hslot, fun hfree => ?_⟩
    rw [Slab.free_of_free h.inv.size_pos hslot hfree] at hok
    cases hok
  have hlt := hsI.length_lt hlive
  have hcount := hsI.count
  omega

/-- The page of a slab without objects in use holds no live pointer. -/
theorem not_in_page (h : SlabSound c) (hs : s ∈ c.alloc.slabs) (hempty : s.live c.alloc.layout = ∅)
    (ha : a ∈ c.live) : ¬ (s.buffer ≤ a ∧ a < s.buffer + c.alloc.pageCount * BASIC_PAGE_SIZE) := by
  obtain ⟨t, ht, htI, hat⟩ := h.exists_slab ha
  rw [h.inv.pageCount_eq]
  intro hin
  have hst : s.buffer = t.buffer := by
    have htb := htI.slot_bounds hat.1
    have hsp := (h.inv.slabs s hs).1.page
    have htp := htI.page
    simp only [BASIC_PAGE_SIZE, slabNode] at htb hsp htp hin
    omega
  have heq := List.inj_on_of_nodup_map h.inv.distinct hs ht hst
  subst heq
  rw [hempty] at hat
  exact hat

/-- The free objects are those that are not live. -/
theorem mem_free_iff (h : SlabSound c) (ptr : ℕ) :
    (∃ s ∈ c.alloc.slabs, ptr ∈ s.slots c.alloc.layout ∧ ptr ∈ s.freeObjects) ↔
      ptr ∈ c.alloc.slots ∧ ptr ∉ c.live := by
  rw [h.live_eq]
  constructor
  · rintro ⟨s, hs, hslot, hfree⟩
    refine ⟨⟨s, hs, hslot⟩, ?_⟩
    rintro ⟨t, ht, hslot', hnot⟩
    have heq := h.inv.slab_eq hs ht hslot hslot'
    subst heq
    exact hnot hfree
  · rintro ⟨⟨s, hs, hslot⟩, hnot⟩
    exact ⟨s, hs, hslot, by_contra fun hfree => hnot ⟨s, hs, hslot, hfree⟩⟩

theorem free_ok_iff (h : SlabSound c) (ptr : ℕ) :
    (c.alloc.free ptr).1 = .ok () ↔ ptr ∈ c.live := by
  rcases h.free_cases ptr with ⟨hl, al, hrun, -⟩ | ⟨-, hl, hrun⟩ | ⟨-, hl, hrun⟩
  · simp [hrun, hl]
  · simp [hrun, hl]
  · simp [hrun, hl]

theorem free_double_iff (h : SlabSound c) (ptr : ℕ) :
    (c.alloc.free ptr).1 = .error .doubleFree ↔ ptr ∈ c.alloc.slots ∧ ptr ∉ c.live := by
  rcases h.free_cases ptr with ⟨hl, al, hrun, -⟩ | ⟨hs, hl, hrun⟩ | ⟨hs, hl, hrun⟩
  · simp [hrun, hl]
  · simp [hrun, hs, hl]
  · simp [hrun, hs]

theorem free_bad_iff (h : SlabSound c) (ptr : ℕ) :
    (c.alloc.free ptr).1 = .error .badPtrRange ↔ ptr ∉ c.alloc.slots := by
  rcases h.free_cases ptr with ⟨hl, al, hrun, -⟩ | ⟨hs, hl, hrun⟩ | ⟨hs, hl, hrun⟩
  · rw [h.live_eq] at hl
    simp [hrun, mem_slots_of_live hl]
  · simp [hrun, hs]
  · simp [hrun, hs]

/-- A call that fails changes nothing. -/
theorem free_unchanged (h : SlabSound c) (ptr : ℕ) {e : SlabError}
    (he : (c.alloc.free ptr).1 = .error e) : (c.alloc.free ptr).2 = c.alloc := by
  rcases h.free_cases ptr with ⟨-, al, hrun, -⟩ | ⟨-, -, hrun⟩ | ⟨-, -, hrun⟩
  · rw [hrun] at he
    cases he
  · rw [hrun]
  · rw [hrun]

end SlabSound

/-- **The run invariant of the slab allocator.**  In every state that a run can reach:
counters, stacks and live pointers agree, live pointers overlap neither each other nor
the slabs' nodes, `free` answers exactly according to whether the pointer is live, free
or no object at all, and reaping releases no page that is in use. -/
theorem slab_guarantees (hmul : (adjustLayout layout).size % (adjustLayout layout).align = 0)
    (hc : SlabReachable m layout c) : SlabGuarantees m c := by
  have h := hc.sound hmul
  refine
    { count := fun s hs => (h.inv.slabs s hs).1.count
      nodup := fun s hs => (h.inv.slabs s hs).1.nodup
      free_slots := fun s hs => (h.inv.slabs s hs).1.free_slots
      live_eq := h.live_eq
      live_disjoint := fun a ha b hb => h.live_disjoint ha hb
      metadata_disjoint := fun a ha s hs => h.metadata_disjoint ha hs
      allocate := ?_
      free_ok := h.free_ok_iff
      free_double := fun ptr => (h.free_double_iff ptr).trans (h.mem_free_iff ptr).symm
      free_bad := h.free_bad_iff
      free_err := fun ptr e => h.free_unchanged ptr
      no_saturation := fun s hs ptr => h.no_saturation hs
      reap := ?_ }
  · intro pages hp
    obtain ⟨r, al, hrun, hal⟩ := allocate_spec (m := m) h.inv hp
    refine ⟨r, al, hrun, fun ptr hr => ?_⟩
    rw [h.live_eq]
    exact (hal.of_ok ptr hr).2.1
  · intro freePages hfree
    obtain ⟨dropped, al, hrun, -, -, hsplit, hdrop, -⟩ := reap_spec (m := m) h.inv hfree
    refine ⟨dropped, al, hrun, hsplit, fun s hs a ha => ?_⟩
    exact h.not_in_page (by simp [hsplit, hs]) (hdrop s hs) ha

/-- An allocator of 1024-byte objects with one of its three objects handed out. -/
def smallSlab : SlabClient :=
  ⟨⟨[⟨0x1000, [0x1400, 0x1000], 1, 3⟩], 1, 3, ⟨1024, 1024, by decide⟩⟩, insert 0x1800 ∅⟩

theorem smallSlab_reachable : SlabReachable .checked ⟨1024, 1024, by decide⟩ smallSlab := by
  let al := InternalSlabAllocator.new ⟨1024, 1024, by decide⟩
  have hfresh : FreshPage al.buffers (.ok 0x1000) := by decide
  have hrun : al.allocate .checked (.ok 0x1000) = .ok (.ok 0x1800, smallSlab.alloc) := by decide
  exact .tail .refl (.allocate hfresh hrun)

theorem small_slab_guarantees : SlabGuarantees .checked smallSlab :=
  slab_guarantees (by decide) smallSlab_reachable

end Funderberker

import Funderberker.Paging.BootTree
import Funderberker.Paging.Calls
import Funderberker.Paging.Encode
import Funderberker.Paging.Refine

/-!
# Translation and the walk of the processor

`translate` stops at the mark that the kernel sets in the entries of pages, and reports the
address in the entry.  The processor stops at the page-size bit, and adds the offset of the
address in its page.  In tables that only `map_pages` has changed, with the same flags in every
call and on ranges that do not overlap, both stop at the same word; so both know the same
addresses, and they agree on an address exactly when it is the first of its page.

The ranges of the calls are compared as the four levels see them: by the low 48 bits of the
addresses.  A call of no page goes down to the place of its first page all the same, so its range
is that page.

## Main definitions

* `TableCall.window` — the addresses that a call is about.
* `MapCalls` — the calls of such a run.
* `PageTable.mappedSize` — the size of the page that an address is on.

## Main results

* `translate_agrees_iff`
* `translate_disagrees` — an address inside a page.
-/

namespace Funderberker

open Panicking PageTable

/-! ## The addresses of a call -/

/-- The low bits of the addresses that a call is about. -/
def TableCall.window (c : TableCall) : Set ℕ :=
  (fun v => v % 2 ^ 48) '' Set.Ico c.baseAddr (c.baseAddr + max 1 c.pageCount * c.pageSize.size)

theorem TableCall.base_mem_window (c : TableCall) : c.baseAddr % 2 ^ 48 ∈ c.window := by
  refine ⟨c.baseAddr, ⟨Nat.le_refl _, ?_⟩, rfl⟩
  exact Nat.lt_add_of_pos_right (Nat.mul_pos (by omega) c.pageSize.size_pos)

/-- The low bits of an address behind the entry of page `l` of a call. -/
theorem mod_of_entryPath {base v l : ℕ} {s : PageSize} (hbase : base % s.size = 0)
    (hpre : parentPath base s ++ [nextLevelIndex base s.bottomPagingLevel + l] <+:
      pagePath v .size4kb) :
    (base + l * s.size + v % s.size) % 2 ^ 48 = v % 2 ^ 48 := by
  have hcore4kb : ∀ x y : ℕ, x % 0x1000 = 0 → x / 2 ^ 39 % 512 = y / 2 ^ 39 % 512 →
      x / 2 ^ 30 % 512 = y / 2 ^ 30 % 512 → x / 2 ^ 21 % 512 = y / 2 ^ 21 % 512 →
      x / 2 ^ 12 % 512 + l = y / 2 ^ 12 % 512 →
      (x + l * 0x1000 + y % 0x1000) % 2 ^ 48 = y % 2 ^ 48 := by
    intro x y hx h3 h2 h1 h0
    omega
  have hcore2mb : ∀ x y : ℕ, x % 0x200000 = 0 → x / 2 ^ 39 % 512 = y / 2 ^ 39 % 512 →
      x / 2 ^ 30 % 512 = y / 2 ^ 30 % 512 → x / 2 ^ 21 % 512 + l = y / 2 ^ 21 % 512 →
      (x + l * 0x200000 + y % 0x200000) % 2 ^ 48 = y % 2 ^ 48 := by
    intro x y hx h2 h1 h0
    omega
  have hcore1gb : ∀ x y : ℕ, x % 0x40000000 = 0 → x / 2 ^ 39 % 512 = y / 2 ^ 39 % 512 →
      x / 2 ^ 30 % 512 + l = y / 2 ^ 30 % 512 →
      (x + l * 0x40000000 + y % 0x40000000) % 2 ^ 48 = y % 2 ^ 48 := by
    intro x y hx h1 h0
    omega
  cases s with
  | size4kb =>
      simp [parentPath, pagePath, PageTable.path, PageSize.bottomPagingLevel, nextLevelIndex_eq]
        at hpre
      exact hcore4kb base v hbase hpre.1 hpre.2.1 hpre.2.2.1 hpre.2.2.2
  | size2mb =>
      simp [parentPath, pagePath, PageTable.path, PageSize.bottomPagingLevel, nextLevelIndex_eq]
        at hpre
      exact hcore2mb base v hbase hpre.1 hpre.2.1 hpre.2.2
  | size1gb =>
      simp [parentPath, pagePath, PageTable.path, PageSize.bottomPagingLevel, nextLevelIndex_eq]
        at hpre
      exact hcore1gb base v hbase hpre.1 hpre.2

/-- Only addresses of the range are behind the entries of a call. -/
theorem TableCall.mem_window {c : TableCall} {v l : ℕ}
    (hbase : c.baseAddr % c.pageSize.size = 0) (hl : l < c.reach)
    (hpre : c.entryPath l <+: pagePath v .size4kb) : v % 2 ^ 48 ∈ c.window := by
  refine ⟨c.baseAddr + l * c.pageSize.size + v % c.pageSize.size, ⟨?_, ?_⟩,
    mod_of_entryPath hbase hpre⟩
  · exact (Nat.le_add_right _ _).trans (Nat.le_add_right _ _)
  · have hlt : l < max 1 c.pageCount := by
      rw [reach] at hl
      omega
    calc
      c.baseAddr + l * c.pageSize.size + v % c.pageSize.size
          < c.baseAddr + l * c.pageSize.size + c.pageSize.size :=
        Nat.add_lt_add_left (Nat.mod_lt v c.pageSize.size_pos) _
      _ = c.baseAddr + (l + 1) * c.pageSize.size := by rw [Nat.add_assoc, Nat.succ_mul]
      _ ≤ c.baseAddr + max 1 c.pageCount * c.pageSize.size :=
        Nat.add_le_add_left (Nat.mul_le_mul_right _ hlt) _

/-! ## Runs of `map_pages` -/

/-- The size of the page that an address is on. -/
def PageTable.mappedSize (mem : PhysAddr → ℕ → Word) (r : PhysAddr) (v : VirtAddr) :
    Option PageSize :=
  (content mem r (pagePath v .size4kb)).bind fun x => PageSize.fromBottomPagingLevel x.1

theorem fromBottomPagingLevel_bottom (s : PageSize) :
    PageSize.fromBottomPagingLevel s.bottomPagingLevel = some s := by
  cases s <;> rfl

theorem eq_bottom_of_fromBottom {k : ℕ} {s : PageSize}
    (h : PageSize.fromBottomPagingLevel k = some s) : k = s.bottomPagingLevel := by
  unfold PageSize.fromBottomPagingLevel at h
  split at h
  · cases h
    rfl
  · cases h
    rfl
  · cases h
    rfl
  · cases h

/-- Every word of the content is that of a page. -/
theorem PageTable.Sized.content_eq_none {W : ℕ → Word → Prop} {mem : PhysAddr → ℕ → Word}
    {r : PhysAddr} {v : VirtAddr} (hG : Grammar W) (hI : Sized W mem r)
    (h : mappedSize mem r v = none) : content mem r (pagePath v .size4kb) = none := by
  cases hcontent : content mem r (pagePath v .size4kb) with
  | none => rfl
  | some x =>
      have hlevel := (hI.of_content hG (length_pagePath v .size4kb) hcontent).1
      obtain ⟨s, hs⟩ := exists_bottomPagingLevel hlevel
      rw [mappedSize, hcontent, Option.bind_some, hs, fromBottomPagingLevel_bottom] at h
      cases h

section

variable {σ : Type} {r : PhysAddr} {w₀ w : World σ} {respects : Set PhysAddr → σ → Prop}
  {log : List TableCall} {c : TableCall}

/-- Calls of `map_pages` for reading and writing, to physical addresses of 52 bits, on a range
that overlaps none before it. -/
inductive MapCalls (log : List TableCall) (w : World σ) : TableCall → Prop
  | map {baseAddr : VirtAddr} {physAddr : PhysAddr} {pageCount : ℕ} {pageSize : PageSize}
      (hphys : physAddr + pageCount * pageSize.size ≤ 2 ^ 52)
      (hdis : ∀ c ∈ log,
        Disjoint (TableCall.map baseAddr physAddr pageCount pageSize bootFlags).window c.window) :
      MapCalls log w (.map baseAddr physAddr pageCount pageSize bootFlags)

theorem MapCalls.admits (hc : MapCalls log w c) : c.Admits BootWord := by
  cases hc with
  | @map baseAddr physAddr pageCount pageSize hphys hdis =>
      intro hmod l hl e he habsent
      obtain ⟨haddr, hlt⟩ := addrAt_eq hphys hl
      have hal := addrAt_mod hmod l
      rw [absentEmpty_bootWord _ _ he habsent, Entry.mapped_empty hal]
      rw [haddr] at hal ⊢
      exact .page hal hlt

/-- Whatever is mapped is in the range of a call. -/
def Covered (log : List TableCall) (r : PhysAddr) (w : World σ) : Prop :=
  ∀ v, content w.mem r (pagePath v .size4kb) ≠ none → ∃ c ∈ log, v % 2 ^ 48 ∈ c.window

/-- A range that overlaps no other is reached through no page. -/
theorem MapCalls.clear (hI : SizedInv BootWord respects r w) (hcovered : Covered log r w)
    (hc : MapCalls log w c) : c.Clear w.mem r := by
  cases hc with
  | @map baseAddr physAddr pageCount pageSize hphys hdis =>
      intro _
      have hblank : content w.mem r (pagePath baseAddr .size4kb) = none := by
        by_contra hsome
        obtain ⟨c, hmem, hwindow⟩ := hcovered baseAddr hsome
        exact Set.disjoint_left.mp (hdis c hmem) (TableCall.base_mem_window _) hwindow
      obtain ⟨rest, hrest⟩ := (List.prefix_append (parentPath baseAddr pageSize) _).trans
        (pagePath_begins baseAddr pageSize)
      rw [← hrest] at hblank
      refine hI.sized.passes (p := []) grammar_bootWord (fun level e _ he habsent => ?_) (by simp)
        rfl hblank
      rw [absentEmpty_bootWord _ _ he habsent]
      exact Entry.unused_zero

/-- Mapped words give their address back. -/
theorem getAddr_pageWord {s : PageSize} {a : PhysAddr} (ha : a % s.size = 0) (hlt : a < 2 ^ 52) :
    Entry.getAddr (pageWord a s) s = .ok a := by
  have hword : pageWord a s = Entry.pageEntry a bootFlags s := by
    rw [← Entry.mapped_empty ha, Entry.mapped, if_pos (joins_bootFlags s), Entry.pageEntry]
  have hflags : ∀ i, 12 ≤ i → bootFlags.getLsbD i = false := by
    intro i hi
    rw [bootFlags, Flags.setReadWrite, Flags.FLAG_RW, Flags.getLsbD_set (by omega),
      if_neg (by omega)]
    exact BitVec.getLsbD_zero
  rw [hword, Entry.getAddr_pageEntry ha hlt hflags]

/-- What both make of an address, in tables of boot words. -/
theorem PageTable.Sized.readings {mem : PhysAddr → ℕ → Word} (hI : Sized BootWord mem r)
    {v : VirtAddr} (hv : Canonical v) :
    (mappedSize mem r v = none ∧ translate mem r v = .ok none ∧ pageWalk mem r v = none) ∨
    ∃ s a, mappedSize mem r v = some s ∧ translate mem r v = .ok (some a) ∧
      pageWalk mem r v = some (a + v % s.size) := by
  rw [mappedSize, hI.translate_eq grammar_bootWord, hI.pageWalk_eq grammar_bootWord
    marksLarge_bootWord hv]
  cases hcontent : content mem r (pagePath v .size4kb) with
  | none => exact Or.inl ⟨rfl, rfl, rfl⟩
  | some x =>
      obtain ⟨level, e⟩ := x
      obtain ⟨-, hword, hpres, hlast⟩ := hI.of_content grammar_bootWord
        (length_pagePath v .size4kb) hcontent
      rcases hword.eq_of with hzero | ⟨a, htable, ha, -⟩ | ⟨s, a, hpage, ha, hlt, hlevel⟩
      · rw [hzero] at hpres
        cases hpres
      · rw [htable, Entry.last_tableEntry ha] at hlast
        cases hlast
      · dsimp only at hpage hlevel
        subst hpage hlevel
        refine Or.inr ⟨s, a, fromBottomPagingLevel_bottom s, ?_, ?_⟩
        · rw [reported, fromBottomPagingLevel_bottom, Option.elim_some, getAddr_pageWord ha hlt]
          rfl
        · rw [Option.map_some, translated, addressField_pageWord ha hlt, ← PageSize.size_eq]

variable [PmmAllocator σ] {m : Overflow} {bound : ℕ}

/-- **Every run of `map_pages`.** -/
theorem CallsReach.covered (law : Supplies σ m bound respects) (hbound : bound ≤ 2 ^ 52)
    (hzero : ∀ i, w₀.mem r i = 0) (hU : respects {r} w₀.pmm)
    (h : CallsReach m r w₀ MapCalls log w) :
    SizedInv BootWord respects r w ∧ Covered log r w := by
  induction h with
  | start =>
      refine ⟨⟨sized_of_zero grammar_bootWord hzero, tables_of_zero hzero ▸ hU⟩, fun v hv => ?_⟩
      exact absurd (content_of_zero hzero (by simp [pagePath])) hv
  | @step log w w' c res _ hc hrun ih =>
      obtain ⟨hI, hcovered⟩ := ih
      obtain ⟨hI', j, hj, haffects, hres⟩ := (TableCall.run_spec grammar_bootWord law hbound hI
        (hc.clear hI hcovered) hc.admits).post hrun
      refine ⟨hI', fun v hv => ?_⟩
      by_cases hpre : ∃ l < j, c.entryPath l <+: pagePath v .size4kb
      · obtain ⟨l, hl, hpre⟩ := hpre
        have hbase : c.baseAddr % c.pageSize.size = 0 := by
          rcases hres with ⟨-, halign, -⟩ | ⟨-, halign, -⟩ | ⟨-, -, hzero⟩
          · exact halign.base
          · exact halign.base
          · omega
        exact ⟨c, List.mem_cons_self, TableCall.mem_window hbase (by omega) hpre⟩
      · push Not at hpre
        rw [haffects.same _ (length_pagePath v .size4kb) hpre] at hv
        obtain ⟨c', hmem, hwindow⟩ := hcovered v hv
        exact ⟨c', List.mem_cons_of_mem c hmem, hwindow⟩

/-- **When translation agrees with the processor.**  In every table that calls of `map_pages` on
ranges that do not overlap have made, and for every canonical address: both know the address or
neither does, and they agree on it exactly when it is on no page or the first of its page. -/
theorem translate_agrees_iff (law : Supplies σ m bound respects) (hbound : bound ≤ 2 ^ 52)
    (hzero : ∀ i, w₀.mem r i = 0) (hU : respects {r} w₀.pmm)
    (h : CallsReach m r w₀ MapCalls log w) {v : VirtAddr} (hv : Canonical v) :
    (translate w.mem r v = .ok none ↔ pageWalk w.mem r v = none) ∧
    (translate w.mem r v = .ok (pageWalk w.mem r v) ↔
      ∀ s, mappedSize w.mem r v = some s → v % s.size = 0) := by
  obtain ⟨hI, -⟩ := h.covered law hbound hzero hU
  rcases hI.sized.readings hv with ⟨hsize, htrans, hwalk⟩ | ⟨s, a, hsize, htrans, hwalk⟩
  · rw [hsize, htrans, hwalk]
    exact ⟨by simp, fun _ _ hs => by simp at hs, fun _ => rfl⟩
  · rw [hsize, htrans, hwalk]
    refine ⟨by simp, fun heq s' hs => ?_, fun halign => ?_⟩
    · obtain rfl := Option.some.inj hs
      have heq := Option.some.inj (Except.ok.inj heq)
      exact Nat.left_eq_add.mp heq
    · rw [halign s rfl, Nat.add_zero]

end

/-- Two basic pages, mapped in one call. -/
theorem smallMap_maps : CallsReach .checked 0x1000 smallWorld MapCalls
    [.map 0x3000 0x7000 2 .size4kb bootFlags] smallMapped := by
  have hrun : (TableCall.map 0x3000 0x7000 2 .size4kb bootFlags).run .checked 0x1000 smallWorld =
      .ok (.ok (), smallMapped) := eq_ok_stateAfter smallWorld (by decide)
  exact .step .start (.map (by decide) (by simp)) hrun

theorem small_translate_agrees :
    translate smallMapped.mem 0x1000 0x4000 = .ok (pageWalk smallMapped.mem 0x1000 0x4000) := by
  refine (translate_agrees_iff (BuddyAllocator.supplies .checked
    smallSupply_frees.inv.bound_le_word) (by decide) (fun _ => rfl) smallSupply_respects
    smallMap_maps (v := 0x4000) (Or.inl (by decide))).2.mpr ?_
  intro s hs
  obtain rfl : PageSize.size4kb = s := Option.some.inj ((by decide : some PageSize.size4kb =
    mappedSize smallMapped.mem 0x1000 0x4000).trans hs)
  decide

/-- **An address inside a page.**  The processor adds the offset, translation does not. -/
theorem translate_disagrees :
    CallsReach .checked 0x1000 smallWorld MapCalls
      [.map 0x3000 0x7000 2 .size4kb bootFlags] smallMapped ∧
    Canonical 0x4008 ∧ translate smallMapped.mem 0x1000 0x4008 = .ok (some 0x8000) ∧
    pageWalk smallMapped.mem 0x1000 0x4008 = some 0x8008 :=
  ⟨smallMap_maps, Or.inl (by decide), by decide, by decide⟩

end Funderberker

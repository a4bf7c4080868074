import Funderberker.Paging.Agree
import Funderberker.Paging.Writes

/-!
# Mapping where a page was unmapped

`unmap_pages` only clears the present bit of an entry.  A page of the same size writes the whole
entry anew, so nothing of the old page is left.  A smaller page goes through the entry: it gets a
table under it, and `get_create_table_range` marks it present and writes the address of the
table, but keeps the marks of the old page.  The processor and `translate` then take the table
for a page.

## Main definitions

* `RemapWord` — the words of tables whose pages are mapped and unmapped.
* `PageTable.Unstale`, `PageTable.Renewed` — a page that is mapped as if for the first time.
* `PageTable.Grown` — what a word keeps when pages are mapped.

## Main results

* `remap_renews_iff`
* `remap_stale` — a basic page in a page of 2MB that was unmapped.
-/

namespace Funderberker

open Panicking PageTable

/-! ## Words -/

/-- The words that occur when pages are mapped for reading and writing, and unmapped. -/
def RemapWord (level : ℕ) (e : Word) : Prop :=
  BootWord level e ∨ ∃ s a, level = s.bottomPagingLevel ∧ a % s.size = 0 ∧ a < 2 ^ 52 ∧
    e = Entry.released (pageWord a s)

variable {s : PageSize} {a : PhysAddr} {e : Word} {i : ℕ}

theorem last_released_pageWord (ha : a % s.size = 0) :
    (Entry.released (pageWord a s)).getLsbD 10 = true := by
  rw [Entry.getLsbD_released, if_neg (by omega), last_pageWord (mod_basic ha)]

theorem absent_released (e : Word) : (Entry.released e).getLsbD 0 = false := by
  rw [Entry.getLsbD_released, if_pos rfl]

theorem grammar_remapWord : Grammar RemapWord where
  zero _ := Or.inl .empty
  table _ _ ha hlt := Or.inl (.table ha hlt)
  cases h := by
    rcases h with h | ⟨s, a, rfl, ha, -, rfl⟩
    · exact grammar_bootWord.cases h
    · exact Or.inr (Or.inr ⟨bottomPagingLevel_le s, last_released_pageWord ha⟩)

/-- A page that is mapped is one of boot. -/
theorem RemapWord.boot {level : ℕ} (h : RemapWord level e) (hpres : e.getLsbD 0 = true) :
    BootWord level e := by
  rcases h with h | ⟨s, a, -, -, -, rfl⟩
  · exact h
  · rw [absent_released] at hpres
    cases hpres

theorem marksLarge_remapWord : MarksLarge RemapWord := fun level e h hpres hlast =>
  marksLarge_bootWord level e (h.boot hpres) hpres hlast

/-- Only the bits between the flags and the address are kept from the old word. -/
theorem Entry.mapped_congr {flags : Flags} (hjoins : Entry.Joins flags s) (ha : a % s.size = 0)
    (he : ∀ i, 12 ≤ i → i < s.offsetBitCount → e.getLsbD i = false) :
    Entry.mapped e a flags s = Entry.mapped 0 a flags s := by
  rw [Entry.mapped, Entry.mapped, if_pos hjoins, if_pos hjoins]
  refine BitVec.eq_of_getLsbD_eq fun i hi => ?_
  rw [Entry.getLsbD_setFlags hi, Entry.getLsbD_setFlags hi, Entry.getLsbD_readdressed ha,
    Entry.getLsbD_readdressed ha]
  by_cases hlow : 12 ≤ i
  · by_cases hoff : i < s.offsetBitCount
    · rw [he i hlow hoff]
      simp
    · simp [hoff]
  · simp [hlow]

/-- A page of the same size leaves nothing of the old one. -/
theorem Entry.mapped_released {b : PhysAddr} (hb : b % s.size = 0) (ha : a % s.size = 0) :
    Entry.mapped (Entry.released (pageWord b s)) a bootFlags s = pageWord a s := by
  rw [Entry.mapped_congr (joins_bootFlags s) ha, Entry.mapped_empty ha]
  intro i hlow hoff
  rw [Entry.getLsbD_released, if_neg (by omega), pageWord, BitVec.getLsbD_or,
    getLsbD_ofNat_offset hb hoff, Bool.false_or, BitVec.getLsbD_ofNat]
  have hbits : (pageBits s).testBit i = false :=
    Nat.testBit_lt_two_pow ((pageBits_lt s).trans_le (Nat.pow_le_pow_right (by omega) hlow))
  rw [hbits, Bool.and_false]

theorem bottomPagingLevel_injective {s s' : PageSize}
    (h : s.bottomPagingLevel = s'.bottomPagingLevel) : s = s' := by
  cases s <;> cases s' <;> first | rfl | cases h

/-- An entry of the right level after mapping a page in it. -/
theorem mapped_remapWord (ha : a % s.size = 0) (he : RemapWord s.bottomPagingLevel e)
    (habsent : e.getLsbD 0 = false) : Entry.mapped e a bootFlags s = pageWord a s := by
  rcases he with he | ⟨s', b, hlevel, hb, -, rfl⟩
  · rw [absentEmpty_bootWord _ _ he habsent, Entry.mapped_empty ha]
  · obtain rfl := bottomPagingLevel_injective hlevel
    exact Entry.mapped_released hb ha

/-! ## Runs -/

/-- Calls that map pages for reading and writing, or unmap pages, and are clear. -/
inductive RemapCalls {σ : Type} (r : PhysAddr) (log : List TableCall) (w : World σ) :
    TableCall → Prop
  | map {baseAddr : VirtAddr} {physAddr : PhysAddr} {pageCount : ℕ} {pageSize : PageSize}
      (hphys : physAddr + pageCount * pageSize.size ≤ 2 ^ 52)
      (hclear : (TableCall.map baseAddr physAddr pageCount pageSize bootFlags).Clear w.mem r) :
      RemapCalls r log w (.map baseAddr physAddr pageCount pageSize bootFlags)
  | unmap {baseAddr : VirtAddr} {pageCount : ℕ} {pageSize : PageSize}
      (hclear : (TableCall.unmap baseAddr pageCount pageSize).Clear w.mem r) :
      RemapCalls r log w (.unmap baseAddr pageCount pageSize)

theorem pageWord_plain (ha : a % s.size = 0) : (pageWord a s).getLsbD 9 = false := by
  rw [pageWord, getLsbD_ofNat_or (mod_basic ha) (by omega)]
  cases s <;> rfl

theorem RemapCalls.admits {σ : Type} {r : PhysAddr} {log : List TableCall} {w : World σ}
    {c : TableCall} (hc : RemapCalls r log w c) : c.Clear w.mem r ∧ c.Admits RemapWord := by
  cases hc with
  | map hphys hclear =>
      refine ⟨hclear, fun hmod l hl e he habsent => Or.inl ?_⟩
      obtain ⟨haddr, hlt⟩ := addrAt_eq hphys hl
      have hal := addrAt_mod hmod l
      rw [mapped_remapWord hal he habsent]
      rw [haddr] at hal ⊢
      exact .page hal hlt
  | unmap hclear =>
      refine ⟨hclear, fun e he hpres hleaf => ?_⟩
      rcases (he.boot hpres).eq_of with rfl | ⟨b, rfl, hb, -⟩ | ⟨s, b, rfl, hb, hlt, hlevel⟩
      · cases hpres
      · exact absurd (pointsToTable_tableEntry hb) hleaf
      · exact ⟨pageWord_plain hb, Or.inr ⟨s, b, hlevel, hb, hlt, rfl⟩⟩

/-! ## What words keep -/

namespace PageTable

/-- A word that is present stays as it is, and one that is marked keeps the mark. -/
structure Grown (e e' : Word) : Prop where
  present : e.getLsbD 0 = true → e' = e
  last : e.getLsbD 10 = true → e'.getLsbD 10 = true

theorem Grown.refl (e : Word) : Grown e e := ⟨fun _ => rfl, id⟩

theorem Grown.trans {e e' e'' : Word} (h : Grown e e') (h' : Grown e' e'') : Grown e e'' where
  present hpres := by
    obtain rfl := h.present hpres
    exact h'.present hpres
  last hlast := h'.last (h.last hlast)

section

variable {σ : Type} {r : PhysAddr} {w w' : World σ} {respects : Set PhysAddr → σ → Prop}

/-- The words of the frames that the PMM respects. -/
def KeepsWords (respects : Set PhysAddr → σ → Prop) (w w' : World σ) : Prop :=
  ∀ U, respects U w.pmm → ∃ U', U ⊆ U' ∧ respects U' w'.pmm ∧
    ∀ u ∈ U, ∀ i, Grown (w.mem u i) (w'.mem u i)

theorem KeepsWords.refl (w : World σ) : KeepsWords respects w w := fun U hU =>
  ⟨U, subset_rfl, hU, fun _ _ _ => .refl _⟩

theorem KeepsWords.trans {w₁ w₂ w₃ : World σ} (h : KeepsWords respects w₁ w₂)
    (h' : KeepsWords respects w₂ w₃) : KeepsWords respects w₁ w₃ := by
  intro U hU
  obtain ⟨U₂, hsub, hU₂, hwords⟩ := h U hU
  obtain ⟨U₃, hsub', hU₃, hwords'⟩ := h' U₂ hU₂
  exact ⟨U₃, hsub.trans hsub', hU₃, fun u hu i => (hwords u hu i).trans (hwords' u (hsub hu) i)⟩

theorem keepsWords_write {t a : PhysAddr} {s : PageSize} {flags : Flags}
    (habsent : (w.mem t i).getLsbD 0 = false) (ha : a % s.size = 0) :
    KeepsWords respects w (w.write t i (Entry.mapped (w.mem t i) a flags s)) := by
  intro U hU
  refine ⟨U, subset_rfl, hU, fun u hu j => ?_⟩
  by_cases hslot : u = t ∧ j = i
  · obtain ⟨rfl, rfl⟩ := hslot
    refine ⟨fun hpres => ?_, fun hlast => ?_⟩
    · rw [habsent] at hpres
      cases hpres
    · rw [show (w.write u j _).mem u j = _ from if_pos ⟨rfl, rfl⟩]
      by_cases hjoins : Entry.Joins flags s
      · exact Entry.last_mapped hjoins
      · rw [Entry.getLsbD_mapped_of_not hjoins ha (by omega), hlast]
  · rw [show (w.write t i _).mem u j = _ from if_neg hslot]
    exact .refl _

variable [PmmAllocator σ] {m : Overflow} {bound : ℕ}

theorem keepsWords_create {t : PhysAddr} (law : Supplies σ m bound respects)
    (habsent : (w.mem t i).getLsbD 0 = false) (h : createNextLevel m t i w = .ok w') :
    KeepsWords respects w w' := by
  intro U hU
  obtain ⟨a, s, halloc, rfl, hcreation⟩ := createNextLevel_inv h
  obtain ⟨-, -, ha, hres⟩ := law.allocate hU halloc
  refine ⟨insert a U, Set.subset_insert a U, hres, fun u hu j => ?_⟩
  have hua : u ≠ a := by
    intro heq
    exact ha (heq ▸ hu)
  by_cases hslot : u = t ∧ j = i
  · obtain ⟨rfl, rfl⟩ := hslot
    refine ⟨fun hpres => ?_, fun hlast => ?_⟩
    · rw [habsent] at hpres
      cases hpres
    · rw [hcreation.entry hua, getLsbD_linked hcreation.aligned (by omega), hlast]
      simp
  · rw [hcreation.other u j hua fun hu hj => hslot ⟨hu, hj⟩]
    exact .refl _

/-- Mapping pages keeps the words of frames in use, whatever it meets. -/
theorem mapPages_keepsWords {baseAddr : VirtAddr} {physAddr : PhysAddr} {pageCount : ℕ}
    {s : PageSize} {flags : Flags} {res : Except PagingError Unit}
    (law : Supplies σ m bound respects)
    (h : mapPages m r w baseAddr physAddr pageCount s flags = .ok (res, w')) :
    KeepsWords respects w w' :=
  mapPages_rel .refl (fun _ _ _ => .trans) (fun _ _ _ _ => keepsWords_create law)
    (fun _ _ _ _ => keepsWords_write) h

end

/-! ## A page without leftovers -/

/-- Every word on the way is the word of a table and nothing more, and the last is `leaf`. -/
def Unstale (mem : PhysAddr → ℕ → Word) (addr : VirtAddr) (bottom : ℕ) (leaf : Word) :
    ℕ → PhysAddr → Prop
  | 0, t => mem t (nextLevelIndex addr bottom) = leaf
  | k + 1, t =>
      mem t (nextLevelIndex addr (bottom + (k + 1))) =
          Entry.tableEntry (Entry.frame (mem t (nextLevelIndex addr (bottom + (k + 1))))) ∧
        Unstale mem addr bottom leaf k
          (Entry.frame (mem t (nextLevelIndex addr (bottom + (k + 1)))))

/-- The page of size `s` at `p` is mapped to `a`, as if for the first time: the processor and
`translate` find it there, and no word on the way has a bit of another mapping. -/
structure Renewed (mem : PhysAddr → ℕ → Word) (r : PhysAddr) (p : VirtAddr) (a : PhysAddr)
    (s : PageSize) : Prop where
  walk : ∀ v, Canonical v → p ≤ v → v < p + s.size → pageWalk mem r v = some (a + (v - p))
  translate_eq : translate mem r p = .ok (some a)
  way : Unstale mem p s.bottomPagingLevel (pageWord a s) (3 - s.bottomPagingLevel) r

variable {mem mem' : PhysAddr → ℕ → Word} {r t : PhysAddr} {q : List ℕ} {addr : VirtAddr}
  {bottom k : ℕ} {leaf : Word} {W : ℕ → Word → Prop}

/-- A way through the tables of the invariant. -/
theorem Sized.unstale (hG : Grammar W) (hI : Sized W mem r) (hq : q.length + k ≤ 3) {u : PhysAddr}
    (hu : node mem r q = some u) (ht : node mem r (q ++ path addr bottom k) = some t)
    (hleaf : mem t (nextLevelIndex addr bottom) = leaf) : Unstale mem addr bottom leaf k u := by
  induction k generalizing q u with
  | zero =>
      rw [path, List.append_nil, hu] at ht
      obtain rfl := Option.some.inj ht
      exact hleaf
  | succ k ih =>
      rw [path] at ht
      rw [Unstale]
      obtain ⟨hpoints, hstep, ht⟩ := points_of_node hu ht
      set i := nextLevelIndex addr (bottom + (k + 1))
      have hentry : mem u i = Entry.tableEntry (Entry.frame (mem u i)) := by
        rcases hG.cases (hI.words q u i (by omega) hu) with hunused | ⟨a, htable, ha, hlt, -⟩ |
          ⟨-, hlast⟩
        · cases (hunused.getLsbD (show 0 < 12 by omega)).symm.trans hpoints.1
        · rw [htable, Entry.frame_tableEntry ha (hlt.trans (by norm_num))]
        · cases hlast.symm.trans hpoints.2
      exact ⟨hentry, ih (by simp; omega) hstep ht⟩

/-- A marked word on the way is stale. -/
theorem not_unstale {top : ℕ} {u : PhysAddr} (hq : q.length + k ≤ 3) (hu : node mem r q = some u)
    (ht : node mem r (q ++ path addr top k) = some t)
    (hgrown : ∀ u ∈ tables mem r, ∀ i, Grown (mem u i) (mem' u i))
    (hlast : (mem t (nextLevelIndex addr top)).getLsbD 10 = true) (htop : bottom < top) :
    ¬ Unstale mem' addr bottom leaf (k + (top - bottom)) u := by
  induction k generalizing q u with
  | zero =>
      rw [path, List.append_nil, hu] at ht
      obtain rfl := Option.some.inj ht
      obtain ⟨d, rfl⟩ : ∃ d, top = bottom + (d + 1) := ⟨top - bottom - 1, by omega⟩
      rw [show 0 + (bottom + (d + 1) - bottom) = d + 1 by omega]
      rintro ⟨hentry, -⟩
      have hmark := (hgrown u (mem_tables (by omega) hu) _).last hlast
      rw [hentry, Entry.last_tableEntry (Entry.frame_mod _)] at hmark
      cases hmark
  | succ k ih =>
      rw [path] at ht
      rw [show k + 1 + (top - bottom) = k + (top - bottom) + 1 by omega, Unstale,
        show bottom + (k + (top - bottom) + 1) = top + (k + 1) by omega]
      rintro ⟨-, hrest⟩
      obtain ⟨hpoints, hstep, ht⟩ := points_of_node hu ht
      rw [(hgrown u (mem_tables (by omega) hu) _).present hpoints.1] at hrest
      exact ih (by simp; omega) hstep ht hrest

/-- An entry that is not zero is in a table. -/
theorem exists_node_of_slot {e : Word} {i : ℕ} (h : slot mem r q i = e) (he : e ≠ 0) :
    ∃ t, node mem r q = some t ∧ mem t i = e := by
  cases ht : node mem r q with
  | none => exact absurd (h.symm.trans (slot_of_none ht i)) he
  | some t => exact ⟨t, rfl, (slot_of_some ht i).symm.trans h⟩

/-- A way that leads to a table meets no page. -/
theorem passes_of_node {P : Word → Prop} {u : PhysAddr} (hu : node mem r q = some u)
    (ht : node mem r (q ++ path addr bottom k) = some t) : Passes P mem addr bottom k u := by
  induction k generalizing q u with
  | zero => trivial
  | succ k ih =>
      rw [path] at ht
      rw [Passes]
      obtain ⟨hpoints, hstep, ht⟩ := points_of_node hu ht
      exact Or.inr ⟨hpoints, ih hstep ht⟩

theorem nextLevelIndex_div (v : VirtAddr) (s : PageSize) (d : ℕ) :
    nextLevelIndex v (s.bottomPagingLevel + d) = v / s.size / 2 ^ (9 * d) % 512 := by
  rw [nextLevelIndex_eq, Nat.div_div_eq_div_mul, PageSize.size_eq, levelShift, ← Nat.pow_add,
    show 12 + 9 * s.bottomPagingLevel + 9 * d = 12 + (s.bottomPagingLevel + d) * 9 by ring]

/-- Addresses on one page have the same indices above it. -/
theorem nextLevelIndex_congr {p v : ℕ} {s : PageSize} (h : p / s.size = v / s.size) (d : ℕ) :
    nextLevelIndex p (s.bottomPagingLevel + d) = nextLevelIndex v (s.bottomPagingLevel + d) := by
  rw [nextLevelIndex_div, nextLevelIndex_div, h]

theorem path_congr {p v : ℕ} {s : PageSize} (h : p / s.size = v / s.size) (k : ℕ) :
    path p s.bottomPagingLevel k = path v s.bottomPagingLevel k := by
  induction k with
  | zero => rfl
  | succ k ih => rw [path, path, nextLevelIndex_congr h, ih]

theorem pagePath_congr {p v : ℕ} {s : PageSize} (h : p / s.size = v / s.size) :
    pagePath p s = pagePath v s := by
  have hindex := nextLevelIndex_congr h 0
  rw [Nat.add_zero] at hindex
  rw [pagePath, pagePath, path_congr h, hindex]

end PageTable

/-! ## Remapping -/

/-- Addresses on one page. -/
theorem div_eq_of_page {p v n : ℕ} (hp : p % n = 0) (hle : p ≤ v) (hlt : v < p + n) :
    p / n = v / n ∧ v % n = v - p := by
  obtain ⟨q, rfl⟩ := Nat.dvd_of_mod_eq_zero hp
  obtain ⟨d, rfl⟩ := Nat.exists_eq_add_of_le hle
  have hd : d < n := Nat.lt_of_add_lt_add_left hlt
  have hn : 0 < n := Nat.zero_lt_of_lt hd
  rw [Nat.mul_div_cancel_left q hn, Nat.mul_add_div hn, Nat.div_eq_of_lt hd, Nat.mul_add_mod,
    Nat.mod_eq_of_lt hd, Nat.add_sub_cancel_left]
  exact ⟨rfl, rfl⟩

theorem bottom_lt_of_size_le {s s' : PageSize} (hle : s'.size ≤ s.size) (hne : s' ≠ s) :
    s'.bottomPagingLevel < s.bottomPagingLevel := by
  cases s <;> cases s' <;> first | exact absurd rfl hne | decide | exact absurd hle (by decide)

section

variable {σ : Type} {r : PhysAddr} {w₀ w w₁ w₂ : World σ} {respects : Set PhysAddr → σ → Prop}
  {log : List TableCall} {p p' b : VirtAddr} {s s' : PageSize} {n : ℕ} {a' : PhysAddr}

/-- An entry that a call writes on the way to an address is that of the page around it. -/
theorem TableCall.entryPath_eq (c : TableCall) {l : ℕ}
    (hpre : c.entryPath l <+: pagePath p .size4kb) :
    c.entryPath l = parentPath p c.pageSize ++ [nextLevelIndex p c.pageSize.bottomPagingLevel] := by
  have hparent := c.length_parent
  refine eq_pagePath_of_prefix hpre ?_
  rw [TableCall.entryPath, List.length_append, List.length_singleton]
  omega

/-- What unmapping a page leaves: the table is there, and its entry has all but the present bit
of the page. -/
theorem unmapped_entry {s₀ : PageSize} {j : ℕ} (hI : SizedInv RemapWord respects r w)
    (hI₁ : SizedInv RemapWord respects r w₁)
    (haffects : (TableCall.unmap b n s₀).Affects r j w.mem w₁.mem)
    (hmapped : mappedSize w.mem r p = some s) (hgone : mappedSize w₁.mem r p = none) :
    ∃ t a, node w₁.mem r (parentPath p s) = some t ∧
      w₁.mem t (nextLevelIndex p s.bottomPagingLevel) = Entry.released (pageWord a s) ∧
      a % s.size = 0 := by
  set c := TableCall.unmap b n s₀ with hc
  have hlen : (pagePath p .size4kb).length = 4 := length_pagePath p .size4kb
  have hnone := hI₁.sized.content_eq_none grammar_remapWord hgone
  obtain ⟨⟨level, e⟩, hcontent, hlevel⟩ := Option.bind_eq_some_iff.mp hmapped
  obtain ⟨-, hword, hpres, hlast⟩ := hI.sized.of_content grammar_remapWord hlen hcontent
  obtain rfl : level = s.bottomPagingLevel := eq_bottom_of_fromBottom hlevel
  -- The call has changed the page, so one of its entries is that of the page.
  obtain ⟨l, hl, hpre⟩ : ∃ l < j, c.entryPath l <+: pagePath p .size4kb := by
    by_contra hno
    push Not at hno
    rw [haffects.same _ hlen hno, hcontent] at hnone
    cases hnone
  have hbefore := haffects.before l hl _ hlen hpre
  rw [hcontent, held_of_present (haffects.accepted l hl)] at hbefore
  obtain ⟨hbottom, rfl⟩ := Prod.mk.inj (Option.some.inj hbefore)
  obtain rfl : s = s₀ := bottomPagingLevel_injective hbottom
  obtain ⟨hparent, hindex⟩ := List.append_inj' (c.entryPath_eq hpre) rfl
  obtain ⟨a, ha, hpage⟩ : ∃ a, a % s.size = 0 ∧ c.entry w.mem r l = pageWord a s := by
    rcases (hword.boot hpres).eq_of with hzero | ⟨a, htable, ha, -⟩ | ⟨s', a, hpage, ha, -, hs'⟩
    · rw [hzero] at hpres
      cases hpres
    · rw [htable, Entry.last_tableEntry ha] at hlast
      cases hlast
    · obtain rfl := bottomPagingLevel_injective hs'
      exact ⟨a, ha, hpage⟩
  have hslot := haffects.entries l hl
  rw [TableCall.entry, hparent, List.cons.inj hindex |>.1, hpage] at hslot
  have hne : Entry.released (pageWord a s) ≠ 0 := by
    intro hzero
    have hmark := last_released_pageWord ha
    rw [hzero] at hmark
    cases hmark
  obtain ⟨t, ht, hentry⟩ := exists_node_of_slot hslot hne
  exact ⟨t, a, ht, hentry, ha⟩

variable [PmmAllocator σ] {m : Overflow} {bound : ℕ}

/-- A page whose word is in its place is mapped as if for the first time. -/
theorem renewed_of_slot {mem : PhysAddr → ℕ → Word} (hI : Sized RemapWord mem r)
    (hp : p % s.size = 0) (hmod : a' % s.size = 0) (hlt : a' < 2 ^ 52)
    (hslot : slot mem r (parentPath p s) (nextLevelIndex p s.bottomPagingLevel) = pageWord a' s) :
    Renewed mem r p a' s := by
  have hpres : (pageWord a' s).getLsbD 0 = true := present_pageWord (mod_basic hmod)
  have hne : pageWord a' s ≠ 0 := by
    intro hzero
    rw [hzero] at hpres
    cases hpres
  obtain ⟨t, ht, hentry⟩ := exists_node_of_slot hslot hne
  have hcontent : ∀ v, pagePath p s = pagePath v s →
      content mem r (pagePath v .size4kb) = some (s.bottomPagingLevel, pageWord a' s) := by
    intro v hv
    obtain ⟨rest, hrest⟩ := pagePath_begins v s
    have hlength : rest.length = s.bottomPagingLevel := by
      have hsum := congrArg List.length hrest
      have hsize := length_pagePath v s
      have hfour : (pagePath v .size4kb).length = 4 := length_pagePath v .size4kb
      rw [List.length_append] at hsum
      omega
    have hleaf : child (mem t (nextLevelIndex p s.bottomPagingLevel)) = none := by
      rw [hentry]
      exact child_of_last (last_pageWord (mod_basic hmod))
    have hpath : pagePath p s ++ rest =
        parentPath p s ++ nextLevelIndex p s.bottomPagingLevel :: rest :=
      List.append_assoc _ _ _
    rw [← hrest, ← hv, hpath, content_of_leaf ht hleaf, hentry, held_of_present hpres, hlength]
  refine ⟨fun v hv hle hlt' => ?_, ?_, ?_⟩
  · obtain ⟨hdiv, hoffset⟩ := div_eq_of_page hp hle hlt'
    rw [hI.pageWalk_eq grammar_remapWord marksLarge_remapWord hv, hcontent v (pagePath_congr hdiv),
      Option.map_some, translated, addressField_pageWord hmod hlt, ← PageSize.size_eq, hoffset]
  · rw [hI.translate_eq grammar_remapWord, hcontent p rfl, reported, fromBottomPagingLevel_bottom,
      Option.elim_some, getAddr_pageWord hmod hlt]
    rfl
  · exact hI.unstale (q := []) grammar_remapWord (by simp) rfl ht hentry

/-- A page of the same size is mapped as if for the first time. -/
theorem renewed_of_same {t a : PhysAddr} (law : Supplies σ m bound respects)
    (hbound : bound ≤ 2 ^ 52) (hI₁ : SizedInv RemapWord respects r w₁)
    (ht : node w₁.mem r (parentPath p s) = some t)
    (hentry : w₁.mem t (nextLevelIndex p s.bottomPagingLevel) = Entry.released (pageWord a s))
    (ha : a % s.size = 0) (ha' : a' + s.size ≤ 2 ^ 52)
    (hmap : mapPages m r w₁ p a' 1 s bootFlags = .ok (.ok (), w₂)) :
    Renewed w₂.mem r p a' s := by
  set c := TableCall.map p a' 1 s bootFlags with hc
  have hlt : a' < 2 ^ 52 := Nat.lt_of_lt_of_le (Nat.lt_add_of_pos_right s.size_pos) ha'
  have hcalls : RemapCalls r [] w₁ c := by
    refine .map (by rwa [Nat.one_mul]) fun _ => ?_
    exact passes_of_node (q := []) rfl ht
  obtain ⟨hclear, hadmits⟩ := hcalls.admits
  obtain ⟨hI₂, j, -, haffects, hres⟩ := (TableCall.run_spec grammar_remapWord law hbound hI₁ hclear
    hadmits).post hmap
  rcases hres with ⟨-, ⟨hp, hmod⟩, -, rfl⟩ | ⟨⟨_, herr⟩, -⟩ | ⟨⟨_, herr⟩, -⟩
  · have hone : 0 < c.reach := by
      have hindex : c.index < 512 := c.index_lt
      change 0 < min 1 (512 - c.index)
      omega
    have hold : c.entry w₁.mem r 0 = Entry.released (pageWord a s) :=
      (slot_of_some ht _).trans hentry
    have haddr : addrAt a' s 0 = a' := by
      rw [addrAt, Nat.zero_mul, Nat.add_zero]
      exact Nat.mod_eq_of_lt (hlt.trans (by norm_num))
    have hslot := haffects.entries 0 hone
    rw [hold] at hslot
    change _ = Entry.mapped _ (addrAt a' s 0) bootFlags s at hslot
    rw [haddr, Entry.mapped_released ha hmod] at hslot
    exact renewed_of_slot hI₂.sized hp hmod hlt hslot
  · cases herr
  · cases herr

/-- **When an unmapped range can be mapped again.**  After any run of clear calls, a page of size
`s` is unmapped; a call that then maps a page of a size up to `s` in its place makes a page
without leftovers exactly when the sizes are equal. -/
theorem remap_renews_iff {s₀ : PageSize} (law : Supplies σ m bound respects)
    (hbound : bound ≤ 2 ^ 52) (hzero : ∀ i, w₀.mem r i = 0) (hU : respects {r} w₀.pmm)
    (h : CallsReach m r w₀ (RemapCalls r) log w) (hp : p % s.size = 0)
    (hmapped : mappedSize w.mem r p = some s)
    (hclear : (TableCall.unmap b n s₀).Clear w.mem r)
    (hunmap : unmapPages m r w b n s₀ = .ok (.ok (), w₁))
    (hgone : mappedSize w₁.mem r p = none) (hle : s'.size ≤ s.size) (hfirst : p ≤ p')
    (hend : p' + s'.size ≤ p + s.size) (ha' : a' + s'.size ≤ 2 ^ 52)
    (hmap : mapPages m r w₁ p' a' 1 s' bootFlags = .ok (.ok (), w₂)) :
    Renewed w₂.mem r p' a' s' ↔ s' = s := by
  have hI := h.sizedInv grammar_remapWord law hbound hzero hU fun _ _ _ hc => hc.admits
  have hcall : RemapCalls r log w (.unmap b n s₀) := .unmap hclear
  obtain ⟨hclear, hadmits⟩ := hcall.admits
  obtain ⟨hI₁, j, -, haffects, -⟩ := (TableCall.run_spec (c := .unmap b n s₀) grammar_remapWord
    law hbound hI hclear hadmits).post hunmap
  obtain ⟨t, a, ht, hentry, ha⟩ := unmapped_entry hI hI₁ haffects hmapped hgone
  constructor
  · intro hrenewed
    by_contra hne
    -- The call goes through the entry, which keeps the mark of the old page.
    have hlower := bottom_lt_of_size_le hle hne
    have hlt : p' < p + s.size := Nat.lt_of_lt_of_le (Nat.lt_add_of_pos_right s'.size_pos) hend
    have hdiv := (div_eq_of_page hp hfirst hlt).1
    obtain ⟨hparent, hindex⟩ := List.append_inj' (pagePath_congr hdiv) rfl
    have hindex := (List.cons.inj hindex).1
    have hlast : (w₁.mem t (nextLevelIndex p' s.bottomPagingLevel)).getLsbD 10 = true := by
      rw [← hindex, hentry]
      exact last_released_pageWord ha
    obtain ⟨-, -, -, hgrown⟩ := mapPages_keepsWords law hmap _ hI₁.respected
    have hlevels : 3 - s'.bottomPagingLevel =
        3 - s.bottomPagingLevel + (s.bottomPagingLevel - s'.bottomPagingLevel) := by
      have := bottomPagingLevel_le s
      omega
    have hway := hrenewed.way
    rw [hlevels] at hway
    exact not_unstale (q := []) (k := 3 - s.bottomPagingLevel) (by simp) rfl
      ((congrArg (node w₁.mem r) hparent).symm.trans ht) hgrown hlast hlower hway
  · rintro rfl
    obtain rfl : p' = p := Nat.le_antisymm (Nat.le_of_add_le_add_right hend) hfirst
    exact renewed_of_same law hbound hI₁ ht hentry ha ha' hmap

end

/-- A page of 2MB. -/
def largeMapped : World BuddyAllocator :=
  stateAfter smallWorld (mapPages .checked 0x1000 smallWorld 0x200000 0x400000 1 .size2mb bootFlags)

/-- The page is unmapped. -/
def largeUnmapped : World BuddyAllocator :=
  stateAfter largeMapped (unmapPages .checked 0x1000 largeMapped 0x200000 1 .size2mb)

/-- Another page of 2MB in its place. -/
def largeRemapped : World BuddyAllocator :=
  stateAfter largeUnmapped
    (mapPages .checked 0x1000 largeUnmapped 0x200000 0x600000 1 .size2mb bootFlags)

theorem largeMapped_reaches : CallsReach .checked 0x1000 smallWorld (RemapCalls 0x1000)
    [.map 0x200000 0x400000 1 .size2mb bootFlags] largeMapped := by
  have hrun : (TableCall.map 0x200000 0x400000 1 .size2mb bootFlags).run .checked 0x1000
      smallWorld = .ok (.ok (), largeMapped) := eq_ok_stateAfter smallWorld (by decide)
  exact .step .start (.map (by decide) (by decide)) hrun

theorem large_remap_renews : Renewed largeRemapped.mem 0x1000 0x200000 0x600000 .size2mb :=
  (remap_renews_iff (p := 0x200000) (s := .size2mb)
    (BuddyAllocator.supplies .checked smallSupply_frees.inv.bound_le_word) (by decide)
    (fun _ => rfl) smallSupply_respects largeMapped_reaches (by decide) (by decide) (by decide)
    (eq_ok_stateAfter largeMapped (by decide)) (by decide) (Nat.le_refl _) (Nat.le_refl _)
    (Nat.le_refl _) (by decide) (eq_ok_stateAfter largeUnmapped (by decide))).mpr rfl

/-- **A basic page in a page of 2MB that was unmapped.**  The call succeeds, but the processor
still finds a page of 2MB, now at the address of the new table, and `translate` panics. -/
theorem remap_stale :
    CallsReach .checked 0x1000 smallWorld (RemapCalls 0x1000)
      [.map 0x200000 0x400000 1 .size2mb bootFlags] largeMapped ∧
    unmapPages .checked 0x1000 largeMapped 0x200000 1 .size2mb = .ok (.ok (), largeUnmapped) ∧
    ∃ w', mapPages .checked 0x1000 largeUnmapped 0x200000 0x7000 1 .size4kb bootFlags =
        .ok (.ok (), w') ∧
      pageWalk w'.mem 0x1000 0x200000 = some 0 ∧
      translate w'.mem 0x1000 0x200000 =
        .error (.explicit "Address is not aligned to the page size") ∧
      ¬ Renewed w'.mem 0x1000 0x200000 0x7000 .size4kb := by
  refine ⟨largeMapped_reaches, eq_ok_stateAfter largeMapped (by decide), _,
    eq_ok_stateAfter largeUnmapped (by decide), by decide, by decide, fun h => ?_⟩
  exact absurd h.translate_eq (by decide)

end Funderberker

import Funderberker.Paging.Frames
import Funderberker.Paging.Sweep

/-!
# The tables at boot

At boot pages of all three sizes are mapped and none is unmapped, all with the same flags, so
only three kinds of words occur in the tables.

A page is mapped in two steps.  Tables are created along a path, which changes no content, and
then one word is written, which changes the content of all lists of indices that begin with the
path of the page.  A word in that place would have to be the word of a page that covers the new
one, or would lead to a table; and below every table there is a page.

## Main definitions

* `BootWord` — the words that occur at a level.
* `BootInv` — the invariant of the tables and the PMM.
* `Supply` — the PMM has a frame for every table that is needed.

## Main results

* `SizedInv.mapPage` — mapping one page of any size, with any flags.
* `BootInv.pageWalk_eq` — the walk of the processor reads the content.
-/

namespace Funderberker

open Panicking RadixTree

/-! ## Words -/

/-- The flags of a page that is mapped at boot, as a number. -/
def pageBits : PageSize → ℕ
  | .size4kb => 0x403
  | .size2mb => 0x483
  | .size1gb => 0x483

/-- The word of a page that is mapped at boot. -/
def pageWord (a : PhysAddr) (pageSize : PageSize) : Word :=
  BitVec.ofNat 64 a ||| BitVec.ofNat 64 (pageBits pageSize)

/-- The words that occur in a table of the given level. -/
inductive BootWord : ℕ → Word → Prop
  | empty {level : ℕ} : BootWord level 0
  | table {level : ℕ} {a : PhysAddr} (ha : a % 4096 = 0) (hlt : a < 2 ^ 52) :
      BootWord (level + 1) (Entry.tableEntry a)
  | page {pageSize : PageSize} {a : PhysAddr} (ha : a % pageSize.size = 0) (hlt : a < 2 ^ 52) :
      BootWord pageSize.bottomPagingLevel (pageWord a pageSize)

variable {a i k : ℕ} {pageSize : PageSize}

theorem BootWord.eq_of {level : ℕ} {e : Word} (h : BootWord level e) : e = 0 ∨
    (∃ a, e = Entry.tableEntry a ∧ a % 4096 = 0 ∧ a < 2 ^ 52 ∧ level ≠ 0) ∨
    ∃ pageSize a, e = pageWord a pageSize ∧ a % pageSize.size = 0 ∧ a < 2 ^ 52 ∧
      level = pageSize.bottomPagingLevel := by
  cases h with
  | empty => exact Or.inl rfl
  | table ha hlt => exact Or.inr (Or.inl ⟨_, rfl, ha, hlt, Nat.succ_ne_zero _⟩)
  | page ha hlt => exact Or.inr (Or.inr ⟨_, _, rfl, ha, hlt, rfl⟩)

theorem pageBits_lt (s : PageSize) : pageBits s < 2 ^ 12 := by
  cases s <;> decide

theorem present_pageWord (ha : a % 4096 = 0) : (pageWord a pageSize).getLsbD 0 = true := by
  rw [pageWord, getLsbD_ofNat_or ha (by omega)]
  cases pageSize <;> rfl

theorem last_pageWord (ha : a % 4096 = 0) : (pageWord a pageSize).getLsbD 10 = true := by
  rw [pageWord, getLsbD_ofNat_or ha (by omega)]
  cases pageSize <;> rfl

/-- The bit that ends a walk above the bottom level. -/
theorem large_pageWord (ha : a % 4096 = 0) (hlevel : pageSize.bottomPagingLevel ≠ 0) :
    (pageWord a pageSize).getLsbD 7 = true := by
  rw [pageWord, getLsbD_ofNat_or ha (by omega)]
  cases pageSize with
  | size4kb => exact absurd rfl hlevel
  | size2mb => rfl
  | size1gb => rfl

theorem addressField_pageWord (ha : a % pageSize.size = 0) (hlt : a < 2 ^ 52) :
    addressField (pageWord a pageSize) (levelShift pageSize.bottomPagingLevel) = a := by
  rw [addressField, pageWord, toNat_ofNat_or (mod_basic ha) (by omega) (pageBits_lt pageSize)]
  change (_ : ℕ) = a
  cases pageSize with
  | size4kb =>
      simp only [PageSize.size, PageSize.bottomPagingLevel, levelShift, pageBits] at ha ⊢
      omega
  | size2mb =>
      simp only [PageSize.size, PageSize.bottomPagingLevel, levelShift, pageBits] at ha ⊢
      omega
  | size1gb =>
      simp only [PageSize.size, PageSize.bottomPagingLevel, levelShift, pageBits] at ha ⊢
      omega

/-- Mapping an entry that is empty. -/
theorem Entry.map_empty (ha : a % pageSize.size = 0) :
    Entry.map 0 a bootFlags pageSize = .ok (.ok (), pageWord a pageSize) := by
  have hlow : BitVec.ofNat 64 a &&& pageSize.getOffsetMask = 0 := ofNat_and_offsetMask ha
  have hkeep : (0 &&& pageSize.getOffsetMask) |||
      (BitVec.ofNat 64 a &&& ~~~pageSize.getOffsetMask) = BitVec.ofNat 64 a := by
    rw [and_not_of_and_eq_zero hlow, show 0 &&& pageSize.getOffsetMask = 0#64 from BitVec.zero_and,
      BitVec.zero_or]
  have hjoin : ((bootFlags.setPresent true).setLastEntry true).join pageSize.toFlags =
      some (BitVec.ofNat 64 (pageBits pageSize)) := by
    cases pageSize <;> rfl
  have hset : Entry.setFlags (BitVec.ofNat 64 a) (BitVec.ofNat 64 (pageBits pageSize)) =
      pageWord a pageSize := by
    have hclear := Entry.ofNat_or_and_not_flagMask (f := 0#64) (mod_basic ha)
      fun _ _ => BitVec.getLsbD_zero
    rw [BitVec.or_zero] at hclear
    rw [Entry.setFlags, hclear, pageWord]
  have habsent : ¬ (Entry.getFlags 0).getPresent = true := by decide
  rw [Entry.map, if_neg habsent, Entry.setAddr, if_pos hlow, hkeep, ok_bind, hjoin]
  dsimp only
  rw [hset]

/-- The word of a page that is mapped in an empty entry. -/
theorem Entry.mapped_empty (ha : a % pageSize.size = 0) :
    Entry.mapped 0 a bootFlags pageSize = pageWord a pageSize := by
  have hmap := Entry.map_eq (e := 0) BitVec.getLsbD_zero ha bootFlags
  rw [Entry.map_empty ha] at hmap
  exact (Prod.mk.inj (Except.ok.inj hmap)).2.symm

theorem joins_bootFlags (s : PageSize) : Entry.Joins bootFlags s := Or.inr rfl

namespace PageTable

theorem grammar_bootWord : Grammar BootWord where
  zero _ := .empty
  table _ _ ha hlt := .table ha hlt
  cases h := by
    rcases h.eq_of with rfl | htable | ⟨s, a, rfl, ha, -, rfl⟩
    · exact Or.inl Entry.unused_zero
    · exact Or.inr (Or.inl htable)
    · exact Or.inr (Or.inr ⟨bottomPagingLevel_le s, last_pageWord (mod_basic ha)⟩)

theorem marksLarge_bootWord : MarksLarge BootWord := by
  intro level e h hpres hlast
  rcases h.eq_of with rfl | ⟨a, rfl, ha, -, -⟩ | ⟨s, a, rfl, ha, -, hlevel⟩
  · cases hpres
  · rw [Entry.last_tableEntry ha] at hlast
    cases hlast
  · exact large_pageWord (mod_basic ha) (by omega)

/-- No page has been unmapped: a word that is not present is empty. -/
def AbsentEmpty (W : ℕ → Word → Prop) : Prop :=
  ∀ level e, W level e → e.getLsbD 0 = false → e = 0

theorem absentEmpty_bootWord : AbsentEmpty BootWord := by
  intro level e h habsent
  rcases h.eq_of with rfl | ⟨a, rfl, -⟩ | ⟨s, a, rfl, ha, -⟩
  · rfl
  · rw [Entry.present_tableEntry] at habsent
    cases habsent
  · rw [present_pageWord (mod_basic ha)] at habsent
    cases habsent

/-! ## The invariant -/

variable {m : Overflow} {mem mem' : PhysAddr → ℕ → Word} {r t : PhysAddr} {p q D : List ℕ}
  {T N : ℕ} {C : Set ℕ} {P : Finset (List ℕ)} {w w' : World BuddyAllocator}
  {W : ℕ → Word → Prop} {flags : Flags} {virtAddr : VirtAddr}

/-- The tables form a tree of words as they occur at boot, and the PMM has all pages of `C` but
for the frames of the tables. -/
structure BootInv (T : ℕ) (C : Set ℕ) (N : ℕ) (r : PhysAddr) (w : World BuddyAllocator) : Prop where
  tree : IsTree child w.mem r 3
  words : ∀ (q : List ℕ) (t : PhysAddr) (i : ℕ), q.length ≤ 3 → node w.mem r q = some t →
    BootWord (3 - q.length) (w.mem t i)
  account : BuddyAllocator.Accounts T C N (tables w.mem r) w.pmm

theorem BootInv.sizedInv (hI : BootInv T C N r w) :
    SizedInv BootWord (BuddyAllocator.Accounts T C N) r w :=
  ⟨⟨hI.tree, hI.words⟩, hI.account⟩

theorem SizedInv.bootInv (hI : SizedInv BootWord (BuddyAllocator.Accounts T C N) r w) :
    BootInv T C N r w :=
  ⟨hI.sized.tree, hI.sized.words, hI.respected⟩

/-- The PMM has a page for each of the tables `P`, and nodes for all its pages. -/
structure Supply (T : ℕ) (C : Set ℕ) (N : ℕ) (r : PhysAddr) (P : Finset (List ℕ)) : Prop where
  bound : T * BASIC_PAGE_SIZE ≤ 2 ^ 52
  pages : ∀ c ∈ C, c < T
  root : r / BASIC_PAGE_SIZE ∉ C
  nodes : (pairs C).ncard ≤ N
  enough : P.card ≤ C.ncard

/-- As long as one of the tables is missing, fewer pages are used as tables than there are
tables. -/
theorem ncard_used_lt (hroot : r / BASIC_PAGE_SIZE ∉ C)
    (hnodes : ∀ q t, q ≠ [] → q.length ≤ 3 → node mem r q = some t → q ∈ P)
    (hq : q ∈ P) (hnone : node mem r q = none) :
    {c ∈ C | c * BASIC_PAGE_SIZE ∈ tables mem r}.Finite ∧
      {c ∈ C | c * BASIC_PAGE_SIZE ∈ tables mem r}.ncard < P.card := by
  set D := {c ∈ C | c * BASIC_PAGE_SIZE ∈ tables mem r} with hD
  have hpath : ∀ c ∈ D, ∃ q' : List ℕ, q'.length ≤ 3 ∧
      node mem r q' = some (c * BASIC_PAGE_SIZE) := fun c hc => hc.2
  choose! path hlen hpath using hpath
  have hmaps : ∀ c ∈ D, path c ∈ (P.erase q : Finset (List ℕ)) := by
    intro c hc
    refine Finset.mem_erase.mpr ⟨?_, hnodes _ _ ?_ (hlen c hc) (hpath c hc)⟩
    · intro heq
      have := hpath c hc
      rw [heq, hnone] at this
      cases this
    · intro hnil
      have hr : r = c * BASIC_PAGE_SIZE := by
        have := hpath c hc
        rw [hnil] at this
        exact Option.some.inj this
      refine hroot ?_
      rw [hr, Nat.mul_div_cancel _ basicPageSize_pos]
      exact hc.1
  have hinj : Set.InjOn path D := by
    intro c hc c' hc' heq
    have hsome := (hpath c hc).symm.trans (heq ▸ hpath c' hc')
    exact Nat.eq_of_mul_eq_mul_right basicPageSize_pos (Option.some.inj hsome)
  have hle := Set.ncard_le_ncard_of_injOn path hmaps hinj (Finset.finite_toSet _)
  rw [Set.ncard_coe_finset, Finset.card_erase_of_mem hq] at hle
  have := Finset.card_pos.mpr ⟨q, hq⟩
  exact ⟨Set.Finite.of_injOn hmaps hinj (Finset.finite_toSet _), by omega⟩

/-- A page is left as long as one of the tables is missing. -/
theorem exists_page_left (hroot : r / BASIC_PAGE_SIZE ∉ C) (henough : P.card ≤ C.ncard)
    (hnodes : ∀ q t, q ≠ [] → q.length ≤ 3 → node mem r q = some t → q ∈ P)
    (hq : q ∈ P) (hnone : node mem r q = none) :
    ∃ c ∈ C, c * BASIC_PAGE_SIZE ∉ tables mem r := by
  by_contra hall
  push Not at hall
  obtain ⟨hfin, hlt⟩ := ncard_used_lt hroot hnodes hq hnone
  have hsub : C ⊆ {c ∈ C | c * BASIC_PAGE_SIZE ∈ tables mem r} := fun c hc => ⟨hc, hall c hc⟩
  have hle := Set.ncard_le_ncard hsub hfin
  omega

/-- The PMM has a frame for each of the tables `P` that is missing. -/
structure Stocked (m : Overflow) (T : ℕ) (C : Set ℕ) (N : ℕ) (r : PhysAddr)
    (P : Finset (List ℕ)) : Prop where
  bound : T * BASIC_PAGE_SIZE ≤ 2 ^ 52
  frame : ∀ {mem : PhysAddr → ℕ → Word} {s : BuddyAllocator} {q : List ℕ},
    BuddyAllocator.Accounts T C N (tables mem r) s →
    (∀ q t, q ≠ [] → q.length ≤ 3 → node mem r q = some t → q ∈ P) → q ∈ P →
    node mem r q = none → ∃ a s', s.allocate m 1 1 = .ok (.ok a, s')

theorem Supply.stocked (h : Supply T C N r P) : Stocked m T C N r P where
  bound := h.bound
  frame hs hnodes hq hnone := by
    obtain ⟨c, hc, hleft⟩ := exists_page_left h.root h.enough hnodes hq hnone
    exact hs.exists_frame h.pages h.nodes hc hleft

/-- In a memory of few regions, every table taken out of it adds two ends of a region at most. -/
theorem stocked_of_edges {k : ℕ} (hbound : T * BASIC_PAGE_SIZE ≤ 2 ^ 52)
    (hroot : r / BASIC_PAGE_SIZE ∉ C) (henough : P.card ≤ C.ncard)
    (hedges : DyadicBlock.EdgesLe C k) (hnodes : 51 * (k + 2 * P.card) ≤ N) :
    Stocked m T C N r P where
  bound := hbound
  frame {mem s q} hs htables hq hnone := by
    obtain ⟨c, hc, hleft⟩ := exists_page_left hroot henough htables hq hnone
    obtain ⟨hfin, hlt⟩ := ncard_used_lt hroot htables hq hnone
    refine hs.exists_frame_of_pool (fun p => ?_) hc hleft
    have hfree : s.freePages = C \ ↑hfin.toFinset := by
      rw [hs.free_eq, Set.Finite.coe_toFinset]
      ext x
      exact ⟨fun h => ⟨h.1, fun hx => h.2 hx.2⟩, fun h => ⟨h.1, fun hx => h.2 ⟨h.1, hx⟩⟩⟩
    have hsub := (hedges.sdiff_finset hfin.toFinset).sdiff_finset {p}
    rw [← hfree, Finset.coe_singleton, Finset.card_singleton,
      ← Set.ncard_eq_toFinset_card _ hfin] at hsub
    refine not_exceeds_of_edges (hsub.mono (by omega : _ ≤ k + 2 * P.card)) ?_
    rw [hs.nodes]
    exact (Nat.mul_le_mul_right (k + 2 * P.card) hs.inv.zones_le).trans hnodes

/-! ## Mapping a page -/

/-- The tables on the way to a place that holds nothing are there or can be created. -/
theorem SizedInv.openTables {bottom : ℕ} (hG : Grammar W) (hW : AbsentEmpty W)
    (hI : SizedInv W (BuddyAllocator.Accounts T C N) r w) (hstocked : Stocked m T C N r P)
    (hnodes : ∀ q t, q ≠ [] → q.length ≤ 3 → node w.mem r q = some t → q ∈ P)
    (hP : ∀ q, q ≠ [] → q <+: path virtAddr bottom (3 - bottom) → q ∈ P)
    (hblank : content w.mem r (path virtAddr bottom (3 - bottom) ++ q) = none) :
    ∃ t w', getCreateTableRangeGo m virtAddr bottom (3 - bottom) r w = .ok (t, w') ∧
      SizedInv W (BuddyAllocator.Accounts T C N) r w' ∧
      Leads r (path virtAddr bottom (3 - bottom)) w.mem t w'.mem := by
  have hword : T * BASIC_PAGE_SIZE ≤ 2 ^ 64 := hstocked.bound.trans (by norm_num)
  have hway : Passes Entry.Unused w.mem virtAddr bottom (3 - bottom) r := by
    refine hI.sized.passes (p := []) hG (fun level e _ h habsent => ?_) (by simp) rfl hblank
    rw [hW level e h habsent]
    exact Entry.unused_zero
  have hgo := getCreateTableRangeGo_yields (E := fun _ => False) (m := m) (p := [])
    (D := path virtAddr bottom (3 - bottom))
    (I := fun w => SizedInv W (BuddyAllocator.Accounts T C N) r w ∧
      ∀ q t, q ≠ [] → q.length ≤ 3 → node w.mem r q = some t → q ∈ P)
    (fun w q t i hI hq ht hunused hpre => ?_) ⟨hI, hnodes⟩ (by simp) rfl List.prefix_rfl hway
  · obtain ⟨⟨t, w'⟩, hrun, hI', hleads⟩ := hgo.exists_ok fun _ => id
    exact ⟨t, w', hrun, hI'.1, hleads⟩
  -- A page is left for the table, since the table is one of `P`.
  · have hnone : node w.mem r (q ++ [i]) = none := by
      rw [node_concat_eq, slot_of_some ht, child_of_absent (hunused.getLsbD (by omega))]
    obtain ⟨a, pmm, halloc⟩ :=
      hstocked.frame hI.1.respected hI.2 (hP _ (by simp) hpre) hnone
    obtain ⟨w', hrun, hI', hcreated⟩ := hI.1.create hG
      (BuddyAllocator.accounts_supplies m hword) hstocked.bound hq ht hunused halloc
    rw [hrun, yields_ok]
    refine ⟨⟨hI', fun q' u hne hq' hu => ?_⟩, hcreated⟩
    rcases hcreated.opened.node_new q' u hq' hu with hold | hpre'
    · exact hI.2 q' u hne hq' hold
    · exact hP q' hne (hpre'.trans hpre)

/-- The word of a page on which nothing is mapped is empty: a page or a table in its place would
be in the content. -/
theorem Sized.word_empty (hG : Grammar W) (hW : AbsentEmpty W) (hI : Sized W mem' r)
    (hopen : Opened r p mem mem') (hp : p.length ≤ 3) (ht : node mem' r p = some t)
    (hnodes : ∀ q t, q ≠ [] → q.length ≤ 3 → node mem r q = some t →
      ∃ D : List ℕ, D.length = 4 ∧ q <+: D ∧ content mem r D ≠ none)
    (hfree : ∀ D : List ℕ, D.length = 4 → p ++ [i] <+: D → content mem r D = none) :
    mem' t i = 0 := by
  have hword := hI.words p t i hp ht
  cases hpres : (mem' t i).getLsbD 0 with
  | false => exact hW _ _ hword hpres
  | true =>
      rcases hG.child_cases hword with hunused | ⟨hpoints, hlevel⟩ | ⟨-, hlast⟩
      · rw [hunused.getLsbD (by omega)] at hpres
        cases hpres
      · have hchild : node mem' r (p ++ [i]) = some (Entry.frame (mem' t i)) := by
          rw [node_concat_eq, slot_of_some ht, child_of_points hpoints]
        have hshort : (p ++ [i]).length ≤ 3 := by
          rw [List.length_append, List.length_singleton]
          omega
        rcases hopen.node_new _ _ hshort hchild with hold | hpre
        · obtain ⟨D, hD, hprefix, hsome⟩ := hnodes _ _ (by simp) hshort hold
          exact absurd (hfree D hD hprefix) hsome
        · exact absurd hpre.length_le (by simp)
      · have hfull : (p ++ i :: List.replicate (3 - p.length) 0).length = 4 := by
          rw [List.length_append, List.length_cons, List.length_replicate]
          omega
        have hblank := hfree _ hfull ⟨_, (List.append_cons p i _).symm⟩
        rw [← hopen.content_eq _ hfull, content_of_leaf ht (child_of_last hlast),
          held_of_present hpres] at hblank
        cases hblank

/-- **Mapping one page of any size.**  Nothing is mapped on the page, and below every table
something is.  Flags that do not join are refused. -/
theorem SizedInv.mapPage (hG : Grammar W) (hW : AbsentEmpty W)
    (hI : SizedInv W (BuddyAllocator.Accounts T C N) r w) (hstocked : Stocked m T C N r P)
    (hnodes : ∀ q t, q ≠ [] → q.length ≤ 3 → node w.mem r q = some t →
      q ∈ P ∧ ∃ D : List ℕ, D.length = 4 ∧ q <+: D ∧ content w.mem r D ≠ none)
    (hP : ∀ q, q ≠ [] → q <+: path virtAddr pageSize.bottomPagingLevel
      (3 - pageSize.bottomPagingLevel) → q ∈ P)
    (hfree : ∀ D : List ℕ, D.length = 4 → pagePath virtAddr pageSize <+: D →
      content w.mem r D = none)
    (hvirt : virtAddr % pageSize.size = 0) (ha : a % pageSize.size = 0) (hlt : a < 2 ^ 52)
    (hword : Entry.Joins flags pageSize →
      W pageSize.bottomPagingLevel (Entry.mapped 0 a flags pageSize)) :
    ∃ w', mapPages m r w virtAddr a 1 pageSize flags =
        .ok (if Entry.Joins flags pageSize then .ok () else .error .invalidFlags, w') ∧
      (Entry.Joins flags pageSize → SizedInv W (BuddyAllocator.Accounts T C N) r w' ∧
        (∀ q t, q.length ≤ 3 → node w'.mem r q = some t → node w.mem r q = some t ∨
          q <+: path virtAddr pageSize.bottomPagingLevel (3 - pageSize.bottomPagingLevel)) ∧
        ∀ D : List ℕ, D.length = 4 → content w'.mem r D = if pagePath virtAddr pageSize <+: D then
          some (pageSize.bottomPagingLevel, Entry.mapped 0 a flags pageSize)
          else content w.mem r D) := by
  set bottom := pageSize.bottomPagingLevel with hbottom
  set parent := path virtAddr bottom (3 - bottom) with hparent
  set i := nextLevelIndex virtAddr bottom with hindex
  have hle : bottom ≤ 2 := bottomPagingLevel_le pageSize
  have hlen : parent.length = 3 - bottom := length_path _ _ _
  have hpath : pagePath virtAddr pageSize = parent ++ [i] := rfl
  have hfull : (parent ++ [i] ++ List.replicate bottom 0).length = 4 := by
    rw [List.length_append, List.length_append, List.length_replicate, List.length_singleton]
    omega
  have hblank := hfree _ hfull (hpath ▸ List.prefix_append _ _)
  rw [List.append_assoc] at hblank
  obtain ⟨t, w₁, hrun, hI₁, hleads⟩ := hI.openTables (m := m) hG hW hstocked
    (fun q t hne hq ht => (hnodes q t hne hq ht).1) hP hblank
  rw [← hparent] at hleads
  have hempty : w₁.mem t i = 0 := hI₁.sized.word_empty hG hW hleads.opened (by omega)
    hleads.node_eq (fun q t hne hq ht => (hnodes q t hne hq ht).2) hfree
  have hone : mapPages m r w virtAddr a 1 pageSize flags =
      .ok (if Entry.Joins flags pageSize then .ok () else .error .invalidFlags,
        w₁.write t i (Entry.mapped 0 a flags pageSize)) := by
    rw [mapPages_one hrun hvirt ha (hlt.trans (by norm_num)), ← hbottom, ← hindex, hempty,
      if_neg (by decide)]
  refine ⟨_, hone, fun hjoins => ?_⟩
  have hlevel : 3 - parent.length = bottom := by omega
  obtain ⟨hsized, hnode, hcontent⟩ := hI₁.sized.write (w := w₁) (by omega) hleads.node_eq
    (hempty ▸ child_zero) (child_of_last (Entry.last_mapped hjoins)) (hlevel ▸ hword hjoins)
  refine ⟨⟨hsized, tables_congr hnode ▸ hI₁.respected⟩, fun q u hq hu => ?_, fun D hD => ?_⟩
  · rw [hnode] at hu
    exact hleads.opened.node_new q u hq hu
  · rw [hcontent D hD, hpath, hleads.opened.content_eq D hD, hlevel,
      held_of_present (Entry.present_mapped hjoins)]

/-- **The processor reads the content.** -/
theorem BootInv.pageWalk_eq {v : VirtAddr} (hI : BootInv T C N r w) (hv : Canonical v) :
    pageWalk w.mem r v = (content w.mem r (pagePath v .size4kb)).map (translated v) :=
  hI.sizedInv.sized.pageWalk_eq grammar_bootWord marksLarge_bootWord hv

end PageTable

end Funderberker

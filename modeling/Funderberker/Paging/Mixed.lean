import Funderberker.Paging.Boot
import Funderberker.Paging.Walk

/-!
# Trees of pages of several sizes

Tables that map pages of all three sizes have leaves at three levels, so a walk may stop at
an inner table.  What they hold is `content`: for a list of indices, the word at which the
walk along them stops, if it is present.  Translation and the page walk of the processor
both read it.

Which words may stand in a table depends on the calls that are made.  That is left open
here: a `Grammar` says which words occur at a level, and all it promises is that each of
them is without flags, the entry of a table, or marked as the end of a translation.

A call first goes down to the table of its pages, and creates the tables that are missing;
as long as it meets no page on its way (`Passes`), this changes no content.

## Main definitions

* `PageTable.content` — what the tables hold.
* `PageTable.Grammar`, `PageTable.Sized` — the words of the tables, and the invariant.
* `PageTable.Opened` — tables were created along a path.

## Main results

* `Sized.write` — writing a word that leads to no table.
* `SizedInv.create_spec` — creating a table.
* `getCreateTableRangeGo_yields` — the way down.
-/

namespace Funderberker

open Panicking RadixTree

namespace Entry

/-- A word none of whose flags is set. -/
def Unused (e : Word) : Prop := getFlags e = 0

instance (e : Word) : Decidable (Unused e) := inferInstanceAs (Decidable (_ = _))

theorem unused_zero : Unused 0 := by decide

theorem Unused.getLsbD {e : Word} (h : Unused e) {i : ℕ} (hi : i < 12) : e.getLsbD i = false := by
  have hbit := congrArg (BitVec.getLsbD · i) h
  simpa [getFlags, getLsbD_flagMask, hi] using hbit

end Entry

namespace PageTable

variable {mem mem' mem'' : PhysAddr → ℕ → Word} {r t a : PhysAddr} {p q D : List ℕ}
  {i j k : ℕ} {e : Word}

/-! ## What the tables hold -/

/-- The word at which the walk along a list of indices stops, if it is present, with the number
of indices after it. -/
def content (mem : PhysAddr → ℕ → Word) (r : PhysAddr) (D : List ℕ) : Option (ℕ × Word) :=
  (RadixTree.stop child mem r D).filter fun x => x.2.getLsbD 0

/-- What a word that ends a walk holds, with `k` indices after it. -/
def held (k : ℕ) (e : Word) : Option (ℕ × Word) := if e.getLsbD 0 then some (k, e) else none

theorem held_of_present (h : e.getLsbD 0 = true) (k : ℕ) : held k e = some (k, e) := if_pos h

theorem held_of_absent (h : e.getLsbD 0 = false) (k : ℕ) : held k e = none := by
  rw [held, h]
  rfl

theorem content_of_leaf (ht : node mem r p = some t) (hi : child (mem t i) = none)
    (q : List ℕ) : content mem r (p ++ i :: q) = held q.length (mem t i) := by
  rw [content, stop_of_leaf ht hi, Option.filter_some, held]

theorem child_of_last (h : e.getLsbD 10 = true) : child e = none := by
  refine if_neg fun hp => ?_
  rw [hp.2] at h
  cases h

theorem content_of_absent (ht : node mem r p = some t) (hi : (mem t i).getLsbD 0 = false)
    (q : List ℕ) : content mem r (p ++ i :: q) = none := by
  rw [content_of_leaf ht (child_of_absent hi), held_of_absent hi]

theorem content_of_empty (ht : node mem r p = some t) (hi : mem t i = 0) (q : List ℕ) :
    content mem r (p ++ i :: q) = none :=
  content_of_absent ht (by rw [hi]; decide) q

/-! ## The invariant -/

/-- Words by level: level 3 is that of the top-level table. -/
structure Grammar (W : ℕ → Word → Prop) : Prop where
  zero : ∀ level, W level 0
  table : ∀ level a, a % 4096 = 0 → a < 2 ^ 52 → W (level + 1) (Entry.tableEntry a)
  cases : ∀ {level e}, W level e → Entry.Unused e ∨
    (∃ a, e = Entry.tableEntry a ∧ a % 4096 = 0 ∧ a < 2 ^ 52 ∧ level ≠ 0) ∨
    level ≤ 2 ∧ e.getLsbD 10 = true

/-- The tables form a tree, and hold words of the grammar. -/
structure Sized (W : ℕ → Word → Prop) (mem : PhysAddr → ℕ → Word) (r : PhysAddr) : Prop where
  tree : IsTree child mem r 3
  words : ∀ (q : List ℕ) (t : PhysAddr) (i : ℕ), q.length ≤ 3 → node mem r q = some t →
    W (3 - q.length) (mem t i)

variable {W : ℕ → Word → Prop}

/-- A word of the grammar by what a walk does at it. -/
theorem Grammar.child_cases (hG : Grammar W) {level : ℕ} (h : W level e) :
    Entry.Unused e ∨ PointsToTable e ∧ level ≠ 0 ∨ level ≤ 2 ∧ e.getLsbD 10 = true := by
  rcases hG.cases h with hunused | ⟨a, rfl, hmod, -, hlevel⟩ | hlast
  · exact Or.inl hunused
  · exact Or.inr (Or.inl ⟨pointsToTable_tableEntry hmod, hlevel⟩)
  · exact Or.inr (Or.inr hlast)

/-- A table that has just been cleared. -/
theorem sized_of_zero (hG : Grammar W) (hzero : ∀ i, mem r i = 0) : Sized W mem r := by
  refine ⟨fun p q _ _ t hp hq => ?_, fun q t i _ ht => ?_⟩
  · rw [(node_of_zero hzero hp).1, (node_of_zero hzero hq).1]
  · rw [← (node_of_zero hzero ht).2, hzero]
    exact hG.zero _

theorem content_of_zero (hzero : ∀ i, mem r i = 0) (hD : D ≠ []) : content mem r D = none := by
  cases D with
  | nil => exact absurd rfl hD
  | cons i D => exact content_of_empty (p := []) rfl (hzero i) D

/-! ## Writing a word -/

section

variable {σ : Type} {w w' : World σ}

/-- Writing a word that points to no table in place of another. -/
theorem Sized.write (hI : Sized W w.mem r) (hp : p.length ≤ 3) (ht : node w.mem r p = some t)
    (hold : child (w.mem t i) = none) (hnew : child e = none) (hW : W (3 - p.length) e) :
    Sized W (w.write t i e).mem r ∧
      (∀ q, node (w.write t i e).mem r q = node w.mem r q) ∧
      ∀ D : List ℕ, D.length = 4 → content (w.write t i e).mem r D =
        if p ++ [i] <+: D then held (3 - p.length) e else content w.mem r D := by
  have hself : (w.write t i e).mem t i = e := if_pos ⟨rfl, rfl⟩
  have hother : ∀ u j, (u = t → j ≠ i) → (w.write t i e).mem u j = w.mem u j :=
    fun u j hne => if_neg fun h => hne h.1 h.2
  have hnode : ∀ q, node (w.write t i e).mem r q = node w.mem r q := by
    refine node_congr_child fun u j => ?_
    by_cases hslot : u = t ∧ j = i
    · obtain ⟨rfl, rfl⟩ := hslot
      rw [hself, hold, hnew]
    · rw [hother u j fun hu hj => hslot ⟨hu, hj⟩]
  refine ⟨⟨hI.tree.congr fun q _ => hnode q, fun q u j hq hu => ?_⟩, hnode, fun D hD => ?_⟩
  · rw [hnode] at hu
    by_cases hslot : u = t ∧ j = i
    · obtain ⟨rfl, rfl⟩ := hslot
      obtain rfl := hI.tree q p hq hp u hu ht
      rw [hself]
      exact hW
    · rw [hother u j fun hu hj => hslot ⟨hu, hj⟩]
      exact hI.words q u j hq hu
  · by_cases hpre : p ++ [i] <+: D
    · obtain ⟨rest, rfl⟩ := hpre
      have hrest : rest.length = 3 - p.length := by
        rw [List.length_append, List.length_append, List.length_singleton] at hD
        omega
      rw [if_pos (List.prefix_append _ _), List.append_assoc, List.singleton_append,
        content_of_leaf ((hnode p).trans ht) (by rw [hself]; exact hnew), hself, hrest]
    · rw [if_neg hpre, content, content,
        stop_eq_of_not_prefix hI.tree hp ht (by omega) hpre fun u j _ => hother u j]

theorem tables_congr (h : ∀ q, node mem' r q = node mem r q) : tables mem' r = tables mem r := by
  ext u
  exact exists_congr fun q => and_congr_right fun _ => by rw [h]

end

/-! ## Creating tables -/

/-- Tables were added along a path, and hold nothing. -/
structure Opened (r : PhysAddr) (p : List ℕ) (mem mem' : PhysAddr → ℕ → Word) : Prop where
  content_eq : ∀ D : List ℕ, D.length = 4 → content mem' r D = content mem r D
  node_old : ∀ (q : List ℕ) t, q.length ≤ 3 → node mem r q = some t → node mem' r q = some t
  node_new : ∀ (q : List ℕ) t, q.length ≤ 3 → node mem' r q = some t →
    node mem r q = some t ∨ q <+: p

theorem Opened.refl (r : PhysAddr) (p : List ℕ) (mem : PhysAddr → ℕ → Word) :
    Opened r p mem mem :=
  ⟨fun _ _ => rfl, fun _ _ _ => id, fun _ _ _ => Or.inl⟩

theorem Opened.trans (h : Opened r p mem mem') (h' : Opened r q mem' mem'') (hpq : p <+: q) :
    Opened r q mem mem'' where
  content_eq D hD := (h'.content_eq D hD).trans (h.content_eq D hD)
  node_old q' t hq' ht := h'.node_old q' t hq' (h.node_old q' t hq' ht)
  node_new q' t hq' ht := by
    rcases h'.node_new q' t hq' ht with ht | hpre
    · exact (h.node_new q' t hq' ht).imp_right fun hpre => hpre.trans hpq
    · exact Or.inr hpre

/-- A table that has just been created holds nothing. -/
theorem Opened.of_hangs (hT : IsTree child mem r 3) (hp : p.length < 3)
    (ht : node mem r p = some t) (hhangs : Hangs mem t i a mem') (ha : a ∉ tables mem r) :
    Opened r (p ++ [i]) mem mem' := by
  have hfresh : ∀ q : List ℕ, q.length ≤ 3 → node mem r q ≠ some a :=
    fun q hq h => ha (mem_tables hq h)
  have hnode := node_extend hT hp ht hhangs.extends hfresh
  have hlen : (p ++ [i]).length ≤ 3 := by
    rw [List.length_append, List.length_singleton]
    omega
  refine ⟨fun D hD => ?_, fun q u hq hu => ?_, fun q u hq hu => ?_⟩
  · by_cases hpre : (p ++ [i]) <+: D
    · -- The word was empty, and so are the words of the new table.
      obtain ⟨rest, rfl⟩ := hpre
      rw [List.append_assoc, List.singleton_append, content_of_empty ht hhangs.free]
      cases rest with
      | nil =>
          rw [List.append_nil] at hD
          omega
      | cons j rest =>
          rw [List.append_cons]
          exact content_of_empty ((hnode _ hlen).1 rfl) (hhangs.cleared j) rest
    · rw [content, content, stop_extend hT hp ht hhangs.extends hfresh (by omega) hpre]
  · have hqp : q ≠ p ++ [i] := by
      rintro rfl
      rw [node_concat_eq, slot_of_some ht, hhangs.free, child_zero] at hu
      cases hu
    exact ((hnode q hq).2 hqp).trans hu
  · by_cases hqp : q = p ++ [i]
    · exact Or.inr (hqp ▸ List.prefix_rfl)
    · exact Or.inl (((hnode q hq).2 hqp).symm.trans hu)

/-- The invariant after a table has been created. -/
theorem Sized.hang (hG : Grammar W) (hI : Sized W mem r) (hp : p.length < 3)
    (ht : node mem r p = some t) (hhangs : Hangs mem t i a mem') (ha52 : a < 2 ^ 52)
    (ha : a ∉ tables mem r) : Sized W mem' r := by
  have hfresh : ∀ q : List ℕ, q.length ≤ 3 → node mem r q ≠ some a :=
    fun q hq h => ha (mem_tables hq h)
  have hnode := node_extend hI.tree hp ht hhangs.extends hfresh
  refine ⟨hI.tree.extend hp ht hhangs.extends hfresh, fun q u j hq hu => ?_⟩
  by_cases hqp : q = p ++ [i]
  · obtain rfl : a = u := Option.some.inj (((hnode q hq).1 hqp).symm.trans hu)
    rw [hhangs.cleared]
    exact hG.zero _
  · have hu' : node mem r q = some u := ((hnode q hq).2 hqp).symm.trans hu
    by_cases hslot : u = t ∧ j = i
    · obtain ⟨rfl, rfl⟩ := hslot
      obtain rfl := hI.tree q p hq hp.le u hu' ht
      rw [hhangs.entry, show 3 - q.length = 2 - q.length + 1 by omega]
      exact hG.table _ a hhangs.aligned ha52
    · have hua : u ≠ a := by
        rintro rfl
        exact hfresh q hq hu'
      rw [hhangs.other u j hua fun hu hj => hslot ⟨hu, hj⟩]
      exact hI.words q u j hq hu'

/-- What creating one table under entry `i` of the table at the end of `p` does. -/
structure Created (r : PhysAddr) (p : List ℕ) (t : PhysAddr) (i : ℕ)
    (mem mem' : PhysAddr → ℕ → Word) : Prop where
  opened : Opened r (p ++ [i]) mem mem'
  node_eq : node mem' r (p ++ [i]) = some (Entry.frame (mem' t i))
  cleared : ∀ j, mem' (Entry.frame (mem' t i)) j = 0

/-- Of a word without flags, nothing is left when a table is created under it. -/
theorem linked_unused (h : Entry.Unused e) (ha : a % 4096 = 0) :
    linked e a = Entry.tableEntry a := by
  rw [← linked_zero]
  refine BitVec.eq_of_getLsbD_eq fun j hj => ?_
  rw [getLsbD_linked ha hj, getLsbD_linked ha hj]
  by_cases hlow : j < 12
  · rw [h.getLsbD hlow, Entry.unused_zero.getLsbD hlow]
  · rw [if_neg hlow, if_neg hlow]

section

variable {σ : Type} [PmmAllocator σ] {m : Overflow} {w : World σ}

/-- Creating a table under a word without flags. -/
theorem Sized.create {s : σ} (hG : Grammar W) (hI : Sized W w.mem r) (hp : p.length < 3)
    (ht : node w.mem r p = some t) (hunused : Entry.Unused (w.mem t i))
    (halloc : PmmAllocator.allocate m w.pmm 1 1 = .ok (.ok a, s)) (hmod : a % 4096 = 0)
    (ha52 : a < 2 ^ 52) (ha : a ∉ tables w.mem r) :
    ∃ w', createNextLevel m t i w = .ok w' ∧ w'.pmm = s ∧ Sized W w'.mem r ∧
      tables w'.mem r = insert a (tables w.mem r) ∧ Created r p t i w.mem w'.mem := by
  have ha64 : a < 2 ^ 64 := ha52.trans (by norm_num)
  have hta : t ≠ a := by
    intro heq
    exact ha (heq ▸ mem_tables hp.le ht)
  have habsent : (w.mem t i).getLsbD 0 = false := hunused.getLsbD (by omega)
  -- Clearing the word first changes neither the content nor what follows.
  obtain ⟨hI₀, hnode₀, hcontent₀⟩ := hI.write hp.le ht (child_of_absent habsent) child_zero
    (hG.zero _)
  set w' : World σ := ({ w with pmm := s }.memset a).write t i (linked (w.mem t i) a) with hw'
  have hself : w'.mem t i = Entry.tableEntry a := by
    rw [← linked_unused hunused hmod]
    exact if_pos ⟨rfl, rfl⟩
  have hhangs : Hangs (w.write t i 0).mem t i a w'.mem := by
    refine ⟨hmod, ha64, if_pos ⟨rfl, rfl⟩, hself, fun j => ?_, fun u j hu hne => ?_⟩
    · simp [hw', World.write, World.memset, hta.symm]
    · have hslot : ¬ (u = t ∧ j = i) := fun h => hne h.1 h.2
      simp [hw', World.write, World.memset, hslot, hu]
  have ht₀ : node (w.write t i 0).mem r p = some t := (hnode₀ p).trans ht
  have htables := tables_congr hnode₀
  have ha₀ : a ∉ tables (w.write t i 0).mem r := htables ▸ ha
  have hopen₀ : Opened r (p ++ [i]) w.mem (w.write t i 0).mem := by
    refine ⟨fun D hD => ?_, fun q u _ hu => (hnode₀ q).trans hu,
      fun q u _ hu => Or.inl ((hnode₀ q).symm.trans hu)⟩
    rw [hcontent₀ D hD]
    by_cases hpre : p ++ [i] <+: D
    · obtain ⟨rest, rfl⟩ := hpre
      rw [if_pos (List.prefix_append _ _), List.append_assoc, List.singleton_append,
        content_of_absent ht habsent]
      rfl
    · rw [if_neg hpre]
  have hframe : Entry.frame (w'.mem t i) = a := by
    rw [hself, Entry.frame_tableEntry hmod ha64]
  have hopen := Opened.of_hangs hI₀.tree hp ht₀ hhangs ha₀
  refine ⟨w', createNextLevel_run halloc hmod hta, rfl, hI₀.hang hG hp ht₀ hhangs ha52 ha₀, ?_,
    hopen₀.trans hopen List.prefix_rfl, ?_, ?_⟩
  · rw [tables_extend hI₀.tree hp ht₀ hhangs.extends ha₀, htables]
  · rw [node_concat_eq, slot_of_some (hopen.node_old p t hp.le ht₀), hhangs.child_entry, hframe]
  · rw [hframe]
    exact hhangs.cleared

/-- The invariant of tables and PMM: the PMM hands out none of the tables. -/
structure SizedInv (W : ℕ → Word → Prop) (respects : Set PhysAddr → σ → Prop) (r : PhysAddr)
    (w : World σ) : Prop where
  sized : Sized W w.mem r
  respected : respects (tables w.mem r) w.pmm

variable {bound : ℕ} {respects : Set PhysAddr → σ → Prop}

/-- A table is created in a frame that the PMM has. -/
theorem SizedInv.create {s : σ} (hG : Grammar W) (law : Supplies σ m bound respects)
    (hbound : bound ≤ 2 ^ 52) (hI : SizedInv W respects r w) (hp : p.length < 3)
    (ht : node w.mem r p = some t) (hunused : Entry.Unused (w.mem t i))
    (halloc : PmmAllocator.allocate m w.pmm 1 1 = .ok (.ok a, s)) :
    ∃ w', createNextLevel m t i w = .ok w' ∧ SizedInv W respects r w' ∧
      Created r p t i w.mem w'.mem := by
  obtain ⟨hmod, hlt, ha, hres⟩ := law.allocate hI.respected halloc
  obtain ⟨w', hrun, rfl, hsized, htables, hcreated⟩ :=
    hI.sized.create hG hp ht hunused halloc hmod (hlt.trans_le hbound) ha
  exact ⟨w', hrun, ⟨hsized, htables ▸ hres⟩, hcreated⟩

/-- A table is created, or the PMM has no frame. -/
theorem SizedInv.create_spec (hG : Grammar W) (law : Supplies σ m bound respects)
    (hbound : bound ≤ 2 ^ 52) (hI : SizedInv W respects r w) (hp : p.length < 3)
    (ht : node w.mem r p = some t) (hunused : Entry.Unused (w.mem t i)) :
    Yields (Stops σ m) (fun w' => SizedInv W respects r w' ∧ Created r p t i w.mem w'.mem)
      (createNextLevel m t i w) := by
  by_cases hframe : ∃ a s, PmmAllocator.allocate m w.pmm 1 1 = .ok (.ok a, s)
  · obtain ⟨a, s, halloc⟩ := hframe
    obtain ⟨w', hrun, hI', hcreated⟩ := hI.create hG law hbound hp ht hunused halloc
    rw [hrun, yields_ok]
    exact ⟨hI', hcreated⟩
  · exact createNextLevel_stops fun a s halloc => hframe ⟨a, s, halloc⟩

end

/-! ## The way down -/

/-- The indices that lead to the table of a page. -/
def parentPath (virtAddr : VirtAddr) (pageSize : PageSize) : List ℕ :=
  path virtAddr pageSize.bottomPagingLevel (3 - pageSize.bottomPagingLevel)

/-- The indices that lead to the word of a page. -/
def pagePath (virtAddr : VirtAddr) (pageSize : PageSize) : List ℕ :=
  path virtAddr pageSize.bottomPagingLevel (3 - pageSize.bottomPagingLevel) ++
    [nextLevelIndex virtAddr pageSize.bottomPagingLevel]

theorem length_path (addr : VirtAddr) (bottom k : ℕ) : (path addr bottom k).length = k := by
  induction k with
  | zero => rfl
  | succ k ih => rw [path, List.length_cons, ih]

theorem bottomPagingLevel_le (s : PageSize) : s.bottomPagingLevel ≤ 2 := by
  cases s <;> decide

theorem exists_bottomPagingLevel (h : k ≤ 2) : ∃ s : PageSize, k = s.bottomPagingLevel := by
  obtain rfl | rfl | rfl : k = 0 ∨ k = 1 ∨ k = 2 := by omega
  · exact ⟨.size4kb, rfl⟩
  · exact ⟨.size2mb, rfl⟩
  · exact ⟨.size1gb, rfl⟩

theorem length_parentPath (virtAddr : VirtAddr) (pageSize : PageSize) :
    (parentPath virtAddr pageSize).length + pageSize.bottomPagingLevel = 3 := by
  have := bottomPagingLevel_le pageSize
  rw [parentPath, length_path]
  omega

theorem length_pagePath (virtAddr : VirtAddr) (pageSize : PageSize) :
    (pagePath virtAddr pageSize).length + pageSize.bottomPagingLevel = 4 := by
  have := bottomPagingLevel_le pageSize
  rw [pagePath, List.length_append, length_path, List.length_singleton]
  omega

/-- The indices of an address begin with the path of its page. -/
theorem pagePath_begins (v : VirtAddr) (s : PageSize) :
    pagePath v s <+: pagePath v .size4kb := by
  cases s with
  | size4kb => exact List.prefix_rfl
  | size2mb => exact ⟨[_], rfl⟩
  | size1gb => exact ⟨[_, _], rfl⟩

theorem eq_pagePath_of_prefix {v : VirtAddr} {s : PageSize} {D : List ℕ}
    (hpre : D <+: pagePath v .size4kb) (hlen : D.length + s.bottomPagingLevel = 4) :
    D = pagePath v s := by
  have heq : D.length = (pagePath v s).length :=
    Nat.add_right_cancel (hlen.trans (length_pagePath v s).symm)
  exact (List.prefix_of_prefix_length_le hpre (pagePath_begins v s) heq.le).eq_of_length heq

theorem nextLevelIndex_lt (addr : VirtAddr) (level : ℕ) : nextLevelIndex addr level < 512 := by
  rw [nextLevelIndex_eq]
  exact Nat.mod_lt _ (by norm_num)

/-- The way is checked one level after the other. -/
def decidablePasses (P : Word → Prop) [DecidablePred P] (mem : PhysAddr → ℕ → Word)
    (addr : VirtAddr) (bottom : ℕ) :
    ∀ (k : ℕ) (t : PhysAddr), Decidable (Passes P mem addr bottom k t)
  | 0, _ => isTrue trivial
  | k + 1, _ =>
      have := decidablePasses P mem addr bottom k
      inferInstanceAs (Decidable (_ ∨ _ ∧ _))

instance (P : Word → Prop) [DecidablePred P] (mem : PhysAddr → ℕ → Word) (addr : VirtAddr)
    (bottom k : ℕ) (t : PhysAddr) : Decidable (Passes P mem addr bottom k t) :=
  decidablePasses P mem addr bottom k t

/-- What a way down that creates tables changes: the table at its end is there, with the entries
it had. -/
structure Leads (r : PhysAddr) (p : List ℕ) (mem : PhysAddr → ℕ → Word) (t : PhysAddr)
    (mem' : PhysAddr → ℕ → Word) : Prop where
  opened : Opened r p mem mem'
  node_eq : node mem' r p = some t
  slot_eq : ∀ i, slot mem' r p i = slot mem r p i

theorem Created.slot_eq (h : Created r p t i mem mem') (ht : node mem r p = some t)
    (hi : child (mem t i) = none) (q : List ℕ) (j : ℕ) :
    slot mem' r (p ++ [i] ++ q) j = slot mem r (p ++ [i] ++ q) j := by
  have hnone : node mem r (p ++ [i]) = none := by
    rw [node_concat_eq, slot_of_some ht, hi]
  rw [slot_of_none (node_append_of_none hnone q)]
  cases q with
  | nil => rw [List.append_nil, slot_of_some h.node_eq, h.cleared]
  | cons l q =>
      have hend : node mem' r (p ++ [i] ++ [l]) = none := by
        rw [node_concat_eq, slot_of_some h.node_eq, h.cleared, child_zero]
      rw [List.append_cons]
      exact slot_of_none (node_append_of_none hend q) j

section

variable {σ : Type} [PmmAllocator σ] {m : Overflow} {w : World σ} {E : Panic → Prop}
  {I : World σ → Prop} {addr : VirtAddr} {bottom : ℕ}

/-- The loop of `get_create_table_range` on a way that meets no page, for any invariant that
the creation of a table keeps. -/
theorem getCreateTableRangeGo_yields
    (hcreate : ∀ (w : World σ) (q : List ℕ) (t : PhysAddr) (i : ℕ), I w → q.length < 3 →
      node w.mem r q = some t → Entry.Unused (w.mem t i) → q ++ [i] <+: D →
      Yields E (fun w' => I w' ∧ Created r q t i w.mem w'.mem) (createNextLevel m t i w))
    (hI : I w) (hp : p.length + k ≤ 3) (ht : node w.mem r p = some t)
    (hD : p ++ path addr bottom k <+: D)
    (hway : Passes Entry.Unused w.mem addr bottom k t) :
    Yields E (fun x => I x.2 ∧ Leads r (p ++ path addr bottom k) w.mem x.1 x.2.mem)
      (getCreateTableRangeGo m addr bottom k t w) := by
  induction k generalizing p t w with
  | zero =>
      rw [path, List.append_nil]
      exact ⟨hI, .refl r p w.mem, ht, fun _ => rfl⟩
  | succ k ih =>
      rw [path, List.append_cons] at hD ⊢
      rw [getCreateTableRangeGo, Flags.getPresent_getFlags]
      rw [Passes] at hway
      set i := nextLevelIndex addr (bottom + (k + 1))
      have hpre : p ++ [i] <+: p ++ [i] ++ path addr bottom k := List.prefix_append _ _
      have hlen : (p ++ [i]).length + k ≤ 3 := by
        rw [List.length_append, List.length_singleton]
        omega
      rcases hway with hunused | ⟨hpoints, hway⟩
      · have habsent : (w.mem t i).getLsbD 0 = false := hunused.getLsbD (by omega)
        rw [if_pos (by rw [habsent]; exact Bool.false_ne_true)]
        refine (hcreate w p t i hI (by omega) ht hunused (hpre.trans hD)).bind ?_
        intro w₁ h₁
        have hway₁ : Passes Entry.Unused w₁.mem addr bottom k (Entry.frame (w₁.mem t i)) := by
          cases k with
          | zero => trivial
          | succ k => exact Or.inl (by rw [h₁.2.cleared]; exact Entry.unused_zero)
        rw [Entry.nextLevelTable_eq, ok_bind]
        refine (ih h₁.1 hlen h₁.2.node_eq hD hway₁).imp ?_
        intro x hx
        refine ⟨hx.1, h₁.2.opened.trans hx.2.opened hpre, hx.2.node_eq, fun j => ?_⟩
        rw [hx.2.slot_eq, h₁.2.slot_eq ht (child_of_absent habsent)]
      · rw [if_neg (not_not.mpr hpoints.1), ok_bind, Entry.nextLevelTable_eq, ok_bind]
        refine ih hI hlen ?_ hD hway
        rw [node_concat_eq, slot_of_some ht, child_of_points hpoints]

end

end PageTable

end Funderberker

import Funderberker.Paging.Mixed

/-!
# Going through the entries of a table

Once a call has come to the table of its pages, it goes through consecutive entries of it and
changes the content below each of them (`Swept`), until it is done or meets an entry that it
does not accept (`Ends`).

Translation and the page walk of the processor read the content.  The processor stops above the
bottom level at the page-size bit, and the kernel at its own mark, so they agree on words in
which the two go together (`MarksLarge`).

## Main definitions

* `Entry.mapped` — the word that mapping a page leaves.
* `PageTable.Swept`, `PageTable.Ends` — what a pass changes, and where it ends.
* `PageTable.MarksLarge` — large pages have the page-size bit.

## Main results

* `mapPages_of_aligned`, `mapPages_one` — `map_pages` after its checks.
* `Sized.mapPagesGo_spec`, `Sized.unmapPagesGo_spec` — the pass through the entries.
* `Sized.translate_eq`, `Sized.pageWalk_eq` — reading the content.
-/

namespace Funderberker

open Panicking RadixTree

namespace Entry

variable {e : Word} {a : PhysAddr} {s : PageSize} {flags : Flags} {i : ℕ}

/-- The word that mapping a page leaves in an entry that was not present. -/
def mapped (e : Word) (a : PhysAddr) (flags : Flags) (s : PageSize) : Word :=
  if Joins flags s then setFlags (readdressed e a s) (leafFlags flags s) else readdressed e a s

theorem map_eq (he : e.getLsbD 0 = false) (ha : a % s.size = 0) (flags : Flags) :
    map e a flags s =
      .ok (if Joins flags s then .ok () else .error .invalidFlags, mapped e a flags s) := by
  rw [map_of_absent he ha, mapped]
  by_cases h : Joins flags s
  · simp only [if_pos h]
  · simp only [if_neg h]

theorem getLsbD_mapped (h : Joins flags s) (hi : i < 12) :
    (mapped e a flags s).getLsbD i = (leafFlags flags s).getLsbD i := by
  rw [mapped, if_pos h, getLsbD_setFlags (by omega), decide_eq_false (by omega), Bool.false_and,
    Bool.false_or]

/-- Flags that do not join leave the flags of the entry. -/
theorem getLsbD_mapped_of_not (h : ¬ Joins flags s) (ha : a % s.size = 0) (hi : i < 12) :
    (mapped e a flags s).getLsbD i = e.getLsbD i := by
  have := s.offsetBitCount_le
  rw [mapped, if_neg h, getLsbD_readdressed ha, if_pos (by omega)]

theorem present_mapped (h : Joins flags s) : (mapped e a flags s).getLsbD 0 = true := by
  rw [getLsbD_mapped h (by omega), getLsbD_leafFlags]
  simp

theorem last_mapped (h : Joins flags s) : (mapped e a flags s).getLsbD 10 = true := by
  rw [getLsbD_mapped h (by omega), getLsbD_leafFlags]
  simp

end Entry

/-- The physical address of page `i` of a mapping. -/
def addrAt (physAddr : PhysAddr) (s : PageSize) (i : ℕ) : PhysAddr :=
  (physAddr + i * s.size) % 2 ^ 64

theorem addrAt_mod {physAddr : PhysAddr} {s : PageSize} (h : physAddr % s.size = 0) (i : ℕ) :
    addrAt physAddr s i % s.size = 0 := by
  have hdvd : s.size ∣ 2 ^ 64 := by
    cases s <;> decide
  rw [addrAt, Nat.mod_mod_of_dvd _ hdvd, Nat.add_mul_mod_self_right]
  exact h

/-- Nothing wraps below `2 ^ 52`. -/
theorem addrAt_eq {physAddr n i : ℕ} {s : PageSize} (h : physAddr + n * s.size ≤ 2 ^ 52)
    (hi : i < n) : addrAt physAddr s i = physAddr + i * s.size ∧
      physAddr + i * s.size < 2 ^ 52 := by
  have hlt : physAddr + i * s.size < 2 ^ 52 :=
    calc
      physAddr + i * s.size < physAddr + (i + 1) * s.size :=
        Nat.add_lt_add_left (Nat.mul_lt_mul_of_pos_right (Nat.lt_succ_self i) s.size_pos) _
      _ ≤ physAddr + n * s.size := Nat.add_le_add_left (Nat.mul_le_mul_right _ hi) _
      _ ≤ 2 ^ 52 := h
  exact ⟨Nat.mod_eq_of_lt (hlt.trans (by norm_num)), hlt⟩

theorem World.write_self {σ : Type} (w : World σ) (t : PhysAddr) (i : ℕ) :
    w.write t i (w.mem t i) = w := by
  refine congrArg (World.mk · w.pmm) (funext fun u => funext fun j => ?_)
  by_cases h : u = t ∧ j = i
  · rw [if_pos h, h.1, h.2]
  · rw [if_neg h]

theorem World.write_eq_self_iff {σ : Type} {w : World σ} {t : PhysAddr} {i : ℕ} {e : Word} :
    w.write t i e = w ↔ e = w.mem t i := by
  constructor
  · intro h
    rw [← h]
    exact (if_pos ⟨rfl, rfl⟩).symm
  · rintro rfl
    exact write_self w t i

namespace PageTable

variable {mem mem' : PhysAddr → ℕ → Word} {r t : PhysAddr} {p D : List ℕ} {i j k first : ℕ}
  {f : ℕ → Word → Word} {W : ℕ → Word → Prop}

/-- The first `j` entries of the table at the end of `p`, from entry `first` on, were changed. -/
structure Swept (r : PhysAddr) (p : List ℕ) (t : PhysAddr) (first j : ℕ) (f : ℕ → Word → Word)
    (mem mem' : PhysAddr → ℕ → Word) : Prop where
  node_eq : ∀ q, node mem' r q = node mem r q
  same : ∀ D : List ℕ, D.length = 4 → (∀ l < j, ¬ p ++ [first + l] <+: D) →
    content mem' r D = content mem r D
  changed : ∀ l < j, ∀ D : List ℕ, D.length = 4 → p ++ [first + l] <+: D →
    content mem' r D = held (3 - p.length) (f l (mem t (first + l)))
  entries : ∀ l < j, mem' t (first + l) = f l (mem t (first + l))
  prior : ∀ i < first, mem' t i = mem t i

theorem Swept.refl (r : PhysAddr) (p : List ℕ) (t : PhysAddr) (first : ℕ) (f : ℕ → Word → Word)
    (mem : PhysAddr → ℕ → Word) : Swept r p t first 0 f mem mem :=
  ⟨fun _ => rfl, fun _ _ _ => rfl, fun _ hl => absurd hl (Nat.not_lt_zero _),
    fun _ hl => absurd hl (Nat.not_lt_zero _), fun _ _ => rfl⟩

/-- How a pass ends: every entry was accepted, or the first that was not ends it. -/
def Ends (accepts : Word → Prop) (t : PhysAddr) (first k j : ℕ) (mem : PhysAddr → ℕ → Word)
    (res : Except PagingError Unit) : Prop :=
  (∀ l < j, accepts (mem t (first + l))) ∧
    (res = .ok () ∧ j = k ∨
      (∃ err, res = .error err) ∧ j < k ∧ ¬ accepts (mem t (first + j)))

theorem eq_of_concat_prefix (hi : p ++ [i] <+: D) (hj : p ++ [j] <+: D) : i = j := by
  have hle : (p ++ [i]).length ≤ (p ++ [j]).length := by simp
  have heq := (List.prefix_of_prefix_length_le hi hj hle).eq_of_length (by simp)
  simpa using heq

section

variable {σ : Type} {w : World σ}

/-- One entry, and then the others. -/
theorem Swept.cons
    (hnode : ∀ q, node (w.write t first (f 0 (w.mem t first))).mem r q = node w.mem r q)
    (hwrite : ∀ D : List ℕ, D.length = 4 →
      content (w.write t first (f 0 (w.mem t first))).mem r D =
        if p ++ [first] <+: D then held (3 - p.length) (f 0 (w.mem t first))
        else content w.mem r D)
    (h : Swept r p t (first + 1) j (fun l => f (l + 1))
      (w.write t first (f 0 (w.mem t first))).mem mem') :
    Swept r p t first (j + 1) f w.mem mem' := by
  have hshift : ∀ l, first + 1 + l = first + (l + 1) := by
    intro l
    omega
  have hother : ∀ i, i ≠ first →
      (w.write t first (f 0 (w.mem t first))).mem t i = w.mem t i :=
    fun i hi => if_neg fun hslot => hi hslot.2
  refine ⟨fun q => (h.node_eq q).trans (hnode q), fun D hD hnot => ?_, fun l hl D hD hpre => ?_,
    fun l hl => ?_, fun i hi => ?_⟩
  · rw [h.same D hD, hwrite D hD]
    · exact if_neg (hnot 0 (by omega))
    intro l hl
    rw [hshift]
    exact hnot (l + 1) (by omega)
  · cases l with
    | zero =>
        rw [h.same D hD, hwrite D hD]
        · exact if_pos hpre
        · intro l _ hpre'
          have := eq_of_concat_prefix hpre hpre'
          omega
    | succ l =>
        rw [← hshift] at hpre ⊢
        rw [h.changed l (by omega) D hD hpre, hother _ (by omega)]
  · cases l with
    | zero => exact (h.prior first (by omega)).trans (if_pos ⟨rfl, rfl⟩)
    | succ l => rw [← hshift, h.entries l (by omega), hother _ (by omega)]
  · rw [h.prior i (by omega), hother i (by omega)]

/-- Writing over an entry that is not present, without making it so. -/
theorem Swept.of_absent {e : Word} (ht : node w.mem r p = some t)
    (hold : (w.mem t first).getLsbD 0 = false) (hnew : e.getLsbD 0 = false)
    (hnode : ∀ q, node (w.write t first e).mem r q = node w.mem r q)
    (hwrite : ∀ D : List ℕ, D.length = 4 → content (w.write t first e).mem r D =
      if p ++ [first] <+: D then held (3 - p.length) e else content w.mem r D) :
    Swept r p t first 0 f w.mem (w.write t first e).mem := by
  refine ⟨hnode, fun D hD _ => ?_, fun l hl => absurd hl (Nat.not_lt_zero l),
    fun l hl => absurd hl (Nat.not_lt_zero l), fun i hi => if_neg fun hslot => by omega⟩
  rw [hwrite D hD, held_of_absent hnew]
  by_cases hpre : p ++ [first] <+: D
  · obtain ⟨rest, rfl⟩ := hpre
    rw [if_pos (List.prefix_append _ _), List.append_assoc, List.singleton_append,
      content_of_absent ht hold]
  · rw [if_neg hpre]

theorem ends_done (accepts : Word → Prop) (t : PhysAddr) (first : ℕ)
    (mem : PhysAddr → ℕ → Word) : Ends accepts t first 0 0 mem (.ok ()) :=
  ⟨fun l hl => absurd hl (Nat.not_lt_zero l), Or.inl ⟨rfl, rfl⟩⟩

theorem ends_refused {accepts : Word → Prop} {err : PagingError}
    (h : ¬ accepts (mem t first)) : Ends accepts t first (k + 1) 0 mem (.error err) :=
  ⟨fun l hl => absurd hl (Nat.not_lt_zero l), Or.inr ⟨⟨err, rfl⟩, Nat.succ_pos k, h⟩⟩

/-- An entry that is accepted, and then the others. -/
theorem Ends.cons {accepts : Word → Prop} {e : Word} {res : Except PagingError Unit}
    (hfirst : accepts (w.mem t first))
    (h : Ends accepts t (first + 1) k j (w.write t first e).mem res) :
    Ends accepts t first (k + 1) (j + 1) w.mem res := by
  have hother : ∀ l, (w.write t first e).mem t (first + 1 + l) = w.mem t (first + (l + 1)) := by
    intro l
    rw [show first + (l + 1) = first + 1 + l by omega]
    exact if_neg fun hslot => by omega
  obtain ⟨hall, hend⟩ := h
  simp only [hother] at hall hend
  refine ⟨fun l hl => ?_, ?_⟩
  · cases l with
    | zero => exact hfirst
    | succ l => exact hall l (by omega)
  · rcases hend with ⟨hres, rfl⟩ | ⟨herr, hlt, hnot⟩
    · exact Or.inl ⟨hres, rfl⟩
    · exact Or.inr ⟨herr, by omega, hnot⟩

end

section

variable {σ : Type} [PmmAllocator σ] {m : Overflow} {w : World σ} {s : PageSize} {flags : Flags}
  {physAddr : PhysAddr} {toSkip : ℕ}

theorem sanityAssert_eq {baseAddr : VirtAddr} (h : baseAddr % s.size = 0) :
    sanityAssert m (baseAddr % s.size = 0) = .ok () :=
  if_neg fun hc => hc.2 h

theorem getCreateTableRange_of_aligned {baseAddr : VirtAddr} (h : baseAddr % s.size = 0) :
    getCreateTableRange m r w baseAddr s =
      getCreateTableRangeGo m baseAddr s.bottomPagingLevel (3 - s.bottomPagingLevel) r w := by
  rw [getCreateTableRange, sanityAssert_eq h, ok_bind, MAX_BOTTOM_PAGING_LEVEL]

/-- `map_pages` after the checks of the addresses. -/
theorem mapPages_of_aligned {baseAddr : VirtAddr} {n : ℕ} (hbase : baseAddr % s.size = 0)
    (hphys : physAddr % s.size = 0) : mapPages m r w baseAddr physAddr n s flags =
      (getCreateTableRangeGo m baseAddr s.bottomPagingLevel (3 - s.bottomPagingLevel) r w >>=
        fun x => Usize.add m (nextLevelIndex baseAddr s.bottomPagingLevel) n >>= fun sum =>
          if sum > ENTRIES_PER_TABLE then .ok (.error .badPageCountAndAddressCombination, x.2)
          else mapPagesGo m x.1 (nextLevelIndex baseAddr s.bottomPagingLevel) physAddr s flags
            (min n (ENTRIES_PER_TABLE - nextLevelIndex baseAddr s.bottomPagingLevel)) 0 x.2) := by
  rw [mapPages, if_neg (not_not.mpr hbase), if_neg (not_not.mpr hphys),
    getCreateTableRange_of_aligned hbase]

/-- One page, once its table is there. -/
theorem mapPages_one {virtAddr : VirtAddr} {w' : World σ}
    (hrun : getCreateTableRangeGo m virtAddr s.bottomPagingLevel (3 - s.bottomPagingLevel) r w =
      .ok (t, w')) (hvirt : virtAddr % s.size = 0) (ha : a % s.size = 0) (hlt : a < 2 ^ 64) :
    mapPages m r w virtAddr a 1 s flags =
      if (w'.mem t (nextLevelIndex virtAddr s.bottomPagingLevel)).getLsbD 0 then
        .ok (.error .pageAlreadyPresent, w')
      else .ok (if Entry.Joins flags s then .ok () else .error .invalidFlags,
        w'.write t (nextLevelIndex virtAddr s.bottomPagingLevel)
          (Entry.mapped (w'.mem t (nextLevelIndex virtAddr s.bottomPagingLevel)) a flags s)) := by
  have hi := nextLevelIndex_lt virtAddr s.bottomPagingLevel
  rw [mapPages_of_aligned hvirt ha, hrun, ok_bind, Usize.add_eq (by omega), ok_bind,
    ENTRIES_PER_TABLE, if_neg (by omega), Nat.min_eq_left (by omega), mapPagesGo,
    Usize.mul_eq (by omega), ok_bind, Nat.zero_mul, Usize.add_eq (by omega), ok_bind,
    Nat.add_zero, Nat.add_zero]
  cases hpres : (w'.mem t (nextLevelIndex virtAddr s.bottomPagingLevel)).getLsbD 0 with
  | true =>
      rw [Entry.map_of_present hpres, ok_bind, if_pos rfl]
      dsimp only
      rw [World.write_self]
  | false =>
      rw [Entry.map_eq hpres ha, ok_bind, if_neg Bool.false_ne_true]
      by_cases hjoins : Entry.Joins flags s
      · simp only [if_pos hjoins]
        rfl
      · simp only [if_neg hjoins]

/-- The entries that mapping accepts. -/
def Vacant (flags : Flags) (s : PageSize) (e : Word) : Prop :=
  e.getLsbD 0 = false ∧ Entry.Joins flags s

/-- The loop of `map_pages`. -/
theorem Sized.mapPagesGo_spec (hI : Sized W w.mem r) (hp : p.length ≤ 3)
    (ht : node w.mem r p = some t) (hlevel : 3 - p.length = s.bottomPagingLevel)
    (hphys : physAddr % s.size = 0) (hi : i + k ≤ 512)
    (hclosed : ∀ l < i + k, ∀ e, W s.bottomPagingLevel e → e.getLsbD 0 = false →
      W s.bottomPagingLevel (Entry.mapped e (addrAt physAddr s l) flags s)) :
    Yields (Stops σ m) (fun x => Sized W x.2.mem r ∧ x.2.pmm = w.pmm ∧ ∃ j ≤ k,
      Swept r p t (toSkip + i) j (fun l e => Entry.mapped e (addrAt physAddr s (i + l)) flags s)
        w.mem x.2.mem ∧
      Ends (Vacant flags s) t (toSkip + i) k j w.mem x.1)
      (mapPagesGo m t toSkip physAddr s flags k i w) := by
  induction k generalizing i w with
  | zero =>
      exact ⟨hI, rfl, 0, Nat.le_refl 0, .refl r p t _ _ w.mem, ends_done _ _ _ _⟩
  | succ k ih =>
      have hmul : Usize.mul m i s.size = .ok (i * s.size) := by
        refine Usize.mul_eq ?_
        have hsize : s.size ≤ 2 ^ 30 := by
          cases s <;> decide
        exact (Nat.mul_le_mul (show i ≤ 512 by omega) hsize).trans_lt (by norm_num)
      rw [mapPagesGo, hmul, ok_bind]
      refine Yields.bind ((Usize.add_spec m _ _).allow fun x hx => hx.1 ▸ .overflow hx.2) ?_
      intro a ha
      obtain rfl : a = addrAt physAddr s i := ha
      cases hpres : (w.mem t (toSkip + i)).getLsbD 0 with
      | true =>
          rw [Entry.map_of_present hpres, ok_bind]
          dsimp only
          rw [World.write_self, yields_ok]
          refine ⟨hI, rfl, 0, by omega, .refl r p t _ _ w.mem, ends_refused fun hvacant => ?_⟩
          cases hvacant.1.symm.trans hpres
      | false =>
          have hold := child_of_absent hpres
          have hword := hclosed i (by omega) _ (hlevel ▸ hI.words p t (toSkip + i) hp ht) hpres
          rw [Entry.map_eq hpres (addrAt_mod hphys i), ok_bind]
          by_cases hjoins : Entry.Joins flags s
          · have hnew := child_of_last (Entry.last_mapped (e := w.mem t (toSkip + i))
              (a := addrAt physAddr s i) hjoins)
            obtain ⟨hI₁, hnode, hcontent⟩ := hI.write hp ht hold hnew (hlevel ▸ hword)
            simp only [if_pos hjoins]
            refine (ih (i := i + 1) hI₁ ((hnode p).trans ht) (by omega) (fun l hl =>
              hclosed l (by omega))).imp ?_
            intro x hx
            obtain ⟨hI', hpmm, j, hj, hswept, hends⟩ := hx
            have hshift : ∀ l, i + 1 + l = i + (l + 1) := by
              intro l
              omega
            simp only [← Nat.add_assoc toSkip, hshift] at hswept hends
            exact ⟨hI', hpmm, j + 1, by omega, hswept.cons hnode hcontent,
              hends.cons ⟨hpres, hjoins⟩⟩
          · have habsent : (Entry.mapped (w.mem t (toSkip + i)) (addrAt physAddr s i)
                flags s).getLsbD 0 = false := by
              rw [Entry.getLsbD_mapped_of_not hjoins (addrAt_mod hphys i) (by omega)]
              exact hpres
            obtain ⟨hI₁, hnode, hcontent⟩ := hI.write hp ht hold (child_of_absent habsent)
              (hlevel ▸ hword)
            simp only [if_neg hjoins]
            exact ⟨hI₁, rfl, 0, by omega, .of_absent ht hpres habsent hnode hcontent,
              ends_refused fun hvacant => hjoins hvacant.2⟩

/-- The loop of `unmap_pages`, on entries that are not the entries of tables and whose pages are
not marked to be freed. -/
theorem Sized.unmapPagesGo_spec (hI : Sized W w.mem r) (hp : p.length ≤ 3)
    (ht : node w.mem r p = some t) (htables : ∀ l < k, ¬ PointsToTable (w.mem t (first + l)))
    (hclosed : ∀ e, W (3 - p.length) e → e.getLsbD 0 = true → ¬ PointsToTable e →
      e.getLsbD 9 = false ∧ W (3 - p.length) (Entry.released e)) :
    ∃ x : Except PagingError Unit × World σ, unmapPagesGo m t s k first w = .ok x ∧
      Sized W x.2.mem r ∧ x.2.pmm = w.pmm ∧ ∃ j ≤ k,
      Swept r p t first j (fun _ => Entry.released) w.mem x.2.mem ∧
      Ends (·.getLsbD 0 = true) t first k j w.mem x.1 := by
  induction k generalizing first w with
  | zero =>
      exact ⟨_, rfl, hI, rfl, 0, Nat.le_refl 0, .refl r p t _ _ w.mem, ends_done _ _ _ _⟩
  | succ k ih =>
      rw [unmapPagesGo]
      cases hpres : (w.mem t first).getLsbD 0 with
      | false =>
          rw [Entry.release_of_absent hpres, ok_bind]
          dsimp only
          refine ⟨_, rfl, ?_⟩
          rw [World.write_self]
          refine ⟨hI, rfl, 0, by omega, .refl r p t _ _ w.mem, ends_refused fun hset => ?_⟩
          cases hset.symm.trans hpres
      | true =>
          have hleaf : ¬ PointsToTable (w.mem t first) := htables 0 (by omega)
          obtain ⟨hkeep, hword⟩ := hclosed _ (hI.words p t first hp ht) hpres hleaf
          have habsent : (Entry.released (w.mem t first)).getLsbD 0 = false := by
            rw [Entry.getLsbD_released, if_pos rfl]
          obtain ⟨hI₁, hnode, hcontent⟩ := hI.write hp ht (if_neg hleaf) (child_of_absent habsent)
            hword
          rw [Entry.release_of_present hpres hkeep, ok_bind]
          dsimp only
          have hlater : ∀ l < k, ¬ PointsToTable
              ((w.write t first (Entry.released (w.mem t first))).mem t (first + 1 + l)) := by
            intro l hl
            have hother : (w.write t first (Entry.released (w.mem t first))).mem t (first + 1 + l) =
                w.mem t (first + (l + 1)) := by
              rw [show first + (l + 1) = first + 1 + l by omega]
              exact if_neg fun hslot => by omega
            rw [hother]
            exact htables (l + 1) (by omega)
          obtain ⟨x, hrun, hI', hpmm, j, hj, hswept, hends⟩ :=
            ih hI₁ ((hnode p).trans ht) hlater
          exact ⟨x, hrun, hI', hpmm, j + 1, by omega, hswept.cons hnode hcontent,
            hends.cons hpres⟩

end

/-! ## Reading the content -/

variable {e : Word} {v : VirtAddr} {level : ℕ}

/-- Every walk through four levels stops at a word. -/
theorem Sized.exists_stop (hG : Grammar W) (hI : Sized W mem r) (hp : p.length ≤ 3)
    (ht : node mem r p = some t) (hD : p.length + D.length = 4) :
    ∃ q i rest u, D = q ++ i :: rest ∧ node mem r (p ++ q) = some u ∧ child (mem u i) = none := by
  induction D generalizing p t with
  | nil =>
      rw [List.length_nil] at hD
      omega
  | cons i D ih =>
      rw [List.length_cons] at hD
      cases hchild : child (mem t i) with
      | none => exact ⟨[], i, D, t, rfl, by rwa [List.append_nil], hchild⟩
      | some u =>
          have hnode : node mem r (p ++ [i]) = some u := by
            rw [node_concat_eq, slot_of_some ht, hchild]
          have hlen : (p ++ [i]).length ≤ 3 := by
            rw [List.length_append, List.length_singleton]
            rcases hG.child_cases (hI.words p t i hp ht) with hunused | ⟨-, hlevel⟩ | ⟨-, hlast⟩
            · rw [child_of_absent (hunused.getLsbD (by omega))] at hchild
              cases hchild
            · omega
            · rw [child_of_last hlast] at hchild
              cases hchild
          obtain ⟨q, j, rest, x, rfl, hx, hstop⟩ := ih hlen hnode (by simp; omega)
          refine ⟨i :: q, j, rest, x, rfl, ?_, hstop⟩
          rwa [List.append_cons]

/-- The content is made of present words of the grammar that mark the end of a translation. -/
theorem Sized.of_content {x : ℕ × Word} (hG : Grammar W) (hI : Sized W mem r)
    (hD : D.length = 4) (h : content mem r D = some x) :
    x.1 ≤ 2 ∧ W x.1 x.2 ∧ x.2.getLsbD 0 = true ∧ x.2.getLsbD 10 = true := by
  obtain ⟨q, i, rest, u, rfl, hu, hstop⟩ := hI.exists_stop (p := []) hG (by simp) rfl (by simpa)
  rw [List.nil_append] at hu
  rw [List.length_append, List.length_cons] at hD
  rw [content_of_leaf hu hstop, held] at h
  split at h
  · next hpres =>
      cases h
      have hword := hI.words q u i (by omega) hu
      rw [show 3 - q.length = rest.length by omega] at hword
      rcases hG.child_cases hword with hunused | ⟨hpoints, -⟩ | ⟨hlevel, hlast⟩
      · rw [hunused.getLsbD (by omega)] at hpres
        cases hpres
      · rw [child_of_points hpoints] at hstop
        cases hstop
      · exact ⟨hlevel, hword, hpres, hlast⟩
  · cases h

/-- On a way to a place that holds nothing, there is no page. -/
theorem Sized.passes {addr : VirtAddr} {bottom : ℕ} {q : List ℕ} (hG : Grammar W)
    (hI : Sized W mem r)
    (hunused : ∀ level e, level ≠ 0 → W level e → e.getLsbD 0 = false → Entry.Unused e)
    (hp : p.length + k ≤ 3) (ht : node mem r p = some t)
    (hblank : content mem r (p ++ path addr bottom k ++ q) = none) :
    Passes Entry.Unused mem addr bottom k t := by
  induction k generalizing p t with
  | zero => trivial
  | succ k ih =>
      rw [path, List.append_cons] at hblank
      rw [Passes]
      set i := nextLevelIndex addr (bottom + (k + 1))
      have hword := hI.words p t i (by omega) ht
      rcases hG.child_cases hword with hfree | ⟨hpoints, -⟩ | ⟨-, hlast⟩
      · exact Or.inl hfree
      · refine Or.inr ⟨hpoints, ih (by simp; omega) ?_ hblank⟩
        rw [node_concat_eq, slot_of_some ht, child_of_points hpoints]
      · rw [List.append_assoc, List.append_assoc, List.singleton_append,
          content_of_leaf ht (child_of_last hlast), held] at hblank
        split at hblank
        · cases hblank
        · next habsent => exact Or.inl (hunused _ _ (by omega) hword (Bool.eq_false_iff.mpr habsent))

/-- The table and the entry of the page that an address is on. -/
theorem Sized.exists_page (hG : Grammar W) (hI : Sized W mem r)
    (h : content mem r (pagePath v .size4kb) = some (k, e)) :
    ∃ t, k ≤ 2 ∧ node mem r (path v k (3 - k)) = some t ∧ mem t (nextLevelIndex v k) = e ∧
      e.getLsbD 0 = true := by
  have hlen : (pagePath v .size4kb).length = 4 := length_pagePath v .size4kb
  obtain ⟨hle, -, hpres, -⟩ := hI.of_content hG hlen h
  obtain ⟨s, rfl⟩ := exists_bottomPagingLevel hle
  obtain ⟨q, i, rest, t, hD, ht, hstop⟩ := hI.exists_stop (p := []) hG (by simp) rfl
    (D := pagePath v .size4kb) hlen
  rw [List.nil_append] at ht
  rw [hD, content_of_leaf ht hstop, held] at h
  split at h
  · obtain ⟨hrest, rfl⟩ := Prod.mk.inj (Option.some.inj h)
    have hpath : q ++ [i] = pagePath v s := by
      refine eq_pagePath_of_prefix ⟨rest, ?_⟩ ?_
      · rw [hD, List.append_assoc, List.singleton_append]
      · rw [hD, List.length_append, List.length_cons] at hlen
        rw [List.length_append, List.length_singleton]
        omega
    obtain ⟨rfl, hindex⟩ := List.append_inj' hpath rfl
    obtain rfl := (List.cons.inj hindex).1
    exact ⟨t, hle, ht, rfl, hpres⟩
  · cases h

/-- The address that a word translates an address to, with `k` indices left. -/
def translated (v : VirtAddr) (x : ℕ × Word) : PhysAddr :=
  addressField x.2 (levelShift x.1) + v % 2 ^ levelShift x.1

theorem index_eq (v : VirtAddr) (level : ℕ) :
    v / 2 ^ levelShift level % 512 = nextLevelIndex v level := by
  rw [nextLevelIndex_eq, levelShift, Nat.mul_comm]

/-- The words of pages above the bottom level have the bit at which the processor stops. -/
def MarksLarge (W : ℕ → Word → Prop) : Prop :=
  ∀ level e, W (level + 1) e → e.getLsbD 0 = true → e.getLsbD 10 = true → e.getLsbD 7 = true

theorem Sized.pageWalkGo_eq (hG : Grammar W) (hI : Sized W mem r) (hlarge : MarksLarge W)
    (v : VirtAddr) (hp : p.length + level = 3) (ht : node mem r p = some t) :
    pageWalkGo mem v level t =
      (content mem r (p ++ (path v 0 level ++ [nextLevelIndex v 0]))).map (translated v) := by
  induction level generalizing p t with
  | zero =>
      rw [pageWalkGo, index_eq, path, List.nil_append]
      set i := nextLevelIndex v 0
      have hchild : child (mem t i) = none := by
        rcases hG.child_cases (hI.words p t i (by omega) ht) with hunused | ⟨-, hlevel⟩ | ⟨-, hlast⟩
        · exact child_of_absent (hunused.getLsbD (by omega))
        · omega
        · exact child_of_last hlast
      rw [content_of_leaf ht hchild, held]
      split
      · rfl
      · rfl
  | succ level ih =>
      rw [pageWalkGo, index_eq, path, Nat.zero_add, List.cons_append]
      set i := nextLevelIndex v (level + 1)
      have hword := hI.words p t i (by omega) ht
      rcases hG.cases hword with hunused | ⟨a, htable, hmod, hlt, -⟩ | ⟨hlevel, hlast⟩
      · have habsent : (mem t i).getLsbD 0 = false := hunused.getLsbD (by omega)
        rw [content_of_absent ht habsent, habsent]
        rfl
      · have hnode : node mem r (p ++ [i]) = some a := by
          rw [node_concat_eq, slot_of_some ht, htable,
            child_tableEntry hmod (hlt.trans (by norm_num))]
        have hsmall : ¬ (level + 1 ≤ 2 ∧ (Entry.tableEntry a).getLsbD 7 = true) := by
          rw [large_tableEntry hmod]
          exact fun h => Bool.false_ne_true h.2
        rw [htable, if_pos (Entry.present_tableEntry a), if_neg hsmall,
          addressField_tableEntry hmod hlt, ih (by simp; omega) hnode, List.append_assoc,
          List.singleton_append]
      · have hlen : (path v 0 level ++ [nextLevelIndex v 0]).length = level + 1 := by
          rw [List.length_append, length_path, List.length_singleton]
        rw [content_of_leaf ht (child_of_last hlast), hlen, held]
        cases hpres : (mem t i).getLsbD 0 with
        | false => rfl
        | true =>
            rw [show 3 - p.length = level + 1 by omega] at hword hlevel
            rw [if_pos rfl, if_pos rfl, if_pos ⟨hlevel, hlarge level _ hword hpres hlast⟩]
            rfl

/-- **The processor reads the content.** -/
theorem Sized.pageWalk_eq (hG : Grammar W) (hI : Sized W mem r) (hlarge : MarksLarge W)
    (hv : Canonical v) :
    pageWalk mem r v = (content mem r (pagePath v .size4kb)).map (translated v) := by
  rw [pageWalk, if_pos hv]
  exact hI.pageWalkGo_eq (p := []) hG hlarge v rfl rfl

/-- What `translate` makes of the entry that it finds. -/
def reportEntry (mem : PhysAddr → ℕ → Word) :
    Option (PhysAddr × ℕ × PageSize) → Except Panic (Option PhysAddr)
  | none => .ok none
  | some (table, i, s) =>
      if ¬ (Entry.getFlags (mem table i)).getPresent then .ok none
      else do
        let physAddr ← Entry.getAddr (mem table i) s
        .ok (some physAddr)

theorem translate_eq_report (mem : PhysAddr → ℕ → Word) (r : PhysAddr) (v : VirtAddr) :
    translate mem r v = getEntry mem r v >>= reportEntry mem := by
  rw [translate]
  refine congrArg _ (funext fun x => ?_)
  cases x with
  | none => rfl
  | some x => rfl

/-- What `translate` reports of a word at which a walk stops. -/
def reported : Option (ℕ × Word) → Except Panic (Option PhysAddr)
  | none => .ok none
  | some x =>
      (PageSize.fromBottomPagingLevel x.1).elim (.ok none) fun s =>
        (Entry.getAddr x.2 s).map some

/-- A word that marks the end of a translation. -/
theorem getEntryGo_last (hlast : (mem t (nextLevelIndex v level)).getLsbD 10 = true) :
    (getEntryGo mem v (level + 1) t >>= reportEntry mem) =
      reported (held level (mem t (nextLevelIndex v level))) := by
  rw [getEntryGo, Flags.getLastEntry_getFlags, if_pos hlast, ok_bind]
  cases hsize : PageSize.fromBottomPagingLevel level with
  | none =>
      rw [held]
      split
      · simp [reported, hsize, reportEntry]
      · rfl
  | some s =>
      simp only [Option.map_some, reportEntry, Flags.getPresent_getFlags]
      cases hpres : (mem t (nextLevelIndex v level)).getLsbD 0 with
      | false => simp [held_of_absent hpres, reported]
      | true =>
          rw [held_of_present hpres]
          cases haddr : Entry.getAddr (mem t (nextLevelIndex v level)) s with
          | ok a => simp [reported, hsize, haddr, Except.map]
          | error x => simp [reported, hsize, haddr, Except.map]

/-- An unused word ends a translation. -/
theorem getEntryGo_unused (h : Entry.Unused (mem t (nextLevelIndex v level))) :
    (getEntryGo mem v (level + 1) t >>= reportEntry mem) = reported none := by
  rw [getEntryGo, Flags.getLastEntry_getFlags, Flags.getPresent_getFlags,
    h.getLsbD (i := 0) (by omega), h.getLsbD (by omega)]
  rfl

theorem Sized.getEntryGo_eq (hG : Grammar W) (hI : Sized W mem r) (v : VirtAddr)
    (hp : p.length + level = 3) (ht : node mem r p = some t) :
    (getEntryGo mem v (level + 1) t >>= reportEntry mem) =
      reported (content mem r (p ++ (path v 0 level ++ [nextLevelIndex v 0]))) := by
  induction level generalizing p t with
  | zero =>
      rw [path, List.nil_append]
      rcases hG.child_cases (hI.words p t (nextLevelIndex v 0) (by omega) ht) with
        hunused | ⟨-, hlevel⟩ | ⟨-, hlast⟩
      · rw [content_of_absent ht (hunused.getLsbD (by omega)), getEntryGo_unused hunused]
      · omega
      · rw [getEntryGo_last hlast, content_of_leaf ht (child_of_last hlast)]
        rfl
  | succ level ih =>
      have hlen : (path v 0 level ++ [nextLevelIndex v 0]).length = level + 1 := by
        rw [List.length_append, length_path, List.length_singleton]
      rw [path, Nat.zero_add, List.cons_append]
      rcases hG.child_cases (hI.words p t (nextLevelIndex v (level + 1)) (by omega) ht) with
        hunused | ⟨hpoints, -⟩ | ⟨-, hlast⟩
      · rw [content_of_absent ht (hunused.getLsbD (by omega)), getEntryGo_unused hunused]
      · have hnode : node mem r (p ++ [nextLevelIndex v (level + 1)]) =
            some (Entry.frame (mem t (nextLevelIndex v (level + 1)))) := by
          rw [node_concat_eq, slot_of_some ht, child_of_points hpoints]
        rw [getEntryGo, Flags.getLastEntry_getFlags, Flags.getPresent_getFlags, hpoints.1,
          hpoints.2, if_neg Bool.false_ne_true, if_pos rfl, Entry.nextLevelTable_eq, ok_bind,
          ih (by simp; omega) hnode, List.append_assoc, List.singleton_append]
      · rw [getEntryGo_last hlast, content_of_leaf ht (child_of_last hlast), hlen]

/-- **`translate` reads the content.** -/
theorem Sized.translate_eq (hG : Grammar W) (hI : Sized W mem r) (v : VirtAddr) :
    translate mem r v = reported (content mem r (pagePath v .size4kb)) := by
  rw [translate_eq_report, getEntry]
  exact hI.getEntryGo_eq (p := []) hG v rfl rfl

end PageTable

end Funderberker

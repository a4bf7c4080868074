import Funderberker.Paging.Walk

/-!
# What the operations on basic pages do

With basic pages only, all that the tables say is the entry of each page: `word`, a
function of the page number.  Creating tables leaves it as it is, and mapping and
unmapping go through the pages in order and change one value at a time; `Processed`
is such a pass, up to its end or to the first page that is refused.

## Main definitions

* `pageOf` — the page number of an address, as the four levels see it.
* `PageTable.word` — the entry of a page.
* `PageTable.Processed` — a pass through consecutive pages.
* `PageTable.After` — what an operation may do to tables and PMM.

## Main results

* `mapPages_spec`, `unmapPages_spec`, `translate_eq`.
-/

namespace Funderberker

open Panicking RadixTree

/-- The number of pages that four levels tell apart. -/
def PAGES : ℕ := 2 ^ 36

/-- The number of the page of an address: the bits that select an entry. -/
def pageOf (addr : VirtAddr) : ℕ := addr / BASIC_PAGE_SIZE % PAGES

theorem pageOf_lt (addr : VirtAddr) : pageOf addr < PAGES := Nat.mod_lt _ (Nat.two_pow_pos 36)

namespace PageTable

variable {σ : Type} {m : Overflow} {mem mem' : PhysAddr → ℕ → Word}
  {r t a : PhysAddr} {U U' : Set PhysAddr} {p q : List ℕ} {i j k n : ℕ} {e : Word}
  {addr : VirtAddr}

/-! ## The entry of a page -/

/-- The indices that lead to the bottom-level table of page `k`. -/
def pathOf (k : ℕ) : List ℕ := [k / 2 ^ 27 % 512, k / 2 ^ 18 % 512, k / 2 ^ 9 % 512]

@[simp] theorem length_pathOf (k : ℕ) : (pathOf k).length = 3 := rfl

/-- The entry of page `k`. -/
def word (mem : PhysAddr → ℕ → Word) (r : PhysAddr) (k : ℕ) : Word :=
  if k < PAGES then slot mem r (pathOf k) (k % 512) else 0

theorem path_eq (addr : VirtAddr) : path addr 0 3 = pathOf (pageOf addr) := by
  have h3 : nextLevelIndex addr 3 = pageOf addr / 2 ^ 27 % 512 := by
    rw [nextLevelIndex_eq, pageOf, BASIC_PAGE_SIZE, PAGES]
    omega
  have h2 : nextLevelIndex addr 2 = pageOf addr / 2 ^ 18 % 512 := by
    rw [nextLevelIndex_eq, pageOf, BASIC_PAGE_SIZE, PAGES]
    omega
  have h1 : nextLevelIndex addr 1 = pageOf addr / 2 ^ 9 % 512 := by
    rw [nextLevelIndex_eq, pageOf, BASIC_PAGE_SIZE, PAGES]
    omega
  simp only [path, pathOf, Nat.zero_add, h3, h2, h1]

theorem nextLevelIndex_zero (addr : VirtAddr) : nextLevelIndex addr 0 = pageOf addr % 512 := by
  rw [nextLevelIndex_eq, pageOf, BASIC_PAGE_SIZE, PAGES]
  omega

/-- A page is determined by its indices. -/
theorem eq_of_pathOf_eq {l : ℕ} (hk : k < PAGES) (hl : l < PAGES) (h : pathOf k = pathOf l)
    (h0 : k % 512 = l % 512) : k = l := by
  simp only [pathOf, List.cons.injEq, and_true] at h
  rw [PAGES] at hk hl
  omega

/-- Consecutive pages of one table. -/
theorem pathOf_add (h : k % 512 + i < 512) :
    pathOf (k + i) = pathOf k ∧ (k + i) % 512 = k % 512 + i := by
  simp only [pathOf, List.cons.injEq, and_true]
  omega

theorem Grows.word_eq (h : Grows r mem U mem' U') : word mem' r = word mem r := by
  funext k
  rw [word, word]
  split
  · exact h.slot_eq rfl _
  · rfl

/-- Writing an entry of a bottom-level table. -/
theorem Shape.write (hS : Shape mem r U) (hk : k < PAGES) (ht : node mem r (pathOf k) = some t)
    (hmem : ∀ u j, mem' u j = if u = t ∧ j = k % 512 then e else mem u j) :
    Shape mem' r U ∧ tables mem' r = tables mem r ∧
      (∀ q : List ℕ, q.length ≤ 3 → node mem' r q = node mem r q) ∧
      word mem' r = Function.update (word mem r) k e := by
  have hother : ∀ q : List ℕ, q.length < 3 → ∀ u, node mem r q = some u → ∀ j,
      mem' u j = mem u j := by
    intro q hq u hu j
    refine (hmem u j).trans (if_neg ?_)
    rintro ⟨rfl, -⟩
    rw [hS.tree q (pathOf k) hq.le (length_pathOf k).le u hu ht] at hq
    exact absurd hq (by simp)
  have hnode : ∀ q : List ℕ, q.length ≤ 3 → node mem' r q = node mem r q :=
    node_congr fun q u hq hu => hother q hq u hu
  have hslot : ∀ (q : List ℕ) (j : ℕ), q.length ≤ 3 →
      slot mem' r q j = if q = pathOf k ∧ j = k % 512 then e else slot mem r q j := by
    intro q j hq
    cases hu : node mem r q with
    | none =>
        have hne : ¬ (q = pathOf k ∧ j = k % 512) := by
          rintro ⟨rfl, -⟩
          rw [ht] at hu
          cases hu
        rw [slot_of_none hu, slot_of_none ((hnode q hq).trans hu), if_neg hne]
    | some u =>
        have hiff : q = pathOf k ↔ u = t := by
          constructor
          · rintro rfl
            exact Option.some.inj (hu.symm.trans ht)
          · rintro rfl
            exact hS.tree q (pathOf k) hq (length_pathOf k).le u hu ht
        rw [slot_of_some hu, slot_of_some ((hnode q hq).trans hu), hmem]
        simp only [hiff]
  have htables : tables mem' r = tables mem r := by
    ext u
    exact exists_congr fun q => and_congr_right fun hq => by rw [hnode q hq]
  refine ⟨⟨hS.tree.congr hnode, htables ▸ hS.tables_subset, fun q j hq => ?_⟩, htables, hnode, ?_⟩
  · have hne : ¬ (q = pathOf k ∧ j = k % 512) := by
      rintro ⟨rfl, -⟩
      exact absurd hq (by simp)
    rw [hslot q j hq.le, if_neg hne]
    exact hS.interior q j hq
  · funext l
    rw [word, hslot _ _ (length_pathOf l).le]
    by_cases hl : l = k
    · subst hl
      rw [Function.update_self, if_pos hk, if_pos ⟨rfl, rfl⟩]
    · rw [Function.update_of_ne hl, word]
      by_cases hlt : l < PAGES
      · rw [if_pos hlt, if_pos hlt, if_neg fun h => hl (eq_of_pathOf_eq hlt hk h.1 h.2)]
      · rw [if_neg hlt, if_neg hlt]

/-- A cleared top-level table is a tree of one table, and maps nothing. -/
theorem shape_of_zero (h : ∀ i, mem r i = 0) :
    Shape mem r {r} ∧ (word mem r = fun _ => 0) ∧ tables mem r = {r} := by
  have hnode : ∀ q t, node mem r q = some t → q = [] ∧ r = t := fun q t => node_of_zero h
  have hslot : ∀ q i, slot mem r q i = 0 := by
    intro q i
    cases ht : node mem r q with
    | none => exact slot_of_none ht i
    | some t =>
        obtain ⟨-, rfl⟩ := hnode q t ht
        rw [slot_of_some ht, h]
  have htables := tables_of_zero h
  refine ⟨⟨?_, htables.le, fun q i _ => Or.inl (hslot q i)⟩, ?_, htables⟩
  · intro p q _ _ t hp hq
    rw [(hnode p t hp).1, (hnode q t hq).1]
  · funext k
    rw [word, hslot]
    split <;> rfl

/-! ## A pass through pages -/

/-- A pass through `n` pages from page `k` on, the first of which is the `i`th of the
whole pass: a page that `P` accepts gets a new value, and the first that it does not
ends the pass. -/
inductive Processed (P : Word → Prop) (err : PagingError) (f : ℕ → Word → Word) :
    ℕ → ℕ → ℕ → (ℕ → Word) → (ℕ → Word) → Except PagingError Unit → Prop
  | done {k i : ℕ} {W : ℕ → Word} : Processed P err f 0 k i W W (.ok ())
  | stop {n k i : ℕ} {W : ℕ → Word} (h : ¬ P (W k)) :
      Processed P err f (n + 1) k i W W (.error err)
  | next {n k i : ℕ} {W W' : ℕ → Word} {res : Except PagingError Unit} (h : P (W k))
      (hrest : Processed P err f n (k + 1) (i + 1) (Function.update W k (f i (W k))) W' res) :
      Processed P err f (n + 1) k i W W' res

/-- What changing one accepted page preserves, a pass preserves. -/
theorem Processed.preserves {P : Word → Prop} {err : PagingError} {f : ℕ → Word → Word}
    {W W' : ℕ → Word} {res : Except PagingError Unit} {J : (ℕ → Word) → Prop}
    (h : Processed P err f n k i W W' res)
    (hJ : ∀ W k i, J W → P (W k) → J (Function.update W k (f i (W k)))) (hW : J W) : J W' := by
  induction h with
  | done => exact hW
  | stop _ => exact hW
  | next h _ ih => exact ih (hJ _ _ _ hW h)

/-- An entry that is present. -/
def Present (e : Word) : Prop := e.getLsbD 0 = true

/-- The frame of page `i` of a mapping. -/
def frameAt (physAddr i : ℕ) : ℕ := (physAddr + i * BASIC_PAGE_SIZE) % 2 ^ 64

/-- A pass that maps pages. -/
def Maps (physAddr : PhysAddr) (flags : Flags) :=
  Processed (¬ Present ·) .pageAlreadyPresent fun i _ => Entry.leaf (frameAt physAddr i) flags

/-- A pass that unmaps pages. -/
def Unmaps := Processed Present .pageNotPresent fun _ e => Entry.released e

theorem frameAt_mod {physAddr : ℕ} (h : physAddr % 4096 = 0) (i : ℕ) :
    frameAt physAddr i % 4096 = 0 := by
  rw [frameAt, BASIC_PAGE_SIZE]
  omega

theorem frameAt_lt (physAddr i : ℕ) : frameAt physAddr i < 2 ^ 64 :=
  Nat.mod_lt _ (Nat.two_pow_pos 64)

variable {w : World σ} {physAddr : ℕ} {flags : Flags} {c : ℕ}

/-- The entry of a page, read from its table. -/
theorem word_eq (hk : k < PAGES) (ht : node mem r (pathOf k) = some t) :
    word mem r k = mem t (k % 512) := by
  rw [word, if_pos hk, slot_of_some ht]

theorem page_add_lt (hk : k < PAGES) (h : k % 512 + i < 512) : k + i < PAGES := by
  rw [PAGES] at hk ⊢
  omega

/-- The state after the entries of bottom-level tables have been written. -/
structure Rewritten (r : PhysAddr) (U : Set PhysAddr) (w w' : World σ) : Prop where
  shape : Shape w'.mem r U
  tables_eq : tables w'.mem r = tables w.mem r
  node_eq : ∀ q : List ℕ, q.length ≤ 3 → node w'.mem r q = node w.mem r q
  pmm_eq : w'.pmm = w.pmm

theorem Rewritten.refl (hS : Shape w.mem r U) : Rewritten r U w w := ⟨hS, rfl, fun _ _ => rfl, rfl⟩

theorem Rewritten.trans {w' w'' : World σ} (h : Rewritten r U w w') (h' : Rewritten r U w' w'') :
    Rewritten r U w w'' :=
  ⟨h'.shape, h'.tables_eq.trans h.tables_eq,
    fun q hq => (h'.node_eq q hq).trans (h.node_eq q hq), h'.pmm_eq.trans h.pmm_eq⟩

/-- Writing the entry of page `k + i` through the table of page `k`. -/
theorem write_page (hS : Shape w.mem r U) (hk : k < PAGES) (ht : node w.mem r (pathOf k) = some t)
    (hi : k % 512 + i < 512) (e : Word) :
    Rewritten r U w (w.write t (k % 512 + i) e) ∧
      word (w.write t (k % 512 + i) e).mem r = Function.update (word w.mem r) (k + i) e := by
  obtain ⟨hpath, hidx⟩ := pathOf_add hi
  have hmem : ∀ u j, (w.write t (k % 512 + i) e).mem u j =
      if u = t ∧ j = (k + i) % 512 then e else w.mem u j := by
    intro u j
    rw [hidx]
    rfl
  obtain ⟨hS', htab, hnode, hword⟩ := hS.write (page_add_lt hk hi) (hpath ▸ ht) hmem
  exact ⟨⟨hS', htab, hnode, rfl⟩, hword⟩

variable [PmmAllocator σ]

theorem mapPagesGo_spec (hS : Shape w.mem r U) (hk : k < PAGES)
    (ht : node w.mem r (pathOf k) = some t) (hc : k % 512 + i + c ≤ 512)
    (hphys : physAddr % 4096 = 0) :
    Yields (Stops σ m) (fun x => Rewritten r U w x.2 ∧
      Maps physAddr flags c (k + i) i (word w.mem r) (word x.2.mem r) x.1)
      (mapPagesGo m t (k % 512) physAddr .size4kb flags c i w) := by
  induction c generalizing i w with
  | zero => exact ⟨.refl hS, .done⟩
  | succ c ih =>
      have hi : k % 512 + i < 512 := by omega
      have hmul : Usize.mul m i PageSize.size4kb.size = .ok (i * BASIC_PAGE_SIZE) := by
        refine Usize.mul_eq ?_
        rw [PageSize.size]
        omega
      rw [mapPagesGo, hmul, ok_bind]
      refine Yields.bind ((Usize.add_spec m _ _).allow fun x hx => hx.1 ▸ .overflow hx.2) ?_
      intro a ha
      obtain rfl : a = frameAt physAddr i := ha
      have hpage := word_eq (page_add_lt hk hi) ((pathOf_add hi).1 ▸ ht)
      rw [(pathOf_add hi).2] at hpage
      by_cases hpres : Present (w.mem t (k % 512 + i))
      · rw [Entry.map_of_present hpres, ok_bind, yields_ok]
        obtain ⟨hw, hword⟩ := write_page hS hk ht hi (w.mem t (k % 512 + i))
        rw [Function.update_eq_self_iff.mpr hpage.symm] at hword
        refine ⟨hw, ?_⟩
        dsimp only
        rw [hword]
        exact .stop (by rw [hpage]; exact not_not.mpr hpres)
      · rw [Entry.map_size4kb (Bool.eq_false_iff.mpr hpres) (frameAt_mod hphys i), ok_bind]
        obtain ⟨hw, hword⟩ := write_page hS hk ht hi (Entry.leaf (frameAt physAddr i) flags)
        refine (ih hw.shape ((hw.node_eq _ (length_pathOf k).le).trans ht) (by omega)).imp ?_
        rintro x ⟨hx, hrest⟩
        refine ⟨hw.trans hx, .next (hpage ▸ hpres) ?_⟩
        rw [hword] at hrest
        exact hrest

/-- No present entry is marked to be freed. -/
def NoneAllocated (W : ℕ → Word) : Prop := ∀ l, Present (W l) → (W l).getLsbD 9 = false

theorem not_present_released (e : Word) : ¬ Present (Entry.released e) := by
  rw [Present, Entry.getLsbD_released, if_pos rfl]
  exact Bool.false_ne_true

theorem NoneAllocated.released {W : ℕ → Word} (h : NoneAllocated W) (k : ℕ) :
    NoneAllocated (Function.update W k (Entry.released (W k))) :=
  (Function.forall_update_iff W fun _ e => Present e → e.getLsbD 9 = false).mpr
    ⟨fun hpres => absurd hpres (not_present_released _), fun l _ => h l⟩

theorem unmapPagesGo_spec (hS : Shape w.mem r U) (hk : k < PAGES)
    (ht : node w.mem r (pathOf k) = some t) (hc : k % 512 + i + c ≤ 512)
    (hnone : NoneAllocated (word w.mem r)) :
    ∃ x : Except PagingError Unit × World σ,
      unmapPagesGo m t .size4kb c (k % 512 + i) w = .ok x ∧ Rewritten r U w x.2 ∧
      Unmaps c (k + i) i (word w.mem r) (word x.2.mem r) x.1 := by
  induction c generalizing i w with
  | zero => exact ⟨_, rfl, .refl hS, .done⟩
  | succ c ih =>
      have hi : k % 512 + i < 512 := by omega
      have hpage := word_eq (page_add_lt hk hi) ((pathOf_add hi).1 ▸ ht)
      rw [(pathOf_add hi).2] at hpage
      rw [unmapPagesGo]
      by_cases hpres : Present (w.mem t (k % 512 + i))
      · have hal : (w.mem t (k % 512 + i)).getLsbD 9 = false := by
          rw [← hpage] at hpres ⊢
          exact hnone _ hpres
        rw [Entry.release_of_present hpres hal, ok_bind]
        obtain ⟨hw, hword⟩ := write_page hS hk ht hi (Entry.released (w.mem t (k % 512 + i)))
        have hupd : Function.update (word w.mem r) (k + i) (Entry.released (w.mem t (k % 512 + i))) =
            Function.update (word w.mem r) (k + i) (Entry.released (word w.mem r (k + i))) := by
          rw [hpage]
        rw [hupd] at hword
        obtain ⟨x, hrun, hx, hrest⟩ := ih (i := i + 1) hw.shape
          ((hw.node_eq _ (length_pathOf k).le).trans ht) (by omega) (hword ▸ hnone.released _)
        refine ⟨x, hrun, hw.trans hx, .next (hpage ▸ hpres) ?_⟩
        rw [hword] at hrest
        exact hrest
      · rw [Entry.release_of_absent (Bool.eq_false_iff.mpr hpres), ok_bind]
        obtain ⟨hw, hword⟩ := write_page hS hk ht hi (w.mem t (k % 512 + i))
        rw [Function.update_eq_self_iff.mpr hpage.symm] at hword
        refine ⟨_, rfl, hw, ?_⟩
        dsimp only
        rw [hword]
        exact .stop (hpage ▸ hpres)

/-! ## The operations -/

/-- What an operation may do to the tables and the PMM. -/
structure After (respects : Set PhysAddr → σ → Prop) (r : PhysAddr) (U : Set PhysAddr)
    (w : World σ) (U' : Set PhysAddr) (w' : World σ) : Prop where
  shape : Shape w'.mem r U'
  respects : respects U' w'.pmm
  subset : U ⊆ U'
  added : U' ⊆ U ∪ tables w'.mem r
  fresh : ∀ t ∈ tables w'.mem r, t ∈ tables w.mem r ∨ t ∉ U

variable {bound : ℕ} {respects : Set PhysAddr → σ → Prop}

omit [PmmAllocator σ] in
theorem After.rewritten {w' w'' : World σ} (h : After respects r U w U' w')
    (hw : Rewritten r U' w' w'') : After respects r U w U' w'' where
  shape := hw.shape
  respects := hw.pmm_eq ▸ h.respects
  subset := h.subset
  added := hw.tables_eq ▸ h.added
  fresh := hw.tables_eq ▸ h.fresh

/-- The pages that one call can reach: those up to the end of the first page's table. -/
def reach (addr : VirtAddr) (n : ℕ) : ℕ := min n (ENTRIES_PER_TABLE - pageOf addr % 512)

/-- The test of the page count lets the call through. -/
def Fits (m : Overflow) (addr : VirtAddr) (n : ℕ) : Prop :=
  pageOf addr % 512 + n ≤ ENTRIES_PER_TABLE ∨ m = .wrapping ∧ 2 ^ 64 ≤ pageOf addr % 512 + n

theorem reach_add_le (addr : VirtAddr) (n : ℕ) : pageOf addr % 512 + reach addr n ≤ 512 := by
  rw [reach, ENTRIES_PER_TABLE]
  omega

/-- The page count test. -/
theorem count_spec (m : Overflow) (addr : VirtAddr) (n : ℕ) :
    Yields (fun x => x = .overflow ∧ m = .checked ∧ 2 ^ 64 ≤ pageOf addr % 512 + n)
      (fun sum => if sum > ENTRIES_PER_TABLE then ENTRIES_PER_TABLE < pageOf addr % 512 + n
        else Fits m addr n)
      (Usize.add m (nextLevelIndex addr PageSize.size4kb.bottomPagingLevel) n) := by
  rw [show PageSize.size4kb.bottomPagingLevel = 0 from rfl, nextLevelIndex_zero]
  by_cases hlt : pageOf addr % 512 + n < 2 ^ 64
  · rw [Usize.add_eq hlt, yields_ok]
    split
    · assumption
    · exact Or.inl (by omega)
  · have hspec := Usize.add_spec m (pageOf addr % 512) n
    cases m with
    | checked =>
        rw [Usize.add, Overflow.fit.eq_def, if_neg hlt]
        exact ⟨rfl, rfl, not_lt.mp hlt⟩
    | wrapping =>
        refine hspec.mono (fun _ hx => absurd hx.2 (by decide)) fun sum _ => ?_
        split
        · rw [ENTRIES_PER_TABLE]
          omega
        · exact Or.inr ⟨rfl, by omega⟩

/-- What `map_pages` does with basic pages. -/
inductive MapPages (m : Overflow) (respects : Set PhysAddr → σ → Prop) (r : PhysAddr)
    (U : Set PhysAddr) (w : World σ) (baseAddr : VirtAddr) (physAddr n : ℕ) (flags : Flags) :
    Except PagingError Unit × World σ → Prop
  | misalignedVirt (h : baseAddr % 4096 ≠ 0) :
      MapPages m respects r U w baseAddr physAddr n flags (.error .invalidVirtualAddress, w)
  | misalignedPhys (hbase : baseAddr % 4096 = 0) (h : physAddr % 4096 ≠ 0) :
      MapPages m respects r U w baseAddr physAddr n flags (.error .invalidPhysicalAddress, w)
  | tooMany {U' : Set PhysAddr} {w' : World σ} (hbase : baseAddr % 4096 = 0)
      (hphys : physAddr % 4096 = 0) (hcount : ENTRIES_PER_TABLE < pageOf baseAddr % 512 + n)
      (hafter : After respects r U w U' w') (hword : word w'.mem r = word w.mem r) :
      MapPages m respects r U w baseAddr physAddr n flags
        (.error .badPageCountAndAddressCombination, w')
  | pass {U' : Set PhysAddr} {w' : World σ} {res : Except PagingError Unit}
      (hbase : baseAddr % 4096 = 0) (hphys : physAddr % 4096 = 0) (hcount : Fits m baseAddr n)
      (hafter : After respects r U w U' w')
      (hpass : Maps physAddr flags (reach baseAddr n) (pageOf baseAddr) 0 (word w.mem r)
        (word w'.mem r) res) :
      MapPages m respects r U w baseAddr physAddr n flags (res, w')

theorem mapPages_spec (law : Supplies σ m bound respects) (hS : Shape w.mem r U)
    (hU : respects U w.pmm) (baseAddr : VirtAddr) (physAddr n : ℕ) (flags : Flags) :
    Yields (Stops σ m) (MapPages m respects r U w baseAddr physAddr n flags)
      (mapPages m r w baseAddr physAddr n .size4kb flags) := by
  rw [mapPages, PageSize.size]
  by_cases hbase : baseAddr % 4096 = 0
  · rw [if_neg (not_not.mpr hbase)]
    by_cases hphys : physAddr % 4096 = 0
    · rw [if_neg (not_not.mpr hphys)]
      refine (getCreateTableRange_spec law hS hU hbase).bind ?_
      rintro ⟨t, w₁⟩ ⟨U', hS', hU', hG, ht⟩
      dsimp only at hS' hU' hG ht ⊢
      have hafter : After respects r U w U' w₁ := ⟨hS', hU', hG.subset, hG.added, hG.fresh⟩
      refine Yields.bind ((count_spec m baseAddr n).allow fun x hx => hx.1 ▸ .overflow hx.2.1) ?_
      intro sum hsum
      rw [path_eq] at ht
      split
      · rw [if_pos (by assumption)] at hsum
        exact .tooMany hbase hphys hsum hafter hG.word_eq
      · rw [if_neg (by assumption)] at hsum
        rw [show PageSize.size4kb.bottomPagingLevel = 0 from rfl, nextLevelIndex_zero]
        refine (mapPagesGo_spec hS' (pageOf_lt baseAddr) ht
          (reach_add_le baseAddr n) hphys).imp ?_
        rintro x ⟨hw, hpass⟩
        rw [hG.word_eq] at hpass
        exact .pass hbase hphys hsum (hafter.rewritten hw) hpass
    · rw [if_pos hphys]
      exact .misalignedPhys hbase hphys
  · rw [if_pos hbase]
    exact .misalignedVirt hbase

/-- What `unmap_pages` does with basic pages. -/
inductive UnmapPages (m : Overflow) (r : PhysAddr) (U : Set PhysAddr) (w : World σ)
    (baseAddr : VirtAddr) (n : ℕ) : Except PagingError Unit × World σ → Prop
  | misalignedVirt (h : baseAddr % 4096 ≠ 0) :
      UnmapPages m r U w baseAddr n (.error .invalidVirtualAddress, w)
  | noTable (hbase : baseAddr % 4096 = 0) (h : word w.mem r (pageOf baseAddr) = 0) :
      UnmapPages m r U w baseAddr n (.error .pageNotPresent, w)
  | tooMany (hbase : baseAddr % 4096 = 0)
      (hcount : ENTRIES_PER_TABLE < pageOf baseAddr % 512 + n) :
      UnmapPages m r U w baseAddr n (.error .badPageCountAndAddressCombination, w)
  | pass {w' : World σ} {res : Except PagingError Unit} (hbase : baseAddr % 4096 = 0)
      (hcount : Fits m baseAddr n) (hw : Rewritten r U w w')
      (hpass : Unmaps (reach baseAddr n) (pageOf baseAddr) 0 (word w.mem r) (word w'.mem r) res) :
      UnmapPages m r U w baseAddr n (res, w')

theorem unmapPages_spec (hS : Shape w.mem r U) (hnone : NoneAllocated (word w.mem r))
    (baseAddr : VirtAddr) (n : ℕ) :
    Yields (fun x => x = .overflow ∧ m = .checked ∧ 2 ^ 64 ≤ pageOf baseAddr % 512 + n)
      (UnmapPages m r U w baseAddr n)
      (unmapPages m r w baseAddr n .size4kb) := by
  rw [unmapPages, PageSize.size]
  by_cases hbase : baseAddr % 4096 = 0
  · rw [if_neg (not_not.mpr hbase), getTableRange_eq hS hbase, ok_bind, path_eq]
    cases ht : node w.mem r (pathOf (pageOf baseAddr)) with
    | none =>
        refine .noTable hbase ?_
        rw [word, if_pos (pageOf_lt baseAddr), slot_of_none ht]
    | some t =>
        refine (count_spec m baseAddr n).bind ?_
        intro sum hsum
        split
        · rw [if_pos (by assumption)] at hsum
          exact .tooMany hbase hsum
        · rw [if_neg (by assumption)] at hsum
          rw [show PageSize.size4kb.bottomPagingLevel = 0 from rfl, nextLevelIndex_zero]
          obtain ⟨x, hrun, hw, hpass⟩ := unmapPagesGo_spec (m := m) (i := 0) hS
            (pageOf_lt baseAddr) ht (reach_add_le baseAddr n) hnone
          rw [Nat.add_zero] at hrun
          change Yields _ _ (unmapPagesGo m t .size4kb (reach baseAddr n) _ w)
          rw [hrun]
          exact .pass hbase hsum hw hpass
  · rw [if_pos hbase]
    exact .misalignedVirt hbase

/-! ## Translation -/

/-- Every present entry of a page ends a translation. -/
def AllLast (W : ℕ → Word) : Prop := ∀ l, Present (W l) → (W l).getLsbD 10 = true

instance (e : Word) : Decidable (Present e) := inferInstanceAs (Decidable (_ = true))

/-- What an entry maps its page to. -/
def target (e : Word) : Option PhysAddr := if Present e then some (Entry.frame e) else none

theorem target_of_present (h : Present e) : target e = some (Entry.frame e) := if_pos h

theorem target_of_absent (h : ¬ Present e) : target e = none := if_neg h

/-- A translation is read off the entry of the page. -/
theorem translate_eq (hS : Shape mem r U) (hlast : AllLast (word mem r)) (addr : VirtAddr) :
    translate mem r addr = .ok (target (word mem r (pageOf addr))) := by
  have hentry : getEntryGo mem addr 4 r = (node mem r (pathOf (pageOf addr))).elim (.ok none)
      fun u => getEntryGo mem addr 1 u := by
    rw [← path_eq]
    exact getEntryGo_eq (p := []) hS (Nat.le_refl 3) rfl
  have hlast := hlast (pageOf addr)
  rw [translate, getEntry, MAX_BOTTOM_PAGING_LEVEL, hentry]
  cases ht : node mem r (pathOf (pageOf addr)) with
  | none =>
      rw [word, if_pos (pageOf_lt addr), slot_of_none ht]
      rfl
  | some t =>
      rw [word_eq (pageOf_lt addr) ht] at hlast ⊢
      simp only [Option.elim_some, getEntryGo, nextLevelIndex_zero, Flags.getLastEntry_getFlags,
        Flags.getPresent_getFlags]
      set e := mem t (pageOf addr % 512) with he
      by_cases hpres : e.getLsbD 0 = true
      · have hl : e.getLsbD 10 = true := hlast hpres
        rw [if_pos hl, ok_bind, target_of_present hpres]
        simp only [PageSize.fromBottomPagingLevel, Option.map_some, ← he]
        rw [if_neg (not_not.mpr hpres), Entry.getAddr_size4kb, ok_bind]
      · rw [target_of_absent hpres]
        by_cases hl : e.getLsbD 10 = true
        · rw [if_pos hl, ok_bind]
          simp only [PageSize.fromBottomPagingLevel, Option.map_some, ← he]
          rw [if_pos hpres]
        · rw [if_neg hl, if_neg hpres, ok_bind]

end PageTable

end Funderberker

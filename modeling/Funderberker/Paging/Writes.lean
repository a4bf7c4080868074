import Funderberker.Paging.Sweep

/-!
# What mapping pages writes, in any memory

The code follows whatever entries it meets, also those of pages and those that pages have left
behind.  Then the tables need not be a tree, and all that can be said is which words may change:
mapping writes to entries that are not present, and clears the frames of new tables.

So a relation between the states before and after is kept by `map_pages` when it is kept by the
creation of a table under an entry that is not present, and by writing a page to such an entry.

## Main results

* `createNextLevel_inv` — the creation of a table.
* `mapPages_rel` — the rule for relations.
-/

namespace Funderberker

open Panicking

namespace PageTable

variable {σ : Type} [PmmAllocator σ] {m : Overflow} {w w' : World σ} {t : PhysAddr} {i k : ℕ}

/-- What the creation of a table has written: the frame `a` is cleared, and the entry has the
address of it.  The PMM may have handed out the frame that holds the entry, which then loses its
flags. -/
structure Creation (t : PhysAddr) (i : ℕ) (a : PhysAddr) (mem mem' : PhysAddr → ℕ → Word) :
    Prop where
  aligned : a % 4096 = 0
  entry : t ≠ a → mem' t i = linked (mem t i) a
  entry_self : t = a → mem' t i = BitVec.ofNat 64 a
  cleared : ∀ j, (a = t → j ≠ i) → mem' a j = 0
  other : ∀ u j, u ≠ a → (u = t → j ≠ i) → mem' u j = mem u j

/-- An address that is written is aligned. -/
theorem aligned_of_setAddr {e e' : Word} {a : PhysAddr}
    (h : Entry.setAddr e a .size4kb = .ok e') : a % 4096 = 0 := by
  rw [Entry.setAddr] at h
  split at h
  · next hlow =>
      have hnat : a % 2 ^ 64 % 4096 = 0 := by
        rw [← BitVec.toNat_ofNat, ← Nat.and_two_pow_sub_one_eq_mod _ 12]
        exact congrArg BitVec.toNat hlow
      rwa [Nat.mod_mod_of_dvd _ (by decide)] at hnat
  · cases h

theorem createNextLevel_inv (h : createNextLevel m t i w = .ok w') :
    ∃ a s, PmmAllocator.allocate m w.pmm 1 1 = .ok (.ok a, s) ∧ w'.pmm = s ∧
      Creation t i a w.mem w'.mem := by
  rw [createNextLevel] at h
  obtain ⟨⟨a, w₂⟩, hnew, h⟩ := bind_eq_ok.mp h
  rw [new, show PageSize.size4kb.pageAlignment = 1 from rfl] at hnew
  obtain ⟨⟨res, s⟩, halloc, hnew⟩ := bind_eq_ok.mp hnew
  cases res with
  | error x => cases hnew
  | ok b =>
      obtain ⟨rfl, rfl⟩ := Prod.mk.inj (Except.ok.inj hnew)
      obtain ⟨e, haddr, h⟩ := bind_eq_ok.mp h
      obtain rfl := Except.ok.inj h
      have hmod : b % 4096 = 0 := aligned_of_setAddr haddr
      rw [Entry.setAddr_size4kb hmod] at haddr
      obtain rfl := Except.ok.inj haddr
      refine ⟨b, s, halloc, rfl, hmod, fun htb => ?_, fun htb => ?_, fun j hj => ?_,
        fun u j hu hne => ?_⟩
      · simp [World.write, World.memset, htb, linked]
      · simp [World.write, World.memset, htb]
      · have hslot : ¬ (b = t ∧ j = i) := fun h => hj h.1 h.2
        simp [World.write, World.memset, hslot]
      · have hslot : ¬ (u = t ∧ j = i) := fun h => hne h.1 h.2
        simp [World.write, World.memset, hslot, hu]

/-! ## Relations -/

section

variable {R : World σ → World σ → Prop} {baseAddr : VirtAddr} {physAddr : PhysAddr}
  {bottom pageCount toSkip : ℕ} {s : PageSize} {flags : Flags} {t' : PhysAddr}
  {res : Except PagingError Unit}

theorem getCreateTableRangeGo_rel (hrefl : ∀ w, R w w) (htrans : ∀ a b c, R a b → R b c → R a c)
    (hcreate : ∀ w w' t i, (w.mem t i).getLsbD 0 = false → createNextLevel m t i w = .ok w' →
      R w w')
    (h : getCreateTableRangeGo m baseAddr bottom k t w = .ok (t', w')) : R w w' := by
  induction k generalizing t w with
  | zero =>
      cases h
      exact hrefl _
  | succ k ih =>
      rw [getCreateTableRangeGo, Flags.getPresent_getFlags] at h
      obtain ⟨w₁, hstep, h⟩ := bind_eq_ok.mp h
      rw [Entry.nextLevelTable_eq, ok_bind] at h
      refine htrans w w₁ w' ?_ (ih h)
      cases hpres : (w.mem t (nextLevelIndex baseAddr (bottom + (k + 1)))).getLsbD 0 with
      | true =>
          rw [hpres, if_neg (not_not.mpr rfl)] at hstep
          cases hstep
          exact hrefl _
      | false =>
          rw [hpres, if_pos Bool.false_ne_true] at hstep
          exact hcreate w w₁ t _ hpres hstep

omit [PmmAllocator σ] in
theorem mapPagesGo_rel (hrefl : ∀ w, R w w) (htrans : ∀ a b c, R a b → R b c → R a c)
    (hwrite : ∀ (w : World σ) t i a, (w.mem t i).getLsbD 0 = false → a % s.size = 0 →
      R w (w.write t i (Entry.mapped (w.mem t i) a flags s)))
    (hphys : physAddr % s.size = 0)
    (h : mapPagesGo m t toSkip physAddr s flags k i w = .ok (res, w')) : R w w' := by
  induction k generalizing i w with
  | zero =>
      cases h
      exact hrefl _
  | succ k ih =>
      rw [mapPagesGo] at h
      obtain ⟨offset, hmul, h⟩ := bind_eq_ok.mp h
      obtain ⟨addr, hadd, h⟩ := bind_eq_ok.mp h
      obtain rfl : offset = i * s.size % 2 ^ 64 := (Usize.mul_spec m i s.size).post hmul
      obtain rfl : addr = (physAddr + i * s.size % 2 ^ 64) % 2 ^ 64 :=
        (Usize.add_spec m physAddr _).post hadd
      have haddr : (physAddr + i * s.size % 2 ^ 64) % 2 ^ 64 % s.size = 0 := by
        rw [Nat.add_mod_mod]
        exact addrAt_mod hphys i
      cases hpres : (w.mem t (toSkip + i)).getLsbD 0 with
      | true =>
          rw [Entry.map_of_present hpres, ok_bind] at h
          dsimp only at h
          rw [World.write_self] at h
          cases h
          exact hrefl _
      | false =>
          rw [Entry.map_eq hpres haddr, ok_bind] at h
          have hfirst := hwrite w t (toSkip + i) _ hpres haddr
          by_cases hjoins : Entry.Joins flags s
          · simp only [if_pos hjoins] at h
            exact htrans _ _ _ hfirst (ih h)
          · simp only [if_neg hjoins] at h
            cases h
            exact hfirst

/-- **The rule for relations.** -/
theorem mapPages_rel (hrefl : ∀ w, R w w) (htrans : ∀ a b c, R a b → R b c → R a c)
    (hcreate : ∀ w w' t i, (w.mem t i).getLsbD 0 = false → createNextLevel m t i w = .ok w' →
      R w w')
    (hwrite : ∀ (w : World σ) t i a, (w.mem t i).getLsbD 0 = false → a % s.size = 0 →
      R w (w.write t i (Entry.mapped (w.mem t i) a flags s)))
    (h : mapPages m t w baseAddr physAddr pageCount s flags = .ok (res, w')) : R w w' := by
  rw [mapPages] at h
  split at h
  · cases h
    exact hrefl _
  · split at h
    · cases h
      exact hrefl _
    · next hphys =>
        obtain ⟨⟨t', w₁⟩, hrange, h⟩ := bind_eq_ok.mp h
        rw [getCreateTableRange] at hrange
        obtain ⟨-, -, hrange⟩ := bind_eq_ok.mp hrange
        have hway := getCreateTableRangeGo_rel hrefl htrans hcreate hrange
        obtain ⟨sum, -, h⟩ := bind_eq_ok.mp h
        split at h
        · cases h
          exact hway
        · exact htrans _ _ _ hway
            (mapPagesGo_rel hrefl htrans hwrite (not_not.mp hphys) h)

end

end PageTable

end Funderberker

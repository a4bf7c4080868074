import Funderberker.Paging.Calls
import Funderberker.Paging.Refine

/-!
# Calls that fail

`map_pages` and `unmap_pages` go through their pages one after the other and return at the first
page that they refuse.  The pages before it stay as the call has left them, so a call that fails
changes no translation exactly when it fails at its first page, or before it looks at a page.

The flags may be any that do not mark a page to be freed; no caller sets that mark.

## Main definitions

* `PlainWord` — the words of tables whose pages are not marked.
* `TableCall.RefusedAtOnce` — the call fails before it changes a page.

## Main results

* `failed_call_atomic_iff`
* `failed_call_not_atomic` — a call that maps one page and then fails.
-/

namespace Funderberker

open Panicking PageTable

/-! ## Words -/

/-- The words that occur when no page is marked to be freed. -/
def PlainWord (level : ℕ) (e : Word) : Prop :=
  Entry.Unused e ∨
    (∃ a, e = Entry.tableEntry a ∧ a % 4096 = 0 ∧ a < 2 ^ 52 ∧ level ≠ 0) ∨
    (level ≤ 2 ∧ e.getLsbD 10 = true) ∧ e.getLsbD 9 = false

theorem grammar_plainWord : Grammar PlainWord where
  zero _ := Or.inl Entry.unused_zero
  table level a ha hlt := Or.inr (Or.inl ⟨a, rfl, ha, hlt, Nat.succ_ne_zero level⟩)
  cases h := h.imp_right fun h => h.imp_right And.left

namespace TableCall

/-- The call marks no page to be freed. -/
def Unmarked : TableCall → Prop
  | map _ _ _ _ flags => flags.getLsbD 9 = false
  | unmap _ _ _ => True

instance (c : TableCall) : Decidable c.Unmarked :=
  match c with
  | map _ _ _ _ flags => instDecidableEqBool (flags.getLsbD 9) false
  | unmap _ _ _ => isTrue trivial

/-- Flags that do not join leave an entry without flags. -/
theorem unused_mapped_of_not {s : PageSize} {flags : Flags} {e : Word} {a : PhysAddr}
    (hjoins : ¬ Entry.Joins flags s) (ha : a % s.size = 0) (he : Entry.Unused e) :
    Entry.Unused (Entry.mapped e a flags s) := by
  refine BitVec.eq_of_getLsbD_eq fun i _ => ?_
  rw [Entry.getFlags, BitVec.getLsbD_and, getLsbD_flagMask]
  by_cases hi : i < 12
  · rw [Entry.getLsbD_mapped_of_not hjoins ha hi, he.getLsbD hi]
    simp
  · simp [hi]

/-- Mapping leaves words without the mark. -/
theorem plainWord_mapped {s : PageSize} {flags : Flags} {e : Word} {a : PhysAddr}
    (hmark : flags.getLsbD 9 = false) (ha : a % s.size = 0)
    (he : PlainWord s.bottomPagingLevel e) (habsent : e.getLsbD 0 = false) :
    PlainWord s.bottomPagingLevel (Entry.mapped e a flags s) := by
  by_cases hjoins : Entry.Joins flags s
  · refine Or.inr (Or.inr ⟨⟨bottomPagingLevel_le s, Entry.last_mapped hjoins⟩, ?_⟩)
    rw [Entry.getLsbD_mapped hjoins (by omega), Entry.getLsbD_leafFlags, hmark]
    simp
  · have hbit : ∀ i < 12, (Entry.mapped e a flags s).getLsbD i = e.getLsbD i := fun i hi =>
      Entry.getLsbD_mapped_of_not hjoins ha hi
    rcases he with hunused | ⟨b, rfl, -⟩ | ⟨⟨hlevel, hlast⟩, hplain⟩
    · exact Or.inl (unused_mapped_of_not hjoins ha hunused)
    · rw [Entry.present_tableEntry] at habsent
      cases habsent
    · exact Or.inr (Or.inr ⟨⟨hlevel, (hbit 10 (by omega)).trans hlast⟩,
        (hbit 9 (by omega)).trans hplain⟩)

theorem Unmarked.admits {c : TableCall} (h : c.Unmarked) : c.Admits PlainWord := by
  cases c with
  | map baseAddr physAddr pageCount s flags =>
      intro hphys l _ e he habsent
      exact plainWord_mapped h (addrAt_mod hphys l) he habsent
  | unmap baseAddr pageCount s =>
      intro e he hpres hleaf
      rcases he with hunused | ⟨a, rfl, ha, -⟩ | ⟨⟨hlevel, hlast⟩, hplain⟩
      · rw [hunused.getLsbD (by omega)] at hpres
        cases hpres
      · exact absurd (pointsToTable_tableEntry ha) hleaf
      · refine ⟨hplain, Or.inr (Or.inr ⟨⟨hlevel, ?_⟩, ?_⟩)⟩
        · rw [Entry.getLsbD_released, if_neg (by omega), hlast]
        · rw [Entry.getLsbD_released, if_neg (by omega), hplain]

/-! ## Failing at the first page -/

/-- The call fails before it changes a page: for its arguments, or because it refuses the entry
of its first page. -/
def RefusedAtOnce (c : TableCall) (mem : PhysAddr → ℕ → Word) (r : PhysAddr) : Prop :=
  ¬ (c.Aligned ∧ c.Fits) ∨ ¬ c.Accepts (c.entry mem r 0)

variable {mem mem' : PhysAddr → ℕ → Word} {r : PhysAddr} {c : TableCall} {j : ℕ}

/-- A page that a call has changed is translated before the call or after it, not both. -/
theorem Affects.reported_ne (h : c.Affects r j mem mem') (hj : 0 < j) :
    reported (content mem' r (pagePath c.baseAddr .size4kb)) ≠
      reported (content mem r (pagePath c.baseAddr .size4kb)) := by
  have hlen : (pagePath c.baseAddr .size4kb).length = 4 := length_pagePath c.baseAddr .size4kb
  have hpre : c.entryPath 0 <+: pagePath c.baseAddr .size4kb := pagePath_begins _ c.pageSize
  have hsome : ∀ e : Word, e.getLsbD 0 = true →
      reported (held c.pageSize.bottomPagingLevel e) ≠ .ok none := by
    intro e he
    rw [held_of_present he]
    cases hs : c.pageSize <;> simp only [reported, PageSize.bottomPagingLevel,
      PageSize.fromBottomPagingLevel, Option.elim_some, ne_eq] <;>
      cases Entry.getAddr e _ <;> simp [Except.map]
  have hnone : ∀ e : Word, e.getLsbD 0 = false →
      reported (held c.pageSize.bottomPagingLevel e) = .ok none := by
    intro e he
    rw [held_of_absent he]
    rfl
  have haccepts := h.accepted 0 hj
  rw [h.before 0 hj _ hlen hpre, h.after 0 hj _ hlen hpre]
  cases c with
  | map =>
      rw [hnone _ haccepts.1]
      exact hsome _ (Entry.present_mapped haccepts.2)
  | unmap =>
      rw [hnone]
      · exact (hsome _ haccepts).symm
      · change (Entry.released _).getLsbD 0 = false
        rw [Entry.getLsbD_released, if_pos rfl]

end TableCall

variable {σ : Type} [PmmAllocator σ] {m : Overflow} {r : PhysAddr} {w₀ w w' : World σ} {bound : ℕ}
  {respects : Set PhysAddr → σ → Prop} {log : List TableCall} {c : TableCall}

/-- Calls that mark no page to be freed and are clear. -/
def PlainCalls (r : PhysAddr) (_ : List TableCall) (w : World σ) (c : TableCall) : Prop :=
  c.Clear w.mem r ∧ c.Unmarked

/-- **When a call that fails is atomic.**  After any run of clear calls, a clear call that
returns an error leaves every translation as it was exactly when it is refused at once. -/
theorem failed_call_atomic_iff {err : PagingError} (law : Supplies σ m bound respects)
    (hbound : bound ≤ 2 ^ 52) (hzero : ∀ i, w₀.mem r i = 0) (hU : respects {r} w₀.pmm)
    (h : CallsReach m r w₀ (PlainCalls r) log w) (hc : PlainCalls r log w c)
    (hrun : c.run m r w = .ok (.error err, w')) :
    (∀ v, translate w'.mem r v = translate w.mem r v) ↔ c.RefusedAtOnce w.mem r := by
  have hI : SizedInv PlainWord respects r w := h.sizedInv grammar_plainWord law hbound hzero hU
    fun _ _ c hc => ⟨hc.1, hc.2.admits⟩
  obtain ⟨hI', j, -, haffects, hres⟩ := (TableCall.run_spec grammar_plainWord law hbound hI hc.1
    hc.2.admits).post hrun
  simp only [hI.sized.translate_eq grammar_plainWord, hI'.sized.translate_eq grammar_plainWord]
  rcases hres with ⟨hok, -⟩ | ⟨-, halign, hfits, hrefused⟩ | ⟨-, hargs, rfl⟩
  · cases hok
  · constructor
    · intro hsame
      cases j with
      | zero => exact Or.inr hrefused
      | succ j => exact absurd (hsame c.baseAddr) (haffects.reported_ne (Nat.succ_pos j))
    · rintro (hargs | hfirst) v
      · exact absurd ⟨halign, hfits⟩ hargs
      · obtain rfl : j = 0 := by
          by_contra hj
          exact hfirst (haffects.accepted 0 (Nat.pos_of_ne_zero hj))
        rw [haffects.same _ (length_pagePath v .size4kb) fun l hl => absurd hl (Nat.not_lt_zero l)]
  · refine ⟨fun _ => Or.inl hargs, fun _ v => ?_⟩
    rw [haffects.same _ (length_pagePath v .size4kb) fun l hl => absurd hl (Nat.not_lt_zero l)]

/-! ## Two pages -/

/-- The call that maps the two pages of `smallMapped`. -/
def smallMapCall : TableCall := .map 0x3000 0x7000 2 .size4kb smallFlags

theorem smallMap_reaches :
    CallsReach .checked 0x1000 smallWorld (PlainCalls 0x1000) [smallMapCall] smallMapped := by
  have hrun : smallMapCall.run .checked 0x1000 smallWorld = .ok (.ok (), smallMapped) :=
    eq_ok_stateAfter smallWorld (by decide)
  exact .step .start ⟨by decide, by decide⟩ hrun

/-- Mapping the first page again. -/
def smallRecall : TableCall := .map 0x3000 0x9000 1 .size4kb smallFlags

theorem small_failed_call_atomic :
    translate (stateAfter smallMapped (smallRecall.run .checked 0x1000 smallMapped)).mem 0x1000 =
      translate smallMapped.mem 0x1000 := by
  have hrun : smallRecall.run .checked 0x1000 smallMapped = .ok (.error .pageAlreadyPresent,
      stateAfter smallMapped (smallRecall.run .checked 0x1000 smallMapped)) :=
    eq_ok_stateAfter smallMapped (by decide)
  funext
  refine (failed_call_atomic_iff (BuddyAllocator.supplies .checked
    smallSupply_frees.inv.bound_le_word) (by decide) (fun _ => rfl) smallSupply_respects
    smallMap_reaches ⟨by decide, by decide⟩ hrun).mpr (Or.inr ?_) _
  intro hvacant
  exact absurd hvacant.1 (by decide)

/-- **Calls that fail half-way.**  Mapping two pages of which the second is mapped already
returns an error, and the first is translated from then on; unmapping two pages of which the
second is not mapped returns an error, and the first is not translated any more. -/
theorem failed_call_not_atomic :
    CallsReach .checked 0x1000 smallWorld (PlainCalls 0x1000) [smallMapCall] smallMapped ∧
    (∃ w', mapPages .checked 0x1000 smallMapped 0x2000 0x9000 2 .size4kb smallFlags =
        .ok (.error .pageAlreadyPresent, w') ∧
      translate smallMapped.mem 0x1000 0x2000 = .ok none ∧
      translate w'.mem 0x1000 0x2000 = .ok (some 0x9000)) ∧
    ∃ w', unmapPages .checked 0x1000 smallMapped 0x4000 2 .size4kb =
        .ok (.error .pageNotPresent, w') ∧
      translate smallMapped.mem 0x1000 0x4000 = .ok (some 0x8000) ∧
      translate w'.mem 0x1000 0x4000 = .ok none :=
  ⟨smallMap_reaches,
    ⟨_, eq_ok_stateAfter smallMapped (by decide), by decide, by decide⟩,
    ⟨_, eq_ok_stateAfter smallMapped (by decide), by decide, by decide⟩⟩

end Funderberker

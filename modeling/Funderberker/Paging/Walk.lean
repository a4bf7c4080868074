import Funderberker.Lib.RadixTree
import Funderberker.Paging.Table

/-!
# Walks through the tables

The tables reachable from a top-level table form a radix tree over the memory.  What
the tables say is what the slots of the tree hold, so every result about a walk is
about slots: a walk that creates tables changes no slot of a bottom-level table, and
in the levels above it only turns empty slots into pointers to tables.

Frames come from a PMM that keeps a promise, `Supplies`: in a state that respects a
set of frames, it hands out none of them.

## Main definitions

* `PageTable.node`, `slot`, `tables` — the tree in a memory.
* `Supplies` — what the tables need of the PMM.
* `Shape` — the invariant of the tree.
* `Hangs` — what creating one table does to the memory.
* `Grows` — what creating tables changes in the tree.
* `Stops` — why an operation on tables may panic.
* `Passes` — a way down that meets no page.

## Main results

* `getCreateTableRange_spec`, `getTableRange_eq`, `getEntry_eq`.
-/

namespace Funderberker

open Panicking RadixTree

theorem nextLevelIndex_eq (addr : VirtAddr) (level : ℕ) :
    nextLevelIndex addr level = addr / 2 ^ (12 + level * 9) % 512 := by
  rw [nextLevelIndex, Nat.shiftRight_eq_div_pow]
  exact Nat.and_two_pow_sub_one_eq_mod _ 9

namespace PageTable

variable {σ : Type} [PmmAllocator σ] {m : Overflow} {mem mem' mem'' : PhysAddr → ℕ → Word}
  {r t a : PhysAddr} {U U' U'' : Set PhysAddr} {p q : List ℕ} {i j k : ℕ} {e : Word}

/-! ## The tree in a memory -/

/-- A present entry that does not end a translation. -/
def PointsToTable (e : Word) : Prop := e.getLsbD 0 = true ∧ e.getLsbD 10 = false

instance (e : Word) : Decidable (PointsToTable e) :=
  inferInstanceAs (Decidable (_ ∧ _))

/-- The table an entry points to. -/
def child (e : Word) : Option PhysAddr := if PointsToTable e then some (Entry.frame e) else none

/-- The table that a path of indices leads to. -/
def node (mem : PhysAddr → ℕ → Word) (r : PhysAddr) : List ℕ → Option PhysAddr :=
  RadixTree.node child mem r

/-- Entry `i` of the table that a path leads to; an entry of no table is zero. -/
def slot (mem : PhysAddr → ℕ → Word) (r : PhysAddr) (q : List ℕ) (i : ℕ) : Word :=
  match node mem r q with
  | some t => mem t i
  | none => 0

/-- The frames used as tables. -/
def tables (mem : PhysAddr → ℕ → Word) (r : PhysAddr) : Set PhysAddr :=
  {t | ∃ q : List ℕ, q.length ≤ 3 ∧ node mem r q = some t}

theorem child_zero : child 0 = none := rfl

theorem child_of_points (h : PointsToTable e) : child e = some (Entry.frame e) := if_pos h

theorem child_of_absent (h : e.getLsbD 0 = false) : child e = none := by
  refine if_neg fun hp => ?_
  rw [hp.1] at h
  cases h

theorem pointsToTable_tableEntry (ha : a % 4096 = 0) : PointsToTable (Entry.tableEntry a) :=
  ⟨Entry.present_tableEntry a, Entry.last_tableEntry ha⟩

theorem child_tableEntry (ha : a % 4096 = 0) (ha64 : a < 2 ^ 64) :
    child (Entry.tableEntry a) = some a := by
  rw [child_of_points (pointsToTable_tableEntry ha), Entry.frame_tableEntry ha ha64]

theorem slot_of_some (h : node mem r q = some t) (i : ℕ) : slot mem r q i = mem t i := by
  rw [slot, h]

theorem slot_of_none (h : node mem r q = none) (i : ℕ) : slot mem r q i = 0 := by
  rw [slot, h]

/-- The tables are determined by the slots. -/
theorem node_concat_eq (q : List ℕ) (i : ℕ) : node mem r (q ++ [i]) = child (slot mem r q i) := by
  rw [node, RadixTree.node_concat]
  change (node mem r q).bind _ = _
  cases h : node mem r q with
  | none => rw [slot_of_none h, child_zero, Option.bind_none]
  | some t => rw [slot_of_some h, Option.bind_some]

theorem node_append_of_none (h : node mem r p = none) (q : List ℕ) :
    node mem r (p ++ q) = none := by
  rw [node, RadixTree.node_append]
  change (node mem r p).bind _ = none
  rw [h, Option.bind_none]

/-- A way to a table begins with an entry that points to one. -/
theorem points_of_node {u : PhysAddr} (ht : node mem r p = some t)
    (hu : node mem r (p ++ i :: q) = some u) :
    PointsToTable (mem t i) ∧ node mem r (p ++ [i]) = some (Entry.frame (mem t i)) ∧
      node mem r (p ++ [i] ++ q) = some u := by
  rw [List.append_cons] at hu
  have hstep : node mem r (p ++ [i]) = child (mem t i) := by
    rw [node_concat_eq, slot_of_some ht]
  by_cases hpoints : PointsToTable (mem t i)
  · rw [child_of_points hpoints] at hstep
    exact ⟨hpoints, hstep, hu⟩
  · rw [child, if_neg hpoints] at hstep
    rw [node_append_of_none hstep] at hu
    cases hu

theorem mem_tables (hq : q.length ≤ 3) (h : node mem r q = some t) : t ∈ tables mem r :=
  ⟨q, hq, h⟩

/-- A cleared top-level table leads nowhere. -/
theorem node_of_zero {q : List ℕ} {t : PhysAddr} (h : ∀ i, mem r i = 0)
    (ht : node mem r q = some t) : q = [] ∧ r = t := by
  cases q with
  | nil => exact ⟨rfl, Option.some.inj ht⟩
  | cons i q =>
      rw [node, RadixTree.node, h, child_zero, Option.bind_none] at ht
      cases ht

theorem tables_of_zero (h : ∀ i, mem r i = 0) : tables mem r = {r} := by
  ext t
  constructor
  · rintro ⟨q, -, ht⟩
    exact (node_of_zero h ht).2.symm
  · rintro rfl
    exact ⟨[], by simp, rfl⟩

/-! ## The invariant -/

/-- What the tables need of the PMM: in a state that respects the frames `U`, a basic
page that it hands out is none of them, and is respected from then on. -/
structure Supplies (σ : Type) [PmmAllocator σ] (m : Overflow) (bound : ℕ)
    (respects : Set PhysAddr → σ → Prop) : Prop where
  bound_le : bound ≤ 2 ^ 64
  allocate : ∀ {U : Set PhysAddr} {s s' : σ} {a : PhysAddr}, respects U s →
    PmmAllocator.allocate m s 1 1 = .ok (.ok a, s') →
    a % 4096 = 0 ∧ a < bound ∧ a ∉ U ∧ respects (insert a U) s'

/-- The tables form a tree of frames from `U`, and above the bottom level an entry is
empty or points to a table. -/
structure Shape (mem : PhysAddr → ℕ → Word) (r : PhysAddr) (U : Set PhysAddr) : Prop where
  tree : IsTree child mem r 3
  tables_subset : tables mem r ⊆ U
  interior : ∀ (q : List ℕ) (i : ℕ), q.length < 3 →
    slot mem r q i = 0 ∨ PointsToTable (slot mem r q i)

/-- Tables were added: they lie in new frames, and entries above the bottom level that
were empty may point to them. -/
structure Grows (r : PhysAddr) (mem : PhysAddr → ℕ → Word) (U : Set PhysAddr)
    (mem' : PhysAddr → ℕ → Word) (U' : Set PhysAddr) : Prop where
  subset : U ⊆ U'
  added : U' ⊆ U ∪ tables mem' r
  fresh : ∀ t ∈ tables mem' r, t ∈ tables mem r ∨ t ∉ U
  slots : ∀ (q : List ℕ) (i : ℕ), q.length ≤ 3 → slot mem' r q i = slot mem r q i ∨
    q.length < 3 ∧ slot mem r q i = 0 ∧ PointsToTable (slot mem' r q i)

theorem Shape.resize (h : Shape mem r U) (hU : tables mem r ⊆ U') : Shape mem r U' :=
  ⟨h.tree, hU, h.interior⟩

theorem not_pointsToTable_zero : ¬ PointsToTable 0 := by decide

theorem Grows.refl (r : PhysAddr) (mem : PhysAddr → ℕ → Word) (U : Set PhysAddr) :
    Grows r mem U mem U :=
  ⟨subset_rfl, Set.subset_union_left, fun _ => Or.inl, fun _ _ _ => Or.inl rfl⟩

theorem Grows.node (h : Grows r mem U mem' U') (hq : q.length ≤ 3) (ht : node mem r q = some t) :
    node mem' r q = some t := by
  cases q using List.reverseRecOn with
  | nil => exact ht
  | append_singleton q i =>
      rw [List.length_append, List.length_singleton] at hq
      rw [node_concat_eq] at ht ⊢
      rcases h.slots q i (by omega) with heq | ⟨-, hzero, -⟩
      · rw [heq]
        exact ht
      · rw [hzero, child_zero] at ht
        cases ht

theorem Grows.trans (h : Grows r mem U mem' U') (h' : Grows r mem' U' mem'' U'') :
    Grows r mem U mem'' U'' where
  subset := h.subset.trans h'.subset
  added t ht := by
    rcases h'.added ht with ht | ht
    · refine (h.added ht).imp_right ?_
      rintro ⟨q, hq, hnode⟩
      exact ⟨q, hq, h'.node hq hnode⟩
    · exact Or.inr ht
  fresh t ht := by
    rcases h'.fresh t ht with ht' | ht'
    · exact h.fresh t ht'
    · exact Or.inr fun htU => ht' (h.subset htU)
  slots q i hq := by
    rcases h.slots q i hq with heq | ⟨hlt, hzero, hpoints⟩
    · rw [← heq]
      exact h'.slots q i hq
    · rcases h'.slots q i hq with heq' | ⟨-, hzero', -⟩
      · rw [heq']
        exact Or.inr ⟨hlt, hzero, hpoints⟩
      · rw [hzero'] at hpoints
        exact absurd hpoints not_pointsToTable_zero

/-- Entries of bottom-level tables stay as they are. -/
theorem Grows.slot_eq (h : Grows r mem U mem' U') (hq : q.length = 3) (i : ℕ) :
    slot mem' r q i = slot mem r q i := by
  rcases h.slots q i hq.le with heq | ⟨hlt, -⟩
  · exact heq
  · omega

/-! ## Creating a table -/

/-- Why an operation on tables may panic: there is no frame for a table, the PMM
stops, or an address leaves 64 bits in a build that checks. -/
inductive Stops (σ : Type) [PmmAllocator σ] (m : Overflow) : Panic → Prop
  | noTable : Stops σ m (.expect "Failed to allocate page table")
  | pmm {s : σ} {x : Panic} (h : PmmAllocator.allocate m s 1 1 = .error x) : Stops σ m x
  | overflow (h : m = .checked) : Stops σ m .overflow

variable {bound : ℕ} {respects : Set PhysAddr → σ → Prop} {w : World σ}

/-- `mem'` is `mem` with the cleared frame `a` hung as a table under entry `i` of `t`. -/
structure Hangs (mem : PhysAddr → ℕ → Word) (t : PhysAddr) (i : ℕ) (a : PhysAddr)
    (mem' : PhysAddr → ℕ → Word) : Prop where
  aligned : a % 4096 = 0
  lt_word : a < 2 ^ 64
  free : mem t i = 0
  entry : mem' t i = Entry.tableEntry a
  cleared : ∀ j, mem' a j = 0
  other : ∀ u j, u ≠ a → (u = t → j ≠ i) → mem' u j = mem u j

theorem Hangs.child_entry (h : Hangs mem t i a mem') : child (mem' t i) = some a := by
  rw [h.entry, child_tableEntry h.aligned h.lt_word]

/-- Among the tables, a new one is added. -/
theorem Hangs.extends (h : Hangs mem t i a mem') : Extends child mem t i a mem' where
  free := by rw [h.free, child_zero]
  linked := h.child_entry
  empty j := by rw [h.cleared, child_zero]
  other := h.other

/-- The word of an entry after a table has been created under it.  Its flags stay. -/
def linked (e : Word) (a : PhysAddr) : Word :=
  (Entry.setFlags e (((Entry.getFlags e).setPresent true).setReadWrite true) &&& 0xFFF#64) |||
    BitVec.ofNat 64 a

theorem linked_zero (a : PhysAddr) : linked 0 a = Entry.tableEntry a := by
  rw [linked, BitVec.or_comm, Entry.tableEntry]
  rfl

theorem getLsbD_linked (ha : a % 4096 = 0) (hj : j < 64) : (linked e a).getLsbD j =
    if j < 12 then decide (j = 0) || decide (j = 1) || e.getLsbD j
    else (BitVec.ofNat 64 a).getLsbD j := by
  rw [linked, BitVec.getLsbD_or, BitVec.getLsbD_and, Entry.getLsbD_setFlags hj, getLsbD_flagMask]
  by_cases hlow : j < 12
  · rw [Entry.getLsbD_ofNat_aligned ha hlow, Flags.setReadWrite, Flags.FLAG_RW,
      Flags.getLsbD_set (by omega), Flags.setPresent, Flags.FLAG_P, Flags.getLsbD_set (by omega),
      Entry.getFlags, BitVec.getLsbD_and, getLsbD_flagMask]
    by_cases h0 : j = 0 <;> by_cases h1 : j = 1 <;> simp [h0, h1, hlow, Nat.not_le.mpr hlow]
  · simp [hlow]

/-- Creating a table under any entry, once there is a frame for it. -/
theorem createNextLevel_run {s : σ} (halloc : PmmAllocator.allocate m w.pmm 1 1 = .ok (.ok a, s))
    (hmod : a % 4096 = 0) (hta : t ≠ a) : createNextLevel m t i w =
      .ok (({ w with pmm := s }.memset a).write t i (linked (w.mem t i) a)) := by
  set w₁ := w.write t i (Entry.setFlags (w.mem t i)
    (((Entry.getFlags (w.mem t i)).setPresent true).setReadWrite true)) with hw₁
  have hnew : new m w₁ = .ok (a, { w₁ with pmm := s }.memset a) := by
    rw [new, show PageSize.size4kb.pageAlignment = 1 from rfl]
    change (PmmAllocator.allocate m w.pmm 1 1 >>= _) = _
    rw [halloc, ok_bind]
  have hentry : ({ w₁ with pmm := s }.memset a).mem t i = Entry.setFlags (w.mem t i)
      (((Entry.getFlags (w.mem t i)).setPresent true).setReadWrite true) := by
    simp only [World.memset, if_neg hta, hw₁, World.write, and_self, if_true]
  have hwrite : ({ w₁ with pmm := s }.memset a).write t i (linked (w.mem t i) a) =
      ({ w with pmm := s }.memset a).write t i (linked (w.mem t i) a) := by
    refine congrArg (World.mk · s) (funext fun u => funext fun j => ?_)
    by_cases hslot : u = t ∧ j = i
    · simp [hslot]
    · simp [World.memset, hw₁, World.write, hslot]
  change (new m w₁ >>= _) = _
  rw [hnew, ok_bind]
  dsimp only
  rw [hentry, Entry.setAddr_size4kb hmod, ok_bind, ← hwrite]
  rfl

/-- Creating a table under an empty entry hangs the frame there. -/
theorem createNextLevel_eq {s : σ} (halloc : PmmAllocator.allocate m w.pmm 1 1 = .ok (.ok a, s))
    (hmod : a % 4096 = 0) (ha64 : a < 2 ^ 64) (hta : t ≠ a) (hi : w.mem t i = 0) :
    ∃ w', createNextLevel m t i w = .ok w' ∧ w'.pmm = s ∧ Hangs w.mem t i a w'.mem := by
  refine ⟨_, createNextLevel_run halloc hmod hta, rfl, hmod, ha64, hi, ?_, fun j => ?_,
    fun u j hu hne => ?_⟩
  · rw [hi, linked_zero]
    exact if_pos ⟨rfl, rfl⟩
  · simp [World.write, World.memset, hta.symm]
  · have hslot : ¬ (u = t ∧ j = i) := fun h => hne h.1 h.2
    simp [World.write, World.memset, hslot, hu]

/-- Creating a table without a frame for it. -/
theorem createNextLevel_stops {Q : World σ → Prop}
    (h : ∀ a s, PmmAllocator.allocate m w.pmm 1 1 ≠ .ok (.ok a, s)) :
    Yields (Stops σ m) Q (createNextLevel m t i w) := by
  rw [createNextLevel, new, show PageSize.size4kb.pageAlignment = 1 from rfl]
  change Yields _ _ ((PmmAllocator.allocate m w.pmm 1 1 >>= _) >>= _)
  cases halloc : PmmAllocator.allocate m w.pmm 1 1 with
  | error x => exact .pmm halloc
  | ok x =>
      obtain ⟨res, s⟩ := x
      cases res with
      | error _ => exact .noTable
      | ok a => exact absurd halloc (h a s)

/-- Creating a table hangs an empty frame under the entry. -/
theorem createNextLevel_spec (law : Supplies σ m bound respects) (hU : respects U w.pmm)
    (ht : t ∈ U) (hi : w.mem t i = 0) :
    Yields (Stops σ m) (fun w' => ∃ a, a ∉ U ∧ respects (insert a U) w'.pmm ∧
      Hangs w.mem t i a w'.mem) (createNextLevel m t i w) := by
  by_cases hframe : ∃ a s, PmmAllocator.allocate m w.pmm 1 1 = .ok (.ok a, s)
  · obtain ⟨a, s, halloc⟩ := hframe
    obtain ⟨hmod, hlt, ha, hres⟩ := law.allocate hU halloc
    have hta : t ≠ a := by
      rintro rfl
      exact ha ht
    obtain ⟨w', hrun, rfl, hhangs⟩ :=
      createNextLevel_eq halloc hmod (hlt.trans_le law.bound_le) hta hi
    rw [hrun, yields_ok]
    exact ⟨a, ha, hres, hhangs⟩
  · exact createNextLevel_stops fun a s halloc => hframe ⟨a, s, halloc⟩

/-- The tables after a new one has been added. -/
theorem tables_extend (hT : IsTree child mem r 3) (hp : p.length < 3) (ht : node mem r p = some t)
    (hE : Extends child mem t i a mem') (ha : a ∉ tables mem r) :
    tables mem' r = insert a (tables mem r) := by
  have hfresh : ∀ q : List ℕ, q.length ≤ 3 → node mem r q ≠ some a := fun q hq h => ha ⟨q, hq, h⟩
  have hnode := node_extend hT hp ht hE hfresh
  have hnew : (p ++ [i]).length ≤ 3 := by
    rw [List.length_append, List.length_singleton]
    omega
  ext u
  constructor
  · rintro ⟨q, hq, hu⟩
    by_cases hqp : q = p ++ [i]
    · exact Or.inl (Option.some.inj (((hnode q hq).1 hqp).symm.trans hu)).symm
    · exact Or.inr ⟨q, hq, ((hnode q hq).2 hqp).symm.trans hu⟩
  · rintro (rfl | ⟨q, hq, hu⟩)
    · exact ⟨p ++ [i], hnew, (hnode _ hnew).1 rfl⟩
    · have hqp : q ≠ p ++ [i] := by
        rintro rfl
        rw [node, RadixTree.node_concat, show RadixTree.node child mem r p = some t from ht,
          Option.bind_some, hE.free] at hu
        cases hu
      exact ⟨q, hq, ((hnode q hq).2 hqp).trans hu⟩

theorem Shape.grow (hS : Shape mem r U) (hp : p.length < 3) (ht : node mem r p = some t)
    (hhangs : Hangs mem t i a mem') (ha : a ∉ U) :
    Shape mem' r (insert a U) ∧ Grows r mem U mem' (insert a U) := by
  have hnew : a ∉ tables mem r := fun h => ha (hS.tables_subset h)
  have hfresh : ∀ q : List ℕ, q.length ≤ 3 → node mem r q ≠ some a :=
    fun q hq h => hnew (mem_tables hq h)
  have hnode := node_extend hS.tree hp ht hhangs.extends hfresh
  have htables := tables_extend hS.tree hp ht hhangs.extends hnew
  have hslots : ∀ (q : List ℕ) (j : ℕ), q.length ≤ 3 → slot mem' r q j = slot mem r q j ∨
      q.length < 3 ∧ slot mem r q j = 0 ∧ PointsToTable (slot mem' r q j) := by
    intro q j hq
    by_cases hqp : q = p ++ [i]
    · -- The new table is empty, and there was none before.
      have hnone : node mem r q = none := by
        rw [hqp, node_concat_eq, slot_of_some ht, hhangs.free, child_zero]
      left
      rw [slot_of_some ((hnode q hq).1 hqp), slot_of_none hnone, hhangs.cleared]
    · have hsame : node mem' r q = node mem r q := (hnode q hq).2 hqp
      cases hu : node mem r q with
      | none =>
          left
          rw [slot_of_none hu, slot_of_none (hsame.trans hu)]
      | some u =>
          rw [slot_of_some hu, slot_of_some (hsame.trans hu)]
          by_cases hslot : u = t ∧ j = i
          · obtain ⟨rfl, rfl⟩ := hslot
            have hqlen : q = p := hS.tree q p hq hp.le u hu ht
            rw [hhangs.entry]
            exact Or.inr ⟨hqlen ▸ hp, hhangs.free, pointsToTable_tableEntry hhangs.aligned⟩
          · refine Or.inl (hhangs.other u j ?_ fun hu hj => hslot ⟨hu, hj⟩)
            rintro rfl
            exact hfresh q hq hu
  refine ⟨⟨hS.tree.extend hp ht hhangs.extends hfresh, ?_, fun q j hq => ?_⟩,
    ⟨Set.subset_insert a U, ?_, fun u hu => ?_, hslots⟩⟩
  · rw [htables]
    exact Set.insert_subset_insert hS.tables_subset
  · rcases hslots q j hq.le with heq | ⟨-, -, hpoints⟩
    · rw [heq]
      exact hS.interior q j hq
    · exact Or.inr hpoints
  · rintro u (rfl | hu)
    · exact Or.inr (htables ▸ Set.mem_insert u _)
    · exact Or.inl hu
  · rcases htables ▸ hu with rfl | h
    · exact Or.inr ha
    · exact Or.inl h

/-! ## Walks -/

/-- The indices on the way through the `k` levels above `bottom`. -/
def path (addr : VirtAddr) (bottom : ℕ) : ℕ → List ℕ
  | 0 => []
  | k + 1 => nextLevelIndex addr (bottom + (k + 1)) :: path addr bottom k

/-- A way down through tables, which may end early at a word that `P` accepts. -/
def Passes (P : Word → Prop) (mem : PhysAddr → ℕ → Word) (addr : VirtAddr) (bottom : ℕ) :
    ℕ → PhysAddr → Prop
  | 0, _ => True
  | k + 1, t =>
      P (mem t (nextLevelIndex addr (bottom + (k + 1)))) ∨
        PointsToTable (mem t (nextLevelIndex addr (bottom + (k + 1)))) ∧
          Passes P mem addr bottom k (Entry.frame (mem t (nextLevelIndex addr (bottom + (k + 1)))))

variable {addr : VirtAddr} {bottom : ℕ}

/-- One level of a walk that creates tables. -/
theorem nextLevel_spec (law : Supplies σ m bound respects) (hS : Shape w.mem r U)
    (hU : respects U w.pmm) (hp : p.length < 3) (ht : node w.mem r p = some t) (i : ℕ) :
    Yields (Stops σ m) (fun w' => ∃ U', Shape w'.mem r U' ∧ respects U' w'.pmm ∧
      Grows r w.mem U w'.mem U' ∧ node w'.mem r (p ++ [i]) = some (Entry.frame (w'.mem t i)))
      (if ¬ (Entry.getFlags (w.mem t i)).getPresent then createNextLevel m t i w else .ok w) := by
  rw [Flags.getPresent_getFlags]
  have htU : t ∈ U := hS.tables_subset (mem_tables hp.le ht)
  rcases slot_of_some ht i ▸ hS.interior p i hp with hzero | hpoints
  · have habsent : ¬ (w.mem t i).getLsbD 0 = true := by
      rw [hzero]
      decide
    rw [if_pos habsent]
    refine (createNextLevel_spec law hU htU hzero).imp ?_
    rintro w' ⟨a, ha, hres, hhangs⟩
    obtain ⟨hS', hG⟩ := hS.grow hp ht hhangs ha
    refine ⟨_, hS', hres, hG, ?_⟩
    rw [node_concat_eq, slot_of_some (hG.node hp.le ht), hhangs.child_entry, hhangs.entry,
      Entry.frame_tableEntry hhangs.aligned hhangs.lt_word]
  · rw [if_neg (not_not.mpr hpoints.1), yields_ok]
    refine ⟨U, hS, hU, Grows.refl r w.mem U, ?_⟩
    rw [node_concat_eq, slot_of_some ht, child_of_points hpoints]

theorem getCreateTableRangeGo_spec (law : Supplies σ m bound respects) (hS : Shape w.mem r U)
    (hU : respects U w.pmm) (hp : p.length + k ≤ 3) (ht : node w.mem r p = some t) :
    Yields (Stops σ m) (fun x => ∃ U', Shape x.2.mem r U' ∧ respects U' x.2.pmm ∧
      Grows r w.mem U x.2.mem U' ∧ node x.2.mem r (p ++ path addr bottom k) = some x.1)
      (getCreateTableRangeGo m addr bottom k t w) := by
  induction k generalizing p t w U with
  | zero =>
      rw [getCreateTableRangeGo, yields_ok]
      refine ⟨U, hS, hU, Grows.refl r w.mem U, ?_⟩
      rw [path, List.append_nil]
      exact ht
  | succ k ih =>
      rw [getCreateTableRangeGo]
      refine (nextLevel_spec law hS hU (by omega) ht _).bind ?_
      rintro w' ⟨U', hS', hU', hG, hnode⟩
      rw [Entry.nextLevelTable_eq, ok_bind]
      refine (ih hS' hU' (by simp; omega) hnode).imp ?_
      rintro x ⟨U'', hS'', hU'', hG', hx⟩
      refine ⟨U'', hS'', hU'', hG.trans hG', ?_⟩
      rw [path, List.append_cons]
      exact hx

theorem sanityAssert_aligned (h : addr % 4096 = 0) :
    sanityAssert m (addr % PageSize.size4kb.size = 0) = .ok () :=
  if_neg fun hc => hc.2 h

/-- The parent table of a basic page, after the tables on the way have been created. -/
theorem getCreateTableRange_spec (law : Supplies σ m bound respects) (hS : Shape w.mem r U)
    (hU : respects U w.pmm) (haddr : addr % 4096 = 0) :
    Yields (Stops σ m) (fun x => ∃ U', Shape x.2.mem r U' ∧ respects U' x.2.pmm ∧
      Grows r w.mem U x.2.mem U' ∧ node x.2.mem r (path addr 0 3) = some x.1)
      (getCreateTableRange m r w addr .size4kb) := by
  rw [getCreateTableRange, sanityAssert_aligned haddr, ok_bind]
  exact getCreateTableRangeGo_spec (p := []) law hS hU (Nat.le_refl 3) rfl

/-- The loop of `get_table_range` on a way that meets no page. -/
theorem getTableRangeGo_passes (ht : node mem r p = some t)
    (hway : Passes (·.getLsbD 0 = false) mem addr bottom k t) :
    getTableRangeGo mem addr bottom k t = .ok (node mem r (p ++ path addr bottom k)) := by
  induction k generalizing p t with
  | zero => rw [getTableRangeGo, path, List.append_nil, ht]
  | succ k ih =>
      rw [getTableRangeGo, path, List.append_cons, Flags.getPresent_getFlags,
        Entry.nextLevelTable_eq, ok_bind]
      rw [Passes] at hway
      set i := nextLevelIndex addr (bottom + (k + 1))
      have hstep : node mem r (p ++ [i]) = child (mem t i) := by
        rw [node_concat_eq, slot_of_some ht]
      rcases hway with habsent | ⟨hpoints, hway⟩
      · rw [child_of_absent habsent] at hstep
        rw [if_pos (by rw [habsent]; exact Bool.false_ne_true), node_append_of_none hstep]
      · rw [if_neg (not_not.mpr hpoints.1)]
        exact ih (hstep.trans (child_of_points hpoints)) hway

/-- In the tree every way meets no page above the bottom level. -/
theorem Shape.passes (hS : Shape mem r U) (hp : p.length + k ≤ 3) (ht : node mem r p = some t) :
    Passes (·.getLsbD 0 = false) mem addr bottom k t := by
  induction k generalizing p t with
  | zero => trivial
  | succ k ih =>
      rw [Passes]
      set i := nextLevelIndex addr (bottom + (k + 1))
      rcases slot_of_some ht i ▸ hS.interior p i (by omega) with hzero | hpoints
      · left
        rw [hzero]
        rfl
      · have hlen : (p ++ [i]).length + k ≤ 3 := by
          rw [List.length_append, List.length_singleton]
          omega
        refine Or.inr ⟨hpoints, ih hlen ?_⟩
        rw [node_concat_eq, slot_of_some ht, child_of_points hpoints]

theorem getTableRange_eq (hS : Shape mem r U) (haddr : addr % 4096 = 0) :
    getTableRange m mem r addr .size4kb = .ok (node mem r (path addr 0 3)) := by
  rw [getTableRange, sanityAssert_aligned haddr, ok_bind]
  exact getTableRangeGo_passes (p := []) rfl (hS.passes (p := []) (Nat.le_refl 3) rfl)

/-- Above the bottom level, a translation goes through the tables. -/
theorem getEntryGo_eq (hS : Shape mem r U) (hp : p.length + k ≤ 3) (ht : node mem r p = some t) :
    getEntryGo mem addr (k + 1) t =
      (node mem r (p ++ path addr 0 k)).elim (.ok none) fun u => getEntryGo mem addr 1 u := by
  induction k generalizing p t with
  | zero => rw [path, List.append_nil, ht, Option.elim_some]
  | succ k ih =>
      rw [getEntryGo, path, List.append_cons, Flags.getPresent_getFlags,
        Flags.getLastEntry_getFlags, Entry.nextLevelTable_eq, ok_bind, Nat.zero_add]
      set i := nextLevelIndex addr (k + 1)
      have hstep : node mem r (p ++ [i]) = child (slot mem r p i) := node_concat_eq p i
      rcases slot_of_some ht i ▸ hS.interior p i (by omega) with hzero | hpoints
      · have hnone : node mem r (p ++ [i]) = none := by
          rw [hstep, slot_of_some ht, hzero, child_zero]
        rw [node_append_of_none hnone, hzero]
        rfl
      · have hlast : ¬ (mem t i).getLsbD 10 = true := by
          rw [hpoints.2]
          exact Bool.false_ne_true
        rw [if_neg hlast, if_pos hpoints.1]
        refine ih (by simp; omega) ?_
        rw [hstep, slot_of_some ht, child_of_points hpoints]

end PageTable

end Funderberker

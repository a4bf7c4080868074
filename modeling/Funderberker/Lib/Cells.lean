import Funderberker.Lib.Panicking
import Mathlib.Data.List.Nodup

/-!
# Linked cells in a heap

A heap is a partial function from addresses to cells.  A cell may hold links to other
cells, and a `Field` of the cell is one such link.  Following a field from a pointer
goes through a sequence of cells: `Path`.

Lists that keep several fields in step, or move cells between them, are changed one
pointer at a time.  Each such change redirects the pointer that leads to some position
of a path, which is a field of the cell before it or, at the start, the pointer the
path begins with (`redirect`).  `redirect_spec` says what that does to the path, and
that other fields and other cells stay as they are; together with `path_append` it
gives insertion and removal anywhere.  With two fields that lead through the same cells
in opposite orders (`Linked`), a cell is linked in or taken out by two such changes.

## Main definitions

* `Heap`, `read`, `write`, `dealloc` — cells; reading a freed cell is a `Fault`.
* `Field`, `Field.links` — a link of the cells.
* `Path` — the cells that a field leads through.
* `deref`, `redirect` — read or change the pointer to a position.
* `follow`, `Cursor` — reading along a path.
* `Linked` — doubly linked cells.

## Main results

* `path_append`, `Path.congr`, `Path.nodup`, `Path.unique`.
* `redirect_spec` — one pointer changes.
* `follow_eq`, `yielding_advance` — what is read along a path.
* `Linked.link`, `Linked.unlink` — a cell is put in or taken out.
-/

namespace Cells

open Panicking

/-- What can go wrong with pointers: a cell is used that is not there, or a loop does
not end within its bound. -/
inductive Fault
  | dangling
  | diverged
  deriving DecidableEq, Repr

/-- A partial map from addresses to cells. -/
abbrev Heap (A N : Type) := A → Option N

variable {A N : Type}

/-- The cell at an address. -/
def read (h : Heap A N) (p : A) : Except Fault N := ofOption .dangling (h p)

/-- Write a cell. -/
def write [DecidableEq A] (h : Heap A N) (p : A) (n : N) : Heap A N :=
  fun a => if a = p then some n else h a

/-- Free a cell. -/
def dealloc [DecidableEq A] (h : Heap A N) (p : A) : Heap A N :=
  fun a => if a = p then none else h a

/-- A field of the cells that holds a link. -/
structure Field (A N : Type) where
  get : N → Option A
  set : N → Option A → N
  get_set : ∀ n v, get (set n v) = v

/-- The links of the cells that are there. -/
def Field.links (F : Field A N) (h : Heap A N) (a : A) : Option (Option A) := (h a).map F.get

theorem read_of_some {h : Heap A N} {p : A} {n : N} (hp : h p = some n) : read h p = .ok n := by
  rw [read, hp, ofOption_some]

section Writes

variable [DecidableEq A] {h : Heap A N} {p a : A} {n : N}

@[simp] theorem write_self : write h p n p = some n := if_pos rfl

@[simp] theorem write_of_ne (ha : a ≠ p) : write h p n a = h a := if_neg ha

@[simp] theorem dealloc_self : dealloc h p p = none := if_pos rfl

@[simp] theorem dealloc_of_ne (ha : a ≠ p) : dealloc h p a = h a := if_neg ha

end Writes

/-! ## Paths -/

/-- Following the links from `p` leads through exactly the cells `xs`, to `q`. -/
def Path (f : A → Option (Option A)) : Option A → List A → Option A → Prop
  | p, [], q => p = q
  | p, a :: xs, q => p = some a ∧ ∃ n, f a = some n ∧ Path f n xs q

variable {f f' : A → Option (Option A)} {p q v : Option A} {xs ys : List A} {a : A}

theorem path_append :
    Path f p (xs ++ ys) q ↔ ∃ r, Path f p xs r ∧ Path f r ys q := by
  induction xs generalizing p with
  | nil => exact ⟨fun h => ⟨p, rfl, h⟩, fun ⟨_, hr, h⟩ => hr ▸ h⟩
  | cons a xs ih =>
      simp only [List.cons_append, Path, ih]
      constructor
      · rintro ⟨hp, n, hn, r, hr, h⟩
        exact ⟨r, ⟨hp, n, hn, hr⟩, h⟩
      · rintro ⟨r, ⟨hp, n, hn, hr⟩, h⟩
        exact ⟨hp, n, hn, r, hr, h⟩

theorem path_singleton : Path f p [a] q ↔ p = some a ∧ f a = some q := by
  simp [Path]

/-- A path only depends on the links of its cells. -/
theorem Path.congr (h : Path f p xs q) (hf : ∀ a ∈ xs, f' a = f a) : Path f' p xs q := by
  induction xs generalizing p with
  | nil => exact h
  | cons a xs ih =>
      obtain ⟨hp, n, hn, h⟩ := h
      refine ⟨hp, n, ?_, ih h fun b hb => hf b (List.mem_cons_of_mem a hb)⟩
      rw [hf a List.mem_cons_self, hn]

theorem Path.links_eq (h : Path f p xs q) (ha : a ∈ xs) : ∃ n, f a = some n := by
  induction xs generalizing p with
  | nil => cases ha
  | cons b xs ih =>
      obtain ⟨-, n, hn, h⟩ := h
      rcases List.mem_cons.mp ha with rfl | ha
      · exact ⟨n, hn⟩
      · exact ih h ha

/-- A path that ends nowhere starts at its first cell. -/
theorem Path.start_eq (h : Path f p xs none) : p = xs.head? := by
  cases xs with
  | nil => exact h
  | cons a xs => exact h.1

/-- The pointer determines the path. -/
theorem Path.unique (h : Path f p xs none) (h' : Path f p ys none) : xs = ys := by
  induction xs generalizing p ys with
  | nil =>
      obtain rfl : p = none := h
      cases ys with
      | nil => rfl
      | cons b ys => cases h'.1
  | cons a xs ih =>
      obtain ⟨rfl, n, hn, h⟩ := h
      cases ys with
      | nil => cases h'
      | cons b ys =>
          obtain ⟨hb, n', hn', h'⟩ := h'
          obtain rfl := Option.some.inj hb
          obtain rfl := Option.some.inj (hn.symm.trans hn')
          rw [ih h h']

/-- A path that ends nowhere goes through no cell twice. -/
theorem Path.nodup (h : Path f p xs none) : xs.Nodup := by
  induction xs generalizing p with
  | nil => exact List.nodup_nil
  | cons a xs ih =>
      refine List.nodup_cons.mpr ⟨fun ha => ?_, ih h.2.choose_spec.2⟩
      -- From the second visit on the path would be the whole path again.
      obtain ⟨ys, zs, rfl⟩ := List.append_of_mem ha
      obtain ⟨rfl, n, hn, hrest⟩ := h
      obtain ⟨r, -, hzs⟩ := path_append.mp hrest
      obtain ⟨rfl, hzs⟩ : r = some a ∧ _ := ⟨hzs.1, hzs⟩
      have hall : Path f (some a) (a :: (ys ++ a :: zs)) none := ⟨rfl, n, hn, hrest⟩
      have hlen := congrArg List.length (hzs.unique hall)
      simp only [List.length_cons, List.length_append] at hlen
      omega

/-! ## Reading along a path -/

/-- Follow a field a number of times. -/
def follow (F : Field A N) (h : Heap A N) : ℕ → A → Except Fault (Option A)
  | 0, a => .ok (some a)
  | k + 1, a => do
      let n ← read h a
      match F.get n with
      | none => .ok none
      | some b => follow F h k b

/-- A position on a path, with the number of cells that are left. -/
structure Cursor (A : Type) where
  next : Option A
  remaining : ℕ

/-- Go to the next cell, if any are left, and yield an item of the one that is passed. -/
def Cursor.advance {β : Type} (F : Field A N) (h : Heap A N) (item : A → N → β) (it : Cursor A) :
    Except Fault (Option β × Cursor A) :=
  if it.remaining = 0 then .ok (none, it)
  else match it.next with
    | none => .ok (none, it)
    | some a => do
        let n ← read h a
        .ok (some (item a n), ⟨F.get n, it.remaining - 1⟩)

def Cursor.sizeHint (it : Cursor A) : ℕ × Option ℕ := (it.remaining, some it.remaining)

/-- A cursor whose size hint is the number of items that are left, and which yields
exactly the given items. -/
def Yielding {β : Type} (next : Cursor A → Except Fault (Option β × Cursor A)) (it : Cursor A)
    (items : List β) : Prop :=
  Drains next (fun it k => it.sizeHint = (k, some k)) it items

section Reading

variable {F : Field A N} {h : Heap A N} {k : ℕ}

theorem follow_eq (hpath : Path (F.links h) (some a) (a :: xs) none) :
    follow F h k a = .ok (a :: xs)[k]? := by
  induction k generalizing a xs with
  | zero => rfl
  | succ k ih =>
      obtain ⟨-, p, hp, hrest⟩ := hpath
      obtain ⟨n, hn, hget⟩ : ∃ n, h a = some n ∧ F.get n = p := Option.map_eq_some_iff.mp hp
      rw [follow, read_of_some hn, ok_bind, hget, List.getElem?_cons_succ]
      cases xs with
      | nil =>
          obtain rfl : p = none := hrest
          rfl
      | cons b xs =>
          obtain rfl : p = some b := hrest.1
          exact ih hrest

/-- What a cursor yields of the cells on its way. -/
theorem yielding_advance {β : Type} (item : A → N → β) (hpath : Path (F.links h) p xs none)
    (hk : k = xs.length) :
    ∃ items, List.Forall₂ (fun a b => ∃ n, h a = some n ∧ item a n = b) xs items ∧
      Yielding (Cursor.advance F h item) ⟨p, k⟩ items := by
  subst hk
  induction xs generalizing p with
  | nil => exact ⟨[], .nil, rfl, _, rfl⟩
  | cons a xs ih =>
      obtain ⟨rfl, q, hq, hrest⟩ := hpath
      obtain ⟨n, hn, rfl⟩ : ∃ n, h a = some n ∧ F.get n = q := Option.map_eq_some_iff.mp hq
      obtain ⟨items, hitems, hyield⟩ := ih hrest
      refine ⟨item a n :: items, .cons ⟨n, hn, rfl⟩ hitems, ?_, _, ?_, hyield⟩
      · simp only [Cursor.sizeHint, List.length_cons, hitems.length_eq]
      · rw [Cursor.advance, if_neg (by simp)]
        simp only [read_of_some hn, ok_bind, List.length_cons, Nat.add_sub_cancel]

/-- A cursor that yields the addresses. -/
theorem yielding_addresses (hpath : Path (F.links h) p xs none) (hk : k = xs.length) :
    Yielding (Cursor.advance F h fun a _ => a) ⟨p, k⟩ xs := by
  obtain ⟨items, hitems, hyield⟩ := yielding_advance (fun a _ => a) hpath hk
  have heq : List.Forall₂ (· = ·) xs items := hitems.imp fun a b ⟨_, _, hb⟩ => hb
  rw [List.forall₂_eq_eq_eq] at heq
  exact heq ▸ hyield

/-- A cursor that yields a part of each cell. -/
theorem yielding_parts {β : Type} (g : N → β) (hpath : Path (F.links h) p xs none)
    (hk : k = xs.length) :
    ∃ ds, ds.map some = xs.map (fun a => (h a).map g) ∧
      Yielding (Cursor.advance F h fun _ n => g n) ⟨p, k⟩ ds := by
  obtain ⟨ds, hds, hyield⟩ := yielding_advance (fun _ n => g n) hpath hk
  refine ⟨ds, ?_, hyield⟩
  clear hpath hk hyield
  induction hds with
  | nil => rfl
  | cons hab _ ih =>
      obtain ⟨n, hn, rfl⟩ := hab
      rw [List.map_cons, List.map_cons, ih, hn, Option.map_some]

/-- A cursor that yields the cells with their addresses. -/
theorem yielding_cells (hpath : Path (F.links h) p xs none) (hk : k = xs.length) :
    ∃ ns, ns.map Prod.fst = xs ∧ (∀ n ∈ ns, h n.1 = some n.2) ∧
      Yielding (Cursor.advance F h Prod.mk) ⟨p, k⟩ ns := by
  obtain ⟨ns, hns, hyield⟩ := yielding_advance Prod.mk hpath hk
  refine ⟨ns, ?_, ?_, hyield⟩
  all_goals
    clear hpath hk hyield
    induction hns with
    | nil => simp
    | cons hab _ ih =>
        obtain ⟨n, hn, rfl⟩ := hab
        simpa [hn] using ih

end Reading

/-! ## One pointer -/

/-- Change the pointer to a position: the field of the cell before it, if there is one,
and the start of the path otherwise. -/
def redirect [DecidableEq A] (F : Field A N) (h : Heap A N) (before start v : Option A) :
    Except Fault (Heap A N × Option A) :=
  match before with
  | some b => do
      let n ← read h b
      .ok (write h b (F.set n v), start)
  | none => .ok (h, v)

/-- The pointer to a position. -/
def deref (F : Field A N) (h : Heap A N) (start : Option A) : Option A → Except Fault (Option A)
  | some before => do
      let n ← read h before
      .ok (F.get n)
  | none => .ok start

/-- The pointer after the cells `xs` is where their path ends. -/
theorem deref_eq {F : Field A N} {h : Heap A N} (hpath : Path (F.links h) p xs q) :
    deref F h p xs.getLast? = .ok q := by
  rcases List.eq_nil_or_concat xs with rfl | ⟨ys, b, rfl⟩
  · exact congrArg Except.ok hpath
  · rw [List.concat_eq_append] at *
    obtain ⟨r, -, hlast⟩ := path_append.mp hpath
    obtain ⟨-, hb⟩ := path_singleton.mp hlast
    obtain ⟨n, hn, rfl⟩ : ∃ n, h b = some n ∧ F.get n = q := Option.map_eq_some_iff.mp hb
    rw [List.getLast?_concat, deref, read_of_some hn, ok_bind]

/-- What redirecting a pointer changes. -/
structure Redirected (F : Field A N) (h : Heap A N) (before : Option A) (h' : Heap A N) :
    Prop where
  other : ∀ a, before ≠ some a → h' a = h a
  keeps : ∀ {γ : Type} (g : N → γ), (∀ n v, g (F.set n v) = g n) →
    ∀ a, (h' a).map g = (h a).map g

/-- The pointer after the cells `xs` is redirected to `v`. -/
theorem redirect_spec [DecidableEq A] {F : Field A N} {h : Heap A N}
    (hpath : Path (F.links h) p xs q) (hnodup : xs.Nodup) (v : Option A) :
    ∃ h' p', redirect F h xs.getLast? p v = .ok (h', p') ∧ Path (F.links h') p' xs v ∧
      Redirected F h xs.getLast? h' := by
  rcases List.eq_nil_or_concat xs with rfl | ⟨ys, b, rfl⟩
  · exact ⟨h, v, rfl, rfl, fun _ _ => rfl, fun _ _ _ => rfl⟩
  · rw [List.concat_eq_append] at *
    obtain ⟨r, hys, hlast⟩ := path_append.mp hpath
    obtain ⟨rfl, hb⟩ := path_singleton.mp hlast
    obtain ⟨n, hn, -⟩ : ∃ n, h b = some n ∧ F.get n = q := Option.map_eq_some_iff.mp hb
    have hnot : b ∉ ys := by
      intro hmem
      exact (List.disjoint_of_nodup_append hnodup) hmem (List.mem_singleton_self b)
    have hlinks : F.links (write h b (F.set n v)) b = some v := by
      rw [Field.links, write_self, Option.map_some, F.get_set]
    refine ⟨write h b (F.set n v), p, ?_, ?_, ?_, ?_⟩
    · rw [List.getLast?_concat, redirect, read_of_some hn, ok_bind]
    · refine path_append.mpr ⟨some b, hys.congr fun a ha => ?_, path_singleton.mpr ⟨rfl, hlinks⟩⟩
      have hne : a ≠ b := by
        rintro rfl
        exact hnot ha
      rw [Field.links, write_of_ne hne, Field.links]
    · intro a ha
      rw [List.getLast?_concat] at ha
      exact write_of_ne fun heq => ha (heq ▸ rfl)
    · intro γ g hg a
      by_cases heq : a = b
      · rw [heq, write_self, hn, Option.map_some, Option.map_some, hg]
      · rw [write_of_ne heq]

theorem Redirected.links_eq {F G : Field A N} {h h' : Heap A N} (hr : Redirected F h v h')
    (hG : ∀ n w, G.get (F.set n w) = G.get n) : G.links h' = G.links h :=
  funext fun a => hr.keeps G.get hG a

/-! ## Doubly linked cells -/

/-- Two fields that can be changed independently. -/
structure Opposite (F B : Field A N) : Prop where
  forward : ∀ n v, F.get (B.set n v) = F.get n
  backward : ∀ n v, B.get (F.set n v) = B.get n

/-- One field leads through the cells in order, the other in the opposite order. -/
structure Linked (F B : Field A N) (h : Heap A N) (front back : Option A) (xs : List A) :
    Prop where
  forward : Path (F.links h) front xs none
  backward : Path (B.links h) back xs.reverse none

section Linked

variable {F B : Field A N} {h h' : Heap A N} {front back : Option A}

theorem Opposite.symm (hO : Opposite F B) : Opposite B F := ⟨hO.backward, hO.forward⟩

/-- The same cells seen from the other end. -/
theorem Linked.symm (hL : Linked F B h front back xs) : Linked B F h back front xs.reverse :=
  ⟨hL.backward, xs.reverse_reverse.symm ▸ hL.forward⟩

theorem Linked.congr (hL : Linked F B h front back xs) (hh : ∀ a ∈ xs, h' a = h a) :
    Linked F B h' front back xs :=
  ⟨hL.forward.congr fun a ha => congrArg (Option.map F.get) (hh a ha),
    hL.backward.congr fun a ha => congrArg (Option.map B.get) (hh a (List.mem_reverse.mp ha))⟩

theorem Linked.front_eq (hL : Linked F B h front back xs) : front = xs.head? := hL.forward.start_eq

theorem Linked.back_eq (hL : Linked F B h front back xs) : back = xs.getLast? := by
  rw [hL.backward.start_eq, List.head?_reverse]

variable [DecidableEq A]

/-- A cell whose forward link is already set is put before the others. -/
theorem Linked.link (hO : Opposite F B) (hL : Linked F B h front back xs) (ha : a ∉ xs)
    (hforward : F.links h a = some front) (hbackward : B.links h a = some none) :
    ∃ h' back', redirect B h front back (some a) = .ok (h', back') ∧
      Linked F B h' (some a) back' (a :: xs) ∧ Redirected B h front h' := by
  have hfront : xs.reverse.getLast? = front := by rw [List.getLast?_reverse, hL.front_eq]
  obtain ⟨h', back', hrun, hpath, hr⟩ :=
    redirect_spec hL.backward (List.nodup_reverse.mpr hL.forward.nodup) (some a)
  rw [hfront] at hrun hr
  refine ⟨h', back', hrun, ⟨⟨rfl, front, ?_, ?_⟩, ?_⟩, hr⟩
  · rw [hr.links_eq hO.forward, hforward]
  · rw [hr.links_eq hO.forward]
    exact hL.forward
  · have hne : front ≠ some a := by
      intro heq
      exact ha (List.mem_of_mem_head? (hL.front_eq ▸ heq))
    rw [List.reverse_cons]
    refine path_append.mpr ⟨some a, hpath, path_singleton.mpr ⟨rfl, ?_⟩⟩
    rw [Field.links, hr.other a hne]
    exact hbackward

/-- The pointers to a cell, from both sides, are redirected past it. -/
theorem Linked.unlink (xs : List A) (hO : Opposite F B)
    (hL : Linked F B h front back (xs ++ a :: ys)) :
    F.links h a = some ys.head? ∧ B.links h a = some xs.getLast? ∧
    ∃ h₁ front' h₂ back', redirect F h xs.getLast? front ys.head? = .ok (h₁, front') ∧
      redirect B h₁ ys.head? back xs.getLast? = .ok (h₂, back') ∧
      Linked F B h₂ front' back' (xs ++ ys) ∧ Redirected F h xs.getLast? h₁ ∧
      Redirected B h₁ ys.head? h₂ := by
  have hnodup := hL.forward.nodup
  obtain ⟨hxs, hays, hdisj⟩ := List.nodup_append.mp hnodup
  obtain ⟨hays, hys⟩ := List.nodup_cons.mp hays
  obtain ⟨_, hfxs, rfl, n, hfa, hfys⟩ := path_append.mp hL.forward
  have hback := hL.backward
  rw [List.reverse_append, List.reverse_cons, List.append_assoc, List.singleton_append] at hback
  obtain ⟨_, hbys, rfl, b, hba, hbxs⟩ := path_append.mp hback
  obtain rfl := hfys.start_eq
  have hb := hbxs.start_eq
  rw [List.head?_reverse] at hb
  subst hb
  refine ⟨hfa, hba, ?_⟩
  -- Forward: the cells after `a` are not the one whose field changes.
  obtain ⟨h₁, front', hrun₁, hpath₁, hr₁⟩ := redirect_spec hfxs hxs ys.head?
  have hforward : Path (F.links h₁) front' (xs ++ ys) none := by
    refine path_append.mpr ⟨_, hpath₁, hfys.congr fun y hy => ?_⟩
    rw [Field.links, Field.links, hr₁.other y]
    intro hlast
    exact hdisj y (List.mem_of_mem_getLast? hlast) y (List.mem_cons_of_mem a hy) rfl
  have hlinks₁ := hr₁.links_eq hO.backward
  -- Backward: the same, from the other end.
  rw [← hlinks₁] at hbys hbxs
  obtain ⟨h₂, back', hrun₂, hpath₂, hr₂⟩ :=
    redirect_spec hbys (List.nodup_reverse.mpr hys) xs.getLast?
  rw [List.getLast?_reverse] at hrun₂ hr₂
  refine ⟨h₁, front', h₂, back', hrun₁, hrun₂, ⟨?_, ?_⟩, hr₁, hr₂⟩
  · rw [hr₂.links_eq hO.forward]
    exact hforward
  · rw [List.reverse_append]
    refine path_append.mpr ⟨_, hpath₂, hbxs.congr fun x hx => ?_⟩
    rw [Field.links, Field.links, hr₂.other x]
    intro hhead
    exact hdisj x (List.mem_reverse.mp hx) x
      (List.mem_cons_of_mem a (List.mem_of_mem_head? hhead)) rfl

end Linked

end Cells

import Funderberker.Lib.Cells

/-!
# Doubly linked lists

The list of `utils/src/collections/linkedlist.rs`, over an explicit heap of nodes.  The
PMM keeps one such list for each zone and moves nodes between them, so the unit of the
model is a family of lists over one heap, with the nodes that are in none of them.

What a family is for is a sequence of nodes for each list, and the data of the nodes.
Pointers are followed and changed only by the operations, and an operation that follows
a pointer to a freed node is a fault; no run has one.

A length is a natural number: a list has fewer nodes than there are addresses.

## Main definitions

* `LinkedList` and its operations, `Iter`.
* `ListCall.run`, `ListCall.onSeq` — an operation on a list and on a sequence.
* `ListsReach`, `SeqsReach` — runs of the family and of the sequences.
* `Agrees` — the refinement relation.

## Main results

* `linkedLists_refine` — runs of the family are runs of the sequences.
-/

namespace Funderberker

open Panicking Cells

variable {A T : Type}

namespace LinkedList

structure Node (A T : Type) where
  data : T
  next : Option A
  prev : Option A

def nextField : Field A (Node A T) := ⟨Node.next, fun n v => { n with next := v }, fun _ _ => rfl⟩

def prevField : Field A (Node A T) := ⟨Node.prev, fun n v => { n with prev := v }, fun _ _ => rfl⟩

end LinkedList

structure LinkedList (A : Type) where
  head : Option A
  tail : Option A
  len : ℕ
  deriving DecidableEq, Repr

namespace LinkedList

def new : LinkedList A := ⟨none, none, 0⟩

def isEmpty (l : LinkedList A) : Bool := l.len = 0

variable [DecidableEq A] (h : Heap A (Node A T)) (l : LinkedList A)

/-- Write a field of a node. -/
def setField (F : Field A (Node A T)) (node : A) (v : Option A) :
    Except Fault (Heap A (Node A T)) := do
  let n ← read h node
  .ok (write h node (F.set n v))

/-- The end of `push_front` and `push_node_front`: the old head, or the tail of an empty
list, is made to point to the node. -/
def linkFront (node : A) : Except Fault (Heap A (Node A T) × LinkedList A) := do
  let (h, tail) ← redirect prevField h l.head l.tail (some node)
  .ok (h, ⟨some node, tail, l.len + 1⟩)

def linkBack (node : A) : Except Fault (Heap A (Node A T) × LinkedList A) := do
  let (h, head) ← redirect nextField h l.tail l.head (some node)
  .ok (h, ⟨head, some node, l.len + 1⟩)

/-- `node` is where the new box is allocated. -/
def pushFront (node : A) (data : T) : Except Fault (Heap A (Node A T) × LinkedList A) :=
  linkFront (write h node ⟨data, l.head, none⟩) l node

def pushBack (node : A) (data : T) : Except Fault (Heap A (Node A T) × LinkedList A) :=
  linkBack (write h node ⟨data, none, l.tail⟩) l node

def pushNodeFront (node : A) : Except Fault (Heap A (Node A T) × LinkedList A) := do
  let h ← setField h nextField node l.head
  let h ← setField h prevField node none
  linkFront h l node

def pushNodeBack (node : A) : Except Fault (Heap A (Node A T) × LinkedList A) := do
  let h ← setField h prevField node l.tail
  let h ← setField h nextField node none
  linkBack h l node

/-- The first part of `pop_front` and `pop_node_front`, on the head. -/
def unlinkFront (node : A) : Except Fault (Heap A (Node A T) × LinkedList A) := do
  let n ← read h node
  let (h, tail) ← redirect prevField h n.next l.tail none
  .ok (h, ⟨n.next, tail, l.len - 1⟩)

def unlinkBack (node : A) : Except Fault (Heap A (Node A T) × LinkedList A) := do
  let n ← read h node
  let (h, head) ← redirect nextField h n.prev l.head none
  .ok (h, ⟨head, n.prev, l.len - 1⟩)

/-- The links of a node that has been taken out are cleared. -/
def isolate (node : A) : Except Fault (Heap A (Node A T)) := do
  let h ← setField h nextField node none
  setField h prevField node none

/-- The data of a node that has been taken out, and the heap without its box. -/
def unbox (node : A) : Except Fault (T × Heap A (Node A T)) := do
  let h ← isolate h node
  let n ← read h node
  .ok (n.data, dealloc h node)

def popFront : Except Fault (Option T × Heap A (Node A T) × LinkedList A) :=
  match l.head with
  | none => .ok (none, h, l)
  | some node => do
      let (h, l) ← unlinkFront h l node
      let (data, h) ← unbox h node
      .ok (some data, h, l)

def popBack : Except Fault (Option T × Heap A (Node A T) × LinkedList A) :=
  match l.tail with
  | none => .ok (none, h, l)
  | some node => do
      let (h, l) ← unlinkBack h l node
      let (data, h) ← unbox h node
      .ok (some data, h, l)

def popNodeFront : Except Fault (Option A × Heap A (Node A T) × LinkedList A) :=
  match l.head with
  | none => .ok (none, h, l)
  | some node => do
      let (h, l) ← unlinkFront h l node
      let h ← isolate h node
      .ok (some node, h, l)

def popNodeBack : Except Fault (Option A × Heap A (Node A T) × LinkedList A) :=
  match l.tail with
  | none => .ok (none, h, l)
  | some node => do
      let (h, l) ← unlinkBack h l node
      let h ← isolate h node
      .ok (some node, h, l)

/-- Take the node at `curr` out of the middle of the list. -/
def unlinkAt (curr : A) : Except Fault (Option A × Heap A (Node A T) × LinkedList A) := do
  let n ← read h curr
  let (h, head) ← redirect nextField h n.prev l.head n.next
  let n ← read h curr
  let (h, tail) ← redirect prevField h n.next l.tail n.prev
  let h ← isolate h curr
  .ok (some curr, h, ⟨head, tail, l.len - 1⟩)

def removeAtNode (index : ℕ) : Except Fault (Option A × Heap A (Node A T) × LinkedList A) :=
  if index ≥ l.len then .ok (none, h, l)
  else match l.head with
    | none => .ok (none, h, l)
    | some head => do
        match ← follow nextField h index head with
        | none => .ok (none, h, l)
        | some curr => unlinkAt h l curr

/-- The loop of `clear`, for at most `fuel` turns. -/
def clearGo : ℕ → Heap A (Node A T) → LinkedList A → Except Fault (Heap A (Node A T) × LinkedList A)
  | 0, _, _ => .error .diverged
  | fuel + 1, h, l => do
      match ← popFront h l with
      | (none, h, l) => .ok (h, l)
      | (some _, h, l) => clearGo fuel h l

/-- Pop until the list is empty; there is one turn for each node and one to stop. -/
def clear : Except Fault (Heap A (Node A T) × LinkedList A) := clearGo (l.len + 1) h l

/-! ## Iterators -/

/-- The state of the four iterators, which differ in what they yield of a node. -/
abbrev Iter (A : Type) := Cursor A

def iter : Iter A := ⟨l.head, l.len⟩
def iterNodes : Iter A := ⟨l.head, l.len⟩
def iterMut : Iter A := ⟨l.head, l.len⟩
def iterMutNode : Iter A := ⟨l.head, l.len⟩

namespace Iter

omit [DecidableEq A]

/-- `Iter` yields the data. -/
def nextData : Iter A → Except Fault (Option T × Iter A) :=
  Cursor.advance nextField h fun _ n => n.data

/-- `IterNode` yields the nodes. -/
def nextNode : Iter A → Except Fault (Option (A × Node A T) × Iter A) :=
  Cursor.advance nextField h Prod.mk

/-- `IterMut` yields a reference to the data, which is given by the node it lies in. -/
def nextDataMut : Iter A → Except Fault (Option A × Iter A) :=
  Cursor.advance nextField h fun node _ => node

/-- `IterMutNode` yields a reference to the node. -/
def nextNodeMut : Iter A → Except Fault (Option A × Iter A) :=
  Cursor.advance nextField h fun node _ => node

end Iter

end LinkedList

/-! ## Calls -/

/-- The operations on a list.  A call that allocates a box is given its address. -/
inductive ListCall (A T : Type)
  | pushFront (node : A) (data : T)
  | pushBack (node : A) (data : T)
  | pushNodeFront (node : A)
  | pushNodeBack (node : A)
  | popFront
  | popBack
  | popNodeFront
  | popNodeBack
  | removeAtNode (index : ℕ)
  | clear

/-- What a call returns. -/
inductive ListAnswer (A T : Type)
  | done
  | data (d : Option T)
  | node (p : Option A)

namespace ListCall

variable [DecidableEq A]

open LinkedList

/-- The call on a list. -/
def run (h : Heap A (Node A T)) (l : LinkedList A) :
    ListCall A T → Except Fault (ListAnswer A T × Heap A (Node A T) × LinkedList A)
  | pushFront node data => return (.done, ← LinkedList.pushFront h l node data)
  | pushBack node data => return (.done, ← LinkedList.pushBack h l node data)
  | pushNodeFront node => return (.done, ← LinkedList.pushNodeFront h l node)
  | pushNodeBack node => return (.done, ← LinkedList.pushNodeBack h l node)
  | popFront => do
      let (d, h, l) ← LinkedList.popFront h l
      return (.data d, h, l)
  | popBack => do
      let (d, h, l) ← LinkedList.popBack h l
      return (.data d, h, l)
  | popNodeFront => do
      let (p, h, l) ← LinkedList.popNodeFront h l
      return (.node p, h, l)
  | popNodeBack => do
      let (p, h, l) ← LinkedList.popNodeBack h l
      return (.node p, h, l)
  | removeAtNode index => do
      let (p, h, l) ← LinkedList.removeAtNode h l index
      return (.node p, h, l)
  | clear => return (.done, ← LinkedList.clear h l)

/-- The data of every node that exists. -/
abbrev Store (A T : Type) := A → Option T

/-- The call on a sequence of nodes. -/
def onSeq (store : Store A T) (xs : List A) : ListCall A T → ListAnswer A T × Store A T × List A
  | pushFront node data => (.done, fun a => if a = node then some data else store a, node :: xs)
  | pushBack node data => (.done, fun a => if a = node then some data else store a, xs ++ [node])
  | pushNodeFront node => (.done, store, node :: xs)
  | pushNodeBack node => (.done, store, xs ++ [node])
  | popFront =>
      (.data (xs.head?.bind store), fun a => if xs.head? = some a then none else store a, xs.tail)
  | popBack =>
      (.data (xs.getLast?.bind store), fun a => if xs.getLast? = some a then none else store a,
        xs.dropLast)
  | popNodeFront => (.node xs.head?, store, xs.tail)
  | popNodeBack => (.node xs.getLast?, store, xs.dropLast)
  | removeAtNode index => (.node xs[index]?, store, xs.eraseIdx index)
  | clear => (.done, fun a => if a ∈ xs then none else store a, [])

end ListCall

/-! ## Runs -/

/-- Lists over one heap. -/
structure Lists (I A T : Type) where
  heap : Heap A (LinkedList.Node A T)
  lists : I → LinkedList A

/-- Sequences, and the data of the nodes. -/
structure Seqs (I A T : Type) where
  store : ListCall.Store A T
  seqs : I → List A

variable {I : Type}

/-- The node is on no list. -/
def Lists.Loose (s : Lists I A T) (node : A) : Prop :=
  ∀ i xs, Path (LinkedList.nextField.links s.heap) (s.lists i).head xs none → node ∉ xs

/-- What callers must see to: a box is allocated where nothing is, and a node that is
pushed exists and is on no list. -/
def Lists.Allows (s : Lists I A T) : ListCall A T → Prop
  | .pushFront node _ => s.heap node = none
  | .pushBack node _ => s.heap node = none
  | .pushNodeFront node => s.heap node ≠ none ∧ s.Loose node
  | .pushNodeBack node => s.heap node ≠ none ∧ s.Loose node
  | _ => True

/-- The calls made so far with their answers, the last call first. -/
abbrev ListsLog (I A T : Type) := List (I × ListCall A T × ListAnswer A T)

variable [DecidableEq A] [DecidableEq I]

/-- Runs of the family from empty lists, over a heap of nodes that are in none. -/
inductive ListsReach (h₀ : Heap A (LinkedList.Node A T)) : ListsLog I A T → Lists I A T → Prop
  | start : ListsReach h₀ [] ⟨h₀, fun _ => LinkedList.new⟩
  | step {log : ListsLog I A T} {s : Lists I A T} {call : ListCall A T} {ans : ListAnswer A T}
      {h : Heap A (LinkedList.Node A T)} {l : LinkedList A} (hreach : ListsReach h₀ log s) (i : I)
      (hallow : s.Allows call) (hrun : call.run s.heap (s.lists i) = .ok (ans, h, l)) :
      ListsReach h₀ ((i, call, ans) :: log) ⟨h, Function.update s.lists i l⟩

/-- Runs of the sequences. -/
inductive SeqsReach (store₀ : ListCall.Store A T) : ListsLog I A T → Seqs I A T → Prop
  | start : SeqsReach store₀ [] ⟨store₀, fun _ => []⟩
  | step {log : ListsLog I A T} {t : Seqs I A T} (hreach : SeqsReach store₀ log t) (i : I)
      (call : ListCall A T) :
      SeqsReach store₀ ((i, call, (call.onSeq t.store (t.seqs i)).1) :: log)
        ⟨(call.onSeq t.store (t.seqs i)).2.1,
          Function.update t.seqs i (call.onSeq t.store (t.seqs i)).2.2⟩

/-! ## Representation -/

namespace LinkedList

/-- The list's pointers lead through exactly the nodes `xs`, both ways. -/
structure Represents (h : Heap A (Node A T)) (l : LinkedList A) (xs : List A) : Prop where
  linked : Linked nextField prevField h l.head l.tail xs
  len : l.len = xs.length

omit [DecidableEq A] in
theorem opposite : Opposite (nextField : Field A (Node A T)) prevField :=
  ⟨fun _ _ => rfl, fun _ _ => rfl⟩

/-- The data of the nodes. -/
def dataOf (h : Heap A (Node A T)) : ListCall.Store A T := fun a => (h a).map Node.data

/-- At most the links of the nodes `xs` have changed. -/
structure Relinked (xs : List A) (h h' : Heap A (Node A T)) : Prop where
  other : ∀ a, a ∉ xs → h' a = h a
  data : dataOf h' = dataOf h

variable {h h₁ h' : Heap A (Node A T)} {l : LinkedList A} {xs ys : List A} {a : A} {n : Node A T}
  {index k : ℕ}

omit [DecidableEq A] in
theorem Relinked.trans {h'' : Heap A (Node A T)} (hr : Relinked xs h h') (hr' : Relinked ys h' h'')
    {zs : List A} (hxs : xs ⊆ zs) (hys : ys ⊆ zs) : Relinked zs h h'' where
  other a ha := (hr'.other a fun h => ha (hys h)).trans (hr.other a fun h => ha (hxs h))
  data := hr'.data.trans hr.data

omit [DecidableEq A] in
/-- Redirecting a pointer of a node of `xs` changes links only. -/
theorem relinked_of_redirected {F : Field A (Node A T)} {before : Option A}
    (hr : Redirected F h before h') (hF : ∀ n v, (F.set n v).data = n.data)
    (hbefore : ∀ a, before = some a → a ∈ xs) : Relinked xs h h' where
  other a ha := hr.other a fun heq => ha (hbefore a heq)
  data := funext fun a => hr.keeps Node.data hF a

theorem setField_eq {F : Field A (Node A T)} {v : Option A} (hn : h a = some n) :
    setField h F a v = .ok (write h a (F.set n v)) := by
  rw [setField, read_of_some hn, ok_bind]

theorem isolate_spec (hn : h a = some n) :
    ∃ h', isolate h a = .ok h' ∧ h' a = some ⟨n.data, none, none⟩ ∧ Relinked [a] h h' := by
  set h₁ := write h a (nextField.set n none)
  have hw : h₁ a = some (nextField.set n none) := write_self
  have hother : ∀ b, b ≠ a → h₁ b = h b := fun b hb => write_of_ne hb
  refine ⟨write h₁ a ⟨n.data, none, none⟩, ?_, write_self, fun b hb => ?_, funext fun b => ?_⟩
  · rw [isolate, setField_eq hn, ok_bind, setField_eq hw]
    rfl
  · rw [List.mem_singleton] at hb
    rw [write_of_ne hb, hother b hb]
  · by_cases hb : b = a
    · rw [hb, dataOf, dataOf, write_self, hn]
      rfl
    · rw [dataOf, dataOf, write_of_ne hb, hother b hb]

omit [DecidableEq A] in
theorem Represents.congr (hrep : Represents h l xs) (hh : ∀ a ∈ xs, h' a = h a) :
    Represents h' l xs :=
  ⟨hrep.linked.congr hh, hrep.len⟩

omit [DecidableEq A] in
theorem represents_new : Represents h new [] := ⟨⟨rfl, rfl⟩, rfl⟩

/-! ## Pushing -/

/-- A node that already points to the head is linked in. -/
theorem linkFront_spec (hrep : Represents h₁ l xs) (ha : a ∉ xs)
    (hn : h₁ a = some ⟨n.data, l.head, none⟩) :
    ∃ h' l', linkFront h₁ l a = .ok (h', l') ∧ Represents h' l' (a :: xs) ∧ Relinked xs h₁ h' := by
  obtain ⟨h', tail, hrun, hlinked, hr⟩ := hrep.linked.link opposite ha
    (by rw [Field.links, hn]; rfl) (by rw [Field.links, hn]; rfl)
  refine ⟨h', ⟨some a, tail, l.len + 1⟩, ?_, ⟨hlinked, ?_⟩, ?_⟩
  · rw [linkFront, hrun, ok_bind]
  · rw [List.length_cons, ← hrep.len]
  · exact relinked_of_redirected hr (fun _ _ => rfl) fun b hb =>
      List.mem_of_mem_head? (hrep.linked.front_eq ▸ hb)

theorem linkBack_spec (hrep : Represents h₁ l xs) (ha : a ∉ xs)
    (hn : h₁ a = some ⟨n.data, none, l.tail⟩) :
    ∃ h' l', linkBack h₁ l a = .ok (h', l') ∧ Represents h' l' (xs ++ [a]) ∧
      Relinked xs h₁ h' := by
  obtain ⟨h', head, hrun, hlinked, hr⟩ := hrep.linked.symm.link opposite.symm
    (fun h => ha (List.mem_reverse.mp h)) (by rw [Field.links, hn]; rfl)
    (by rw [Field.links, hn]; rfl)
  have hlinked' := hlinked.symm
  rw [List.reverse_cons, List.reverse_reverse] at hlinked'
  refine ⟨h', ⟨head, some a, l.len + 1⟩, ?_, ⟨hlinked', ?_⟩, ?_⟩
  · rw [linkBack, hrun, ok_bind]
  · rw [List.length_append, List.length_singleton, ← hrep.len]
  · exact relinked_of_redirected hr (fun _ _ => rfl) fun b hb =>
      List.mem_of_mem_getLast? (hrep.linked.back_eq ▸ hb)

/-! ## Taking out -/

/-- A node is taken out of the middle of a list. -/
theorem unlinkAt_spec (hrep : Represents h l (xs ++ a :: ys)) :
    ∃ n h' l', h a = some n ∧ unlinkAt h l a = .ok (some a, h', l') ∧
      Represents h' l' (xs ++ ys) ∧ h' a = some ⟨n.data, none, none⟩ ∧
      Relinked (xs ++ a :: ys) h h' := by
  obtain ⟨hnext, hprev, h₁, head, h₂, tail, hrun₁, hrun₂, hlinked, hr₁, hr₂⟩ :=
    hrep.linked.unlink xs opposite
  obtain ⟨n, hn, hget⟩ : ∃ n, h a = some n ∧ n.next = ys.head? := Option.map_eq_some_iff.mp hnext
  have hgetp : n.prev = xs.getLast? := by
    rw [Field.links, hn] at hprev
    exact Option.some.inj hprev
  obtain ⟨-, hays, hdisj⟩ := List.nodup_append.mp hrep.linked.forward.nodup
  have hxs : a ∉ xs := fun hx => hdisj a hx a List.mem_cons_self rfl
  have hys : a ∉ ys := (List.nodup_cons.mp hays).1
  have hn₁ : h₁ a = some n := (hr₁.other a fun heq => hxs (List.mem_of_mem_getLast? heq)).trans hn
  have hn₂ : h₂ a = some n := (hr₂.other a fun heq => hys (List.mem_of_mem_head? heq)).trans hn₁
  obtain ⟨h', hrun₃, ha', hr₃⟩ := isolate_spec hn₂
  refine ⟨n, h', ⟨head, tail, l.len - 1⟩, hn, ?_, ⟨?_, ?_⟩, ha', ?_⟩
  · rw [unlinkAt, read_of_some hn, ok_bind, hgetp, hget, hrun₁, ok_bind]
    dsimp only
    rw [read_of_some hn₁, ok_bind, hgetp, hget, hrun₂, ok_bind]
    dsimp only
    rw [hrun₃, ok_bind]
  · refine hlinked.congr fun b hb => hr₃.other b ?_
    rw [List.mem_singleton]
    rintro rfl
    rcases List.mem_append.mp hb with hb | hb
    · exact hxs hb
    · exact hys hb
  · have hlen := hrep.len
    rw [List.length_append, List.length_cons] at hlen
    rw [List.length_append]
    dsimp only
    omega
  · have hr₁' : Relinked xs h h₁ :=
      relinked_of_redirected hr₁ (fun _ _ => rfl) fun b hb => List.mem_of_mem_getLast? hb
    have hr₂' : Relinked ys h₁ h₂ :=
      relinked_of_redirected hr₂ (fun _ _ => rfl) fun b hb => List.mem_of_mem_head? hb
    have hr₁₂ : Relinked (xs ++ a :: ys) h h₂ := hr₁'.trans hr₂' (by simp) fun b hb => by simp [hb]
    exact hr₁₂.trans hr₃
      (List.Subset.refl _) (by simp)

theorem unlinkFront_spec (hrep : Represents h l (a :: xs)) :
    ∃ n h' l', h a = some n ∧ unlinkFront h l a = .ok (h', l') ∧ Represents h' l' xs ∧
      Relinked xs h h' := by
  obtain ⟨hnext, -, _, head, h₂, tail, hrun₁, hrun₂, hlinked, -, hr⟩ :=
    Linked.unlink [] opposite hrep.linked
  obtain ⟨rfl, rfl⟩ := Prod.mk.inj (Except.ok.inj hrun₁)
  obtain ⟨n, hn, hget⟩ : ∃ n, h a = some n ∧ n.next = xs.head? := Option.map_eq_some_iff.mp hnext
  refine ⟨n, h₂, ⟨xs.head?, tail, l.len - 1⟩, hn, ?_, ⟨hlinked, ?_⟩, ?_⟩
  · rw [unlinkFront, read_of_some hn, ok_bind, hget]
    exact congrArg (· >>= _) hrun₂
  · rw [hrep.len, List.length_cons, Nat.add_sub_cancel]
  · exact relinked_of_redirected hr (fun _ _ => rfl) fun b hb => List.mem_of_mem_head? hb

theorem unlinkBack_spec (hrep : Represents h l (xs ++ [a])) :
    ∃ n h' l', h a = some n ∧ unlinkBack h l a = .ok (h', l') ∧ Represents h' l' xs ∧
      Relinked xs h h' := by
  have hlinked := hrep.linked.symm
  rw [List.reverse_append, List.reverse_singleton, List.singleton_append] at hlinked
  obtain ⟨hprev, -, _, tail, h₂, head, hrun₁, hrun₂, hlinked, -, hr⟩ :=
    Linked.unlink [] opposite.symm hlinked
  obtain ⟨rfl, rfl⟩ := Prod.mk.inj (Except.ok.inj hrun₁)
  rw [List.head?_reverse] at hprev hrun₂ hr hlinked
  obtain ⟨n, hn, hget⟩ : ∃ n, h a = some n ∧ n.prev = xs.getLast? :=
    Option.map_eq_some_iff.mp hprev
  have hlinked' := hlinked.symm
  rw [List.nil_append, List.reverse_reverse] at hlinked'
  refine ⟨n, h₂, ⟨head, xs.getLast?, l.len - 1⟩, hn, ?_, ⟨hlinked', ?_⟩, ?_⟩
  · rw [unlinkBack, read_of_some hn, ok_bind, hget]
    exact congrArg (· >>= _) hrun₂
  · rw [hrep.len, List.length_append, List.length_singleton, Nat.add_sub_cancel]
  · exact relinked_of_redirected hr (fun _ _ => rfl) fun b hb => List.mem_of_mem_getLast? hb

/-- The node that a pop has isolated. -/
def Isolated (h : Heap A (Node A T)) : Option A → Prop
  | none => True
  | some a => ∃ d, h a = some ⟨d, none, none⟩

theorem removeAtNode_spec (hrep : Represents h l xs) (index : ℕ) :
    ∃ h' l', removeAtNode h l index = .ok (xs[index]?, h', l') ∧
      Represents h' l' (xs.eraseIdx index) ∧ Isolated h' xs[index]? ∧ Relinked xs h h' := by
  rw [removeAtNode, hrep.len]
  rcases Nat.lt_or_ge index xs.length with hi | hi
  · rw [if_neg (by omega), hrep.linked.front_eq]
    obtain ⟨b, bs, rfl⟩ : ∃ b bs, xs = b :: bs := List.exists_cons_of_length_pos (by omega)
    have hwalk := follow_eq (k := index) (hrep.linked.front_eq ▸ hrep.linked.forward)
    -- The list is cut at the node that is removed.
    have hcut : b :: bs = (b :: bs).take index ++ (b :: bs)[index] :: (b :: bs).drop (index + 1) := by
      rw [← List.drop_eq_getElem_cons hi, List.take_append_drop]
    obtain ⟨n, h', l', -, hrun, hrep', hiso, hr⟩ := unlinkAt_spec (hcut ▸ hrep)
    rw [List.getElem?_eq_getElem hi] at hwalk ⊢
    refine ⟨h', l', ?_, ?_, ⟨n.data, hiso⟩, hcut ▸ hr⟩
    · rw [List.head?_cons]
      dsimp only
      rw [hwalk, ok_bind]
      exact hrun
    · rw [List.eraseIdx_eq_take_drop_succ]
      exact hrep'
  · rw [if_pos hi, List.getElem?_eq_none hi, List.eraseIdx_of_length_le hi]
    exact ⟨h, l, rfl, hrep, trivial, fun _ _ => rfl, rfl⟩

/-- Taking the links of a node away, and then the node. -/
theorem unbox_spec (hn : h a = some n) :
    ∃ h', unbox h a = .ok (n.data, h') ∧ (∀ b, b ≠ a → h' b = h b) ∧ h' a = none := by
  obtain ⟨h', hrun, ha, hr⟩ := isolate_spec hn
  refine ⟨dealloc h' a, ?_, fun b hb => ?_, dealloc_self⟩
  · rw [unbox, hrun, ok_bind, read_of_some ha, ok_bind]
  · rw [dealloc_of_ne hb, hr.other b (by rwa [List.mem_singleton])]

/-- A node that is out of the list is isolated. -/
theorem popNode_spec (hrep : Represents h' l xs) (hr : Relinked xs h h') (hn : h a = some n)
    (ha : a ∉ xs) :
    ∃ h'', isolate h' a = .ok h'' ∧ Represents h'' l xs ∧ Isolated h'' (some a) ∧
      Relinked (a :: xs) h h'' := by
  obtain ⟨h'', hrun, ha'', hr'⟩ := isolate_spec ((hr.other a ha).trans hn)
  refine ⟨h'', hrun, hrep.congr fun b hb => hr'.other b ?_, ⟨n.data, ha''⟩,
    hr.trans hr' (List.subset_cons_self a xs) (by simp)⟩
  rw [List.mem_singleton]
  rintro rfl
  exact ha hb

/-- A node that is out of the list is freed. -/
theorem popBox_spec (hrep : Represents h' l xs) (hr : Relinked xs h h') (hn : h a = some n)
    (ha : a ∉ xs) :
    ∃ h'', unbox h' a = .ok (n.data, h'') ∧ Represents h'' l xs ∧
      (∀ b, b ∉ a :: xs → h'' b = h b) ∧
      dataOf h'' = fun b => if b = a then none else dataOf h b := by
  obtain ⟨h'', hrun, hother, hfree⟩ := unbox_spec ((hr.other a ha).trans hn)
  have hne : ∀ b ∈ xs, b ≠ a := by
    rintro b hb rfl
    exact ha hb
  refine ⟨h'', hrun, hrep.congr fun b hb => hother b (hne b hb), fun b hb => ?_,
    funext fun b => ?_⟩
  · rw [List.mem_cons, not_or] at hb
    rw [hother b hb.1, hr.other b hb.2]
  · by_cases hb : b = a
    · rw [hb, dataOf, hfree, if_pos rfl]
      rfl
    · rw [if_neg hb, dataOf, hother b hb]
      exact congrFun hr.data b

omit [DecidableEq A] in
theorem Represents.head_notMem (hrep : Represents h l (a :: xs)) : a ∉ xs :=
  (List.nodup_cons.mp hrep.linked.forward.nodup).1

omit [DecidableEq A] in
theorem Represents.last_notMem (hrep : Represents h l (xs ++ [a])) : a ∉ xs := by
  have hnodup := hrep.linked.backward.nodup
  rw [List.reverse_append, List.reverse_singleton, List.singleton_append, List.nodup_cons] at hnodup
  exact fun ha => hnodup.1 (List.mem_reverse.mpr ha)

/-- The loop of `clear` ends within one turn for each node and one more. -/
theorem clearGo_spec (hrep : Represents h l xs) (hk : xs.length < k) :
    ∃ h' l', clearGo k h l = .ok (h', l') ∧ Represents h' l' [] ∧
      (∀ a, a ∉ xs → h' a = h a) ∧ dataOf h' = fun a => if a ∈ xs then none else dataOf h a := by
  induction k generalizing h l xs with
  | zero => omega
  | succ k ih =>
      rw [clearGo, popFront, hrep.linked.front_eq]
      cases xs with
      | nil => exact ⟨h, l, rfl, hrep, fun _ _ => rfl, by simp⟩
      | cons b xs =>
          obtain ⟨n, h₁, l₁, hn, hrun₁, hrep₁, hr⟩ := unlinkFront_spec hrep
          obtain ⟨h₂, hrun₂, hrep₂, hother, hdata⟩ := popBox_spec hrep₁ hr hn hrep.head_notMem
          obtain ⟨h', l', hrun, hrep', hother', hdata'⟩ := ih hrep₂ (by simpa using hk)
          refine ⟨h', l', ?_, hrep', fun a ha => ?_, ?_⟩
          · simp only [List.head?_cons, hrun₁, ok_bind, hrun₂]
            exact hrun
          · rw [hother' a fun h => ha (List.mem_cons_of_mem b h), hother a ha]
          · funext a
            rw [hdata', hdata]
            by_cases hab : a = b <;> by_cases hmem : a ∈ xs <;> simp [hab, hmem]

end LinkedList

/-! ## One call -/

namespace ListCall

open LinkedList

variable {h h' : Heap A (Node A T)} {l : LinkedList A} {xs : List A} {a : A}

/-- The node that a call puts into a list. -/
def pushed : ListCall A T → Option A
  | pushFront node _ => some node
  | pushBack node _ => some node
  | pushNodeFront node => some node
  | pushNodeBack node => some node
  | _ => none

/-- What a call asks of its node: a box that is new, or a node that is in no list. -/
def Ready (h : Heap A (Node A T)) (xs : List A) : ListCall A T → Prop
  | pushFront node _ => h node = none
  | pushBack node _ => h node = none
  | pushNodeFront node => h node ≠ none ∧ node ∉ xs
  | pushNodeBack node => h node ≠ none ∧ node ∉ xs
  | _ => True

/-- What a call does to the heap and its list. -/
structure Does (call : ListCall A T) (h : Heap A (Node A T)) (xs : List A)
    (h' : Heap A (Node A T)) (l' : LinkedList A) : Prop where
  represents : Represents h' l' (call.onSeq (dataOf h) xs).2.2
  data : dataOf h' = (call.onSeq (dataOf h) xs).2.1
  other : ∀ a, a ∉ xs → call.pushed ≠ some a → h' a = h a
  isolated : ∀ p, (call.onSeq (dataOf h) xs).1 = .node p → Isolated h' p

omit [DecidableEq A] in
/-- Where nothing is allocated there is no node of a list. -/
theorem notMem_of_none (hrep : Represents h l xs) (ha : h a = none) : a ∉ xs := by
  intro hmem
  obtain ⟨n, hn⟩ := hrep.linked.forward.links_eq hmem
  rw [Field.links, ha] at hn
  cases hn

theorem dataOf_write (n : Node A T) :
    dataOf (write h a n) = fun b => if b = a then some n.data else dataOf h b := by
  funext b
  by_cases hb : b = a
  · rw [hb, dataOf, write_self, if_pos rfl]
    rfl
  · rw [dataOf, write_of_ne hb, if_neg hb]
    rfl

omit [DecidableEq A] in
/-- A heap that differs at a node of no list. -/
theorem represents_off {h₁ : Heap A (Node A T)} (hrep : Represents h l xs) (ha : a ∉ xs)
    (hoff : ∀ b, b ≠ a → h₁ b = h b) : Represents h₁ l xs := by
  refine hrep.congr fun b hb => hoff b ?_
  rintro rfl
  exact ha hb

/-- A push prepares its node, away from the list, and then links it in. -/
theorem Does.of_link {call : ListCall A T} {h₁ : Heap A (Node A T)} {l' : LinkedList A}
    (hpushed : call.pushed = some a) (hanswer : ∀ p, (call.onSeq (dataOf h) xs).1 ≠ .node p)
    (hoff : ∀ b, b ≠ a → h₁ b = h b) (hdata : dataOf h₁ = (call.onSeq (dataOf h) xs).2.1)
    (hrep : Represents h' l' (call.onSeq (dataOf h) xs).2.2) (hr : Relinked xs h₁ h') :
    call.Does h xs h' l' where
  represents := hrep
  data := hr.data.trans hdata
  other b hb hne := by
    rw [hpushed] at hne
    rw [hr.other b hb, hoff b fun heq => hne (congrArg some heq.symm)]
  isolated p hp := absurd hp (hanswer p)

theorem run_pushFront (hrep : Represents h l xs) (ha : h a = none) (d : T) :
    ∃ h' l', LinkedList.pushFront h l a d = .ok (h', l') ∧
      Does (pushFront a d) h xs h' l' := by
  have hxs := notMem_of_none hrep ha
  have hoff : ∀ b, b ≠ a → write h a ⟨d, l.head, none⟩ b = h b := fun b => write_of_ne
  obtain ⟨h', l', hrun, hrep', hr⟩ :=
    linkFront_spec (n := ⟨d, l.head, none⟩) (represents_off hrep hxs hoff) hxs write_self
  exact ⟨h', l', hrun, .of_link rfl (by rintro p ⟨⟩) hoff (dataOf_write _) hrep' hr⟩

theorem run_pushBack (hrep : Represents h l xs) (ha : h a = none) (d : T) :
    ∃ h' l', LinkedList.pushBack h l a d = .ok (h', l') ∧ Does (pushBack a d) h xs h' l' := by
  have hxs := notMem_of_none hrep ha
  have hoff : ∀ b, b ≠ a → write h a ⟨d, none, l.tail⟩ b = h b := fun b => write_of_ne
  obtain ⟨h', l', hrun, hrep', hr⟩ :=
    linkBack_spec (n := ⟨d, none, l.tail⟩) (represents_off hrep hxs hoff) hxs write_self
  exact ⟨h', l', hrun, .of_link rfl (by rintro p ⟨⟩) hoff (dataOf_write _) hrep' hr⟩

/-- Both links of a node that exists are written, in either order. -/
theorem setFields_spec {n : Node A T} (hn : h a = some n) (F G : Field A (Node A T))
    (v w : Option A) :
    (do let h ← setField h F a v; setField h G a w) =
      .ok (write (write h a (F.set n v)) a (G.set (F.set n v) w)) := by
  rw [setField_eq hn, ok_bind, setField_eq write_self]

theorem relinked_write_write {n : Node A T} (n₁ n₂ : Node A T) (hn : h a = some n)
    (hd : n₂.data = n.data) : Relinked [a] h (write (write h a n₁) a n₂) := by
  refine ⟨fun b hb => ?_, ?_⟩
  · rw [List.mem_singleton] at hb
    rw [write_of_ne hb, write_of_ne hb]
  · rw [dataOf_write, dataOf_write]
    funext b
    by_cases hb : b = a
    · rw [if_pos hb, hb, dataOf, hn, hd]
      rfl
    · rw [if_neg hb]
      exact if_neg hb

theorem run_pushNodeFront (hrep : Represents h l xs) (ha : h a ≠ none) (hxs : a ∉ xs) :
    ∃ h' l', LinkedList.pushNodeFront h l a = .ok (h', l') ∧
      Does (pushNodeFront a) h xs h' l' := by
  obtain ⟨n, hn⟩ := Option.ne_none_iff_exists'.mp ha
  have hset := setFields_spec hn nextField prevField l.head none
  have hr₁ := relinked_write_write (nextField.set n l.head)
    (prevField.set (nextField.set n l.head) none) hn rfl
  have hoff := fun b (hb : b ≠ a) => hr₁.other b (by rwa [List.mem_singleton])
  obtain ⟨h', l', hrun, hrep', hr⟩ :=
    linkFront_spec (n := n) (represents_off hrep hxs hoff) hxs write_self
  refine ⟨h', l', ?_, .of_link rfl (by rintro p ⟨⟩) hoff hr₁.data hrep' hr⟩
  rw [LinkedList.pushNodeFront, ← bind_assoc, hset, ok_bind]
  exact hrun

theorem run_pushNodeBack (hrep : Represents h l xs) (ha : h a ≠ none) (hxs : a ∉ xs) :
    ∃ h' l', LinkedList.pushNodeBack h l a = .ok (h', l') ∧
      Does (pushNodeBack a) h xs h' l' := by
  obtain ⟨n, hn⟩ := Option.ne_none_iff_exists'.mp ha
  have hset := setFields_spec hn prevField nextField l.tail none
  have hr₁ := relinked_write_write (prevField.set n l.tail)
    (nextField.set (prevField.set n l.tail) none) hn rfl
  have hoff := fun b (hb : b ≠ a) => hr₁.other b (by rwa [List.mem_singleton])
  obtain ⟨h', l', hrun, hrep', hr⟩ :=
    linkBack_spec (n := n) (represents_off hrep hxs hoff) hxs write_self
  refine ⟨h', l', ?_, .of_link rfl (by rintro p ⟨⟩) hoff hr₁.data hrep' hr⟩
  rw [LinkedList.pushNodeBack, ← bind_assoc, hset, ok_bind]
  exact hrun

theorem run_popFront (hrep : Represents h l xs) :
    ∃ h' l', LinkedList.popFront h l = .ok (xs.head?.bind (dataOf h), h', l') ∧
      Does popFront h xs h' l' := by
  rw [LinkedList.popFront, hrep.linked.front_eq]
  cases xs with
  | nil =>
      refine ⟨h, l, rfl, hrep, by simp [onSeq], fun _ _ _ => rfl, ?_⟩
      rintro p ⟨⟩
  | cons b xs =>
      obtain ⟨n, h₁, l₁, hn, hrun₁, hrep₁, hr⟩ := unlinkFront_spec hrep
      obtain ⟨h₂, hrun₂, hrep₂, hother, hdata⟩ := popBox_spec hrep₁ hr hn hrep.head_notMem
      refine ⟨h₂, l₁, ?_, hrep₂, ?_, fun a ha _ => hother a ha, ?_⟩
      · simp only [List.head?_cons, hrun₁, ok_bind, hrun₂, Option.bind_some, dataOf, hn,
          Option.map_some]
      · rw [hdata]
        simp only [onSeq, List.head?_cons, Option.some.injEq, eq_comm]
      · rintro p ⟨⟩

theorem run_popBack (hrep : Represents h l xs) :
    ∃ h' l', LinkedList.popBack h l = .ok (xs.getLast?.bind (dataOf h), h', l') ∧
      Does popBack h xs h' l' := by
  rw [LinkedList.popBack, hrep.linked.back_eq]
  rcases List.eq_nil_or_concat xs with rfl | ⟨xs, b, rfl⟩
  · refine ⟨h, l, rfl, hrep, by simp [onSeq], fun _ _ _ => rfl, ?_⟩
    rintro p ⟨⟩
  · rw [List.concat_eq_append] at *
    obtain ⟨n, h₁, l₁, hn, hrun₁, hrep₁, hr⟩ := unlinkBack_spec hrep
    obtain ⟨h₂, hrun₂, hrep₂, hother, hdata⟩ := popBox_spec hrep₁ hr hn hrep.last_notMem
    refine ⟨h₂, l₁, ?_, ?_, ?_, fun a ha _ => hother a fun hmem => ?_, ?_⟩
    · simp only [List.getLast?_concat, hrun₁, ok_bind, hrun₂, Option.bind_some, dataOf, hn,
        Option.map_some]
    · simpa only [onSeq, List.dropLast_concat] using hrep₂
    · rw [hdata]
      simp only [onSeq, List.getLast?_concat, Option.some.injEq, eq_comm]
    · exact ha ((List.perm_append_singleton b xs).mem_iff.mpr hmem)
    · rintro p ⟨⟩

theorem run_popNodeFront (hrep : Represents h l xs) :
    ∃ h' l', LinkedList.popNodeFront h l = .ok (xs.head?, h', l') ∧
      Does popNodeFront h xs h' l' := by
  rw [LinkedList.popNodeFront, hrep.linked.front_eq]
  cases xs with
  | nil =>
      refine ⟨h, l, rfl, hrep, rfl, fun _ _ _ => rfl, ?_⟩
      rintro p ⟨⟩
      trivial
  | cons b xs =>
      obtain ⟨n, h₁, l₁, hn, hrun₁, hrep₁, hr⟩ := unlinkFront_spec hrep
      obtain ⟨h₂, hrun₂, hrep₂, hiso, hr'⟩ := popNode_spec hrep₁ hr hn hrep.head_notMem
      refine ⟨h₂, l₁, ?_, hrep₂, hr'.data, fun a ha _ => hr'.other a ha, ?_⟩
      · simp only [List.head?_cons, hrun₁, ok_bind, hrun₂]
      · rintro p ⟨⟩
        exact hiso

theorem run_popNodeBack (hrep : Represents h l xs) :
    ∃ h' l', LinkedList.popNodeBack h l = .ok (xs.getLast?, h', l') ∧
      Does popNodeBack h xs h' l' := by
  rw [LinkedList.popNodeBack, hrep.linked.back_eq]
  rcases List.eq_nil_or_concat xs with rfl | ⟨xs, b, rfl⟩
  · refine ⟨h, l, rfl, hrep, rfl, fun _ _ _ => rfl, ?_⟩
    rintro p ⟨⟩
    trivial
  · rw [List.concat_eq_append] at *
    obtain ⟨n, h₁, l₁, hn, hrun₁, hrep₁, hr⟩ := unlinkBack_spec hrep
    obtain ⟨h₂, hrun₂, hrep₂, hiso, hr'⟩ := popNode_spec hrep₁ hr hn hrep.last_notMem
    refine ⟨h₂, l₁, ?_, ?_, hr'.data, fun a ha _ => hr'.other a fun hmem => ?_, ?_⟩
    · simp only [List.getLast?_concat, hrun₁, ok_bind, hrun₂]
    · simpa only [onSeq, List.dropLast_concat] using hrep₂
    · exact ha ((List.perm_append_singleton b xs).mem_iff.mpr hmem)
    · intro p hp
      simp only [onSeq, List.getLast?_concat, ListAnswer.node.injEq] at hp
      exact hp ▸ hiso

/-- **One call.**  A call answers as the sequence does, and represents the sequence
after it. -/
theorem run_spec (hrep : Represents h l xs) (call : ListCall A T) (hready : call.Ready h xs) :
    ∃ h' l', call.run h l = .ok ((call.onSeq (dataOf h) xs).1, h', l') ∧
      call.Does h xs h' l' := by
  cases call with
  | pushFront node data =>
      obtain ⟨h', l', hrun, hdoes⟩ := run_pushFront hrep hready data
      exact ⟨h', l', by rw [run, hrun]; rfl, hdoes⟩
  | pushBack node data =>
      obtain ⟨h', l', hrun, hdoes⟩ := run_pushBack hrep hready data
      exact ⟨h', l', by rw [run, hrun]; rfl, hdoes⟩
  | pushNodeFront node =>
      obtain ⟨h', l', hrun, hdoes⟩ := run_pushNodeFront hrep hready.1 hready.2
      exact ⟨h', l', by rw [run, hrun]; rfl, hdoes⟩
  | pushNodeBack node =>
      obtain ⟨h', l', hrun, hdoes⟩ := run_pushNodeBack hrep hready.1 hready.2
      exact ⟨h', l', by rw [run, hrun]; rfl, hdoes⟩
  | popFront =>
      obtain ⟨h', l', hrun, hdoes⟩ := run_popFront hrep
      exact ⟨h', l', by rw [run, hrun]; rfl, hdoes⟩
  | popBack =>
      obtain ⟨h', l', hrun, hdoes⟩ := run_popBack hrep
      exact ⟨h', l', by rw [run, hrun]; rfl, hdoes⟩
  | popNodeFront =>
      obtain ⟨h', l', hrun, hdoes⟩ := run_popNodeFront hrep
      exact ⟨h', l', by rw [run, hrun]; rfl, hdoes⟩
  | popNodeBack =>
      obtain ⟨h', l', hrun, hdoes⟩ := run_popNodeBack hrep
      exact ⟨h', l', by rw [run, hrun]; rfl, hdoes⟩
  | removeAtNode index =>
      obtain ⟨h', l', hrun, hrep', hiso, hr⟩ := removeAtNode_spec hrep index
      refine ⟨h', l', by rw [run, hrun]; rfl, hrep', hr.data, fun a ha _ => hr.other a ha, ?_⟩
      rintro p ⟨⟩
      exact hiso
  | clear =>
      obtain ⟨h', l', hrun, hrep', hother, hdata⟩ :=
        clearGo_spec hrep (k := l.len + 1) (by rw [hrep.len]; omega)
      refine ⟨h', l', by rw [run, LinkedList.clear, hrun]; rfl, hrep', hdata,
        fun a ha _ => hother a ha, ?_⟩
      rintro p ⟨⟩

end ListCall

/-! ## What a list shows -/

namespace LinkedList

variable {h : Heap A (Node A T)} {l : LinkedList A} {xs : List A}

/-- All that can be seen of a list says that it is the sequence `xs`. -/
structure Shows (h : Heap A (Node A T)) (l : LinkedList A) (xs : List A) : Prop where
  next : Path (nextField.links h) l.head xs none
  prev : Path (prevField.links h) l.tail xs.reverse none
  len : l.len = xs.length
  isEmpty : l.isEmpty = true ↔ xs = []
  head_none : l.head = none ↔ xs = []
  tail_none : l.tail = none ↔ xs = []
  iter : ∃ ds, ds.map some = xs.map (dataOf h) ∧ Yielding (Iter.nextData h) l.iter ds
  iterNodes : ∃ ns, ns.map Prod.fst = xs ∧ (∀ n ∈ ns, h n.1 = some n.2) ∧
    Yielding (Iter.nextNode h) l.iterNodes ns
  iterMut : Yielding (Iter.nextDataMut h) l.iterMut xs
  iterMutNode : Yielding (Iter.nextNodeMut h) l.iterMutNode xs

omit [DecidableEq A]

theorem Represents.shows (hrep : Represents h l xs) : Shows h l xs := by
  have hnext := hrep.linked.forward
  refine ⟨hnext, hrep.linked.backward, hrep.len, ?_, ?_, ?_, ?_, ?_, ?_, ?_⟩
  · simp [LinkedList.isEmpty, hrep.len]
  · rw [hrep.linked.front_eq, List.head?_eq_none_iff]
  · rw [hrep.linked.back_eq, List.getLast?_eq_none_iff]
  · exact yielding_parts Node.data hnext hrep.len
  · exact yielding_cells hnext hrep.len
  · exact yielding_addresses hnext hrep.len
  · exact yielding_addresses hnext hrep.len

end LinkedList

/-! ## The family -/

open LinkedList

/-- Every list represents its sequence, and no node is in two of them. -/
structure Agrees (s : Lists I A T) (t : Seqs I A T) : Prop where
  store : dataOf s.heap = t.store
  represents : ∀ i, Represents s.heap (s.lists i) (t.seqs i)
  disjoint : ∀ i j, i ≠ j → List.Disjoint (t.seqs i) (t.seqs j)

variable {s : Lists I A T} {t : Seqs I A T} {call : ListCall A T} {i : I}

/-- A call adds at most the node it pushes. -/
theorem ListCall.mem_onSeq {store : ListCall.Store A T} {xs : List A} {a : A}
    (ha : a ∈ (call.onSeq store xs).2.2) : a ∈ xs ∨ call.pushed = some a := by
  cases call with
  | pushFront node _ => exact (List.mem_cons.mp ha).symm.imp id fun h => congrArg some h.symm
  | pushBack node _ =>
      exact (List.mem_append.mp ha).imp id fun h => congrArg some (List.mem_singleton.mp h).symm
  | pushNodeFront node => exact (List.mem_cons.mp ha).symm.imp id fun h => congrArg some h.symm
  | pushNodeBack node =>
      exact (List.mem_append.mp ha).imp id fun h => congrArg some (List.mem_singleton.mp h).symm
  | popFront => exact Or.inl (List.mem_of_mem_tail ha)
  | popBack => exact Or.inl ((List.dropLast_sublist xs).mem ha)
  | popNodeFront => exact Or.inl (List.mem_of_mem_tail ha)
  | popNodeBack => exact Or.inl ((List.dropLast_sublist xs).mem ha)
  | removeAtNode index => exact Or.inl (List.mem_of_mem_eraseIdx ha)
  | clear => cases ha

omit [DecidableEq A] [DecidableEq I] in
/-- The node that an allowed call pushes is in no list. -/
theorem Agrees.pushed_notMem (hag : Agrees s t) (hallow : s.Allows call) {a : A}
    (ha : call.pushed = some a) (j : I) : a ∉ t.seqs j := by
  cases call with
  | pushFront node _ =>
      obtain rfl := Option.some.inj ha
      exact ListCall.notMem_of_none (hag.represents j) hallow
  | pushBack node _ =>
      obtain rfl := Option.some.inj ha
      exact ListCall.notMem_of_none (hag.represents j) hallow
  | pushNodeFront node =>
      obtain rfl := Option.some.inj ha
      exact hallow.2 j _ (hag.represents j).linked.forward
  | pushNodeBack node =>
      obtain rfl := Option.some.inj ha
      exact hallow.2 j _ (hag.represents j).linked.forward
  | _ => cases ha

omit [DecidableEq A] [DecidableEq I] in
theorem Agrees.ready (hag : Agrees s t) (hallow : s.Allows call) (i : I) :
    call.Ready s.heap (t.seqs i) := by
  cases call with
  | pushFront node _ => exact hallow
  | pushBack node _ => exact hallow
  | pushNodeFront node => exact ⟨hallow.1, hag.pushed_notMem hallow rfl i⟩
  | pushNodeBack node => exact ⟨hallow.1, hag.pushed_notMem hallow rfl i⟩
  | _ => trivial

/-- **A call on one list of the family.**  The other lists keep their sequences. -/
theorem Agrees.run (hag : Agrees s t) (hallow : s.Allows call) (i : I) :
    ∃ h l, call.run s.heap (s.lists i) = .ok ((call.onSeq t.store (t.seqs i)).1, h, l) ∧
      Agrees ⟨h, Function.update s.lists i l⟩ ⟨(call.onSeq t.store (t.seqs i)).2.1,
        Function.update t.seqs i (call.onSeq t.store (t.seqs i)).2.2⟩ ∧
      ∀ p, (call.onSeq t.store (t.seqs i)).1 = .node p → Isolated h p := by
  obtain ⟨h, l, hrun, hdoes⟩ := call.run_spec (hag.represents i) (hag.ready hallow i)
  obtain ⟨store, seqs⟩ := t
  obtain rfl : dataOf s.heap = store := hag.store
  refine ⟨h, l, hrun, ⟨hdoes.data, fun j => ?_, fun j k hjk => ?_⟩, hdoes.isolated⟩
  · by_cases hj : j = i
    · subst hj
      simpa only [Function.update_self] using hdoes.represents
    · -- Nothing of another list is touched.
      simp only [Function.update_of_ne hj]
      refine (hag.represents j).congr fun a ha => hdoes.other a ?_ ?_
      · exact fun hi => hag.disjoint j i hj ha hi
      · exact fun hpushed => hag.pushed_notMem hallow hpushed j ha
  · have hnew : ∀ j, j ≠ i → ∀ a ∈ (call.onSeq (dataOf s.heap) (seqs i)).2.2, a ∉ seqs j := by
      intro j hj a ha hmem
      rcases ListCall.mem_onSeq ha with hi | hpushed
      · exact hag.disjoint j i hj hmem hi
      · exact hag.pushed_notMem hallow hpushed j hmem
    by_cases hj : j = i
    · subst hj
      simp only [Function.update_self, Function.update_of_ne (Ne.symm hjk)]
      exact fun a ha hk => hnew k (Ne.symm hjk) a ha hk
    · by_cases hk : k = i
      · subst hk
        simp only [Function.update_self, Function.update_of_ne hj]
        exact fun a ha hk => hnew j hj a hk ha
      · simp only [Function.update_of_ne hj, Function.update_of_ne hk]
        exact hag.disjoint j k hjk

theorem ListsReach.agrees {h₀ : Heap A (Node A T)} {log : ListsLog I A T}
    (hreach : ListsReach h₀ log s) : ∃ t, SeqsReach (dataOf h₀) log t ∧ Agrees s t := by
  induction hreach with
  | start =>
      exact ⟨_, .start, rfl, fun _ => represents_new, fun _ _ _ => List.disjoint_nil_left _⟩
  | step _ i hallow hrun ih =>
      obtain ⟨t, hreach, hag⟩ := ih
      obtain ⟨h, l, hrun', hag', -⟩ := hag.run hallow i
      obtain ⟨rfl, hhl⟩ := Prod.mk.inj (Except.ok.inj (hrun.symm.trans hrun'))
      obtain ⟨rfl, rfl⟩ := Prod.mk.inj hhl
      exact ⟨_, hreach.step i _, hag'⟩

/-- **A family of lists refines a family of sequences.**  Every run of the family, with
nodes moved between its lists at will, is a run of the sequences with the same answers;
in every state each list shows its sequence and no node is in two of them.  Every call
that is allowed returns, without following a pointer to nothing, answers as the sequence
does, leaves the other sequences alone, and returns nodes without links. -/
theorem linkedLists_refine {h₀ : Heap A (Node A T)} {log : ListsLog I A T}
    (hreach : ListsReach h₀ log s) :
    ∃ t, SeqsReach (dataOf h₀) log t ∧ (∀ a, (s.heap a).map Node.data = t.store a) ∧
      (∀ i, Shows s.heap (s.lists i) (t.seqs i)) ∧
      (∀ i j, i ≠ j → List.Disjoint (t.seqs i) (t.seqs j)) ∧
      ∀ (call : ListCall A T) (i : I), s.Allows call → ∃ h l,
        call.run s.heap (s.lists i) = .ok ((call.onSeq t.store (t.seqs i)).1, h, l) ∧
        Shows h l (call.onSeq t.store (t.seqs i)).2.2 ∧
        (∀ j, j ≠ i → Shows h (s.lists j) (t.seqs j)) ∧
        ∀ p, (call.onSeq t.store (t.seqs i)).1 = .node p → Isolated h p := by
  obtain ⟨t, hseqs, hag⟩ := hreach.agrees
  refine ⟨t, hseqs, fun a => congrFun hag.store a, fun i => (hag.represents i).shows,
    hag.disjoint, fun call i hallow => ?_⟩
  obtain ⟨h, l, hrun, hag', hiso⟩ := hag.run hallow i
  refine ⟨h, l, hrun, ?_, fun j hj => ?_, hiso⟩
  · have hrep := hag'.represents i
    simp only [Function.update_self] at hrep
    exact hrep.shows
  · have hrep := hag'.represents j
    simp only [Function.update_of_ne hj] at hrep
    exact hrep.shows

/-- A node goes from one list to another. -/
theorem two_lists_refine : ∃ s : Lists Bool ℕ ℕ,
    ListsReach (fun _ => none) [(true, .pushNodeBack 0, .done),
      (false, .popNodeFront, .node (some 0)), (false, .pushFront 0 10, .done)] s ∧
    ∃ t, SeqsReach (dataOf fun _ => none) [(true, .pushNodeBack 0, .done),
      (false, .popNodeFront, .node (some 0)), (false, .pushFront 0 10, .done)] t ∧
      ∀ i, Shows s.heap (s.lists i) (t.seqs i) := by
  have hpush : ListsReach (I := Bool) (fun _ : ℕ => none)
      [(false, .pushFront 0 10, ListAnswer.done)] _ := .step .start false rfl rfl
  have hpop : ListsReach _ ((false, .popNodeFront, .node (some 0)) :: _) _ :=
    hpush.step false trivial rfl
  have hmove : ListsReach _ ((true, .pushNodeBack 0, .done) :: _) _ := hpop.step true ?_ rfl
  · obtain ⟨t, hreach, -, hshows, -⟩ := linkedLists_refine hmove
    exact ⟨_, hmove, t, hreach, hshows⟩
  · refine ⟨Option.some_ne_none _, fun i xs hpath => ?_⟩
    cases xs with
    | nil => exact List.not_mem_nil
    | cons a xs => cases i <;> cases hpath.1

end Funderberker

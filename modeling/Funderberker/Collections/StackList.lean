import Funderberker.Lib.Cells

/-!
# Stack lists

The singly linked stack of `utils/src/collections/stacklist.rs`, over an explicit heap of
nodes.  `pop` moves the data out of a node and leaves its box allocated, `retain` frees
the boxes it takes out, and `remove_at` leaves the removed node's link as it was, so a
node that is on no list may still point into one.

What a list is for is a sequence of nodes, the top first, and the data of the nodes.

## Main definitions

* `StackList` and its operations; conversions from and to sequences.
* `StackCall.run`, `StackCall.onSeq` — an operation on a list and on a sequence.
* `StackReach`, `StackSeqReach` — runs of the list and of the sequence.

## Main results

* `stackList_refines` — runs of the list are runs of the sequence.
-/

namespace Funderberker

open Panicking Cells

variable {A T σ : Type}

namespace StackList

structure Node (A T : Type) where
  data : T
  next : Option A

def Node.new (data : T) : Node A T := ⟨data, none⟩

def nextField : Field A (Node A T) := ⟨Node.next, fun n v => { n with next := v }, fun _ _ => rfl⟩

end StackList

structure StackList (A : Type) where
  head : Option A
  len : ℕ
  deriving DecidableEq, Repr

namespace StackList

def new : StackList A := ⟨none, 0⟩

def isEmpty (l : StackList A) : Bool := l.head.isNone

variable [DecidableEq A] (h : Heap A (Node A T)) (l : StackList A)

def pushNode (node : A) : Except Fault (Heap A (Node A T) × StackList A) := do
  let n ← read h node
  .ok (write h node { n with next := l.head }, ⟨some node, l.len + 1⟩)

/-- `node` is where the new box is allocated. -/
def push (node : A) (data : T) : Except Fault (Heap A (Node A T) × StackList A) :=
  pushNode (write h node (Node.new data)) l node

def popNode : Except Fault (Option A × Heap A (Node A T) × StackList A) :=
  match l.head with
  | none => .ok (none, h, l)
  | some node => do
      let n ← read h node
      .ok (some node, write h node { n with next := none }, ⟨n.next, l.len - 1⟩)

/-- The data is read out of the node; its box is not freed. -/
def pop : Except Fault (Option T × Heap A (Node A T) × StackList A) := do
  match ← popNode h l with
  | (none, h, l) => .ok (none, h, l)
  | (some node, h, l) => do
      let n ← read h node
      .ok (some n.data, h, l)

def peek : Except Fault (Option T) :=
  match l.head with
  | none => .ok none
  | some head => do
      let n ← read h head
      .ok (some n.data)

/-- The node before the one that is removed is looked for, except at the top. -/
def removeAt (index : ℕ) : Except Fault (Option A × Heap A (Node A T) × StackList A) :=
  if index ≥ l.len then .ok (none, h, l)
  else if index = 0 then popNode h l
  else match l.head with
    | none => .ok (none, h, l)
    | some head => do
        match ← follow nextField h (index - 1) head with
        | none => .ok (none, h, l)
        | some current => do
            let c ← read h current
            match c.next with
            | none => .ok (none, h, l)
            | some node => do
                let n ← read h node
                .ok (some node, write h current { c with next := n.next }, ⟨l.head, l.len - 1⟩)

/-- The search of `get` and `get_mut`. -/
def locate (index : ℕ) : Except Fault (Option A) :=
  if index ≥ l.len then .ok none
  else match l.head with
    | none => .ok none
    | some head => follow nextField h index head

def get (index : ℕ) : Except Fault (Option T) := do
  match ← locate h l index with
  | none => .ok none
  | some current => do
      let n ← read h current
      .ok (some n.data)

/-- A reference to the data, which is given by the node it lies in. -/
def getMut (index : ℕ) : Except Fault (Option A) := locate h l index

/-- A caller of `get_mut` changes the data through the reference. -/
def updateAt (index : ℕ) (g : T → T) : Except Fault (Option A × Heap A (Node A T)) := do
  match ← getMut h l index with
  | none => .ok (none, h)
  | some node => do
      let n ← read h node
      .ok (some node, write h node { n with data := g n.data })

/-- The loop of `clear`, for at most `fuel` turns. -/
def clearGo : ℕ → Heap A (Node A T) → StackList A → Except Fault (Heap A (Node A T) × StackList A)
  | 0, _, _ => .error .diverged
  | fuel + 1, h, l => do
      match ← pop h l with
      | (none, h, l) => .ok (h, l)
      | (some _, h, l) => clearGo fuel h l

/-- Pop until the list is empty; there is one turn for each node and one to stop. -/
def clear : Except Fault (Heap A (Node A T) × StackList A) := clearGo (l.len + 1) h l

/-- The loop of `retain`, for at most `fuel` turns.  The cursor is a reference to
the link of `before`, or to the head.  The predicate has a state of its own. -/
def retainGo (f : T → σ → Bool × σ) : ℕ → Heap A (Node A T) → StackList A → Option A → σ →
    Except Fault (σ × Heap A (Node A T) × StackList A)
  | 0, _, _, _, _ => .error .diverged
  | fuel + 1, h, l, before, s => do
      match ← deref nextField h l.head before with
      | none => .ok (s, h, l)
      | some node => do
          let n ← read h node
          match f n.data s with
          | (true, s) => retainGo f fuel h l (some node) s
          | (false, s) => do
              -- The link is taken out of the node, and the node is freed at the end.
              let h := write h node { n with next := none }
              let (h, head) ← redirect nextField h before l.head n.next
              retainGo f fuel (dealloc h node) ⟨head, l.len - 1⟩ before s

def retain (f : T → σ → Bool × σ) (s : σ) : Except Fault (σ × Heap A (Node A T) × StackList A) :=
  retainGo f (l.len + 1) h l none s

/-! ## Iterators -/

/-- The state of the four iterators, which differ in what they yield of a node. -/
abbrev Iter (A : Type) := Cursor A

def iter : Iter A := ⟨l.head, l.len⟩
def iterMut : Iter A := ⟨l.head, l.len⟩
def iterNode : Iter A := ⟨l.head, l.len⟩
def iterNodeMut : Iter A := ⟨l.head, l.len⟩

namespace Iter

omit [DecidableEq A]

/-- `Iter` yields the data. -/
def nextData : Iter A → Except Fault (Option T × Iter A) :=
  Cursor.advance nextField h fun _ n => n.data

/-- `IterMut` yields a reference to the data, which is given by the node it lies in. -/
def nextDataMut : Iter A → Except Fault (Option A × Iter A) :=
  Cursor.advance nextField h fun node _ => node

/-- `NodeIter` yields the nodes. -/
def nextNode : Iter A → Except Fault (Option (A × Node A T) × Iter A) :=
  Cursor.advance nextField h Prod.mk

/-- `NodeIterMut` yields a reference to the node. -/
def nextNodeMut : Iter A → Except Fault (Option A × Iter A) :=
  Cursor.advance nextField h fun node _ => node

end Iter

/-- The step of `IntoIter`, which owns the list. -/
def intoIterNext (s : Heap A (Node A T) × StackList A) :
    Except Fault (Option T × Heap A (Node A T) × StackList A) :=
  pop s.1 s.2

def intoIterSizeHint (s : Heap A (Node A T) × StackList A) : ℕ × Option ℕ := (s.2.len, some s.2.len)

/-! ## Conversions -/

/-- The loop of `into_vec`, for at most `fuel` turns. -/
def intoVecGo : ℕ → Heap A (Node A T) → StackList A → List T →
    Except Fault (List T × Heap A (Node A T))
  | 0, _, _, _ => .error .diverged
  | fuel + 1, h, l, vec => do
      match ← pop h l with
      | (none, h, _) => .ok (vec.reverse, h)
      | (some item, h, l) => intoVecGo fuel h l (vec ++ [item])

def intoVec : Except Fault (List T × Heap A (Node A T)) := intoVecGo (l.len + 1) h l []

/-- Push the items in turn, each in a box at the given address. -/
def extend : Heap A (Node A T) → StackList A → List (A × T) →
    Except Fault (Heap A (Node A T) × StackList A)
  | h, l, [] => .ok (h, l)
  | h, l, (node, item) :: items => do
      let (h, l) ← push h l node item
      extend h l items

def fromIter (items : List (A × T)) : Except Fault (Heap A (Node A T) × StackList A) :=
  extend h new items

/-- `cloneItem` is the items' own `clone`; `nodes` are the addresses of the new boxes. -/
def clone (cloneItem : T → T) (nodes : List A) :
    Except Fault (Heap A (Node A T) × StackList A) := do
  let items ← collect .diverged (Iter.nextData h) (l.len + 1) l.iter
  extend h new (nodes.zip (items.map cloneItem).reverse)

/-- `PartialEq`, with the items' own equality. -/
def eq [BEq T] (other : StackList A) : Except Fault Bool :=
  if l.len = other.len then iterEq .diverged (Iter.nextData h) (l.len + 1) l.iter other.iter
  else .ok false

end StackList

/-! ## Calls -/

/-- The operations on a list.  A call that allocates a box is given its address. -/
inductive StackCall (A T σ : Type)
  | push (node : A) (data : T)
  | pushNode (node : A)
  | pop
  | popNode
  | removeAt (index : ℕ)
  | getMut (index : ℕ) (g : T → T)
  | retain (f : T → σ → Bool × σ) (s : σ)
  | clear

/-- What a call returns; `retain` returns the state its predicate has come to. -/
inductive StackAnswer (A T σ : Type)
  | done
  | data (d : Option T)
  | node (p : Option A)
  | state (s : σ)

namespace StackCall

variable [DecidableEq A]

open StackList

/-- The call on a list. -/
def run (h : Heap A (Node A T)) (l : StackList A) :
    StackCall A T σ → Except Fault (StackAnswer A T σ × Heap A (Node A T) × StackList A)
  | push node data => return (.done, ← StackList.push h l node data)
  | pushNode node => return (.done, ← StackList.pushNode h l node)
  | pop => do
      let (d, h, l) ← StackList.pop h l
      return (.data d, h, l)
  | popNode => do
      let (p, h, l) ← StackList.popNode h l
      return (.node p, h, l)
  | removeAt index => do
      let (p, h, l) ← StackList.removeAt h l index
      return (.node p, h, l)
  | getMut index g => do
      let (p, h) ← StackList.updateAt h l index g
      return (.node p, h, l)
  | retain f s => do
      let (s, h, l) ← StackList.retain h l f s
      return (.state s, h, l)
  | clear => return (.done, ← StackList.clear h l)

/-- The data of every node that exists. -/
abbrev Store (A T : Type) := A → Option T

/-- The nodes whose data a predicate accepts, asked once for each from the top on, and the
state it comes to. -/
def accepted (store : Store A T) (f : T → σ → Bool × σ) : List A → σ → List A × σ
  | [], s => ([], s)
  | a :: xs, s =>
      match store a with
      | none => accepted store f xs s
      | some d =>
          let rest := accepted store f xs (f d s).2
          (if (f d s).1 then a :: rest.1 else rest.1, rest.2)

/-- The call on a sequence of nodes. -/
def onSeq (store : Store A T) (xs : List A) :
    StackCall A T σ → StackAnswer A T σ × Store A T × List A
  | push node data => (.done, fun a => if a = node then some data else store a, node :: xs)
  | pushNode node => (.done, store, node :: xs)
  | pop => (.data (xs.head?.bind store), store, xs.tail)
  | popNode => (.node xs.head?, store, xs.tail)
  | removeAt index => (.node xs[index]?, store, xs.eraseIdx index)
  | getMut index g =>
      (.node xs[index]?, fun a => if xs[index]? = some a then (store a).map g else store a, xs)
  | retain f s =>
      (.state (accepted store f xs s).2,
        fun a => if a ∈ xs ∧ a ∉ (accepted store f xs s).1 then none else store a,
        (accepted store f xs s).1)
  | clear => (.done, store, [])

end StackCall

/-! ## Runs -/

/-- A list and the heap it is in. -/
structure Stack (A T : Type) where
  heap : Heap A (StackList.Node A T)
  list : StackList A

/-- A sequence, and the data of the nodes. -/
structure StackSeq (A T : Type) where
  store : StackCall.Store A T
  seq : List A

/-- What callers must see to: a box is allocated where nothing is, and a node that is
pushed exists and is not on the list. -/
def Stack.Allows (s : Stack A T) : StackCall A T σ → Prop
  | .push node _ => s.heap node = none
  | .pushNode node => s.heap node ≠ none ∧
      ∀ xs, Path (StackList.nextField.links s.heap) s.list.head xs none → node ∉ xs
  | _ => True

/-- The calls made so far with their answers, the last call first. -/
abbrev StackLog (A T σ : Type) := List (StackCall A T σ × StackAnswer A T σ)

variable [DecidableEq A]

/-- Runs from an empty list, over a heap of nodes that are not in it. -/
inductive StackReach (h₀ : Heap A (StackList.Node A T)) : StackLog A T σ → Stack A T → Prop
  | start : StackReach h₀ [] ⟨h₀, StackList.new⟩
  | step {log : StackLog A T σ} {s : Stack A T} {call : StackCall A T σ}
      {ans : StackAnswer A T σ} {h : Heap A (StackList.Node A T)} {l : StackList A}
      (hreach : StackReach h₀ log s) (hallow : s.Allows call)
      (hrun : call.run s.heap s.list = .ok (ans, h, l)) :
      StackReach h₀ ((call, ans) :: log) ⟨h, l⟩

/-- Runs of the sequence. -/
inductive StackSeqReach (store₀ : StackCall.Store A T) : StackLog A T σ → StackSeq A T → Prop
  | start : StackSeqReach store₀ [] ⟨store₀, []⟩
  | step {log : StackLog A T σ} {t : StackSeq A T} (hreach : StackSeqReach store₀ log t)
      (call : StackCall A T σ) :
      StackSeqReach store₀ ((call, (call.onSeq t.store t.seq).1) :: log)
        ⟨(call.onSeq t.store t.seq).2.1, (call.onSeq t.store t.seq).2.2⟩

/-! ## Representation -/

namespace StackList

/-- The list's pointers lead through exactly the nodes `xs`. -/
structure Represents (h : Heap A (Node A T)) (l : StackList A) (xs : List A) : Prop where
  path : Path (nextField.links h) l.head xs none
  len : l.len = xs.length

/-- The data of the nodes. -/
def dataOf (h : Heap A (Node A T)) : StackCall.Store A T := fun a => (h a).map Node.data

variable {h h' : Heap A (Node A T)} {l : StackList A} {xs ys : List A} {a : A} {n : Node A T}
  {index k : ℕ}

omit [DecidableEq A] in
theorem represents_new : Represents h new [] := ⟨rfl, rfl⟩

omit [DecidableEq A] in
theorem Represents.congr (hrep : Represents h l xs) (hh : ∀ a ∈ xs, h' a = h a) :
    Represents h' l xs :=
  ⟨hrep.path.congr fun a ha => congrArg (Option.map Node.next) (hh a ha), hrep.len⟩

omit [DecidableEq A] in
/-- The nodes of a list exist. -/
theorem Represents.node (hrep : Represents h l xs) (ha : a ∈ xs) : ∃ n, h a = some n := by
  obtain ⟨p, hp⟩ := hrep.path.links_eq ha
  obtain ⟨n, hn, -⟩ := Option.map_eq_some_iff.mp hp
  exact ⟨n, hn⟩

omit [DecidableEq A] in
/-- Where nothing is allocated there is no node of a list. -/
theorem Represents.notMem_of_none (hrep : Represents h l xs) (ha : h a = none) : a ∉ xs := by
  intro hmem
  obtain ⟨n, hn⟩ := hrep.node hmem
  cases ha.symm.trans hn

theorem dataOf_write (n : Node A T) :
    dataOf (write h a n) = fun b => if b = a then some n.data else dataOf h b := by
  funext b
  by_cases hb : b = a
  · rw [hb, dataOf, write_self, if_pos rfl, Option.map_some]
  · rw [dataOf, write_of_ne hb, if_neg hb, dataOf]

/-- Writing a link keeps the data. -/
theorem dataOf_write_of_data_eq (n' : Node A T) (hn : h a = some n) (hd : n'.data = n.data) :
    dataOf (write h a n') = dataOf h := by
  rw [dataOf_write]
  funext b
  by_cases hb : b = a
  · rw [if_pos hb, hb, dataOf, hn, hd, Option.map_some]
  · rw [if_neg hb]

/-! ## The operations at the top -/

theorem pushNode_spec (hrep : Represents h l xs) (hn : h a = some n) (ha : a ∉ xs) :
    pushNode h l a = .ok (write h a ⟨n.data, l.head⟩, ⟨some a, l.len + 1⟩) ∧
      Represents (write h a ⟨n.data, l.head⟩) ⟨some a, l.len + 1⟩ (a :: xs) := by
  have hrest : Represents (write h a ⟨n.data, l.head⟩) l xs := hrep.congr fun b hb => by
    rw [write_of_ne (by rintro rfl; exact ha hb)]
  refine ⟨?_, ⟨rfl, l.head, ?_, hrest.path⟩, ?_⟩
  · rw [pushNode, read_of_some hn, ok_bind]
  · rw [Field.links, write_self]
    rfl
  · rw [List.length_cons, hrep.len]

/-- A new box is put on the top. -/
theorem push_spec (hrep : Represents h l xs) (ha : h a = none) (d : T) :
    ∃ h' l', push h l a d = .ok (h', l') ∧ Represents h' l' (a :: xs) ∧
      (∀ b, b ≠ a → h' b = h b) ∧
      dataOf h' = fun b => if b = a then some d else dataOf h b := by
  have hxs := hrep.notMem_of_none ha
  have hrep₁ : Represents (write h a (Node.new d)) l xs := hrep.congr fun b hb => by
    rw [write_of_ne (by rintro rfl; exact hxs hb)]
  obtain ⟨hrun, hrep'⟩ := pushNode_spec (n := Node.new d) hrep₁ write_self hxs
  refine ⟨_, _, hrun, hrep', fun b hb => ?_, ?_⟩
  · rw [write_of_ne hb, write_of_ne hb]
  · have hlink := dataOf_write_of_data_eq ⟨d, l.head⟩
      (write_self (h := h) (p := a) (n := Node.new d)) rfl
    exact hlink.trans (dataOf_write _)

theorem popNode_nil (hrep : Represents h l []) : popNode h l = .ok (none, h, l) := by
  rw [popNode, hrep.path.start_eq]
  rfl

theorem popNode_cons (hrep : Represents h l (a :: xs)) :
    ∃ n, h a = some n ∧
      popNode h l = .ok (some a, write h a ⟨n.data, none⟩, ⟨xs.head?, l.len - 1⟩) ∧
      Represents (write h a ⟨n.data, none⟩) ⟨xs.head?, l.len - 1⟩ xs := by
  have hnot := (List.nodup_cons.mp hrep.path.nodup).1
  obtain ⟨hhead, p, hp, hrest⟩ := hrep.path
  obtain ⟨n, hn, hget⟩ : ∃ n, h a = some n ∧ n.next = p := Option.map_eq_some_iff.mp hp
  obtain rfl := hrest.start_eq
  refine ⟨n, hn, ?_, hrest.congr fun b hb => ?_, ?_⟩
  · rw [popNode, hhead]
    dsimp only
    rw [read_of_some hn, ok_bind, hget]
  · rw [Field.links, Field.links, write_of_ne (by rintro rfl; exact hnot hb)]
  · rw [hrep.len, List.length_cons, Nat.add_sub_cancel]

theorem popNode_spec (hrep : Represents h l xs) :
    ∃ h' l', popNode h l = .ok (xs.head?, h', l') ∧ Represents h' l' xs.tail ∧
      dataOf h' = dataOf h := by
  cases xs with
  | nil => exact ⟨h, l, popNode_nil hrep, hrep, rfl⟩
  | cons a xs =>
      obtain ⟨n, hn, hrun, hrep'⟩ := popNode_cons hrep
      exact ⟨_, _, hrun, hrep', dataOf_write_of_data_eq _ hn rfl⟩

theorem pop_spec (hrep : Represents h l xs) :
    ∃ h' l', pop h l = .ok (xs.head?.bind (dataOf h), h', l') ∧ Represents h' l' xs.tail ∧
      dataOf h' = dataOf h := by
  rw [pop]
  cases xs with
  | nil =>
      rw [popNode_nil hrep, ok_bind]
      exact ⟨h, l, rfl, hrep, rfl⟩
  | cons a xs =>
      obtain ⟨n, hn, hrun, hrep'⟩ := popNode_cons hrep
      refine ⟨_, _, ?_, hrep', dataOf_write_of_data_eq _ hn rfl⟩
      rw [hrun, ok_bind]
      dsimp only
      rw [read_of_some write_self, ok_bind, List.head?_cons, Option.bind_some, dataOf, hn,
        Option.map_some]

theorem clearGo_spec (hrep : Represents h l xs) (hk : xs.length < k) :
    ∃ h' l', clearGo k h l = .ok (h', l') ∧ Represents h' l' [] ∧ dataOf h' = dataOf h := by
  induction k generalizing h l xs with
  | zero => omega
  | succ k ih =>
      obtain ⟨h₁, l₁, hrun, hrep₁, hdata₁⟩ := pop_spec hrep
      cases xs with
      | nil =>
          rw [clearGo, hrun, ok_bind]
          exact ⟨h₁, l₁, rfl, hrep₁, hdata₁⟩
      | cons a xs =>
          obtain ⟨n, hn⟩ := hrep.node List.mem_cons_self
          obtain ⟨h', l', hrun', hrep', hdata⟩ := ih hrep₁ (by simpa using hk)
          refine ⟨h', l', ?_, hrep', hdata.trans hdata₁⟩
          rw [clearGo, hrun, ok_bind, List.head?_cons, Option.bind_some, dataOf, hn,
            Option.map_some]
          exact hrun'

/-! ## The operations at an index -/

omit [DecidableEq A] in
theorem locate_spec (hrep : Represents h l xs) (index : ℕ) :
    locate h l index = .ok xs[index]? := by
  rw [locate, hrep.len]
  rcases Nat.lt_or_ge index xs.length with hi | hi
  · obtain ⟨b, bs, rfl⟩ : ∃ b bs, xs = b :: bs := List.exists_cons_of_length_pos (by omega)
    have hhead : l.head = some b := hrep.path.start_eq
    rw [if_neg (by omega), hhead]
    exact follow_eq (hhead ▸ hrep.path)
  · rw [if_pos hi, List.getElem?_eq_none hi]

omit [DecidableEq A] in
theorem get_spec (hrep : Represents h l xs) (index : ℕ) :
    get h l index = .ok (xs[index]?.bind (dataOf h)) := by
  rw [get, locate_spec hrep, ok_bind]
  cases hx : xs[index]? with
  | none => rfl
  | some a =>
      obtain ⟨n, hn⟩ := hrep.node (List.mem_of_getElem? hx)
      dsimp only
      rw [read_of_some hn, ok_bind, Option.bind_some, dataOf, hn, Option.map_some]

omit [DecidableEq A] in
theorem peek_spec (hrep : Represents h l xs) : peek h l = .ok (xs.head?.bind (dataOf h)) := by
  rw [peek, hrep.path.start_eq]
  cases xs with
  | nil => rfl
  | cons a xs =>
      obtain ⟨n, hn⟩ := hrep.node List.mem_cons_self
      rw [List.head?_cons]
      dsimp only
      rw [read_of_some hn, ok_bind, Option.bind_some, dataOf, hn, Option.map_some]

theorem updateAt_spec (hrep : Represents h l xs) (index : ℕ) (g : T → T) :
    ∃ h', updateAt h l index g = .ok (xs[index]?, h') ∧ Represents h' l xs ∧
      dataOf h' = fun a => if xs[index]? = some a then (dataOf h a).map g else dataOf h a := by
  rw [updateAt, getMut, locate_spec hrep, ok_bind]
  cases hx : xs[index]? with
  | none => exact ⟨h, rfl, hrep, by simp⟩
  | some a =>
      obtain ⟨n, hn⟩ := hrep.node (List.mem_of_getElem? hx)
      refine ⟨write h a ⟨g n.data, n.next⟩, ?_, ⟨hrep.path.congr fun b _ => ?_, hrep.len⟩, ?_⟩
      · dsimp only
        rw [read_of_some hn, ok_bind]
      · by_cases hb : b = a
        · rw [hb, Field.links, Field.links, write_self, hn]
          rfl
        · rw [Field.links, Field.links, write_of_ne hb]
      · rw [dataOf_write]
        funext b
        by_cases hb : b = a
        · rw [if_pos hb, if_pos (congrArg some hb.symm), hb, dataOf, hn]
          rfl
        · rw [if_neg hb, if_neg fun heq => hb (Option.some.inj heq).symm]

/-- The node after `xs` is cut out by a write to the link of the node before it. -/
theorem cut_spec (hrep : Represents h l (xs ++ [a] ++ b :: ys)) :
    ∃ c n, h a = some c ∧ c.next = some b ∧ h b = some n ∧
      Represents (write h a ⟨c.data, n.next⟩) ⟨l.head, l.len - 1⟩ (xs ++ [a] ++ ys) := by
  have hnodup := hrep.path.nodup
  obtain ⟨hxsa, hbys, hdisj⟩ := List.nodup_append.mp hnodup
  obtain ⟨_, hpre, rfl, q, hq, hys⟩ := path_append.mp hrep.path
  obtain ⟨n, hn, rfl⟩ : ∃ n, h b = some n ∧ n.next = q := Option.map_eq_some_iff.mp hq
  obtain ⟨c, hc⟩ := hrep.node (a := a) (by simp)
  have hcnext : c.next = some b := by
    obtain ⟨r, -, hlast⟩ := path_append.mp hpre
    obtain ⟨-, hlink⟩ := path_singleton.mp hlast
    rw [Field.links, hc] at hlink
    exact Option.some.inj hlink
  obtain ⟨h', head, hrun, hpath, -⟩ := redirect_spec hpre hxsa n.next
  rw [List.getLast?_concat, redirect, read_of_some hc, ok_bind] at hrun
  obtain ⟨rfl, rfl⟩ := Prod.mk.inj (Except.ok.inj hrun)
  refine ⟨c, n, hc, hcnext, hn, path_append.mpr ⟨_, hpath, hys.congr fun y hy => ?_⟩, ?_⟩
  · have hne : y ≠ a := fun heq =>
      hdisj a (by simp) y (List.mem_cons_of_mem b hy) heq.symm
    rw [Field.links, Field.links, write_of_ne hne]
  · have hlen := hrep.len
    simp only [List.length_append, List.length_cons] at hlen ⊢
    omega

theorem removeAt_spec (hrep : Represents h l xs) (index : ℕ) :
    ∃ h' l', removeAt h l index = .ok (xs[index]?, h', l') ∧
      Represents h' l' (xs.eraseIdx index) ∧ dataOf h' = dataOf h := by
  rw [removeAt, hrep.len]
  rcases Nat.lt_or_ge index xs.length with hi | hi
  · rw [if_neg (by omega)]
    cases index with
    | zero =>
        rw [if_pos rfl, List.eraseIdx_zero, ← List.head?_eq_getElem?]
        exact popNode_spec hrep
    | succ i =>
        -- The list is cut after the node before the one that is removed.
        have hcut : xs = xs.take i ++ [xs[i]] ++ xs[i + 1] :: xs.drop (i + 2) := by
          rw [← List.drop_eq_getElem_cons hi, ← List.take_succ_eq_append_getElem,
            List.take_append_drop]
        obtain ⟨c, n, hc, hcnext, hn, hrep'⟩ := cut_spec (hcut ▸ hrep)
        obtain ⟨b, bs, rfl⟩ : ∃ b bs, xs = b :: bs := List.exists_cons_of_length_pos (by omega)
        have hhead : l.head = some b := hrep.path.start_eq
        have hfollow := follow_eq (k := i) (hhead ▸ hrep.path)
        rw [List.getElem?_eq_getElem (by omega)] at hfollow
        refine ⟨_, ⟨l.head, l.len - 1⟩, ?_, ?_,
          dataOf_write_of_data_eq ⟨c.data, n.next⟩ hc rfl⟩
        · rw [if_neg (by omega), Nat.add_sub_cancel, hhead]
          dsimp only
          rw [hfollow, ok_bind]
          dsimp only
          rw [read_of_some hc, ok_bind, hcnext]
          dsimp only
          rw [read_of_some hn, ok_bind, List.getElem?_eq_getElem hi, hrep.len]
        · rw [List.eraseIdx_eq_take_drop_succ, List.take_succ_eq_append_getElem (by omega)]
          exact hrep'
  · rw [if_pos hi, List.getElem?_eq_none hi, List.eraseIdx_of_length_le hi]
    exact ⟨h, l, rfl, hrep, rfl⟩

/-! ## Retaining -/

omit [DecidableEq A] in
open StackCall in
/-- The predicate only looks at the data of the nodes it is asked about. -/
theorem accepted_congr {store store' : Store A T} {f : T → σ → Bool × σ} {s : σ}
    (hs : ∀ a ∈ xs, store' a = store a) : accepted store' f xs s = accepted store f xs s := by
  induction xs generalizing s with
  | nil => rfl
  | cons a xs ih =>
      have hrest : ∀ b ∈ xs, store' b = store b := fun b hb => hs b (List.mem_cons_of_mem a hb)
      simp only [accepted, hs a List.mem_cons_self, ih hrest]

omit [DecidableEq A] in
open StackCall in
theorem accepted_cons {store : Store A T} {f : T → σ → Bool × σ} {s s' : σ} {d : T} {keep : Bool}
    (hstore : store a = some d) (hf : f d s = (keep, s')) :
    accepted store f (a :: xs) s =
      (if keep then a :: (accepted store f xs s').1 else (accepted store f xs s').1,
        (accepted store f xs s').2) := by
  rw [accepted, hstore]
  dsimp only
  rw [hf]

omit [DecidableEq A] in
open StackCall in
theorem accepted_sublist {store : Store A T} {f : T → σ → Bool × σ} {s : σ} :
    (accepted store f xs s).1.Sublist xs := by
  induction xs generalizing s with
  | nil => exact List.Sublist.refl _
  | cons a xs ih =>
      rw [accepted]
      cases store a with
      | none => exact ih.cons a
      | some d =>
          dsimp only
          split
          · exact ih.cons_cons a
          · exact ih.cons a

/-- A node is taken out through the cursor and freed. -/
theorem takeOut_spec (hrep : Represents h l (xs ++ a :: ys)) (hn : h a = some n) :
    ∃ h' head, redirect nextField (write h a ⟨n.data, none⟩) xs.getLast? l.head n.next =
        .ok (h', head) ∧ Represents (dealloc h' a) ⟨head, l.len - 1⟩ (xs ++ ys) ∧
      dataOf (dealloc h' a) = fun b => if b = a then none else dataOf h b := by
  obtain ⟨hxs, hays, hdisj⟩ := List.nodup_append.mp hrep.path.nodup
  obtain ⟨hays, hys⟩ := List.nodup_cons.mp hays
  have hane : ∀ b ∈ xs ++ ys, b ≠ a := by
    rintro b hb rfl
    rcases List.mem_append.mp hb with hb | hb
    · exact hdisj b hb b List.mem_cons_self rfl
    · exact hays hb
  obtain ⟨_, hpre, rfl, q, hq, hrest⟩ := path_append.mp hrep.path
  obtain rfl : n.next = q := by
    rw [Field.links, hn] at hq
    exact Option.some.inj hq
  have hpre' : Path (nextField.links (write h a ⟨n.data, none⟩)) l.head xs (some a) :=
    hpre.congr fun b hb => by
      rw [Field.links, Field.links, write_of_ne (hane b (List.mem_append_left ys hb))]
  obtain ⟨h', head, hrun, hpath, hr⟩ := redirect_spec hpre' hxs n.next
  refine ⟨h', head, hrun, ⟨path_append.mpr ⟨n.next, ?_, ?_⟩, ?_⟩, ?_⟩
  · refine hpath.congr fun b hb => ?_
    rw [Field.links, dealloc_of_ne (hane b (List.mem_append_left ys hb)), Field.links]
  · refine hrest.congr fun b hb => ?_
    have hne := hane b (List.mem_append_right xs hb)
    rw [Field.links, dealloc_of_ne hne, hr.other b, write_of_ne hne, Field.links]
    exact fun hlast => hdisj b (List.mem_of_mem_getLast? hlast) b (List.mem_cons_of_mem a hb) rfl
  · have hlen := hrep.len
    rw [List.length_append, List.length_cons] at hlen
    rw [List.length_append]
    dsimp only
    omega
  · funext b
    by_cases hb : b = a
    · rw [if_pos hb, hb, dataOf, dealloc_self, Option.map_none]
    · rw [if_neg hb, dataOf, dealloc_of_ne hb, hr.keeps Node.data (fun _ _ => rfl) b,
        write_of_ne hb, dataOf]

omit [DecidableEq A] in
/-- The cursor is the pointer to the first node that is left. -/
theorem Represents.deref_eq (hrep : Represents h l (xs ++ ys)) :
    deref nextField h l.head xs.getLast? = .ok ys.head? := by
  obtain ⟨r, hpre, hrest⟩ := path_append.mp hrep.path
  rw [Cells.deref_eq hpre, hrest.start_eq]

open StackCall in
/-- **The loop of `retain`.**  The nodes before the cursor stay, and of the others those
that the predicate accepts. -/
theorem retainGo_spec (xs : List A) {f : T → σ → Bool × σ} (hrep : Represents h l (xs ++ ys))
    (hk : ys.length < k) (s : σ) :
    ∃ h' l', retainGo f k h l xs.getLast? s = .ok ((accepted (dataOf h) f ys s).2, h', l') ∧
      Represents h' l' (xs ++ (accepted (dataOf h) f ys s).1) ∧
      dataOf h' = fun a =>
        if a ∈ ys ∧ a ∉ (accepted (dataOf h) f ys s).1 then none else dataOf h a := by
  induction k generalizing h l xs ys s with
  | zero => omega
  | succ k ih =>
      rw [retainGo, hrep.deref_eq, ok_bind]
      cases ys with
      | nil => exact ⟨h, l, rfl, hrep, by simp⟩
      | cons a ys =>
          obtain ⟨n, hn⟩ := hrep.node (a := a) (by simp)
          have hstore : dataOf h a = some n.data := by rw [dataOf, hn, Option.map_some]
          have hays : a ∉ ys :=
            (List.nodup_cons.mp (List.nodup_append.mp hrep.path.nodup).2.1).1
          have hk' : ys.length < k := by simpa using hk
          rw [List.head?_cons]
          dsimp only
          rw [read_of_some hn, ok_bind]
          rcases hf : f n.data s with ⟨keep, s'⟩
          rw [accepted_cons hstore hf]
          cases keep with
          | true =>
              have hrep₁ : Represents h l (xs ++ [a] ++ ys) := by
                rw [List.append_assoc, List.singleton_append]
                exact hrep
              obtain ⟨h', l', hrun, hrep', hdata⟩ := ih _ hrep₁ hk' s'
              rw [List.getLast?_concat] at hrun
              rw [List.append_assoc, List.singleton_append] at hrep'
              refine ⟨h', l', hrun, hrep', hdata.trans (funext fun b => ?_)⟩
              by_cases hb : b = a
              · simp [hb, hays]
              · simp [hb]
          | false =>
              obtain ⟨h₁, head, hrun₁, hrep₁, hdata₁⟩ := takeOut_spec hrep hn
              obtain ⟨h', l', hrun, hrep', hdata⟩ := ih _ hrep₁ hk' s'
              have hacc : accepted (dataOf (dealloc h₁ a)) f ys s' = accepted (dataOf h) f ys s' :=
                accepted_congr fun b hb => by
                  rw [hdata₁]
                  exact if_neg (by rintro rfl; exact hays hb)
              rw [hacc] at hrun hrep' hdata
              refine ⟨h', l', ?_, hrep', hdata.trans (funext fun b => ?_)⟩
              · dsimp only
                rw [hrun₁, ok_bind]
                exact hrun
              · rw [hdata₁]
                by_cases hb : b = a
                · have hnot : a ∉ (accepted (dataOf h) f ys s').1 := fun hmem =>
                    hays (accepted_sublist.mem hmem)
                  simp [hb, hays, hnot]
                · simp [hb]

/-! ## What a list shows -/

/-- All that can be seen of a list says that it is the sequence `xs`, with the data `ds`. -/
structure Shows (h : Heap A (Node A T)) (l : StackList A) (xs : List A) (ds : List T) : Prop where
  next : Path (nextField.links h) l.head xs none
  data : xs.map (dataOf h) = ds.map some
  len : l.len = xs.length
  isEmpty : l.isEmpty = true ↔ xs = []
  peek : peek h l = .ok ds.head?
  get : ∀ index, get h l index = .ok ds[index]?
  iter : Yielding (Iter.nextData h) l.iter ds
  iterMut : Yielding (Iter.nextDataMut h) l.iterMut xs
  iterNode : ∃ ns, ns.map Prod.fst = xs ∧ (∀ n ∈ ns, h n.1 = some n.2) ∧
    Yielding (Iter.nextNode h) l.iterNode ns
  iterNodeMut : Yielding (Iter.nextNodeMut h) l.iterNodeMut xs
  intoIter : Drains intoIterNext (fun s k => intoIterSizeHint s = (k, some k)) (h, l) ds

variable {ds : List T}

omit [DecidableEq A] in
theorem Represents.exists_data (hrep : Represents h l xs) :
    ∃ ds : List T, xs.map (dataOf h) = ds.map some := by
  obtain ⟨ds, hds, -⟩ := yielding_parts Node.data hrep.path hrep.len
  exact ⟨ds, hds.symm⟩

omit [DecidableEq A] in
theorem getElem?_data (hds : xs.map (dataOf h) = ds.map some) :
    xs[index]?.bind (dataOf h) = ds[index]? := by
  have hget := congrArg (·[index]?) hds
  simp only [List.getElem?_map] at hget
  cases hx : xs[index]? <;> cases hd : ds[index]? <;> simp_all

/-- Popping a list whose data is known. -/
theorem pop_data (hrep : Represents h l xs) (hds : xs.map (dataOf h) = ds.map some) :
    ∃ h' l', pop h l = .ok (ds.head?, h', l') ∧ Represents h' l' xs.tail ∧
      xs.tail.map (dataOf h') = ds.tail.map some ∧ dataOf h' = dataOf h := by
  obtain ⟨h', l', hrun, hrep', hdata⟩ := pop_spec hrep
  refine ⟨h', l', ?_, hrep', ?_, hdata⟩
  · rw [hrun, List.head?_eq_getElem?, getElem?_data hds, List.head?_eq_getElem?]
  · rw [hdata, List.map_tail, hds, List.map_tail]

theorem Represents.shows (hrep : Represents h l xs) (hds : xs.map (dataOf h) = ds.map some) :
    Shows h l xs ds := by
  refine ⟨hrep.path, hds, hrep.len, ?_, ?_, fun index => ?_, ?_, ?_, ?_, ?_, ?_⟩
  · rw [StackList.isEmpty, Option.isNone_iff_eq_none, hrep.path.start_eq, List.head?_eq_none_iff]
  · rw [peek_spec hrep, List.head?_eq_getElem?, getElem?_data hds, List.head?_eq_getElem?]
  · rw [get_spec hrep, getElem?_data hds]
  · obtain ⟨ds', hds', hyield⟩ := yielding_parts Node.data hrep.path hrep.len
    have heq : ds' = ds := (List.map_inj_right fun _ _ => Option.some.inj).mp (hds'.trans hds)
    exact heq ▸ hyield
  · exact yielding_addresses hrep.path hrep.len
  · exact yielding_cells hrep.path hrep.len
  · exact yielding_addresses hrep.path hrep.len
  · -- The list that is left represents what is still to come.
    refine drains_of_invariant
      (R := fun s ds => ∃ xs, Represents s.1 s.2 xs ∧ xs.map (dataOf s.1) = ds.map some)
      ?_ ?_ ?_ ds (h, l) ⟨xs, hrep, hds⟩
    · rintro s ds ⟨xs, hrep, hds⟩
      have hlen : xs.length = ds.length := by simpa using congrArg List.length hds
      rw [intoIterSizeHint, hrep.len, hlen]
    · rintro s ⟨xs, hrep, hds⟩
      obtain ⟨h', l', hrun, -⟩ := pop_data hrep hds
      exact ⟨(h', l'), hrun⟩
    · rintro s d ds ⟨xs, hrep, hds⟩
      obtain ⟨h', l', hrun, hrep', hds', -⟩ := pop_data hrep hds
      exact ⟨(h', l'), hrun, xs.tail, hrep', hds'⟩

/-! ## Conversions -/

theorem intoVecGo_spec (hrep : Represents h l xs) (hds : xs.map (dataOf h) = ds.map some)
    (hk : ds.length < k) (vec : List T) :
    ∃ h', intoVecGo k h l vec = .ok ((vec ++ ds).reverse, h') := by
  induction k generalizing h l xs ds vec with
  | zero => omega
  | succ k ih =>
      obtain ⟨h₁, l₁, hrun, hrep₁, hds₁, -⟩ := pop_data hrep hds
      rw [intoVecGo, hrun, ok_bind]
      cases ds with
      | nil =>
          refine ⟨h₁, ?_⟩
          rw [List.append_nil]
          rfl
      | cons d ds =>
          obtain ⟨h', hrun'⟩ := ih hrep₁ hds₁ (by simpa using hk) (vec ++ [d])
          rw [List.append_assoc, List.singleton_append] at hrun'
          exact ⟨h', hrun'⟩

theorem intoVec_spec (hrep : Represents h l xs) (hds : xs.map (dataOf h) = ds.map some) :
    ∃ h', intoVec h l = .ok (ds.reverse, h') := by
  have hlen : xs.length = ds.length := by simpa using congrArg List.length hds
  exact intoVecGo_spec hrep hds (by rw [hrep.len, hlen]; omega) []

/-- Addresses for new boxes. -/
structure Fresh (h : Heap A (Node A T)) (nodes : List A) : Prop where
  nodup : nodes.Nodup
  free : ∀ a ∈ nodes, h a = none

/-- The items are pushed in turn, so that the last one is on the top. -/
theorem extend_spec {items : List (A × T)} (hrep : Represents h l xs)
    (hfresh : Fresh h (items.map Prod.fst)) :
    ∃ h' l', extend h l items = .ok (h', l') ∧
      Represents h' l' ((items.map Prod.fst).reverse ++ xs) ∧
      (∀ b, b ∉ items.map Prod.fst → h' b = h b) ∧ ∀ x ∈ items, dataOf h' x.1 = some x.2 := by
  induction items generalizing h l xs with
  | nil => exact ⟨h, l, rfl, hrep, fun _ _ => rfl, by simp⟩
  | cons x items ih =>
      obtain ⟨a, d⟩ := x
      obtain ⟨hnot, hnodup⟩ := List.nodup_cons.mp hfresh.nodup
      have ha : h a = none := hfresh.free a List.mem_cons_self
      obtain ⟨h₁, l₁, hrun, hrep₁, hother₁, hdata₁⟩ := push_spec hrep ha d
      have hfresh₁ : Fresh h₁ (items.map Prod.fst) := by
        refine ⟨hnodup, fun b hb => ?_⟩
        rw [hother₁ b (by rintro rfl; exact hnot hb)]
        exact hfresh.free b (List.mem_cons_of_mem a hb)
      obtain ⟨h', l', hrun', hrep', hother, hdata⟩ := ih hrep₁ hfresh₁
      refine ⟨h', l', ?_, ?_, fun b hb => ?_, fun x hx => ?_⟩
      · rw [extend, hrun, ok_bind]
        exact hrun'
      · simpa only [List.map_cons, List.reverse_cons, List.append_assoc, List.singleton_append]
          using hrep'
      · simp only [List.map_cons, List.mem_cons, not_or] at hb
        rw [hother b hb.2, hother₁ b hb.1]
      · rcases List.mem_cons.mp hx with rfl | hx
        · have hkeep : dataOf h' a = dataOf h₁ a := congrArg (Option.map Node.data) (hother a hnot)
          rw [hkeep, hdata₁]
          exact if_pos rfl
        · exact hdata x hx

theorem fromIter_spec (items : List (A × T)) (hfresh : Fresh h (items.map Prod.fst)) :
    ∃ h' l', fromIter h items = .ok (h', l') ∧
      Represents h' l' (items.map Prod.fst).reverse ∧
      (items.map Prod.fst).reverse.map (dataOf h') = (items.map Prod.snd).reverse.map some ∧
      ∀ b, b ∉ items.map Prod.fst → h' b = h b := by
  obtain ⟨h', l', hrun, hrep, hother, hdata⟩ := extend_spec represents_new hfresh
  rw [List.append_nil] at hrep
  refine ⟨h', l', hrun, hrep, ?_, hother⟩
  rw [List.map_reverse, List.map_reverse, List.map_map, List.map_map]
  exact congrArg List.reverse (List.map_congr_left hdata)

/-- Boxes for a list of data. -/
theorem fromIter_zip {nodes : List A} (ds : List T) (hfresh : Fresh h nodes) (hlen : nodes.length = ds.length) :
    ∃ h' l', fromIter h (nodes.zip ds) = .ok (h', l') ∧ Represents h' l' nodes.reverse ∧
      nodes.reverse.map (dataOf h') = ds.reverse.map some ∧ ∀ b, b ∉ nodes → h' b = h b := by
  have hfst : (nodes.zip ds).map Prod.fst = nodes := List.map_fst_zip hlen.le
  have hsnd : (nodes.zip ds).map Prod.snd = ds := List.map_snd_zip hlen.ge
  have hspec := fromIter_spec (nodes.zip ds) (hfst.symm ▸ hfresh)
  rwa [hfst, hsnd] at hspec

theorem clone_spec {nodes : List A} (hrep : Represents h l xs)
    (hds : xs.map (dataOf h) = ds.map some) (hfresh : Fresh h nodes)
    (hlen : nodes.length = l.len) (cloneItem : T → T) :
    ∃ h' l', clone h l cloneItem nodes = .ok (h', l') ∧ Represents h' l xs ∧
      xs.map (dataOf h') = ds.map some ∧ Represents h' l' nodes.reverse ∧
      nodes.reverse.map (dataOf h') = (ds.map cloneItem).map some := by
  have hlen' : l.len = ds.length := by
    rw [hrep.len]
    simpa using congrArg List.length hds
  have hitems : collect .diverged (Iter.nextData h) (l.len + 1) l.iter = .ok ds :=
    (hrep.shows hds).iter.collect_eq (by omega)
  obtain ⟨h', l', hrun, hrep', hdata, hother⟩ :=
    fromIter_zip (ds.map cloneItem).reverse hfresh (by simp [hlen, hlen'])
  rw [List.reverse_reverse] at hdata
  -- The new boxes are none of the nodes of the list that is cloned.
  have hkeep : ∀ a ∈ xs, h' a = h a := by
    refine fun a ha => hother a fun hmem => ?_
    exact hrep.notMem_of_none (hfresh.free a hmem) ha
  refine ⟨h', l', ?_, hrep.congr hkeep, ?_, hrep', hdata⟩
  · rw [clone, hitems, ok_bind]
    exact hrun
  · rw [← hds]
    exact List.map_congr_left fun a ha => congrArg (Option.map Node.data) (hkeep a ha)

/-- Lists are equal when their data is. -/
theorem eq_spec [BEq T] {l' : StackList A} {ds' : List T} (hrep : Represents h l xs)
    (hds : xs.map (dataOf h) = ds.map some) (hrep' : Represents h l' ys)
    (hds' : ys.map (dataOf h) = ds'.map some) : eq h l l' = .ok (ds == ds') := by
  have hlen : l.len = ds.length := by
    rw [hrep.len]
    simpa using congrArg List.length hds
  have hlen' : l'.len = ds'.length := by
    rw [hrep'.len]
    simpa using congrArg List.length hds'
  rw [eq]
  split
  case isTrue => exact (hrep.shows hds).iter.iterEq_eq (hrep'.shows hds').iter (by omega)
  case isFalse hne =>
      have hbeq : (ds == ds') = false := by
        rw [Bool.eq_false_iff]
        intro heq
        exact hne (hlen.trans ((List.length_eq_of_beq heq).trans hlen'.symm))
      rw [hbeq]

end StackList

/-! ## One call -/

open StackList

/-- The list represents the sequence. -/
structure StackAgrees (s : Stack A T) (t : StackSeq A T) : Prop where
  store : dataOf s.heap = t.store
  represents : Represents s.heap s.list t.seq

variable {s : Stack A T} {t : StackSeq A T}

/-- **One call.**  A call answers as the sequence does, and represents the sequence
after it. -/
theorem StackAgrees.run (hag : StackAgrees s t) (call : StackCall A T σ) (hallow : s.Allows call) :
    ∃ h l, call.run s.heap s.list = .ok ((call.onSeq t.store t.seq).1, h, l) ∧
      StackAgrees ⟨h, l⟩ ⟨(call.onSeq t.store t.seq).2.1, (call.onSeq t.store t.seq).2.2⟩ := by
  obtain ⟨store, xs⟩ := t
  obtain ⟨rfl, hrep⟩ : dataOf s.heap = store ∧ Represents s.heap s.list xs :=
    ⟨hag.store, hag.represents⟩
  cases call with
  | push node data =>
      obtain ⟨h, l, hrun, hrep', -, hdata⟩ := push_spec hrep hallow data
      exact ⟨h, l, by rw [StackCall.run, hrun]; rfl, hdata, hrep'⟩
  | pushNode node =>
      obtain ⟨n, hn⟩ := Option.ne_none_iff_exists'.mp hallow.1
      obtain ⟨hrun, hrep'⟩ := pushNode_spec hrep hn (hallow.2 xs hrep.path)
      have hdata := dataOf_write_of_data_eq ⟨n.data, s.list.head⟩ hn rfl
      exact ⟨_, _, by rw [StackCall.run, hrun]; rfl, hdata, hrep'⟩
  | pop =>
      obtain ⟨h, l, hrun, hrep', hdata⟩ := pop_spec hrep
      exact ⟨h, l, by rw [StackCall.run, hrun]; rfl, hdata, hrep'⟩
  | popNode =>
      obtain ⟨h, l, hrun, hrep', hdata⟩ := popNode_spec hrep
      exact ⟨h, l, by rw [StackCall.run, hrun]; rfl, hdata, hrep'⟩
  | removeAt index =>
      obtain ⟨h, l, hrun, hrep', hdata⟩ := removeAt_spec hrep index
      exact ⟨h, l, by rw [StackCall.run, hrun]; rfl, hdata, hrep'⟩
  | getMut index g =>
      obtain ⟨h, hrun, hrep', hdata⟩ := updateAt_spec hrep index g
      exact ⟨h, s.list, by rw [StackCall.run, hrun]; rfl, hdata, hrep'⟩
  | retain f p =>
      obtain ⟨h, l, hrun, hrep', hdata⟩ :=
        retainGo_spec [] (k := s.list.len + 1) (f := f) hrep (by rw [hrep.len]; omega) p
      refine ⟨h, l, ?_, hdata, hrep'⟩
      have hretain : StackList.retain s.heap s.list f p = _ := hrun
      rw [StackCall.run, hretain]
      rfl
  | clear =>
      obtain ⟨h, l, hrun, hrep', hdata⟩ :=
        clearGo_spec (k := s.list.len + 1) hrep (by rw [hrep.len]; omega)
      exact ⟨h, l, by rw [StackCall.run, StackList.clear, hrun]; rfl, hdata, hrep'⟩

theorem StackReach.agrees {h₀ : Heap A (Node A T)} {log : StackLog A T σ}
    (hreach : StackReach h₀ log s) : ∃ t, StackSeqReach (dataOf h₀) log t ∧ StackAgrees s t := by
  induction hreach with
  | start => exact ⟨_, .start, rfl, represents_new⟩
  | step _ hallow hrun ih =>
      obtain ⟨t, hreach, hag⟩ := ih
      obtain ⟨h, l, hrun', hag'⟩ := hag.run _ hallow
      obtain ⟨rfl, hhl⟩ := Prod.mk.inj (Except.ok.inj (hrun.symm.trans hrun'))
      obtain ⟨rfl, rfl⟩ := Prod.mk.inj hhl
      exact ⟨_, hreach.step _, hag'⟩

/-- **A stack list refines a sequence.**  Every run of the list is a run of the sequence
with the same answers, in every state the list shows the sequence, and every call that is
allowed returns and answers as the sequence does.  A list that is taken apart and put
together again, or cloned, holds the same data; and so does a sequence that is made a list
and taken apart. -/
theorem stackList_refines [BEq T] {h₀ : Heap A (Node A T)} {log : StackLog A T σ}
    (hreach : StackReach h₀ log s) :
    ∃ t ds, StackSeqReach (dataOf h₀) log t ∧ (∀ a, (s.heap a).map Node.data = t.store a) ∧
      Shows s.heap s.list t.seq ds ∧
      (∀ call : StackCall A T σ, s.Allows call → ∃ h l ds',
        call.run s.heap s.list = .ok ((call.onSeq t.store t.seq).1, h, l) ∧
        (∀ a, (h a).map Node.data = (call.onSeq t.store t.seq).2.1 a) ∧
        Shows h l (call.onSeq t.store t.seq).2.2 ds') ∧
      (∃ v h, intoVec s.heap s.list = .ok (v, h) ∧
        ∀ nodes, Fresh h nodes → nodes.length = v.length →
          ∃ h' l', fromIter h (nodes.zip v) = .ok (h', l') ∧ Shows h' l' nodes.reverse ds) ∧
      (∀ nodes cloneItem, Fresh s.heap nodes → nodes.length = s.list.len →
        ∃ h l, clone s.heap s.list cloneItem nodes = .ok (h, l) ∧ Shows h s.list t.seq ds ∧
          Shows h l nodes.reverse (ds.map cloneItem) ∧
          ((∀ d, (cloneItem d == d) = true) → eq h l s.list = .ok true)) ∧
      ∀ (h : Heap A (Node A T)) (items : List (A × T)), Fresh h (items.map Prod.fst) →
        ∃ h₁ l h₂, fromIter h items = .ok (h₁, l) ∧
          intoVec h₁ l = .ok (items.map Prod.snd, h₂) := by
  obtain ⟨t, hseq, hag⟩ := hreach.agrees
  obtain ⟨ds, hds⟩ := hag.represents.exists_data
  refine ⟨t, ds, hseq, congrFun hag.store, hag.represents.shows hds, fun call hallow => ?_, ?_,
    fun nodes cloneItem hfresh hlen => ?_, fun h items hfresh => ?_⟩
  · obtain ⟨h, l, hrun, hag'⟩ := hag.run call hallow
    obtain ⟨ds', hds'⟩ := hag'.represents.exists_data
    exact ⟨h, l, ds', hrun, congrFun hag'.store, hag'.represents.shows hds'⟩
  · obtain ⟨h, hrun⟩ := intoVec_spec hag.represents hds
    refine ⟨ds.reverse, h, hrun, fun nodes hfresh hlen => ?_⟩
    obtain ⟨h', l', hrun', hrep', hds', -⟩ := fromIter_zip _ hfresh hlen
    rw [List.reverse_reverse] at hds'
    exact ⟨h', l', hrun', hrep'.shows hds'⟩
  · obtain ⟨h, l, hrun, hrep, hds', hrep', hclone⟩ :=
      clone_spec hag.represents hds hfresh hlen cloneItem
    refine ⟨h, l, hrun, hrep.shows hds', hrep'.shows hclone, fun heq => ?_⟩
    rw [eq_spec hrep' hclone hrep hds']
    have hbeq : ∀ ds : List T, (ds.map cloneItem == ds) = true := by
      intro ds
      induction ds with
      | nil => rfl
      | cons d ds ih => simp [heq d, ih]
    rw [hbeq]
  · obtain ⟨h₁, l, hrun, hrep, hds', -⟩ := fromIter_spec _ hfresh
    obtain ⟨h₂, hrun'⟩ := intoVec_spec hrep hds'
    rw [List.reverse_reverse] at hrun'
    exact ⟨h₁, l, h₂, hrun, hrun'⟩

/-- Two elements, of which the lower is dropped by `retain`. -/
theorem small_stackList_refines : ∃ s : Stack ℕ ℕ,
    StackReach (σ := ℕ) (fun _ => none)
      [(.retain (fun d k => (d = 20, k + 1)) 0, .state 2), (.push 1 20, .done),
        (.push 0 10, .done)] s ∧
    ∃ t ds, StackSeqReach (σ := ℕ) (dataOf fun _ => none)
      [(.retain (fun d k => (d = 20, k + 1)) 0, .state 2), (.push 1 20, .done),
        (.push 0 10, .done)] t ∧ Shows s.heap s.list t.seq ds := by
  have hfirst : StackReach (σ := ℕ) (fun _ : ℕ => none) [(.push 0 10, .done)] _ :=
    .step .start rfl rfl
  have hsecond : StackReach _ ((.push 1 20, .done) :: _) _ := hfirst.step rfl rfl
  have hretain : StackReach _ ((.retain (fun d k => (d = 20, k + 1)) 0, .state 2) :: _) _ :=
    hsecond.step trivial rfl
  obtain ⟨t, ds, hreach, -, hshows, -⟩ := stackList_refines hretain
  exact ⟨_, hretain, t, ds, hreach, hshows⟩

end Funderberker

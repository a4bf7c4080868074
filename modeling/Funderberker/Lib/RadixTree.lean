import Mathlib.Data.List.Induction

/-!
# Radix trees stored in a flat memory

A memory is a function from frames and indices to words, and a word may point to a
frame.  From a root frame, a path of indices leads to a frame or falls off.  Nothing
in the memory itself keeps two paths from meeting, so that the frames reached form a
tree is an invariant: `IsTree`, up to a given depth.

Two rules say how writes act on the paths.  A write below the depth changes no path
(`node_congr`), and hanging a fresh, empty frame under an unused slot adds exactly
one path (`node_extend`).

What a tree with leaves at several depths holds is read by following the indices until
a word points to no frame (`stop`), and the same two rules hold of that word.

## Main definitions

* `node` — the frame a path leads to.
* `stop` — the word a path ends at.
* `IsTree` — different paths lead to different frames.

## Main results

* `node_congr` — paths only read the frames they go through.
* `node_extend`, `IsTree.extend` — a new frame under an unused slot.
* `stop_eq_of_not_prefix`, `stop_extend` — the words that paths end at.
-/

namespace RadixTree

variable {F I W : Type} (child : W → Option F)

/-- The frame that the path leads to from `r`. -/
def node (mem : F → I → W) (r : F) : List I → Option F
  | [] => some r
  | i :: p => (child (mem r i)).bind fun t => node mem t p

/-- The first word on the path that points to no frame, with the number of indices after
it. -/
def stop (mem : F → I → W) (r : F) : List I → Option (ℕ × W)
  | [] => none
  | i :: p =>
      match child (mem r i) with
      | none => some (p.length, mem r i)
      | some t => stop mem t p

/-- Paths of length at most `d` that lead to one frame are equal. -/
def IsTree (mem : F → I → W) (r : F) (d : ℕ) : Prop :=
  ∀ p q : List I, p.length ≤ d → q.length ≤ d → ∀ t, node child mem r p = some t →
    node child mem r q = some t → p = q

variable {child} {mem mem' : F → I → W} {r g t : F} {i j : I} {p q : List I} {d : ℕ}

theorem node_append (p q : List I) :
    node child mem r (p ++ q) = (node child mem r p).bind fun t => node child mem t q := by
  induction p generalizing r with
  | nil => rfl
  | cons i p ih =>
      cases h : child (mem r i) with
      | none => simp [node, h]
      | some t => simp [node, h, ih]

/-- The last step of a path. -/
theorem node_concat (p : List I) (i : I) :
    node child mem r (p ++ [i]) = (node child mem r p).bind fun t => child (mem t i) := by
  rw [node_append]
  refine congrArg _ (funext fun t => ?_)
  cases h : child (mem t i) <;> simp [node, h]

/-- Paths only read the frames they go through. -/
theorem node_congr
    (h : ∀ p t, p.length < d → node child mem r p = some t → ∀ i, mem' t i = mem t i) :
    ∀ p : List I, p.length ≤ d → node child mem' r p = node child mem r p := by
  intro p
  induction p using List.reverseRecOn with
  | nil => intro _; rfl
  | append_singleton p i ih =>
      intro hp
      rw [List.length_append, List.length_singleton] at hp
      rw [node_concat, node_concat, ih (by omega)]
      cases ht : node child mem r p with
      | none => rfl
      | some t => simp [h p t (by omega) ht i]

theorem IsTree.congr (hT : IsTree child mem r d)
    (h : ∀ p : List I, p.length ≤ d → node child mem' r p = node child mem r p) :
    IsTree child mem' r d := by
  intro p q hp hq t hpt hqt
  rw [h p hp] at hpt
  rw [h q hq] at hqt
  exact hT p q hp hq t hpt hqt

/-! ## A new frame -/

/-- `mem'` is `mem` with the frame `g` emptied and hung under slot `i` of `t`. -/
structure Extends (child : W → Option F) (mem : F → I → W) (t : F) (i : I) (g : F)
    (mem' : F → I → W) : Prop where
  free : child (mem t i) = none
  linked : child (mem' t i) = some g
  empty : ∀ j, child (mem' g j) = none
  other : ∀ u j, u ≠ g → (u = t → j ≠ i) → mem' u j = mem u j

/-- Hanging a fresh frame under an unused slot adds one path. -/
theorem node_extend (hT : IsTree child mem r d) (hp : p.length < d)
    (ht : node child mem r p = some t) (hE : Extends child mem t i g mem')
    (hg : ∀ q : List I, q.length ≤ d → node child mem r q ≠ some g) :
    ∀ q : List I, q.length ≤ d →
      (q = p ++ [i] → node child mem' r q = some g) ∧
      (q ≠ p ++ [i] → node child mem' r q = node child mem r q) := by
  have hnew : node child mem r (p ++ [i]) = none := by
    rw [node_concat, ht]
    exact hE.free
  intro q
  induction q using List.reverseRecOn with
  | nil => exact fun _ => ⟨fun h => by simp at h, fun _ => rfl⟩
  | append_singleton q j ih =>
      intro hq
      rw [List.length_append, List.length_singleton] at hq
      obtain ⟨ihnew, ihold⟩ := ih (by omega)
      rw [node_concat, node_concat]
      by_cases hqp : q = p ++ [i]
      · -- Below the new frame there is nothing, before or after.
        have hne : q ++ [j] ≠ p ++ [i] := by
          intro h
          have := congrArg List.length h
          rw [hqp] at this
          simp at this
        refine ⟨fun h => absurd h hne, fun _ => ?_⟩
        rw [ihnew hqp, hqp, hnew]
        exact hE.empty j
      · rw [ihold hqp]
        cases hu : node child mem r q with
        | none =>
            refine ⟨fun h => ?_, fun _ => rfl⟩
            rw [(List.append_inj' h rfl).1, ht] at hu
            cases hu
        | some u =>
            have hug : u ≠ g := by
              rintro rfl
              exact hg q (by omega) hu
            refine ⟨fun h => ?_, fun h => ?_⟩
            · obtain ⟨rfl, hj⟩ := List.append_inj' h rfl
              obtain rfl : u = t := Option.some.inj (hu.symm.trans ht)
              obtain rfl : j = i := List.head_eq_of_cons_eq hj
              exact hE.linked
            · have hmem : mem' u j = mem u j := by
                refine hE.other u j hug ?_
                rintro rfl rfl
                exact h (by rw [hT q p (by omega) (by omega) u hu ht])
              exact congrArg child hmem

theorem IsTree.extend (hT : IsTree child mem r d) (hp : p.length < d)
    (ht : node child mem r p = some t) (hE : Extends child mem t i g mem')
    (hg : ∀ q : List I, q.length ≤ d → node child mem r q ≠ some g) :
    IsTree child mem' r d := by
  have hnode := node_extend hT hp ht hE hg
  -- A path to the new frame is the new path; every other path is an old one.
  have hold : ∀ q : List I, q.length ≤ d → ∀ u, node child mem' r q = some u → u ≠ g →
      q ≠ p ++ [i] ∧ node child mem r q = some u := by
    intro q hq u hu hug
    have hne : q ≠ p ++ [i] := by
      intro h
      rw [(hnode q hq).1 h] at hu
      exact hug (Option.some.inj hu).symm
    exact ⟨hne, ((hnode q hq).2 hne).symm.trans hu⟩
  have hnew : ∀ q : List I, q.length ≤ d → node child mem' r q = some g → q = p ++ [i] := by
    intro q hq hu
    by_contra hne
    exact hg q hq (((hnode q hq).2 hne).symm.trans hu)
  intro a b ha hb u hau hbu
  by_cases hug : u = g
  · subst hug
    rw [hnew a ha hau, hnew b hb hbu]
  · exact hT a b ha hb u (hold a ha u hau hug).2 (hold b hb u hbu hug).2

/-! ## Where paths end -/

theorem stop_append (h : node child mem r p = some t) (q : List I) :
    stop child mem r (p ++ q) = stop child mem t q := by
  induction p generalizing r with
  | nil =>
      obtain rfl := Option.some.inj h
      rfl
  | cons i p ih =>
      rw [node] at h
      cases hc : child (mem r i) with
      | none => simp [hc] at h
      | some u =>
          rw [hc, Option.bind_some] at h
          rw [List.cons_append, stop, hc]
          exact ih h

/-- A path through a slot that points to no frame. -/
theorem stop_of_leaf (h : node child mem r p = some t) (hi : child (mem t i) = none)
    (q : List I) : stop child mem r (p ++ i :: q) = some (q.length, mem t i) := by
  rw [stop_append h, stop, hi]

/-- Only the slots on the path are read. -/
theorem stop_congr (h : ∀ q i rest t, p = q ++ i :: rest → node child mem r q = some t →
    mem' t i = mem t i) : stop child mem' r p = stop child mem r p := by
  induction p generalizing r with
  | nil => rfl
  | cons i p ih =>
      have hi : mem' r i = mem r i := h [] i p r rfl rfl
      rw [stop, stop, hi]
      cases hc : child (mem r i) with
      | none => rfl
      | some u =>
          refine ih fun q j rest t hq ht => h (i :: q) j rest t (by rw [hq, List.cons_append]) ?_
          rw [node, hc]
          exact ht

/-- A path that does not go through a slot does not read it. -/
theorem stop_eq_of_not_prefix (hT : IsTree child mem r d) (hp : p.length ≤ d)
    (ht : node child mem r p = some t) (hq : q.length ≤ d + 1) (hnot : ¬ (p ++ [i]) <+: q)
    (h : ∀ u j, (∃ q' : List I, q'.length ≤ d ∧ node child mem r q' = some u) → (u = t → j ≠ i) →
      mem' u j = mem u j) : stop child mem' r q = stop child mem r q := by
  refine stop_congr fun q' j rest u hq' hu => h u j ⟨q', ?_, hu⟩ ?_
  · have := congrArg List.length hq'
    rw [List.length_append, List.length_cons] at this
    omega
  · rintro rfl rfl
    have hlen := congrArg List.length hq'
    rw [List.length_append, List.length_cons] at hlen
    obtain rfl := hT q' p (by omega) hp u hu ht
    exact hnot ⟨rest, by rw [hq', List.append_assoc, List.singleton_append]⟩

/-- Hanging a fresh frame under an unused slot changes only paths through the slot. -/
theorem stop_extend (hT : IsTree child mem r d) (hp : p.length < d)
    (ht : node child mem r p = some t) (hE : Extends child mem t i g mem')
    (hg : ∀ q : List I, q.length ≤ d → node child mem r q ≠ some g) (hq : q.length ≤ d + 1)
    (hnot : ¬ (p ++ [i]) <+: q) : stop child mem' r q = stop child mem r q := by
  refine stop_eq_of_not_prefix hT (Nat.le_of_lt hp) ht hq hnot fun u j hu hne => hE.other u j ?_ hne
  rintro rfl
  obtain ⟨q', hq', hu⟩ := hu
  exact hg q' hq' hu

/-- Words that point to the same frames have the same paths. -/
theorem node_congr_child (h : ∀ u j, child (mem' u j) = child (mem u j)) (p : List I) :
    node child mem' r p = node child mem r p := by
  induction p generalizing r with
  | nil => rfl
  | cons i p ih =>
      rw [node, node, h]
      exact congrArg _ (funext fun t => ih)

end RadixTree

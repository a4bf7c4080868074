import Mathlib.Data.Finset.Prod
import Mathlib.Data.Set.Card
import Mathlib.Order.CompletePartialOrder
import Mathlib.Tactic.Ring

/-!
# Dyadic blocks and their maximal tilings

The block of order `i` and index `k` is the set of naturals `p` with
`p / 2 ^ i = k`: the `2 ^ i` consecutive points that start at `k * 2 ^ i`.  Two
blocks are either nested or disjoint, so the blocks form a binary forest whose
siblings at order `i` are the indices `2 * k` and `2 * k + 1`.

A `Family` holds a set of indices at each order.  A `Tiling` is a family in which
no point lies in two blocks and no two siblings are both held.  The second
condition makes a tiling maximal, and this is what the module is about: a tiling
is determined by the set it covers.

## Main definitions

* `points i k` — the points of a block.
* `Family`, `cover` — a family of blocks and the union of its blocks.
* `Tiling` — disjoint blocks with no complete pair of siblings.
* `Family.insert`, `Family.erase` — adding and taking away one block.
* `rest`, `Splits` — what is left of a block when a smaller one is taken out.

## Main results

* `Tiling.exists_mem_of_subset` — a covered block lies inside one held block.
* `Tiling.mem_iff` — the held blocks are the maximal covered ones.
* `Tiling.eq_of_cover_eq` — a tiling is determined by its cover.
* `Tiling.erase`, `Tiling.insert` — when the two updates keep a tiling.
* `Tiling.card_le_of_half`, `Tiling.card_le_of_edges` — how many blocks a tiling
  can hold.
-/

namespace DyadicBlock

/-- The points of the block of order `i` and index `k`. -/
def points (i k : ℕ) : Set ℕ := {p | p / 2 ^ i = k}

/-- The indices held at each order. -/
abbrev Family := ℕ → Set ℕ

/-- The union of the blocks of a family. -/
def cover (F : Family) : Set ℕ := {p | ∃ i, p / 2 ^ i ∈ F i}

/-- The index of the sibling of a block, at the same order. -/
def sibling (k : ℕ) : ℕ := if k % 2 = 0 then k + 1 else k - 1

variable {F G : Family} {i j k l p : ℕ}

/-! ## The forest of blocks -/

@[simp] theorem mem_points : p ∈ points i k ↔ p / 2 ^ i = k := Iff.rfl

@[simp] theorem mem_cover : p ∈ cover F ↔ ∃ i, p / 2 ^ i ∈ F i := Iff.rfl

theorem mem_points_iff : p ∈ points i k ↔ k * 2 ^ i ≤ p ∧ p < k * 2 ^ i + 2 ^ i := by
  have hpos : 0 < 2 ^ i := Nat.two_pow_pos i
  rw [mem_points, Nat.div_eq_iff hpos]
  omega

/-- A block of order zero is a point. -/
theorem points_zero (k : ℕ) : points 0 k = {k} := by
  ext p
  rw [mem_points, pow_zero, Nat.div_one, Set.mem_singleton_iff]

theorem first_mem_points (i k : ℕ) : k * 2 ^ i ∈ points i k := by
  rw [mem_points, Nat.mul_div_cancel _ (Nat.two_pow_pos i)]

theorem div_pow_succ (p i : ℕ) : p / 2 ^ (i + 1) = p / 2 ^ i / 2 := by
  rw [Nat.div_div_eq_div_mul, pow_succ]

/-- The ancestor at order `j` of the order-`i` block a point lies in. -/
theorem div_pow_of_le (p : ℕ) (h : i ≤ j) : p / 2 ^ j = p / 2 ^ i / 2 ^ (j - i) := by
  rw [Nat.div_div_eq_div_mul, ← pow_add, Nat.add_sub_cancel' h]

/-- A block is the union of its two halves. -/
theorem points_succ (i k : ℕ) :
    points (i + 1) k = points i (2 * k) ∪ points i (2 * k + 1) := by
  ext p
  simp only [Set.mem_union, mem_points, div_pow_succ]
  omega

theorem points_subset_ancestor (h : i ≤ j) : points i k ⊆ points j (k / 2 ^ (j - i)) := by
  intro p hp
  rw [mem_points] at hp ⊢
  rw [div_pow_of_le p h, hp]

theorem points_disjoint (h : k ≠ l) : Disjoint (points i k) (points i l) := by
  rw [Set.disjoint_left]
  intro p hk hl
  exact h (hk.symm.trans hl)

theorem points_subset_cover (h : k ∈ F i) : points i k ⊆ cover F := by
  intro p hp
  rw [mem_points] at hp
  exact ⟨i, hp ▸ h⟩

theorem sibling_ne (k : ℕ) : sibling k ≠ k := by
  unfold sibling
  split <;> omega

theorem sibling_div (k : ℕ) : sibling k / 2 = k / 2 := by
  unfold sibling
  split <;> omega

@[simp] theorem sibling_sibling (k : ℕ) : sibling (sibling k) = k := by
  unfold sibling
  split <;> split <;> omega

/-- The parent of a block is the block together with its sibling. -/
theorem points_parent (i k : ℕ) :
    points (i + 1) (k / 2) = points i k ∪ points i (sibling k) := by
  ext p
  simp only [Set.mem_union, mem_points, div_pow_succ, sibling]
  split <;> omega

/-! ## Tilings -/

/-- A family whose blocks are disjoint and in which no two siblings are both
held.  Disjointness is stated by points: a point determines the order of the
block it lies in, hence the block. -/
structure Tiling (F : Family) : Prop where
  disjoint : ∀ p i j, p / 2 ^ i ∈ F i → p / 2 ^ j ∈ F j → i = j
  merged : ∀ i k, k ∈ F i → sibling k ∉ F i

namespace Tiling

/-- A covered block lies inside one held block.  The induction is on the order: the
two halves lie inside held blocks, and if both are held themselves then they are
siblings. -/
theorem exists_mem_of_subset (hF : Tiling F) (h : points i k ⊆ cover F) :
    ∃ j, i ≤ j ∧ k / 2 ^ (j - i) ∈ F j := by
  induction i generalizing k with
  | zero =>
      obtain ⟨j, hj⟩ := h (show k ∈ points 0 k by simp)
      exact ⟨j, Nat.zero_le j, by simpa using hj⟩
  | succ i ih =>
      rw [points_succ, Set.union_subset_iff] at h
      obtain ⟨a, ha, hma⟩ := ih h.1
      obtain ⟨b, hb, hmb⟩ := ih h.2
      have hup : ∀ j c, i < j → (2 * k + c) / 2 ^ (j - i) ∈ F j → c < 2 →
          k / 2 ^ (j - (i + 1)) ∈ F j := by
        intro j c hj hm hc
        have hsplit : j - i = (j - (i + 1)) + 1 := by omega
        have hhalf : (2 * k + c) / 2 = k := by omega
        rw [hsplit, pow_succ', ← Nat.div_div_eq_div_mul, hhalf] at hm
        exact hm
      rcases Nat.lt_or_ge i a with hia | hia
      · exact ⟨a, hia, hup a 0 hia (by simpa using hma) (by omega)⟩
      rcases Nat.lt_or_ge i b with hib | hib
      · exact ⟨b, hib, hup b 1 hib hmb (by omega)⟩
      have hae : a = i := by omega
      have hbe : b = i := by omega
      subst hae hbe
      simp only [Nat.sub_self, pow_zero, Nat.div_one] at hma hmb
      have hsib : sibling (2 * k) = 2 * k + 1 := by simp [sibling]
      exact absurd hmb (hsib ▸ hF.merged _ _ hma)

/-- **The held blocks are the maximal covered ones.** -/
theorem mem_iff (hF : Tiling F) :
    k ∈ F i ↔ points i k ⊆ cover F ∧ ¬ points (i + 1) (k / 2) ⊆ cover F := by
  constructor
  · intro hk
    refine ⟨points_subset_cover hk, ?_⟩
    intro hpar
    obtain ⟨j, hj, hm⟩ := hF.exists_mem_of_subset hpar
    have hp := first_mem_points i k
    have hanc : (k * 2 ^ i) / 2 ^ j = k / 2 / 2 ^ (j - (i + 1)) := by
      rw [div_pow_of_le _ hj, div_pow_succ, mem_points.mp hp]
    have hij := hF.disjoint (k * 2 ^ i) i j (by rwa [mem_points.mp hp]) (by rwa [hanc])
    omega
  · rintro ⟨hsub, hmax⟩
    obtain ⟨j, hj, hm⟩ := hF.exists_mem_of_subset hsub
    rcases Nat.eq_or_lt_of_le hj with rfl | hlt
    · simpa using hm
    · exfalso
      apply hmax
      refine (points_subset_ancestor (j := j) hlt).trans ?_
      rw [Nat.div_div_eq_div_mul, ← pow_succ', show j - (i + 1) + 1 = j - i by omega]
      exact points_subset_cover hm

/-- **A tiling is determined by its cover.** -/
theorem eq_of_cover_eq (hF : Tiling F) (hG : Tiling G) (h : cover F = cover G) : F = G := by
  funext i
  ext k
  rw [hF.mem_iff, hG.mem_iff, h]

end Tiling

/-! ## Updating one block -/

/-- Hold one more block. -/
def Family.insert (F : Family) (i k : ℕ) : Family := fun j => {l | l ∈ F j ∨ (j = i ∧ l = k)}

/-- Take one block away. -/
def Family.erase (F : Family) (i k : ℕ) : Family := fun j => {l | l ∈ F j ∧ ¬ (j = i ∧ l = k)}

@[simp] theorem Family.mem_insert :
    l ∈ F.insert i k j ↔ l ∈ F j ∨ (j = i ∧ l = k) := Iff.rfl

@[simp] theorem Family.mem_erase :
    l ∈ F.erase i k j ↔ l ∈ F j ∧ ¬ (j = i ∧ l = k) := Iff.rfl

theorem cover_insert (F : Family) (i k : ℕ) : cover (F.insert i k) = cover F ∪ points i k := by
  ext p
  simp only [mem_cover, Family.mem_insert, Set.mem_union, mem_points]
  constructor
  · rintro ⟨j, hj | ⟨rfl, hk⟩⟩
    · exact Or.inl ⟨j, hj⟩
    · exact Or.inr hk
  · rintro (⟨j, hj⟩ | hk)
    · exact ⟨j, Or.inl hj⟩
    · exact ⟨i, Or.inr ⟨rfl, hk⟩⟩

namespace Tiling

/-- Taking a block away keeps a tiling. -/
theorem erase (hF : Tiling F) (i k : ℕ) : Tiling (F.erase i k) where
  disjoint p a b ha hb := hF.disjoint p a b ha.1 hb.1
  merged a l hl hs := hF.merged a l hl.1 hs.1

theorem cover_erase (hF : Tiling F) (hk : k ∈ F i) :
    cover (F.erase i k) = cover F \ points i k := by
  ext p
  simp only [mem_cover, Family.mem_erase, Set.mem_sdiff, mem_points]
  constructor
  · rintro ⟨j, hj, hne⟩
    refine ⟨⟨j, hj⟩, ?_⟩
    intro hp
    have hij := hF.disjoint p j i hj (by rwa [hp])
    exact hne ⟨hij, by rw [hij]; exact hp⟩
  · rintro ⟨⟨j, hj⟩, hp⟩
    refine ⟨j, hj, ?_⟩
    rintro ⟨rfl, hk'⟩
    exact hp hk'

/-- Holding a block outside the cover keeps a tiling, as long as the sibling is
not held. -/
theorem insert (hF : Tiling F) (hd : Disjoint (points i k) (cover F))
    (hs : sibling k ∉ F i) : Tiling (F.insert i k) where
  disjoint p a b ha hb := by
    rw [Set.disjoint_left] at hd
    rcases ha with ha | ⟨rfl, ha⟩ <;> rcases hb with hb | ⟨rfl, hb⟩
    · exact hF.disjoint p a b ha hb
    · exact absurd ⟨a, ha⟩ (hd hb)
    · exact absurd ⟨b, hb⟩ (hd ha)
    · rfl
  merged a l hl hsl := by
    rcases hl with hl | ⟨rfl, rfl⟩ <;> rcases hsl with hsl | ⟨hai, hsl⟩
    · exact hF.merged a l hl hsl
    · subst hai
      rw [← hsl, sibling_sibling] at hs
      exact hs hl
    · exact hs hsl
    · exact sibling_ne _ hsl

end Tiling

/-- The family that holds nothing. -/
theorem tiling_empty : Tiling (fun _ => ∅) where
  disjoint _ _ _ hi := absurd hi (Set.notMem_empty _)
  merged _ _ hk := absurd hk (Set.notMem_empty _)

@[simp] theorem cover_empty : cover (fun _ => ∅) = ∅ := by
  ext p
  simp

/-! ## Taking a block out of a larger one

Removing the block `(i, c)` from its ancestor of order `i + k` leaves one block of
each order from `i` to `i + k - 1`: the sibling of `(i, c)`, then the sibling of its
parent, and so on up. -/

/-- What is left of the ancestor of order `i + k` without `(i, c)`. -/
def rest (i c k : ℕ) : Set ℕ := points (i + k) (c / 2 ^ k) \ points i c

@[simp] theorem rest_zero (i c : ℕ) : rest i c 0 = ∅ := by simp [rest]

theorem rest_succ (i c k : ℕ) :
    rest i c (k + 1) = points i (sibling c) ∪ rest (i + 1) (c / 2) k := by
  have hanc : points (i + 1 + k) (c / 2 / 2 ^ k) = points (i + (k + 1)) (c / 2 ^ (k + 1)) := by
    rw [Nat.div_div_eq_div_mul, ← pow_succ', Nat.add_right_comm, Nat.add_assoc]
  have hsub : points i (sibling c) ⊆ points (i + (k + 1)) (c / 2 ^ (k + 1)) := by
    intro p hp
    rw [mem_points] at hp ⊢
    rw [div_pow_of_le p (Nat.le_add_right i (k + 1)), hp, Nat.add_sub_cancel_left, pow_succ',
      ← Nat.div_div_eq_div_mul, ← Nat.div_div_eq_div_mul, sibling_div]
  have hdis := Set.disjoint_left.mp (points_disjoint (sibling_ne c) : Disjoint (points i _) _)
  ext p
  have h1 := @hsub p
  have h2 := @hdis p
  simp only [rest, hanc, points_parent, Set.mem_union, Set.mem_sdiff] at h1 h2 ⊢
  tauto

/-- The blocks of `rest i c k` can be inserted into `F`, smallest first. -/
structure Splits (F : Family) (i c k : ℕ) : Prop where
  tiling : Tiling F
  outside : Disjoint (rest i c k) (cover F)
  path : ∀ j, i ≤ j → j < i + k → c / 2 ^ (j - i) ∉ F j

namespace Splits

variable {c : ℕ}

theorem sibling_disjoint (h : Splits F i c (k + 1)) :
    Disjoint (points i (sibling c)) (cover F) := by
  have := h.outside
  rw [rest_succ] at this
  exact (Set.disjoint_union_left.mp this).1

theorem notMem (h : Splits F i c (k + 1)) : sibling (sibling c) ∉ F i := by
  simpa using h.path i (le_refl i) (by omega)

/-- After the sibling is in, the same holds one order up. -/
theorem step (h : Splits F i c (k + 1)) : Splits (F.insert i (sibling c)) (i + 1) (c / 2) k where
  tiling := h.tiling.insert h.sibling_disjoint h.notMem
  outside := by
    have hout := h.outside
    rw [rest_succ, Set.disjoint_union_left] at hout
    rw [cover_insert, Set.disjoint_union_right]
    refine ⟨hout.2, ?_⟩
    rw [Set.disjoint_left]
    intro p hp hs
    refine hp.2 ?_
    rw [points_parent]
    exact Or.inr hs
  path := by
    intro j hj hlt
    have hne : j ≠ i := by omega
    have hold := h.path j (by omega) (by omega)
    rw [Nat.div_div_eq_div_mul, ← pow_succ', show j - (i + 1) + 1 = j - i by omega]
    rintro (hm | ⟨heq, _⟩)
    · exact hold hm
    · exact hne heq

/-- The family in which all of `rest i c k` is held. -/
theorem exists_filled (h : Splits F i c k) :
    ∃ G : Family, Tiling G ∧ cover G = cover F ∪ rest i c k ∧ ∀ j, F j ⊆ G j := by
  induction k generalizing F i c with
  | zero => exact ⟨F, h.tiling, by simp, fun _ => subset_refl _⟩
  | succ k ih =>
      obtain ⟨G, hG, hcov, hsub⟩ := ih h.step
      refine ⟨G, hG, ?_, fun j l hl => hsub j (Or.inl hl)⟩
      rw [hcov, cover_insert, rest_succ, Set.union_assoc]

end Splits

/-- Erasing a block and putting back all of it but a smaller block splits. -/
theorem Tiling.splits_erase {c : ℕ} (hF : Tiling F) (hc : c / 2 ^ k ∈ F (i + k)) :
    Splits (F.erase (i + k) (c / 2 ^ k)) i c k where
  tiling := hF.erase _ _
  outside := by
    rw [hF.cover_erase hc, rest]
    exact Set.disjoint_left.mpr fun p hp hp' => hp'.2 hp.1
  path := by
    intro j hj hlt hm
    have hp := mem_points.mp (first_mem_points i c)
    have hj' : (c * 2 ^ i) / 2 ^ j = c / 2 ^ (j - i) := by rw [div_pow_of_le _ hj, hp]
    have hu : (c * 2 ^ i) / 2 ^ (i + k) = c / 2 ^ k := by
      rw [div_pow_of_le _ (Nat.le_add_right i k), hp, Nat.add_sub_cancel_left]
    have := hF.disjoint (c * 2 ^ i) j (i + k) (by rw [hj']; exact hm.1) (by rwa [hu])
    omega

/-- Erasing a block and filling in all of it but a smaller one removes the smaller. -/
theorem cover_erase_union_rest {c : ℕ} (hF : Tiling F) (hc : c / 2 ^ k ∈ F (i + k)) :
    cover (F.erase (i + k) (c / 2 ^ k)) ∪ rest i c k = cover F \ points i c := by
  have hin : points i c ⊆ points (i + k) (c / 2 ^ k) := by
    simpa using points_subset_ancestor (k := c) (Nat.le_add_right i k)
  have hcov := points_subset_cover hc
  ext p
  have h1 := @hin p
  have h2 := @hcov p
  simp only [hF.cover_erase hc, rest, Set.mem_union, Set.mem_sdiff] at h1 h2 ⊢
  tauto

/-! ## How many blocks a tiling holds -/

namespace Tiling

variable {B : Finset (ℕ × ℕ)}

/-- Each held block is charged to the aligned pair of points its first point lies
in, and no two blocks are charged to the same pair. -/
theorem card_le_of_half (hF : Tiling F) (hB : ∀ b ∈ B, b.2 ∈ F b.1) {Q : Finset ℕ}
    (hQ : ∀ p ∈ cover F, p / 2 ∈ Q) : B.card ≤ Q.card := by
  refine Finset.card_le_card_of_injOn (fun b => b.2 * 2 ^ b.1 / 2) ?_ ?_
  · intro b hb
    exact hQ _ (points_subset_cover (hB b hb) (first_mem_points b.1 b.2))
  · rintro ⟨i, k⟩ hb ⟨j, l⟩ hc heq
    have hk := hB _ hb
    have hl := hB _ hc
    simp only at heq hk hl
    have hpk := mem_points.mp (first_mem_points i k)
    have hpl := mem_points.mp (first_mem_points j l)
    -- A block of positive order contains the whole pair, hence the other first point.
    have hbig : ∀ {i k q}, k * 2 ^ i / 2 = q / 2 → i ≠ 0 → q / 2 ^ i = k := by
      intro i k q hq hi
      obtain ⟨i, rfl⟩ := Nat.exists_eq_succ_of_ne_zero hi
      rw [pow_succ', ← Nat.div_div_eq_div_mul, ← hq, Nat.div_div_eq_div_mul, ← pow_succ',
        Nat.mul_div_cancel _ (Nat.two_pow_pos _)]
    have hij : i = j := by
      by_cases hi : i = 0
      · by_cases hj : j = 0
        · rw [hi, hj]
        · refine hF.disjoint (k * 2 ^ i) i j (by rwa [hpk]) ?_
          rwa [hbig heq.symm hj]
      · refine hF.disjoint (l * 2 ^ j) i j ?_ (by rwa [hpl])
        rwa [hbig heq hi]
    subst hij
    by_cases hi : i = 0
    · subst hi
      simp only [pow_zero, Nat.mul_one] at heq
      by_contra hne
      have hkl : k ≠ l := fun h => hne (by rw [h])
      have hsib : sibling k = l := by
        unfold sibling
        split <;> omega
      exact hF.merged 0 k hk (hsib ▸ hl)
    · rw [← hbig heq hi, hpl]

/-- Between a point where `P` holds and a point where it fails there is an edge. -/
private theorem exists_edge_lt (P : ℕ → Prop) {p q : ℕ} (hpq : p ≤ q) (h : ¬ (P p ↔ P q)) :
    ∃ e, p ≤ e ∧ e < q ∧ ¬ (P e ↔ P (e + 1)) := by
  induction q, hpq using Nat.le_induction with
  | base => exact absurd Iff.rfl h
  | succ q hq ih =>
      by_cases hs : P p ↔ P q
      · exact ⟨q, hq, Nat.lt_succ_self q, fun hqs => h (hs.trans hqs)⟩
      · obtain ⟨e, h1, h2, h3⟩ := ih hs
        exact ⟨e, h1, by omega, h3⟩

/-- A maximal block has an edge of the cover inside its parent. -/
private theorem exists_edge (hF : Tiling F) (hk : k ∈ F i) :
    ∃ e, e ∈ points (i + 1) (k / 2) ∧ ¬ (e ∈ cover F ↔ e + 1 ∈ cover F) := by
  obtain ⟨hsub, hmax⟩ := hF.mem_iff.mp hk
  obtain ⟨q, hq, hqc⟩ := Set.not_subset.mp hmax
  have hp : k * 2 ^ i ∈ points (i + 1) (k / 2) := by
    rw [points_parent]
    exact Or.inl (first_mem_points i k)
  have hpc : k * 2 ^ i ∈ cover F := hsub (first_mem_points i k)
  rw [mem_points_iff] at hp hq
  rcases Nat.le_total (k * 2 ^ i) q with hle | hle
  · obtain ⟨e, h1, h2, h3⟩ := exists_edge_lt (· ∈ cover F) hle (by tauto)
    exact ⟨e, mem_points_iff.mpr (by omega), h3⟩
  · obtain ⟨e, h1, h2, h3⟩ := exists_edge_lt (· ∈ cover F) hle (by tauto)
    exact ⟨e, mem_points_iff.mpr (by omega), h3⟩

/-- A tiling holds at most as many blocks of one order as its cover has edges. -/
theorem card_le_of_edges (hF : Tiling F) {z : ℕ} (hB : ∀ b ∈ B, b.2 ∈ F b.1 ∧ b.1 < z)
    {E : Finset ℕ} (hE : ∀ e, ¬ (e ∈ cover F ↔ e + 1 ∈ cover F) → e ∈ E) :
    B.card ≤ z * E.card := by
  classical
  have hex : ∀ b ∈ B, ∃ e ∈ E, e ∈ points (b.1 + 1) (b.2 / 2) := by
    intro b hb
    obtain ⟨e, hmem, hedge⟩ := hF.exists_edge (hB b hb).1
    exact ⟨e, hE e hedge, hmem⟩
  choose! edge hedgeE hedge using hex
  calc
    B.card ≤ (Finset.range z ×ˢ E).card := by
      refine Finset.card_le_card_of_injOn (fun b => (b.1, edge b)) ?_ ?_
      · intro b hb
        exact Finset.mem_coe.mpr (Finset.mem_product.mpr
          ⟨Finset.mem_range.mpr (hB b hb).2, hedgeE b hb⟩)
      · rintro ⟨i, k⟩ hb ⟨j, l⟩ hc heq
        simp only [Prod.mk.injEq] at heq
        obtain ⟨rfl, he⟩ := heq
        -- The shared edge lies in both parents, so the two blocks have one parent.
        have hpk := mem_points.mp (hedge _ hb)
        have hpl := mem_points.mp (hedge _ hc)
        rw [he] at hpk
        have hpar : k / 2 = l / 2 := by
          simp only at hpk hpl
          rw [← hpk, ← hpl]
        by_contra hne
        have hsib : sibling k = l := by
          have hkl : k ≠ l := fun h => hne (by rw [h])
          unfold sibling
          split <;> omega
        exact hF.merged i k (hB _ hb).1 (hsib ▸ (hB _ hc).1)
    _ = z * E.card := by rw [Finset.card_product, Finset.card_range]

end Tiling

/-! ## Edges of a set of points -/

/-- At most `n` points `e` are such that just one of `e` and `e + 1` is in `C`. -/
def EdgesLe (C : Set ℕ) (n : ℕ) : Prop :=
  ∃ E : Finset ℕ, E.card ≤ n ∧ ∀ e, ¬ (e ∈ C ↔ e + 1 ∈ C) → e ∈ E

namespace EdgesLe

variable {C D : Set ℕ} {n p q : ℕ}

theorem empty : EdgesLe ∅ 0 := ⟨∅, by simp, by simp⟩

/-- Changing a set only inside an interval adds at most the two ends of it. -/
theorem of_agree (h : EdgesLe C n) (hD : D ⊆ C ∪ Set.Ico p q) (hC : C ⊆ D ∪ Set.Ico p q)
    (hin : (∀ x ∈ Set.Ico p q, x ∈ D) ∨ ∀ x ∈ Set.Ico p q, x ∉ D) : EdgesLe D (n + 2) := by
  obtain ⟨E, hcard, hE⟩ := h
  refine ⟨E ∪ {p - 1, q - 1}, ?_, ?_⟩
  · have h2 : ({p - 1, q - 1} : Finset ℕ).card ≤ 2 := Finset.card_le_two
    have := Finset.card_union_le E {p - 1, q - 1}
    omega
  · intro e he
    have hout : ∀ x, x ∉ Set.Ico p q → (x ∈ D ↔ x ∈ C) := fun x hx =>
      ⟨fun hx' => (hD hx').resolve_right hx, fun hx' => (hC hx').resolve_right hx⟩
    rw [Finset.mem_union, Finset.mem_insert, Finset.mem_singleton]
    by_cases h1 : e ∈ Set.Ico p q <;> by_cases h2 : e + 1 ∈ Set.Ico p q
    · refine absurd ?_ he
      rcases hin with hin | hin
      · exact iff_of_true (hin _ h1) (hin _ h2)
      · exact iff_of_false (hin _ h1) (hin _ h2)
    · rw [Set.mem_Ico] at h1 h2
      exact Or.inr (Or.inr (by omega))
    · rw [Set.mem_Ico] at h1 h2
      exact Or.inr (Or.inl (by omega))
    · rw [hout e h1, hout (e + 1) h2] at he
      exact Or.inl (hE e he)

theorem union_Ico (h : EdgesLe C n) (p q : ℕ) : EdgesLe (C ∪ Set.Ico p q) (n + 2) :=
  h.of_agree subset_rfl (fun _ hx => Or.inl (Or.inl hx)) (Or.inl fun _ hx => Or.inr hx)

theorem sdiff_Ico (h : EdgesLe C n) (p q : ℕ) : EdgesLe (C \ Set.Ico p q) (n + 2) := by
  refine h.of_agree (fun x hx => Or.inl hx.1) (fun x hx => ?_) (Or.inr fun x hx hx' => hx'.2 hx)
  by_cases hp : x ∈ Set.Ico p q
  · exact Or.inr hp
  · exact Or.inl ⟨hx, hp⟩

theorem mono {k : ℕ} (h : EdgesLe C n) (hk : n ≤ k) : EdgesLe C k := by
  obtain ⟨E, hcard, hE⟩ := h
  exact ⟨E, hcard.trans hk, hE⟩

/-- Every point taken out adds at most two edges. -/
theorem sdiff_finset (h : EdgesLe C n) (F : Finset ℕ) : EdgesLe (C \ ↑F) (n + 2 * F.card) := by
  induction F using Finset.induction_on with
  | empty =>
      rw [Finset.coe_empty, Set.sdiff_empty]
      exact h
  | insert p F hp ih =>
      have hset : C \ ↑(insert p F) = (C \ ↑F) \ Set.Ico p (p + 1) := by
        have hpoint : Set.Ico p (p + 1) = {p} := by
          ext x
          rw [Set.mem_Ico, Set.mem_singleton_iff]
          omega
        rw [hpoint, Finset.coe_insert, Set.insert_eq, Set.union_comm, Set.sdiff_sdiff]
      rw [hset, Finset.card_insert_of_notMem hp]
      exact (ih.sdiff_Ico p (p + 1)).mono (by omega)

end EdgesLe

end DyadicBlock

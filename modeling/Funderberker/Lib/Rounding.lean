import Mathlib.Algebra.Order.Floor.Div
import Mathlib.GroupTheory.GroupAction.Ring

/-!
# Rounding to multiples

A number rounded down to a multiple of `a` is the greatest multiple that is not above
it, and rounded up it is the least that is not below it.  The two are adjoint: `x`
rounded up is at most `y` when `x` is at most `y` rounded down, and then both roundings
are multiples from `x` to `y`.

## Main definitions

* `roundDown`, `roundUp` — the two roundings.

## Main results

* `gc_roundUp_roundDown` — the adjunction.
* `exists_dvd_between_iff` — when there is a multiple between two numbers.
-/

namespace Rounding

variable {α : Type*} [Semiring α] [PartialOrder α] {a x y : α}

section Down

variable [FloorDiv α α]

/-- The greatest multiple of `a` that is at most `x`. -/
def roundDown (a x : α) : α := a * (x ⌊/⌋ a)

theorem dvd_roundDown (a x : α) : a ∣ roundDown a x := Dvd.intro _ rfl

theorem roundDown_le (ha : 0 < a) (x : α) : roundDown a x ≤ x := smul_floorDiv_le ha

/-- A multiple is at most a number when it is at most that number rounded down. -/
theorem le_roundDown_iff (ha : 0 < a) (hx : a ∣ x) : x ≤ roundDown a y ↔ x ≤ y := by
  constructor
  · exact fun h => h.trans (roundDown_le ha y)
  · obtain ⟨k, rfl⟩ := hx
    intro h
    exact (gc_floorDiv_mul ha).monotone_l ((le_floorDiv_iff_smul_le ha).mpr h)

/-- There is a multiple from `x` to `y` when rounding `y` down stays above `x`. -/
theorem exists_dvd_between_iff (ha : 0 < a) :
    (∃ b, a ∣ b ∧ x ≤ b ∧ b ≤ y) ↔ x ≤ roundDown a y := by
  constructor
  · rintro ⟨b, hdvd, hlow, hhigh⟩
    exact hlow.trans ((le_roundDown_iff ha hdvd).mpr hhigh)
  · intro h
    exact ⟨roundDown a y, dvd_roundDown a y, h, roundDown_le ha y⟩

end Down

section Up

variable [CeilDiv α α]

/-- The least multiple of `a` that is at least `x`. -/
def roundUp (a x : α) : α := a * (x ⌈/⌉ a)

theorem dvd_roundUp (a x : α) : a ∣ roundUp a x := Dvd.intro _ rfl

theorem le_roundUp (ha : 0 < a) (x : α) : x ≤ roundUp a x := le_smul_ceilDiv ha

end Up

section Both

variable [FloorDiv α α] [CeilDiv α α]

theorem gc_roundUp_roundDown (ha : 0 < a) : GaloisConnection (roundUp a) (roundDown a) :=
  (gc_mul_ceilDiv ha).compose (gc_floorDiv_mul ha)

end Both

/-- Taking the remainder away rounds down. -/
theorem sub_mod_eq_roundDown (a x : ℕ) : x - x % a = roundDown a x :=
  Nat.mul_div_self_eq_mod_sub_self.symm

end Rounding

import Mathlib.Data.List.GetD

/-!
# Bits packed into words

A list of `w`-bit words holds a sequence of bits: bit `i` is bit `i % w` of word
`i / w`.  Beyond the words every bit is clear, so the bits are a total function and
lists of words of one length are equal when their bits are.

## Main definitions

* `bit` — a bit of the sequence.

## Main results

* `bit_set`, `bit_take`, `bit_append_zeros`, `bit_zeros` — how writes and resizes act.
* `eq_of_bit_eq` — the bits determine the words.
-/

namespace PackedBits

variable {w i j n : ℕ} {es fs : List (BitVec w)}

/-- Bit `i` of the sequence. -/
def bit (es : List (BitVec w)) (i : ℕ) : Bool := (es.getD (i / w) 0).getLsbD (i % w)

theorem bit_of_getElem? {e : BitVec w} (h : es[i / w]? = some e) :
    bit es i = e.getLsbD (i % w) := by
  rw [bit, List.getD_eq_getElem?_getD, h, Option.getD_some]

/-- Beyond the words every bit is clear. -/
theorem bit_of_le (h : es.length ≤ i / w) : bit es i = false := by
  rw [bit, List.getD_eq_default _ _ h]
  exact BitVec.getLsbD_zero

/-- Replacing the word of bit `i`. -/
theorem bit_set (h : i / w < es.length) (e : BitVec w) :
    bit (es.set (i / w) e) j = if j / w = i / w then e.getLsbD (j % w) else bit es j := by
  rw [bit, List.getD_eq_getElem?_getD, List.getElem?_set]
  by_cases hj : j / w = i / w
  · rw [if_pos hj.symm, if_pos h, if_pos hj, Option.getD_some]
  · rw [if_neg fun h' => hj h'.symm, if_neg hj, bit, List.getD_eq_getElem?_getD]

theorem bit_take : bit (es.take n) j = (decide (j / w < n) && bit es j) := by
  rw [bit, bit, List.getD_eq_getElem?_getD, List.getD_eq_getElem?_getD, List.getElem?_take]
  by_cases h : j / w < n
  · simp [h]
  · simp [h]

theorem bit_zeros : bit (List.replicate n (0 : BitVec w)) j = false := by
  rw [bit, List.getD_eq_getElem?_getD, List.getElem?_replicate]
  split <;> exact BitVec.getLsbD_zero

theorem bit_append_zeros : bit (es ++ List.replicate n 0) j = bit es j := by
  rcases Nat.lt_or_ge (j / w) es.length with h | h
  · rw [bit, bit, List.getD_append _ _ _ _ h]
  · rw [bit_of_le h, bit, List.getD_append_right _ _ _ _ h, List.getD_eq_getElem?_getD,
      List.getElem?_replicate]
    split <;> exact BitVec.getLsbD_zero

/-- The bits determine the words. -/
theorem eq_of_bit_eq (hlen : es.length = fs.length) (h : ∀ i, bit es i = bit fs i) : es = fs := by
  refine List.ext_getElem hlen fun k hk hk' => ?_
  refine BitVec.eq_of_getLsbD_eq fun b hb => ?_
  have hdiv : (k * w + b) / w = k := by
    rw [Nat.mul_comm, Nat.mul_add_div (by omega), Nat.div_eq_of_lt hb, Nat.add_zero]
  have hmod : (k * w + b) % w = b := by
    rw [Nat.mul_comm, Nat.mul_add_mod, Nat.mod_eq_of_lt hb]
  have hbit := h (k * w + b)
  rw [bit, bit, hdiv, hmod, List.getD_eq_getElem _ _ hk, List.getD_eq_getElem _ _ hk'] at hbit
  exact hbit

end PackedBits

import Funderberker.Lib.Panicking
import Mathlib.Data.Nat.Log
import Mathlib.Data.Set.Card
import Mathlib.Order.CompletePartialOrder
import Mathlib.Tactic.NormNum

/-!
# The machine the kernel runs on

The kernel is built for a 64-bit target.  `usize` values are naturals, and every
arithmetic operation that may leave 64 bits goes through `Usize`, which takes the
overflow mode of the build: a debug build aborts, a release build keeps the low
64 bits.  Aborting is `Panic`, with one constructor for each way the modelled code
can do so.

## Main definitions

* `Panic` — why the kernel stopped.
* `PhysAddr`, `VirtAddr` — addresses, as numbers of bytes.
* `Canonical` — the virtual addresses that are ever translated.
* `Usize.add`, `Usize.sub`, `Usize.mul`, `Usize.pow`, `Usize.rem`, `Usize.div` —
  arithmetic.
* `checkedNextPowerOfTwo` — the standard-library rounding the allocator uses.
-/

namespace Funderberker

open Panicking

/-- Why the kernel stopped. -/
inductive Panic
  /-- A result left 64 bits in a build that checks. -/
  | overflow
  /-- A remainder by zero. -/
  | remByZero
  /-- `ilog2` of zero. -/
  | logOfZero
  /-- An index past the end of a slice. -/
  | indexOutOfBounds
  /-- `unwrap` of `None`. -/
  | unwrapNone
  /-- `unwrap` of `Err`. -/
  | unwrapErr
  /-- `push_to_zone` found the node pool empty. -/
  | poolEmpty
  /-- A failed `assert!`. -/
  | assertion
  /-- A failed `sanity_assert!`, which only debug builds evaluate. -/
  | sanity
  /-- An `unreachable!()` was reached. -/
  | unreachable
  /-- A `panic!` of the program's own, with its message. -/
  | explicit (msg : String)
  /-- `expect` of `None` or `Err`, with its message. -/
  | expect (msg : String)
  deriving DecidableEq, Repr

/-- A physical address. -/
abbrev PhysAddr := ℕ

/-- A virtual address. -/
abbrev VirtAddr := ℕ

/-- The addresses of the two halves of a 48-bit address space. -/
def Canonical (addr : VirtAddr) : Prop := addr < 2 ^ 47 ∨ 2 ^ 64 - 2 ^ 47 ≤ addr ∧ addr < 2 ^ 64

instance (addr : VirtAddr) : Decidable (Canonical addr) :=
  inferInstanceAs (Decidable (_ ∨ _ ∧ _))

/-- The size of a basic page in bytes: 4KB. -/
def BASIC_PAGE_SIZE : ℕ := 0x1000

theorem basicPageSize_pos : 0 < BASIC_PAGE_SIZE := Nat.succ_pos _

/-- The errors of the paging layer. -/
inductive PagingError
  | pageAlreadyPresent
  | pageNotPresent
  | pageFault
  | invalidPageSize
  | invalidPhysicalAddress
  | invalidVirtualAddress
  | invalidFlags
  | outOfMemory
  | badPageCountAndAddressCombination
  deriving DecidableEq, Repr

/-! ## 64-bit arithmetic -/

namespace Usize

variable (m : Overflow) (a b : ℕ)

def add : Except Panic ℕ := ofOption .overflow (m.fit 64 (a + b))
def sub : Except Panic ℕ := ofOption .overflow (m.fitSub 64 a b)
def mul : Except Panic ℕ := ofOption .overflow (m.fit 64 (a * b))
def pow : Except Panic ℕ := ofOption .overflow (m.fit 64 (a ^ b))

/-- `a % b`.  A zero divisor aborts in every build. -/
def rem : Except Panic ℕ := if b = 0 then .error .remByZero else .ok (a % b)

/-- `a / b`.  A zero divisor aborts in every build. -/
def div : Except Panic ℕ :=
  if b = 0 then .error (.explicit "attempt to divide by zero") else .ok (a / b)

/-- The cast `n as u32`. -/
def asU32 (n : ℕ) : ℕ := n % 2 ^ 32

variable {m a b}

theorem add_eq (h : a + b < 2 ^ 64) : add m a b = .ok (a + b) := by
  rw [add, Overflow.fit_of_lt h, ofOption_some]

/-- A result keeps its low bits, or stops a build that checks. -/
theorem fit_spec (m : Overflow) (n : ℕ) : Yields (fun x => x = Panic.overflow ∧ m = .checked)
    (· = n % 2 ^ 64) (ofOption .overflow (m.fit 64 n)) := by
  by_cases h : n < 2 ^ 64
  · rw [Overflow.fit_of_lt h, ofOption_some, yields_ok, Nat.mod_eq_of_lt h]
  · rw [Overflow.fit.eq_def, if_neg h]
    cases m with
    | checked => exact ⟨rfl, rfl⟩
    | wrapping => exact rfl

/-- A result that fits, or that may wrap, is returned. -/
theorem exists_fit {n : ℕ} (h : m = .wrapping ∨ n < 2 ^ 64) :
    ∃ c, (ofOption .overflow (m.fit 64 n) : Except Panic ℕ) = .ok c := by
  by_cases hn : n < 2 ^ 64
  · exact ⟨n, by rw [Overflow.fit_of_lt hn, ofOption_some]⟩
  · obtain rfl := h.resolve_right hn
    exact ⟨n % 2 ^ 64, by rw [Overflow.fit.eq_def, if_neg hn, ofOption_some]⟩

theorem add_spec (m : Overflow) (a b : ℕ) : Yields (fun x => x = Panic.overflow ∧ m = .checked)
    (· = (a + b) % 2 ^ 64) (add m a b) :=
  fit_spec m (a + b)

theorem mul_spec (m : Overflow) (a b : ℕ) : Yields (fun x => x = Panic.overflow ∧ m = .checked)
    (· = a * b % 2 ^ 64) (mul m a b) :=
  fit_spec m (a * b)

theorem mul_lt {c : ℕ} (h : mul m a b = .ok c) : c < 2 ^ 64 := by
  rw [(mul_spec m a b).post h]
  exact Nat.mod_lt _ (Nat.two_pow_pos _)

theorem sub_eq (h : b ≤ a) : sub m a b = .ok (a - b) := by
  rw [sub, Overflow.fitSub_of_le h, ofOption_some]
theorem mul_eq (h : a * b < 2 ^ 64) : mul m a b = .ok (a * b) := by
  rw [mul, Overflow.fit_of_lt h, ofOption_some]
theorem pow_eq (h : a ^ b < 2 ^ 64) : pow m a b = .ok (a ^ b) := by
  rw [pow, Overflow.fit_of_lt h, ofOption_some]
theorem rem_eq (h : b ≠ 0) : rem a b = .ok (a % b) := by simp [rem, h]
theorem div_eq (h : b ≠ 0) : div a b = .ok (a / b) := if_neg h
theorem asU32_eq (h : a < 2 ^ 32) : asU32 a = a := Nat.mod_eq_of_lt h

end Usize

/-! ## Powers of two -/

/-- `usize::checked_next_power_of_two`: the least power of two that is at least `n`,
if it fits. -/
def checkedNextPowerOfTwo (n : ℕ) : Option ℕ :=
  let p := if n ≤ 1 then 1 else 2 ^ (Nat.log2 (n - 1) + 1)
  if p < 2 ^ 64 then some p else none

/-- `usize::is_power_of_two`. -/
def isPowerOfTwo (n : ℕ) : Bool := n ≠ 0 && 2 ^ Nat.log2 n == n

/-- `usize::ilog2`, the rounded-down binary logarithm. -/
def ilog2 (n : ℕ) : Except Panic ℕ := if n = 0 then .error .logOfZero else .ok (Nat.log2 n)

theorem ilog2_eq {n : ℕ} (h : n ≠ 0) : ilog2 n = .ok (Nat.log2 n) := if_neg h

/-- A power of two is its own rounding. -/
theorem checkedNextPowerOfTwo_two_pow {e : ℕ} (h : e < 64) :
    checkedNextPowerOfTwo (2 ^ e) = some (2 ^ e) := by
  have hlt : 2 ^ e < 2 ^ 64 := Nat.pow_lt_pow_right (by omega) h
  rcases Nat.eq_zero_or_pos e with rfl | hpos
  · simp [checkedNextPowerOfTwo]
  · have hone : ¬ 2 ^ e ≤ 1 := by
      have := Nat.one_lt_two_pow (Nat.ne_of_gt hpos)
      omega
    have hlog : Nat.log2 (2 ^ e - 1) + 1 = e := by
      have hne : 2 ^ e - 1 ≠ 0 := by omega
      have hlow : 2 ^ (e - 1) ≤ 2 ^ e - 1 := by
        have hsplit : 2 ^ e = 2 * 2 ^ (e - 1) := by
          rw [← pow_succ', Nat.sub_add_cancel hpos]
        have := Nat.two_pow_pos (e - 1)
        omega
      have hge : e - 1 ≤ Nat.log2 (2 ^ e - 1) := (Nat.le_log2 hne).mpr hlow
      have hlt' : Nat.log2 (2 ^ e - 1) < e := (Nat.log2_lt hne).mpr (by omega)
      omega
    simp only [checkedNextPowerOfTwo, hone, if_false, hlog, hlt, if_true]

/-- The rounding of a number is the least power of two that is not below it. -/
theorem exists_of_checkedNextPowerOfTwo {n p : ℕ} (h : checkedNextPowerOfTwo n = some p) :
    ∃ e, p = 2 ^ e ∧ e < 64 ∧ n ≤ 2 ^ e ∧ ∀ l, n ≤ 2 ^ l → e ≤ l := by
  unfold checkedNextPowerOfTwo at h
  obtain ⟨hlt, rfl⟩ : _ ∧ _ = p := by simpa using h
  by_cases hone : n ≤ 1
  · rw [if_pos hone]
    exact ⟨0, rfl, by omega, by simpa using hone, by omega⟩
  · rw [if_neg hone] at hlt ⊢
    refine ⟨_, rfl, (Nat.pow_lt_pow_iff_right (by omega)).mp hlt, ?_, fun l hl => ?_⟩
    · have := Nat.lt_log2_self (n := n - 1)
      omega
    · have := (Nat.log2_lt (n := n - 1) (k := l) (by omega)).mpr (by omega)
      omega

theorem checkedNextPowerOfTwo_eq {n : ℕ} (h : Nat.clog 2 n < 64) :
    checkedNextPowerOfTwo n = some (2 ^ Nat.clog 2 n) := by
  have hpow : (if n ≤ 1 then 1 else 2 ^ (Nat.log2 (n - 1) + 1)) = 2 ^ Nat.clog 2 n := by
    split
    · rename_i hone
      rw [Nat.clog_of_right_le_one hone, pow_zero]
    · rename_i hone
      have hle : Nat.clog 2 n ≤ Nat.log2 (n - 1) + 1 := by
        apply Nat.clog_le_of_le_pow
        have := Nat.lt_log2_self (n := n - 1)
        omega
      have hge : Nat.log2 (n - 1) < Nat.clog 2 n := by
        have := Nat.le_pow_clog (show 1 < 2 by omega) n
        exact (Nat.log2_lt (by omega)).mpr (by omega)
      rw [le_antisymm hle hge]
  rw [checkedNextPowerOfTwo, hpow, if_pos (Nat.pow_lt_pow_right (by omega) h)]

/-- The order of a count that was rounded up. -/
theorem eq_clog_of_checkedNextPowerOfTwo {n p : ℕ} (h : checkedNextPowerOfTwo n = some p) :
    p = 2 ^ Nat.clog 2 n ∧ Nat.clog 2 n < 64 := by
  obtain ⟨e, rfl, he, hle, hleast⟩ := exists_of_checkedNextPowerOfTwo h
  have hge : Nat.clog 2 n ≤ e := Nat.clog_le_of_le_pow hle
  have hlow : e ≤ Nat.clog 2 n := hleast _ (Nat.le_pow_clog (by omega) n)
  obtain rfl := le_antisymm hlow hge
  exact ⟨rfl, he⟩

/-- Rounding up fails above the largest power of two. -/
theorem checkedNextPowerOfTwo_eq_none_iff {n : ℕ} :
    checkedNextPowerOfTwo n = none ↔ 2 ^ 63 < n := by
  rw [← not_le, ← Nat.clog_le_iff_le_pow (by omega)]
  constructor
  · intro hnone hle
    rw [checkedNextPowerOfTwo_eq (by omega)] at hnone
    cases hnone
  · intro hlt
    cases hnext : checkedNextPowerOfTwo n with
    | none => rfl
    | some p =>
        have := (eq_clog_of_checkedNextPowerOfTwo hnext).2
        omega

theorem exists_of_isPowerOfTwo {n : ℕ} (h : isPowerOfTwo n = true) : ∃ e, n = 2 ^ e := by
  simp only [isPowerOfTwo, Bool.and_eq_true, beq_iff_eq] at h
  exact ⟨_, h.2.symm⟩

theorem isPowerOfTwo_two_pow (e : ℕ) : isPowerOfTwo (2 ^ e) = true := by
  simp [isPowerOfTwo, Nat.log2_two_pow]

/-- Of two powers of two the smaller divides the larger. -/
theorem dvd_of_pow2_le {x y : ℕ} (hx : isPowerOfTwo x = true) (hy : isPowerOfTwo y = true)
    (h : x ≤ y) : x ∣ y := by
  obtain ⟨e, rfl⟩ := exists_of_isPowerOfTwo hx
  obtain ⟨f, rfl⟩ := exists_of_isPowerOfTwo hy
  exact Nat.pow_dvd_pow 2 ((Nat.pow_le_pow_iff_right (by omega)).mp h)

theorem isPowerOfTwo_max {a b : ℕ} (ha : isPowerOfTwo a = true) (hb : isPowerOfTwo b = true) :
    isPowerOfTwo (max a b) = true := by
  rcases Nat.le_total a b with h | h
  · rw [max_eq_right h]
    exact hb
  · rw [max_eq_left h]
    exact ha

end Funderberker

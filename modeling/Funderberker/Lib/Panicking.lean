import Mathlib.Algebra.Order.Ring.Nat
import Mathlib.Data.List.Basic

/-!
# Computations that may panic

A program that may abort is a value of `Except ε α`: it returns, or it aborts with
a reason in `ε`.  This module supplies the rules that proofs about such programs go
through, machine arithmetic in the two overflow modes a compiler offers, the search
through a list by a predicate that may itself abort, and iterators.

`Yields E Q x` says that `x` returns a value satisfying `Q`, or aborts for a reason
that `E` permits.  With `E` constantly false it is total correctness.

## Main definitions

* `Yields` — the outcome predicate, with `yields_bind` as its sequencing rule.
* `Mirrors` — one computation does what another does, with `Mirrors.bind`.
* `Alike` — results that are errors, or values that correspond.
* `Overflow`, `Overflow.fit`, `Overflow.fitSub` — a result that may not fit a word.
* `findEnum` — the first element a predicate accepts, with its position.
* `Drains` — what an iterator yields until it is exhausted; `collect` and `iterEq` are
  the loops that exhaust one.
-/

namespace Panicking

variable {ε α β : Type}

/-! ## Outcomes -/

/-- `x` returns a value satisfying `Q`, or aborts for a reason that `E` permits. -/
def Yields (E : ε → Prop) (Q : α → Prop) : Except ε α → Prop
  | .ok a => Q a
  | .error e => E e

variable {E E' : ε → Prop} {Q Q' : α → Prop} {R : β → Prop}

@[simp] theorem yields_ok (a : α) : Yields E Q (.ok a) ↔ Q a := Iff.rfl
@[simp] theorem yields_error (e : ε) : Yields E Q (.error e : Except ε α) ↔ E e := Iff.rfl

/-- Sequencing: what follows must yield from every value the first part returns. -/
theorem yields_bind (x : Except ε α) (f : α → Except ε β) :
    Yields E R (x >>= f) ↔ Yields E (fun a => Yields E R (f a)) x := by
  cases x <;> rfl

/-- Nothing is asked of the result. -/
theorem yields_any (x : Except ε α) : Yields (fun _ => True) (fun _ => True) x := by
  cases x <;> trivial

theorem Yields.mono {x : Except ε α} (h : Yields E Q x) (hE : ∀ e, E e → E' e)
    (hQ : ∀ a, Q a → Q' a) : Yields E' Q' x := by
  cases x with
  | ok a => exact hQ a h
  | error e => exact hE e h

theorem Yields.imp {x : Except ε α} (h : Yields E Q x) (hQ : ∀ a, Q a → Q' a) :
    Yields E Q' x :=
  h.mono (fun _ => id) hQ

theorem Yields.allow {x : Except ε α} (h : Yields E Q x) (hE : ∀ e, E e → E' e) :
    Yields E' Q x :=
  h.mono hE fun _ => id

theorem Yields.bind {x : Except ε α} {f : α → Except ε β} (h : Yields E Q x)
    (hf : ∀ a, Q a → Yields E R (f a)) : Yields E R (x >>= f) := by
  rw [yields_bind]
  exact h.imp hf

/-- What a computation that did return satisfies. -/
theorem Yields.post {x : Except ε α} (h : Yields E Q x) {a : α} (hx : x = .ok a) : Q a := by
  subst hx
  exact h

/-- The value that is yielded is the one that was returned. -/
theorem Yields.returned {x : Except ε α} (h : Yields E Q x) :
    Yields E (fun a => x = .ok a ∧ Q a) x := by
  cases x with
  | ok a => exact ⟨rfl, h⟩
  | error e => exact h

/-- Why a computation that aborted did so. -/
theorem Yields.reason {x : Except ε α} (h : Yields E Q x) {e : ε} (hx : x = .error e) : E e := by
  subst hx
  exact h

theorem Yields.exists_ok {x : Except ε α} (h : Yields E Q x) (hE : ∀ e, ¬ E e) :
    ∃ a, x = .ok a ∧ Q a := by
  cases x with
  | ok a => exact ⟨a, rfl, h⟩
  | error e => exact absurd h (hE e)

/-- A loop over a list, with an invariant of what it has passed. -/
theorem Yields.foldlM {f : β → α → Except ε β} {P : List α → β → Prop} {l : List α} {b : β}
    (h : P [] b) (hstep : ∀ passed a left b, l = passed ++ a :: left → P passed b →
      Yields E (P (passed ++ [a])) (f b a)) : Yields E (P l) (l.foldlM f b) := by
  suffices ∀ left passed b, l = passed ++ left → P passed b → Yields E (P l) (left.foldlM f b) from
    this l [] b rfl h
  intro left
  induction left with
  | nil =>
      rintro passed b rfl hp
      rw [List.append_nil]
      exact hp
  | cons a left ih =>
      intro passed b hl hp
      rw [List.foldlM_cons]
      refine (hstep passed a left b hl hp).bind fun b' hp' => ih _ b' ?_ hp'
      rw [hl, List.append_cons]

@[simp] theorem ok_bind (a : α) (f : α → Except ε β) : (Except.ok a >>= f) = f a := rfl
@[simp] theorem error_bind (e : ε) (f : α → Except ε β) :
    ((Except.error e : Except ε α) >>= f) = .error e := rfl

theorem bind_eq_ok {x : Except ε α} {f : α → Except ε β} {b : β} :
    (x >>= f) = .ok b ↔ ∃ a, x = .ok a ∧ f a = .ok b := by
  cases x <;> simp

/-- The state that a computation leaves, or `b` if it aborted. -/
def stateAfter (b : β) : Except ε (α × β) → β
  | .ok (_, b') => b'
  | .error _ => b

theorem eq_ok_stateAfter {x : Except ε (α × β)} {a : α} (b : β) (h : x.map Prod.fst = .ok a) :
    x = .ok (a, stateAfter b x) := by
  cases x with
  | error e => cases h
  | ok x =>
      obtain rfl : x.1 = a := Except.ok.inj h
      rfl

/-- A missing value aborts. -/
def ofOption (e : ε) : Option α → Except ε α
  | some a => .ok a
  | none => .error e

@[simp] theorem ofOption_some (e : ε) (a : α) : ofOption e (some a) = .ok a := rfl
@[simp] theorem ofOption_none (e : ε) : ofOption e (none : Option α) = .error e := rfl

/-! ## Computations that mirror others -/

/-- `y` does what `x` does: what it returns corresponds to what `x` returns, and it aborts when `x`
does, or for a reason that `E` permits. -/
def Mirrors (E : ε → Prop) (R : α → β → Prop) (x : Except ε α) (y : Except ε β) : Prop :=
  Yields (fun e => E e ∨ x = .error e) (fun b => ∃ a, x = .ok a ∧ R a b) y

/-- Two results are alike: both values, which correspond, or the same error. -/
inductive Alike (R : α → β → Prop) : Except ε α → Except ε β → Prop
  | ok {a : α} {b : β} (h : R a b) : Alike R (.ok a) (.ok b)
  | error (e : ε) : Alike R (.error e) (.error e)

section Mirrors

variable {γ δ : Type} {S S' : α → β → Prop} {U : γ → δ → Prop} {x : Except ε α} {y : Except ε β}
  {f : α → Except ε γ} {g : β → Except ε δ}

theorem mirrors_ok {a : α} {b : β} (h : S a b) : Mirrors E S (.ok a) (.ok b) := ⟨a, rfl, h⟩

theorem mirrors_self (x : Except ε α) : Mirrors E Eq x x := by
  cases x with
  | ok a => exact mirrors_ok rfl
  | error e => exact Or.inr rfl

theorem Mirrors.imp (h : Mirrors E S x y) (hS : ∀ a b, S a b → S' a b) : Mirrors E S' x y :=
  Yields.imp h fun b ⟨a, ha, hab⟩ => ⟨a, ha, hS a b hab⟩

/-- Both go on. -/
theorem Mirrors.bind (h : Mirrors E S x y) (hfg : ∀ a b, S a b → Mirrors E U (f a) (g b)) :
    Mirrors E U (x >>= f) (y >>= g) := by
  cases y with
  | ok b =>
      obtain ⟨a, rfl, hab⟩ := h
      exact hfg a b hab
  | error e => exact h.imp_right fun hx => by rw [hx, error_bind]

theorem Alike.imp {x : Except ε α} {y : Except ε β} (h : Alike S x y) (hS : ∀ a b, S a b → S' a b) :
    Alike S' x y := by
  cases h with
  | ok h => exact .ok (hS _ _ h)
  | error e => exact .error e

/-- A step that only one of them makes. -/
theorem Yields.mirrors {x : Except ε γ} (h : Yields E R y)
    (hg : ∀ b, R b → Mirrors E U x (g b)) : Mirrors E U x (y >>= g) := by
  cases y with
  | ok b => exact hg b h
  | error e => exact Or.inl h

end Mirrors

/-! ## Machine arithmetic -/

/-- What a build does with a result that does not fit its type: abort, or keep the
low bits. -/
inductive Overflow
  | checked
  | wrapping
  deriving DecidableEq, Repr

namespace Overflow

/-- A sum, product or power of unsigned numbers, to be stored in `bits` bits. -/
def fit (m : Overflow) (bits n : ℕ) : Option ℕ :=
  if n < 2 ^ bits then some n
  else match m with
    | checked => none
    | wrapping => some (n % 2 ^ bits)

/-- A difference of unsigned numbers, to be stored in `bits` bits. -/
def fitSub (m : Overflow) (bits a b : ℕ) : Option ℕ :=
  if b ≤ a then some (a - b)
  else match m with
    | checked => none
    | wrapping => some ((a + 2 ^ bits - b) % 2 ^ bits)

variable {m : Overflow} {bits n a b : ℕ}

@[simp] theorem fit_of_lt (h : n < 2 ^ bits) : m.fit bits n = some n := by
  simp [fit, h]

@[simp] theorem fitSub_of_le (h : b ≤ a) : m.fitSub bits a b = some (a - b) := by
  simp [fitSub, h]

end Overflow

/-! ## Searching a list -/

/-- The first element of `l` that `p` accepts, with its position counted from
`start`.  Later elements are not tested. -/
def findEnum (p : α → Except ε Bool) : ℕ → List α → Except ε (Option (ℕ × α))
  | _, [] => .ok none
  | start, a :: l =>
      p a >>= fun
        | true => .ok (some (start, a))
        | false => findEnum p (start + 1) l

/-- With a test that never aborts, the search returns the first accepted element,
or `none` when every element is rejected. -/
theorem findEnum_spec {p : α → Except ε Bool} {q : α → Prop} [DecidablePred q]
    (l : List α) (start : ℕ) (hp : ∀ a ∈ l, p a = .ok (decide (q a))) :
    (findEnum p start l = .ok none ∧ ∀ a ∈ l, ¬ q a) ∨
      ∃ k a, findEnum p start l = .ok (some (start + k, a)) ∧ l[k]? = some a ∧ q a := by
  induction l generalizing start with
  | nil => exact Or.inl ⟨rfl, by simp⟩
  | cons a l ih =>
      have ha := hp a List.mem_cons_self
      by_cases hq : q a
      · refine Or.inr ⟨0, a, ?_, rfl, hq⟩
        simp [findEnum, ha, hq]
      · have hstep : findEnum p start (a :: l) = findEnum p (start + 1) l := by
          simp [findEnum, ha, hq]
        rw [hstep]
        rcases ih (start + 1) (fun b hb => hp b (List.mem_cons_of_mem a hb)) with
          ⟨hn, hall⟩ | ⟨k, b, hs, hk, hb⟩
        · exact Or.inl ⟨hn, by simpa [hq] using hall⟩
        · refine Or.inr ⟨k + 1, b, ?_, by simpa using hk, hb⟩
          rw [hs, show start + 1 + k = start + (k + 1) by omega]

/-- The element that is found is the first accepted one. -/
theorem find?_of_findEnum {p : α → Except ε Bool} {q : α → Prop} [DecidablePred q] {l : List α}
    {start : ℕ} {r : Option (ℕ × α)} (hp : ∀ a ∈ l, p a = .ok (decide (q a)))
    (h : findEnum p start l = .ok r) : l.find? (fun a => decide (q a)) = r.map Prod.snd := by
  induction l generalizing start with
  | nil =>
      cases h
      rfl
  | cons a l ih =>
      rw [findEnum, hp a List.mem_cons_self, ok_bind] at h
      by_cases hq : q a
      · simp only [hq, decide_true] at h
        cases h
        simp [hq]
      · simp only [hq, decide_false] at h
        rw [List.find?_cons_of_neg (by simpa using hq)]
        exact ih (fun b hb => hp b (List.mem_cons_of_mem a hb)) h

/-- What was found is in the list, and accepted. -/
theorem of_findEnum_eq_some {p : α → Except ε Bool} {l : List α} {start i : ℕ} {a : α}
    (h : findEnum p start l = .ok (some (i, a))) :
    ∃ k, i = start + k ∧ l[k]? = some a ∧ p a = .ok true := by
  induction l generalizing start with
  | nil => cases h
  | cons b l ih =>
      rw [findEnum] at h
      obtain ⟨found, hp, h⟩ := bind_eq_ok.mp h
      cases found with
      | true =>
          obtain ⟨rfl, rfl⟩ := Prod.mk.inj (Option.some.inj (Except.ok.inj h))
          exact ⟨0, rfl, rfl, hp⟩
      | false =>
          obtain ⟨k, rfl, hk, ha⟩ := ih h
          exact ⟨k + 1, by omega, hk, ha⟩

/-- Searching an image. -/
theorem findEnum_map {p : β → Except ε Bool} (f : α → β) (l : List α) (start : ℕ) :
    findEnum p start (l.map f) =
      (findEnum (fun a => p (f a)) start l).map (Option.map (Prod.map id f)) := by
  induction l generalizing start with
  | nil => rfl
  | cons a l ih =>
      rw [List.map_cons, findEnum, findEnum]
      cases p (f a) with
      | error e => rfl
      | ok found =>
          cases found with
          | true => rfl
          | false => exact ih (start + 1)

/-! ## Iterators -/

section Drains

variable {σ : Type} (next : σ → Except ε (Option α × σ)) (P : σ → ℕ → Prop)

/-- From `s` on, the iterator yields exactly `l` and is then exhausted; each state on
the way satisfies `P` with the number of elements that are left. -/
def Drains : σ → List α → Prop
  | s, [] => P s 0 ∧ ∃ s', next s = .ok (none, s')
  | s, a :: l => P s (l.length + 1) ∧ ∃ s', next s = .ok (some a, s') ∧ Drains s' l

variable {next P}

/-- An invariant between the iterator and what is left, kept by each step. -/
theorem drains_of_invariant {R : σ → List α → Prop} (hP : ∀ s l, R s l → P s l.length)
    (hnil : ∀ s, R s [] → ∃ s', next s = .ok (none, s'))
    (hcons : ∀ s a l, R s (a :: l) → ∃ s', next s = .ok (some a, s') ∧ R s' l) :
    ∀ l s, R s l → Drains next P s l := by
  intro l
  induction l with
  | nil => exact fun s h => ⟨hP s [] h, hnil s h⟩
  | cons a l ih =>
      intro s h
      obtain ⟨s', hnext, hR⟩ := hcons s a l h
      exact ⟨hP s _ h, s', hnext, ih s' hR⟩

/-- All that an iterator yields in fewer than `fuel` steps; `e` if it has not ended. -/
def collect (e : ε) (next : σ → Except ε (Option α × σ)) : ℕ → σ → Except ε (List α)
  | 0, _ => .error e
  | fuel + 1, s => do
      match ← next s with
      | (none, _) => .ok []
      | (some a, s) => do
          let l ← collect e next fuel s
          .ok (a :: l)

theorem Drains.collect_eq {e : ε} {s : σ} {l : List α} (h : Drains next P s l) {fuel : ℕ}
    (hfuel : l.length < fuel) : collect e next fuel s = .ok l := by
  induction l generalizing s fuel with
  | nil =>
      obtain ⟨-, s', hnext⟩ := h
      obtain ⟨fuel, rfl⟩ := Nat.exists_eq_add_one_of_ne_zero (Nat.ne_of_gt hfuel)
      rw [collect, hnext, ok_bind]
  | cons a l ih =>
      obtain ⟨-, s', hnext, h⟩ := h
      obtain ⟨fuel, rfl⟩ := Nat.exists_eq_add_one_of_ne_zero (Nat.ne_of_gt (Nat.zero_lt_of_lt hfuel))
      rw [collect, hnext, ok_bind]
      dsimp only
      rw [ih h (Nat.lt_of_succ_lt_succ hfuel), ok_bind]

/-- `Iterator::eq`: step two iterators together and compare what they yield. -/
def iterEq [BEq α] (e : ε) (next : σ → Except ε (Option α × σ)) : ℕ → σ → σ → Except ε Bool
  | 0, _, _ => .error e
  | fuel + 1, s, t => do
      match ← next s with
      | (none, _) => do
          let (b, _) ← next t
          .ok b.isNone
      | (some a, s) => do
          match ← next t with
          | (none, _) => .ok false
          | (some b, t) => if a == b then iterEq e next fuel s t else .ok false

theorem Drains.iterEq_eq [BEq α] {e : ε} {s t : σ} {l l' : List α} (h : Drains next P s l)
    (h' : Drains next P t l') {fuel : ℕ} (hfuel : l.length < fuel) :
    iterEq e next fuel s t = .ok (l == l') := by
  induction l generalizing s t l' fuel with
  | nil =>
      obtain ⟨-, s', hnext⟩ := h
      obtain ⟨fuel, rfl⟩ := Nat.exists_eq_add_one_of_ne_zero (Nat.ne_of_gt hfuel)
      rw [iterEq, hnext, ok_bind]
      cases l' with
      | nil =>
          obtain ⟨-, t', hnext'⟩ := h'
          simp [hnext']
      | cons b l' =>
          obtain ⟨-, t', hnext', -⟩ := h'
          simp [hnext']
  | cons a l ih =>
      obtain ⟨-, s', hnext, h⟩ := h
      obtain ⟨fuel, rfl⟩ := Nat.exists_eq_add_one_of_ne_zero (Nat.ne_of_gt (Nat.zero_lt_of_lt hfuel))
      rw [iterEq, hnext, ok_bind]
      cases l' with
      | nil =>
          obtain ⟨-, t', hnext'⟩ := h'
          simp [hnext']
      | cons b l' =>
          obtain ⟨-, t', hnext', h'⟩ := h'
          have hrest := ih h h' (Nat.lt_of_succ_lt_succ hfuel)
          cases hab : a == b <;> simp [hnext', hab, hrest]

end Drains

end Panicking

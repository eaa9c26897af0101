/-
# Theory.PartialSum -- a sum that must not pass through zero

Elements are added one by one to a value that is not zero, and where a sum would be zero the
whole is given up.  So the outcome is the total, or nothing: it is the total exactly when no
partial sum is zero (`Unbroken`).  The total does not depend on the order of the elements, and
the partial sums do.
-/
import Mathlib.Algebra.BigOperators.Group.List.Basic

namespace ComputerMoney.Theory.PartialSum

set_option autoImplicit false

variable {M : Type} [AddCommMonoid M]

abbrev Nonzero (M : Type) [Zero M] := { x : M // x ≠ 0 }

/-- No sum of `a` and the first few elements is zero. -/
def Unbroken (a : M) (xs : List M) : Prop := ∀ part, part <+: xs → part ≠ [] → a + part.sum ≠ 0

theorem unbroken_nil (a : M) : Unbroken a [] := fun _ among some_ =>
  absurd (List.prefix_nil.1 among) some_

/-- The first sum is not zero, and from there on none is. -/
theorem unbroken_cons {a x : M} {xs : List M} :
    Unbroken a (x :: xs) ↔ a + x ≠ 0 ∧ Unbroken (a + x) xs := by
  constructor
  · intro unbroken
    constructor
    · have first := unbroken [x] (by simp) (by simp)
      rwa [List.sum_singleton] at first
    · intro part among _
      have longer := unbroken (x :: part) (List.cons_prefix_cons.2 ⟨rfl, among⟩) (by simp)
      rwa [List.sum_cons, ← add_assoc] at longer
  · intro ⟨first, rest⟩ part among some_
    obtain rfl | ⟨part', rfl, among'⟩ := List.prefix_cons_iff.1 among
    · exact absurd rfl some_
    rw [List.sum_cons, ← add_assoc]
    by_cases last : part' = []
    · rwa [last, List.sum_nil, add_zero]
    · exact rest part' among' last

/-- An additive map under which only zero is zero breaks no sum and mends none. -/
theorem unbroken_map {N : Type} [AddCommMonoid N] {f : M → N}
    (adds : ∀ x y, f (x + y) = f x + f y) (faithful : ∀ x, f x = 0 ↔ x = 0) {a : M} {xs : List M} :
    Unbroken (f a) (xs.map f) ↔ Unbroken a xs := by
  induction xs generalizing a with
  | nil => exact ⟨fun _ => unbroken_nil a, fun _ => unbroken_nil (f a)⟩
  | cons x xs ih => rw [List.map_cons, unbroken_cons, unbroken_cons, ← adds, ih, ne_eq, faithful]

variable [DecidableEq M]

instance decidableUnbroken (a : M) : (xs : List M) → Decidable (Unbroken a xs)
  | [] => isTrue (unbroken_nil a)
  | x :: xs =>
      have := decidableUnbroken (a + x) xs
      decidable_of_iff _ unbroken_cons.symm

/-! ## The sum as it is computed -/

def add? (a : Nonzero M) (x : M) : Option (Nonzero M) :=
  if nonzero : a.1 + x ≠ 0 then some ⟨a.1 + x, nonzero⟩ else none

def sumFrom : Nonzero M → List M → Option (Nonzero M)
  | a, [] => some a
  | a, x :: xs => (add? a x).bind fun sum => sumFrom sum xs

theorem sumFrom_unbroken {a : Nonzero M} {xs : List M} (unbroken : Unbroken a.1 xs) :
    ∃ total, sumFrom a xs = some total ∧ total.1 = a.1 + xs.sum := by
  induction xs generalizing a with
  | nil => exact ⟨a, rfl, by simp⟩
  | cons x xs ih =>
      obtain ⟨nonzero, rest⟩ := unbroken_cons.1 unbroken
      have first : add? a x = some ⟨a.1 + x, nonzero⟩ := dif_pos nonzero
      obtain ⟨total, sums, is⟩ := ih (a := ⟨a.1 + x, nonzero⟩) rest
      refine ⟨total, by rw [sumFrom, first]; exact sums, ?_⟩
      rw [is, List.sum_cons, add_assoc]

theorem sumFrom_broken {a : Nonzero M} {xs : List M} (broken : ¬ Unbroken a.1 xs) :
    sumFrom a xs = none := by
  induction xs generalizing a with
  | nil => exact absurd (unbroken_nil a.1) broken
  | cons x xs ih =>
      by_cases nonzero : a.1 + x ≠ 0
      · have first : add? a x = some ⟨a.1 + x, nonzero⟩ := dif_pos nonzero
        rw [sumFrom, first]
        exact ih fun rest => broken (unbroken_cons.2 ⟨nonzero, rest⟩)
      · rw [sumFrom, add?, dif_neg nonzero]
        rfl

/-- The first element and the others. -/
def sum? : List (Nonzero M) → Option (Nonzero M)
  | [] => none
  | a :: rest => sumFrom a (rest.map Subtype.val)

/-- **A sum that is not zero is computed exactly when no partial sum is zero.** -/
theorem sum?_eq {xs : List (Nonzero M)} (nonzero : (xs.map Subtype.val).sum ≠ 0) :
    sum? xs = if Unbroken 0 (xs.map Subtype.val) then some ⟨_, nonzero⟩ else none := by
  match xs with
  | [] => exact absurd rfl nonzero
  | a :: rest =>
      have whole :
          Unbroken 0 ((a :: rest).map Subtype.val) ↔ Unbroken a.1 (rest.map Subtype.val) := by
        rw [List.map_cons, unbroken_cons, zero_add]
        exact and_iff_right a.2
      split
      · rename_i unbroken
        obtain ⟨total, sums, is⟩ := sumFrom_unbroken (whole.1 unbroken)
        rw [sum?, sums]
        exact congrArg some (Subtype.ext (is.trans List.sum_cons.symm))
      · rename_i broken
        exact sumFrom_broken (mt whole.2 broken)

/-- What is computed is not zero, and no partial sum was. -/
theorem sum?_some {xs : List (Nonzero M)} {total : Nonzero M} (is : sum? xs = some total) :
    (xs.map Subtype.val).sum ≠ 0 ∧ Unbroken 0 (xs.map Subtype.val) := by
  cases xs with
  | nil => cases is
  | cons a rest =>
      have unbroken : Unbroken a.1 (rest.map Subtype.val) := by
        by_contra broken
        rw [sum?, sumFrom_broken broken] at is
        cases is
      obtain ⟨total', sums, value⟩ := sumFrom_unbroken unbroken
      obtain rfl : total' = total := Option.some.inj (sums.symm.trans is)
      rw [List.map_cons, List.sum_cons, ← value, unbroken_cons, zero_add]
      exact ⟨total'.2, a.2, unbroken⟩

/-- Both orders of one list give one outcome exactly when both or neither is unbroken; and
so does whatever is made of the outcome, unless nothing is made of the total either. -/
theorem sum?_perm {α : Type} {xs ys : List (Nonzero M)} (perm : ys.Perm xs)
    (nonzero : (xs.map Subtype.val).sum ≠ 0) (make : Nonzero M → α) (otherwise : α) :
    (sum? ys).elim otherwise make = (sum? xs).elim otherwise make ↔
      (Unbroken 0 (ys.map Subtype.val) ↔ Unbroken 0 (xs.map Subtype.val)) ∨
        make ⟨_, nonzero⟩ = otherwise := by
  have totals : (ys.map Subtype.val).sum = (xs.map Subtype.val).sum := (perm.map _).sum_eq
  have nonzero' : (ys.map Subtype.val).sum ≠ 0 := totals ▸ nonzero
  have same : (⟨_, nonzero'⟩ : Nonzero M) = ⟨_, nonzero⟩ := Subtype.ext totals
  rw [sum?_eq nonzero, sum?_eq nonzero', same]
  by_cases left : Unbroken 0 (ys.map Subtype.val) <;>
    by_cases right : Unbroken 0 (xs.map Subtype.val)
  · rw [if_pos left, if_pos right]
    exact iff_of_true rfl (.inl (iff_of_true left right))
  · rw [if_pos left, if_neg right]
    exact ⟨.inr, fun either => either.resolve_left fun both => right (both.1 left)⟩
  · rw [if_neg left, if_pos right]
    exact ⟨fun same => .inr same.symm,
      fun either => (either.resolve_left fun both => left (both.2 right)).symm⟩
  · rw [if_neg left, if_neg right]
    exact iff_of_true rfl (.inl (iff_of_false left right))

end ComputerMoney.Theory.PartialSum

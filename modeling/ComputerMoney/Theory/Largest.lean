/-
# Theory.Largest -- the largest elements outweigh any others

Elements weigh something in an ordered monoid.  In a list sorted by falling weight the first
`k` outweigh any `k` of its elements (`weight_le_take`).  So where more weight is never worse
(`Upward`), whatever some choice of elements achieves, the first as many achieve
(`enough_take`): to look for a choice it is enough to look at the prefixes, and the shortest
prefix that is enough is as short as any choice (`Shortest.least`).
-/
import Mathlib.Algebra.Order.BigOperators.Group.List
import Mathlib.Data.List.Perm.Subperm

namespace ComputerMoney.Theory.Largest

set_option autoImplicit false

section Falling

variable {α M : Type} [PartialOrder M] {v : α → M}

/-- The heaviest first. -/
def Falling (v : α → M) (xs : List α) : Prop := xs.Pairwise fun x y => v y ≤ v x

/-- The elements of a part of the list weigh, one by one, no more than the first ones. -/
theorem forall₂_take {xs : List α} (falling : Falling v xs) {part : List α}
    (sub : part.Sublist xs) :
    List.Forall₂ (· ≤ ·) (part.map v) ((xs.take part.length).map v) := by
  induction xs generalizing part with
  | nil =>
      obtain rfl := List.sublist_nil.1 sub
      simp
  | cons x xs ih =>
      obtain ⟨below, rest⟩ := List.pairwise_cons.1 falling
      cases part with
      | nil => simp
      | cons y part =>
          have head : v y ≤ v x := by
            rcases List.mem_cons.1 (sub.subset (List.mem_cons_self ..)) with rfl | later
            · exact le_refl _
            · exact below y later
          have tail : part.Sublist xs := by simpa using sub.tail
          exact .cons head (ih rest tail)

end Falling

variable {α M : Type} [AddCommMonoid M] {v : α → M}

/-- What these elements weigh together. -/
def weight (v : α → M) (xs : List α) : M := (xs.map v).sum

@[simp] theorem weight_nil : weight v [] = 0 := rfl

@[simp] theorem weight_cons (x : α) (xs : List α) : weight v (x :: xs) = v x + weight v xs := by
  simp [weight]

@[simp] theorem weight_append (xs ys : List α) :
    weight v (xs ++ ys) = weight v xs + weight v ys := by
  simp [weight]

theorem weight_perm {xs ys : List α} (same : xs.Perm ys) : weight v xs = weight v ys :=
  (same.map v).sum_eq

section Enough

variable [PartialOrder M]

-- What makes a choice of so many elements, of that weight, enough.
variable {enough : ℕ → M → Prop}

/-- More weight is never worse. -/
def Upward (enough : ℕ → M → Prop) : Prop := ∀ k a b, a ≤ b → enough k a → enough k b

/-- A choice that is enough. -/
def Suffices (v : α → M) (enough : ℕ → M → Prop) (xs : List α) : Prop :=
  enough xs.length (weight v xs)

/-- The shortest prefix that is enough, if one is. -/
def Shortest (v : α → M) (enough : ℕ → M → Prop) (xs : List α) : Option (List α) → Prop
  | none => ∀ k ≤ xs.length, ¬ Suffices v enough (xs.take k)
  | some front => Suffices v enough front ∧ front = xs.take front.length ∧
      ∀ k < front.length, ¬ Suffices v enough (xs.take k)

/-- The prefix and the rest make up the list, and the rest is no heavier. -/
theorem Shortest.largest {xs front : List α} (falling : Falling v xs)
    (shortest : Shortest v enough xs (some front)) :
    ∃ rest, xs = front ++ rest ∧ ∀ x ∈ front, ∀ y ∈ rest, v y ≤ v x := by
  have splits : xs = front ++ xs.drop front.length := by
    conv_lhs => rw [← List.take_append_drop front.length xs, ← shortest.2.1]
  refine ⟨_, splits, ?_⟩
  rw [Falling, splits] at falling
  exact (List.pairwise_append.1 falling).2.2

variable [IsOrderedAddMonoid M]

/-- **The first elements outweigh any others, as many.** -/
theorem weight_le_take {xs : List α} (falling : Falling v xs) {part : List α}
    (sub : part.Subperm xs) : weight v part ≤ weight v (xs.take part.length) := by
  obtain ⟨part', same, sub'⟩ := sub
  rw [← weight_perm same, ← same.length_eq]
  exact (forall₂_take falling sub').sum_le_sum

/-- If some choice is enough, so are the first as many. -/
theorem enough_take {xs : List α} (falling : Falling v xs) (upward : Upward enough)
    {part : List α} (sub : part.Subperm xs) (suffices_ : Suffices v enough part) :
    Suffices v enough (xs.take part.length) := by
  have long : (xs.take part.length).length = part.length := by
    rw [List.length_take, Nat.min_eq_left sub.length_le]
  rw [Suffices, long]
  exact upward _ _ _ (weight_le_take falling sub) suffices_

/-- **Some choice is enough exactly when a prefix is.** -/
theorem Shortest.isSome_iff {xs : List α} {choice : Option (List α)} (falling : Falling v xs)
    (upward : Upward enough) (shortest : Shortest v enough xs choice) :
    choice.isSome ↔ ∃ part, part.Subperm xs ∧ Suffices v enough part := by
  cases choice with
  | none =>
      refine iff_of_false (by simp) ?_
      intro ⟨part, sub, suffices_⟩
      exact shortest _ sub.length_le (enough_take falling upward sub suffices_)
  | some front =>
      obtain ⟨suffices_, is, -⟩ := shortest
      refine iff_of_true rfl ⟨front, ?_, suffices_⟩
      rw [is]
      exact (List.take_sublist _ _).subperm

/-- **No choice that is enough is shorter.** -/
theorem Shortest.least {xs front : List α} (falling : Falling v xs) (upward : Upward enough)
    (shortest : Shortest v enough xs (some front)) {part : List α} (sub : part.Subperm xs)
    (suffices_ : Suffices v enough part) : front.length ≤ part.length := by
  by_contra shorter
  exact shortest.2.2 _ (by omega) (enough_take falling upward sub suffices_)

end Enough

end ComputerMoney.Theory.Largest

/-
# Theory.Vouched -- what a program does with what it is told

Some of what a program does is no better than its sources: it writes down what a server
answered.  `Vouched told does p` says that as long as the answers to `p` are `told`, its calls
are `does`.  It is `Within` with a premise about the answers, so it is compositional in the
same way and asks for no world.

What no vouched call breaks holds, if the answers there are told, where the program ends
(`Vouched.keeps`) and in every world that an interleaving of such programs reaches
(`Pool.vouched`).
-/
import ComputerMoney.Theory.Parties

namespace ComputerMoney.Theory

set_option autoImplicit false

variable {S : Signature} {W ε α β : Type} {told : (op : S.Op) → S.Ans op → Prop}
  {does : S.Op → Prop}

namespace Program

/-- Told only such answers, the program makes only such calls. -/
def Vouched (told : (op : S.Op) → S.Ans op → Prop) (does : S.Op → Prop) : Program S ε α → Prop
  | .pure _ | .throw _ => True
  | .call op next => does op ∧ ∀ answer, told op answer → (next answer).Vouched told does

/-- Whatever it is told, then. -/
theorem Within.vouched {p : Program S ε α} (body : p.Within does) : p.Vouched told does := by
  induction p with
  | pure value => trivial
  | throw error => trivial
  | call op next ih => exact ⟨body.1, fun answer _ => ih answer (body.2 answer)⟩

theorem vouched_bind {p : Program S ε α} {f : α → Program S ε β} (first : p.Vouched told does)
    (rest : ∀ value, (f value).Vouched told does) : (p >>= f).Vouched told does := by
  induction p with
  | pure value => exact rest value
  | throw error => trivial
  | call op next ih =>
      exact ⟨first.1, fun answer heard => ih answer (first.2 answer heard)⟩

theorem vouched_attempt {p : Program S ε α} (body : p.Vouched told does) :
    p.attempt.Vouched told does := by
  induction p with
  | pure value => trivial
  | throw error => trivial
  | call op next ih => exact ⟨body.1, fun answer heard => ih answer (body.2 answer heard)⟩

theorem vouched_forEach {body : β → Program S ε Unit} {xs : List β}
    (each : ∀ x ∈ xs, (body x).Vouched told does) : (forEach xs body).Vouched told does := by
  induction xs with
  | nil => trivial
  | cons x xs ih =>
      exact vouched_bind (each x (List.mem_cons_self ..)) fun _ =>
        ih fun y member => each y (List.mem_cons_of_mem _ member)

/-- What no vouched call breaks holds where the program ends. -/
theorem Vouched.keeps {I : Interp S W} {inv : W → Prop} {p : Program S ε α} {w : W} (start : inv w)
    (body : p.Vouched told does)
    (heard : ∀ w op answer, inv w → I.allowed w op answer → told op answer)
    (keeps : ∀ w op answer, I.allowed w op answer → does op → inv w → inv (I.next w op answer)) :
    p.wp I (fun _ _ _ => True) (fun _ w' => inv w') w := by
  induction p generalizing w with
  | pure value => exact start
  | throw error => exact start
  | call op next ih =>
      intro answer allowed
      refine ⟨trivial, ih answer (keeps w op answer allowed body.1 start) ?_⟩
      exact body.2 answer (heard w op answer start allowed)

end Program

open Program

/-- **What no vouched call breaks, no interleaving of vouched programs breaks.** -/
theorem Pool.vouched {I : ℕ → Interp S W} {inv : W → Prop} {pool pool' : Pool S ε α} {w w' : W}
    (start : inv w) (each : ∀ p ∈ pool, p.Vouched told does)
    (heard : ∀ i w op answer, inv w → (I i).allowed w op answer → told op answer)
    (keeps : ∀ i w op answer, (I i).allowed w op answer → does op → inv w →
      inv ((I i).next w op answer))
    (steps : Relation.ReflTransGen (Pool.Step I) (pool, w) (pool', w')) : inv w' := by
  generalize starts : (pool, w) = first at steps
  induction steps using Relation.ReflTransGen.head_induction_on generalizing pool w with
  | refl =>
      cases starts
      exact start
  | head step _ ih =>
      obtain @⟨pool, w, i, op, next, answer, turn, allowed⟩ := step
      cases starts
      obtain ⟨made, rest⟩ := each _ (List.mem_of_getElem? turn)
      refine ih (keeps i w op answer allowed made start) (fun p member => ?_) rfl
      rcases List.mem_or_eq_of_mem_set member with before | rfl
      · exact each p before
      · exact rest answer (heard i w op answer start allowed)

end ComputerMoney.Theory

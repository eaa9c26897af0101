/-
# Theory.Returns -- what a program returns where the world does not change

A reading whose worlds are all one says only which answers a call may get.  There a run that
returns is a chain of answers, and `Returns` takes it apart: a bind returns what its second
part returns on something that its first part returns, a loop over a list returns one value an
element (`returns_each`).
-/
import ComputerMoney.Theory.Program
import Mathlib.Data.List.Forall2

namespace ComputerMoney.Theory

set_option autoImplicit false

namespace Program

variable {S : Signature} {ε α β γ : Type}

/-- Map over a list, in order; the first error ends the loop. -/
def each (f : α → Program S ε β) : List α → Program S ε (List β)
  | [] => .pure []
  | x :: xs => do
      let y ← f x
      let ys ← each f xs
      return y :: ys

@[simp] theorem each_nil (f : α → Program S ε β) : each f [] = .pure [] := rfl

@[simp] theorem each_cons (f : α → Program S ε β) (x : α) (xs : List α) :
    each f (x :: xs) = (f x >>= fun y => each f xs >>= fun ys => .pure (y :: ys)) := rfl

theorem within_each {P : S.Op → Prop} {f : α → Program S ε β} {xs : List α}
    (body : ∀ x ∈ xs, (f x).Within P) : (each f xs).Within P := by
  induction xs with
  | nil => trivial
  | cons x xs ih =>
      exact within_bind (body x (List.mem_cons_self ..)) fun _ =>
        within_bind (ih fun y member => body y (List.mem_cons_of_mem _ member)) fun _ => trivial

/-- Some run returns this value. -/
def Returns (I : Interp S Unit) (p : Program S ε α) (value : α) : Prop :=
  Exec I p () (.ok value) ()

variable {I : Interp S Unit}

@[simp] theorem returns_pure {value value' : α} :
    Returns (ε := ε) I (.pure value) value' ↔ value = value' := by
  constructor
  · intro run
    cases run
    rfl
  · rintro rfl
    exact .pure value ()

@[simp] theorem returns_throw {e : ε} {value : α} : ¬ Returns I (.throw e) value := by
  intro run
  cases run

@[simp] theorem returns_ofExcept {outcome : Except ε α} {value : α} :
    Returns I (.ofExcept outcome) value ↔ outcome = .ok value := by
  cases outcome with
  | error e => simp [ofExcept]
  | ok value' => simp [ofExcept]

theorem returns_call {op : S.Op} {next : S.Ans op → Program S ε α} {value : α} :
    Returns I (.call op next) value ↔
      ∃ answer, I.allowed () op answer ∧ Returns I (next answer) value := by
  constructor
  · intro run
    cases run with
    | call allowed rest => exact ⟨_, allowed, rest⟩
  · intro ⟨answer, allowed, rest⟩
    exact .call allowed rest

theorem returns_bind {p : Program S ε α} {f : α → Program S ε β} {value : β} :
    Returns I (p >>= f) value ↔ ∃ first, Returns I p first ∧ Returns I (f first) value := by
  induction p with
  | pure first => simp
  | throw e => simp
  | call op next ih =>
      simp only [bind_call, returns_call, ih]
      constructor
      · intro ⟨answer, allowed, first, start, rest⟩
        exact ⟨first, ⟨answer, allowed, start⟩, rest⟩
      · intro ⟨first, ⟨answer, allowed, start⟩, rest⟩
        exact ⟨answer, allowed, first, start, rest⟩

/-- A loop returns one value an element. -/
theorem returns_each {f : α → Program S ε β} {xs : List α} {ys : List β} :
    Returns I (each f xs) ys ↔ List.Forall₂ (fun x y => Returns I (f x) y) xs ys := by
  induction xs generalizing ys with
  | nil => simp [eq_comm]
  | cons x xs ih =>
      simp only [each_cons, returns_bind, ih, returns_pure]
      constructor
      · rintro ⟨y, first, ys, rest, rfl⟩
        exact .cons first rest
      · rintro (_ | ⟨first, rest⟩)
        exact ⟨_, first, _, rest, rfl⟩

/-- A program whose calls keep an invariant of the history ends with it, in something that it
may return. -/
theorem wp_returns {P : S.Op → Prop} {G : Guarantee S (Unit × List (Event S))}
    {inv : List (Event S) → Prop} {p : Program S ε α} {history : List (Event S)}
    (body : p.Within P) (start : inv history)
    (step : ∀ history op answer, P op → inv history →
      G ((), history) op answer ∧ inv (⟨op, answer⟩ :: history)) :
    wp I.recorded G (fun result s => inv s.2 ∧ ∀ value, result = .ok value → Returns I p value) p
      ((), history) := by
  induction p generalizing history with
  | pure value =>
      refine ⟨start, fun value' same => ?_⟩
      cases same
      exact returns_pure.2 rfl
  | throw error => exact ⟨start, fun value same => by cases same⟩
  | call op next ih =>
      intro answer allowed
      obtain ⟨promised, kept⟩ := step history op answer body.1 start
      refine ⟨promised, wp_mono (ih answer (body.2 answer) kept) ?_⟩
      intro result s ⟨ends, returns⟩
      exact ⟨ends, fun value same => returns_call.2 ⟨answer, allowed, returns value same⟩⟩

/-- What one environment's run returns. -/
theorem returns_of_run {handle : (op : S.Op) → Unit → S.Ans op × Unit} {p : Program S ε α}
    {value : α} (allowed : ∀ op, I.allowed () op (handle op ()).1)
    (is : (run handle p ()).1.toOption = some value) : Returns I p value := by
  have exec : Exec I p () (run handle p ()).1 () :=
    run_exec (fun _ => ()) p () (fun op _ => allowed op) fun _ _ => rfl
  cases result : (run handle p ()).1 with
  | error e =>
      rw [result] at is
      cases is
  | ok value' =>
      rw [result] at is exec
      cases is
      exact exec

end Program

end ComputerMoney.Theory

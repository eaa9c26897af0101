/-
# Theory.Jobs -- one process, one job after another, seen call by call

A process works off jobs: it makes the calls of one, and when that has ended it starts
another that may start in the world as it is then.  A configuration is what is left of
the current job, with the world; `Works` takes one configuration to any later one, so
"once … from then on …" can be said of every point of a run, also in the middle of a job.

`Works.steady` is the rule: if every job that may start in a safe world keeps a guarantee
that keeps the world safe, then every configuration later than a safe one is safe, and
whatever else the guarantee keeps is kept from any of them to any later one.
-/
import ComputerMoney.Theory.Program
import Mathlib.Logic.Relation

namespace ComputerMoney.Theory

set_option autoImplicit false

open Program

section Jobs

variable {S : Signature} {W ε α ι : Type}

/-- Nothing is left to do. -/
def Program.Ended : Program S ε α → Prop
  | .call _ _ => False
  | _ => True

variable (I : Interp S W) (job : ι → Program S ε α) (may : ι → W → Prop)

/-- The next call of the job, or the start of another. -/
inductive Moves : Program S ε α × W → Program S ε α × W → Prop
  | call {op : S.Op} {next : S.Ans op → Program S ε α} {w : W} {answer : S.Ans op}
      (allowed : I.allowed w op answer) : Moves (.call op next, w) (next answer, I.next w op answer)
  | start {p : Program S ε α} {w : W} (i : ι) (ended : p.Ended) (free : may i w) :
      Moves (p, w) (job i, w)

/-- One configuration comes after another in some run. -/
def Works : Program S ε α × W → Program S ε α × W → Prop :=
  Relation.ReflTransGen (Moves I job may)

variable {I job may} {G : Guarantee S W} {safe inv : W → Prop}

/-- A configuration whose rest keeps the guarantee. -/
structure Steady (I : Interp S W) (G : Guarantee S W) (safe : W → Prop)
    (c : Program S ε α × W) : Prop where
  safe : safe c.2
  rest : c.1.wp I G (fun _ _ => True) c.2

theorem Moves.steady {c c' : Program S ε α × W} (keeps : Keeps I G safe)
    (jobs : ∀ i w, may i w → safe w → (job i).wp I G (fun _ _ => True) w)
    (moves : Moves I job may c c') (steady : Steady I G safe c) : Steady I G safe c' := by
  cases moves with
  | call allowed =>
      obtain ⟨promised, rest⟩ := steady.rest _ allowed
      exact ⟨keeps _ _ _ allowed promised steady.safe, rest⟩
  | start i ended free => exact ⟨steady.safe, jobs i _ free steady.safe⟩

theorem Moves.keeps {c c' : Program S ε α × W} (keeps : Keeps I G inv)
    (moves : Moves I job may c c') (steady : Steady I G safe c) (holds : inv c.2) : inv c'.2 := by
  cases moves with
  | call allowed => exact keeps _ _ _ allowed (steady.rest _ allowed).1 holds
  | start i ended free => exact holds

/-- **Every later configuration is safe.** -/
theorem Works.steady {c c' : Program S ε α × W} (keeps : Keeps I G safe)
    (jobs : ∀ i w, may i w → safe w → (job i).wp I G (fun _ _ => True) w)
    (works : Works I job may c c') (steady : Steady I G safe c) : Steady I G safe c' := by
  induction works with
  | refl => exact steady
  | tail _ moves ih => exact moves.steady keeps jobs ih

/-- **What the guarantee keeps is kept from any safe configuration on.** -/
theorem Works.keeps {c c' : Program S ε α × W} (keepsSafe : Keeps I G safe)
    (jobs : ∀ i w, may i w → safe w → (job i).wp I G (fun _ _ => True) w)
    (keeps : Keeps I G inv) (works : Works I job may c c') (steady : Steady I G safe c)
    (holds : inv c.2) : inv c'.2 := by
  induction works with
  | refl => exact holds
  | tail works moves ih =>
      have sofar : Works I job may _ _ := works
      exact moves.keeps keeps (sofar.steady keepsSafe jobs steady) ih

/-- A process with nothing to do is steady in any safe world. -/
theorem Steady.idle {p : Program S ε α} {w : W} (ended : p.Ended) (here : safe w) :
    Steady I G safe (p, w) := by
  refine ⟨here, ?_⟩
  cases p with
  | pure value => trivial
  | throw error => trivial
  | call op next => exact ended.elim

/-- A complete run of a job, as configurations. -/
theorem Works.exec (job : ι → Program S ε α) (may : ι → W → Prop) {p : Program S ε α}
    {w w' : W} {result : Except ε α} (exec : Exec I p w result w') :
    ∃ p' : Program S ε α, p'.Ended ∧ Works I job may (p, w) (p', w') := by
  induction exec with
  | pure value w => exact ⟨.pure value, trivial, .refl⟩
  | throw error w => exact ⟨.throw error, trivial, .refl⟩
  | call allowed _ ih =>
      obtain ⟨p', ended, works⟩ := ih
      exact ⟨p', ended, .head (.call allowed) works⟩

/-! ## One fixed environment -/

section Driven

variable (job : ι → Program S ε α) (may : ι → W → Prop) (handle : (op : S.Op) → W → S.Ans op × W)

/-- The world after these jobs, each call answered by the handler. -/
def workOff : List ι → W → W
  | [], w => w
  | i :: is, w => workOff is (run handle (job i) w).2

/-- Each job may start when its turn comes. -/
def MayAll : List ι → W → Prop
  | [], _ => True
  | i :: is, w => may i w ∧ MayAll is (run handle (job i) w).2

variable {handle}

/-- What the jobs lead to, the process reaches. -/
theorem workOff_works (allowed : ∀ op w, I.allowed w op (handle op w).1)
    (moves : ∀ op w, (handle op w).2 = I.next w op (handle op w).1) (is : List ι)
    {p : Program S ε α} {w : W} (ended : p.Ended) (free : MayAll job may handle is w) :
    ∃ p' : Program S ε α, p'.Ended ∧ Works I job may (p, w) (p', workOff job handle is w) := by
  induction is generalizing p w with
  | nil => exact ⟨p, ended, .refl⟩
  | cons i is ih =>
      have exec : Exec I (job i) w (run handle (job i) w).1 (run handle (job i) w).2 :=
        run_exec id (job i) w allowed moves
      obtain ⟨p₁, ended₁, first⟩ := Works.exec job may exec
      obtain ⟨p₂, ended₂, rest⟩ := ih ended₁ free.2
      exact ⟨p₂, ended₂, .head (.start i ended free.1) (first.trans rest)⟩

end Driven

end Jobs

end ComputerMoney.Theory

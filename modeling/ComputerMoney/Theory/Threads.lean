/-
# Theory.Threads -- programs that share a world, in any interleaving

A pool is a list of programs.  A step of the pool is one call of one of them, answered
as that thread's reading allows, in the world the others have left; a run is any number
of steps in any order.

A thread is verified alone, with the rules of `Program.wp`, in the reading `among`: after
each of its calls the others have moved the world along a relation it relies on.  The
worlds they move it to are part of the state, one for each call to come, and a proof
holds for every choice of them.  `Pool.invariant` puts the threads together: if what each
promises of its own calls is what the others rely on, an invariant that those promises
keep holds in every world an interleaving reaches.
-/
import ComputerMoney.Theory.Program
import Mathlib.Logic.Relation

namespace ComputerMoney.Theory

set_option autoImplicit false

open Program

variable {S : Signature} {W ε α : Type}

/-- The reading of one thread among others: each call is followed by what the others do,
which takes the world where the second component says. -/
def Interp.among (I : Interp S W) (rely : W → W → Prop) : Interp S (W × (ℕ → W)) where
  allowed s op answer := I.allowed s.1 op answer ∧ rely (I.next s.1 op answer) (s.2 0)
  next s _ _ := (s.2 0, fun n => s.2 (n + 1))

/-- A promise about a thread's own calls, whatever the others do after them. -/
def Guarantee.alone (G : Guarantee S W) : Guarantee S (W × (ℕ → W)) :=
  fun s op answer => G s.1 op answer

/-- The calls of all threads, each under its thread's number, the last first. -/
abbrev Log (S : Signature) := List (ℕ × Event S)

/-- The reading of thread `i`, with every call kept in a log beside the world. -/
def Interp.logged (I : Interp S W) (i : ℕ) : Interp S (W × Log S) where
  allowed s op answer := I.allowed s.1 op answer
  next s op answer := (I.next s.1 op answer, (i, ⟨op, answer⟩) :: s.2)

/-- Threads that share a world. -/
abbrev Pool (S : Signature) (ε α : Type) := List (Program S ε α)

namespace Pool

variable (I : ℕ → Interp S W)

/-- One thread makes its next call. -/
inductive Step : Pool S ε α × W → Pool S ε α × W → Prop
  | call {pool : Pool S ε α} {w : W} {i : ℕ} {op : S.Op} {next : S.Ans op → Program S ε α}
      {answer : S.Ans op} (turn : pool[i]? = some (.call op next))
      (allowed : (I i).allowed w op answer) :
      Step (pool, w) (pool.set i (next answer), (I i).next w op answer)

/-- The pool reaches a world by some interleaving of its threads. -/
def Reaches (pool : Pool S ε α) (w w' : W) : Prop :=
  ∃ pool', Relation.ReflTransGen (Step I) (pool, w) (pool', w')

variable {I} {rely : ℕ → W → W → Prop} {G : ℕ → Guarantee S W} {inv : W → Prop}

/-- A thread that is safe from `w` on, however long the others run first. -/
def Safe (I : ℕ → Interp S W) (rely : ℕ → W → W → Prop) (G : ℕ → Guarantee S W) (i : ℕ)
    (p : Program S ε α) (w : W) : Prop :=
  ∀ w' later, rely i w w' →
    p.wp ((I i).among (rely i)) (G i).alone (fun _ _ => True) (w', later)

section Soundness

variable (refl : ∀ i w, rely i w w) (trans : ∀ i w₁ w₂ w₃, rely i w₁ w₂ → rely i w₂ w₃ → rely i w₁ w₃)
include refl

/-- Its own call leaves a safe thread safe, and keeps the promise. -/
theorem Safe.step {i : ℕ} {op : S.Op} {next : S.Ans op → Program S ε α} {w : W}
    {answer : S.Ans op} (safe : Safe I rely G i (.call op next) w)
    (allowed : (I i).allowed w op answer) :
    G i w op answer ∧ Safe I rely G i (next answer) ((I i).next w op answer) := by
  -- The others' next moves are chosen so that the first is the one in question.
  have kept := fun w' later moved =>
    safe w (fun n => n.casesOn w' later) (refl i w) answer ⟨allowed, moved⟩
  have alone := kept ((I i).next w op answer) (fun _ => w) (refl i _)
  exact ⟨alone.1, fun w' later moved => (kept w' later moved).2⟩

include trans

/-- **Safe threads compose.**  In every world an interleaving reaches the invariant holds
and what is left of each thread is safe, provided this is so at first, each thread's
promise keeps the invariant, and each thread's promise is what the others rely on. -/
theorem safe_all {pool pool' : Pool S ε α} {w w' : W} (start : inv w)
    (safe : ∀ i p, pool[i]? = some p → Safe I rely G i p w)
    (keeps : ∀ i, Keeps (I i) (G i) inv)
    (others : ∀ i j w op answer, i ≠ j → inv w → (I i).allowed w op answer →
      G i w op answer → rely j w ((I i).next w op answer))
    (steps : Relation.ReflTransGen (Step I) (pool, w) (pool', w')) :
    inv w' ∧ ∀ i p, pool'[i]? = some p → Safe I rely G i p w' := by
  generalize ends : (pool', w') = last at steps
  induction steps generalizing pool' w' with
  | refl =>
      cases ends
      exact ⟨start, safe⟩
  | tail _ step ih =>
      obtain @⟨pool, w, i, op, next, answer, turn, allowed⟩ := step
      cases ends
      obtain ⟨holds, safeAll⟩ := ih rfl
      obtain ⟨promised, safeNext⟩ := (safeAll i _ turn).step refl allowed
      refine ⟨keeps i _ _ _ allowed promised holds, fun j p at_ => ?_⟩
      rcases eq_or_ne i j with rfl | different
      · have within : i < _ := (List.getElem?_eq_some_iff.1 turn).1
        rw [List.getElem?_set_self within] at at_
        cases at_
        exact safeNext
      · rw [List.getElem?_set_ne different] at at_
        have moved := others i j _ _ _ different holds allowed promised
        exact fun w'' later further => safeAll j p at_ w'' later (trans j _ _ _ moved further)

/-- So the invariant holds in every world an interleaving reaches. -/
theorem invariant {pool : Pool S ε α} {w w' : W} (start : inv w)
    (safe : ∀ i p, pool[i]? = some p → Safe I rely G i p w)
    (keeps : ∀ i, Keeps (I i) (G i) inv)
    (others : ∀ i j w op answer, i ≠ j → inv w → (I i).allowed w op answer →
      G i w op answer → rely j w ((I i).next w op answer))
    (reaches : Reaches I pool w w') : inv w' := by
  obtain ⟨pool', steps⟩ := reaches
  exact (safe_all refl trans start safe keeps others steps).1

end Soundness

/-! ## One fixed interleaving -/

/-- Give the threads turns in the order of the schedule, each call answered by a handler.
A thread that has ended, or whose call may not be made yet, passes. -/
def drive {σ : Type} (may : ℕ → S.Op → σ → Bool) (handle : ℕ → (op : S.Op) → σ → S.Ans op × σ) :
    List ℕ → Pool S ε α → σ → Pool S ε α × σ
  | [], pool, s => (pool, s)
  | i :: schedule, pool, s =>
      match pool[i]? with
      | some (.call op next) =>
          if may i op s then
            drive may handle schedule (pool.set i (next (handle i op s).1)) (handle i op s).2
          else drive may handle schedule pool s
      | _ => drive may handle schedule pool s

/-- What a schedule leads to is an interleaving. -/
theorem drive_steps (may : ℕ → S.Op → W → Bool) (handle : ℕ → (op : S.Op) → W → S.Ans op × W)
    (allowed : ∀ i op w, may i op w → (I i).allowed w op (handle i op w).1)
    (moves : ∀ i op w, (handle i op w).2 = (I i).next w op (handle i op w).1)
    (schedule : List ℕ) (pool : Pool S ε α) (w : W) :
    Relation.ReflTransGen (Step I) (pool, w) (drive may handle schedule pool w) := by
  induction schedule generalizing pool w with
  | nil => exact .refl
  | cons i schedule ih =>
      unfold drive
      split
      · rename_i op next turn
        split
        · rename_i free
          refine .head ?_ (ih (pool.set i (next (handle i op w).1)) (handle i op w).2)
          rw [moves i op w]
          exact .call turn (allowed i op w free)
        · exact ih pool w
      · exact ih pool w

/-- The call a thread is about to make. -/
def nextCall? : Program S ε α → Option S.Op
  | .call op _ => some op
  | _ => none

theorem exists_turn {pool : Pool S ε α} {i : ℕ} {op : S.Op}
    (is : pool[i]?.bind nextCall? = some op) : ∃ next, pool[i]? = some (.call op next) := by
  obtain ⟨p, at_, is'⟩ := Option.bind_eq_some_iff.1 is
  cases p with
  | call op' next =>
      cases is'
      exact ⟨next, at_⟩
  | _ => cases is'

theorem drive_reaches (may : ℕ → S.Op → W → Bool) (handle : ℕ → (op : S.Op) → W → S.Ans op × W)
    (allowed : ∀ i op w, may i op w → (I i).allowed w op (handle i op w).1)
    (moves : ∀ i op w, (handle i op w).2 = (I i).next w op (handle i op w).1)
    (schedule : List ℕ) (pool : Pool S ε α) (w : W) :
    Reaches I pool w (drive may handle schedule pool w).2 :=
  ⟨_, drive_steps may handle allowed moves schedule pool w⟩

end Pool

end ComputerMoney.Theory

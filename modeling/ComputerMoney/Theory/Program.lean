/-
# Theory.Program -- effectful programs, every run of one, and where a run can be cut

A program is a tree of calls to its environment: `call op next` asks for `op` and
goes on with whatever answer comes back.  The tree fixes the order of the calls and
nothing about the answers, so one definition of a function serves every reading of
its environment:

* `Interp` says which answers a world allows and what world an answer leaves;
* `Exec` is a complete run, `Reach` a run cut after any number of calls (the state a
  crash finds), `Calls` one call some run makes;
* `Lifetimes` strings cut runs together: boot, run, crash, boot again;
* `run` drives the program by one fixed handler, for concrete environments.

`wp I G Q` is the condition before a program under which every call a run makes
satisfies the guarantee `G` and every end of a run satisfies `Q`.  `wp_exec`,
`wp_calls` and `wp_reach` read it back, and `Lifetimes.inv` lifts an invariant that
the guarantee preserves over any number of crashes.

Errors are part of the program (`throw`), and `attempt` turns them into values, so a
`?` of the source is a bind and a `match` on a `Result` is an `attempt`.
-/
import Mathlib.Logic.Basic
import Mathlib.Data.Nat.Notation

namespace ComputerMoney.Theory

set_option autoImplicit false

/-- A fallible step that went on. -/
theorem bind_ok {ε α β : Type} {step : Except ε α} {next : α → Except ε β} {result : β} :
    (step >>= next) = .ok result ↔ ∃ value, step = .ok value ∧ next value = .ok result := by
  cases step with
  | error e => simp [bind, Except.bind]
  | ok value => simp [bind, Except.bind]

/-- The operations a program may call, and the type of the answer to each. -/
structure Signature where
  Op : Type
  Ans : Op → Type

/-- A program over `S` that ends in a value of type `α` or an error of type `ε`. -/
inductive Program (S : Signature) (ε α : Type) : Type where
  | pure (value : α)
  | throw (error : ε)
  | call (op : S.Op) (next : S.Ans op → Program S ε α)

namespace Program

variable {S : Signature} {ε α β : Type}

def bind : Program S ε α → (α → Program S ε β) → Program S ε β
  | .pure value, f => f value
  | .throw error, _ => .throw error
  | .call op next, f => .call op fun answer => (next answer).bind f

instance : Monad (Program S ε) where
  pure := .pure
  bind := .bind

/-- Run `p` and hand its outcome on as a value; the result itself never throws. -/
def attempt : Program S ε α → Program S ε (Except ε α)
  | .pure value => .pure (.ok value)
  | .throw error => .pure (.error error)
  | .call op next => .call op fun answer => (next answer).attempt

/-- The program that ends at once in the given outcome. -/
def ofExcept : Except ε α → Program S ε α
  | .ok value => .pure value
  | .error error => .throw error

/-- Run `body` on every element in order; the first error ends the loop. -/
def forEach : List β → (β → Program S ε Unit) → Program S ε Unit
  | [], _ => .pure ()
  | x :: xs, body => (body x).bind fun _ => forEach xs body

@[simp] theorem bind_pure' (value : α) (f : α → Program S ε β) :
    (Program.pure value >>= f) = f value := rfl

@[simp] theorem bind_throw (error : ε) (f : α → Program S ε β) :
    (Program.throw error >>= f) = .throw error := rfl

@[simp] theorem bind_call (op : S.Op) (next : S.Ans op → Program S ε α) (f : α → Program S ε β) :
    (Program.call op next >>= f) = .call op fun answer => next answer >>= f := rfl

theorem bind_bind {γ : Type} (p : Program S ε α) (f : α → Program S ε β)
    (g : β → Program S ε γ) : ((p >>= f) >>= g) = (p >>= fun value => f value >>= g) := by
  induction p with
  | pure value => rfl
  | throw error => rfl
  | call op next ih => simp only [bind_call, ih]

@[simp] theorem pure_eq (value : α) : (Pure.pure value : Program S ε α) = .pure value := rfl

@[simp] theorem forEach_nil (body : β → Program S ε Unit) : forEach [] body = .pure () := rfl

@[simp] theorem forEach_cons (x : β) (xs : List β) (body : β → Program S ε Unit) :
    forEach (x :: xs) body = (body x >>= fun _ => forEach xs body) := rfl

theorem forEach_append (xs ys : List β) (body : β → Program S ε Unit) :
    forEach (xs ++ ys) body = (forEach xs body >>= fun _ => forEach ys body) := by
  induction xs with
  | nil => rfl
  | cons x xs ih => rw [List.cons_append, forEach_cons, ih, forEach_cons, bind_bind]

end Program

/-- The reading of a signature in worlds of type `W`: the answers a world allows to an
operation, and the world such an answer leaves. -/
structure Interp (S : Signature) (W : Type) where
  allowed : W → (op : S.Op) → S.Ans op → Prop
  next : W → (op : S.Op) → S.Ans op → W

/-- What is promised of each single call: the world before it, the operation, the answer. -/
abbrev Guarantee (S : Signature) (W : Type) := W → (op : S.Op) → S.Ans op → Prop

/-- The reading `I`, with the answers further restricted by `assume`. -/
def Interp.restrict {S : Signature} {W : Type} (I : Interp S W) (assume : Guarantee S W) :
    Interp S W where
  allowed w op answer := I.allowed w op answer ∧ assume w op answer
  next := I.next

/-- A call and the answer to it. -/
abbrev Event (S : Signature) := (op : S.Op) × S.Ans op

/-- The reading `I`, with the calls made so far kept beside the world, the last one first. -/
def Interp.recorded {S : Signature} {W : Type} (I : Interp S W) :
    Interp S (W × List (Event S)) where
  allowed s op answer := I.allowed s.1 op answer
  next s op answer := (I.next s.1 op answer, ⟨op, answer⟩ :: s.2)

/-- The reading in which a handler gives each call its one answer. -/
def Interp.ofHandler {S : Signature} {σ : Type} (handle : (op : S.Op) → σ → S.Ans op × σ) :
    Interp S σ where
  allowed s op answer := answer = (handle op s).1
  next s op _ := (handle op s).2

namespace Program

variable {S : Signature} {W ε α β : Type} (I : Interp S W)

/-! ## Runs -/

/-- A complete run of a program. -/
inductive Exec : Program S ε α → W → Except ε α → W → Prop
  | pure (value : α) (w : W) : Exec (.pure value) w (.ok value) w
  | throw (error : ε) (w : W) : Exec (.throw error) w (.error error) w
  | call {op : S.Op} {next : S.Ans op → Program S ε α} {w : W} {answer : S.Ans op}
      {result : Except ε α} {w' : W} (allowed : I.allowed w op answer)
      (rest : Exec (next answer) (I.next w op answer) result w') :
      Exec (.call op next) w result w'

/-- A run of a program cut after some number of calls. -/
inductive Reach : Program S ε α → W → W → Prop
  | here (p : Program S ε α) (w : W) : Reach p w w
  | call {op : S.Op} {next : S.Ans op → Program S ε α} {w : W} {answer : S.Ans op}
      {w' : W} (allowed : I.allowed w op answer)
      (rest : Reach (next answer) (I.next w op answer) w') :
      Reach (.call op next) w w'

/-- Some run of the program from `w` makes the call `op`, answered `answer`, in world `w'`. -/
inductive Calls : Program S ε α → W → W → (op : S.Op) → S.Ans op → Prop
  | here {op : S.Op} {next : S.Ans op → Program S ε α} {w : W} {answer : S.Ans op}
      (allowed : I.allowed w op answer) : Calls (.call op next) w w op answer
  | later {op op' : S.Op} {next : S.Ans op → Program S ε α} {w w' : W} {answer : S.Ans op}
      {answer' : S.Ans op'} (allowed : I.allowed w op answer)
      (rest : Calls (next answer) (I.next w op answer) w' op' answer') :
      Calls (.call op next) w w' op' answer'

variable {I}

theorem Exec.reach {p : Program S ε α} {w w' : W} {result : Except ε α}
    (run : Exec I p w result w') : Reach I p w w' := by
  induction run with
  | pure value w => exact .here _ _
  | throw error w => exact .here _ _
  | call allowed _ ih => exact .call allowed ih

/-- A run of a bind that returns is a run of its first part that returns, and one of the rest. -/
theorem Exec.of_bind {p : Program S ε α} {f : α → Program S ε β} {w w'' : W} {value : β}
    (run : Exec I (p >>= f) w (.ok value) w'') :
    ∃ first w', Exec I p w (.ok first) w' ∧ Exec I (f first) w' (.ok value) w'' := by
  induction p generalizing w with
  | pure first => exact ⟨first, w, .pure _ _, run⟩
  | throw error => cases run
  | call op next ih =>
      cases run with
      | call allowed rest =>
          obtain ⟨first, w', start, rest⟩ := ih _ rest
          exact ⟨first, w', .call allowed start, rest⟩

/-- And back: two runs in a row. -/
theorem Exec.bind {p : Program S ε α} {f : α → Program S ε β} {w w' w'' : W} {first : α}
    {result : Except ε β} (start : Exec I p w (.ok first) w')
    (rest : Exec I (f first) w' result w'') : Exec I (p >>= f) w result w'' := by
  induction p generalizing w with
  | pure value =>
      cases start
      exact rest
  | throw error => cases start
  | call op next ih =>
      cases start with
      | call allowed later => exact .call allowed (ih _ later)

theorem Exec.of_attempt {p : Program S ε α} {w w' : W} {result : Except ε α}
    (run : Exec I p.attempt w (.ok result) w') : Exec I p w result w' := by
  induction p generalizing w with
  | pure value =>
      cases run
      exact .pure _ _
  | throw error =>
      cases run
      exact .throw _ _
  | call op next ih =>
      cases run with
      | call allowed rest => exact .call allowed (ih _ rest)

variable (I)

/-! ## Weakest preconditions under a guarantee -/

/-- Every call of every run from here satisfies `G`, and every end of a run `Q`. -/
def wp (G : Guarantee S W) (Q : Except ε α → W → Prop) : Program S ε α → W → Prop
  | .pure value, w => Q (.ok value) w
  | .throw error, w => Q (.error error) w
  | .call op next, w => ∀ answer, I.allowed w op answer →
      G w op answer ∧ wp G Q (next answer) (I.next w op answer)

variable {I} {G : Guarantee S W}

@[simp] theorem wp_pure {Q : Except ε α → W → Prop} {value : α} {w : W} :
    wp I G Q (.pure value) w ↔ Q (.ok value) w := Iff.rfl

@[simp] theorem wp_throw {Q : Except ε α → W → Prop} {error : ε} {w : W} :
    wp I G Q (.throw error) w ↔ Q (.error error) w := Iff.rfl

theorem wp_call {Q : Except ε α → W → Prop} {op : S.Op} {next : S.Ans op → Program S ε α}
    {w : W} : wp I G Q (.call op next) w ↔ ∀ answer, I.allowed w op answer →
      G w op answer ∧ wp I G Q (next answer) (I.next w op answer) := Iff.rfl

theorem wp_mono {Q R : Except ε α → W → Prop} {p : Program S ε α} {w : W}
    (holds : wp I G Q p w) (weaken : ∀ result w', Q result w' → R result w') : wp I G R p w := by
  induction p generalizing w with
  | pure value => exact weaken _ _ holds
  | throw error => exact weaken _ _ holds
  | call op next ih =>
      intro answer allowed
      exact ⟨(holds answer allowed).1, ih answer (holds answer allowed).2⟩

/-- A guarantee may be replaced by a weaker one. -/
theorem wp_weaken {G' : Guarantee S W} {Q : Except ε α → W → Prop} {p : Program S ε α} {w : W}
    (weaker : ∀ w op answer, G w op answer → G' w op answer) (holds : wp I G Q p w) :
    wp I G' Q p w := by
  induction p generalizing w with
  | pure value => exact holds
  | throw error => exact holds
  | call op next ih =>
      intro answer allowed
      exact ⟨weaker _ _ _ (holds answer allowed).1, ih answer (holds answer allowed).2⟩

/-- Two guarantees of one program are one. -/
theorem wp_and {G' : Guarantee S W} {Q R : Except ε α → W → Prop} {p : Program S ε α} {w : W}
    (first : wp I G Q p w) (second : wp I G' R p w) :
    wp I (fun w op answer => G w op answer ∧ G' w op answer)
      (fun result w' => Q result w' ∧ R result w') p w := by
  induction p generalizing w with
  | pure value => exact ⟨first, second⟩
  | throw error => exact ⟨first, second⟩
  | call op next ih =>
      intro answer allowed
      obtain ⟨promised, rest⟩ := first answer allowed
      obtain ⟨promised', rest'⟩ := second answer allowed
      exact ⟨⟨promised, promised'⟩, ih answer rest rest'⟩

/-- What is left to prove of a bind once its first part has ended. -/
def bindPost (I : Interp S W) (G : Guarantee S W) (Q : Except ε β → W → Prop)
    (f : α → Program S ε β) : Except ε α → W → Prop
  | .ok value, w => wp I G Q (f value) w
  | .error error, w => Q (.error error) w

@[simp] theorem bindPost_ok {Q : Except ε β → W → Prop} {f : α → Program S ε β} {value : α}
    {w : W} : bindPost I G Q f (.ok value) w ↔ wp I G Q (f value) w := Iff.rfl

@[simp] theorem bindPost_error {Q : Except ε β → W → Prop} {f : α → Program S ε β} {error : ε}
    {w : W} : bindPost I G Q f (.error error) w ↔ Q (.error error) w := Iff.rfl

theorem wp_bind {Q : Except ε β → W → Prop} {p : Program S ε α} {f : α → Program S ε β} {w : W} :
    wp I G Q (p >>= f) w ↔ wp I G (bindPost I G Q f) p w := by
  induction p generalizing w with
  | pure value => exact Iff.rfl
  | throw error => exact Iff.rfl
  | call op next ih =>
      simp only [bind_call, wp_call]
      exact forall_congr' fun answer => imp_congr_right fun _ => and_congr_right fun _ => ih answer

theorem wp_attempt {Q : Except ε (Except ε α) → W → Prop} {p : Program S ε α} {w : W} :
    wp I G Q p.attempt w ↔ wp I G (fun result w' => Q (.ok result) w') p w := by
  induction p generalizing w with
  | pure value => exact Iff.rfl
  | throw error => exact Iff.rfl
  | call op next ih =>
      simp only [attempt, wp_call]
      exact forall_congr' fun answer => imp_congr_right fun _ => and_congr_right fun _ => ih answer

@[simp] theorem wp_ofExcept {Q : Except ε α → W → Prop} {outcome : Except ε α} {w : W} :
    wp I G Q (ofExcept outcome) w ↔ Q outcome w := by
  cases outcome <;> exact Iff.rfl

/-- The loop rule: `J` holds between iterations, and an iteration that fails must
leave what the whole loop's failure promises. -/
theorem wp_forEach {J : W → Prop} {Q : Except ε Unit → W → Prop} {body : β → Program S ε Unit}
    {xs : List β} {w : W} (start : J w)
    (iteration : ∀ x ∈ xs, ∀ w, J w → wp I G (fun result w' => match result with
      | .ok () => J w'
      | .error error => Q (.error error) w') (body x) w)
    (done : ∀ w, J w → Q (.ok ()) w) : wp I G Q (forEach xs body) w := by
  induction xs generalizing w with
  | nil => exact done w start
  | cons x xs ih =>
      rw [forEach_cons, wp_bind]
      refine wp_mono (iteration x (List.mem_cons_self ..) w start) ?_
      rintro (error | ⟨⟩) w' holds
      · exact holds
      · exact ih holds fun y member => iteration y (List.mem_cons_of_mem _ member)

/-! ## Frames -/

/-- Every call the program can make satisfies `P`. -/
def Within (P : S.Op → Prop) : Program S ε α → Prop
  | .pure _ | .throw _ => True
  | .call op next => P op ∧ ∀ answer, (next answer).Within P

variable {P : S.Op → Prop}

@[simp] theorem within_pure {value : α} : (Program.pure value : Program S ε α).Within P := trivial

@[simp] theorem within_throw {error : ε} : (Program.throw error : Program S ε α).Within P := trivial

@[simp] theorem within_ofExcept {outcome : Except ε α} :
    (ofExcept outcome : Program S ε α).Within P := by
  cases outcome <;> trivial

theorem within_bind {p : Program S ε α} {f : α → Program S ε β} (first : p.Within P)
    (rest : ∀ value, (f value).Within P) : (p >>= f).Within P := by
  induction p with
  | pure value => exact rest value
  | throw error => trivial
  | call op next ih => exact ⟨first.1, fun answer => ih answer (first.2 answer)⟩

theorem within_attempt {p : Program S ε α} (body : p.Within P) : p.attempt.Within P := by
  induction p with
  | pure value => trivial
  | throw error => trivial
  | call op next ih => exact ⟨body.1, fun answer => ih answer (body.2 answer)⟩

theorem within_forEach {body : β → Program S ε Unit} {xs : List β}
    (each : ∀ x ∈ xs, (body x).Within P) : (forEach xs body).Within P := by
  induction xs with
  | nil => trivial
  | cons x xs ih =>
      exact within_bind (each x (List.mem_cons_self ..)) fun _ =>
        ih fun y member => each y (List.mem_cons_of_mem _ member)

theorem Within.mono {P' : S.Op → Prop} {p : Program S ε α} (body : p.Within P)
    (weaken : ∀ op, P op → P' op) : p.Within P' := by
  induction p with
  | pure value => trivial
  | throw error => trivial
  | call op next ih => exact ⟨weaken _ body.1, fun answer => ih answer (body.2 answer)⟩

/-- The frame rule: what each call of the class `P` promises and relates, a program that
stays within `P` promises and relates from start to end. -/
theorem wp_within {R : W → W → Prop} {p : Program S ε α} {w : W} (body : p.Within P)
    (same : ∀ w, R w w) (chain : ∀ {w₁ w₂ w₃}, R w₁ w₂ → R w₂ w₃ → R w₁ w₃)
    (step : ∀ w op answer, P op → I.allowed w op answer →
      G w op answer ∧ R w (I.next w op answer)) :
    wp I G (fun _ w' => R w w') p w := by
  induction p generalizing w with
  | pure value => exact same w
  | throw error => exact same w
  | call op next ih =>
      intro answer allowed
      obtain ⟨promised, moved⟩ := step w op answer body.1 allowed
      exact ⟨promised, wp_mono (ih answer (body.2 answer)) fun _ _ rest => chain moved rest⟩

/-- The rule of an invariant: where it holds, each call of the class `P` honours the
guarantee and keeps it; so does a program that stays within `P`. -/
theorem wp_preserves {inv : W → Prop} {p : Program S ε α} {w : W} (body : p.Within P)
    (start : inv w)
    (step : ∀ w op answer, P op → inv w → I.allowed w op answer →
      G w op answer ∧ inv (I.next w op answer)) :
    wp I G (fun _ w' => inv w') p w := by
  induction p generalizing w with
  | pure value => exact start
  | throw error => exact start
  | call op next ih =>
      intro answer allowed
      obtain ⟨promised, kept⟩ := step w op answer body.1 start allowed
      exact ⟨promised, ih answer (body.2 answer) kept⟩

/-- A program that only makes calls of which nothing is asked needs no proof. -/
theorem wp_unguarded {p : Program S ε α} {w : W}
    (body : p.Within fun op => ∀ w answer, G w op answer) :
    wp I G (fun _ _ => True) p w :=
  wp_within (R := fun _ _ => True) body (fun _ => trivial) (fun _ _ => trivial)
    fun w _ answer free _ => ⟨free w answer, trivial⟩

/-- **A complete run ends where `wp` says.** -/
theorem wp_exec {Q : Except ε α → W → Prop} {p : Program S ε α} {w w' : W}
    {result : Except ε α} (holds : wp I G Q p w) (run : Exec I p w result w') : Q result w' := by
  induction run with
  | pure value w => exact holds
  | throw error w => exact holds
  | call allowed _ ih => exact ih (holds _ allowed).2

/-- **Every call of every run keeps the guarantee.** -/
theorem wp_calls {Q : Except ε α → W → Prop} {p : Program S ε α} {w w' : W} {op : S.Op}
    {answer : S.Ans op} (holds : wp I G Q p w) (made : Calls I p w w' op answer) :
    G w' op answer := by
  induction made with
  | here allowed => exact (holds _ allowed).1
  | later allowed _ ih => exact ih (holds _ allowed).2

/-- The converse: `wp` asks no more than that of the calls and ends of the runs. -/
theorem wp_complete {Q : Except ε α → W → Prop} {p : Program S ε α} {w : W}
    (calls : ∀ w' op answer, Calls I p w w' op answer → G w' op answer)
    (ends : ∀ result w', Exec I p w result w' → Q result w') : wp I G Q p w := by
  induction p generalizing w with
  | pure value => exact ends _ _ (.pure _ _)
  | throw error => exact ends _ _ (.throw _ _)
  | call op next ih =>
      intro answer allowed
      refine ⟨calls _ _ _ (.here allowed), ih answer ?_ ?_⟩
      · exact fun w' op' answer' made => calls w' op' answer' (.later allowed made)
      · exact fun result w' run => ends result w' (.call allowed run)

/-- `G` keeps `inv`: a call that honours the guarantee in a world with the invariant
leaves a world with the invariant. -/
def Keeps (I : Interp S W) (G : Guarantee S W) (inv : W → Prop) : Prop :=
  ∀ w op answer, I.allowed w op answer → G w op answer → inv w → inv (I.next w op answer)

/-- **A cut run keeps whatever the guarantee keeps.** -/
theorem wp_reach {Q : Except ε α → W → Prop} {inv : W → Prop} {p : Program S ε α} {w w' : W}
    (keeps : Keeps I G inv) (start : inv w) (holds : wp I G Q p w) (cut : Reach I p w w') :
    inv w' := by
  induction cut with
  | here p w => exact start
  | call allowed _ ih =>
      exact ih (keeps _ _ _ allowed (holds _ allowed).1 start) (holds _ allowed).2

/-- An invariant that the guarantee keeps may be added to any postcondition. -/
theorem wp_keeps {Q : Except ε α → W → Prop} {inv : W → Prop} {p : Program S ε α} {w : W}
    (keeps : Keeps I G inv) (start : inv w) (holds : wp I G Q p w) :
    wp I G (fun result w' => Q result w' ∧ inv w') p w := by
  induction p generalizing w with
  | pure value => exact ⟨holds, start⟩
  | throw error => exact ⟨holds, start⟩
  | call op next ih =>
      intro answer allowed
      obtain ⟨promised, rest⟩ := holds answer allowed
      exact ⟨promised, ih answer (keeps _ _ _ allowed promised start) rest⟩

/-- A program each of whose calls honours the guarantee wherever the invariant holds. -/
theorem wp_invariant {inv : W → Prop} {p : Program S ε α} {w : W} (keeps : Keeps I G inv)
    (body : p.Within fun op => ∀ w answer, inv w → I.allowed w op answer → G w op answer)
    (start : inv w) : wp I G (fun _ w' => inv w') p w := by
  induction p generalizing w with
  | pure value => exact start
  | throw error => exact start
  | call op next ih =>
      intro answer allowed
      have promised := body.1 w answer start allowed
      exact ⟨promised, ih answer (body.2 answer) (keeps w op answer allowed promised start)⟩

/-- What every call keeps, every program keeps. -/
theorem wp_always {inv : W → Prop} {p : Program S ε α} {w : W}
    (keeps : Keeps I (fun _ _ _ => True) inv) (start : inv w) :
    wp I (fun _ _ _ => True) (fun _ w' => inv w') p w := by
  induction p generalizing w with
  | pure value => exact start
  | throw error => exact start
  | call op next ih =>
      intro answer allowed
      exact ⟨trivial, ih answer (keeps w op answer allowed trivial start)⟩

/-- **A reading may be replaced by one that simulates it.**  What is proved of a program in
the worlds of `J` holds in the worlds of `I`, if every answer `I` allows in a world is one
that `J` allows in the related world, and the two stay related. -/
theorem wp_simulates {V : Type} {J : Interp S V} {L : Guarantee S V} {R : W → V → Prop}
    {Q : Except ε α → V → Prop} {p : Program S ε α} {w : W} {v : V} (start : R w v)
    (step : ∀ w v op answer, R w v → I.allowed w op answer → J.allowed v op answer ∧
      (L v op answer → G w op answer ∧ R (I.next w op answer) (J.next v op answer)))
    (holds : wp J L Q p v) : wp I G (fun result w' => ∃ v', R w' v' ∧ Q result v') p w := by
  induction p generalizing w v with
  | pure value => exact ⟨v, start, holds⟩
  | throw error => exact ⟨v, start, holds⟩
  | call op next ih =>
      intro answer allowed
      obtain ⟨allowed', moves⟩ := step w v op answer start allowed
      obtain ⟨promised, rest⟩ := holds answer allowed'
      obtain ⟨promised', related⟩ := moves promised
      exact ⟨promised', ih answer related rest⟩

/-! ## One fixed environment -/

/-- Drive the program by a handler over states of type `σ`. -/
def run {σ : Type} (handle : (op : S.Op) → σ → S.Ans op × σ) :
    Program S ε α → σ → Except ε α × σ
  | .pure value, s => (.ok value, s)
  | .throw error, s => (.error error, s)
  | .call op next, s => (next (handle op s).1).run handle (handle op s).2

/-- The state after the first `n` calls. -/
def cut {σ : Type} (handle : (op : S.Op) → σ → S.Ans op × σ) :
    ℕ → Program S ε α → σ → σ
  | n + 1, .call op next, s => (next (handle op s).1).cut handle n (handle op s).2
  | _, _, s => s

/-- The calls made, each with the state it is made in and its answer. -/
def trace {σ : Type} (handle : (op : S.Op) → σ → S.Ans op × σ) :
    Program S ε α → σ → List (σ × (op : S.Op) × S.Ans op)
  | .call op next, s =>
      (s, ⟨op, (handle op s).1⟩) :: (next (handle op s).1).trace handle (handle op s).2
  | _, _ => []

section Run

variable {σ : Type} {handle : (op : S.Op) → σ → S.Ans op × σ}

@[simp] theorem run_pure (value : α) (s : σ) :
    run (S := S) (ε := ε) handle (.pure value) s = (.ok value, s) := rfl

@[simp] theorem run_throw (error : ε) (s : σ) :
    run (S := S) (α := α) handle (.throw error) s = (.error error, s) := rfl

@[simp] theorem run_call (op : S.Op) (next : S.Ans op → Program S ε α) (s : σ) :
    run handle (.call op next) s = (next (handle op s).1).run handle (handle op s).2 := rfl

theorem run_bind (p : Program S ε α) (f : α → Program S ε β) (s : σ) :
    run handle (p >>= f) s = match run handle p s with
      | (.ok value, s') => run handle (f value) s'
      | (.error error, s') => (.error error, s') := by
  induction p generalizing s with
  | pure value => rfl
  | throw error => rfl
  | call op next ih => simpa only [bind_call, run_call] using ih _ _

/-- Programs that go on alike run alike. -/
theorem run_bind_congr {p : Program S ε α} {f g : α → Program S ε β} {s : σ}
    (alike : ∀ value s', run handle (f value) s' = run handle (g value) s') :
    run handle (p >>= f) s = run handle (p >>= g) s := by
  rw [run_bind, run_bind]
  split
  · exact alike _ _
  · rfl

theorem run_attempt (p : Program S ε α) (s : σ) :
    run handle p.attempt s =
      ((.ok (run handle p s).1 : Except ε (Except ε α)), (run handle p s).2) := by
  induction p generalizing s with
  | pure value => rfl
  | throw error => rfl
  | call op next ih => simpa only [attempt, run_call] using ih _ _

/-- Under a handler a call has one answer. -/
theorem wp_handled {Q : Except ε α → σ → Prop} {G : Guarantee S σ} {op : S.Op}
    {next : S.Ans op → Program S ε α} {s : σ} (promised : G s op (handle op s).1)
    (rest : wp (.ofHandler handle) G Q (next (handle op s).1) (handle op s).2) :
    wp (.ofHandler handle) G Q (.call op next) s := by
  rintro _ rfl
  exact ⟨promised, rest⟩

/-- The rules of `wp` compute the one run of a handler. -/
theorem wp_run {Q : Except ε α → σ → Prop} {G : Guarantee S σ} {p : Program S ε α} {s : σ}
    (holds : wp (.ofHandler handle) G Q p s) : Q (run handle p s).1 (run handle p s).2 := by
  induction p generalizing s with
  | pure value => exact holds
  | throw error => exact holds
  | call op next ih => exact ih _ (holds _ rfl).2

/-- A handler whose answers the reading allows, on states that project to its worlds,
drives the program along a run of the reading.  It need do so only where `inv` holds, if it
keeps that. -/
theorem run_exec_inv (world : σ → W) (inv : σ → Prop) (p : Program S ε α) (s : σ) (start : inv s)
    (allowed : ∀ op s, inv s → I.allowed (world s) op (handle op s).1)
    (moves : ∀ op s, world (handle op s).2 = I.next (world s) op (handle op s).1)
    (kept : ∀ op s, inv s → inv (handle op s).2) :
    Exec I p (world s) (run handle p s).1 (world (run handle p s).2) := by
  induction p generalizing s with
  | pure value => exact .pure _ _
  | throw error => exact .throw _ _
  | call op next ih =>
      refine .call (allowed op s start) ?_
      rw [← moves op s]
      exact ih _ _ (kept op s start)

theorem run_exec (world : σ → W) (p : Program S ε α) (s : σ)
    (allowed : ∀ op s, I.allowed (world s) op (handle op s).1)
    (moves : ∀ op s, world (handle op s).2 = I.next (world s) op (handle op s).1) :
    Exec I p (world s) (run handle p s).1 (world (run handle p s).2) :=
  run_exec_inv world (fun _ => True) p s trivial (fun op s _ => allowed op s) moves
    fun _ _ _ => trivial

theorem cut_reach (world : σ → W) (n : ℕ) (p : Program S ε α) (s : σ)
    (allowed : ∀ op s, I.allowed (world s) op (handle op s).1)
    (moves : ∀ op s, world (handle op s).2 = I.next (world s) op (handle op s).1) :
    Reach I p (world s) (world (cut handle n p s)) := by
  induction p generalizing n s with
  | pure value => cases n <;> exact .here _ _
  | throw error => cases n <;> exact .here _ _
  | call op next ih =>
      cases n with
      | zero => exact .here _ _
      | succ n =>
          refine .call (allowed op s) ?_
          rw [← moves op s]
          exact ih _ _ _

theorem trace_calls (world : σ → W) (p : Program S ε α) (s : σ)
    (allowed : ∀ op s, I.allowed (world s) op (handle op s).1)
    (moves : ∀ op s, world (handle op s).2 = I.next (world s) op (handle op s).1)
    {s' : σ} {op : S.Op} {answer : S.Ans op} (member : (s', ⟨op, answer⟩) ∈ trace handle p s) :
    Calls I p (world s) (world s') op answer := by
  induction p generalizing s with
  | pure value => cases member
  | throw error => cases member
  | call op' next ih =>
      rcases List.mem_cons.1 member with here | later
      · cases here
        exact .here (allowed _ _)
      · refine .later (allowed op' s) ?_
        rw [← moves op' s]
        exact ih _ _ later

end Run

/-! ## Failures that end a program -/

section Propagation

variable {S : Signature} {ε α β : Type} (failure? : Event S → Option ε)

/-- A call that fails ends the program with its error. -/
def Propagates : Program S ε α → Prop
  | .pure _ | .throw _ => True
  | .call op next => ∀ answer, (∀ error, failure? ⟨op, answer⟩ = some error →
      next answer = .throw error) ∧ (next answer).Propagates

variable {failure?}

theorem propagates_ofExcept {outcome : Except ε α} :
    (ofExcept outcome : Program S ε α).Propagates failure? := by
  cases outcome <;> trivial

theorem propagates_bind {p : Program S ε α} {f : α → Program S ε β}
    (first : p.Propagates failure?) (rest : ∀ value, (f value).Propagates failure?) :
    (p >>= f).Propagates failure? := by
  induction p with
  | pure value => exact rest value
  | throw error => trivial
  | call op next ih =>
      refine fun answer => ⟨fun error failed => ?_, ih answer (first answer).2⟩
      show (next answer).bind f = .throw error
      rw [(first answer).1 error failed]
      rfl

theorem propagates_forEach {body : β → Program S ε Unit} {xs : List β}
    (each : ∀ x ∈ xs, (body x).Propagates failure?) : (forEach xs body).Propagates failure? := by
  induction xs with
  | nil => trivial
  | cons x xs ih =>
      exact propagates_bind (each x (List.mem_cons_self ..)) fun _ =>
        ih fun y member => each y (List.mem_cons_of_mem _ member)

/-- A run that returns has no failed call, so it is one of any reading that takes the calls
that do not fail. -/
theorem Propagates.exec_ok {W : Type} {I J : Interp S W} {p : Program S ε α} {w w' : W} {value : α}
    (body : p.Propagates failure?) (same : J.next = I.next)
    (sound : ∀ w op answer, I.allowed w op answer → failure? ⟨op, answer⟩ = none →
      J.allowed w op answer)
    (run : Exec I p w (.ok value) w') : Exec J p w (.ok value) w' := by
  induction p generalizing w with
  | pure value' =>
      cases run
      exact .pure _ _
  | throw error => cases run
  | call op next ih =>
      cases run with
      | @call _ _ _ answer _ _ allowed rest =>
          obtain ⟨ends, goesOn⟩ := body answer
          have fine : failure? ⟨op, answer⟩ = none := by
            refine Option.eq_none_iff_forall_ne_some.2 fun error failed => ?_
            rw [ends error failed] at rest
            cases rest
          refine .call (sound w op answer allowed fine) ?_
          rw [same]
          exact ih answer goesOn rest

/-- **A failed call is the end of the run**: the result is its error. -/
theorem Propagates.exec {W : Type} {I : Interp S W} {p : Program S ε α}
    {s s' : W × List (Event S)} {result : Except ε α} (body : p.Propagates failure?)
    (run : Exec I.recorded p s result s') {event : Event S} (made : event ∈ s'.2) :
    event ∈ s.2 ∨ ∀ error, failure? event = some error → result = .error error := by
  induction run with
  | pure value s => exact .inl made
  | throw error s => exact .inl made
  | @call op next s answer result s' allowed rest ih =>
      obtain ⟨ends, goesOn⟩ := body answer
      refine (ih goesOn made).elim (fun before => ?_) .inr
      rcases List.mem_cons.1 before with rfl | earlier
      · refine .inr fun error failed => ?_
        rw [ends error failed] at rest
        cases rest
        rfl
      · exact .inl earlier

end Propagation

end Program

/-! ## Boot, run, crash, boot again -/

section Lifetimes

variable {S : Signature} {W ε α ι : Type} (I : Interp S W) (life : ι → Program S ε α)
  (crash : W → W) (start : W)

/-- The worlds in which a process may boot: at first `start`, then whatever a crash
leaves of a world that some cut run of some lifetime reached. -/
inductive Lifetimes : W → Prop
  | boot : Lifetimes start
  | crashed {w w' : W} (i : ι) (prior : Lifetimes w) (cut : (life i).Reach I w w') :
      Lifetimes (crash w')

/-- A world that some cut run of some lifetime reaches. -/
def Reachable (w' : W) : Prop :=
  ∃ w i, Lifetimes I life crash start w ∧ (life i).Reach I w w'

/-- A call that some lifetime makes, with the world it is made in and the answer to it. -/
def Made (w' : W) (op : S.Op) (answer : S.Ans op) : Prop :=
  ∃ w i, Lifetimes I life crash start w ∧ (life i).Calls I w w' op answer

variable {I life crash start} {G : Guarantee S W} {Q : Except ε α → W → Prop} {safe : W → Prop}

/-- An invariant that holds at first, that every call keeps and a crash cannot break,
holds wherever a process boots. -/
theorem Lifetimes.inv (initial : safe start) (keeps : Program.Keeps I G safe)
    (survives : ∀ w, safe w → safe (crash w))
    (guaranteed : ∀ i w, safe w → (life i).wp I G Q w) {w : W}
    (booted : Lifetimes I life crash start w) : safe w := by
  induction booted with
  | boot => exact initial
  | crashed i prior cut ih => exact survives _ (Program.wp_reach keeps ih (guaranteed i _ ih) cut)

/-- **It holds in every world a lifetime reaches.** -/
theorem Reachable.inv (initial : safe start) (keeps : Program.Keeps I G safe)
    (survives : ∀ w, safe w → safe (crash w))
    (guaranteed : ∀ i w, safe w → (life i).wp I G Q w) {w : W}
    (reached : Reachable I life crash start w) : safe w := by
  obtain ⟨w₀, i, booted, cut⟩ := reached
  have here := booted.inv initial keeps survives guaranteed
  exact Program.wp_reach keeps here (guaranteed i _ here) cut

/-- **Every call a lifetime makes keeps the guarantee.** -/
theorem Made.guaranteed (initial : safe start) (keeps : Program.Keeps I G safe)
    (survives : ∀ w, safe w → safe (crash w))
    (guaranteed : ∀ i w, safe w → (life i).wp I G Q w) {w : W} {op : S.Op} {answer : S.Ans op}
    (made : Made I life crash start w op answer) : G w op answer := by
  obtain ⟨w₀, i, booted, call⟩ := made
  exact Program.wp_calls (guaranteed i _ (booted.inv initial keeps survives guaranteed)) call

end Lifetimes

end ComputerMoney.Theory

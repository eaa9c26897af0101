/-
# Theory.Parties -- programs over two environments, and what a pool shows of one member

A party calls two environments: its own machine, and something outside it (a wire, a clock,
a socket).  `Signature.sum` puts the two side by side, `Program.lift` takes a program over
the first for one over both, and `Interp.heard` reads the first as before and keeps the
answers of the second in a list.

`Program.resolve` is the way back.  It answers the second environment from a list, and what
remains is a program over the first.  `Reach.resolved` says that every cut run of a party is
a run of its program with the answers it heard filled in, so what is proved of the program
for every list of answers holds of the party whatever it hears, and whenever.

`Pool.project` does the same for a pool: what one member sees of an interleaving is a run of
that member alone.
-/
import ComputerMoney.Theory.Threads

namespace ComputerMoney.Theory

set_option autoImplicit false

/-- Two environments side by side. -/
@[reducible] def Signature.sum (S T : Signature) : Signature where
  Op := S.Op ⊕ T.Op
  Ans op := match op with
    | .inl op => S.Ans op
    | .inr op => T.Ans op

variable {S T : Signature} {W V ε α β : Type}

/-- The answer an event holds for `op`; one for another operation holds none. -/
def Event.answer [DecidableEq T.Op] (absent : (op : T.Op) → T.Ans op) (event : Event T)
    (op : T.Op) : T.Ans op :=
  if same : event.1 = op then same ▸ event.2 else absent op

@[simp] theorem Event.answer_self [DecidableEq T.Op] (absent : (op : T.Op) → T.Ans op)
    (op : T.Op) (answer : T.Ans op) : Event.answer absent ⟨op, answer⟩ op = answer := by
  simp [Event.answer]

/-- Each environment as its own reading has it. -/
def Interp.beside (I : Interp S W) (J : Interp T V) : Interp (S.sum T) (W × V) where
  allowed s
    | .inl op => I.allowed s.1 op
    | .inr op => J.allowed s.2 op
  next s
    | .inl op => fun answer => (I.next s.1 op answer, s.2)
    | .inr op => fun answer => (s.1, J.next s.2 op answer)

/-- The reading that answers as it likes and keeps its answers, the last first. -/
def Interp.anything : Interp T (List (Event T)) where
  allowed _ _ _ := True
  next events op answer := ⟨op, answer⟩ :: events

/-- The first environment as `I` reads it; of the second, what was heard. -/
def Interp.heard (I : Interp S W) : Interp (S.sum T) (W × List (Event T)) := I.beside .anything

/-- A reading of both, for programs that call the first only. -/
def Interp.left (J : Interp (S.sum T) V) : Interp S V where
  allowed v op := J.allowed v (.inl op)
  next v op := J.next v (.inl op)

/-- And for those that call the second only. -/
def Interp.right (J : Interp (S.sum T) V) : Interp T V where
  allowed v op := J.allowed v (.inr op)
  next v op := J.next v (.inr op)

namespace Program

/-! ## Lifting -/

/-- A program over the first environment. -/
def lift : Program S ε α → Program (S.sum T) ε α
  | .pure value => .pure value
  | .throw error => .throw error
  | .call op next => .call (.inl op) fun answer => (next answer).lift

@[simp] theorem lift_pure (value : α) :
    (Program.pure value : Program S ε α).lift = (.pure value : Program (S.sum T) ε α) := rfl

@[simp] theorem lift_throw (error : ε) :
    (Program.throw error : Program S ε α).lift = (.throw error : Program (S.sum T) ε α) := rfl

@[simp] theorem lift_call (op : S.Op) (next : S.Ans op → Program S ε α) :
    (Program.call op next).lift =
      (.call (.inl op) fun answer => (next answer).lift : Program (S.sum T) ε α) := rfl

theorem lift_bind (p : Program S ε α) (f : α → Program S ε β) :
    ((p >>= f).lift : Program (S.sum T) ε β) = p.lift >>= fun value => (f value).lift := by
  induction p with
  | pure value => rfl
  | throw error => rfl
  | call op next ih =>
      exact congrArg (Program.call (S := S.sum T) (.inl op)) (funext fun answer => ih answer)

/-- A program over the second environment. -/
def liftRight : Program T ε α → Program (S.sum T) ε α
  | .pure value => .pure value
  | .throw error => .throw error
  | .call op next => .call (.inr op) fun answer => (next answer).liftRight

section Parts

variable {J : Interp (S.sum T) V} {G : Guarantee (S.sum T) V}

theorem wp_lift {p : Program S ε α} {Q : Except ε α → V → Prop} {v : V} :
    wp J G Q p.lift v ↔ wp J.left (fun v op answer => G v (.inl op) answer) Q p v := by
  induction p generalizing v with
  | pure value => exact Iff.rfl
  | throw error => exact Iff.rfl
  | call op next ih =>
      exact forall_congr' fun answer => imp_congr_right fun _ => and_congr_right fun _ => ih answer

theorem wp_liftRight {q : Program T ε α} {Q : Except ε α → V → Prop} {v : V} :
    wp J G Q q.liftRight v ↔ wp J.right (fun v op answer => G v (.inr op) answer) Q q v := by
  induction q generalizing v with
  | pure value => exact Iff.rfl
  | throw error => exact Iff.rfl
  | call op next ih =>
      exact forall_congr' fun answer => imp_congr_right fun _ => and_congr_right fun _ => ih answer

end Parts

section Beside

variable {I : Interp S W} {J : Interp T V}

/-- What is promised of the calls of the second environment. -/
def Guarantee.aside (G : Guarantee T V) : Guarantee (S.sum T) (W × V) := fun s op => match op with
  | .inl _ => fun _ => True
  | .inr op => G s.2 op

variable {G : Guarantee T V}

/-- The first environment is asked: the second stands still. -/
theorem wp_beside_lift {p : Program S ε α} {Q : Except ε α → W × V → Prop} {w : W} {v : V}
    (ends : ∀ result w', Q result (w', v)) : wp (I.beside J) (Guarantee.aside G) Q p.lift (w, v) := by
  induction p generalizing w with
  | pure value => exact ends _ _
  | throw error => exact ends _ _
  | call op next ih =>
      intro answer allowed
      exact ⟨trivial, ih answer⟩

theorem wp_beside_liftRight {q : Program T ε α} {Q : Except ε α → W × V → Prop} {w : W} {v : V} :
    wp (I.beside J) (Guarantee.aside G) Q q.liftRight (w, v) ↔
      wp J G (fun result v' => Q result (w, v')) q v := by
  induction q generalizing v with
  | pure value => exact Iff.rfl
  | throw error => exact Iff.rfl
  | call op next ih =>
      exact forall_congr' fun answer => imp_congr_right fun _ => and_congr_right fun _ => ih answer

end Beside

/-! ## Resolving -/

section Resolve

variable [DecidableEq T.Op] (absent : (op : T.Op) → T.Ans op)

/-- Answer the second environment from the list, and with `absent` when that is used up. -/
def resolve : Program (S.sum T) ε α → List (Event T) → Program S ε α
  | .pure value, _ => .pure value
  | .throw error, _ => .throw error
  | .call (.inl op) next, events => .call op fun answer => resolve (next answer) events
  | .call (.inr op) next, [] => resolve (next (absent op)) []
  | .call (.inr op) next, event :: events => resolve (next (event.answer absent op)) events

@[simp] theorem resolve_pure (value : α) (events : List (Event T)) :
    resolve absent (.pure value : Program (S.sum T) ε α) events = .pure value := rfl

@[simp] theorem resolve_throw (error : ε) (events : List (Event T)) :
    resolve absent (.throw error : Program (S.sum T) ε α) events = .throw error := rfl

@[simp] theorem resolve_inl (op : S.Op) (next : S.Ans op → Program (S.sum T) ε α)
    (events : List (Event T)) :
    resolve absent (.call (.inl op) next) events =
      .call op fun answer => resolve absent (next answer) events := rfl

@[simp] theorem resolve_inr_nil (op : T.Op) (next : T.Ans op → Program (S.sum T) ε α) :
    resolve absent (.call (.inr op) next) [] = resolve absent (next (absent op)) [] := rfl

@[simp] theorem resolve_inr_cons (op : T.Op) (next : T.Ans op → Program (S.sum T) ε α)
    (event : Event T) (events : List (Event T)) :
    resolve absent (.call (.inr op) next) (event :: events) =
      resolve absent (next (event.answer absent op)) events := rfl

/-- What the first environment is asked uses up nothing. -/
theorem resolve_lift_bind (p : Program S ε α) (f : α → Program (S.sum T) ε β)
    (events : List (Event T)) :
    resolve absent (p.lift >>= f) events = p >>= fun value => resolve absent (f value) events := by
  induction p with
  | pure value => rfl
  | throw error => rfl
  | call op next ih =>
      exact congrArg (Program.call op) (funext fun answer => ih answer)

theorem resolve_lift (p : Program S ε α) (events : List (Event T)) :
    resolve absent p.lift events = p := by
  induction p with
  | pure value => rfl
  | throw error => rfl
  | call op next ih =>
      exact congrArg (Program.call op) (funext fun answer => ih answer)

/-- What is asked of the second environment alone is settled by its answers. -/
theorem resolve_liftRight_bind (q : Program T ε α) (events : List (Event T)) :
    ∃ (outcome : Except ε α) (rest : List (Event T)), rest <:+ events ∧
      ∀ {β : Type} (f : α → Program (S.sum T) ε β),
        resolve absent (q.liftRight >>= f) events = match outcome with
          | .ok value => resolve absent (f value) rest
          | .error error => .throw error := by
  induction q generalizing events with
  | pure value => exact ⟨.ok value, events, List.suffix_rfl, fun _ => rfl⟩
  | throw error => exact ⟨.error error, events, List.suffix_rfl, fun _ => rfl⟩
  | call op next ih =>
      cases events with
      | nil =>
          obtain ⟨outcome, rest, ends, same⟩ := ih (absent op) []
          exact ⟨outcome, rest, ends, fun f => same f⟩
      | cons event events =>
          obtain ⟨outcome, rest, ends, same⟩ := ih (event.answer absent op) events
          exact ⟨outcome, rest, ends.trans (List.suffix_cons ..), fun f => same f⟩

variable {I : Interp S W}

/-- **A cut run of a party is a cut run of its program with the answers it heard.** -/
theorem Reach.resolved {p : Program (S.sum T) ε α} {s s' : W × List (Event T)}
    (cut : Reach I.heard p s s') :
    ∃ new, s'.2 = new ++ s.2 ∧ Reach I (resolve absent p new.reverse) s.1 s'.1 := by
  induction cut with
  | here p s => exact ⟨[], rfl, .here _ _⟩
  | @call op next s answer s' allowed rest ih =>
      obtain ⟨new, heard, reach⟩ := ih
      cases op with
      | inl op => exact ⟨new, heard, .call allowed reach⟩
      | inr op =>
          refine ⟨new ++ [⟨op, answer⟩], ?_, ?_⟩
          · rw [heard, List.append_assoc]
            rfl
          · have first : resolve absent (.call (.inr op) next) (⟨op, answer⟩ :: new.reverse) =
                resolve absent (next answer) new.reverse :=
              congrArg (fun known => resolve absent (next known) new.reverse)
                (Event.answer_self absent op answer)
            rw [List.reverse_append, List.reverse_singleton, List.singleton_append, first]
            exact reach

end Resolve

end Program

/-! ## Readings of a cut run -/

namespace Program

variable {I : Interp S W} {p : Program S ε α} {w w' : W}

theorem Reach.unrestricted {assume : Guarantee S W} (cut : Reach (I.restrict assume) p w w') :
    Reach I p w w' := by
  induction cut with
  | here p w => exact .here _ _
  | call allowed _ ih => exact .call allowed.1 ih

theorem Exec.unrestricted {assume : Guarantee S W} {result : Except ε α}
    (run : Exec (I.restrict assume) p w result w') : Exec I p w result w' := by
  induction run with
  | pure value w => exact .pure _ _
  | throw error w => exact .throw _ _
  | call allowed _ ih => exact .call allowed.1 ih

theorem Reach.of_throw {error : ε} (cut : Reach I (.throw error : Program S ε α) w w') : w' = w := by
  cases cut
  rfl

/-- A cut run of a bind is cut in its first part, or in the rest. -/
theorem Reach.of_bind {f : α → Program S ε β} (cut : Reach I (p >>= f) w w') :
    Reach I p w w' ∨ ∃ value w₁, Exec I p w (.ok value) w₁ ∧ Reach I (f value) w₁ w' := by
  induction p generalizing w with
  | pure value => exact .inr ⟨value, w, .pure _ _, cut⟩
  | throw error =>
      cases cut
      exact .inl (.here _ _)
  | call op next ih =>
      cases cut with
      | here => exact .inl (.here _ _)
      | call allowed rest =>
          refine (ih _ rest).imp (.call allowed) ?_
          rintro ⟨value, w₁, start, rest⟩
          exact ⟨value, w₁, .call allowed start, rest⟩

theorem Reach.bind_left {f : α → Program S ε β} (cut : Reach I p w w') : Reach I (p >>= f) w w' := by
  induction cut with
  | here p w => exact .here _ _
  | call allowed _ ih => exact .call allowed ih

theorem Reach.bind {f : α → Program S ε β} {value : α} {w₁ : W} (start : Exec I p w (.ok value) w₁)
    (rest : Reach I (f value) w₁ w') : Reach I (p >>= f) w w' := by
  generalize ended : (.ok value : Except ε α) = result at start
  induction start with
  | pure value w =>
      cases ended
      exact rest
  | throw error w => cases ended
  | call allowed _ ih => exact .call allowed (ih rest ended)

/-- A cut run with its calls kept. -/
theorem Reach.recorded (cut : Reach I p w w') (past : List (Event S)) :
    ∃ past', Reach I.recorded p (w, past) (w', past') := by
  induction cut generalizing past with
  | here p w => exact ⟨past, .here _ _⟩
  | @call op next w answer w' allowed _ ih =>
      obtain ⟨past', rest⟩ := ih (⟨op, answer⟩ :: past)
      exact ⟨past', .call allowed rest⟩

end Program

/-! ## One member of a pool -/

/-- A cut run, and what is left of the program. -/
inductive Program.Leads {S : Signature} {V ε α : Type} (J : Interp S V) :
    Program S ε α → V → Program S ε α → V → Prop
  | here (p : Program S ε α) (v : V) : Leads J p v p v
  | call {op : S.Op} {next : S.Ans op → Program S ε α} {v : V} {answer : S.Ans op}
      {p' : Program S ε α} {v' : V} (allowed : J.allowed v op answer)
      (rest : Leads J (next answer) (J.next v op answer) p' v') :
      Leads J (.call op next) v p' v'

namespace Program

variable {J : Interp S V} {p p' : Program S ε α} {v v' : V}

theorem Leads.reach (leads : Leads J p v p' v') : Reach J p v v' := by
  induction leads with
  | here p v => exact .here _ _
  | call allowed _ ih => exact .call allowed ih

/-- A run that leaves nothing of the program is complete. -/
theorem Leads.exec {value : α} (leads : Leads J p v (.pure value) v') : Exec J p v (.ok value) v' := by
  generalize ends : (.pure value : Program S ε α) = last at leads
  induction leads with
  | here p v =>
      subst ends
      exact .pure _ _
  | call allowed _ ih => exact .call allowed (ih ends)

theorem Leads.unlifted {U : Signature} {K : Interp (S.sum U) V} {q : Program S ε α}
    {q' : Program (S.sum U) ε α} (leads : Leads K q.lift v q' v') :
    ∃ p', q' = p'.lift ∧ Leads K.left q v p' v' := by
  generalize starts : (q.lift : Program (S.sum U) ε α) = first at leads
  induction leads generalizing q with
  | here _ v => exact ⟨q, starts.symm, .here _ _⟩
  | call allowed _ ih =>
      cases q with
      | pure value => cases starts
      | throw error => cases starts
      | call op next =>
          cases starts
          obtain ⟨p', is, rest⟩ := ih rfl
          exact ⟨p', is, .call allowed rest⟩

end Program

namespace Pool

open Program

variable {I : ℕ → Interp S W} {J : Interp S V}

/-- **One member's view of an interleaving is a run of that member.**  Its own calls are calls
of the reading `J` on what it sees, and the others' calls change nothing of that. -/
theorem project (view : W → V) (i : ℕ)
    (mine : ∀ w op answer, (I i).allowed w op answer →
      J.allowed (view w) op answer ∧ view ((I i).next w op answer) = J.next (view w) op answer)
    {pool pool' : Pool S ε α}
    (others : ∀ j w op answer, j < pool.length → j ≠ i → (I j).allowed w op answer →
      view ((I j).next w op answer) = view w)
    {w w' : W} {p : Program S ε α} (member : pool[i]? = some p)
    (steps : Relation.ReflTransGen (Step I) (pool, w) (pool', w')) :
    ∃ p', pool'[i]? = some p' ∧ Leads J p (view w) p' (view w') := by
  generalize starts : (pool, w) = first at steps
  induction steps using Relation.ReflTransGen.head_induction_on generalizing pool w p with
  | refl =>
      cases starts
      exact ⟨p, member, .here _ _⟩
  | head step _ ih =>
      obtain @⟨pool, w, j, op, next, answer, turn, allowed⟩ := step
      cases starts
      have within : j < pool.length := (List.getElem?_eq_some_iff.1 turn).1
      have others' := others
      rw [← List.length_set (i := j) (a := next answer)] at others'
      rcases eq_or_ne j i with rfl | different
      · obtain rfl : .call op next = p := Option.some.inj (turn.symm.trans member)
        obtain ⟨allowed', moved⟩ := mine w op answer allowed
        obtain ⟨p', left, rest⟩ := ih others' (List.getElem?_set_self within) rfl
        rw [moved] at rest
        exact ⟨p', left, .call allowed' rest⟩
      · have still : (pool.set j (next answer))[i]? = some p := by
          rw [List.getElem?_set_ne different, member]
        obtain ⟨p', left, rest⟩ := ih others' still rfl
        rw [others j w op answer within different allowed] at rest
        exact ⟨p', left, rest⟩

/-- What every call of every member keeps, an interleaving keeps. -/
theorem always {inv : W → Prop} {pool : Pool S ε α} {w w' : W} (start : inv w)
    (keeps : ∀ i w op answer, (I i).allowed w op answer → inv w → inv ((I i).next w op answer))
    (reaches : Reaches I pool w w') : inv w' := by
  obtain ⟨pool', steps⟩ := reaches
  generalize ends : (pool', w') = last at steps
  induction steps generalizing pool' w' with
  | refl =>
      cases ends
      exact start
  | tail _ step ih =>
      obtain @⟨pool, w, i, op, next, answer, turn, allowed⟩ := step
      cases ends
      exact keeps i _ _ _ allowed (ih _ rfl)

end Pool

end ComputerMoney.Theory

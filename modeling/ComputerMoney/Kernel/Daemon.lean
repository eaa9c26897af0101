/-
# Kernel.Daemon -- the loop of `serve`, with its clock and its socket

`Kernel.Serve` is given the list of the daemon's duties.  Here is the loop that makes that
list: on each pass it reads the clock, republishes the card and watches the chain if that is
due, and then accepts sessions until the socket has been quiet for one slice.  What it asks
besides the ledger's operations is the socket (`udp`) and the few calls of `deed`: the lock of
the wallet's directory, the bind, the publication, how many pages the server has for a watch,
and what a buyer will say.

`resolve_daemon` is the refinement: with those answers filled in, the loop is `Kernel.Serve`'s
daemon over a list of duties.  The loop has no end; it is cut after `n` turns.
-/
import ComputerMoney.Kernel.Handshake
import ComputerMoney.Kernel.Serve

namespace ComputerMoney.Kernel.Daemon

set_option autoImplicit false

open Theory Theory.Program Tunnel

/-! ## The environment of the loop -/

inductive DeedOp where
  | lockDir
  | bind
  /-- `republish`: the card is built, signed and put; what comes of it is logged. -/
  | republish
  /-- How many pages of a block the server has for the scan of a watch. -/
  | pages
  /-- What the buyer of the session just opened will send, and how its wire ends. -/
  | buyer
  deriving DecidableEq, Repr

def DeedOp.Ans : DeedOp → Type
  | .lockDir | .bind | .republish => Except Error Unit
  | .pages => ℕ
  | .buyer => List Message × Except Error Unit

@[reducible] def deed : Signature := ⟨DeedOp, DeedOp.Ans⟩

/-- Everything but the ledger's machine. -/
@[reducible] def around : Signature := udp.sum deed

abbrev Around (α : Type) := Program around Error α

/-- A program of the loop, beside the ledger's machine. -/
abbrev Loop (α : Type) := Program (sig.sum around) Error α

/-- Calls to the socket or the clock. -/
def socket {α : Type} (p : Udp α) : Loop α := (p.lift : Around α).liftRight

def lockDir : Around Unit := .call (.inr .lockDir) .ofExcept

def bind : Around Unit := .call (.inr .bind) .ofExcept

/-- A failure is only logged. -/
def republish : Around Unit := .call (.inr .republish) fun _ => .pure ()

def pages : Around ℕ := .call (.inr .pages) .pure

def buyer : Around (List Message × Except Error Unit) := .call (.inr .buyer) .pure

/-! ## The loop -/

def republishInterval : ℕ := secs (45 * 60)

def watchInterval : ℕ := secs 60

def readTimeout : ℕ := secs 1

/-- Whether a duty that last fired then is due now. -/
def due (lastFired : Option ℕ) (interval now : ℕ) : Bool :=
  match lastFired with
  | none => true
  | some t => interval ≤ now - t

/-- Fire the duty if it is due, and remember when. -/
def fire (lastFired : Option ℕ) (interval now : ℕ) (duty : Loop Unit) : Loop (Option ℕ) :=
  if due lastFired interval now then do
    duty
    return some now
  else return lastFired

/-- Where the loop is: at the head of a pass, or among its accepts. -/
inductive Phase where
  | top
  | accepting
  deriving DecidableEq, Repr

section

variable (host : Host) (wg : Wg) (identity : Except Error (List UInt8)) (led : Handle)

/-- The watch duty. -/
def watch : Loop Unit := do
  let pages ← pages.liftRight
  ((Duty.watch pages).perform host led).lift

/-- One session, and the short read timeout again. -/
def session : Loop Unit := do
  let (inbox, closed) ← buyer.liftRight
  ((Duty.session inbox closed).perform host led).lift
  socket (setReadTimeout readTimeout)

/-- The loop of `serve::run`. -/
def loop : ℕ → Phase → Option ℕ → Option ℕ → Loop Unit
  | 0, _, _, _ => .pure ()
  | n + 1, .top, lastPublish, lastWatch => do
      let now ← socket instant
      let lastPublish ← fire lastPublish republishInterval now republish.liftRight
      let lastWatch ← fire lastWatch watchInterval now (watch host led)
      loop n .accepting lastPublish lastWatch
  | n + 1, .accepting, lastPublish, lastWatch => do
      match ← socket (acceptAny wg identity).attempt with
      | .ok (some _) => do
          session host led
          loop n .accepting lastPublish lastWatch
      | .ok none => loop n .top lastPublish lastWatch
      | .error _ => loop n .top lastPublish lastWatch

/-- `serve::run`. -/
def daemon (n : ℕ) : Loop Unit := do
  lockDir.liftRight
  let led ← (Ledger.openWithIdentity : Prog Handle).lift
  bind.liftRight
  socket (setReadTimeout readTimeout)
  loop host wg identity led n .top none none

end

/-! ## The answers filled in -/

/-- The answers of a day on which nothing happens. -/
def quiet : (op : around.Op) → around.Ans op
  | .inl .instant => (0 : ℕ)
  | .inl (.setReadTimeout _) | .inl .tryClone | .inl (.sendTo _ _) => .ok ()
  | .inl .recvFrom => ⟨0, .idle⟩
  | .inr .lockDir | .inr .bind | .inr .republish => .ok ()
  | .inr .pages => (0 : ℕ)
  | .inr .buyer => ([], .ok ())

section Refinement

variable {host : Host} {wg : Wg} {identity : Except Error (List UInt8)} {led : Handle} {α : Type}

/-- The program works off a list of duties, and then ends somehow. -/
def Does (host : Host) (led : Handle) (p : Prog Unit) : Prop :=
  ∃ duties outcome,
    p = (.forEach duties (fun duty : Duty => duty.perform host led) >>= fun _ => .ofExcept outcome)

theorem does_ofExcept (outcome : Except Error Unit) : Does host led (.ofExcept outcome) :=
  ⟨[], outcome, rfl⟩

theorem Does.after {p : Prog Unit} (duty : Duty) (does : Does host led p) :
    Does host led (duty.perform host led >>= fun _ => p) := by
  obtain ⟨duties, outcome, rfl⟩ := does
  exact ⟨duty :: duties, outcome, by rw [forEach_cons, bind_bind]⟩

/-- What is asked around the ledger does none. -/
theorem does_around {q : Around α} {f : α → Loop Unit} (events : List (Event around))
    (does : ∀ value rest, Does host led (resolve quiet (f value) rest)) :
    Does host led (resolve quiet (q.liftRight >>= f) events) := by
  obtain ⟨outcome, rest, -, same⟩ := resolve_liftRight_bind quiet q events
  rw [same]
  cases outcome with
  | ok value => exact does value rest
  | error e => exact does_ofExcept (.error e)

theorem does_duty (duty : Duty) {f : Unit → Loop Unit} (events : List (Event around))
    (does : Does host led (resolve quiet (f ()) events)) :
    Does host led (resolve quiet ((duty.perform host led).lift >>= f) events) := by
  rw [resolve_lift_bind]
  exact does.after duty

theorem does_fire {lastFired : Option ℕ} {interval now : ℕ} {duty : Loop Unit}
    {f : Option ℕ → Loop Unit}
    (skipped : ∀ events, Does host led (resolve quiet (f lastFired) events))
    (fired : ∀ events, Does host led (resolve quiet (duty >>= fun _ => f (some now)) events))
    (events : List (Event around)) :
    Does host led (resolve quiet (fire lastFired interval now duty >>= f) events) := by
  unfold fire
  split
  · rw [bind_bind]
    exact fired events
  · exact skipped events

theorem does_loop (n : ℕ) (phase : Phase) (lastPublish lastWatch : Option ℕ)
    (events : List (Event around)) :
    Does host led (resolve quiet (loop host wg identity led n phase lastPublish lastWatch)
      events) := by
  induction n generalizing phase lastPublish lastWatch events with
  | zero => exact does_ofExcept (.ok ())
  | succ n ih =>
      cases phase with
      | top =>
          have watches : ∀ lastPublish now events, Does host led (resolve quiet
              (fire lastWatch watchInterval now (watch host led) >>= fun lastWatch =>
                loop host wg identity led n .accepting lastPublish lastWatch) events) := by
            intro lastPublish now
            refine does_fire (fun events => ih ..) fun events => ?_
            unfold watch
            rw [bind_bind]
            exact does_around events fun pages rest => does_duty _ rest (ih ..)
          refine does_around events fun now rest => ?_
          refine does_fire (fun events => watches _ now events) (fun events => ?_) rest
          exact does_around events fun _ rest => watches _ now rest
      | accepting =>
          refine does_around events fun accepted rest => ?_
          rcases accepted with e | none | accepted
          · exact ih ..
          · exact ih ..
          · show Does host led (resolve quiet (session host led >>= fun _ => _) rest)
            unfold session
            rw [bind_bind]
            refine does_around rest fun told rest => ?_
            show Does host led (resolve quiet ((_ >>= fun _ => _) >>= fun _ => _) rest)
            rw [bind_bind]
            exact does_duty _ rest (does_around rest fun _ rest => ih ..)

/-- **What a cut run of the loop leaves on the machine**, a cut run of the daemon over some
list of duties leaves there too. -/
theorem reach_daemon {n : ℕ} {s s' : World × List (Event around)}
    (cut : Reach (interp host).heard (daemon host wg identity n) s s') :
    ∃ duties, Reach (interp host) (serve host duties) s.1 s'.1 := by
  obtain ⟨new, -, resolved⟩ := cut.resolved quiet
  generalize new.reverse = events at resolved
  unfold daemon at resolved
  obtain ⟨locked, rest, -, same⟩ := resolve_liftRight_bind quiet lockDir events
  rw [same] at resolved
  rcases locked with e | ⟨⟩
  · rw [resolved.of_throw]
    exact ⟨[], .here _ _⟩
  dsimp only at resolved
  rw [resolve_lift_bind] at resolved
  rcases resolved.of_bind with opening | ⟨led, w₁, opened, resolved⟩
  · exact ⟨[], opening.bind_left⟩
  have does : Does host led (resolve quiet (bind.liftRight >>= fun _ =>
      socket (setReadTimeout readTimeout) >>= fun _ =>
        loop host wg identity led n .top none none) rest) :=
    does_around rest fun _ rest => does_around rest fun _ rest => does_loop ..
  obtain ⟨duties, outcome, is⟩ := does
  rw [is] at resolved
  refine ⟨duties, .bind opened ?_⟩
  rcases resolved.of_bind with cut | ⟨_, _, done, ending⟩
  · exact cut
  · cases outcome <;> cases ending <;> exact done.reach

end Refinement

end ComputerMoney.Kernel.Daemon

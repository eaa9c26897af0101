/-
# Safety.ServeLoop -- the daemon's loop: its refinement, its cadence, its read timeout

The loop of `serve::run` runs against the ledger's machine and, beside it, a clock, a socket
and buyers that answer as they like.

`loop_refines_serve`: whatever worlds the loop reaches over any number of crashes, the daemon
of `Kernel.Serve` reaches with some list of duties, so every safety result about that daemon
is one about the loop.

`serve_cadence`: a duty starts a whole interval after it last did, never later than the first
pass that finds it due, so a run of any length starts no more of them than its time allows.

`accept_slice`: an accept waits one second, except after a session that could not be answered:
there the long timeout of the session stays on the daemon's own socket.
-/
import ComputerMoney.Kernel.Daemon
import ComputerMoney.Kernel.Script

namespace ComputerMoney.Safety

set_option autoImplicit false

open Kernel Kernel.Tunnel Kernel.Daemon Theory Theory.Program

/-! ## What is watched of a run -/

/-- The kernel's clock and timeout, and every call around the ledger so far, the last first. -/
abbrev Seen := Deck × List (Event around)

namespace ServeLoop

def step (d : Deck) : (op : around.Op) → around.Ans op → Deck
  | .inl op => d.after op
  | .inr _ => fun _ => d

/-- The clock never goes back, a read waits no longer than the timeout, and all else answers
as it likes. -/
def watched : Interp around Seen where
  allowed v op := match op with
    | .inl op => v.1.allows False op
    | .inr _ => fun _ => True
  next v op answer := (step v.1 op answer, ⟨op, answer⟩ :: v.2)

/-- The time that the last look at the clock gave: the start of this pass. -/
def passBegan : List (Event around) → Option ℕ
  | [] => none
  | ⟨.inl .instant, now⟩ :: _ => some now
  | _ :: h => passBegan h

/-- The start of the pass that last started the duty. -/
def lastStart (duty : DeedOp) : List (Event around) → Option ℕ
  | [] => none
  | event :: h => if event.1 = .inr duty then passBegan h else lastStart duty h

def starts (duty : DeedOp) (h : List (Event around)) : ℕ :=
  h.countP fun event => event.1 = .inr duty

/-- This pass begins a whole interval after the one that last started the duty. -/
def Spaced (duty : DeedOp) (interval : ℕ) (h : List (Event around)) : Prop :=
  ∃ now, passBegan h = some now ∧ ∀ t, lastStart duty h = some t → t + interval ≤ now

/-- The duty was started, less than an interval before this pass began. -/
def Fresh (duty : DeedOp) (interval : ℕ) (h : List (Event around)) : Prop :=
  ∃ now t, passBegan h = some now ∧ lastStart duty h = some t ∧ t ≤ now ∧ now < t + interval

def raise : Event around := ⟨.inl (.setReadTimeout recvTimeout), .ok ()⟩

def restore : Event around := ⟨.inl (.setReadTimeout readTimeout), .ok ()⟩

def Unsent (event : Event around) : Prop :=
  ∃ datagram peer e, event = ⟨.inl (.sendTo datagram peer), .error e⟩

/-- The timeout was raised for a session whose response could not be sent, and was not restored
since. -/
def Raised (h : List (Event around)) : Prop :=
  ∃ later unsent earlier, h = later ++ unsent :: raise :: earlier ∧ Unsent unsent ∧ restore ∉ later

/-! ## One more call -/

section Calls

variable {duty : DeedOp} {interval : ℕ} {h : List (Event around)} {event : Event around}

@[simp] theorem passBegan_instant (now : ℕ) : passBegan (⟨.inl .instant, now⟩ :: h) = some now := rfl

theorem passBegan_cons (other : event.1 ≠ .inl .instant) : passBegan (event :: h) = passBegan h := by
  obtain ⟨op | op, answer⟩ := event
  · cases op with
    | instant => exact absurd rfl other
    | setReadTimeout | tryClone | sendTo | recvFrom => rfl
  · rfl

theorem lastStart_cons (other : event.1 ≠ .inr duty) :
    lastStart duty (event :: h) = lastStart duty h := by
  rw [lastStart, if_neg other]

theorem lastStart_start (answer : duty.Ans) :
    lastStart duty (⟨.inr duty, answer⟩ :: h) = passBegan h := by
  rw [lastStart, if_pos rfl]

theorem starts_cons (other : event.1 ≠ .inr duty) : starts duty (event :: h) = starts duty h := by
  unfold starts
  rw [List.countP_cons_of_neg]
  simpa using other

theorem starts_start (answer : duty.Ans) : starts duty (⟨.inr duty, answer⟩ :: h) = starts duty h + 1 :=
  List.countP_cons_of_pos (by simp)

theorem Fresh.cons (fresh : Fresh duty interval h) (pass : event.1 ≠ .inl .instant)
    (other : event.1 ≠ .inr duty) : Fresh duty interval (event :: h) := by
  unfold Fresh
  rw [passBegan_cons pass, lastStart_cons other]
  exact fresh

theorem fresh_start {now : ℕ} (answer : duty.Ans) (pass : passBegan h = some now)
    (positive : 0 < interval) : Fresh duty interval (⟨.inr duty, answer⟩ :: h) := by
  refine ⟨now, now, ?_, ?_, le_rfl, Nat.lt_add_of_pos_right positive⟩
  · rw [passBegan_cons (by simp), pass]
  · rw [lastStart_start, pass]

theorem raised_cons (sent : ¬Unsent event) : Raised (event :: h) ↔ event ≠ restore ∧ Raised h := by
  constructor
  · rintro ⟨later, unsent, earlier, is, failed, kept⟩
    cases later with
    | nil =>
        cases is
        exact absurd failed sent
    | cons first later =>
        cases is
        rw [List.mem_cons, not_or] at kept
        exact ⟨Ne.symm kept.1, later, unsent, earlier, rfl, failed, kept.2⟩
  · rintro ⟨other, later, unsent, earlier, rfl, failed, kept⟩
    refine ⟨event :: later, unsent, earlier, rfl, failed, ?_⟩
    rw [List.mem_cons, not_or]
    exact ⟨Ne.symm other, kept⟩

theorem raised_unsent (failed : Unsent event) : Raised (event :: raise :: h) :=
  ⟨[], event, h, rfl, failed, by simp⟩

end Calls

/-! ## The invariants -/

/-- What the loop remembers of a duty is when it last started it, and it started it no oftener
than once an interval. -/
structure OnTime (duty : DeedOp) (interval start : ℕ) (last : Option ℕ) (v : Seen) : Prop where
  begun : start ≤ v.1.clock
  remembered : lastStart duty v.2 = last
  past : ∀ t, last = some t → t ≤ v.1.clock
  never : last = none → starts duty v.2 = 0
  rate : ∀ t, last = some t → starts duty v.2 * interval + start ≤ t + interval

namespace OnTime

variable {duty : DeedOp} {interval start : ℕ} {last : Option ℕ} {d d' : Deck}
  {h : List (Event around)}

theorem init : OnTime duty interval d.clock none (d, []) where
  begun := le_rfl
  remembered := rfl
  past := by simp
  never _ := rfl
  rate := by simp

/-- A call that does not start the duty. -/
theorem cons {event : Event around} (onTime : OnTime duty interval start last (d, h))
    (later : d.clock ≤ d'.clock) (other : event.1 ≠ .inr duty) :
    OnTime duty interval start last (d', event :: h) where
  begun := onTime.begun.trans later
  remembered := (lastStart_cons other).trans onTime.remembered
  past t is := (onTime.past t is).trans later
  never is := (starts_cons other).trans (onTime.never is)
  rate t is := by
    show starts duty (event :: h) * interval + start ≤ t + interval
    rw [starts_cons other]
    exact onTime.rate t is

/-- The start of a duty that is due. -/
theorem fire (onTime : OnTime duty interval start last (d, h)) (answer : duty.Ans)
    (pass : passBegan h = some d.clock) (isDue : due last interval d.clock = true) :
    OnTime duty interval start (some d.clock) (d, ⟨.inr duty, answer⟩ :: h) where
  begun := onTime.begun
  remembered := (lastStart_start answer).trans pass
  past t is := by
    cases is
    exact le_rfl
  never is := by cases is
  rate t is := by
    cases is
    have begun : start ≤ d.clock := onTime.begun
    show starts duty (⟨.inr duty, answer⟩ :: h) * interval + start ≤ d.clock + interval
    rw [starts_start, Nat.succ_mul]
    cases last with
    | none =>
        have none : starts duty h = 0 := onTime.never rfl
        rw [none]
        omega
    | some t =>
        have rate : starts duty h * interval + start ≤ t + interval := onTime.rate t rfl
        have past : t ≤ d.clock := onTime.past t rfl
        have spaced : interval ≤ d.clock - t := of_decide_eq_true isDue
        omega

theorem spaced (onTime : OnTime duty interval start last (d, h)) (pass : passBegan h = some d.clock)
    (isDue : due last interval d.clock = true) : Spaced duty interval h := by
  refine ⟨d.clock, pass, fun t is => ?_⟩
  obtain rfl : last = some t := onTime.remembered.symm.trans is
  have past : t ≤ d.clock := onTime.past t rfl
  have spaced : interval ≤ d.clock - t := of_decide_eq_true isDue
  omega

/-- A duty that is not due was started lately. -/
theorem fresh (onTime : OnTime duty interval start last (d, h)) (pass : passBegan h = some d.clock)
    (notDue : due last interval d.clock = false) : Fresh duty interval h := by
  cases last with
  | none => cases notDue
  | some t =>
      have past : t ≤ d.clock := onTime.past t rfl
      have near : ¬interval ≤ d.clock - t := of_decide_eq_false notDue
      exact ⟨d.clock, t, pass, onTime.remembered, past, by omega⟩

/-- **The starts of a duty are bounded by the time that has passed.** -/
theorem bounded {v : Seen} (onTime : OnTime duty interval start last v) :
    starts duty v.2 * interval + start ≤ v.1.clock + interval := by
  have begun := onTime.begun
  cases last with
  | none =>
      rw [onTime.never rfl]
      omega
  | some t =>
      have rate := onTime.rate t rfl
      have past := onTime.past t rfl
      omega

end OnTime

/-- The timeout is the short slice, or the long one that a session left behind. -/
def Slice (v : Seen) : Prop :=
  (v.1.timeout = readTimeout ∧ ¬Raised v.2) ∨ (v.1.timeout = recvTimeout ∧ Raised v.2)

theorem Slice.cons {d d' : Deck} {h : List (Event around)} {event : Event around}
    (slice : Slice (d, h)) (same : d'.timeout = d.timeout)
    (sent : ∀ datagram peer, event.1 ≠ .inl (.sendTo datagram peer))
    (other : event.1 ≠ .inl (.setReadTimeout readTimeout)) : Slice (d', event :: h) := by
  have delivered : ¬Unsent event := by
    rintro ⟨datagram, peer, e, rfl⟩
    exact sent datagram peer rfl
  have kept : event ≠ restore := by
    rintro rfl
    exact other rfl
  unfold Slice
  rw [raised_cons delivered, same]
  simp only [ne_eq, kept, not_false_eq_true, true_and]
  exact slice

theorem slice_restore {d : Deck} {h : List (Event around)} :
    Slice ({ d with timeout := readTimeout }, restore :: h) := by
  refine .inl ⟨rfl, fun raised => ?_⟩
  have sent : ¬Unsent restore := by
    rintro ⟨_, _, _, is⟩
    cases is
  exact ((raised_cons sent).1 raised).1 rfl

theorem slice_unsent {d : Deck} {h : List (Event around)} {event : Event around}
    (failed : Unsent event) : Slice ({ d with timeout := recvTimeout }, event :: raise :: h) :=
  .inr ⟨rfl, raised_unsent failed⟩

/-- Both duties are on time. -/
structure Timely (start : ℕ) (lastPublish lastWatch : Option ℕ) (v : Seen) : Prop where
  publish : OnTime .republish republishInterval start lastPublish v
  watch : OnTime .pages watchInterval start lastWatch v

theorem Timely.cons {start : ℕ} {lastPublish lastWatch : Option ℕ} {d d' : Deck}
    {h : List (Event around)} {event : Event around}
    (timely : Timely start lastPublish lastWatch (d, h)) (later : d.clock ≤ d'.clock)
    (publish : event.1 ≠ .inr .republish) (watch : event.1 ≠ .inr .pages) :
    Timely start lastPublish lastWatch (d', event :: h) :=
  ⟨timely.publish.cons later publish, timely.watch.cons later watch⟩

/-- Neither duty was overdue when this pass began. -/
def NoneDue (h : List (Event around)) : Prop :=
  Fresh .republish republishInterval h ∧ Fresh .pages watchInterval h

theorem NoneDue.cons {h : List (Event around)} {event : Event around} (noneDue : NoneDue h)
    (pass : event.1 ≠ .inl .instant) (publish : event.1 ≠ .inr .republish)
    (watch : event.1 ≠ .inr .pages) : NoneDue (event :: h) :=
  ⟨noneDue.1.cons pass publish, noneDue.2.cons pass watch⟩

/-- What is promised of each call around the ledger, of a run that began at `start`. -/
structure Punctual (start : ℕ) (v : Seen) (op : around.Op) (answer : around.Ans op) : Prop where
  publishes : op = .inr .republish → Spaced .republish republishInterval v.2
  watches : op = .inr .pages → Spaced .pages watchInterval v.2
  accepts : op = .inl .recvFrom → NoneDue v.2
  published : starts .republish v.2 * republishInterval + start ≤ v.1.clock + republishInterval
  watched : starts .pages v.2 * watchInterval + start ≤ v.1.clock + watchInterval

/-- What is promised of each read: how long it may wait, and why. -/
def Patient (v : Seen) : (op : around.Op) → around.Ans op → Prop
  | .inl .recvFrom => fun waited => Slice v ∧ Waited.nanos waited ≤ v.1.timeout
  | _ => fun _ => True

def Promised (start : ℕ) : Guarantee around Seen := fun v op answer =>
  Punctual start v op answer ∧ Patient v op answer

/-! ## One accept, one session, one pass -/

section Steps

variable {host : Host} {wg : Wg} {identity : Except Error (List UInt8)} {led : Handle} {start : ℕ}
  {lastPublish lastWatch : Option ℕ} {d : Deck} {h : List (Event around)} {w : World}

theorem Timely.promised {v : Seen} (timely : Timely start lastPublish lastWatch v)
    {op : around.Op} {answer : around.Ans op} (publish : op ≠ .inr .republish)
    (watch : op ≠ .inr .pages) (read : op ≠ .inl .recvFrom) : Promised start v op answer := by
  refine ⟨⟨fun is => absurd is publish, fun is => absurd is watch, fun is => absurd is read,
    timely.publish.bounded, timely.watch.bounded⟩, ?_⟩
  rcases op with op | op
  · cases op with
    | recvFrom => exact absurd rfl read
    | instant | setReadTimeout | tryClone | sendTo => trivial
  · trivial

/-- After an accept that opens a session the timeout may be anything; else it is a slice. -/
def Accepted (start : ℕ) (lastPublish lastWatch : Option ℕ)
    (result : Except Error (Option (wg.Tunn × List UInt8 × String))) (v : Seen) : Prop :=
  Timely start lastPublish lastWatch v ∧ NoneDue v.2 ∧
    ((∃ opened, result = .ok (some opened)) ∨ Slice v)

theorem raise_ne_restore :
    (.inl (.setReadTimeout recvTimeout) : around.Op) ≠ .inl (.setReadTimeout readTimeout) := by
  decide

/-- The response to an initiation: the timeout is raised for the session before it is sent. -/
theorem wp_answer {resp peerPub : List UInt8} {source : String} {tun : wg.Tunn}
    (timely : Timely start lastPublish lastWatch (d, h)) (slice : Slice (d, h))
    (noneDue : NoneDue h) :
    wp watched.left (fun v op answer => Promised start v (.inl op) answer)
      (Accepted start lastPublish lastWatch)
      (tryClone >>= fun _ => setReadTimeout recvTimeout >>= fun _ =>
        sendTo resp source >>= fun _ => .pure (some (tun, peerPub, source))) (d, h) := by
  intro cloned _
  refine ⟨timely.promised nofun nofun nofun, ?_⟩
  have timely : Timely start lastPublish lastWatch (d, ⟨.inl .tryClone, cloned⟩ :: h) :=
    timely.cons le_rfl nofun nofun
  have slice : Slice (d, ⟨.inl .tryClone, cloned⟩ :: h) :=
    slice.cons rfl nofun nofun
  have noneDue : NoneDue (⟨.inl .tryClone, cloned⟩ :: h) := noneDue.cons nofun nofun nofun
  obtain e | ⟨⟨⟩⟩ := cloned
  · exact ⟨timely, noneDue, .inr slice⟩
  intro raised _
  refine ⟨timely.promised nofun nofun nofun, ?_⟩
  obtain e | ⟨⟨⟩⟩ := raised
  · exact ⟨timely.cons le_rfl nofun nofun, noneDue.cons nofun nofun nofun,
      .inr (slice.cons rfl nofun raise_ne_restore)⟩
  have timely : Timely start lastPublish lastWatch ({ d with timeout := recvTimeout }, raise :: _) :=
    timely.cons le_rfl nofun nofun
  have noneDue : NoneDue (raise :: _) := noneDue.cons nofun nofun nofun
  intro sent _
  refine ⟨timely.promised nofun nofun nofun, ?_⟩
  have timely : Timely start lastPublish lastWatch
      ({ d with timeout := recvTimeout }, ⟨.inl (.sendTo resp source), sent⟩ :: raise :: _) :=
    timely.cons le_rfl nofun nofun
  have noneDue : NoneDue (⟨.inl (.sendTo resp source), sent⟩ :: raise :: _) :=
    noneDue.cons nofun nofun nofun
  obtain e | ⟨⟨⟩⟩ := sent
  · exact ⟨timely, noneDue, .inr (slice_unsent ⟨_, _, e, rfl⟩)⟩
  · exact ⟨timely, noneDue, .inl ⟨_, rfl⟩⟩

theorem wp_acceptAny (timely : Timely start lastPublish lastWatch (d, h)) (slice : Slice (d, h))
    (noneDue : NoneDue h) :
    wp watched.left (fun v op answer => Promised start v (.inl op) answer)
      (Accepted start lastPublish lastWatch) (acceptAny wg identity) (d, h) := by
  unfold acceptAny
  rw [wp_bind, wp_ofExcept]
  cases identity with
  | error e => exact ⟨timely, noneDue, .inr slice⟩
  | ok secret =>
      rw [bindPost_ok, wp_bind]
      intro waited allowed
      have promised : Promised start (d, h) (.inl .recvFrom) waited :=
        ⟨⟨nofun, nofun, fun _ => noneDue, timely.publish.bounded, timely.watch.bounded⟩,
          slice, allowed.1⟩
      refine ⟨promised, ?_⟩
      -- the read has come back: no duty was started, and the timeout is what it was
      have timely : Timely start lastPublish lastWatch
          ({ d with clock := d.clock + waited.nanos }, ⟨.inl .recvFrom, waited⟩ :: h) :=
        timely.cons (Nat.le_add_right ..) nofun nofun
      have slice : Slice
          ({ d with clock := d.clock + waited.nanos }, ⟨.inl .recvFrom, waited⟩ :: h) :=
        slice.cons rfl nofun nofun
      have noneDue : NoneDue (⟨.inl .recvFrom, waited⟩ :: h) := noneDue.cons nofun nofun nofun
      obtain ⟨nanos, got⟩ := waited
      cases got with
      | idle => exact ⟨timely, noneDue, .inr slice⟩
      | failed e => exact ⟨timely, noneDue, .inr slice⟩
      | datagram packet source =>
          refine bindPost_ok.2 ?_
          dsimp only
          cases wg.parseHandshakeAnon secret (packet.take recvBuffer) with
          | none => exact ⟨timely, noneDue, .inr slice⟩
          | some peerPub =>
              dsimp only
              split
              · exact ⟨timely, noneDue, .inr slice⟩
              · exact wp_answer timely slice noneDue
              · exact ⟨timely, noneDue, .inr slice⟩

theorem wp_watch {Q : Except Error Unit → World × Seen → Prop} {rest : Option ℕ → Loop Unit}
    (timely : Timely start lastPublish lastWatch (d, h)) (slice : Slice (d, h))
    (pass : passBegan h = some d.clock) (published : Fresh .republish republishInterval h)
    (failed : ∀ e s, Q (.error e) s)
    (goesOn : ∀ lastWatch d h w, Timely start lastPublish lastWatch (d, h) → Slice (d, h) →
      NoneDue h → wp ((interp host).beside watched) (Guarantee.aside (Promised start)) Q
        (rest lastWatch) (w, (d, h))) :
    wp ((interp host).beside watched) (Guarantee.aside (Promised start)) Q
      (fire lastWatch watchInterval d.clock (Daemon.watch host led) >>= rest) (w, (d, h)) := by
  unfold fire
  split
  case isTrue isDue =>
      rw [wp_bind, wp_bind]
      unfold Daemon.watch
      rw [wp_bind]
      intro pages _
      refine ⟨⟨⟨nofun, fun _ => timely.watch.spaced pass isDue, nofun, timely.publish.bounded,
        timely.watch.bounded⟩, trivial⟩, ?_⟩
      have timely' : Timely start lastPublish (some d.clock) (d, ⟨.inr .pages, pages⟩ :: h) :=
        ⟨timely.publish.cons le_rfl nofun, timely.watch.fire pages pass isDue⟩
      have slice : Slice (d, ⟨.inr .pages, pages⟩ :: h) :=
        slice.cons rfl nofun nofun
      have noneDue : NoneDue (⟨.inr .pages, pages⟩ :: h) :=
        ⟨published.cons nofun nofun, fresh_start pages pass (by decide)⟩
      refine wp_beside_lift fun result w => ?_
      cases result with
      | error e => exact failed _ _
      | ok _ => exact goesOn _ _ _ _ timely' slice noneDue
  case isFalse notDue =>
      have fresh := timely.watch.fresh pass (Bool.eq_false_iff.2 notDue)
      exact goesOn _ _ _ _ timely slice ⟨published, fresh⟩

theorem wp_republish {Q : Except Error Unit → World × Seen → Prop} {rest : Option ℕ → Loop Unit}
    (timely : Timely start lastPublish lastWatch (d, h)) (slice : Slice (d, h))
    (pass : passBegan h = some d.clock)
    (goesOn : ∀ lastPublish h, Timely start lastPublish lastWatch (d, h) → Slice (d, h) →
      passBegan h = some d.clock → Fresh .republish republishInterval h →
      wp ((interp host).beside watched) (Guarantee.aside (Promised start)) Q
        (rest lastPublish) (w, (d, h))) :
    wp ((interp host).beside watched) (Guarantee.aside (Promised start)) Q
      (fire lastPublish republishInterval d.clock republish.liftRight >>= rest) (w, (d, h)) := by
  unfold fire
  split
  case isTrue isDue =>
      intro published _
      refine ⟨⟨⟨fun _ => timely.publish.spaced pass isDue, nofun, nofun, timely.publish.bounded,
        timely.watch.bounded⟩, trivial⟩, ?_⟩
      refine goesOn (some d.clock) _ ⟨timely.publish.fire published pass isDue,
        timely.watch.cons le_rfl nofun⟩ ?_ pass (fresh_start published pass (by decide))
      exact slice.cons rfl nofun nofun
  case isFalse notDue =>
      exact goesOn _ _ timely slice pass (timely.publish.fresh pass (Bool.eq_false_iff.2 notDue))

/-- A session, and the short slice after it. -/
theorem wp_session {rest : Loop Unit} (timely : Timely start lastPublish lastWatch (d, h))
    (noneDue : NoneDue h)
    (goesOn : ∀ d h w, Timely start lastPublish lastWatch (d, h) → Slice (d, h) → NoneDue h →
      wp ((interp host).beside watched) (Guarantee.aside (Promised start)) (fun _ _ => True)
        rest (w, (d, h))) :
    wp ((interp host).beside watched) (Guarantee.aside (Promised start)) (fun _ _ => True)
      (session host led >>= fun _ => rest) (w, (d, h)) := by
  intro told _
  refine ⟨timely.promised nofun nofun nofun, ?_⟩
  have timely : Timely start lastPublish lastWatch (d, ⟨.inr .buyer, told⟩ :: h) :=
    timely.cons le_rfl nofun nofun
  have noneDue : NoneDue (⟨.inr .buyer, told⟩ :: h) := noneDue.cons nofun nofun nofun
  obtain ⟨inbox, closed⟩ := told
  show wp _ _ _ ((((Duty.session inbox closed).perform host led).lift >>= fun _ =>
    socket (setReadTimeout readTimeout)) >>= fun _ => rest) _
  rw [bind_bind, wp_bind]
  refine wp_beside_lift fun result w => ?_
  cases result with
  | error e => trivial
  | ok _ =>
      intro restored _
      refine ⟨timely.promised nofun nofun nofun, ?_⟩
      obtain e | ⟨⟨⟩⟩ := restored
      · trivial
      · exact goesOn _ _ _ (timely.cons le_rfl nofun nofun) slice_restore
          (noneDue.cons nofun nofun nofun)

theorem wp_loop (n : ℕ) (phase : Phase) (timely : Timely start lastPublish lastWatch (d, h))
    (slice : Slice (d, h)) (noneDue : phase = .accepting → NoneDue h) :
    wp ((interp host).beside watched) (Guarantee.aside (Promised start)) (fun _ _ => True)
      (loop host wg identity led n phase lastPublish lastWatch) (w, (d, h)) := by
  induction n generalizing phase lastPublish lastWatch d h w with
  | zero => trivial
  | succ n ih =>
      cases phase with
      | top =>
          intro now passed
          refine ⟨timely.promised nofun nofun nofun, ?_⟩
          have timely : Timely start lastPublish lastWatch
              ({ d with clock := now }, ⟨.inl .instant, now⟩ :: h) :=
            timely.cons passed.1 nofun nofun
          have slice : Slice ({ d with clock := now }, ⟨.inl .instant, now⟩ :: h) :=
            slice.cons rfl nofun nofun
          refine wp_republish timely slice rfl fun lastPublish h timely slice pass published => ?_
          refine wp_watch timely slice pass published (fun _ _ => trivial) ?_
          exact fun lastWatch d h w timely slice noneDue => ih _ timely slice fun _ => noneDue
      | accepting =>
          show wp _ _ _ (socket (acceptAny wg identity).attempt >>= _) _
          rw [wp_bind]
          refine wp_beside_liftRight.2 (wp_lift.2 (wp_attempt.2 ?_))
          refine wp_mono (wp_acceptAny timely slice (noneDue rfl)) ?_
          rintro result ⟨d, h⟩ ⟨timely, noneDue, slice⟩
          rcases result with e | none | accepted
          · exact ih .top timely (slice.resolve_left (by rintro ⟨_, is⟩; cases is)) nofun
          · exact ih .top timely (slice.resolve_left (by rintro ⟨_, is⟩; cases is)) nofun
          · exact wp_session timely noneDue fun d h w timely slice noneDue =>
              ih .accepting timely slice fun _ => noneDue

theorem wp_daemon (n : ℕ) :
    wp ((interp host).beside watched) (Guarantee.aside (Promised d.clock)) (fun _ _ => True)
      (daemon host wg identity n) (w, (d, [])) := by
  have timely : Timely d.clock none none (d, []) := ⟨.init, .init⟩
  intro locked _
  refine ⟨timely.promised nofun nofun nofun, ?_⟩
  have timely : Timely d.clock none none (d, ⟨.inr .lockDir, locked⟩ :: []) :=
    timely.cons le_rfl nofun nofun
  obtain e | ⟨⟨⟩⟩ := locked
  · trivial
  show wp _ _ _ ((Ledger.openWithIdentity : Prog Handle).lift >>= _) _
  rw [wp_bind]
  refine wp_beside_lift fun opened w => ?_
  cases opened with
  | error e => trivial
  | ok led =>
      intro bound _
      refine ⟨timely.promised nofun nofun nofun, ?_⟩
      have timely : Timely d.clock none none (d, ⟨.inr .bind, bound⟩ :: _) :=
        timely.cons le_rfl nofun nofun
      obtain e | ⟨⟨⟩⟩ := bound
      · trivial
      intro restored _
      refine ⟨timely.promised nofun nofun nofun, ?_⟩
      obtain e | ⟨⟨⟩⟩ := restored
      · trivial
      · exact wp_loop n .top (timely.cons le_rfl nofun nofun) slice_restore nofun

end Steps

end ServeLoop

open ServeLoop

/-! ## A day at the shop -/

namespace ServeLoop

def dayHost : Host := .sample .bitcoin .default

/-- Every datagram is an initiation. -/
def dialed : Waited := ⟨0, .datagram (1 :: List.replicate 147 0) "198.51.100.7:51820"⟩

/-- A minute passes before each look at the clock, and no response gets out. -/
def cutOff (s : World × Seen) : (op : (sig.sum around).Op) → (sig.sum around).Ans op
  | .inl op => Script.silent.answer dayHost s.1 op
  | .inr (.inl .instant) => s.2.1.clock + watchInterval
  | .inr (.inl .recvFrom) => dialed
  | .inr (.inl (.sendTo _ _)) => .error "Network is unreachable"
  | .inr op => quiet op

def cutOffHandle (op : (sig.sum around).Op) (s : World × Seen) :
    (sig.sum around).Ans op × (World × Seen) :=
  (cutOff s op, ((interp dayHost).beside watched).next s op (cutOff s op))

theorem cutOff_allowed (op : (sig.sum around).Op) (s : World × Seen) :
    ((interp dayHost).beside watched).allowed s op (cutOff s op) := by
  rcases op with op | op | op
  · exact Script.allowed dayHost _ s.1 op
  · cases op with
    | instant => exact ⟨Nat.le_add_right .., False.elim⟩
    | recvFrom =>
        refine ⟨Nat.zero_le _, fun idle => ?_⟩
        cases idle
    | setReadTimeout | tryClone | sendTo => trivial
  · trivial

def opening : World × Seen := (World.blank, ⟨0, 0⟩, [])

/-- A call that the loop makes on such a day. -/
theorem cutOff_calls {s : World × Seen} {op : around.Op} {answer : around.Ans op}
    (made : (s, ⟨.inr op, answer⟩) ∈
      trace cutOffHandle (daemon dayHost .sample (.ok []) 4) opening) :
    Calls ((interp dayHost).beside watched) (daemon dayHost .sample (.ok []) 4) opening s
      (.inr op) answer :=
  trace_calls id _ _ cutOff_allowed (fun _ _ => rfl) made

/-- A buyer asks for an address and goes. -/
def asked (s : World × List (Event around)) : (op : (sig.sum around).Op) → (sig.sum around).Ans op
  | .inl op => Script.silent.answer dayHost s.1 op
  | .inr (.inl .recvFrom) => dialed
  | .inr (.inr .buyer) => ([.addrRequest 40000], .ok ())
  | .inr op => quiet op

def askedHandle (op : (sig.sum around).Op) (s : World × List (Event around)) :
    (sig.sum around).Ans op × (World × List (Event around)) :=
  (asked s op, (interp dayHost).heard.next s op (asked s op))

/-- What is left on the machine if the loop is stopped there. -/
def askedCut : World × List (Event around) :=
  cut askedHandle 200 (daemon dayHost .sample (.ok []) 2) (World.blank, [])

theorem askedCut_ledger : askedCut.1.ledger = [.addressIssued 0 0] := by
  decide +kernel

end ServeLoop

/-! ## What holds of the loop -/

/-- **The loop is the daemon of `Kernel.Serve`.**  Over any number of crashes, with any clock,
socket and buyers, the worlds it reaches are worlds that the daemon reaches with some duties. -/
theorem loop_refines_serve (host : Host) (wg : Wg) (identity : Except Error (List UInt8))
    {s : World × List (Event around)}
    (reached : Reachable (interp host).heard (fun n : ℕ => daemon host wg identity n)
      (fun s => (s.1.crash, s.2)) (World.blank, []) s) :
    Reachable (interp host) (serve host) World.crash World.blank s.1 := by
  obtain ⟨s₀, n, booted, cut⟩ := reached
  have boots : Lifetimes (interp host) (serve host) World.crash World.blank s₀.1 := by
    clear cut
    induction booted with
    | boot => exact .boot
    | crashed m prior cut ih =>
        obtain ⟨duties, cut⟩ := reach_daemon cut
        exact .crashed duties ih cut
  obtain ⟨duties, cut⟩ := reach_daemon cut
  exact ⟨s₀.1, duties, boots, cut⟩

theorem loop_refines_serve_asked :
    askedCut.1.ledger = [.addressIssued 0 0] ∧
      Reachable (interp dayHost) (serve dayHost) World.crash World.blank askedCut.1 := by
  refine ⟨askedCut_ledger, loop_refines_serve dayHost .sample (.ok [])
    ⟨_, 2, .boot, cut_reach id 200 _ _ (fun op s => ?_) fun _ _ => rfl⟩⟩
  rcases op with op | op
  · exact Script.allowed dayHost _ s.1 op
  · trivial

/-- **The cadence of the duties**, at every call of every run of the loop: a duty starts in a
pass that begins a whole interval after the one that last started it; no accept waits in a pass
at whose beginning a duty was overdue and was not started; and the starts so far fit into the time
that has passed.  How long a pass takes over its duties and its sessions is not bounded. -/
theorem serve_cadence (host : Host) (wg : Wg) (identity : Except Error (List UInt8)) (n : ℕ)
    (w : World) (d : Deck) {s : World × Seen} {op : around.Op} {answer : around.Ans op}
    (call : Calls ((interp host).beside watched) (daemon host wg identity n) (w, (d, [])) s
      (.inr op) answer) : Punctual d.clock s.2 op answer :=
  (wp_calls (wp_daemon n) call).1

theorem serve_cadence_second :
    ∃ s : World × Seen, starts .pages s.2.2 = 1 ∧ Spaced .pages watchInterval s.2.2 := by
  have made : ∃ x ∈ trace cutOffHandle (daemon dayHost .sample (.ok []) 4) opening,
      x.2.1 = .inr (.inr .pages) ∧ starts .pages x.1.2.2 = 1 := by
    decide +kernel
  obtain ⟨⟨s, op, answer⟩, member, is, second⟩ := made
  cases is
  have punctual :=
    serve_cadence dayHost .sample (.ok []) 4 World.blank ⟨0, 0⟩ (cutOff_calls member)
  exact ⟨s, second, punctual.watches rfl⟩

/-- **How long an accept waits**: one second; but two minutes if, since the timeout was last
restored, it was raised for a session whose response could not be sent. -/
theorem accept_slice (host : Host) (wg : Wg) (identity : Except Error (List UInt8)) (n : ℕ)
    (w : World) (d : Deck) {s : World × Seen} {waited : Waited}
    (call : Calls ((interp host).beside watched) (daemon host wg identity n) (w, (d, [])) s
      (.inr (.inl .recvFrom)) waited) :
    ((s.2.1.timeout = readTimeout ∧ ¬Raised s.2.2) ∨
      (s.2.1.timeout = recvTimeout ∧ Raised s.2.2)) ∧ waited.nanos ≤ s.2.1.timeout :=
  (wp_calls (wp_daemon n) call).2

theorem accept_slice_cutOff : ∃ s : World × Seen, s.2.1.timeout = recvTimeout ∧ Raised s.2.2 := by
  have made : ∃ x ∈ trace cutOffHandle (daemon dayHost .sample (.ok []) 4) opening,
      x.2.1 = .inr (.inl .recvFrom) ∧ x.1.2.1.timeout = recvTimeout := by
    decide +kernel
  obtain ⟨⟨s, op, answer⟩, member, is, long⟩ := made
  cases is
  obtain ⟨slice, -⟩ :=
    accept_slice dayHost .sample (.ok []) 4 World.blank ⟨0, 0⟩ (cutOff_calls member)
  rcases slice with ⟨short, -⟩ | ⟨-, raised⟩
  · exact absurd (short.symm.trans long) (by decide)
  · exact ⟨s, long, raised⟩

end ComputerMoney.Safety

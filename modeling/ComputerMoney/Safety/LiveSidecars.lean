/-
# Safety.LiveSidecars -- the daemon's housekeeping beside payments

The daemon reconciles on the one instance it opened when it started, while payments made
in the same session record on instances of their own.  A payment the daemon's instance
has not seen has no `sent` entry there, so the sweep takes its sidecar for an orphan and
removes it, although the payment is on file, pending, and without a confirmation.

`live_sidecars_survive` is about every interleaving of a daemon with payments: only the
daemon removes sidecars, and whenever it removes one while its instance holds the sends of
that txid that are on file, the payment is not on file, or not pending, or the chain has
just counted a confirmation of it.
-/
import ComputerMoney.Kernel.View
import ComputerMoney.Safety.Recoverable
import ComputerMoney.Safety.StaleWriter

namespace ComputerMoney.Safety

set_option autoImplicit false

open Theory Theory.Program Kernel

/-! ## A daemon and payments -/

/-- The calls thread `i` has made, the last first. -/
def ownCalls (i : ℕ) (log : Log sig) : List (Event sig) :=
  (log.filter fun call => call.1 = i).map Prod.snd

def openedHandle? : Event sig → Option Handle
  | ⟨.openLedger, answer⟩ => match answer with
      | .ok led => some led
      | .error _ => none
  | _ => none

/-- The instance the daemon, thread 0, works on: it opens it before all else. -/
def daemonInstance (log : Log sig) : Option Handle := (ownCalls 0 log).getLast?.bind openedHandle?

/-- The daemon and payments, from a directory `w` on, interleaved in any way. -/
def Houses (host : Host) (duties : List Duty) (payments : List Payment) (w : World)
    (pool : Pool sig Error Unit) (s : Directory) : Prop :=
  Relation.ReflTransGen (Pool.Step (threads host fun _ _ _ => True))
    (serve host duties :: payments.map (Payment.perform host), (w, [])) (pool, s)

def isSendOf (txid : String) (e : Entry) : Bool := e.sentTxid? = some txid

/-- The instance holds the sends of `txid` that are on file. -/
def HasSeen (s : Directory) (led : Handle) (txid : String) : Prop :=
  s.1.ledger.filter (isSendOf txid) = (s.1.mem led).filter (isSendOf txid)

/-- No live payment needs the sidecar: none is on file, or it is not pending, or the last
count the daemon got is a confirmation. -/
def Released (s : Directory) (txid : String) : Prop :=
  txid ∉ s.1.ledger.filterMap Entry.sentTxid? ∨
    Ledger.latestStatus s.1.ledger txid ≠ some .pending ∨
    ∃ confs, 1 ≤ confs ∧ lastCount txid (ownCalls 0 s.2) = some confs

/-! ## The daemon alone -/

/-- What is asked of the daemon, as its instance sees it: it removes sidecars as the
recovery loop does. -/
def Housekeeps (led : Handle) : Guarantee sig View
  | v, .removeSidecar txid why, answer => Reconciles led v (.removeSidecar txid why) answer
  | _, _, _ => True

/-- The calls that remove no sidecar. -/
def Op.spares : Op → Prop
  | .removeSidecar _ _ => False
  | _ => True

section Daemon

variable {host : Host} {led : Handle} {v : View}

theorem wp_spares {α : Type} {p : Prog α} (body : p.Within Op.spares) :
    wp (view led) (Housekeeps led) (fun _ _ => True) p v := by
  refine wp_unguarded (body.mono fun op spares v answer => ?_)
  cases op <;> first | exact spares.elim | trivial

theorem wp_reconcile_housekeeps :
    wp (view led) (Housekeeps led) (fun _ _ => True) (reconcile led) v := by
  refine wp_weaken (fun v op answer knows => ?_) wp_reconcile_view
  cases op <;> first | exact knows | trivial

theorem spares_of_scans {led' : Handle} (op : Op) (scans : Op.scans led' op) : Op.spares op := by
  cases op <;> first | exact scans.elim | trivial

theorem wp_chainWatch_housekeeps (pages : ℕ) :
    wp (view led) (Housekeeps led) (fun _ _ => True) (chainWatch host led pages) v := by
  refine wp_bind.2 (wp_attempt.2 (wp_mono wp_reconcile_housekeeps fun _ v' _ => ?_))
  refine wp_bind.2 (wp_mono (wp_spares (within_pollIssued trivial (fun _ => trivial)
    fun _ _ _ _ => trivial)) ?_)
  rintro (error | ⟨⟩) v'' -
  · trivial
  refine wp_spares (within_bind (within_attempt ?_) fun _ => trivial)
  exact within_bind ⟨trivial, fun _ => within_ofExcept⟩ fun led' =>
    within_bind ((within_scanToTip pages).mono spares_of_scans) fun _ =>
      within_bind ⟨trivial, fun _ => trivial⟩ fun _ => trivial

theorem wp_handleNotify_housekeeps {issuedIndex : Option ℕ} {issuedAddress : Option String}
    {txid : String} {claimed : ℕ} :
    wp (view led) (Housekeeps led) (fun _ _ => True)
      (handleNotify led issuedIndex issuedAddress txid claimed) v := by
  unfold handleNotify
  rcases issuedAddress with _ | address
  · trivial
  refine wp_bind.2 (wp_attempt.2 ?_)
  rintro (error | deposits) - <;> refine ⟨trivial, ?_⟩
  · trivial
  refine bindPost_ok.2 ?_
  dsimp only
  split
  · trivial
  refine wp_bind.2 (wp_mono (wp_spares (within_recordReceived trivial fun _ => trivial)) ?_)
  rintro (error | booked) v' -
  · trivial
  refine wp_bind.2 (wp_attempt.2 (wp_mono wp_reconcile_housekeeps fun _ _ _ => ?_))
  trivial

theorem wp_runReceiver_housekeeps {closed : Except Error Unit} {inbox : List Message}
    {nextIndex : ℕ} {issuedIndex : Option ℕ} {issuedAddress : Option String} :
    wp (view led) (Housekeeps led) (fun _ _ => True)
      (runReceiver host led closed inbox nextIndex issuedIndex issuedAddress) v := by
  induction inbox generalizing nextIndex issuedIndex issuedAddress v with
  | nil => exact wp_ofExcept.2 trivial
  | cons message inbox ih =>
      cases message with
      | addrRequest sats =>
          unfold runReceiver
          split
          · trivial
          · refine wp_bind.2 fun es _ => ⟨trivial, bindPost_ok.2 (wp_bind.2 ?_)⟩
            rintro (_ | error | error) - <;> refine ⟨trivial, ?_⟩
            · refine wp_bind.2 ?_
              rintro (error | ⟨⟩) - <;> refine ⟨trivial, ?_⟩
              · trivial
              · exact ih
            · trivial
            · trivial
          · exact ih
      | notify txid claimed => exact wp_handleNotify_housekeeps
      | chat text => exact ih
      | addrResponse address index => exact ih

theorem wp_duties_housekeeps (duties : List Duty) :
    wp (view led) (Housekeeps led) (fun _ _ => True)
      (.forEach duties fun duty => duty.perform host led) v := by
  refine wp_forEach (J := fun _ => True) trivial (fun duty _ v _ => ?_) fun _ _ => trivial
  cases duty with
  | watch pages =>
      refine wp_mono (wp_chainWatch_housekeeps pages) ?_
      rintro (error | ⟨⟩) v' - <;> trivial
  | session inbox closed =>
      refine wp_bind.2 fun es _ => ⟨trivial, bindPost_ok.2 ?_⟩
      refine wp_bind.2 (wp_attempt.2 (wp_mono wp_runReceiver_housekeeps fun _ _ _ => ?_))
      trivial

end Daemon

/-! ## What the payments leave alone -/

/-- What the daemon relies on: payments neither touch its instances nor make its calls, and
put nothing on file but sends and spent marks. -/
structure LeavesDaemon (s s' : Directory) : Prop where
  own : LeavesOwn 0 s s'
  calls : ownCalls 0 s'.2 = ownCalls 0 s.2
  fresh : s.1.fresh ≤ s'.1.fresh
  grown : ∃ new, s'.1.ledger = s.1.ledger ++ new ∧ ∀ e ∈ new, ∀ led, Op.pays (.append led e)

theorem LeavesDaemon.refl (s : Directory) : LeavesDaemon s s :=
  ⟨LeavesOwn.refl 0 s, rfl, Nat.le_refl _, [], (List.append_nil _).symm, nofun⟩

theorem LeavesDaemon.trans {s₁ s₂ s₃ : Directory} (first : LeavesDaemon s₁ s₂)
    (second : LeavesDaemon s₂ s₃) : LeavesDaemon s₁ s₃ := by
  obtain ⟨new, ledger, paid⟩ := first.grown
  obtain ⟨new', ledger', paid'⟩ := second.grown
  refine ⟨LeavesOwn.trans 0 s₁ s₂ s₃ first.own second.own, second.calls.trans first.calls,
    Nat.le_trans first.fresh second.fresh, new ++ new', ?_, fun e member led => ?_⟩
  · rw [ledger', ledger, List.append_assoc]
  · rcases List.mem_append.1 member with early | late
    · exact paid e early led
    · exact paid' e late led

/-- What each thread relies on. -/
def Relies : ℕ → Directory → Directory → Prop
  | 0 => LeavesDaemon
  | i + 1 => LeavesOwn (i + 1)

/-- What is asked of a removal. -/
def RemovesReleased : Guarantee sig Directory
  | s, .removeSidecar txid _, _ => ∃ led, daemonInstance s.2 = some led ∧
      (HasSeen s led txid → Released s txid)
  | _, _, _ => True

/-- What each thread promises: the daemon, to remove sidecars as it should; a payment, to
make a payment's calls; and either, to append to instances of its own. -/
def Promises : ℕ → Guarantee sig Directory
  | 0 => fun s op answer => OwnStamped Op.any 0 s op answer ∧ RemovesReleased s op answer
  | i + 1 => OwnStamped Op.pays (i + 1)

section Payments

variable {host : Host} {cond : Guarantee sig Directory} {i : ℕ}

theorem promises_stamped {s : Directory} {op : Op} {answer : sig.Ans op}
    (promised : Promises i s op answer) : OwnStamped Op.any i s op answer := by
  cases i with
  | zero => exact promised.1
  | succ i => exact ⟨trivial, promised.2⟩

theorem ownCalls_cons_self (event : Event sig) (log : Log sig) :
    ownCalls i ((i, event) :: log) = event :: ownCalls i log := by
  rw [ownCalls, List.filter_cons_of_pos (by simp)]
  rfl

theorem ownCalls_cons_of_ne {j : ℕ} (different : j ≠ i) (event : Event sig) (log : Log sig) :
    ownCalls i ((j, event) :: log) = ownCalls i log := by
  rw [ownCalls, List.filter_cons_of_neg (by simpa using different)]
  rfl

theorem leavesDaemon_of_pays {s : Directory} {op : Op} {answer : sig.Ans op} (tracked : Tracked s)
    (allowed : (interp host).allowed s.1 op answer)
    (promised : OwnStamped Op.pays (i + 1) s op answer) :
    LeavesDaemon s (s.1.after op answer, (i + 1, ⟨op, answer⟩) :: s.2) := by
  refine ⟨leavesOwn_of_stamped (Nat.succ_ne_zero i) tracked allowed promised,
    ownCalls_cons_of_ne (Nat.succ_ne_zero i) .., ?_, ?_⟩
  · cases op with
    | openLedger =>
        rcases answer with error | led
        · exact Nat.le_refl _
        · obtain rfl : led = s.1.fresh := allowed
          exact Nat.le_succ _
    | _ => exact Nat.le_of_eq (s.1.after_fresh answer nofun).symm
  · cases op with
    | append led e =>
        have paid : ∀ e' ∈ [e], ∀ led', Op.pays (.append led' e') := by
          intro e' member led'
          obtain rfl := List.mem_singleton.1 member
          have pays := promised.1
          cases e' <;> first | exact pays.elim | trivial
        cases answer with
        | ok => exact ⟨[e], rfl, paid⟩
        | lost error => exact ⟨[], (List.append_nil _).symm, nofun⟩
        | kept error => exact ⟨[e], rfl, paid⟩
    | _ =>
        refine ⟨[], ?_, nofun⟩
        rw [List.append_nil]
        exact s.1.after_ledger answer nofun

end Payments

/-! ## The daemon among payments -/

/-- What a payment writes is no status of another transaction. -/
theorem latestStatus_paid {entries new : List Entry} {txid : String}
    (paid : ∀ e ∈ new, ∀ led, Op.pays (.append led e)) (unsent : new.filter (isSendOf txid) = []) :
    Ledger.latestStatus (entries ++ new) txid = Ledger.latestStatus entries txid := by
  induction new using List.reverseRecOn with
  | nil => rw [List.append_nil]
  | append_singleton new e ih =>
      rw [List.filter_append, List.append_eq_nil_iff] at unsent
      have before := ih (fun e' member => paid e' (List.mem_append_left _ member)) unsent.1
      have pays := paid e (List.mem_append_right _ (List.mem_singleton_self _)) 0
      have notSend : e.sentTxid? ≠ some txid := by simpa [isSendOf] using unsent.2
      rw [← List.append_assoc, Ledger.latestStatus_append_other ?_, before]
      intro status assigns
      cases e with
      | sent seq t sats payee status' time =>
          cases assigns
          exact notSend rfl
      | spSpent seq t vout => cases assigns
      | _ => exact pays

/-- What the daemon knows of the directory, whose instance and calls are as in `v`. -/
structure Tied (led : Handle) (s : Directory) (v : View) : Prop where
  isInstance : daemonInstance s.2 = some led
  opened : OpenedBy 0 s.2 led
  isOpen : led < s.1.fresh
  calls : ownCalls 0 s.2 = v.2
  mem : s.1.mem led = v.1
  part : v.1.Sublist s.1.ledger
  /-- A transaction it has just failed is failed on file, if it has seen its sends. -/
  failed : ∀ seq txid, v.2.head? = some ⟨.append led (.statusUpdate seq txid .failed), .ok⟩ →
    HasSeen s led txid → Ledger.latestStatus s.1.ledger txid = some .failed

section Among

variable {host : Host} {led : Handle} {v : View} {s s' : Directory}

/-- The payments leave it so. -/
theorem Tied.moved (tied : Tied led s v) (moved : LeavesDaemon s s') : Tied led s' v := by
  obtain ⟨new, ledger, paid⟩ := moved.grown
  obtain ⟨opened, mem⟩ := moved.own led tied.opened
  refine ⟨?_, opened, Nat.lt_of_lt_of_le tied.isOpen moved.fresh, moved.calls.trans tied.calls,
    mem.trans tied.mem, ?_, fun seq txid last seen => ?_⟩
  · rw [daemonInstance, moved.calls]
    exact tied.isInstance
  · rw [ledger]
    exact tied.part.trans (List.sublist_append_left ..)
  · -- All sends on file are in the instance, which is part of the older file: no new one.
    have part : (v.1.filter (isSendOf txid)).Sublist (s.1.ledger.filter (isSendOf txid)) :=
      tied.part.filter _
    rw [HasSeen, ledger, List.filter_append, mem, tied.mem] at seen
    have lengths := congrArg List.length seen
    rw [List.length_append] at lengths
    have longer := part.length_le
    have unsent : new.filter (isSendOf txid) = [] := List.eq_nil_of_length_eq_zero (by omega)
    rw [unsent, List.append_nil] at seen
    rw [ledger, latestStatus_paid paid unsent]
    refine tied.failed seq txid last ?_
    rw [HasSeen, tied.mem]
    exact seen

theorem daemonInstance_cons {event : Event sig} {log : Log sig}
    (isInstance : daemonInstance log = some led) :
    daemonInstance ((0, event) :: log) = some led := by
  obtain ⟨first, last, is⟩ := Option.bind_eq_some_iff.1 isInstance
  rw [daemonInstance, ownCalls_cons_self, List.getLast?_cons, last]
  exact is

/-- Its own calls keep it so. -/
theorem Tied.next {op : Op} {answer : sig.Ans op} (tied : Tied led s v)
    (allowed : (interp host).allowed s.1 op answer) :
    Tied led (s.1.after op answer, (0, ⟨op, answer⟩) :: s.2) ((view led).next v op answer) := by
  obtain ⟨-, isOpen, mem⟩ := World.after_view tied.isOpen allowed
  have mem' : (s.1.after op answer).mem led = ((view led).next v op answer).1 := by
    rw [mem, tied.mem]
    rfl
  refine ⟨daemonInstance_cons tied.isInstance, List.mem_cons_of_mem _ tied.opened, isOpen, ?_, mem',
    ?_, fun seq txid last seen => ?_⟩
  · rw [ownCalls_cons_self, tied.calls]
    rfl
  · cases op with
    | append led' e =>
        cases answer with
        | ok =>
            show List.Sublist (if led' = led then v.1 ++ [e] else v.1) (s.1.ledger ++ [e])
            split
            · exact tied.part.append (List.Sublist.refl _)
            · exact tied.part.trans (List.sublist_append_left ..)
        | lost error => exact tied.part
        | kept error => exact tied.part.trans (List.sublist_append_left ..)
    | _ =>
        have same := s.1.after_ledger answer nofun
        exact same.symm ▸ tied.part
  · cases last
    exact Ledger.latestStatus_append_self rfl

/-- What it removes is released, if it has seen its sends. -/
theorem Tied.removes {txid : String} {why : Removal} {answer : Except Error Unit}
    (tied : Tied led s v) (knows : Housekeeps led v (.removeSidecar txid why) answer)
    (seen : HasSeen s led txid) : Released s txid := by
  obtain ⟨mem, past⟩ := v
  cases why with
  | rejected =>
      obtain ⟨seq, es, past', -, rfl⟩ := knows
      have failed := tied.failed seq txid rfl seen
      refine .inr (.inl ?_)
      rw [failed]
      nofun
  | settled =>
      obtain ⟨confs, confirmed, counted, -⟩ := knows
      exact .inr (.inr ⟨confs, confirmed, tied.calls.symm ▸ counted⟩)
  | orphan =>
      have unrecorded : txid ∉ mem.filterMap Entry.sentTxid? := knows
      refine .inl fun recorded => unrecorded ?_
      obtain ⟨e, member, pays⟩ := List.mem_filterMap.1 recorded
      have sends : e ∈ s.1.ledger.filter (isSendOf txid) :=
        List.mem_filter.2 ⟨member, decide_eq_true pays⟩
      rw [seen, tied.mem] at sends
      exact List.mem_filterMap.2 ⟨e, (List.mem_filter.1 sends).1, pays⟩

/-- The daemon, whose calls the payments may follow with any of theirs. -/
theorem wp_serve_among {cond : Guarantee sig Directory} {later : ℕ → Directory}
    (duties : List Duty) (unstarted : ownCalls 0 s.2 = []) :
    wp ((threads host cond 0).among LeavesDaemon) RemovesReleased.alone (fun _ _ => True)
      (serve host duties) (s, later) := by
  refine wp_bind.2 ?_
  rintro (error | led) ⟨⟨allowed, -⟩, moved⟩ <;> refine ⟨trivial, ?_⟩
  · trivial
  obtain rfl : led = s.1.fresh := allowed
  have opening : Tied s.1.fresh
      (s.1.load s.1.fresh, (0, ⟨.openLedger, .ok s.1.fresh⟩) :: s.2)
      (s.1.ledger, [⟨.openLedger, .ok s.1.fresh⟩]) := by
    have calls : ownCalls 0 ((0, (⟨.openLedger, .ok s.1.fresh⟩ : Event sig)) :: s.2) =
        [⟨.openLedger, .ok s.1.fresh⟩] := by rw [ownCalls_cons_self, unstarted]
    refine ⟨?_, List.mem_cons_self .., Nat.lt_succ_self _, calls, s.1.load_mem, List.Sublist.refl _,
      nofun⟩
    rw [daemonInstance, calls]
    rfl
  have step : ∀ (σ : Directory × (ℕ → Directory)) (v : View) (op : Op) (answer : op.Ans),
      Tied s.1.fresh σ.1 v → ((threads host cond 0).among LeavesDaemon).allowed σ op answer →
        (view s.1.fresh).allowed v op answer ∧ (Housekeeps s.1.fresh v op answer →
          RemovesReleased.alone σ op answer ∧
            Tied s.1.fresh (((threads host cond 0).among LeavesDaemon).next σ op answer).1
              ((view s.1.fresh).next v op answer)) := by
    rintro ⟨s', later'⟩ v op answer tied ⟨⟨allowed, -⟩, moved⟩
    obtain ⟨seen, -, -⟩ := World.after_view tied.isOpen allowed
    rw [tied.mem] at seen
    refine ⟨seen, fun knows => ⟨?_, (tied.next allowed).moved moved⟩⟩
    cases op with
    | removeSidecar txid why => exact ⟨_, tied.isInstance, tied.removes knows⟩
    | _ => trivial
  have start : Tied s.1.fresh (later 0) _ := opening.moved moved
  have holds := wp_simulates (R := fun (σ : Directory × (ℕ → Directory)) v => Tied s.1.fresh σ.1 v)
    (w := (later 0, fun n => later (n + 1))) start step
    (@wp_duties_housekeeps host s.1.fresh _ duties)
  exact wp_ofExcept.2 (bindPost_ok.2 (wp_mono holds fun _ _ _ => trivial))

end Among

/-! ## Every interleaving -/

section

variable {host : Host} {duties : List Duty} {payments : List Payment} {w : World}
  {pool : Pool sig Error Unit} {s : Directory}

theorem relies_refl (i : ℕ) (s : Directory) : Relies i s s := by
  cases i with
  | zero => exact LeavesDaemon.refl s
  | succ i => exact LeavesOwn.refl _ s

theorem relies_trans (i : ℕ) (s₁ s₂ s₃ : Directory) (first : Relies i s₁ s₂)
    (second : Relies i s₂ s₃) : Relies i s₁ s₃ := by
  cases i with
  | zero => exact LeavesDaemon.trans first second
  | succ i => exact LeavesOwn.trans _ s₁ s₂ s₃ first second

theorem daemon_safe :
    Pool.Safe (threads host fun _ _ _ => True) Relies Promises 0 (serve host duties) (w, []) := by
  intro s later moved
  have stamped := @wp_stamped host (fun _ _ _ => True) 0 Op.any LeavesDaemon (serve host duties) s
    later (fun _ _ leaves => leaves.own) (stamps_command (.serve duties))
  exact wp_mono (wp_and stamped (wp_serve_among duties moved.calls)) fun _ _ _ => trivial

theorem housed_safe (i : ℕ) (p : Prog Unit)
    (started : (serve host duties :: payments.map (Payment.perform host))[i]? = some p) :
    Pool.Safe (threads host fun _ _ _ => True) Relies Promises i p (w, []) := by
  cases i with
  | zero =>
      cases started
      exact daemon_safe
  | succ i =>
      rw [List.getElem?_cons_succ, List.getElem?_map] at started
      rcases payment : payments[i]? with _ | use <;> rw [payment] at started
      · cases started
      cases started
      exact fun s later _ => wp_stamped (fun _ _ leaves => leaves) (stamps_payment use)

/-- What is left of each thread keeps its promise. -/
theorem Houses.safe (run : Houses host duties payments w pool s) (i : ℕ) (p : Prog Unit)
    (at_ : pool[i]? = some p) :
    Pool.Safe (threads host fun _ _ _ => True) Relies Promises i p s := by
  have unopened : Tracked (w, []) := ⟨nofun, nofun, nofun, nofun⟩
  refine (Pool.safe_all relies_refl relies_trans unopened housed_safe
    (fun _ _ _ _ allowed _ tracked => tracked_next allowed.1 tracked) ?_ run).2 i p at_
  intro i j s op answer different tracked allowed promised
  cases j with
  | zero =>
      cases i with
      | zero => exact absurd rfl different
      | succ i => exact leavesDaemon_of_pays tracked allowed.1 promised
  | succ j => exact leavesOwn_of_stamped different tracked allowed.1 (promises_stamped promised)

end

/-- **The sidecars of live payments survive what the daemon has seen.**  In every
interleaving of the daemon with payments, from any directory on and whatever is answered:
only the daemon removes a sidecar; and if the one instance it works on holds the sends of
that txid that are on file, then there are none, or the payment is not pending, or the
chain has just counted a confirmation of it. -/
theorem live_sidecars_survive (host : Host) (duties : List Duty) (payments : List Payment)
    (w : World) (pool : Pool sig Error Unit) (s : Directory)
    (run : Houses host duties payments w pool s) (i : ℕ) (txid : String) (why : Removal)
    (next : Except Error Unit → Prog Unit)
    (turn : pool[i]? = some (.call (.removeSidecar txid why) next)) :
    i = 0 ∧ ∃ led, daemonInstance s.2 = some led ∧ (HasSeen s led txid → Released s txid) := by
  have allowed : (threads host (fun _ _ _ => True) i).allowed s (.removeSidecar txid why)
      (Except.ok ()) := ⟨trivial, trivial⟩
  have promised := ((run.safe i _ turn).step relies_refl allowed).1
  cases i with
  | zero => exact ⟨rfl, promised.2⟩
  | succ i => exact promised.1.elim

/-! ## The daemon and a payment it has not seen -/

instance decidableHasSeen (s : Directory) (led : Handle) (txid : String) :
    Decidable (HasSeen s led txid) :=
  inferInstanceAs (Decidable (_ = _))

/-- A daemon whose watch is due, and a payment. -/
def watchAndPayment : Pool sig Error Unit :=
  [serve walletHost [.watch 0], Payment.perform walletHost (.sendPayment sampleAddress.display 40000)]

/-- The two, given turns in this order, while the chain counts `confs` for everything. -/
def housekeeping (confs : ℕ) (schedule : List ℕ) : Pool sig Error Unit × Directory :=
  Pool.drive mayAll (scripted (countScript confs)) schedule watchAndPayment (World.blank, [])

theorem housekeeping_houses (confs : ℕ) (schedule : List ℕ) :
    Houses walletHost [.watch 0] [.sendPayment sampleAddress.display 40000] World.blank
      (housekeeping confs schedule).1 (housekeeping confs schedule).2 := by
  have steps := @Pool.drive_steps sig Directory Error Unit (threads walletHost fun _ _ _ => True)
    mayAll (scripted (countScript confs))
    (fun _ op s _ => ⟨(countScript confs).allowed walletHost s.1 op, trivial⟩)
    (fun _ _ _ => rfl) schedule watchAndPayment (World.blank, [])
  exact steps

/-- The daemon opens the ledger, and the payment is made; then the watch is due. -/
def payThenWatch (turns : ℕ) : List ℕ := [0] ++ List.replicate 20 1 ++ List.replicate turns 0

/-- The daemon takes the sidecar of a payment made since it started for an orphan, and
removes it, while the payment is on file, pending, and the chain has no confirmation. -/
theorem live_sidecar_swept :
    (∃ pool s next, Houses walletHost [.watch 0] [.sendPayment sampleAddress.display 40000]
        World.blank pool s ∧
      pool[0]? = some (.call (.removeSidecar sampleTxid .orphan) next) ∧
      sampleTxid ∈ s.1.ledger.filterMap Entry.sentTxid? ∧
      Ledger.latestStatus s.1.ledger sampleTxid = some .pending ∧
      lastCount sampleTxid (ownCalls 0 s.2) = none ∧
      s.1.sidecar sampleTxid = some (.hex walletTx)) ∧
    ∃ pool s, Houses walletHost [.watch 0] [.sendPayment sampleAddress.display 40000]
        World.blank pool s ∧
      sampleTxid ∈ s.1.ledger.filterMap Entry.sentTxid? ∧
      Ledger.latestStatus s.1.ledger sampleTxid = some .pending ∧
      s.1.sidecar sampleTxid = none := by
  constructor
  · obtain ⟨next, turn⟩ := @Pool.exists_turn sig Error Unit (housekeeping 0 (payThenWatch 3)).1 0
      (.removeSidecar sampleTxid .orphan) (by decide +kernel)
    exact ⟨_, _, next, housekeeping_houses 0 (payThenWatch 3), turn, by decide +kernel,
      by decide +kernel, by decide +kernel, by decide +kernel⟩
  · exact ⟨_, _, housekeeping_houses 0 (payThenWatch 4), by decide +kernel, by decide +kernel,
      by decide +kernel⟩

/-- The payment is made before the daemon opens the ledger. -/
def watchAfterPay : List ℕ := List.replicate 20 1 ++ List.replicate 6 0

/-- So the daemon has seen it, and removes its sidecar once the chain counts a
confirmation. -/
theorem live_sidecars_survive_sample :
    HasSeen (housekeeping 1 watchAfterPay).2 1 sampleTxid ∧
      Released (housekeeping 1 watchAfterPay).2 sampleTxid := by
  have seen : HasSeen (housekeeping 1 watchAfterPay).2 1 sampleTxid := by decide +kernel
  obtain ⟨next, turn⟩ := @Pool.exists_turn sig Error Unit (housekeeping 1 watchAfterPay).1 0
    (.removeSidecar sampleTxid .settled) (by decide +kernel)
  obtain ⟨-, led, isInstance, released⟩ := live_sidecars_survive _ _ _ _ _ _
    (housekeeping_houses 1 watchAfterPay) 0 sampleTxid .settled next turn
  have second : daemonInstance (housekeeping 1 watchAfterPay).2.2 = some 1 := by decide +kernel
  obtain rfl : led = 1 := Option.some.inj (isInstance.symm.trans second)
  exact ⟨seen, released seen⟩

end ComputerMoney.Safety

/-
# Safety.Recoverable -- which pending payments keep their sidecar

The sidecar is what a recovery hands to the network again.  The loop drops it in three
places: after it has recorded the payment as failed, after it has recorded a confirmation,
and when no `sent` entry names it.  The second is for good, while the status is not: a
payment that was confirmed once and fell out of the chain again is pending without a
sidecar.  The third is decided by the instance, not by the file: a `sent` line that an
append left although it returned an error is in the file alone, and the next reconcile on
this instance takes its sidecar for an orphan's (both in `pending_strands`).

`pending_recoverable` is about the rest, in every world that any number of sessions of a
single writer reach, each of any list of sends and reconciles, cut anywhere: a payment on
file that is pending, and for which no confirmation was ever recorded, has its sidecar.
-/
import ComputerMoney.Kernel.Commands
import ComputerMoney.Kernel.View
import ComputerMoney.Safety.WriteAhead

namespace ComputerMoney.Safety

set_option autoImplicit false

open Theory Theory.Program Kernel

/-! ## The run -/

/-- A confirmation of the payment was recorded. -/
def Confirmed (entries : List Entry) (txid : String) : Prop :=
  ∃ seq status, .statusUpdate seq txid status ∈ entries ∧ (status = .soft ∨ status = .final)

/-- A payment that is sent and pending, and was never seen confirmed. -/
structure Awaiting (entries : List Entry) (txid : String) : Prop where
  sent : txid ∈ entries.filterMap Entry.sentTxid?
  pending : Ledger.latestStatus entries txid = some .pending
  unconfirmed : ¬ Confirmed entries txid

/-- No write of a sidecar is cut short. -/
def Whole (assume : Guarantee sig World) : Prop :=
  ∀ w txid tx error, ¬ assume w (.writeSidecar txid tx) (.torn error)

/-- No append of a `sent` line returns an error with the line on file. -/
def LeavesNoLine (assume : Guarantee sig World) : Prop :=
  ∀ w led e error, e.sentTxid? ≠ none → ¬ assume w (.append led e) (.kept error)

/-- The instance knows every `sent` line of the file. -/
def KnowsSends (led : Handle) (w : World) : Prop :=
  ∀ txid ∈ w.ledger.filterMap Entry.sentTxid?, txid ∈ (w.mem led).filterMap Entry.sentTxid?

/-- Orphans are swept only while the instance opened last knows every `sent` line. -/
def SweepsInStep (assume : Guarantee sig World) : Prop :=
  ∀ w txid answer, assume w (.removeSidecar txid .orphan) answer → KnowsSends (w.fresh - 1) w

/-! ## The invariant -/

structure Recoverable (whole : Prop) (w : World) : Prop where
  kept : ∀ txid, Awaiting w.ledger txid → w.sidecar txid ≠ none
  named : ∀ txid contents, w.sidecar txid = some contents →
    (∃ tx, contents = .hex tx ∧ tx.txid = txid) ∨ contents = .torn ∧ ¬ whole
  booked : ∀ e ∈ w.ledger, ∀ txid, e.paymentTxid? = some txid → e.status? = some (txid, .pending)

section

variable {whole : Prop} {w w' : World} {txid : String}

theorem Confirmed.mono {entries entries' : List Entry} (confirmed : Confirmed entries txid)
    (grown : entries ⊆ entries') : Confirmed entries' txid := by
  obtain ⟨seq, status, member, deep⟩ := confirmed
  exact ⟨seq, status, grown member, deep⟩

theorem Recoverable.of_same (recoverable : Recoverable whole w) (ledger : w'.ledger = w.ledger)
    (sidecars : w'.sidecars = w.sidecars) : Recoverable whole w' where
  kept txid awaiting := by
    have same : w'.sidecar txid = w.sidecar txid := congrArg (List.lookup txid) sidecars
    exact same ▸ recoverable.kept txid (ledger ▸ awaiting)
  named txid contents has := by
    have same : w'.sidecar txid = w.sidecar txid := congrArg (List.lookup txid) sidecars
    exact recoverable.named txid contents (same ▸ has)
  booked e member := recoverable.booked e (ledger ▸ member)

theorem Recoverable.written {e : Entry} (recoverable : Recoverable whole w)
    (books : ∀ txid, e.paymentTxid? = some txid → e.status? = some (txid, .pending))
    (backed : ∀ txid, Awaiting (w.ledger ++ [e]) txid → ¬ Awaiting w.ledger txid →
      w.sidecar txid ≠ none) : Recoverable whole (w.written e) where
  kept txid awaiting := by
    by_cases before : Awaiting w.ledger txid
    · exact recoverable.kept txid before
    · exact backed txid awaiting before
  named := recoverable.named
  booked e' member := by
    rcases List.mem_append.1 member with before | new
    · exact recoverable.booked e' before
    · exact List.mem_singleton.1 new ▸ books

/-- An entry that is no send awaits nothing new, if it assigns `pending` only to what was
seen confirmed. -/
theorem Awaiting.before {entries : List Entry} {e : Entry} (awaiting : Awaiting (entries ++ [e]) txid)
    (noSend : e.sentTxid? = none)
    (assigns : e.status? = some (txid, .pending) → Confirmed entries txid) :
    Awaiting entries txid := by
  have unconfirmed : ¬ Confirmed entries txid := fun confirmed =>
    awaiting.unconfirmed (confirmed.mono (List.subset_append_left ..))
  refine ⟨?_, ?_, unconfirmed⟩
  · have sent := awaiting.sent
    simpa [List.filterMap_append, noSend] using sent
  · have pending := awaiting.pending
    by_cases mine : ∃ status, e.status? = some (txid, status)
    · obtain ⟨status, is⟩ := mine
      rw [Ledger.latestStatus_append_self is] at pending
      cases pending
      exact absurd (assigns is) unconfirmed
    · rwa [Ledger.latestStatus_append_other fun status is => mine ⟨status, is⟩] at pending

theorem Recoverable.sent {seq sats now : ℕ} {payee : String} (recoverable : Recoverable whole w)
    (staged : w.sidecar txid ≠ none) :
    Recoverable whole (w.written (.sent seq txid sats payee .pending now)) := by
  refine recoverable.written (fun t pays => ?_) fun t awaiting new => ?_
  · cases pays
    rfl
  · rcases eq_or_ne t txid with rfl | other
    · exact staged
    · refine absurd ⟨?_, ?_, fun confirmed => ?_⟩ new
      · have sent := awaiting.sent
        simpa [List.filterMap_append, Entry.sentTxid?, other] using sent
      · rw [← awaiting.pending]
        refine (Ledger.latestStatus_append_other fun status assigns => ?_).symm
        cases assigns
        exact other rfl
      · exact awaiting.unconfirmed (confirmed.mono (List.subset_append_left ..))

theorem Recoverable.spSpent {seq vout : ℕ} (recoverable : Recoverable whole w) :
    Recoverable whole (w.written (.spSpent seq txid vout)) :=
  recoverable.written nofun fun _ awaiting new => absurd (awaiting.before rfl nofun) new

theorem Recoverable.updated {seq : ℕ} {status : Status} (recoverable : Recoverable whole w)
    (assigns : status = .pending → Confirmed w.ledger txid) :
    Recoverable whole (w.written (.statusUpdate seq txid status)) := by
  refine recoverable.written nofun fun t awaiting new => absurd (awaiting.before rfl ?_) new
  intro is
  cases is
  exact assigns rfl

theorem Recoverable.dropped (recoverable : Recoverable whole w)
    (released : ¬ Awaiting w.ledger txid) : Recoverable whole (w.dropSidecar txid) where
  kept t awaiting := by
    have other : t ≠ txid := by
      rintro rfl
      exact released awaiting
    rw [w.sidecar_dropSidecar_of_ne other]
    exact recoverable.kept t awaiting
  named t contents has := by
    rcases eq_or_ne t txid with rfl | other
    · rw [w.sidecar_dropSidecar] at has
      cases has
    · exact recoverable.named t contents (w.sidecar_dropSidecar_of_ne other ▸ has)
  booked := recoverable.booked

theorem Recoverable.put {contents : Sidecar} (recoverable : Recoverable whole w)
    (named : (∃ tx, contents = .hex tx ∧ tx.txid = txid) ∨ contents = .torn ∧ ¬ whole) :
    Recoverable whole (w.putSidecar txid contents) where
  kept t awaiting := by
    rcases eq_or_ne t txid with rfl | other
    · rw [w.sidecar_putSidecar]
      exact nofun
    · rw [w.sidecar_putSidecar_of_ne contents other]
      exact recoverable.kept t awaiting
  named t contents' has := by
    rcases eq_or_ne t txid with rfl | other
    · rw [w.sidecar_putSidecar] at has
      cases has
      exact named
    · exact recoverable.named t contents' (w.sidecar_putSidecar_of_ne contents other ▸ has)
  booked := recoverable.booked

end

/-! ## The send paths -/

section

variable {host : Host} {assume : Guarantee sig World} {led : Handle} {w : World}

/-- The promise of each call: it leaves a recoverable world recoverable. -/
def LeavesRecoverable (host : Host) (assume : Guarantee sig World) : Guarantee sig World :=
  fun w op answer => ((interp host).restrict assume).allowed w op answer →
    Recoverable (Whole assume) w → Recoverable (Whole assume) (w.after op answer)

/-- A call of a session that has the one instance `led`. -/
def OnInstance (led : Handle) : Op → Prop
  | .openLedger => False
  | .append led' _ => led' = led
  | _ => True

/-- The promise of each call of such a session. -/
def PrudentOn (host : Host) (assume : Guarantee sig World) (led : Handle) :
    Guarantee sig World := fun w op answer =>
  LeavesRecoverable host assume w op answer ∧ OnInstance led op

theorem keeps_recoverable : Keeps ((interp host).restrict assume) (LeavesRecoverable host assume)
    (Recoverable (Whole assume)) :=
  fun _ _ _ allowed promised recoverable => promised allowed recoverable

theorem permitsBuild_recoverable (maxFeeSats : Option ℕ) :
    PermitsBuild (LeavesRecoverable host assume) maxFeeSats where
  prepares w op answer prepares _ recoverable := by
    refine recoverable.of_same (w.after_ledger answer ?_) (w.after_sidecars answer ?_ ?_)
    · rintro led e rfl
      exact prepares
    · rintro txid tx rfl
      exact prepares
    · rintro txid why rfl
      exact prepares
  signs w tx answer _ _ recoverable := recoverable.of_same rfl rfl

/-- An append leaves its line, or nothing. -/
theorem leavesRecoverable_append {e : Entry} (answer : AppendAnswer)
    (written : Recoverable (Whole assume) w → Recoverable (Whole assume) (w.written e)) :
    LeavesRecoverable host assume w (.append led e) answer := by
  intro _ recoverable
  cases answer with
  | lost error => exact recoverable
  | kept error => exact written recoverable
  | ok => exact (written recoverable).of_same rfl rfl

theorem wp_record_recoverable {sats : ℕ} {payee : String} {tx : Tx} {consumed : List OutPoint} :
    wp ((interp host).restrict assume) (LeavesRecoverable host assume) (fun _ _ => True)
      (record led tx sats payee >>= fun _ => markSpent led consumed) w := by
  refine wp_bind.2 (wp_record (permitsBuild_recoverable none) (fun _ _ => trivial) ?_ ?_ ?_)
  · rintro (_ | error | error) allowed recoverable
    · exact recoverable.put (.inl ⟨tx, rfl, rfl⟩)
    · exact recoverable
    · exact recoverable.put (.inr ⟨rfl, fun whole => whole _ _ _ _ allowed.2⟩)
  · intro now _ answer
    refine leavesRecoverable_append answer fun recoverable => recoverable.sent ?_
    show (w.putSidecar tx.txid (.hex tx)).sidecar tx.txid ≠ none
    rw [w.sidecar_putSidecar]
    exact nofun
  · intro now _ v
    refine ⟨fun _ _ recoverable => recoverable.of_same rfl rfl, wp_unguarded ?_⟩
    refine within_markSpent ?_ fun seq txid vout w answer => ?_
    · exact fun _ _ _ recoverable => recoverable
    · exact leavesRecoverable_append answer Recoverable.spSpent

/-- A send stays on the session's instance. -/
theorem within_sends {sats : ℕ} {maxFeeSats : Option ℕ} (text : String) :
    (send host led text sats maxFeeSats).Within (OnInstance led) ∧
      (spSend host led text sats maxFeeSats).Within (OnInstance led) ∧
      (sendSpendingSp host led text sats maxFeeSats).Within (OnInstance led) := by
  refine ⟨within_send ?_ ?_ ?_ ?_ ?_ ?_ ?_ ?_ ?_, within_spSend ?_ ?_ ?_ ?_ ?_ ?_ ?_ ?_ ?_ ?_,
    within_sendSpendingSp ?_ ?_ ?_ ?_ ?_ ?_ ?_ ?_ ?_ ?_⟩
  all_goals intros; trivial

/-- What is prudent of each call of a send is prudent on its instance. -/
theorem wp_onInstance {α : Type} {p : Prog α} (within : p.Within (OnInstance led))
    (holds : wp ((interp host).restrict assume) (LeavesRecoverable host assume)
      (fun _ _ => True) p w) :
    wp ((interp host).restrict assume) (PrudentOn host assume led) (fun _ _ => True) p w :=
  wp_mono (wp_and holds (wp_unguarded (G := fun _ op _ => OnInstance led op)
    (within.mono fun _ on _ _ => on))) fun _ _ _ => trivial

end

/-! ## The recovery loop -/

section

variable {host : Host} {assume : Guarantee sig World} {led : Handle} {w : World}

/-- What ties a session's one instance to the file: it holds no more than the file and, if
appends leave no line, every send of it. -/
structure Mirrors (clean : Prop) (led : Handle) (w : World) : Prop where
  opened : led + 1 = w.fresh
  inFile : w.mem led ⊆ w.ledger
  sends : clean → KnowsSends led w

theorem Mirrors.of_same {clean : Prop} {w' : World} (mirrors : Mirrors clean led w)
    (fresh : w'.fresh = w.fresh) (ledger : w'.ledger = w.ledger) (mem : w'.mem led = w.mem led) :
    Mirrors clean led w' where
  opened := fresh ▸ mirrors.opened
  inFile := ledger ▸ mem ▸ mirrors.inFile
  sends isClean := by
    have known := mirrors.sends isClean
    unfold KnowsSends at known ⊢
    rwa [ledger, mem]

/-- A line that the instance lacks is no send, or a line that an append left. -/
theorem Mirrors.written {clean : Prop} {e : Entry} (mirrors : Mirrors clean led w)
    (left : clean → e.sentTxid? = none) : Mirrors clean led (w.written e) where
  opened := mirrors.opened
  inFile := List.Subset.trans mirrors.inFile (List.subset_append_left ..)
  sends isClean txid member := by
    refine mirrors.sends isClean txid ?_
    simpa [World.written, List.filterMap_append, left isClean] using member

theorem Mirrors.appended {clean : Prop} {e : Entry} (mirrors : Mirrors clean led w) :
    Mirrors clean led (w.appended led e) := by
  have mem : (w.appended led e).mem led = w.mem led ++ [e] := Function.update_self ..
  refine ⟨mirrors.opened, ?_, fun isClean txid member => ?_⟩
  · rw [mem]
    exact List.append_subset.2 ⟨List.Subset.trans mirrors.inFile (List.subset_append_left ..),
      List.subset_append_right ..⟩
  · rw [mem, List.filterMap_append]
    have sent : txid ∈ w.ledger.filterMap Entry.sentTxid? ++ [e].filterMap Entry.sentTxid? := by
      rw [← List.filterMap_append]
      exact member
    rcases List.mem_append.1 sent with before | new
    · exact List.mem_append_left _ (mirrors.sends isClean txid before)
    · exact List.mem_append_right _ new

/-- No call of the session takes its instance out of step. -/
theorem Mirrors.after {op : Op} {answer : sig.Ans op} (mirrors : Mirrors (LeavesNoLine assume) led w)
    (allowed : ((interp host).restrict assume).allowed w op answer) (on : OnInstance led op) :
    Mirrors (LeavesNoLine assume) led (w.after op answer) := by
  cases op with
  | openLedger => exact on.elim
  | append led' e =>
      obtain rfl : led' = led := on
      cases answer with
      | lost error => exact mirrors.of_same rfl rfl rfl
      | kept error =>
          refine mirrors.written fun clean => by_contra fun isSend => ?_
          exact clean _ _ _ _ isSend allowed.2
      | ok => exact mirrors.appended
  | _ =>
      exact mirrors.of_same (w.after_fresh answer nofun) (w.after_ledger answer nofun)
        (congrFun (w.after_mem answer nofun nofun) led)

/-- An open instance in step with a recoverable world. -/
def Lockstep (assume : Guarantee sig World) (led : Handle) (w : World) : Prop :=
  Recoverable (Whole assume) w ∧ Mirrors (LeavesNoLine assume) led w

theorem keeps_lockstep : Keeps ((interp host).restrict assume) (PrudentOn host assume led)
    (Lockstep assume led) := fun _ _ _ allowed promised lockstep =>
  ⟨promised.1 allowed lockstep.1, lockstep.2.after allowed promised.2⟩

/-- The line appended last is the file's last. -/
def LastAppended (led : Handle) (w : World) (past : List (Event sig)) : Prop :=
  ∀ e, past.head? = some ⟨.append led e, .ok⟩ → w.ledger.getLast? = some e

/-- A status above `pending` in the instance was recorded on file. -/
theorem Recoverable.confirmed {whole : Prop} {txid : String} {status : Status}
    (recoverable : Recoverable whole w) (inFile : w.mem led ⊆ w.ledger)
    (latest : Ledger.latestStatus (w.mem led) txid = some status)
    (deep : status = .soft ∨ status = .final) : Confirmed w.ledger txid := by
  obtain ⟨e, member, assigns⟩ := Ledger.exists_of_latestStatus latest
  have booked := recoverable.booked e (inFile member)
  cases e with
  | statusUpdate seq t s =>
      cases assigns
      exact ⟨seq, status, inFile member, deep⟩
  | sent | received | spReceived =>
      have pending := booked _ rfl
      rw [assigns] at pending
      cases pending
      rcases deep with deep | deep <;> cases deep
  | addressIssued | spSpent => cases assigns

/-- The loop puts a payment back to pending only if it was seen confirmed. -/
theorem Recoverable.onOpen {whole : Prop} {txid : String} (recoverable : Recoverable whole w)
    (inFile : w.mem led ⊆ w.ledger) (queued : Queued (w.mem led) txid)
    (changed : Ledger.latestStatus (w.mem led) txid ≠ some .pending) : Confirmed w.ledger txid := by
  obtain ⟨e, member, pays⟩ := Ledger.hasTxid_iff.1 queued.onRecord
  have assigned := Ledger.latestStatus_ne_none member
    (recoverable.booked e (inFile member) txid pays)
  rcases latest : Ledger.latestStatus (w.mem led) txid with _ | status
  · exact absurd latest assigned
  refine recoverable.confirmed inFile latest ?_
  cases status with
  | pending => exact absurd latest changed
  | soft => exact .inl rfl
  | final => exact .inr rfl
  | failed => exact absurd latest queued.notFailed

theorem not_awaiting_of_last {entries : List Entry} {seq : ℕ} {txid : String}
    (last : entries.getLast? = some (.statusUpdate seq txid .failed)) : ¬ Awaiting entries txid := by
  intro awaiting
  obtain ⟨front, rfl⟩ := List.getLast?_eq_some_iff.1 last
  have pending := awaiting.pending
  rw [Ledger.latestStatus_append_self rfl] at pending
  cases pending

/-- A sidecar is dropped only if its payment does not wait for it. -/
theorem released {past : List (Event sig)} {txid : String} {why : Removal}
    (inStep : LeavesNoLine assume ∨ SweepsInStep assume) (lockstep : Lockstep assume led w)
    (last : LastAppended led w past) {answer : Except Error Unit}
    (allowed : ((interp host).restrict assume).allowed w (.removeSidecar txid why) answer)
    (knows : Reconciles led (w.mem led, past) (.removeSidecar txid why) answer) :
    ¬ Awaiting w.ledger txid := by
  obtain ⟨recoverable, mirrors⟩ := lockstep
  cases why with
  | rejected =>
      obtain ⟨seq, es, past', -, rfl⟩ := knows
      exact not_awaiting_of_last (last _ rfl)
  | settled =>
      obtain ⟨confs, confirmed, -, latest⟩ := knows
      refine fun awaiting => awaiting.unconfirmed
        (recoverable.confirmed mirrors.inFile latest ?_)
      match confs, confirmed with
      | 1, _ | 2, _ => exact .inl rfl
      | _ + 3, _ => exact .inr rfl
  | orphan =>
      have known : KnowsSends led w := by
        rcases inStep with clean | sweeps
        · exact mirrors.sends clean
        · have opened : w.fresh - 1 = led := by rw [← mirrors.opened, Nat.add_sub_cancel]
          exact opened ▸ sweeps w txid answer allowed.2
      exact fun awaiting => knows (known txid awaiting.sent)

/-- A call of the loop keeps its promise, and the last line is the one it appended. -/
theorem reconciles_recoverable (inStep : LeavesNoLine assume ∨ SweepsInStep assume) (w : World)
    (past : List (Event sig)) (op : Op) (answer : op.Ans)
    (tied : Lockstep assume led w ∧ LastAppended led w past)
    (allowed : ((interp host).restrict assume).allowed w op answer)
    (knows : Reconciles led (w.mem led, past) op answer) :
    PrudentOn host assume led w op answer ∧
      LastAppended led (w.after op answer) (⟨op, answer⟩ :: past) := by
  obtain ⟨lockstep, last⟩ := tied
  have silent : ∀ {w' past'}, (∀ e, past'.head? ≠ some (⟨.append led e, .ok⟩ : Event sig)) →
      LastAppended led w' past' := fun other e is => absurd is (other e)
  cases op with
  | append led' e =>
      cases e with
      | statusUpdate seq txid status =>
          obtain ⟨rfl, -, queued, why⟩ := knows
          refine ⟨⟨leavesRecoverable_append answer fun recoverable => recoverable.updated ?_, rfl⟩, ?_⟩
          · rintro rfl
            rcases why with ⟨failed, -⟩ | ⟨confs, -, -, changed⟩
            · cases failed
            · exact lockstep.1.onOpen lockstep.2.inFile queued changed
          · cases answer with
            | lost | kept => exact silent nofun
            | ok =>
                intro e is
                cases is
                exact List.getLast?_concat
      | _ => exact knows.elim
  | broadcast tx => exact ⟨⟨fun _ recoverable => recoverable.of_same rfl rfl, trivial⟩, silent nofun⟩
  | removeSidecar txid why =>
      have free := released inStep lockstep last allowed knows
      refine ⟨⟨fun _ recoverable => ?_, trivial⟩, silent nofun⟩
      rcases answer with error | ⟨⟩
      · exact recoverable
      · exact recoverable.dropped free
  | entries | confirmations | readSidecar | listSidecars =>
      exact ⟨⟨fun _ recoverable => recoverable, trivial⟩, silent nofun⟩
  | _ => exact knows.elim

theorem wp_reconcile_recoverable (inStep : LeavesNoLine assume ∨ SweepsInStep assume)
    (lockstep : Lockstep assume led w) :
    wp ((interp host).restrict assume) (PrudentOn host assume led) (fun _ _ => True)
      (reconcile led) w := by
  have isOpen : led < w.fresh := Nat.lt_of_succ_le (Nat.le_of_eq lockstep.2.opened)
  have start : Lockstep assume led w ∧ LastAppended led w [] := ⟨lockstep, nofun⟩
  refine wp_mono (wp_seen (fun w past => Lockstep assume led w ∧ LastAppended led w past) isOpen
    start (fun w past op answer _ tied allowed knows => ?_) wp_reconcile_view)
    fun _ _ _ => trivial
  obtain ⟨promised, last⟩ := reconciles_recoverable inStep w past op answer tied allowed knows
  exact ⟨promised, keeps_lockstep w op answer allowed promised tied.1, last⟩

end

/-! ## Whole runs -/

section

variable {host : Host} {assume : Guarantee sig World} {led : Handle} {w : World}

theorem wp_task_recoverable (inStep : LeavesNoLine assume ∨ SweepsInStep assume) (task : Task)
    (lockstep : Lockstep assume led w) :
    wp ((interp host).restrict assume) (PrudentOn host assume led) (fun _ _ => True)
      (task.perform host led) w := by
  cases task with
  | send payee sats maxFeeSats =>
      exact wp_bind.2 (wp_attempt.2 (wp_onInstance (within_sends payee).1
        (wp_send (permitsBuild_recoverable maxFeeSats) (fun _ _ => trivial)
          fun _ _ _ _ => wp_record_recoverable)))
  | spSend code sats maxFeeSats =>
      exact wp_bind.2 (wp_attempt.2 (wp_onInstance (within_sends code).2.1
        (wp_spSend (permitsBuild_recoverable maxFeeSats) (fun _ _ => trivial)
          fun _ _ _ _ => wp_record_recoverable)))
  | sendSpendingSp payee sats maxFeeSats =>
      exact wp_bind.2 (wp_attempt.2 (wp_onInstance (within_sends payee).2.2
        (wp_sendSpendingSp (permitsBuild_recoverable maxFeeSats) (fun _ _ => trivial)
          fun _ _ _ _ => wp_record_recoverable)))
  | reconcile => exact wp_bind.2 (wp_attempt.2 (wp_reconcile_recoverable inStep lockstep))

theorem wp_session_recoverable (inStep : LeavesNoLine assume ∨ SweepsInStep assume)
    (tasks : List Task) (recoverable : Recoverable (Whole assume) w) :
    wp ((interp host).restrict assume) (LeavesRecoverable host assume) (fun _ _ => True)
      (lifetime host tasks) w := by
  refine wp_bind.2 ?_
  rintro (error | led) ⟨opened, -⟩ <;>
    refine ⟨fun _ recoverable => recoverable.of_same (w.after_ledger _ nofun)
      (w.after_sidecars _ nofun nofun), ?_⟩
  · trivial
  obtain rfl : led = w.fresh := opened
  have mem : (w.load w.fresh).mem w.fresh = w.ledger := w.load_mem
  have lockstep : Lockstep assume w.fresh (w.load w.fresh) := by
    refine ⟨recoverable.of_same rfl rfl, rfl, mem ▸ List.Subset.refl _, fun _ txid member => ?_⟩
    rw [mem]
    exact member
  refine wp_ofExcept.2 (wp_weaken (G := PrudentOn host assume w.fresh)
    (fun _ _ _ promised => promised.1) ?_)
  refine wp_forEach lockstep (fun task _ w lockstep => ?_) fun _ _ => trivial
  refine wp_mono (wp_keeps keeps_lockstep lockstep (wp_task_recoverable inStep task lockstep)) ?_
  rintro (error | ⟨⟩) w' ⟨-, lockstep'⟩
  · trivial
  · exact lockstep'

/-- **A pending payment stays recoverable until it is seen confirmed.**  In every world that
sessions of a single writer reach from an empty directory, each of any list of sends and
reconciles, with any answers and cut anywhere: a payment on file that is pending, and of
which no confirmation was ever recorded, has its sidecar on disk; and the sidecar is its
transaction, unless writes of sidecars may be cut short.  Either no append of a `sent`
line returns an error with the line on file, or no instance that lacks one sweeps. -/
theorem pending_recoverable (inStep : LeavesNoLine assume ∨ SweepsInStep assume)
    (reached : Reachable ((interp host).restrict assume) (lifetime host) World.crash World.blank w)
    {txid : String} (sent : txid ∈ w.ledger.filterMap Entry.sentTxid?)
    (pending : Ledger.latestStatus w.ledger txid = some .pending)
    (unconfirmed : ¬ Confirmed w.ledger txid) :
    ∃ contents, w.sidecar txid = some contents ∧
      (Whole assume → ∃ tx, contents = .hex tx ∧ tx.txid = txid) := by
  have blank : Recoverable (Whole assume) World.blank :=
    ⟨fun _ awaiting => absurd awaiting.sent List.not_mem_nil, nofun, nofun⟩
  have survives : ∀ w, Recoverable (Whole assume) w → Recoverable (Whole assume) w.crash :=
    fun _ recoverable => recoverable.of_same rfl rfl
  have recoverable := reached.inv blank keeps_recoverable survives
    fun tasks w => wp_session_recoverable inStep tasks
  rcases has : w.sidecar txid with _ | contents
  · exact absurd has (recoverable.kept txid ⟨sent, pending, unconfirmed⟩)
  refine ⟨contents, rfl, fun whole => ?_⟩
  rcases recoverable.named txid contents has with complete | ⟨-, torn⟩
  · exact complete
  · exact absurd whole torn

end

/-! ## A confirmation that did not last, and a line the instance lacks -/

/-- What the chain counts for the one payment, once it is asked. -/
def countScript (confs : ℕ) : Script := { walletScript with confirmations := fun _ => .ok confs }

def samplePayment : Task := .send sampleAddress.display 40000 (some 500)

/-- The wallet after one session that pays and reconciles, while the chain does not count the
payment yet. -/
def afterPayment : World :=
  (run ((countScript 0).handle walletHost) (lifetime walletHost [samplePayment, .reconcile])
    World.blank).2

/-- After a session that found one confirmation. -/
def afterOneConfirmation : World :=
  (run ((countScript 1).handle walletHost) (lifetime walletHost [.reconcile])
    afterPayment.crash).2

/-- After the next reconcile, which finds none. -/
def afterReorganisation : World :=
  (run ((countScript 0).handle walletHost) (Ledger.openWithIdentity >>= Kernel.reconcile)
    afterOneConfirmation.crash).2

/-- Pay and reconcile on one instance. -/
def payThenSweep : Prog ℕ := do
  let led ← Ledger.openWithIdentity
  samplePayment.perform walletHost led
  reconcile led

/-- The disk fails to confirm the `sent` line it has written. -/
def unsyncedAnswer (w : World) : (op : Op) → op.Ans
  | .append _ (.sent ..) => .kept "fsync: input/output error"
  | op => (countScript 0).answer walletHost w op

def unsynced (op : Op) (w : World) : op.Ans × World :=
  (unsyncedAnswer w op, w.after op (unsyncedAnswer w op))

/-- A disk that writes a line or a sidecar whole, or fails and writes nothing. -/
def atomicDisk : Guarantee sig World := fun _ op answer =>
  match op, answer with
  | .writeSidecar _ _, .torn _ => False
  | .append _ _, .kept _ => False
  | _, _ => True

theorem pending_recoverable_sample :
    ∃ contents, afterPayment.crash.sidecar sampleTxid = some contents ∧
      ∃ tx, contents = .hex tx ∧ tx.txid = sampleTxid := by
  have whole : Whole atomicDisk := fun _ _ _ _ cut => cut
  have clean : LeavesNoLine atomicDisk := fun _ _ _ _ _ left => left
  have assumed : ∀ op w, atomicDisk w op ((countScript 0).answer walletHost w op) := by
    intro op w
    cases op <;> trivial
  have booted : Lifetimes ((interp walletHost).restrict atomicDisk) (lifetime walletHost)
      World.crash World.blank afterPayment.crash :=
    .crashed _ .boot ((countScript 0).exec walletHost assumed _ _).reach
  obtain ⟨contents, has, complete⟩ :=
    @pending_recoverable walletHost atomicDisk afterPayment.crash (.inl clean)
      ⟨_, [.reconcile], booted, .here _ _⟩ sampleTxid (by decide +kernel) (by decide +kernel) (by
        rintro ⟨seq, status, member, -⟩
        have only : ∀ e ∈ afterPayment.crash.ledger, e.sentTxid? = some sampleTxid := by
          decide +kernel
        cases only _ member)
  exact ⟨contents, has, complete whole⟩

/-- Two ways to strand a pending payment.  One confirmation, and the sidecar is dropped; then
none, and a completed reconcile has put the payment back to pending, with nothing left to
hand out again.  Or, with no confirmation at all: the `sent` line reaches the file, its
append fails, and a reconcile on the same instance sweeps the sidecar. -/
theorem pending_strands :
    (∃ w w', Lifetimes (interp walletHost) (lifetime walletHost) World.crash World.blank w ∧
      Exec (interp walletHost) (Ledger.openWithIdentity >>= Kernel.reconcile) w (.ok 1) w' ∧
      sampleTxid ∈ w'.ledger.filterMap Entry.sentTxid? ∧
      Ledger.latestStatus w'.ledger sampleTxid = some .pending ∧
      w'.sidecar sampleTxid = none) ∧
    ∃ w', Exec (interp walletHost) payThenSweep World.blank (.ok 0) w' ∧
      sampleTxid ∈ w'.ledger.filterMap Entry.sentTxid? ∧
      Ledger.latestStatus w'.ledger sampleTxid = some .pending ∧
      ¬ Confirmed w'.ledger sampleTxid ∧ w'.sidecar sampleTxid = none := by
  have allowed : ∀ (script : Script) (op : Op) w, (interp walletHost).allowed w op
      (script.handle walletHost op w).1 :=
    fun script op w => Script.allowed walletHost script w op
  constructor
  · refine ⟨afterOneConfirmation.crash, afterReorganisation, ?_, ?_, by decide +kernel,
      by decide +kernel, by decide +kernel⟩
    · have paid : Lifetimes (interp walletHost) (lifetime walletHost) World.crash World.blank
          afterPayment.crash :=
        .crashed _ .boot (run_exec id _ _ (allowed (countScript 0)) fun _ _ => rfl).reach
      exact .crashed _ paid (run_exec id _ _ (allowed (countScript 1)) fun _ _ => rfl).reach
    · have exec := run_exec id (Ledger.openWithIdentity >>= Kernel.reconcile)
        afterOneConfirmation.crash (allowed (countScript 0)) fun _ _ => rfl
      have completed : (run ((countScript 0).handle walletHost)
          (Ledger.openWithIdentity >>= Kernel.reconcile) afterOneConfirmation.crash).1 = .ok 1 := by
        decide +kernel
      rw [completed] at exec
      exact exec
  · have answered : ∀ (op : Op) w, (interp walletHost).allowed w op (unsynced op w).1 := by
      intro op w
      cases op with
      | append led e => cases e <;> trivial
      | _ => exact allowed (countScript 0) _ w
    have exec := run_exec id payThenSweep World.blank answered fun _ _ => rfl
    have completed : (run unsynced payThenSweep World.blank).1 = .ok 0 := by decide +kernel
    rw [completed] at exec
    refine ⟨_, exec, by decide +kernel, by decide +kernel, ?_, by decide +kernel⟩
    rintro ⟨seq, status, member, -⟩
    have only : ∀ e ∈ (run unsynced payThenSweep World.blank).2.ledger,
        e.sentTxid? = some sampleTxid := by decide +kernel
    cases only _ member

end ComputerMoney.Safety

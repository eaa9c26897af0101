/-
# Safety.WriteAhead -- nothing reaches the network before it is on disk

Three send paths and the recovery loop share two pieces of durable state, the ledger
file and the `pending/` directory, and the process may die between any two writes.  The
invariant that ties them (`WriteAhead`): whatever was handed to the network has its
`sent` line on file, and a sidecar holds the transaction its name says, one this wallet
built and no earlier history knows.

Within one lifetime the sweep of orphans reads the instance, not the file, so the
lifetime carries more (`Live`): what was handed out is recorded in the instance too.  A
line that reached the file but not the instance is never handed out by this instance,
which is why a failed append may leave its line.

A transaction id commits to the amount it pays (`amountOf`), and the wallet does not
build again what its history already shows; both are properties of the transactions,
not of this code (`Honest`).
-/
import ComputerMoney.Kernel.PaySpec
import ComputerMoney.Kernel.Script

namespace ComputerMoney.Safety

set_option autoImplicit false

open Theory Theory.Program Kernel

/-! ## The run -/

/-- One use of the single writer. -/
inductive Task where
  | send (payee : String) (sats : ℕ) (maxFeeSats : Option ℕ)
  | spSend (code : String) (sats : ℕ) (maxFeeSats : Option ℕ)
  | sendSpendingSp (payee : String) (sats : ℕ) (maxFeeSats : Option ℕ)
  | reconcile

/-- Do it, whatever comes of it. -/
def Task.perform (host : Host) (led : Handle) : Task → Prog Unit
  | .send payee sats maxFeeSats => do
      let _ ← (Kernel.send host led payee sats maxFeeSats).attempt
  | .spSend code sats maxFeeSats => do
      let _ ← (Kernel.spSend host led code sats maxFeeSats).attempt
  | .sendSpendingSp payee sats maxFeeSats => do
      let _ ← (Kernel.sendSpendingSp host led payee sats maxFeeSats).attempt
  | .reconcile => do
      let _ ← (Kernel.reconcile led).attempt

/-- One lifetime: open the ledger, then one task after another. -/
def lifetime (host : Host) (tasks : List Task) : Prog Unit := do
  let led ← Ledger.openWithIdentity
  .forEach tasks fun task => task.perform host led

section

variable (history : List Entry) (amountOf : String → ℕ)

/-- A finished transaction pays what its id commits to, and is none the history shows. -/
def Honest : Guarantee sig World
  | _, .finishPsbt request, .ok psbt =>
      amountOf psbt.txid = request.sats ∧ ∀ e ∈ history, e.paymentTxid? ≠ some psbt.txid
  | _, _, _ => True

/-- A wallet directory with a history and nothing pending. -/
def startWorld : World := { World.blank with ledger := history }

end

/-- The payment is on record, amount and all. -/
def Recorded (entries : List Entry) (tx : Tx) : Prop :=
  ∃ seq payee status sentAt, Entry.sent seq tx.txid tx.sats payee status sentAt ∈ entries

theorem Recorded.mono {entries entries' : List Entry} {tx : Tx} (recorded : Recorded entries tx)
    (grown : entries ⊆ entries') : Recorded entries' tx := by
  obtain ⟨seq, payee, status, sentAt, member⟩ := recorded
  exact ⟨seq, payee, status, sentAt, grown member⟩

/-- A transaction of this wallet's own making. -/
structure Own (history : List Entry) (amountOf : String → ℕ) (tx : Tx) : Prop where
  amount : amountOf tx.txid = tx.sats
  new : ∀ e ∈ history, e.paymentTxid? ≠ some tx.txid

/-- An entry that, if it is a payment, is one this wallet sent, at the amount it pays. -/
def Outgoing (amountOf : String → ℕ) (e : Entry) : Prop :=
  ∀ txid, e.paymentTxid? = some txid →
    ∃ seq payee status sentAt, e = .sent seq txid (amountOf txid) payee status sentAt

/-! ## The durable invariant -/

section

variable (history : List Entry) (amountOf : String → ℕ)

structure WriteAhead (w : World) : Prop where
  handed : ∀ tx ∈ w.net, Recorded w.ledger tx
  sidecars : ∀ txid tx, (txid, Sidecar.hex tx) ∈ w.sidecars →
    tx.txid = txid ∧ Own history amountOf tx
  entries : ∀ e ∈ w.ledger, e ∈ history ∨ Outgoing amountOf e

/-- The promise of each call. -/
def Ordered : Guarantee sig World
  | w, .broadcast tx, _ => Recorded w.ledger tx ∧ w.sidecar tx.txid = some (.hex tx)
  | w, .removeSidecar txid .orphan, _ => ∀ tx ∈ w.net, tx.txid ≠ txid
  | _, .writeSidecar txid tx, _ => tx.txid = txid ∧ Own history amountOf tx
  | _, .append _ e, _ => Outgoing amountOf e
  | _, _, _ => True

variable {history amountOf}

theorem WriteAhead.mono {w w' : World} (ahead : WriteAhead history amountOf w)
    (ledger : w'.ledger = w.ledger) (sidecars : w'.sidecars = w.sidecars) (net : w'.net = w.net) :
    WriteAhead history amountOf w' where
  handed tx member := ledger ▸ ahead.handed tx (net ▸ member)
  sidecars txid tx member := ahead.sidecars txid tx (sidecars ▸ member)
  entries e member := ahead.entries e (ledger ▸ member)

theorem WriteAhead.written {w : World} {e : Entry} (ahead : WriteAhead history amountOf w)
    (outgoing : Outgoing amountOf e) : WriteAhead history amountOf (w.written e) where
  handed tx member := (ahead.handed tx member).mono (List.subset_append_left ..)
  sidecars := ahead.sidecars
  entries e' member := by
    rcases List.mem_append.1 member with before | new
    · exact ahead.entries e' before
    · exact .inr (List.mem_singleton.1 new ▸ outgoing)

theorem WriteAhead.sidecarsFrom {w w' : World} (ahead : WriteAhead history amountOf w)
    (ledger : w'.ledger = w.ledger) (net : w'.net = w.net)
    (from_ : ∀ txid tx, (txid, Sidecar.hex tx) ∈ w'.sidecars →
      (txid, Sidecar.hex tx) ∈ w.sidecars ∨ tx.txid = txid ∧ Own history amountOf tx) :
    WriteAhead history amountOf w' where
  handed tx member := ledger ▸ ahead.handed tx (net ▸ member)
  sidecars txid tx member := (from_ txid tx member).elim (ahead.sidecars txid tx) id
  entries e member := ahead.entries e (ledger ▸ member)

theorem keeps_writeAhead (host : Host) :
    Keeps ((interp host).restrict (Honest history amountOf)) (Ordered history amountOf)
      (WriteAhead history amountOf) := by
  intro w op answer allowed promised ahead
  cases op with
  | append led entry =>
      have grown := ahead.written (e := entry) promised
      cases answer with
      | ok => exact grown.mono rfl rfl rfl
      | lost error => exact ahead
      | kept error => exact grown
  | writeSidecar txid tx =>
      cases answer with
      | ok =>
          refine ahead.sidecarsFrom rfl rfl fun txid' tx' member => ?_
          rcases List.mem_cons.1 member with same | kept
          · cases same
            exact .inr promised
          · exact .inl (List.mem_filter.1 kept).1
      | lost error => exact ahead
      | torn error =>
          refine ahead.sidecarsFrom rfl rfl fun txid' tx' member => ?_
          rcases List.mem_cons.1 member with same | kept
          · cases same
          · exact .inl (List.mem_filter.1 kept).1
  | removeSidecar txid why =>
      cases answer with
      | error e => exact ahead
      | ok _ =>
          refine ahead.sidecarsFrom rfl rfl fun txid' tx' member => ?_
          exact .inl (List.mem_filter.1 member).1
  | broadcast tx =>
      refine ⟨fun tx' member => ?_, ahead.sidecars, ahead.entries⟩
      rcases List.mem_cons.1 member with rfl | before
      · exact promised.1
      · exact ahead.handed tx' before
  | _ =>
      exact ahead.mono (w.after_ledger answer nofun) (w.after_sidecars answer nofun nofun)
        (w.after_net answer nofun)

end

/-! ## Within a lifetime -/

section

variable (history : List Entry) (amountOf : String → ℕ) (led : Handle) (base : List Entry)

/-- What a lifetime on the instance `led` keeps: the durable invariant, an instance that
holds nothing the file does not, at least what `base` held, and everything handed out. -/
structure Live (w : World) : Prop where
  ahead : WriteAhead history amountOf w
  opened : led < w.fresh
  inFile : w.mem led ⊆ w.ledger
  atLeast : base ⊆ w.mem led
  handed : ∀ tx ∈ w.net, Recorded (w.mem led) tx

/-- The promise of each call in a lifetime: what is handed out is in the instance too. -/
def OrderedOn : Guarantee sig World := fun w op answer =>
  Ordered history amountOf w op answer ∧
    match op with
    | .broadcast tx => Recorded (w.mem led) tx
    | _ => True

variable {history amountOf led base}

theorem Live.rebase {w : World} (live : Live history amountOf led base w) :
    Live history amountOf led (w.mem led) w :=
  { live with atLeast := List.Subset.refl _ }

theorem Live.mono {w w' : World} (live : Live history amountOf led base w)
    (ahead : WriteAhead history amountOf w') (fresh : w.fresh ≤ w'.fresh)
    (ledger : w.ledger ⊆ w'.ledger) (mem : w'.mem led = w.mem led) (net : w'.net = w.net) :
    Live history amountOf led base w' where
  ahead := ahead
  opened := Nat.lt_of_lt_of_le live.opened fresh
  inFile := mem ▸ List.Subset.trans live.inFile ledger
  atLeast := mem ▸ live.atLeast
  handed tx member := mem ▸ live.handed tx (net ▸ member)

theorem keeps_live (host : Host) :
    Keeps ((interp host).restrict (Honest history amountOf)) (OrderedOn history amountOf led)
      (Live history amountOf led base) := by
  intro w op answer allowed promised live
  have ahead := keeps_writeAhead host w op answer allowed promised.1 live.ahead
  cases op with
  | openLedger =>
      cases answer with
      | error e => exact live
      | ok led' =>
          obtain rfl : led' = w.fresh := allowed.1
          refine live.mono ahead (Nat.le_succ _) (List.Subset.refl _) ?_ rfl
          exact Function.update_of_ne (Nat.ne_of_lt live.opened) ..
  | append led' entry =>
      cases answer with
      | lost error => exact live
      | kept error =>
          exact live.mono ahead (Nat.le_refl _) (List.subset_append_left ..) rfl rfl
      | ok =>
          by_cases same : led = led'
          · subst same
            have mem : (w.appended led entry).mem led = w.mem led ++ [entry] :=
              Function.update_self ..
            refine ⟨ahead, live.opened, ?_, ?_, fun tx member => ?_⟩
            · show (w.appended led entry).mem led ⊆ w.ledger ++ [entry]
              exact mem ▸ List.append_subset.2 ⟨List.Subset.trans live.inFile (List.subset_append_left ..),
                List.subset_append_right ..⟩
            · show base ⊆ (w.appended led entry).mem led
              exact mem ▸ List.Subset.trans live.atLeast (List.subset_append_left ..)
            · show Recorded ((w.appended led entry).mem led) tx
              exact mem ▸ (live.handed tx member).mono (List.subset_append_left ..)
          · refine live.mono ahead (Nat.le_refl _) (List.subset_append_left ..) ?_ rfl
            exact Function.update_of_ne same ..
  | broadcast tx =>
      refine ⟨ahead, live.opened, live.inFile, live.atLeast, fun tx' member => ?_⟩
      rcases List.mem_cons.1 member with rfl | before
      · exact promised.2
      · exact live.handed tx' before
  | _ =>
      exact live.mono ahead (Nat.le_of_eq (w.after_fresh answer nofun).symm)
        (w.after_ledger answer nofun ▸ List.Subset.refl _)
        (congrFun (w.after_mem answer nofun nofun) led) (w.after_net answer nofun)

end

/-! ## The send paths -/

section

variable {history : List Entry} {amountOf : String → ℕ} {led : Handle} {base : List Entry}
  {host : Host} {w : World}

theorem permitsBuild (maxFeeSats : Option ℕ) :
    PermitsBuild (OrderedOn history amountOf led) maxFeeSats where
  prepares _ op _ prepares := by cases op <;> first | exact prepares.elim | exact ⟨trivial, trivial⟩
  signs _ _ _ _ := ⟨trivial, trivial⟩

/-- What a finished build returns is of this wallet's own making. -/
theorem own_of_built {sats : ℕ} {maxFeeSats : Option ℕ} {w' : World} {tx : Tx}
    (built : Built host (Honest history amountOf) sats maxFeeSats w tx w') :
    Own history amountOf tx := by
  obtain ⟨request, psbt, rfl, ⟨amount, new⟩, rfl⟩ := built.finished
  exact ⟨amount, new⟩

theorem wp_record_ordered {sats : ℕ} {payee : String} {tx : Tx} {consumed : List OutPoint}
    (amount : tx.sats = sats) (own : Own history amountOf tx) :
    wp ((interp host).restrict (Honest history amountOf)) (OrderedOn history amountOf led)
      (fun _ _ => True) (record led tx sats payee >>= fun _ => markSpent led consumed) w := by
  subst amount
  refine wp_bind.2 (wp_record (permitsBuild none) (fun _ _ => trivial) ?_ ?_ ?_)
  · intro _
    exact ⟨⟨rfl, own⟩, trivial⟩
  · intro now _ _
    refine ⟨fun txid is => ?_, trivial⟩
    obtain rfl : tx.txid = txid := by simpa [sentEntry, Entry.paymentTxid?] using is
    exact ⟨_, _, _, _, by rw [own.amount]; rfl⟩
  · intro now _ v
    have onFile : Recorded v.ledger tx :=
      ⟨_, _, _, _, List.mem_append_right _ (List.mem_singleton_self _)⟩
    have inInstance : Recorded (v.mem led) tx := by
      have mem : v.mem led = w.mem led ++ [sentEntry w led tx tx.sats payee now] :=
        Function.update_self ..
      exact ⟨_, _, _, _, mem ▸ List.mem_append_right _ (List.mem_singleton_self _)⟩
    refine ⟨fun _ => ⟨⟨onFile, w.sidecar_putSidecar tx.txid (.hex tx)⟩, inInstance⟩, ?_⟩
    refine wp_unguarded (within_markSpent (fun _ _ => ⟨trivial, trivial⟩) ?_)
    intro seq txid vout _ _
    exact ⟨nofun, trivial⟩

end

/-! ## The recovery loop -/

section

variable {history : List Entry} {amountOf : String → ℕ} {led : Handle} {base : List Entry}
  {host : Host} {w : World}

/-- Recording a status and dropping a settled sidecar ask for nothing. -/
theorem wp_advance_ordered (txid : String) (confs : ℕ) :
    wp ((interp host).restrict (Honest history amountOf)) (OrderedOn history amountOf led)
      (fun _ _ => True) (advance led txid confs) w := by
  refine wp_unguarded (within_advance (fun _ _ => ⟨trivial, trivial⟩) ?_ ?_)
  · intro seq status _ _
    exact ⟨nofun, trivial⟩
  · intro _ _
    exact ⟨trivial, trivial⟩

/-- Nor does marking a rejected payment failed. -/
theorem wp_reject_ordered (txid : String) :
    wp ((interp host).restrict (Honest history amountOf)) (OrderedOn history amountOf led)
      (fun _ _ => True) (do
        Ledger.updateStatus led txid .failed
        Ledger.removeSidecar txid .rejected
        return true : Prog Bool) w := by
  refine wp_unguarded (within_bind (within_updateStatus (fun _ _ => ⟨trivial, trivial⟩) ?_) fun _ =>
    within_bind ⟨?_, fun _ => within_ofExcept⟩ fun _ => trivial)
  · intro seq _ _
    exact ⟨nofun, trivial⟩
  · intro _ _
    exact ⟨trivial, trivial⟩

theorem mem_of_lookup {entries : List (String × Sidecar)} {txid : String} {contents : Sidecar}
    (found : entries.lookup txid = some contents) : (txid, contents) ∈ entries := by
  obtain ⟨before, after, rfl, -⟩ := List.lookup_eq_some_iff.1 found
  exact List.mem_append_right _ (List.mem_cons_self ..)

/-- A queued payment whose sidecar is there is one this instance recorded. -/
theorem Live.recorded {txid : String} {tx : Tx} (live : Live history amountOf led base w)
    (queued : ∃ e ∈ base, e.paymentTxid? = some txid)
    (sidecar : w.sidecar txid = some (.hex tx)) : tx.txid = txid ∧ Recorded (w.mem led) tx := by
  obtain ⟨e, inBase, is⟩ := queued
  obtain ⟨rfl, own⟩ := live.ahead.sidecars txid tx (mem_of_lookup sidecar)
  have inMem := live.atLeast inBase
  rcases live.ahead.entries e (live.inFile inMem) with old | outgoing
  · exact absurd is (own.new e old)
  · obtain ⟨seq, payee, status, sentAt, rfl⟩ := outgoing _ is
    exact ⟨rfl, seq, payee, status, sentAt, own.amount ▸ inMem⟩

theorem wp_reconcileOne_ordered {txid : String} (live : Live history amountOf led base w)
    (queued : ∃ e ∈ base, e.paymentTxid? = some txid) :
    wp ((interp host).restrict (Honest history amountOf)) (OrderedOn history amountOf led)
      (fun _ _ => True) (reconcileOne led txid) w := by
  refine wp_bind.2 ?_
  rintro (e | confs) - <;> refine ⟨⟨trivial, trivial⟩, ?_⟩
  · trivial
  refine bindPost_ok.2 ?_
  split
  · refine wp_bind.2 ?_
    rintro (e | contents) ⟨read, -⟩ <;> refine ⟨⟨trivial, trivial⟩, ?_⟩
    · trivial
    obtain rfl : contents = w.sidecar txid := read
    rcases sidecar : w.sidecar txid with _ | (tx | _)
    · exact wp_advance_ordered txid confs
    · obtain ⟨rfl, recorded⟩ := live.recorded queued sidecar
      refine wp_bind.2 (wp_bind.2 (wp_attempt.2 ?_))
      rintro (e | ⟨⟩) - <;> refine ⟨⟨⟨recorded.mono live.inFile, sidecar⟩, recorded⟩, ?_⟩
      · refine wp_ofExcept.2 (bindPost_ok.2 ?_)
        by_cases hard : isHardRejection e
        · simp only [hard, if_true]
          exact wp_reject_ordered tx.txid
        · simp only [hard]
          exact wp_advance_ordered tx.txid confs
      · exact wp_advance_ordered tx.txid confs
    · trivial
  · exact wp_advance_ordered txid confs

theorem wp_reconcileEach_ordered {queue : List String} {changed : ℕ}
    (live : Live history amountOf led base w)
    (queued : ∀ txid ∈ queue, ∃ e ∈ base, e.paymentTxid? = some txid) :
    wp ((interp host).restrict (Honest history amountOf)) (OrderedOn history amountOf led)
      (fun _ w' => Live history amountOf led base w') (reconcileEach led queue changed) w := by
  induction queue generalizing changed w with
  | nil => exact live
  | cons txid queue ih =>
      have one := wp_keeps (keeps_live host) live
        (wp_reconcileOne_ordered live (queued txid (List.mem_cons_self ..)))
      refine wp_bind.2 (wp_mono one ?_)
      rintro (e | updated) w' ⟨-, live'⟩
      · exact live'
      · exact ih live' fun txid member => queued txid (List.mem_cons_of_mem _ member)

theorem wp_sweepOrphans_ordered (live : Live history amountOf led base w) :
    wp ((interp host).restrict (Honest history amountOf)) (OrderedOn history amountOf led)
      (fun _ _ => True) (sweepOrphans led) w := by
  refine wp_bind.2 fun es read => ⟨⟨trivial, trivial⟩, ?_⟩
  obtain rfl : es = w.mem led := read.1
  refine wp_bind.2 ?_
  rintro (e | names) - <;> refine ⟨⟨trivial, trivial⟩, ?_⟩
  · trivial
  -- Removing sidecars hands nothing out, so what was handed out stays recorded throughout.
  refine wp_forEach (J := fun w' => w'.net = w.net) rfl (fun txid orphan w' net => ?_)
    fun _ _ => trivial
  have unrecorded : txid ∉ (w.mem led).filterMap Entry.sentTxid? := by
    simpa using (List.mem_filter.1 orphan).2
  have unhanded : ∀ tx ∈ w'.net, tx.txid ≠ txid := by
    rintro tx member rfl
    obtain ⟨seq, payee, status, sentAt, inMem⟩ := live.handed tx (net ▸ member)
    exact unrecorded (List.mem_filterMap.2 ⟨_, inMem, rfl⟩)
  rintro (e | ⟨⟩) - <;> refine ⟨⟨unhanded, trivial⟩, ?_⟩
  · trivial
  · exact net

theorem wp_reconcile_ordered (live : Live history amountOf led base w) :
    wp ((interp host).restrict (Honest history amountOf)) (OrderedOn history amountOf led)
      (fun _ _ => True) (reconcile led) w := by
  refine wp_bind.2 fun es read => ⟨⟨trivial, trivial⟩, ?_⟩
  obtain rfl : es = w.mem led := read.1
  refine wp_bind.2 (wp_mono (wp_reconcileEach_ordered live.rebase fun _ => Ledger.mem_pending) ?_)
  rintro (e | changed) w' live'
  · trivial
  refine wp_bind.2 (wp_mono (wp_sweepOrphans_ordered live') ?_)
  rintro (e | ⟨⟩) w'' - <;> trivial

end

/-! ## Whole runs -/

section

variable (host : Host) {history : List Entry} {amountOf : String → ℕ}

theorem wp_task_ordered {led : Handle} {base : List Entry} {w : World}
    (live : Live history amountOf led base w) (task : Task) :
    wp ((interp host).restrict (Honest history amountOf)) (OrderedOn history amountOf led)
      (fun _ _ => True) (task.perform host led) w := by
  cases task with
  | send payee sats maxFeeSats =>
      exact wp_bind.2 (wp_attempt.2 (wp_send (permitsBuild maxFeeSats) (fun _ _ => trivial)
        fun tx consumed w' built => wp_record_ordered built.sats_eq (own_of_built built)))
  | spSend code sats maxFeeSats =>
      exact wp_bind.2 (wp_attempt.2 (wp_spSend (permitsBuild maxFeeSats) (fun _ _ => trivial)
        fun tx consumed w' built => wp_record_ordered built.sats_eq (own_of_built built)))
  | sendSpendingSp payee sats maxFeeSats =>
      exact wp_bind.2 (wp_attempt.2 (wp_sendSpendingSp (permitsBuild maxFeeSats)
        (fun _ _ => trivial)
        fun tx consumed w' built => wp_record_ordered built.sats_eq (own_of_built built)))
  | reconcile => exact wp_bind.2 (wp_attempt.2 (wp_reconcile_ordered live))

theorem wp_lifetime_ordered (tasks : List Task) {w : World}
    (ahead : WriteAhead history amountOf w) :
    wp ((interp host).restrict (Honest history amountOf)) (Ordered history amountOf)
      (fun _ _ => True) (lifetime host tasks) w := by
  refine wp_bind.2 ?_
  rintro (e | led) ⟨opened, -⟩ <;> refine ⟨trivial, ?_⟩
  · trivial
  obtain rfl : led = w.fresh := opened
  have mem : (w.load w.fresh).mem w.fresh = w.ledger := Function.update_self ..
  have live : Live history amountOf w.fresh [] (w.load w.fresh) :=
    { ahead := ahead.mono rfl rfl rfl
      opened := Nat.lt_succ_self _
      inFile := mem ▸ List.Subset.refl _
      atLeast := List.nil_subset _
      handed := fun tx member => mem ▸ ahead.handed tx member }
  refine wp_ofExcept.2 (wp_weaken (G := OrderedOn history amountOf w.fresh)
    (fun _ _ _ promised => promised.1) ?_)
  refine wp_forEach live (fun task _ w live => ?_) fun _ _ => trivial
  refine wp_mono (wp_keeps (keeps_live host) live (wp_task_ordered host live task)) ?_
  rintro (e | ⟨⟩) w' ⟨-, live'⟩
  · trivial
  · exact live'

theorem writeAhead_startWorld : WriteAhead history amountOf (startWorld history) where
  handed _ member := nomatch member
  sidecars _ _ member := nomatch member
  entries _ member := .inl member

/-- **Recorded, then handed out.**  In every run of sends and recoveries, with the process
dying anywhere: whenever a transaction is handed to the network its `sent` line is on
file at its amount and its complete sidecar is on disk, and a sidecar swept as an orphan
belongs to nothing that was handed out. -/
theorem recorded_before_network :
    (∀ w tx answer, Made ((interp host).restrict (Honest history amountOf)) (lifetime host)
      World.crash (startWorld history) w (.broadcast tx) answer →
        Recorded w.ledger tx ∧ w.sidecar tx.txid = some (.hex tx)) ∧
    ∀ w txid answer, Made ((interp host).restrict (Honest history amountOf)) (lifetime host)
      World.crash (startWorld history) w (.removeSidecar txid .orphan) answer →
        ∀ tx ∈ w.net, tx.txid ≠ txid := by
  have survives : ∀ w, WriteAhead history amountOf w → WriteAhead history amountOf w.crash :=
    fun _ ahead => ahead.mono rfl rfl rfl
  have promised : ∀ {w : World} {op : Op} {answer : op.Ans},
      Made ((interp host).restrict (Honest history amountOf)) (lifetime host) World.crash
        (startWorld history) w op answer → Ordered history amountOf w op answer := fun made =>
    made.guaranteed writeAhead_startWorld (keeps_writeAhead host) survives fun tasks _ ahead =>
      wp_lifetime_ordered host tasks ahead
  exact ⟨fun w tx answer made => promised made, fun w txid answer made => promised made⟩

end

/-! ## One payment cut short, one carried through -/

def walletHost : Host := .sample .bitcoin ⟨some 50000, none, some 500, []⟩

/-- The one transaction this wallet can build. -/
def walletTx : Tx := ⟨sampleTxid, 40000, 141, []⟩

def walletScript : Script :=
  { Script.silent with
    now := 1700000000
    finish := fun request =>
      if request.sats = 40000 then .ok ⟨sampleTxid, 141, [], sampleAddress⟩
      else .error "insufficient funds" }

/-- The lifetime that pays, after `n` calls. -/
def paying (n : ℕ) : World :=
  cut (walletScript.handle walletHost) n
    (lifetime walletHost [.send sampleAddress.display 40000 (some 500)]) (startWorld [])

/-- The lifetime after a crash between the sidecar and the `sent` line, after `n` calls. -/
def recovering (n : ℕ) : World :=
  cut (walletScript.handle walletHost) n (lifetime walletHost [.reconcile]) (paying 6).crash

theorem recorded_before_network_sample :
    (Recorded (paying 9).ledger walletTx ∧
      (paying 9).sidecar sampleTxid = some (.hex walletTx)) ∧
    (recovering 4).sidecar sampleTxid = some (.hex walletTx) ∧
      ∀ tx ∈ (recovering 4).net, tx.txid ≠ sampleTxid := by
  have honest : ∀ op w, Honest [] (fun _ => 40000) w op (walletScript.answer walletHost w op) := by
    intro op w
    cases op with
    | finishPsbt request =>
        by_cases same : request.sats = 40000
        · rw [show walletScript.answer walletHost w (.finishPsbt request) = _ from if_pos same]
          exact ⟨same.symm, nofun⟩
        · rw [show walletScript.answer walletHost w (.finishPsbt request) = _ from if_neg same]
          trivial
    | _ => trivial
  have result := @recorded_before_network walletHost [] fun _ => 40000
  have booted : Lifetimes ((interp walletHost).restrict (Honest [] fun _ => 40000))
      (lifetime walletHost) World.crash (startWorld []) (paying 6).crash :=
    .crashed _ .boot (walletScript.reach walletHost honest 6 _ _)
  refine ⟨?_, rfl, ?_⟩
  · exact result.1 (paying 9) walletTx (.ok ()) ⟨startWorld [],
      [.send sampleAddress.display 40000 (some 500)], .boot,
      walletScript.calls walletHost honest (n := 9) rfl⟩
  · exact result.2 (recovering 4) sampleTxid (.ok ()) ⟨(paying 6).crash, [.reconcile], booted,
      walletScript.calls walletHost honest (n := 4) rfl⟩

end ComputerMoney.Safety

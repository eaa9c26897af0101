/-
# Safety.TerminalStatus -- when a terminal status is terminal

The effective status of a txid is the last one any entry assigns to it, and every kind of
payment entry assigns one.  A receipt of an address is booked only for a txid the ledger
does not have, and the recovery loop leaves a terminal payment alone; but a silent-payment
receipt is booked for any new output, and a send for whatever the wallet built.  Either
puts a finished txid back to pending, and its receipts out of the balance.

`terminal_stays` is about every run of these operations on one ledger that does neither:
what is final or failed stays so, and what is counted stays counted.
-/
import ComputerMoney.Safety.WriteAhead
import ComputerMoney.Theory.Jobs

namespace ComputerMoney.Safety

set_option autoImplicit false

open Theory Theory.Program Kernel

/-! ## Runs on one ledger -/

/-- One operation on the ledger. -/
inductive Act where
  | received (txid : String) (sats index : ℕ)
  | spReceived (txid : String) (vout sats : ℕ) (tweak : String)
  | spSpent (txid : String) (vout : ℕ)
  /-- One of the three send paths, or the recovery loop. -/
  | task (job : Task)

def Act.perform (host : Host) (led : Handle) : Act → Prog Unit
  | .received txid sats index => do
      let _ ← (Ledger.recordReceived led txid sats index).attempt
  | .spReceived txid vout sats tweak => do
      let _ ← (Ledger.recordSpReceived led txid vout sats tweak).attempt
  | .spSpent txid vout => do
      let _ ← (Ledger.recordSpSpent led txid vout).attempt
  | .task job => job.perform host led

def Status.Terminal (status : Status) : Prop := status = .final ∨ status = .failed

/-- The payment is over, as far as these entries say. -/
def Settled (entries : List Entry) (txid : String) : Prop :=
  ∃ status, Ledger.latestStatus entries txid = some status ∧ Status.Terminal status

/-- The operation books no new output of a settled transaction. -/
def Act.Meets (entries : List Entry) : Act → Prop
  | .spReceived txid vout _ _ => Settled entries txid → Ledger.hasSpOutput entries txid vout = true
  | _ => True

/-- The wallet does not build a settled transaction again. -/
def BuildsAfresh (led : Handle) : Guarantee sig World
  | w, .finishPsbt _, .ok psbt => ¬ Settled (w.mem led) psbt.txid
  | _, _, _ => True

/-- The host, for a wallet that builds afresh. -/
abbrev afresh (host : Host) (led : Handle) : Interp sig World :=
  (interp host).restrict (BuildsAfresh led)

/-- The ledger's process, from one point of a run that meets the condition to a later one. -/
abbrev OneLedger (host : Host) (led : Handle) : Prog Unit × World → Prog Unit × World → Prop :=
  Works (afresh host led) (Act.perform host led) fun act w => act.Meets (w.mem led)

/-! ## What one append does to a status -/

section Acts

variable {host : Host} {led : Handle} {base : List Entry} {w : World}

/-- Whoever has a status has a payment. -/
def Backed (entries : List Entry) : Prop :=
  ∀ txid, Ledger.latestStatus entries txid ≠ none → Ledger.hasTxid entries txid = true

/-- The promise: an entry the instance gets assigns nothing that is settled a status, and
leaves the instance backed. -/
def LeavesSettled (led : Handle) : Guarantee sig World
  | w, .append led' e, _ => led' = led →
      (∀ txid status, e.status? = some (txid, status) → ¬ Settled (w.mem led) txid) ∧
        Backed (w.mem led ++ [e])
  | _, _, _ => True

/-- What is left of `base`: every settled status and every entry, in an open instance that
is backed. -/
structure Kept (led : Handle) (base : List Entry) (w : World) : Prop where
  isOpen : led < w.fresh
  stands : ∀ txid, Settled base txid →
    Ledger.latestStatus (w.mem led) txid = Ledger.latestStatus base txid
  backed : Backed (w.mem led)
  grown : base ⊆ w.mem led

theorem Kept.of_mem {w' : World} (kept : Kept led base w) (fresh : w.fresh ≤ w'.fresh)
    (mem : w'.mem led = w.mem led) : Kept led base w' :=
  ⟨Nat.lt_of_lt_of_le kept.isOpen fresh, mem ▸ kept.stands, mem ▸ kept.backed, mem ▸ kept.grown⟩

theorem Kept.appended {e : Entry} (kept : Kept led base w)
    (unsettled : ∀ txid status, e.status? = some (txid, status) → ¬ Settled (w.mem led) txid)
    (backed : Backed (w.mem led ++ [e])) : Kept led base (w.appended led e) := by
  have mem : (w.appended led e).mem led = w.mem led ++ [e] := Function.update_self ..
  refine ⟨kept.isOpen, fun txid settled => ?_, mem ▸ backed,
    mem ▸ List.Subset.trans kept.grown (List.subset_append_left ..)⟩
  have still : Settled (w.mem led) txid := by
    obtain ⟨status, latest, terminal⟩ := settled
    exact ⟨status, (kept.stands txid ⟨status, latest, terminal⟩).trans latest, terminal⟩
  rw [mem, Ledger.latestStatus_append_other fun status assigns =>
    unsettled txid status assigns still]
  exact kept.stands txid settled

theorem keeps_kept : Keeps (afresh host led) (LeavesSettled led) (Kept led base) := by
  intro w op answer allowed promised kept
  cases op with
  | append led' e =>
      cases answer with
      | lost error => exact kept
      | kept error => exact kept.of_mem (Nat.le_refl _) rfl
      | ok =>
          rcases eq_or_ne led led' with rfl | different
          · exact kept.appended (promised rfl).1 (promised rfl).2
          · exact kept.of_mem (Nat.le_refl _) (Function.update_of_ne different ..)
  | openLedger =>
      rcases answer with error | led'
      · exact kept
      · obtain rfl : led' = w.fresh := allowed.1
        exact kept.of_mem (Nat.le_succ _) (Function.update_of_ne (Nat.ne_of_lt kept.isOpen) ..)
  | _ =>
      exact kept.of_mem (Nat.le_of_eq (w.after_fresh answer nofun).symm)
        (congrFun (World.after_mem w answer nofun nofun) led)

theorem hasTxid_of_subset {entries entries' : List Entry} {txid : String}
    (grown : entries ⊆ entries') (has : Ledger.hasTxid entries txid = true) :
    Ledger.hasTxid entries' txid = true := by
  obtain ⟨e, member, is⟩ := Ledger.hasTxid_iff.1 has
  exact Ledger.hasTxid_iff.2 ⟨e, grown member, is⟩

/-- One more entry keeps the ledger backed if whatever it is about has a payment then. -/
theorem Backed.append {entries : List Entry} {e : Entry} (backed : Backed entries)
    (about : ∀ txid status, e.status? = some (txid, status) →
      Ledger.hasTxid (entries ++ [e]) txid = true) : Backed (entries ++ [e]) := by
  intro txid has
  by_cases mine : ∃ status, e.status? = some (txid, status)
  · obtain ⟨status, assigns⟩ := mine
    exact about txid status assigns
  · rw [Ledger.latestStatus_append_other fun status assigns => mine ⟨status, assigns⟩] at has
    exact hasTxid_of_subset (List.subset_append_left ..) (backed txid has)

/-- A payment entry for a transaction that was not settled. -/
theorem leavesSettled_payment {e : Entry} {txid : String} (backed : Backed (w.mem led))
    (pays : e.paymentTxid? = some txid) (unsettled : ¬ Settled (w.mem led) txid) (answer : AppendAnswer) :
    LeavesSettled led w (.append led e) answer := by
  have assigned : ∀ t status, e.status? = some (t, status) → t = txid := by
    intro t status assigns
    cases e <;> simp_all [Entry.paymentTxid?, Entry.status?]
  refine fun _ => ⟨fun t status assigns => (assigned t status assigns) ▸ unsettled, ?_⟩
  refine backed.append fun t status assigns => Ledger.hasTxid_iff.2 ⟨e, ?_, ?_⟩
  · exact List.mem_append_right _ (List.mem_singleton_self _)
  · exact (assigned t status assigns) ▸ pays

/-- An entry that assigns no status. -/
theorem leavesSettled_silent {e : Entry} (backed : Backed (w.mem led)) (silent : e.status? = none)
    (answer : AppendAnswer) : LeavesSettled led w (.append led e) answer := by
  refine fun _ => ⟨fun t status assigns => ?_, backed.append fun t status assigns => ?_⟩ <;>
  · rw [silent] at assigns
    cases assigns

/-! ## Each operation -/

theorem wp_received {txid : String} {sats index : ℕ} (backed : Backed (w.mem led)) :
    wp (afresh host led) (LeavesSettled led) (fun _ _ => True)
      (Ledger.recordReceived led txid sats index) w := by
  refine wp_bind.2 fun es allowed => ⟨trivial, bindPost_ok.2 ?_⟩
  obtain rfl : es = w.mem led := allowed.1
  split
  · trivial
  rename_i unknown
  refine wp_bind.2 fun answer _ => ⟨leavesSettled_payment backed rfl ?_ _, ?_⟩
  · rintro ⟨status, latest, -⟩
    exact unknown (backed txid (by rw [latest]; exact nofun))
  · cases answer <;> trivial

theorem wp_spReceived {txid tweak : String} {vout sats : ℕ} (backed : Backed (w.mem led))
    (meets : Settled (w.mem led) txid → Ledger.hasSpOutput (w.mem led) txid vout = true) :
    wp (afresh host led) (LeavesSettled led) (fun _ _ => True)
      (Ledger.recordSpReceived led txid vout sats tweak) w := by
  refine wp_bind.2 fun es allowed => ⟨trivial, bindPost_ok.2 ?_⟩
  obtain rfl : es = w.mem led := allowed.1
  split
  · trivial
  rename_i unknown
  refine wp_bind.2 fun answer _ => ⟨leavesSettled_payment backed rfl ?_ _, ?_⟩
  · exact fun settled => unknown (meets settled)
  · cases answer <;> trivial

theorem leaves_spSpent (seq : ℕ) (txid : String) (vout : ℕ) (w : World) (answer : AppendAnswer)
    (kept : Kept led base w) : LeavesSettled led w (.append led (.spSpent seq txid vout)) answer :=
  leavesSettled_silent kept.backed rfl answer

theorem permitsBuild_settled (maxFeeSats : Option ℕ) :
    PermitsBuild (LeavesSettled led) maxFeeSats where
  prepares _ op _ prepares := by
    cases op <;> first | exact prepares.elim | trivial
  signs _ _ _ _ := trivial

/-- What was built is not settled, so recording it settles nothing anew. -/
theorem wp_record_settled {maxFeeSats : Option ℕ} {sats : ℕ} {payee : String} {tx : Tx} {w' : World}
    {consumed : List OutPoint} (kept : Kept led base w)
    (built : Built host (BuildsAfresh led) sats maxFeeSats w tx w') :
    wp (afresh host led) (LeavesSettled led) (fun _ _ => True)
      (record led tx sats payee >>= fun _ => markSpent led consumed) w' := by
  obtain ⟨request, psbt, -, unsettled, rfl⟩ := built.finished
  obtain rfl := built.world
  refine wp_bind.2 (wp_record (permitsBuild_settled none) (fun _ _ => trivial) ?_ ?_ ?_)
  · exact fun _ => trivial
  · exact fun now _ => leavesSettled_payment kept.backed rfl unsettled
  · intro now _ v
    have promised : LeavesSettled led w (.append led (sentEntry w led
        ⟨psbt.txid, sats, psbt.fee, psbt.inputs⟩ sats payee now)) .ok :=
      leavesSettled_payment kept.backed rfl unsettled _
    have appended := kept.appended (promised rfl).1 (promised rfl).2
    refine ⟨fun _ => trivial, wp_mono (wp_invariant keeps_kept ?_
      (appended.of_mem (Nat.le_refl _) rfl)) fun _ _ _ => trivial⟩
    exact within_markSpent (fun _ _ _ _ => trivial) fun seq txid vout w answer kept _ =>
      leaves_spSpent seq txid vout w answer kept

/-- The calls of the recovery loop that are no append promise nothing. -/
theorem leavesSettled_recovers (w : World) (op : Op) (answer : op.Ans) (recovers : op.recovers) :
    LeavesSettled led w op answer := by
  cases op <;> first | exact recovers.elim | trivial

/-- A status update for a recorded payment that is not settled. -/
theorem leavesSettled_update {txid : String} (backed : Backed (w.mem led))
    (unsettled : ¬ Settled (w.mem led) txid) (onRecord : Ledger.hasTxid (w.mem led) txid = true)
    (seq : ℕ) (status : Status) (answer : AppendAnswer) :
    LeavesSettled led w (.append led (.statusUpdate seq txid status)) answer := by
  refine fun _ => ⟨fun t s assigns => ?_, backed.append fun t s assigns => ?_⟩ <;> cases assigns
  · exact unsettled
  · exact hasTxid_of_subset (List.subset_append_left ..) onRecord

/-- The loop: whatever is still queued is unsettled and on record, and a turn settles only
its own. -/
theorem wp_reconcileEach_settled {queue : List String} {changed : ℕ} (kept : Kept led base w)
    (once : queue.Nodup) (unsettled : ∀ txid ∈ queue, ¬ Settled (w.mem led) txid)
    (onRecord : ∀ txid ∈ queue, Ledger.hasTxid (w.mem led) txid = true) :
    wp (afresh host led) (LeavesSettled led) (fun _ w' => Kept led base w')
      (reconcileEach led queue changed) w := by
  induction queue generalizing changed w with
  | nil => exact kept
  | cons txid queue ih =>
      obtain ⟨notAgain, once'⟩ := List.nodup_cons.1 once
      have first := List.mem_cons_self (a := txid) (l := queue)
      have turn : wp (afresh host led) (LeavesSettled led) (fun _ w' => Turned led txid w w')
          (reconcileOne led txid) w := by
        refine wp_reconcileOne leavesSettled_recovers fun w' seq status answer same => ?_
        refine leavesSettled_update (same.mem ▸ kept.backed) ?_ ?_ seq status answer
        · exact same.mem ▸ unsettled txid first
        · exact same.mem ▸ onRecord txid first
      refine wp_bind.2 (wp_mono (wp_keeps keeps_kept kept turn) ?_)
      rintro (error | updated) w' ⟨turned, kept'⟩
      · exact kept'
      have others : ∀ t ∈ queue,
          Ledger.latestStatus (w'.mem led) t = Ledger.latestStatus (w.mem led) t := by
        intro t member
        rcases turned.mem with same | ⟨seq, status, grown⟩
        · rw [same]
        · rw [grown]
          refine Ledger.latestStatus_append_other fun s assigns => ?_
          cases assigns
          exact notAgain member
      refine ih kept' once' (fun t member => ?_) fun t member => ?_
      · rintro ⟨status, latest, terminal⟩
        exact unsettled t (List.mem_cons_of_mem _ member)
          ⟨status, (others t member) ▸ latest, terminal⟩
      · refine hasTxid_of_subset ?_ (onRecord t (List.mem_cons_of_mem _ member))
        rcases turned.mem with same | ⟨seq, status, grown⟩
        · exact same ▸ List.Subset.refl _
        · exact grown ▸ List.subset_append_left ..

theorem wp_reconcile_settled (kept : Kept led base w) :
    wp (afresh host led) (LeavesSettled led) (fun _ _ => True) (reconcile led) w := by
  refine wp_bind.2 fun es allowed => ⟨trivial, bindPost_ok.2 ?_⟩
  obtain rfl : es = w.mem led := allowed.1
  refine wp_bind.2 (wp_mono (wp_reconcileEach_settled kept (Ledger.nodup_pending _) ?_ ?_) ?_)
  · rintro txid queued ⟨status, latest, rfl | rfl⟩
    · exact (Ledger.mem_pendingFrom queued).2.1 latest
    · exact (Ledger.mem_pendingFrom queued).2.2 latest
  · exact fun txid queued => Ledger.hasTxid_iff.2 (Ledger.mem_pending queued)
  · rintro (error | changed) w' -
    · trivial
    refine wp_unguarded (within_bind (within_sweepOrphans (fun _ _ => trivial) (fun _ _ => trivial)
      fun _ _ _ => trivial) fun _ => trivial)

theorem wp_act_settled (act : Act) (meets : act.Meets (w.mem led)) (kept : Kept led base w) :
    wp (afresh host led) (LeavesSettled led) (fun _ _ => True) (act.perform host led) w := by
  cases act with
  | received txid sats index => exact wp_bind.2 (wp_attempt.2 (wp_received kept.backed))
  | spReceived txid vout sats tweak =>
      exact wp_bind.2 (wp_attempt.2 (wp_spReceived kept.backed meets))
  | spSpent txid vout =>
      refine wp_bind.2 (wp_attempt.2 (wp_mono (wp_invariant keeps_kept ?_ kept)
        fun _ _ _ => trivial))
      exact within_recordSpSpent (fun _ _ _ _ => trivial) fun seq w answer kept _ =>
        leaves_spSpent seq txid vout w answer kept
  | task job =>
      cases job with
      | send payee sats maxFeeSats =>
          exact wp_bind.2 (wp_attempt.2 (wp_send (permitsBuild_settled maxFeeSats)
            (fun _ _ => trivial) fun _ _ _ built => wp_record_settled kept built))
      | spSend code sats maxFeeSats =>
          exact wp_bind.2 (wp_attempt.2 (wp_spSend (permitsBuild_settled maxFeeSats)
            (fun _ _ => trivial) fun _ _ _ built => wp_record_settled kept built))
      | sendSpendingSp payee sats maxFeeSats =>
          exact wp_bind.2 (wp_attempt.2 (wp_sendSpendingSp (permitsBuild_settled maxFeeSats)
            (fun _ _ => trivial) fun _ _ _ built => wp_record_settled kept built))
      | reconcile => exact wp_bind.2 (wp_attempt.2 (wp_reconcile_settled kept))

end Acts

/-! ## Whole runs -/

/-- A new ledger, with nothing to do. -/
structure NewLedger (led : Handle) (c : Prog Unit × World) : Prop where
  idle : c.1.Ended
  isOpen : led < c.2.fresh
  empty : c.2.mem led = []

/-- **Terminal is terminal.**  On one ledger, in every run of bookings, sends and
recoveries, with any answers, that books no new output of a settled transaction and
builds none again: from any point of the run to any later one, a final or failed payment
keeps its status, a receipt that counts in the balance still counts, and an output that
counts in the silent-payment balance still counts unless it was marked spent. -/
theorem terminal_stays {host : Host} {led : Handle} {start c c' : Prog Unit × World}
    (new : NewLedger led start) (before : OneLedger host led start c)
    (later : OneLedger host led c c') :
    (∀ txid status, Status.Terminal status → Ledger.latestStatus (c.2.mem led) txid = some status →
      Ledger.latestStatus (c'.2.mem led) txid = some status) ∧
    (∀ seq txid sats index status, .received seq txid sats index status ∈ c.2.mem led →
      Ledger.latestStatus (c.2.mem led) txid = some .final →
        .received seq txid sats index status ∈ c'.2.mem led ∧
          Ledger.latestStatus (c'.2.mem led) txid = some .final) ∧
    ∀ u ∈ Ledger.spUtxos (c.2.mem led), Ledger.isSpSpent (c'.2.mem led) u.txid u.vout = false →
      u ∈ Ledger.spUtxos (c'.2.mem led) := by
  have jobs : ∀ (base : List Entry) (act : Act) w, act.Meets (w.mem led) → Kept led base w →
      wp (afresh host led) (LeavesSettled led) (fun _ _ => True) (act.perform host led) w :=
    fun _ act _ meets kept => wp_act_settled act meets kept
  have backed : Backed (start.2.mem led) := by
    intro txid has
    rw [new.empty] at has
    exact absurd rfl has
  have first : Steady (afresh host led) (LeavesSettled led) (Kept led []) start := by
    refine .idle new.idle ⟨new.isOpen, ?_, backed, List.nil_subset _⟩
    rintro txid ⟨status, latest, -⟩
    cases latest
  have here := before.steady keeps_kept (jobs []) first
  have kept : Kept led (c.2.mem led) c'.2 :=
    later.keeps keeps_kept (jobs []) keeps_kept here
      ⟨here.safe.isOpen, fun _ _ => rfl, here.safe.backed, List.Subset.refl _⟩
  have stands : ∀ txid status, Status.Terminal status →
      Ledger.latestStatus (c.2.mem led) txid = some status →
        Ledger.latestStatus (c'.2.mem led) txid = some status :=
    fun txid status terminal latest => (kept.stands txid ⟨status, latest, terminal⟩).trans latest
  refine ⟨stands, fun seq txid sats index status member final => ?_, fun u member unspent => ?_⟩
  · exact ⟨kept.grown member, stands txid .final (.inl rfl) final⟩
  · obtain ⟨⟨seq, status, booked⟩, final, -⟩ := Ledger.mem_spUtxos.1 member
    exact Ledger.mem_spUtxos.2 ⟨⟨seq, status, kept.grown booked⟩, stands _ .final (.inl rfl) final,
      unspent⟩

/-! ## A second output of a finished transaction -/

/-- The chain reports three confirmations of everything. -/
def deepScript : Script := { Script.silent with confirmations := fun _ => .ok 3 }

/-- The ledger after these operations. -/
def acted (acts : List Act) (w : World) : World :=
  workOff (Act.perform walletHost 0) (deepScript.handle walletHost) acts w

/-- An address receives a payment, and the loop finds it final. -/
def firstOutput : World := acted [.received sampleTxid 1000 0, .task .reconcile] (World.blank.load 0)

/-- The transaction that paid the address turns out to pay the silent-payment code too. -/
def secondOutput : World := acted [.spReceived sampleTxid 1 5000 "07"] firstOutput

/-- Its second output is booked, and the first is out of the balance. -/
theorem second_output_reopens :
    (∃ p p' : Prog Unit,
      Works (interp walletHost) (Act.perform walletHost 0) (fun _ _ => True)
        (.pure (), World.blank.load 0) (p, firstOutput) ∧
      Works (interp walletHost) (Act.perform walletHost 0) (fun _ _ => True)
        (p, firstOutput) (p', secondOutput)) ∧
    Ledger.latestStatus (firstOutput.mem 0) sampleTxid = some .final ∧
    Ledger.balance (firstOutput.mem 0) = 1000 ∧
    Ledger.latestStatus (secondOutput.mem 0) sampleTxid = some .pending ∧
    Ledger.balance (secondOutput.mem 0) = 0 := by
  have allowed : ∀ (op : Op) w, (interp walletHost).allowed w op
      (deepScript.handle walletHost op w).1 :=
    fun op w => Script.allowed walletHost deepScript w op
  have works := workOff_works (Act.perform walletHost 0) (fun _ _ => True)
    allowed fun _ _ => rfl
  obtain ⟨p, ended, first⟩ := works [.received sampleTxid 1000 0, .task .reconcile]
    (p := .pure ()) trivial ⟨trivial, trivial, trivial⟩
  obtain ⟨p', -, second⟩ := works [.spReceived sampleTxid 1 5000 "07"] ended ⟨trivial, trivial⟩
  exact ⟨⟨p, p', first, second⟩, by decide +kernel, by decide +kernel, by decide +kernel,
    by decide +kernel⟩

/-- A receipt of another transaction leaves the first where it was. -/
theorem terminal_stays_sample :
    Ledger.latestStatus ((acted [.spReceived "beef" 1 5000 "07"] firstOutput).mem 0) sampleTxid =
      some .final := by
  have allowed : ∀ (op : Op) w, (afresh walletHost 0).allowed w op
      (deepScript.handle walletHost op w).1 := by
    intro op w
    refine ⟨Script.allowed walletHost deepScript w op, ?_⟩
    cases op <;> trivial
  have works := workOff_works (Act.perform walletHost 0) (fun act w => act.Meets (w.mem 0))
    allowed fun _ _ => rfl
  obtain ⟨p, ended, first⟩ := works [.received sampleTxid 1000 0, .task .reconcile]
    (p := .pure ()) (w := World.blank.load 0) trivial ⟨trivial, trivial, trivial⟩
  have meets : Act.Meets (firstOutput.mem 0) (.spReceived "beef" 1 5000 "07") := by
    rintro ⟨status, latest, -⟩
    have unknown : Ledger.latestStatus (firstOutput.mem 0) "beef" = none := by decide +kernel
    rw [unknown] at latest
    cases latest
  obtain ⟨p', -, second⟩ := works [.spReceived "beef" 1 5000 "07"] ended ⟨meets, trivial⟩
  have new : NewLedger 0 (.pure (), World.blank.load 0) := ⟨trivial, Nat.zero_lt_one, by decide⟩
  have final : Ledger.latestStatus (firstOutput.mem 0) sampleTxid = some .final := by decide +kernel
  exact (terminal_stays new first second).1 sampleTxid .final (.inl rfl) final

end ComputerMoney.Safety

/-
# Kernel.View -- the recovery loop as its own instance sees it

Of all there is on the host the user of one `Ledger` instance knows two things for
certain: what its instance holds, and which calls it has made and how they were
answered.  `view` is the reading of the host in which this is the whole world.  What is
proved there holds wherever the instance is used: alone on its directory, beside other
threads, or over a network that moves between the calls.

`wp_reconcile_view` is the recovery loop in these terms: what it knows whenever it
records a status, hands a transaction out again or drops a sidecar.
-/
import ComputerMoney.Kernel.Reconcile

namespace ComputerMoney.Kernel

set_option autoImplicit false

open Theory Theory.Program

/-! ## The view -/

/-- What an instance holds, and the calls its user has made, the last first. -/
abbrev View := List Entry × List (Event sig)

/-- Reading the instance gives its entries, and no other instance is this one. -/
def View.allows (led : Handle) (mem : List Entry) : (op : Op) → op.Ans → Prop
  | .openLedger, .ok led' => led' ≠ led
  | .entries led', es => led' = led → es = mem
  | _, _ => True

def View.after (led : Handle) (mem : List Entry) : (op : Op) → op.Ans → List Entry
  | .append led' e, .ok => if led' = led then mem ++ [e] else mem
  | _, _ => mem

/-- The reading of the host by the user of one instance. -/
def view (led : Handle) : Interp sig View := Interp.recorded ⟨View.allows led, View.after led⟩

section Host

variable {host : Host} {led : Handle} {w : World} {op : Op} {answer : sig.Ans op}

/-- An open instance stays open, and no call but its own appends changes it. -/
theorem World.after_view (isOpen : led < w.fresh) (allowed : w.allows host op answer) :
    View.allows led (w.mem led) op answer ∧ led < (w.after op answer).fresh ∧
      (w.after op answer).mem led = View.after led (w.mem led) op answer := by
  cases op with
  | openLedger =>
      rcases answer with error | led'
      · exact ⟨trivial, isOpen, rfl⟩
      · obtain rfl : led' = w.fresh := allowed
        have other : led ≠ w.fresh := Nat.ne_of_lt isOpen
        exact ⟨other.symm, Nat.lt_succ_of_lt isOpen, Function.update_of_ne other ..⟩
  | entries led' =>
      obtain rfl : answer = w.mem led' := allowed
      exact ⟨fun same => same ▸ rfl, isOpen, rfl⟩
  | append led' e =>
      cases answer with
      | lost error => exact ⟨trivial, isOpen, rfl⟩
      | kept error => exact ⟨trivial, isOpen, rfl⟩
      | ok =>
          refine ⟨trivial, isOpen, ?_⟩
          show Function.update w.mem led' (w.mem led' ++ [e]) led = if led' = led then _ else _
          rcases eq_or_ne led' led with rfl | different
          · rw [Function.update_self, if_pos rfl]
          · rw [Function.update_of_ne different.symm, if_neg different]
  | _ =>
      refine ⟨?_, ?_, ?_⟩
      · trivial
      · exact (w.after_fresh answer nofun).symm ▸ isOpen
      · exact congrFun (w.after_mem answer nofun nofun) led

/-- What is proved in the view holds on the host.  `R` ties the world to the calls made. -/
theorem wp_seen {assume G : Guarantee sig World} {L : Guarantee sig View} {α : Type} {p : Prog α}
    {past : List (Event sig)} (R : World → List (Event sig) → Prop) (isOpen : led < w.fresh)
    (start : R w past)
    (step : ∀ w past (op : Op) (answer : op.Ans), led < w.fresh → R w past →
      ((interp host).restrict assume).allowed w op answer → L (w.mem led, past) op answer →
        G w op answer ∧ R (w.after op answer) (⟨op, answer⟩ :: past))
    (holds : wp (view led) L (fun _ _ => True) p (w.mem led, past)) :
    wp ((interp host).restrict assume) G (fun _ w' => led < w'.fresh ∧ ∃ past', R w' past') p w := by
  have related : ∀ w (v : View) (op : Op) (answer : op.Ans),
      (led < w.fresh ∧ w.mem led = v.1 ∧ R w v.2) →
      ((interp host).restrict assume).allowed w op answer → (view led).allowed v op answer ∧
        (L v op answer → G w op answer ∧ (led < (w.after op answer).fresh ∧
          (w.after op answer).mem led = ((view led).next v op answer).1 ∧
            R (w.after op answer) ((view led).next v op answer).2)) := by
    rintro w ⟨mem, past⟩ op answer ⟨isOpen, rfl, tied⟩ allowed
    obtain ⟨seen, still, grown⟩ := World.after_view isOpen allowed.1
    refine ⟨seen, fun promised => ?_⟩
    obtain ⟨promised', tied'⟩ := step w past op answer isOpen tied allowed promised
    exact ⟨promised', still, grown, tied'⟩
  refine wp_mono (wp_simulates ⟨isOpen, rfl, start⟩ related holds) ?_
  rintro result w' ⟨v', ⟨still, -, tied⟩, -⟩
  exact ⟨still, v'.2, tied⟩

end Host

/-! ## What the loop knows -/

/-- The count a call returned, with the txid it was asked for. -/
def eventCount? : Event sig → Option (String × ℕ)
  | ⟨.confirmations txid, answer⟩ => match answer with
      | .ok confs => some (txid, confs)
      | .error _ => none
  | _ => none

/-- The last count the chain gave for `txid`. -/
def lastCount (txid : String) (past : List (Event sig)) : Option ℕ :=
  past.findSome? fun event => match eventCount? event with
    | some (t, confs) => if t = txid then some confs else none
    | none => none

/-- On record, and not over. -/
structure Queued (mem : List Entry) (txid : String) : Prop where
  onRecord : Ledger.hasTxid mem txid = true
  notFinal : Ledger.latestStatus mem txid ≠ some .final
  notFailed : Ledger.latestStatus mem txid ≠ some .failed

/-- The network has just refused the transaction in the sidecar for good, which had no
confirmation a moment before. -/
def RefusedForGood (txid : String) (past : List (Event sig)) : Prop :=
  ∃ tx error rest, isHardRejection error = true ∧
    past = ⟨.broadcast tx, .error error⟩ :: ⟨.readSidecar txid, .ok (some (.hex tx))⟩ ::
      ⟨.confirmations txid, .ok 0⟩ :: rest

/-- What the loop knows at each of its calls; the calls not named it does not make. -/
def Reconciles (led : Handle) : Guarantee sig View
  | (mem, past), .append led' (.statusUpdate seq txid status), _ =>
      led' = led ∧ seq = Ledger.nextSeq mem ∧ Queued mem txid ∧
        (status = .failed ∧ (∃ past', past = ⟨.entries led, mem⟩ :: past' ∧ RefusedForGood txid past') ∨
          ∃ confs, lastCount txid past = some confs ∧ status = .fromConfirmations confs ∧
            Ledger.latestStatus mem txid ≠ some status)
  | (mem, past), .broadcast tx, _ => ∃ txid rest, Queued mem txid ∧
      past = ⟨.readSidecar txid, .ok (some (.hex tx))⟩ :: ⟨.confirmations txid, .ok 0⟩ :: rest
  | (_, past), .removeSidecar txid .rejected, _ => ∃ seq es past', RefusedForGood txid past' ∧
      past = ⟨.append led (.statusUpdate seq txid .failed), .ok⟩ :: ⟨.entries led, es⟩ :: past'
  | (mem, past), .removeSidecar txid .settled, _ => ∃ confs, 1 ≤ confs ∧
      lastCount txid past = some confs ∧
        Ledger.latestStatus mem txid = some (.fromConfirmations confs)
  | (mem, _), .removeSidecar txid .orphan, _ => txid ∉ mem.filterMap Entry.sentTxid?
  | _, .entries led', _ => led' = led
  | _, .confirmations _, _ | _, .readSidecar _, _ | _, .listSidecars, _ => True
  | _, _, _ => False

section Loop

variable {led : Handle} {txid : String} {mem : List Entry} {past : List (Event sig)}

/-- A turn for `txid` leaves the instance as it was, or with one more status of `txid`. -/
def TurnedTo (txid : String) (mem mem' : List Entry) : Prop :=
  mem' = mem ∨ ∃ seq status, mem' = mem ++ [.statusUpdate seq txid status]

theorem wp_updateStatus_view {status : Status} {Q : Except Error Unit → View → Prop}
    (knows : ∀ answer, Reconciles led (mem, ⟨.entries led, mem⟩ :: past)
      (.append led (.statusUpdate (Ledger.nextSeq mem) txid status)) answer)
    (failed : ∀ error past', Q (.error error) (mem, past'))
    (updated : Q (.ok ()) (mem ++ [.statusUpdate (Ledger.nextSeq mem) txid status],
      ⟨.append led (.statusUpdate (Ledger.nextSeq mem) txid status), .ok⟩ ::
        ⟨.entries led, mem⟩ :: past)) :
    wp (view led) (Reconciles led) Q (Ledger.updateStatus led txid status) (mem, past) := by
  refine wp_bind.2 fun es allowed => ⟨rfl, bindPost_ok.2 ?_⟩
  obtain rfl : mem = es := (allowed rfl).symm
  rintro (_ | error | error) -
  · refine ⟨knows _, ?_⟩
    have grown : View.after led mem (.append led (.statusUpdate (Ledger.nextSeq mem) txid status))
        .ok = mem ++ [.statusUpdate (Ledger.nextSeq mem) txid status] := if_pos rfl
    rw [← grown] at updated
    exact updated
  · exact ⟨knows _, failed error _⟩
  · exact ⟨knows _, failed error _⟩

theorem wp_advance_view {confs : ℕ} (queued : Queued mem txid)
    (counted : lastCount txid past = some confs) :
    wp (view led) (Reconciles led) (fun _ v => TurnedTo txid mem v.1) (advance led txid confs)
      (mem, past) := by
  -- Dropping the sidecar, once the instance has the status of the count.
  have settle : ∀ (changed : Bool) mem' past', TurnedTo txid mem mem' →
      lastCount txid past' = some confs →
      Ledger.latestStatus mem' txid = some (.fromConfirmations confs) →
      wp (view led) (Reconciles led) (fun _ v => TurnedTo txid mem v.1)
        (if confs ≥ 1 then (Ledger.removeSidecar txid .settled >>= fun _ => .pure changed)
          else .pure changed) (mem', past') := by
    intro changed mem' past' turned counted' has
    split
    · rename_i confirmed
      refine wp_bind.2 ?_
      rintro (error | ⟨⟩) - <;> exact ⟨⟨confs, confirmed, counted', has⟩, turned⟩
    · exact turned
  refine wp_bind.2 fun es allowed => ⟨rfl, bindPost_ok.2 ?_⟩
  obtain rfl : mem = es := (allowed rfl).symm
  dsimp only
  split
  · rename_i changed
    refine wp_bind.2 (wp_updateStatus_view (fun _ => ?_) ?_ ?_)
    · exact ⟨rfl, rfl, queued, .inr ⟨confs, counted, rfl, changed⟩⟩
    · exact fun _ _ => .inl rfl
    · exact settle _ _ _ (.inr ⟨_, _, rfl⟩) counted (Ledger.latestStatus_append_self rfl)
  · rename_i same
    exact settle _ _ _ (.inl rfl) counted (not_not.1 same)

/-- One turn of the loop. -/
theorem wp_reconcileOne_view (queued : Queued mem txid) :
    wp (view led) (Reconciles led) (fun _ v => TurnedTo txid mem v.1) (reconcileOne led txid)
      (mem, past) := by
  have counted : ∀ confs : ℕ, lastCount txid (⟨.confirmations txid, .ok confs⟩ :: past) =
      some confs := by
    intro confs
    simp [lastCount, eventCount?]
  refine wp_bind.2 ?_
  rintro (error | confs) - <;> refine ⟨trivial, ?_⟩
  · exact .inl rfl
  refine bindPost_ok.2 ?_
  split
  · rename_i unconfirmed
    subst unconfirmed
    refine wp_bind.2 ?_
    rintro (error | contents) - <;> refine ⟨trivial, ?_⟩
    · exact .inl rfl
    rcases contents with _ | (tx | _)
    · exact wp_advance_view queued (counted 0)
    · have handing : ∀ answer, Reconciles led (mem, ⟨.readSidecar txid, .ok (some (.hex tx))⟩ ::
          ⟨.confirmations txid, .ok 0⟩ :: past) (.broadcast tx) answer :=
        fun _ => ⟨txid, past, queued, rfl⟩
      refine wp_bind.2 (wp_bind.2 (wp_attempt.2 ?_))
      rintro (error | ⟨⟩) - <;> refine ⟨handing _, ?_⟩
      · refine wp_ofExcept.2 (bindPost_ok.2 ?_)
        by_cases hard : isHardRejection error
        · simp only [hard, if_true]
          have refused : RefusedForGood txid (⟨.broadcast tx, .error error⟩ ::
              ⟨.readSidecar txid, .ok (some (.hex tx))⟩ :: ⟨.confirmations txid, .ok 0⟩ :: past) :=
            ⟨tx, error, past, hard, rfl⟩
          refine wp_bind.2 (wp_updateStatus_view (fun _ => ?_) ?_ ?_)
          · exact ⟨rfl, rfl, queued, .inl ⟨rfl, _, rfl, refused⟩⟩
          · exact fun _ _ => .inl rfl
          · refine wp_bind.2 ?_
            rintro (e | ⟨⟩) - <;> exact ⟨⟨_, _, _, refused, rfl⟩, .inr ⟨_, _, rfl⟩⟩
        · simp only [hard]
          exact wp_advance_view queued (counted 0)
      · exact wp_advance_view queued (counted 0)
    · exact .inl rfl
  · exact wp_advance_view queued (counted confs)

/-- Whatever else is queued is so after the turn. -/
theorem Queued.turned {t : String} {mem' : List Entry} (queued : Queued mem t) (other : t ≠ txid)
    (turned : TurnedTo txid mem mem') : Queued mem' t := by
  rcases turned with rfl | ⟨seq, status, rfl⟩
  · exact queued
  have same : Ledger.latestStatus (mem ++ [.statusUpdate seq txid status]) t =
      Ledger.latestStatus mem t := by
    refine Ledger.latestStatus_append_other fun s assigns => ?_
    cases assigns
    exact other rfl
  obtain ⟨e, member, pays⟩ := Ledger.hasTxid_iff.1 queued.onRecord
  refine ⟨Ledger.hasTxid_iff.2 ⟨e, List.mem_append_left _ member, pays⟩, ?_, ?_⟩
  · exact same ▸ queued.notFinal
  · exact same ▸ queued.notFailed

theorem wp_reconcileEach_view {queue : List String} {changed : ℕ} (once : queue.Nodup)
    (queued : ∀ t ∈ queue, Queued mem t) :
    wp (view led) (Reconciles led) (fun _ _ => True) (reconcileEach led queue changed)
      (mem, past) := by
  induction queue generalizing changed mem past with
  | nil => trivial
  | cons txid queue ih =>
      obtain ⟨notAgain, once'⟩ := List.nodup_cons.1 once
      refine wp_bind.2 (wp_mono (wp_reconcileOne_view (queued txid (List.mem_cons_self ..))) ?_)
      rintro (error | updated) ⟨mem', past'⟩ turned
      · trivial
      refine ih once' fun t member => ?_
      refine (queued t (List.mem_cons_of_mem _ member)).turned ?_ turned
      rintro rfl
      exact notAgain member

theorem wp_sweepOrphans_view :
    wp (view led) (Reconciles led) (fun _ _ => True) (sweepOrphans led) (mem, past) := by
  refine wp_bind.2 fun es allowed => ⟨rfl, ?_⟩
  obtain rfl : mem = es := (allowed rfl).symm
  refine wp_bind.2 ?_
  rintro (error | names) - <;> refine ⟨trivial, ?_⟩
  · trivial
  refine wp_forEach (J := fun v => v.1 = mem) rfl ?_ fun _ _ => trivial
  rintro txid orphan ⟨mem', past'⟩ same
  obtain rfl : mem' = mem := same
  have unrecorded : txid ∉ mem'.filterMap Entry.sentTxid? := by
    simpa using (List.mem_filter.1 orphan).2
  rintro (error | ⟨⟩) - <;> refine ⟨unrecorded, ?_⟩
  · trivial
  · exact rfl

/-- **The recovery loop, as its instance sees it.** -/
theorem wp_reconcile_view :
    wp (view led) (Reconciles led) (fun _ _ => True) (reconcile led) (mem, past) := by
  refine wp_bind.2 fun es allowed => ⟨rfl, bindPost_ok.2 ?_⟩
  obtain rfl : mem = es := (allowed rfl).symm
  refine wp_bind.2 (wp_mono (wp_reconcileEach_view (Ledger.nodup_pending mem) ?_) ?_)
  · intro t member
    obtain ⟨onRecord, notFinal, notFailed⟩ := Ledger.mem_pendingFrom member
    exact ⟨Ledger.hasTxid_iff.2 onRecord, notFinal, notFailed⟩
  · rintro (error | changed) ⟨mem', past'⟩ -
    · trivial
    refine wp_bind.2 (wp_mono wp_sweepOrphans_view ?_)
    rintro (error | ⟨⟩) v - <;> trivial

end Loop

end ComputerMoney.Kernel

/-
# Kernel.Reconcile -- the recovery loop

For every payment on the work queue: ask the chain for its count; an unconfirmed one
that still has its sidecar is handed to the network again, and marked failed only on a
hard rejection; anything else takes the status of its count, and a confirmed one loses
its sidecar.  Then the sidecars of transactions with no `sent` entry are swept.
-/
import ComputerMoney.Kernel.Pay

namespace ComputerMoney.Kernel

set_option autoImplicit false

open Theory

inductive Rebroadcast where
  | accepted
  | rejected (reason : String)
  deriving DecidableEq, Repr

/-- Whether a broadcast error is read as "this can never confirm". -/
def isHardRejection (msg : String) : Bool :=
  let m := msg.toList.map Text.asciiLower
  Text.contains m "missingorspent".toList || Text.contains m "bad-txns-inputs".toList ||
    Text.contains m "missing inputs".toList || Text.contains m "missing-inputs".toList ||
    Text.contains m "txn-mempool-conflict".toList || Text.contains m "conflict".toList

/-- Decode the sidecar and broadcast it; any error but a hard rejection counts as alive. -/
def rebroadcastHex : Sidecar → Prog Rebroadcast
  | .torn => .throw "sidecar is not a transaction"
  | .hex tx => do
      match ← (broadcast tx).attempt with
      | .ok () => return .accepted
      | .error msg => return if isHardRejection msg then .rejected msg else .accepted

/-- Record the status of the count if it changed, and drop a confirmed payment's sidecar.
Returns whether a status was recorded. -/
def advance (led : Handle) (txid : String) (confs : ℕ) : Prog Bool := do
  let es ← Ledger.entries led
  let status := Status.fromConfirmations confs
  let changed := Ledger.latestStatus es txid ≠ some status
  if changed then
    Ledger.updateStatus led txid status
  if confs ≥ 1 then
    Ledger.removeSidecar txid .settled
  return changed

/-- One turn of the loop. -/
def reconcileOne (led : Handle) (txid : String) : Prog Bool := do
  let confs ← confirmations txid
  if confs = 0 then
    match ← Ledger.readSidecar txid with
    | none => advance led txid confs
    | some contents =>
        match ← rebroadcastHex contents with
        | .accepted => advance led txid confs
        | .rejected _ => do
            Ledger.updateStatus led txid .failed
            Ledger.removeSidecar txid .rejected
            return true
  else advance led txid confs

def reconcileEach (led : Handle) : List String → ℕ → Prog ℕ
  | [], changed => .pure changed
  | txid :: queue, changed => do
      let updated ← reconcileOne led txid
      reconcileEach led queue (if updated then changed + 1 else changed)

/-- Drop every sidecar whose transaction has no `sent` entry in this instance. -/
def sweepOrphans (led : Handle) : Prog Unit := do
  let es ← Ledger.entries led
  let names ← Ledger.listSidecars
  .forEach (names.filter (· ∉ es.filterMap Entry.sentTxid?)) fun txid =>
    Ledger.removeSidecar txid .orphan

/-- `ledger::reconcile`: how many statuses changed. -/
def reconcile (led : Handle) : Prog ℕ := do
  let es ← Ledger.entries led
  let changed ← reconcileEach led (Ledger.pending es) 0
  sweepOrphans led
  return changed

/-! ## The calls it can make -/

section Within

variable {P : Op → Prop} {led : Handle}

open Program

theorem within_updateStatus (reads : P (.entries led)) {txid : String} {status : Status}
    (updates : ∀ seq, P (.append led (.statusUpdate seq txid status))) :
    (Ledger.updateStatus led txid status).Within P := by
  refine ⟨reads, fun es => ⟨updates _, fun answer => ?_⟩⟩
  cases answer <;> trivial

theorem within_recordSpSpent (reads : P (.entries led)) {txid : String} {vout : ℕ}
    (books : ∀ seq, P (.append led (.spSpent seq txid vout))) :
    (Ledger.recordSpSpent led txid vout).Within P := by
  refine within_bind ⟨reads, fun _ => trivial⟩ fun es => ?_
  split
  · trivial
  · refine within_bind ⟨books _, fun answer => ?_⟩ fun _ => trivial
    cases answer <;> trivial

/-- Booking spent outputs reads the instance and appends entries of that one kind. -/
theorem within_markSpent (reads : P (.entries led)) {consumed : List OutPoint}
    (books : ∀ seq txid vout, P (.append led (.spSpent seq txid vout))) :
    (markSpent led consumed).Within P :=
  within_forEach fun _ _ =>
    within_bind (within_recordSpSpent reads fun seq => books seq _ _) fun _ => trivial

theorem within_advance (reads : P (.entries led)) {txid : String} {confs : ℕ}
    (updates : ∀ seq status, P (.append led (.statusUpdate seq txid status)))
    (drops : P (.removeSidecar txid .settled)) : (advance led txid confs).Within P := by
  have settle : ∀ changed : Bool, (if confs ≥ 1 then
      (Ledger.removeSidecar txid .settled >>= fun _ => .pure changed) else .pure changed :
      Prog Bool).Within P := by
    intro changed
    split
    · exact within_bind ⟨drops, fun _ => within_ofExcept⟩ fun _ => trivial
    · trivial
  refine within_bind ⟨reads, fun _ => trivial⟩ fun es => ?_
  dsimp only
  split
  · exact within_bind (within_updateStatus reads fun seq => updates seq _) fun _ => settle _
  · exact settle _

theorem within_reconcileOne (reads : P (.entries led)) {txid : String}
    (counts : P (.confirmations txid)) (loads : P (.readSidecar txid))
    (broadcasts : ∀ tx, P (.broadcast tx))
    (updates : ∀ seq status, P (.append led (.statusUpdate seq txid status)))
    (drops : ∀ why, P (.removeSidecar txid why)) : (reconcileOne led txid).Within P := by
  have settle : ∀ confs, (advance led txid confs).Within P := fun confs =>
    within_advance reads updates (drops .settled)
  refine within_bind ⟨counts, fun _ => within_ofExcept⟩ fun confs => ?_
  split
  · refine within_bind ⟨loads, fun _ => within_ofExcept⟩ fun contents => ?_
    rcases contents with _ | (tx | _)
    · exact settle confs
    · refine within_bind (within_bind (within_attempt ⟨broadcasts tx, fun _ => within_ofExcept⟩)
        fun outcome => ?_) fun verdict => ?_
      · cases outcome <;> trivial
      · cases verdict with
        | accepted => exact settle confs
        | rejected reason =>
            exact within_bind (within_updateStatus reads fun seq => updates seq _) fun _ =>
              within_bind ⟨drops _, fun _ => within_ofExcept⟩ fun _ => trivial
    · trivial
  · exact settle confs

/-- The loop updates the status of what it was given, and of nothing else. -/
theorem within_reconcileEach (reads : P (.entries led)) (counts : ∀ txid, P (.confirmations txid))
    (loads : ∀ txid, P (.readSidecar txid)) (broadcasts : ∀ tx, P (.broadcast tx))
    (drops : ∀ txid why, P (.removeSidecar txid why)) {queue : List String} {changed : ℕ}
    (updates : ∀ seq, ∀ txid ∈ queue, ∀ status, P (.append led (.statusUpdate seq txid status))) :
    (reconcileEach led queue changed).Within P := by
  induction queue generalizing changed with
  | nil => trivial
  | cons txid queue ih =>
      have one := within_reconcileOne reads (counts txid) (loads txid) broadcasts
        (fun seq => updates seq txid (List.mem_cons_self ..)) (drops txid)
      exact within_bind one fun _ => ih fun seq other member =>
        updates seq other (List.mem_cons_of_mem _ member)

theorem within_sweepOrphans (reads : P (.entries led)) (lists : P .listSidecars)
    (drops : ∀ txid, P (.removeSidecar txid .orphan)) : (sweepOrphans led).Within P :=
  within_bind ⟨reads, fun _ => trivial⟩ fun _ =>
    within_bind ⟨lists, fun _ => within_ofExcept⟩ fun _ =>
      within_forEach fun txid _ => ⟨drops txid, fun _ => within_ofExcept⟩

/-- Reconciling reads, asks, rebroadcasts, drops sidecars, and appends nothing but
status updates. -/
theorem within_reconcile (reads : P (.entries led)) (counts : ∀ txid, P (.confirmations txid))
    (loads : ∀ txid, P (.readSidecar txid)) (broadcasts : ∀ tx, P (.broadcast tx))
    (updates : ∀ seq txid status, P (.append led (.statusUpdate seq txid status)))
    (drops : ∀ txid why, P (.removeSidecar txid why)) (lists : P .listSidecars) :
    (reconcile led).Within P :=
  within_bind ⟨reads, fun _ => trivial⟩ fun _ =>
    within_bind (within_reconcileEach reads counts loads broadcasts drops
      fun seq txid _ status => updates seq txid status) fun _ =>
        within_bind (within_sweepOrphans reads lists fun txid => drops txid _) fun _ => trivial

end Within

/-! ## What a turn does to the instance -/

/-- The calls of the recovery loop that are no append. -/
def Op.recovers : Op → Prop
  | .entries _ | .confirmations _ | .readSidecar _ | .broadcast _ | .removeSidecar _ _
  | .listSidecars => True
  | _ => False

/-- A turn for `txid` leaves the instance as it was, or with one more status of `txid`. -/
structure Turned (led : Handle) (txid : String) (w w' : World) : Prop where
  fresh : w'.fresh = w.fresh
  mem : w'.mem led = w.mem led ∨
    ∃ seq status, w'.mem led = w.mem led ++ [.statusUpdate seq txid status]

section Turn

variable {host : Host} {assume G : Guarantee sig World} {led : Handle} {txid : String} {w : World}

open Program

/-- The world has the instance that `w` has. -/
structure Untouched (led : Handle) (w w' : World) : Prop where
  fresh : w'.fresh = w.fresh
  mem : w'.mem led = w.mem led

theorem wp_updateStatus {status : Status} {w₁ : World} (untouched : Untouched led w w₁)
    (free : ∀ w (op : Op) (answer : op.Ans), op.recovers → G w op answer)
    (updates : ∀ w' seq answer, Untouched led w w' →
      G w' (.append led (.statusUpdate seq txid status)) answer) :
    wp ((interp host).restrict assume) G (fun _ w' => Turned led txid w w')
      (Ledger.updateStatus led txid status) w₁ := by
  refine wp_bind.2 fun es _ => ⟨free _ _ _ trivial, bindPost_ok.2 ?_⟩
  rintro (_ | error | error) -
  · refine ⟨updates _ _ _ untouched, untouched.fresh, .inr ⟨Ledger.nextSeq es, status, ?_⟩⟩
    show Function.update w₁.mem led (w₁.mem led ++ [_]) led = _
    rw [Function.update_self, untouched.mem]
  · exact ⟨updates _ _ _ untouched, untouched.fresh, .inl untouched.mem⟩
  · exact ⟨updates _ _ _ untouched, untouched.fresh, .inl untouched.mem⟩

theorem wp_removeSidecar {why : Removal} {w₁ : World} (turned : Turned led txid w w₁)
    (free : ∀ w (op : Op) (answer : op.Ans), op.recovers → G w op answer) :
    wp ((interp host).restrict assume) G (fun _ w' => Turned led txid w w')
      (Ledger.removeSidecar txid why) w₁ := by
  rintro (error | ⟨⟩) -
  · exact ⟨free _ _ _ trivial, turned⟩
  · exact ⟨free _ _ _ trivial, turned.fresh, turned.mem⟩

theorem wp_advance {confs : ℕ} {w₁ : World} (untouched : Untouched led w w₁)
    (free : ∀ w (op : Op) (answer : op.Ans), op.recovers → G w op answer)
    (updates : ∀ w' seq status answer, Untouched led w w' →
      G w' (.append led (.statusUpdate seq txid status)) answer) :
    wp ((interp host).restrict assume) G (fun _ w' => Turned led txid w w')
      (advance led txid confs) w₁ := by
  have settle : ∀ (changed : Bool) w₂, Turned led txid w w₂ →
      wp ((interp host).restrict assume) G (fun _ w' => Turned led txid w w')
        (if confs ≥ 1 then (Ledger.removeSidecar txid .settled >>= fun _ => .pure changed)
          else .pure changed) w₂ := by
    intro changed w₂ turned
    split
    · refine wp_bind.2 (wp_mono (wp_removeSidecar turned free) ?_)
      rintro (error | ⟨⟩) w₃ turned' <;> exact turned'
    · exact turned
  refine wp_bind.2 fun es _ => ⟨free _ _ _ trivial, bindPost_ok.2 ?_⟩
  dsimp only
  split
  · refine wp_bind.2 (wp_mono (wp_updateStatus untouched free fun w' seq => updates w' seq _) ?_)
    rintro (error | ⟨⟩) w₂ turned
    · exact turned
    · exact settle _ w₂ turned
  · exact settle _ w₁ ⟨untouched.fresh, .inl untouched.mem⟩

/-- One turn of the loop, up to what it does to the instance. -/
theorem wp_reconcileOne (free : ∀ w (op : Op) (answer : op.Ans), op.recovers → G w op answer)
    (updates : ∀ w' seq status answer, Untouched led w w' →
      G w' (.append led (.statusUpdate seq txid status)) answer) :
    wp ((interp host).restrict assume) G (fun _ w' => Turned led txid w w')
      (reconcileOne led txid) w := by
  have here : Untouched led w w := ⟨rfl, rfl⟩
  refine wp_bind.2 ?_
  rintro (error | confs) - <;> refine ⟨free _ _ _ trivial, ?_⟩
  · exact ⟨rfl, .inl rfl⟩
  refine bindPost_ok.2 ?_
  split
  · refine wp_bind.2 ?_
    rintro (error | contents) - <;> refine ⟨free _ _ _ trivial, ?_⟩
    · exact ⟨rfl, .inl rfl⟩
    rcases contents with _ | (tx | _)
    · exact wp_advance here free updates
    · have handed : Untouched led w { w with net := tx :: w.net } := ⟨rfl, rfl⟩
      refine wp_bind.2 (wp_bind.2 (wp_attempt.2 ?_))
      rintro (error | ⟨⟩) - <;> refine ⟨free _ _ _ trivial, ?_⟩
      · refine wp_ofExcept.2 (bindPost_ok.2 ?_)
        by_cases hard : isHardRejection error
        · simp only [hard, if_true]
          refine wp_bind.2 (wp_mono (wp_updateStatus handed free fun w' seq => updates w' seq _) ?_)
          rintro (e | ⟨⟩) w₂ turned
          · exact turned
          refine wp_bind.2 (wp_mono (wp_removeSidecar turned free) ?_)
          rintro (e | ⟨⟩) w₃ turned' <;> exact turned'
        · simp only [hard]
          exact wp_advance handed free updates
      · exact wp_advance handed free updates
    · exact ⟨rfl, .inl rfl⟩
  · exact wp_advance here free updates

end Turn

end ComputerMoney.Kernel

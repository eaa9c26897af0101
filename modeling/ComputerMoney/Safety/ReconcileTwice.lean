/-
# Safety.ReconcileTwice -- the recovery loop, run again and cut short

Two results about the loop against a chain that stands still.  `reconcile_exact`: a run that
returns a number has appended that many status updates and brought every open payment to
the status its count and its sidecar give it, and a second run changes nothing.

`reconcile_restarts`: a run that is cut anywhere, and then a complete one, lead to the same
statuses as one complete run, and to the same sidecars unless the cut fell between a
terminal status and the removal of the sidecar that goes with it.  The status takes the
payment off the queue, and only the queue leads to its sidecar.
-/
import ComputerMoney.Kernel.Snapshot
import ComputerMoney.Safety.WriteAhead

namespace ComputerMoney.Safety

set_option autoImplicit false

open Theory Theory.Program Kernel

/-- **The recovery loop is exact, and done at once.**  Against a chain that stands still a run
that returns `n`, whatever the instance holds and whatever sidecars there are, has appended
`n` status updates; a payment that was final or failed has the status it had, and any other
has failed exactly when it has no count and its sidecar is refused, and otherwise has the
status of its count.  A second run, in which nothing fails, returns zero and changes neither
the ledger nor a sidecar. -/
theorem reconcile_exact (host : Host) (snap : Snapshot) (led : Handle) (w w' : World) (n : ℕ)
    (run : Exec (against host snap False) (reconcile led) w (.ok n) w') :
    (∃ updates, w'.ledger = w.ledger ++ updates ∧ w'.mem led = w.mem led ++ updates ∧
      updates.length = n ∧ Updates updates) ∧
    (∀ txid, Ledger.latestStatus (w.mem led) txid = some .final ∨
        Ledger.latestStatus (w.mem led) txid = some .failed →
      Ledger.latestStatus (w'.mem led) txid = Ledger.latestStatus (w.mem led) txid) ∧
    (∀ txid, Ledger.hasTxid (w.mem led) txid = true →
        Ledger.latestStatus (w.mem led) txid ≠ some .final →
        Ledger.latestStatus (w.mem led) txid ≠ some .failed →
      Ledger.latestStatus (w'.mem led) txid =
        some (if snap.count txid = 0 ∧ snap.rejects (w.sidecar txid) = true then .failed
          else .fromConfirmations (snap.count txid))) ∧
    ∀ result w'', Exec (against host snap True) (reconcile led) w' result w'' →
      result = .ok 0 ∧ w''.ledger = w'.ledger ∧ w''.mem led = w'.mem led ∧
        ∀ txid, w''.sidecar txid = w'.sidecar txid := by
  have settled : Snapshot.Settled snap led w n w' := wp_exec wp_reconcile_settles run
  obtain ⟨us, mem, ledger, length, updates⟩ := settled.progress.onlyUpdates
  refine ⟨⟨us, ledger, mem, length, updates⟩, fun txid closed => ?_, fun txid recorded => ?_, ?_⟩
  · refine settled.progress.untold txid fun queued => ?_
    obtain ⟨-, notFinal, notFailed⟩ := Ledger.mem_pending_iff.1 queued
    exact closed.elim notFinal notFailed
  · intro notFinal notFailed
    exact settled.progress.status txid (Ledger.mem_pending_iff.2 ⟨recorded, notFinal, notFailed⟩)
  · intro result w'' again
    have ends := wp_exec wp_reconcile_settles again
    rcases result with error | n'
    · obtain ⟨t, queued, uncounted, torn⟩ := ends trivial
      obtain ⟨before, -⟩ := settled.pending queued
      rcases settled.sidecar t with same | gone
      · exact absurd (same ▸ torn) (settled.intact t before uncounted)
      · rw [gone] at torn
        cases torn
    · obtain ⟨rfl, rest⟩ := settled.again ends
      exact ⟨rfl, rest⟩

/-! ## One payment, three deep -/

/-- The script of a chain that stands still. -/
def snapshotScript (snap : Snapshot) : Script :=
  { Script.silent with
    verdict := snap.verdict
    confirmations := fun txid => .ok (snap.count txid) }

theorem snapshotScript_answers (host : Host) (snap : Snapshot) (smooth : Prop) (op : Op)
    (w : World) : snap.answers op ((snapshotScript snap).answer host w op) ∧
      (smooth → op.succeeds ((snapshotScript snap).answer host w op)) := by
  cases op with
  | broadcast tx => exact ⟨rfl, fun _ => trivial⟩
  | confirmations txid => exact ⟨rfl, fun _ => trivial⟩
  | _ => exact ⟨trivial, fun _ => trivial⟩

/-- Every payment is three deep. -/
def threeDeep : Snapshot := ⟨fun _ => 3, fun _ => .ok ()⟩

/-- One payment on file, its sidecar, and an instance. -/
def owedWorld : World :=
  { World.blank with
    ledger := [.sent 0 sampleTxid 40000 sampleAddress.display .pending 1700000000]
    mem := fun _ => [.sent 0 sampleTxid 40000 sampleAddress.display .pending 1700000000]
    fresh := 1
    sidecars := [(sampleTxid, .hex walletTx)] }

/-- The run that makes it final. -/
def settledWorld : World :=
  (run ((snapshotScript threeDeep).handle walletHost) (reconcile 0) owedWorld).2

theorem settledWorld_exec : Exec (against walletHost threeDeep False) (reconcile 0) owedWorld
    (.ok 1) settledWorld :=
  (snapshotScript threeDeep).exec walletHost
    (fun op w => snapshotScript_answers walletHost threeDeep False op w) (reconcile 0) owedWorld

theorem reconcile_exact_sample :
    Ledger.latestStatus (settledWorld.mem 0) sampleTxid = some .final ∧
    settledWorld.ledger.length = 2 ∧
    ∀ result w'', Exec (against walletHost threeDeep True) (reconcile 0) settledWorld result w'' →
      result = .ok 0 := by
  obtain ⟨⟨us, ledger, -, length, -⟩, -, statuses, again⟩ :=
    reconcile_exact walletHost threeDeep 0 owedWorld settledWorld 1 settledWorld_exec
  refine ⟨?_, ?_, fun result w'' second => (again result w'' second).1⟩
  · exact statuses sampleTxid (by decide +kernel) (by decide +kernel) (by decide +kernel)
  · rw [ledger, List.length_append, length]
    rfl

/-! ## Cut short -/

/-- Where a run that started at `w` can be cut: some payments have the status they go to,
and a sidecar is there as it was, or its payment has that status and it was to go. -/
structure Between (snap : Snapshot) (led : Handle) (w x : World) : Prop where
  grown : ∃ us, x.ledger = w.ledger ++ us ∧ Updates us
  status : ∀ t, Ledger.latestStatus x.ledger t = Ledger.latestStatus w.ledger t ∨
    t ∈ Ledger.pending (w.mem led) ∧ Ledger.latestStatus x.ledger t = some (snap.target w t)
  sidecar : ∀ t, x.sidecar t = w.sidecar t ∨ x.sidecar t = none ∧ t ∈ Snapshot.Cleared snap led w ∧
    (t ∈ Ledger.pending (w.mem led) → Ledger.latestStatus x.ledger t = some (snap.target w t))

section Cut

variable {host : Host} {snap : Snapshot} {smooth : Prop} {led : Handle} {w x : World}

theorem Between.start : Between snap led w w :=
  ⟨⟨[], (List.append_nil _).symm, nofun⟩, fun _ => .inl rfl, fun _ => .inl rfl⟩

/-- Only the files matter. -/
theorem Between.of_files {x' : World} (between : Between snap led w x)
    (ledger : x'.ledger = x.ledger) (sidecars : x'.sidecars = x.sidecars) :
    Between snap led w x' := by
  have same : ∀ t, x'.sidecar t = x.sidecar t := fun t => congrArg (List.lookup t) sidecars
  refine ⟨ledger ▸ between.grown, fun t => ledger ▸ between.status t, fun t => ?_⟩
  rw [same, ledger]
  exact between.sidecar t

/-- A status that goes to where it should. -/
theorem Between.tell (between : Between snap led w x) {txid : String} (seq : ℕ)
    (queued : txid ∈ Ledger.pending (w.mem led)) :
    Between snap led w (x.written (.statusUpdate seq txid (snap.target w txid))) := by
  obtain ⟨us, ledger, updates⟩ := between.grown
  have moved : ∀ t, Ledger.latestStatus (x.ledger ++ [.statusUpdate seq txid (snap.target w txid)])
      t = if txid = t then some (snap.target w txid) else Ledger.latestStatus x.ledger t :=
    fun t => Ledger.latestStatus_append _ _ t
  refine ⟨⟨us ++ [.statusUpdate seq txid (snap.target w txid)], ?_, ?_⟩, fun t => ?_, fun t => ?_⟩
  · rw [← List.append_assoc, ← ledger]
    rfl
  · intro e member
    rcases List.mem_append.1 member with before | last
    · exact updates e before
    · exact ⟨seq, txid, _, List.mem_singleton.1 last⟩
  · show Ledger.latestStatus (x.ledger ++ [_]) t = _ ∨ _ ∧ Ledger.latestStatus (x.ledger ++ [_]) t = _
    rw [moved]
    split
    · rename_i same
      subst same
      exact .inr ⟨queued, rfl⟩
    · exact between.status t
  · show x.sidecar t = _ ∨ x.sidecar t = none ∧ _ ∧
      (_ → Ledger.latestStatus (x.ledger ++ [_]) t = _)
    rw [moved]
    refine (between.sidecar t).imp_right fun ⟨gone, cleared, recorded⟩ => ⟨gone, cleared, ?_⟩
    intro isQueued
    split
    · rename_i same
      rw [same]
    · exact recorded isQueued

/-- A sidecar whose time has come. -/
theorem Between.drop (between : Between snap led w x) {txid : String}
    (cleared : txid ∈ Snapshot.Cleared snap led w) (recorded : txid ∈ Ledger.pending (w.mem led) →
      Ledger.latestStatus x.ledger txid = some (snap.target w txid)) :
    Between snap led w (x.dropSidecar txid) := by
  refine ⟨between.grown, between.status, fun t => ?_⟩
  rcases eq_or_ne t txid with rfl | other
  · exact .inr ⟨x.sidecar_dropSidecar t, cleared, recorded⟩
  · rw [x.sidecar_dropSidecar_of_ne other]
    exact between.sidecar t

theorem keeps_between (synced : w.mem led = w.ledger) :
    Keeps (against host snap smooth) (Snapshot.Settles snap led w) (Between snap led w) := by
  intro x op answer _ promised between
  cases op with
  | append led' e =>
      cases e with
      | statusUpdate seq t status =>
          obtain ⟨-, queued, rfl⟩ := promised
          have told := between.tell seq queued
          cases answer with
          | ok => exact told.of_files rfl rfl
          | lost error => exact between
          | kept error => exact told
      | _ => exact promised.elim
  | writeSidecar txid tx => exact promised.elim
  | removeSidecar t why =>
      obtain ⟨stays, why⟩ := promised
      rcases answer with error | ⟨⟩
      · exact between
      rw [stays synced] at why
      rcases why with ⟨queued, settled, recorded⟩ | ⟨unsent, recorded⟩
      · exact between.drop (.inl ⟨queued, settled⟩) fun _ => recorded
      · exact between.drop (.inr unsent) (recorded t)
  | _ => exact between.of_files (x.after_ledger answer nofun) (x.after_sidecars answer nofun nofun)

end Cut

/-! ## And run again -/

section Restart

variable {snap : Snapshot} {led led' : Handle} {w x y y' : World} {n m : ℕ}

/-- What is open at the cut was open before, and goes where it went. -/
theorem Between.pending (between : Between snap led w x) (synced : w.mem led = w.ledger)
    {txid : String} (queued : txid ∈ Ledger.pending x.ledger) :
    txid ∈ Ledger.pending w.ledger ∧ snap.target x txid = snap.target w txid := by
  obtain ⟨us, grown, updates⟩ := between.grown
  obtain ⟨recorded, notFinal, notFailed⟩ := Ledger.mem_pending_iff.1 queued
  rw [grown, hasTxid_updates updates] at recorded
  have before : txid ∈ Ledger.pending w.ledger := by
    rcases between.status txid with same | ⟨before, -⟩
    · rw [same] at notFinal notFailed
      exact Ledger.mem_pending_iff.2 ⟨recorded, notFinal, notFailed⟩
    · rwa [synced] at before
  refine ⟨before, ?_⟩
  rcases between.sidecar txid with same | ⟨gone, -, told⟩
  · rw [Snapshot.target, Snapshot.target, same]
  · rw [told (synced.symm ▸ before)] at notFailed
    exact Snapshot.target_of_dropped (fun failed => notFailed (congrArg some failed)) (.inr gone)

/-- What was open and is not at the cut has the status it goes to. -/
theorem Between.closed (between : Between snap led w x) {txid : String}
    (before : txid ∈ Ledger.pending w.ledger) (closed : txid ∉ Ledger.pending x.ledger) :
    Ledger.latestStatus x.ledger txid = some (snap.target w txid) ∧
      (snap.target w txid = .final ∨ snap.target w txid = .failed) := by
  obtain ⟨us, grown, updates⟩ := between.grown
  obtain ⟨recorded, notFinal, notFailed⟩ := Ledger.mem_pending_iff.1 before
  have recorded' : Ledger.hasTxid x.ledger txid = true := by
    rw [grown, hasTxid_updates updates]
    exact recorded
  rcases between.status txid with same | ⟨-, told⟩
  · rw [← same] at notFinal notFailed
    exact absurd (Ledger.mem_pending_iff.2 ⟨recorded', notFinal, notFailed⟩) closed
  · refine ⟨told, ?_⟩
    by_contra open_
    rw [not_or] at open_
    refine closed (Ledger.mem_pending_iff.2 ⟨recorded', ?_, ?_⟩)
    · rw [told]
      exact fun is => open_.1 (Option.some.inj is)
    · rw [told]
      exact fun is => open_.2 (Option.some.inj is)

/-- **The statuses come out the same.** -/
theorem Between.statuses (between : Between snap led w x) (synced : w.mem led = w.ledger)
    (again : x.mem led' = x.ledger) (whole : Snapshot.Settled snap led w n y)
    (following : Snapshot.Settled snap led' x m y') (txid : String) :
    Ledger.latestStatus y'.ledger txid = Ledger.latestStatus y.ledger txid := by
  rw [← whole.progress.synced synced, ← following.progress.synced again]
  by_cases queued : txid ∈ Ledger.pending x.ledger
  · obtain ⟨before, same⟩ := between.pending synced queued
    rw [following.progress.status txid (again.symm ▸ queued), same,
      whole.progress.status txid (synced.symm ▸ before)]
  · rw [following.progress.untold txid (again.symm ▸ queued), again]
    by_cases before : txid ∈ Ledger.pending w.ledger
    · rw [whole.progress.status txid (synced.symm ▸ before)]
      exact (between.closed before queued).1
    · rw [whole.progress.untold txid (synced.symm ▸ before), synced]
      refine (between.status txid).resolve_right fun told => before ?_
      rw [← synced]
      exact told.1

/-- A payment that was sent and open when the run began has a terminal status at the cut, and
its sidecar is still there. -/
def Stranded (w x : World) : Prop :=
  ∃ txid ∈ w.ledger.filterMap Entry.sentTxid?, txid ∈ Ledger.pending w.ledger ∧
    (Ledger.latestStatus x.ledger txid = some .final ∨
      Ledger.latestStatus x.ledger txid = some .failed) ∧ x.sidecar txid ≠ none

/-- **The sidecars come out the same**, unless one is stranded. -/
theorem Between.sidecars (between : Between snap led w x) (synced : w.mem led = w.ledger)
    (again : x.mem led' = x.ledger) (whole : Snapshot.Settled snap led w n y)
    (following : Snapshot.Settled snap led' x m y') :
    (∀ txid, y'.sidecar txid = none ↔ y.sidecar txid = none) ↔ ¬ Stranded w x := by
  obtain ⟨us, grown, updates⟩ := between.grown
  have sent : (x.mem led').filterMap Entry.sentTxid? = (w.mem led).filterMap Entry.sentTxid? := by
    rw [again, synced, grown, sentTxids_updates updates]
  constructor
  · rintro same ⟨txid, isSent, before, ended, present⟩
    have closed : txid ∉ Ledger.pending x.ledger := fun queued => by
      obtain ⟨-, notFinal, notFailed⟩ := Ledger.mem_pending_iff.1 queued
      exact ended.elim notFinal notFailed
    have settled : snap.target w txid ≠ .pending := by
      rcases (between.closed before closed).2 with is | is <;> rw [is] <;> exact nofun
    have dropped := whole.progress.dropped txid (.inl ⟨synced.symm ▸ before, settled⟩)
    have spared : txid ∉ Snapshot.Cleared snap led' x := by
      rintro (⟨queued, -⟩ | unsent)
      · exact closed (again ▸ queued)
      · rw [sent, synced] at unsent
        exact unsent isSent
    rw [← same, following.progress.left txid spared] at dropped
    exact present dropped
  · intro none txid
    by_cases cleared : txid ∈ Snapshot.Cleared snap led w
    · refine iff_of_true ?_ (whole.progress.dropped txid cleared)
      by_cases cleared' : txid ∈ Snapshot.Cleared snap led' x
      · exact following.progress.dropped txid cleared'
      · rw [following.progress.left txid cleared']
        by_contra present
        have isSent : txid ∈ (w.mem led).filterMap Entry.sentTxid? := by
          rw [← sent]
          exact not_not.1 fun unsent => cleared' (.inr unsent)
        obtain ⟨before, settled⟩ := cleared.resolve_right (not_not.2 isSent)
        rw [synced] at before isSent
        have closed : txid ∉ Ledger.pending x.ledger := by
          intro queued
          refine cleared' (.inl ⟨again.symm ▸ queued, ?_⟩)
          rw [(between.pending synced queued).2]
          exact settled
        obtain ⟨told, terminal⟩ := between.closed before closed
        refine none ⟨txid, isSent, before, ?_, present⟩
        rw [told]
        exact terminal.imp (congrArg some) (congrArg some)
    · have spared : txid ∉ Snapshot.Cleared snap led' x := by
        rintro (⟨queued, settled⟩ | unsent)
        · obtain ⟨before, same⟩ := between.pending synced (again ▸ queued)
          exact cleared (.inl ⟨synced.symm ▸ before, same ▸ settled⟩)
        · exact cleared (.inr (sent ▸ unsent))
      rw [following.progress.left txid spared, whole.progress.left txid cleared]
      rcases between.sidecar txid with same | ⟨-, isCleared, -⟩
      · rw [same]
      · exact absurd isCleared cleared

end Restart

/-- **A run cut short, and a complete one.**  Against a chain that stands still, from any
ledger and any sidecars: a run on an instance that has what is on file is cut at any point,
by an error or a crash; the ledger file and the sidecars it leaves are read by an instance of
a later run, which is complete.  The statuses and the set of sidecars in the end are those of
one complete run exactly when no sidecar is stranded at the cut. -/
theorem reconcile_restarts (host : Host) (snap : Snapshot) (led led' : Handle)
    (w x x' y y' : World) (n m : ℕ) (synced : w.mem led = w.ledger)
    (whole : Exec (against host snap False) (reconcile led) w (.ok n) y)
    (cut : Reach (against host snap False) (reconcile led) w x)
    (ledger : x'.ledger = x.ledger) (sidecars : x'.sidecars = x.sidecars)
    (again : x'.mem led' = x'.ledger)
    (following : Exec (against host snap False) (reconcile led') x' (.ok m) y') :
    ((∀ txid, Ledger.latestStatus y'.ledger txid = Ledger.latestStatus y.ledger txid) ∧
      ∀ txid, y'.sidecar txid = none ↔ y.sidecar txid = none) ↔ ¬ Stranded w x := by
  have settled : Snapshot.Settled snap led w n y := wp_exec wp_reconcile_settles whole
  have settled' : Snapshot.Settled snap led' x' m y' := wp_exec wp_reconcile_settles following
  have between : Between snap led w x' :=
    (wp_reach (keeps_between synced) Between.start wp_reconcile_settles cut).of_files ledger sidecars
  have same : Stranded w x' ↔ Stranded w x := by
    unfold Stranded World.sidecar
    rw [ledger, sidecars]
  rw [← same, ← between.sidecars synced again settled settled']
  exact and_iff_right (between.statuses synced again settled settled')

/-! ## A sidecar stranded, and one not -/

/-- What a crash after `calls` calls leaves, and a new instance. -/
def restarted (calls : ℕ) : World :=
  ((cut ((snapshotScript threeDeep).handle walletHost) calls (reconcile 0) owedWorld).crash).load 1

def finished (calls : ℕ) : World :=
  (run ((snapshotScript threeDeep).handle walletHost) (reconcile 1) (restarted calls)).2

theorem cut_reached (calls : ℕ) : Reach (against walletHost threeDeep False) (reconcile 0) owedWorld
    (cut ((snapshotScript threeDeep).handle walletHost) calls (reconcile 0) owedWorld) :=
  (snapshotScript threeDeep).reach walletHost
    (fun op w => snapshotScript_answers walletHost threeDeep False op w) calls _ _

theorem finished_exec (calls : ℕ) : Exec (against walletHost threeDeep False) (reconcile 1)
    (restarted calls)
    (run ((snapshotScript threeDeep).handle walletHost) (reconcile 1) (restarted calls)).1
    (finished calls) :=
  (snapshotScript threeDeep).exec walletHost
    (fun op w => snapshotScript_answers walletHost threeDeep False op w) _ _

/-- The payment is final, the process dies before it drops the sidecar, and no later run
drops it. -/
theorem final_status_strands_sidecar : ∃ x y y' : World,
    Exec (against walletHost threeDeep False) (reconcile 0) owedWorld (.ok 1) y ∧
    Reach (against walletHost threeDeep False) (reconcile 0) owedWorld x ∧
    Exec (against walletHost threeDeep False) (reconcile 1) (x.crash.load 1) (.ok 0) y' ∧
    y.sidecar sampleTxid = none ∧ y'.sidecar sampleTxid = some (.hex walletTx) :=
  ⟨_, settledWorld, finished 5, settledWorld_exec, cut_reached 5, finished_exec 5,
    by decide +kernel, by decide +kernel⟩

/-- The process dies before it records the status: the next run does all of it. -/
theorem reconcile_restarts_sample :
    (∀ txid, Ledger.latestStatus (finished 4).ledger txid =
      Ledger.latestStatus settledWorld.ledger txid) ∧
    ∀ txid, (finished 4).sidecar txid = none ↔ settledWorld.sidecar txid = none := by
  have result := reconcile_restarts walletHost threeDeep 0 1 owedWorld _ (restarted 4) settledWorld
    (finished 4) 1 1 rfl settledWorld_exec (cut_reached 4) rfl rfl (World.load_mem _)
    (finished_exec 4)
  refine result.2 ?_
  rintro ⟨txid, isSent, -, closed, -⟩
  obtain rfl : txid = sampleTxid := List.mem_singleton.1 isSent
  exact absurd closed (by decide +kernel)

end ComputerMoney.Safety

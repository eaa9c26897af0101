/-
# Kernel.Snapshot -- the recovery loop against a chain that stands still

A snapshot is the chain at one moment: a count for every txid, and what the nodes say of
every transaction handed to them.  Against one snapshot each payment on the work queue has
one status to go to (`target`), and the loop takes it there: `wp_reconcile_settles` says
what every complete run leaves, entry by entry and sidecar by sidecar, and what holds at
each durable write on the way.
-/
import Mathlib.Data.Set.Insert
import ComputerMoney.Kernel.Reconcile

namespace ComputerMoney.Kernel

set_option autoImplicit false

open Theory Theory.Program

/-! ## Snapshots -/

structure Snapshot where
  count : String → ℕ
  verdict : Tx → Except Error Unit

/-- The sidecar holds a transaction the nodes refuse for good. -/
def Snapshot.rejects (snap : Snapshot) : Option Sidecar → Bool
  | some (.hex tx) => match snap.verdict tx with
      | .ok () => false
      | .error msg => isHardRejection msg
  | _ => false

/-- The status of a payment by its count and its sidecar. -/
def Snapshot.status (snap : Snapshot) (txid : String) (sidecar : Option Sidecar) : Status :=
  if snap.count txid = 0 ∧ snap.rejects sidecar = true then .failed
  else .fromConfirmations (snap.count txid)

/-- The status each payment goes to from here. -/
def Snapshot.target (snap : Snapshot) (w : World) (txid : String) : Status :=
  snap.status txid (w.sidecar txid)

def Snapshot.answers (snap : Snapshot) : (op : Op) → op.Ans → Prop
  | .confirmations txid, .ok confs => confs = snap.count txid
  | .broadcast tx, answer => answer = snap.verdict tx
  | _, _ => True

/-- The calls of the loop that do not fail. -/
def Op.succeeds : (op : Op) → op.Ans → Prop
  | .append _ _, .lost _ | .append _ _, .kept _ | .readSidecar _, .error _
  | .removeSidecar _ _, .error _ | .listSidecars, .error _ | .confirmations _, .error _ => False
  | _, _ => True

/-- The host against a snapshot; if `smooth`, nothing fails. -/
def against (host : Host) (snap : Snapshot) (smooth : Prop) : Interp sig World :=
  (interp host).restrict fun _ op answer => snap.answers op answer ∧ (smooth → op.succeeds answer)

theorem Snapshot.status_counted {snap : Snapshot} {txid : String} (sidecar : Option Sidecar)
    (counted : 1 ≤ snap.count txid) :
    snap.status txid sidecar = .fromConfirmations (snap.count txid) :=
  if_neg fun refused => absurd refused.1 (by omega)

theorem Snapshot.status_alive {snap : Snapshot} {txid : String} {sidecar : Option Sidecar}
    (alive : snap.rejects sidecar = false) :
    snap.status txid sidecar = .fromConfirmations (snap.count txid) := by
  refine if_neg fun refused => ?_
  rw [alive] at refused
  cases refused.2

theorem Snapshot.status_none (snap : Snapshot) (txid : String) :
    snap.status txid none = .fromConfirmations (snap.count txid) :=
  Snapshot.status_alive rfl

theorem Snapshot.status_of_ne_failed {snap : Snapshot} {txid : String} {sidecar : Option Sidecar}
    (alive : snap.status txid sidecar ≠ .failed) :
    snap.status txid sidecar = .fromConfirmations (snap.count txid) :=
  if_neg fun refused => alive (if_pos refused)

/-- Dropping the sidecar of what has not failed leaves its target. -/
theorem Snapshot.target_of_dropped {snap : Snapshot} {txid : String} {w x : World}
    (alive : snap.target w txid ≠ .failed)
    (sidecar : x.sidecar txid = w.sidecar txid ∨ x.sidecar txid = none) :
    snap.target x txid = snap.target w txid := by
  rcases sidecar with same | gone
  · rw [Snapshot.target, Snapshot.target, same]
  · rw [Snapshot.target, gone, Snapshot.status_none]
    exact (Snapshot.status_of_ne_failed alive).symm

/-! ## The ledger after updates -/

/-- Only status updates. -/
def Updates (us : List Entry) : Prop := ∀ e ∈ us, ∃ seq txid status, e = .statusUpdate seq txid status

theorem hasTxid_updates {entries us : List Entry} {txid : String} (updates : Updates us) :
    Ledger.hasTxid (entries ++ us) txid = Ledger.hasTxid entries txid := by
  have none : Ledger.hasTxid us txid = false := by
    refine Bool.eq_false_iff.2 fun has => ?_
    obtain ⟨e, member, is⟩ := Ledger.hasTxid_iff.1 has
    obtain ⟨seq, t, status, rfl⟩ := updates e member
    cases is
  rw [Ledger.hasTxid, List.any_append]
  exact (congrArg _ none).trans (Bool.or_false _)

theorem sentTxids_updates {entries us : List Entry} (updates : Updates us) :
    (entries ++ us).filterMap Entry.sentTxid? = entries.filterMap Entry.sentTxid? := by
  have none : us.filterMap Entry.sentTxid? = [] := by
    refine List.filterMap_eq_nil_iff.2 fun e member => ?_
    obtain ⟨seq, t, status, rfl⟩ := updates e member
    rfl
  rw [List.filterMap_append, none, List.append_nil]

/-! ## The way there -/

/-- The run that started at `w` has come to `x`: the statuses of `told` are recorded, the
sidecars of `gone` are dropped, and `n` updates were appended. -/
structure Progress (snap : Snapshot) (led : Handle) (w : World) (told gone : Set String) (n : ℕ)
    (x : World) : Prop where
  updates : ∃ us, x.mem led = w.mem led ++ us ∧ x.ledger = w.ledger ++ us ∧ us.length = n ∧
    ∀ e ∈ us, ∃ seq, ∃ t ∈ told, e = .statusUpdate seq t (snap.target w t) ∧
      Ledger.latestStatus (w.mem led) t ≠ some (snap.target w t)
  status : ∀ t ∈ told, Ledger.latestStatus (x.mem led) t = some (snap.target w t)
  untold : ∀ t, t ∉ told → Ledger.latestStatus (x.mem led) t = Ledger.latestStatus (w.mem led) t
  dropped : ∀ t ∈ gone, x.sidecar t = none
  left : ∀ t, t ∉ gone → x.sidecar t = w.sidecar t

section Progress

variable {snap : Snapshot} {led : Handle} {w x : World} {told gone : Set String} {n : ℕ}
  {txid : String}

theorem Progress.start : Progress snap led w ∅ ∅ 0 w :=
  ⟨⟨[], by simp, by simp, rfl, nofun⟩, nofun, fun _ _ => rfl, nofun, fun _ _ => rfl⟩

/-- One more status is recorded. -/
theorem Progress.tell (progress : Progress snap led w told gone n x) (new : txid ∉ told)
    (changed : Ledger.latestStatus (x.mem led) txid ≠ some (snap.target w txid)) (seq : ℕ) :
    Progress snap led w (insert txid told) gone (n + 1)
      (x.appended led (.statusUpdate seq txid (snap.target w txid))) := by
  obtain ⟨us, mem, ledger, length, each⟩ := progress.updates
  have grown : (x.appended led (.statusUpdate seq txid (snap.target w txid))).mem led =
      x.mem led ++ [.statusUpdate seq txid (snap.target w txid)] := Function.update_self ..
  refine ⟨⟨us ++ [.statusUpdate seq txid (snap.target w txid)], ?_, ?_, ?_, ?_⟩, ?_, ?_,
    progress.dropped, progress.left⟩
  · rw [grown, mem, List.append_assoc]
  · rw [← List.append_assoc, ← ledger]
    rfl
  · rw [List.length_append, length, List.length_singleton]
  · intro e member
    rcases List.mem_append.1 member with before | last
    · obtain ⟨seq', t, isTold, is, differs⟩ := each e before
      exact ⟨seq', t, Set.mem_insert_of_mem _ isTold, is, differs⟩
    · rw [progress.untold txid new] at changed
      exact ⟨seq, txid, Set.mem_insert .., List.mem_singleton.1 last, changed⟩
  · intro t isTold
    rw [grown, Ledger.latestStatus_append]
    dsimp only [Entry.status?]
    split
    · rename_i same
      rw [same]
    · rename_i other
      exact progress.status t (Set.mem_of_mem_insert_of_ne isTold (Ne.symm other))
  · intro t notTold
    rw [Set.mem_insert_iff, not_or] at notTold
    rw [grown, Ledger.latestStatus_append_other fun status assigns => ?_]
    · exact progress.untold t notTold.2
    · cases assigns
      exact notTold.1 rfl

/-- A status that is as it should be needs no record. -/
theorem Progress.known (progress : Progress snap led w told gone n x) (new : txid ∉ told)
    (same : Ledger.latestStatus (x.mem led) txid = some (snap.target w txid)) :
    Progress snap led w (insert txid told) gone n x := by
  obtain ⟨us, mem, ledger, length, each⟩ := progress.updates
  refine ⟨⟨us, mem, ledger, length, fun e member => ?_⟩, ?_, ?_, progress.dropped, progress.left⟩
  · obtain ⟨seq, t, isTold, is, differs⟩ := each e member
    exact ⟨seq, t, Set.mem_insert_of_mem _ isTold, is, differs⟩
  · rintro t (rfl | isTold)
    · exact same
    · exact progress.status t isTold
  · intro t notTold
    exact progress.untold t fun isTold => notTold (Set.mem_insert_of_mem _ isTold)

theorem Progress.drop (progress : Progress snap led w told gone n x) (txid : String) :
    Progress snap led w told (insert txid gone) n (x.dropSidecar txid) := by
  refine ⟨progress.updates, progress.status, progress.untold, fun t isGone => ?_, ?_⟩
  · rcases eq_or_ne t txid with rfl | other
    · exact x.sidecar_dropSidecar t
    · rw [x.sidecar_dropSidecar_of_ne other]
      exact progress.dropped t (Set.mem_of_mem_insert_of_ne isGone other)
  · intro t isLeft
    rw [Set.mem_insert_iff, not_or] at isLeft
    rw [x.sidecar_dropSidecar_of_ne isLeft.1]
    exact progress.left t isLeft.2

/-- Handing a transaction out changes neither. -/
theorem Progress.handed (progress : Progress snap led w told gone n x) (tx : Tx) :
    Progress snap led w told gone n { x with net := tx :: x.net } :=
  ⟨progress.updates, progress.status, progress.untold, progress.dropped, progress.left⟩

theorem Progress.onlyUpdates (progress : Progress snap led w told gone n x) :
    ∃ us, x.mem led = w.mem led ++ us ∧ x.ledger = w.ledger ++ us ∧ us.length = n ∧ Updates us := by
  obtain ⟨us, mem, ledger, length, each⟩ := progress.updates
  refine ⟨us, mem, ledger, length, fun e member => ?_⟩
  obtain ⟨seq, t, -, is, -⟩ := each e member
  exact ⟨seq, t, _, is⟩

/-- Updates name no payment that was sent. -/
theorem Progress.sent (progress : Progress snap led w told gone n x) :
    (x.mem led).filterMap Entry.sentTxid? = (w.mem led).filterMap Entry.sentTxid? := by
  obtain ⟨us, mem, -, -, updates⟩ := progress.onlyUpdates
  rw [mem, sentTxids_updates updates]

/-- An instance that had what is on file has it still. -/
theorem Progress.synced (progress : Progress snap led w told gone n x)
    (synced : w.mem led = w.ledger) : x.mem led = x.ledger := by
  obtain ⟨us, mem, ledger, -⟩ := progress.updates
  rw [mem, ledger, synced]

end Progress

/-! ## The calls on the way -/

/-- What holds at each durable write of a run that started at `w`: a status goes to where it
should; a sidecar is dropped after its payment's status is recorded, or in the end, with no
`sent` entry. -/
def Snapshot.Settles (snap : Snapshot) (led : Handle) (w : World) : Guarantee sig World
  | _, .append led' (.statusUpdate _ t status), _ =>
      led' = led ∧ t ∈ Ledger.pending (w.mem led) ∧ status = snap.target w t
  | x, .removeSidecar t _, _ => (w.mem led = w.ledger → x.mem led = x.ledger) ∧
      (t ∈ Ledger.pending (w.mem led) ∧ snap.target w t ≠ .pending ∧
          Ledger.latestStatus (x.mem led) t = some (snap.target w t) ∨
        t ∉ (w.mem led).filterMap Entry.sentTxid? ∧ ∀ t' ∈ Ledger.pending (w.mem led),
          Ledger.latestStatus (x.mem led) t' = some (snap.target w t'))
  | _, .append _ _, _ | _, .writeSidecar _ _, _ => False
  | _, _, _ => True

/-- Why a run ends in an error: something failed, or a sidecar it had to read is torn. -/
def Excused (snap : Snapshot) (smooth : Prop) (led : Handle) (w : World) : Prop :=
  smooth → ∃ t ∈ Ledger.pending (w.mem led), snap.count t = 0 ∧ w.sidecar t = some .torn

/-- A turn for `txid` ends in an error, or with its status recorded and, unless it is still
pending, its sidecar dropped. -/
def TurnEnds (snap : Snapshot) (smooth : Prop) (led : Handle) (w : World) (told gone : Set String)
    (n : ℕ) (txid : String) : Except Error Bool → World → Prop
  | .error _, _ => Excused snap smooth led w
  | .ok changed, x => (snap.count txid = 0 → w.sidecar txid ≠ some .torn) ∧
      Progress snap led w (insert txid told)
        (if snap.target w txid = .pending then gone else insert txid gone)
        (if changed then n + 1 else n) x

section Calls

variable {host : Host} {snap : Snapshot} {smooth : Prop} {led : Handle} {w x : World}
  {told gone : Set String} {n : ℕ} {txid : String}

/-- One more status on record. -/
theorem wp_updateStatus_settles {Q : Except Error Unit → World → Prop}
    (progress : Progress snap led w told gone n x) (queued : txid ∈ Ledger.pending (w.mem led))
    (new : txid ∉ told)
    (changed : Ledger.latestStatus (x.mem led) txid ≠ some (snap.target w txid))
    (failed : ¬ smooth → ∀ error x', Q (.error error) x')
    (updated : ∀ x', Progress snap led w (insert txid told) gone (n + 1) x' → Q (.ok ()) x') :
    wp (against host snap smooth) (Snapshot.Settles snap led w) Q
      (Ledger.updateStatus led txid (snap.target w txid)) x := by
  refine wp_bind.2 fun es allowed => ⟨trivial, bindPost_ok.2 ?_⟩
  rintro (_ | error | error) ⟨-, -, succeeds⟩ <;> refine ⟨⟨rfl, queued, rfl⟩, ?_⟩
  · exact updated _ (progress.tell new changed _)
  · exact failed succeeds _ _
  · exact failed succeeds _ _

/-- Dropping the sidecar of a payment whose status is on record. -/
theorem wp_dropSettled {Q : Except Error Unit → World → Prop} {why : Removal}
    (progress : Progress snap led w (insert txid told) gone n x)
    (queued : txid ∈ Ledger.pending (w.mem led)) (settled : snap.target w txid ≠ .pending)
    (failed : ¬ smooth → ∀ error x', Q (.error error) x')
    (dropped : ∀ x', Progress snap led w (insert txid told) (insert txid gone) n x' →
      Q (.ok ()) x') :
    wp (against host snap smooth) (Snapshot.Settles snap led w) Q (Ledger.removeSidecar txid why) x := by
  have promised : ∀ answer, Snapshot.Settles snap led w x (.removeSidecar txid why) answer := fun _ =>
    ⟨progress.synced, .inl ⟨queued, settled, progress.status txid (Set.mem_insert ..)⟩⟩
  rintro (error | ⟨⟩) ⟨-, -, succeeds⟩ <;> refine ⟨promised _, ?_⟩
  · exact failed succeeds _ _
  · exact dropped _ (progress.drop txid)

theorem wp_advance_settles (progress : Progress snap led w told gone n x)
    (queued : txid ∈ Ledger.pending (w.mem led)) (new : txid ∉ told)
    (intact : snap.count txid = 0 → w.sidecar txid ≠ some .torn)
    (is : snap.target w txid = .fromConfirmations (snap.count txid)) :
    wp (against host snap smooth) (Snapshot.Settles snap led w)
      (TurnEnds snap smooth led w told gone n txid) (advance led txid (snap.count txid)) x := by
  have excused : ¬ smooth → Excused snap smooth led w := fun rough smooth => absurd smooth rough
  -- The sidecar goes exactly when the status is more than pending.
  have pending : snap.target w txid = .pending ↔ snap.count txid = 0 := by
    rw [is]
    match snap.count txid with
    | 0 | 1 | 2 | _ + 3 => simp [Status.fromConfirmations]
  have settle : ∀ (changed : Bool) x', Progress snap led w (insert txid told) gone
        (if changed then n + 1 else n) x' →
      wp (against host snap smooth) (Snapshot.Settles snap led w)
        (TurnEnds snap smooth led w told gone n txid)
        (if snap.count txid ≥ 1 then (Ledger.removeSidecar txid .settled >>= fun _ => .pure changed)
          else .pure changed) x' := by
    intro changed x' progress'
    split
    · rename_i counted
      have settled : snap.target w txid ≠ .pending := fun still =>
        absurd (pending.1 still) (Nat.one_le_iff_ne_zero.1 counted)
      refine wp_bind.2 (wp_dropSettled progress' queued settled (fun rough _ _ => excused rough) ?_)
      intro x'' progress''
      refine ⟨intact, ?_⟩
      rw [if_neg settled]
      exact progress''
    · rename_i uncounted
      refine ⟨intact, ?_⟩
      rw [if_pos (pending.2 (by omega))]
      exact progress'
  refine wp_bind.2 fun es allowed => ⟨trivial, bindPost_ok.2 ?_⟩
  obtain rfl : es = x.mem led := allowed.1
  dsimp only
  rw [← is]
  split
  · rename_i changed
    refine wp_bind.2 (wp_updateStatus_settles progress queued new changed
      (fun rough _ _ => excused rough) fun x' progress' => ?_)
    refine settle _ x' ?_
    simpa [changed] using progress'
  · rename_i same
    refine settle _ x ?_
    simpa [same] using progress.known new (not_not.1 same)

/-- **One turn of the loop.** -/
theorem wp_reconcileOne_settles (progress : Progress snap led w told gone n x)
    (queued : txid ∈ Ledger.pending (w.mem led)) (new : txid ∉ told)
    (here : x.sidecar txid = w.sidecar txid) :
    wp (against host snap smooth) (Snapshot.Settles snap led w)
      (TurnEnds snap smooth led w told gone n txid) (reconcileOne led txid) x := by
  have excused : ¬ smooth → Excused snap smooth led w := fun rough smooth => absurd smooth rough
  refine wp_bind.2 ?_
  rintro (error | confs) ⟨-, answered, succeeds⟩ <;> refine ⟨trivial, ?_⟩
  · exact excused succeeds
  obtain rfl : confs = snap.count txid := answered
  refine bindPost_ok.2 ?_
  split
  · rename_i uncounted
    refine wp_bind.2 ?_
    rintro (error | contents) ⟨allowed, -, succeeds⟩ <;> refine ⟨trivial, ?_⟩
    · exact excused succeeds
    obtain rfl : contents = x.sidecar txid := allowed
    refine bindPost_ok.2 ?_
    rw [here]
    rcases file : w.sidecar txid with _ | (tx | _)
    · refine wp_advance_settles progress queued new (fun _ => file ▸ nofun) ?_
      exact Snapshot.status_alive (by rw [file]; rfl)
    · have intact : snap.count txid = 0 → w.sidecar txid ≠ some .torn := fun _ => file ▸ nofun
      refine wp_bind.2 (wp_bind.2 (wp_attempt.2 ?_))
      rintro (error | ⟨⟩) ⟨-, answered, -⟩ <;> refine ⟨trivial, ?_⟩
      · have said : snap.verdict tx = .error error := Eq.symm answered
        have rejects : snap.rejects (w.sidecar txid) = isHardRejection error := by
          rw [file]
          simp only [Snapshot.rejects, said]
        refine wp_ofExcept.2 (bindPost_ok.2 ?_)
        by_cases hard : isHardRejection error
        · have is : snap.target w txid = .failed := if_pos ⟨uncounted, rejects.trans hard⟩
          have changed : Ledger.latestStatus (x.mem led) txid ≠ some (snap.target w txid) := by
            rw [progress.untold txid new, is]
            exact (Ledger.mem_pendingFrom queued).2.2
          simp only [hard, if_true]
          rw [← is]
          refine wp_bind.2 (wp_updateStatus_settles (progress.handed tx) queued new changed
            (fun rough _ _ => excused rough) fun x' progress' => ?_)
          have settled : snap.target w txid ≠ .pending := by
            rw [is]
            exact nofun
          refine wp_bind.2 (wp_dropSettled progress' queued settled
            (fun rough _ _ => excused rough) fun x'' progress'' => ?_)
          refine ⟨intact, ?_⟩
          rw [if_neg settled]
          exact progress''
        · simp only [hard]
          refine wp_advance_settles (progress.handed tx) queued new intact ?_
          exact Snapshot.status_alive (rejects.trans (Bool.not_eq_true _ ▸ hard))
      · have said : snap.verdict tx = .ok () := Eq.symm answered
        refine wp_advance_settles (progress.handed tx) queued new intact ?_
        refine Snapshot.status_alive ?_
        rw [file]
        simp only [Snapshot.rejects, said]
    · exact fun _ => ⟨txid, queued, uncounted, file⟩
  · rename_i counted
    have counted : 1 ≤ snap.count txid := Nat.one_le_iff_ne_zero.2 counted
    refine wp_advance_settles progress queued new (fun none => by omega) ?_
    exact Snapshot.status_counted _ counted

end Calls

/-! ## Whole runs -/

/-- The payments whose sidecar goes: settled ones, and what no `sent` entry names. -/
def Snapshot.Cleared (snap : Snapshot) (led : Handle) (w : World) : Set String :=
  {t | t ∈ Ledger.pending (w.mem led) ∧ snap.target w t ≠ .pending ∨
    t ∉ (w.mem led).filterMap Entry.sentTxid?}

/-- **What a complete run leaves**: every payment on the queue is where it should be, and no
other; the cleared sidecars are gone, and no others; and none it had to read was torn. -/
structure Snapshot.Settled (snap : Snapshot) (led : Handle) (w : World) (n : ℕ) (y : World) : Prop where
  progress : Progress snap led w {t | t ∈ Ledger.pending (w.mem led)} (Snapshot.Cleared snap led w) n y
  intact : ∀ t ∈ Ledger.pending (w.mem led), snap.count t = 0 → w.sidecar t ≠ some .torn

theorem World.sidecar_isSome_iff {w : World} {txid : String} :
    w.sidecar txid ≠ none ↔ txid ∈ w.sidecars.map Prod.fst := by
  rw [Ne, World.sidecar, List.lookup_eq_none_iff, List.mem_map]
  constructor
  · intro listed
    by_contra unlisted
    refine listed fun entry member => ?_
    exact bne_iff_ne.2 fun same => unlisted ⟨entry, member, same.symm⟩
  · rintro ⟨entry, member, rfl⟩ unlisted
    exact absurd (unlisted entry member) (by simp)

section Runs

variable {host : Host} {snap : Snapshot} {smooth : Prop} {led : Handle} {w x : World}
  {told gone : Set String} {n : ℕ}

/-- The sidecars that go with the payments of `told`. -/
def settledOf (snap : Snapshot) (w : World) (told : Set String) : Set String :=
  {t | t ∈ told ∧ snap.target w t ≠ .pending}

theorem settledOf_insert (txid : String) : settledOf snap w (insert txid told) =
    if snap.target w txid = .pending then settledOf snap w told
    else insert txid (settledOf snap w told) := by
  ext t
  split
  · rename_i still
    constructor
    · rintro ⟨rfl | isTold, settled⟩
      · exact absurd still settled
      · exact ⟨isTold, settled⟩
    · exact fun member => ⟨Set.mem_insert_of_mem _ member.1, member.2⟩
  · rename_i settled
    constructor
    · rintro ⟨rfl | isTold, settled'⟩
      · exact Set.mem_insert ..
      · exact Set.mem_insert_of_mem _ ⟨isTold, settled'⟩
    · rintro (rfl | ⟨isTold, settled'⟩)
      · exact ⟨Set.mem_insert .., settled⟩
      · exact ⟨Set.mem_insert_of_mem _ isTold, settled'⟩

/-- The loop over the queue. -/
theorem wp_reconcileEach_settles {queue : List String}
    (progress : Progress snap led w told (settledOf snap w told) n x) (once : queue.Nodup)
    (queued : ∀ t ∈ queue, t ∈ Ledger.pending (w.mem led)) (new : ∀ t ∈ queue, t ∉ told) :
    wp (against host snap smooth) (Snapshot.Settles snap led w) (fun result y => match result with
      | .error _ => Excused snap smooth led w
      | .ok m => (∀ t ∈ queue, snap.count t = 0 → w.sidecar t ≠ some .torn) ∧
          Progress snap led w (told ∪ {t | t ∈ queue})
            (settledOf snap w (told ∪ {t | t ∈ queue})) m y)
      (reconcileEach led queue n) x := by
  induction queue generalizing told n x with
  | nil =>
      have none : told ∪ {t | t ∈ ([] : List String)} = told := by
        ext t
        simp
      exact ⟨nofun, none.symm ▸ progress⟩
  | cons txid queue ih =>
      obtain ⟨notAgain, once'⟩ := List.nodup_cons.1 once
      have first := queued txid (List.mem_cons_self ..)
      have unseen := new txid (List.mem_cons_self ..)
      have here := progress.left txid fun member => unseen member.1
      refine wp_bind.2 (wp_mono (wp_reconcileOne_settles progress first unseen here) ?_)
      rintro (error | changed) x' ends
      · exact ends
      obtain ⟨intact, progress'⟩ := ends
      rw [← settledOf_insert] at progress'
      have rest := ih progress' once' (fun t member => queued t (List.mem_cons_of_mem _ member)) ?_
      · refine wp_mono rest ?_
        have all : insert txid told ∪ {t | t ∈ queue} = told ∪ {t | t ∈ txid :: queue} := by
          ext t
          simp only [Set.mem_union, Set.mem_insert_iff, Set.mem_ofPred_eq, List.mem_cons]
          tauto
        rintro (error | m) y outcome
        · exact outcome
        · refine ⟨fun t member => ?_, all ▸ outcome.2⟩
          rcases List.mem_cons.1 member with rfl | later
          · exact intact
          · exact outcome.1 t later
      · rintro t member (rfl | isTold)
        · exact notAgain member
        · exact new t (List.mem_cons_of_mem _ member) isTold

/-- The sweep, of the names it was given. -/
theorem wp_sweep_settles {names : List String} (progress : Progress snap led w told gone n x)
    (all : ∀ t ∈ Ledger.pending (w.mem led), t ∈ told)
    (orphans : ∀ t ∈ names, t ∉ (w.mem led).filterMap Entry.sentTxid?) :
    wp (against host snap smooth) (Snapshot.Settles snap led w) (fun result y => match result with
      | .error _ => Excused snap smooth led w
      | .ok () => Progress snap led w told (gone ∪ {t | t ∈ names}) n y)
      (.forEach names fun txid => Ledger.removeSidecar txid .orphan) x := by
  induction names generalizing gone x with
  | nil => simpa using progress
  | cons txid names ih =>
      have promised : ∀ answer, Snapshot.Settles snap led w x (.removeSidecar txid .orphan) answer :=
        fun _ => ⟨progress.synced, .inr ⟨orphans txid (List.mem_cons_self ..),
          fun t member => progress.status t (all t member)⟩⟩
      refine wp_bind.2 ?_
      rintro (error | ⟨⟩) ⟨-, -, succeeds⟩ <;> refine ⟨promised _, ?_⟩
      · exact fun smooth => (succeeds smooth).elim
      have rest := ih (progress.drop txid) fun t member =>
        orphans t (List.mem_cons_of_mem _ member)
      refine bindPost_ok.2 (wp_mono rest ?_)
      have both : insert txid gone ∪ {t | t ∈ names} = gone ∪ {t | t ∈ txid :: names} := by
        ext t
        simp only [Set.mem_union, Set.mem_insert_iff, Set.mem_ofPred_eq, List.mem_cons]
        tauto
      rintro (error | ⟨⟩) y outcome
      · exact outcome
      · exact both ▸ outcome

/-- **The recovery loop against a snapshot.** -/
theorem wp_reconcile_settles :
    wp (against host snap smooth) (Snapshot.Settles snap led w) (fun result y => match result with
      | .error _ => Excused snap smooth led w
      | .ok n => Snapshot.Settled snap led w n y) (reconcile led) w := by
  refine wp_bind.2 fun es allowed => ⟨trivial, bindPost_ok.2 ?_⟩
  obtain rfl : es = w.mem led := allowed.1
  have nothing : settledOf snap w ∅ = ∅ := Set.eq_empty_of_forall_notMem fun _ member => member.1
  have start : Progress snap led w ∅ (settledOf snap w ∅) 0 w := by
    rw [nothing]
    exact Progress.start
  refine wp_bind.2 (wp_mono (wp_reconcileEach_settles start (Ledger.nodup_pending _)
    (fun _ => id) fun _ _ => id) ?_)
  rintro (error | m) x looped
  · exact looped
  obtain ⟨intact, progress⟩ := looped
  rw [Set.empty_union] at progress
  refine wp_bind.2 (wp_bind.2 fun es allowed => ⟨trivial, bindPost_ok.2 ?_⟩)
  obtain rfl : es = x.mem led := allowed.1
  refine wp_bind.2 ?_
  rintro (error | names) ⟨listed, -, succeeds⟩ <;> refine ⟨trivial, ?_⟩
  · exact fun smooth => (succeeds smooth).elim
  refine bindPost_ok.2 (wp_mono (wp_sweep_settles progress (fun _ => id) ?_) ?_)
  · intro t member
    rw [← progress.sent]
    simpa using (List.mem_filter.1 member).2
  rintro (error | ⟨⟩) y swept
  · exact swept
  refine ⟨⟨swept.updates, swept.status, swept.untold, fun t cleared => ?_, fun t spared => ?_⟩,
    intact⟩
  · rcases cleared with ⟨queued, settled⟩ | unsent
    · exact swept.dropped t (.inl ⟨queued, settled⟩)
    by_cases present : x.sidecar t = none
    · by_cases dropped : t ∈ settledOf snap w {t | t ∈ Ledger.pending (w.mem led)} ∪
          {t | t ∈ names.filter fun t => t ∉ (x.mem led).filterMap Entry.sentTxid?}
      · exact swept.dropped t dropped
      · rw [swept.left t dropped, ← progress.left t fun member => dropped (.inl member)]
        exact present
    · have isListed : t ∈ names := (listed t).2 (World.sidecar_isSome_iff.1 present)
      rw [← progress.sent] at unsent
      exact swept.dropped t (.inr (List.mem_filter.2 ⟨isListed, by simpa using unsent⟩))
  · refine swept.left t ?_
    rintro (settled | orphan)
    · exact spared (.inl settled)
    · have unsent := (List.mem_filter.1 orphan).2
      rw [progress.sent] at unsent
      exact spared (.inr (by simpa using unsent))

end Runs

/-! ## A second run -/

section Again

variable {snap : Snapshot} {led : Handle} {w w' : World} {n : ℕ}

/-- What is open after the run was open before it, and has not failed. -/
theorem Snapshot.Settled.pending (settled : Snapshot.Settled snap led w n w') {txid : String}
    (queued : txid ∈ Ledger.pending (w'.mem led)) :
    txid ∈ Ledger.pending (w.mem led) ∧ snap.target w txid ≠ .failed := by
  obtain ⟨us, mem, -, -, updates⟩ := settled.progress.onlyUpdates
  obtain ⟨recorded, notFinal, notFailed⟩ := Ledger.mem_pending_iff.1 queued
  rw [mem, hasTxid_updates updates] at recorded
  have before : txid ∈ Ledger.pending (w.mem led) := by
    by_contra closed
    have same := settled.progress.untold txid closed
    rw [same] at notFinal notFailed
    exact closed (Ledger.mem_pending_iff.2 ⟨recorded, notFinal, notFailed⟩)
  rw [settled.progress.status txid before] at notFailed
  exact ⟨before, fun failed => notFailed (congrArg some failed)⟩

theorem Snapshot.Settled.sidecar (settled : Snapshot.Settled snap led w n w') (txid : String) :
    w'.sidecar txid = w.sidecar txid ∨ w'.sidecar txid = none := by
  by_cases cleared : txid ∈ Snapshot.Cleared snap led w
  · exact .inr (settled.progress.dropped txid cleared)
  · exact .inl (settled.progress.left txid cleared)

/-- **A second run finds nothing to do.** -/
theorem Snapshot.Settled.again {n' : ℕ} {w'' : World} (settled : Snapshot.Settled snap led w n w')
    (second : Snapshot.Settled snap led w' n' w'') : n' = 0 ∧ w''.ledger = w'.ledger ∧
      w''.mem led = w'.mem led ∧ ∀ txid, w''.sidecar txid = w'.sidecar txid := by
  have known : ∀ txid ∈ Ledger.pending (w'.mem led), txid ∈ Ledger.pending (w.mem led) ∧
      snap.target w' txid = snap.target w txid := by
    intro txid queued
    obtain ⟨before, alive⟩ := settled.pending queued
    exact ⟨before, Snapshot.target_of_dropped alive (settled.sidecar txid)⟩
  obtain ⟨us, mem, ledger, length, each⟩ := second.progress.updates
  have none : us = [] := by
    refine List.eq_nil_iff_forall_not_mem.2 fun e member => ?_
    obtain ⟨seq, t, queued, -, differs⟩ := each e member
    obtain ⟨before, same⟩ := known t queued
    rw [same] at differs
    exact differs (settled.progress.status t before)
  subst none
  refine ⟨length.symm, by simpa using ledger, by simpa using mem, fun txid => ?_⟩
  by_cases cleared : txid ∈ Snapshot.Cleared snap led w'
  · rw [second.progress.dropped txid cleared]
    refine (settled.progress.dropped txid ?_).symm
    rcases cleared with ⟨queued, settles⟩ | unsent
    · obtain ⟨before, same⟩ := known txid queued
      exact .inl ⟨before, same ▸ settles⟩
    · rw [settled.progress.sent] at unsent
      exact .inr unsent
  · exact second.progress.left txid cleared

end Again

end ComputerMoney.Kernel

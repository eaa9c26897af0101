/-
# Safety.BirthAnchor -- a wallet anchored at birth misses no income

A payment to a code needs no one at the other end, so a new wallet may be paid long before its
first pass.  The checkpoint written at its birth is what makes that pass start low enough
(`born_wallet_scanned`): the passes that come, however late and whatever fails, leave on file
each payment of the blocks above the birth, in chain order.

Without it the first pass starts a fixed number of blocks below the tip it finds, and what was
paid below that is never read (`unanchored_income_missed`).  A checkpoint of which the write
left a part is worse: no pass returns any more (`wp_scanAfter_torn`), and no command of any
kind mends it or books income again (`torn_checkpoint_stays`).
-/
import ComputerMoney.Kernel.Birth
import ComputerMoney.Safety.Income

namespace ComputerMoney.Safety

set_option autoImplicit false

open Theory Theory.Program Kernel Income

namespace BirthAnchor

/-- What was printed last is the warning. -/
def Warned (past : List (Event sig)) : Prop :=
  ∃ e before, past = ⟨.eprintln (birthWarning e), ()⟩ :: before

/-- What the attempt leaves where there was no checkpoint: the tip it was shown, or else a
warning, and no checkpoint or a part of one. -/
structure Born (tip : ℕ) (s s' : Journal) : Prop where
  receipts : receipts s'.1.ledger = receipts s.1.ledger
  later : s.2.length ≤ s'.2.length
  checkpoint : s'.1.checkpoint = .scanned tip ∨
    (s'.1.checkpoint = .absent ∨ s'.1.checkpoint = .torn) ∧ Warned s'.2

section

variable {host : Host} {contents : String → List EsploraTx} {chain : ℕ → Best} {s : Journal}

/-- Without a directory there is a warning. -/
theorem wp_anchorBirth_lost {present : Bool} (error : Error) :
    wp (overChain host contents chain) (fun _ _ _ => True)
      (fun result s' => result = .ok () ∧ s'.1 = s.1 ∧ s.2.length ≤ s'.2.length ∧ Warned s'.2)
      (anchorBirth (.error error) present) s := by
  refine wp_bind.2 (wp_attempt.2 ?_)
  rintro ⟨⟩ -
  exact ⟨trivial, rfl, rfl, Nat.le_add_right _ 1, error, _, rfl⟩

/-- The disk may fail; the attempt does not. -/
theorem wp_anchorBirth {path : Except Error Unit} (new : s.1.checkpoint = .absent) :
    wp (overChain host contents chain) (fun _ _ _ => True)
      (fun result s' => result = .ok () ∧ Born (chain s.2.length).height s s')
      (anchorBirth path false) s := by
  rcases path with error | ⟨⟩
  · refine wp_mono (wp_anchorBirth_lost error) ?_
    rintro result s' ⟨returned, same, later, warned⟩
    exact ⟨returned, congrArg (receipts ·.ledger) same, later, .inr ⟨.inl (same ▸ new), warned⟩⟩
  refine wp_bind.2 (wp_attempt.2 (wp_bind.2 ?_))
  rintro (error | tip) allowed <;> refine ⟨trivial, ?_⟩
  · rintro ⟨⟩ -
    exact ⟨trivial, rfl, rfl, Nat.le_add_right _ 2, .inr ⟨.inl new, error, _, rfl⟩⟩
  · obtain rfl : tip = (chain s.2.length).height := allowed.2
    rintro (_ | error | error) - <;> refine ⟨trivial, ?_⟩
    · exact ⟨rfl, rfl, Nat.le_add_right _ 2, .inl rfl⟩
    · rintro ⟨⟩ -
      exact ⟨trivial, rfl, rfl, Nat.le_add_right _ 3, .inr ⟨.inl new, error, _, rfl⟩⟩
    · rintro ⟨⟩ -
      exact ⟨trivial, rfl, rfl, Nat.le_add_right _ 3, .inr ⟨.inr rfl, error, _, rfl⟩⟩

end

/-! ## A torn checkpoint -/

section Torn

variable {host : Host} {led : Handle} {pages : ℕ} {before : List Receipt} {w : World}

/-- The checkpoint cannot be read. -/
def Unreadable : (op : Op) → op.Ans → Prop
  | .loadCheckpoint, .ok _ => False
  | _, _ => True

/-- Then a pass comes to nothing. -/
theorem vouched_scanToTip_unreadable :
    (scanToTip host led pages).Vouched Unreadable Op.scanless := by
  refine vouched_bind ⟨trivial, fun _ _ => trivial⟩ fun _ => vouched_bind (vouched_attempt ?_)
    fun _ => vouched_bind ⟨trivial, fun _ _ => trivial⟩ fun _ => within_ofExcept.vouched
  refine vouched_bind within_ofExcept.vouched fun _ => vouched_bind within_ofExcept.vouched
    fun _ => ?_
  refine vouched_bind ⟨trivial, fun _ _ => within_ofExcept.vouched⟩ fun tip => ?_
  refine ⟨trivial, fun answer heard => ?_⟩
  rcases answer with error | found
  · trivial
  · exact heard.elim

theorem vouched_errands_unreadable {es : List Errand} :
    (errands host es led).Vouched Unreadable Op.scanless := by
  induction es generalizing led with
  | nil => trivial
  | cons errand es ih =>
      refine vouched_bind ?_ fun _ => ih
      cases errand with
      | scan pages =>
          exact vouched_bind (vouched_attempt vouched_scanToTip_unreadable) fun _ => trivial
      | reconcile =>
          refine vouched_of_scanless (fun _ => id) (within_bind ?_ fun _ => trivial)
          exact within_attempt scanless_reconcile
      | reopen =>
          refine vouched_bind (vouched_attempt ⟨trivial, fun _ _ => within_ofExcept.vouched⟩)
            fun opened => ?_
          cases opened <;> trivial

/-- The checkpoint of the directory is torn, and these are the receipts on file. -/
structure TornFor (before : List Receipt) (w : World) : Prop where
  checkpoint : w.checkpoint = .torn
  receipts : receipts w.ledger = before

theorem TornFor.unreadable {op : Op} {answer : sig.Ans op} (ended : TornFor before w)
    (allowed : (interp host).allowed w op answer) : Unreadable op answer := by
  cases op with
  | loadCheckpoint =>
      rcases answer with error | found
      · trivial
      have holds : World.allows host w .loadCheckpoint (.ok found) := allowed
      rcases found with _ | scanned
      · cases ended.checkpoint.symm.trans holds
      · cases ended.checkpoint.symm.trans holds
  | _ => trivial

theorem TornFor.after {op : Op} {answer : sig.Ans op} (ended : TornFor before w)
    (scanless : Op.scanless op) : TornFor before (w.after op answer) := by
  cases op with
  | append led e =>
      have same : Kernel.receipts (w.ledger ++ [e]) = before := by
        rw [receipts_append, show receipt? e = none from scanless, ended.receipts]
        exact List.append_nil _
      cases answer with
      | ok => exact ⟨ended.checkpoint, same⟩
      | lost error => exact ended
      | kept error => exact ⟨ended.checkpoint, same⟩
  | saveCheckpoint height => exact scanless.elim
  | _ =>
      have ledger := w.after_ledger answer nofun
      have checkpoint := w.after_checkpoint answer nofun
      exact ⟨checkpoint.trans ended.checkpoint, ledger ▸ ended.receipts⟩

end Torn

section Passes

variable {host : Host} {contents : String → List EsploraTx} {hash : ℕ → String} {height : ℕ → ℕ}
  {led : Handle} {s : Journal} {pages : ℕ}

/-- There is no report. -/
def Unreported (result : Except Error ScanReport) (_ : Journal) : Prop :=
  ∀ report, result ≠ .ok report

theorem wp_scanPass_torn (torn : s.1.checkpoint = .torn) :
    wp (growing host contents hash height) (fun _ _ _ => True) Unreported
      (scanPass host led pages) s := by
  refine wp_bind.2 (wp_ofExcept.2 ?_)
  rcases host.spScanKeypair with error | ⟨⟩
  · exact nofun
  refine wp_bind.2 (wp_ofExcept.2 ?_)
  rcases host.spSpendKeypair with error | ⟨⟩
  · exact nofun
  refine wp_bind.2 ?_
  rintro (error | tip) - <;> refine ⟨trivial, ?_⟩
  · exact nofun
  refine bindPost_ok.2 (wp_bind.2 ?_)
  rintro (error | found) allowed <;> refine ⟨trivial, ?_⟩
  · exact nofun
  have ended : TornFor (receipts s.1.ledger) s.1 := ⟨torn, rfl⟩
  exact (ended.unreadable allowed.1).elim

theorem wp_scanToTip_torn (torn : s.1.checkpoint = .torn) :
    wp (growing host contents hash height) (fun _ _ _ => True) Unreported
      (scanToTip host led pages) s := by
  refine wp_bind.2 fun _ _ => ⟨trivial, bindPost_ok.2 ?_⟩
  refine wp_bind.2 (wp_attempt.2 (wp_mono (wp_scanPass_torn torn) ?_))
  intro outcome s₁ unreported
  exact wp_bind.2 fun _ _ => ⟨trivial, bindPost_ok.2 (wp_ofExcept.2 unreported)⟩

/-- **A torn checkpoint ends scanning.** -/
theorem wp_scanAfter_torn {before : List Errand} (torn : s.1.checkpoint = .torn) :
    wp (growing host contents hash height) (fun _ _ _ => True) Unreported
      (scanAfter host before pages) s := by
  refine wp_bind.2 ?_
  rintro (error | led) - <;> refine ⟨trivial, ?_⟩
  · exact nofun
  have start : TornFor (receipts s.1.ledger) (s.1.load led) := ⟨torn, rfl⟩
  refine bindPost_ok.2 (wp_bind.2 (wp_mono (@Vouched.keeps sig Journal Error Handle Unreadable
    Op.scanless (growing host contents hash height) (fun s' => TornFor (receipts s.1.ledger) s'.1)
    (errands host before led) _ start vouched_errands_unreadable
    (fun _ _ _ ended allowed => ended.unreadable allowed.1)
    fun _ _ _ _ scanless ended => ended.after scanless) ?_))
  rintro (error | led') s₁ ended
  · exact nofun
  · exact wp_scanToTip_torn ended.checkpoint

end Passes

end BirthAnchor

open BirthAnchor

/-- **A torn checkpoint ends income.**  Whatever commands act on the directory, in any
interleaving and whatever they are answered, the checkpoint stays torn, and no receipt of a
silent payment is booked again. -/
theorem torn_checkpoint_stays (host : Host) (cond : Guarantee sig Directory)
    (commands : List Command) (pool : Pool sig Kernel.Error Unit) (s s' : Directory)
    (torn : s.1.checkpoint = .torn)
    (steps : Relation.ReflTransGen (Pool.Step (threads host cond))
      (commands.map (Command.perform host), s) (pool, s')) :
    s'.1.checkpoint = .torn ∧ receipts s'.1.ledger = receipts s.1.ledger := by
  have start : TornFor (receipts s.1.ledger) s.1 := ⟨torn, rfl⟩
  have ended : TornFor (receipts s.1.ledger) s'.1 := by
    refine @Pool.vouched sig Directory Kernel.Error Unit Unreadable Op.scanless
      (threads host cond) (fun x => TornFor (receipts s.1.ledger) x.1) _ _ _ _ start ?_ ?_ ?_ steps
    · intro p member
      obtain ⟨command, -, rfl⟩ := List.mem_map.1 member
      exact vouched_command (fun _ => id) (fun _ _ => vouched_scanToTip_unreadable) command
    · exact fun _ _ _ _ ended allowed => ended.unreadable allowed.1
    · exact fun _ _ _ _ _ scanless ended => ended.after scanless
  exact ⟨ended.checkpoint, ended.receipts⟩

/-- The request that books 5000 sats in a new directory books nothing here. -/
theorem torn_checkpoint_stays_seven :
    receipts (sevenAsks .absent).2.1.ledger ≠ [] ∧ receipts (sevenAsks .torn).2.1.ledger = [] :=
  ⟨by decide +kernel, (torn_checkpoint_stays sevenHost _ [.balance 1] (sevenAsks .torn).1
    ({ World.blank with checkpoint := .torn }, []) (sevenAsks .torn).2 rfl
    (sevenAsks_steps .torn)).2⟩

/-- **A wallet anchored at birth misses no income.**  Setup never clobbers a checkpoint, and
never fails for want of one.  Where it wrote one for a new wallet, any later pass that returns,
whatever failed in between (but no append that leaves its line says that it failed) and however
far the chain has grown, leaves on file what was there and each payment of the blocks above the
tip of the birth once, in chain order.  Where it did not and a pass still returns, it has warned
and there is no checkpoint. -/
theorem born_wallet_scanned (host : Host) (contents : String → List EsploraTx) (hash : ℕ → String)
    (height : ℕ → ℕ) (rises : Monotone height) (path : Except Error Unit) (s s' : Journal)
    (result : Except Error Unit)
    (birth : Exec (overChain host contents fun i => ⟨height i, hash⟩)
      (anchorBirth path (decide (s.1.checkpoint ≠ .absent))) s result s') :
    result = .ok () ∧ (s.1.checkpoint ≠ .absent → s'.1 = s.1 ∧ (s' = s ∨ Warned s'.2)) ∧
    (s.1.checkpoint = .absent → ∀ before pages report s'',
      Exec (growing host contents hash height) (scanAfter host before pages) s' (.ok report) s'' →
      receipts s''.1.ledger = enrolAll Receipt.outpoint (receipts s.1.ledger)
          (paidUpTo host contents hash (height s.2.length) report.toHeight) ∨
        s'.1.checkpoint = .absent ∧ Warned s'.2) := by
  by_cases new : s.1.checkpoint = .absent
  · rw [decide_eq_false (not_not_intro new)] at birth
    obtain ⟨returned, born⟩ := wp_exec (wp_anchorBirth new) birth
    refine ⟨returned, fun old => absurd new old, fun _ before pages report s'' later => ?_⟩
    rcases born.checkpoint with anchored | ⟨none_ | torn, warned⟩
    · left
      rw [← born.receipts]
      exact receipts_scanAfter rises anchored (rises born.later) later
    · exact .inr ⟨none_, warned⟩
    · exact absurd rfl (wp_exec (wp_scanAfter_torn torn) later report)
  · rw [decide_eq_true new] at birth
    rcases path with error | ⟨⟩
    · obtain ⟨returned, same, -, warned⟩ := wp_exec (wp_anchorBirth_lost error) birth
      exact ⟨returned, fun _ => ⟨same, .inr warned⟩, fun absent => absurd absent new⟩
    · cases birth
      exact ⟨rfl, fun _ => ⟨rfl, .inl rfl⟩, fun absent => absurd absent new⟩

/-! ## Born at block 99, scanned at block 245 -/

namespace BirthAnchor

/-- The chain while the wallet is born, and when it first scans. -/
def offline (calls : ℕ) : ℕ := if calls < 2 then 99 else 245

theorem offline_rises : Monotone offline := by
  intro m n le
  unfold offline
  split <;> split <;> omega

def birthRun (fails : List ℕ) : Except Error Unit × Journal :=
  run (passHandle offline fails) (anchorBirth (.ok ()) false) (World.blank, [])

/-- The first pass. -/
def firstRun (fails : List ℕ) : Except Error ScanReport × Journal :=
  run (passHandle offline fails) (scanAfter paidHost [] 1) (birthRun fails).2

theorem exec_birthRun (fails : List ℕ) :
    Exec (overChain paidHost blockPage fun i => ⟨offline i, blockName⟩)
      (anchorBirth (.ok ()) false) (World.blank, []) (birthRun fails).1 (birthRun fails).2 := by
  refine run_exec id _ _ (fun op s => ?_) fun _ _ => rfl
  obtain ⟨allowed, served, -⟩ := passAnswer_served offline fails op s
  exact ⟨allowed, served⟩

theorem exec_firstRun (fails : List ℕ) :
    Exec (growing paidHost blockPage blockName offline) (scanAfter paidHost [] 1)
      (birthRun fails).2 (firstRun fails).1 (firstRun fails).2 := by
  refine run_exec id _ _ (fun op s => ?_) fun _ _ => rfl
  obtain ⟨allowed, served, holds⟩ := passAnswer_served offline fails op s
  exact ⟨allowed, served, holds, trivial⟩

/-- Not anchored, since the tip was not to be had: the first pass starts above the payment. -/
theorem unanchored_income_missed :
    Warned (birthRun [0]).2.2 ∧ (firstRun [0]).1 = .ok ⟨101, 245, []⟩ ∧
      receipts (firstRun [0]).2.1.ledger = [] :=
  ⟨⟨_, _, rfl⟩, by decide +kernel, by decide +kernel⟩

end BirthAnchor

/-- The payment in block 100 is found 145 blocks later. -/
theorem born_wallet_scanned_offline :
    receipts (firstRun []).2.1.ledger = [⟨sampleTxid, 0, 5000, "07"⟩] ∧
      receipts (firstRun []).2.1.ledger =
        enrolAll Receipt.outpoint [] (paidUpTo paidHost blockPage blockName 99 245) := by
  obtain ⟨reported, anchored, booked⟩ : (firstRun []).1 = .ok ⟨100, 245, [⟨sampleTxid, 0, 5000⟩]⟩ ∧
      (birthRun []).2.1.checkpoint = .scanned 99 ∧
      receipts (firstRun []).2.1.ledger = [⟨sampleTxid, 0, 5000, "07"⟩] := by decide +kernel
  have later := exec_firstRun []
  rw [reported] at later
  refine ⟨booked, ?_⟩
  rcases (born_wallet_scanned paidHost blockPage blockName offline offline_rises (.ok ())
    (World.blank, []) _ _ (exec_birthRun [])).2.2 rfl _ _ _ _ later with complete | ⟨absent, -⟩
  · exact complete
  · cases anchored.symm.trans absent

end ComputerMoney.Safety

/-
# Safety.FailedIsDead -- when a failed payment can never confirm

The recovery loop marks a payment failed when the network refuses its transaction for
good, and never looks at it again; from then on the balance no longer debits it.  What it
takes for a refusal for good is an error text of one moment.  A conflict with another
unconfirmed transaction is one, though that transaction may be evicted and ours confirm;
so is a missing input, which may appear; and so is a spent input, when the transaction
that spent it is our own, confirmed since the count, or is taken back by a reorganisation.

`failed_is_dead` is about every run of sends and reconciles, with crashes, while the chain
and the mempool move in any way between any two calls, reorganisations included: if every
refusal the loop acts on comes when an input is spent by another confirmed transaction, and
no reorganisation frees the inputs again (`Justified`, `Moves.DeadForGood`), a failed
payment never confirms.
-/
import ComputerMoney.Kernel.Commands
import ComputerMoney.Kernel.Scan
import ComputerMoney.Kernel.View
import ComputerMoney.Safety.WriteAhead

namespace ComputerMoney.Safety

set_option autoImplicit false

open Theory Theory.Program Kernel

/-! ## The network -/

/-- What the nodes have, by txid: the transactions of each block of the chain, and the
mempool. -/
structure Nodes where
  blocks : List (List String)
  mempool : List String

def Nodes.confirmed (nodes : Nodes) : List String := nodes.blocks.flatten

/-- The number of blocks from the transaction's own on; none if it is in no block. -/
def Nodes.confs (nodes : Nodes) (txid : String) : ℕ :=
  (nodes.blocks.dropWhile fun block => !block.contains txid).length

section Network

variable (inputsOf : String → List OutPoint)

/-- An input is created by no transaction the nodes have. -/
def Nodes.absent (nodes : Nodes) (txid : String) : Bool :=
  (inputsOf txid).any fun o => !nodes.confirmed.contains o.1 && !nodes.mempool.contains o.1

/-- An input is spent on chain, by whatever transaction. -/
def Nodes.spent (nodes : Nodes) (txid : String) : Bool :=
  (inputsOf txid).any fun o => nodes.confirmed.any fun t => (inputsOf t).contains o

/-- Another unconfirmed transaction spends an input. -/
def Nodes.conflicted (nodes : Nodes) (txid : String) : Bool :=
  (inputsOf txid).any fun o => nodes.mempool.any fun t => t != txid && (inputsOf t).contains o

/-- What a node says of a transaction handed to it. -/
def Nodes.verdict (nodes : Nodes) (txid : String) : Except Error Unit :=
  if nodes.absent inputsOf txid || nodes.spent inputsOf txid then
    .error "bad-txns-inputs-missingorspent"
  else if nodes.conflicted inputsOf txid then .error "txn-mempool-conflict"
  else .ok ()

/-- A transaction spends the output, confirmed or not. -/
def Nodes.taken (nodes : Nodes) (o : OutPoint) : Bool :=
  (nodes.confirmed ++ nodes.mempool).any fun t => (inputsOf t).contains o

/-- What is answered while the nodes have this: the verdict, or an error that is none; the
count; whether an output is taken.  A txid names its inputs. -/
def Nodes.answers (nodes : Nodes) : (op : Op) → op.Ans → Prop
  | .finishPsbt _, .ok psbt => psbt.inputs = inputsOf psbt.txid
  | .broadcast tx, answer => answer = nodes.verdict inputsOf tx.txid ∨
      ∃ msg, answer = .error msg ∧ isHardRejection msg = false
  | .confirmations txid, .ok confs => confs = nodes.confs txid
  | .outspend txid vout, .ok spent => spent = nodes.taken inputsOf (txid, vout)
  | _, _ => True

/-- How the network moves: after each number of calls, what the nodes have.  No chain spends
an output twice; otherwise chain and mempool change in any way. -/
structure Moves where
  nodes : ℕ → Nodes
  consistent : ∀ i, ∀ t ∈ (nodes i).confirmed, ∀ t' ∈ (nodes i).confirmed, ∀ o ∈ inputsOf t,
    o ∈ inputsOf t' → t = t'

/-- Moves without reorganisations: the chain only grows. -/
structure History extends Moves inputsOf where
  grows : ∀ i, (nodes i).blocks <+: (nodes (i + 1)).blocks

/-- An input is spent by another confirmed transaction. -/
def Nodes.Dead (nodes : Nodes) (txid : String) : Prop :=
  ∃ o ∈ inputsOf txid, ∃ t ∈ nodes.confirmed, t ≠ txid ∧ o ∈ inputsOf t

variable {inputsOf} {moves : Moves inputsOf} {history : History inputsOf}

/-- An input is spent by another confirmed transaction, and no later move of the network
frees the inputs again. -/
structure Moves.DeadForGood (moves : Moves inputsOf) (i : ℕ) (txid : String) : Prop where
  dead : (moves.nodes i).Dead inputsOf txid
  stays : ∀ j, i ≤ j → (moves.nodes j).Dead inputsOf txid →
    (moves.nodes (j + 1)).Dead inputsOf txid

/-- What is confirmed stays so. -/
theorem History.confirmed_later {i j : ℕ} (later : i ≤ j) :
    (history.nodes i).confirmed ⊆ (history.nodes j).confirmed := by
  induction later with
  | refl => exact List.Subset.refl _
  | @step j _ ih =>
      intro t member
      obtain ⟨block, inChain, inBlock⟩ := List.mem_flatten.1 (ih member)
      exact List.mem_flatten.2 ⟨block, (history.grows j).subset inChain, inBlock⟩

theorem Moves.DeadForGood.later {i j : ℕ} {txid : String} (dead : moves.DeadForGood i txid)
    (later : i ≤ j) : moves.DeadForGood j txid := by
  refine ⟨?_, fun k upTo => dead.stays k (later.trans upTo)⟩
  induction later with
  | refl => exact dead.dead
  | @step j upTo ih => exact dead.stays j upTo ih

/-- What is dead for good is not confirmed, nor will be. -/
theorem Moves.DeadForGood.unconfirmed {i j : ℕ} {txid : String}
    (dead : moves.DeadForGood i txid) (later : i ≤ j) : txid ∉ (moves.nodes j).confirmed := by
  intro confirmed
  obtain ⟨o, input, t, confirmed', other, spends⟩ := (dead.later later).dead
  exact other (moves.consistent j t confirmed' txid confirmed o spends input)

/-- Without reorganisations, what is dead is dead for good. -/
theorem History.deadForGood {i : ℕ} {txid : String}
    (dead : (history.nodes i).Dead inputsOf txid) :
    history.toMoves.DeadForGood i txid := by
  refine ⟨dead, fun j _ ⟨o, input, t, confirmed, other, spends⟩ => ?_⟩
  exact ⟨o, input, t, history.confirmed_later (Nat.le_succ j) confirmed, other, spends⟩

end Network

/-! ## The runs -/

/-- A send or a reconcile, or a pass over the chain. -/
inductive Chore where
  | task (t : Task)
  | scan (pages : ℕ)

def Chore.perform (host : Host) (led : Handle) : Chore → Prog Unit
  | .task t => t.perform host led
  | .scan pages => do
      let _ ← (scanToTip host led pages).attempt

/-- One lifetime: open the ledger, then one chore after another. -/
def chores (host : Host) (todo : List Chore) : Prog Unit := do
  let led ← Ledger.openWithIdentity
  .forEach todo fun chore => chore.perform host led

/-- The host facing a network that moves. -/
def facing (host : Host) {inputsOf : String → List OutPoint} (moves : Moves inputsOf)
    (cond : Guarantee sig Journal) : Interp sig Journal :=
  (interp host).recorded.restrict fun s op answer =>
    (moves.nodes s.2.length).answers inputsOf op answer ∧ cond s op answer

/-- A crash; the network and what was said are as they were. -/
def crashed (s : Journal) : Journal := (s.1.crash, s.2)

/-- The condition on a run: what was just read from a sidecar is refused for good only when
it is `gone`, which it is at a number of calls. -/
def Justified (gone : ℕ → String → Prop) : Guarantee sig Journal
  | s, .broadcast tx, .error error => ∀ txid rest,
      s.2 = ⟨.readSidecar txid, .ok (some (.hex tx))⟩ :: rest → isHardRejection error = true →
        gone s.2.length tx.txid
  | _, _, _ => True

/-! ## The invariant -/

/-- A sidecar is named after its transaction, on disk and when it was read; and what was
refused after it was read, and what is failed on file, is gone. -/
structure FailsGone (gone : ℕ → String → Prop) (s : Journal) : Prop where
  named : ∀ txid tx, s.1.sidecar txid = some (.hex tx) → tx.txid = txid
  read : ∀ txid tx, ⟨.readSidecar txid, .ok (some (.hex tx))⟩ ∈ s.2 → tx.txid = txid
  refused : ∀ txid tx error rest, isHardRejection error = true →
    (⟨.broadcast tx, .error error⟩ :: ⟨.readSidecar txid, .ok (some (.hex tx))⟩ :: rest :
      List (Event sig)) <:+ s.2 → gone s.2.length tx.txid
  failed : ∀ e ∈ s.1.ledger, ∀ txid, e.status? = some (txid, .failed) → gone s.2.length txid

/-- The promise of each call. -/
def FailsOnlyGone (gone : ℕ → String → Prop) : Guarantee sig Journal
  | _, .writeSidecar txid tx, _ => tx.txid = txid
  | s, .append _ e, _ => ∀ txid, e.status? = some (txid, .failed) → gone s.2.length txid
  | _, _, _ => True

section Invariant

variable {host : Host} {inputsOf : String → List OutPoint} {moves : Moves inputsOf}
  {gone : ℕ → String → Prop} {led : Handle} {s : Journal}

/-- The sidecars after a call that honours the promise. -/
theorem FailsGone.named_after {op : Op} {answer : sig.Ans op} (inv : FailsGone gone s)
    (promised : FailsOnlyGone gone s op answer) (txid : String) (tx : Tx)
    (has : (s.1.after op answer).sidecar txid = some (.hex tx)) : tx.txid = txid := by
  have put : ∀ t contents, (∀ tx', contents = .hex tx' → tx'.txid = t) →
      (s.1.putSidecar t contents).sidecar txid = some (.hex tx) → tx.txid = txid := by
    intro t contents names has
    rcases eq_or_ne txid t with rfl | other
    · rw [World.sidecar_putSidecar] at has
      exact names tx (Option.some.inj has)
    · rw [World.sidecar_putSidecar_of_ne _ _ other] at has
      exact inv.named txid tx has
  cases op with
  | writeSidecar t tx' =>
      cases answer with
      | ok => exact put t _ (fun _ is => Sidecar.hex.inj is ▸ promised) has
      | lost error => exact inv.named txid tx has
      | torn error => exact put t _ (fun _ is => Sidecar.noConfusion is) has
  | removeSidecar t why =>
      rcases answer with error | ⟨⟩
      · exact inv.named txid tx has
      rcases eq_or_ne txid t with rfl | other
      · have gone : (s.1.dropSidecar txid).sidecar txid = some (.hex tx) := has
        rw [World.sidecar_dropSidecar] at gone
        cases gone
      · have still : (s.1.dropSidecar t).sidecar txid = some (.hex tx) := has
        rw [World.sidecar_dropSidecar_of_ne _ other] at still
        exact inv.named txid tx still
  | _ =>
      have same := s.1.after_sidecars answer nofun nofun
      exact inv.named txid tx ((congrArg (List.lookup txid) same).symm.trans has)

variable (lasts : ∀ i txid, gone i txid → gone (i + 1) txid)

include lasts

/-- **Every call keeps the invariant.** -/
theorem keeps_failsGone :
    Keeps (facing host moves (Justified gone)) (FailsOnlyGone gone)
      (FailsGone gone) := by
  rintro s op answer ⟨allowed, -, justified⟩ promised inv
  have later : ∀ {txid}, gone s.2.length txid → gone (s.2.length + 1) txid := lasts _ _
  refine ⟨inv.named_after promised, fun txid tx member => ?_, fun txid tx error rest hard end_ => ?_,
    fun e member txid is => later ?_⟩
  · rcases List.mem_cons.1 member with new | before
    · cases new
      exact inv.named txid tx (Eq.symm allowed)
    · exact inv.read txid tx before
  · rcases List.suffix_cons_iff.1 end_ with whole | before
    · obtain ⟨new, past⟩ := List.cons.inj whole
      cases new
      exact later (justified txid rest past.symm hard)
    · exact later (inv.refused txid tx error rest hard before)
  · cases op with
    | append led e' =>
        have grown : e ∈ s.1.ledger ++ [e'] → gone s.2.length txid := by
          intro member
          rcases List.mem_append.1 member with before | new
          · exact inv.failed e before txid is
          · obtain rfl := List.mem_singleton.1 new
            exact promised txid is
        cases answer with
        | ok => exact grown member
        | lost error => exact inv.failed e member txid is
        | kept error => exact grown member
    | _ =>
        have same := s.1.after_ledger answer nofun
        exact inv.failed e (same ▸ member) txid is

/-! ## The tasks keep the promise -/

/-- The calls of a send: it stages transactions under their own names and fails none. -/
def Op.failsNone : Op → Prop
  | .writeSidecar txid tx => tx.txid = txid
  | .append _ e => ∀ txid, e.status? ≠ some (txid, .failed)
  | _ => True

/-- An open instance, and the invariant. -/
def OpenFailsGone (gone : ℕ → String → Prop) (led : Handle) (s : Journal) : Prop :=
  led < s.1.fresh ∧ FailsGone gone s

theorem keeps_openFailsGone :
    Keeps (facing host moves (Justified gone)) (FailsOnlyGone gone)
      (OpenFailsGone gone led) := by
  intro s op answer allowed promised inv
  obtain ⟨-, isOpen, -⟩ := World.after_view inv.1 allowed.1
  exact ⟨isOpen, keeps_failsGone lasts s op answer allowed promised inv.2⟩

theorem wp_failsNone {α : Type} {p : Prog α} (body : p.Within Op.failsNone)
    (inv : OpenFailsGone gone led s) :
    wp (facing host moves (Justified gone)) (FailsOnlyGone gone)
      (fun _ s' => OpenFailsGone gone led s') p s := by
  refine wp_invariant (keeps_openFailsGone lasts) (body.mono fun op none s answer _ _ => ?_) inv
  cases op with
  | writeSidecar txid tx => exact none
  | append led e => exact fun txid is => absurd is (none txid)
  | _ => trivial

/-- The recovery loop fails what was refused, and only that. -/
theorem wp_reconcile_failsGone (inv : OpenFailsGone gone led s) :
    wp (facing host moves (Justified gone)) (FailsOnlyGone gone)
      (fun _ s' => OpenFailsGone gone led s') (reconcile led) s := by
  have step : ∀ (s : Journal) (v : View) (op : Op) (answer : op.Ans),
      (OpenFailsGone gone led s ∧ v = (s.1.mem led, s.2)) →
      (facing host moves (Justified gone)).allowed s op answer →
        (view led).allowed v op answer ∧ (Reconciles led v op answer →
          FailsOnlyGone gone s op answer ∧
            (OpenFailsGone gone led ((facing host moves (Justified gone)).next s op answer) ∧
              (view led).next v op answer =
                ((s.1.after op answer).mem led, ⟨op, answer⟩ :: s.2))) := by
    rintro s v op answer ⟨inv, rfl⟩ allowed
    obtain ⟨seen, -, grown⟩ := World.after_view inv.1 allowed.1
    refine ⟨seen, fun knows => ?_⟩
    have promised : FailsOnlyGone gone s op answer := by
      cases op with
      | append led' e =>
          cases e with
          | statusUpdate seq txid status =>
              intro t is
              cases is
              obtain ⟨-, -, -, ⟨-, past, read, tx, error, rest, hard, refused⟩ | ⟨confs, -, is, -⟩⟩ :=
                knows
              · have ends : (⟨.broadcast tx, .error error⟩ ::
                    ⟨.readSidecar txid, .ok (some (.hex tx))⟩ ::
                      ⟨.confirmations txid, .ok 0⟩ :: rest : List (Event sig)) <:+ s.2 :=
                  ⟨[⟨.entries led, s.1.mem led⟩], by rw [← refused]; exact read.symm⟩
                have dead := inv.2.refused txid tx error _ hard ends
                rwa [inv.2.read txid tx (ends.subset (by simp))] at dead
              · match confs with
                | 0 | 1 | 2 | _ + 3 => cases is
          | _ => exact knows.elim
      | writeSidecar txid tx => exact knows.elim
      | _ => trivial
    refine ⟨promised, keeps_openFailsGone lasts s op answer allowed promised inv, ?_⟩
    exact Prod.ext grown.symm rfl
  refine wp_mono (wp_simulates ⟨inv, rfl⟩ step wp_reconcile_view) ?_
  rintro result s' ⟨v, ⟨inv', -⟩, -⟩
  exact inv'

theorem wp_task_failsGone (task : Task) (inv : OpenFailsGone gone led s) :
    wp (facing host moves (Justified gone)) (FailsOnlyGone gone)
      (fun _ s' => OpenFailsGone gone led s') (task.perform host led) s := by
  have pending : ∀ seq t sats payee now, Op.failsNone
      (.append led (.sent seq t sats payee .pending now)) := by
    intro seq t sats payee now txid is
    cases is
  cases task with
  | send payee sats maxFeeSats =>
      refine wp_failsNone lasts (within_bind (within_attempt ?_) fun _ => trivial) inv
      exact within_send trivial trivial (fun _ => trivial) (fun _ => trivial) trivial trivial
        (fun _ => rfl) pending fun _ => trivial
  | spSend code sats maxFeeSats =>
      refine wp_failsNone lasts (within_bind (within_attempt ?_) fun _ => trivial) inv
      exact within_spSend trivial trivial (fun _ => trivial) (fun _ => trivial) trivial trivial
        (fun _ => rfl) pending (fun _ => trivial) fun _ _ _ => nofun
  | sendSpendingSp payee sats maxFeeSats =>
      refine wp_failsNone lasts (within_bind (within_attempt ?_) fun _ => trivial) inv
      exact within_sendSpendingSp trivial trivial (fun _ => trivial) (fun _ => trivial) trivial
        trivial (fun _ => rfl) pending (fun _ => trivial) fun _ _ _ => nofun
  | reconcile =>
      exact wp_bind.2 (wp_attempt.2 (wp_mono (wp_reconcile_failsGone lasts inv) fun _ _ inv' => inv'))

theorem wp_chore_failsGone (chore : Chore) (inv : OpenFailsGone gone led s) :
    wp (facing host moves (Justified gone)) (FailsOnlyGone gone)
      (fun _ s' => OpenFailsGone gone led s') (chore.perform host led) s := by
  cases chore with
  | task task => exact wp_task_failsGone lasts task inv
  | scan pages =>
      refine wp_failsNone lasts (within_bind (within_attempt ?_) fun _ => trivial) inv
      refine (within_scanToTip pages).mono fun op scans => ?_
      cases op with
      | append led' e =>
          cases e with
          | spReceived seq t vout sats tweak status =>
              intro txid is
              obtain ⟨-, rfl⟩ := Prod.mk.inj (Option.some.inj is)
              exact scans.elim
          | spSpent seq t vout => exact fun _ => nofun
          | _ => exact scans.elim
      | writeSidecar txid tx => exact scans.elim
      | _ => trivial

theorem wp_chores_failsGone (todo : List Chore) (inv : FailsGone gone s) :
    wp (facing host moves (Justified gone)) (FailsOnlyGone gone) (fun _ _ => True)
      (chores host todo) s := by
  refine wp_bind.2 ?_
  rintro (error | led) allowed <;> refine ⟨trivial, ?_⟩
  · trivial
  have inv' := keeps_failsGone lasts s .openLedger (.ok led) allowed trivial inv
  obtain rfl : led = s.1.fresh := allowed.1
  refine bindPost_ok.2 (wp_forEach (J := OpenFailsGone gone s.1.fresh)
    ⟨Nat.lt_succ_self _, inv'⟩ (fun chore _ s' inv => ?_) fun _ _ => trivial)
  refine wp_mono (wp_chore_failsGone lasts chore inv) ?_
  rintro (error | ⟨⟩) s'' inv''
  · trivial
  · exact inv''

/-- **What is failed is gone**, in every state of every run whose refusals are
justified. -/
theorem Reachable.failsGone
    (reached : Reachable (facing host moves (Justified gone)) (chores host) crashed
      (World.blank, []) s) : FailsGone gone s := by
  have blank : FailsGone gone (World.blank, []) :=
    ⟨nofun, nofun, fun _ _ _ _ _ ends => absurd (List.suffix_nil.1 ends) nofun, nofun⟩
  have survives : ∀ s, FailsGone gone s → FailsGone gone (crashed s) :=
    fun s inv => ⟨inv.named, inv.read, inv.refused, inv.failed⟩
  exact reached.inv blank (keeps_failsGone lasts) survives fun todo s inv =>
    wp_chores_failsGone lasts todo inv

end Invariant

/-! ## Whole runs -/

/-- **Failed means dead, where the refusals are justified.**  In every state that sends,
scans and reconciles reach from an empty directory, with any answers, crashes, and any moves
of the network in between, reorganisations included, provided each refusal the loop acts on
comes when an input is spent by another confirmed transaction, and no reorganisation frees
the inputs later: a payment whose status is failed is not confirmed then or at any time
after, and the balance debits every send that is confirmed. -/
theorem failed_is_dead (host : Host) (inputsOf : String → List OutPoint)
    (moves : Moves inputsOf) (s : Journal)
    (reached : Reachable (facing host moves (Justified moves.DeadForGood)) (chores host) crashed
      (World.blank, []) s) :
    (∀ txid, Ledger.latestStatus s.1.ledger txid = some .failed →
      ∀ i, s.2.length ≤ i → txid ∉ (moves.nodes i).confirmed) ∧
    ∀ seq txid sats payee status sentAt, .sent seq txid sats payee status sentAt ∈ s.1.ledger →
      txid ∈ (moves.nodes s.2.length).confirmed → ∀ bal,
        Ledger.balanceStep s.1.ledger bal (.sent seq txid sats payee status sentAt) =
          Ledger.i64 (bal - Ledger.i64 sats) := by
  have lasts : ∀ i txid, moves.DeadForGood i txid → moves.DeadForGood (i + 1) txid :=
    fun i _ dead => dead.later (Nat.le_succ i)
  have inv := Reachable.failsGone lasts reached
  have dead : ∀ txid, Ledger.latestStatus s.1.ledger txid = some .failed →
      moves.DeadForGood s.2.length txid := by
    intro txid failed
    obtain ⟨e, member, is⟩ := Ledger.exists_of_latestStatus failed
    exact inv.failed e member txid is
  refine ⟨fun txid failed i later => (dead txid failed).unconfirmed later, ?_⟩
  intro seq txid sats payee status sentAt _ confirmed bal
  have alive : Ledger.latestStatus s.1.ledger txid ≠ some .failed := fun failed =>
    (dead txid failed).unconfirmed (Nat.le_refl _) confirmed
  exact if_pos alive

/-! ## A conflict that resolves the other way, and one that does not -/

/-- The wallet's one transaction and its rival spend the same output. -/
def rivalInputs (txid : String) : List OutPoint :=
  if txid = sampleTxid ∨ txid = "rival" then [("parent", 0)] else []

/-- What the nodes answer, and the wallet's script for the rest.  The wallet has one
transaction to build, and nothing else gets through to the nodes. -/
def nodesAnswer (inputsOf : String → List OutPoint) (nodes : ℕ → Nodes) (s : Journal) :
    (op : Op) → op.Ans
  | .finishPsbt request =>
      if request.sats = 40000 then .ok ⟨sampleTxid, 141, inputsOf sampleTxid, sampleAddress⟩
      else .error "insufficient funds"
  | .broadcast tx => if tx.txid = sampleTxid then (nodes s.2.length).verdict inputsOf tx.txid
      else .error "timed out"
  | .confirmations txid => .ok ((nodes s.2.length).confs txid)
  | .outspend txid vout => .ok ((nodes s.2.length).taken inputsOf (txid, vout))
  | op => walletScript.answer walletHost s.1 op

theorem nodesAnswer_allowed (inputsOf : String → List OutPoint) (nodes : ℕ → Nodes) (op : Op)
    (s : Journal) : World.allows walletHost s.1 op (nodesAnswer inputsOf nodes s op) ∧
      (nodes s.2.length).answers inputsOf op (nodesAnswer inputsOf nodes s op) := by
  have scripted := walletScript.allowed walletHost s.1 op
  cases op with
  | finishPsbt request =>
      refine ⟨trivial, ?_⟩
      by_cases known : request.sats = 40000
      · rw [show nodesAnswer inputsOf nodes s (.finishPsbt request) = _ from if_pos known]
        exact rfl
      · rw [show nodesAnswer inputsOf nodes s (.finishPsbt request) = _ from if_neg known]
        trivial
  | broadcast tx =>
      refine ⟨trivial, ?_⟩
      by_cases own : tx.txid = sampleTxid
      · exact .inl (if_pos own)
      · exact .inr ⟨"timed out", if_neg own, by decide +kernel⟩
  | confirmations txid => exact ⟨trivial, rfl⟩
  | outspend txid vout => exact ⟨trivial, rfl⟩
  | _ => exact ⟨scripted, trivial⟩

/-- Answer a call, and note it. -/
def noting (answer : Journal → (op : Op) → op.Ans) (op : Op) (s : Journal) : op.Ans × Journal :=
  (answer s op, (s.1.after op (answer s op), ⟨op, answer s op⟩ :: s.2))

/-- The payment, and then a reconcile. -/
def payThenReconcile (nodes : ℕ → Nodes) (calls : ℕ) : Journal :=
  cut (noting (nodesAnswer rivalInputs nodes)) calls (chores walletHost
    [.task (.send sampleAddress.display 40000 (some 500)), .task .reconcile]) (World.blank, [])

theorem payThenReconcile_reached (moves : Moves rivalInputs) {cond : Guarantee sig Journal}
    (meets : ∀ s op, cond s op (nodesAnswer rivalInputs moves.nodes s op)) (calls : ℕ) :
    Reachable (facing walletHost moves cond) (chores walletHost) crashed (World.blank, [])
      (payThenReconcile moves.nodes calls) := by
  refine ⟨(World.blank, []), _, .boot, cut_reach id calls _ _ (fun op s => ?_) fun _ _ => rfl⟩
  obtain ⟨allowed, answered⟩ := nodesAnswer_allowed rivalInputs moves.nodes op s
  exact ⟨allowed, answered, meets s op⟩

/-- The payment is broadcast; a rival replaces it in the mempool, is evicted again, and the
payment confirms. -/
def evictedRival (i : ℕ) : Nodes :=
  if i < 10 then ⟨[["parent"]], [sampleTxid]⟩
  else if i < 17 then ⟨[["parent"]], ["rival"]⟩ else ⟨[["parent"], [sampleTxid]], []⟩

/-- The payment is broadcast; a rival confirms. -/
def confirmedRival (i : ℕ) : Nodes :=
  if i < 10 then ⟨[["parent"]], [sampleTxid]⟩ else ⟨[["parent"], ["rival"]], []⟩

/-- A chain of the parent and then at most one spender of its output spends nothing
twice. -/
theorem rival_consistent (spender : String) (nodes : Nodes)
    (only : nodes.blocks <+: [["parent"], [spender]]) : ∀ t ∈ nodes.confirmed,
      ∀ t' ∈ nodes.confirmed, ∀ o ∈ rivalInputs t, o ∈ rivalInputs t' → t = t' := by
  have none : rivalInputs "parent" = [] := by decide +kernel
  have is : ∀ t ∈ nodes.confirmed, ∀ o ∈ rivalInputs t, t = spender := by
    intro t member o input
    obtain ⟨block, inChain, inBlock⟩ := List.mem_flatten.1 member
    rcases List.mem_pair.1 (only.subset inChain) with rfl | rfl
    · rw [List.mem_singleton.1 inBlock, none] at input
      exact absurd input List.not_mem_nil
    · exact List.mem_singleton.1 inBlock
  intro t member t' member' o input input'
  exact (is t member o input).trans (is t' member' o input').symm

def evictedHistory : History rivalInputs where
  nodes := evictedRival
  grows i := by
    unfold evictedRival
    split_ifs <;> first | omega | exact List.prefix_rfl | exact ⟨[[sampleTxid]], rfl⟩
  consistent i := by
    refine rival_consistent sampleTxid _ ?_
    unfold evictedRival
    split_ifs <;> first | exact List.prefix_rfl | exact ⟨[[sampleTxid]], rfl⟩

def confirmedHistory : History rivalInputs where
  nodes := confirmedRival
  grows i := by
    unfold confirmedRival
    split_ifs <;> first | omega | exact List.prefix_rfl | exact ⟨[["rival"]], rfl⟩
  consistent i := by
    refine rival_consistent "rival" _ ?_
    unfold confirmedRival
    split_ifs <;> first | exact List.prefix_rfl | exact ⟨[["rival"]], rfl⟩

/-- The rival's conflict fails the payment, and then the payment confirms: it is failed, and
paid, and the balance no longer debits it. -/
theorem conflict_resolves : ∃ s,
    Reachable (facing walletHost evictedHistory.toMoves fun _ _ _ => True) (chores walletHost) crashed
      (World.blank, []) s ∧
    .sent 0 sampleTxid 40000 sampleAddress.display .pending 1700000000 ∈ s.1.ledger ∧
    Ledger.latestStatus s.1.ledger sampleTxid = some .failed ∧
    sampleTxid ∈ (evictedHistory.nodes s.2.length).confirmed ∧
    Ledger.balance s.1.ledger = 0 :=
  ⟨payThenReconcile evictedRival 17,
    payThenReconcile_reached evictedHistory.toMoves (fun _ _ => trivial) 17,
    by decide +kernel, by decide +kernel, by decide +kernel, by decide +kernel⟩

/-- The payment is broadcast; a rival confirms, and a reorganisation puts the payment in its
place. -/
def reorganisedRival (i : ℕ) : Nodes :=
  if i < 17 then confirmedRival i else ⟨[["parent"], [sampleTxid]], []⟩

def reorganisedMoves : Moves rivalInputs where
  nodes := reorganisedRival
  consistent i := by
    unfold reorganisedRival confirmedRival
    split_ifs
    · exact rival_consistent "rival" _ ⟨[["rival"]], rfl⟩
    · exact rival_consistent "rival" _ List.prefix_rfl
    · exact rival_consistent sampleTxid _ List.prefix_rfl

/-- So does a payment whose spender was confirmed when it was refused: what is dead need not
be dead for good. -/
theorem spender_taken_back :
    Reachable (facing walletHost reorganisedMoves fun _ _ _ => True) (chores walletHost) crashed
      (World.blank, []) (payThenReconcile reorganisedRival 17) ∧
    (∀ i, 10 ≤ i → i < 17 → (reorganisedRival i).Dead rivalInputs sampleTxid) ∧
    Ledger.latestStatus (payThenReconcile reorganisedRival 17).1.ledger sampleTxid =
      some .failed ∧
    sampleTxid ∈ (reorganisedRival (payThenReconcile reorganisedRival 17).2.length).confirmed := by
  refine ⟨payThenReconcile_reached reorganisedMoves (fun _ _ => trivial) 17, fun i late early => ?_,
    by decide +kernel, by decide +kernel⟩
  rw [reorganisedRival, if_pos early, confirmedRival, if_neg (Nat.not_lt.2 late)]
  exact ⟨("parent", 0), by decide +kernel, "rival", by decide +kernel, by decide +kernel,
    by decide +kernel⟩

/-- Only the confirmed rival gets the payment refused. -/
theorem confirmedRival_refuses {s : Journal} {tx : Tx} {error : Error}
    (refused : nodesAnswer rivalInputs confirmedRival s (.broadcast tx) = .error error)
    (hard : isHardRejection error = true) :
    (confirmedHistory.nodes s.2.length).Dead rivalInputs tx.txid := by
  by_cases own : tx.txid = sampleTxid
  · have verdict : (confirmedRival s.2.length).verdict rivalInputs sampleTxid = .error error := by
      rw [← refused, ← own]
      exact (if_pos own).symm
    by_cases early : s.2.length < 10
    · rw [confirmedRival, if_pos early] at verdict
      cases verdict
    · have confirmed : "rival" ∈ (confirmedRival s.2.length).confirmed := by
        rw [confirmedRival, if_neg early]
        decide
      rw [own]
      exact ⟨("parent", 0), by decide +kernel, "rival", confirmed, by decide +kernel,
        by decide +kernel⟩
  · have unsent : Except.error "timed out" = Except.error error := (if_neg own).symm.trans refused
    cases unsent
    exact absurd hard (by decide +kernel)

/-- The rival confirms, the payment is failed, and it never confirms. -/
theorem failed_is_dead_sample :
    Ledger.latestStatus (payThenReconcile confirmedRival 17).1.ledger sampleTxid = some .failed ∧
    ∀ i, 17 ≤ i → sampleTxid ∉ (confirmedHistory.nodes i).confirmed := by
  have justified : ∀ s op, Justified confirmedHistory.toMoves.DeadForGood s op
      (nodesAnswer rivalInputs confirmedRival s op) := by
    intro s op
    cases op with
    | broadcast tx =>
        cases is : nodesAnswer rivalInputs confirmedRival s (.broadcast tx) with
        | error error =>
            exact fun _ _ _ hard => History.deadForGood (confirmedRival_refuses is hard)
        | ok => trivial
    | _ => trivial
  have failed : Ledger.latestStatus (payThenReconcile confirmedRival 17).1.ledger sampleTxid =
      some .failed := by decide +kernel
  have length : (payThenReconcile confirmedRival 17).2.length = 17 := by decide +kernel
  have dead := (failed_is_dead walletHost rivalInputs confirmedHistory.toMoves _
    (payThenReconcile_reached confirmedHistory.toMoves justified 17)).1 sampleTxid failed
  exact ⟨failed, fun i later => dead i (length.symm ▸ later)⟩

end ComputerMoney.Safety

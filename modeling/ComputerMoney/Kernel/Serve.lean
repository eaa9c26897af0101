/-
# Kernel.Serve -- the seller's daemon

One process, one ledger instance, one loop.  A tick of the watch reconciles, polls the
chain for each issued index without a receipt, books every deposit it is shown under
that index, and then scans for silent payments on an instance of its own.  A session
serves one buyer from the next unused index.  Neither ends the daemon: whatever goes
wrong inside one is logged.

The order in which ticks and sessions come is the clock's and the buyers', so the
daemon is given the list of its duties.
-/
import ComputerMoney.Kernel.Net
import ComputerMoney.Kernel.Scan

namespace ComputerMoney.Kernel

set_option autoImplicit false

open Theory

/-! ## What an address received -/

/-- Esplora's view of a transaction in an address's history. -/
structure AddressTx extends EsploraTx where
  confirmed : Bool
  blockHeight : Option ℕ
  deriving DecidableEq, Repr

/-- The total of the outputs that pay the script. -/
def EsploraTx.paysTo (tx : EsploraTx) (script : String) : ℕ :=
  u64Sum ((tx.vout.filter fun v => v.scriptpubkey = script).map Vout.value)

def AddressTx.confirmations (tx : AddressTx) (tip : ℕ) : ℕ :=
  if tx.confirmed then
    match tx.blockHeight with
    | some height => tip - height + 1
    | none => 0
  else 0

/-- The loop over the address's history: a transaction that pays it nothing is skipped. -/
def depositsOf (script : String) (tip : ℕ) (txs : List AddressTx) : List Deposit :=
  txs.filterMap fun tx =>
    if tx.paysTo script = 0 then none
    else some ⟨tx.txid, tx.paysTo script, tx.confirmations tip⟩

/-- `chain::deposits_to`, given the server's two answers. -/
def depositsFrom (host : Host) (address : String) (txs : Except Error (List AddressTx))
    (tip : Except Error ℕ) : Except Error (List Deposit) := do
  let a ← host.parseAddress address
  let txs ← txs
  let tip ← tip
  return depositsOf a.script tip txs

theorem mem_depositsOf {script : String} {tip : ℕ} {txs : List AddressTx} {d : Deposit} :
    d ∈ depositsOf script tip txs ↔
      ∃ tx ∈ txs, tx.paysTo script ≠ 0 ∧
        ⟨tx.txid, tx.paysTo script, tx.confirmations tip⟩ = d := by
  simp only [depositsOf, List.mem_filterMap]
  refine exists_congr fun tx => and_congr_right fun _ => ?_
  split <;> simp_all

/-! ## The watch -/

/-- Book every deposit of one address under its index; a failed booking is only logged. -/
def bookDeposits (led : Handle) (index : ℕ) (deposits : List Deposit) : Prog Unit :=
  .forEach deposits fun d => do
    let _ ← (Ledger.recordReceived led d.txid d.sats index).attempt

/-- Poll one issued index. -/
def pollIndex (host : Host) (led : Handle) (index : ℕ) : Prog Unit :=
  match host.walletAddress index with
  | .error _ => .pure ()
  | .ok address => do
      match ← (depositsTo address).attempt with
      | .ok deposits => bookDeposits led index deposits
      | .error _ => return ()

/-- The part of the tick that polls: the list of indexes is made once, before the first. -/
def pollIssued (host : Host) (led : Handle) : Prog Unit := do
  let es ← Ledger.entries led
  .forEach (Ledger.issuedUnpaid es) (pollIndex host led)

/-- `serve::chain_watch`. -/
def chainWatch (host : Host) (led : Handle) (pages : ℕ) : Prog Unit := do
  let _ ← (reconcile led).attempt
  pollIssued host led
  let _ ← (scanFresh host pages).attempt

/-! ## The loop -/

/-- One thing the loop does. -/
inductive Duty where
  /-- The watch is due; the server serves at most so many pages of a block. -/
  | watch (pages : ℕ)
  /-- A buyer's session: the messages it sends, and how the wire ends after them. -/
  | session (inbox : List Message) (closed : Except Error Unit)

def Duty.perform (host : Host) (led : Handle) : Duty → Prog Unit
  | .watch pages => chainWatch host led pages
  | .session inbox closed => do
      let es ← Ledger.entries led
      let _ ← (runReceiver host led closed inbox (Ledger.nextAddressIndex es) none none).attempt

/-- `serve::run`, up to when it is stopped. -/
def serve (host : Host) (duties : List Duty) : Prog Unit := do
  let led ← Ledger.openWithIdentity
  .forEach duties fun duty => duty.perform host led

/-! ## What the daemon does unasked -/

/-- The calls of a tick, and of what a session does once it is notified: it neither issues
an address, nor writes to the wire, nor sends money. -/
def Op.watches : Op → Prop
  | .openLedger | .entries _ | .readSidecar _ | .removeSidecar _ _ | .listSidecars | .broadcast _
  | .confirmations _ | .depositsTo _ | .scanLock _ | .scanUnlock | .loadCheckpoint
  | .saveCheckpoint _ | .tipHeight | .blockHash _ | .blockTxs _ _ | .outspend _ _ => True
  | .append _ (.received _ _ _ _ _) | .append _ (.statusUpdate _ _ _)
  | .append _ (.spReceived _ _ _ _ _ _) | .append _ (.spSpent _ _ _) => True
  | _ => False

section Within

variable {host : Host} {led : Handle}

open Program

theorem within_recordReceived {P : Op → Prop} {txid : String} {sats index : ℕ}
    (reads : P (.entries led)) (books : ∀ seq, P (.append led (.received seq txid sats index .pending))) :
    (Ledger.recordReceived led txid sats index).Within P := by
  refine within_bind ⟨reads, fun _ => trivial⟩ fun es => ?_
  split
  · trivial
  · refine within_bind ⟨books _, fun answer => ?_⟩ fun _ => trivial
    cases answer <;> trivial

theorem within_reconcile_watches : (reconcile led).Within Op.watches :=
  within_reconcile trivial (fun _ => trivial) (fun _ => trivial) (fun _ => trivial)
    (fun _ _ _ => trivial) (fun _ _ => trivial) trivial

theorem within_pollIssued {P : Op → Prop} (reads : P (.entries led))
    (asks : ∀ address, P (.depositsTo address))
    (books : ∀ seq txid sats index, P (.append led (.received seq txid sats index .pending))) :
    (pollIssued host led).Within P := by
  refine within_bind ⟨reads, fun _ => trivial⟩ fun es => within_forEach fun index _ => ?_
  unfold pollIndex
  split
  · trivial
  · refine within_bind (within_attempt ⟨asks _, fun _ => within_ofExcept⟩) fun answer => ?_
    cases answer with
    | error e => trivial
    | ok deposits =>
        refine within_forEach fun d _ => within_bind (within_attempt ?_) fun _ => trivial
        exact within_recordReceived reads fun _ => books _ _ _ _

theorem within_pollIssued_watches : (pollIssued host led).Within Op.watches :=
  within_pollIssued trivial (fun _ => trivial) fun _ _ _ _ => trivial

theorem watches_of_scans (op : Op) (scans : Op.scans led op) : op.watches := by
  cases op with
  | append led' e => cases e <;> first | exact scans.elim | trivial
  | _ => first | exact scans.elim | trivial

theorem within_scanFresh_watches (pages : ℕ) : (scanFresh host pages).Within Op.watches :=
  within_bind ⟨trivial, fun _ => within_ofExcept⟩ fun _ =>
    within_bind ((within_scanToTip pages).mono watches_of_scans) fun _ =>
      within_bind ⟨trivial, fun _ => trivial⟩ fun _ => trivial

theorem within_chainWatch (pages : ℕ) : (chainWatch host led pages).Within Op.watches :=
  within_bind (within_attempt within_reconcile_watches) fun _ =>
    within_bind within_pollIssued_watches fun _ =>
      within_bind (within_attempt (within_scanFresh_watches pages)) fun _ => trivial

theorem within_handleNotify {issuedIndex : Option ℕ} {issuedAddress : Option String} {txid : String}
    {claimed : ℕ} :
    (handleNotify led issuedIndex issuedAddress txid claimed).Within Op.watches := by
  unfold handleNotify
  cases issuedAddress with
  | none => trivial
  | some address =>
      refine within_bind (within_attempt ⟨trivial, fun _ => within_ofExcept⟩) fun answer => ?_
      cases answer with
      | error e => trivial
      | ok deposits =>
          dsimp only
          split
          · trivial
          · refine within_bind (within_recordReceived trivial fun _ => trivial) fun _ => ?_
            exact within_bind (within_attempt within_reconcile_watches) fun _ => trivial

end Within

end ComputerMoney.Kernel

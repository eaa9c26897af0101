/-
# Kernel.Scan -- the silent-payment scanner and its callers

A pass takes the process-wide scan lock, walks the blocks above the checkpoint page by
page, books every output that pays the wallet and is not yet in its ledger instance,
saves the checkpoint, and marks spent outputs.  It gives the lock back however it ends;
the checkpoint moves only when every block was read.

The instance a pass books into is its caller's, opened before the pass asks for the
lock.  The three callers are `scanFresh` (the daemon's tick), `balanceReport` and
`collectionsReport`.

The page loop of the source ends when the server serves a short page.  Here it ends
after `pages` full pages at the latest, with the error of a failed request: any request
may fail, so for every run of the source cut at any point there is a `pages` with the
same run here.
-/
import ComputerMoney.Kernel.Reconcile

namespace ComputerMoney.Kernel

set_option autoImplicit false

open Theory

/-- Outputs below this are skipped. -/
def dustFloor : ℕ := 330

/-- How far below the tip a pass without a checkpoint starts. -/
def startLookback : ℕ := 144

/-- Transactions in a full page. -/
def pageSize : ℕ := 25

/-- A payment booked by a pass. -/
structure Found where
  txid : String
  vout : ℕ
  sats : ℕ
  deriving DecidableEq, Repr

structure ScanReport where
  fromHeight : ℕ
  toHeight : ℕ
  found : List Found
  deriving DecidableEq, Repr

/-- Book what one transaction pays us. -/
def bookMatches (led : Handle) (txid : String) : List SpFound → List Found → Prog (List Found)
  | [], found => .pure found
  | f :: rest, found =>
      if f.sats < dustFloor then bookMatches led txid rest found
      else do
        let tweak := String.ofList (Hex.hexLower f.tweak)
        let booked ← Ledger.recordSpReceived led txid f.vout f.sats tweak
        bookMatches led txid rest (if booked then found ++ [⟨txid, f.vout, f.sats⟩] else found)

/-- Book what one page of transactions pays us. -/
def bookPage (host : Host) (led : Handle) : List EsploraTx → List Found → Prog (List Found)
  | [], found => .pure found
  | tx :: rest, found => do
      let found ← bookMatches led tx.txid (host.txMatches tx) found
      bookPage host led rest found

/-- The pages of one block from `start` on. -/
def scanPages (host : Host) (led : Handle) (hash : String) :
    ℕ → ℕ → List Found → Prog (List Found)
  | 0, _, _ => .throw "request timed out"
  | pages + 1, start, found => do
      let txs ← blockTxs hash start
      if txs.isEmpty then
        return found
      let found ← bookPage host led txs found
      if txs.length < pageSize then
        return found
      scanPages host led hash pages (start + txs.length) found

/-- `count` blocks from `height` on. -/
def scanBlocks (host : Host) (led : Handle) (pages : ℕ) :
    ℕ → ℕ → List Found → Prog (List Found)
  | 0, _, found => .pure found
  | count + 1, height, found => do
      let hash ← blockHash height
      let found ← scanPages host led hash pages 0 found
      scanBlocks host led pages count (height + 1) found

/-- Mark the final outputs the chain shows as spent. -/
def trackSpends (led : Handle) : Prog Unit := do
  let es ← Ledger.entries led
  .forEach (Ledger.spUtxos es) fun u => do
    let spent ← outspend u.txid u.vout
    if spent then
      let _ ← Ledger.recordSpSpent led u.txid u.vout

/-- The pass under the lock. -/
def scanPass (host : Host) (led : Handle) (pages : ℕ) : Prog ScanReport := do
  .ofExcept host.spScanKeypair
  .ofExcept host.spSpendKeypair
  let tip ← tipHeight
  let checkpoint ← loadCheckpoint
  let start := match checkpoint with
    | some height => height + 1
    | none => tip - startLookback
  let found ← scanBlocks host led pages (tip + 1 - start) start []
  saveCheckpoint tip
  trackSpends led
  return ⟨start, tip, found⟩

/-- `scan::scan_to_tip`: the guard is dropped on every way out. -/
def scanToTip (host : Host) (led : Handle) (pages : ℕ) : Prog ScanReport := do
  .call (.scanLock led) .pure
  let outcome ← (scanPass host led pages).attempt
  .call .scanUnlock .pure
  .ofExcept outcome

/-! ## The calls a pass can make -/

/-- What a pass on `led` may ask of the host. -/
def Op.scans (led : Handle) : Op → Prop
  | .entries led' => led' = led
  | .append led' (.spReceived _ _ _ _ _ .pending) | .append led' (.spSpent _ _ _) => led' = led
  | .scanLock led' => led' = led
  | .scanUnlock | .loadCheckpoint | .saveCheckpoint _ | .tipHeight | .blockHash _ | .blockTxs _ _
  | .outspend _ _ => True
  | _ => False

section Within

variable {host : Host} {led : Handle}

open Program

theorem within_bookMatches (txid : String) (fs : List SpFound) (found : List Found) :
    (bookMatches led txid fs found).Within (Op.scans led) := by
  induction fs generalizing found with
  | nil => trivial
  | cons f fs ih =>
      unfold bookMatches
      split
      · exact ih _
      · refine within_bind (within_bind ⟨rfl, fun _ => trivial⟩ fun es => ?_) fun _ => ih _
        split
        · trivial
        · refine within_bind ⟨rfl, fun answer => ?_⟩ fun _ => trivial
          cases answer <;> trivial

theorem within_bookPage (txs : List EsploraTx) (found : List Found) :
    (bookPage host led txs found).Within (Op.scans led) := by
  induction txs generalizing found with
  | nil => trivial
  | cons tx txs ih => exact within_bind (within_bookMatches _ _ _) fun _ => ih _

theorem within_scanPages (hash : String) (pages start : ℕ) (found : List Found) :
    (scanPages host led hash pages start found).Within (Op.scans led) := by
  induction pages generalizing start found with
  | zero => trivial
  | succ pages ih =>
      refine within_bind ⟨trivial, fun _ => within_ofExcept⟩ fun txs => ?_
      split
      · trivial
      · refine within_bind (within_bookPage _ _) fun _ => ?_
        split
        · trivial
        · exact ih _ _

theorem within_scanBlocks (pages count height : ℕ) (found : List Found) :
    (scanBlocks host led pages count height found).Within (Op.scans led) := by
  induction count generalizing height found with
  | zero => trivial
  | succ count ih =>
      exact within_bind ⟨trivial, fun _ => within_ofExcept⟩ fun _ =>
        within_bind (within_scanPages _ _ _ _) fun _ => ih _ _

theorem within_trackSpends {P : Op → Prop} (reads : P (.entries led))
    (asks : ∀ txid vout, P (.outspend txid vout))
    (books : ∀ seq txid vout, P (.append led (.spSpent seq txid vout))) :
    (trackSpends led).Within P := by
  refine within_bind ⟨reads, fun _ => trivial⟩ fun es => within_forEach fun u _ => ?_
  refine within_bind ⟨asks _ _, fun _ => within_ofExcept⟩ fun spent => ?_
  split
  · exact within_bind (within_recordSpSpent reads fun seq => books seq _ _) fun _ => trivial
  · trivial

theorem within_scanToTip (pages : ℕ) : (scanToTip host led pages).Within (Op.scans led) := by
  refine within_bind ⟨rfl, fun _ => trivial⟩ fun _ => within_bind (within_attempt ?_) fun _ =>
    within_bind ⟨trivial, fun _ => trivial⟩ fun _ => within_ofExcept
  refine within_bind within_ofExcept fun _ => within_bind within_ofExcept fun _ => ?_
  refine within_bind ⟨trivial, fun _ => within_ofExcept⟩ fun tip => ?_
  refine within_bind ⟨trivial, fun _ => within_ofExcept⟩ fun checkpoint => ?_
  refine within_bind (within_scanBlocks _ _ _ _) fun _ => ?_
  refine within_bind ⟨trivial, fun answer => ?_⟩ fun _ => within_bind ?_ fun _ => trivial
  · cases answer <;> trivial
  · exact within_trackSpends rfl (fun _ _ => trivial) fun _ _ _ => rfl

end Within

/-! ## The callers -/

/-- `serve::scan_fresh`. -/
def scanFresh (host : Host) (pages : ℕ) : Prog (ScanReport × ℕ) := do
  let led ← Ledger.openWithIdentity
  let report ← scanToTip host led pages
  let es ← Ledger.entries led
  return (report, Ledger.spBalance es)

/-- The silent-payment part of `mcp::balance_report`: spendable and incoming. -/
def balanceReport (host : Host) (pages : ℕ) : Prog (ℕ × ℕ) := do
  syncWallet
  match ← Ledger.openWithIdentity.attempt with
  | .error _ => return (0, 0)
  | .ok led => do
      let _ ← (scanToTip host led pages).attempt
      let _ ← (reconcile led).attempt
      let es ← Ledger.entries led
      return (Ledger.spBalance es, Ledger.spIncoming es)

/-- A row of the report, with the address of an issued index. -/
structure CollectionRow where
  collection : Ledger.Collection
  address : Option String
  paid : Bool
  deriving DecidableEq, Repr

def collectionRows (host : Host) : List Ledger.Collection → Except Error (List CollectionRow)
  | [] => .ok []
  | c :: rest => do
      let address ← if c.sp then pure none else (host.walletAddress c.index).map some
      let rows ← collectionRows host rest
      return ⟨c, address, c.txid.isSome⟩ :: rows

/-- `mcp::collections_report`: the note on the pass, and the rows. -/
def collectionsReport (host : Host) (pages : ℕ) : Prog (String × List CollectionRow) := do
  let led ← Ledger.openWithIdentity
  let note ← match ← (scanToTip host led pages).attempt with
    | .ok r => pure ("scanned blocks " ++ toString r.fromHeight ++ ".." ++ toString r.toHeight ++
        ", " ++ toString r.found.length ++ " new silent payment(s)")
    | .error e => pure ("silent-payment scan skipped (" ++ e ++ "); reporting known payments only")
  let es ← Ledger.entries led
  let rows ← .ofExcept (collectionRows host (Ledger.collections es))
  return (note, rows)

end ComputerMoney.Kernel

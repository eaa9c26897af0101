/-
# Kernel.Host -- what the program asks of the world, and what the world may answer

Every function of the source that touches a file, the clock, the chain or a peer is a
`Program` over `sig`: the operations below are its calls, in the source's order.  The
`World` holds what outlives a call (the ledger file, the `pending/` directory, the scan
checkpoint), what a crash loses (the in-memory entries of each open `Ledger`, the scan
lock), and three records no function reads: the transactions signed, the transactions
handed to the network, the messages put on the wire.

An open `Ledger` is a handle.  Its entries are loaded by `openLedger` and only ever
grow by its own successful `append`; another instance on the same file is not seen.

`interp` is the permissive reading: any operation that does I/O may fail, a failed
append may or may not have left its line on disk, and the chain, the wire and the clock
answer as they like.  A result that needs less freedom restricts it
(`Interp.restrict`) and says so.
-/
import ComputerMoney.Theory.Program
import ComputerMoney.Theory.Text
import ComputerMoney.Kernel.Policy

namespace ComputerMoney.Kernel

set_option autoImplicit false

open Theory

/-- Errors are carried as the text a caller prints. -/
abbrev Error := String

/-- An open `Ledger` instance. -/
abbrev Handle := ℕ

/-! ## Data that crosses the boundary -/

/-- A parsed address: the script it pays, and its canonical text. -/
structure Address where
  script : String
  display : String
  deriving DecidableEq, Repr

/-- A compressed public key, by its 33 bytes. -/
abbrev PublicKey := List UInt8

/-- A transaction output, by txid and index. -/
abbrev OutPoint := String × ℕ

/-- A signed transaction: its id, the amount paid to the recipient, its fee, the
outputs it spends. -/
structure Tx where
  txid : String
  sats : ℕ
  fee : ℕ
  inputs : List OutPoint
  deriving DecidableEq, Repr

/-- What a builder is asked for: a plain payment, a payment to a silent-payment code, or
a plain payment that also draws on silent-payment income. -/
inductive BuildRequest where
  | plain (recipient : Address) (sats : ℕ)
  | toSp (scan spend : PublicKey) (sats : ℕ) (funds : List Ledger.SpUtxo)
  | spendingSp (recipient : Address) (sats : ℕ) (funds : List Ledger.SpUtxo)
  deriving DecidableEq, Repr

def BuildRequest.sats : BuildRequest → ℕ
  | .plain _ sats | .toSp _ _ sats _ | .spendingSp _ sats _ => sats

/-- The unsigned result of `builder.finish()`: the id and fee are fixed here, and for a
silent payment the one-time recipient. -/
structure Psbt where
  txid : String
  fee : ℕ
  inputs : List OutPoint
  recipient : Address
  deriving DecidableEq, Repr

/-- The contents of `pending/<txid>.tx`: the complete hex of a transaction, or what a
cut write left, which does not decode. -/
inductive Sidecar where
  | hex (tx : Tx)
  | torn
  deriving DecidableEq, Repr

/-- The contents of `scan.json`. -/
inductive CheckpointFile where
  | absent
  | scanned (height : ℕ)
  | torn
  deriving DecidableEq, Repr

structure Deposit where
  txid : String
  sats : ℕ
  confirmations : ℕ
  deriving DecidableEq, Repr

/-- The structured messages of the payment protocol. -/
inductive Message where
  | addrRequest (sats : ℕ)
  | addrResponse (address : String) (index : ℕ)
  | notify (txid : String) (sats : ℕ)
  | chat (text : String)
  deriving DecidableEq, Repr

/-- The 402 terms body. -/
structure Terms where
  cm402 : ℕ
  sats : ℕ
  payTo : String
  network : String
  deriving DecidableEq, Repr

structure Resp where
  status : ℕ
  body : String
  deriving DecidableEq, Repr

structure Vin where
  txid : String
  vout : ℕ
  isCoinbase : Bool
  prevout : Option String
  witness : List String
  deriving DecidableEq, Repr

structure Vout where
  scriptpubkey : String
  value : ℕ
  deriving DecidableEq, Repr

/-- Esplora's view of a transaction. -/
structure EsploraTx where
  txid : String
  vin : List Vin
  vout : List Vout
  deriving DecidableEq, Repr

/-- A silent payment found in a transaction: output, value, tweak. -/
structure SpFound where
  vout : ℕ
  sats : ℕ
  tweak : List UInt8
  deriving DecidableEq, Repr

/-! ## Operations and answers -/

/-- Which line of `reconcile` asks for a sidecar's removal.  The operation does not see
it. -/
inductive Removal where
  | rejected
  | settled
  | orphan
  deriving DecidableEq, Repr

inductive Op where
  | openLedger
  | entries (led : Handle)
  | append (led : Handle) (entry : Entry)
  | writeSidecar (txid : String) (tx : Tx)
  | readSidecar (txid : String)
  | removeSidecar (txid : String) (why : Removal)
  | listSidecars
  | nowUnix
  | loadPolicy
  | syncWallet
  | finishPsbt (request : BuildRequest)
  | sign (tx : Tx)
  | broadcast (tx : Tx)
  | confirmations (txid : String)
  | depositsTo (address : String)
  | eprintln (line : String)
  | connect (address peer : String)
  | wireSend (message : Message)
  | httpGet (url : String) (payment : Option String)
  | scanLock (led : Handle)
  | scanUnlock
  | loadCheckpoint
  | saveCheckpoint (height : ℕ)
  | tipHeight
  | blockHash (height : ℕ)
  | blockTxs (hash : String) (start : ℕ)
  | outspend (txid : String) (vout : ℕ)
  deriving DecidableEq, Repr

/-- An append returned `Ok`; or failed with nothing on disk; or failed with its whole
line on disk (the write went through, the fsync did not). -/
inductive AppendAnswer where
  | ok
  | lost (error : Error)
  | kept (error : Error)
  deriving DecidableEq, Repr

/-- A whole-file write returned `Ok`; or failed leaving the file as it was; or failed
leaving a truncated file. -/
inductive WriteAnswer where
  | ok
  | lost (error : Error)
  | torn (error : Error)
  deriving DecidableEq, Repr

def Op.Ans : Op → Type
  | .openLedger => Except Error Handle
  | .entries _ => List Entry
  | .append _ _ => AppendAnswer
  | .writeSidecar _ _ => WriteAnswer
  | .readSidecar _ => Except Error (Option Sidecar)
  | .removeSidecar _ _ => Except Error Unit
  | .listSidecars => Except Error (List String)
  | .nowUnix => ℕ
  | .loadPolicy => Except Error Policy
  | .syncWallet => Except Error Unit
  | .finishPsbt _ => Except Error Psbt
  | .sign _ => Except Error Unit
  | .broadcast _ => Except Error Unit
  | .confirmations _ => Except Error ℕ
  | .depositsTo _ => Except Error (List Deposit)
  | .eprintln _ => Unit
  | .connect _ _ => Except Error Unit
  | .wireSend _ => Except Error Unit
  | .httpGet _ _ => Except Error Resp
  | .scanLock _ => Unit
  | .scanUnlock => Unit
  | .loadCheckpoint => Except Error (Option ℕ)
  | .saveCheckpoint _ => WriteAnswer
  | .tipHeight => Except Error ℕ
  | .blockHash _ => Except Error String
  | .blockTxs _ _ => Except Error (List EsploraTx)
  | .outspend _ _ => Except Error Bool

def sig : Signature := ⟨Op, Op.Ans⟩

instance : DecidableEq sig.Op := inferInstanceAs (DecidableEq Op)

abbrev Prog (α : Type) := Program sig Error α

/-! ## The world -/

structure World where
  /-- `ledger.jsonl`, line by line. -/
  ledger : List Entry
  /-- `pending/`, by txid. -/
  sidecars : List (String × Sidecar)
  checkpoint : CheckpointFile
  /-- The in-memory entries of each open `Ledger`. -/
  mem : Handle → List Entry
  /-- The next unused handle. -/
  fresh : Handle
  clock : ℕ
  scanLocked : Bool
  signed : List Tx
  net : List Tx
  wire : List Message

/-- A new wallet directory: nothing on disk, nothing signed or sent. -/
def World.blank : World where
  ledger := []
  sidecars := []
  checkpoint := .absent
  mem := fun _ => []
  fresh := 0
  clock := 0
  scanLocked := false
  signed := []
  net := []
  wire := []

namespace World

variable (w : World)

def sidecar (txid : String) : Option Sidecar := w.sidecars.lookup txid

def putSidecar (txid : String) (contents : Sidecar) : World :=
  { w with sidecars := (txid, contents) :: w.sidecars.filter fun entry => entry.1 ≠ txid }

def dropSidecar (txid : String) : World :=
  { w with sidecars := w.sidecars.filter fun entry => entry.1 ≠ txid }

/-- Dropping a file leaves the others. -/
theorem lookup_filter_ne (sidecars : List (String × Sidecar)) {txid t : String} (other : t ≠ txid) :
    (sidecars.filter fun entry => entry.1 ≠ txid).lookup t = sidecars.lookup t := by
  induction sidecars with
  | nil => rfl
  | cons entry sidecars ih =>
      obtain ⟨name, contents⟩ := entry
      by_cases dropped : name = txid
      · have skipped : (t == name) = false := by simpa [dropped] using other
        rw [List.filter_cons_of_neg (by simpa using dropped), List.lookup_cons, skipped]
        exact ih
      · rw [List.filter_cons_of_pos (by simpa using dropped), List.lookup_cons, List.lookup_cons, ih]

theorem sidecar_putSidecar (txid : String) (contents : Sidecar) :
    (w.putSidecar txid contents).sidecar txid = some contents := by
  simp [putSidecar, sidecar]

theorem sidecar_putSidecar_of_ne {txid t : String} (contents : Sidecar) (other : t ≠ txid) :
    (w.putSidecar txid contents).sidecar t = w.sidecar t := by
  have skipped : (t == txid) = false := by simpa using other
  show List.lookup t ((txid, contents) :: w.sidecars.filter fun entry => entry.1 ≠ txid) = _
  rw [List.lookup_cons, skipped]
  exact lookup_filter_ne w.sidecars other

theorem sidecar_dropSidecar (txid : String) : (w.dropSidecar txid).sidecar txid = none := by
  refine List.lookup_eq_none_iff.2 fun entry member => ?_
  have other : entry.1 ≠ txid := by simpa using (List.mem_filter.1 member).2
  simpa using other.symm

theorem sidecar_dropSidecar_of_ne {txid t : String} (other : t ≠ txid) :
    (w.dropSidecar txid).sidecar t = w.sidecar t :=
  lookup_filter_ne w.sidecars other

/-- Load the file into a new instance. -/
def load (led : Handle) : World :=
  { w with mem := Function.update w.mem led w.ledger, fresh := led + 1 }

theorem load_mem : (w.load w.fresh).mem w.fresh = w.ledger := Function.update_self ..

/-- The line is on disk. -/
def written (entry : Entry) : World := { w with ledger := w.ledger ++ [entry] }

/-- The line is on disk and in the instance that appended it. -/
def appended (led : Handle) (entry : Entry) : World :=
  { w with
    ledger := w.ledger ++ [entry]
    mem := Function.update w.mem led (w.mem led ++ [entry]) }

/-- What a crash leaves: the files and the records, no instance, no lock. -/
def crash : World := { w with mem := fun _ => [], scanLocked := false }

end World

/-- The constants of one installation: its configuration, and the pure functions of the
libraries it links. -/
structure Host where
  network : Network
  policy : Policy
  /-- `Address::from_str(..)?.require_network(..)?`. -/
  parseAddress : String → Except Error Address
  /-- `CheckedHrpstring::new::<Bech32m>`: the prefix and the symbols before the checksum. -/
  bech32m : List Char → Except Error (String × List ℕ)
  /-- `PublicKey::from_slice`. -/
  pubkeyFromSlice : List UInt8 → Except Error PublicKey
  /-- `wallet.address(index)?.to_string()`. -/
  walletAddress : ℕ → Except Error String
  /-- `wallet.sp_scan_keypair()?`, of which only the failure matters here. -/
  spScanKeypair : Except Error Unit
  /-- `wallet.sp_spend_keypair()?`, likewise. -/
  spSpendKeypair : Except Error Unit
  /-- `parse_public_key`, of which only the failure matters here. -/
  parsePublicKey : String → Except Error Unit
  /-- `SocketAddr::from_str`. -/
  parseSocketAddr : String → Except Error Unit
  /-- `serde_json::from_str::<Terms>`. -/
  parseTerms : String → Except Error Terms
  /-- `scan::tx_matches` under the wallet's own keys. -/
  txMatches : EsploraTx → List SpFound

/-- The answers a world allows. -/
def World.allows (host : Host) (w : World) : (op : Op) → op.Ans → Prop
  | .openLedger, .ok led => led = w.fresh
  | .entries led, entries => entries = w.mem led
  | .readSidecar txid, .ok contents => contents = w.sidecar txid
  | .listSidecars, .ok names => ∀ name, name ∈ names ↔ name ∈ w.sidecars.map Prod.fst
  | .loadPolicy, .ok policy => policy = host.policy
  | .loadCheckpoint, .ok none => w.checkpoint = .absent
  | .loadCheckpoint, .ok (some height) => w.checkpoint = .scanned height
  | _, _ => True

/-- The world an answer leaves. -/
def World.after (w : World) : (op : Op) → op.Ans → World
  | .openLedger, .ok led => w.load led
  | .append led entry, .ok => w.appended led entry
  | .append _ entry, .kept _ => w.written entry
  | .writeSidecar txid tx, .ok => w.putSidecar txid (.hex tx)
  | .writeSidecar txid _, .torn _ => w.putSidecar txid .torn
  | .removeSidecar txid _, .ok () => w.dropSidecar txid
  | .nowUnix, now => { w with clock := now }
  | .sign tx, _ => { w with signed := tx :: w.signed }
  | .broadcast tx, _ => { w with net := tx :: w.net }
  | .wireSend message, _ => { w with wire := message :: w.wire }
  | .scanLock _, _ => { w with scanLocked := true }
  | .scanUnlock, _ => { w with scanLocked := false }
  | .saveCheckpoint height, .ok => { w with checkpoint := .scanned height }
  | .saveCheckpoint _, .torn _ => { w with checkpoint := .torn }
  | _, _ => w

/-- The permissive reading of the host. -/
def interp (host : Host) : Interp sig World := ⟨World.allows host, World.after⟩

/-- The world, and the calls made, the last first. -/
abbrev Journal := World × List (Event sig)

/-! ## What a call leaves alone -/

section Frame

variable (w : World) {op : Op} (answer : sig.Ans op)

theorem World.after_ledger (frame : ∀ led entry, op ≠ .append led entry) :
    (w.after op answer).ledger = w.ledger := by
  cases op with
  | append led entry => exact absurd rfl (frame led entry)
  | _ => first | rfl | cases answer <;> rfl

theorem World.after_mem (frame : ∀ led entry, op ≠ .append led entry)
    (closed : op ≠ .openLedger) : (w.after op answer).mem = w.mem := by
  cases op with
  | append led entry => exact absurd rfl (frame led entry)
  | openLedger => exact absurd rfl closed
  | _ => first | rfl | cases answer <;> rfl

theorem World.after_fresh (closed : op ≠ .openLedger) : (w.after op answer).fresh = w.fresh := by
  cases op with
  | openLedger => exact absurd rfl closed
  | _ => first | rfl | cases answer <;> rfl

theorem World.after_clock (frame : op ≠ .nowUnix) : (w.after op answer).clock = w.clock := by
  cases op with
  | nowUnix => exact absurd rfl frame
  | _ => first | rfl | cases answer <;> rfl

theorem World.after_signed (frame : ∀ tx, op ≠ .sign tx) :
    (w.after op answer).signed = w.signed := by
  cases op with
  | sign tx => exact absurd rfl (frame tx)
  | _ => first | rfl | cases answer <;> rfl

theorem World.after_net (frame : ∀ tx, op ≠ .broadcast tx) : (w.after op answer).net = w.net := by
  cases op with
  | broadcast tx => exact absurd rfl (frame tx)
  | _ => first | rfl | cases answer <;> rfl

theorem World.after_wire (frame : ∀ message, op ≠ .wireSend message) :
    (w.after op answer).wire = w.wire := by
  cases op with
  | wireSend message => exact absurd rfl (frame message)
  | _ => first | rfl | cases answer <;> rfl

theorem World.after_scanLocked (locks : ∀ led, op ≠ .scanLock led) (unlocks : op ≠ .scanUnlock) :
    (w.after op answer).scanLocked = w.scanLocked := by
  cases op with
  | scanLock led => exact absurd rfl (locks led)
  | scanUnlock => exact absurd rfl unlocks
  | _ => first | rfl | cases answer <;> rfl

theorem World.after_sidecars (writes : ∀ txid tx, op ≠ .writeSidecar txid tx)
    (removes : ∀ txid why, op ≠ .removeSidecar txid why) :
    (w.after op answer).sidecars = w.sidecars := by
  cases op with
  | writeSidecar txid tx => exact absurd rfl (writes txid tx)
  | removeSidecar txid why => exact absurd rfl (removes txid why)
  | _ => first | rfl | cases answer <;> rfl

theorem World.after_checkpoint (saves : ∀ height, op ≠ .saveCheckpoint height) :
    (w.after op answer).checkpoint = w.checkpoint := by
  cases op with
  | saveCheckpoint height => exact absurd rfl (saves height)
  | _ => first | rfl | cases answer <;> rfl

end Frame

/-! ## One call each -/

def loadPolicy : Prog Policy := .call .loadPolicy .ofExcept

def nowUnix : Prog ℕ := .call .nowUnix .pure

def syncWallet : Prog Unit := .call .syncWallet .ofExcept

def finishPsbt (request : BuildRequest) : Prog Psbt := .call (.finishPsbt request) .ofExcept

def signTx (tx : Tx) : Prog Unit := .call (.sign tx) .ofExcept

def broadcast (tx : Tx) : Prog Unit := .call (.broadcast tx) .ofExcept

def confirmations (txid : String) : Prog ℕ := .call (.confirmations txid) .ofExcept

def depositsTo (address : String) : Prog (List Deposit) := .call (.depositsTo address) .ofExcept

def eprintln (line : String) : Prog Unit := .call (.eprintln line) .pure

def wireSend (message : Message) : Prog Unit := .call (.wireSend message) .ofExcept

def tipHeight : Prog ℕ := .call .tipHeight .ofExcept

def blockHash (height : ℕ) : Prog String := .call (.blockHash height) .ofExcept

def blockTxs (hash : String) (start : ℕ) : Prog (List EsploraTx) :=
  .call (.blockTxs hash start) .ofExcept

def outspend (txid : String) (vout : ℕ) : Prog Bool := .call (.outspend txid vout) .ofExcept

def loadCheckpoint : Prog (Option ℕ) := .call .loadCheckpoint .ofExcept

def saveCheckpoint (height : ℕ) : Prog Unit :=
  .call (.saveCheckpoint height) fun answer => match answer with
    | .ok => .pure ()
    | .lost error | .torn error => .throw error

def httpGet (url : String) (payment : Option String) : Prog Resp :=
  .call (.httpGet url payment) .ofExcept

/-- A policy refusal ends the caller with its message. -/
def gate : Except PolicyError Unit → Prog Unit
  | .ok () => .pure ()
  | .error refusal => .throw refusal.display

namespace Ledger

def openWithIdentity : Prog Handle := .call .openLedger .ofExcept

def entries (led : Handle) : Prog (List Entry) := .call (.entries led) .pure

/-- Write the line, fsync, then remember the entry; an error leaves the instance as it was. -/
def append (led : Handle) (entry : Entry) : Prog Unit :=
  .call (.append led entry) fun answer => match answer with
    | .ok => .pure ()
    | .lost error | .kept error => .throw error

def writeSidecar (txid : String) (tx : Tx) : Prog Unit :=
  .call (.writeSidecar txid tx) fun answer => match answer with
    | .ok => .pure ()
    | .lost error | .torn error => .throw error

def readSidecar (txid : String) : Prog (Option Sidecar) := .call (.readSidecar txid) .ofExcept

def removeSidecar (txid : String) (why : Removal) : Prog Unit :=
  .call (.removeSidecar txid why) .ofExcept

def listSidecars : Prog (List String) := .call .listSidecars .ofExcept

/-- Book a deposit as pending, unless its txid is already in the ledger. -/
def recordReceived (led : Handle) (txid : String) (sats index : ℕ) : Prog Bool := do
  let es ← entries led
  if hasTxid es txid then
    return false
  append led (.received (nextSeq es) txid sats index .pending)
  return true

/-- Book a scanned output as pending, unless its outpoint is already booked. -/
def recordSpReceived (led : Handle) (txid : String) (vout sats : ℕ) (tweak : String) :
    Prog Bool := do
  let es ← entries led
  if hasSpOutput es txid vout then
    return false
  append led (.spReceived (nextSeq es) txid vout sats tweak .pending)
  return true

/-- Mark an outpoint spent, once. -/
def recordSpSpent (led : Handle) (txid : String) (vout : ℕ) : Prog Bool := do
  let es ← entries led
  if isSpSpent es txid vout then
    return false
  append led (.spSpent (nextSeq es) txid vout)
  return true

def updateStatus (led : Handle) (txid : String) (status : Status) : Prog Unit := do
  let es ← entries led
  append led (.statusUpdate (nextSeq es) txid status)

end Ledger

end ComputerMoney.Kernel

/-
# Kernel.Pay -- build, record, broadcast, in that order

The three builders share one shape: the mainnet guard, the wallet sync, the coin
selection (`finishPsbt`), the fee cap before anything is signed, the signature.  The
three send paths share another: build, write the signed transaction beside the ledger,
append a pending `sent`, and only then broadcast.  The silent-payment paths then mark
each output they consumed as spent.

Policy checks on amount and destination are the callers' (`Kernel.Net`, `Kernel.Fetch`);
only the backstop on a silent payment's derived address is made here, after the build.
-/
import ComputerMoney.Kernel.Host
import ComputerMoney.Theory.Hex

namespace ComputerMoney.Kernel

set_option autoImplicit false

open Theory

/-! ## Silent-payment codes -/

/-- The five bits of a bech32 symbol, high bit first. -/
def symbolBits (symbol : ℕ) : List ℕ :=
  [symbol / 16 % 2, symbol / 8 % 2, symbol / 4 % 2, symbol / 2 % 2, symbol % 2]

/-- Whole bytes from a bit string; an incomplete last byte is dropped unread. -/
def bytesOfBits : List ℕ → List UInt8
  | b₇ :: b₆ :: b₅ :: b₄ :: b₃ :: b₂ :: b₁ :: b₀ :: rest =>
      UInt8.ofNat (128 * b₇ + 64 * b₆ + 32 * b₅ + 16 * b₄ + 8 * b₃ + 4 * b₂ + 2 * b₁ + b₀) ::
        bytesOfBits rest
  | _ => []

/-- `fes_to_bytes`. -/
def fesToBytes (symbols : List ℕ) : List UInt8 := bytesOfBits (symbols.flatMap symbolBits)

/-- The network a code's prefix names; `tsp` stands for signet. -/
def hrpNetwork (hrp : String) : Except Error Network :=
  match String.ofList (hrp.toList.map Text.asciiLower) with
  | "sp" => .ok .bitcoin
  | "tsp" => .ok .signet
  | other => .error ("silent-payment code: unknown sp hrp '" ++ other ++ "'")

/-- `sp::decode`: the scan key, the spend key and the network of a code. -/
def decode (host : Host) (code : String) : Except Error (PublicKey × PublicKey × Network) :=
  match host.bech32m (Text.trim code.toList) with
  | .error e => .error ("silent-payment code: bad bech32m: " ++ e)
  | .ok (hrp, symbols) => do
      let network ← hrpNetwork hrp
      match symbols with
      | [] => .error "silent-payment code: empty sp payload"
      | version :: payload =>
          if version ≠ 0 then .error "silent-payment code: unsupported sp version"
          else
            let bytes := fesToBytes payload
            if bytes.length ≠ 66 then
              .error ("silent-payment code: sp payload is " ++ toString bytes.length ++
                " bytes, want 66")
            else do
              let scan ← host.pubkeyFromSlice (bytes.take 33)
              let spend ← host.pubkeyFromSlice (bytes.drop 33)
              return (scan, spend, network)

/-! ## Builders -/

/-- The fee cap, checked before signing. -/
def feeCap (fee : ℕ) : Option ℕ → Prog Unit
  | some cap =>
      if fee > cap then
        .throw ("fee " ++ toString fee ++ " sats exceeds policy cap " ++ toString cap ++
          " sats; not broadcasting")
      else .pure ()
  | none => .pure ()

/-- Refuse a mainnet build under an uncapped policy, before anything else happens. -/
def mainnetGuard (host : Host) : Prog Unit := do
  let policy ← loadPolicy
  gate (ensureMainnetCapped host.network policy)

/-- `Txid::from_str` and back: 64 hex digits, in lower case. -/
def canonicalTxid (txid : String) : Except Error String :=
  if txid.toList.length = 64 ∧ txid.toList.all (fun c => (Hex.digitValue? c).isSome) then
    .ok (String.ofList (txid.toList.map Text.asciiLower))
  else .error "invalid txid"

def outpointsOf : List Ledger.SpUtxo → Except Error (List OutPoint)
  | [] => .ok []
  | u :: funds => do
      let txid ← canonicalTxid u.txid
      let rest ← outpointsOf funds
      return (txid, u.vout) :: rest

/-- The fee cap, then the signature, then the finished transaction. -/
def signed (psbt : Psbt) (sats : ℕ) (maxFeeSats : Option ℕ) : Prog Tx := do
  let tx : Tx := ⟨psbt.txid, sats, psbt.fee, psbt.inputs⟩
  feeCap psbt.fee maxFeeSats
  signTx tx
  return tx

def buildSigned (host : Host) (payee : String) (sats : ℕ) (maxFeeSats : Option ℕ) : Prog Tx := do
  mainnetGuard host
  syncWallet
  let recipient ← .ofExcept (host.parseAddress payee)
  let psbt ← finishPsbt (.plain recipient sats)
  signed psbt sats maxFeeSats

def buildSignedToSp (host : Host) (scan spend : PublicKey) (sats : ℕ) (maxFeeSats : Option ℕ)
    (funds : List Ledger.SpUtxo) : Prog (Tx × Address × List OutPoint) := do
  mainnetGuard host
  syncWallet
  let consumed ← .ofExcept (outpointsOf funds)
  let psbt ← finishPsbt (.toSp scan spend sats funds)
  let tx ← signed psbt sats maxFeeSats
  return (tx, psbt.recipient, consumed)

def buildSignedSpendingSp (host : Host) (payee : String) (sats : ℕ) (maxFeeSats : Option ℕ)
    (funds : List Ledger.SpUtxo) : Prog (Tx × List OutPoint) :=
  if funds.isEmpty then do
    let tx ← buildSigned host payee sats maxFeeSats
    return (tx, [])
  else do
    mainnetGuard host
    syncWallet
    let recipient ← .ofExcept (host.parseAddress payee)
    let consumed ← .ofExcept (outpointsOf funds)
    let psbt ← finishPsbt (.spendingSp recipient sats funds)
    let tx ← signed psbt sats maxFeeSats
    return (tx, consumed)

/-! ## Send paths -/

/-- Sidecar, pending `sent`, broadcast: the write-ahead order every path shares. -/
def record (led : Handle) (tx : Tx) (sats : ℕ) (payee : String) : Prog Unit := do
  Ledger.writeSidecar tx.txid tx
  let es ← Ledger.entries led
  let now ← nowUnix
  Ledger.append led (.sent (Ledger.nextSeq es) tx.txid sats payee .pending now)
  broadcast tx

/-- `pay::send`. -/
def send (host : Host) (led : Handle) (payee : String) (sats : ℕ) (maxFeeSats : Option ℕ) :
    Prog String := do
  let tx ← buildSigned host payee sats maxFeeSats
  record led tx sats payee
  return tx.txid

/-- Book every consumed silent-payment output as spent. -/
def markSpent (led : Handle) (consumed : List OutPoint) : Prog Unit :=
  .forEach consumed fun op => do
    let _ ← Ledger.recordSpSpent led op.1 op.2

/-- Smallest silent-payment send. -/
def spMinSats : ℕ := 330

def Network.debug : Network → String
  | .bitcoin => "Bitcoin"
  | .testnet => "Testnet"
  | .signet => "Signet"

/-- `pay::sp_send`. -/
def spSend (host : Host) (led : Handle) (code : String) (sats : ℕ) (maxFeeSats : Option ℕ) :
    Prog String :=
  if sats < spMinSats then
    .throw ("silent-payment sends need at least " ++ toString spMinSats ++
      " sats (receiver scanners ignore dust below that floor); got " ++ toString sats)
  else do
    let (scan, spend, net) ← .ofExcept (decode host code)
    if net ≠ host.network then
      .throw ("silent-payment code is for " ++ net.debug ++ ", wallet is on " ++
        host.network.debug)
    else do
      let es ← Ledger.entries led
      .ofExcept host.spSpendKeypair
      let (tx, address, consumed) ←
        buildSignedToSp host scan spend sats maxFeeSats (Ledger.spUtxos es)
      let policy ← loadPolicy
      gate (policy.checkAddress address.display)
      record led tx sats code
      markSpent led consumed
      return tx.txid

/-- `pay::send_spending_sp`. -/
def sendSpendingSp (host : Host) (led : Handle) (payee : String) (sats : ℕ)
    (maxFeeSats : Option ℕ) : Prog String := do
  let es ← Ledger.entries led
  .ofExcept host.spSpendKeypair
  let (tx, consumed) ← buildSignedSpendingSp host payee sats maxFeeSats (Ledger.spUtxos es)
  record led tx sats payee
  markSpent led consumed
  return tx.txid

end ComputerMoney.Kernel

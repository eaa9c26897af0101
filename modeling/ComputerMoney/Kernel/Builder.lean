/-
# Kernel.Builder -- from coins to a signed transaction

The three builders of `chain.rs`.  Each scans the wallet's descriptors, asks for a feerate,
tells bdk's builder what to pay and from which inputs, and signs what comes back.

Two of them spend silent-payment income, which no descriptor covers: its outputs are added as
foreign inputs, and signed by hand with the spend key and the tweak that the ledger keeps.  A
payment to a silent-payment code needs its inputs before it has an address, so there the coins
are selected here, the secret of each is derived once more from the master key, and bdk may
add no other.

bdk, the chain and the keys are the libraries': the calls are `ChainOp`, the pure functions
`Keys`.  A panic is an end of its own (`Stop`).
-/
import ComputerMoney.Kernel.CoinSelection
import ComputerMoney.Kernel.Mcp
import ComputerMoney.Kernel.Pay
import ComputerMoney.Kernel.SilentPayment
import ComputerMoney.Kernel.Storage
import ComputerMoney.Theory.Returns

namespace ComputerMoney.Kernel.Builder

set_option autoImplicit false

open Theory
open Kernel.Sp (Secp SpInput RawOutPoint parseTxid taprootInputKey spendKeypair sendAddress
  p2trScript orFail)

/-! ## Transactions -/

/-- An input of an unsigned transaction, with what a PSBT holds for it. -/
structure PsbtInput where
  previousOutput : OutPoint
  witnessUtxo : Option Vout
  tapKeySig : Option (List UInt8)
  finalScriptWitness : Option (List (List UInt8))
  deriving DecidableEq, Repr

structure Psbt where
  /-- Version, lock time and sequences. -/
  head : List UInt8
  inputs : List PsbtInput
  outputs : List Vout
  deriving DecidableEq, Repr

structure TxIn where
  previousOutput : OutPoint
  witness : List (List UInt8)
  deriving DecidableEq, Repr

structure Transaction where
  head : List UInt8
  inputs : List TxIn
  outputs : List Vout
  deriving DecidableEq, Repr

/-- What the signatures of a transaction are over. -/
structure Unsigned where
  head : List UInt8
  inputs : List OutPoint
  outputs : List Vout
  deriving DecidableEq, Repr

def Psbt.unsignedTx (psbt : Psbt) : Unsigned :=
  ⟨psbt.head, psbt.inputs.map PsbtInput.previousOutput, psbt.outputs⟩

def Transaction.unsigned (tx : Transaction) : Unsigned :=
  ⟨tx.head, tx.inputs.map TxIn.previousOutput, tx.outputs⟩

/-- The transaction in a PSBT, with the witnesses that it has. -/
def Psbt.transaction (psbt : Psbt) : Transaction :=
  ⟨psbt.head, psbt.inputs.map fun input =>
    ⟨input.previousOutput, input.finalScriptWitness.getD []⟩, psbt.outputs⟩

/-- An output of `txid` as consensus names it. -/
def raw (o : OutPoint) : RawOutPoint := ((parseTxid o.1).getD [], o.2)

/-- An input that bdk cannot sign. -/
structure Foreign where
  outpoint : OutPoint
  witnessUtxo : Vout
  satisfactionWeight : ℕ
  deriving DecidableEq, Repr

/-- What the builder was told. -/
structure TxRequest where
  feerate : ℕ
  manuallySelectedOnly : Bool
  utxos : List OutPoint
  foreign : List Foreign
  recipient : Vout
  deriving DecidableEq, Repr

/-! ## The libraries -/

/-- BIP-32, the text of a master key, and key-path signatures. -/
structure Keys (F G X Xpriv : Type) [Field F] [AddCommGroup G] [Module F G] extends Secp F G X where
  /-- `DerivationPath::from_str` and `derive_priv`. -/
  derivePriv : Xpriv → String → Except Error (Secret F)
  xprivText : Xpriv → List Char
  xprivOf : List Char → Except Error Xpriv
  xprivOf_xprivText : ∀ key, xprivOf (xprivText key) = .ok key
  /-- Base58 has no slash. -/
  xprivText_plain : ∀ key, ∀ c ∈ xprivText key, c ≠ '/'
  parseAddress : Network → String → Except Error Address
  /-- The text of a Taproot address with this output key. -/
  p2trDisplay : Network → X → String
  /-- `taproot_key_spend_signature_hash` of an input, under all these outputs spent. -/
  sighash : Unsigned → ℕ → List Vout → Except Error (List UInt8)
  signSchnorr : Secret F → List UInt8 → List UInt8
  verifySchnorr : X → List UInt8 → List UInt8 → Bool
  verify_sign : ∀ sk digest,
    verifySchnorr (xOnly (sk.1 • gen)) digest (signSchnorr sk digest) = true
  /-- `psbt.fee()`. -/
  psbtFee : Psbt → Except Error ℕ
  psbtFee_eq : ∀ psbt fee prevouts, psbt.inputs.mapM PsbtInput.witnessUtxo = some prevouts →
    psbtFee psbt = .ok fee →
      (prevouts.map Vout.value).sum = (psbt.outputs.map Vout.value).sum + fee
  /-- What `extract_tx` refuses. -/
  extractable : Psbt → Except Error Unit
  /-- What the curve says of a sum or a product that is no key. -/
  secpError : Error

inductive ChainOp where
  | loadPolicy
  /-- A new bdk wallet is made and synced. -/
  | fullScan
  /-- `get_fee_estimates().unwrap_or_default()`, each rate rounded up to a `u64`. -/
  | feeEstimates
  | listUnspent
  | addUtxo (outpoint : OutPoint)
  | addForeignUtxo (foreign : Foreign)
  | finish (request : TxRequest)
  /-- Sign; and finalize, unless the inputs are mixed. -/
  | sign (psbt : Psbt) (mixed : Bool)
  deriving DecidableEq

def ChainOp.Ans : ChainOp → Type
  | .loadPolicy => Except Error Policy
  | .fullScan => Except Error Unit
  | .feeEstimates => List (ℕ × ℕ)
  | .listUnspent => List DescUtxo
  | .addUtxo _ | .addForeignUtxo _ => Except Error Unit
  | .finish _ => Except Error Psbt
  | .sign _ _ => Except Error (Psbt × Bool)

@[reducible] def chainSig : Signature := ⟨ChainOp, ChainOp.Ans⟩

/-- An error that is returned, or a panic. -/
inductive Stop where
  | failed (e : Error)
  | panicked
  deriving DecidableEq, Repr

abbrev Chain (α : Type) := Program chainSig Stop α

def returned {α : Type} (outcome : Except Error α) : Chain α := .ofExcept (outcome.mapError .failed)

/-- A function that may panic. -/
def handled {α : Type} (outcome : Mcp.Handler α) : Chain α :=
  match outcome.run with
  | none => .throw .panicked
  | some outcome => returned outcome

def loadPolicy : Chain Policy := .call .loadPolicy returned

def fullScan : Chain Unit := .call .fullScan returned

def feeEstimates : Chain (List (ℕ × ℕ)) := .call .feeEstimates .pure

def listUnspent : Chain (List DescUtxo) := .call .listUnspent .pure

def addUtxo (outpoint : OutPoint) : Chain Unit := .call (.addUtxo outpoint) returned

def addForeignUtxo (foreign : Foreign) : Chain Unit := .call (.addForeignUtxo foreign) returned

def finish (request : TxRequest) : Chain Psbt := .call (.finish request) returned

def sign (psbt : Psbt) (mixed : Bool) : Chain (Psbt × Bool) := .call (.sign psbt mixed) returned

/-! ## Keys of the wallet -/

/-- `sp::Error`, with the curve's own text. -/
def spDisplay (secp : Error) : Sp.Error → Error
  | .secp => "secp256k1: " ++ secp
  | .scalar => "silent-payment scalar out of range"
  | .noInputs => "silent payment needs at least one input"

def coinType (network : Network) : ℕ := if network = .bitcoin then 0 else 1

def keychainBranch : KeychainKind → ℕ
  | .external => 0
  | .internal => 1

/-- The path of a BIP-86 leaf. -/
def leafPath (coin branch index : ℕ) : String :=
  "m/86'/" ++ toString coin ++ "'/0'/" ++ toString branch ++ "/" ++ toString index

section

variable {F G X Xpriv : Type} [Field F] [AddCommGroup G] [Module F G] [DecidableEq F]
  [DecidableEq G] (keys : Keys F G X Xpriv)

/-- One of `Wallet::descriptors`. -/
def descriptor (wallet : Storage.Wallet Xpriv) (branch : ℕ) : List Char :=
  "tr(".toList ++ keys.xprivText wallet.root ++ ("/86h/" ++ toString wallet.coinType ++ "h/0h/" ++
    toString branch ++ "/*)").toList

def descriptors (wallet : Storage.Wallet Xpriv) : List Char × List Char :=
  (descriptor keys wallet 0, descriptor keys wallet 1)

def silent {α : Type} (outcome : Except Sp.Error α) : Chain α :=
  returned (outcome.mapError (spDisplay keys.secpError))

/-- `master_xprv_from_descriptor`. -/
def masterXprvFromDescriptor (desc : List Char) : Except Error Xpriv :=
  match Text.stripStart "tr(".toList desc with
  | none => .error "descriptor is not a tr() descriptor"
  | some inner => keys.xprivOf (inner.takeWhile (· ≠ '/'))

/-- The BIP-341 tweak of an x-only key without scripts. -/
def tapTweakScalar (key : X) : Option F :=
  keys.scalarOf (keys.taggedHash "TapTweak" (keys.xBytes key))

/-- `tap_tweak` of a keypair: the even one of the key and its negation, and the tweak. -/
def tapTweak (sk : Secret F) : Option (Secret F) :=
  (tapTweakScalar keys (keys.xOnly (keys.publicKey sk).1)).bind (addTweak (keys.normalize sk))

/-- `taproot_input_secret`. -/
def taprootInputSecret (master : Xpriv) (coin branch index : ℕ) : Chain (Secret F) := do
  let child ← returned (keys.derivePriv master (leafPath coin branch index))
  match tapTweak keys child with
  | none => .throw .panicked
  | some tweaked => return taprootInputKey keys.toSecp tweaked

/-- `Wallet::address`, up to its text: the output key of a leaf, from its public key. -/
def addressKey (wallet : Storage.Wallet Xpriv) (branch index : ℕ) : Option X :=
  match keys.derivePriv wallet.root (leafPath wallet.coinType branch index) with
  | .error _ => none
  | .ok child =>
      let key := keys.xOnly (keys.publicKey child).1
      (tapTweakScalar keys key).map fun t => keys.xOnly ((keys.lift key).1 + t • keys.gen)

end

/-! ## Fees -/

def maxFeerateSatPerVb : ℕ := 200

def clampFeerate (satPerVb : ℕ) : ℕ := max 1 (min satPerVb maxFeerateSatPerVb)

/-- The six-block estimate, else a faster one, else a constant of the network. -/
def recommendedFeerate (network : Network) : Chain ℕ := do
  let est ← feeEstimates
  let estimate := (est.lookup 6).or ((est.lookup 3).or ((est.lookup 2).or (est.lookup 1)))
  return clampFeerate (estimate.getD (if network = .bitcoin then 6 else 1))

def feeCap (fee : ℕ) : Option ℕ → Chain Unit
  | some cap =>
      if fee > cap then
        .throw (.failed ("fee " ++ toString fee ++ " sats exceeds policy cap " ++ toString cap ++
          " sats; not broadcasting"))
      else .pure ()
  | none => .pure ()

def mainnetGuard (network : Network) : Chain Unit := do
  let policy ← loadPolicy
  returned ((ensureMainnetCapped network policy).mapError PolicyError.display)

/-! ## Silent-payment inputs -/

section

variable {F G X Xpriv : Type} [Field F] [AddCommGroup G] [Module F G] [DecidableEq F]
  [DecidableEq G] (keys : Keys F G X Xpriv)

/-- A silent-payment output as an input: where it is, its tweak, and the secret of its key. -/
def pinned (spSpendSk : Secret F) (u : Ledger.SpUtxo) : Chain (OutPoint × List UInt8 × Secret F) :=
  do
    let txid ← returned (canonicalTxid u.txid)
    let tweak ← handled (Mcp.decodeHex32 u.tweak.toList)
    let sk ← silent keys (spendKeypair keys.toSecp spSpendSk tweak)
    return ((txid, u.vout), tweak, sk)

/-- The output itself: its key is used as it is. -/
def pinnedUtxo (sk : Secret F) (sats : ℕ) : Vout :=
  ⟨p2trScript keys.toSecp (keys.xOnly (keys.publicKey sk).1), sats⟩

/-- Add one to the builder. -/
def addPinned (spSpendSk : Secret F) (u : Ledger.SpUtxo) : Chain (Foreign × List UInt8) := do
  let (outpoint, tweak, sk) ← pinned keys spSpendSk u
  let foreign : Foreign := ⟨outpoint, pinnedUtxo keys sk u.sats, 66⟩
  addForeignUtxo foreign
  return (foreign, tweak)

/-- `finalize_mixed_psbt` for one input. -/
def finalizeInput (spByOutpoint : List (OutPoint × List UInt8)) (spSpendSk : Secret F)
    (unsigned : Unsigned) (prevouts : List Vout) (i : ℕ) (input : PsbtInput) : Chain PsbtInput :=
  match spByOutpoint.find? fun entry => entry.1 = input.previousOutput with
  | some (_, tweak) => do
      let digest ← returned (keys.sighash unsigned i prevouts)
      let sk ← silent keys (spendKeypair keys.toSecp spSpendSk tweak)
      return { input with finalScriptWitness := some [keys.signSchnorr sk digest] }
  | none =>
      match input.tapKeySig with
      | some signature => return { input with finalScriptWitness := some [signature] }
      | none => .throw (.failed ("descriptor input " ++ toString i ++ " was not signed"))

/-- `finalize_mixed_psbt`. -/
def finalizeMixedPsbt (psbt : Psbt) (spByOutpoint : List (OutPoint × List UInt8))
    (spSpendSk : Secret F) : Chain Psbt :=
  match psbt.inputs.mapM PsbtInput.witnessUtxo with
  | none => .throw (.failed "psbt input missing witness_utxo")
  | some prevouts => do
      let inputs ← .each (fun entry => finalizeInput keys spByOutpoint spSpendSk psbt.unsignedTx
        prevouts entry.2 entry.1) psbt.inputs.zipIdx
      return { psbt with inputs }

/-- The fee cap, then the signatures, then the transaction. -/
def signMixed (psbt : Psbt) (maxFeeSats : Option ℕ) (spByOutpoint : List (OutPoint × List UInt8))
    (spSpendSk : Secret F) : Chain (Transaction × ℕ) := do
  let fee ← returned (keys.psbtFee psbt)
  feeCap fee maxFeeSats
  let (psbt, _) ← sign psbt true
  let psbt ← finalizeMixedPsbt keys psbt spByOutpoint spSpendSk
  returned (keys.extractable psbt)
  return (psbt.transaction, fee)

/-! ## The builders -/

/-- `build_signed`. -/
def buildSigned (network : Network) (payee : String) (sats : ℕ) (maxFeeSats : Option ℕ) :
    Chain (Transaction × ℕ) := do
  mainnetGuard network
  fullScan
  let recipient ← returned (keys.parseAddress network payee)
  let feerate ← recommendedFeerate network
  let psbt ← finish ⟨feerate, false, [], [], ⟨recipient.script, sats⟩⟩
  let fee ← returned (keys.psbtFee psbt)
  feeCap fee maxFeeSats
  let (psbt, finalized) ← sign psbt false
  if finalized then do
    returned (keys.extractable psbt)
    return (psbt.transaction, fee)
  else .throw (.failed "psbt did not fully sign")

/-- `build_signed_to_sp`. -/
def buildSignedToSp (network : Network) (extDesc : List Char) (scan spend : Point G) (sats : ℕ)
    (maxFeeSats : Option ℕ) (spUtxos : List Ledger.SpUtxo) (spSpendSk : Secret F) :
    Chain (Transaction × ℕ × Address × List OutPoint) := do
  mainnetGuard network
  fullScan
  let feerate ← recommendedFeerate network
  let spInputs ← .each (pinned keys spSpendSk) spUtxos
  let coins ← listUnspent
  let spTotal := (spUtxos.map Ledger.SpUtxo.sats).foldl u64Add 0
  match selectLargestFirst coins sats feerate spTotal spUtxos.length with
  | none => .throw (.failed ("insufficient funds for silent payment: need " ++ toString sats ++
      " sats + fee (ordinary + silent-payment income together)"))
  | some selected => do
      let master ← returned (masterXprvFromDescriptor keys extDesc)
      let secrets ← .each (fun coin => taprootInputSecret keys master (coinType network)
        (keychainBranch coin.keychain) coin.index) selected
      let key ← silent keys (sendAddress keys.toSecp
        (spInputs.map (fun input => ⟨raw input.1, taprootInputKey keys.toSecp input.2.2⟩) ++
          (selected.zip secrets).map fun input => ⟨raw input.1.outpoint, input.2⟩) scan spend)
      let recipient : Address := ⟨p2trScript keys.toSecp key, keys.p2trDisplay network key⟩
      let _ ← .each (fun coin => addUtxo coin.outpoint) selected
      let foreign ← .each (addPinned keys spSpendSk) spUtxos
      let psbt ← finish ⟨feerate, true, selected.map DescUtxo.outpoint, foreign.map Prod.fst,
        ⟨recipient.script, sats⟩⟩
      let (tx, fee) ← signMixed keys psbt maxFeeSats
        (spInputs.map fun input => (input.1, input.2.1)) spSpendSk
      return (tx, fee, recipient, spInputs.map Prod.fst)

/-- `build_signed_spending_sp`. -/
def buildSignedSpendingSp (network : Network) (payee : String) (sats : ℕ) (maxFeeSats : Option ℕ)
    (spUtxos : List Ledger.SpUtxo) (spSpendSk : Secret F) :
    Chain (Transaction × ℕ × List OutPoint) :=
  if spUtxos.isEmpty then do
    let (tx, fee) ← buildSigned keys network payee sats maxFeeSats
    return (tx, fee, [])
  else do
    mainnetGuard network
    fullScan
    let recipient ← returned (keys.parseAddress network payee)
    let feerate ← recommendedFeerate network
    let foreign ← .each (addPinned keys spSpendSk) spUtxos
    let psbt ← finish ⟨feerate, false, [], foreign.map Prod.fst, ⟨recipient.script, sats⟩⟩
    let (tx, fee) ← signMixed keys psbt maxFeeSats
      (foreign.map fun input => (input.1.outpoint, input.2)) spSpendSk
    return (tx, fee, foreign.map fun input => input.1.outpoint)

end

end ComputerMoney.Kernel.Builder

/-
# Kernel.SilentPayment -- BIP-352, sender and receiver

The sender adds the secret keys of its inputs, hashes the smallest outpoint with the sum
and derives a one-time output key for the receiver's code.  The receiver reads the public
keys of a transaction's inputs out of scripts and witnesses, adds those, hashes, and
looks for its own derived keys among the outputs, one index at a time.

The curve is any group with x-only points (`Theory.Curve`); the byte encodings and the
tagged hash are the library's, and parameters here (`Secp`).  Every scalar or point that
could come out zero or out of range is an error, where the source returns one.
-/
import ComputerMoney.Theory.Curve
import ComputerMoney.Theory.Hex
import ComputerMoney.Theory.Text
import ComputerMoney.Kernel.Host

namespace ComputerMoney.Kernel.Sp

set_option autoImplicit false

open Theory

inductive Error where
  | secp
  | scalar
  | noInputs
  deriving DecidableEq, Repr

/-- A transaction output as consensus names it: the 32 bytes of the txid, and the index. -/
abbrev RawOutPoint := List UInt8 × ℕ

/-- The curve with its encodings and its hash. -/
structure Secp (F G X : Type) [Field F] [AddCommGroup G] [Module F G] extends Curve G X where
  secretBytes : F → List UInt8
  scalarOf : List UInt8 → Option F
  scalarOf_secretBytes : ∀ s, scalarOf (secretBytes s) = some s
  pointBytes : G → List UInt8
  pointOf : List UInt8 → Option (Point G)
  xBytes : X → List UInt8
  xOf : List UInt8 → Option X
  xBytes_length : ∀ x, (xBytes x).length = 32
  xOf_xBytes : ∀ x, xOf (xBytes x) = some x
  taggedHash : String → List UInt8 → List UInt8

def orFail {α : Type} (error : Error) : Option α → Except Error α
  | some value => .ok value
  | none => .error error

/-! ## Outpoints -/

def leBytes : ℕ → ℕ → List UInt8
  | 0, _ => []
  | n + 1, value => UInt8.ofNat (value % 256) :: leBytes n (value / 256)

def serOutpoint (o : RawOutPoint) : List UInt8 := o.1 ++ leBytes 4 o.2

/-- The first outpoint whose serialization is least. -/
def smallestOutpoint : List RawOutPoint → Option RawOutPoint
  | [] => none
  | o :: os => some (os.foldl (fun least o => if serOutpoint o < serOutpoint least then o else least) o)

/-- `Txid::from_str`: 64 hex digits, shown in reverse byte order. -/
def parseTxid (text : String) : Option (List UInt8) :=
  match Hex.fromHex text.toList with
  | some bytes => if bytes.length = 32 then some bytes.reverse else none
  | none => none

section

variable {F G X : Type} [Field F] [AddCommGroup G] [Module F G] [DecidableEq F] [DecidableEq G]
  [DecidableEq X] (secp : Secp F G X)

/-- An input the sender contributes, with its key already normalized. -/
structure SpInput (F : Type) [Zero F] where
  outpoint : RawOutPoint
  key : Secret F

/-- The receiver's view of a transaction's inputs. -/
structure TxInputs (G : Type) [Zero G] where
  pubkeys : List (Point G)
  smallestOutpoint : RawOutPoint

def taprootInputKey (sk : Secret F) : Secret F := secp.normalize sk

def scalar (bytes : List UInt8) : Except Error F := orFail .scalar (secp.scalarOf bytes)

def inputHash (smallest : RawOutPoint) (aSum : Point G) : List UInt8 :=
  secp.taggedHash "BIP0352/Inputs" (serOutpoint smallest ++ secp.pointBytes aSum.1)

/-- `SecretKey::from_slice`. -/
def secretOf (bytes : List UInt8) : Option (Secret F) :=
  match secp.scalarOf bytes with
  | some t => if nonzero : t ≠ 0 then some ⟨t, nonzero⟩ else none
  | none => none

/-- `t_k`, the hash of the shared point and the index. -/
def tweakAt (ecdh : Point G) (k : ℕ) : List UInt8 :=
  secp.taggedHash "BIP0352/SharedSecret" (secp.pointBytes ecdh.1 ++ (leBytes 4 k).reverse)

/-- Output key and tweak at index `k`. -/
def outputAt (ecdh spend : Point G) (k : ℕ) : Except Error (X × List UInt8) := do
  let tsk ← orFail .secp (secretOf secp (tweakAt secp ecdh k))
  let pk ← orFail .secp (combine spend (secp.publicKey tsk))
  return (secp.xOnly pk.1, tweakAt secp ecdh k)

/-! ## Sending -/

/-- Sum the input keys, left to right. -/
def sumKeys : Secret F → List (SpInput F) → Except Error (Secret F)
  | aSum, [] => .ok aSum
  | aSum, input :: rest => do
      let t ← scalar secp (secp.secretBytes input.key.1)
      let aSum' ← orFail .secp (addTweak aSum t)
      sumKeys aSum' rest

def senderContext (inputs : List (SpInput F)) : Except Error (Secret F × List UInt8) :=
  match inputs with
  | [] => .error .noInputs
  | first :: rest => do
      let aSum ← sumKeys secp first.key rest
      let smallest ← orFail .noInputs (smallestOutpoint (inputs.map SpInput.outpoint))
      return (aSum, inputHash secp smallest (secp.publicKey aSum))

/-- The sender's half of the exchange: `input_hash * a_sum * B_scan`. -/
def sendShared (inputs : List (SpInput F)) (scan : Point G) : Except Error (Point G) := do
  let (aSum, hash) ← senderContext secp inputs
  let t ← scalar secp hash
  let part ← orFail .secp (mulTweak aSum t)
  let u ← scalar secp (secp.secretBytes part.1)
  orFail .secp (mulPoint scan u)

/-- The x-only output key of `sp::send_address`. -/
def sendAddress (inputs : List (SpInput F)) (scan spend : Point G) : Except Error X := do
  let ecdh ← sendShared secp inputs scan
  let (key, _) ← outputAt secp ecdh spend 0
  return key

/-- The script of a Taproot output with this key, in hex. -/
def p2trScript (key : X) : String := String.ofList ("5120".toList ++ Hex.hexLower (secp.xBytes key))

/-- `sp::spend_keypair`, by its secret key. -/
def spendKeypair (spendSk : Secret F) (tweak : List UInt8) : Except Error (Secret F) := do
  let t ← scalar secp tweak
  orFail .secp (addTweak spendSk t)

/-! ## Receiving -/

def sumPoints : Point G → List (Point G) → Except Error (Point G)
  | aSum, [] => .ok aSum
  | aSum, pk :: rest => do
      let aSum' ← orFail .secp (combine aSum pk)
      sumPoints aSum' rest

/-- The receiver's half: `input_hash * b_scan * A_sum`. -/
def receiveShared (inputs : TxInputs G) (scanSk : Secret F) : Except Error (Point G) :=
  match inputs.pubkeys with
  | [] => .error .noInputs
  | first :: rest => do
      let aSum ← sumPoints first rest
      let t ← scalar secp (inputHash secp inputs.smallestOutpoint aSum)
      let part ← orFail .secp (mulTweak scanSk t)
      let u ← scalar secp (secp.secretBytes part.1)
      orFail .secp (mulPoint aSum u)

/-- The first output with this key, and the others. -/
def takeKey (key : X) : List (ℕ × X × ℕ) → Option ((ℕ × X × ℕ) × List (ℕ × X × ℕ))
  | [] => none
  | output :: rest =>
      if output.2.1 = key then some (output, rest)
      else (takeKey key rest).map fun taken => (taken.1, output :: taken.2)

/-- Derive index after index until one is not among the remaining outputs.  Each found
output is removed, so as many turns as there are outputs are enough. -/
def receiveLoop (ecdh spend : Point G) : ℕ → ℕ → List (ℕ × X × ℕ) → Except Error (List SpFound)
  | _, _, [] => .ok []
  | 0, _, _ => .ok []
  | turns + 1, k, remaining => do
      let (key, tweak) ← outputAt secp ecdh spend k
      match takeKey key remaining with
      | some ((vout, _, sats), rest) => do
          let found ← receiveLoop ecdh spend turns (k + 1) rest
          return ⟨vout, sats, tweak⟩ :: found
      | none => return []

def receiveInner (inputs : TxInputs G) (outputs : List (ℕ × X × ℕ)) (scanSk : Secret F)
    (spend : Point G) : Except Error (List SpFound) := do
  let ecdh ← receiveShared secp inputs scanSk
  receiveLoop secp ecdh spend outputs.length 0 outputs

/-- Never an error: no matches instead. -/
def receiveCheck (inputs : TxInputs G) (outputs : List (ℕ × X × ℕ)) (scanSk : Secret F)
    (spend : Point G) : List SpFound :=
  match receiveInner secp inputs outputs scanSk spend with
  | .ok found => found
  | .error _ => []

/-! ## Reading a transaction -/

/-- A witness without its annex: a last item, not the only one, that starts `50`. -/
def dropAnnex (witness : List String) : List String :=
  match witness.getLast? with
  | some last =>
      if witness.length ≥ 2 ∧ Text.startsWith last.toList "50".toList then witness.dropLast
      else witness
  | none => witness

/-- The public key of an input, if its kind reveals one. -/
def inputPubkey (vin : Vin) : Option (Point G) :=
  if vin.isCoinbase then none
  else
    match vin.prevout with
    | none => none
    | some script =>
        match Text.stripStart "5120".toList script.toList with
        | some keyHex =>
            if Text.byteLength keyHex ≠ 64 then none
            else if (dropAnnex vin.witness).length ≠ 1 then none
            else (Hex.fromHex keyHex).bind fun bytes => (secp.xOf bytes).map secp.lift
        | none =>
            if Text.startsWith script.toList "0014".toList ∧ Text.byteLength script.toList = 44 then
              vin.witness.getLast?.bind fun pkHex =>
                (Hex.fromHex pkHex.toList).bind fun bytes => secp.pointOf bytes
            else none

def taprootOutputKey (script : String) : Option X :=
  (Text.stripStart "5120".toList script.toList).bind fun keyHex =>
    if Text.byteLength keyHex ≠ 64 then none
    else (Hex.fromHex keyHex).bind fun bytes => secp.xOf bytes

/-- The Taproot outputs, with their index and value. -/
def taprootOutputs (tx : EsploraTx) : List (ℕ × X × ℕ) :=
  tx.vout.zipIdx.filterMap fun entry =>
    (taprootOutputKey secp entry.1.scriptpubkey).map fun key => (entry.2, key, entry.1.value)

/-- `scan::tx_matches`. -/
def txMatches (tx : EsploraTx) (scanSk : Secret F) (spend : Point G) : List SpFound :=
  if tx.vin.any Vin.isCoinbase then []
  else
    let pubkeys := tx.vin.filterMap (inputPubkey secp)
    if pubkeys.isEmpty then []
    else
      match smallestOutpoint (tx.vin.filterMap fun vin =>
          (parseTxid vin.txid).map fun txid => (txid, vin.vout)) with
      | none => []
      | some smallest =>
          let outputs := taprootOutputs secp tx
          if outputs.isEmpty then []
          else receiveCheck secp ⟨pubkeys, smallest⟩ outputs scanSk spend

end

end ComputerMoney.Kernel.Sp

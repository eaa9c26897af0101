/-
# Safety.SilentPaymentFound -- what the sender derives, the receiver finds and can spend

The sender adds secret keys, each normalized to even parity; the receiver adds points,
each lifted from the x-only key in a script.  Normalizing a key makes its point the lift
(`Curve.normalize_public`), and adding keys is combining points (`addTweak_public`), so
the two running sums stay in step for any number of inputs and any mix of parities, and
one fails exactly where the other would (`sumPoints_public`).  The rest follows: the
same hash, the same shared point (`receiveShared_eq`), the same first output key.

`silent_payment_found` is the result, from the scripts and witnesses of a transaction to
the secret key of the output.
-/
import Mathlib.Algebra.Field.ZMod
import ComputerMoney.Kernel.SilentPayment
import ComputerMoney.Kernel.Script

namespace ComputerMoney.Safety

set_option autoImplicit false

open Theory
open Kernel hiding PublicKey Error
open Kernel.Sp

section

variable {F G X : Type} [Field F] [AddCommGroup G] [Module F G] (secp : Secp F G X)

/-! ## Scripts -/

theorem stripStart_p2trScript (key : X) :
    Text.stripStart "5120".toList (p2trScript secp key).toList =
      some (Hex.hexLower (secp.xBytes key)) := by
  have leads : (p2trScript secp key).toList = "5120".toList ++ Hex.hexLower (secp.xBytes key) :=
    String.toList_ofList
  rw [leads, Text.stripStart_append]

theorem byteLength_keyHex (key : X) : Text.byteLength (Hex.hexLower (secp.xBytes key)) = 64 := by
  rw [Hex.byteLength_of_digits (Hex.digits_hexLower _), Hex.length_hexLower, secp.xBytes_length]

/-- A Taproot output is read back to its key. -/
theorem taprootOutputKey_p2trScript (key : X) :
    taprootOutputKey secp (p2trScript secp key) = some key := by
  rw [taprootOutputKey, stripStart_p2trScript]
  simp [byteLength_keyHex, Hex.fromHex_hexLower, secp.xOf_xBytes]

/-- A witness of a key-path spend: the signature, and perhaps an annex. -/
def KeyPath (witness : List String) : Prop :=
  ∃ signature, witness = [signature] ∨
    ∃ annex, witness = [signature, annex] ∧ Text.startsWith annex.toList "50".toList = true

theorem dropAnnex_keyPath {witness : List String} (keyPath : KeyPath witness) :
    (dropAnnex witness).length = 1 := by
  obtain ⟨signature, rfl | ⟨annex, rfl, marked⟩⟩ := keyPath
  · simp [dropAnnex]
  · simp only [dropAnnex, List.getLast?_cons_cons, List.getLast?_singleton, marked]
    rfl

/-- `vin` spends the Taproot output at `input.1` by its secret key `input.2`. -/
structure Spends (vin : Vin) (input : RawOutPoint × Secret F) : Prop where
  notCoinbase : vin.isCoinbase = false
  txid : parseTxid vin.txid = some input.1.1
  vout : vin.vout = input.1.2
  prevout : vin.prevout = some (p2trScript secp (secp.xOnly (secp.publicKey input.2).1))
  witness : KeyPath vin.witness

/-- What the sender makes of an input. -/
def senderInput (input : RawOutPoint × Secret F) : SpInput F :=
  ⟨input.1, taprootInputKey secp input.2⟩

/-- The receiver reads the point of the sender's normalized key. -/
theorem inputPubkey_spends {vin : Vin} {input : RawOutPoint × Secret F}
    (spends : Spends secp vin input) :
    inputPubkey secp vin = some (secp.publicKey (senderInput secp input).key) := by
  rw [inputPubkey, spends.notCoinbase, spends.prevout]
  dsimp only
  rw [stripStart_p2trScript]
  simp [byteLength_keyHex, dropAnnex_keyPath spends.witness, Hex.fromHex_hexLower,
    secp.xOf_xBytes, senderInput, taprootInputKey, secp.normalize_public]

theorem pubkeys_spends {vins : List Vin} {inputs : List (RawOutPoint × Secret F)}
    (spends : List.Forall₂ (Spends secp) vins inputs) :
    vins.filterMap (inputPubkey secp) =
      (inputs.map (senderInput secp)).map fun input => secp.publicKey input.key := by
  induction spends with
  | nil => rfl
  | cons first _ ih => simp [inputPubkey_spends secp first, ih]

theorem outpoints_spends {vins : List Vin} {inputs : List (RawOutPoint × Secret F)}
    (spends : List.Forall₂ (Spends secp) vins inputs) :
    vins.filterMap (fun vin => (parseTxid vin.txid).map fun txid => (txid, vin.vout)) =
      (inputs.map (senderInput secp)).map SpInput.outpoint := by
  induction spends with
  | nil => rfl
  | cons first _ ih => simp [first.txid, first.vout, ih, senderInput]

theorem notCoinbase_spends {vins : List Vin} {inputs : List (RawOutPoint × Secret F)}
    (spends : List.Forall₂ (Spends secp) vins inputs) : vins.any Vin.isCoinbase = false := by
  induction spends with
  | nil => rfl
  | cons first _ ih => simp [first.notCoinbase, ih]

end

/-! ## The exchange -/

theorem orFail_ok {α : Type} {error : Sp.Error} {value? : Option α} {value : α} :
    orFail error value? = .ok value ↔ value? = some value := by
  cases value? <;> simp [orFail]

section

variable {F G X : Type} [Field F] [AddCommGroup G] [Module F G] [DecidableEq F] [DecidableEq G]
  [DecidableEq X] (secp : Secp F G X)

omit [DecidableEq F] [DecidableEq G] [DecidableEq X] in
theorem scalar_secretBytes (s : F) : scalar secp (secp.secretBytes s) = .ok s := by
  rw [scalar, secp.scalarOf_secretBytes, orFail]

omit [DecidableEq X] in
/-- Where the secret keys add up, so do their points, to the point of the sum. -/
theorem sumPoints_public {rest : List (SpInput F)} :
    ∀ {aSum total : Secret F}, sumKeys secp aSum rest = .ok total →
      sumPoints (secp.publicKey aSum) (rest.map fun input => secp.publicKey input.key) =
        .ok (secp.publicKey total) := by
  induction rest with
  | nil =>
      intro aSum total summed
      obtain rfl : aSum = total := by simpa [sumKeys] using summed
      rfl
  | cons input rest ih =>
      intro aSum total summed
      obtain ⟨t, read, adds⟩ := bind_ok.1 summed
      obtain ⟨next, added, rest⟩ := bind_ok.1 adds
      obtain rfl : input.key.1 = t := by simpa [scalar_secretBytes] using read
      have step := addTweak_public secp.toCurve (orFail_ok.1 added)
      exact bind_ok.2 ⟨_, orFail_ok.2 step, ih rest⟩

omit [DecidableEq X] in
/-- Both sides arrive at one shared point. -/
theorem receiveShared_eq {inputs : List (SpInput F)} {scanSk : Secret F} {ecdh : Point G}
    (sent : sendShared secp inputs (secp.publicKey scanSk) = .ok ecdh) :
    ∃ smallest, smallestOutpoint (inputs.map SpInput.outpoint) = some smallest ∧
      receiveShared secp ⟨inputs.map fun input => secp.publicKey input.key, smallest⟩ scanSk =
        .ok ecdh := by
  obtain ⟨⟨aSum, hash⟩, context, hashes⟩ := bind_ok.1 sent
  obtain ⟨t, hashed, multiplies⟩ := bind_ok.1 hashes
  obtain ⟨part, multiplied, reads⟩ := bind_ok.1 multiplies
  obtain ⟨u, read, exchanged⟩ := bind_ok.1 reads
  obtain rfl : part.1 = u := by simpa [scalar_secretBytes] using read
  cases inputs with
  | nil => cases context
  | cons first rest =>
      obtain ⟨total, summed, picks⟩ := bind_ok.1 context
      obtain ⟨smallest, least, made⟩ := bind_ok.1 picks
      cases made
      -- The receiver's factor is its own secret times the same hash, never zero with it.
      have nonzero : t ≠ 0 := by
        intro zero
        simp [mulTweak, zero, orFail] at multiplied
      have mine : mulTweak scanSk t = some ⟨scanSk.1 * t, mul_ne_zero scanSk.2 nonzero⟩ :=
        dif_pos nonzero
      have shared := exchange secp.toCurve (orFail_ok.1 multiplied) mine (orFail_ok.1 exchanged)
      refine ⟨smallest, orFail_ok.1 least, ?_⟩
      refine bind_ok.2 ⟨_, sumPoints_public secp summed, ?_⟩
      refine bind_ok.2 ⟨t, hashed, bind_ok.2 ⟨_, orFail_ok.2 mine, ?_⟩⟩
      exact bind_ok.2 ⟨_, scalar_secretBytes secp _, orFail_ok.2 shared⟩

/-! ## The outputs -/

omit [Field F] [AddCommGroup G] [Module F G] [DecidableEq F] [DecidableEq G] in
/-- Among outputs with distinct keys, the one with this key is the one taken. -/
theorem takeKey_mem {outputs : List (ℕ × X × ℕ)} {i value : ℕ} {key : X}
    (member : (i, key, value) ∈ outputs) (distinct : (outputs.map fun o => o.2.1).Nodup) :
    ∃ rest, takeKey key outputs = some ((i, key, value), rest) := by
  induction outputs with
  | nil => cases member
  | cons output outputs ih =>
      rw [List.map_cons, List.nodup_cons] at distinct
      rcases List.mem_cons.1 member with rfl | later
      · exact ⟨outputs, by simp [takeKey]⟩
      · have other : output.2.1 ≠ key := by
          rintro rfl
          exact distinct.1 (List.mem_map.2 ⟨_, later, rfl⟩)
        obtain ⟨rest, taken⟩ := ih later distinct.2
        exact ⟨output :: rest, by simp [takeKey, other, taken]⟩

omit [Field F] [AddCommGroup G] [Module F G] [DecidableEq F] [DecidableEq G] in
/-- What is taken and the rest are what there was. -/
theorem takeKey_perm {key : X} {outputs rest : List (ℕ × X × ℕ)} {taken : ℕ × X × ℕ}
    (found : takeKey key outputs = some (taken, rest)) : outputs.Perm (taken :: rest) := by
  induction outputs generalizing rest with
  | nil => cases found
  | cons output outputs ih =>
      unfold takeKey at found
      split at found
      · cases found
        exact .refl _
      · obtain ⟨⟨_, rest'⟩, deeper, same⟩ := Option.map_eq_some_iff.1 found
        cases same
        exact ((ih deeper).cons output).trans (.swap ..)

/-- Where no index fails to derive, the loop returns. -/
theorem receiveLoop_ok {ecdh spend : Point G} {k₀ : ℕ}
    (derives : ∀ k, k₀ ≤ k → ∃ output, outputAt secp ecdh spend k = .ok output) :
    ∀ (turns k : ℕ) (remaining : List (ℕ × X × ℕ)), k₀ ≤ k →
      ∃ found, receiveLoop secp ecdh spend turns k remaining = .ok found
  | _, _, [], _ => ⟨[], by simp [receiveLoop]⟩
  | 0, _, _ :: _, _ => ⟨[], by simp [receiveLoop]⟩
  | turns + 1, k, output :: remaining, late => by
      obtain ⟨⟨key, tweak⟩, derived⟩ := derives k late
      rcases taken : takeKey key (output :: remaining) with _ | ⟨⟨vout, key', sats⟩, rest⟩
      · exact ⟨[], bind_ok.2 ⟨_, derived, by simp only [taken]; rfl⟩⟩
      · obtain ⟨found, more⟩ := receiveLoop_ok derives turns (k + 1) rest (by omega)
        exact ⟨⟨vout, sats, tweak⟩ :: found, bind_ok.2 ⟨_, derived, by simp only [taken, more]; rfl⟩⟩

/-- The first turn takes the output with the first derived key. -/
theorem receiveLoop_first {ecdh spend : Point G} {outputs : List (ℕ × X × ℕ)} {i value : ℕ}
    {key : X} {tweak : List UInt8} (derived : outputAt secp ecdh spend 0 = .ok (key, tweak))
    (later : ∀ k, 1 ≤ k → ∃ output, outputAt secp ecdh spend k = .ok output)
    (member : (i, key, value) ∈ outputs) (distinct : (outputs.map fun o => o.2.1).Nodup) :
    ∃ found, receiveLoop secp ecdh spend outputs.length 0 outputs =
      .ok (⟨i, value, tweak⟩ :: found) := by
  obtain ⟨rest, taken⟩ := takeKey_mem member distinct
  match outputs with
  | first :: others =>
      obtain ⟨found, more⟩ := receiveLoop_ok secp later others.length 1 rest (Nat.le_refl 1)
      exact ⟨found, bind_ok.2 ⟨_, derived, by simp only [taken, more]; rfl⟩⟩

/-- What the scan makes of a transaction whose inputs are these. -/
theorem txMatches_spends {tx : EsploraTx} {inputs : List (RawOutPoint × Secret F)}
    {scanSk : Secret F} {spend ecdh : Point G} {smallest : RawOutPoint}
    (spends : List.Forall₂ (Spends secp) tx.vin inputs)
    (least : smallestOutpoint ((inputs.map (senderInput secp)).map SpInput.outpoint) =
      some smallest)
    (outputs : taprootOutputs secp tx ≠ [])
    (received : receiveShared secp
      ⟨(inputs.map (senderInput secp)).map fun input => secp.publicKey input.key, smallest⟩ scanSk =
        .ok ecdh) :
    txMatches secp tx scanSk spend =
      match receiveLoop secp ecdh spend (taprootOutputs secp tx).length 0 (taprootOutputs secp tx) with
      | .ok found => found
      | .error _ => [] := by
  have some_ : ((inputs.map (senderInput secp)).map fun input => secp.publicKey input.key) ≠ [] := by
    intro none
    rw [none] at received
    cases received
  rw [txMatches, notCoinbase_spends secp spends, pubkeys_spends secp spends,
    outpoints_spends secp spends]
  simp only [Bool.false_eq_true, if_false, List.isEmpty_iff, some_, least, outputs]
  simp only [receiveCheck, receiveInner, received]
  rfl

omit [DecidableEq G] [DecidableEq X] in
theorem scalarOf_of_secretOf {bytes : List UInt8} {s : Secret F}
    (read : orFail .secp (secretOf secp bytes) = .ok s) : secp.scalarOf bytes = some s.1 := by
  have known := orFail_ok.1 read
  unfold secretOf at known
  split at known
  · rename_i t scalar_
    split at known
    · cases known
      exact scalar_
    · cases known
  · cases known

omit [DecidableEq X] in
/-- The tweak of a derived key opens it: the spend secret plus the tweak has that key. -/
theorem spendKeypair_outputAt {ecdh : Point G} {spendSk : Secret F} {k : ℕ} {key : X}
    {tweak : List UInt8} (derived : outputAt secp ecdh (secp.publicKey spendSk) k = .ok (key, tweak)) :
    ∃ d, spendKeypair secp spendSk tweak = .ok d ∧ secp.xOnly (secp.publicKey d).1 = key := by
  obtain ⟨tsk, read, combines⟩ := bind_ok.1 derived
  obtain ⟨pk, combined, made⟩ := bind_ok.1 combines
  cases made
  have known : secp.scalarOf (tweakAt secp ecdh k) = some tsk.1 := scalarOf_of_secretOf secp read
  obtain ⟨d, added, rfl⟩ := combine_secret secp.toCurve (orFail_ok.1 combined)
  exact ⟨d, bind_ok.2 ⟨tsk.1, orFail_ok.2 known, orFail_ok.2 added⟩, rfl⟩

/-- **Sent is found, and spendable.**  Whatever the inputs' number and parities, an output
with the key `send_address` returned, anywhere among outputs with distinct keys, is
reported by the receiver's scan with its index and value, and the reported tweak gives
the secret key of exactly that output key.  (An index past the first that fails to
derive makes the scan report nothing, hence `later`.) -/
theorem silent_payment_found {inputs : List (RawOutPoint × Secret F)} {scanSk spendSk : Secret F}
    {tx : EsploraTx} {key : X} {i value : ℕ}
    (spends : List.Forall₂ (Spends secp) tx.vin inputs)
    (sent : sendAddress secp (inputs.map (senderInput secp)) (secp.publicKey scanSk)
      (secp.publicKey spendSk) = .ok key)
    (output : tx.vout[i]? = some ⟨p2trScript secp key, value⟩)
    (distinct : ((taprootOutputs secp tx).map fun o => o.2.1).Nodup)
    (later : ∀ ecdh, sendShared secp (inputs.map (senderInput secp)) (secp.publicKey scanSk) =
      .ok ecdh → ∀ k, 1 ≤ k → ∃ derived, outputAt secp ecdh (secp.publicKey spendSk) k = .ok derived) :
    ∃ tweak, ⟨i, value, tweak⟩ ∈ txMatches secp tx scanSk (secp.publicKey spendSk) ∧
      ∃ d, spendKeypair secp spendSk tweak = .ok d ∧ secp.xOnly (secp.publicKey d).1 = key := by
  obtain ⟨ecdh, shared, derives⟩ := bind_ok.1 sent
  obtain ⟨⟨key', tweak⟩, derived, made⟩ := bind_ok.1 derives
  cases made
  obtain ⟨smallest, least, received⟩ := receiveShared_eq secp shared
  have member : (i, key, value) ∈ taprootOutputs secp tx := by
    refine List.mem_filterMap.2 ⟨(⟨p2trScript secp key, value⟩, i), ?_, ?_⟩
    · exact List.mk_mem_zipIdx_iff_getElem?.2 output
    · simp [taprootOutputKey_p2trScript]
  obtain ⟨found, looped⟩ := receiveLoop_first secp derived (later ecdh shared) member distinct
  refine ⟨tweak, ?_, spendKeypair_outputAt secp derived⟩
  rw [txMatches_spends secp spends least (List.ne_nil_of_mem member) received, looped]
  exact List.mem_cons_self ..

end

/-! ## The integers modulo seven -/

instance sevenPrime : Fact (Nat.Prime 7) := ⟨by decide⟩

/-- 32 bytes, the last of which counts. -/
def lastByte (n : ℕ) : List UInt8 := List.replicate 31 0 ++ [UInt8.ofNat n]

def residue (bytes : List UInt8) : Option (ZMod 7) :=
  match bytes.getLast? with
  | some b => if b.toNat < 7 then some (b.toNat : ZMod 7) else none
  | none => none

/-- The integers modulo 7 as a curve: `x` and `-x` share a coordinate, 4 to 6 are odd. -/
def sevenCurve : Secp (ZMod 7) (ZMod 7) (ZMod 7) where
  gen := 1
  gen_ne_zero := by decide
  xOnly P := if P.val ≤ 3 then P else -P
  odd P := 3 < P.val
  lift x := if nonzero : x ≠ 0 then ⟨x, nonzero⟩ else ⟨1, by decide⟩
  lift_xOnly := by decide
  secretBytes s := lastByte s.val
  scalarOf := residue
  scalarOf_secretBytes := by decide
  pointBytes P := 2 :: lastByte P.val
  pointOf _ := none
  xBytes x := lastByte x.val
  xOf := residue
  xBytes_length _ := rfl
  xOf_xBytes := by decide
  taggedHash tag _ := if tag = "BIP0352/Inputs" then lastByte 3 else lastByte 1

def firstTxid : String := "f4184fc596403b9d638783cf57adfe4c75c605f6356fbc91338530e9831e9e16"

def secondTxid : String := "a1075db55d416d3ca199f55b6084e2115b9345e16c5cf302fc80e9d5fbf5d48d"

/-- Two inputs, of even and of odd parity. -/
def sevenInputs : List (RawOutPoint × Secret (ZMod 7)) :=
  [(((parseTxid firstTxid).getD [], 0), ⟨3, by decide⟩),
    (((parseTxid secondTxid).getD [], 2), ⟨5, by decide⟩)]

/-- Pays an unrelated output, then 5000 sats to the derived key 2. -/
def sevenTx : EsploraTx where
  txid := sampleTxid
  vin := [⟨firstTxid, 0, false, some (p2trScript sevenCurve 3), ["aa"]⟩,
    ⟨secondTxid, 2, false, some (p2trScript sevenCurve 2), ["aa", "50ff"]⟩]
  vout := [⟨"0014751e76e8199196d454941c45d1b3a323f1433bd6", 100⟩, ⟨p2trScript sevenCurve 2, 5000⟩]

/-- The class of `k` as a secret, and that of one for zero. -/
def sevenSecret (k : ℕ) : Secret (ZMod 7) :=
  if nonzero : (k : ZMod 7) ≠ 0 then ⟨k, nonzero⟩ else ⟨1, by decide⟩

def sevenScan : Secret (ZMod 7) := ⟨2, by decide⟩

def sevenSpend : Secret (ZMod 7) := ⟨4, by decide⟩

theorem silent_payment_found_seven :
    ∃ tweak, ⟨1, 5000, tweak⟩ ∈ txMatches sevenCurve sevenTx sevenScan
        (sevenCurve.publicKey sevenSpend) ∧
      ∃ d, spendKeypair sevenCurve sevenSpend tweak = .ok d ∧
        sevenCurve.xOnly (sevenCurve.publicKey d).1 = 2 := by
  have spends : List.Forall₂ (Spends sevenCurve) sevenTx.vin sevenInputs :=
    .cons ⟨rfl, by decide, rfl, by decide, ⟨"aa", .inl rfl⟩⟩ (.cons ⟨rfl, by decide, rfl,
      by decide, ⟨"aa", .inr ⟨"50ff", rfl, by decide⟩⟩⟩ .nil)
  have sent : sendAddress sevenCurve (sevenInputs.map (senderInput sevenCurve))
      (sevenCurve.publicKey sevenScan) (sevenCurve.publicKey sevenSpend) = .ok 2 := by decide
  have output : sevenTx.vout[1]? = some ⟨p2trScript sevenCurve 2, 5000⟩ := rfl
  have distinct : ((taprootOutputs sevenCurve sevenTx).map fun o => o.2.1).Nodup := by decide
  refine silent_payment_found sevenCurve spends sent output distinct fun ecdh _ k _ => ?_
  exact ⟨(2, lastByte 1), rfl⟩

end ComputerMoney.Safety

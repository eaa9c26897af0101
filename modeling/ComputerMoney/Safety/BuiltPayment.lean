/-
# Safety.BuiltPayment -- what a builder pays to a code, its receiver finds

The sender sums the secrets of its inputs in the order in which it chose them; bdk puts the
inputs in an order of its own, and the receiver sums the keys in that one.  The address is the
same as long as no partial sum is zero (`sendAddress_perm`), and then the receiver, who has
nothing but esplora's view of the transaction, arrives at the sender's shared point.
-/
import ComputerMoney.Safety.Builders
import ComputerMoney.Safety.InputOrder

namespace ComputerMoney.Safety

set_option autoImplicit false

open Theory Theory.Program
open Kernel hiding PublicKey Error Psbt feeCap loadPolicy buildSigned buildSignedToSp
  buildSignedSpendingSp mainnetGuard
open Kernel.Builder
open Kernel.Sp (Secp SpInput parseTxid taprootInputKey spendKeypair sendAddress p2trScript
  txMatches taprootOutputs outputAt inputPubkey)

open Builders

namespace BuiltPayment

section

variable {F G X Xpriv : Type} [Field F] [AddCommGroup G] [Module F G] [DecidableEq F]
  [DecidableEq G]

section Found

variable {keys : Keys F G X Xpriv} {prevout : OutPoint → Option Vout}

/-- What esplora shows of an input. -/
structure ShowsInput (prevout : OutPoint → Option Vout) (vin : Vin) (input : TxIn) : Prop where
  notCoinbase : vin.isCoinbase = false
  txid : vin.txid = input.previousOutput.1
  vout : vin.vout = input.previousOutput.2
  prevout : vin.prevout = (prevout input.previousOutput).map Vout.scriptpubkey
  witness : vin.witness = input.witness.map fun item => String.ofList (Hex.hexLower item)

/-- What esplora shows of a transaction. -/
structure ShowsTx (prevout : OutPoint → Option Vout) (view : EsploraTx) (tx : Transaction) :
    Prop where
  vin : List.Forall₂ (ShowsInput prevout) view.vin tx.inputs
  vout : view.vout = tx.outputs

/-- The keys that a receiver reads of the inputs. -/
def readKeys (keys : Keys F G X Xpriv) (view : EsploraTx) : List (Point G) :=
  view.vin.filterMap (inputPubkey keys.toSecp)

omit [DecidableEq F] [DecidableEq G] in
/-- An input of the transaction spends its output as the receiver expects. -/
theorem spends_of_shows {vin : Vin} {input : TxIn} {own : OutPoint × Secret F}
    (shows_ : ShowsInput prevout vin input) (same : input.previousOutput = own.1)
    (stands : Stands keys prevout own) (signed : ∃ signature, input.witness = [signature]) :
    Spends keys.toSecp vin (raw own.1, own.2) := by
  obtain ⟨named, sats, there⟩ := stands
  obtain ⟨signature, single⟩ := signed
  refine ⟨shows_.notCoinbase, ?_, ?_, ?_, ?_⟩
  · rw [shows_.txid, same]
    obtain ⟨bytes, is⟩ := Option.isSome_iff_exists.1 named
    simp [raw, is]
  · rw [shows_.vout, same]
    rfl
  · rw [shows_.prevout, same, there]
    rfl
  · rw [shows_.witness, single]
    exact ⟨_, .inl rfl⟩

omit [DecidableEq F] [DecidableEq G] in
theorem spends_tx {vins : List Vin} {inputs : List TxIn} {own : List (OutPoint × Secret F)}
    (shows_ : List.Forall₂ (ShowsInput prevout) vins inputs)
    (same : inputs.map TxIn.previousOutput = own.map Prod.fst)
    (stands : ∀ input ∈ own, Stands keys prevout input)
    (signed : ∀ input ∈ inputs, ∃ signature, input.witness = [signature]) :
    List.Forall₂ (Spends keys.toSecp) vins (own.map fun input => (raw input.1, input.2)) := by
  induction shows_ generalizing own with
  | nil =>
      obtain rfl := List.map_eq_nil_iff.1 same.symm
      exact .nil
  | cons first _ ih =>
      cases own with
      | nil => cases same
      | cons input own =>
          rw [List.map_cons, List.map_cons, List.cons.injEq] at same
          refine .cons (spends_of_shows first same.1 (stands _ (List.mem_cons_self ..))
            (signed _ (List.mem_cons_self ..))) ?_
          exact ih same.2 (fun input member => stands input (List.mem_cons_of_mem _ member))
            fun input member => signed input (List.mem_cons_of_mem _ member)

/-- An order of the images is one of what they are images of. -/
theorem exists_order {α β : Type} {f : α → β} {ys : List β} {xs : List α}
    (perm : ys.Perm (xs.map f)) : ∃ xs' : List α, ys = xs'.map f ∧ xs'.Perm xs := by
  have composed : Relation.Comp (fun ys xs' => ys = List.map f xs') List.Perm ys xs := by
    rw [List.eq_map_comp_perm]
    exact perm
  exact composed

/-- **An address that derives in one order derives in any that breaks no sum.** -/
theorem sendAddress_perm {secp : Secp F G X} {inputs inputs' : List (SpInput F)}
    {scan spend : Point G} {key : X} (perm : inputs'.Perm inputs)
    (sent : sendAddress secp inputs scan spend = .ok key)
    (unbroken : PartialSum.Unbroken 0 (InputOrder.scalars inputs')) :
    sendAddress secp inputs' scan spend = .ok key := by
  cases inputs with
  | nil => cases sent
  | cons first rest =>
      have known : (sendAddress secp (first :: rest) scan spend).toOption = some key := by
        rw [sent]
        rfl
      have values : ((first :: rest).map SpInput.key).map Subtype.val =
          InputOrder.scalars (first :: rest) := by simp [InputOrder.scalars]
      obtain ⟨least, is⟩ : ∃ least, Sp.smallestOutpoint ((first :: rest).map SpInput.outpoint) =
        some least := ⟨_, rfl⟩
      rw [InputOrder.sendAddress_eq secp scan spend is] at known
      rcases summed : PartialSum.sum? ((first :: rest).map SpInput.key) with _ | aSum
      · rw [summed] at known
        cases known
      · obtain ⟨nonzero, unbroken₀⟩ := PartialSum.sum?_some summed
        rw [values] at nonzero unbroken₀
        have same := (InputOrder.address_iff secp scan spend perm nonzero is).2
          (.inl (iff_of_true unbroken unbroken₀))
        rw [sent] at same
        cases there : sendAddress secp inputs' scan spend with
        | error e =>
            rw [there] at same
            cases same
        | ok key' =>
            rw [there] at same
            exact congrArg Except.ok (Option.some.inj same)

variable [DecidableEq X]

/-- The receiver's shared point has a key at every later index. -/
def DerivesLater (keys : Keys F G X Xpriv) (scanSk spendSk : Secret F) (view : EsploraTx) : Prop :=
  ∀ smallest ecdh, Sp.receiveShared keys.toSecp ⟨readKeys keys view, smallest⟩ scanSk = .ok ecdh →
    ∀ k, 1 ≤ k → ∃ derived, outputAt keys.toSecp ecdh (keys.publicKey spendSk) k = .ok derived

/-- A payment to a code is among those found in its transaction, with the key to it. -/
def FoundBy (keys : Keys F G X Xpriv) (scanSk spendSk : Secret F) (view : EsploraTx)
    (recipient : Address) (sats : ℕ) : Prop :=
  ∃ i tweak d, view.vout[i]? = some ⟨recipient.script, sats⟩ ∧
    ⟨i, sats, tweak⟩ ∈ txMatches keys.toSecp view scanSk (keys.publicKey spendSk) ∧
    spendKeypair keys.toSecp spendSk tweak = .ok d ∧
    recipient.script = p2trScript keys.toSecp (keys.xOnly (keys.publicKey d).1)

/-- A transaction that pays to a code, by the inputs and the secrets that its address is of. -/
structure PaysCode (keys : Keys F G X Xpriv) (scanSk spendSk : Secret F) (view : EsploraTx)
    (recipient : Address) (sats : ℕ) (own : List (Sp.RawOutPoint × Secret F)) (key : X) : Prop where
  spends : List.Forall₂ (Spends keys.toSecp) view.vin own
  sent : sendAddress keys.toSecp (own.map (senderInput keys.toSecp)) (keys.publicKey scanSk)
    (keys.publicKey spendSk) = .ok key
  script : recipient.script = p2trScript keys.toSecp key
  paid : ⟨recipient.script, sats⟩ ∈ view.vout

omit [DecidableEq X] in
/-- In the order of the transaction, too, its inputs derive the address. -/
theorem paysCode_of_built {wallet : Storage.Wallet Xpriv} {spSpendSk scanSk spendSk : Secret F}
    {spUtxos : List Ledger.SpUtxo} {sats : ℕ} {maxFeeSats : Option ℕ} {tx : Transaction} {fee : ℕ}
    {recipient : Address} {consumed : List OutPoint} {view : EsploraTx}
    (held : ∀ u ∈ spUtxos, Held keys prevout spSpendSk u)
    (run : Returns (trusted keys wallet prevout) (buildSignedToSp keys wallet.network
      (descriptors keys wallet).1 (keys.publicKey scanSk) (keys.publicKey spendSk) sats maxFeeSats
      spUtxos spSpendSk) (tx, fee, recipient, consumed))
    (shows_ : ShowsTx prevout view tx)
    (unbroken : PartialSum.Unbroken 0 ((readKeys keys view).map Subtype.val)) :
    ∃ own key, PaysCode keys scanSk spendSk view recipient sats own key := by
  obtain ⟨request, psbt, completed, sums⟩ := returns_buildSignedToSp run
  obtain ⟨own, sums⟩ := sums held
  obtain ⟨key, sent, script⟩ := sums.address
  obtain ⟨prevouts, valid, -⟩ := completed.accepted held
  have inputs : tx.inputs.map TxIn.previousOutput = psbt.inputs.map PsbtInput.previousOutput :=
    congrArg Unsigned.inputs completed.signedOff.unsigned
  have spent := sums.spent
  rw [← inputs] at spent
  obtain ⟨own', order, perm⟩ := exists_order spent
  have witnessed : ∀ input ∈ tx.inputs, ∃ signature, input.witness = [signature] := by
    intro input member
    obtain ⟨i, at_⟩ := List.getElem?_of_mem member
    obtain ⟨signature, single, -⟩ := valid.signed i input at_
    exact ⟨signature, single⟩
  have spends := spends_tx shows_.vin order
    (fun input member => sums.stands input (perm.mem_iff.1 member)) witnessed
  have same : (own'.map fun input => (raw input.1, input.2)).map (senderInput keys.toSecp) =
      own'.map (summed keys) := List.map_map
  have read : readKeys keys view = InputOrder.pubkeys keys.toSecp (own'.map (summed keys)) := by
    rw [readKeys, pubkeys_spends keys.toSecp spends, same]
    rfl
  rw [read, InputOrder.unbroken_pubkeys] at unbroken
  refine ⟨_, key, spends, ?_, script, shows_.vout ▸ (completed.paid held).pays⟩
  rw [same]
  exact sendAddress_perm (perm.map (summed keys)) sent unbroken

/-- Both sides arrive at one shared point, and the output that is paid is the first that the
receiver derives. -/
theorem foundBy_of_paysCode {scanSk spendSk : Secret F} {view : EsploraTx} {recipient : Address}
    {sats : ℕ} {own : List (Sp.RawOutPoint × Secret F)} {key : X}
    (pays : PaysCode keys scanSk spendSk view recipient sats own key)
    (distinct : ((taprootOutputs keys.toSecp view).map fun o => o.2.1).Nodup)
    (derives : DerivesLater keys scanSk spendSk view) :
    FoundBy keys scanSk spendSk view recipient sats := by
  obtain ⟨ecdh, shared, more⟩ := bind_ok.1 pays.sent
  obtain ⟨⟨key', tweak⟩, derived, made⟩ := bind_ok.1 more
  cases made
  obtain ⟨smallest, least, received⟩ := receiveShared_eq keys.toSecp shared
  have later : ∀ k, 1 ≤ k → ∃ derived, outputAt keys.toSecp ecdh (keys.publicKey spendSk) k =
      .ok derived := by
    refine derives smallest ecdh ?_
    rw [readKeys, pubkeys_spends keys.toSecp pays.spends]
    exact received
  obtain ⟨i, there⟩ := List.getElem?_of_mem pays.paid
  have member : (i, key, sats) ∈ taprootOutputs keys.toSecp view := by
    refine List.mem_filterMap.2 ⟨(⟨recipient.script, sats⟩, i), ?_, ?_⟩
    · exact List.mk_mem_zipIdx_iff_getElem?.2 there
    · simp [pays.script, taprootOutputKey_p2trScript]
  obtain ⟨found, looped⟩ := receiveLoop_first keys.toSecp derived later member distinct
  obtain ⟨d, opens, is⟩ := spendKeypair_outputAt keys.toSecp derived
  refine ⟨i, tweak, d, there, ?_, opens, by rw [is, pays.script]⟩
  rw [txMatches_spends keys.toSecp pays.spends least (List.ne_nil_of_mem member) received, looped]
  exact List.mem_cons_self ..

end Found

end

end BuiltPayment

open BuiltPayment

section

variable {F G X Xpriv : Type} [Field F] [AddCommGroup G] [Module F G] [DecidableEq F]
  [DecidableEq G] [DecidableEq X]

/-- **What a builder pays to a code, its receiver finds and can spend**, whatever mix of coins
and income funds it and in whatever order bdk puts the inputs, unless in that order the keys
cancel on the way. -/
theorem built_payment_found (keys : Keys F G X Xpriv) (wallet : Storage.Wallet Xpriv)
    (prevout : OutPoint → Option Vout) (spSpendSk scanSk spendSk : Secret F)
    (spUtxos : List Ledger.SpUtxo) (sats : ℕ) (maxFeeSats : Option ℕ) (tx : Transaction) (fee : ℕ)
    (recipient : Address) (consumed : List OutPoint) (view : EsploraTx)
    (held : ∀ u ∈ spUtxos, Held keys prevout spSpendSk u)
    (run : Returns (trusted keys wallet prevout) (buildSignedToSp keys wallet.network
      (descriptors keys wallet).1 (keys.publicKey scanSk) (keys.publicKey spendSk) sats maxFeeSats
      spUtxos spSpendSk) (tx, fee, recipient, consumed))
    (shows_ : ShowsTx prevout view tx)
    (unbroken : PartialSum.Unbroken 0 ((readKeys keys view).map Subtype.val))
    (distinct : ((taprootOutputs keys.toSecp view).map fun o => o.2.1).Nodup)
    (derives : DerivesLater keys scanSk spendSk view) :
    FoundBy keys scanSk spendSk view recipient sats := by
  obtain ⟨own, key, pays⟩ := paysCode_of_built held run shows_ unbroken
  exact foundBy_of_paysCode pays distinct derives

end

/-! ## Over the integers modulo seven -/

namespace BuiltPayment

def sevenView : EsploraTx where
  txid := sampleTxid
  vin := sevenPaid.inputs.map fun input => ⟨input.previousOutput.1, input.previousOutput.2, false,
    (sevenPrevout input.previousOutput).map Vout.scriptpubkey,
    input.witness.map fun item => String.ofList (Hex.hexLower item)⟩
  vout := sevenPaid.outputs

theorem shows_seven : ShowsTx sevenPrevout sevenView sevenPaid where
  vin := .cons ⟨rfl, rfl, rfl, rfl, rfl⟩ (.cons ⟨rfl, rfl, rfl, rfl, rfl⟩
    (.cons ⟨rfl, rfl, rfl, rfl, rfl⟩ .nil))
  vout := rfl

end BuiltPayment

theorem built_payment_found_seven :
    FoundBy sevenKeys sevenScan sevenSpend sevenView ⟨sevenScript 2, "key 2"⟩ 5000 :=
  built_payment_found sevenKeys sevenWallet sevenPrevout (sevenSecret 2) sevenScan sevenSpend
    [sevenIncome] 5000 (some 400) sevenPaid 300 ⟨sevenScript 2, "key 2"⟩ [(sampleTxid, 1)]
    sevenView held_seven (returns_of_run seven_allowed seven_returns) shows_seven
    (by decide +kernel) (by decide +kernel) fun _ _ _ _ _ => ⟨(2, lastByte 1), rfl⟩

end ComputerMoney.Safety

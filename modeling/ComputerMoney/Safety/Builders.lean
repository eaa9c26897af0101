/-
# Safety.Builders -- what the builders hand out is valid, and is found

The builders trust bdk and the chain for what is documented of them (`Trusted`): the coins are
the wallet's, a finished transaction spends what it was told to and pays whom it was told to,
a signature that bdk made verifies.  The ledger is trusted for its silent-payment income
(`Held`).  From these:

* the secret that a payment sums for a coin is that of the coin's own output
  (`addressKey_tapTweak`), and the one it sums for an output of income is that of the output;
* so every input of a transaction that spends income carries one signature, and it verifies
  under the key of the output it spends (`built_transactions_valid`).

And what the send paths take for a build, one finished transaction that is priced, capped and
signed, is what these builders do (`builders_refine`).
-/
import ComputerMoney.Kernel.Builder
import ComputerMoney.Safety.SilentPaymentFound
import ComputerMoney.Theory.Parties
import Mathlib.Data.List.Perm.Basic

namespace ComputerMoney.Safety

set_option autoImplicit false

open Theory Theory.Program
open Kernel hiding PublicKey Error Psbt feeCap loadPolicy buildSigned buildSignedToSp
  buildSignedSpendingSp mainnetGuard
open Kernel.Builder
open Kernel.Sp (Secp SpInput parseTxid taprootInputKey spendKeypair sendAddress p2trScript
  txMatches taprootOutputs sendShared outputAt inputPubkey)

namespace Builders

section

variable {F G X Xpriv : Type} [Field F] [AddCommGroup G] [Module F G] [DecidableEq F]
  [DecidableEq G]

/-! ## What is trusted -/

section Trusted

variable (keys : Keys F G X Xpriv) (wallet : Storage.Wallet Xpriv)
  (prevout : OutPoint → Option Vout)

/-- A coin of the wallet: an output on the chain, to one of its addresses. -/
structure Owned (coin : DescUtxo) : Prop where
  named : (parseTxid coin.outpoint.1).isSome
  there : ∃ key, addressKey keys wallet (keychainBranch coin.keychain) coin.index = some key ∧
    prevout coin.outpoint = some ⟨p2trScript keys.toSecp key, coin.sats⟩

/-- A finished transaction: it spends what it was told to, and coins of the wallet unless these
were selected by hand, and it pays the recipient. -/
structure Finishes (request : TxRequest) (psbt : Psbt) : Prop where
  spends : ∃ drawn, (psbt.inputs.map PsbtInput.previousOutput).Perm
    (request.utxos ++ drawn ++ request.foreign.map Foreign.outpoint) ∧
      (request.manuallySelectedOnly = true → drawn = [])
  own : ∀ input ∈ psbt.inputs, input.previousOutput ∉ request.foreign.map Foreign.outpoint →
    ∃ utxo, input.witnessUtxo = some utxo ∧ prevout input.previousOutput = some utxo
  foreign : ∀ input ∈ psbt.inputs, ∀ f ∈ request.foreign, f.outpoint = input.previousOutput →
    input.witnessUtxo = some f.witnessUtxo
  pays : request.recipient ∈ psbt.outputs

/-- A signature of an output spent, over the transaction and everything that it spends. -/
def Verifies (unsigned : Unsigned) (i : ℕ) (prevouts : List Vout) (signature : List UInt8) : Prop :=
  ∃ utxo key digest, prevouts[i]? = some utxo ∧ utxo.scriptpubkey = p2trScript keys.toSecp key ∧
    keys.sighash unsigned i prevouts = .ok digest ∧ keys.verifySchnorr key digest signature = true

/-- A PSBT with bdk's signatures, which are all it adds; finalized, it has one an input. -/
structure Signs (psbt : Psbt) (mixed : Bool) (psbt' : Psbt) (finalized : Bool) : Prop where
  head : psbt'.head = psbt.head
  outputs : psbt'.outputs = psbt.outputs
  inputs : List.Forall₂ (fun input input' : PsbtInput =>
    input'.previousOutput = input.previousOutput ∧ input'.witnessUtxo = input.witnessUtxo)
      psbt.inputs psbt'.inputs
  verifies : ∀ i input prevouts signature, psbt'.inputs[i]? = some input →
    input.tapKeySig = some signature → psbt'.inputs.mapM PsbtInput.witnessUtxo = some prevouts →
      Verifies keys psbt.unsignedTx i prevouts signature
  finalizes : mixed = false → finalized = true → ∀ i input prevouts,
    psbt'.inputs[i]? = some input → psbt'.inputs.mapM PsbtInput.witnessUtxo = some prevouts →
      ∃ signature, input.finalScriptWitness = some [signature] ∧
        Verifies keys psbt.unsignedTx i prevouts signature

def AllOwned (coins : List DescUtxo) : Prop := ∀ coin ∈ coins, Owned keys wallet prevout coin

/-- What is documented of bdk, and of the chain that it synced with. -/
def Trusted : (op : ChainOp) → op.Ans → Prop
  | .listUnspent, coins => AllOwned keys wallet prevout coins
  | .finish request, .ok psbt => Finishes prevout request psbt
  | .sign psbt mixed, .ok (psbt', finalized) => Signs keys psbt mixed psbt' finalized
  | _, _ => True

def trusted : Interp chainSig Unit := ⟨fun _ => Trusted keys wallet prevout, fun _ _ _ => ()⟩

/-- The policy on file is this one: what `loadPolicy` answers, if it does. -/
def PolicyIs (policy : Policy) : Guarantee chainSig Unit
  | _, .loadPolicy, .ok read => read = policy
  | _, _, _ => True

/-- The income in the ledger is on the chain, where the ledger says, and its tweak opens it. -/
def Held (spSpendSk : Secret F) (u : Ledger.SpUtxo) : Prop :=
  ∀ txid tweak sk, canonicalTxid u.txid = .ok txid →
    (Mcp.decodeHex32 u.tweak.toList).run = some (.ok tweak) →
      spendKeypair keys.toSecp spSpendSk tweak = .ok sk →
        prevout (txid, u.vout) = some (pinnedUtxo keys sk u.sats)

end Trusted

/-! ## What returns -/

section Returns

variable {I : Interp chainSig Unit} {α : Type}

@[simp] theorem returns_returned {outcome : Except Kernel.Error α} {value : α} :
    Returns I (returned outcome) value ↔ outcome = .ok value := by
  cases outcome with
  | error e => simp [returned, Except.mapError]
  | ok value' => simp [returned, Except.mapError]

@[simp] theorem returns_handled {outcome : Mcp.Handler α} {value : α} :
    Returns I (handled outcome) value ↔ outcome.run = some (.ok value) := by
  unfold handled
  cases outcome.run with
  | none => simp
  | some outcome => simp

omit [DecidableEq F] [DecidableEq G] in
@[simp] theorem returns_silent {keys : Keys F G X Xpriv} {outcome : Except Sp.Error α}
    {value : α} : Returns I (silent keys outcome) value ↔ outcome = .ok value := by
  unfold silent
  rw [returns_returned]
  cases outcome with
  | error e => simp [Except.mapError]
  | ok value' => simp [Except.mapError]

theorem returns_finish {request : TxRequest} {psbt : Psbt} :
    Returns I (finish request) psbt ↔ I.allowed () (.finish request) (.ok psbt) := by
  refine returns_call.trans ?_
  constructor
  · intro ⟨answer, allowed, is⟩
    obtain rfl : answer = .ok psbt := returns_returned.1 is
    exact allowed
  · intro allowed
    exact ⟨.ok psbt, allowed, returns_returned.2 rfl⟩

theorem returns_sign {psbt : Psbt} {mixed : Bool} {signed : Psbt × Bool} :
    Returns I (sign psbt mixed) signed ↔ I.allowed () (.sign psbt mixed) (.ok signed) := by
  refine returns_call.trans ?_
  constructor
  · intro ⟨answer, allowed, is⟩
    obtain rfl : answer = .ok signed := returns_returned.1 is
    exact allowed
  · intro allowed
    exact ⟨.ok signed, allowed, returns_returned.2 rfl⟩

theorem returns_listUnspent {coins : List DescUtxo} :
    Returns I listUnspent coins ↔ I.allowed () .listUnspent coins := by
  refine returns_call.trans ?_
  constructor
  · intro ⟨answer, allowed, is⟩
    obtain rfl : answer = coins := returns_pure.1 is
    exact allowed
  · intro allowed
    exact ⟨coins, allowed, returns_pure.2 rfl⟩

end Returns

/-! ## The secrets of the coins -/

section Coins

variable {keys : Keys F G X Xpriv} {wallet : Storage.Wallet Xpriv}

omit [DecidableEq F] [DecidableEq G] in
/-- A descriptor gives the master key back. -/
theorem masterXprv_descriptors :
    masterXprvFromDescriptor keys (descriptors keys wallet).1 = .ok wallet.root := by
  unfold masterXprvFromDescriptor descriptors descriptor
  dsimp only
  rw [List.append_assoc, Text.stripStart_append]
  dsimp only
  have cut : ("/86h/" ++ toString wallet.coinType ++ "h/0h/" ++ toString 0 ++ "/*)").toList =
      '/' :: ("86h/" ++ toString wallet.coinType ++ "h/0h/" ++ toString 0 ++ "/*)").toList := by
    simp
  have text : (keys.xprivText wallet.root ++ ("/86h/" ++ toString wallet.coinType ++ "h/0h/" ++
      toString 0 ++ "/*)").toList).takeWhile (· ≠ '/') = keys.xprivText wallet.root := by
    rw [cut, List.takeWhile_append_of_pos (by simpa using keys.xprivText_plain wallet.root)]
    simp
  rw [text, keys.xprivOf_xprivText]

omit [DecidableEq G] in
/-- The tweaked secret of a leaf is that of the leaf's address. -/
theorem addressKey_tapTweak {branch index : ℕ} {child tweaked : Secret F}
    (derived : keys.derivePriv wallet.root (leafPath wallet.coinType branch index) = .ok child)
    (is : tapTweak keys child = some tweaked) :
    addressKey keys wallet branch index = some (keys.xOnly (keys.publicKey tweaked).1) := by
  obtain ⟨t, hashed, added⟩ := Option.bind_eq_some_iff.1 is
  unfold addTweak at added
  split at added
  case isFalse => cases added
  case isTrue nonzero =>
      cases added
      unfold addressKey
      rw [derived]
      dsimp only
      rw [hashed, Option.map_some, ← keys.normalize_public child]
      congr 2
      exact (add_smul _ _ _).symm

end Coins

/-! ## Lists beside each other -/

section Beside

variable {α β γ : Type}

theorem mapM_eq_some {f : α → Option β} {xs : List α} {ys : List β} :
    xs.mapM f = some ys ↔ List.Forall₂ (fun x y => f x = some y) xs ys := by
  induction xs generalizing ys with
  | nil => simp [eq_comm]
  | cons x xs ih =>
      rw [List.mapM_cons, List.forall₂_cons_left_iff]
      simp only [Option.bind_eq_bind, Option.bind_eq_some_iff, ih, Option.pure_def,
        Option.some.injEq]
      constructor
      · intro ⟨y, first, ys, rest, is⟩
        exact ⟨y, ys, first, rest, is.symm⟩
      · intro ⟨y, ys, first, rest, is⟩
        exact ⟨y, first, ys, rest, is.symm⟩

theorem exists_mapM {f : α → Option β} {xs : List α} (all : ∀ x ∈ xs, ∃ y, f x = some y) :
    ∃ ys, xs.mapM f = some ys := by
  induction xs with
  | nil => exact ⟨[], rfl⟩
  | cons x xs ih =>
      obtain ⟨y, first⟩ := all x (List.mem_cons_self ..)
      obtain ⟨ys, rest⟩ := ih fun x member => all x (List.mem_cons_of_mem _ member)
      exact ⟨y :: ys, mapM_eq_some.2 (.cons first (mapM_eq_some.1 rest))⟩

theorem forall₂_getElem {R : α → β → Prop} {xs : List α} {ys : List β} (each : List.Forall₂ R xs ys)
    {i : ℕ} {y : β} (at_ : ys[i]? = some y) : ∃ x, xs[i]? = some x ∧ R x y := by
  induction each generalizing i with
  | nil => cases at_
  | cons first _ ih =>
      cases i with
      | zero =>
          cases at_
          exact ⟨_, rfl, first⟩
      | succ i => exact ih at_

theorem forall₂_zipIdx {R : α × ℕ → β → Prop} {xs : List α} {ys : List β}
    (each : List.Forall₂ R xs.zipIdx ys) {i : ℕ} {y : β} (at_ : ys[i]? = some y) :
    ∃ x, xs[i]? = some x ∧ R (x, i) y := by
  obtain ⟨⟨x, j⟩, there, related⟩ := forall₂_getElem each at_
  rw [List.getElem?_zipIdx, Option.map_eq_some_iff] at there
  obtain ⟨x', there', same⟩ := there
  rw [Nat.zero_add] at same
  cases same
  exact ⟨x, there', related⟩

theorem forall₂_zipIdx_self {R : α × ℕ → α → Prop} {xs : List α}
    (each : ∀ i x, xs[i]? = some x → R (x, i) x) : List.Forall₂ R xs.zipIdx xs := by
  have zipped : List.Forall₂ R xs.zipIdx (xs.zipIdx.map Prod.fst) :=
    List.forall₂_map_right_iff.2 (List.forall₂_same.2 fun entry member =>
      each entry.2 entry.1 (List.mk_mem_zipIdx_iff_getElem?.1 member))
  rwa [List.zipIdx_map_fst] at zipped

/-- What is the same of each is the same of all. -/
theorem map_eq_of_forall₂ {R : α → β → Prop} {f : α → γ} {g : β → γ} {xs : List α} {ys : List β}
    (each : List.Forall₂ R xs ys) (same : ∀ x y, R x y → g y = f x) : ys.map g = xs.map f := by
  induction each with
  | nil => rfl
  | cons first _ ih => rw [List.map_cons, List.map_cons, ih, same _ _ first]

theorem map_eq_of_zipIdx {R : α × ℕ → β → Prop} {f : α → γ} {g : β → γ} {xs : List α} {ys : List β}
    (each : List.Forall₂ R xs.zipIdx ys) (same : ∀ x i y, R (x, i) y → g y = f x) :
    ys.map g = xs.map f := by
  have zipped := map_eq_of_forall₂ (f := f ∘ Prod.fst) each fun entry y => same entry.1 entry.2 y
  rwa [← List.map_map, List.zipIdx_map_fst] at zipped

end Beside

/-! ## Signing -/

section Signing

variable {keys : Keys F G X Xpriv} {wallet : Storage.Wallet Xpriv}
  {prevout : OutPoint → Option Vout} {spSpendSk : Secret F}
  {spByOutpoint : List (OutPoint × List UInt8)} {psbt psbt' : Psbt}

/-- One finalized input: by hand if it is income, else with bdk's signature. -/
structure Finalized (keys : Keys F G X Xpriv) (spByOutpoint : List (OutPoint × List UInt8))
    (spSpendSk : Secret F) (unsigned : Unsigned) (prevouts : List Vout) (i : ℕ)
    (input input' : PsbtInput) : Prop where
  previousOutput : input'.previousOutput = input.previousOutput
  witness : ∃ signature, input'.finalScriptWitness = some [signature] ∧
    ((∃ tweak digest sk, (input.previousOutput, tweak) ∈ spByOutpoint ∧
      keys.sighash unsigned i prevouts = .ok digest ∧
        spendKeypair keys.toSecp spSpendSk tweak = .ok sk ∧
          signature = keys.signSchnorr sk digest) ∨
      input.tapKeySig = some signature)

omit [DecidableEq G] in
theorem finalized_input {I : Interp chainSig Unit} {unsigned : Unsigned} {prevouts : List Vout}
    {i : ℕ} {input input' : PsbtInput}
    (run : Returns I (finalizeInput keys spByOutpoint spSpendSk unsigned prevouts i input) input') :
    Finalized keys spByOutpoint spSpendSk unsigned prevouts i input input' := by
  unfold finalizeInput at run
  split at run
  case h_1 entry op tweak found =>
      simp only [returns_bind, returns_returned, returns_silent, pure_eq, returns_pure] at run
      obtain ⟨digest, hashed, sk, opens, rfl⟩ := run
      have member := List.mem_of_find?_eq_some found
      have here : op = input.previousOutput := by simpa using List.find?_some found
      rw [here] at member
      exact ⟨rfl, _, rfl, .inl ⟨tweak, digest, sk, member, hashed, opens, rfl⟩⟩
  case h_2 =>
      split at run
      case h_1 signature signed =>
          rw [pure_eq, returns_pure] at run
          cases run
          exact ⟨rfl, _, rfl, .inr signed⟩
      case h_2 => exact absurd run returns_throw

/-- A transaction whose inputs all carry one signature, of the output that is spent. -/
structure Valid (keys : Keys F G X Xpriv) (prevout : OutPoint → Option Vout) (tx : Transaction)
    (prevouts : List Vout) : Prop where
  spent : List.Forall₂ (fun input utxo => prevout input.previousOutput = some utxo)
    tx.inputs prevouts
  signed : ∀ i input, tx.inputs[i]? = some input → ∃ signature, input.witness = [signature] ∧
    Verifies keys tx.unsigned i prevouts signature

/-- The entries by which inputs are signed by hand are of outputs that their tweaks open. -/
def Opened (keys : Keys F G X Xpriv) (prevout : OutPoint → Option Vout) (spSpendSk : Secret F)
    (spByOutpoint : List (OutPoint × List UInt8)) : Prop :=
  ∀ outpoint tweak sk, (outpoint, tweak) ∈ spByOutpoint →
    spendKeypair keys.toSecp spSpendSk tweak = .ok sk →
      ∃ sats, prevout outpoint = some (pinnedUtxo keys sk sats)

/-- In a finished transaction every input shows the output that it spends. -/
theorem shown_of_finishes {request : TxRequest} (finishes : Finishes prevout request psbt)
    (told : ∀ f ∈ request.foreign, prevout f.outpoint = some f.witnessUtxo) {input : PsbtInput}
    (member : input ∈ psbt.inputs) :
    ∃ utxo, input.witnessUtxo = some utxo ∧ prevout input.previousOutput = some utxo := by
  by_cases foreign : input.previousOutput ∈ request.foreign.map Foreign.outpoint
  · obtain ⟨f, listed, same⟩ := List.mem_map.1 foreign
    exact ⟨f.witnessUtxo, finishes.foreign input member f listed same, same ▸ told f listed⟩
  · exact finishes.own input member foreign

omit [DecidableEq F] [DecidableEq G] in
/-- And after bdk has signed. -/
theorem shown_of_signs {request : TxRequest} {mixed finalized : Bool}
    (finishes : Finishes prevout request psbt)
    (told : ∀ f ∈ request.foreign, prevout f.outpoint = some f.witnessUtxo)
    (signs : Signs keys psbt mixed psbt' finalized) {input : PsbtInput}
    (member : input ∈ psbt'.inputs) :
    ∃ utxo, input.witnessUtxo = some utxo ∧ prevout input.previousOutput = some utxo := by
  obtain ⟨i, at_⟩ := List.getElem?_of_mem member
  obtain ⟨input₀, at₀, sameOut, sameUtxo⟩ := forall₂_getElem signs.inputs at_
  rw [sameOut, sameUtxo]
  exact shown_of_finishes finishes told (List.mem_of_getElem? at₀)

/-- What comes of a finished transaction: it, with witnesses, at its fee and within the cap. -/
structure SignedOff (keys : Keys F G X Xpriv) (psbt : Psbt) (maxFeeSats : Option ℕ)
    (tx : Transaction) (fee : ℕ) : Prop where
  unsigned : tx.unsigned = psbt.unsignedTx
  priced : keys.psbtFee psbt = .ok fee
  capped : ∀ cap, maxFeeSats = some cap → fee ≤ cap

/-- What a node asks of a transaction: the outputs it spends are there, its signatures are
theirs, and nothing but the fee is missing. -/
def Accepted (keys : Keys F G X Xpriv) (prevout : OutPoint → Option Vout) (tx : Transaction)
    (fee : ℕ) : Prop :=
  ∃ prevouts, Valid keys prevout tx prevouts ∧
    (prevouts.map Vout.value).sum = (tx.outputs.map Vout.value).sum + fee

/-- An input with its witness. -/
def Witnessed (keys : Keys F G X Xpriv) (unsigned : Unsigned) (prevouts : List Vout)
    (entry : PsbtInput × ℕ) (input : PsbtInput) : Prop :=
  input.previousOutput = entry.1.previousOutput ∧ ∃ signature,
    input.finalScriptWitness = some [signature] ∧
      Verifies keys unsigned entry.2 prevouts signature

omit [DecidableEq F] [DecidableEq G] in
/-- bdk's signatures leave the transaction. -/
theorem Signs.unsignedTx {mixed finalized : Bool} (signs : Signs keys psbt mixed psbt' finalized) :
    psbt'.unsignedTx = psbt.unsignedTx := by
  have outpoints := map_eq_of_forall₂ (g := PsbtInput.previousOutput)
    (f := PsbtInput.previousOutput) signs.inputs fun _ _ same => same.1
  unfold Psbt.unsignedTx
  rw [signs.head, signs.outputs, outpoints]

theorem outpoints_transaction (psbt : Psbt) {inputs : List PsbtInput} :
    (Psbt.transaction { psbt with inputs }).inputs.map TxIn.previousOutput =
      inputs.map PsbtInput.previousOutput := by
  show (inputs.map fun input => (⟨input.previousOutput,
    input.finalScriptWitness.getD []⟩ : TxIn)).map TxIn.previousOutput = _
  rw [List.map_map]
  rfl

/-- Witnesses leave it too. -/
theorem unsigned_transaction (psbt : Psbt) {inputs : List PsbtInput}
    (same : inputs.map PsbtInput.previousOutput = psbt.inputs.map PsbtInput.previousOutput) :
    Transaction.unsigned (Psbt.transaction { psbt with inputs }) = psbt.unsignedTx :=
  congrArg (Unsigned.mk psbt.head · psbt.outputs) ((outpoints_transaction psbt).trans same)

omit [DecidableEq F] [DecidableEq G] in
theorem accepted_of {request : TxRequest} {mixed finalized : Bool} {fee : ℕ}
    {prevouts : List Vout} {inputs : List PsbtInput} (finishes : Finishes prevout request psbt)
    (told : ∀ f ∈ request.foreign, prevout f.outpoint = some f.witnessUtxo)
    (signs : Signs keys psbt mixed psbt' finalized)
    (shown : psbt'.inputs.mapM PsbtInput.witnessUtxo = some prevouts)
    (each : List.Forall₂ (Witnessed keys psbt.unsignedTx prevouts) psbt'.inputs.zipIdx inputs)
    (priced : keys.psbtFee psbt = .ok fee) :
    Accepted keys prevout (Psbt.transaction { psbt' with inputs }) fee := by
  have outpoints := map_eq_of_zipIdx (g := PsbtInput.previousOutput) each fun _ _ _ same => same.1
  refine ⟨prevouts, ⟨?_, ?_⟩, ?_⟩
  · have spent : List.Forall₂ (fun input utxo => prevout input.previousOutput = some utxo)
        psbt'.inputs prevouts := by
      refine ((List.forall₂_and_left _ _).2 ⟨fun input member =>
        shown_of_signs finishes told signs member, mapM_eq_some.1 shown⟩).imp ?_
      intro input utxo ⟨⟨utxo', is, there⟩, is'⟩
      rw [is, Option.some.injEq] at is'
      rw [there, is']
    have there := (List.forall₂_map_left_iff (f := PsbtInput.previousOutput)
      (R := fun o utxo => prevout o = some utxo)).2 spent
    rw [← outpoints, ← outpoints_transaction psbt'] at there
    exact List.forall₂_map_left_iff.1 there
  · intro i input at_
    obtain ⟨input₂, at₂, rfl⟩ := Option.map_eq_some_iff.1 (List.getElem?_map.symm.trans at_)
    obtain ⟨input₁, at₁, same, signature, last, verifies⟩ := forall₂_zipIdx each at₂
    rw [unsigned_transaction psbt' outpoints, signs.unsignedTx]
    refine ⟨signature, ?_, verifies⟩
    show input₂.finalScriptWitness.getD [] = [signature]
    rw [last]
    rfl
  · have utxos := map_eq_of_forall₂ (g := PsbtInput.witnessUtxo) (f := PsbtInput.witnessUtxo)
      signs.inputs fun _ _ same => same.2
    have shown₀ : psbt.inputs.mapM PsbtInput.witnessUtxo = some prevouts := by
      have ids : ∀ inputs : List PsbtInput, inputs.mapM PsbtInput.witnessUtxo =
          (inputs.map PsbtInput.witnessUtxo).mapM id := fun inputs =>
        (List.mapM_map (f := PsbtInput.witnessUtxo) (g := id)).symm
      rw [ids, ← utxos, ← ids]
      exact shown
    rw [keys.psbtFee_eq psbt fee prevouts shown₀ priced, ← signs.outputs]
    rfl

theorem returns_feeCap {I : Interp chainSig Unit} {fee : ℕ} {maxFeeSats : Option ℕ}
    (run : Returns I (feeCap fee maxFeeSats) ()) : ∀ cap, maxFeeSats = some cap → fee ≤ cap := by
  rintro cap rfl
  unfold feeCap at run
  dsimp only at run
  split at run
  case isTrue => exact absurd run returns_throw
  case isFalse under => omega

/-- How a transaction with income gets its witnesses. -/
structure ByHand (keys : Keys F G X Xpriv) (spByOutpoint : List (OutPoint × List UInt8))
    (spSpendSk : Secret F) (psbt : Psbt) (tx : Transaction) (psbt₁ : Psbt) (prevouts : List Vout)
    (inputs : List PsbtInput) : Prop where
  signs : ∃ finalized, Signs keys psbt true psbt₁ finalized
  shown : psbt₁.inputs.mapM PsbtInput.witnessUtxo = some prevouts
  each : List.Forall₂ (fun entry input => Finalized keys spByOutpoint spSpendSk psbt.unsignedTx
    prevouts entry.2 entry.1 input) psbt₁.inputs.zipIdx inputs
  tx : tx = Psbt.transaction { psbt₁ with inputs }

omit [DecidableEq G] in
theorem returns_signMixed {maxFeeSats : Option ℕ} {tx : Transaction} {fee : ℕ}
    (run : Returns (trusted keys wallet prevout)
      (signMixed keys psbt maxFeeSats spByOutpoint spSpendSk) (tx, fee)) :
    SignedOff keys psbt maxFeeSats tx fee ∧ ∃ psbt₁ prevouts inputs,
      ByHand keys spByOutpoint spSpendSk psbt tx psbt₁ prevouts inputs := by
  unfold signMixed at run
  simp only [returns_bind, returns_returned, returns_sign, pure_eq, returns_pure,
    Prod.mk.injEq] at run
  obtain ⟨fee', priced, ⟨⟩, under, ⟨psbt₁, done⟩, signs, psbt₂, finalized, ⟨⟩, -, rfl, rfl⟩ := run
  have signs : Signs keys psbt true psbt₁ done := signs
  unfold finalizeMixedPsbt at finalized
  split at finalized
  case h_1 => exact absurd finalized returns_throw
  case h_2 prevouts shown =>
      simp only [returns_bind, returns_each, pure_eq, returns_pure] at finalized
      obtain ⟨inputs, each, rfl⟩ := finalized
      rw [signs.unsignedTx] at each
      have each := each.imp fun _ _ => finalized_input
      have outpoints := map_eq_of_zipIdx (g := PsbtInput.previousOutput) each
        fun _ _ _ same => same.previousOutput
      refine ⟨⟨?_, priced, returns_feeCap under⟩, psbt₁, prevouts, inputs, ⟨done, signs⟩, shown,
        each, rfl⟩
      rw [unsigned_transaction psbt₁ outpoints, signs.unsignedTx]

omit [DecidableEq G] in
/-- Inputs that are bdk's and inputs of income. -/
theorem accepted_byHand {request : TxRequest} {tx : Transaction} {fee : ℕ} {psbt₁ : Psbt}
    {prevouts : List Vout} {inputs : List PsbtInput} (finishes : Finishes prevout request psbt)
    (told : ∀ f ∈ request.foreign, prevout f.outpoint = some f.witnessUtxo)
    (opened : Opened keys prevout spSpendSk spByOutpoint)
    (byHand : ByHand keys spByOutpoint spSpendSk psbt tx psbt₁ prevouts inputs)
    (priced : keys.psbtFee psbt = .ok fee) : Accepted keys prevout tx fee := by
  obtain ⟨⟨done, signs⟩, shown, each, rfl⟩ := byHand
  refine accepted_of finishes told signs shown ?_ priced
  have numbered : ∀ entry ∈ psbt₁.inputs.zipIdx, psbt₁.inputs[entry.2]? = some entry.1 :=
    fun entry member => List.mk_mem_zipIdx_iff_getElem?.1 member
  refine ((List.forall₂_and_left _ _).2 ⟨numbered, each⟩).imp ?_
  intro ⟨input₁, i⟩ input ⟨at₁, same, signature, last, ways⟩
  refine ⟨same, signature, last, ?_⟩
  obtain ⟨tweak, digest, sk, listed, hashed, opens, rfl⟩ | bdk := ways
  · obtain ⟨utxo, atUtxo, is⟩ := forall₂_getElem (mapM_eq_some.1 shown).flip at₁
    obtain ⟨utxo', is', there⟩ := shown_of_signs finishes told signs (List.mem_of_getElem? at₁)
    obtain rfl : utxo' = utxo := Option.some.inj (is'.symm.trans is)
    obtain ⟨sats, here⟩ := opened _ _ _ listed opens
    obtain rfl : pinnedUtxo keys sk sats = utxo' := Option.some.inj (here.symm.trans there)
    exact ⟨_, _, digest, atUtxo, rfl, hashed, keys.verify_sign sk digest⟩
  · exact signs.verifies i input₁ prevouts signature at₁ bdk shown

omit [DecidableEq F] [DecidableEq G] in
/-- Inputs that are all bdk's. -/
theorem accepted_plain {request : TxRequest} {fee : ℕ} (finishes : Finishes prevout request psbt)
    (none : request.foreign = []) (signs : Signs keys psbt false psbt' true)
    (priced : keys.psbtFee psbt = .ok fee) : Accepted keys prevout psbt'.transaction fee := by
  have told : ∀ f ∈ request.foreign, prevout f.outpoint = some f.witnessUtxo := by
    rw [none]
    exact fun f member => absurd member (List.not_mem_nil)
  obtain ⟨prevouts, shown⟩ := exists_mapM fun input member =>
    (shown_of_signs finishes told signs member).imp fun _ => And.left
  refine accepted_of finishes told signs shown ?_ priced
  refine forall₂_zipIdx_self fun i input at_ => ?_
  obtain ⟨signature, last, verifies⟩ := signs.finalizes rfl rfl i input prevouts at_ shown
  exact ⟨rfl, signature, last, verifies⟩

end Signing

/-! ## The income that is spent -/

section Income

variable {keys : Keys F G X Xpriv} {wallet : Storage.Wallet Xpriv}
  {prevout : OutPoint → Option Vout} {spSpendSk : Secret F}
  {u : Ledger.SpUtxo} {spUtxos : List Ledger.SpUtxo} {I : Interp chainSig Unit}

/-- A txid that is taken reads back. -/
theorem parseTxid_canonical {txid text : String} (is : canonicalTxid txid = .ok text) :
    (parseTxid text).isSome := by
  unfold canonicalTxid at is
  split at is
  case isFalse => cases is
  case isTrue digits =>
      cases is
      obtain ⟨bytes, read, size⟩ := Hex.fromHex_of_digits 32 digits.1
        fun c member => List.all_eq_true.1 digits.2 c member
      unfold parseTxid
      rw [String.toList_ofList, ← Hex.hexLower_fromHex read, Hex.fromHex_hexLower]
      dsimp only
      rw [if_pos size]
      rfl

/-- What is made of an entry of the ledger. -/
structure Pins (keys : Keys F G X Xpriv) (spSpendSk : Secret F) (u : Ledger.SpUtxo)
    (outpoint : OutPoint) (tweak : List UInt8) (sk : Secret F) : Prop where
  txid : canonicalTxid u.txid = .ok outpoint.1
  vout : outpoint.2 = u.vout
  decoded : (Mcp.decodeHex32 u.tweak.toList).run = some (.ok tweak)
  opens : spendKeypair keys.toSecp spSpendSk tweak = .ok sk

omit [DecidableEq G] in
theorem Pins.held {outpoint : OutPoint} {tweak : List UInt8} {sk : Secret F}
    (pins : Pins keys spSpendSk u outpoint tweak sk) (held : Held keys prevout spSpendSk u) :
    prevout outpoint = some (pinnedUtxo keys sk u.sats) := by
  have here := held outpoint.1 tweak sk pins.txid pins.decoded pins.opens
  rwa [← pins.vout] at here

omit [DecidableEq G] in
theorem returns_pinned {input : OutPoint × List UInt8 × Secret F}
    (run : Returns I (pinned keys spSpendSk u) input) :
    Pins keys spSpendSk u input.1 input.2.1 input.2.2 := by
  unfold pinned at run
  simp only [returns_bind, returns_returned, returns_handled, returns_silent, pure_eq,
    returns_pure] at run
  obtain ⟨txid, is, tweak, decoded, sk, opens, rfl⟩ := run
  exact ⟨is, rfl, decoded, opens⟩

omit [DecidableEq G] in
theorem returns_addPinned {input : Foreign × List UInt8}
    (run : Returns I (addPinned keys spSpendSk u) input) :
    ∃ sk, Pins keys spSpendSk u input.1.outpoint input.2 sk ∧
      input.1.witnessUtxo = pinnedUtxo keys sk u.sats := by
  unfold addPinned at run
  simp only [returns_bind, pure_eq, returns_pure] at run
  obtain ⟨⟨outpoint, tweak, sk⟩, pins, ⟨⟩, -, rfl⟩ := run
  exact ⟨sk, returns_pinned pins, rfl⟩

omit [DecidableEq G] in
/-- The foreign inputs are what is on the chain, -/
theorem told_addPinned (held : ∀ u ∈ spUtxos, Held keys prevout spSpendSk u)
    {added : List (Foreign × List UInt8)}
    (run : List.Forall₂ (fun u input => Returns I (addPinned keys spSpendSk u) input)
      spUtxos added) :
    ∀ f ∈ added.map Prod.fst, prevout f.outpoint = some f.witnessUtxo := by
  intro f member
  obtain ⟨input, listed, rfl⟩ := List.mem_map.1 member
  obtain ⟨i, at_⟩ := List.getElem?_of_mem listed
  obtain ⟨u, there, returns⟩ := forall₂_getElem run at_
  obtain ⟨sk, pins, utxo⟩ := returns_addPinned returns
  rw [utxo]
  exact pins.held (held u (List.mem_of_getElem? there))

omit [DecidableEq G] in
/-- and so is what the tweaks are kept for. -/
theorem opened_of_pins (held : ∀ u ∈ spUtxos, Held keys prevout spSpendSk u)
    {entries : List (OutPoint × List UInt8)}
    (pins : List.Forall₂ (fun u entry => ∃ sk, Pins keys spSpendSk u entry.1 entry.2 sk)
      spUtxos entries) : Opened keys prevout spSpendSk entries := by
  intro outpoint tweak sk member opens
  obtain ⟨i, at_⟩ := List.getElem?_of_mem member
  obtain ⟨u, there, sk', pinned⟩ := forall₂_getElem pins at_
  obtain rfl : sk' = sk := Except.ok.inj (pinned.opens.symm.trans opens)
  exact ⟨u.sats, pinned.held (held u (List.mem_of_getElem? there))⟩

/-- The outpoints of the income, as they are given back. -/
def Consumes (spUtxos : List Ledger.SpUtxo) (consumed : List OutPoint) : Prop :=
  outpointsOf spUtxos = .ok consumed

theorem consumes_of_pins {consumed : List OutPoint}
    (pins : List.Forall₂ (fun u (outpoint : OutPoint) => canonicalTxid u.txid = .ok outpoint.1 ∧
      outpoint.2 = u.vout) spUtxos consumed) : Consumes spUtxos consumed := by
  unfold Consumes
  induction pins with
  | nil => rfl
  | @cons u outpoint spUtxos consumed first _ ih =>
      obtain ⟨txid, vout⟩ := outpoint
      obtain ⟨is, rfl⟩ := first
      refine bind_ok.2 ⟨txid, is, bind_ok.2 ⟨consumed, ih, rfl⟩⟩

end Income

/-! ## The inputs of a silent payment -/

section Inputs

variable {keys : Keys F G X Xpriv} {wallet : Storage.Wallet Xpriv}
  {prevout : OutPoint → Option Vout} {spSpendSk : Secret F} {spUtxos : List Ledger.SpUtxo}
  {I : Interp chainSig Unit}

theorem mem_accumulate {target : ℕ → ℕ} {coins selected chosen : List DescUtxo} {running : ℕ}
    (is : CoinSelection.accumulate target coins selected running = some chosen) :
    ∀ coin ∈ chosen, coin ∈ selected ∨ coin ∈ coins := by
  induction coins generalizing selected running with
  | nil => cases is
  | cons u coins ih =>
      unfold CoinSelection.accumulate at is
      dsimp only at is
      intro coin member
      split at is
      case isTrue =>
          cases is
          simp only [List.mem_append, List.mem_singleton] at member
          rcases member with before | rfl
          · exact .inl before
          · exact .inr (List.mem_cons_self ..)
      case isFalse =>
          rcases ih is coin member with before | later
          · simp only [List.mem_append, List.mem_singleton] at before
            rcases before with before | rfl
            · exact .inl before
            · exact .inr (List.mem_cons_self ..)
          · exact .inr (List.mem_cons_of_mem _ later)

/-- Only coins that are there are selected. -/
theorem mem_selected {coins chosen : List DescUtxo} {sats fr prefunded pinnedInputs : ℕ}
    (is : selectLargestFirst coins sats fr prefunded pinnedInputs = some chosen) :
    ∀ coin ∈ chosen, coin ∈ coins := by
  unfold selectLargestFirst at is
  dsimp only at is
  split at is
  case isTrue =>
      cases is
      exact fun coin member => absurd member List.not_mem_nil
  case isFalse =>
      intro coin member
      have sorted := (mem_accumulate is coin member).resolve_left List.not_mem_nil
      exact (CoinSelection.sorted_perm coins).mem_iff.1 sorted

/-- An outpoint, and the secret of the output there. -/
def Stands (keys : Keys F G X Xpriv) (prevout : OutPoint → Option Vout)
    (input : OutPoint × Secret F) : Prop :=
  (parseTxid input.1.1).isSome ∧ ∃ sats, prevout input.1 = some (pinnedUtxo keys input.2 sats)

/-- What a payment sums for an input. -/
def summed (keys : Keys F G X Xpriv) (input : OutPoint × Secret F) : SpInput F :=
  senderInput keys.toSecp (raw input.1, input.2)

omit [DecidableEq G] in
theorem Pins.stands {u : Ledger.SpUtxo} {outpoint : OutPoint} {tweak : List UInt8} {sk : Secret F}
    (pins : Pins keys spSpendSk u outpoint tweak sk) (held : Held keys prevout spSpendSk u) :
    Stands keys prevout (outpoint, sk) :=
  ⟨parseTxid_canonical pins.txid, u.sats, pins.held held⟩

omit [DecidableEq G] in
/-- The secret of a coin is that of its output. -/
theorem stands_coin {coin : DescUtxo} {secret : Secret F} (owned : Owned keys wallet prevout coin)
    (run : Returns I (taprootInputSecret keys wallet.root (coinType wallet.network)
      (keychainBranch coin.keychain) coin.index) secret) :
    ∃ tweaked, Stands keys prevout (coin.outpoint, tweaked) ∧
      secret = taprootInputKey keys.toSecp tweaked := by
  unfold taprootInputSecret at run
  obtain ⟨child, derived, run⟩ := returns_bind.1 run
  have derived : keys.derivePriv wallet.root (leafPath wallet.coinType
    (keychainBranch coin.keychain) coin.index) = .ok child := returns_returned.1 derived
  split at run
  case h_1 => exact absurd run returns_throw
  case h_2 tweaked is =>
      obtain rfl : taprootInputKey keys.toSecp tweaked = secret := returns_pure.1 run
      obtain ⟨key, address, there⟩ := owned.there
      rw [addressKey_tapTweak derived is, Option.some.injEq] at address
      subst address
      exact ⟨tweaked, ⟨owned.named, coin.sats, there⟩, rfl⟩

omit [DecidableEq F] [DecidableEq G] in
/-- The coins and their secrets, as a payment sums them. -/
theorem own_coins {coins : List DescUtxo} {secrets : List (Secret F)}
    (derives : List.Forall₂ (fun coin secret => ∃ tweaked : Secret F,
      Stands keys prevout (coin.outpoint, tweaked) ∧ secret = taprootInputKey keys.toSecp tweaked)
        coins secrets) :
    ∃ own : List (OutPoint × Secret F), (∀ input ∈ own, Stands keys prevout input) ∧
      own.map Prod.fst = coins.map DescUtxo.outpoint ∧
      (coins.zip secrets).map (fun input => (⟨raw input.1.outpoint, input.2⟩ : SpInput F)) =
        own.map (summed keys) := by
  induction derives with
  | nil => exact ⟨[], by simp⟩
  | @cons coin secret coins secrets first _ ih =>
      obtain ⟨tweaked, stands, rfl⟩ := first
      obtain ⟨own, all, outpoints, inputs⟩ := ih
      refine ⟨(coin.outpoint, tweaked) :: own, ?_, ?_, ?_⟩
      · intro input member
        rcases List.mem_cons.1 member with rfl | later
        · exact stands
        · exact all input later
      · simp [outpoints]
      · rw [List.zip_cons_cons, List.map_cons, List.map_cons, inputs]
        rfl

/-- The inputs of a payment to a code, in the order in which it sums them, with their secrets. -/
structure Sums (keys : Keys F G X Xpriv) (prevout : OutPoint → Option Vout) (scan spend : Point G)
    (psbt : Psbt) (recipient : Address) (own : List (OutPoint × Secret F)) : Prop where
  stands : ∀ input ∈ own, Stands keys prevout input
  spent : (psbt.inputs.map PsbtInput.previousOutput).Perm (own.map Prod.fst)
  address : ∃ key, sendAddress keys.toSecp (own.map (summed keys)) scan spend = .ok key ∧
    recipient.script = p2trScript keys.toSecp key

end Inputs

/-! ## A build that returns -/

section Completed

variable {keys : Keys F G X Xpriv} {wallet : Storage.Wallet Xpriv}
  {prevout : OutPoint → Option Vout} {spSpendSk : Secret F} {spUtxos : List Ledger.SpUtxo}
  {network : Network} {sats fee : ℕ} {maxFeeSats : Option ℕ} {tx : Transaction}

theorem returns_loadPolicy {I : Interp chainSig Unit} {policy : Policy} :
    Returns I loadPolicy policy ↔ I.allowed () .loadPolicy (.ok policy) := by
  refine returns_call.trans ?_
  constructor
  · intro ⟨answer, allowed, is⟩
    obtain rfl : answer = .ok policy := returns_returned.1 is
    exact allowed
  · intro allowed
    exact ⟨.ok policy, allowed, returns_returned.2 rfl⟩

/-- What returns behind the guard has read a policy, and that policy passes. -/
theorem guarded_of_returns {I : Interp chainSig Unit} {α : Type} {f : Unit → Chain α} {value : α}
    (run : Returns I (mainnetGuard network >>= f) value) :
    ∃ policy, I.allowed () .loadPolicy (.ok policy) ∧
      ensureMainnetCapped network policy = .ok () := by
  obtain ⟨⟨⟩, guard, -⟩ := returns_bind.1 run
  obtain ⟨policy, loads, passes⟩ := returns_bind.1 guard
  refine ⟨policy, returns_loadPolicy.1 loads, ?_⟩
  rw [returns_returned] at passes
  cases guarded : ensureMainnetCapped network policy with
  | error refusal =>
      rw [guarded] at passes
      cases passes
  | ok done => rfl

/-- So the policy on file passes. -/
theorem passes_of_returns {I : Interp chainSig Unit} {α : Type} {f : Unit → Chain α} {value : α}
    {policy : Policy}
    (run : Returns (I.restrict (PolicyIs policy)) (mainnetGuard network >>= f) value) :
    ensureMainnetCapped network policy = .ok () := by
  obtain ⟨read, ⟨-, is⟩, passes⟩ := guarded_of_returns run
  obtain rfl : read = policy := is
  exact passes

/-- What a build that returns has done, of what was asked and of what bdk made of it. -/
structure Completed (keys : Keys F G X Xpriv) (prevout : OutPoint → Option Vout)
    (spSpendSk : Secret F) (script : String) (sats : ℕ) (maxFeeSats : Option ℕ)
    (spUtxos : List Ledger.SpUtxo) (tx : Transaction) (fee : ℕ) (consumed : List OutPoint)
    (request : TxRequest) (psbt : Psbt) : Prop where
  recipient : request.recipient = ⟨script, sats⟩
  consumes : Consumes spUtxos consumed
  foreign : request.foreign.map Foreign.outpoint = consumed
  finishes : Finishes prevout request psbt
  signedOff : SignedOff keys psbt maxFeeSats tx fee
  accepted : (∀ u ∈ spUtxos, Held keys prevout spSpendSk u) → Accepted keys prevout tx fee

omit [DecidableEq G] in
theorem returns_buildSigned (spSpendSk : Secret F) {payee : String}
    (run : Returns (trusted keys wallet prevout)
      (buildSigned keys network payee sats maxFeeSats) (tx, fee)) :
    ∃ recipient request psbt, keys.parseAddress network payee = .ok recipient ∧
      Completed keys prevout spSpendSk recipient.script sats maxFeeSats [] tx fee [] request
        psbt := by
  unfold buildSigned at run
  obtain ⟨⟨⟩, -, run⟩ := returns_bind.1 run
  obtain ⟨⟨⟩, -, run⟩ := returns_bind.1 run
  obtain ⟨recipient, parsed, run⟩ := returns_bind.1 run
  have parsed := returns_returned.1 parsed
  obtain ⟨feerate, -, run⟩ := returns_bind.1 run
  obtain ⟨psbt, finished, run⟩ := returns_bind.1 run
  have finishes : Finishes prevout _ psbt := returns_finish.1 finished
  obtain ⟨fee', priced, run⟩ := returns_bind.1 run
  have priced := returns_returned.1 priced
  obtain ⟨⟨⟩, under, run⟩ := returns_bind.1 run
  obtain ⟨⟨psbt', finalized⟩, signed, run⟩ := returns_bind.1 run
  have signs : Signs keys psbt false psbt' finalized := returns_sign.1 signed
  cases finalized with
  | false => exact absurd run returns_throw
  | true =>
      obtain ⟨_, -, run⟩ := returns_bind.1 run
      simp only [pure_eq, returns_pure, Prod.mk.injEq] at run
      obtain ⟨rfl, rfl⟩ := run
      refine ⟨recipient, _, psbt, parsed, rfl, rfl, rfl, finishes,
        ⟨?_, priced, returns_feeCap under⟩, fun _ => accepted_plain finishes rfl signs priced⟩
      exact (unsigned_transaction psbt' rfl).trans signs.unsignedTx

omit [DecidableEq G] in
/-- The inputs of income, as bdk is told of them. -/
theorem pins_of_adds {I : Interp chainSig Unit} {foreign : List (Foreign × List UInt8)}
    (adds : List.Forall₂ (fun u input => Returns I (addPinned keys spSpendSk u) input)
      spUtxos foreign) :
    List.Forall₂ (fun u (input : Foreign × List UInt8) =>
      ∃ sk, Pins keys spSpendSk u input.1.outpoint input.2 sk) spUtxos foreign :=
  adds.imp fun _ _ adds => (returns_addPinned adds).imp fun _ => And.left

omit [DecidableEq G] in
theorem returns_buildSignedSpendingSp {payee : String} {consumed : List OutPoint}
    (run : Returns (trusted keys wallet prevout) (buildSignedSpendingSp keys network payee sats
      maxFeeSats spUtxos spSpendSk) (tx, fee, consumed)) :
    ∃ recipient request psbt, keys.parseAddress network payee = .ok recipient ∧
      Completed keys prevout spSpendSk recipient.script sats maxFeeSats spUtxos tx fee
        consumed request psbt := by
  unfold buildSignedSpendingSp at run
  split at run
  case isTrue empty =>
      obtain rfl := List.isEmpty_iff.1 empty
      obtain ⟨⟨tx', fee'⟩, built, run⟩ := returns_bind.1 run
      simp only [pure_eq, returns_pure, Prod.mk.injEq] at run
      obtain ⟨rfl, rfl, rfl⟩ := run
      exact returns_buildSigned spSpendSk built
  case isFalse =>
      obtain ⟨⟨⟩, -, run⟩ := returns_bind.1 run
      obtain ⟨⟨⟩, -, run⟩ := returns_bind.1 run
      obtain ⟨recipient, parsed, run⟩ := returns_bind.1 run
      have parsed := returns_returned.1 parsed
      obtain ⟨feerate, -, run⟩ := returns_bind.1 run
      obtain ⟨foreign, adds, run⟩ := returns_bind.1 run
      have adds := returns_each.1 adds
      obtain ⟨psbt, finished, run⟩ := returns_bind.1 run
      have finishes : Finishes prevout _ psbt := returns_finish.1 finished
      obtain ⟨⟨tx', fee'⟩, signs, run⟩ := returns_bind.1 run
      simp only [pure_eq, returns_pure, Prod.mk.injEq] at run
      obtain ⟨rfl, rfl, rfl⟩ := run
      obtain ⟨signedOff, psbt₁, prevouts, inputs, byHand⟩ := returns_signMixed signs
      have pins := pins_of_adds adds
      refine ⟨recipient, _, psbt, parsed, rfl,
        consumes_of_pins (List.forall₂_map_right_iff.2 (pins.imp fun _ _ pins =>
          pins.elim fun _ pins => ⟨pins.txid, pins.vout⟩)), List.map_map, finishes, signedOff,
        fun held => ?_⟩
      exact accepted_byHand finishes (told_addPinned held adds)
        (opened_of_pins held (List.forall₂_map_right_iff.2 pins)) byHand signedOff.priced

omit [DecidableEq G] in
/-- With no income to spend the guard is that of the plain build. -/
theorem passes_buildSignedSpendingSp {I : Interp chainSig Unit} {policy : Policy} {payee : String}
    {consumed : List OutPoint}
    (run : Returns (I.restrict (PolicyIs policy)) (buildSignedSpendingSp keys network payee sats
      maxFeeSats spUtxos spSpendSk) (tx, fee, consumed)) :
    ensureMainnetCapped network policy = .ok () := by
  unfold buildSignedSpendingSp at run
  split at run
  case isTrue =>
      obtain ⟨_, built, -⟩ := returns_bind.1 run
      exact passes_of_returns built
  case isFalse => exact passes_of_returns run

/-- **A payment to a code is to the sum of its own inputs.** -/
theorem returns_buildSignedToSp {scan spend : Point G} {recipient : Address}
    {consumed : List OutPoint}
    (run : Returns (trusted keys wallet prevout) (buildSignedToSp keys wallet.network
      (descriptors keys wallet).1 scan spend sats maxFeeSats spUtxos spSpendSk)
      (tx, fee, recipient, consumed)) :
    ∃ request psbt, Completed keys prevout spSpendSk recipient.script sats maxFeeSats spUtxos
        tx fee consumed request psbt ∧
      ((∀ u ∈ spUtxos, Held keys prevout spSpendSk u) →
        ∃ own, Sums keys prevout scan spend psbt recipient own) := by
  unfold buildSignedToSp at run
  obtain ⟨⟨⟩, -, run⟩ := returns_bind.1 run
  obtain ⟨⟨⟩, -, run⟩ := returns_bind.1 run
  obtain ⟨feerate, -, run⟩ := returns_bind.1 run
  obtain ⟨spInputs, pins, run⟩ := returns_bind.1 run
  obtain ⟨coins, unspent, run⟩ := returns_bind.1 run
  have pins := returns_each.1 pins
  have owned : AllOwned keys wallet prevout coins := returns_listUnspent.1 unspent
  dsimp only at run
  split at run
  case h_1 => exact absurd run returns_throw
  case h_2 selected selection =>
      obtain ⟨master, is, run⟩ := returns_bind.1 run
      rw [returns_returned, masterXprv_descriptors, Except.ok.injEq] at is
      subst is
      obtain ⟨secrets, derives, run⟩ := returns_bind.1 run
      have derives := returns_each.1 derives
      obtain ⟨key, sends, run⟩ := returns_bind.1 run
      have sends := returns_silent.1 sends
      obtain ⟨_, -, run⟩ := returns_bind.1 run
      obtain ⟨foreign, adds, run⟩ := returns_bind.1 run
      have adds := returns_each.1 adds
      obtain ⟨psbt, finished, run⟩ := returns_bind.1 run
      have finishes : Finishes prevout _ psbt := returns_finish.1 finished
      obtain ⟨⟨tx', fee'⟩, signs, run⟩ := returns_bind.1 run
      simp only [pure_eq, returns_pure, Prod.mk.injEq] at run
      obtain ⟨rfl, rfl, rfl, rfl⟩ := run
      obtain ⟨signedOff, psbt₁, prevouts, inputs, byHand⟩ := returns_signMixed signs
      -- The income is pinned twice, to the same.
      have pinned : List.Forall₂ (fun u (input : OutPoint × List UInt8 × Secret F) =>
          Pins keys spSpendSk u input.1 input.2.1 input.2.2) spUtxos spInputs :=
        pins.imp fun _ _ => returns_pinned
      have consumes : Consumes spUtxos (spInputs.map Prod.fst) :=
        consumes_of_pins (List.forall₂_map_right_iff.2 (pinned.imp fun _ _ pins =>
          ⟨pins.txid, pins.vout⟩))
      have added : Consumes spUtxos ((foreign.map Prod.fst).map Foreign.outpoint) :=
        consumes_of_pins (List.forall₂_map_right_iff.2 (List.forall₂_map_right_iff.2
          ((pins_of_adds adds).imp fun _ _ pins => pins.elim fun _ pins => ⟨pins.txid, pins.vout⟩)))
      have same : (foreign.map Prod.fst).map Foreign.outpoint = spInputs.map Prod.fst :=
        Except.ok.inj (added.symm.trans consumes)
      refine ⟨_, psbt, ⟨rfl, consumes, same, finishes, signedOff,
        fun held => ?_⟩, fun held => ?_⟩
      · have opened : Opened keys prevout spSpendSk
            (spInputs.map fun input => (input.1, input.2.1)) := by
          refine opened_of_pins held (List.forall₂_map_right_iff.2 (pinned.imp ?_))
          exact fun _ _ pins => ⟨_, pins⟩
        exact accepted_byHand finishes (told_addPinned held adds) opened byHand signedOff.priced
      · have derived : List.Forall₂ (fun coin secret => ∃ tweaked : Secret F,
            Stands keys prevout (coin.outpoint, tweaked) ∧
              secret = taprootInputKey keys.toSecp tweaked) selected secrets := by
          refine ((List.forall₂_and_left _ _).2 ⟨fun coin member =>
            owned coin (mem_selected selection coin member), derives⟩).imp ?_
          exact fun coin secret both => stands_coin both.1 both.2
        obtain ⟨own, stands, outpoints, summed_⟩ := own_coins derived
        refine ⟨spInputs.map (fun input => (input.1, input.2.2)) ++ own, ?_, ?_, key, ?_, rfl⟩
        · intro input member
          rcases List.mem_append.1 member with income | coin
          · obtain ⟨input', listed, rfl⟩ := List.mem_map.1 income
            obtain ⟨i, at_⟩ := List.getElem?_of_mem listed
            obtain ⟨u, there, pins⟩ := forall₂_getElem pinned at_
            exact pins.stands (held u (List.mem_of_getElem? there))
          · exact stands input coin
        · obtain ⟨drawn, perm, only⟩ := finishes.spends
          obtain rfl : drawn = [] := only rfl
          dsimp only at perm
          rw [same, List.append_nil] at perm
          rw [List.map_append, List.map_map, outpoints]
          exact perm.trans List.perm_append_comm
        · rw [List.map_append, List.map_map, ← summed_]
          exact sends

/-- A transaction that a node takes, that pays `sats` to `script` at a fee within the cap, and
that spends the income it is said to consume. -/
structure Paid (keys : Keys F G X Xpriv) (prevout : OutPoint → Option Vout) (script : String)
    (sats : ℕ) (maxFeeSats : Option ℕ) (spUtxos : List Ledger.SpUtxo) (tx : Transaction) (fee : ℕ)
    (consumed : List OutPoint) : Prop where
  pays : ⟨script, sats⟩ ∈ tx.outputs
  accepted : Accepted keys prevout tx fee
  capped : ∀ cap, maxFeeSats = some cap → fee ≤ cap
  consumes : Consumes spUtxos consumed
  spent : ∀ outpoint ∈ consumed, outpoint ∈ tx.inputs.map TxIn.previousOutput

omit [DecidableEq G] in
theorem Completed.paid {script : String} {consumed : List OutPoint} {request : TxRequest}
    {psbt : Psbt} (completed : Completed keys prevout spSpendSk script sats maxFeeSats
      spUtxos tx fee consumed request psbt)
    (held : ∀ u ∈ spUtxos, Held keys prevout spSpendSk u) :
    Paid keys prevout script sats maxFeeSats spUtxos tx fee consumed := by
  have outputs : tx.outputs = psbt.outputs :=
    congrArg Unsigned.outputs completed.signedOff.unsigned
  have inputs : tx.inputs.map TxIn.previousOutput = psbt.inputs.map PsbtInput.previousOutput :=
    congrArg Unsigned.inputs completed.signedOff.unsigned
  refine ⟨?_, completed.accepted held, completed.signedOff.capped, completed.consumes, ?_⟩
  · rw [outputs, ← completed.recipient]
    exact completed.finishes.pays
  · intro outpoint member
    obtain ⟨drawn, perm, -⟩ := completed.finishes.spends
    rw [inputs, perm.mem_iff, completed.foreign]
    exact List.mem_append_right _ member

end Completed

end

end Builders

open Builders

section

variable {F G X Xpriv : Type} [Field F] [AddCommGroup G] [Module F G] [DecidableEq F]
  [DecidableEq G]

/-- **Every build that returns is valid**: whatever bdk draws and however it orders the inputs,
each carries a signature of the output that it spends, and what is not paid out is the fee. -/
theorem built_transactions_valid (keys : Keys F G X Xpriv) (wallet : Storage.Wallet Xpriv)
    (prevout : OutPoint → Option Vout) (spSpendSk : Secret F) (spUtxos : List Ledger.SpUtxo)
    (sats : ℕ) (maxFeeSats : Option ℕ) (tx : Transaction) (fee : ℕ)
    (held : ∀ u ∈ spUtxos, Held keys prevout spSpendSk u) :
    (∀ network payee, Returns (trusted keys wallet prevout)
        (buildSigned keys network payee sats maxFeeSats) (tx, fee) →
      ∃ recipient, keys.parseAddress network payee = .ok recipient ∧
        Paid keys prevout recipient.script sats maxFeeSats [] tx fee []) ∧
    (∀ network payee consumed, Returns (trusted keys wallet prevout)
        (buildSignedSpendingSp keys network payee sats maxFeeSats spUtxos spSpendSk)
        (tx, fee, consumed) →
      ∃ recipient, keys.parseAddress network payee = .ok recipient ∧
        Paid keys prevout recipient.script sats maxFeeSats spUtxos tx fee consumed) ∧
    ∀ scan spend recipient consumed, Returns (trusted keys wallet prevout)
        (buildSignedToSp keys wallet.network (descriptors keys wallet).1 scan spend sats maxFeeSats
          spUtxos spSpendSk) (tx, fee, recipient, consumed) →
      Paid keys prevout recipient.script sats maxFeeSats spUtxos tx fee consumed := by
  refine ⟨?_, ?_, ?_⟩
  · intro network payee run
    obtain ⟨recipient, request, psbt, parsed, completed⟩ :=
      returns_buildSigned spSpendSk run
    exact ⟨recipient, parsed, completed.paid fun u member => absurd member List.not_mem_nil⟩
  · intro network payee consumed run
    obtain ⟨recipient, request, psbt, parsed, completed⟩ := returns_buildSignedSpendingSp run
    exact ⟨recipient, parsed, completed.paid held⟩
  · intro scan spend recipient consumed run
    obtain ⟨request, psbt, completed, -⟩ := returns_buildSignedToSp run
    exact completed.paid held

end

/-! ## The build that the send paths take -/

namespace Builders

section

variable {F G X Xpriv : Type} [Field F] [AddCommGroup G] [Module F G]

/-- An installation with these libraries and this policy. -/
def installed (keys : Keys F G X Xpriv) (host : Host) (network : Network) (policy : Policy) :
    Host :=
  { host with network, policy, parseAddress := keys.parseAddress network }

/-- What is recorded of a transaction; its id is that of what is signed. -/
def recorded (txidOf : Unsigned → String) (sats fee : ℕ) (tx : Transaction) : Tx :=
  ⟨txidOf tx.unsigned, sats, fee, tx.inputs.map TxIn.previousOutput⟩

section Runs

variable {host : Host} {w w' : World}

/-- A call with this answer. -/
theorem exec_op {α : Type} {op : Op} {next : op.Ans → Prog α} {result : Except Kernel.Error α}
    (answer : op.Ans) (allowed : w.allows host op answer)
    (rest : Exec (interp host) (next answer) (w.after op answer) result w') :
    Exec (interp host) (.call op next) w result w' :=
  .call allowed rest

theorem exec_mainnetGuard (capped : ensureMainnetCapped host.network host.policy = .ok ()) :
    Exec (interp host) (Kernel.mainnetGuard host) w (.ok ()) w := by
  refine exec_op (Except.ok host.policy) rfl ?_
  show Exec (interp host) (gate (ensureMainnetCapped host.network host.policy)) w (.ok ()) w
  rw [capped]
  exact .pure () w

theorem exec_syncWallet : Exec (interp host) syncWallet w (.ok ()) w :=
  exec_op (Except.ok ()) trivial (.pure () w)

theorem exec_ofExcept {α : Type} {outcome : Except Kernel.Error α} {value : α}
    (is : outcome = .ok value) : Exec (interp host) (.ofExcept outcome) w (.ok value) w := by
  rw [is]
  exact .pure value w

theorem exec_finishPsbt {request : BuildRequest} (psbt : Kernel.Psbt) :
    Exec (interp host) (finishPsbt request) w (.ok psbt) w :=
  exec_op (Except.ok psbt) trivial (.pure psbt w)

theorem exec_signed {psbt : Kernel.Psbt} {sats : ℕ} {maxFeeSats : Option ℕ}
    (capped : ∀ cap, maxFeeSats = some cap → psbt.fee ≤ cap) :
    Exec (interp host) (signed psbt sats maxFeeSats) w
      (.ok ⟨psbt.txid, sats, psbt.fee, psbt.inputs⟩)
      { w with signed := ⟨psbt.txid, sats, psbt.fee, psbt.inputs⟩ :: w.signed } := by
  have within_ : Exec (interp host) (Kernel.feeCap psbt.fee maxFeeSats) w (.ok ()) w := by
    cases maxFeeSats with
    | none => exact .pure () w
    | some cap =>
        unfold Kernel.feeCap
        dsimp only
        rw [if_neg (Nat.not_lt.2 (capped cap rfl))]
        exact .pure () w
  have sign_ : Exec (interp host) (signTx ⟨psbt.txid, sats, psbt.fee, psbt.inputs⟩) w (.ok ())
      { w with signed := ⟨psbt.txid, sats, psbt.fee, psbt.inputs⟩ :: w.signed } :=
    exec_op (Except.ok ()) trivial (.pure () _)
  exact Exec.bind within_ (Exec.bind sign_ (.pure _ _))

theorem exec_buildSigned (tx : Tx) {payee : String} {recipient : Address} {maxFeeSats : Option ℕ}
    (guarded : ensureMainnetCapped host.network host.policy = .ok ())
    (parsed : host.parseAddress payee = .ok recipient)
    (capped : ∀ cap, maxFeeSats = some cap → tx.fee ≤ cap) :
    Exec (interp host) (Kernel.buildSigned host payee tx.sats maxFeeSats) w (.ok tx)
      { w with signed := tx :: w.signed } := by
  refine Exec.bind (exec_mainnetGuard guarded) (Exec.bind exec_syncWallet
    (Exec.bind (exec_ofExcept parsed) ?_))
  exact Exec.bind (exec_finishPsbt ⟨tx.txid, tx.fee, tx.inputs, recipient⟩) (exec_signed capped)

theorem exec_buildSignedSpendingSp (tx : Tx) {payee : String} {recipient : Address}
    {maxFeeSats : Option ℕ} {funds : List Ledger.SpUtxo} {consumed : List OutPoint}
    (guarded : ensureMainnetCapped host.network host.policy = .ok ())
    (parsed : host.parseAddress payee = .ok recipient) (consumes : outpointsOf funds = .ok consumed)
    (capped : ∀ cap, maxFeeSats = some cap → tx.fee ≤ cap) :
    Exec (interp host) (Kernel.buildSignedSpendingSp host payee tx.sats maxFeeSats funds) w
      (.ok (tx, consumed)) { w with signed := tx :: w.signed } := by
  cases funds with
  | nil =>
      cases consumes
      exact Exec.bind (exec_buildSigned tx guarded parsed capped) (.pure _ _)
  | cons u funds =>
      refine Exec.bind (exec_mainnetGuard guarded) (Exec.bind exec_syncWallet
        (Exec.bind (exec_ofExcept parsed) (Exec.bind (exec_ofExcept consumes) ?_)))
      exact Exec.bind (exec_finishPsbt ⟨tx.txid, tx.fee, tx.inputs, recipient⟩)
        (Exec.bind (exec_signed capped) (.pure _ _))

theorem exec_buildSignedToSp (tx : Tx) {scan spend : Kernel.PublicKey} {recipient : Address}
    {maxFeeSats : Option ℕ} {funds : List Ledger.SpUtxo} {consumed : List OutPoint}
    (guarded : ensureMainnetCapped host.network host.policy = .ok ())
    (consumes : outpointsOf funds = .ok consumed)
    (capped : ∀ cap, maxFeeSats = some cap → tx.fee ≤ cap) :
    Exec (interp host) (Kernel.buildSignedToSp host scan spend tx.sats maxFeeSats funds) w
      (.ok (tx, recipient, consumed)) { w with signed := tx :: w.signed } := by
  refine Exec.bind (exec_mainnetGuard guarded) (Exec.bind exec_syncWallet
    (Exec.bind (exec_ofExcept consumes) ?_))
  exact Exec.bind (exec_finishPsbt ⟨tx.txid, tx.fee, tx.inputs, recipient⟩)
    (Exec.bind (exec_signed capped) (.pure _ _))

end Runs

end

end Builders

section

variable {F G X Xpriv : Type} [Field F] [AddCommGroup G] [Module F G] [DecidableEq F]
  [DecidableEq G]

/-- **What the builders return, the build of the send paths returns**, in any world and under
the policy that was read: the same transaction at the same fee, to the same recipient, with the
same income consumed, and it is the one transaction signed. -/
theorem builders_refine (keys : Keys F G X Xpriv) (wallet : Storage.Wallet Xpriv)
    (prevout : OutPoint → Option Vout) (spSpendSk : Secret F) (spUtxos : List Ledger.SpUtxo)
    (sats : ℕ) (maxFeeSats : Option ℕ) (tx : Transaction) (fee : ℕ) (host : Host)
    (txidOf : Unsigned → String) (w : World) (policy : Policy) :
    (∀ network payee, Returns ((trusted keys wallet prevout).restrict (PolicyIs policy))
        (buildSigned keys network payee sats maxFeeSats) (tx, fee) →
      Exec (interp (installed keys host network policy))
        (Kernel.buildSigned (installed keys host network policy) payee sats maxFeeSats) w
        (.ok (recorded txidOf sats fee tx))
        { w with signed := recorded txidOf sats fee tx :: w.signed }) ∧
    (∀ network payee consumed,
      Returns ((trusted keys wallet prevout).restrict (PolicyIs policy))
        (buildSignedSpendingSp keys network payee sats maxFeeSats spUtxos spSpendSk)
        (tx, fee, consumed) →
      Exec (interp (installed keys host network policy))
        (Kernel.buildSignedSpendingSp (installed keys host network policy) payee sats maxFeeSats
          spUtxos) w
        (.ok (recorded txidOf sats fee tx, consumed))
        { w with signed := recorded txidOf sats fee tx :: w.signed }) ∧
    ∀ scan spend scanKey spendKey recipient consumed,
      Returns ((trusted keys wallet prevout).restrict (PolicyIs policy))
        (buildSignedToSp keys wallet.network (descriptors keys wallet).1 scan spend sats maxFeeSats
          spUtxos spSpendSk) (tx, fee, recipient, consumed) →
      Exec (interp (installed keys host wallet.network policy))
        (Kernel.buildSignedToSp (installed keys host wallet.network policy) scanKey spendKey sats
          maxFeeSats spUtxos) w
        (.ok (recorded txidOf sats fee tx, recipient, consumed))
        { w with signed := recorded txidOf sats fee tx :: w.signed } := by
  refine ⟨?_, ?_, ?_⟩
  · intro network payee run
    obtain ⟨recipient, request, psbt, parsed, completed⟩ :=
      returns_buildSigned spSpendSk run.unrestricted
    exact exec_buildSigned (recorded txidOf sats fee tx) (passes_of_returns run) parsed
      completed.signedOff.capped
  · intro network payee consumed run
    obtain ⟨recipient, request, psbt, parsed, completed⟩ :=
      returns_buildSignedSpendingSp run.unrestricted
    exact exec_buildSignedSpendingSp (recorded txidOf sats fee tx)
      (passes_buildSignedSpendingSp run) parsed completed.consumes completed.signedOff.capped
  · intro scan spend scanKey spendKey recipient consumed run
    obtain ⟨request, psbt, completed, -⟩ := returns_buildSignedToSp run.unrestricted
    exact exec_buildSignedToSp (recorded txidOf sats fee tx) (passes_of_returns run)
      completed.consumes completed.signedOff.capped

end

/-! ## Three inputs over the integers modulo seven -/

namespace Builders

/-- A signature is the key, and what is signed. -/
def sevenSign (sk : Secret (ZMod 7)) (digest : List UInt8) : List UInt8 :=
  sevenCurve.xBytes (sevenCurve.xOnly (sevenCurve.publicKey sk).1) ++ digest

def sevenVerify (key : ZMod 7) (digest signature : List UInt8) : Bool :=
  signature == sevenCurve.xBytes key ++ digest

theorem sevenVerify_sign (sk : Secret (ZMod 7)) (digest : List UInt8) :
    sevenVerify (sevenCurve.xOnly (sevenCurve.publicKey sk).1) digest (sevenSign sk digest) =
      true :=
  beq_iff_eq.2 rfl

def sevenFee (psbt : Psbt) : Except Kernel.Error ℕ :=
  match psbt.inputs.mapM PsbtInput.witnessUtxo with
  | none => .error "missing utxo"
  | some prevouts =>
      if (psbt.outputs.map Vout.value).sum ≤ (prevouts.map Vout.value).sum then
        .ok ((prevouts.map Vout.value).sum - (psbt.outputs.map Vout.value).sum)
      else .error "negative fee"

theorem sevenFee_eq (psbt : Psbt) (fee : ℕ) (prevouts : List Vout)
    (shown : psbt.inputs.mapM PsbtInput.witnessUtxo = some prevouts)
    (priced : sevenFee psbt = .ok fee) :
    (prevouts.map Vout.value).sum = (psbt.outputs.map Vout.value).sum + fee := by
  unfold sevenFee at priced
  rw [shown] at priced
  dsimp only at priced
  split at priced
  case isTrue enough =>
      have is := Except.ok.inj priced
      omega
  case isFalse => cases priced

def sevenText (_ : Unit) : List Char := "xprv".toList

def sevenRead (_ : List Char) : Except Kernel.Error Unit := .ok ()

theorem sevenRead_text (key : Unit) : sevenRead (sevenText key) = .ok key := rfl

theorem sevenText_plain (key : Unit) (c : Char) (member : c ∈ sevenText key) : c ≠ '/' := by
  rintro rfl
  have none : '/' ∉ "xprv".toList := by decide
  exact none member

/-- Keys over the integers modulo seven: the last digit of a path is the secret there. -/
def sevenKeys : Keys (ZMod 7) (ZMod 7) (ZMod 7) Unit where
  toSecp := sevenCurve
  derivePriv _ path := .ok (sevenSecret ((path.toList.getLast?.bind Hex.digitValue?).getD 0))
  xprivText := sevenText
  xprivOf := sevenRead
  xprivOf_xprivText := sevenRead_text
  xprivText_plain := sevenText_plain
  parseAddress _ text := .ok ⟨text, text⟩
  p2trDisplay _ key := "key " ++ toString key.val
  sighash _ i _ := .ok [UInt8.ofNat i]
  signSchnorr := sevenSign
  verifySchnorr := sevenVerify
  verify_sign := sevenVerify_sign
  psbtFee := sevenFee
  psbtFee_eq := sevenFee_eq
  extractable _ := .ok ()
  secpError := "out of range"

def sevenWallet : Storage.Wallet Unit := ⟨(), .signet⟩

/-- A script that pays to this key. -/
def sevenScript (key : ℕ) : String := p2trScript sevenCurve (key : ZMod 7)

/-- Two coins of the wallet, and one output of income. -/
def sevenCoins : List DescUtxo :=
  [⟨(firstTxid, 0), 2500, .external, 1⟩, ⟨(secondTxid, 2), 1500, .internal, 3⟩]

def sevenIncome : Ledger.SpUtxo :=
  ⟨sampleTxid, 1, 2000, String.ofList (Hex.hexLower (lastByte 1))⟩

def sevenPrevouts : List (OutPoint × Vout) :=
  [((firstTxid, 0), ⟨sevenScript 2, 2500⟩),
    ((secondTxid, 2), ⟨sevenScript 3, 1500⟩),
    ((sampleTxid, 1), ⟨sevenScript 3, 2000⟩)]

def sevenPrevout (o : OutPoint) : Option Vout := sevenPrevouts.lookup o

def sevenAsked : TxRequest where
  feerate := 1
  manuallySelectedOnly := true
  utxos := [(firstTxid, 0), (secondTxid, 2)]
  foreign := [⟨(sampleTxid, 1), ⟨sevenScript 3, 2000⟩, 66⟩]
  recipient := ⟨sevenScript 2, 5000⟩

/-- An input in bdk's transaction, with this signature. -/
def sevenInput (o : OutPoint) (signature : Option (List UInt8)) : PsbtInput :=
  ⟨o, sevenPrevout o, signature, none⟩

/-- bdk puts the inputs the other way round, and change first. -/
def sevenFinished : Psbt where
  head := [2]
  inputs := [sevenInput (secondTxid, 2) none, sevenInput (sampleTxid, 1) none,
    sevenInput (firstTxid, 0) none]
  outputs := [⟨"0014751e76e8199196d454941c45d1b3a323f1433bd6", 700⟩,
    ⟨sevenScript 2, 5000⟩]

def sevenSignature (key : ℕ) (i : UInt8) : List UInt8 := lastByte key ++ [i]

/-- And signs for its own. -/
def sevenSigned : Psbt :=
  { sevenFinished with
    inputs := [sevenInput (secondTxid, 2) (some (sevenSignature 3 0)),
      sevenInput (sampleTxid, 1) none, sevenInput (firstTxid, 0) (some (sevenSignature 2 2))] }

def sevenAnswer : (op : ChainOp) → Unit → op.Ans × Unit
  | .loadPolicy, () => (.ok ⟨none, none, none, []⟩, ())
  | .fullScan, () => (.ok (), ())
  | .feeEstimates, () => ([(6, 1)], ())
  | .listUnspent, () => (sevenCoins, ())
  | .addUtxo _, () | .addForeignUtxo _, () => (.ok (), ())
  | .finish request, () => (if request = sevenAsked then .ok sevenFinished else .error "", ())
  | .sign psbt mixed, () =>
      (if psbt = sevenFinished ∧ mixed = true then .ok (sevenSigned, false) else .error "", ())

def sevenPaid : Transaction where
  head := [2]
  inputs := [⟨(secondTxid, 2), [sevenSignature 3 0]⟩, ⟨(sampleTxid, 1), [sevenSignature 3 1]⟩,
    ⟨(firstTxid, 0), [sevenSignature 2 2]⟩]
  outputs := sevenFinished.outputs


theorem seven_returns : (Program.run (S := chainSig) sevenAnswer (buildSignedToSp sevenKeys .signet
    (descriptors sevenKeys sevenWallet).1 (sevenCurve.publicKey sevenScan)
    (sevenCurve.publicKey sevenSpend) 5000 (some 400) [sevenIncome] (sevenSecret 2))
    ()).1.toOption =
      some (sevenPaid, 300, ⟨sevenScript 2, "key 2"⟩, [(sampleTxid, 1)]) := by
  decide +kernel

/-- What is shown and is there. -/
theorem shown_seven {input : PsbtInput} (is : input.witnessUtxo.isSome = true ∧
    sevenPrevout input.previousOutput = input.witnessUtxo) :
    ∃ utxo, input.witnessUtxo = some utxo ∧ sevenPrevout input.previousOutput = some utxo := by
  obtain ⟨utxo, some_⟩ := Option.isSome_iff_exists.1 is.1
  exact ⟨utxo, some_, is.2.trans some_⟩

theorem finishes_seven : Finishes sevenPrevout sevenAsked sevenFinished where
  spends := ⟨[], by decide +kernel, fun _ => rfl⟩
  own := by
    have all : ∀ input ∈ sevenFinished.inputs, input.witnessUtxo.isSome = true ∧
        sevenPrevout input.previousOutput = input.witnessUtxo := by decide +kernel
    exact fun input member _ => shown_seven (all input member)
  foreign := by decide +kernel
  pays := by decide +kernel

theorem signs_seven : Signs sevenKeys sevenFinished true sevenSigned false where
  head := rfl
  outputs := rfl
  inputs := .cons ⟨rfl, rfl⟩ (.cons ⟨rfl, rfl⟩ (.cons ⟨rfl, rfl⟩ .nil))
  verifies := by
    intro i input prevouts signature at_ signed shown
    have is : sevenSigned.inputs.mapM PsbtInput.witnessUtxo =
        some [⟨sevenScript 3, 1500⟩, ⟨sevenScript 3, 2000⟩,
          ⟨sevenScript 2, 2500⟩] := by decide +kernel
    rw [is] at shown
    cases shown
    match i with
    | 0 =>
        cases at_
        cases signed
        exact ⟨_, 3, [0], rfl, rfl, rfl, by decide +kernel⟩
    | 1 =>
        cases at_
        cases signed
    | 2 =>
        cases at_
        cases signed
        exact ⟨_, 2, [2], rfl, rfl, rfl, by decide +kernel⟩
    | i + 3 => cases at_
  finalizes := fun mixed => by cases mixed

theorem owned_seven : AllOwned sevenKeys sevenWallet sevenPrevout sevenCoins := by
  intro coin member
  rcases List.mem_cons.1 member with rfl | member
  · exact ⟨by decide +kernel, 2, by decide +kernel, by decide +kernel⟩
  · obtain rfl := List.mem_singleton.1 member
    exact ⟨by decide +kernel, 3, by decide +kernel, by decide +kernel⟩

theorem seven_allowed (op : ChainOp) :
    Trusted sevenKeys sevenWallet sevenPrevout op (sevenAnswer op ()).1 := by
  cases op with
  | listUnspent => exact owned_seven
  | finish request =>
      by_cases is : request = sevenAsked
      · subst is
        exact finishes_seven
      · have refused : (sevenAnswer (.finish request) ()).1 = .error "" := if_neg is
        rw [refused]
        trivial
  | sign psbt mixed =>
      by_cases is : psbt = sevenFinished ∧ mixed = true
      · obtain ⟨rfl, rfl⟩ := is
        exact signs_seven
      · have refused : (sevenAnswer (.sign psbt mixed) ()).1 = .error "" := if_neg is
        rw [refused]
        trivial
  | _ => trivial

theorem held_seven : ∀ u ∈ [sevenIncome], Held sevenKeys sevenPrevout (sevenSecret 2) u := by
  intro u member txid tweak sk named decoded opens
  obtain rfl := List.mem_singleton.1 member
  have txid_ : (canonicalTxid sevenIncome.txid).toOption = some sampleTxid := by decide +kernel
  have tweak_ : (Mcp.decodeHex32 sevenIncome.tweak.toList).run.bind Except.toOption =
      some (lastByte 1) := by decide +kernel
  have sk_ : (spendKeypair sevenCurve (sevenSecret 2) (lastByte 1)).toOption =
      some (sevenSecret 3) := by decide +kernel
  rw [named] at txid_
  rw [decoded] at tweak_
  cases txid_
  cases tweak_
  rw [show spendKeypair sevenCurve (sevenSecret 2) (lastByte 1) = .ok sk from opens] at sk_
  cases sk_
  decide +kernel

end Builders

theorem built_transactions_valid_seven :
    Paid sevenKeys sevenPrevout (sevenScript 2) 5000 (some 400) [sevenIncome] sevenPaid
      300 [(sampleTxid, 1)] :=
  (built_transactions_valid sevenKeys sevenWallet sevenPrevout (sevenSecret 2) [sevenIncome] 5000
    (some 400) sevenPaid 300 held_seven).2.2 (sevenCurve.publicKey sevenScan)
      (sevenCurve.publicKey sevenSpend) ⟨sevenScript 2, "key 2"⟩ [(sampleTxid, 1)]
      (returns_of_run seven_allowed seven_returns)

theorem policyIs_seven (op : ChainOp) :
    ((trusted sevenKeys sevenWallet sevenPrevout).restrict (PolicyIs ⟨none, none, none, []⟩)).allowed
      () op (sevenAnswer op ()).1 :=
  ⟨seven_allowed op, by cases op <;> first | rfl | trivial⟩

theorem builders_refine_seven :
    Exec (interp (installed sevenKeys (.sample .signet .default) .signet ⟨none, none, none, []⟩))
      (Kernel.buildSignedToSp
        (installed sevenKeys (.sample .signet .default) .signet ⟨none, none, none, []⟩) [2] [3] 5000
        (some 400) [sevenIncome]) .blank
      (.ok (recorded (fun _ => sampleTxid) 5000 300 sevenPaid, ⟨sevenScript 2, "key 2"⟩,
        [(sampleTxid, 1)]))
      { World.blank with signed := [recorded (fun _ => sampleTxid) 5000 300 sevenPaid] } :=
  (builders_refine sevenKeys sevenWallet sevenPrevout (sevenSecret 2) [sevenIncome] 5000 (some 400)
    sevenPaid 300 (.sample .signet .default) (fun _ => sampleTxid) .blank
    ⟨none, none, none, []⟩).2.2
      (sevenCurve.publicKey sevenScan) (sevenCurve.publicKey sevenSpend) [2] [3]
      ⟨sevenScript 2, "key 2"⟩ [(sampleTxid, 1)]
      (returns_of_run policyIs_seven seven_returns)

end ComputerMoney.Safety

/-
# Safety.PaymentArrives -- what one wallet pays to a code, the other can spend

From end to end: the payer's builder, bdk's order of the inputs, esplora's view of the
transaction, the payee's pass over the chain, the receipt on file, the recovery loop that
makes it final, and the coin that the payee's own builders are handed.  Payer and payee share
nothing but the code.
-/
import ComputerMoney.Kernel.Snapshot
import ComputerMoney.Safety.Income
import ComputerMoney.Safety.ReconcileTwice

namespace ComputerMoney.Safety

set_option autoImplicit false

open Theory Theory.Program
open Kernel hiding PublicKey Error Psbt feeCap loadPolicy buildSigned buildSignedToSp
  buildSignedSpendingSp mainnetGuard
open Kernel.Builder
open Kernel.Sp (txMatches taprootOutputs)

open Builders BuiltPayment Income

namespace PaymentArrives

section

variable (host : Host) (contents : String → List EsploraTx) (chain : ℕ → Best) (led : Handle)
  (pages : ℕ) (view : EsploraTx)

/-- A pass on a complete instance that came by this transaction.  What the file has of it is
from earlier passes. -/
structure CameBy (s : Journal) (report : ScanReport) (s' : Journal) : Prop where
  synced : s.1.mem led = s.1.ledger
  before : BookedFrom host view s.1.ledger
  named : ∀ hash, ∀ tx ∈ contents hash, tx.txid = view.txid → tx = view
  run : Exec (overChain host contents chain) (scanToTip host led pages) s (.ok report) s'
  shown : ∃ height hash, report.fromHeight ≤ height ∧ height ≤ report.toHeight ∧
    lastHash s'.2 height = some hash ∧ view ∈ contents hash

variable {host contents chain led pages view} {s s' : Journal} {report : ScanReport}

/-- Every match that is not dust is on file then. -/
theorem CameBy.receipt (cameBy : CameBy host contents chain led pages view s report s')
    (once : ((host.txMatches view).map SpFound.vout).Nodup) {f : SpFound}
    (matched : f ∈ host.txMatches view) (worth : dustFloor ≤ f.sats) :
    ⟨view.txid, f.vout, f.sats, String.ofList (Hex.hexLower f.tweak)⟩ ∈ receipts s'.1.ledger := by
  obtain ⟨height, hash, low, high, shown, member⟩ := cameBy.shown
  have booked := receipts_of_tx once cameBy.named cameBy.before
    (scanToTip_read cameBy.synced cameBy.run) low high shown member
  have among : ⟨view.txid, f.vout, f.sats, String.ofList (Hex.hexLower f.tweak)⟩ ∈
      matchReceipts view.txid (host.txMatches view) :=
    List.mem_map_of_mem (List.mem_filter.2 ⟨matched, decide_eq_true worth⟩)
  exact (List.mem_filter.1 (booked.mem_iff.2 among)).1

end

/-! ## From the receipt to the coin -/

section

variable {host : Host} {snap : Snapshot} {led : Handle} {w w' : World} {n : ℕ} {txid : String}

/-- The log has grown since, by entries that neither spend the output nor give its transaction
up, and the recovery loop has run on it to its end with the transaction three deep. -/
structure Matured (host : Host) (before : List Entry) (txid : String) (vout : ℕ) (snap : Snapshot)
    (led : Handle) (w w' : World) : Prop where
  grown : before <+: w.ledger
  synced : w.mem led = w.ledger
  alive : Ledger.latestStatus w.ledger txid ≠ some .failed
  unspent : Ledger.isSpSpent w.ledger txid vout = false
  deep : 3 ≤ snap.count txid
  run : ∃ n, Exec (against host snap False) (reconcile led) w (.ok n) w'

theorem isSpSpent_updates {entries us : List Entry} {vout : ℕ} (updates : Updates us) :
    Ledger.isSpSpent (entries ++ us) txid vout = Ledger.isSpSpent entries txid vout := by
  have none : Ledger.isSpSpent us txid vout = false := by
    refine List.any_eq_false.2 fun e member => ?_
    obtain ⟨seq, t, status, rfl⟩ := updates e member
    exact of_decide_eq_false rfl
  rw [Ledger.isSpSpent, List.any_append]
  exact (congrArg _ none).trans (Bool.or_false _)

/-- What is three deep and was not given up is final after the loop. -/
theorem final_of_settled (settled : Snapshot.Settled snap led w n w')
    (synced : w.mem led = w.ledger) (recorded : Ledger.hasTxid w.ledger txid = true)
    (deep : 3 ≤ snap.count txid)
    (alive : Ledger.latestStatus w.ledger txid ≠ some .failed) :
    Ledger.latestStatus w'.ledger txid = some .final := by
  rw [← settled.progress.synced synced]
  rw [← synced] at recorded alive
  by_cases final : Ledger.latestStatus (w.mem led) txid = some .final
  · rw [settled.progress.untold txid fun queued => (Ledger.mem_pending_iff.1 queued).2.1 final]
    exact final
  · rw [settled.progress.status txid (Ledger.mem_pending_iff.2 ⟨recorded, final, alive⟩),
      Snapshot.target, Snapshot.status_counted _ (by omega)]
    obtain ⟨more, count⟩ := Nat.exists_eq_add_of_le' deep
    rw [count]
    rfl

theorem mem_spUtxos_of_matured {before : List Entry} {i sats : ℕ} {tweak : String}
    (onFile : ⟨txid, i, sats, tweak⟩ ∈ receipts before)
    (matured : Matured host before txid i snap led w w') :
    ⟨txid, i, sats, tweak⟩ ∈ Ledger.spUtxos w'.ledger := by
  obtain ⟨n, run⟩ := matured.run
  have settled : Snapshot.Settled snap led w n w' := wp_exec wp_reconcile_settles run
  obtain ⟨us, -, ledger, -, updates⟩ := settled.progress.onlyUpdates
  obtain ⟨e, listed, is⟩ := List.mem_filterMap.1 onFile
  cases e with
  | spReceived seq txid vout sats tweak status =>
      cases is
      have there := matured.grown.subset listed
      have recorded : Ledger.hasTxid w.ledger txid = true :=
        Ledger.hasTxid_iff.2 ⟨_, there, rfl⟩
      refine Ledger.mem_spUtxos.2 ⟨⟨seq, status, ?_⟩, ?_, ?_⟩
      · rw [ledger]
        exact List.mem_append_left _ there
      · exact final_of_settled settled matured.synced recorded matured.deep matured.alive
      · rw [ledger, isSpSpent_updates updates]
        exact matured.unspent
  | _ => cases is

end

end PaymentArrives

open PaymentArrives

section

variable {F G X Xpriv : Type} [Field F] [AddCommGroup G] [Module F G] [DecidableEq F]
  [DecidableEq G] [DecidableEq X]

/-- **What one wallet pays to a code, the other can spend.**  The payee's pass that comes by a
transaction built for its code leaves a receipt of the payment on file, of an output on the
chain that its tweak opens; and once the recovery loop has run with the transaction three deep,
the payee's builders are handed it as a coin. -/
theorem payment_arrives (keys : Keys F G X Xpriv) (payer : Storage.Wallet Xpriv)
    (prevout : OutPoint → Option Vout) (spSpendSk scanSk spendSk : Secret F)
    (spUtxos : List Ledger.SpUtxo) (sats : ℕ) (maxFeeSats : Option ℕ) (tx : Transaction) (fee : ℕ)
    (recipient : Address) (consumed : List OutPoint) (view : EsploraTx)
    (held : ∀ u ∈ spUtxos, Held keys prevout spSpendSk u)
    (built : Returns (trusted keys payer prevout) (buildSignedToSp keys payer.network
      (descriptors keys payer).1 (keys.publicKey scanSk) (keys.publicKey spendSk) sats maxFeeSats
      spUtxos spSpendSk) (tx, fee, recipient, consumed))
    (shows_ : ShowsTx prevout view tx)
    (unbroken : PartialSum.Unbroken 0 ((readKeys keys view).map Subtype.val))
    (distinct : ((taprootOutputs keys.toSecp view).map fun o => o.2.1).Nodup)
    (derives : DerivesLater keys scanSk spendSk view) (worth : dustFloor ≤ sats)
    (payee : Host) (contents : String → List EsploraTx) (chain : ℕ → Best) (led : Handle)
    (pages : ℕ) (s s' : Journal) (report : ScanReport) (outputs : OutPoint → Option Vout)
    (wallet : payee.txMatches = fun view =>
      txMatches keys.toSecp view scanSk (keys.publicKey spendSk))
    (hashed : ∀ tag data, (keys.taggedHash tag data).length = 32)
    (onChain : OnChain keys outputs view)
    (cameBy : CameBy payee contents chain led pages view s report s') :
    ∃ i tweak, view.vout[i]? = some ⟨recipient.script, sats⟩ ∧
      ⟨view.txid, i, sats, tweak⟩ ∈ receipts s'.1.ledger ∧
      Spendable keys outputs spendSk ⟨view.txid, i, sats, tweak⟩ ∧
      ∀ snap led' w w', Matured payee s'.1.ledger view.txid i snap led' w w' →
        ⟨view.txid, i, sats, tweak⟩ ∈ Ledger.spUtxos w'.ledger := by
  obtain ⟨own, key, pays⟩ := paysCode_of_built held built shows_ unbroken
  obtain ⟨i, tweak, -, there, matched, -⟩ := foundBy_of_paysCode pays distinct derives
  have once : ((payee.txMatches view).map SpFound.vout).Nodup := by
    rw [wallet]
    exact txMatches_nodup keys.toSecp view scanSk (keys.publicKey spendSk)
  have reported : ⟨i, sats, tweak⟩ ∈ payee.txMatches view := by
    rw [wallet]
    exact matched
  have onFile := cameBy.receipt once reported worth
  refine ⟨i, _, there, onFile, spendable_of_match hashed onChain matched, ?_⟩
  exact fun snap led' w w' matured => mem_spUtxos_of_matured onFile matured

end

namespace PaymentArrives

/-- The transaction of `sevenPaid`, by a name of its own. -/
def sevenPayment : EsploraTx := { sevenView with txid := String.ofList (List.replicate 64 'b') }

/-- The recovery loop after the pass, everything three deep. -/
def sevenMatured : Except Kernel.Error ℕ × World :=
  run ((snapshotScript threeDeep).handle sevenHost) (reconcile 0) (shownRun sevenPayment).2.1

theorem exec_sevenMatured : Exec (against sevenHost threeDeep False) (reconcile 0)
    (shownRun sevenPayment).2.1 sevenMatured.1 sevenMatured.2 :=
  (snapshotScript threeDeep).exec sevenHost
    (fun op w => snapshotScript_answers sevenHost threeDeep False op w) (reconcile 0) _

end PaymentArrives

/-- Three inputs, one of them income, pay 5000 sats to the code of the wallet that scans
block 100. -/
theorem payment_arrives_seven :
    ∃ i tweak, sevenPayment.vout[i]? = some ⟨sevenScript 2, 5000⟩ ∧
      ⟨sevenPayment.txid, i, 5000, tweak⟩ ∈ receipts (shownRun sevenPayment).2.1.ledger ∧
      Spendable sevenKeys (outputsOf sevenPayment) sevenSpend
        ⟨sevenPayment.txid, i, 5000, tweak⟩ ∧
      ⟨sevenPayment.txid, i, 5000, tweak⟩ ∈ Ledger.spUtxos sevenMatured.2.ledger := by
  obtain ⟨reported, shown, settled, synced, alive, unspent⟩ :
      (shownRun sevenPayment).1 = .ok ⟨100, 100, [⟨sevenPayment.txid, 1, 5000⟩]⟩ ∧
        lastHash (shownRun sevenPayment).2.2 100 = some "block" ∧ sevenMatured.1 = .ok 1 ∧
        (shownRun sevenPayment).2.1.mem 0 = (shownRun sevenPayment).2.1.ledger ∧
        Ledger.latestStatus (shownRun sevenPayment).2.1.ledger sevenPayment.txid ≠ some .failed ∧
        ∀ e ∈ (shownRun sevenPayment).2.1.ledger, e.spSpent? = none := by
    decide +kernel
  have run := exec_shownRun sevenPayment
  rw [reported] at run
  have fresh : BookedFrom sevenHost sevenPayment World.blank.ledger :=
    ⟨fun _ member => absurd member List.not_mem_nil, List.nodup_nil⟩
  have onChain : OnChain sevenKeys (outputsOf sevenPayment) sevenPayment :=
    ⟨rfl, fun _ _ there => (if_pos rfl).trans there, by decide +kernel⟩
  have shows_ : ShowsTx sevenPrevout sevenPayment sevenPaid := ⟨shows_seven.vin, shows_seven.vout⟩
  have loop := exec_sevenMatured
  rw [settled] at loop
  have matured : ∀ i, Matured sevenHost (shownRun sevenPayment).2.1.ledger sevenPayment.txid i
      threeDeep 0 (shownRun sevenPayment).2.1 sevenMatured.2 := by
    intro i
    refine ⟨List.prefix_refl _, synced, alive, ?_, Nat.le_refl _, 1, loop⟩
    refine List.any_eq_false.2 fun e member => ?_
    rw [unspent e member]
    exact of_decide_eq_false rfl
  obtain ⟨i, tweak, there, onFile, spendable, coin⟩ := payment_arrives sevenKeys sevenWallet
    sevenPrevout (sevenSecret 2) sevenScan sevenSpend [sevenIncome] 5000 (some 400) sevenPaid 300
    ⟨sevenScript 2, "key 2"⟩ [(sampleTxid, 1)] sevenPayment held_seven
    (returns_of_run seven_allowed seven_returns) shows_ (by decide +kernel) (by decide +kernel)
    (fun _ _ _ _ _ => ⟨(2, lastByte 1), rfl⟩) (by decide) sevenHost _ _ 0 1 _ _ _ _ rfl
    sevenCurve_taggedHash onChain
    ⟨rfl, fresh, fun _ _ member _ => List.mem_singleton.1 member, run, 100, "block", Nat.le_refl _,
      Nat.le_refl _, shown, List.mem_singleton_self _⟩
  exact ⟨i, tweak, there, onFile, spendable, coin _ _ _ _ (matured i)⟩

end ComputerMoney.Safety

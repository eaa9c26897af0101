/-
# Kernel.Passes -- what a command does beside its passes

Only a pass of the scanner books a receipt or saves the checkpoint; every other call of every
command is `Op.scanless`.  So what is to be vouched for of all the calls of a command is
vouched for of `scanToTip` (`vouched_command`).
-/
import ComputerMoney.Kernel.Commands
import ComputerMoney.Kernel.Esplora
import ComputerMoney.Theory.Vouched

namespace ComputerMoney.Kernel

set_option autoImplicit false

open Theory Theory.Program

/-- The calls that neither book a receipt nor save the checkpoint. -/
def Op.scanless : Op → Prop
  | .append _ e => receipt? e = none
  | .saveCheckpoint _ => False
  | _ => True

section Scanless

variable {host : Host} {led : Handle}

theorem scanless_open {α : Type} {f : Handle → Prog α} (rest : ∀ led, (f led).Within Op.scanless) :
    (Ledger.openWithIdentity >>= f).Within Op.scanless :=
  within_bind ⟨trivial, fun _ => within_ofExcept⟩ rest

theorem scanless_gate {verdict : Except PolicyError Unit} :
    (gate verdict).Within Op.scanless := by
  rcases verdict with refusal | ⟨⟩ <;> trivial

/-! ## Payments -/

theorem scanless_send {payee : String} {sats : ℕ} {maxFeeSats : Option ℕ} :
    (send host led payee sats maxFeeSats).Within Op.scanless :=
  within_send trivial trivial (fun _ => trivial) (fun _ => trivial) trivial trivial
    (fun _ => trivial) (fun _ _ _ _ _ => rfl) fun _ => trivial

theorem scanless_spSend {code : String} {sats : ℕ} {maxFeeSats : Option ℕ} :
    (spSend host led code sats maxFeeSats).Within Op.scanless :=
  within_spSend trivial trivial (fun _ => trivial) (fun _ => trivial) trivial trivial
    (fun _ => trivial) (fun _ _ _ _ _ => rfl) (fun _ => trivial) fun _ _ _ => rfl

theorem scanless_sendSpendingSp {payee : String} {sats : ℕ} {maxFeeSats : Option ℕ} :
    (sendSpendingSp host led payee sats maxFeeSats).Within Op.scanless :=
  within_sendSpendingSp trivial trivial (fun _ => trivial) (fun _ => trivial) trivial trivial
    (fun _ => trivial) (fun _ _ _ _ _ => rfl) (fun _ => trivial) fun _ _ _ => rfl

theorem scanless_spendGate {policy : Policy} {sats : ℕ} :
    (spendGate led policy sats).Within Op.scanless :=
  within_bind ⟨trivial, fun _ => trivial⟩ fun _ =>
    within_bind ⟨trivial, fun _ => trivial⟩ fun _ => scanless_gate

theorem scanless_gated {α : Type} {payee : String} {sats : ℕ} {pay : Option ℕ → Prog α}
    (paid : ∀ maxFeeSats, (pay maxFeeSats).Within Op.scanless) :
    (gated led payee sats pay).Within Op.scanless :=
  within_bind ⟨trivial, fun _ => within_ofExcept⟩ fun _ =>
    within_bind scanless_spendGate fun _ => within_bind scanless_gate fun _ => paid _

theorem scanless_runPayer {inbox : List Message} {closed : Except Error Unit} {sats : ℕ} :
    (runPayer host led inbox closed sats).Within Op.scanless := by
  have awaits : (awaitAddress closed inbox).Within Op.scanless := by
    induction inbox with
    | nil => exact within_bind within_ofExcept fun _ => trivial
    | cons message inbox ih =>
        cases message with
        | addrResponse address index => trivial
        | _ => exact ih
  refine within_bind ⟨trivial, fun _ => within_ofExcept⟩ fun policy => ?_
  refine within_bind scanless_spendGate fun _ => ?_
  refine within_bind ⟨trivial, fun _ => within_ofExcept⟩ fun _ => ?_
  refine within_bind awaits fun ⟨address, _⟩ => within_bind scanless_gate fun _ => ?_
  exact within_bind scanless_send fun txid => ⟨trivial, fun _ => within_ofExcept⟩

theorem scanless_fetch {url : String} {maxSats : ℕ} :
    (fetch host led url maxSats).Within Op.scanless := by
  have retries : ∀ txid sats left, (retryPaid url txid sats left).Within Op.scanless := by
    intro txid sats left
    induction left with
    | zero => trivial
    | succ left ih =>
        refine within_bind ⟨trivial, fun _ => within_ofExcept⟩ fun retry => ?_
        split
        · trivial
        · exact ih
  unfold fetch
  split
  · trivial
  refine within_bind ⟨trivial, fun _ => within_ofExcept⟩ fun first => ?_
  split
  · trivial
  split
  · trivial
  refine within_bind within_ofExcept fun terms => within_bind within_ofExcept fun _ => ?_
  refine within_bind (scanless_gated fun _ => scanless_spSend) fun txid => ?_
  exact retries txid terms.sats Kernel.retries

theorem scanless_tunnelPay {ep : Endpoint} {peerPub : String} {sats : ℕ} :
    (tunnelPay host ep peerPub sats).Within Op.scanless :=
  within_bind within_ofExcept fun _ => within_bind within_ofExcept fun _ => scanless_open fun _ =>
    within_bind ⟨trivial, fun _ => within_ofExcept⟩ fun _ => scanless_runPayer

theorem scanless_spPay {code : String} {sats : ℕ} : (spPay host code sats).Within Op.scanless :=
  scanless_open fun _ => scanless_gated fun _ => scanless_spSend

theorem scanless_payment (use : Payment) : (use.perform host).Within Op.scanless := by
  cases use with
  | tunnel ep peerPub sats => exact within_bind (within_attempt scanless_tunnelPay) fun _ => trivial
  | sendPayment payee sats =>
      refine within_bind (within_attempt ?_) fun _ => trivial
      exact scanless_open fun _ => scanless_gated fun _ => scanless_sendSpendingSp
  | spPay code sats => exact within_bind (within_attempt scanless_spPay) fun _ => trivial
  | cliSpPay code sats => exact within_bind (within_attempt scanless_spPay) fun _ => trivial
  | fetch url maxSats =>
      exact within_bind (within_attempt (scanless_open fun _ => scanless_fetch)) fun _ => trivial

theorem scanless_dialEach {lead wg : String} {sats : ℕ} {eps : List Endpoint}
    {lastErr : Option Error} : (dialEach host lead wg sats eps lastErr).Within Op.scanless := by
  induction eps generalizing lastErr with
  | nil => cases lastErr <;> trivial
  | cons ep eps ih =>
      refine within_bind ⟨trivial, fun _ => trivial⟩ fun _ => ?_
      refine within_bind (within_attempt scanless_tunnelPay) fun outcome => ?_
      rcases outcome with error | ⟨⟩
      · exact ih
      · trivial

theorem scanless_cliPayCard {card : Card} {sats : ℕ} :
    (cliPayCard host card sats).Within Op.scanless := by
  unfold cliPayCard
  split
  · exact within_bind scanless_spPay fun _ => trivial
  · split
    · trivial
    · exact scanless_dialEach

theorem scanless_payPeerCard {card : Card} {sats : ℕ} :
    (payPeerCard host card sats).Within Op.scanless := by
  unfold payPeerCard
  split
  · exact scanless_spPay
  · split
    · trivial
    · refine within_bind scanless_dialEach fun _ => scanless_open fun led => ?_
      refine within_bind ⟨trivial, fun _ => trivial⟩ fun es => ?_
      split <;> trivial

/-! ## The daemon -/

theorem scanless_reconcile : (reconcile led).Within Op.scanless :=
  within_reconcile trivial (fun _ => trivial) (fun _ => trivial) (fun _ => trivial)
    (fun _ _ _ => rfl) (fun _ _ => trivial) trivial

theorem scanless_reconcileLedger : reconcileLedger.attempt.Within Op.scanless :=
  within_attempt (scanless_open fun _ => scanless_reconcile)

theorem scanless_handleNotify {issuedIndex : Option ℕ} {issuedAddress : Option String}
    {txid : String} {claimed : ℕ} :
    (handleNotify led issuedIndex issuedAddress txid claimed).Within Op.scanless := by
  unfold handleNotify
  cases issuedAddress with
  | none => trivial
  | some address =>
      refine within_bind (within_attempt ⟨trivial, fun _ => within_ofExcept⟩) fun answer => ?_
      cases answer with
      | error e => trivial
      | ok deposits =>
          dsimp only
          split
          · trivial
          · refine within_bind (within_recordReceived trivial fun _ => rfl) fun _ => ?_
            exact within_bind (within_attempt scanless_reconcile) fun _ => trivial

theorem scanless_runReceiver {closed : Except Error Unit} {inbox : List Message} {nextIndex : ℕ}
    {issuedIndex : Option ℕ} {issuedAddress : Option String} :
    (runReceiver host led closed inbox nextIndex issuedIndex issuedAddress).Within
      Op.scanless := by
  induction inbox generalizing nextIndex issuedIndex issuedAddress with
  | nil => exact within_ofExcept
  | cons message inbox ih =>
      cases message with
      | addrRequest sats =>
          unfold runReceiver
          split
          · trivial
          · refine within_bind ⟨trivial, fun _ => trivial⟩ fun es => ?_
            refine within_bind ⟨rfl, fun answer => ?_⟩ fun _ => ?_
            · cases answer <;> trivial
            · exact within_bind ⟨trivial, fun _ => within_ofExcept⟩ fun _ => ih
          · exact ih
      | notify txid claimed => exact scanless_handleNotify
      | chat text => exact ih
      | addrResponse address index => exact ih

theorem scanless_pollIssued : (pollIssued host led).Within Op.scanless :=
  within_pollIssued trivial (fun _ => trivial) fun _ _ _ _ => rfl

end Scanless

/-! ## Whole commands -/

section Vouched

variable {told : (op : Op) → op.Ans → Prop} {does : Op → Prop} {host : Host} {led : Handle}
  (free : ∀ op, Op.scanless op → does op)
  (scans : ∀ led pages, (scanToTip host led pages).Vouched told does)
include free

theorem vouched_of_scanless {α : Type} {p : Prog α} (body : p.Within Op.scanless) :
    p.Vouched told does :=
  (body.mono free).vouched

include scans

theorem vouched_scanFresh (pages : ℕ) : (scanFresh host pages).Vouched told does :=
  vouched_bind ⟨free _ trivial, fun _ _ => within_ofExcept.vouched⟩ fun led =>
    vouched_bind (scans led pages) fun _ =>
      vouched_bind ⟨free _ trivial, fun _ _ => trivial⟩ fun _ => trivial

theorem vouched_duty (duty : Duty) : (duty.perform host led).Vouched told does := by
  cases duty with
  | watch pages =>
      refine vouched_bind (vouched_of_scanless free (within_attempt scanless_reconcile)) fun _ => ?_
      refine vouched_bind (vouched_of_scanless free scanless_pollIssued) fun _ => ?_
      exact vouched_bind (vouched_attempt (vouched_scanFresh free scans pages)) fun _ => trivial
  | session inbox closed =>
      refine vouched_of_scanless free (within_bind ⟨trivial, fun _ => trivial⟩ fun es => ?_)
      exact within_bind (within_attempt scanless_runReceiver) fun _ => trivial

/-- **What is vouched for of a pass, and of the calls that no pass is needed for, is vouched for
of every command.** -/
theorem vouched_command (command : Command) :
    (command.perform host).Vouched told does := by
  cases command with
  | serve duties =>
      exact vouched_bind ⟨free _ trivial, fun _ _ => within_ofExcept.vouched⟩ fun _ =>
        vouched_forEach fun duty _ => vouched_duty free scans duty
  | payment use => exact vouched_of_scanless free (scanless_payment use)
  | payCard card sats => exact vouched_of_scanless free scanless_cliPayCard
  | payPeer card sats =>
      exact vouched_of_scanless free (within_bind scanless_payPeerCard fun _ => trivial)
  | balance pages =>
      refine vouched_bind ?_ fun _ => trivial
      refine vouched_bind ⟨free _ trivial, fun _ _ => within_ofExcept.vouched⟩ fun _ => ?_
      refine vouched_bind (vouched_attempt ⟨free _ trivial, fun _ _ => within_ofExcept.vouched⟩)
        fun opened => ?_
      cases opened with
      | error e => trivial
      | ok led =>
          refine vouched_bind (vouched_attempt (scans led pages)) fun _ => ?_
          refine vouched_of_scanless free (within_bind (within_attempt scanless_reconcile) fun _ => ?_)
          exact within_bind ⟨trivial, fun _ => trivial⟩ fun _ => trivial
  | collections pages =>
      refine vouched_bind ?_ fun _ => trivial
      refine vouched_bind ⟨free _ trivial, fun _ _ => within_ofExcept.vouched⟩ fun led => ?_
      refine vouched_bind (vouched_attempt (scans led pages)) fun outcome => ?_
      cases outcome <;>
      · refine vouched_bind trivial fun note => ?_
        exact vouched_bind ⟨free _ trivial, fun _ _ => trivial⟩ fun _ =>
          vouched_bind within_ofExcept.vouched fun _ => trivial
  | confs txid =>
      refine vouched_of_scanless free (within_bind ?_ fun _ => trivial)
      refine within_bind ⟨trivial, fun _ => within_ofExcept⟩ fun confs => ?_
      exact within_bind scanless_reconcileLedger fun _ => trivial
  | heal =>
      exact vouched_of_scanless free (within_bind scanless_reconcileLedger fun _ => trivial)

end Vouched

end ComputerMoney.Kernel

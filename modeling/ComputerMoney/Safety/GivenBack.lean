/-
# Safety.GivenBack -- a failed payment keeps its silent-payment inputs

A payment that consumes silent-payment outputs books each as spent once it is broadcast.
When the recovery loop fails the payment, the balance of the descriptor wallet forgets the
debit; the outputs stay booked as spent, and nothing takes a booking back.

`failed_gives_back` is about every run of sends, scans and reconciles, with crashes, while
the network moves between any two calls.  Where each payment that is refused for good has
all its silent-payment inputs spent on the chain, no failed payment holds anything back.
Everywhere else what a failed payment has booked stays booked.
-/
import ComputerMoney.Safety.FailedIsDead

namespace ComputerMoney.Safety

set_option autoImplicit false

open Theory Theory.Program Kernel

/-! ## The property -/

section Property

variable (inputsOf : String → List OutPoint) (silent : OutPoint → Prop)

/-- No transaction on the chain spends the output. -/
def Nodes.unspent (nodes : Nodes) (o : OutPoint) : Prop := ∀ t ∈ nodes.confirmed, o ∉ inputsOf t

/-- What a failed payment holds back: a silent-payment output that is booked as spent on its
account alone, that is unspent, and three deep. -/
structure HeldBack (nodes : Nodes) (entries : List Entry) (txid : String) (o : OutPoint) :
    Prop where
  sent : txid ∈ entries.filterMap Entry.sentTxid?
  failed : Ledger.latestStatus entries txid = some .failed
  silentPayment : silent o
  booked : Ledger.isSpSpent entries o.1 o.2 = true
  input : o ∈ inputsOf txid
  alone : ∀ t ∈ entries.filterMap Entry.sentTxid?, t ≠ txid → o ∉ inputsOf t
  unspent : nodes.unspent inputsOf o
  deep : 3 ≤ nodes.confs o.1

/-- The outputs that `sp_utxos` lists and `sp_balance` sums. -/
def spendable (entries : List Entry) : List OutPoint :=
  (Ledger.spUtxos entries).map fun u => (u.txid, u.vout)

/-- The silent-payment inputs, if there are any, are all spent on the chain. -/
def Nodes.usedUp (nodes : Nodes) (txid : String) : Prop :=
  ∀ o ∈ inputsOf txid, silent o → ∃ t ∈ nodes.confirmed, o ∈ inputsOf t

end Property

/-- **A booking is for good.** -/
theorem notSpendable_of_spSpent {entries : List Entry} {o : OutPoint}
    (booked : Ledger.isSpSpent entries o.1 o.2 = true) : o ∉ spendable entries := by
  intro member
  obtain ⟨u, listed, rfl⟩ := List.mem_map.1 member
  obtain ⟨-, -, unspent⟩ := Ledger.mem_spUtxos.1 listed
  rw [booked] at unspent
  cases unspent

/-! ## Whole runs -/

/-- **What a failed payment gives back.**  In every state that sends, scans and reconciles
reach from an empty directory, with any answers, crashes, and any moves of the network in
between: provided each payment the loop is refused for has its silent-payment inputs all
spent on the chain by then, whatever a failed payment holds back is spendable.  Without the
proviso, nothing that a failed payment holds back is spendable in any state. -/
theorem failed_gives_back (host : Host) (inputsOf : String → List OutPoint)
    (silent : OutPoint → Prop) (history : History inputsOf) :
    (∀ s, Reachable (facing host history.toMoves (Justified fun i txid =>
        (history.nodes i).usedUp inputsOf silent txid)) (chores host) crashed
        (World.blank, []) s → ∀ txid o,
      HeldBack inputsOf silent (history.nodes s.2.length) s.1.ledger txid o →
        o ∈ spendable s.1.ledger) ∧
    ∀ s, Reachable (facing host history.toMoves fun _ _ _ => True) (chores host) crashed
        (World.blank, []) s → ∀ txid o,
      HeldBack inputsOf silent (history.nodes s.2.length) s.1.ledger txid o →
        o ∉ spendable s.1.ledger := by
  have lasts : ∀ i txid, (history.nodes i).usedUp inputsOf silent txid →
      (history.nodes (i + 1)).usedUp inputsOf silent txid := by
    intro i txid used o input isSilent
    obtain ⟨t, confirmed, spends⟩ := used o input isSilent
    exact ⟨t, history.confirmed_later (Nat.le_succ i) confirmed, spends⟩
  constructor
  · intro s reached txid o held
    obtain ⟨e, member, is⟩ := Ledger.exists_of_latestStatus held.failed
    have used := (Reachable.failsGone lasts reached).failed e member txid is
    obtain ⟨t, confirmed, spends⟩ := used o held.input held.silentPayment
    exact absurd spends (held.unspent t confirmed)
  · intro s _ txid o held
    exact notSpendable_of_spSpent held.booked

/-! ## One payment that holds an output back, and one that does not -/

/-- The transaction that pays the wallet silently. -/
def silentTxid : String := String.ofList (List.replicate 64 'a')

/-- The payment spends the silent payment beside the output it shares with its rival. -/
def silentInputs (txid : String) : List OutPoint :=
  if txid = sampleTxid then [(silentTxid, 0), ("parent", 0)]
  else if txid = "rival" then [("parent", 0)] else []

/-- The silent payment is three deep; after the payment is out, its rival confirms. -/
def silentNodes (i : ℕ) : Nodes :=
  if i < 37 then ⟨[["parent"], [silentTxid], [], []], []⟩
  else ⟨[["parent"], [silentTxid], [], [], ["rival"]], []⟩

def silentHistory : History silentInputs where
  nodes := silentNodes
  grows i := by
    unfold silentNodes
    split_ifs <;> first | omega | exact List.prefix_rfl | exact ⟨[["rival"]], rfl⟩
  consistent i := by
    have only : ∀ t ∈ (silentNodes i).confirmed, ∀ o ∈ silentInputs t, t = "rival" := by
      unfold silentNodes
      split_ifs <;> decide +kernel
    intro t member t' member' o input input'
    exact (only t member o input).trans (only t' member' o input').symm

def silentHost : Host :=
  { walletHost with
    txMatches := fun tx => if tx.txid = silentTxid then [⟨0, 5000, [7]⟩] else [] }

/-- The chain for the scanner; the rest is as before. -/
def silentAnswer (s : Journal) : (op : Op) → op.Ans
  | .tipHeight => .ok 3
  | .loadCheckpoint => match s.1.checkpoint with
      | .absent => .ok none
      | .scanned height => .ok (some height)
      | .torn => .error "expected value"
  | .blockHash height => .ok (if height = 1 then "block 1" else "block")
  | .blockTxs hash _ => .ok (if hash = "block 1" then [⟨silentTxid, [], []⟩] else [])
  | op => nodesAnswer silentInputs silentNodes s op

/-- Scan, reconcile, spend, reconcile. -/
def spendThenReconcile (calls : ℕ) : Journal :=
  cut (noting silentAnswer) calls (chores silentHost
    [.scan 1, .task .reconcile, .task (.sendSpendingSp sampleAddress.display 40000 (some 500)),
      .task .reconcile]) (World.blank, [])

theorem silentAnswer_allowed (op : Op) (s : Journal) :
    (facing silentHost silentHistory.toMoves fun _ _ _ => True).allowed s op (silentAnswer s op) := by
  obtain ⟨allowed, answered⟩ := nodesAnswer_allowed silentInputs silentNodes op s
  cases op with
  | tipHeight | blockHash | blockTxs => exact ⟨trivial, trivial, trivial⟩
  | loadCheckpoint =>
      refine ⟨?_, trivial, trivial⟩
      show World.allows silentHost s.1 .loadCheckpoint (match s.1.checkpoint with
        | .absent => .ok none
        | .scanned height => .ok (some height)
        | .torn => .error "expected value")
      split <;> assumption
  | _ => exact ⟨allowed, answered, trivial⟩

/-- The rival confirms, the payment is failed, and the silent payment it was to spend, which
is unspent and four deep, is lost to the balance. -/
theorem failed_payment_holds_back : ∃ s,
    Reachable (facing silentHost silentHistory.toMoves fun _ _ _ => True) (chores silentHost) crashed
      (World.blank, []) s ∧
    HeldBack silentInputs (· = (silentTxid, 0)) (silentHistory.nodes s.2.length) s.1.ledger
      sampleTxid (silentTxid, 0) ∧
    (silentTxid, 0) ∉ spendable s.1.ledger ∧ Ledger.spBalance s.1.ledger = 0 := by
  refine ⟨spendThenReconcile 43, ?_, ?_, by decide +kernel, by decide +kernel⟩
  · exact ⟨(World.blank, []), _, .boot, cut_reach id 43 _ _
      (fun op s => silentAnswer_allowed op s) fun _ _ => rfl⟩
  · have unspent : ∀ t ∈ (silentHistory.nodes (spendThenReconcile 43).2.length).confirmed,
        (silentTxid, 0) ∉ silentInputs t := by decide +kernel
    have alone : ∀ t ∈ (spendThenReconcile 43).1.ledger.filterMap Entry.sentTxid?,
        t ≠ sampleTxid → (silentTxid, 0) ∉ silentInputs t := by decide +kernel
    exact ⟨by decide +kernel, by decide +kernel, rfl, by decide +kernel, by decide +kernel, alone,
      unspent, by decide +kernel⟩

/-- The rival of this payment spends its one input, a silent payment: the payment is failed,
and holds nothing back. -/
theorem failed_gives_back_sample :
    Ledger.latestStatus (payThenReconcile confirmedRival 17).1.ledger sampleTxid = some .failed ∧
    ∀ o, HeldBack rivalInputs (· = ("parent", 0)) (confirmedRival 17)
      (payThenReconcile confirmedRival 17).1.ledger sampleTxid o →
        o ∈ spendable (payThenReconcile confirmedRival 17).1.ledger := by
  have used : ∀ s op, Justified (fun i txid => (confirmedHistory.nodes i).usedUp rivalInputs
      (· = ("parent", 0)) txid) s op (nodesAnswer rivalInputs confirmedRival s op) := by
    intro s op
    cases op with
    | broadcast tx =>
        cases is : nodesAnswer rivalInputs confirmedRival s (.broadcast tx) with
        | error error =>
            intro _ _ _ hard o input silent
            subst silent
            obtain ⟨o, input', t, confirmed, -, spends⟩ := confirmedRival_refuses is hard
            obtain rfl : o = ("parent", 0) := by
              unfold rivalInputs at input'
              split at input'
              · exact List.mem_singleton.1 input'
              · exact absurd input' List.not_mem_nil
            exact ⟨t, confirmed, spends⟩
        | ok => trivial
    | _ => trivial
  have length : (payThenReconcile confirmedHistory.nodes 17).2.length = 17 := by decide +kernel
  have gives := (failed_gives_back walletHost rivalInputs (· = ("parent", 0))
    confirmedHistory).1 _ (payThenReconcile_reached confirmedHistory.toMoves used 17) sampleTxid
  rw [length] at gives
  exact ⟨by decide +kernel, gives⟩

end ComputerMoney.Safety

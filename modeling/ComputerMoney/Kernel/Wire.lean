/-
# Kernel.Wire -- the two ends of a session, each waiting for the other

`Kernel.Net` gives a session the messages its peer will send.  Here a session asks for them:
`recv` is a call to the wire, beside the calls to the machine, and what it is answered may
depend on what the other end has said by then.  A session that never ends is cut after `n`
messages, as if the wire had closed there.

`resolve_runReceiver` and `resolve_runPayer` are the refinement: with the answers of the wire
filled in, a session is `Kernel.Net`'s over the messages among them.
-/
import ComputerMoney.Kernel.Net
import ComputerMoney.Theory.Parties

namespace ComputerMoney.Kernel.Wire

set_option autoImplicit false

open Theory Theory.Program

/-- The receiving half of the wire: `Wire::recv`. -/
@[reducible] def wireSig : Signature := ⟨Unit, fun _ => Except Error (Option Message)⟩

/-- A program of one end of a session. -/
abbrev Party (α : Type) := Program (sig.sum wireSig) Error α

def recv : Party (Option Message) := .call (.inr ()) .ofExcept

/-! ## The two sides -/

/-- `net::run_receiver`. -/
def runReceiver (host : Host) (led : Handle) : ℕ → ℕ → Option ℕ → Option String → Party Unit
  | 0, _, _, _ => .pure ()
  | n + 1, nextIndex, issuedIndex, issuedAddress => do
      match ← recv with
      | none => return ()
      | some (.addrRequest sats) =>
          match receiverHandle host nextIndex (.addrRequest sats) with
          | (.error e, _) => .throw e
          | (.ok (some (.addrResponse address index)), nextIndex') => do
              let es ← (Ledger.entries led).lift
              (Ledger.append led (.addressIssued (Ledger.nextSeq es) index)).lift
              (wireSend (.addrResponse address index)).lift
              runReceiver host led n nextIndex' (some index) (some address)
          | (.ok _, nextIndex') => runReceiver host led n nextIndex' issuedIndex issuedAddress
      | some (.notify txid claimed) =>
          (handleNotify led issuedIndex issuedAddress txid claimed).lift
      | some (.chat _) => runReceiver host led n nextIndex issuedIndex issuedAddress
      | some (.addrResponse _ _) => runReceiver host led n nextIndex issuedIndex issuedAddress

/-- The loop of `run_payer` that waits for an address. -/
def awaitAddress : ℕ → Party (String × ℕ)
  | 0 => .throw "peer closed before sending an address"
  | n + 1 => do
      match ← recv with
      | none => .throw "peer closed before sending an address"
      | some (.addrResponse address index) => return (address, index)
      | some _ => awaitAddress n

/-- `net::run_payer`. -/
def runPayer (host : Host) (led : Handle) (n sats : ℕ) : Party Unit := do
  let policy ← loadPolicy.lift
  (spendGate led policy sats).lift
  (wireSend (.addrRequest sats)).lift
  let (address, _) ← awaitAddress n
  (gate (policy.checkAddress address)).lift
  let txid ← (send host led address sats policy.maxFeeSats).lift
  (wireSend (.notify txid sats)).lift

/-! ## The answers filled in -/

/-- What a wire that has nothing more to say answers. -/
def silent : (op : wireSig.Op) → wireSig.Ans op := fun _ => .ok none

/-- The message an answer of the wire brings. -/
def message? (event : Event wireSig) : Option Message :=
  match event.2 with
  | .ok message => message
  | .error _ => none

/-- The messages among the answers. -/
def messages (events : List (Event wireSig)) : List Message := events.filterMap message?

section Resolve

variable {host : Host} {led : Handle} {α : Type}

/-- The next answer of the wire. -/
def nextAnswer : List (Event wireSig) → Except Error (Option Message)
  | [] => .ok none
  | event :: _ => event.2

theorem resolve_recv_bind (f : Option Message → Party α) (events : List (Event wireSig)) :
    resolve silent (recv >>= f) events = match nextAnswer events with
      | .ok message => resolve silent (f message) events.tail
      | .error e => .throw e := by
  cases events with
  | nil => rfl
  | cons event events =>
      obtain ⟨⟨⟩, answer⟩ := event
      have same := Event.answer_self (T := wireSig) silent () answer
      show resolve silent (ofExcept (Event.answer silent ⟨(), answer⟩ ()) >>= f) events = _
      rw [same]
      cases answer <;> rfl

theorem messages_of_next {events : List (Event wireSig)} {message : Message}
    (next : nextAnswer events = .ok (some message)) :
    messages events = message :: messages events.tail := by
  cases events with
  | nil => cases next
  | cons event events =>
      have brings : message? event = some message := by
        unfold message?
        rw [show event.2 = .ok (some message) from next]
      exact List.filterMap_cons_some brings

/-- **The receive side with its answers filled in** is the receive side over messages that
were among them, in their order. -/
theorem resolve_runReceiver (host : Host) (led : Handle) (n : ℕ) (events : List (Event wireSig)) :
    ∃ inbox closed, inbox.Sublist (messages events) ∧
      ∀ nextIndex issuedIndex issuedAddress,
        resolve silent (runReceiver host led n nextIndex issuedIndex issuedAddress) events =
          Kernel.runReceiver host led closed inbox nextIndex issuedIndex issuedAddress := by
  induction n generalizing events with
  | zero => exact ⟨[], .ok (), List.nil_sublist _, fun _ _ _ => rfl⟩
  | succ n ih =>
      rcases next : nextAnswer events with e | none | message
      · refine ⟨[], .error e, List.nil_sublist _, fun _ _ _ => ?_⟩
        rw [runReceiver, resolve_recv_bind, next]
        rfl
      · refine ⟨[], .ok (), List.nil_sublist _, fun _ _ _ => ?_⟩
        rw [runReceiver, resolve_recv_bind, next]
        rfl
      obtain ⟨inbox, closed, among, same⟩ := ih events.tail
      refine ⟨message :: inbox, closed, ?_, fun nextIndex issuedIndex issuedAddress => ?_⟩
      · rw [messages_of_next next]
        exact among.cons_cons message
      rw [runReceiver, resolve_recv_bind, next]
      cases message with
      | addrRequest sats =>
          simp only [Kernel.runReceiver, receiverHandle]
          cases host.walletAddress nextIndex with
          | error e => rfl
          | ok address => simp only [resolve_lift_bind, same]
      | notify txid claimed => exact resolve_lift silent _ _
      | chat text => exact same _ _ _
      | addrResponse address index => exact same _ _ _

/-- The wait for an address, its answers filled in. -/
theorem resolve_awaitAddress (n : ℕ) (events : List (Event wireSig)) :
    ∃ inbox closed, inbox.Sublist (messages events) ∧ ∀ rest : String × ℕ → Prog α,
      resolve silent (awaitAddress n >>= fun found => (rest found).lift) events =
        (Kernel.awaitAddress closed inbox >>= rest) := by
  induction n generalizing events with
  | zero => exact ⟨[], .ok (), List.nil_sublist _, fun _ => rfl⟩
  | succ n ih =>
      rcases next : nextAnswer events with e | none | message
      · refine ⟨[], .error e, List.nil_sublist _, fun rest => ?_⟩
        rw [awaitAddress, bind_bind, resolve_recv_bind, next]
        rfl
      · refine ⟨[], .ok (), List.nil_sublist _, fun rest => ?_⟩
        rw [awaitAddress, bind_bind, resolve_recv_bind, next]
        rfl
      obtain ⟨inbox, closed, among, same⟩ := ih events.tail
      refine ⟨message :: inbox, closed, ?_, fun rest => ?_⟩
      · rw [messages_of_next next]
        exact among.cons_cons message
      · rw [awaitAddress, bind_bind, resolve_recv_bind, next]
        cases message with
        | addrResponse address index => exact resolve_lift silent _ _
        | _ => exact same rest

/-- **The pay side with its answers filled in** is the pay side over messages that were among
them, in their order. -/
theorem resolve_runPayer (host : Host) (led : Handle) (n sats : ℕ) (events : List (Event wireSig)) :
    ∃ inbox closed, inbox.Sublist (messages events) ∧
      resolve silent (runPayer host led n sats) events =
        Kernel.runPayer host led inbox closed sats := by
  obtain ⟨inbox, closed, among, same⟩ := resolve_awaitAddress (α := Unit) n events
  refine ⟨inbox, closed, among, ?_⟩
  unfold runPayer Kernel.runPayer
  rw [resolve_lift_bind]
  refine congrArg _ (funext fun policy => ?_)
  rw [resolve_lift_bind]
  refine congrArg _ (funext fun _ => ?_)
  rw [resolve_lift_bind]
  refine congrArg _ (funext fun _ => ?_)
  simp only [← lift_bind]
  exact same _

end Resolve

end ComputerMoney.Kernel.Wire

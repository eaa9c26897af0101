/-
# Kernel.Net -- the payment protocol, and the entry points that pay

The receive side answers each `addrRequest` with a fresh address, recorded before it is
sent, and treats a `notify` as a hint to look at the chain.  The pay side gates the
amount, asks for an address, gates the address, pays, notifies.  A peer is the list of
messages it will send and how the wire ends after them.

The five ways to pay are `tunnelPay` (over a card's endpoints, `dialEach`),
`sendPayment`, `spPay`, `cliSpPay` and `fetch`.  Four of them make the same checks in
the same order before they pay (`gated`); the tunnel learns its destination only from
the peer, so `runPayer` checks it in two places.
-/
import ComputerMoney.Kernel.Reconcile

namespace ComputerMoney.Kernel

set_option autoImplicit false

open Theory

/-! ## Receiving -/

/-- `Receiver::handle`: the reply, and the receiver's next index. -/
def receiverHandle (host : Host) (nextIndex : ℕ) : Message → Except Error (Option Message) × ℕ
  | .addrRequest _ =>
      match host.walletAddress nextIndex with
      | .ok address => (.ok (some (.addrResponse address nextIndex)), nextIndex + 1)
      | .error e => (.error e, nextIndex)
  | _ => (.ok none, nextIndex)

/-- The chain decides: book the deposit the claimed txid names, if the issued address
really received it, at the amount the chain reports.  `claimed` is only logged. -/
def handleNotify (led : Handle) (issuedIndex : Option ℕ) (issuedAddress : Option String)
    (txid : String) (_claimed : ℕ) : Prog Unit :=
  let index := issuedIndex.getD 0
  match issuedAddress with
  | none => .pure ()
  | some address => do
      match ← (depositsTo address).attempt with
      | .error _ => return ()
      | .ok deposits =>
          match deposits.find? (fun d => d.txid = txid) with
          | none => return ()
          | some d => do
              let _ ← Ledger.recordReceived led d.txid d.sats index
              let _ ← (reconcile led).attempt
              return ()

/-- `net::run_receiver` over the messages `inbox`, after which the wire ends as `closed`
says.  A `notify` ends the session. -/
def runReceiver (host : Host) (led : Handle) (closed : Except Error Unit) :
    List Message → ℕ → Option ℕ → Option String → Prog Unit
  | [], _, _, _ => .ofExcept closed
  | .addrRequest sats :: inbox, nextIndex, issuedIndex, issuedAddress =>
      match receiverHandle host nextIndex (.addrRequest sats) with
      | (.error e, _) => .throw e
      | (.ok (some (.addrResponse address index)), nextIndex') => do
          let es ← Ledger.entries led
          Ledger.append led (.addressIssued (Ledger.nextSeq es) index)
          wireSend (.addrResponse address index)
          runReceiver host led closed inbox nextIndex' (some index) (some address)
      | (.ok _, nextIndex') => runReceiver host led closed inbox nextIndex' issuedIndex issuedAddress
  | .notify txid claimed :: _, _, issuedIndex, issuedAddress =>
      handleNotify led issuedIndex issuedAddress txid claimed
  | .chat _ :: inbox, nextIndex, issuedIndex, issuedAddress =>
      runReceiver host led closed inbox nextIndex issuedIndex issuedAddress
  | .addrResponse _ _ :: inbox, nextIndex, issuedIndex, issuedAddress =>
      runReceiver host led closed inbox nextIndex issuedIndex issuedAddress

/-! ## Paying over a tunnel -/

/-- The amount gate against the rolling window ending now. -/
def spendGate (led : Handle) (policy : Policy) (sats : ℕ) : Prog Unit := do
  let now ← nowUnix
  let es ← Ledger.entries led
  gate (policy.checkAmount sats (Ledger.spentSince es (now - dailyWindowSecs)))

/-- Wait for the first address response; everything else is ignored. -/
def awaitAddress (closed : Except Error Unit) : List Message → Prog (String × ℕ)
  | [] => do
      .ofExcept closed
      .throw "peer closed before sending an address"
  | .addrResponse address index :: _ => .pure (address, index)
  | _ :: inbox => awaitAddress closed inbox

/-- `net::run_payer`. -/
def runPayer (host : Host) (led : Handle) (inbox : List Message) (closed : Except Error Unit)
    (sats : ℕ) : Prog Unit := do
  let policy ← loadPolicy
  spendGate led policy sats
  wireSend (.addrRequest sats)
  let (address, _) ← awaitAddress closed inbox
  gate (policy.checkAddress address)
  let txid ← send host led address sats policy.maxFeeSats
  wireSend (.notify txid sats)

/-- One endpoint of a card, with the peer behind it. -/
structure Endpoint where
  addr : String
  inbox : List Message
  closed : Except Error Unit

/-- A resolved business card. -/
structure Card where
  wg : String
  ep : List Endpoint
  sp : Option String

/-- `tunnel::pay`. -/
def tunnelPay (host : Host) (ep : Endpoint) (peerPub : String) (sats : ℕ) : Prog Unit := do
  .ofExcept (host.parsePublicKey peerPub)
  .ofExcept (host.parseSocketAddr ep.addr)
  let led ← Ledger.openWithIdentity
  .call (.connect ep.addr peerPub) .ofExcept
  runPayer host led ep.inbox ep.closed sats

/-- Try each endpoint in order until one session succeeds; if all fail, surface the last
error.  `lead` opens the line each command prints. -/
def dialEach (host : Host) (lead wg : String) (sats : ℕ) :
    List Endpoint → Option Error → Prog Unit
  | [], none => .pure ()
  | [], some lastErr => .throw lastErr
  | ep :: eps, _ => do
      eprintln (lead ++ wg ++ " @ " ++ ep.addr ++ "…")
      match ← (tunnelPay host ep wg sats).attempt with
      | .ok () => return ()
      | .error e => dialEach host lead wg sats eps (some e)

/-! ## Paying an address or a code -/

/-- Load the policy, gate the amount, gate the destination, then pay under the fee cap. -/
def gated {α : Type} (led : Handle) (payee : String) (sats : ℕ) (pay : Option ℕ → Prog α) :
    Prog α := do
  let policy ← loadPolicy
  spendGate led policy sats
  gate (policy.checkAddress payee)
  pay policy.maxFeeSats

/-- `mcp::send_payment`. -/
def sendPayment (host : Host) (payee : String) (sats : ℕ) : Prog String := do
  let led ← Ledger.openWithIdentity
  gated led payee sats fun maxFeeSats => sendSpendingSp host led payee sats maxFeeSats

/-- `mcp::sp_pay`. -/
def spPay (host : Host) (code : String) (sats : ℕ) : Prog String := do
  let led ← Ledger.openWithIdentity
  gated led code sats fun maxFeeSats => spSend host led code sats maxFeeSats

/-- `main::cli_sp_pay`. -/
def cliSpPay (host : Host) (code : String) (sats : ℕ) : Prog String := do
  let led ← Ledger.openWithIdentity
  gated led code sats fun maxFeeSats => spSend host led code sats maxFeeSats

/-- What both pay commands say to a card with neither a code nor an endpoint. -/
def noEndpoint : Error := "peer published no endpoint (not accepting inbound sessions)"

/-- The card arm of `cm pay`. -/
def cliPayCard (host : Host) (card : Card) (sats : ℕ) : Prog Unit :=
  match card.sp with
  | some code => do
      let _ ← cliSpPay host code sats
      return ()
  | none =>
      if card.ep.isEmpty then .throw noEndpoint
      else dialEach host "dialing " card.wg sats card.ep none

/-- The card arm of `mcp::pay_peer`: the txid is read back from the newest `sent`. -/
def payPeerCard (host : Host) (card : Card) (sats : ℕ) : Prog String :=
  match card.sp with
  | some code => spPay host code sats
  | none =>
      if card.ep.isEmpty then .throw noEndpoint
      else do
        dialEach host "cm mcp: cm_pay dialing " card.wg sats card.ep none
        let led ← Ledger.openWithIdentity
        let es ← Ledger.entries led
        match (es.filterMap Entry.sentTxid?).getLast? with
        | some txid => return txid
        | none => .throw "payment sent but no Sent entry found in the ledger"

/-! ## Paying for a page -/

structure FetchOut where
  status : ℕ
  body : String
  paid : Option (String × ℕ)
  deriving DecidableEq, Repr

/-- The first 120 characters of a body, for error messages. -/
def snippet (body : String) : String :=
  let s := String.ofList (body.toList.take 120)
  if body.toList.length > 120 then s ++ "…" else s

/-- Reject terms that must not be paid. -/
def checkTerms (terms : Terms) (maxSats : ℕ) (netLabel : String) (isMainnet : Bool) :
    Except Error Unit :=
  let wantHrp := if isMainnet then "sp1" else "tsp1"
  if terms.cm402 ≠ 1 then .error ("unsupported cm402 version " ++ toString terms.cm402)
  else if terms.network ≠ netLabel then
    .error ("payment is for network " ++ terms.network ++ ", wallet is on " ++ netLabel)
  else if Text.startsWith terms.payTo.toList wantHrp.toList = false then
    .error ("pay_to " ++ terms.payTo ++ " is not a " ++ wantHrp ++ " silent-payment code")
  else if terms.sats > maxSats then
    .error ("price " ++ toString terms.sats ++ " sats exceeds max_sats " ++ toString maxSats)
  else .ok ()

def retries : ℕ := 5

/-- Ask again with the txid as proof, up to `left` more times. -/
def retryPaid (url txid : String) (sats : ℕ) : ℕ → Prog FetchOut
  | 0 => .throw ("paid " ++ toString sats ++ " sats (txid " ++ txid ++ ") but " ++ url ++
      " still returned 402 after " ++ toString retries ++ " retries")
  | left + 1 => do
      let retry ← httpGet url (some txid)
      if retry.status = 200 then
        return ⟨200, retry.body, some (txid, sats)⟩
      retryPaid url txid sats left

/-- `fetch::fetch`. -/
def fetch (host : Host) (led : Handle) (url : String) (maxSats : ℕ) : Prog FetchOut :=
  if Text.startsWith url.toList "http://".toList = false ∧
      Text.startsWith url.toList "https://".toList = false then
    .throw ("url must start with http:// or https:// (got " ++ url ++ ")")
  else do
    let first ← httpGet url none
    if first.status = 200 then
      return ⟨200, first.body, none⟩
    if first.status ≠ 402 then
      .throw ("GET " ++ url ++ " -> " ++ toString first.status ++ " " ++ snippet first.body)
    else do
      let terms ← .ofExcept ((host.parseTerms first.body).mapError fun e =>
        "402 body is not cm terms (" ++ e ++ "): " ++ snippet first.body)
      .ofExcept (checkTerms terms maxSats host.network.label (host.network = .bitcoin))
      let txid ← gated led terms.payTo terms.sats fun maxFeeSats =>
        spSend host led terms.payTo terms.sats maxFeeSats
      retryPaid url txid terms.sats retries

/-- The fetch command: open the ledger, fetch. -/
def cliFetch (host : Host) (url : String) (maxSats : ℕ) : Prog FetchOut := do
  let led ← Ledger.openWithIdentity
  fetch host led url maxSats

/-! ## Any of the five -/

/-- One use of an entry point that pays. -/
inductive Payment where
  | tunnel (ep : Endpoint) (peerPub : String) (sats : ℕ)
  | sendPayment (payee : String) (sats : ℕ)
  | spPay (code : String) (sats : ℕ)
  | cliSpPay (code : String) (sats : ℕ)
  | fetch (url : String) (maxSats : ℕ)

/-- The entry point, its own result aside. -/
def Payment.pay (host : Host) : Payment → Prog Unit
  | .tunnel ep peerPub sats => tunnelPay host ep peerPub sats
  | .sendPayment payee sats => do
      let _ ← Kernel.sendPayment host payee sats
  | .spPay code sats => do
      let _ ← Kernel.spPay host code sats
  | .cliSpPay code sats => do
      let _ ← Kernel.cliSpPay host code sats
  | .fetch url maxSats => do
      let _ ← cliFetch host url maxSats

/-- Pay, whatever comes of it. -/
def Payment.perform (host : Host) : Payment → Prog Unit
  | .tunnel ep peerPub sats => do
      let _ ← (tunnelPay host ep peerPub sats).attempt
  | .sendPayment payee sats => do
      let _ ← (Kernel.sendPayment host payee sats).attempt
  | .spPay code sats => do
      let _ ← (Kernel.spPay host code sats).attempt
  | .cliSpPay code sats => do
      let _ ← (Kernel.cliSpPay host code sats).attempt
  | .fetch url maxSats => do
      let _ ← (cliFetch host url maxSats).attempt

end ComputerMoney.Kernel

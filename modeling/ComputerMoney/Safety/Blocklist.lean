/-
# Safety.Blocklist -- the blocklist compares texts, and one destination has several

`checkAddress` looks the payee's text up in the list.  What is paid is what the text
parses to, and the parsers take more than one text for a destination: a bech32 address
or a silent-payment code in upper case, a code with blanks around it, a code whose
padding bits differ.  A listed payee written another way is therefore not stopped.

`blocklist_iff` says when a payment whose destination is on the list is refused: exactly
when the text itself is listed or some other gate before the signature refuses.  The
proof reads every function as the condition under which it stays quiet, one equivalence
for each step, so it goes through the five entry points in both directions at once.
-/
import ComputerMoney.Kernel.PaySpec
import ComputerMoney.Kernel.Script

namespace ComputerMoney.Safety

set_option autoImplicit false

open Theory Theory.Program Kernel

/-! ## Destinations -/

/-- A destination as the path reads it: an address, or a silent-payment code. -/
inductive Destination where
  | address (text : String)
  | code (text : String)

def Destination.text : Destination → String
  | .address text | .code text => text

/-- A listed text denotes the destination: both parse to one address, or both decode to
one pair of keys. -/
def Destination.OnList (host : Host) : Destination → Prop
  | .address text => ∃ listed ∈ host.policy.blockedAddresses, ∃ address,
      host.parseAddress listed = .ok address ∧ host.parseAddress text = .ok address
  | .code text => ∃ listed ∈ host.policy.blockedAddresses, ∃ scan spend net net',
      decode host listed = .ok (scan, spend, net) ∧ decode host text = .ok (scan, spend, net')

/-- The terms a paid page answers with. -/
def termsOf (host : Host) (page : Resp) : Option Terms :=
  if page.status = 402 then (host.parseTerms page.body).toOption else none

/-- Where a payment goes; a tunnel learns it from the peer, a fetch from the page. -/
def destination (host : Host) (page : Resp) : Payment → Option Destination
  | .tunnel ep _ _ => (firstResponse ep.inbox).map fun response => .address response.1
  | .sendPayment payee _ => some (.address payee)
  | .spPay code _ | .cliSpPay code _ => some (.code code)
  | .fetch _ _ => (termsOf host page).map fun terms => .code terms.payTo

/-- The first answer to a fetch is `page`; nothing else is assumed of the answers. -/
def Serves (page : Resp) : Guarantee sig World
  | _, .httpGet _ none, answer => answer = .ok page
  | _, _, _ => True

/-- The calls that sign or record. -/
def Op.commits : Op → Prop
  | .sign _ | .writeSidecar _ _ | .append _ _ | .broadcast _ => True
  | _ => False

/-- In every run the program ends in an error, and never signed or recorded. -/
structure Refused {α : Type} (host : Host) (page : Resp) (p : Prog α) (w : World) : Prop where
  uncommitted : ∀ w' op answer,
    Calls ((interp host).restrict (Serves page)) p w w' op answer → ¬ Op.commits op
  fails : ∀ result w', Exec ((interp host).restrict (Serves page)) p w result w' →
    ∃ e, result = .error e

/-! ## Staying quiet, step by step -/

section Quiet

variable {host : Host} {page : Resp} {w : World} {α β : Type}

/-- `Refused` as a precondition. -/
def Quiet (host : Host) (page : Resp) (p : Prog α) (w : World) : Prop :=
  wp ((interp host).restrict (Serves page)) (fun _ op _ => ¬ Op.commits op)
    (fun result _ => ∃ e, result = .error e) p w

theorem refused_iff_quiet {p : Prog α} : Refused host page p w ↔ Quiet host page p w :=
  ⟨fun refused => wp_complete refused.uncommitted refused.fails,
    fun quiet => ⟨fun _ _ _ => wp_calls quiet, fun _ _ => wp_exec quiet⟩⟩

/-- Ending in the outcome of a step and going on after it. -/
theorem quiet_ofExcept {outcome : Except Error α} {f : α → Prog β} :
    Quiet host page (.ofExcept outcome >>= f) w ↔
      ∀ value, outcome = .ok value → Quiet host page (f value) w := by
  rcases outcome with e | value
  · exact iff_of_true ⟨e, rfl⟩ nofun
  · exact ⟨fun quiet value' same => by cases same; exact quiet, fun quiet => quiet value rfl⟩

theorem quiet_gate {verdict : Except PolicyError Unit} {f : Unit → Prog β} :
    Quiet host page (gate verdict >>= f) w ↔ (verdict = .ok () → Quiet host page (f ()) w) := by
  rcases verdict with e | ⟨⟩
  · exact iff_of_true ⟨_, rfl⟩ nofun
  · exact ⟨fun quiet _ => quiet, fun quiet => quiet rfl⟩

theorem quiet_feeCap {fee : ℕ} {maxFeeSats : Option ℕ} {f : Unit → Prog β} :
    Quiet host page (feeCap fee maxFeeSats >>= f) w ↔
      ((∀ cap, maxFeeSats = some cap → fee ≤ cap) → Quiet host page (f ()) w) := by
  rcases maxFeeSats with _ | cap
  · exact ⟨fun quiet _ => quiet, fun quiet => quiet nofun⟩
  · simp only [feeCap]
    split
    · rename_i above
      refine iff_of_true ⟨_, rfl⟩ fun under => ?_
      have := under cap rfl
      omega
    · rename_i under
      exact ⟨fun quiet _ => quiet, fun quiet => quiet fun cap' same => by cases same; omega⟩

theorem quiet_call (op : Op) {next : op.Ans → Prog β} (harmless : ¬ Op.commits op) :
    Quiet host page (.call op next) w ↔
      ∀ answer, (interp host).allowed w op answer → Serves page w op answer →
        Quiet host page (next answer) (w.after op answer) := by
  refine forall_congr' fun answer => ?_
  exact ⟨fun quiet allowed served => (quiet ⟨allowed, served⟩).2,
    fun quiet allowed => ⟨harmless, quiet allowed.1 allowed.2⟩⟩

theorem quiet_loadPolicy {f : Policy → Prog β} :
    Quiet host page (loadPolicy >>= f) w ↔ Quiet host page (f host.policy) w := by
  refine (quiet_call .loadPolicy id).trans ⟨fun quiet => quiet (.ok host.policy) rfl trivial, ?_⟩
  rintro quiet (e | policy) allowed -
  · exact ⟨e, rfl⟩
  · obtain rfl : policy = host.policy := allowed
    exact quiet

theorem quiet_nowUnix {f : ℕ → Prog β} :
    Quiet host page (nowUnix >>= f) w ↔ ∀ now, Quiet host page (f now) { w with clock := now } :=
  (quiet_call .nowUnix id).trans ⟨fun quiet now => quiet now trivial trivial,
    fun quiet now _ _ => quiet now⟩

theorem quiet_entries {led : Handle} {f : List Entry → Prog β} :
    Quiet host page (Ledger.entries led >>= f) w ↔ Quiet host page (f (w.mem led)) w := by
  refine (quiet_call (.entries led) id).trans ⟨fun quiet => quiet (w.mem led) rfl trivial, ?_⟩
  rintro quiet es rfl -
  exact quiet

theorem quiet_openWithIdentity {f : Handle → Prog β} :
    Quiet host page (Ledger.openWithIdentity >>= f) w ↔
      Quiet host page (f w.fresh) (w.load w.fresh) := by
  refine (quiet_call .openLedger id).trans ⟨fun quiet => quiet (.ok w.fresh) rfl trivial, ?_⟩
  rintro quiet (e | led) allowed -
  · exact ⟨e, rfl⟩
  · obtain rfl : led = w.fresh := allowed
    exact quiet

theorem quiet_syncWallet {f : Unit → Prog β} :
    Quiet host page (syncWallet >>= f) w ↔ Quiet host page (f ()) w := by
  refine (quiet_call .syncWallet id).trans ⟨fun quiet => quiet (.ok ()) trivial trivial, ?_⟩
  rintro quiet (e | ⟨⟩) - -
  · exact ⟨e, rfl⟩
  · exact quiet

theorem quiet_connect {address peer : String} {f : Unit → Prog β} :
    Quiet host page (.call (.connect address peer) .ofExcept >>= f) w ↔
      Quiet host page (f ()) w := by
  refine (quiet_call (.connect address peer) id).trans ⟨fun quiet => quiet (.ok ()) trivial trivial, ?_⟩
  rintro quiet (e | ⟨⟩) - -
  · exact ⟨e, rfl⟩
  · exact quiet

theorem quiet_wireSend {message : Message} {f : Unit → Prog β} :
    Quiet host page (wireSend message >>= f) w ↔
      Quiet host page (f ()) { w with wire := message :: w.wire } := by
  refine (quiet_call (.wireSend message) id).trans ⟨fun quiet => quiet (.ok ()) trivial trivial, ?_⟩
  rintro quiet (e | ⟨⟩) - -
  · exact ⟨e, rfl⟩
  · exact quiet

theorem quiet_finishPsbt {request : BuildRequest} {f : Psbt → Prog β} :
    Quiet host page (finishPsbt request >>= f) w ↔ ∀ psbt, Quiet host page (f psbt) w := by
  refine (quiet_call (.finishPsbt request) id).trans ⟨fun quiet psbt => quiet (.ok psbt) trivial trivial, ?_⟩
  rintro quiet (e | psbt) - -
  · exact ⟨e, rfl⟩
  · exact quiet psbt

/-- Nothing that asks for a signature is quiet. -/
theorem quiet_signTx {tx : Tx} {f : Unit → Prog β} :
    Quiet host page (signTx tx >>= f) w ↔ False :=
  ⟨fun quiet => (quiet (.ok ()) ⟨trivial, trivial⟩).1 trivial, False.elim⟩

theorem quiet_httpGet {url : String} {f : Resp → Prog β} :
    Quiet host page (httpGet url none >>= f) w ↔ Quiet host page (f page) w := by
  refine (quiet_call (.httpGet url none) id).trans ⟨fun quiet => quiet (.ok page) trivial rfl, ?_⟩
  rintro quiet answer - rfl
  exact quiet

theorem quiet_awaitAddress {closed : Except Error Unit} {inbox : List Message}
    {f : String × ℕ → Prog β} :
    Quiet host page (awaitAddress closed inbox >>= f) w ↔
      ∀ response, firstResponse inbox = some response → Quiet host page (f response) w := by
  induction inbox with
  | nil =>
      rcases closed with e | ⟨⟩
      · exact iff_of_true ⟨_, rfl⟩ nofun
      · exact iff_of_true ⟨_, rfl⟩ nofun
  | cons message inbox ih =>
      cases message with
      | addrResponse address index =>
          exact ⟨fun quiet response same => by cases same; exact quiet, fun quiet => quiet _ rfl⟩
      | _ => exact ih

/-! ## The paths -/

theorem quiet_mainnetGuard {f : Unit → Prog β} :
    Quiet host page (mainnetGuard host >>= f) w ↔
      (ensureMainnetCapped host.network host.policy = .ok () → Quiet host page (f ()) w) := by
  simp only [mainnetGuard, bind_bind, quiet_loadPolicy, quiet_gate]

/-- Some build the wallet may finish is within any fee cap, and then it is signed. -/
theorem quiet_finish_signed {request : BuildRequest} {sats : ℕ} {maxFeeSats : Option ℕ}
    {f : Psbt → Tx → Prog β} :
    Quiet host page (finishPsbt request >>= fun psbt => signed psbt sats maxFeeSats >>= f psbt) w ↔
      False := by
  simp only [quiet_finishPsbt, signed, bind_bind, quiet_feeCap, quiet_signTx]
  exact iff_of_false (fun quiet => quiet ⟨"", 0, [], ⟨"", ""⟩⟩ fun _ _ => Nat.zero_le _) id

theorem quiet_buildSigned {payee : String} {sats : ℕ} {maxFeeSats : Option ℕ} {f : Tx → Prog β} :
    Quiet host page (buildSigned host payee sats maxFeeSats >>= f) w ↔
      ¬ (ensureMainnetCapped host.network host.policy = .ok () ∧
        ∃ recipient, host.parseAddress payee = .ok recipient) := by
  simp only [buildSigned, bind_bind, quiet_mainnetGuard, quiet_syncWallet, quiet_ofExcept,
    quiet_finish_signed]
  tauto

theorem quiet_buildSignedToSp {scan spend : PublicKey} {sats : ℕ} {maxFeeSats : Option ℕ}
    {funds : List Ledger.SpUtxo} {f : Tx × Address × List OutPoint → Prog β} :
    Quiet host page (buildSignedToSp host scan spend sats maxFeeSats funds >>= f) w ↔
      ¬ (ensureMainnetCapped host.network host.policy = .ok () ∧
        ∃ consumed, outpointsOf funds = .ok consumed) := by
  simp only [buildSignedToSp, bind_bind, quiet_mainnetGuard, quiet_syncWallet, quiet_ofExcept,
    quiet_finish_signed]
  tauto

theorem quiet_buildSignedSpendingSp {payee : String} {sats : ℕ} {maxFeeSats : Option ℕ}
    {funds : List Ledger.SpUtxo} {f : Tx × List OutPoint → Prog β} :
    Quiet host page (buildSignedSpendingSp host payee sats maxFeeSats funds >>= f) w ↔
      ¬ (ensureMainnetCapped host.network host.policy = .ok () ∧
        (∃ recipient, host.parseAddress payee = .ok recipient) ∧
        ∃ consumed, outpointsOf funds = .ok consumed) := by
  unfold buildSignedSpendingSp
  split
  · rename_i empty
    rw [List.isEmpty_iff.1 empty]
    simp only [bind_bind, quiet_buildSigned, outpointsOf]
    simp
  · simp only [bind_bind, quiet_mainnetGuard, quiet_syncWallet, quiet_ofExcept,
      quiet_finish_signed]
    tauto

theorem quiet_spendGate {led : Handle} {policy : Policy} {sats : ℕ} {f : Unit → Prog β} :
    Quiet host page (spendGate led policy sats >>= f) w ↔
      ∀ now, policy.checkAmount sats (Ledger.spentSince (w.mem led) (now - dailyWindowSecs)) =
        .ok () → Quiet host page (f ()) { w with clock := now } := by
  simp only [spendGate, bind_bind, quiet_nowUnix, quiet_entries, quiet_gate]

theorem quiet_gated {led : Handle} {payee : String} {sats : ℕ} {pay : Option ℕ → Prog α}
    {f : α → Prog β} :
    Quiet host page (gated led payee sats pay >>= f) w ↔
      ∀ now, AmountPassed host w led sats now → payee ∉ host.policy.blockedAddresses →
        Quiet host page (pay host.policy.maxFeeSats >>= f) { w with clock := now } := by
  simp only [gated, bind_bind, quiet_loadPolicy, quiet_spendGate, quiet_gate,
    Policy.checkAddress_ok, AmountPassed]

theorem quiet_send {led : Handle} {payee : String} {sats : ℕ} {maxFeeSats : Option ℕ}
    {f : String → Prog β} :
    Quiet host page (send host led payee sats maxFeeSats >>= f) w ↔
      ¬ (ensureMainnetCapped host.network host.policy = .ok () ∧
        ∃ recipient, host.parseAddress payee = .ok recipient) := by
  simp only [send, bind_bind, quiet_buildSigned]

/-- What `spSend` asks of a code and an amount before it signs, with `file` on record. -/
structure SpClears (host : Host) (file : List Entry) (code : String) (sats : ℕ) : Prop where
  floor : spMinSats ≤ sats
  decodes : ∃ scan spend, decode host code = .ok (scan, spend, host.network)
  keypair : host.spSpendKeypair = .ok ()
  capped : ensureMainnetCapped host.network host.policy = .ok ()
  funds : ∃ consumed, outpointsOf (Ledger.spUtxos file) = .ok consumed

theorem quiet_spSend {led : Handle} {code : String} {sats : ℕ} {maxFeeSats : Option ℕ}
    {f : String → Prog β} :
    Quiet host page (spSend host led code sats maxFeeSats >>= f) w ↔
      ¬ SpClears host (w.mem led) code sats := by
  unfold spSend
  split
  · rename_i dust
    refine iff_of_true ⟨_, rfl⟩ fun clears => ?_
    have := clears.floor
    omega
  rename_i floor
  rw [bind_bind, quiet_ofExcept]
  constructor
  · rintro quiet ⟨-, ⟨scan, spend, decodes⟩, keypair, capped, funds⟩
    have paid := quiet (scan, spend, host.network) decodes
    simp only [ne_eq, not_true_eq_false, if_false, bind_bind, quiet_entries, quiet_ofExcept,
      quiet_buildSignedToSp] at paid
    exact paid () keypair ⟨capped, funds⟩
  · rintro blocked ⟨scan, spend, net⟩ decodes
    dsimp only
    split
    · exact ⟨_, rfl⟩
    rename_i same
    obtain rfl : net = host.network := not_not.1 same
    simp only [bind_bind, quiet_entries, quiet_ofExcept, quiet_buildSignedToSp]
    rintro ⟨⟩ keypair ⟨capped, funds⟩
    exact blocked ⟨Nat.not_lt.1 floor, ⟨scan, spend, decodes⟩, keypair, capped, funds⟩

/-- What `sendSpendingSp` asks before it signs. -/
structure SendClears (host : Host) (file : List Entry) (payee : String) : Prop where
  keypair : host.spSpendKeypair = .ok ()
  capped : ensureMainnetCapped host.network host.policy = .ok ()
  parses : ∃ recipient, host.parseAddress payee = .ok recipient
  funds : ∃ consumed, outpointsOf (Ledger.spUtxos file) = .ok consumed

theorem quiet_sendSpendingSp {led : Handle} {payee : String} {sats : ℕ} {maxFeeSats : Option ℕ}
    {f : String → Prog β} :
    Quiet host page (sendSpendingSp host led payee sats maxFeeSats >>= f) w ↔
      ¬ SendClears host (w.mem led) payee := by
  simp only [sendSpendingSp, bind_bind, quiet_entries, quiet_ofExcept,
    quiet_buildSignedSpendingSp]
  constructor
  · rintro quiet ⟨keypair, capped, parses, funds⟩
    exact quiet () keypair ⟨capped, parses, funds⟩
  · rintro blocked ⟨⟩ keypair ⟨capped, parses, funds⟩
    exact blocked ⟨keypair, capped, parses, funds⟩

end Quiet

/-! ## Which payments are refused -/

section Refusals

variable (host : Host) (page : Resp) (file : List Entry)

/-- Every gate before the signature other than the blocklist lets the payment through, at
the time `now` and with `file` on record. -/
def Clears (now : ℕ) : Payment → Prop
  | .tunnel ep peerPub sats =>
      host.parsePublicKey peerPub = .ok () ∧ host.parseSocketAddr ep.addr = .ok () ∧
        host.policy.checkAmount sats (Ledger.spentSince file (now - dailyWindowSecs)) = .ok () ∧
        ensureMainnetCapped host.network host.policy = .ok () ∧
        ∃ address index recipient, firstResponse ep.inbox = some (address, index) ∧
          host.parseAddress address = .ok recipient
  | .sendPayment payee sats =>
      host.policy.checkAmount sats (Ledger.spentSince file (now - dailyWindowSecs)) = .ok () ∧
        SendClears host file payee
  | .spPay code sats | .cliSpPay code sats =>
      host.policy.checkAmount sats (Ledger.spentSince file (now - dailyWindowSecs)) = .ok () ∧
        SpClears host file code sats
  | .fetch url maxSats =>
      (Text.startsWith url.toList "http://".toList ∨ Text.startsWith url.toList "https://".toList) ∧
        ∃ terms, termsOf host page = some terms ∧
          checkTerms terms maxSats host.network.label (host.network = .bitcoin) = .ok () ∧
          host.policy.checkAmount terms.sats
            (Ledger.spentSince file (now - dailyWindowSecs)) = .ok () ∧
          SpClears host file terms.payTo terms.sats

/-- The payment's destination is on the list, in some spelling. -/
def OnList (payment : Payment) : Prop :=
  ∃ dest, destination host page payment = some dest ∧ dest.OnList host

/-- The text the payment was given is itself on the list. -/
def Spelled (payment : Payment) : Prop :=
  ∃ dest, destination host page payment = some dest ∧ dest.text ∈ host.policy.blockedAddresses

end Refusals

theorem termsOf_some {host : Host} {page : Resp} {terms : Terms}
    (priced : termsOf host page = some terms) :
    page.status = 402 ∧ host.parseTerms page.body = .ok terms := by
  unfold termsOf at priced
  split at priced
  · rename_i demanded
    refine ⟨demanded, ?_⟩
    rcases parsed : host.parseTerms page.body with e | terms'
    · rw [parsed] at priced
      cases priced
    · rw [parsed] at priced
      cases priced
      rfl
  · cases priced

section Pay

variable {host : Host} {page : Resp} {w : World}

/-- The blocklist stands before the other gates, and listed or not does not depend on when. -/
theorem gates_iff {listed clears : Prop} {amount : ℕ → Prop} :
    (∀ now, amount now → ¬ listed → ¬ clears) ↔ listed ∨ ∀ now, ¬ (amount now ∧ clears) := by
  constructor
  · intro gates
    by_cases listed
    · exact .inl ‹_›
    · exact .inr fun now ⟨passed, clear⟩ => gates now passed ‹_› clear
  · rintro (isListed | refused) now passed unlisted clear
    · exact unlisted isListed
    · exact refused now ⟨passed, clear⟩

theorem quiet_tunnel {ep : Endpoint} {peerPub address : String} {index sats : ℕ}
    (answers : firstResponse ep.inbox = some (address, index)) :
    Quiet host page (tunnelPay host ep peerPub sats) w ↔
      address ∈ host.policy.blockedAddresses ∨
        ∀ now, ¬ Clears host page w.ledger now (.tunnel ep peerPub sats) := by
  simp only [tunnelPay, runPayer, quiet_ofExcept, quiet_openWithIdentity, quiet_connect,
    quiet_loadPolicy, quiet_spendGate, quiet_wireSend, quiet_awaitAddress, quiet_gate, quiet_send,
    Policy.checkAddress_ok, World.load_mem, Clears, answers]
  constructor
  · intro quiet
    by_cases listed : address ∈ host.policy.blockedAddresses
    · exact .inl listed
    · refine .inr fun now ⟨key, socket, amount, capped, _, _, recipient, same, parses⟩ => ?_
      cases same
      exact quiet () key () socket now amount _ rfl listed ⟨capped, recipient, parses⟩
  · rintro (isListed | refused) ⟨⟩ key ⟨⟩ socket now amount _ same unlisted ⟨capped, recipient, parses⟩
    · cases same
      exact unlisted isListed
    · cases same
      exact refused now ⟨key, socket, amount, capped, _, _, recipient, rfl, parses⟩

theorem quiet_sendPayment {payee : String} {sats : ℕ} {f : String → Prog Unit} :
    Quiet host page (sendPayment host payee sats >>= f) w ↔
      payee ∈ host.policy.blockedAddresses ∨
        ∀ now, ¬ Clears host page w.ledger now (.sendPayment payee sats) := by
  simp only [sendPayment, bind_bind, quiet_openWithIdentity, quiet_gated, quiet_sendSpendingSp,
    AmountPassed, World.load_mem, Clears]
  exact gates_iff

theorem quiet_spPay {code : String} {sats : ℕ} {f : String → Prog Unit} :
    Quiet host page (spPay host code sats >>= f) w ↔
      code ∈ host.policy.blockedAddresses ∨
        ∀ now, ¬ Clears host page w.ledger now (.spPay code sats) := by
  simp only [spPay, bind_bind, quiet_openWithIdentity, quiet_gated, quiet_spSend,
    AmountPassed, World.load_mem, Clears]
  exact gates_iff

theorem quiet_fetch {url : String} {maxSats : ℕ} {terms : Terms} {f : FetchOut → Prog Unit}
    (priced : termsOf host page = some terms) :
    Quiet host page (cliFetch host url maxSats >>= f) w ↔
      terms.payTo ∈ host.policy.blockedAddresses ∨
        ∀ now, ¬ Clears host page w.ledger now (.fetch url maxSats) := by
  obtain ⟨demanded, parsed⟩ := termsOf_some priced
  have terms_eq : ∀ (explain : Error → Error) value,
      (host.parseTerms page.body).mapError explain = .ok value ↔ value = terms := by
    simp [parsed, Except.mapError, eq_comm]
  simp only [cliFetch, bind_bind, quiet_openWithIdentity, Clears, priced, fetch]
  split
  · rename_i neither
    refine iff_of_true ⟨_, rfl⟩ (.inr fun now ⟨accepted, _⟩ => ?_)
    rcases accepted with plain | secure
    · rw [neither.1] at plain
      cases plain
    · rw [neither.2] at secure
      cases secure
  rename_i scheme
  have accepted : Text.startsWith url.toList "http://".toList ∨
      Text.startsWith url.toList "https://".toList := by
    by_contra neither
    simp only [not_or, Bool.not_eq_true] at neither
    exact scheme neither
  rw [bind_bind, quiet_httpGet, demanded, if_neg (by decide), if_neg (by decide)]
  simp only [bind_bind, quiet_ofExcept, quiet_gated, quiet_spSend, AmountPassed, World.load_mem,
    terms_eq]
  constructor
  · intro quiet
    by_cases listed : terms.payTo ∈ host.policy.blockedAddresses
    · exact .inl listed
    · refine .inr fun now ⟨_, _, same, valid, amount, clears⟩ => ?_
      cases same
      exact quiet terms rfl () valid now amount listed clears
  · rintro (isListed | refused) _ rfl ⟨⟩ valid now amount unlisted clears
    · exact unlisted isListed
    · exact refused now ⟨accepted, _, rfl, valid, amount, clears⟩

/-- Each entry point refuses when it should by the list as it is written, or for another
reason. -/
theorem quiet_pay {payment : Payment} {dest : Destination}
    (goes : destination host page payment = some dest) :
    Quiet host page (payment.pay host) w ↔ dest.text ∈ host.policy.blockedAddresses ∨
      ∀ now, ¬ Clears host page w.ledger now payment := by
  cases payment with
  | tunnel ep peerPub sats =>
      obtain ⟨⟨address, index⟩, answers, rfl⟩ := Option.map_eq_some_iff.1 goes
      exact quiet_tunnel answers
  | sendPayment payee sats =>
      cases goes
      exact quiet_sendPayment
  | spPay code sats =>
      cases goes
      exact quiet_spPay
  | cliSpPay code sats =>
      cases goes
      exact quiet_spPay
  | fetch url maxSats =>
      obtain ⟨terms, priced, rfl⟩ := Option.map_eq_some_iff.1 goes
      exact quiet_fetch priced

end Pay

/-- **A payment to a listed destination is refused, before anything is signed or
recorded, exactly when its text is listed as it stands or another gate refuses it.** -/
theorem blocklist_iff (host : Host) (page : Resp) (payment : Payment) (w : World) :
    (OnList host page payment → Refused host page (payment.pay host) w) ↔
      (OnList host page payment → Spelled host page payment ∨
        ∀ now, ¬ Clears host page w.ledger now payment) := by
  refine imp_congr_right fun ⟨dest, goes, _⟩ => ?_
  rw [refused_iff_quiet, quiet_pay goes]
  refine or_congr_left ⟨fun spelled => ⟨dest, goes, spelled⟩, fun ⟨dest', goes', spelled⟩ => ?_⟩
  cases goes.symm.trans goes'
  exact spelled

/-- The address of `sampleAddress` in upper case, as a QR code carries it. -/
def shoutedAddress : String := "BC1QW508D6QEJXTDG4Y5R3ZARVARY0C5XW7KV8F3T4"

/-- A capped mainnet wallet that must never pay `sampleAddress`. -/
def blockingHost : Host :=
  { Host.sample .bitcoin ⟨some 10000, none, some 1000, [sampleAddress.display]⟩ with
    parseAddress := fun text =>
      if text = sampleAddress.display ∨ text = shoutedAddress then .ok sampleAddress
      else .error "base58 error" }

/-- Everything works, and the wallet finishes a build for 200 sats of fee. -/
def willing : Script :=
  { Script.silent with
    finish := fun _ => .ok ⟨sampleTxid, 200, [], sampleAddress⟩
    page := fun _ _ => .ok ⟨200, ""⟩ }

theorem willing_serves (host : Host) (op : Op) (w : World) :
    Serves ⟨200, ""⟩ w op (willing.answer host w op) := by
  cases op with
  | httpGet url payment =>
      cases payment with
      | none => exact rfl
      | some txid => trivial
  | _ => trivial

/-- The listed address is paid when it is written in upper case. -/
theorem shouted_address_paid :
    OnList blockingHost ⟨200, ""⟩ (.sendPayment shoutedAddress 5000) ∧
      ¬ Refused blockingHost ⟨200, ""⟩ (Payment.pay blockingHost (.sendPayment shoutedAddress 5000))
        .blank := by
  refine ⟨⟨.address shoutedAddress, rfl, sampleAddress.display, ?_, sampleAddress, rfl, rfl⟩, ?_⟩
  · exact List.mem_singleton_self _
  · intro refused
    obtain ⟨e, failed⟩ := refused.fails _ _
      (willing.exec blockingHost (willing_serves blockingHost) _ .blank)
    have paid : (run (willing.handle blockingHost)
        (Payment.pay blockingHost (.sendPayment shoutedAddress 5000)) .blank).1 = .ok () := by
      decide +kernel
    rw [paid] at failed
    cases failed

end ComputerMoney.Safety

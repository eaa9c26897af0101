/-
# Safety.SellerTerms -- which offers a buyer can take

The seller puts the price, the wallet's code and the network's label into its terms; the
buyer parses them, checks version, label, prefix and price, and then checks the amount and the
code again when it comes to pay.  Seller and buyer draw the price's lower bound and the code's
network each in their own way: an offer below the smallest silent payment, and any offer of a
testnet wallet, is one that no buyer takes.
-/
import ComputerMoney.Kernel.Paywall
import ComputerMoney.Kernel.Purchase
import ComputerMoney.Theory.Json
import ComputerMoney.Safety.SpCodes

namespace ComputerMoney.Safety

set_option autoImplicit false

open Theory Kernel

/-- `serde_json::to_string` of the terms. -/
def termsBody (terms : Terms) : String :=
  String.ofList (Json.object [Json.field "cm402" (Json.number terms.cm402),
    Json.field "sats" (Json.number terms.sats),
    Json.field "pay_to" (Json.string terms.payTo.toList),
    Json.field "network" (Json.string terms.network.toList)])

/-- The buyer gets from the body of a 402 to the build: it parses, the terms pass, and so does
every check of `sp_send` before the build. -/
def Payable (buyer : Host) (maxSats : ℕ) (body : String) : Prop :=
  ∃ terms, buyer.parseTerms body = .ok terms ∧
    checkTerms terms maxSats buyer.network.label (buyer.network = .bitcoin) = .ok () ∧
    ∃ scan spend, ∀ led maxFeeSats, ∃ rest : Tx × Address × List OutPoint → Prog String,
      spSend buyer led terms.payTo terms.sats maxFeeSats = (do
        let es ← Ledger.entries led
        let built ← buildSignedToSp buyer scan spend terms.sats maxFeeSats (Ledger.spUtxos es)
        rest built)

section Offer

variable {buyer : Host} {seller : Seller} {terms : Terms} {used : List (List Char)}
  {arrival : Arrival} {maxSats : ℕ}

/-- What a 402 says. -/
theorem terms_of_paymentRequired
    (quoted : (handle seller used arrival).1 = some (.paymentRequired terms)) :
    terms = ⟨1, seller.priceSats, seller.spCode, seller.host.network.label⟩ := by
  unfold handle at quoted
  dsimp only at quoted
  split at quoted
  · cases quoted
  split at quoted
  · cases quoted
  split at quoted
  · cases quoted
    rfl
  split at quoted
  · split at quoted <;> cases quoted
    rfl
  · cases quoted
    rfl

/-- The checks of `sp_send` before the build pass for an amount above the floor and a code of
the own network, and for no other. -/
theorem spSend_builds_iff {code : String} (sats : ℕ) {scan spend : PublicKey} {network : Network}
    (keys : buyer.spSpendKeypair = .ok ()) (read : decode buyer code = .ok (scan, spend, network)) :
    (∃ scan spend, ∀ led maxFeeSats, ∃ rest : Tx × Address × List OutPoint → Prog String,
      spSend buyer led code sats maxFeeSats = (do
        let es ← Ledger.entries led
        let built ← buildSignedToSp buyer scan spend sats maxFeeSats (Ledger.spUtxos es)
        rest built)) ↔ spMinSats ≤ sats ∧ network = buyer.network := by
  constructor
  · rintro ⟨scan', spend', builds⟩
    obtain ⟨rest, asks⟩ := builds 0 none
    by_cases enough : spMinSats ≤ sats
    · refine ⟨enough, ?_⟩
      by_contra other
      obtain ⟨error, ends⟩ := refusesCode_of_decode read other 0 sats none enough
      rw [asks] at ends
      cases ends
    · unfold spSend at asks
      rw [if_pos (Nat.not_le.1 enough)] at asks
      cases asks
  · rintro ⟨enough, rfl⟩
    refine ⟨scan, spend, fun led maxFeeSats => ⟨fun built => do
      let policy ← loadPolicy
      gate (policy.checkAddress built.2.1.display)
      record led built.1 sats code
      markSpent led built.2.2
      return built.1.txid, ?_⟩⟩
    unfold spSend
    rw [if_neg (Nat.not_lt.2 enough), read]
    show (if buyer.network ≠ buyer.network then _ else _) = _
    rw [if_neg (not_not.2 rfl), keys]
    rfl

/-- **Which offers are payable.**  For a buyer on the seller's network whose cap covers the
price, the body of the seller's 402 gets past every check before the build exactly when the
price is at least the smallest silent payment and the network is not testnet. -/
theorem offer_payable (text : Bech32m buyer) {scan spend : PublicKey} (isScan : buyer.IsKey scan)
    (isSpend : buyer.IsKey spend) (keys : buyer.spSpendKeypair = .ok ())
    (begins : ∀ hrp symbols, Text.startsWith (text.write hrp symbols) (hrp.toList ++ ['1']) = true)
    (same : buyer.network = seller.host.network)
    (own : seller.spCode = encode text scan spend seller.host.network)
    (quoted : (handle seller used arrival).1 = some (.paymentRequired terms))
    (reads : buyer.parseTerms (termsBody terms) = .ok terms) (cap : seller.priceSats ≤ maxSats) :
    Payable buyer maxSats (termsBody terms) ↔
      330 ≤ seller.priceSats ∧ seller.host.network ≠ .testnet := by
  obtain rfl := terms_of_paymentRequired quoted
  have read : decode buyer seller.spCode = .ok (scan, spend, takenFor seller.host.network) := by
    rw [own]
    exact decode_encode text isScan isSpend _
  have accepted : checkTerms ⟨1, seller.priceSats, seller.spCode, seller.host.network.label⟩ maxSats
      buyer.network.label (buyer.network = .bitcoin) = .ok () := by
    refine checkTerms_ok.2 ⟨rfl, congrArg Network.label same.symm, ?_, cap⟩
    have starts := begins (hrpStr seller.host.network) (0 :: bytesToFes (scan ++ spend))
    rw [same, own, encode, String.toList_ofList]
    revert starts
    cases seller.host.network <;> exact id
  have builds := spSend_builds_iff seller.priceSats keys read
  rw [same] at builds
  have taken : takenFor seller.host.network = seller.host.network ↔
      seller.host.network ≠ .testnet := by
    cases seller.host.network <;> simp [takenFor]
  constructor
  · rintro ⟨terms, parsed, -, onward⟩
    cases reads.symm.trans parsed
    exact ⟨(builds.1 onward).1, taken.1 (builds.1 onward).2⟩
  · rintro ⟨floor, real⟩
    exact ⟨_, reads, accepted, builds.2 ⟨floor, taken.2 real⟩⟩

end Offer

/-! ## Three offers -/

/-- The code of the test vectors, as a wallet on `network` writes it. -/
def vectorCode (network : Network) : String :=
  encode (codeText network) vectorScan vectorSpend network

def offerTerms (network : Network) (price : ℕ) : Terms :=
  ⟨1, price, vectorCode network, network.label⟩

def offerSeller (network : Network) (price : ℕ) : Seller :=
  ⟨codeHost network, price, "the page", vectorCode network⟩

/-- A buyer that parses this offer. -/
def offerBuyer (network : Network) (price : ℕ) : Host :=
  { codeHost network with
    parseTerms := fun body =>
      if body = termsBody (offerTerms network price) then .ok (offerTerms network price)
      else .error "expected value at line 1 column 1" }

def offerText (network : Network) (price : ℕ) : Bech32m (offerBuyer network price) where
  write := (codeText network).write
  reads := (codeText network).reads
  solid := (codeText network).solid

/-- A request without a payment. -/
def plainGet : Arrival := ⟨.ok "GET / HTTP/1.1\r\n\r\n".toList, fun _ => .error "no route"⟩

theorem offer_quoted (network : Network) (price : ℕ) :
    (handle (offerSeller network price) [] plainGet).1 =
      some (.paymentRequired (offerTerms network price)) := by
  have unpaid : parseRequest (readHeaders "GET / HTTP/1.1\r\n\r\n".toList) =
      ⟨"GET".toList, none⟩ := by decide +kernel
  unfold handle plainGet
  simp only [unpaid, ne_eq, not_true_eq_false, if_false]
  rfl

theorem offer_reads (network : Network) (price : ℕ) :
    (offerBuyer network price).parseTerms (termsBody (offerTerms network price)) =
      .ok (offerTerms network price) := if_pos rfl

theorem offerText_begins (network : Network) (price : ℕ) (hrp : String) (symbols : List ℕ) :
    Text.startsWith ((offerText network price).write hrp symbols) (hrp.toList ++ ['1']) = true := by
  refine List.isPrefixOf_iff_prefix.2
    ⟨(symbols ++ Bech32.checksum hrp.toList symbols).map Bech32.symbolChar, ?_⟩
  rw [List.append_assoc]
  rfl

/-- A page for 1000 sats on mainnet is payable. -/
theorem offer_payable_sample :
    Payable (offerBuyer .bitcoin 1000) 5000 (termsBody (offerTerms .bitcoin 1000)) := by
  have isScan : (offerBuyer .bitcoin 1000).IsKey vectorScan := ⟨rfl, rfl⟩
  have isSpend : (offerBuyer .bitcoin 1000).IsKey vectorSpend := ⟨rfl, rfl⟩
  have same : (offerBuyer .bitcoin 1000).network = (offerSeller .bitcoin 1000).host.network := rfl
  have own : (offerSeller .bitcoin 1000).spCode =
      encode (offerText .bitcoin 1000) vectorScan vectorSpend .bitcoin := rfl
  have cap : (offerSeller .bitcoin 1000).priceSats ≤ 5000 := by decide
  rw [offer_payable (offerText .bitcoin 1000) isScan isSpend rfl (offerText_begins .bitcoin 1000)
    same own (offer_quoted .bitcoin 1000) (offer_reads .bitcoin 1000) cap]
  exact ⟨by decide, nofun⟩

/-- A page for 100 sats on mainnet, and one for 1000 sats on testnet, are offered, and no buyer
on the network can pay for them. -/
theorem offers_not_payable :
    ((handle (offerSeller .bitcoin 100) [] plainGet).1 =
        some (.paymentRequired (offerTerms .bitcoin 100)) ∧
      ¬ Payable (offerBuyer .bitcoin 100) 5000 (termsBody (offerTerms .bitcoin 100))) ∧
    ((handle (offerSeller .testnet 1000) [] plainGet).1 =
        some (.paymentRequired (offerTerms .testnet 1000)) ∧
      ¬ Payable (offerBuyer .testnet 1000) 5000 (termsBody (offerTerms .testnet 1000))) := by
  have cheap := @decode_encode (offerBuyer .bitcoin 100) (offerText .bitcoin 100) vectorScan
    vectorSpend ⟨rfl, rfl⟩ ⟨rfl, rfl⟩ .bitcoin
  have foreign := @decode_encode (offerBuyer .testnet 1000) (offerText .testnet 1000) vectorScan
    vectorSpend ⟨rfl, rfl⟩ ⟨rfl, rfl⟩ .testnet
  refine ⟨⟨offer_quoted .bitcoin 100, ?_⟩, offer_quoted .testnet 1000, ?_⟩
  · rintro ⟨terms, parsed, -, onward⟩
    cases (offer_reads .bitcoin 100).symm.trans parsed
    obtain ⟨enough, -⟩ := (spSend_builds_iff 100 rfl cheap).1 onward
    exact absurd enough (by decide)
  · rintro ⟨terms, parsed, -, onward⟩
    cases (offer_reads .testnet 1000).symm.trans parsed
    obtain ⟨-, taken⟩ := (spSend_builds_iff 1000 rfl foreign).1 onward
    exact absurd taken (by decide)

end ComputerMoney.Safety

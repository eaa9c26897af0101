/-
# Safety.PaidBodies -- every body that the paywall hands out is paid for

A paywall looks a payment up and takes the sum of the outputs that are the seller's; it keeps
the texts it has accepted, and books nothing.  `bodies_paid_for` adds up a whole run: as long as
no transaction is presented under two spellings (`OneSpelling`), the price times the bodies
handed out is covered by outputs on the chain, no two of them the same, each of which the seller
can spend.
-/
import ComputerMoney.Safety.Income
import ComputerMoney.Safety.SingleUse

namespace ComputerMoney.Safety

set_option autoImplicit false

open Theory
open Kernel hiding PublicKey Error Psbt feeCap loadPolicy buildSigned buildSignedToSp
  buildSignedSpendingSp mainnetGuard
open Kernel.Builder
open Kernel.Sp (txMatches)

open Builders Income

namespace PaidBodies

section Run

variable {seller : Seller} {arrivals : List Arrival}

/-- A sale: the text presented, and what the chain showed for it, which covers the price. -/
structure Sale (seller : Seller) (arrivals : List Arrival) (sale : List Char × EsploraTx) :
    Prop where
  presented : ∃ arrival ∈ arrivals, arrival.names = some sale.1 ∧
    arrival.covers seller sale.1 = true ∧ arrival.chain sale.1 = .ok sale.2
  pays : seller.priceSats ≤ totalOf (seller.host.txMatches sale.2)

theorem Sale.cons {sale : List Char × EsploraTx} {arrival : Arrival}
    (sold : Sale seller arrivals sale) : Sale seller (arrival :: arrivals) sale := by
  obtain ⟨a, member, presented⟩ := sold.presented
  exact ⟨⟨a, List.mem_cons_of_mem _ member, presented⟩, sold.pays⟩

/-- The total may wrap, but only downwards. -/
theorem shown_of_covers {arrival : Arrival} {txid : List Char}
    (covers : arrival.covers seller txid = true) :
    ∃ view, arrival.chain txid = .ok view ∧
      seller.priceSats ≤ totalOf (seller.host.txMatches view) := by
  unfold Arrival.covers txPaysMe at covers
  cases shown : arrival.chain txid with
  | error e =>
      rw [shown] at covers
      cases covers
  | ok view =>
      rw [shown] at covers
      have within : seller.priceSats ≤ u64Sum ((seller.host.txMatches view).map SpFound.sats) :=
        of_decide_eq_true covers
      rw [u64Sum_eq_mod] at within
      exact ⟨view, rfl, within.trans (Nat.mod_le _ _)⟩

/-- The sales of a run, one for each body handed out, by texts that were not used before. -/
theorem sales_of_run (used : List (List Char)) :
    ∃ sales : List (List Char × EsploraTx),
      sales.length = (replies seller used arrivals).countP Reply.unlocks ∧
      (∀ sale ∈ sales, Sale seller arrivals sale ∧ sale.1 ∉ used) ∧
      sales.Pairwise fun a b => a.1 ≠ b.1 := by
  induction arrivals generalizing used with
  | nil => exact ⟨[], rfl, fun _ member => absurd member List.not_mem_nil, .nil⟩
  | cons arrival arrivals ih =>
      obtain ⟨sales, count, sold, apart⟩ := ih (handle seller used arrival).2
      rcases handle_cases seller used arrival with
        ⟨txid, names, fresh, covers, opened, after⟩ | ⟨-, closed, after⟩
      · obtain ⟨view, shown, pays⟩ := shown_of_covers covers
        rw [after] at sold
        refine ⟨(txid, view) :: sales, ?_, fun sale member => ?_, ?_⟩
        · rw [replies, List.countP_cons_of_pos opened, List.length_cons, count]
        · rcases List.mem_cons.1 member with rfl | later
          · exact ⟨⟨⟨arrival, List.mem_cons_self .., names, covers, shown⟩, pays⟩, fresh⟩
          · obtain ⟨sale_, unused⟩ := sold sale later
            exact ⟨sale_.cons, fun before => unused (List.mem_cons_of_mem _ before)⟩
        · refine List.pairwise_cons.2 ⟨fun sale later same => ?_, apart⟩
          exact (sold sale later).2 (List.mem_cons.2 (.inl same.symm))
      · rw [after] at sold
        refine ⟨sales, ?_, fun sale member => ?_, apart⟩
        · rw [replies, List.countP_cons_of_neg (by simp [closed]), count]
        · exact ⟨(sold sale member).1.cons, (sold sale member).2⟩

end Run

section Coins

variable {host : Host}

/-- What a sale is paid with. -/
def coinsOf (host : Host) (sale : List Char × EsploraTx) : List Receipt :=
  (host.txMatches sale.2).map fun f =>
    ⟨sale.2.txid, f.vout, f.sats, String.ofList (Hex.hexLower f.tweak)⟩

theorem outpoints_coinsOf (sale : List Char × EsploraTx) :
    (coinsOf host sale).map Receipt.outpoint =
      ((host.txMatches sale.2).map SpFound.vout).map fun vout => (sale.2.txid, vout) := by
  rw [coinsOf, List.map_map, List.map_map]
  rfl

/-- Sales of different transactions are paid with different outputs. -/
theorem outpoints_nodup {sales : List (List Char × EsploraTx)}
    (apart : sales.Pairwise fun a b => a.2.txid ≠ b.2.txid)
    (once : ∀ view, ((host.txMatches view).map SpFound.vout).Nodup) :
    ((sales.flatMap (coinsOf host)).map Receipt.outpoint).Nodup := by
  rw [List.map_flatMap]
  refine List.nodup_flatMap.2 ⟨fun sale _ => ?_, apart.imp fun {a b} other => ?_⟩
  · rw [outpoints_coinsOf]
    exact (once sale.2).map fun _ _ same => congrArg Prod.snd same
  · intro o first second
    have inFirst : o ∈ (coinsOf host a).map Receipt.outpoint := first
    have inSecond : o ∈ (coinsOf host b).map Receipt.outpoint := second
    rw [outpoints_coinsOf] at inFirst inSecond
    obtain ⟨vout, -, rfl⟩ := List.mem_map.1 inFirst
    obtain ⟨vout', -, same⟩ := List.mem_map.1 inSecond
    exact other (congrArg Prod.fst same).symm

theorem price_le_coins {price : ℕ} {sales : List (List Char × EsploraTx)}
    (pays : ∀ sale ∈ sales, price ≤ totalOf (host.txMatches sale.2)) :
    price * sales.length ≤ ((sales.flatMap (coinsOf host)).map Receipt.sats).sum := by
  induction sales with
  | nil => simp
  | cons sale sales ih =>
      have first := pays sale (List.mem_cons_self ..)
      have rest := ih fun sale member => pays sale (List.mem_cons_of_mem _ member)
      have worth : ((coinsOf host sale).map Receipt.sats).sum =
          totalOf (host.txMatches sale.2) := by
        rw [coinsOf, List.map_map]
        rfl
      rw [List.flatMap_cons, List.map_append, List.sum_append, worth, List.length_cons,
        Nat.mul_succ]
      omega

end Coins

end PaidBodies

open PaidBodies

section

variable {F G X Xpriv : Type} [Field F] [AddCommGroup G] [Module F G] [DecidableEq F]
  [DecidableEq G] [DecidableEq X]

/-- **Every body is paid for, with money the seller can spend.**  In every run of a paywall in
which the chain shows for a text the transaction that the text spells, and no transaction that
covers the price comes under two spellings: the price times the bodies handed out is no more
than the sum of some outputs on the chain, all different, each of which opens with the seller's
key and a tweak that the seller derives. -/
theorem bodies_paid_for (keys : Keys F G X Xpriv) (outputs : OutPoint → Option Vout)
    (scanSk spendSk : Secret F) (seller : Seller) (arrivals : List Arrival)
    (hashed : ∀ tag data, (keys.taggedHash tag data).length = 32)
    (wallet : seller.host.txMatches = fun view =>
      txMatches keys.toSecp view scanSk (keys.publicKey spendSk))
    (onChain : ∀ arrival ∈ arrivals, ∀ text view, arrival.chain text = .ok view →
      OnChain keys outputs view)
    (identifies : ∀ arrival ∈ arrivals, ∀ text view, arrival.chain text = .ok view →
      Hex.fromHex view.txid.toList = Hex.fromHex text)
    (spelling : OneSpelling seller arrivals) :
    ∃ coins : List Receipt, (coins.map Receipt.outpoint).Nodup ∧
      (∀ r ∈ coins, Spendable keys outputs spendSk r) ∧
      seller.priceSats * (replies seller [] arrivals).countP Reply.unlocks ≤
        (coins.map Receipt.sats).sum := by
  obtain ⟨sales, count, sold, apart⟩ := @sales_of_run seller arrivals []
  have once : ∀ view, ((seller.host.txMatches view).map SpFound.vout).Nodup := by
    rw [wallet]
    exact fun view => txMatches_nodup keys.toSecp view scanSk (keys.publicKey spendSk)
  have different : sales.Pairwise fun a b => a.2.txid ≠ b.2.txid := by
    refine List.Pairwise.imp_of_mem (fun {a b} first second other same => ?_) apart
    obtain ⟨x, among, names, covers, shown⟩ := (sold a first).1.presented
    obtain ⟨y, among', names', covers', shown'⟩ := (sold b second).1.presented
    obtain ⟨hash, spells, -⟩ := spells_of_isTxid (isTxid_of_names names)
    have spells' : Hex.fromHex b.1 = some hash := by
      rw [← identifies y among' _ _ shown', ← same, identifies x among _ _ shown, spells]
    exact other (spelling hash x among y among' _ _ names names' spells spells' covers covers')
  refine ⟨sales.flatMap (coinsOf seller.host), outpoints_nodup different once, ?_, ?_⟩
  · intro r member
    obtain ⟨sale, among, coin⟩ := List.mem_flatMap.1 member
    obtain ⟨f, matched, rfl⟩ := List.mem_map.1 coin
    obtain ⟨arrival, inRun, -, -, shown⟩ := (sold sale among).1.presented
    rw [wallet] at matched
    exact spendable_of_match hashed (onChain arrival inRun _ _ shown) matched
  · rw [← count]
    exact price_le_coins fun sale among => (sold sale among).1.pays

end

/-! ## One payment presented twice -/

namespace PaidBodies

/-- Sells for 5000 sats. -/
def sevenSeller : Seller where
  host := sevenHost
  priceSats := 5000
  body := sampleSeller.body
  spCode := sampleSeller.spCode

/-- Presents the transaction that pays 5000 sats to the wallet. -/
def sevenPresents : Arrival where
  stream := (presents sampleTxid).stream
  chain text :=
    if Hex.fromHex text = Hex.fromHex sampleTxid.toList then .ok sevenTx
    else .error "status code 404"

theorem shown_sevenPresents {arrival : Arrival} (member : arrival ∈ List.replicate 2 sevenPresents)
    {text : List Char} {view : EsploraTx} (shown : arrival.chain text = .ok view) :
    view = sevenTx ∧ Hex.fromHex text = Hex.fromHex sampleTxid.toList := by
  obtain rfl := List.eq_of_mem_replicate member
  by_cases same : Hex.fromHex text = Hex.fromHex sampleTxid.toList
  · rw [show sevenPresents.chain text = _ from if_pos same] at shown
    exact ⟨(Except.ok.inj shown).symm, same⟩
  · rw [show sevenPresents.chain text = _ from if_neg same] at shown
    cases shown

end PaidBodies

/-- The second time it buys nothing. -/
theorem bodies_paid_for_seven :
    (replies sevenSeller [] (List.replicate 2 sevenPresents)).countP Reply.unlocks = 1 ∧
      ∃ coins : List Receipt, (coins.map Receipt.outpoint).Nodup ∧
        (∀ r ∈ coins, Spendable sevenKeys (outputsOf sevenTx) sevenSpend r) ∧
        5000 ≤ (coins.map Receipt.sats).sum := by
  have count : (replies sevenSeller [] (List.replicate 2 sevenPresents)).countP
      Reply.unlocks = 1 := by decide +kernel
  have spelling : OneSpelling sevenSeller (List.replicate 2 sevenPresents) := by
    intro hash a first b second s t names names' _ _ _ _
    obtain rfl := List.eq_of_mem_replicate first
    obtain rfl := List.eq_of_mem_replicate second
    exact Option.some.inj (names.symm.trans names')
  obtain ⟨coins, apart, spendable, paid⟩ := bodies_paid_for sevenKeys (outputsOf sevenTx) sevenScan
    sevenSpend sevenSeller (List.replicate 2 sevenPresents) sevenCurve_taggedHash rfl
    (fun arrival member text view shown => by
      obtain ⟨rfl, -⟩ := shown_sevenPresents member shown
      exact onChain_seven)
    (fun arrival member text view shown => by
      obtain ⟨rfl, same⟩ := shown_sevenPresents member shown
      exact same.symm) spelling
  rw [count] at paid
  exact ⟨count, coins, apart, spendable, paid⟩

end ComputerMoney.Safety

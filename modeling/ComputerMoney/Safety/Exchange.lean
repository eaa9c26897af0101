/-
# Safety.Exchange -- buyers at one paywall

Any number of `fetch` calls, each on its own machine, and one `paywall::run` that serves them,
in any interleaving, and among connections of anyone else (the street), which may present the
same payments.  A reply that is lost on its way is an error to the buyer and a connection of
the street to the paywall.  The chain shows the paywall nothing that is not so.

`exchange_settles`: a buyer that gets the page has paid for it, once, at the price, to the
seller's code, and no two of them got it for one payment; and one that does not get it has lost
no more than that price.
-/
import ComputerMoney.Kernel.Paywall
import ComputerMoney.Theory.Parties
import ComputerMoney.Safety.BuyerGuards
import ComputerMoney.Safety.SellerTerms

namespace ComputerMoney.Safety

set_option autoImplicit false

open Theory Theory.Program Kernel

namespace Exchange

/-! ## The market -/

/-- A connection of someone else: the paywall serves it. -/
@[reducible] def street : Signature := ⟨Arrival, fun _ => Option Reply⟩

/-- The payments used at the paywall, and each buyer's machine with the calls it made. -/
structure Market where
  used : List (List Char)
  buyers : ℕ → Journal

/-- A reply as it is read on the wire. -/
def respOf : Reply → Resp
  | .ok body => ⟨200, body⟩
  | .methodNotAllowed text => ⟨405, text⟩
  | .paymentRequired terms => ⟨402, termsBody terms⟩

/-- The connection of `http_get`: a `GET` that names the payment, if there is one. -/
def Requests (payment : Option String) (arrival : Arrival) : Prop :=
  ∃ stream, arrival.stream = .ok stream ∧
    parseRequest (readHeaders stream) = ⟨"GET".toList, payment.map String.toList⟩

section

variable (hosts : ℕ → Host) (seller : Seller) (pays : List Char → Prop)

/-- A transaction that the paywall is shown to cover the price does so. -/
def TrueToChain (arrival : Arrival) : Prop := ∀ txid, arrival.covers seller txid = true → pays txid

/-- What the paywall, with these payments used, may answer to a call of a buyer. -/
def Answered (used : List (List Char)) : Event sig → Prop
  | ⟨.httpGet _ payment, .ok resp⟩ => ∃ arrival reply, Requests payment arrival ∧
      TrueToChain seller pays arrival ∧ (handle seller used arrival).1 = some reply ∧
        resp = respOf reply
  | _ => True

/-- The payments used after a call of a buyer. -/
def charge (used : List (List Char)) : Event sig → List (List Char)
  | ⟨.httpGet _ (some txid), .ok resp⟩ => if Resp.status resp = 200 then txid.toList :: used else used
  | _ => used

/-- Buyer `i` and the street, at the paywall. -/
def market (i : ℕ) : Interp (sig.sum street) Market where
  allowed m op := match op with
    | .inl op => fun answer => (interp (hosts i)).allowed (m.buyers i).1 op answer ∧
        Answered seller pays m.used ⟨op, answer⟩
    | .inr arrival => fun reply => TrueToChain seller pays arrival ∧
        reply = (handle seller m.used arrival).1
  next m op := match op with
    | .inl op => fun answer => ⟨charge m.used ⟨op, answer⟩,
        Function.update m.buyers i ((interp (hosts i)).recorded.next (m.buyers i) op answer)⟩
    | .inr arrival => fun _ => { m with used := (handle seller m.used arrival).2 }

/-- The paywall's terms. -/
def quote : Terms := ⟨1, seller.priceSats, seller.spCode, seller.host.network.label⟩

end

/-- The street: one connection after the other. -/
def passers (arrivals : List Arrival) : Program (sig.sum street) Error FetchOut :=
  .forEach arrivals (fun arrival => .call (.inr arrival) fun _ => .pure ()) >>= fun _ =>
    .throw "gone"

/-- One fetch. -/
structure Order where
  led : Handle
  url : String
  maxSats : ℕ

def Order.buy (order : Order) (host : Host) : Prog FetchOut :=
  fetch host order.led order.url order.maxSats

/-- `n` buyers and the street. -/
def crowd (hosts : ℕ → Host) (orders : ℕ → Order) (n : ℕ) (arrivals : List Arrival) :
    Pool (sig.sum street) Error FetchOut :=
  (List.range n).map (fun i => ((orders i).buy (hosts i)).lift) ++ [passers arrivals]

/-! ## The paywall's side -/

section Paywall

variable {hosts : ℕ → Host} {seller : Seller} {pays : List Char → Prop}
  {used : List (List Char)} {payment : Option String} {arrival : Arrival} {url : String}

/-- What a buyer is answered: the page, for a payment that was not used and covers the price, or
the terms. -/
theorem answered_cases {resp : Resp} (answered : Answered seller pays used ⟨.httpGet url payment, .ok resp⟩) :
    (∃ txid, payment = some txid ∧ txid.toList ∉ used ∧ pays txid.toList ∧
      resp = ⟨200, seller.body⟩) ∨ resp = ⟨402, termsBody (quote seller)⟩ := by
  obtain ⟨arrival, reply, ⟨stream, is, parsed⟩, trueToChain, replied, rfl⟩ := answered
  unfold handle at replied
  rw [is] at replied
  dsimp only at replied
  rw [parsed, if_neg (not_not.2 rfl)] at replied
  cases payment with
  | none =>
      cases replied
      exact .inr rfl
  | some txid =>
      dsimp only [Option.map_some] at replied
      unfold verifyPayment at replied
      split at replied
      case isFalse bad =>
          cases replied
          exact .inr rfl
      by_cases again : txid.toList ∈ used
      · rw [if_pos again] at replied
        cases replied
        exact .inr rfl
      rw [if_neg again] at replied
      cases covers : arrival.covers seller txid.toList with
      | true =>
          rw [covers] at replied
          cases replied
          exact .inl ⟨txid, rfl, again, trueToChain _ covers, rfl⟩
      | false =>
          rw [covers] at replied
          cases replied
          exact .inr rfl

/-- What a connection of the street uses up covers the price. -/
theorem used_handle (trueToChain : TrueToChain seller pays arrival) {txid : List Char}
    (member : txid ∈ (handle seller used arrival).2) : txid ∈ used ∨ pays txid := by
  rcases handle_cases seller used arrival with ⟨named, -, -, covers, -, is⟩ | ⟨-, -, is⟩
  · rw [is] at member
    rcases List.mem_cons.1 member with rfl | earlier
    · exact .inr (trueToChain _ covers)
    · exact .inl earlier
  · exact .inl (is ▸ member)

theorem used_subset_handle : used ⊆ (handle seller used arrival).2 := by
  rcases handle_cases seller used arrival with ⟨named, -, -, -, -, is⟩ | ⟨-, -, is⟩
  · rw [is]
    exact List.subset_cons_self ..
  · rw [is]
    exact List.Subset.refl _

theorem names_of_requests (requests : Requests payment arrival) :
    arrival.names = (payment.map String.toList).filter fun txid => isTxid txid := by
  obtain ⟨stream, is, parsed⟩ := requests
  unfold Arrival.names
  rw [is]
  dsimp only
  rw [parsed, if_pos rfl]

theorem status_respOf (reply : Reply) : (respOf reply).status = 200 ↔ Reply.unlocks (some reply) := by
  cases reply <;> simp [respOf, Reply.unlocks]

/-- A buyer's call charges what the paywall's own connection does. -/
theorem charge_eq_handle {reply : Reply} (requests : Requests payment arrival)
    (replied : (handle seller used arrival).1 = some reply) :
    charge used ⟨.httpGet url payment, .ok (respOf reply)⟩ = (handle seller used arrival).2 := by
  have named := names_of_requests requests
  have unlocks := status_respOf reply
  rw [← replied] at unlocks
  rcases handle_cases seller used arrival with ⟨txid, names, -, -, unlocked, is⟩ | ⟨-, locked, is⟩
  · rw [is]
    rw [names] at named
    obtain ⟨given, -⟩ := Option.filter_eq_some_iff.1 named.symm
    obtain ⟨txid', rfl, rfl⟩ := Option.map_eq_some_iff.1 given
    exact if_pos (unlocks.2 unlocked)
  · rw [is]
    rw [locked] at unlocks
    cases payment with
    | none => rfl
    | some txid => exact if_neg (by simpa using unlocks)

/-! ## What the buyers got, together -/

/-- The payment for which the call brought the page. -/
def bought? : Event sig → Option String
  | ⟨.httpGet _ (some txid), .ok resp⟩ => if Resp.status resp = 200 then some txid else none
  | _ => none

def bought (past : List (Event sig)) : List String := past.filterMap bought?

theorem charge_bought (used : List (List Char)) (event : Event sig) :
    charge used event = ((bought? event).map String.toList).toList ++ used := by
  unfold charge bought?
  split
  · split <;> rfl
  · rfl

theorem answered_bought {event : Event sig} {txid : String}
    (answered : Answered seller pays used event) (is : bought? event = some txid) :
    txid.toList ∉ used ∧ pays txid.toList := by
  unfold bought? at is
  split at is
  case h_2 => cases is
  case h_1 url txid' resp =>
      split at is
      case isFalse => cases is
      case isTrue ok =>
          cases is
          rcases answered_cases answered with ⟨_, ⟨⟩, fresh, covers, -⟩ | rfl
          · exact ⟨fresh, covers⟩
          · cases ok

/-- No payment bought twice. -/
structure Fair (pays : List Char → Prop) (m : Market) : Prop where
  covered : ∀ txid ∈ m.used, pays txid
  charged : ∀ i, ∀ txid ∈ bought (m.buyers i).2, txid.toList ∈ m.used
  apart : ∀ i j, i ≠ j → ∀ txid ∈ bought (m.buyers i).2, txid ∉ bought (m.buyers j).2
  once : ∀ i, (bought (m.buyers i).2).Nodup

theorem Fair.street {m : Market} (fair : Fair pays m) (trueToChain : TrueToChain seller pays arrival) :
    Fair pays { m with used := (handle seller m.used arrival).2 } where
  covered txid member := (used_handle trueToChain member).elim (fair.covered txid) id
  charged i txid member := used_subset_handle (fair.charged i txid member)
  apart := fair.apart
  once := fair.once

theorem Fair.buyer {m : Market} {i : ℕ} {event : Event sig} {w : World} (fair : Fair pays m)
    (answered : Answered seller pays m.used event) :
    Fair pays ⟨charge m.used event, Function.update m.buyers i (w, event :: (m.buyers i).2)⟩ := by
  have past : ∀ j, bought (Function.update m.buyers i (w, event :: (m.buyers i).2) j).2 =
      if j = i then (bought? event).toList ++ bought (m.buyers i).2 else bought (m.buyers j).2 := by
    intro j
    by_cases same : j = i
    · subst same
      rw [Function.update_self, if_pos rfl, bought, List.filterMap_cons]
      cases bought? event <;> rfl
    · rw [Function.update_of_ne same, if_neg same]
  rw [charge_bought]
  cases is : bought? event with
  | none =>
      have still : ∀ j, bought (Function.update m.buyers i (w, event :: (m.buyers i).2) j).2 =
          bought (m.buyers j).2 := by
        intro j
        rw [past, is]
        split
        case isTrue same => rw [same, Option.toList_none, List.nil_append]
        case isFalse => rfl
      exact ⟨fair.covered, fun j => still j ▸ fair.charged j,
        fun j k different => still j ▸ still k ▸ fair.apart j k different,
        fun j => still j ▸ fair.once j⟩
  | some txid =>
      obtain ⟨fresh, covers⟩ := answered_bought answered is
      rw [is] at past
      have new : ∀ j, txid ∉ bought (m.buyers j).2 := fun j member => fresh (fair.charged j txid member)
      -- whoever holds a payment now held it before, or is `i` with this one
      have held : ∀ j, ∀ t ∈ bought (Function.update m.buyers i (w, event :: (m.buyers i).2) j).2,
          t ∈ bought (m.buyers j).2 ∨ (j = i ∧ t = txid) := by
        intro j t member
        rw [past] at member
        split at member
        case isTrue same =>
            subst same
            rcases List.mem_append.1 member with first | earlier
            · exact .inr ⟨rfl, List.mem_singleton.1 first⟩
            · exact .inl earlier
        case isFalse => exact .inl member
      refine ⟨fun t member => ?_, fun j t member => ?_, fun j k different t member member' => ?_,
        fun j => ?_⟩
      · rcases List.mem_append.1 member with first | earlier
        · exact List.mem_singleton.1 first ▸ covers
        · exact fair.covered t earlier
      · rcases held j t member with earlier | ⟨-, rfl⟩
        · exact List.mem_append_right _ (fair.charged j t earlier)
        · exact List.mem_append_left _ (List.mem_singleton_self _)
      · rcases held j t member with earlier | ⟨rfl, rfl⟩
        · rcases held k t member' with earlier' | ⟨rfl, rfl⟩
          · exact fair.apart j k different t earlier earlier'
          · exact new j earlier
        · rcases held k t member' with earlier' | ⟨rfl, -⟩
          · exact new k earlier'
          · exact different rfl
      · rw [past]
        split
        case isTrue same => exact List.nodup_cons.2 ⟨new i, fair.once i⟩
        case isFalse => exact fair.once j

theorem fair_reached {orders : ℕ → Order} {n : ℕ} {arrivals : List Arrival} {m m' : Market}
    (start : Fair pays m)
    (reaches : Pool.Reaches (market hosts seller pays) (crowd hosts orders n arrivals) m m') :
    Fair pays m' := by
  refine Pool.always start (fun i m op answer allowed fair => ?_) reaches
  cases op with
  | inl op => exact fair.buyer allowed.2
  | inr arrival => exact fair.street allowed.1

end Paywall

/-! ## One buyer alone -/

section Buyer

variable {host : Host} {seller : Seller} {pays : List Char → Prop} {led : Handle} {url : String}
  {maxSats : ℕ} {w : World} {s : Journal}

/-- A buyer's own view of the market. -/
def visited (host : Host) (seller : Seller) (pays : List Char → Prop) : Interp sig Journal :=
  (interp host).recorded.restrict fun _ op answer =>
    ∃ used, Answered seller pays used ⟨op, answer⟩

/-- Every answer on record is one of the paywall's. -/
def Honoured (seller : Seller) (pays : List Char → Prop) (s : Journal) : Prop :=
  ∀ event ∈ s.2, ∃ used, Answered seller pays used event

theorem honoured_reach {p : Prog FetchOut} (cut : Reach (visited host seller pays) p (w, []) s) :
    Honoured seller pays s := by
  have keeps : Keeps (visited host seller pays) (fun _ _ _ => True) (Honoured seller pays) := by
    intro s op answer allowed _ honoured event member
    rcases List.mem_cons.1 member with rfl | earlier
    · exact allowed.2
    · exact honoured event earlier
  exact wp_reach keeps (by simp [Honoured]) (wp_always keeps (by simp [Honoured])) cut

/-- The terms that a buyer has a warrant for are the paywall's. -/
theorem Warrant.quoted_here {terms : Terms} (warrant : Warrant host led url maxSats w s.2 terms)
    (honoured : Honoured seller pays s)
    (reads : host.parseTerms (termsBody (quote seller)) = .ok (quote seller)) :
    terms = quote seller := by
  obtain ⟨body, first, parsed⟩ := warrant.quoted
  obtain ⟨used, answered⟩ := honoured _ (List.mem_of_getLast? first)
  rcases answered_cases answered with ⟨_, named, -⟩ | is
  · cases named
  · cases is
    exact Except.ok.inj (parsed.symm.trans reads)

/-- The page comes with the last call, for the payment that the result names and that was
recorded last. -/
def Delivered (url : String) (result : Except Error FetchOut) (s : Journal) : Prop :=
  ∀ out, result = .ok out → out.status = 200 ∧
    (∃ before, s.2 = ⟨.httpGet url (out.paid.map Prod.fst), .ok ⟨200, out.body⟩⟩ :: before) ∧
      ∀ txid sats, out.paid = some (txid, sats) →
        ∃ seq payee sentAt, lastSent s.2 = some (.sent seq txid sats payee .pending sentAt)

theorem delivered_error {e : Error} : Delivered url (.error e) s := by
  intro out is
  cases is

theorem wp_delivered_retry {seq sats sentAt left : ℕ} {txid payee : String}
    (sent : lastSent s.2 = some (.sent seq txid sats payee .pending sentAt)) :
    wp (interp host).recorded (fun _ _ _ => True) (Delivered url)
      (retryPaid url txid sats left) s := by
  induction left generalizing s with
  | zero => exact delivered_error
  | succ left ih =>
      refine wp_bind.2 ?_
      rintro (e | ⟨status, body⟩) - <;> refine ⟨trivial, ?_⟩
      · exact delivered_error
      · refine bindPost_ok.2 ?_
        split
        case isTrue ok =>
            obtain rfl : status = 200 := ok
            intro out is
            cases is
            refine ⟨rfl, ⟨_, rfl⟩, fun txid' sats' named => ?_⟩
            cases named
            exact ⟨seq, payee, sentAt, sent⟩
        case isFalse => exact ih sent

theorem wp_delivered :
    wp (interp host).recorded (fun _ _ _ => True) (Delivered url)
      (fetch host led url maxSats) (w, []) := by
  unfold fetch
  split
  · exact delivered_error
  refine wp_bind.2 ?_
  rintro (e | ⟨status, body⟩) - <;> refine ⟨trivial, ?_⟩
  · exact delivered_error
  refine bindPost_ok.2 ?_
  split
  case isTrue ok =>
      obtain rfl : status = 200 := ok
      intro out is
      cases is
      exact ⟨rfl, ⟨_, rfl⟩, nofun⟩
  split
  · exact delivered_error
  refine wp_bind.2 (wp_ofExcept.2 ?_)
  cases host.parseTerms body with
  | error e => exact delivered_error
  | ok terms =>
      refine bindPost_ok.2 (wp_bind.2 (wp_ofExcept.2 ?_))
      cases checkTerms terms maxSats host.network.label (host.network = .bitcoin) with
      | error e => exact delivered_error
      | ok _ =>
          refine bindPost_ok.2 (wp_bind.2 (wp_gated_journal (fun _ _ _ _ => trivial) ?_
            fun now passed => ?_))
          · intro e s _
            exact delivered_error
          · refine wp_mono (wp_spSend_ends (fun _ _ _ _ => trivial) rfl
              (fun _ _ _ _ _ _ _ _ => trivial) fun _ _ _ _ _ => trivial) ?_
            rintro (e | txid) s ends
            · exact delivered_error
            · obtain ⟨seq, sentAt, sent, -⟩ := ends
              exact wp_delivered_retry sent

/-- What a fetch leaves on its own ledger, wherever it is cut: one payment at most, at the
price, to the seller. -/
def PaidOnce (seller : Seller) (w w' : World) : Prop :=
  ∃ added, w'.ledger = w.ledger ++ added ∧ (added.filter Entry.isSent).length ≤ 1 ∧
    ∀ e ∈ added, e.isSent → ∃ seq txid sentAt,
      e = .sent seq txid seller.priceSats seller.spCode .pending sentAt

theorem paidOnce_of_reach
    (reads : host.parseTerms (termsBody (quote seller)) = .ok (quote seller))
    (cut : Reach (visited host seller pays) (fetch host led url maxSats) (w, []) s) :
    PaidOnce seller w s.1 := by
  have honoured := honoured_reach cut
  obtain ⟨added, is, once, holds⟩ :=
    wp_reach keeps_pays (once_start _ w) wp_fetch_ends cut.unrestricted
  refine ⟨added, is, once, fun e member sent => ?_⟩
  obtain ⟨terms, seq, txid, sentAt, warrant, rfl⟩ := holds e member sent
  obtain rfl := Warrant.quoted_here warrant honoured reads
  exact ⟨seq, txid, sentAt, rfl⟩

/-- A fetch that returns from the paywall has bought the page. -/
theorem bought_of_exec {out : FetchOut}
    (reads : host.parseTerms (termsBody (quote seller)) = .ok (quote seller))
    (run : Exec (visited host seller pays) (fetch host led url maxSats) (w, []) (.ok out) s) :
    ∃ seq txid sentAt, out = ⟨200, seller.body, some (txid, seller.priceSats)⟩ ∧
      txid ∈ bought s.2 ∧
        .sent seq txid seller.priceSats seller.spCode .pending sentAt ∈ s.1.ledger := by
  have honoured := honoured_reach run.reach
  obtain ⟨ok, ⟨before, last⟩, named⟩ := wp_exec wp_delivered run.unrestricted out rfl
  obtain ⟨used, answered⟩ := honoured _ (last ▸ List.mem_cons_self ..)
  rcases answered_cases answered with ⟨txid, paid, -, -, page⟩ | is
  swap
  · cases is
  obtain ⟨⟨txid', sats⟩, is, rfl⟩ := Option.map_eq_some_iff.1 paid
  obtain ⟨seq, payee, sentAt, sent⟩ := named txid' sats is
  -- the line on record is on file, and it is the seller's
  have posted : Posted w s := wp_exec (wp_always (keeps_posted w)
    ⟨[], (List.append_nil _).symm, rfl⟩) run.unrestricted
  obtain ⟨added, grown, agree⟩ := posted
  have member : Entry.sent seq txid' sats payee .pending sentAt ∈ added := by
    obtain ⟨event, recorded, line⟩ := List.exists_of_findSome?_eq_some sent
    have listed : Entry.sent seq txid' sats payee .pending sentAt ∈ added.filter Entry.isSent := by
      rw [agree, List.mem_reverse]
      exact List.mem_filterMap.2 ⟨event, recorded, line⟩
    exact List.mem_of_mem_filter listed
  obtain ⟨added', grown', -, holds⟩ := paidOnce_of_reach reads run.reach
  obtain rfl : added' = added := List.append_cancel_left (grown'.symm.trans grown)
  obtain ⟨_, _, _, line⟩ := holds _ member rfl
  cases line
  refine ⟨seq, txid', sentAt, ?_, ?_, ?_⟩
  · obtain ⟨status, body, paid⟩ := out
    cases ok
    cases page
    cases is
    rfl
  · rw [last, is]
    exact List.mem_filterMap.2 ⟨_, List.mem_cons_self .., rfl⟩
  · rw [grown]
    exact List.mem_append_right _ member

end Buyer

/-! ## One buyer in the crowd -/

section Crowd

variable {hosts : ℕ → Host} {orders : ℕ → Order} {seller : Seller} {pays : List Char → Prop}
  {n i : ℕ} {arrivals : List Arrival} {m m' : Market} {w : ℕ → World}
  {pool' : Pool (sig.sum street) Error FetchOut}

/-- A buyer's own view, of calls that only the street makes as well. -/
def seen (host : Host) (seller : Seller) (pays : List Char → Prop) :
    Interp (sig.sum street) Journal where
  allowed s op := match op with
    | .inl op => (visited host seller pays).allowed s op
    | .inr _ => fun _ => True
  next s op := match op with
    | .inl op => (visited host seller pays).next s op
    | .inr _ => fun _ => s

theorem crowd_member (isBuyer : i < n) :
    (crowd hosts orders n arrivals)[i]? = some ((orders i).buy (hosts i)).lift := by
  have short : i < ((List.range n).map fun i =>
      (((orders i).buy (hosts i)).lift : Program (sig.sum street) Error FetchOut)).length := by
    simpa using isBuyer
  rw [crowd, List.getElem?_append_left short]
  simp [isBuyer]

theorem leads_of_crowd (isBuyer : i < n)
    (steps : Relation.ReflTransGen (Pool.Step (market hosts seller pays))
      (crowd hosts orders n arrivals, m) (pool', m')) :
    ∃ p' : Prog FetchOut, pool'[i]? = some p'.lift ∧
      Leads (visited (hosts i) seller pays) ((orders i).buy (hosts i)) (m.buyers i) p'
        (m'.buyers i) := by
  have view := Pool.project (J := seen (hosts i) seller pays)
    (fun m : Market => m.buyers i) i ?_ ?_ (crowd_member isBuyer) steps
  · obtain ⟨q', left, leads⟩ := view
    obtain ⟨p', rfl, alone⟩ := leads.unlifted
    exact ⟨p', left, alone⟩
  · intro m op answer allowed
    cases op with
    | inl op => exact ⟨⟨allowed.1, m.used, allowed.2⟩, Function.update_self ..⟩
    | inr arrival => exact ⟨trivial, rfl⟩
  · intro j m op answer _ different _
    cases op with
    | inl op => exact Function.update_of_ne (Ne.symm different) ..
    | inr arrival => rfl

end Crowd

/-! ## Two buyers of one page -/

/-- What buyer 0, and any other, pays with. -/
def paymentOf : ℕ → String
  | 0 => sampleTxid
  | _ => "0e3e2357e806b6cdb1f70b54c3a3a17b6714ee1f0e68bebb44a74b1efd512098"

/-- The transactions of both pay the seller. -/
def pageSeller : Seller where
  host := { shopHost with txMatches := fun _ => [⟨0, 1000, []⟩] }
  priceSats := 1000
  body := "the page"
  spCode := shopCode

def paidHere (text : List Char) : Prop := text = (paymentOf 0).toList ∨ text = (paymentOf 1).toList

def visit (payment : Option String) : Arrival where
  stream := .ok ("GET /page HTTP/1.1\r\n".toList ++
    (payment.elim [] fun txid => "X-Payment: ".toList ++ txid.toList ++ "\r\n".toList) ++
    "\r\n".toList)
  chain text :=
    if text = (paymentOf 0).toList then .ok ⟨paymentOf 0, [], []⟩
    else if text = (paymentOf 1).toList then .ok ⟨paymentOf 1, [], []⟩
    else .error "status code 404"

theorem visit_honest (payment : Option String) : TrueToChain pageSeller paidHere (visit payment) := by
  intro txid covers
  by_cases first : txid = (paymentOf 0).toList
  · exact .inl first
  by_cases second : txid = (paymentOf 1).toList
  · exact .inr second
  have unknown : (visit payment).chain txid = .error "status code 404" := by
    simp [visit, first, second]
  unfold Arrival.covers txPaysMe at covers
  rw [unknown] at covers
  cases covers

/-- The wallets of the two, each with its own coins. -/
def purse (i : ℕ) : Script :=
  { Script.silent with
    now := 1700000000
    finish := fun _ => .ok ⟨paymentOf i, 141, [], sampleAddress⟩ }

/-- The paywall answers those it knows; other requests do not get through. -/
def pageFor (used : List (List Char)) (payment : Option String) : Except Error Resp :=
  if payment ∈ [none, some (paymentOf 0), some (paymentOf 1)] then
    match (handle pageSeller used (visit payment)).1 with
    | some reply => .ok (respOf reply)
    | none => .error "connection reset"
  else .error "connection reset"

def marketAnswer (i : ℕ) (m : Market) : (op : (sig.sum street).Op) → (sig.sum street).Ans op
  | .inl (.httpGet _ payment) => pageFor m.used payment
  | .inl op => (purse i).answer shopHost (m.buyers i).1 op
  | .inr arrival => (handle pageSeller m.used arrival).1

def marketHandle (i : ℕ) (op : (sig.sum street).Op) (m : Market) :
    (sig.sum street).Ans op × Market :=
  (marketAnswer i m op, (market (fun _ => shopHost) pageSeller paidHere i).next m op
    (marketAnswer i m op))

/-- Nobody comes from the street. -/
def closedShop (_ : ℕ) (op : (sig.sum street).Op) (_ : Market) : Bool := op.isLeft

theorem visit_requests {payment : Option String}
    (known : payment ∈ [none, some (paymentOf 0), some (paymentOf 1)]) :
    Requests payment (visit payment) := by
  refine ⟨_, rfl, ?_⟩
  simp only [List.mem_cons, List.not_mem_nil, or_false] at known
  rcases known with rfl | rfl | rfl <;> decide +kernel

theorem marketAnswer_allowed (i : ℕ) (op : (sig.sum street).Op) (m : Market)
    (open' : closedShop i op m) :
    (market (fun _ => shopHost) pageSeller paidHere i).allowed m op (marketAnswer i m op) := by
  cases op with
  | inr arrival => cases open'
  | inl op =>
      cases op with
      | httpGet url payment =>
          refine ⟨trivial, ?_⟩
          show Answered pageSeller paidHere m.used ⟨.httpGet url payment, pageFor m.used payment⟩
          unfold pageFor
          split
          case isFalse => trivial
          case isTrue known =>
              split
              case h_1 reply replied =>
                  exact ⟨visit payment, reply, visit_requests known, visit_honest payment,
                    replied, rfl⟩
              case h_2 => trivial
      | _ => exact ⟨(purse i).allowed shopHost (m.buyers i).1 _, trivial⟩

/-- What a member of the pool has returned. -/
def returned? (pool : Pool (sig.sum street) Error FetchOut) (i : ℕ) : Option FetchOut :=
  match pool[i]? with
  | some (.pure out) => some out
  | _ => none

theorem pure_of_returned {pool : Pool (sig.sum street) Error FetchOut} {i : ℕ} {out : FetchOut}
    (returned : returned? pool i = some out) : pool[i]? = some (.pure out) := by
  unfold returned? at returned
  split at returned
  case h_1 is => rw [is, Option.some.inj returned]
  case h_2 => cases returned

theorem page_reads :
    shopHost.parseTerms (termsBody (quote pageSeller)) = .ok (quote pageSeller) := by
  have body : termsBody (quote pageSeller) = shopBody := by decide +kernel
  have parse : ∀ text, shopHost.parseTerms text = if text = shopBody then .ok shopTerms else
      .error "expected value at line 1 column 1" := fun _ => rfl
  rw [parse, if_pos body]
  rfl

def pageOrder (_ : ℕ) : Order := ⟨0, shopUrl, 5000⟩

/-- The two take turns. -/
def soldOut : Pool (sig.sum street) Error FetchOut × Market :=
  Pool.drive closedShop marketHandle (List.replicate 40 [0, 1]).flatten
    (crowd (fun _ => shopHost) pageOrder 2 []) ⟨[], fun _ => (World.blank, [])⟩

theorem soldOut_returned :
    returned? soldOut.1 0 = some ⟨200, "the page", some (paymentOf 0, 1000)⟩ ∧
      returned? soldOut.1 1 = some ⟨200, "the page", some (paymentOf 1, 1000)⟩ := by
  decide +kernel

end Exchange

open Exchange

/-- **The exchange is fair.**  Whatever the interleaving, whoever else presents payments, and
wherever it is looked at: each buyer has paid at most once, and then the price to the seller's
code; each buyer that has the page has paid for it, with a transaction that covers the price;
and no two of them have it for the same transaction. -/
theorem exchange_settles (hosts : ℕ → Host) (orders : ℕ → Order) (seller : Seller)
    (pays : List Char → Prop) (n : ℕ) (arrivals : List Arrival) (w : ℕ → World)
    (used : List (List Char)) (covered : ∀ txid ∈ used, pays txid)
    (reads : ∀ i < n, (hosts i).parseTerms (termsBody (quote seller)) = .ok (quote seller))
    {pool' : Pool (sig.sum street) Error FetchOut} {m' : Market}
    (steps : Relation.ReflTransGen (Pool.Step (market hosts seller pays))
      (crowd hosts orders n arrivals, ⟨used, fun i => (w i, [])⟩) (pool', m')) :
    (∀ i < n, PaidOnce seller (w i) (m'.buyers i).1) ∧
    (∀ i < n, ∀ out, pool'[i]? = some (.pure out) → ∃ seq txid sentAt,
      out = ⟨200, seller.body, some (txid, seller.priceSats)⟩ ∧ pays txid.toList ∧
        .sent seq txid seller.priceSats seller.spCode .pending sentAt ∈ (m'.buyers i).1.ledger) ∧
    ∀ i < n, ∀ j < n, i ≠ j → ∀ out out', pool'[i]? = some (.pure out) →
      pool'[j]? = some (.pure out') → out.paid ≠ out'.paid := by
  have fair : Fair pays m' :=
    fair_reached ⟨covered, by simp [bought], by simp [bought], by simp [bought]⟩ ⟨pool', steps⟩
  have settled : ∀ i < n, ∀ out, pool'[i]? = some (.pure out) → ∃ seq txid sentAt,
      out = ⟨200, seller.body, some (txid, seller.priceSats)⟩ ∧ txid ∈ bought (m'.buyers i).2 ∧
        .sent seq txid seller.priceSats seller.spCode .pending sentAt ∈ (m'.buyers i).1.ledger := by
    intro i isBuyer out ended
    obtain ⟨p', left, leads⟩ := leads_of_crowd isBuyer steps
    rw [left] at ended
    cases p' with
    | pure value =>
        cases ended
        exact bought_of_exec (reads i isBuyer) leads.exec
    | throw e => cases ended
    | call op next => cases ended
  refine ⟨fun i isBuyer => ?_, fun i isBuyer out ended => ?_, ?_⟩
  · obtain ⟨p', -, leads⟩ := leads_of_crowd isBuyer steps
    exact paidOnce_of_reach (reads i isBuyer) leads.reach
  · obtain ⟨seq, txid, sentAt, is, got, onFile⟩ := settled i isBuyer out ended
    exact ⟨seq, txid, sentAt, is, fair.covered _ (fair.charged i txid got), onFile⟩
  · intro i isBuyer j isBuyer' different out out' ended ended' same
    obtain ⟨-, txid, -, rfl, got, -⟩ := settled i isBuyer out ended
    obtain ⟨-, txid', -, rfl, got', -⟩ := settled j isBuyer' out' ended'
    cases same
    exact fair.apart i j different txid got got'

theorem exchange_settles_two :
    (∀ i < 2, PaidOnce pageSeller World.blank (soldOut.2.buyers i).1) ∧ paidHere (paymentOf 0).toList ∧
      paidHere (paymentOf 1).toList := by
  have steps : Relation.ReflTransGen
      (Pool.Step (market (fun _ => shopHost) pageSeller paidHere))
      (crowd (fun _ => shopHost) pageOrder 2 [], ⟨[], fun _ => (World.blank, [])⟩)
      soldOut :=
    Pool.drive_steps closedShop marketHandle marketAnswer_allowed (fun _ _ _ => rfl) _ _ _
  have returned := soldOut_returned
  generalize soldOut = ended at steps returned ⊢
  obtain ⟨pool', m'⟩ := ended
  obtain ⟨once, bought, -⟩ := exchange_settles (fun _ => shopHost) pageOrder pageSeller paidHere 2 []
    (fun _ => World.blank) [] (by simp) (fun _ _ => page_reads) steps
  obtain ⟨-, txid, -, is, paid, -⟩ := bought 0 (by decide) _ (pure_of_returned returned.1)
  obtain ⟨-, txid', -, is', paid', -⟩ := bought 1 (by decide) _ (pure_of_returned returned.2)
  cases is
  cases is'
  exact ⟨once, paid, paid'⟩

end ComputerMoney.Safety
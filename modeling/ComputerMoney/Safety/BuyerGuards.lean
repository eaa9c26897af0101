/-
# Safety.BuyerGuards -- what a server can make a buyer do

A `fetch` against a server that answers as it likes.  Before the one `sent` line it can put
on disk, the first answer has been read as terms and every guard has passed (`Warrant`); the
answers that come after the payment cannot bring about another.

What the buyer says afterwards is weaker than it should be.  The text at the end of the
retries names the payment, but every `?` between the `sent` line and that text lets the
error of a call through as it is, and a paid request that fails is the last one, however many
retries are left: `fetch_names_payment` says when the payment is named and every retry is
used.
-/
import ComputerMoney.Kernel.Purchase
import ComputerMoney.Safety.SpCodes

namespace ComputerMoney.Safety

set_option autoImplicit false

open Theory Theory.Program Kernel

/-- What stands on record before a `sent` line for `terms`: the first answer was a 402 with
these terms, they are for this wallet, and the price is within every bound. -/
structure Warrant (host : Host) (led : Handle) (url : String) (maxSats : ℕ) (w : World)
    (past : List (Event sig)) (terms : Terms) : Prop where
  quoted : ∃ body, past.getLast? = some ⟨.httpGet url none, .ok ⟨402, body⟩⟩ ∧
    host.parseTerms body = .ok terms
  version : terms.cm402 = 1
  network : terms.network = host.network.label
  code : ∃ scan spend, decode host terms.payTo = .ok (scan, spend, host.network)
  floor : 330 ≤ terms.sats
  cap : terms.sats ≤ maxSats
  window : ∃ now, firstNow past = some now ∧ AmountPassed host w led terms.sats now

/-- The entry is the payment of such terms. -/
def Pays (host : Host) (led : Handle) (url : String) (maxSats : ℕ) (w : World)
    (past : List (Event sig)) (e : Entry) : Prop :=
  ∃ terms seq txid sentAt, Warrant host led url maxSats w past terms ∧
    e = .sent seq txid terms.sats terms.payTo .pending sentAt

/-- A `sent` line is appended to the ledger the call began with, and has its warrant. -/
def Buys (host : Host) (led : Handle) (url : String) (maxSats : ℕ) (w : World) :
    Guarantee sig Journal := fun s op _ => match op with
  | .append _ e => e.isSent → s.1.ledger = w.ledger ∧ Pays host led url maxSats w s.2 e
  | _ => True

section Guards

variable {host : Host} {led : Handle} {url : String} {maxSats : ℕ} {w : World}

theorem Warrant.suffix {past past' : List (Event sig)} {terms : Terms} (grown : past <:+ past')
    (warrant : Warrant host led url maxSats w past terms) :
    Warrant host led url maxSats w past' terms := by
  obtain ⟨body, first, parsed⟩ := warrant.quoted
  obtain ⟨now, known, passed⟩ := warrant.window
  exact { warrant with
    quoted := ⟨body, getLast?_suffix grown first, parsed⟩
    window := ⟨now, firstNow_suffix grown known, passed⟩ }

theorem Pays.suffix {past past' : List (Event sig)} {e : Entry} (grown : past <:+ past')
    (pays : Pays host led url maxSats w past e) : Pays host led url maxSats w past' e := by
  obtain ⟨terms, seq, txid, sentAt, warrant, rfl⟩ := pays
  exact ⟨terms, seq, txid, sentAt, warrant.suffix grown, rfl⟩

theorem keeps_pays :
    Keeps (interp host).recorded (Buys host led url maxSats w)
      (Once (Pays host led url maxSats w) w) :=
  keeps_once Pays.suffix fun _ _ _ _ promised => promised

/-! ## The fetch -/

/-- The result names the payment. -/
def Names (txid : String) (sats : ℕ) : Except Error FetchOut → Prop
  | .ok out => out.paid = some (txid, sats)
  | .error error => Text.contains error.toList txid.toList = true

/-- A request that carries a txid as proof. -/
def Op.paidGet : Op → Bool
  | .httpGet _ (some _) => true
  | _ => false

/-- How many paid requests were made. -/
def paidGets (past : List (Event sig)) : ℕ := past.countP fun event => Op.paidGet event.1

/-- Each paid request was answered, with another status than 200. -/
def Unserved (past : List (Event sig)) : Prop :=
  ∀ url txid answer, (⟨.httpGet url (some txid), answer⟩ : Event sig) ∈ past →
    ∃ retry : Resp, answer = .ok retry ∧ retry.status ≠ 200

/-- A paid request that fails is one of the retries: unless a paid request is answered 200,
they are all made. -/
def Retried (past : List (Event sig)) : Prop :=
  ∀ url txid error, (⟨.httpGet url (some txid), .error error⟩ : Event sig) ∈ past →
    paidGets past = retries ∨ ∃ url txid body,
      (⟨.httpGet url (some txid), .ok ⟨200, body⟩⟩ : Event sig) ∈ past

/-- The paid requests of a fetch that pays: one at least, no more than there are retries, and
all of these if the page was not served. -/
structure Tried (result : Except Error FetchOut) (past : List (Event sig)) : Prop where
  some : 1 ≤ paidGets past
  few : paidGets past ≤ retries
  all : ∀ error, result = .error error → paidGets past = retries

theorem unserved_of_none {past : List (Event sig)} (none : paidGets past = 0) : Unserved past := by
  intro url txid answer made
  exact absurd rfl (List.countP_eq_zero.1 none _ made)

theorem failed_paidGet {event : Event sig} {error : Error} (isGet : Op.paidGet event.1 = true)
    (failed : failure? event = some error) :
    ∃ url txid, event = ⟨.httpGet url (some txid), .error error⟩ := by
  obtain ⟨op, answer⟩ := event
  cases op with
  | httpGet url payment =>
      rcases payment with _ | txid
      · cases isGet
      rcases answer with error' | retry
      · cases failed
        exact ⟨url, txid, rfl⟩
      · cases failed
  | _ => cases isGet

/-- How a fetch ends: nothing paid; or the payment named, every retry used or the page
served; or in the error of its last call. -/
def FetchEnds (result : Except Error FetchOut) (s : Journal) : Prop :=
  lastSent s.2 = none ∨
    (∃ seq txid sats payee sentAt,
      lastSent s.2 = some (.sent seq txid sats payee .pending sentAt) ∧ Names txid sats result ∧
        Tried result s.2) ∨
    ∃ error last before, result = .error error ∧ s.2 = last :: before ∧
      failure? last = some error ∧ Unserved before

theorem buys_idle (s : Journal) (op : Op) (answer : op.Ans) (idle : op.idle) :
    Buys host led url maxSats w s op answer := by
  cases op with
  | append led e => exact idle.elim
  | _ => trivial

/-- The paid retries: each either ends the call, and then names the payment or fails, or
leaves the rest to the ones after it. -/
theorem wp_retryPaid {seq sats sentAt left : ℕ} {txid payee : String} {s : Journal}
    (sent : lastSent s.2 = some (.sent seq txid sats payee .pending sentAt))
    (unserved : Unserved s.2) (rest : paidGets s.2 + left = retries) :
    wp (interp host).recorded (Buys host led url maxSats w) FetchEnds
      (retryPaid url txid sats left) s := by
  induction left generalizing s with
  | zero =>
      have all : paidGets s.2 = retries := rest
      refine .inr (.inl ⟨seq, txid, sats, payee, sentAt, sent, ?_, ?_⟩)
      · refine Text.contains_of_infix ⟨("paid " ++ toString sats ++ " sats (txid ").toList,
          (") but " ++ url ++ " still returned 402 after " ++ toString retries ++
            " retries").toList, ?_⟩
        simp only [String.toList_append, List.append_assoc]
      · exact ⟨all ▸ Nat.le_of_ble_eq_true rfl, Nat.le_of_eq all, fun _ _ => all⟩
  | succ left ih =>
      refine wp_bind.2 ?_
      rintro (error | retry) - <;> refine ⟨trivial, ?_⟩
      · exact .inr (.inr ⟨error, _, _, rfl, rfl, rfl, unserved⟩)
      have counted : paidGets (⟨.httpGet url (some txid), .ok retry⟩ :: s.2) = paidGets s.2 + 1 :=
        List.countP_cons_of_pos rfl
      refine bindPost_ok.2 ?_
      split
      · refine .inr (.inl ⟨seq, txid, sats, payee, sentAt, sent, rfl, ?_, ?_, nofun⟩)
        · exact counted.symm ▸ Nat.le_add_left 1 _
        · show paidGets (⟨.httpGet url (some txid), .ok retry⟩ :: s.2) ≤ retries
          omega
      · rename_i refused
        refine ih sent ?_ ?_
        · intro url' txid' answer made
          rcases List.mem_cons.1 made with new | before
          · cases new
            exact ⟨retry, rfl, refused⟩
          · exact unserved url' txid' answer before
        · show paidGets (⟨.httpGet url (some txid), .ok retry⟩ :: s.2) + left = retries
          omega

/-- Nothing before the retries is a paid request. -/
theorem wp_gated_unpaid {terms : Terms} {s : Journal} (none : paidGets s.2 = 0) :
    wp (interp host).recorded (fun _ _ _ => True) (fun _ s' => paidGets s'.2 = 0)
      (gated led terms.payTo terms.sats fun maxFeeSats =>
        spSend host led terms.payTo terms.sats maxFeeSats) s := by
  have sends : ∀ maxFeeSats, (spSend host led terms.payTo terms.sats maxFeeSats).Within
      fun op => Op.paidGet op = false := by
    intro maxFeeSats
    apply within_spSend
    all_goals intros; rfl
  have within : (gated led terms.payTo terms.sats fun maxFeeSats =>
      spSend host led terms.payTo terms.sats maxFeeSats).Within fun op => Op.paidGet op = false :=
    within_gated rfl rfl rfl sends
  refine wp_preserves within none ?_
  intro s op answer unpaid none _
  have kept : paidGets (⟨op, answer⟩ :: s.2) = paidGets s.2 :=
    List.countP_cons_of_neg (by simp [unpaid])
  exact ⟨trivial, kept.trans none⟩

theorem wp_fetch_ends :
    wp (interp host).recorded (Buys host led url maxSats w) FetchEnds
      (fetch host led url maxSats) (w, []) := by
  unfold fetch
  split
  · exact .inl rfl
  refine wp_bind.2 ?_
  rintro (error | first) - <;> refine ⟨trivial, ?_⟩
  · exact .inl rfl
  refine bindPost_ok.2 ?_
  split
  · exact .inl rfl
  split
  · exact .inl rfl
  rename_i quoted
  obtain ⟨status, body⟩ := first
  obtain rfl : status = 402 := not_not.1 quoted
  refine wp_bind.2 (wp_ofExcept.2 ?_)
  rcases parsed : host.parseTerms body with error | terms
  · exact .inl rfl
  refine bindPost_ok.2 (wp_bind.2 (wp_ofExcept.2 ?_))
  rcases accepted : checkTerms terms maxSats host.network.label (host.network = .bitcoin) with
    error | ⟨⟩
  · exact .inl rfl
  obtain ⟨version, network, -, cap⟩ := checkTerms_ok.1 accepted
  have sends : wp (interp host).recorded (Buys host led url maxSats w)
      (SendEnds terms.sats terms.payTo) (gated led terms.payTo terms.sats fun maxFeeSats =>
        spSend host led terms.payTo terms.sats maxFeeSats)
      (w, [⟨.httpGet url none, .ok ⟨402, body⟩⟩]) := by
    refine wp_gated_journal buys_idle (fun error s' idle => .inl idle.sent) fun now passed => ?_
    refine wp_spSend_ends buys_idle rfl ?_ ?_
    · rintro floor code s' seq txid sentAt answer idle -
      refine ⟨idle.ledger, terms, seq, txid, sentAt, Warrant.suffix idle.past ?_, rfl⟩
      exact ⟨⟨body, rfl, parsed⟩, version, network, code, floor, cap, now, rfl, passed⟩
    · rintro s seq t vout answer ⟨⟩
  refine bindPost_ok.2 (wp_bind.2 (wp_mono (wp_weaken (fun _ _ _ promised => promised.1)
    (wp_and sends (wp_gated_unpaid rfl))) ?_))
  rintro (error | txid) s ⟨ends, unpaid⟩
  · rcases ends with unsent | ⟨last, before, is, failed⟩
    · exact .inl unsent
    · refine .inr (.inr ⟨error, last, before, rfl, is, failed, unserved_of_none ?_⟩)
      rw [is] at unpaid
      exact Nat.le_zero.1 (unpaid ▸ (List.sublist_cons_self ..).countP_le)
  · obtain ⟨seq, sentAt, sent, -⟩ := ends
    exact wp_retryPaid sent (unserved_of_none unpaid) (by rw [unpaid, Nat.zero_add])

/-- **Buyer guards.**  Whatever the server answers, before and after the payment, one fetch
adds one `sent` entry at most, and only for terms it has a warrant for: at their price, to
their code. -/
theorem buyer_guards {s : Journal}
    (reached : Reach (interp host).recorded (fetch host led url maxSats) (w, []) s) :
    ∃ added, s.1.ledger = w.ledger ++ added ∧ (added.filter Entry.isSent).length ≤ 1 ∧
      ∀ e ∈ added, e.isSent → ∃ terms seq txid sentAt,
        Warrant host led url maxSats w s.2 terms ∧
          e = .sent seq txid terms.sats terms.payTo .pending sentAt := by
  have once : Once (Pays host led url maxSats w) w s :=
    wp_reach keeps_pays (once_start _ w) wp_fetch_ends reached
  exact once

/-- **The payment is named, and every retry is used, where no call fails.**  A fetch that has
added a `sent` entry ends in a result that names its txid, after as many paid requests as
there are retries or a page that was served, if no call of it fails.  (A call that fails
before the entry is on disk leaves no entry.)  Where a call fails it is so by accident alone:
the text of that error happens to contain the txid, and a paid request that failed was the
last of the retries. -/
theorem fetch_names_payment {s : Journal} {result : Except Error FetchOut} {added : List Entry}
    {seq sats sentAt : ℕ} {txid payee : String} {status : Status}
    (run : Exec (interp host).recorded (fetch host led url maxSats) (w, []) result s)
    (grown : s.1.ledger = w.ledger ++ added)
    (paid : .sent seq txid sats payee status sentAt ∈ added) :
    ((∀ event ∈ s.2, failure? event = none) →
      Names txid sats result ∧ Retried s.2 ∧ Tried result s.2) ∧
    (Names txid sats result → Retried s.2 → ∀ event ∈ s.2, ∀ error, failure? event = some error →
      Text.contains error.toList txid.toList = true ∧
        (Op.paidGet event.1 = true → paidGets s.2 = retries)) := by
  have posted : Posted w s := wp_exec (wp_always (keeps_posted w)
    ⟨[], (List.append_nil _).symm, rfl⟩) run
  obtain ⟨added', is, once, -⟩ := wp_reach keeps_pays (once_start _ w) wp_fetch_ends run.reach
  obtain rfl : added' = added := List.append_cancel_left (is.symm.trans grown)
  have sent := posted.lastSent grown once paid rfl
  have ends := wp_exec wp_fetch_ends run
  constructor
  · intro calm
    have retried : Retried s.2 := fun url txid error made => nomatch calm _ made
    rcases ends with unsent | ⟨_, _, _, _, _, sent', named, tried⟩ | ⟨error, last, before, -, made, failed, -⟩
    · cases sent.symm.trans unsent
    · cases sent.symm.trans sent'
      exact ⟨named, retried, tried⟩
    · cases (calm last (made ▸ List.mem_cons_self ..)).symm.trans failed
  · intro named retried event made error failed
    obtain rfl := (propagates_fetch.exec run made).resolve_left nofun error failed
    refine ⟨named, fun isGet => ?_⟩
    rcases ends with unsent | ⟨_, _, _, _, _, -, -, tried⟩ | ⟨_, last, before, is', made', failed', unserved⟩
    · cases sent.symm.trans unsent
    · exact tried.all _ rfl
    · obtain ⟨url', txid', rfl⟩ := failed_paidGet isGet failed
      refine (retried _ _ _ made).resolve_right ?_
      rintro ⟨url'', txid'', body, served⟩
      rcases List.mem_cons.1 (made' ▸ served) with new | earlier
      · rw [← new] at failed'
        cases failed'
      · obtain ⟨retry, answered, refused⟩ := unserved _ _ _ earlier
        cases answered
        exact refused rfl

end Guards

/-! ## A page for 1000 sats -/

def shopUrl : String := "https://shop.example/page"

/-- The test vector of the source, as a code of mainnet. -/
def shopCode : String :=
  "sp1qqgste7k9hx0qftg6qmwlkqtwuy6cycyavzmzj85c6qdfhjdpdjtdgqjuexzk6murw56suy3e0rd2cgqvycxttddwsvgxe2usfpxumr70xc9pkqwv"

def shopBody : String :=
  "\x7b\"cm402\":1,\"sats\":1000,\"pay_to\":\"" ++ shopCode ++ "\",\"network\":\"mainnet\"\x7d"

def shopTerms : Terms := ⟨1, 1000, shopCode, "mainnet"⟩

/-- A mainnet buyer that can read the terms of this shop. -/
def shopHost : Host :=
  { codeHost .bitcoin with
    policy := ⟨some 50000, none, some 500, []⟩
    parseTerms := fun body =>
      if body = shopBody then .ok shopTerms else .error "expected value at line 1 column 1" }

/-- A shop that answers 402 to a request without proof, and `paid` to one with a txid. -/
def shopScript (paid : Except Error Resp) : Script :=
  { Script.silent with
    now := 1700000000
    finish := fun request =>
      if request.sats = 1000 then .ok ⟨sampleTxid, 141, [], sampleAddress⟩
      else .error "insufficient funds"
    page := fun _ payment => match payment with
      | none => .ok ⟨402, shopBody⟩
      | some _ => paid }

/-- The fetch, carried through. -/
def shopping (paid : Except Error Resp) : Except Error FetchOut × Journal :=
  run ((shopScript paid).record shopHost) (fetch shopHost 0 shopUrl 5000) (World.blank, [])

def shopEntry : Entry := .sent 0 sampleTxid 1000 shopCode .pending 1700000000

theorem exec_shopping (paid : Except Error Resp) :
    Exec (interp shopHost).recorded (fetch shopHost 0 shopUrl 5000) (World.blank, [])
      (shopping paid).1 (shopping paid).2 :=
  (shopScript paid).exec_recorded shopHost _ _

/-- The page is paid for, and no call fails. -/
theorem shopping_calm :
    (shopping (.ok ⟨200, "the page"⟩)).2.1.ledger = World.blank.ledger ++ [shopEntry] ∧
      (shopping (.ok ⟨200, "the page"⟩)).2.2.all fun event => (failure? event).isNone := by
  decide +kernel

theorem buyer_guards_sample :
    (shopping (.ok ⟨200, "the page"⟩)).2.1.ledger = [shopEntry] ∧
      ∃ terms : Terms, terms.cm402 = 1 ∧ terms.sats = 1000 ∧ terms.sats ≤ 5000 ∧
        terms.payTo = shopCode := by
  refine ⟨shopping_calm.1, ?_⟩
  obtain ⟨added, is, -, pays⟩ := buyer_guards (exec_shopping (.ok ⟨200, "the page"⟩)).reach
  obtain rfl : [shopEntry] = added := shopping_calm.1.symm.trans is
  obtain ⟨terms, seq, txid, sentAt, warrant, paid⟩ := pays shopEntry (List.mem_singleton_self _) rfl
  obtain ⟨-, -, sats, code, -, -⟩ := Entry.sent.inj paid
  exact ⟨terms, warrant.version, sats.symm, warrant.cap, code.symm⟩

theorem fetch_names_payment_sample :
    (shopping (.ok ⟨200, "the page"⟩)).2.1.ledger = World.blank.ledger ++ [shopEntry] ∧
      Names sampleTxid 1000 (shopping (.ok ⟨200, "the page"⟩)).1 := by
  have run := exec_shopping (.ok ⟨200, "the page"⟩)
  obtain ⟨booked, calm⟩ := shopping_calm
  revert run booked calm
  -- The run stays closed from here on.
  generalize shopping (.ok ⟨200, "the page"⟩) = bought
  intro run booked calm
  have listed : Entry.sent 0 sampleTxid 1000 shopCode .pending 1700000000 ∈ [shopEntry] :=
    List.mem_singleton_self shopEntry
  obtain ⟨named, -⟩ := (fetch_names_payment run booked listed).1 fun event made =>
    Option.isNone_iff_eq_none.1 (List.all_eq_true.1 calm event made)
  exact ⟨booked, named⟩

/-- The page is paid for, the first paid request times out, and the call ends in that error,
with four retries unused: nothing in it says that anything was paid. -/
theorem timeout_hides_payment :
    (shopping (.error "the request timed out")).2.1.ledger = World.blank.ledger ++ [shopEntry] ∧
    (shopping (.error "the request timed out")).1 = .error "the request timed out" ∧
    ¬ Names sampleTxid 1000 (shopping (.error "the request timed out")).1 ∧
    paidGets (shopping (.error "the request timed out")).2.2 = 1 := by
  obtain ⟨booked, ended, once⟩ :
      (shopping (.error "the request timed out")).2.1.ledger = World.blank.ledger ++ [shopEntry] ∧
      (shopping (.error "the request timed out")).1 = .error "the request timed out" ∧
      paidGets (shopping (.error "the request timed out")).2.2 = 1 := by
    decide +kernel
  refine ⟨booked, ended, ?_, once⟩
  rw [ended]
  show ¬ Text.contains "the request timed out".toList sampleTxid.toList = true
  decide +kernel

end ComputerMoney.Safety

/-
# Safety.Conversation -- a payer and a seller who hear only each other

One `run_payer` and one `run_receiver` at the two ends of a tunnel.  Each runs on its own
machine, call by call and in any interleaving; a message arrives late, out of order, or not at
all, but only if the other end sent it, and not more often than it was sent.  The chain is the
one they share: `shown address txid sats` says that it shows `txid` to pay `address` so much.

What the seller says is at most one address, put on file before it is said.  And what the two
files say at any moment then fits together.  Whatever the payer has recorded as sent goes to an address that the seller derived, put on file, and never gave out before this
session; whatever the seller has recorded as received in the session is on the payer's file
under the same txid, sent to the address of the index it is booked under.

Each side is verified alone, in the session that `Kernel.Net` gives it (`resolve_runPayer`,
`resolve_runReceiver`); the channel's counts put the two together.
-/
import ComputerMoney.Kernel.Wire
import ComputerMoney.Safety.PayerProtocol
import ComputerMoney.Safety.AddressIssue
import Mathlib.Data.List.Perm.Subperm

namespace ComputerMoney.Safety

set_option autoImplicit false

open Theory Theory.Program Kernel
open Kernel.Wire (wireSig Party messages)

namespace Conversation

/-! ## The seller's side -/

def isRequest : Message → Bool
  | .addrRequest _ => true
  | _ => false

/-- How many addresses a list of messages asks for. -/
def requests (inbox : List Message) : ℕ := inbox.countP isRequest

theorem requests_request (sats : ℕ) (inbox : List Message) :
    requests (.addrRequest sats :: inbox) = requests inbox + 1 :=
  List.countP_cons_of_pos rfl

theorem requests_cons_le (message : Message) (inbox : List Message) :
    requests inbox ≤ requests (message :: inbox) :=
  (List.sublist_cons_self message inbox).countP_le

/-- What the chain shows of an address. -/
def Showing (shown : String → String → ℕ → Prop) : Guarantee sig World
  | _, .depositsTo address, .ok deposits => ∀ d ∈ deposits, shown address d.txid d.sats
  | _, _, _ => True

section Seller

variable (host : Host) (shown : String → String → ℕ → Prop) (inbox : List Message) (floor : ℕ)

/-- The message gives out an address of the wallet whose index is on file and not below the
floor. -/
def Offers (entries : List Entry) (message : Message) : Prop :=
  ∃ address index, message = .addrResponse address index ∧
    host.walletAddress index = .ok address ∧ Issued entries index ∧ floor ≤ index

/-- The entry books what the chain shows of an address given out, for a txid a message named. -/
def BooksShown (wire : List Message) (e : Entry) : Prop :=
  ∃ seq txid sats index address claimed, e = .received seq txid sats index .pending ∧
    .addrResponse address index ∈ wire ∧ .notify txid claimed ∈ inbox ∧ shown address txid sats

/-- What the seller promises of each call: a receipt is the first since `w₀`, and a response
is not one more than was asked for. -/
def Sells (w₀ : World) : Guarantee sig World
  | w, .append _ e, _ => e.receivedTxid?.isSome →
      receivedTxids w.ledger = receivedTxids w₀.ledger ∧ BooksShown shown inbox w.wire e
  | w, .wireSend message, _ => Offers host floor w.ledger message ∧
      w.wire.length < requests inbox
  | _, _, _ => True

/-- What the seller's machine shows at any time. -/
structure Sold (w₀ w : World) : Prop where
  offers : ∀ message ∈ w.wire, Offers host floor w.ledger message
  few : w.wire.length ≤ requests inbox
  grown : ∃ added, w.ledger = w₀.ledger ++ added ∧ (receivedTxids added).length ≤ 1 ∧
    ∀ e ∈ added, e.receivedTxid?.isSome → BooksShown shown inbox w.wire e

variable {host shown inbox floor}

theorem Offers.mono {entries entries' : List Entry} {message : Message}
    (offers : Offers host floor entries message) (grown : entries ⊆ entries') :
    Offers host floor entries' message := by
  obtain ⟨address, index, is, own, ⟨e, member, issues⟩, above⟩ := offers
  exact ⟨address, index, is, own, ⟨e, grown member, issues⟩, above⟩

theorem BooksShown.mono {wire wire' : List Message} {e : Entry} (books : BooksShown shown inbox wire e)
    (grown : wire ⊆ wire') : BooksShown shown inbox wire' e := by
  obtain ⟨seq, txid, sats, index, address, claimed, is, given, named, shows⟩ := books
  exact ⟨seq, txid, sats, index, address, claimed, is, grown given, named, shows⟩

theorem Sold.start {w₀ : World} (blank : w₀.wire = []) :
    Sold host shown inbox floor w₀ w₀ where
  offers := by simp [blank]
  few := by simp [blank]
  grown := ⟨[], by simp, by simp [receivedTxids], by simp⟩

/-- One more line, promised as a receipt must be. -/
theorem Sold.written {w₀ w w' : World} {led : Handle} {e : Entry} {answer : AppendAnswer}
    (sold : Sold host shown inbox floor w₀ w)
    (promised : Sells host shown inbox floor w₀ w (.append led e) answer)
    (ledger : w'.ledger = w.ledger ++ [e]) (wire : w'.wire = w.wire) :
    Sold host shown inbox floor w₀ w' := by
  obtain ⟨added, is, once, books⟩ := sold.grown
  refine ⟨fun message sent => ?_, wire ▸ sold.few, added ++ [e], ?_, ?_, fun e' member receipt => ?_⟩
  · have grown : w.ledger ⊆ w'.ledger := ledger ▸ List.subset_append_left _ _
    exact (sold.offers message (wire ▸ sent)).mono grown
  · rw [ledger, is, List.append_assoc]
  · cases receipt : e.receivedTxid? with
    | none => simpa [receivedTxids, List.filterMap_append, receipt] using once
    | some txid =>
        -- The first receipt: nothing received has been added before it.
        have before := (promised (by simp [receipt])).1
        have none : receivedTxids added = [] := by
          simpa [receivedTxids, is, List.filterMap_append] using before
        rw [receivedTxids, List.filterMap_append, ← receivedTxids, none]
        simp [receipt]
  · rw [wire]
    rcases List.mem_append.1 member with earlier | new
    · exact books e' earlier receipt
    · obtain rfl := List.mem_singleton.1 new
      exact (promised receipt).2

theorem keeps_sold (w₀ : World) : Keeps (interp host) (Sells host shown inbox floor w₀)
    (Sold host shown inbox floor w₀) := by
  intro w op answer allowed promised sold
  cases op with
  | append led e =>
      cases answer with
      | ok => exact sold.written promised rfl rfl
      | lost error => exact sold
      | kept error => exact sold.written promised rfl rfl
  | wireSend message =>
      obtain ⟨added, is, once, books⟩ := sold.grown
      refine ⟨fun m sent => ?_, promised.2, added, is, once, fun e member receipt => ?_⟩
      · rcases List.mem_cons.1 sent with rfl | before
        · exact promised.1
        · exact sold.offers m before
      · exact (books e member receipt).mono (List.subset_cons_self _ _)
  | _ =>
      have ledger := w.after_ledger answer nofun
      have wire := w.after_wire answer nofun
      refine ⟨?_, ?_, ?_⟩
      · exact ledger ▸ wire ▸ sold.offers
      · exact wire ▸ sold.few
      · exact ledger ▸ wire ▸ sold.grown

/-- The calls that neither book a receipt nor send. -/
def quiet (op : Kernel.Op) : Prop := Op.noReceipt op ∧ ∀ message, op ≠ .wireSend message

/-- A stretch of them. -/
theorem wp_quiet {α : Type} {p : Prog α} {w₀ w : World} {assume : Guarantee sig World}
    (body : p.Within quiet) :
    wp ((interp host).restrict assume) (Sells host shown inbox floor w₀)
      (fun _ w' => w'.wire = w.wire ∧ receivedTxids w'.ledger = receivedTxids w.ledger) p w := by
  refine wp_within (R := fun w w' : World =>
    w'.wire = w.wire ∧ receivedTxids w'.ledger = receivedTxids w.ledger) body
    (fun _ => ⟨rfl, rfl⟩) (fun first second => ⟨second.1.trans first.1, second.2.trans first.2⟩) ?_
  rintro w op answer ⟨books, unsent⟩ -
  refine ⟨?_, w.after_wire answer unsent, ?_⟩
  · cases op with
    | append led e => cases e <;> first | exact books.elim | exact fun receipt => by cases receipt
    | wireSend message => exact absurd rfl (unsent message)
    | _ => trivial
  · cases op with
    | append led e =>
        have other : e.receivedTxid? = none := by
          cases e <;> first | exact books.elim | rfl
        have same : receivedTxids (w.ledger ++ [e]) = receivedTxids w.ledger := by
          simp [receivedTxids, List.filterMap_append, other]
        cases answer <;> first | exact same | rfl
    | _ => exact congrArg receivedTxids (w.after_ledger answer fun led e same => by cases same)

theorem within_reconcile_quiet {led : Handle} : (reconcile led).Within quiet :=
  within_reconcile ⟨trivial, nofun⟩ (fun _ => ⟨trivial, nofun⟩) (fun _ => ⟨trivial, nofun⟩)
    (fun _ => ⟨trivial, nofun⟩) (fun _ _ _ => ⟨trivial, nofun⟩) (fun _ _ => ⟨trivial, nofun⟩)
    ⟨trivial, nofun⟩

variable (inbox floor) in
/-- A session that has booked nothing yet, with so much of its inbox to come. -/
structure Underway (w₀ w : World) (rest : List Message) (nextIndex : ℕ) (issuedIndex : Option ℕ)
    (issuedAddress : Option String) : Prop where
  unbooked : receivedTxids w.ledger = receivedTxids w₀.ledger
  room : w.wire.length + requests rest ≤ requests inbox
  above : floor ≤ nextIndex
  kept : ∀ address, issuedAddress = some address → ∃ index, issuedIndex = some index ∧
    .addrResponse address index ∈ w.wire
  among : rest ⊆ inbox

variable {w₀ w : World} {led : Handle} {rest : List Message} {nextIndex : ℕ}
  {issuedIndex : Option ℕ} {issuedAddress : Option String}

theorem wp_handleNotify_sells {txid : String} {claimed : ℕ}
    (underway : Underway inbox floor w₀ w (.notify txid claimed :: rest) nextIndex issuedIndex
      issuedAddress) :
    wp ((interp host).restrict (Showing shown)) (Sells host shown inbox floor w₀) (fun _ _ => True)
      (handleNotify led issuedIndex issuedAddress txid claimed) w := by
  unfold handleNotify
  dsimp only
  split
  · trivial
  rename_i address
  obtain ⟨index, rfl, given⟩ := underway.kept address rfl
  refine wp_bind.2 (wp_attempt.2 ?_)
  rintro (error | deposits) ⟨-, shows⟩ <;> refine ⟨trivial, ?_⟩
  · trivial
  refine bindPost_ok.2 ?_
  dsimp only
  split
  · trivial
  rename_i d found
  have named : d.txid = txid := by simpa using List.find?_some found
  have shown_ : shown address d.txid d.sats := shows d (List.mem_of_find?_eq_some found)
  have told : .notify txid claimed ∈ inbox := underway.among (List.mem_cons_self ..)
  refine wp_bind.2 (wp_bind.2 fun es _ => ⟨trivial, bindPost_ok.2 ?_⟩)
  have after : ∀ w', wp ((interp host).restrict (Showing shown))
      (Sells host shown inbox floor w₀) (fun _ _ => True)
      (do let _ ← (reconcile led).attempt; return () : Prog Unit) w' := fun w' =>
    wp_mono (wp_quiet (within_bind (within_attempt within_reconcile_quiet) fun _ => trivial))
      fun _ _ _ => trivial
  split
  · exact after _
  · refine wp_bind.2 fun answer _ => ⟨fun _ => ⟨underway.unbooked, ?_⟩, ?_⟩
    · exact ⟨_, _, _, _, address, claimed, rfl, given, named ▸ told, shown_⟩
    · cases answer with
      | ok => exact after _
      | lost error => trivial
      | kept error => trivial

theorem wp_runReceiver_sells {closed : Except Error Unit}
    (underway : Underway inbox floor w₀ w rest nextIndex issuedIndex issuedAddress) :
    wp ((interp host).restrict (Showing shown)) (Sells host shown inbox floor w₀) (fun _ _ => True)
      (runReceiver host led closed rest nextIndex issuedIndex issuedAddress) w := by
  induction rest generalizing nextIndex issuedIndex issuedAddress w with
  | nil => exact wp_ofExcept.2 trivial
  | cons message rest ih =>
      have among : rest ⊆ inbox := fun m member => underway.among (List.mem_cons_of_mem _ member)
      have room : w.wire.length + requests rest ≤ requests inbox :=
        Nat.le_trans (Nat.add_le_add_left (requests_cons_le message rest) _) underway.room
      cases message with
      | addrRequest sats =>
          unfold runReceiver
          simp only [receiverHandle]
          rcases own : host.walletAddress nextIndex with e | address
          · trivial
          have asked := underway.room
          rw [requests_request] at asked
          refine wp_bind.2 fun es _ => ⟨trivial, bindPost_ok.2 (wp_bind.2 fun answer _ => ?_)⟩
          refine ⟨?_, ?_⟩
          · intro receipt
            cases receipt
          cases answer with
          | lost error => trivial
          | kept error => trivial
          | ok =>
              generalize line : Entry.addressIssued (Ledger.nextSeq es) nextIndex = e
              have issued : Issued (w.ledger ++ [e]) nextIndex :=
                ⟨e, List.mem_append_right _ (List.mem_singleton_self _), by rw [← line]; rfl⟩
              refine wp_bind.2 fun sent _ => ⟨⟨⟨address, nextIndex, rfl, own, issued,
                underway.above⟩, ?_⟩, ?_⟩
              · show w.wire.length < requests inbox
                omega
              rcases sent with error | ⟨⟩
              · trivial
              refine bindPost_ok.2 (ih ⟨?_, ?_, Nat.le_succ_of_le underway.above, ?_, among⟩)
              · show receivedTxids (w.ledger ++ [e]) = _
                rw [← underway.unbooked, ← line]
                simp [receivedTxids, List.filterMap_append, Entry.receivedTxid?]
              · show (.addrResponse address nextIndex :: w.wire : List Message).length + _ ≤ _
                rw [List.length_cons]
                omega
              · intro kept same
                cases same
                exact ⟨nextIndex, rfl, List.mem_cons_self ..⟩
      | notify txid claimed => exact wp_handleNotify_sells underway
      | chat text => exact ih ⟨underway.unbooked, room, underway.above, underway.kept, among⟩
      | addrResponse address index =>
          exact ih ⟨underway.unbooked, room, underway.above, underway.kept, among⟩

/-- **The seller alone**: whatever it hears, and wherever its session is cut. -/
theorem sold_of_reach {closed : Except Error Unit} (blank : w₀.wire = [])
    (above : floor ≤ nextIndex)
    (reach : Reach ((interp host).restrict (Showing shown))
      (runReceiver host led closed inbox nextIndex none none) w₀ w) :
    Sold host shown inbox floor w₀ w := by
  refine wp_reach ?_ (Sold.start blank) (wp_runReceiver_sells ⟨rfl, ?_, above, ?_, fun _ => id⟩)
    reach
  · exact fun w op answer allowed promised sold => keeps_sold w₀ w op answer allowed.1 promised sold
  · rw [blank, List.length_nil, Nat.zero_add]
  · intro address kept
    cases kept

end Seller

/-! ## The buyer's side -/

section Buyer

variable {host : Host} {led : Handle} {sats : ℕ} {w₀ w : World}

/-- What the buyer promises: it asks for an address only if it has not asked. -/
def AsksOnce : Guarantee sig World
  | w, .wireSend message, _ => isRequest message → requests w.wire = 0
  | _, _, _ => True

def AskedOnce (w : World) : Prop := requests w.wire ≤ 1

theorem keeps_asksOnce : Keeps (interp host) AsksOnce AskedOnce := by
  intro w op answer _ promised once
  cases op with
  | wireSend message =>
      show requests (message :: w.wire) ≤ 1
      rw [requests, List.countP_cons, ← requests]
      split
      · rename_i asks
        rw [promised asks]
      · exact once
  | _ => exact (congrArg requests (w.after_wire answer nofun)).trans_le once

/-- The calls that do not ask. -/
def silent (op : Kernel.Op) : Prop := ∀ message, op = .wireSend message → isRequest message = false

theorem silent_of_idle (op : Kernel.Op) (idle : op.idle) : silent op := by
  rintro message rfl
  exact idle.elim

theorem wp_silent {α : Type} {p : Prog α} (body : p.Within silent) :
    wp (interp host) AsksOnce (fun _ _ => True) p w := by
  refine wp_unguarded (body.mono fun op silent w answer => ?_)
  cases op with
  | wireSend message =>
      intro asks
      rw [silent message rfl] at asks
      cases asks
  | _ => trivial

theorem within_awaitAddress {P : Kernel.Op → Prop} {closed : Except Error Unit}
    (inbox : List Message) : (awaitAddress closed inbox).Within P := by
  induction inbox with
  | nil => exact within_bind within_ofExcept fun _ => trivial
  | cons message inbox ih =>
      cases message with
      | addrResponse address index => trivial
      | _ => exact ih

theorem within_send_silent {payee : String} {maxFeeSats : Option ℕ} :
    (send host led payee sats maxFeeSats).Within silent := by
  refine within_bind ?_ fun tx => within_bind ?_ fun _ => trivial
  · have idle : (buildSigned host payee sats maxFeeSats).Within Op.idle :=
      within_buildSigned trivial trivial (fun _ => trivial) fun _ => trivial
    exact idle.mono silent_of_idle
  · refine within_bind ⟨nofun, fun answer => ?_⟩ fun _ => ?_
    · cases answer <;> trivial
    refine within_bind ⟨nofun, fun _ => trivial⟩ fun es => ?_
    refine within_bind ⟨nofun, fun _ => trivial⟩ fun now => ?_
    refine within_bind ⟨nofun, fun answer => ?_⟩ fun _ => ⟨nofun, fun _ => within_ofExcept⟩
    cases answer <;> trivial

theorem wp_runPayer_asksOnce {inbox : List Message} {closed : Except Error Unit}
    (blank : w.wire = []) :
    wp (interp host) AsksOnce (fun _ _ => True) (runPayer host led inbox closed sats) w := by
  refine wp_bind.2 ?_
  rintro (error | policy) - <;> refine ⟨trivial, ?_⟩
  · trivial
  have gate : (spendGate led policy sats).Within Op.idle := by
    refine within_bind ⟨trivial, fun _ => trivial⟩ fun now => ?_
    refine within_bind ⟨trivial, fun _ => trivial⟩ fun es => ?_
    unfold Kernel.gate
    split <;> trivial
  refine bindPost_ok.2 (wp_bind.2 (wp_mono (wp_within (R := fun w w' : World => w'.wire = w.wire)
    gate (fun _ => rfl) (fun first second => second.trans first) ?_) ?_))
  · intro w op answer idle _
    refine ⟨?_, w.after_wire answer ?_⟩
    · cases op <;> first | exact idle.elim | trivial
    · rintro message rfl
      exact idle.elim
  rintro (error | ⟨⟩) w' same
  · trivial
  refine bindPost_ok.2 (wp_bind.2 fun sent _ => ⟨fun _ => ?_, ?_⟩)
  · have empty : w'.wire = [] := same.trans blank
    rw [empty]
    rfl
  rcases sent with error | ⟨⟩
  · trivial
  refine bindPost_ok.2 (wp_silent ?_)
  refine within_bind (within_awaitAddress inbox) fun found => ?_
  refine within_bind ?_ fun _ => within_bind within_send_silent fun txid => ?_
  · unfold Kernel.gate
    split <;> trivial
  · refine ⟨?_, fun _ => within_ofExcept⟩
    rintro message same
    cases same
    rfl

/-- **The buyer alone**: whatever it hears, and wherever its session is cut. -/
theorem bought_of_reach {inbox : List Message} {closed : Except Error Unit}
    (blank : w₀.wire = [])
    (reach : Reach (interp host) (runPayer host led inbox closed sats) w₀ w) :
    requests w.wire ≤ 1 ∧ ∃ added, w.ledger = w₀.ledger ++ added ∧
      (added.filter Entry.isSent).length ≤ 1 ∧
      (∀ e ∈ added, e.isSent → Settles host inbox sats e) ∧
      ∀ txid n, .notify txid n ∈ w.wire → ∃ seq address sentAt,
        .sent seq txid n address .pending sentAt ∈ added := by
  have start : AskedOnce w₀ := by
    rw [AskedOnce, blank]
    exact Nat.zero_le 1
  have once : AskedOnce w := wp_reach keeps_asksOnce start (wp_runPayer_asksOnce blank) reach
  obtain ⟨past, reach⟩ := reach.recorded []
  have keeps : ∀ {inv : Journal → Prop},
      Keeps (interp host).recorded (Negotiates host led inbox sats w₀) inv → inv (w₀, []) →
        inv (w, past) :=
    fun kept start => wp_reach kept start wp_runPayer_negotiates reach
  obtain ⟨said, wire, known⟩ := keeps keeps_spoken ⟨[], rfl, nofun⟩
  obtain ⟨added, ledger, one, settles⟩ : Once (fun _ => Settles host inbox sats) w₀ (w, past) :=
    keeps (keeps_once (fun _ settles => settles) fun _ _ _ _ promised _ => promised.2)
      (once_start _ w₀)
  obtain ⟨added', ledger', agree⟩ : Posted w₀ (w, past) := keeps
    (fun s op answer allowed _ => keeps_posted w₀ s op answer allowed trivial)
    ⟨[], (List.append_nil _).symm, rfl⟩
  obtain rfl : added' = added := List.append_cancel_left (ledger'.symm.trans ledger)
  refine ⟨once, added', ledger, one, settles, fun txid n told => ?_⟩
  have told' : .notify txid n ∈ said := by
    have all : w.wire = said := by rw [show w.wire = said ++ w₀.wire from wire, blank, List.append_nil]
    exact all ▸ told
  obtain ⟨seq, address, sentAt, onRecord⟩ := known txid n told'
  have listed : Entry.sent seq txid n address .pending sentAt ∈ added'.filter Entry.isSent := by
    rw [agree]
    exact List.mem_reverse.2 onRecord
  exact ⟨seq, address, sentAt, (List.mem_filter.1 listed).1⟩

end Buyer

/-! ## Both -/

inductive Side where
  | buyer
  | seller
  deriving DecidableEq, Repr

def Side.other : Side → Side
  | .buyer => .seller
  | .seller => .buyer

/-- The number of a thread, by side. -/
def Side.of : ℕ → Side
  | 0 => .buyer
  | _ => .seller

theorem Side.of_ne {i j : ℕ} (few : i < 2) (few' : j < 2) (different : j ≠ i) :
    Side.of i ≠ Side.of j := by
  rcases (by omega : i = 0 ∧ j = 1 ∨ i = 1 ∧ j = 0) with ⟨rfl, rfl⟩ | ⟨rfl, rfl⟩ <;> decide

/-- Each side's machine, and what its wire has answered it, the last first. -/
abbrev Table := Side → World × List (Event wireSig)

/-- What one side hears the other has said, and it hears it no more often. -/
def Arrives (t : Table) (side : Side) : Except Error (Option Message) → Prop
  | .ok (some message) =>
      (messages (t side).2).count message < (t side.other).1.wire.count message
  | _ => True

/-- The reading of one side: its machine, and the wire. -/
def linkReading (host : Side → Host) (shown : String → String → ℕ → Prop) (side : Side) :
    Interp (sig.sum wireSig) Table where
  allowed t
    | .inl op => ((interp (host side)).restrict (Showing shown)).allowed (t side).1 op
    | .inr () => Arrives t side
  next t op answer := Function.update t side ((interp (host side)).heard.next (t side) op answer)

/-- The two ends of one tunnel; the seller's session starts from the index that its instance
gives. -/
def session (host : Side → Host) (led : Side → Handle) (n m sats : ℕ) (w₀ : Side → World) :
    Pool (sig.sum wireSig) Error Unit :=
  [Wire.runPayer (host .buyer) (led .buyer) n sats,
    Wire.runReceiver (host .seller) (led .seller) m
      (Ledger.nextAddressIndex ((w₀ .seller).mem (led .seller))) none none]

section Joint

variable {host : Side → Host} {shown : String → String → ℕ → Prop} {led : Side → Handle}
  {n m sats : ℕ} {w₀ : Side → World} {t : Table}

/-- No message was heard more often than it was said. -/
def Faithful (t : Table) : Prop :=
  ∀ side message,
    (messages (t side).2).count message ≤ (t (Side.other side)).1.wire.count message

theorem messages_cons (event : Event wireSig) (events : List (Event wireSig)) :
    messages (event :: events) = (Wire.message? event).toList ++ messages events := by
  cases brings : Wire.message? event <;> simp [messages, brings]

theorem wire_grows (w : World) (op : sig.Op) (answer : sig.Ans op) :
    w.wire <:+ (w.after op answer).wire := by
  cases op with
  | wireSend message => exact List.suffix_cons ..
  | _ => exact (w.after_wire answer nofun).symm ▸ List.suffix_rfl

theorem keeps_faithful (side : Side) (t : Table) (op : (sig.sum wireSig).Op)
    (answer : (sig.sum wireSig).Ans op) (allowed : (linkReading host shown side).allowed t op answer)
    (faithful : Faithful t) : Faithful ((linkReading host shown side).next t op answer) := by
  have apart : side.other ≠ side := by cases side <;> exact nofun
  have back : side.other.other = side := by cases side <;> rfl
  intro s message
  show (messages (Function.update t side _ s).2).count message ≤
    (Function.update t side _ s.other).1.wire.count message
  have sides : s = side ∨ s = side.other := by cases s <;> cases side <;> simp [Side.other]
  rcases sides with rfl | rfl
  · -- What this side has heard, against what the other has said.
    rw [Function.update_self, Function.update_of_ne apart]
    cases op with
    | inl op => exact faithful s message
    | inr op =>
        show (messages (⟨op, answer⟩ :: (t s).2)).count message ≤ _
        rw [messages_cons, List.count_append]
        cases answer with
        | error e => simpa [Wire.message?] using faithful s message
        | ok received =>
            cases received with
            | none => simpa [Wire.message?] using faithful s message
            | some received =>
                rcases eq_or_ne received message with rfl | different
                · have fewer : (messages (t s).2).count received <
                      (t s.other).1.wire.count received := allowed
                  simp [Wire.message?]
                  omega
                · simpa [Wire.message?, different] using faithful s message
  · -- What this side has said only grows.
    rw [back, Function.update_self, Function.update_of_ne apart]
    have before := faithful side.other message
    rw [back] at before
    refine Nat.le_trans before ?_
    cases op with
    | inl op => exact (wire_grows (t side).1 op answer).sublist.count_le message
    | inr op => exact Nat.le_refl _

theorem faithful_of_reaches
    (reaches : Pool.Reaches (fun i => linkReading host shown (Side.of i))
      (session host led n m sats w₀) (fun side => (w₀ side, [])) t) : Faithful t :=
  Pool.always (fun _ _ => Nat.zero_le _)
    (fun _ w op answer allowed faithful => keeps_faithful _ w op answer allowed faithful) reaches

/-- What one side shows of an interleaving is a run of it alone. -/
theorem alone (i : ℕ) (few : i < 2) {p : Party Unit}
    (member : (session host led n m sats w₀)[i]? = some p)
    (reaches : Pool.Reaches (fun i => linkReading host shown (Side.of i))
      (session host led n m sats w₀) (fun side => (w₀ side, [])) t) :
    ∃ heard, (t (Side.of i)).2 = heard ∧
      Reach ((interp (host (Side.of i))).restrict (Showing shown))
        (resolve Wire.silent p heard.reverse) (w₀ (Side.of i)) (t (Side.of i)).1 := by
  obtain ⟨pool', steps⟩ := reaches
  have mine := Pool.project
    (J := ((interp (host (Side.of i))).restrict (Showing shown)).heard)
    (fun t : Table => t (Side.of i)) i ?_ ?_ member steps
  · obtain ⟨_, -, leads⟩ := mine
    obtain ⟨new, heard, reach⟩ := leads.reach.resolved Wire.silent
    exact ⟨new, heard.trans (List.append_nil _), reach⟩
  · intro t op answer allowed
    refine ⟨?_, ?_⟩
    · cases op with
      | inl op => exact allowed
      | inr op => trivial
    · show Function.update t _ _ _ = _
      rw [Function.update_self]
      cases op <;> rfl
  · intro j t op answer within different _
    have apart := Side.of_ne few within different
    show Function.update t _ _ _ = _
    rw [Function.update_of_ne apart]

theorem messages_reverse (events : List (Event wireSig)) :
    messages events.reverse = (messages events).reverse :=
  List.filterMap_reverse ..

theorem mem_of_firstResponse {inbox : List Message} {address : String} {index : ℕ}
    (first : firstResponse inbox = some (address, index)) :
    .addrResponse address index ∈ inbox := by
  induction inbox with
  | nil => cases first
  | cons message inbox ih =>
      cases message with
      | addrResponse address' index' =>
          cases first
          exact List.mem_cons_self ..
      | _ => exact List.mem_cons_of_mem _ (ih first)

theorem eq_of_length_le_one {α : Type} {xs : List α} {x y : α} (few : xs.length ≤ 1)
    (left : x ∈ xs) (right : y ∈ xs) : x = y := by
  obtain ⟨i, hi, rfl⟩ := List.mem_iff_getElem.1 left
  obtain ⟨j, hj, rfl⟩ := List.mem_iff_getElem.1 right
  have same : i = j := by omega
  subst same
  rfl

end Joint

end Conversation

open Conversation

/-- **What the two files say fits together, at every moment of every interleaving.**  The seller
says at most one thing, an address of its wallet whose index is on its file and was not before the
session.  One line at most is recorded as sent, and one as received.  What is sent goes to an address of the seller's
wallet whose index is on the seller's file and was not before the session; what is received is
on the buyer's file under its txid, sent to the address of the index it is booked under, and is
booked at what the chain shows that transaction to pay that address. -/
theorem conversation_agrees (host : Side → Host) (shown : String → String → ℕ → Prop)
    (led : Side → Handle) (n m sats : ℕ) (w₀ : Side → World)
    (blank : ∀ side, (w₀ side).wire = [])
    (known : ∀ index, Issued (w₀ .seller).ledger index →
      Issued ((w₀ .seller).mem (led .seller)) index)
    (t : Table)
    (reaches : Pool.Reaches (fun i => linkReading host shown (Side.of i))
      (session host led n m sats w₀) (fun side => (w₀ side, [])) t) :
    (t .seller).1.wire.length ≤ 1 ∧
    (∀ message ∈ (t .seller).1.wire, ∃ address index, message = .addrResponse address index ∧
      (host .seller).walletAddress index = .ok address ∧
      Issued (t .seller).1.ledger index ∧ ¬ Issued (w₀ .seller).ledger index) ∧
    ∃ sent received, (t .buyer).1.ledger = (w₀ .buyer).ledger ++ sent ∧
      (t .seller).1.ledger = (w₀ .seller).ledger ++ received ∧
      (sent.filter Entry.isSent).length ≤ 1 ∧ (receivedTxids received).length ≤ 1 ∧
      (∀ e ∈ sent, e.isSent → ∃ seq txid address index sentAt,
        e = .sent seq txid sats address .pending sentAt ∧
        (host .seller).walletAddress index = .ok address ∧
        Issued (t .seller).1.ledger index ∧ ¬ Issued (w₀ .seller).ledger index) ∧
      ∀ e ∈ received, e.receivedTxid?.isSome → ∃ seq txid amount index seq' address sentAt,
        e = .received seq txid amount index .pending ∧
        .sent seq' txid sats address .pending sentAt ∈ sent ∧
        (host .seller).walletAddress index = .ok address ∧ shown address txid amount := by
  have faithful := faithful_of_reaches reaches
  obtain ⟨heardB, isB, reachB⟩ := alone 0 (by decide) rfl reaches
  obtain ⟨heardS, isS, reachS⟩ := alone 1 (by decide) rfl reaches
  obtain ⟨inboxB, closedB, amongB, sameB⟩ :=
    Wire.resolve_runPayer (host .buyer) (led .buyer) n sats heardB.reverse
  obtain ⟨inboxS, closedS, amongS, sameS⟩ :=
    Wire.resolve_runReceiver (host .seller) (led .seller) m heardS.reverse
  rw [sameB] at reachB
  rw [sameS] at reachS
  obtain ⟨once, sent, ledgerB, oneSent, settles, notified⟩ :=
    bought_of_reach (blank .buyer) reachB.unrestricted
  have above : Ledger.nextAddressIndex ((w₀ .seller).mem (led .seller)) ≤
      Ledger.nextAddressIndex ((w₀ .seller).mem (led .seller)) := Nat.le_refl _
  obtain ⟨offers, few, received, ledgerS, oneReceived, books⟩ :=
    sold_of_reach (blank .seller) above reachS
  -- Each side has heard only what the other said.
  have heard : ∀ side {message}, message ∈ messages (t side).2 → message ∈ (t side.other).1.wire :=
    fun side message member =>
      List.count_pos_iff.1 (Nat.lt_of_lt_of_le (List.count_pos_iff.2 member) (faithful side message))
  have heardByBuyer : ∀ {message}, message ∈ inboxB → message ∈ (t .seller).1.wire := by
    intro message member
    have among := amongB.subset member
    rw [messages_reverse, List.mem_reverse, ← isB] at among
    exact heard .buyer among
  have heardBySeller : ∀ {message}, message ∈ inboxS → message ∈ (t .buyer).1.wire := by
    intro message member
    have among := amongS.subset member
    rw [messages_reverse, List.mem_reverse, ← isS] at among
    exact heard .seller among
  -- The buyer asked once, so the seller answered once.
  have fewer : (t .seller).1.wire.length ≤ 1 := by
    have asked : requests inboxS ≤ requests (t .buyer).1.wire := by
      refine Nat.le_trans amongS.countP_le ?_
      rw [messages_reverse, (List.reverse_perm _).countP_eq, ← isS]
      exact (List.subperm_ext_iff.2 fun message _ => faithful .seller message).countP_le isRequest
    exact Nat.le_trans few (Nat.le_trans asked once)
  -- What is given out is at the floor or above it, and what was on file is below.
  have fresh : ∀ {index}, Ledger.nextAddressIndex ((w₀ .seller).mem (led .seller)) ≤ index →
      ¬ Issued (w₀ .seller).ledger index := fun above before =>
    Nat.lt_irrefl _ (Nat.lt_of_lt_of_le (lt_nextAddressIndex (known _ before)) above)
  refine ⟨fewer, fun message said => ?_, sent, received, ledgerB, ledgerS, oneSent, oneReceived,
    fun e member isSent => ?_, fun e member receipt => ?_⟩
  · obtain ⟨address, index, is, own, issued, above⟩ := offers message said
    exact ⟨address, index, is, own, issued, fresh above⟩
  · obtain ⟨seq, txid, address, index, sentAt, is, first, -⟩ := settles e member isSent
    obtain ⟨address', index', same, own, issued, above⟩ :=
      offers _ (heardByBuyer (mem_of_firstResponse first))
    cases same
    exact ⟨seq, txid, address, index, sentAt, is, own, issued, fresh above⟩
  · obtain ⟨seq, txid, amount, index, address, claimed, is, given, named, shows⟩ :=
      books e member receipt
    obtain ⟨seq', address', sentAt, onFile⟩ := notified txid claimed (heardBySeller named)
    obtain ⟨_, _, _, index', _, same, first, -⟩ := settles _ onFile rfl
    cases same
    have only : Message.addrResponse address index = .addrResponse address' index' :=
      eq_of_length_le_one fewer given (heardByBuyer (mem_of_firstResponse first))
    cases only
    obtain ⟨_, _, same, own, -⟩ := offers _ given
    cases same
    exact ⟨seq, txid, amount, index, seq', address, sentAt, is, onFile, own, shows⟩

/-! ## One payment, both ways -/

namespace Conversation

def hosts : Side → Host
  | .buyer => walletHost
  | .seller => sellerHost

/-- The chain shows the buyer's transaction to pay the seller. -/
def scripts : Side → Script
  | .buyer => walletScript
  | .seller => { onePayment with deposits := fun _ => .ok [⟨sampleTxid, 40000, 1⟩] }

/-- The next message the side has not heard. -/
def mail (t : Table) (side : Side) : Option Message :=
  (t side.other).1.wire.reverse[(messages (t side).2).length]?

def answers (t : Table) (side : Side) : (op : (sig.sum wireSig).Op) → (sig.sum wireSig).Ans op
  | .inl op => (scripts side).answer (hosts side) (t side).1 op
  | .inr () => .ok (mail t side)

/-- A side waits until there is a message for it. -/
def ready (i : ℕ) (op : (sig.sum wireSig).Op) (t : Table) : Bool :=
  match op, mail t (Side.of i) with
  | .inl _, _ => true
  | .inr (), some message =>
      (messages (t (Side.of i)).2).count message <
        (t (Side.of i).other).1.wire.count message
  | .inr (), none => false

def handled (i : ℕ) (op : (sig.sum wireSig).Op) (t : Table) : (sig.sum wireSig).Ans op × Table :=
  (answers t (Side.of i) op, Function.update t (Side.of i)
    ((interp (hosts (Side.of i))).heard.next (t (Side.of i)) op (answers t (Side.of i) op)))

/-- Its one transaction pays 40000 sats. -/
def paidFor (_address txid : String) (sats : ℕ) : Prop := txid = sampleTxid ∧ sats = 40000

theorem answers_allowed (i : ℕ) (op : (sig.sum wireSig).Op) (t : Table) (free : ready i op t) :
    (linkReading hosts paidFor (Side.of i)).allowed t op (answers t (Side.of i) op) := by
  cases op with
  | inl op =>
      refine ⟨Script.allowed _ _ _ op, ?_⟩
      cases op with
      | depositsTo address =>
          cases Side.of i with
          | buyer => exact nofun
          | seller =>
              intro d member
              obtain rfl := List.mem_singleton.1 member
              exact ⟨rfl, rfl⟩
      | _ => trivial
  | inr op =>
      show Arrives t (Side.of i) (.ok (mail t (Side.of i)))
      unfold ready at free
      cases next : mail t (Side.of i) with
      | none => trivial
      | some message =>
          rw [next] at free
          have fewer : (messages (t (Side.of i)).2).count message <
              (t (Side.of i).other).1.wire.count message := by
            simpa using free
          exact fewer

/-- Buyer and seller take turns; each goes as far as it can. -/
def turns : List ℕ :=
  List.replicate 12 0 ++ List.replicate 12 1 ++ List.replicate 16 0 ++ List.replicate 16 1

def settled : Table :=
  (Pool.drive ready handled turns (session hosts (fun _ => 0) 2 2 40000 fun _ => World.blank)
    fun _ => (World.blank, [])).2

theorem settled_files :
    (settled .buyer).1.ledger =
      [.sent 0 sampleTxid 40000 sampleAddress.display .pending 1700000000] ∧
    (settled .seller).1.ledger =
      [.addressIssued 0 0, .received 1 sampleTxid 40000 0 .pending,
        .statusUpdate 2 sampleTxid .soft] := by
  decide +kernel

end Conversation

theorem conversation_agrees_settled :
    (settled .seller).1.wire.length ≤ 1 ∧
    (settled .seller).1.ledger =
      [.addressIssued 0 0, .received 1 sampleTxid 40000 0 .pending,
        .statusUpdate 2 sampleTxid .soft] ∧
    ∃ seq address sentAt, .sent seq sampleTxid 40000 address .pending sentAt ∈
        (settled .buyer).1.ledger ∧ sellerHost.walletAddress 0 = .ok address := by
  have reaches : Pool.Reaches (fun i => linkReading hosts paidFor (Side.of i))
      (session hosts (fun _ => 0) 2 2 40000 fun _ => World.blank) (fun _ => (World.blank, []))
      settled :=
    Pool.drive_reaches ready handled answers_allowed (fun _ _ _ => rfl) turns _ _
  obtain ⟨few, -, sent, received, ledgerB, ledgerS, -, -, -, booked⟩ :=
    conversation_agrees hosts paidFor (fun _ => 0) 2 2 40000 (fun _ => World.blank) (fun _ => rfl)
      (fun _ issued => issued) settled reaches
  refine ⟨few, settled_files.2, ?_⟩
  have all : (settled .seller).1.ledger = received := ledgerS
  rw [settled_files.2] at all
  obtain ⟨seq, txid, amount, index, seq', address, sentAt, is, onFile, own, -⟩ :=
    booked (.received 1 sampleTxid 40000 0 .pending) (by rw [← all]; simp) rfl
  cases is
  exact ⟨seq', address, sentAt, ledgerB ▸ List.mem_append_right _ onFile, own⟩

end ComputerMoney.Safety

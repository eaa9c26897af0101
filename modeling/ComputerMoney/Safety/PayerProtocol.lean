/-
# Safety.PayerProtocol -- what a peer can make a payer do

A `run_payer` session against a peer that sends what it likes, in any order, and closes or
stalls when it likes.  Nothing leaves the payer before the amount gate has passed, on the
wire or to the ledger.  After it, one `sent` line at most goes on disk: the amount is the one
the payer was asked for, and the payee is the first address the peer named.  What a `notify`
says is on that line, and the line is on disk before the `notify` is.
-/
import ComputerMoney.Kernel.Purchase
import ComputerMoney.Safety.WriteAhead

namespace ComputerMoney.Safety

set_option autoImplicit false

open Theory Theory.Program Kernel

/-- The amount gate passed, at the time the clock gave. -/
def GatePassed (host : Host) (led : Handle) (sats : ℕ) (w : World) (past : List (Event sig)) :
    Prop :=
  ∃ now, firstNow past = some now ∧ AmountPassed host w led sats now

/-- The entry pays what was asked, to the first address the peer named, which is not
blocked. -/
def Settles (host : Host) (inbox : List Message) (sats : ℕ) (e : Entry) : Prop :=
  ∃ seq txid address index sentAt, e = .sent seq txid sats address .pending sentAt ∧
    firstResponse inbox = some (address, index) ∧ host.policy.checkAddress address = .ok ()

/-- A line is appended once, behind the gate; a message is sent behind the gate, and a
`notify` only of the payment on record. -/
def Negotiates (host : Host) (led : Handle) (inbox : List Message) (sats : ℕ) (w : World) :
    Guarantee sig Journal := fun s op _ => match op with
  | .append _ e => GatePassed host led sats w s.2 ∧ s.1.ledger = w.ledger ∧
      Settles host inbox sats e
  | .wireSend message => GatePassed host led sats w s.2 ∧ ∀ txid n, message = .notify txid n →
      ∃ seq address sentAt, lastSent s.2 = some (.sent seq txid n address .pending sentAt)
  | _ => True

section Payer

variable {host : Host} {led : Handle} {inbox : List Message} {closed : Except Error Unit}
  {sats : ℕ} {w : World}

theorem GatePassed.suffix {past past' : List (Event sig)} (grown : past <:+ past')
    (passed : GatePassed host led sats w past) : GatePassed host led sats w past' := by
  obtain ⟨now, known, passed⟩ := passed
  exact ⟨now, firstNow_suffix grown known, passed⟩

theorem negotiates_idle (s : Journal) (op : Op) (answer : op.Ans) (idle : op.idle) :
    Negotiates host led inbox sats w s op answer := by
  cases op with
  | append led e => exact idle.elim
  | wireSend message => exact idle.elim
  | _ => trivial

/-! ## One session -/

theorem keeps_gatePassed {G : Guarantee sig Journal} :
    Keeps (interp host).recorded G fun s => GatePassed host led sats w s.2 :=
  fun _ _ _ _ _ passed => passed.suffix (List.suffix_cons ..)

theorem wp_runPayer_negotiates :
    wp (interp host).recorded (Negotiates host led inbox sats w) (fun _ _ => True)
      (runPayer host led inbox closed sats) (w, []) := by
  refine wp_bind.2 ?_
  rintro (error | policy) loaded <;> refine ⟨trivial, ?_⟩
  · trivial
  obtain rfl : policy = host.policy := loaded
  refine bindPost_ok.2 (wp_bind.2 (wp_spendGate_journal negotiates_idle ?_ ?_))
  · exact fun _ _ _ => trivial
  intro now passed
  have gate : ∀ {past}, (⟨.nowUnix, now⟩ :: [⟨.loadPolicy, .ok host.policy⟩]) <:+ past →
      GatePassed host led sats w past := fun grown => .suffix grown ⟨now, rfl, passed⟩
  refine bindPost_ok.2 (wp_bind.2 ?_)
  rintro (error | ⟨⟩) - <;> refine ⟨⟨gate ⟨[_], rfl⟩, nofun⟩, ?_⟩
  · trivial
  refine bindPost_ok.2 (wp_bind.2 (wp_awaitAddress ?_))
  rintro (error | ⟨address, index⟩) first
  · trivial
  refine bindPost_ok.2 (wp_bind.2 ?_)
  rcases clean : host.policy.checkAddress address with refusal | ⟨⟩
  · trivial
  refine bindPost_ok.2 (wp_bind.2 (wp_mono (wp_keeps keeps_gatePassed (gate ⟨[_, _], rfl⟩)
    (wp_send_ends negotiates_idle rfl ?_)) ?_))
  · intro s' seq txid sentAt answer idle
    exact ⟨gate (.trans ⟨[_, _], rfl⟩ idle.past), idle.ledger, seq, txid, address, index, sentAt,
      rfl, first.symm, clean⟩
  rintro (error | txid) s ⟨ends, behind⟩
  · trivial
  obtain ⟨seq, sentAt, sent, -⟩ := ends
  intro answer _
  refine ⟨⟨behind, fun txid' n same => ?_⟩, wp_ofExcept.2 trivial⟩
  cases same
  exact ⟨seq, address, sentAt, sent⟩

/-! ## What a session leaves -/

/-- Behind the gate, or nothing has left the payer. -/
def Behind (host : Host) (led : Handle) (sats : ℕ) (w : World) (s : Journal) : Prop :=
  GatePassed host led sats w s.2 ∨ s.1.wire = w.wire ∧ s.1.ledger = w.ledger

theorem keeps_behind :
    Keeps (interp host).recorded (Negotiates host led inbox sats w)
      (Behind host led sats w) := by
  intro s op answer _ promised behind
  have grown : s.2 <:+ ((interp host).recorded.next s op answer).2 := List.suffix_cons ..
  cases op with
  | append led e => exact .inl (promised.1.suffix grown)
  | wireSend message => exact .inl (promised.1.suffix grown)
  | _ =>
      refine behind.imp (fun passed => passed.suffix grown) fun ⟨wire, ledger⟩ => ⟨?_, ?_⟩
      · rw [← wire]
        first | rfl | cases answer <;> rfl
      · exact (s.1.after_ledger answer nofun).trans ledger

/-- What has been said since `w`: each `notify` of a payment on record. -/
def Spoken (w : World) (s : Journal) : Prop :=
  ∃ said, s.1.wire = said ++ w.wire ∧ ∀ txid n, .notify txid n ∈ said →
    ∃ seq address sentAt, .sent seq txid n address .pending sentAt ∈ s.2.filterMap sentLine?

theorem keeps_spoken :
    Keeps (interp host).recorded (Negotiates host led inbox sats w) (Spoken w) := by
  intro s op answer _ promised ⟨said, is, known⟩
  have recorded : ∀ {e}, e ∈ s.2.filterMap sentLine? →
      e ∈ ((interp host).recorded.next s op answer).2.filterMap sentLine? := fun member => by
    obtain ⟨event, made, line⟩ := List.mem_filterMap.1 member
    exact List.mem_filterMap.2 ⟨event, List.mem_cons_of_mem _ made, line⟩
  have still : ∀ txid n, .notify txid n ∈ said → ∃ seq address sentAt,
      .sent seq txid n address .pending sentAt ∈
        ((interp host).recorded.next s op answer).2.filterMap sentLine? := fun txid n member => by
    obtain ⟨seq, address, sentAt, onRecord⟩ := known txid n member
    exact ⟨seq, address, sentAt, recorded onRecord⟩
  cases op with
  | wireSend message =>
      refine ⟨message :: said, congrArg (message :: ·) is, fun txid n member => ?_⟩
      rcases List.mem_cons.1 member with same | earlier
      · obtain ⟨seq, address, sentAt, last⟩ := promised.2 txid n same.symm
        rw [lastSent, ← List.head?_filterMap] at last
        exact ⟨seq, address, sentAt, recorded (List.mem_of_mem_head? last)⟩
      · exact still txid n earlier
  | _ =>
      refine ⟨said, ?_, still⟩
      rw [← is]
      first | rfl | cases answer <;> rfl

/-- **Payer protocol safety.**  Whatever the peer sends, and wherever the session ends: with
the amount gate not passed, nothing was sent to the peer and the ledger is unchanged.  At
most one `sent` entry was added, for the amount asked, to the address of the first
response, which is not blocked.  Each `notify` on the wire carries the txid and the amount of
that entry, and the entry is in the ledger. -/
theorem payer_protocol {s : Journal}
    (reached : Reach (interp host).recorded (runPayer host led inbox closed sats) (w, []) s) :
    (¬ GatePassed host led sats w s.2 → s.1.wire = w.wire ∧ s.1.ledger = w.ledger) ∧
    ∃ added said, s.1.ledger = w.ledger ++ added ∧ s.1.wire = said ++ w.wire ∧
      (added.filter Entry.isSent).length ≤ 1 ∧
      (∀ e ∈ added, e.isSent → Settles host inbox sats e) ∧
      ∀ txid n, .notify txid n ∈ said → n = sats ∧
        ∃ seq address sentAt, .sent seq txid n address .pending sentAt ∈ added := by
  have keeps : ∀ {inv : Journal → Prop},
      Keeps (interp host).recorded (Negotiates host led inbox sats w) inv → inv (w, []) → inv s :=
    fun kept start => wp_reach kept start wp_runPayer_negotiates reached
  have behind := keeps keeps_behind (.inr ⟨rfl, rfl⟩)
  obtain ⟨said, wire, known⟩ := keeps keeps_spoken ⟨[], rfl, nofun⟩
  have once : Once (fun _ => Settles host inbox sats) w s :=
    keeps (keeps_once (fun _ settles => settles)
      fun _ _ _ _ promised _ => promised.2) (once_start _ w)
  have posted : Posted w s := keeps
    (fun s op answer allowed _ => keeps_posted w s op answer allowed trivial)
    ⟨[], (List.append_nil _).symm, rfl⟩
  obtain ⟨added, ledger, one, settles⟩ := once
  obtain ⟨added', ledger', agree⟩ := posted
  obtain rfl : added' = added := List.append_cancel_left (ledger'.symm.trans ledger)
  refine ⟨behind.resolve_left, added', said, ledger, wire, one, settles, fun txid n member => ?_⟩
  obtain ⟨seq, address, sentAt, onRecord⟩ := known txid n member
  have listed : Entry.sent seq txid n address .pending sentAt ∈ added'.filter Entry.isSent := by
    rw [agree]
    exact List.mem_reverse.2 onRecord
  have inAdded := (List.mem_filter.1 listed).1
  obtain ⟨_, _, _, _, _, same, -⟩ := settles _ inAdded rfl
  exact ⟨(Entry.sent.inj same).2.2.1, seq, address, sentAt, inAdded⟩

end Payer

/-! ## A chatty peer -/

/-- The peer chats, names an address, and names another one. -/
def chattyPeer : List Message :=
  [.chat "one moment", .addrResponse sampleAddress.display 7, .addrResponse "bc1qother" 8]

def chattySession : Prog Unit := runPayer walletHost 0 chattyPeer (.ok ()) 40000

def chattyEnd : Journal := (run (walletScript.record walletHost) chattySession (World.blank, [])).2

theorem chatty_trace :
    chattyEnd.1.ledger =
      [.sent 0 sampleTxid 40000 sampleAddress.display .pending 1700000000] ∧
    chattyEnd.1.wire = [.notify sampleTxid 40000, .addrRequest 40000] := by
  decide +kernel

theorem payer_protocol_sample :
    chattyEnd.1.wire = [.notify sampleTxid 40000, .addrRequest 40000] ∧
      ∃ seq address sentAt, .sent seq sampleTxid 40000 address .pending sentAt ∈
        chattyEnd.1.ledger := by
  refine ⟨chatty_trace.2, ?_⟩
  have run : Exec (interp walletHost).recorded chattySession (World.blank, []) _ chattyEnd :=
    walletScript.exec_recorded walletHost chattySession (World.blank, [])
  obtain ⟨-, added, said, ledger, wire, -, -, told⟩ := payer_protocol run.reach
  rw [chatty_trace.2] at wire
  obtain ⟨-, seq, address, sentAt, member⟩ :=
    told sampleTxid 40000 ((List.append_nil said ▸ wire) ▸ List.mem_cons_self ..)
  exact ⟨seq, address, sentAt, ledger ▸ List.mem_append_right _ member⟩

end ComputerMoney.Safety

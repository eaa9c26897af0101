/-
# Kernel.Purchase -- the send paths, with the calls they make kept beside the world

What a payer says afterwards has to do with which of its calls failed, and when.  Here a
run carries its calls (`Interp.recorded`), and two readings of a call are fixed:
`sentLine?`, the `sent` line it put on disk, and `failure?`, the error it failed with.

Each send path puts one `sent` line on disk at most; before it nothing is recorded, and
if the path fails after it, the last call is the one that failed and its error is the
error of the path (`SendEnds`).
-/
import ComputerMoney.Kernel.Commands
import ComputerMoney.Kernel.PaySpec

namespace ComputerMoney.Kernel

set_option autoImplicit false

open Theory Theory.Program

/-! ## Readings of a call -/

def Entry.isSent : Entry → Bool
  | .sent _ _ _ _ _ _ => true
  | _ => false

/-- The `sent` line the call put on disk. -/
def sentLine? : Event sig → Option Entry
  | ⟨.append _ e, answer⟩ => match answer with
      | .ok | .kept _ => if e.isSent then some e else none
      | .lost _ => none
  | _ => none

/-- The last `sent` line on disk. -/
def lastSent (past : List (Event sig)) : Option Entry := past.findSome? sentLine?

def eventNow? : Event sig → Option ℕ
  | ⟨.nowUnix, now⟩ => some (show ℕ from now)
  | _ => none

/-- What the clock said when it was first asked. -/
def firstNow (past : List (Event sig)) : Option ℕ := past.reverse.findSome? eventNow?

/-- The error a call failed with. -/
def failure? : Event sig → Option Error
  | ⟨.append _ _, answer⟩ => match answer with
      | .ok => none
      | .lost error | .kept error => some error
  | ⟨.writeSidecar _ _, answer⟩ => match answer with
      | .ok => none
      | .lost error | .torn error => some error
  | ⟨.loadPolicy, answer⟩ => match answer with
      | .ok _ => none
      | .error error => some error
  | ⟨.finishPsbt _, answer⟩ => match answer with
      | .ok _ => none
      | .error error => some error
  | ⟨.httpGet _ _, answer⟩ => match answer with
      | .ok _ => none
      | .error error => some error
  | ⟨.syncWallet, answer⟩ | ⟨.sign _, answer⟩ | ⟨.broadcast _, answer⟩ | ⟨.wireSend _, answer⟩ =>
      match answer with
      | .ok () => none
      | .error error => some error
  | _ => none

theorem firstNow_suffix {past past' : List (Event sig)} {now : ℕ} (grown : past <:+ past')
    (known : firstNow past = some now) : firstNow past' = some now := by
  obtain ⟨later, rfl⟩ := grown
  rw [firstNow] at known
  rw [firstNow, List.reverse_append, List.findSome?_append, known]
  rfl

theorem getLast?_suffix {past past' : List (Event sig)} {first : Event sig} (grown : past <:+ past')
    (known : past.getLast? = some first) : past'.getLast? = some first := by
  obtain ⟨later, rfl⟩ := grown
  rw [List.getLast?_append, known]
  rfl

/-! ## Calls that record nothing -/

/-- The calls that leave the ledgers and the wire alone. -/
def Op.idle : Op → Prop
  | .append _ _ | .openLedger | .wireSend _ => False
  | _ => True

/-- Nothing was recorded or said since. -/
structure Idle (led : Handle) (s s' : Journal) : Prop where
  ledger : s'.1.ledger = s.1.ledger
  mem : s'.1.mem led = s.1.mem led
  wire : s'.1.wire = s.1.wire
  past : s.2 <:+ s'.2
  sent : lastSent s'.2 = lastSent s.2

section Idle

variable {host : Host} {G : Guarantee sig Journal} {led : Handle} {s s' s'' : Journal} {α : Type}

theorem Idle.refl (led : Handle) (s : Journal) : Idle led s s :=
  ⟨rfl, rfl, rfl, List.suffix_rfl, rfl⟩

theorem Idle.trans (first : Idle led s s') (second : Idle led s' s'') : Idle led s s'' :=
  ⟨second.ledger.trans first.ledger, second.mem.trans first.mem, second.wire.trans first.wire,
    first.past.trans second.past, second.sent.trans first.sent⟩

theorem sentLine?_idle {op : Op} (idle : op.idle) (answer : op.Ans) :
    sentLine? ⟨op, answer⟩ = none := by
  cases op <;> first | exact idle.elim | rfl

theorem idle_call {op : Op} (idle : op.idle) (answer : sig.Ans op) (s : Journal) :
    Idle led s ((interp host).recorded.next s op answer) := by
  have sent : lastSent (⟨op, answer⟩ :: s.2) = lastSent s.2 := by
    rw [lastSent, List.findSome?_cons, sentLine?_idle idle answer]
    rfl
  cases op with
  | append led e => exact idle.elim
  | openLedger => exact idle.elim
  | wireSend message => exact idle.elim
  | _ =>
      refine ⟨s.1.after_ledger answer nofun, congrFun (s.1.after_mem answer nofun nofun) led, ?_,
        List.suffix_cons .., sent⟩
      first | rfl | cases answer <;> rfl

/-- A stretch of such calls. -/
theorem wp_idle (led : Handle) {p : Prog α}
    (free : ∀ s (op : Op) (answer : op.Ans), op.idle → G s op answer) (body : p.Within Op.idle) :
    wp (interp host).recorded G (fun _ s' => Idle led s s') p s :=
  wp_within body (Idle.refl led) Idle.trans fun s op answer idle _ =>
    ⟨free s op answer idle, idle_call idle answer s⟩

end Idle

/-! ## The record and the disk -/

/-- What has been added to the ledger of `w`, and the `sent` lines on record, agree. -/
def Posted (w : World) (s : Journal) : Prop :=
  ∃ added, s.1.ledger = w.ledger ++ added ∧
    added.filter Entry.isSent = (s.2.filterMap sentLine?).reverse

theorem Posted.line {w : World} {s s' : Journal} {event : Event sig} {e : Entry}
    (posted : Posted w s) (ledger : s'.1.ledger = s.1.ledger ++ [e]) (past : s'.2 = event :: s.2)
    (line : sentLine? event = if e.isSent then some e else none) : Posted w s' := by
  obtain ⟨added, is, agree⟩ := posted
  refine ⟨added ++ [e], by rw [ledger, is, List.append_assoc], ?_⟩
  rw [past, List.filter_append, agree, List.filterMap_cons, line]
  cases sent : e.isSent <;> simp [sent]

theorem keeps_posted {host : Host} (w : World) :
    Keeps (interp host).recorded (fun _ _ _ => True) (Posted w) := by
  intro s op answer _ _ posted
  cases op with
  | append led e =>
      cases answer with
      | ok => exact posted.line rfl rfl rfl
      | lost error => exact posted
      | kept error => exact posted.line rfl rfl rfl
  | _ =>
      obtain ⟨added, is, agree⟩ := posted
      exact ⟨added, (s.1.after_ledger answer nofun).trans is, agree⟩

/-- A `sent` entry that is the only one added is the last one on record. -/
theorem Posted.lastSent {w : World} {s : Journal} {added : List Entry} {e : Entry}
    (posted : Posted w s) (grown : s.1.ledger = w.ledger ++ added)
    (once : (added.filter Entry.isSent).length ≤ 1) (member : e ∈ added) (sent : e.isSent) :
    lastSent s.2 = some e := by
  obtain ⟨added', is, agree⟩ := posted
  obtain rfl : added' = added := List.append_cancel_left (is.symm.trans grown)
  have only : added'.filter Entry.isSent = [e] := by
    have inFilter : e ∈ added'.filter Entry.isSent := List.mem_filter.2 ⟨member, sent⟩
    match lines : added'.filter Entry.isSent with
    | [] => simp [lines] at inFilter
    | [e'] => simpa [lines, eq_comm] using inFilter
    | _ :: _ :: _ => simp [lines] at once
  have line : s.2.filterMap sentLine? = [e] := by
    rw [← List.reverse_reverse (s.2.filterMap sentLine?), ← agree, only]
    rfl
  rw [Kernel.lastSent, ← List.head?_filterMap, line]
  rfl

/-- One `sent` entry at most has been added to the ledger of `w`, and it is as `P` says, given
the record. -/
def Once (P : List (Event sig) → Entry → Prop) (w : World) (s : Journal) : Prop :=
  ∃ added, s.1.ledger = w.ledger ++ added ∧ (added.filter Entry.isSent).length ≤ 1 ∧
    ∀ e ∈ added, e.isSent → P s.2 e

section Once

variable {host : Host} {G : Guarantee sig Journal} {P : List (Event sig) → Entry → Prop}
  {w : World}

theorem once_start (P : List (Event sig) → Entry → Prop) (w : World) : Once P w (w, []) :=
  ⟨[], (List.append_nil _).symm, Nat.zero_le 1, nofun⟩

theorem Once.same {s s' : Journal} (mono : ∀ {past past' e}, past <:+ past' → P past e → P past' e)
    (once : Once P w s) (ledger : s'.1.ledger = s.1.ledger) (grown : s.2 <:+ s'.2) :
    Once P w s' := by
  obtain ⟨added, is, one, holds⟩ := once
  exact ⟨added, ledger.trans is, one, fun e member sent => mono grown (holds e member sent)⟩

theorem Once.grows {s s' : Journal} {e : Entry}
    (mono : ∀ {past past' e}, past <:+ past' → P past e → P past' e) (once : Once P w s)
    (promised : e.isSent → s.1.ledger = w.ledger ∧ P s.2 e)
    (ledger : s'.1.ledger = s.1.ledger ++ [e]) (grown : s.2 <:+ s'.2) : Once P w s' := by
  cases sent : e.isSent with
  | true =>
      obtain ⟨untouched, holds⟩ := promised sent
      refine ⟨[e], by rw [ledger, untouched], List.length_filter_le .., fun e' member _ => ?_⟩
      obtain rfl := List.mem_singleton.1 member
      exact mono grown holds
  | false =>
      obtain ⟨added, is, one, holds⟩ := once
      refine ⟨added ++ [e], by rw [ledger, is, List.append_assoc], ?_, fun e' member sent' => ?_⟩
      · simpa [List.filter_append, sent] using one
      · rcases List.mem_append.1 member with earlier | new
        · exact mono grown (holds e' earlier sent')
        · obtain rfl := List.mem_singleton.1 new
          simp [sent] at sent'

/-- A guarantee that lets a `sent` line be appended only to the ledger of `w`, and only as `P`
says, keeps it to one. -/
theorem keeps_once (mono : ∀ {past past' e}, past <:+ past' → P past e → P past' e)
    (promise : ∀ s led e answer, G s (.append led e) answer → e.isSent →
      s.1.ledger = w.ledger ∧ P s.2 e) :
    Keeps (interp host).recorded G (Once P w) := by
  intro s op answer _ promised once
  cases op with
  | append led e =>
      have pays := promise s led e answer promised
      cases answer with
      | ok => exact once.grows mono pays rfl (List.suffix_cons ..)
      | lost error => exact once.same mono rfl (List.suffix_cons ..)
      | kept error => exact once.grows mono pays rfl (List.suffix_cons ..)
  | _ => exact once.same mono (s.1.after_ledger answer nofun) (List.suffix_cons ..)

end Once

/-! ## The send paths -/

/-- How a send path ends: with its `sent` line the last one on disk; or in an error, before any
is, or because the last call failed with that error. -/
def SendEnds (sats : ℕ) (payee : String) : Except Error String → Journal → Prop
  | .ok txid, s => ∃ seq sentAt, lastSent s.2 = some (.sent seq txid sats payee .pending sentAt) ∧
      .sent seq txid sats payee .pending sentAt ∈ s.1.ledger
  | .error error, s => lastSent s.2 = none ∨
      ∃ last before, s.2 = last :: before ∧ failure? last = some error

section Sends

variable {host : Host} {G : Guarantee sig Journal} {led : Handle} {s : Journal} {sats : ℕ}
  {payee : String} {maxFeeSats : Option ℕ}
  (free : ∀ s (op : Op) (answer : op.Ans), op.idle → G s op answer)
include free

theorem wp_record_ends {tx : Tx} (unsent : lastSent s.2 = none)
    (appends : ∀ s' seq sentAt answer, Idle led s s' →
      G s' (.append led (.sent seq tx.txid sats payee .pending sentAt)) answer) :
    wp (interp host).recorded G
      (fun result s' => SendEnds sats payee (result.map fun _ => tx.txid) s')
      (record led tx sats payee) s := by
  refine wp_bind.2 ?_
  rintro (_ | error | error) - <;> refine ⟨free _ _ _ trivial, ?_⟩
  · refine wp_bind.2 fun es _ => ⟨free _ _ _ trivial, bindPost_ok.2 ?_⟩
    refine wp_bind.2 fun sentAt _ => ⟨free _ _ _ trivial, bindPost_ok.2 (wp_bind.2 ?_)⟩
    have idle : Idle led s (({ s.1.putSidecar tx.txid (.hex tx) with clock := sentAt } : World),
        ⟨.nowUnix, sentAt⟩ :: ⟨.entries led, es⟩ :: ⟨.writeSidecar tx.txid tx, .ok⟩ :: s.2) :=
      ⟨rfl, rfl, rfl, ⟨[_, _, _], rfl⟩, rfl⟩
    rintro (_ | error | error) - <;> refine ⟨appends _ _ _ _ idle, ?_⟩
    · rintro (error | ⟨⟩) - <;> refine ⟨free _ _ _ trivial, ?_⟩
      · exact .inr ⟨_, _, rfl, rfl⟩
      · exact ⟨_, _, rfl, List.mem_append_right _ (List.mem_singleton_self _)⟩
    · exact .inl unsent
    · exact .inr ⟨_, _, rfl, rfl⟩
  · exact .inl unsent
  · exact .inl unsent

theorem wp_send_ends (unsent : lastSent s.2 = none)
    (appends : ∀ s' seq txid sentAt answer, Idle led s s' →
      G s' (.append led (.sent seq txid sats payee .pending sentAt)) answer) :
    wp (interp host).recorded G (SendEnds sats payee) (send host led payee sats maxFeeSats) s := by
  have builds : (buildSigned host payee sats maxFeeSats).Within Op.idle :=
    within_buildSigned trivial trivial (fun _ => trivial) fun _ => trivial
  refine wp_bind.2 (wp_mono (wp_idle led free builds) ?_)
  rintro (error | tx) s₁ idle
  · exact .inl (idle.sent.trans unsent)
  refine wp_bind.2 (wp_mono (wp_record_ends free (idle.sent.trans unsent)
    fun s' seq sentAt answer idle' => appends s' seq _ sentAt answer (idle.trans idle')) ?_)
  rintro (error | ⟨⟩) s₂ ends <;> exact ends

/-- Booking the outputs that were spent. -/
theorem wp_markSpent_ends {txid : String} {consumed : List OutPoint}
    (ended : SendEnds sats payee (.ok txid) s)
    (marks : ∀ s seq t vout answer, G s (.append led (.spSpent seq t vout)) answer) :
    wp (interp host).recorded G
      (fun result s' => SendEnds sats payee (result.map fun _ => txid) s')
      (markSpent led consumed) s := by
  refine wp_forEach (J := SendEnds sats payee (.ok txid)) ended ?_ fun _ ended => ended
  rintro op - s' ⟨seq, sentAt, sent, inLedger⟩
  refine wp_bind.2 (wp_bind.2 fun es _ => ⟨free _ _ _ trivial, bindPost_ok.2 ?_⟩)
  split
  · exact ⟨seq, sentAt, sent, inLedger⟩
  · refine wp_bind.2 ?_
    rintro (_ | error | error) - <;> refine ⟨marks _ _ _ _ _, ?_⟩
    · exact ⟨seq, sentAt, sent, List.mem_append_left _ inLedger⟩
    · exact .inr ⟨_, _, rfl, rfl⟩
    · exact .inr ⟨_, _, rfl, rfl⟩

theorem wp_spSend_ends (unsent : lastSent s.2 = none)
    (appends : spMinSats ≤ sats → (∃ scan spend, decode host payee = .ok (scan, spend, host.network)) →
      ∀ s' seq txid sentAt answer, Idle led s s' →
        G s' (.append led (.sent seq txid sats payee .pending sentAt)) answer)
    (marks : ∀ s seq t vout answer, G s (.append led (.spSpent seq t vout)) answer) :
    wp (interp host).recorded G (SendEnds sats payee) (spSend host led payee sats maxFeeSats) s := by
  unfold spSend
  split
  · exact .inl unsent
  rename_i enough
  refine wp_bind.2 (wp_ofExcept.2 ?_)
  rcases read : decode host payee with error | ⟨scan, spend, net⟩
  · exact .inl unsent
  refine bindPost_ok.2 ?_
  dsimp only
  split
  · exact .inl unsent
  rename_i same
  obtain rfl : net = host.network := not_not.1 same
  have pays := appends (Nat.not_lt.1 enough) ⟨scan, spend, read⟩
  refine wp_bind.2 fun es _ => ⟨free _ _ _ trivial, bindPost_ok.2 ?_⟩
  have idle₀ : Idle led s ((s.1 : World), ⟨.entries led, es⟩ :: s.2) :=
    ⟨rfl, rfl, rfl, List.suffix_cons .., rfl⟩
  refine wp_bind.2 (wp_ofExcept.2 ?_)
  rcases host.spSpendKeypair with error | ⟨⟩
  · exact .inl unsent
  have builds : (buildSignedToSp host scan spend sats maxFeeSats (Ledger.spUtxos es)).Within
      Op.idle := within_buildSignedToSp trivial trivial (fun _ => trivial) fun _ => trivial
  refine wp_bind.2 (wp_mono (wp_idle led free builds) ?_)
  rintro (error | ⟨tx, address, consumed⟩) s₁ idle₁
  · exact .inl (idle₁.sent.trans unsent)
  refine wp_bind.2 ?_
  rintro (error | policy) - <;> refine ⟨free _ _ _ trivial, ?_⟩
  · exact .inl (idle₁.sent.trans unsent)
  have idle₂ : Idle led s ((s₁.1 : World), ⟨.loadPolicy, .ok policy⟩ :: s₁.2) :=
    idle₀.trans (idle₁.trans ⟨rfl, rfl, rfl, List.suffix_cons .., rfl⟩)
  refine bindPost_ok.2 (wp_bind.2 ?_)
  rcases policy.checkAddress address.display with refusal | ⟨⟩
  · exact .inl (idle₁.sent.trans unsent)
  refine bindPost_ok.2 (wp_bind.2 (wp_mono (wp_record_ends free (idle₂.sent.trans unsent)
    fun s' seq sentAt answer idle' => pays s' seq _ sentAt answer (idle₂.trans idle')) ?_))
  rintro (error | ⟨⟩) s₂ ends
  · exact ends
  refine wp_bind.2 (wp_mono (wp_markSpent_ends free ends marks) ?_)
  rintro (error | ⟨⟩) s₃ ends' <;> exact ends'

end Sends

/-! ## The gates -/

/-- The clock and then the ledger have been read. -/
def World.timed (w : World) (led : Handle) (now : ℕ) (past : List (Event sig)) : Journal :=
  ({ w with clock := now }, ⟨.entries led, w.mem led⟩ :: ⟨.nowUnix, now⟩ :: past)

theorem idle_timed (w : World) (led : Handle) (now : ℕ) (past : List (Event sig)) :
    Idle led (w, past) (w.timed led now past) :=
  ⟨rfl, rfl, rfl, ⟨[_, _], rfl⟩, rfl⟩

section Gates

variable {host : Host} {G : Guarantee sig Journal} {led : Handle} {sats : ℕ} {w : World}
  {past : List (Event sig)} (free : ∀ s (op : Op) (answer : op.Ans), op.idle → G s op answer)
include free

theorem wp_spendGate_journal {Q : Except Error Unit → Journal → Prop}
    (refused : ∀ now error, ¬ AmountPassed host w led sats now →
      Q (.error error) (w.timed led now past))
    (passed : ∀ now, AmountPassed host w led sats now → Q (.ok ()) (w.timed led now past)) :
    wp (interp host).recorded G Q (spendGate led host.policy sats) (w, past) := by
  refine wp_bind.2 fun now _ => ⟨free _ _ _ trivial, bindPost_ok.2 ?_⟩
  refine wp_bind.2 fun es read => ⟨free _ _ _ trivial, bindPost_ok.2 ?_⟩
  obtain rfl : es = w.mem led := read
  have no := refused now
  have yes := passed now
  unfold AmountPassed at no yes
  revert no yes
  rcases host.policy.checkAmount sats _ with refusal | ⟨⟩
  · exact fun no _ => no _ nofun
  · exact fun _ yes => yes rfl

omit free in
theorem within_gated {α : Type} {P : Op → Prop} {payee : String} {pay : Option ℕ → Prog α}
    (loads : P .loadPolicy) (asks : P .nowUnix) (reads : P (.entries led))
    (pays : ∀ maxFeeSats, (pay maxFeeSats).Within P) : (gated led payee sats pay).Within P := by
  have gates : ∀ verdict, (gate verdict).Within P := by
    rintro (refusal | ⟨⟩) <;> trivial
  refine within_bind ⟨loads, fun _ => within_ofExcept⟩ fun _ => within_bind ?_ fun _ =>
    within_bind (gates _) fun _ => pays _
  exact within_bind ⟨asks, fun _ => trivial⟩ fun _ =>
    within_bind ⟨reads, fun _ => trivial⟩ fun _ => gates _

theorem wp_gated_journal {α : Type} {payee : String} {pay : Option ℕ → Prog α}
    {Q : Except Error α → Journal → Prop}
    (refused : ∀ error s', Idle led (w, past) s' → Q (.error error) s')
    (paid : ∀ now, AmountPassed host w led sats now →
      wp (interp host).recorded G Q (pay host.policy.maxFeeSats)
        (w.timed led now (⟨.loadPolicy, .ok host.policy⟩ :: past))) :
    wp (interp host).recorded G Q (gated led payee sats pay) (w, past) := by
  refine wp_bind.2 ?_
  have asked : ∀ answer, Idle led (w, past) (w, ⟨.loadPolicy, answer⟩ :: past) := fun _ =>
    ⟨rfl, rfl, rfl, List.suffix_cons .., rfl⟩
  rintro (error | policy) loaded <;> refine ⟨free _ _ _ trivial, ?_⟩
  · exact refused error _ (asked _)
  obtain rfl : policy = host.policy := loaded
  have timed : ∀ now, Idle led (w, past)
      (w.timed led now (⟨.loadPolicy, .ok host.policy⟩ :: past)) := fun now =>
    (asked _).trans (idle_timed w led now _)
  refine bindPost_ok.2 (wp_bind.2 (wp_spendGate_journal free ?_ ?_))
  · exact fun now error _ => refused error _ (timed now)
  intro now passed
  refine bindPost_ok.2 (wp_bind.2 ?_)
  rcases host.policy.checkAddress payee with refusal | ⟨⟩
  · exact refused _ _ (timed now)
  · exact paid now passed

end Gates

theorem checkTerms_ok {terms : Terms} {maxSats : ℕ} {netLabel : String} {isMainnet : Bool} :
    checkTerms terms maxSats netLabel isMainnet = .ok () ↔
      terms.cm402 = 1 ∧ terms.network = netLabel ∧
        Text.startsWith terms.payTo.toList (if isMainnet then "sp1" else "tsp1").toList = true ∧
          terms.sats ≤ maxSats := by
  unfold checkTerms
  generalize (if isMainnet then "sp1" else "tsp1") = wantHrp
  dsimp only
  split
  · rename_i version
    exact ⟨nofun, fun accepted => absurd accepted.1 version⟩
  split
  · rename_i network
    exact ⟨nofun, fun accepted => absurd accepted.2.1 network⟩
  split
  · rename_i foreign
    exact ⟨nofun, fun accepted => absurd accepted.2.2.1 (Bool.eq_false_iff.1 foreign)⟩
  split
  · rename_i above
    exact ⟨nofun, fun accepted => absurd accepted.2.2.2 (Nat.not_le.2 above)⟩
  rename_i version network code cap
  exact ⟨fun _ => ⟨not_not.1 version, not_not.1 network, eq_true_of_ne_false code,
    Nat.not_lt.1 cap⟩, fun _ => rfl⟩

/-! ## A call that fails ends the path -/

section Propagation

variable {host : Host} {led : Handle} {sats : ℕ} {maxFeeSats : Option ℕ}

theorem propagates_loadPolicy : loadPolicy.Propagates failure? := by
  rintro (error | policy)
  · exact ⟨fun _ failed => congrArg Program.throw (Option.some.inj failed), trivial⟩
  · exact ⟨nofun, trivial⟩

theorem propagates_syncWallet : syncWallet.Propagates failure? := by
  rintro (error | ⟨⟩)
  · exact ⟨fun _ failed => congrArg Program.throw (Option.some.inj failed), trivial⟩
  · exact ⟨nofun, trivial⟩

theorem propagates_finishPsbt {request : BuildRequest} :
    (finishPsbt request).Propagates failure? := by
  rintro (error | psbt)
  · exact ⟨fun _ failed => congrArg Program.throw (Option.some.inj failed), trivial⟩
  · exact ⟨nofun, trivial⟩

theorem propagates_signTx {tx : Tx} : (signTx tx).Propagates failure? := by
  rintro (error | ⟨⟩)
  · exact ⟨fun _ failed => congrArg Program.throw (Option.some.inj failed), trivial⟩
  · exact ⟨nofun, trivial⟩

theorem propagates_broadcast {tx : Tx} : (broadcast tx).Propagates failure? := by
  rintro (error | ⟨⟩)
  · exact ⟨fun _ failed => congrArg Program.throw (Option.some.inj failed), trivial⟩
  · exact ⟨nofun, trivial⟩

theorem propagates_httpGet {url : String} {payment : Option String} :
    (httpGet url payment).Propagates failure? := by
  rintro (error | page)
  · exact ⟨fun _ failed => congrArg Program.throw (Option.some.inj failed), trivial⟩
  · exact ⟨nofun, trivial⟩

theorem propagates_entries : (Ledger.entries led).Propagates failure? :=
  fun _ => ⟨nofun, trivial⟩

theorem propagates_nowUnix : nowUnix.Propagates failure? := fun _ => ⟨nofun, trivial⟩

theorem propagates_append {e : Entry} : (Ledger.append led e).Propagates failure? := by
  rintro (_ | error | error)
  · exact ⟨nofun, trivial⟩
  · exact ⟨fun _ failed => congrArg Program.throw (Option.some.inj failed), trivial⟩
  · exact ⟨fun _ failed => congrArg Program.throw (Option.some.inj failed), trivial⟩

theorem propagates_writeSidecar {txid : String} {tx : Tx} :
    (Ledger.writeSidecar txid tx).Propagates failure? := by
  rintro (_ | error | error)
  · exact ⟨nofun, trivial⟩
  · exact ⟨fun _ failed => congrArg Program.throw (Option.some.inj failed), trivial⟩
  · exact ⟨fun _ failed => congrArg Program.throw (Option.some.inj failed), trivial⟩

theorem propagates_gate {verdict : Except PolicyError Unit} :
    (gate verdict).Propagates failure? := by
  rcases verdict with refusal | ⟨⟩ <;> trivial

theorem propagates_signed {psbt : Psbt} : (signed psbt sats maxFeeSats).Propagates failure? := by
  refine propagates_bind ?_ fun _ => propagates_bind propagates_signTx fun _ => trivial
  unfold feeCap
  split
  · split <;> trivial
  · trivial

theorem propagates_buildSignedToSp {scan spend : PublicKey} {funds : List Ledger.SpUtxo} :
    (buildSignedToSp host scan spend sats maxFeeSats funds).Propagates failure? :=
  propagates_bind (propagates_bind propagates_loadPolicy fun _ => propagates_gate) fun _ =>
    propagates_bind propagates_syncWallet fun _ => propagates_bind propagates_ofExcept fun _ =>
      propagates_bind propagates_finishPsbt fun _ =>
        propagates_bind propagates_signed fun _ => trivial

theorem propagates_record {tx : Tx} {payee : String} :
    (record led tx sats payee).Propagates failure? :=
  propagates_bind propagates_writeSidecar fun _ => propagates_bind propagates_entries fun _ =>
    propagates_bind propagates_nowUnix fun _ => propagates_bind propagates_append fun _ =>
      propagates_broadcast

theorem propagates_markSpent {consumed : List OutPoint} :
    (markSpent led consumed).Propagates failure? := by
  refine propagates_forEach fun op _ => propagates_bind ?_ fun _ => trivial
  refine propagates_bind propagates_entries fun es => ?_
  split
  · trivial
  · exact propagates_bind propagates_append fun _ => trivial

theorem propagates_spSend {code : String} :
    (spSend host led code sats maxFeeSats).Propagates failure? := by
  unfold spSend
  split
  · trivial
  refine propagates_bind propagates_ofExcept fun ⟨scan, spend, net⟩ => ?_
  dsimp only
  split
  · trivial
  exact propagates_bind propagates_entries fun _ => propagates_bind propagates_ofExcept fun _ =>
    propagates_bind propagates_buildSignedToSp fun ⟨_, _, _⟩ =>
      propagates_bind propagates_loadPolicy fun _ => propagates_bind propagates_gate fun _ =>
        propagates_bind propagates_record fun _ =>
          propagates_bind propagates_markSpent fun _ => trivial

theorem propagates_gated {α : Type} {payee : String} {pay : Option ℕ → Prog α}
    (pays : ∀ cap, (pay cap).Propagates failure?) :
    (gated led payee sats pay).Propagates failure? :=
  propagates_bind propagates_loadPolicy fun _ =>
    propagates_bind (propagates_bind propagates_nowUnix fun _ =>
      propagates_bind propagates_entries fun _ => propagates_gate) fun _ =>
        propagates_bind propagates_gate fun _ => pays _

theorem propagates_retryPaid {url txid : String} {left : ℕ} :
    (retryPaid url txid sats left).Propagates failure? := by
  induction left with
  | zero => trivial
  | succ left ih =>
      refine propagates_bind propagates_httpGet fun retry => ?_
      split
      · trivial
      · exact ih

theorem propagates_fetch {url : String} {maxSats : ℕ} :
    (fetch host led url maxSats).Propagates failure? := by
  unfold fetch
  split
  · trivial
  refine propagates_bind propagates_httpGet fun first => ?_
  split
  · trivial
  split
  · trivial
  exact propagates_bind propagates_ofExcept fun _ => propagates_bind propagates_ofExcept fun _ =>
    propagates_bind (propagates_gated fun _ => propagates_spSend) fun _ => propagates_retryPaid

end Propagation

end ComputerMoney.Kernel

/-
# Safety.SpendLimits -- the caps hold over whole runs, not call by call

Five entry points pay, each with its own copy of the gate, and three builders make the
fee check.  The daily gate is made against the window that ends when it is made; the
entry is stamped later, after the sync, the build and the signature.  What carries the
bound across the gap is `Cleared`: every send on file is stamped no later than the
check, so a window that reaches the new entry looks back no further than the check did.

`sends_within_limits` is the result, for any sequence of payments, any failures and any
crashes in between, from an empty ledger: the per-payment cap, the rolling window at
every instant, the fee cap, and the mainnet guard.
-/
import ComputerMoney.Kernel.PaySpec
import ComputerMoney.Kernel.Script

namespace ComputerMoney.Safety

set_option autoImplicit false

open Theory Theory.Program Kernel

/-! ## The run -/

/-- One payment after another. -/
def payments (host : Host) (todo : List Payment) : Prog Unit :=
  .forEach todo fun payment => payment.perform host

/-- There are at most this many satoshis. -/
def supplySats : ℕ := 21 * 10 ^ 14

/-- The clock does not run backwards, and no build finishes for more than the supply. -/
def Sober : Guarantee sig World
  | w, .nowUnix, now => w.clock ≤ (now : ℕ)
  | _, .finishPsbt request, .ok _ => request.sats ≤ supplySats
  | _, _, _ => True

/-! ## The window -/

/-- Total sent from `opens` to `closes`, both included. -/
def spentBetween (entries : List Entry) (opens closes : ℕ) : ℕ :=
  ((entries.filterMap Entry.sentSats?).filterMap fun send =>
    if opens ≤ send.2 ∧ send.2 ≤ closes then some send.1 else none).sum

/-- Total sent in the window `[t - 86400, t]`. -/
def spentWithin (entries : List Entry) (t : ℕ) : ℕ := spentBetween entries (t - dailyWindowSecs) t

/-- Total sent at or after `cutoff`, before the 64-bit sum wraps. -/
def spentFrom (entries : List Entry) (cutoff : ℕ) : ℕ :=
  ((entries.filterMap Entry.sentSats?).filterMap fun send =>
    if cutoff ≤ send.2 then some send.1 else none).sum

theorem spentBetween_append (entries : List Entry) (e : Entry) (opens closes : ℕ) :
    spentBetween (entries ++ [e]) opens closes =
      spentBetween entries opens closes + spentBetween [e] opens closes := by
  simp only [spentBetween, List.filterMap_append, List.sum_append]

theorem spentBetween_sent (seq : ℕ) (txid : String) (sats : ℕ) (payee : String) (status : Status)
    (sentAt opens closes : ℕ) :
    spentBetween [.sent seq txid sats payee status sentAt] opens closes =
      if opens ≤ sentAt ∧ sentAt ≤ closes then sats else 0 := by
  by_cases inside : opens ≤ sentAt ∧ sentAt ≤ closes <;>
    simp [spentBetween, Entry.sentSats?, inside]

/-- A window inside what a cutoff counts holds no more than it. -/
theorem spentBetween_le_spentFrom {entries : List Entry} {opens closes cutoff : ℕ}
    (inside : cutoff ≤ opens) : spentBetween entries opens closes ≤ spentFrom entries cutoff := by
  unfold spentBetween spentFrom
  induction entries.filterMap Entry.sentSats? with
  | nil => simp
  | cons send rest ih =>
      by_cases seen : opens ≤ send.2 ∧ send.2 ≤ closes
      · have counted : cutoff ≤ send.2 := by omega
        simpa [seen, counted] using ih
      · by_cases counted : cutoff ≤ send.2
        · simp only [List.filterMap_cons, seen, counted, if_false, if_true, List.sum_cons]
          omega
        · simpa [seen, counted] using ih

/-- Where every send is stamped by `now`, a count from `cutoff` on is a window up to `now`. -/
theorem spentFrom_eq_spentBetween {entries : List Entry} {cutoff now : ℕ}
    (stamped : ∀ send ∈ entries.filterMap Entry.sentSats?, send.2 ≤ now) :
    spentFrom entries cutoff = spentBetween entries cutoff now := by
  refine congrArg List.sum (List.filterMap_congr fun send member => ?_)
  simp only [stamped send member, and_true]

/-! ## The invariant -/

/-- What every send on file, and every signature, satisfies. -/
structure Limited (host : Host) (w : World) : Prop where
  amount : ∀ {seq txid sats payee status sentAt},
    Entry.sent seq txid sats payee status sentAt ∈ w.ledger →
      ∀ cap, host.policy.maxPaymentSats = some cap → sats ≤ cap
  stamped : ∀ send ∈ w.ledger.filterMap Entry.sentSats?, send.2 ≤ w.clock
  window : ∀ cap, host.policy.dailyLimitSats = some cap → ∀ t, spentWithin w.ledger t ≤ cap
  built : ∀ {seq txid sats payee status sentAt},
    Entry.sent seq txid sats payee status sentAt ∈ w.ledger →
      ∃ tx ∈ w.signed, tx.txid = txid ∧ tx.sats = sats
  fee : ∀ tx ∈ w.signed, ∀ cap, host.policy.maxFeeSats = some cap → tx.fee ≤ cap
  capped : ∀ {seq txid sats payee status sentAt},
    Entry.sent seq txid sats payee status sentAt ∈ w.ledger →
      ensureMainnetCapped host.network host.policy = .ok ()

/-- What must hold where a send of `sats` is appended. -/
structure MaySend (host : Host) (w : World) (txid : String) (sats sentAt : ℕ) : Prop where
  amount : ∀ cap, host.policy.maxPaymentSats = some cap → sats ≤ cap
  stamped : sentAt = w.clock
  window : ∀ cap, host.policy.dailyLimitSats = some cap → ∀ t, t - dailyWindowSecs ≤ sentAt →
    sentAt ≤ t → spentWithin w.ledger t + sats ≤ cap
  built : ∃ tx ∈ w.signed, tx.txid = txid ∧ tx.sats = sats
  capped : ensureMainnetCapped host.network host.policy = .ok ()

/-- The promise of each call: a send is appended only where it may be, and nothing is
signed above the fee cap. -/
def KeepsLimits (host : Host) : Guarantee sig World
  | w, .append _ (.sent _ txid sats _ _ sentAt), _ => MaySend host w txid sats sentAt
  | _, .sign tx, _ => ∀ cap, host.policy.maxFeeSats = some cap → tx.fee ≤ cap
  | _, _, _ => True

theorem permits (host : Host) : PermitsBuild (KeepsLimits host) host.policy.maxFeeSats where
  prepares _ op _ prepares := by cases op <;> first | exact prepares.elim | trivial
  signs _ _ _ under := under

theorem Limited.blank (host : Host) : Limited host World.blank where
  amount member := nomatch member
  stamped _ member := nomatch member
  window _ _ _ := Nat.zero_le _
  built member := nomatch member
  fee _ member := nomatch member
  capped member := nomatch member

/-- Nothing but the file, the clock and the signatures matters. -/
theorem Limited.mono {host : Host} {w w' : World} (limited : Limited host w)
    (ledger : w'.ledger = w.ledger) (clock : w.clock ≤ w'.clock) (signed : w'.signed = w.signed) :
    Limited host w' where
  amount member := limited.amount (ledger ▸ member)
  stamped send member := Nat.le_trans (limited.stamped send (ledger ▸ member)) clock
  window cap set t := ledger ▸ limited.window cap set t
  built member := signed ▸ limited.built (ledger ▸ member)
  fee tx member := limited.fee tx (signed ▸ member)
  capped member := limited.capped (ledger ▸ member)

/-- A new line is no send, or one that may be made here. -/
theorem Limited.written {host : Host} {w : World} {entry : Entry} (limited : Limited host w)
    (may : ∀ {seq txid sats payee status sentAt}, entry = .sent seq txid sats payee status sentAt →
      MaySend host w txid sats sentAt) : Limited host (w.written entry) where
  amount member := by
    rcases List.mem_append.1 member with before | new
    · exact limited.amount before
    · exact (may (List.mem_singleton.1 new).symm).amount
  stamped send member := by
    rw [World.written, List.filterMap_append, List.mem_append] at member
    rcases member with before | new
    · exact limited.stamped send before
    · cases entry with
      | sent seq txid sats payee status sentAt =>
          obtain rfl : send = (sats, sentAt) := by simpa [Entry.sentSats?] using new
          exact Nat.le_of_eq (may rfl).stamped
      | _ => simp [Entry.sentSats?] at new
  window cap set t := by
    have before := limited.window cap set t
    unfold spentWithin at before ⊢
    rw [World.written, spentBetween_append]
    cases entry with
    | sent seq txid sats payee status sentAt =>
        have added := (may rfl).window cap set t
        rw [spentBetween_sent]
        split
        · rename_i inside
          exact added inside.1 inside.2
        · exact before
    | _ => exact before
  built member := by
    rcases List.mem_append.1 member with before | new
    · exact limited.built before
    · exact (may (List.mem_singleton.1 new).symm).built
  fee := limited.fee
  capped member := by
    rcases List.mem_append.1 member with before | new
    · exact limited.capped before
    · exact (may (List.mem_singleton.1 new).symm).capped

theorem keeps_limited (host : Host) :
    Keeps ((interp host).restrict Sober) (KeepsLimits host) (Limited host) := by
  intro w op answer allowed promised limited
  cases op with
  | append led entry =>
      have grown : Limited host (w.written entry) :=
        limited.written fun is => by subst is; exact promised
      cases answer with
      | ok => exact grown.mono rfl (Nat.le_refl _) rfl
      | lost error => exact limited
      | kept error => exact grown
  | nowUnix => exact limited.mono rfl allowed.2 rfl
  | sign tx =>
      exact
        { amount := limited.amount
          stamped := limited.stamped
          window := limited.window
          built := fun member => by
            obtain ⟨tx', signed, is⟩ := limited.built member
            exact ⟨tx', List.mem_cons_of_mem _ signed, is⟩
          fee := fun tx' member => by
            rcases List.mem_cons.1 member with rfl | before
            · exact promised
            · exact limited.fee tx' before
          capped := limited.capped }
  | _ =>
      exact limited.mono (w.after_ledger answer nofun)
        (Nat.le_of_eq (w.after_clock answer nofun).symm) (w.after_signed answer nofun)

/-! ## From the gate to the append -/

/-- The amount gate passed, at a time no later than now, and every send on file was
stamped by then. -/
def Cleared (host : Host) (sats : ℕ) (w : World) : Prop :=
  ∃ now ≤ w.clock,
    host.policy.checkAmount sats (Ledger.spentSince w.ledger (now - dailyWindowSecs)) = .ok () ∧
      ∀ send ∈ w.ledger.filterMap Entry.sentSats?, send.2 ≤ now

/-- Within the supply, the 64-bit sum of a window under a cap does not wrap. -/
theorem spentSince_eq {host : Host} {w : World} {now cap : ℕ} (limited : Limited host w)
    (set : host.policy.dailyLimitSats = some cap) (small : cap < 2 ^ 63)
    (stamped : ∀ send ∈ w.ledger.filterMap Entry.sentSats?, send.2 ≤ now) :
    Ledger.spentSince w.ledger (now - dailyWindowSecs) =
      spentFrom w.ledger (now - dailyWindowSecs) ∧
      spentFrom w.ledger (now - dailyWindowSecs) < 2 ^ 63 := by
  have bound : spentFrom w.ledger (now - dailyWindowSecs) ≤ cap := by
    rw [spentFrom_eq_spentBetween stamped]
    exact limited.window cap set now
  have wide : spentFrom w.ledger (now - dailyWindowSecs) < 2 ^ 64 := by omega
  exact ⟨u64Sum_eq_of_lt wide, by omega⟩

/-- A gate that passed and a build that finished make the send one that may be made,
whenever it is stamped. -/
theorem Cleared.maySend {host : Host} {w w' v : World} {tx : Tx} {sats : ℕ}
    (small : ∀ cap, host.policy.dailyLimitSats = some cap → cap < 2 ^ 63)
    (limited : Limited host w) (cleared : Cleared host sats w)
    (built : Built host Sober sats host.policy.maxFeeSats w tx w')
    (ledger : v.ledger = w.ledger) (signed : tx ∈ v.signed) (later : w.clock ≤ v.clock) :
    MaySend host v tx.txid sats v.clock := by
  obtain ⟨check, before, passed, stamped⟩ := cleared
  obtain ⟨request, psbt, requested, bounded, rfl⟩ := built.finished
  have supply : sats ≤ supplySats := requested ▸ bounded
  refine ⟨fun cap set => Policy.checkAmount_cap passed set, rfl, ?_, ⟨_, signed, rfl, rfl⟩,
    built.capped⟩
  intro cap set t _ reaches
  obtain ⟨unwrapped, room⟩ := spentSince_eq limited set (small cap set) stamped
  have narrow : Ledger.spentSince w.ledger (check - dailyWindowSecs) + sats < 2 ^ 64 := by
    unfold supplySats at supply
    omega
  have fits := Policy.checkAmount_daily passed set narrow
  have inside : spentWithin w.ledger t ≤ spentFrom w.ledger (check - dailyWindowSecs) :=
    spentBetween_le_spentFrom (by omega)
  rw [ledger]
  omega

section Run

variable {host : Host} (small : ∀ cap, host.policy.dailyLimitSats = some cap → cap < 2 ^ 63)

include small

theorem wp_record_within_limits {w w' : World} {led : Handle} {tx : Tx} {sats : ℕ} {payee : String}
    {consumed : List OutPoint} (limited : Limited host w) (cleared : Cleared host sats w)
    (built : Built host Sober sats host.policy.maxFeeSats w tx w') :
    wp ((interp host).restrict Sober) (KeepsLimits host) (fun _ _ => True)
      (record led tx sats payee >>= fun _ => markSpent led consumed) w' := by
  obtain rfl := built.world
  refine wp_bind.2 (wp_record (permits host) (fun _ _ => trivial) (fun _ => trivial) ?_ ?_)
  · intro now steady _
    exact cleared.maySend small limited built rfl (List.mem_cons_self ..) steady
  · intro now _
    refine ⟨fun _ => trivial, wp_unguarded (within_markSpent ?_ ?_)⟩
    · intro _ _
      trivial
    · intro _ _ _ _ _
      trivial

omit small in
/-- The gate, made on a freshly loaded instance, clears the amount. -/
theorem cleared_of_passed {w v : World} {led : Handle} {sats now : ℕ}
    (limited : Limited host w) (loaded : w.mem led = w.ledger) (later : w.clock ≤ now)
    (passed : AmountPassed host w led sats now) (ledger : v.ledger = w.ledger)
    (clock : v.clock = now) : Cleared host sats v := by
  refine ⟨now, Nat.le_of_eq clock.symm, ?_, ?_⟩
  · rw [ledger, ← loaded]
    exact passed
  · intro send member
    exact Nat.le_trans (limited.stamped send (ledger ▸ member)) later

/-- Every entry point keeps every limit. -/
theorem wp_perform {w : World} (limited : Limited host w) (payment : Payment) :
    wp ((interp host).restrict Sober) (KeepsLimits host) (fun _ _ => True)
      (payment.perform host) w := by
  have opened : Limited host (w.load w.fresh) := limited.mono rfl (Nat.le_refl _) rfl
  -- What each path has left to show, once its own gate has passed on the opened ledger.
  have ready : ∀ (wire : List Message) {sats : ℕ} (now : ℕ), w.clock ≤ now →
      AmountPassed host (w.load w.fresh) w.fresh sats now →
      let v := { w.load w.fresh with clock := now, wire := wire }
      Limited host v ∧ Cleared host sats v := by
    intro wire sats now later passed
    exact ⟨opened.mono rfl later rfl, cleared_of_passed opened w.load_mem later passed rfl rfl⟩
  cases payment with
  | tunnel ep peerPub sats =>
      refine wp_bind.2 (wp_attempt.2 (wp_tunnelPay (permits host) (fun _ _ => trivial) ?_))
      intro now address later passed _
      obtain ⟨limited', cleared⟩ := ready (.addrRequest sats :: w.wire) now later passed
      exact wp_send (permits host) (fun _ _ => trivial) fun tx consumed w' built =>
        wp_record_within_limits small limited' cleared built
  | sendPayment payee sats =>
      refine wp_bind.2 (wp_attempt.2 (wp_bind.2 (wp_openWithIdentity (permits host)
        (fun _ => trivial) (wp_gated (permits host) (fun _ _ => trivial) ?_))))
      intro now later passed _
      obtain ⟨limited', cleared⟩ := ready w.wire now later passed
      exact wp_sendSpendingSp (permits host) (fun _ _ => trivial) fun tx consumed w' built =>
        wp_record_within_limits small limited' cleared built
  | spPay code sats =>
      refine wp_bind.2 (wp_attempt.2 (wp_bind.2 (wp_openWithIdentity (permits host)
        (fun _ => trivial) (wp_gated (permits host) (fun _ _ => trivial) ?_))))
      intro now later passed _
      obtain ⟨limited', cleared⟩ := ready w.wire now later passed
      exact wp_spSend (permits host) (fun _ _ => trivial) fun tx consumed w' built =>
        wp_record_within_limits small limited' cleared built
  | cliSpPay code sats =>
      refine wp_bind.2 (wp_attempt.2 (wp_bind.2 (wp_openWithIdentity (permits host)
        (fun _ => trivial) (wp_gated (permits host) (fun _ _ => trivial) ?_))))
      intro now later passed _
      obtain ⟨limited', cleared⟩ := ready w.wire now later passed
      exact wp_spSend (permits host) (fun _ _ => trivial) fun tx consumed w' built =>
        wp_record_within_limits small limited' cleared built
  | fetch url maxSats =>
      refine wp_bind.2 (wp_attempt.2 (wp_bind.2 (wp_openWithIdentity (permits host)
        (fun _ => trivial) (wp_fetch (permits host) (fun _ _ => trivial) ?_))))
      intro terms now _ later passed _
      obtain ⟨limited', cleared⟩ := ready w.wire now later passed
      exact wp_spSend (permits host) (fun _ _ => trivial) fun tx consumed w' built =>
        wp_record_within_limits small limited' cleared built

theorem wp_payments (todo : List Payment) {w : World} (limited : Limited host w) :
    wp ((interp host).restrict Sober) (KeepsLimits host) (fun _ _ => True)
      (payments host todo) w := by
  refine wp_forEach limited (fun payment _ w limited => ?_) fun _ _ => trivial
  refine wp_mono (wp_keeps (keeps_limited host) limited (wp_perform small limited payment)) ?_
  rintro (e | ⟨⟩) w' ⟨-, limited'⟩
  · trivial
  · exact limited'

/-- **The caps hold in every state of every run.**  From an empty ledger, whatever is
paid, whatever fails and wherever the process dies: each send is within the per-payment
cap, every 24-hour window within the daily cap, each send is a transaction that was
signed under the fee cap, and mainnet sends exist only under a spend cap and a fee cap. -/
theorem sends_within_limits {w : World}
    (reached : Reachable ((interp host).restrict Sober) (payments host) World.crash World.blank w) :
    (∀ seq txid sats payee status sentAt,
      Entry.sent seq txid sats payee status sentAt ∈ w.ledger →
        (∀ cap, host.policy.maxPaymentSats = some cap → sats ≤ cap) ∧
        (∃ tx ∈ w.signed, tx.txid = txid ∧ tx.sats = sats) ∧
        (host.network = .bitcoin → host.policy.maxFeeSats ≠ none ∧
          (host.policy.maxPaymentSats ≠ none ∨ host.policy.dailyLimitSats ≠ none))) ∧
      (∀ tx ∈ w.signed, ∀ cap, host.policy.maxFeeSats = some cap → tx.fee ≤ cap) ∧
      ∀ cap, host.policy.dailyLimitSats = some cap → ∀ t, spentWithin w.ledger t ≤ cap := by
  have survives : ∀ w, Limited host w → Limited host w.crash := fun _ limited =>
    limited.mono rfl (Nat.le_refl _) rfl
  have limited : Limited host w := reached.inv (Limited.blank host) (keeps_limited host) survives
    fun todo _ limited => wp_payments small todo limited
  refine ⟨fun seq txid sats payee status sentAt member => ⟨limited.amount member,
    limited.built member, fun mainnet => ?_⟩, limited.fee, limited.window⟩
  obtain ⟨spend, fee⟩ := ensureMainnetCapped_ok.1 (limited.capped member) mainnet
  exact ⟨fee, spend⟩

end Run

/-- Mainnet, with every cap set. -/
def cappedHost : Host := .sample .bitcoin ⟨some 50000, some 60000, some 500, []⟩

/-- Every build the supply covers finishes, at a fee of 141 sats. -/
def cappedScript : Script :=
  { Script.silent with
    now := 1700000000
    finish := fun request =>
      if request.sats ≤ supplySats then .ok ⟨sampleTxid, 141, [], sampleAddress⟩
      else .error "insufficient funds" }

/-- Two payments of 40000 in a row: the first is recorded, the second is over the day. -/
def cappedRun : World :=
  (run (cappedScript.handle cappedHost) (payments cappedHost
    [.sendPayment sampleAddress.display 40000, .sendPayment sampleAddress.display 40000])
    World.blank).2

theorem sends_within_limits_capped :
    cappedRun.ledger = [.sent 0 sampleTxid 40000 sampleAddress.display .pending 1700000000] ∧
      ∀ t, spentWithin cappedRun.ledger t ≤ 60000 := by
  have small : ∀ cap, cappedHost.policy.dailyLimitSats = some cap → cap < 2 ^ 63 := by
    intro cap set
    cases set
    decide
  have sober : ∀ op w, Sober w op (cappedScript.answer cappedHost w op) := by
    intro op w
    cases op with
    | nowUnix => exact Nat.le_max_left _ _
    | finishPsbt request =>
        by_cases covered : request.sats ≤ supplySats
        · rw [show cappedScript.answer cappedHost w (.finishPsbt request) = _ from if_pos covered]
          exact covered
        · rw [show cappedScript.answer cappedHost w (.finishPsbt request) = _ from if_neg covered]
          trivial
    | _ => trivial
  refine ⟨by decide, ?_⟩
  exact (sends_within_limits small ⟨_, _, .boot, (cappedScript.exec cappedHost sober _ _).reach⟩).2.2
    _ rfl

end ComputerMoney.Safety

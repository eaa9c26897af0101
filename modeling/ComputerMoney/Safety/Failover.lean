/-
# Safety.Failover -- when a card with several endpoints is paid more than once

The pay commands dial a card's endpoints in order until one session succeeds, and they
take every error of a session alike.  A session can fail after it has appended its
`sent`: the broadcast errors, the notify cannot be written, the append itself reports
an error for a line that is on disk.  The next endpoint is then paid too.

A `Scenario` says how every step of one attempt goes, so a list of them is a pattern of
success and failure of one whole invocation.  `leaves` is the `sent` an attempt puts on
disk, `PaysOnce` the condition on card, ledger and pattern, and
`paid_at_most_once_iff` says that it is exactly the one under which an invocation pays
at most once.
-/
import ComputerMoney.Kernel.PaySpec
import ComputerMoney.Kernel.Script

namespace ComputerMoney.Safety

set_option autoImplicit false

open Theory Theory.Program Kernel

/-! ## The pattern of one invocation -/

/-- How the steps of one attempt go, in the order in which they are made. -/
structure Scenario where
  opens : Except Error Unit
  connects : Except Error Unit
  /-- The first policy load, before the amount gate. -/
  loads : Except Error Unit
  /-- The clock at the amount gate. -/
  gateAt : ℕ
  requests : Except Error Unit
  /-- The second policy load, inside the builder. -/
  reloads : Except Error Unit
  syncs : Except Error Unit
  finishes : BuildRequest → Except Error Psbt
  signs : Except Error Unit
  stages : WriteAnswer
  /-- The clock at the record. -/
  sentAt : ℕ
  appends : AppendAnswer
  broadcasts : Except Error Unit
  notifies : Except Error Unit

/-- Every step works, except that the wallet has nothing to finish. -/
def Scenario.idle : Scenario where
  opens := .ok ()
  connects := .ok ()
  loads := .ok ()
  gateAt := 0
  requests := .ok ()
  reloads := .ok ()
  syncs := .ok ()
  finishes _ := .error "no utxo"
  signs := .ok ()
  stages := .ok
  sentAt := 0
  appends := .ok
  broadcasts := .ok ()
  notifies := .ok ()

/-- An invocation under way: the scenario of the attempt being made, whether that attempt
has asked for an address yet, and the scenarios of the attempts to come. -/
structure Drive where
  world : World
  current : Scenario
  asked : Bool
  later : List Scenario

namespace Drive

variable (host : Host) (d : Drive)

def start (w : World) (scenarios : List Scenario) : Drive := ⟨w, .idle, false, scenarios⟩

/-- The answer the pattern gives.  Policy and clock are read twice in an attempt, once
before the address is asked for and once after. -/
def answer : (op : Op) → op.Ans
  | .openLedger => d.current.opens.map fun _ => d.world.fresh
  | .connect _ _ => d.current.connects
  | .loadPolicy => (if d.asked then d.current.reloads else d.current.loads).map fun _ => host.policy
  | .nowUnix => (if d.asked then d.current.sentAt else d.current.gateAt : ℕ)
  | .wireSend (.addrRequest _) => d.current.requests
  | .wireSend _ => d.current.notifies
  | .syncWallet => d.current.syncs
  | .finishPsbt request => d.current.finishes request
  | .sign _ => d.current.signs
  | .writeSidecar _ _ => d.current.stages
  | .append _ _ => d.current.appends
  | .broadcast _ => d.current.broadcasts
  | op => Script.silent.answer host d.world op

/-- The dialing line opens an attempt; the address request divides it. -/
def turn : Op → Drive
  | .eprintln _ =>
      match d.later with
      | [] => d
      | scenario :: later => { d with current := scenario, asked := false, later := later }
  | .wireSend (.addrRequest _) => { d with asked := true }
  | _ => d

def handle (op : Op) (d : Drive) : op.Ans × Drive :=
  (d.answer host op, { d.turn op with world := d.world.after op (d.answer host op) })

/-- **Every pattern is one the host allows**: what is driven by it is a run. -/
theorem exec {α : Type} (p : Prog α) :
    Exec (interp host) p d.world (run (handle host) p d).1 (run (handle host) p d).2.world := by
  refine run_exec Drive.world p d (fun op d => ?_) fun _ _ => rfl
  obtain ⟨w, sc, asked, later⟩ := d
  cases op with
  | openLedger =>
      show World.allows host w .openLedger (sc.opens.map fun _ => w.fresh)
      rcases sc.opens with e | ⟨⟩
      · trivial
      · rfl
  | loadPolicy =>
      show World.allows host w .loadPolicy ((if asked then sc.reloads else sc.loads).map _)
      rcases (if asked then sc.reloads else sc.loads) with e | ⟨⟩
      · trivial
      · rfl
  | listSidecars => intro name; exact Iff.rfl
  | connect | nowUnix | wireSend | syncWallet | finishPsbt | sign | writeSidecar | append
  | broadcast => trivial
  | _ => exact Script.silent.allowed host w _

end Drive

/-! ## What one attempt leaves -/

/-- An endpoint of the card and how the attempt on it goes. -/
abbrev Try := Endpoint × Scenario

section Attempt

variable (host : Host) (wg : String) (sats : ℕ) (file : List Entry)

/-- The address the attempt goes on to pay: every step up to the blocklist went through. -/
def agreed (t : Try) : Option String := do
  (host.parsePublicKey wg).toOption
  (host.parseSocketAddr t.1.addr).toOption
  t.2.opens.toOption
  t.2.connects.toOption
  t.2.loads.toOption
  let spent := Ledger.spentSince file (t.2.gateAt - dailyWindowSecs)
  (host.policy.checkAmount sats spent).toOption
  t.2.requests.toOption
  let (address, _) ← firstResponse t.1.inbox
  (host.policy.checkAddress address).toOption
  return address

/-- The transaction it signs: every step of the build went through. -/
def built (t : Try) (address : String) : Option Tx := do
  t.2.reloads.toOption
  (ensureMainnetCapped host.network host.policy).toOption
  t.2.syncs.toOption
  let recipient ← (host.parseAddress address).toOption
  let psbt ← (t.2.finishes (.plain recipient sats)).toOption
  (host.policy.checkFee psbt.fee).toOption
  t.2.signs.toOption
  return ⟨psbt.txid, sats, psbt.fee, psbt.inputs⟩

/-- The line of the append is on disk, whatever the append returned. -/
def Scenario.writes (sc : Scenario) : Prop := sc.stages = .ok ∧ ∀ e, sc.appends ≠ .lost e

instance (sc : Scenario) : Decidable sc.writes :=
  decidable_of_iff (sc.stages = .ok ∧ (sc.appends matches .lost _) = false) (by
    unfold Scenario.writes
    cases sc.appends <;> simp)

/-- Nothing goes wrong from the append on. -/
def Scenario.completes (sc : Scenario) : Prop :=
  sc.appends = .ok ∧ sc.broadcasts = .ok () ∧ sc.notifies = .ok ()

instance (sc : Scenario) : Decidable sc.completes := inferInstanceAs (Decidable (_ ∧ _ ∧ _))

/-- The `sent` the attempt puts on disk when it finds `file` there, if any. -/
def leaves (t : Try) : Option Entry := do
  let address ← agreed host wg sats file t
  let tx ← built host sats t address
  if t.2.writes then
    return .sent (Ledger.nextSeq file) tx.txid sats address .pending t.2.sentAt
  none

/-- What an attempt has done.  Only a session that left its `sent` and completed
succeeds. -/
structure Attempted (t : Try) (d : Drive) (result : Except Error Unit) (d' : Drive) : Prop where
  ledger : d'.world.ledger = d.world.ledger ++ (leaves host wg sats d.world.ledger t).toList
  net : d'.world.net.length ≤
    d.world.net.length + (leaves host wg sats d.world.ledger t).toList.length
  later : d'.later = d.later
  succeeds : result = .ok () ↔
    (leaves host wg sats d.world.ledger t).isSome ∧ t.2.completes

end Attempt

/-- The parts of an invocation that a step before the record leaves alone. -/
structure Drive.Same (d d' : Drive) : Prop where
  ledger : d'.world.ledger = d.world.ledger
  mem : d'.world.mem = d.world.mem
  net : d'.world.net = d.world.net
  current : d'.current = d.current
  asked : d'.asked = d.asked
  later : d'.later = d.later

section Steps

variable {host : Host} {sats : ℕ}

@[simp] theorem toOption_ok {ε α : Type} (value : α) :
    (.ok value : Except ε α).toOption = some value := rfl

@[simp] theorem toOption_error {ε α : Type} (error : ε) :
    (.error error : Except ε α).toOption = none := rfl

theorem wp_gate_toOption {σ : Type} {I : Interp sig σ} {G : Guarantee sig σ}
    {Q : Except Error Unit → σ → Prop} {verdict : Except PolicyError Unit} {s : σ}
    (ended : ∀ result : Except Error Unit, result.toOption = verdict.toOption → Q result s) :
    wp I G Q (gate verdict) s := by
  rcases verdict with e | ⟨⟩
  · exact ended (.error _) rfl
  · exact ended (.ok ()) rfl

theorem wp_feeCap_toOption {σ : Type} {I : Interp sig σ} {G : Guarantee sig σ}
    {Q : Except Error Unit → σ → Prop} {policy : Policy} {fee : ℕ} {s : σ}
    (ended : ∀ result : Except Error Unit, result.toOption = (policy.checkFee fee).toOption →
      Q result s) : wp I G Q (feeCap fee policy.maxFeeSats) s := by
  obtain ⟨maxPayment, daily, maxFee, blocked⟩ := policy
  rcases maxFee with _ | cap
  · exact ended (.ok ()) rfl
  · simp only [Policy.checkFee] at ended
    simp only [feeCap]
    split
    · rename_i above
      exact ended (.error _) (by simp only [if_pos above]; rfl)
    · rename_i under
      exact ended (.ok ()) (by simp only [if_neg under]; rfl)

theorem build_spec {t : Try} {address : String} {d : Drive} (current : d.current = t.2)
    (asked : d.asked = true) :
    wp (.ofHandler (Drive.handle host)) (fun _ _ _ => True)
      (fun result d' => result.toOption = built host sats t address ∧ d.Same d')
      (buildSigned host address sats host.policy.maxFeeSats) d := by
  obtain ⟨ep, sc⟩ := t
  obtain ⟨w, _, _, later⟩ := d
  cases current
  cases asked
  unfold built
  refine wp_bind.2 (wp_bind.2 (wp_handled trivial ?_))
  obtain ⟨opens, connects, loads, gateAt, requests, reloads, syncs, finishes, signs, stages, sentAt,
    appends, broadcasts, notifies⟩ := sc
  rcases reloads with e | ⟨⟩
  · exact ⟨rfl, rfl, rfl, rfl, rfl, rfl, rfl⟩
  refine wp_gate_toOption ?_
  rintro (e | ⟨⟩) capped <;> rw [← capped]
  · exact ⟨rfl, rfl, rfl, rfl, rfl, rfl, rfl⟩
  refine bindPost_ok.2 (wp_bind.2 (wp_handled trivial ?_))
  rcases syncs with e | ⟨⟩
  · exact ⟨rfl, rfl, rfl, rfl, rfl, rfl, rfl⟩
  refine bindPost_ok.2 (wp_bind.2 (wp_ofExcept.2 ?_))
  rcases host.parseAddress address with e | recipient
  · exact ⟨rfl, rfl, rfl, rfl, rfl, rfl, rfl⟩
  refine bindPost_ok.2 (wp_bind.2 (wp_handled trivial (wp_ofExcept.2 ?_)))
  show bindPost _ _ _ _ (finishes (.plain recipient sats)) _
  rcases finished : finishes (.plain recipient sats) with e | psbt
  · exact ⟨by simp [finished], rfl, rfl, rfl, rfl, rfl, rfl⟩
  refine bindPost_ok.2 (wp_bind.2 (wp_feeCap_toOption ?_))
  rintro (e | ⟨⟩) under
  · exact ⟨by simp [finished, ← under], rfl, rfl, rfl, rfl, rfl, rfl⟩
  refine bindPost_ok.2 (wp_bind.2 (wp_handled trivial ?_))
  rcases signs with e | ⟨⟩
  · exact ⟨by simp, rfl, rfl, rfl, rfl, rfl, rfl⟩
  · exact ⟨by simp [finished, ← under], rfl, rfl, rfl, rfl, rfl, rfl⟩

/-- What the record has done with its entry. -/
structure RecordEnded (sc : Scenario) (entry : Entry) (d : Drive) (result : Except Error Unit)
    (d' : Drive) : Prop where
  ledger : d'.world.ledger = d.world.ledger ++ if sc.writes then [entry] else []
  net : d'.world.net.length ≤ d.world.net.length + if sc.writes then 1 else 0
  current : d'.current = d.current
  later : d'.later = d.later
  asked : d'.asked = true
  succeeds : result = .ok () ↔ sc.writes ∧ sc.appends = .ok ∧ sc.broadcasts = .ok ()

theorem RecordEnded.lost {sc : Scenario} {entry : Entry} {d d' : Drive} {e : Error}
    (lost : ¬ sc.writes) (same : d.Same d') (asked : d.asked = true) :
    RecordEnded sc entry d (.error e) d' where
  ledger := by rw [if_neg lost, List.append_nil, same.ledger]
  net := by rw [same.net]; exact Nat.le_add_right _ _
  current := same.current
  later := same.later
  asked := same.asked.trans asked
  succeeds := iff_of_false nofun fun ended => lost ended.1

theorem record_spec {address : String} {tx : Tx} {led : Handle} {d : Drive}
    (asked : d.asked = true) :
    wp (.ofHandler (Drive.handle host)) (fun _ _ _ => True)
      (RecordEnded d.current (.sent (Ledger.nextSeq (d.world.mem led)) tx.txid sats address .pending
        d.current.sentAt) d)
      (record led tx sats address) d := by
  obtain ⟨w, sc, _, later⟩ := d
  cases asked
  obtain ⟨opens, connects, loads, gateAt, requests, reloads, syncs, finishes, signs, stages, sentAt,
    appends, broadcasts, notifies⟩ := sc
  refine wp_bind.2 (wp_handled trivial ?_)
  rcases stages with _ | e | e
  · refine bindPost_ok.2 (wp_bind.2 (wp_handled trivial (bindPost_ok.2 (wp_bind.2 ?_))))
    refine wp_handled trivial (bindPost_ok.2 (wp_bind.2 (wp_handled trivial ?_)))
    rcases appends with _ | e | e
    · refine bindPost_ok.2 (wp_handled trivial ?_)
      have wrote : ∀ e, AppendAnswer.ok ≠ .lost e := nofun
      rcases broadcasts with e | ⟨⟩
      · refine ⟨?_, ?_, rfl, rfl, rfl, by simp⟩
        · rw [if_pos ⟨rfl, wrote⟩]
          rfl
        · rw [if_pos ⟨rfl, wrote⟩]
          exact Nat.le_refl _
      · refine ⟨?_, ?_, rfl, rfl, rfl, iff_of_true rfl ⟨⟨rfl, wrote⟩, rfl, rfl⟩⟩
        · rw [if_pos ⟨rfl, wrote⟩]
          rfl
        · rw [if_pos ⟨rfl, wrote⟩]
          exact Nat.le_refl _
    · exact RecordEnded.lost (fun writes => writes.2 e rfl) ⟨rfl, rfl, rfl, rfl, rfl, rfl⟩ rfl
    · have wrote : ∀ e', AppendAnswer.kept e ≠ .lost e' := nofun
      refine ⟨?_, Nat.le_add_right _ _, rfl, rfl, rfl, by simp⟩
      rw [if_pos ⟨rfl, wrote⟩]
      rfl
  · exact RecordEnded.lost (fun writes => by cases writes.1) ⟨rfl, rfl, rfl, rfl, rfl, rfl⟩ rfl
  · exact RecordEnded.lost (fun writes => by cases writes.1) ⟨rfl, rfl, rfl, rfl, rfl, rfl⟩ rfl

variable {wg : String}

theorem Attempted.stopped {t : Try} {d d' : Drive} {e : Error}
    (none : leaves host wg sats d.world.ledger t = none) (ledger : d'.world.ledger = d.world.ledger)
    (net : d'.world.net = d.world.net) (later : d'.later = d.later) :
    Attempted host wg sats t d (.error e) d' where
  ledger := by rw [none, ledger, Option.toList_none, List.append_nil]
  net := by rw [net]; exact Nat.le_add_right _ _
  later := later
  succeeds := by simp [none]

/-- The end of an attempt, from the address on: pay it, tell the peer. -/
theorem settle_spec {t : Try} {d₀ d : Drive} {led : Handle} {address : String}
    (current : d.current = t.2) (asked : d.asked = true)
    (read : d.world.mem led = d₀.world.ledger) (ledger : d.world.ledger = d₀.world.ledger)
    (net : d.world.net = d₀.world.net) (later : d.later = d₀.later)
    (agrees : agreed host wg sats d₀.world.ledger t = some address) :
    wp (.ofHandler (Drive.handle host)) (fun _ _ _ => True) (Attempted host wg sats t d₀)
      (send host led address sats host.policy.maxFeeSats >>= fun txid =>
        wireSend (.notify txid sats)) d := by
  refine wp_bind.2 (wp_bind.2 (wp_mono (build_spec current asked) ?_))
  rintro (e | tx) d₁ ⟨made, same⟩
  · refine .stopped ?_ (same.ledger.trans ledger) (same.net.trans net) (same.later.trans later)
    simp [leaves, agrees, ← made]
  refine bindPost_ok.2 (wp_bind.2 (wp_mono (record_spec (same.asked.trans asked)) ?_))
  intro result d₂ ended
  rw [same.current, current, same.mem, read] at ended
  have left : leaves host wg sats d₀.world.ledger t = if t.2.writes then
      some (.sent (Ledger.nextSeq d₀.world.ledger) tx.txid sats address .pending t.2.sentAt)
      else none := by
    simp [leaves, agrees, ← made]
  have booked : d₂.world.ledger =
      d₀.world.ledger ++ (leaves host wg sats d₀.world.ledger t).toList := by
    rw [ended.ledger, same.ledger, ledger, left]
    split <;> rfl
  have handed : d₂.world.net.length ≤
      d₀.world.net.length + (leaves host wg sats d₀.world.ledger t).toList.length := by
    have bound := ended.net
    rw [same.net, net] at bound
    rw [left]
    split at bound <;> simp_all
  have kept : d₂.later = d₀.later := ended.later.trans (same.later.trans later)
  have wrote : (leaves host wg sats d₀.world.ledger t).isSome ↔ t.2.writes := by
    rw [left]
    split <;> simp_all
  rcases result with e | ⟨⟩
  · refine ⟨booked, handed, kept, iff_of_false nofun fun ⟨left, appended, sent, _⟩ => ?_⟩
    cases ended.succeeds.2 ⟨wrote.1 left, appended, sent⟩
  · obtain ⟨writes, appended, sent⟩ := ended.succeeds.1 rfl
    refine bindPost_ok.2 (bindPost_ok.2 (wp_handled trivial (wp_ofExcept.2 ?_)))
    refine ⟨booked, handed, kept, ?_⟩
    have answer : (Drive.handle host (.wireSend (.notify tx.txid sats)) d₂).1 = t.2.notifies := by
      rw [← current, ← same.current, ← ended.current]
      rfl
    rw [answer]
    exact ⟨fun notified => ⟨wrote.2 writes, appended, sent, notified⟩, fun ⟨_, _, _, notified⟩ =>
      notified⟩

/-- **One attempt, whatever goes wrong in it.** -/
theorem tunnelPay_spec {t : Try} {d : Drive} (current : d.current = t.2) (asked : d.asked = false) :
    wp (.ofHandler (Drive.handle host)) (fun _ _ _ => True) (Attempted host wg sats t d)
      (tunnelPay host t.1 wg sats) d := by
  obtain ⟨ep, sc⟩ := t
  obtain ⟨w, _, _, later⟩ := d
  cases current
  cases asked
  obtain ⟨opens, connects, loads, gateAt, requests, reloads, syncs, finishes, signs, stages, sentAt,
    appends, broadcasts, notifies⟩ := sc
  unfold tunnelPay
  refine wp_bind.2 (wp_ofExcept.2 ?_)
  rcases key : host.parsePublicKey wg with e | ⟨⟩
  · exact .stopped (by simp [leaves, agreed, key]) rfl rfl rfl
  refine bindPost_ok.2 (wp_bind.2 (wp_ofExcept.2 ?_))
  rcases socket : host.parseSocketAddr ep.addr with e | ⟨⟩
  · exact .stopped (by simp [leaves, agreed, socket]) rfl rfl rfl
  refine bindPost_ok.2 (wp_bind.2 (wp_handled trivial ?_))
  rcases opens with e | ⟨⟩
  · exact .stopped (by simp [leaves, agreed]) rfl rfl rfl
  refine bindPost_ok.2 (wp_bind.2 (wp_handled trivial ?_))
  rcases connects with e | ⟨⟩
  · exact .stopped (by simp [leaves, agreed]) rfl rfl rfl
  refine bindPost_ok.2 (wp_bind.2 (wp_handled trivial ?_))
  rcases loads with e | ⟨⟩
  · exact .stopped (by simp [leaves, agreed]) rfl rfl rfl
  refine bindPost_ok.2 (wp_bind.2 (wp_bind.2 (wp_handled trivial (bindPost_ok.2 (wp_bind.2 ?_)))))
  refine wp_handled trivial (bindPost_ok.2 (wp_gate_toOption ?_))
  have loaded : Function.update w.mem w.fresh w.ledger w.fresh = w.ledger :=
    Function.update_self ..
  intro verdict same
  have amount : verdict.toOption = (host.policy.checkAmount sats
      (Ledger.spentSince w.ledger (gateAt - dailyWindowSecs))).toOption := by
    rw [← loaded]
    exact same
  clear same
  rcases verdict with e | ⟨⟩
  · exact .stopped (by simp [leaves, agreed, ← amount]) rfl rfl rfl
  refine bindPost_ok.2 (wp_bind.2 (wp_handled trivial ?_))
  rcases requests with e | ⟨⟩
  · exact .stopped (by simp [leaves, agreed]) rfl rfl rfl
  refine bindPost_ok.2 (wp_bind.2 (wp_awaitAddress ?_))
  rintro (e | ⟨address, index⟩) answered
  · exact .stopped (by simp [leaves, agreed, ← answered]) rfl rfl rfl
  refine bindPost_ok.2 (wp_bind.2 (wp_gate_toOption ?_))
  rintro (e | ⟨⟩) listed
  · exact .stopped (by simp [leaves, agreed, ← answered, ← listed]) rfl rfl rfl
  refine bindPost_ok.2 (settle_spec rfl rfl loaded rfl rfl rfl ?_)
  simp [agreed, key, socket, ← amount, ← answered, ← listed]

end Steps

/-! ## The loop over the endpoints -/

section Loop

variable (host : Host) (wg : String) (sats : ℕ)

/-- Every `sent` the loop leaves: each attempt finds on disk what the ones before it
left, and only one that leaves its `sent` and completes ends the loop. -/
def left : List Entry → List Try → List Entry
  | _, [] => []
  | file, t :: rest =>
      match leaves host wg sats file t with
      | none => left file rest
      | some sent => sent :: if t.2.completes then [] else left (file ++ [sent]) rest

/-- The condition: when the first attempt that leaves a `sent` does not complete, no later
attempt, judged with that `sent` on file, leaves one. -/
def PaysOnce (file : List Entry) (tries : List Try) : Prop :=
  ∀ before t after sent, tries = before ++ t :: after →
    (∀ b ∈ before, leaves host wg sats file b = none) → leaves host wg sats file t = some sent →
    t.2.completes ∨ ∀ a ∈ after, leaves host wg sats (file ++ [sent]) a = none

/-- What dialing the endpoints does to the world. -/
structure Dialed (tries : List Try) (w w' : World) : Prop where
  ledger : w'.ledger = w.ledger ++ left host wg sats w.ledger tries
  net : w'.net.length ≤ w.net.length + (left host wg sats w.ledger tries).length

variable {host wg sats}

theorem leaves_isSent {file : List Entry} {t : Try} {e : Entry}
    (some : leaves host wg sats file t = some e) : (e.sentTxid?).isSome := by
  simp only [leaves, Option.bind_eq_bind, Option.bind_eq_some_iff] at some
  obtain ⟨address, -, tx, -, wrote⟩ := some
  split at wrote
  · cases wrote
    rfl
  · cases wrote

theorem left_isSent {file : List Entry} {tries : List Try} {e : Entry}
    (member : e ∈ left host wg sats file tries) : (e.sentTxid?).isSome := by
  induction tries generalizing file with
  | nil => cases member
  | cons t rest ih =>
      unfold left at member
      split at member
      · exact ih member
      · rename_i sent leaves
        rcases List.mem_cons.1 member with rfl | later
        · exact leaves_isSent leaves
        · split at later
          · cases later
          · exact ih later

theorem left_eq_nil {file : List Entry} {tries : List Try} :
    left host wg sats file tries = [] ↔ ∀ t ∈ tries, leaves host wg sats file t = none := by
  induction tries with
  | nil => simp [left]
  | cons t rest ih =>
      unfold left
      split
      · rename_i none
        simp [none, ih]
      · rename_i sent some
        simp [some]

theorem paysOnce_cons_none {file : List Entry} {t : Try} {rest : List Try}
    (none : leaves host wg sats file t = none) :
    PaysOnce host wg sats file (t :: rest) ↔ PaysOnce host wg sats file rest := by
  constructor
  · intro once before t' after sent split unpaid pays
    exact once (t :: before) t' after sent (by rw [split]; rfl)
      (List.forall_mem_cons.2 ⟨none, unpaid⟩) pays
  · intro once before t' after sent split unpaid pays
    rcases before with _ | ⟨b, before⟩
    · cases split
      rw [none] at pays
      cases pays
    · cases split
      exact once before t' after sent rfl (List.forall_mem_cons.1 unpaid).2 pays

theorem paysOnce_cons_some {file : List Entry} {t : Try} {rest : List Try} {sent : Entry}
    (some : leaves host wg sats file t = some sent) :
    PaysOnce host wg sats file (t :: rest) ↔
      t.2.completes ∨ ∀ a ∈ rest, leaves host wg sats (file ++ [sent]) a = none := by
  constructor
  · intro once
    exact once [] t rest sent rfl (List.forall_mem_nil _) some
  · intro ended before t' after sent' split unpaid pays
    rcases before with _ | ⟨b, before⟩
    · cases split
      rw [some] at pays
      cases pays
      exact ended
    · cases split
      rw [(List.forall_mem_cons.1 unpaid).1] at some
      cases some

theorem paysOnce_iff {file : List Entry} {tries : List Try} :
    PaysOnce host wg sats file tries ↔ (left host wg sats file tries).length ≤ 1 := by
  induction tries with
  | nil => exact iff_of_true (fun before t after sent split => by simp at split) (Nat.zero_le _)
  | cons t rest ih =>
      unfold left
      split
      · rename_i none
        rw [paysOnce_cons_none none, ih]
      · rename_i sent some
        rw [paysOnce_cons_some some, ← left_eq_nil]
        split
        · rename_i completes
          exact iff_of_true (.inl completes) (Nat.le_refl _)
        · rename_i fails
          rw [or_iff_right fails, ← List.length_eq_zero_iff, List.length_cons]
          omega

/-- The loop leaves on file what `left` says, and hands over no more than that. -/
theorem dialEach_spec {lead : String} {tries : List Try} {lastErr : Option Error} {d : Drive}
    (later : d.later = tries.map Prod.snd) :
    wp (.ofHandler (Drive.handle host)) (fun _ _ _ => True)
      (fun _ d' => Dialed host wg sats tries d.world d'.world)
      (dialEach host lead wg sats (tries.map Prod.fst) lastErr) d := by
  induction tries generalizing d lastErr with
  | nil =>
      have same := (List.append_nil d.world.ledger).symm
      rcases lastErr with _ | e
      · exact ⟨same, Nat.le_refl _⟩
      · exact ⟨same, Nat.le_refl _⟩
  | cons t rest ih =>
      obtain ⟨w, sc, asked, _⟩ := d
      cases later
      refine wp_bind.2 (wp_handled trivial (bindPost_ok.2 (wp_bind.2 (wp_attempt.2 ?_))))
      refine wp_mono (tunnelPay_spec (t := t) rfl rfl) ?_
      intro result d₁ attempted
      have booked : d₁.world.ledger = w.ledger ++ (leaves host wg sats w.ledger t).toList :=
        attempted.ledger
      have handed : d₁.world.net.length ≤
          w.net.length + (leaves host wg sats w.ledger t).toList.length := attempted.net
      have succeeds : result = .ok () ↔ (leaves host wg sats w.ledger t).isSome ∧ t.2.completes :=
        attempted.succeeds
      have later : d₁.later = rest.map Prod.snd := attempted.later
      clear attempted
      rcases found : leaves host wg sats w.ledger t with _ | sent
      · rw [found, Option.toList_none, List.append_nil] at booked
        rw [found] at handed succeeds
        have next : left host wg sats w.ledger (t :: rest) = left host wg sats w.ledger rest := by
          simp only [left, found]
        rcases result with e | ⟨⟩
        · refine wp_mono (ih later) ?_
          rintro _ d₂ ⟨ledger, net⟩
          rw [booked] at ledger net
          rw [← next] at ledger net
          exact ⟨ledger, Nat.le_trans net (Nat.add_le_add_right handed _)⟩
        · cases (succeeds.1 rfl).1
      · rw [found] at booked handed succeeds
        rcases result with e | ⟨⟩
        · have fails : ¬ t.2.completes := fun completes => nomatch succeeds.2 ⟨rfl, completes⟩
          have next : left host wg sats w.ledger (t :: rest) =
              sent :: left host wg sats (w.ledger ++ [sent]) rest := by
            simp only [left, found, if_neg fails]
          refine wp_mono (ih later) ?_
          rintro _ d₂ ⟨ledger, net⟩
          rw [booked, Option.toList_some] at ledger net
          refine ⟨by rw [ledger, next, List.append_assoc, List.singleton_append], ?_⟩
          show d₂.world.net.length ≤ w.net.length + _
          rw [next, List.length_cons]
          simp only [Option.toList_some, List.length_singleton] at handed
          omega
        · have next : left host wg sats w.ledger (t :: rest) = [sent] := by
            simp only [left, found, if_pos (succeeds.1 rfl).2]
          refine ⟨?_, ?_⟩
          · rw [next]
            exact booked
          · rw [next]
            exact handed

end Loop

/-! ## An invocation -/

/-- The sends on record. -/
def sentCount (entries : List Entry) : ℕ := (entries.filterMap Entry.sentTxid?).length

/-- From `w` to `w'` at most one `sent` was appended and at most one transaction handed to
the network. -/
def PaidAtMostOnce (w w' : World) : Prop :=
  sentCount w'.ledger ≤ sentCount w.ledger + 1 ∧ w'.net.length ≤ w.net.length + 1

/-- A card without a code, with the endpoints of the attempts. -/
def cardOf (wg : String) (tries : List Try) : Card := ⟨wg, tries.map Prod.fst, none⟩

/-- The world an invocation leaves when its attempts go as the pattern says. -/
def paidWorld (host : Host) {α : Type} (command : Prog α) (tries : List Try) (w : World) : World :=
  (run (Drive.handle host) command (Drive.start w (tries.map Prod.snd))).2.world

theorem sentCount_append (entries sents : List Entry) (all : ∀ e ∈ sents, (e.sentTxid?).isSome) :
    sentCount (entries ++ sents) = sentCount entries + sents.length := by
  rw [sentCount, List.filterMap_append, List.length_append, sentCount, Nat.add_left_cancel_iff]
  induction sents with
  | nil => rfl
  | cons e sents ih =>
      obtain ⟨isSent, rest⟩ := List.forall_mem_cons.1 all
      obtain ⟨txid, is⟩ := Option.isSome_iff_exists.1 isSent
      rw [List.filterMap_cons_some is, List.length_cons, ih rest, List.length_cons]

section Invocation

variable {host : Host} {wg : String} {sats : ℕ} {tries : List Try} {w : World}

theorem Dialed.paidAtMostOnce_iff {w' : World} (dialed : Dialed host wg sats tries w w') :
    PaidAtMostOnce w w' ↔ PaysOnce host wg sats w.ledger tries := by
  have counted := sentCount_append w.ledger (left host wg sats w.ledger tries) fun _ => left_isSent
  have net := dialed.net
  rw [paysOnce_iff, PaidAtMostOnce, dialed.ledger, counted]
  omega

theorem Dialed.nothing (none : tries = []) : Dialed host wg sats tries w w := by
  subst none
  exact ⟨(List.append_nil _).symm, Nat.le_refl _⟩

theorem cliPayCard_dialed :
    Dialed host wg sats tries w (paidWorld host (cliPayCard host (cardOf wg tries) sats) tries w) := by
  have ends : wp (.ofHandler (Drive.handle host)) (fun _ _ _ => True)
      (fun _ d' => Dialed host wg sats tries w d'.world) (cliPayCard host (cardOf wg tries) sats)
      (Drive.start w (tries.map Prod.snd)) := by
    show wp _ _ _ (if (tries.map Prod.fst).isEmpty then _ else _ : Prog Unit) _
    split
    · rename_i empty
      exact Dialed.nothing (List.map_eq_nil_iff.1 (List.isEmpty_iff.1 empty))
    · exact dialEach_spec (d := Drive.start w (tries.map Prod.snd)) rfl
  exact wp_run ends

/-- Reading the newest `sent` back changes neither file nor network. -/
theorem payPeerCard_dialed :
    Dialed host wg sats tries w (paidWorld host (payPeerCard host (cardOf wg tries) sats) tries w) := by
  have ends : wp (.ofHandler (Drive.handle host)) (fun _ _ _ => True)
      (fun _ d' => Dialed host wg sats tries w d'.world) (payPeerCard host (cardOf wg tries) sats)
      (Drive.start w (tries.map Prod.snd)) := by
    show wp _ _ _ (if (tries.map Prod.fst).isEmpty then _ else _ : Prog String) _
    split
    · rename_i empty
      exact Dialed.nothing (List.map_eq_nil_iff.1 (List.isEmpty_iff.1 empty))
    · refine wp_bind.2 (wp_mono (dialEach_spec rfl) ?_)
      rintro (e | ⟨⟩) ⟨w₁, sc, asked, later⟩ dialed
      · exact dialed
      obtain ⟨opens, _⟩ := sc
      refine bindPost_ok.2 (wp_bind.2 (wp_handled trivial ?_))
      rcases opens with e | ⟨⟩
      · exact ⟨dialed.ledger, dialed.net⟩
      refine bindPost_ok.2 (wp_bind.2 (wp_handled trivial (bindPost_ok.2 ?_)))
      split
      · exact ⟨dialed.ledger, dialed.net⟩
      · exact ⟨dialed.ledger, dialed.net⟩
  exact wp_run ends

end Invocation

/-- **A card is paid at most once exactly when `PaysOnce` holds**, from the command line
and over MCP: for every card without a code, every ledger and every pattern of success
and failure of the attempts. -/
theorem paid_at_most_once_iff (host : Host) (wg : String) (sats : ℕ) (tries : List Try) (w : World) :
    (PaidAtMostOnce w (paidWorld host (cliPayCard host (cardOf wg tries) sats) tries w) ↔
      PaysOnce host wg sats w.ledger tries) ∧
    (PaidAtMostOnce w (paidWorld host (payPeerCard host (cardOf wg tries) sats) tries w) ↔
      PaysOnce host wg sats w.ledger tries) :=
  ⟨cliPayCard_dialed.paidAtMostOnce_iff, payPeerCard_dialed.paidAtMostOnce_iff⟩

/-- A mainnet wallet with a spend cap and a fee cap. -/
def payerHost : Host := .sample .bitcoin ⟨some 10000, none, some 1000, []⟩

/-- A seller reachable at two addresses.  Over the first the payment is recorded and
broadcast, and then the notify cannot be written. -/
def twoHomes : List Try :=
  let seller addr : Endpoint := ⟨addr, [.addrResponse sampleAddress.display 0], .ok ()⟩
  let pays txid : Scenario :=
    { Scenario.idle with finishes := fun _ => .ok ⟨txid, 200, [], sampleAddress⟩ }
  [(seller "192.0.2.1:51820", { pays sampleTxid with notifies := .error "broken pipe" }),
    (seller "198.51.100.1:51820",
      pays "f4184fc596403b9d638783cf57adfe4c75c605f6356fbc91338530e9831e9e16")]

/-- The seller is then paid a second time over the other address, from either command. -/
theorem second_home_paid_too :
    ¬ PaidAtMostOnce .blank
        (paidWorld payerHost (cliPayCard payerHost (cardOf "seller" twoHomes) 5000) twoHomes
          .blank) ∧
      ¬ PaidAtMostOnce .blank
        (paidWorld payerHost (payPeerCard payerHost (cardOf "seller" twoHomes) 5000) twoHomes
          .blank) := by
  unfold PaidAtMostOnce
  decide +kernel

end ComputerMoney.Safety

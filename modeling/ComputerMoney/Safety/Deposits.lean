/-
# Safety.Deposits -- what a tick of the watch finds

The watch polls the issued indexes without a receipt, and books what it is shown unless
the txid is already on record.  So a deposit falls due at the first tick that polls its
index and sees its transaction; from the end of that tick on it is on file, with all the
transaction pays to that address.  After its first receipt an index is not polled again,
and a later deposit to the same address stays off the books.

A transaction that pays several addresses still waiting for a payment is left out: its
txid is the key, and the first of them gets it.
-/
import ComputerMoney.Kernel.Serve
import ComputerMoney.Kernel.Script
import Mathlib.Data.Set.Insert

namespace ComputerMoney.Safety

set_option autoImplicit false

open Theory Theory.Program Kernel

/-! ## What falls due -/

/-- A receipt as it should be on file. -/
structure Booking where
  txid : String
  sats : ℕ
  index : ℕ
  deriving DecidableEq, Repr

def OnFile (b : Booking) (w : World) : Prop :=
  ∃ seq, Entry.received seq b.txid b.sats b.index .pending ∈ w.ledger

/-- The script of the wallet's own address. -/
def ownScript (host : Host) (index : ℕ) : Except Error String := do
  let address ← host.walletAddress index
  let a ← host.parseAddress address
  return a.script

/-- `tx`, on the chain or in the mempool, is a deposit that a tick with these entries is
to book as `b`: it pays the address of an index that waits for a payment, it is not on
record, and it pays no other address that waits. -/
structure FallsDue (host : Host) (entries : List Entry) (chain : List EsploraTx) (b : Booking)
    (tx : EsploraTx) (script : String) : Prop where
  visible : tx ∈ chain
  txid : tx.txid = b.txid
  own : ownScript host b.index = .ok script
  sats : tx.paysTo script = b.sats
  pays : b.sats ≠ 0
  waits : b.index ∈ Ledger.issuedUnpaid entries
  unrecorded : Ledger.hasTxid entries b.txid = false
  alone : ∀ other ∈ Ledger.issuedUnpaid entries, other ≠ b.index →
    ∀ script', ownScript host other = .ok script' → tx.paysTo script' = 0

def Due (host : Host) (entries : List Entry) (chain : List EsploraTx) : Set Booking :=
  {b | ∃ tx script, FallsDue host entries chain b tx script}

/-- The server's history of an address has every transaction of `chain` with an output to
it, possibly among newer ones, and a txid names one list of outputs. -/
structure Lists (chain : List EsploraTx) (script : String) (view : List AddressTx) : Prop where
  all : ∀ tx ∈ chain, (∃ v ∈ tx.vout, v.scriptpubkey = script) → ∃ t ∈ view, t.txid = tx.txid
  same : ∀ tx ∈ chain, ∀ t ∈ view, t.txid = tx.txid → t.vout = tx.vout

/-- The queries for deposits succeed and show at least `chain`. -/
def Shows (host : Host) (chain : List EsploraTx) : Guarantee sig World
  | _, .depositsTo address, answer =>
      ∃ view tip, answer = depositsFrom host address (.ok view) (.ok tip) ∧
        ∀ a, host.parseAddress address = .ok a → Lists chain a.script view
  | _, _, _ => True

/-- A receipt that is appended reaches the disk. -/
def ReceiptsWritten : Guarantee sig World
  | _, .append _ (.received _ _ _ _ _), answer => answer = .ok
  | _, _, _ => True

/-- The host, as a tick finds it when nothing it needs fails. -/
def shown (host : Host) (chain : List EsploraTx) : Interp sig World :=
  ((interp host).restrict (Shows host chain)).restrict ReceiptsWritten

/-- A life of the daemon: its ledger is opened, then come sessions and ticks in any order
under any answers, and ticks that are shown a chain.  The deposits that fell due at those
are kept count of. -/
inductive Life (host : Host) (led : Handle) : Set Booking → World → Prop
  | opened {w₀ w : World} (exec : Exec (interp host) Ledger.openWithIdentity w₀ (.ok led) w) :
      Life host led ∅ w
  | duty {due : Set Booking} {w w' : World} {duty : Duty} {result : Except Error Unit}
      (life : Life host led due w) (exec : Exec (interp host) (duty.perform host led) w result w') :
      Life host led due w'
  | tick {due : Set Booking} {w w' : World} {chain : List EsploraTx} {pages : ℕ}
      {result : Except Error Unit} (life : Life host led due w)
      (exec : Exec (shown host chain) ((Duty.watch pages).perform host led) w result w') :
      Life host led (due ∪ Due host (w.mem led) chain) w'

/-! ## The file only grows -/

section Tick

variable {host : Host} {led : Handle} {chain : List EsploraTx} {b : Booking}

theorem OnFile.after {w : World} (op : Op) (answer : op.Ans) (onFile : OnFile b w) :
    OnFile b (w.after op answer) := by
  obtain ⟨seq, member⟩ := onFile
  have framed : (∀ led e, op ≠ .append led e) → OnFile b (w.after op answer) := fun frame =>
    ⟨seq, (World.after_ledger w answer frame).symm ▸ member⟩
  cases op with
  | append led e =>
      cases answer with
      | ok => exact ⟨seq, List.mem_append_left _ member⟩
      | lost error => exact ⟨seq, member⟩
      | kept error => exact ⟨seq, List.mem_append_left _ member⟩
  | _ => exact framed nofun

theorem wp_onFile {α : Type} {I : Interp sig World} {p : Prog α} {w : World}
    (next : I.next = World.after) (onFile : OnFile b w) :
    wp I (fun _ _ _ => True) (fun _ w' => OnFile b w') p w :=
  wp_always (fun _ op answer _ _ old => next ▸ old.after op answer) onFile

/-! ## One deposit, one address, every address -/

/-- While the watch works through its lists: `b` is on file, or its txid is unrecorded and
its turn is still to come. -/
def Expected (led : Handle) (b : Booking) (toCome : Prop) (w : World) : Prop :=
  OnFile b w ∨ Ledger.hasTxid (w.mem led) b.txid = false ∧ toCome

theorem hasTxid_append {entries : List Entry} {e : Entry} {txid : String} :
    Ledger.hasTxid (entries ++ [e]) txid =
      (Ledger.hasTxid entries txid || decide (e.paymentTxid? = some txid)) := by
  simp [Ledger.hasTxid]

theorem wp_bookDeposit {d : Deposit} {index : ℕ} {toCome : Prop} {w : World}
    (mine : d.txid = b.txid → d.sats = b.sats ∧ index = b.index)
    (expected : Expected led b (d.txid = b.txid ∨ toCome) w) :
    wp (shown host chain) (fun _ _ _ => True) (fun _ w' => Expected led b toCome w')
      (Ledger.recordReceived led d.txid d.sats index) w := by
  rcases expected with onFile | ⟨unrecorded, turn⟩
  · exact wp_mono (wp_onFile rfl onFile) fun _ _ => .inl
  refine wp_bind.2 fun es allowed => ⟨trivial, ?_⟩
  obtain rfl : es = w.mem led := allowed.1.1
  refine bindPost_ok.2 ?_
  split
  · rename_i known
    have other : d.txid ≠ b.txid := fun same => by
      rw [same, unrecorded] at known
      cases known
    exact .inr ⟨unrecorded, turn.resolve_left other⟩
  refine wp_bind.2 fun answer allowed => ⟨trivial, ?_⟩
  obtain rfl : answer = .ok := allowed.2
  by_cases same : d.txid = b.txid
  · obtain ⟨sats, rfl⟩ := mine same
    exact .inl ⟨_, List.mem_append_right _ (by rw [same, sats]; exact List.mem_singleton_self _)⟩
  · refine .inr ⟨?_, turn.resolve_left same⟩
    have view : ∀ e, (w.appended led e).mem led = w.mem led ++ [e] := fun e =>
      Function.update_self ..
    show Ledger.hasTxid ((w.appended led _).mem led) b.txid = false
    rw [view, hasTxid_append, unrecorded]
    simpa [Entry.paymentTxid?] using same

theorem wp_bookDeposits_due {deposits : List Deposit} {index : ℕ} {toCome : Prop} {w : World}
    (mine : ∀ d ∈ deposits, d.txid = b.txid → d.sats = b.sats ∧ index = b.index)
    (expected : Expected led b ((∃ d ∈ deposits, d.txid = b.txid) ∨ toCome) w) :
    wp (shown host chain) (fun _ _ _ => True)
      (fun result w' => result = .ok () ∧ Expected led b toCome w')
      (bookDeposits led index deposits) w := by
  induction deposits generalizing w with
  | nil =>
      refine ⟨rfl, expected.imp id fun ⟨unrecorded, turn⟩ => ⟨unrecorded, ?_⟩⟩
      simpa using turn
  | cons d deposits ih =>
      have first : Expected led b (d.txid = b.txid ∨
          ((∃ d ∈ deposits, d.txid = b.txid) ∨ toCome)) w := by
        refine expected.imp id fun ⟨unrecorded, turn⟩ => ⟨unrecorded, ?_⟩
        simpa [or_assoc] using turn
      refine wp_bind.2 (wp_bind.2 (wp_attempt.2 (wp_mono (wp_bookDeposit
        (mine d (List.mem_cons_self ..)) first) ?_)))
      intro _ w' expected'
      exact ih (fun d' member => mine d' (List.mem_cons_of_mem _ member)) expected'

theorem ownScript_eq_ok {index : ℕ} {script : String} :
    ownScript host index = .ok script ↔
      ∃ address a, host.walletAddress index = .ok address ∧
        host.parseAddress address = .ok a ∧ a.script = script := by
  rcases own : host.walletAddress index with e | address
  · simp [ownScript, own, Bind.bind, Except.bind]
  rcases parsed : host.parseAddress address with e | a
  · simp [ownScript, own, parsed, Bind.bind, Except.bind]
  · simp [ownScript, own, parsed, Bind.bind, Except.bind, Pure.pure, Except.pure]

/-- What the server lists for the address of `index` holds `b` exactly if the index is its. -/
theorem FallsDue.listed {entries : List Entry} {tx : EsploraTx} {script : String} {index : ℕ}
    (tip : ℕ) {a : Address} {view : List AddressTx} (due : FallsDue host entries chain b tx script)
    (waits : index ∈ Ledger.issuedUnpaid entries) (own : ownScript host index = .ok a.script)
    (lists : Lists chain a.script view) :
    (∀ d ∈ depositsOf a.script tip view, d.txid = b.txid → d.sats = b.sats ∧ index = b.index) ∧
      (index = b.index → ∃ d ∈ depositsOf a.script tip view, d.txid = b.txid) := by
  have total : ∀ t ∈ view, t.txid = tx.txid → t.paysTo a.script = tx.paysTo a.script := by
    intro t member same
    rw [EsploraTx.paysTo, EsploraTx.paysTo, lists.same tx due.visible t member same]
  constructor
  · intro d member same
    obtain ⟨t, listed, pays, rfl⟩ := mem_depositsOf.1 member
    have equal := total t listed (same.trans due.txid.symm)
    have mine : index = b.index := by
      by_contra different
      exact pays (equal.trans (due.alone index waits different _ own))
    have scripts : a.script = script := by
      have both := due.own
      rw [← mine, own] at both
      exact Except.ok.inj both
    exact ⟨by rw [← due.sats, ← scripts]; exact equal, mine⟩
  · rintro rfl
    have scripts : a.script = script := Except.ok.inj (own.symm.trans due.own)
    have pays : tx.paysTo a.script ≠ 0 := by
      rw [scripts, due.sats]
      exact due.pays
    have output : ∃ v ∈ tx.vout, v.scriptpubkey = a.script := by
      by_contra none
      push Not at none
      refine pays ?_
      rw [EsploraTx.paysTo, List.filter_eq_nil_iff.2 fun v member => by simpa using none v member]
      rfl
    obtain ⟨t, member, same⟩ := lists.all tx due.visible output
    exact ⟨_, mem_depositsOf.2 ⟨t, member, (total t member same) ▸ pays, rfl⟩,
      same.trans due.txid⟩

theorem wp_pollIndex_due {entries : List Entry} {tx : EsploraTx} {script : String} {index : ℕ}
    {toCome : Prop} {w : World} (due : FallsDue host entries chain b tx script)
    (waits : index ∈ Ledger.issuedUnpaid entries)
    (expected : Expected led b (index = b.index ∨ toCome) w) :
    wp (shown host chain) (fun _ _ _ => True)
      (fun result w' => result = .ok () ∧ Expected led b toCome w') (pollIndex host led index) w := by
  -- An address that cannot be polled is not the one the deposit goes to.
  have skipped : (∀ script, ownScript host index ≠ .ok script) → Expected led b toCome w := by
    intro unusable
    refine expected.imp id fun ⟨unrecorded, turn⟩ => ⟨unrecorded, turn.resolve_left ?_⟩
    rintro rfl
    exact unusable _ due.own
  unfold pollIndex
  split
  · rename_i e failed
    refine ⟨rfl, skipped fun script own => ?_⟩
    obtain ⟨address, a, derived, -, -⟩ := ownScript_eq_ok.1 own
    rw [failed] at derived
    cases derived
  rename_i address derived
  refine wp_bind.2 fun answer allowed => ⟨trivial, ?_⟩
  obtain ⟨view, tip, rfl, lists⟩ := allowed.1.2
  rcases parsed : host.parseAddress address with e | a
  · have failed : depositsFrom host address (.ok view) (.ok tip) = .error e := by
      simp [depositsFrom, parsed, Bind.bind, Except.bind]
    rw [failed]
    refine ⟨rfl, skipped fun script own => ?_⟩
    obtain ⟨address', a, derived', parsed', -⟩ := ownScript_eq_ok.1 own
    cases derived.symm.trans derived'
    rw [parsed] at parsed'
    cases parsed'
  · have answered : depositsFrom host address (.ok view) (.ok tip) =
        .ok (depositsOf a.script tip view) := by
      simp [depositsFrom, parsed, Bind.bind, Except.bind, Pure.pure, Except.pure]
    rw [answered]
    obtain ⟨mine, there⟩ := due.listed tip waits
      (ownScript_eq_ok.2 ⟨address, a, derived, parsed, rfl⟩) (lists a parsed)
    refine wp_bookDeposits_due mine ?_
    exact expected.imp id fun ⟨unrecorded, turn⟩ => ⟨unrecorded, turn.imp there id⟩

theorem wp_pollEach_due {entries : List Entry} {tx : EsploraTx} {script : String}
    {indexes : List ℕ} {w : World} (due : FallsDue host entries chain b tx script)
    (wait : ∀ index ∈ indexes, index ∈ Ledger.issuedUnpaid entries)
    (expected : Expected led b (b.index ∈ indexes) w) :
    wp (shown host chain) (fun _ _ _ => True) (fun _ w' => OnFile b w')
      (.forEach indexes (pollIndex host led)) w := by
  induction indexes generalizing w with
  | nil => exact expected.resolve_right fun ⟨_, turn⟩ => List.not_mem_nil turn
  | cons index indexes ih =>
      have first : Expected led b (index = b.index ∨ b.index ∈ indexes) w := by
        refine expected.imp id fun ⟨unrecorded, turn⟩ => ⟨unrecorded, ?_⟩
        exact (List.mem_cons.1 turn).imp Eq.symm id
      refine wp_bind.2 (wp_mono (wp_pollIndex_due due (wait index (List.mem_cons_self ..)) first) ?_)
      rintro _ w' ⟨rfl, expected'⟩
      exact ih (fun other member => wait other (List.mem_cons_of_mem _ member)) expected'

/-! ## The whole tick -/

/-- The calls that record no payment and issue no index. -/
def Op.marks : Op → Prop
  | .append _ (.statusUpdate _ _ _) => True
  | .append _ _ | .openLedger => False
  | _ => True

/-- The two worlds agree on what the instance polls and on what it has on record. -/
def SameBooks (led : Handle) (w w' : World) : Prop :=
  Ledger.issuedUnpaid (w'.mem led) = Ledger.issuedUnpaid (w.mem led) ∧
    ∀ txid, Ledger.hasTxid (w'.mem led) txid = Ledger.hasTxid (w.mem led) txid

theorem sameBooks_after {w : World} (op : Op) (answer : op.Ans) (marks : Op.marks op) :
    SameBooks led w (w.after op answer) := by
  have framed : (∀ led e, op ≠ .append led e) → op ≠ .openLedger →
      SameBooks led w (w.after op answer) := by
    intro appends opens
    rw [SameBooks, World.after_mem w answer appends opens]
    exact ⟨rfl, fun _ => rfl⟩
  cases op with
  | append led' e =>
      cases e with
      | statusUpdate seq txid status =>
          cases answer with
          | lost error => exact ⟨rfl, fun _ => rfl⟩
          | kept error => exact ⟨rfl, fun _ => rfl⟩
          | ok =>
              rcases eq_or_ne led led' with rfl | different
              · have view : (w.appended led (.statusUpdate seq txid status)).mem led =
                    w.mem led ++ [.statusUpdate seq txid status] := Function.update_self ..
                show SameBooks led w (w.appended led _)
                rw [SameBooks, view]
                refine ⟨?_, fun _ => ?_⟩
                · simp [Ledger.issuedUnpaid, Entry.issuedIndex?, Entry.receivedIndex?]
                · simp [hasTxid_append, Entry.paymentTxid?]
              · have view : (w.appended led' (.statusUpdate seq txid status)).mem led =
                    w.mem led := Function.update_of_ne different ..
                show SameBooks led w (w.appended led' _)
                rw [SameBooks, view]
                exact ⟨rfl, fun _ => rfl⟩
      | _ => exact marks.elim
  | openLedger => exact marks.elim
  | _ => exact framed (fun _ _ => by simp) (by simp)

theorem wp_reconcile_sameBooks {w : World} :
    wp (shown host chain) (fun _ _ _ => True) (fun _ w' => SameBooks led w w') (reconcile led) w :=
  wp_within (P := Op.marks)
    (within_reconcile trivial (fun _ => trivial) (fun _ => trivial) (fun _ => trivial)
      (fun _ _ _ => trivial) (fun _ _ => trivial) trivial)
    (fun _ => ⟨rfl, fun _ => rfl⟩)
    (fun first second => ⟨second.1.trans first.1, fun txid => (second.2 txid).trans (first.2 txid)⟩)
    fun _ op answer marks _ => ⟨trivial, sameBooks_after op answer marks⟩

/-- A deposit due at the start of a tick is on file at its end. -/
theorem wp_chainWatch_due {pages : ℕ} {w : World} (due : b ∈ Due host (w.mem led) chain) :
    wp (shown host chain) (fun _ _ _ => True) (fun _ w' => OnFile b w')
      (chainWatch host led pages) w := by
  obtain ⟨tx, script, falls⟩ := due
  refine wp_bind.2 (wp_attempt.2 (wp_mono wp_reconcile_sameBooks ?_))
  rintro _ w₁ ⟨polled, recorded⟩
  refine bindPost_ok.2 (wp_bind.2 (wp_bind.2 fun es allowed => ⟨trivial, bindPost_ok.2 ?_⟩))
  obtain rfl : es = w₁.mem led := allowed.1.1
  refine wp_mono (wp_pollEach_due falls (fun index member => polled ▸ member) (.inr ⟨?_, ?_⟩)) ?_
  · exact (recorded b.txid).trans falls.unrecorded
  · exact polled.symm ▸ falls.waits
  · rintro (e | ⟨⟩) w₂ onFile
    · exact onFile
    · exact wp_onFile rfl onFile

end Tick

/-- **What falls due at a tick is on file from the end of that tick on.**  Whatever the
sessions did, whatever earlier ticks found and whatever comes later: a transaction the
watch was shown paying the address of an index that waited for a payment, and no other
waiting one, is booked for that index with all it pays to it. -/
theorem deposits_booked {host : Host} {led : Handle} {due : Set Booking} {w : World}
    (life : Life host led due w) : ∀ b ∈ due, OnFile b w := by
  induction life with
  | opened exec => exact fun b none => none.elim
  | duty life exec ih =>
      intro b member
      exact wp_exec (wp_onFile rfl (ih b member)) exec
  | tick life exec ih =>
      rintro b (old | new)
      · exact wp_exec (wp_onFile rfl (ih b old)) exec
      · exact wp_exec (wp_chainWatch_due new) exec

/-! ## A till with two addresses -/

def laterAddress : Address :=
  ⟨"00201863143c14c5166804bd19203356da136c985678cd4d27a1b8c6329604903262",
    "bc1qrp33g0q5c5txsp9arysrx4k6zdkfs4nce4xj0gdcccefvpysxf3qccfmv3"⟩

/-- Index 0 has the sample address, every later index the other one. -/
def tillHost : Host :=
  { Host.sample .bitcoin .default with
    parseAddress := fun text =>
      if text = sampleAddress.display then .ok sampleAddress
      else if text = laterAddress.display then .ok laterAddress
      else .error "base58 error"
    walletAddress := fun index =>
      .ok (if index = 0 then sampleAddress else laterAddress).display }

/-- 1000 sats in two outputs for index 0. -/
def firstTx : EsploraTx :=
  ⟨sampleTxid, [], [⟨sampleAddress.script, 700⟩, ⟨"6a", 0⟩, ⟨sampleAddress.script, 300⟩]⟩

/-- 2000 more. -/
def secondTx : EsploraTx :=
  ⟨"0e3e2357e806b6cdb1f70b54c3a3a17b6714ee1f0e68bebb44a74b1efd512098", [],
    [⟨sampleAddress.script, 2000⟩]⟩

/-- 1000 sats for each of the two addresses. -/
def sharedTx : EsploraTx :=
  ⟨sampleTxid, [], [⟨sampleAddress.script, 1000⟩, ⟨laterAddress.script, 1000⟩]⟩

/-- An output to index 0 that carries nothing. -/
def emptyTx : EsploraTx := ⟨sampleTxid, [], [⟨sampleAddress.script, 0⟩]⟩

/-- The server knows exactly `chain`, all of it unconfirmed. -/
def showing (chain : List EsploraTx) : Script :=
  { Script.silent with
    deposits := fun address =>
      depositsFrom tillHost address (.ok (chain.map fun tx => ⟨tx, false, none⟩)) (.ok 800000) }

/-- No two transactions share their id. -/
abbrev Distinct (chain : List EsploraTx) : Prop :=
  ∀ tx ∈ chain, ∀ tx' ∈ chain, tx'.txid = tx.txid → tx' = tx

theorem showing_shows {chain : List EsploraTx} (distinct : Distinct chain) (w : World) (op : Op) :
    Shows tillHost chain w op ((showing chain).answer tillHost w op) := by
  cases op with
  | depositsTo address =>
      refine ⟨_, _, rfl, fun a _ => ⟨fun tx member _ => ?_, fun tx member t listed same => ?_⟩⟩
      · exact ⟨⟨tx, false, none⟩, List.mem_map_of_mem member, rfl⟩
      · obtain ⟨tx', member', rfl⟩ := List.mem_map.1 listed
        exact congrArg EsploraTx.vout (distinct tx member tx' member' same)
  | _ => trivial

theorem showing_written (chain : List EsploraTx) (w : World) (op : Op) :
    ReceiptsWritten w op ((showing chain).answer tillHost w op) := by
  cases op with
  | append led e => cases e <;> trivial
  | _ => trivial

/-- The daemon has opened its ledger on this file. -/
def opened (file : List Entry) : World := { World.blank with ledger := file }.load 0

/-- A buyer has asked for an address. -/
def sold (w : World) : World :=
  (run (Script.silent.handle tillHost)
    ((Duty.session [.addrRequest 1000] (.ok ())).perform tillHost 0) w).2

/-- A tick of the watch, driven by the answers given. -/
def tickBy (answer : World → (op : Op) → op.Ans) (w : World) : Except Error Unit × World :=
  run (fun op w => (answer w op, w.after op (answer w op))) ((Duty.watch 1).perform tillHost 0) w

theorem life_opened (file : List Entry) : Life tillHost 0 ∅ (opened file) := by
  have exec : Exec (interp tillHost) Ledger.openWithIdentity { World.blank with ledger := file }
      (.ok 0) (opened file) :=
    have opens : (interp tillHost).allowed { World.blank with ledger := file } Op.openLedger
        (.ok 0) := rfl
    .call opens (.pure _ _)
  exact .opened exec

theorem Life.sold {due : Set Booking} {w : World} (life : Life tillHost 0 due w) :
    Life tillHost 0 due (sold w) :=
  .duty life (run_exec id _ _ (fun op w => Script.allowed tillHost _ w op) fun _ _ => rfl)

theorem tickBy_exec {I : Interp sig World} {answer : World → (op : Op) → op.Ans}
    (next : I.next = World.after) (allowed : ∀ w op, I.allowed w op (answer w op)) (w : World) :
    Exec I ((Duty.watch 1).perform tillHost 0) w (tickBy answer w).1 (tickBy answer w).2 :=
  run_exec id _ _ (fun op w => allowed w op) fun _ _ => next ▸ rfl

theorem showing_allowed {chain : List EsploraTx} (distinct : Distinct chain) (w : World) (op : Op) :
    (shown tillHost chain).allowed w op ((showing chain).answer tillHost w op) :=
  ⟨⟨Script.allowed tillHost _ w op, showing_shows distinct w op⟩, showing_written chain w op⟩

/-- A tick has been shown `chain`. -/
def ticked (chain : List EsploraTx) (w : World) : World :=
  (tickBy ((showing chain).answer tillHost) w).2

theorem Life.ticked {due : Set Booking} {w : World} (life : Life tillHost 0 due w)
    {chain : List EsploraTx} (distinct : Distinct chain) :
    Life tillHost 0 (due ∪ Due tillHost (w.mem 0) chain) (ticked chain w) :=
  .tick life (tickBy_exec rfl (showing_allowed distinct) w)

theorem deposits_booked_first :
    OnFile ⟨sampleTxid, 1000, 0⟩ (ticked [secondTx, firstTx] (sold (opened []))) := by
  have waiting : Ledger.issuedUnpaid ((sold (opened [])).mem 0) = [0] := by decide +kernel
  have due : FallsDue tillHost ((sold (opened [])).mem 0) [secondTx, firstTx]
      ⟨sampleTxid, 1000, 0⟩ firstTx sampleAddress.script :=
    { visible := by decide
      txid := rfl
      own := rfl
      sats := by decide +kernel
      pays := by decide
      waits := by rw [waiting]; decide
      unrecorded := by decide +kernel
      alone := fun other member different =>
        absurd (List.mem_singleton.1 (waiting ▸ member)) different }
  exact deposits_booked ((life_opened []).sold.ticked (by decide +kernel)) _ (.inr ⟨_, _, due⟩)

/-! ## What is left out -/

/-- After a tick of this daemon that is read by `I`, an issued index lacks a receipt for a
transaction of `chain` with an output to its address. -/
def Missed (I : Interp sig World) (chain : List EsploraTx) : Prop :=
  ∃ (due : Set Booking) (w w' : World) (index : ℕ) (tx : EsploraTx) (script : String),
    Life tillHost 0 due w ∧
    Exec I ((Duty.watch 1).perform tillHost 0) w (.ok ()) w' ∧
    (∃ e ∈ w'.ledger, e.issuedIndex? = some index) ∧ tx ∈ chain ∧
    ownScript tillHost index = .ok script ∧ (∃ v ∈ tx.vout, v.scriptpubkey = script) ∧
    ∀ e ∈ w'.ledger, ¬ (e.receivedTxid? = some tx.txid ∧ e.receivedIndex? = some index)

/-- The disk takes no receipt. -/
def fullDisk (w : World) : (op : Op) → op.Ans
  | .append _ (.received _ _ _ _ _) => .lost "no space left on device"
  | op => (showing [firstTx]).answer tillHost w op

theorem fullDisk_allowed (w : World) (op : Op) :
    ((interp tillHost).restrict (Shows tillHost [firstTx])).allowed w op (fullDisk w op) := by
  have scripted : ((interp tillHost).restrict (Shows tillHost [firstTx])).allowed w op
      ((showing [firstTx]).answer tillHost w op) :=
    ⟨Script.allowed tillHost _ w op, showing_shows (by decide +kernel) w op⟩
  cases op with
  | append led e => exact ⟨trivial, trivial⟩
  | _ => exact scripted

/-- A driven tick that leaves an index without a receipt. -/
theorem missed_of {I : Interp sig World} {answer : World → (op : Op) → op.Ans}
    {due : Set Booking} {w : World} {chain : List EsploraTx} {script : String}
    (next : I.next = World.after) (allowed : ∀ w op, I.allowed w op (answer w op))
    (life : Life tillHost 0 due w) (index : ℕ) (tx : EsploraTx)
    (own : ownScript tillHost index = .ok script)
    (missing : (tickBy answer w).1 = .ok () ∧
      (∃ e ∈ (tickBy answer w).2.ledger, e.issuedIndex? = some index) ∧ tx ∈ chain ∧
      (∃ v ∈ tx.vout, v.scriptpubkey = script) ∧
      ∀ e ∈ (tickBy answer w).2.ledger,
        ¬ (e.receivedTxid? = some tx.txid ∧ e.receivedIndex? = some index)) :
    Missed I chain := by
  obtain ⟨ended, issued, member, output, lacking⟩ := missing
  have exec := tickBy_exec next allowed w
  rw [ended] at exec
  exact ⟨due, w, _, index, tx, script, life, exec, issued, member, own, output, lacking⟩

/-- A second payment to an address is missed once the first is booked; so is a payment the
wallet made to itself, a payment of nothing, one output of a transaction that pays two
waiting addresses, and a receipt the disk refused. -/
theorem later_deposit_missed :
    Missed (shown tillHost [secondTx, firstTx]) [secondTx, firstTx] ∧
    Missed (shown tillHost [firstTx]) [firstTx] ∧
    Missed (shown tillHost [emptyTx]) [emptyTx] ∧
    Missed (shown tillHost [sharedTx]) [sharedTx] ∧
    Missed ((interp tillHost).restrict (Shows tillHost [firstTx])) [firstTx] := by
  have one : Distinct [firstTx] := by decide +kernel
  have two : Distinct [secondTx, firstTx] := by decide +kernel
  have first := (life_opened []).sold
  refine ⟨?_, ?_, ?_, ?_, ?_⟩
  · exact missed_of rfl (showing_allowed two) (first.ticked one) 0 secondTx rfl (by decide +kernel)
  · have paid := life_opened [.sent 0 sampleTxid 1000 sampleAddress.display .pending 0]
    exact missed_of rfl (showing_allowed one) paid.sold 0 firstTx rfl (by decide +kernel)
  · exact missed_of rfl (showing_allowed (by decide +kernel)) first 0 emptyTx rfl
      (by decide +kernel)
  · exact missed_of rfl (showing_allowed (by decide +kernel)) first.sold 1 sharedTx rfl
      (by decide +kernel)
  · exact missed_of rfl fullDisk_allowed first 0 firstTx rfl (by decide +kernel)

end ComputerMoney.Safety

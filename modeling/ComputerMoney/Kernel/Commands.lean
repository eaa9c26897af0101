/-
# Kernel.Commands -- every way to act on a wallet directory

The commands of the program and the tools of its server that open the ledger, as one
type: the daemon, the payments, the reports, the two bare reconciles.  Any number of them
may act on one directory at once.  The lock a daemon takes is asked for by no other
command, so all it keeps out is a second daemon.

Whatever the command, it writes to the ledger by one discipline: it reads an instance it
opened itself, and numbers its next entry after the last one it read.  `Stamps` says so
of a program by looking at its calls alone, whatever they are answered.
-/
import ComputerMoney.Kernel.Serve

namespace ComputerMoney.Kernel

set_option autoImplicit false

open Theory Theory.Program

/-! ## The commands -/

/-- `mcp::reconcile_ledger`. -/
def reconcileLedger : Prog ℕ := do
  let led ← Ledger.openWithIdentity
  reconcile led

/-- `mcp::confs_report`: the count and its status; the reconcile is best effort. -/
def confsReport (txid : String) : Prog (ℕ × Status) := do
  let confs ← confirmations txid
  let _ ← reconcileLedger.attempt
  return (confs, .fromConfirmations confs)

inductive Command where
  /-- `cm serve`, and the thread of `cm_serve`. -/
  | serve (duties : List Duty)
  /-- `cm send`, `cm fetch` and `cm pay` to a code or a link, and their tools. -/
  | payment (use : Payment)
  /-- `cm pay` to a card. -/
  | payCard (card : Card) (sats : ℕ)
  /-- `cm_pay` to a card. -/
  | payPeer (card : Card) (sats : ℕ)
  | balance (pages : ℕ)
  | collections (pages : ℕ)
  | confs (txid : String)
  /-- The reconcile the server starts with. -/
  | heal

/-- The command, its result aside. -/
def Command.perform (host : Host) : Command → Prog Unit
  | .serve duties => Kernel.serve host duties
  | .payment use => use.perform host
  | .payCard card sats => cliPayCard host card sats
  | .payPeer card sats => do
      let _ ← payPeerCard host card sats
  | .balance pages => do
      let _ ← balanceReport host pages
  | .collections pages => do
      let _ ← collectionsReport host pages
  | .confs txid => do
      let _ ← confsReport txid
  | .heal => do
      let _ ← reconcileLedger.attempt

/-! ## Numbering what one has read -/

/-- What a command knows of the ledgers it works on: the instances it opened, and what it
read of each since it last wrote to it. -/
structure Knows where
  own : List Handle
  read : Handle → Option (List Entry)

def Knows.after (k : Knows) : (op : Op) → op.Ans → Knows
  | .openLedger, .ok led => ⟨led :: k.own, Function.update k.read led none⟩
  | .entries led, es => { k with read := Function.update k.read led (some es) }
  | .append led _, _ => { k with read := Function.update k.read led none }
  | _, _ => k

/-- The reading in which a command learns what it is told and nothing else happens. -/
def knowing : Interp sig Knows := ⟨fun _ _ _ => True, Knows.after⟩

/-- Every call is in `P`; instances are the command's own; and an entry is numbered after
the last one read. -/
def Stamped (P : Op → Prop) : Guarantee sig Knows := fun k op _ =>
  P op ∧ match op with
    | .append led e => led ∈ k.own ∧ ∃ es, k.read led = some es ∧ e.seq = Ledger.nextSeq es
    | .entries led => led ∈ k.own
    | _ => True

/-- The program numbers its entries so, given that it owns `need`. -/
def Stamps {α : Type} (P : Op → Prop) (need : List Handle) (p : Prog α) : Prop :=
  ∀ k, need ⊆ k.own → wp knowing (Stamped P) (fun _ k' => k.own ⊆ k'.own) p k

/-- The calls that neither write to a ledger nor read one, but for `need`. -/
def Op.plain (need : List Handle) : Op → Prop
  | .append _ _ => False
  | .entries led => led ∈ need
  | _ => True

theorem Knows.own_after (k : Knows) (op : Op) (answer : op.Ans) :
    k.own ⊆ (k.after op answer).own := by
  cases op with
  | openLedger =>
      rcases answer with error | led
      · exact List.Subset.refl _
      · exact List.subset_cons_self ..
  | _ => exact List.Subset.refl _

section Rules

variable {P : Op → Prop} {need : List Handle} {α β : Type} {p : Prog α}

theorem stamps_pure {value : α} : Stamps P need (.pure value) := fun _ _ => List.Subset.refl _

theorem stamps_throw {error : Error} : Stamps P need (.throw error : Prog α) :=
  fun _ _ => List.Subset.refl _

theorem stamps_bind {f : α → Prog β} (first : Stamps P need p)
    (rest : ∀ value, Stamps P need (f value)) : Stamps P need (p >>= f) := by
  intro k owned
  refine wp_bind.2 (wp_mono (first k owned) ?_)
  rintro (error | value) k' kept
  · exact kept
  · exact wp_mono (rest value k' (List.Subset.trans owned kept)) fun _ _ more =>
      List.Subset.trans kept more

theorem stamps_attempt (body : Stamps P need p) : Stamps P need p.attempt :=
  fun k owned => wp_attempt.2 (body k owned)

theorem stamps_forEach {body : β → Prog Unit} {xs : List β}
    (each : ∀ x ∈ xs, Stamps P need (body x)) : Stamps P need (.forEach xs body) := by
  induction xs with
  | nil => exact stamps_pure
  | cons x xs ih =>
      exact stamps_bind (each x (List.mem_cons_self ..)) fun _ =>
        ih fun y member => each y (List.mem_cons_of_mem _ member)

theorem Stamps.weaken {P' : Op → Prop} (body : Stamps P need p) (weaker : ∀ op, P op → P' op) :
    Stamps P' need p :=
  fun k owned => wp_weaken (fun _ op _ promised => ⟨weaker op promised.1, promised.2⟩) (body k owned)

/-- A program that writes to no ledger. -/
theorem stamps_within (body : p.Within fun op => P op ∧ Op.plain need op) : Stamps P need p := by
  induction p with
  | pure value => exact stamps_pure
  | throw error => exact stamps_throw
  | call op next ih =>
      intro k owned answer _
      have own := k.own_after op answer
      have rest := ih answer (body.2 answer) (k.after op answer) (List.Subset.trans owned own)
      refine ⟨⟨body.1.1, ?_⟩, wp_mono rest fun _ _ more => List.Subset.trans own more⟩
      have plain := body.1.2
      cases op with
      | append led e => exact plain.elim
      | entries led => exact owned plain
      | _ => trivial

theorem stamps_ofExcept {outcome : Except Error α} : Stamps P need (.ofExcept outcome) :=
  stamps_within within_ofExcept

/-- One plain call. -/
theorem stamps_call {op : Op} {next : op.Ans → Prog α} (allowed : P op) (plain : op.plain need)
    (rest : ∀ answer, Stamps P need (next answer)) : Stamps P need (.call op next) := by
  intro k owned answer _
  have own := k.own_after op answer
  refine ⟨⟨allowed, ?_⟩, wp_mono (rest answer _ (List.Subset.trans owned own)) fun _ _ more =>
    List.Subset.trans own more⟩
  cases op with
  | append led e => exact plain.elim
  | entries led => exact owned plain
  | _ => trivial

/-- Opening an instance makes it the program's own. -/
theorem stamps_open {f : Handle → Prog α} (opens : P .openLedger)
    (rest : ∀ led, Stamps P (led :: need) (f led)) :
    Stamps P need (Ledger.openWithIdentity >>= f) := by
  intro k owned
  rintro (error | led) -
  · exact ⟨⟨opens, trivial⟩, List.Subset.refl _⟩
  · refine ⟨⟨opens, trivial⟩, wp_mono (rest led _ (List.cons_subset_cons led owned)) ?_⟩
    exact fun _ _ more => List.Subset.trans (List.subset_cons_self led k.own) more

/-- So does opening one that the program can do without. -/
theorem stamps_tryOpen {f : Except Error Handle → Prog α} (opens : P .openLedger)
    (failed : ∀ error, Stamps P need (f (.error error)))
    (rest : ∀ led, Stamps P (led :: need) (f (.ok led))) :
    Stamps P need (Ledger.openWithIdentity.attempt >>= f) := by
  intro k owned
  rintro (error | led) -
  · exact ⟨⟨opens, trivial⟩, failed error k owned⟩
  · refine ⟨⟨opens, trivial⟩, wp_mono (rest led _ (List.cons_subset_cons led owned)) ?_⟩
    exact fun _ _ more => List.Subset.trans (List.subset_cons_self led k.own) more

variable {led : Handle} (mine : led ∈ need)
include mine

/-- An append of what is numbered after the entries read. -/
theorem wp_append_known (make : ℕ → Entry) (numbered : ∀ n, (make n).seq = n)
    (books : ∀ n, P (.append led (make n))) {es : List Entry} {k : Knows} (owned : need ⊆ k.own)
    (known : k.read led = some es) :
    wp knowing (Stamped P) (fun _ k' => k.own ⊆ k'.own)
      (Ledger.append led (make (Ledger.nextSeq es))) k := by
  rintro (_ | error | error) - <;>
    exact ⟨⟨books _, owned mine, es, known, numbered _⟩, List.Subset.refl _⟩

variable (reads : P (.entries led))
include reads

/-- Read the instance, and go on by what it holds. -/
theorem stamps_entries {f : List Entry → Prog α} (rest : ∀ es, Stamps P need (f es)) :
    Stamps P need (Ledger.entries led >>= f) :=
  stamps_bind (stamps_call reads mine fun _ => stamps_pure) rest

/-- The dedup pattern: read, and append unless it is there. -/
theorem stamps_unless (make : ℕ → Entry) {has : List Entry → Bool} {already booked : α}
    (numbered : ∀ n, (make n).seq = n) (books : ∀ n, P (.append led (make n))) :
    Stamps P need (do
      let es ← Ledger.entries led
      if has es then
        return already
      Ledger.append led (make (Ledger.nextSeq es))
      return booked) := by
  intro k owned
  refine wp_bind.2 fun es _ => ⟨⟨reads, owned mine⟩, bindPost_ok.2 ?_⟩
  have known : (k.after (.entries led) es).read led = some es := Function.update_self ..
  split
  · exact List.Subset.refl _
  · refine wp_bind.2 (wp_mono (wp_append_known mine make numbered books owned known) ?_)
    rintro (error | ⟨⟩) k' kept <;> exact kept

end Rules

/-! ## The payments -/

/-- The calls of a payment: it appends sends and spent marks, and drops no sidecar. -/
def Op.pays : Op → Prop
  | .append _ (.sent _ _ _ _ _ _) | .append _ (.spSpent _ _ _) => True
  | .append _ _ | .removeSidecar _ _ => False
  | _ => True

section Payments

variable {host : Host} {need : List Handle} {led : Handle}

theorem within_mainnetGuard {P : Op → Prop} (loads : P .loadPolicy) :
    (mainnetGuard host).Within P := by
  refine within_bind ⟨loads, fun _ => within_ofExcept⟩ fun policy => ?_
  rcases ensureMainnetCapped host.network policy with refusal | ⟨⟩ <;> trivial

theorem within_signed {P : Op → Prop} (signs : ∀ tx, P (.sign tx)) {psbt : Psbt} {sats : ℕ}
    {maxFeeSats : Option ℕ} : (signed psbt sats maxFeeSats).Within P := by
  have capped : (feeCap psbt.fee maxFeeSats).Within P := by
    unfold feeCap
    split
    · split <;> trivial
    · trivial
  exact within_bind capped fun _ => within_bind ⟨signs _, fun _ => within_ofExcept⟩ fun _ => trivial

theorem within_buildSigned {P : Op → Prop} (loads : P .loadPolicy) (syncs : P .syncWallet)
    (finishes : ∀ request, P (.finishPsbt request)) (signs : ∀ tx, P (.sign tx)) {payee : String}
    {sats : ℕ} {maxFeeSats : Option ℕ} : (buildSigned host payee sats maxFeeSats).Within P :=
  within_bind (within_mainnetGuard loads) fun _ =>
    within_bind ⟨syncs, fun _ => within_ofExcept⟩ fun _ => within_bind within_ofExcept fun _ =>
      within_bind ⟨finishes _, fun _ => within_ofExcept⟩ fun _ => within_signed signs

theorem within_buildSignedToSp {P : Op → Prop} (loads : P .loadPolicy) (syncs : P .syncWallet)
    (finishes : ∀ request, P (.finishPsbt request)) (signs : ∀ tx, P (.sign tx))
    {scan spend : PublicKey} {sats : ℕ} {maxFeeSats : Option ℕ} {funds : List Ledger.SpUtxo} :
    (buildSignedToSp host scan spend sats maxFeeSats funds).Within P :=
  within_bind (within_mainnetGuard loads) fun _ =>
    within_bind ⟨syncs, fun _ => within_ofExcept⟩ fun _ => within_bind within_ofExcept fun _ =>
      within_bind ⟨finishes _, fun _ => within_ofExcept⟩ fun _ =>
        within_bind (within_signed signs) fun _ => trivial

theorem within_buildSignedSpendingSp {P : Op → Prop} (loads : P .loadPolicy)
    (syncs : P .syncWallet) (finishes : ∀ request, P (.finishPsbt request))
    (signs : ∀ tx, P (.sign tx)) {payee : String} {sats : ℕ} {maxFeeSats : Option ℕ}
    {funds : List Ledger.SpUtxo} :
    (buildSignedSpendingSp host payee sats maxFeeSats funds).Within P := by
  unfold buildSignedSpendingSp
  split
  · exact within_bind (within_buildSigned loads syncs finishes signs) fun _ => trivial
  · exact within_bind (within_mainnetGuard loads) fun _ =>
      within_bind ⟨syncs, fun _ => within_ofExcept⟩ fun _ => within_bind within_ofExcept fun _ =>
        within_bind within_ofExcept fun _ => within_bind ⟨finishes _, fun _ => within_ofExcept⟩
          fun _ => within_bind (within_signed signs) fun _ => trivial

theorem within_record {P : Op → Prop} {tx : Tx} {sats : ℕ} {payee : String}
    (reads : P (.entries led)) (asks : P .nowUnix) (stages : P (.writeSidecar tx.txid tx))
    (books : ∀ seq now, P (.append led (.sent seq tx.txid sats payee .pending now)))
    (hands : P (.broadcast tx)) : (record led tx sats payee).Within P := by
  refine within_bind ⟨stages, fun answer => ?_⟩ fun _ => within_bind ⟨reads, fun _ => trivial⟩
    fun _ => within_bind ⟨asks, fun _ => trivial⟩ fun _ => within_bind ⟨books _ _, fun answer => ?_⟩
      fun _ => ⟨hands, fun _ => within_ofExcept⟩
  · cases answer <;> trivial
  · cases answer <;> trivial

section Sends

variable {P : Op → Prop} (loads : P .loadPolicy) (syncs : P .syncWallet)
  (finishes : ∀ request, P (.finishPsbt request)) (signs : ∀ tx, P (.sign tx))
  (reads : P (.entries led)) (asks : P .nowUnix) (stages : ∀ tx, P (.writeSidecar tx.txid tx))
  (sends : ∀ seq txid sats payee now, P (.append led (.sent seq txid sats payee .pending now)))
  (hands : ∀ tx, P (.broadcast tx)) {sats : ℕ} {maxFeeSats : Option ℕ}
include loads syncs finishes signs reads asks stages sends hands

theorem within_send {payee : String} : (send host led payee sats maxFeeSats).Within P :=
  within_bind (within_buildSigned loads syncs finishes signs) fun tx =>
    within_bind (within_record reads asks (stages tx) (fun _ _ => sends _ _ _ _ _) (hands tx))
      fun _ => trivial

variable (marks : ∀ seq txid vout, P (.append led (.spSpent seq txid vout)))
include marks

theorem within_sendSpendingSp {payee : String} :
    (sendSpendingSp host led payee sats maxFeeSats).Within P :=
  within_bind ⟨reads, fun _ => trivial⟩ fun _ => within_bind within_ofExcept fun _ =>
    within_bind (within_buildSignedSpendingSp loads syncs finishes signs) fun ⟨tx, _⟩ =>
      within_bind (within_record reads asks (stages tx) (fun _ _ => sends _ _ _ _ _) (hands tx))
        fun _ => within_bind (within_markSpent reads marks) fun _ => trivial

theorem within_spSend {code : String} : (spSend host led code sats maxFeeSats).Within P := by
  unfold spSend
  split
  · trivial
  refine within_bind within_ofExcept fun ⟨scan, spend, net⟩ => ?_
  dsimp only
  split
  · trivial
  refine within_bind ⟨reads, fun _ => trivial⟩ fun _ => within_bind within_ofExcept fun _ => ?_
  refine within_bind (within_buildSignedToSp loads syncs finishes signs)
    fun ⟨tx, address, consumed⟩ => within_bind ⟨loads, fun _ => within_ofExcept⟩ fun policy => ?_
  refine within_bind ?_ fun _ => within_bind
    (within_record reads asks (stages tx) (fun _ _ => sends _ _ _ _ _) (hands tx)) fun _ =>
      within_bind (within_markSpent reads marks) fun _ => trivial
  rcases policy.checkAddress address.display with refusal | ⟨⟩ <;> trivial

end Sends

theorem stamps_gate (verdict : Except PolicyError Unit) : Stamps Op.pays need (gate verdict) := by
  rcases verdict with refusal | ⟨⟩
  · exact stamps_throw
  · exact stamps_pure

variable (mine : led ∈ need)
include mine

theorem stamps_recordSpSpent {P : Op → Prop} (reads : P (.entries led))
    {txid : String} {vout : ℕ} (books : ∀ seq, P (.append led (.spSpent seq txid vout))) :
    Stamps P need (Ledger.recordSpSpent led txid vout) :=
  stamps_unless mine reads (fun n => .spSpent n txid vout) (fun _ => rfl) books

theorem stamps_record (tx : Tx) (sats : ℕ) (payee : String) :
    Stamps Op.pays need (record led tx sats payee) := by
  refine stamps_bind (stamps_call trivial trivial fun answer => ?_) fun _ => ?_
  · cases answer <;> first | exact stamps_pure | exact stamps_throw
  intro k owned
  refine wp_bind.2 fun es _ => ⟨⟨trivial, owned mine⟩, bindPost_ok.2 ?_⟩
  refine wp_bind.2 fun now _ => ⟨⟨trivial, trivial⟩, bindPost_ok.2 ?_⟩
  have known : (k.after (.entries led) es).read led = some es := Function.update_self ..
  have handed : Stamps Op.pays need (broadcast tx) :=
    stamps_call trivial trivial fun _ => stamps_ofExcept
  refine wp_bind.2 (wp_mono (wp_append_known mine
    (fun n => .sent n tx.txid sats payee .pending now) (fun _ => rfl) (fun _ => trivial) owned
    known) ?_)
  rintro (error | ⟨⟩) k' kept
  · exact kept
  · exact wp_mono (handed k' (List.Subset.trans owned kept)) fun _ _ more =>
      List.Subset.trans kept more

theorem stamps_markSpent (consumed : List OutPoint) :
    Stamps Op.pays need (markSpent led consumed) :=
  stamps_forEach fun _ _ => stamps_bind
    (stamps_recordSpSpent mine trivial fun _ => trivial) fun _ => stamps_pure

theorem stamps_send (payee : String) (sats : ℕ) (maxFeeSats : Option ℕ) :
    Stamps Op.pays need (send host led payee sats maxFeeSats) := by
  refine stamps_bind (stamps_within ?_) fun tx =>
    stamps_bind (stamps_record mine tx sats payee) fun _ => stamps_pure
  exact within_buildSigned ⟨trivial, trivial⟩ ⟨trivial, trivial⟩ (fun _ => ⟨trivial, trivial⟩)
    fun _ => ⟨trivial, trivial⟩

theorem stamps_spSend (code : String) (sats : ℕ) (maxFeeSats : Option ℕ) :
    Stamps Op.pays need (spSend host led code sats maxFeeSats) := by
  unfold spSend
  split
  · exact stamps_throw
  refine stamps_bind stamps_ofExcept fun ⟨scan, spend, net⟩ => ?_
  dsimp only
  split
  · exact stamps_throw
  refine stamps_entries mine trivial fun es => stamps_bind stamps_ofExcept fun _ => ?_
  refine stamps_bind (stamps_within ?_) fun ⟨tx, address, consumed⟩ => ?_
  · exact within_buildSignedToSp ⟨trivial, trivial⟩ ⟨trivial, trivial⟩
      (fun _ => ⟨trivial, trivial⟩) fun _ => ⟨trivial, trivial⟩
  refine stamps_bind (stamps_call trivial trivial fun _ => stamps_ofExcept) fun policy => ?_
  refine stamps_bind (stamps_gate _) fun _ => ?_
  exact stamps_bind (stamps_record mine tx sats code) fun _ =>
    stamps_bind (stamps_markSpent mine consumed) fun _ => stamps_pure

theorem stamps_sendSpendingSp (payee : String) (sats : ℕ) (maxFeeSats : Option ℕ) :
    Stamps Op.pays need (sendSpendingSp host led payee sats maxFeeSats) := by
  refine stamps_entries mine trivial fun es => stamps_bind stamps_ofExcept fun _ => ?_
  refine stamps_bind (stamps_within ?_) fun ⟨tx, consumed⟩ => ?_
  · exact within_buildSignedSpendingSp ⟨trivial, trivial⟩ ⟨trivial, trivial⟩
      (fun _ => ⟨trivial, trivial⟩) fun _ => ⟨trivial, trivial⟩
  exact stamps_bind (stamps_record mine tx sats payee) fun _ =>
    stamps_bind (stamps_markSpent mine consumed) fun _ => stamps_pure

theorem stamps_spendGate (policy : Policy) (sats : ℕ) :
    Stamps Op.pays need (spendGate led policy sats) :=
  stamps_bind (stamps_call trivial trivial fun _ => stamps_pure) fun _ =>
    stamps_entries mine trivial fun _ => stamps_gate _

theorem stamps_gated {α : Type} {payee : String} {sats : ℕ} {pay : Option ℕ → Prog α}
    (paid : ∀ maxFeeSats, Stamps Op.pays need (pay maxFeeSats)) :
    Stamps Op.pays need (gated led payee sats pay) :=
  stamps_bind (stamps_call trivial trivial fun _ => stamps_ofExcept) fun policy =>
    stamps_bind (stamps_spendGate mine policy sats) fun _ =>
      stamps_bind (stamps_gate _) fun _ => paid _

theorem stamps_runPayer (inbox : List Message) (closed : Except Error Unit) (sats : ℕ) :
    Stamps Op.pays need (runPayer host led inbox closed sats) := by
  have awaits : (awaitAddress closed inbox).Within fun op => Op.pays op ∧ Op.plain need op := by
    induction inbox with
    | nil => exact within_bind within_ofExcept fun _ => trivial
    | cons message inbox ih =>
        cases message with
        | addrResponse address index => trivial
        | _ => exact ih
  refine stamps_bind (stamps_call trivial trivial fun _ => stamps_ofExcept) fun policy => ?_
  refine stamps_bind (stamps_spendGate mine policy sats) fun _ => ?_
  refine stamps_bind (stamps_call trivial trivial fun _ => stamps_ofExcept) fun _ => ?_
  refine stamps_bind (stamps_within awaits) fun ⟨address, _⟩ => ?_
  refine stamps_bind (stamps_gate _) fun _ => ?_
  refine stamps_bind (stamps_send mine address sats _) fun txid => ?_
  exact stamps_call trivial trivial fun _ => stamps_ofExcept

theorem stamps_fetch (url : String) (maxSats : ℕ) :
    Stamps Op.pays need (fetch host led url maxSats) := by
  have retries : ∀ txid sats left, Stamps Op.pays need (retryPaid url txid sats left) := by
    intro txid sats left
    induction left with
    | zero => exact stamps_throw
    | succ left ih =>
        refine stamps_bind (stamps_call trivial trivial fun _ => stamps_ofExcept) fun retry => ?_
        split
        · exact stamps_pure
        · exact ih
  unfold fetch
  split
  · exact stamps_throw
  refine stamps_bind (stamps_call trivial trivial fun _ => stamps_ofExcept) fun first => ?_
  split
  · exact stamps_pure
  split
  · exact stamps_throw
  refine stamps_bind stamps_ofExcept fun terms => stamps_bind stamps_ofExcept fun _ => ?_
  refine stamps_bind (stamps_gated mine fun _ => stamps_spSend mine _ _ _) fun txid => ?_
  exact retries txid terms.sats Kernel.retries

omit mine

theorem stamps_tunnelPay (ep : Endpoint) (peerPub : String) (sats : ℕ) :
    Stamps Op.pays need (tunnelPay host ep peerPub sats) :=
  stamps_bind stamps_ofExcept fun _ => stamps_bind stamps_ofExcept fun _ =>
    stamps_open trivial fun _ =>
      stamps_bind (stamps_call trivial trivial fun _ => stamps_ofExcept) fun _ =>
        stamps_runPayer (List.mem_cons_self ..) _ _ _

theorem stamps_sendPayment (payee : String) (sats : ℕ) :
    Stamps Op.pays need (sendPayment host payee sats) :=
  stamps_open trivial fun _ => stamps_gated (List.mem_cons_self ..) fun _ =>
    stamps_sendSpendingSp (List.mem_cons_self ..) _ _ _

theorem stamps_spPay (code : String) (sats : ℕ) : Stamps Op.pays need (spPay host code sats) :=
  stamps_open trivial fun _ => stamps_gated (List.mem_cons_self ..) fun _ =>
    stamps_spSend (List.mem_cons_self ..) _ _ _

/-- **A payment numbers its entries, and appends sends and spent marks only.** -/
theorem stamps_payment (use : Payment) : Stamps Op.pays need (use.perform host) := by
  cases use with
  | tunnel ep peerPub sats =>
      exact stamps_bind (stamps_attempt (stamps_tunnelPay ep peerPub sats)) fun _ => stamps_pure
  | sendPayment payee sats =>
      exact stamps_bind (stamps_attempt (stamps_sendPayment payee sats)) fun _ => stamps_pure
  | spPay code sats =>
      exact stamps_bind (stamps_attempt (stamps_spPay code sats)) fun _ => stamps_pure
  | cliSpPay code sats =>
      exact stamps_bind (stamps_attempt (stamps_spPay code sats)) fun _ => stamps_pure
  | fetch url maxSats =>
      refine stamps_bind (stamps_attempt ?_) fun _ => stamps_pure
      exact stamps_open trivial fun _ => stamps_fetch (List.mem_cons_self ..) url maxSats

theorem stamps_dialEach (lead wg : String) (sats : ℕ) (eps : List Endpoint)
    (lastErr : Option Error) : Stamps Op.pays need (dialEach host lead wg sats eps lastErr) := by
  induction eps generalizing lastErr with
  | nil =>
      cases lastErr
      · exact stamps_pure
      · exact stamps_throw
  | cons ep eps ih =>
      refine stamps_bind (stamps_call trivial trivial fun _ => stamps_pure) fun _ => ?_
      refine stamps_bind (stamps_attempt (stamps_tunnelPay ep wg sats)) fun outcome => ?_
      rcases outcome with error | ⟨⟩
      · exact ih _
      · exact stamps_pure

theorem stamps_cliPayCard (card : Card) (sats : ℕ) :
    Stamps Op.pays need (cliPayCard host card sats) := by
  unfold cliPayCard
  split
  · exact stamps_bind (stamps_spPay _ sats) fun _ => stamps_pure
  · split
    · exact stamps_throw
    · exact stamps_dialEach _ _ _ _ _

theorem stamps_payPeerCard (card : Card) (sats : ℕ) :
    Stamps Op.pays need (payPeerCard host card sats) := by
  unfold payPeerCard
  split
  · exact stamps_spPay _ sats
  · split
    · exact stamps_throw
    · refine stamps_bind (stamps_dialEach _ _ _ _ _) fun _ => stamps_open trivial fun led => ?_
      refine stamps_entries (List.mem_cons_self ..) trivial fun es => ?_
      split
      · exact stamps_pure
      · exact stamps_throw

end Payments

/-! ## The daemon and the reports -/

section Daemon

variable {host : Host} {need : List Handle} {led : Handle}

/-- Any call. -/
def Op.any : Op → Prop := fun _ => True

variable (mine : led ∈ need)
include mine

theorem stamps_updateStatus (txid : String) (status : Status) :
    Stamps Op.any need (Ledger.updateStatus led txid status) := by
  intro k owned
  refine wp_bind.2 fun es _ => ⟨⟨trivial, owned mine⟩, bindPost_ok.2 ?_⟩
  have known : (k.after (.entries led) es).read led = some es := Function.update_self ..
  exact wp_append_known mine (fun n => .statusUpdate n txid status) (fun _ => rfl)
    (fun _ => trivial) owned known

theorem stamps_advance (txid : String) (confs : ℕ) :
    Stamps Op.any need (advance led txid confs) := by
  have settle : ∀ changed : Bool, Stamps Op.any need (if confs ≥ 1 then
      (Ledger.removeSidecar txid .settled >>= fun _ => .pure changed) else .pure changed) := by
    intro changed
    split
    · exact stamps_bind (stamps_call trivial trivial fun _ => stamps_ofExcept) fun _ => stamps_pure
    · exact stamps_pure
  refine stamps_entries mine trivial fun es => ?_
  dsimp only
  split
  · exact stamps_bind (stamps_updateStatus mine txid _) fun _ => settle _
  · exact settle _

theorem stamps_reconcileOne (txid : String) : Stamps Op.any need (reconcileOne led txid) := by
  refine stamps_bind (stamps_call trivial trivial fun _ => stamps_ofExcept) fun confs => ?_
  split
  · refine stamps_bind (stamps_call trivial trivial fun _ => stamps_ofExcept) fun contents => ?_
    rcases contents with _ | contents
    · exact stamps_advance mine txid confs
    refine stamps_bind ?_ fun verdict => ?_
    · rcases contents with tx | _
      · refine stamps_bind (stamps_attempt (stamps_call trivial trivial fun _ => stamps_ofExcept))
          fun outcome => ?_
        cases outcome <;> exact stamps_pure
      · exact stamps_throw
    · cases verdict with
      | accepted => exact stamps_advance mine txid confs
      | rejected reason =>
          refine stamps_bind (stamps_updateStatus mine txid .failed) fun _ => ?_
          exact stamps_bind (stamps_call trivial trivial fun _ => stamps_ofExcept) fun _ =>
            stamps_pure
  · exact stamps_advance mine txid confs

theorem stamps_reconcileEach (queue : List String) (changed : ℕ) :
    Stamps Op.any need (reconcileEach led queue changed) := by
  induction queue generalizing changed with
  | nil => exact stamps_pure
  | cons txid queue ih => exact stamps_bind (stamps_reconcileOne mine txid) fun _ => ih _

theorem stamps_reconcile : Stamps Op.any need (reconcile led) := by
  refine stamps_entries mine trivial fun es => ?_
  refine stamps_bind (stamps_reconcileEach mine _ _) fun _ => stamps_bind ?_ fun _ => stamps_pure
  exact stamps_within (within_sweepOrphans ⟨trivial, mine⟩ ⟨trivial, trivial⟩
    fun _ => ⟨trivial, trivial⟩)

theorem stamps_bookMatches (txid : String) (fs : List SpFound) (found : List Found) :
    Stamps Op.any need (bookMatches led txid fs found) := by
  induction fs generalizing found with
  | nil => exact stamps_pure
  | cons f fs ih =>
      unfold bookMatches
      split
      · exact ih _
      · exact stamps_bind (stamps_unless mine trivial
          (fun n => .spReceived n txid f.vout f.sats _ .pending) (fun _ => rfl) fun _ => trivial)
          fun _ => ih _

theorem stamps_bookPage (txs : List EsploraTx) (found : List Found) :
    Stamps Op.any need (bookPage host led txs found) := by
  induction txs generalizing found with
  | nil => exact stamps_pure
  | cons tx txs ih => exact stamps_bind (stamps_bookMatches mine _ _ _) fun _ => ih _

theorem stamps_scanPages (hash : String) (pages start : ℕ) (found : List Found) :
    Stamps Op.any need (scanPages host led hash pages start found) := by
  induction pages generalizing start found with
  | zero => exact stamps_throw
  | succ pages ih =>
      refine stamps_bind (stamps_call trivial trivial fun _ => stamps_ofExcept) fun txs => ?_
      split
      · exact stamps_pure
      · refine stamps_bind (stamps_bookPage mine _ _) fun _ => ?_
        split
        · exact stamps_pure
        · exact ih _ _

theorem stamps_scanBlocks (pages count height : ℕ) (found : List Found) :
    Stamps Op.any need (scanBlocks host led pages count height found) := by
  induction count generalizing height found with
  | zero => exact stamps_pure
  | succ count ih =>
      exact stamps_bind (stamps_call trivial trivial fun _ => stamps_ofExcept) fun _ =>
        stamps_bind (stamps_scanPages mine _ _ _ _) fun _ => ih _ _

theorem stamps_trackSpends : Stamps Op.any need (trackSpends led) := by
  refine stamps_entries mine trivial fun es => stamps_forEach fun u _ => ?_
  refine stamps_bind (stamps_call trivial trivial fun _ => stamps_ofExcept) fun spent => ?_
  split
  · exact stamps_bind (stamps_recordSpSpent mine trivial fun _ => trivial) fun _ => stamps_pure
  · exact stamps_pure

theorem stamps_scanToTip (pages : ℕ) : Stamps Op.any need (scanToTip host led pages) := by
  refine stamps_bind (stamps_call trivial trivial fun _ => stamps_pure) fun _ => ?_
  refine stamps_bind (stamps_attempt ?_) fun outcome => ?_
  · refine stamps_bind stamps_ofExcept fun _ => stamps_bind stamps_ofExcept fun _ => ?_
    refine stamps_bind (stamps_call trivial trivial fun _ => stamps_ofExcept) fun tip => ?_
    refine stamps_bind (stamps_call trivial trivial fun _ => stamps_ofExcept) fun checkpoint => ?_
    refine stamps_bind (stamps_scanBlocks mine _ _ _ _) fun found => ?_
    refine stamps_bind (stamps_call trivial trivial fun answer => ?_) fun _ =>
      stamps_bind (stamps_trackSpends mine) fun _ => stamps_pure
    cases answer <;> first | exact stamps_pure | exact stamps_throw
  · exact stamps_bind (stamps_call trivial trivial fun _ => stamps_pure) fun _ => stamps_ofExcept

theorem stamps_recordReceived (txid : String) (sats index : ℕ) :
    Stamps Op.any need (Ledger.recordReceived led txid sats index) :=
  stamps_unless mine trivial (fun n => .received n txid sats index .pending) (fun _ => rfl)
    fun _ => trivial

theorem stamps_pollIssued : Stamps Op.any need (pollIssued host led) := by
  refine stamps_entries mine trivial fun es => stamps_forEach fun index _ => ?_
  unfold pollIndex
  split
  · exact stamps_pure
  · refine stamps_bind (stamps_attempt (stamps_call trivial trivial fun _ => stamps_ofExcept))
      fun answer => ?_
    rcases answer with error | deposits
    · exact stamps_pure
    · exact stamps_forEach fun d _ =>
        stamps_bind (stamps_attempt (stamps_recordReceived mine _ _ _)) fun _ => stamps_pure

theorem stamps_handleNotify (issuedIndex : Option ℕ) (issuedAddress : Option String)
    (txid : String) (claimed : ℕ) :
    Stamps Op.any need (handleNotify led issuedIndex issuedAddress txid claimed) := by
  unfold handleNotify
  rcases issuedAddress with _ | address
  · exact stamps_pure
  refine stamps_bind (stamps_attempt (stamps_call trivial trivial fun _ => stamps_ofExcept))
    fun answer => ?_
  rcases answer with error | deposits
  · exact stamps_pure
  dsimp only
  split
  · exact stamps_pure
  · exact stamps_bind (stamps_recordReceived mine _ _ _) fun _ =>
      stamps_bind (stamps_attempt (stamps_reconcile mine)) fun _ => stamps_pure

theorem stamps_runReceiver (closed : Except Error Unit) (inbox : List Message) (nextIndex : ℕ)
    (issuedIndex : Option ℕ) (issuedAddress : Option String) :
    Stamps Op.any need
      (runReceiver host led closed inbox nextIndex issuedIndex issuedAddress) := by
  induction inbox generalizing nextIndex issuedIndex issuedAddress with
  | nil => exact stamps_ofExcept
  | cons message inbox ih =>
      cases message with
      | addrRequest sats =>
          unfold runReceiver
          split
          · exact stamps_throw
          · intro k owned
            refine wp_bind.2 fun es _ => ⟨⟨trivial, owned mine⟩, bindPost_ok.2 ?_⟩
            have known : (k.after (.entries led) es).read led = some es := Function.update_self ..
            refine wp_bind.2 (wp_mono (wp_append_known mine (fun n => .addressIssued n _)
              (fun _ => rfl) (fun _ => trivial) owned known) ?_)
            rintro (error | ⟨⟩) k' kept
            · exact kept
            have answers : ∀ reply, Stamps Op.any need (wireSend reply) :=
              fun _ => stamps_call trivial trivial fun _ => stamps_ofExcept
            exact wp_mono (stamps_bind (answers _) (fun _ => ih _ _ _) k' (List.Subset.trans owned kept))
              fun _ _ more => List.Subset.trans kept more
          · exact ih _ _ _
      | notify txid claimed => exact stamps_handleNotify mine _ _ _ _
      | chat text => exact ih _ _ _
      | addrResponse address index => exact ih _ _ _

omit mine

theorem stamps_scanFresh (pages : ℕ) : Stamps Op.any need (scanFresh host pages) :=
  stamps_open trivial fun _ => stamps_bind (stamps_scanToTip (List.mem_cons_self ..) pages) fun _ =>
    stamps_entries (List.mem_cons_self ..) trivial fun _ => stamps_pure

theorem stamps_duty (mine : led ∈ need) (duty : Duty) :
    Stamps Op.any need (duty.perform host led) := by
  cases duty with
  | watch pages =>
      refine stamps_bind (stamps_attempt (stamps_reconcile mine)) fun _ => ?_
      refine stamps_bind (stamps_pollIssued mine) fun _ => ?_
      exact stamps_bind (stamps_attempt (stamps_scanFresh pages)) fun _ => stamps_pure
  | session inbox closed =>
      refine stamps_entries mine trivial fun es => ?_
      exact stamps_bind (stamps_attempt (stamps_runReceiver mine _ _ _ _ _)) fun _ => stamps_pure

theorem stamps_reconcileLedger : Stamps Op.any need reconcileLedger :=
  stamps_open trivial fun _ => stamps_reconcile (List.mem_cons_self ..)

/-- **Every command numbers its entries after what it read of its own instance.** -/
theorem stamps_command (command : Command) : Stamps Op.any [] (command.perform host) := by
  have pays : ∀ op, Op.pays op → Op.any op := fun _ _ => trivial
  cases command with
  | serve duties =>
      exact stamps_open trivial fun _ => stamps_forEach fun duty _ =>
        stamps_duty (List.mem_cons_self ..) duty
  | payment use => exact (stamps_payment use).weaken pays
  | payCard card sats => exact (stamps_cliPayCard card sats).weaken pays
  | payPeer card sats =>
      exact stamps_bind ((stamps_payPeerCard card sats).weaken pays) fun _ => stamps_pure
  | balance pages =>
      refine stamps_bind ?_ fun _ => stamps_pure
      refine stamps_bind (stamps_call trivial trivial fun _ => stamps_ofExcept) fun _ => ?_
      refine stamps_tryOpen trivial (fun _ => stamps_pure) fun led => ?_
      have mine : led ∈ [led] := List.mem_singleton_self _
      refine stamps_bind (stamps_attempt (stamps_scanToTip mine pages)) fun _ => ?_
      refine stamps_bind (stamps_attempt (stamps_reconcile mine)) fun _ => ?_
      exact stamps_entries mine trivial fun _ => stamps_pure
  | collections pages =>
      refine stamps_bind (stamps_open trivial fun led => ?_) fun _ => stamps_pure
      have mine : led ∈ [led] := List.mem_singleton_self _
      refine stamps_bind (stamps_attempt (stamps_scanToTip mine pages)) fun outcome => ?_
      cases outcome <;>
      · refine stamps_bind stamps_pure fun note => ?_
        exact stamps_entries mine trivial fun _ => stamps_bind stamps_ofExcept fun _ => stamps_pure
  | confs txid =>
      refine stamps_bind ?_ fun _ => stamps_pure
      refine stamps_bind (stamps_call trivial trivial fun _ => stamps_ofExcept) fun confs => ?_
      exact stamps_bind (stamps_attempt stamps_reconcileLedger) fun _ => stamps_pure
  | heal => exact stamps_bind (stamps_attempt stamps_reconcileLedger) fun _ => stamps_pure

end Daemon

end ComputerMoney.Kernel

/-
# Safety.ScanOnce -- when concurrent scans book an output twice

The scan lock makes passes sequential, and a pass books an output only if its caller's
instance does not have it.  But the instance is opened before the lock is asked for, and
the checkpoint moves only when a pass succeeds.  So a caller that opened early can wait
behind a pass that books an output and then fails, read the same blocks again, and book
the output again.

`outputs_booked_once` is about every interleaving of any number of callers: as long as no
pass is served an output that is on file and missing from its caller's instance, no
output is ever on file twice.  Each caller is verified alone among the others
(`Theory.Threads`): what it promises is to append a silent-payment receipt only under the
lock and only for an output not on file; what it relies on is that while it holds the lock
nobody else appends one.
-/
import ComputerMoney.Theory.Threads
import ComputerMoney.Kernel.Scan
import ComputerMoney.Kernel.Script
import Mathlib.Data.List.Nodup

namespace ComputerMoney.Safety

set_option autoImplicit false

open Theory Theory.Program Kernel

/-! ## Callers that share a file and a lock -/

/-- The world, and which thread runs a pass on which instance. -/
structure Shared where
  world : World
  holder : Option (ℕ × Handle)

/-- The holder after a call of thread `i`. -/
def holderAfter (i : ℕ) (holder : Option (ℕ × Handle)) : Op → Option (ℕ × Handle)
  | .scanLock led => some (i, led)
  | .scanUnlock => none
  | _ => holder

/-- The lock is a mutex: it is given only when it is free. -/
def Mutex (s : Shared) : Op → Prop
  | .scanLock _ => s.world.scanLocked = false
  | _ => True

/-- The host as thread `i` finds it. -/
def reading (host : Host) (i : ℕ) : Interp sig Shared where
  allowed s op answer := World.allows host s.world op answer ∧ Mutex s op
  next s op answer := ⟨s.world.after op answer, holderAfter i s.holder op⟩

/-- The outputs the entries book. -/
def spOutpoints (entries : List Entry) : List OutPoint := entries.filterMap Entry.spOutpoint?

/-- The outputs of a page that a pass books if it does not know them. -/
def payouts (host : Host) (txs : List EsploraTx) : List OutPoint :=
  txs.flatMap fun tx =>
    ((host.txMatches tx).filter fun f => dustFloor ≤ f.sats).map fun f => (tx.txid, f.vout)

/-- What is asked of the pages: nothing a pass of thread `i` is shown to pay us is on file
and missing from its caller's instance. -/
def UpToDate (host : Host) (i : ℕ) : Guarantee sig Shared
  | s, .blockTxs _ _, .ok txs => ∀ led, s.holder = some (i, led) → ∀ o ∈ payouts host txs,
      o ∈ spOutpoints s.world.ledger → o ∈ spOutpoints (s.world.mem led)
  | _, _, _ => True

inductive Caller where
  | scanFresh (pages : ℕ)
  | balanceReport (pages : ℕ)
  | collectionsReport (pages : ℕ)

def Caller.program (host : Host) : Caller → Prog Unit
  | .scanFresh pages => do
      let _ ← Kernel.scanFresh host pages
  | .balanceReport pages => do
      let _ ← Kernel.balanceReport host pages
  | .collectionsReport pages => do
      let _ ← Kernel.collectionsReport host pages

/-! ## Promise, reliance, invariant -/

/-- The promise: receipts only under the lock and only for outputs not on file. -/
def BooksUnderLock (i : ℕ) : Guarantee sig Shared
  | s, .append led (.spReceived _ txid vout _ _ _), _ =>
      s.holder = some (i, led) ∧ (txid, vout) ∉ spOutpoints s.world.ledger
  | s, .scanLock led, _ => led < s.world.fresh
  | s, .scanUnlock, _ => ∃ led, s.holder = some (i, led)
  | _, _, _ => True

/-- The reliance: a pass in progress is left alone. -/
structure Undisturbed (i : ℕ) (s s' : Shared) : Prop where
  fresh : s.world.fresh ≤ s'.world.fresh
  holder : ∀ led, s.holder = some (i, led) → s'.holder = some (i, led)
  ledger : ∀ led, s.holder = some (i, led) →
    spOutpoints s'.world.ledger = spOutpoints s.world.ledger
  view : ∀ led, s.holder = some (i, led) →
    spOutpoints (s'.world.mem led) = spOutpoints (s.world.mem led)

theorem Undisturbed.refl (i : ℕ) (s : Shared) : Undisturbed i s s :=
  ⟨Nat.le_refl _, fun _ held => held, fun _ _ => rfl, fun _ _ => rfl⟩

theorem Undisturbed.trans (i : ℕ) (s₁ s₂ s₃ : Shared) (first : Undisturbed i s₁ s₂)
    (second : Undisturbed i s₂ s₃) : Undisturbed i s₁ s₃ where
  fresh := Nat.le_trans first.fresh second.fresh
  holder led held := second.holder led (first.holder led held)
  ledger led held := (second.ledger led (first.holder led held)).trans (first.ledger led held)
  view led held := (second.view led (first.holder led held)).trans (first.view led held)

/-- No output is on file twice, and whoever runs a pass has the lock and an open instance. -/
structure BookedOnce (s : Shared) : Prop where
  distinct : (spOutpoints s.world.ledger).Nodup
  held : ∀ i led, s.holder = some (i, led) → led < s.world.fresh ∧ s.world.scanLocked = true

theorem spOutpoints_append (entries : List Entry) (e : Entry) :
    spOutpoints (entries ++ [e]) = spOutpoints entries ++ e.spOutpoint?.toList := by
  rw [spOutpoints, List.filterMap_append]
  cases e <;> rfl

theorem mem_spOutpoints {entries : List Entry} {txid : String} {vout : ℕ} :
    (txid, vout) ∈ spOutpoints entries ↔ Ledger.hasSpOutput entries txid vout = true := by
  rw [Ledger.hasSpOutput_iff, spOutpoints, List.mem_filterMap]

/-- An entry that books no output changes neither the file's outputs nor an instance's. -/
theorem spOutpoints_after {w : World} {led : Handle} {e : Entry} {answer : AppendAnswer}
    (other : e.spOutpoint? = none) :
    spOutpoints (w.after (.append led e) answer).ledger = spOutpoints w.ledger ∧
      ∀ led', spOutpoints ((w.after (.append led e) answer).mem led') =
        spOutpoints (w.mem led') := by
  have same : ∀ entries, spOutpoints (entries ++ [e]) = spOutpoints entries := by
    intro entries
    rw [spOutpoints_append, other, Option.toList_none, List.append_nil]
  cases answer with
  | ok =>
      refine ⟨same _, fun led' => ?_⟩
      show spOutpoints (Function.update w.mem led (w.mem led ++ [e]) led') = _
      rcases eq_or_ne led' led with rfl | different
      · rw [Function.update_self, same]
      · rw [Function.update_of_ne different]
  | lost e => exact ⟨rfl, fun _ => rfl⟩
  | kept e => exact ⟨same _, fun _ => rfl⟩

/-- The file's outputs after an append that honours the promise are still distinct. -/
theorem distinct_after {i : ℕ} {s : Shared} {led : Handle} {e : Entry} {answer : AppendAnswer}
    (promised : BooksUnderLock i s (.append led e) answer)
    (distinct : (spOutpoints s.world.ledger).Nodup) :
    (spOutpoints (s.world.after (.append led e) answer).ledger).Nodup := by
  cases e with
  | spReceived seq txid vout sats tweak status =>
      have grown :
          (spOutpoints (s.world.ledger ++ [.spReceived seq txid vout sats tweak status])).Nodup := by
        rw [spOutpoints_append]
        exact List.nodup_append.2 ⟨distinct, List.nodup_singleton _, fun o old o' new same => by
          rw [List.mem_singleton.1 new] at same
          exact promised.2 (same ▸ old)⟩
      cases answer with
      | ok => exact grown
      | lost e => exact distinct
      | kept e => exact grown
  | _ => rw [(spOutpoints_after rfl).1]; exact distinct

/-- The promise keeps the invariant. -/
theorem keeps_bookedOnce (host : Host) (i : ℕ) :
    Keeps ((reading host i).restrict (UpToDate host i)) (BooksUnderLock i) BookedOnce := by
  intro s op answer allowed promised inv
  have framed : (∀ led e, op ≠ .append led e) → op ≠ .openLedger → (∀ led, op ≠ .scanLock led) →
      op ≠ .scanUnlock → BookedOnce ⟨s.world.after op answer, s.holder⟩ := by
    intro appends opens locks unlocks
    have fresh := World.after_fresh s.world answer opens
    have locked := World.after_scanLocked s.world answer locks unlocks
    refine ⟨?_, fun j led held => ⟨?_, ?_⟩⟩
    · exact (World.after_ledger s.world answer appends) ▸ inv.distinct
    · exact fresh ▸ (inv.held j led held).1
    · exact locked ▸ (inv.held j led held).2
  cases op with
  | append led e =>
      refine ⟨distinct_after promised inv.distinct, fun j led' held => ?_⟩
      cases answer <;> exact inv.held j led' held
  | openLedger =>
      rcases answer with e | led
      · exact ⟨inv.distinct, inv.held⟩
      · obtain rfl : led = s.world.fresh := allowed.1.1
        refine ⟨inv.distinct, fun j led' held => ?_⟩
        exact ⟨Nat.lt_succ_of_lt (inv.held j led' held).1, (inv.held j led' held).2⟩
  | scanLock led =>
      refine ⟨inv.distinct, fun j led' held => ?_⟩
      cases held
      exact ⟨promised, rfl⟩
  | scanUnlock => exact ⟨inv.distinct, nofun⟩
  | _ => exact framed nofun nofun nofun nofun

/-- What one thread promises is what the others rely on. -/
theorem others_undisturbed (host : Host) (i j : ℕ) (s : Shared) (op : Op) (answer : op.Ans)
    (different : i ≠ j) (inv : BookedOnce s)
    (allowed : ((reading host i).restrict (UpToDate host i)).allowed s op answer)
    (promised : BooksUnderLock i s op answer) :
    Undisturbed j s (((reading host i).restrict (UpToDate host i)).next s op answer) := by
  -- A pass of thread `j` excludes that thread `i` holds the lock.
  have notMine : ∀ {led led'}, s.holder = some (i, led) → s.holder ≠ some (j, led') := by
    intro led led' mine yours
    rw [mine] at yours
    cases yours
    exact different rfl
  have framed : (∀ led e, op ≠ .append led e) → op ≠ .openLedger →
      Undisturbed j s ⟨s.world.after op answer, s.holder⟩ := by
    intro appends opens
    refine ⟨?_, fun _ held => held, fun _ _ => ?_, fun _ _ => ?_⟩
    · exact Nat.le_of_eq (World.after_fresh s.world answer opens).symm
    · exact congrArg spOutpoints (World.after_ledger s.world answer appends)
    · exact congrArg spOutpoints (congrFun (World.after_mem s.world answer appends opens) _)
  cases op with
  | append led e =>
      have fresh : s.world.fresh ≤ (s.world.after (.append led e) answer).fresh := by
        cases answer <;> exact Nat.le_refl _
      cases e with
      | spReceived seq txid vout sats tweak status =>
          exact ⟨fresh, fun _ held => held, fun _ held => absurd held (notMine promised.1),
            fun _ held => absurd held (notMine promised.1)⟩
      | _ =>
          exact ⟨fresh, fun _ held => held, fun _ _ => (spOutpoints_after rfl).1,
            fun _ _ => (spOutpoints_after rfl).2 _⟩
  | openLedger =>
      rcases answer with e | led
      · exact Undisturbed.refl j s
      · obtain rfl : led = s.world.fresh := allowed.1.1
        refine ⟨Nat.le_succ _, fun _ held => held, fun _ _ => rfl, fun led' held => ?_⟩
        have older := (inv.held j led' held).1
        show spOutpoints (Function.update s.world.mem s.world.fresh s.world.ledger led') = _
        rw [Function.update_of_ne (Nat.ne_of_lt older)]
  | scanLock led =>
      have free : ∀ led', s.holder ≠ some (j, led') := by
        intro led' held
        have taken := (inv.held j led' held).2
        rw [allowed.1.2] at taken
        cases taken
      exact ⟨Nat.le_refl _, fun _ held => absurd held (free _), fun _ held => absurd held (free _),
        fun _ held => absurd held (free _)⟩
  | scanUnlock =>
      obtain ⟨led, mine⟩ := promised
      exact ⟨Nat.le_refl _, fun _ held => absurd held (notMine mine),
        fun _ held => absurd held (notMine mine), fun _ held => absurd held (notMine mine)⟩
  | _ => exact framed nofun nofun

/-! ## One caller among the others -/

section Alone

variable {host : Host} {i : ℕ} {led : Handle}

/-- The host as thread `i` finds it while the others run. -/
abbrev amid (host : Host) (i : ℕ) : Interp sig (Shared × (ℕ → Shared)) :=
  ((reading host i).restrict (UpToDate host i)).among (Undisturbed i)

/-- The calls that neither book an output nor touch the lock. -/
def Op.aside : Op → Prop
  | .append _ (.spReceived _ _ _ _ _ _) | .scanLock _ | .scanUnlock => False
  | _ => True

theorem promised_of_aside {s : Shared} {op : Op} {answer : op.Ans} (aside : Op.aside op) :
    BooksUnderLock i s op answer := by
  cases op with
  | append led e =>
      cases e with
      | spReceived => exact aside.elim
      | _ => trivial
  | scanLock led => exact aside.elim
  | scanUnlock => exact aside.elim
  | _ => trivial

theorem holderAfter_aside {holder : Option (ℕ × Handle)} {op : Op} (aside : Op.aside op) :
    holderAfter i holder op = holder := by
  cases op <;> first | rfl | exact aside.elim

/-- The thread runs a pass on `led`, and knows whatever is on file of the outputs it has
still to book. -/
structure Ready (i : ℕ) (led : Handle) (rest : List OutPoint) (σ : Shared × (ℕ → Shared)) :
    Prop where
  held : σ.1.holder = some (i, led)
  known : ∀ o ∈ rest, o ∈ spOutpoints σ.1.world.ledger → o ∈ spOutpoints (σ.1.world.mem led)

/-- Between a call and the next, the others leave the pass as it was. -/
theorem Ready.after {rest : List OutPoint} {s : Shared} {later : ℕ → Shared}
    (ready : Ready i led rest (s, later)) (moved : Undisturbed i s (later 0)) :
    Ready i led rest (later 0, fun n => later (n + 1)) where
  held := moved.holder led ready.held
  known o member onFile := by
    rw [moved.ledger led ready.held] at onFile
    rw [moved.view led ready.held]
    exact ready.known o member onFile

/-- A call that neither books nor touches the lock keeps the pass going. -/
theorem Ready.aside {rest : List OutPoint} {σ : Shared × (ℕ → Shared)} {op : Op} {answer : op.Ans}
    (ready : Ready i led rest σ) (aside : Op.aside op)
    (allowed : (amid host i).allowed σ op answer) :
    Ready i led [] ((amid host i).next σ op answer) := by
  obtain ⟨s, later⟩ := σ
  refine Ready.after (s := (reading host i).next s op answer) ⟨?_, nofun⟩ allowed.2
  exact (holderAfter_aside aside).trans ready.held

/-- The frame rule of a pass. -/
theorem wp_aside {α : Type} {p : Prog α} {σ : Shared × (ℕ → Shared)} (body : p.Within Op.aside)
    (ready : Ready i led [] σ) :
    wp (amid host i) (BooksUnderLock i).alone (fun _ σ' => Ready i led [] σ') p σ := by
  have kept := wp_within (R := fun σ σ' => Ready i led [] σ → Ready i led [] σ')
    (I := amid host i) (G := (BooksUnderLock i).alone) (w := σ) body (fun _ same => same)
    (fun first second start => second (first start))
    fun σ op answer aside allowed =>
      ⟨promised_of_aside aside, fun start => start.aside aside allowed⟩
  exact wp_mono kept fun _ _ moved => moved ready

/-- Reading the instance tells the pass what its instance knows. -/
theorem wp_entries {α : Type} {f : List Entry → Prog α} {rest : List OutPoint}
    {Q : Except Error α → Shared × (ℕ → Shared) → Prop} {σ : Shared × (ℕ → Shared)}
    (ready : Ready i led rest σ)
    (read : ∀ es σ', Ready i led rest σ' → spOutpoints es = spOutpoints (σ'.1.world.mem led) →
      wp (amid host i) (BooksUnderLock i).alone Q (f es) σ') :
    wp (amid host i) (BooksUnderLock i).alone Q (Ledger.entries led >>= f) σ := by
  obtain ⟨s, later⟩ := σ
  refine wp_bind.2 fun es allowed => ⟨trivial, ?_⟩
  obtain rfl : es = s.world.mem led := allowed.1.1.1
  have moved : Undisturbed i s (later 0) := allowed.2
  exact read _ _ (ready.after moved) (moved.view led ready.held).symm

/-- Booking one output of the page. -/
theorem wp_recordSpReceived {txid tweak : String} {vout sats : ℕ} {rest : List OutPoint}
    {σ : Shared × (ℕ → Shared)} (ready : Ready i led ((txid, vout) :: rest) σ) :
    wp (amid host i) (BooksUnderLock i).alone
      (fun result σ' => Ready i led (if result.toBool then rest else []) σ')
      (Ledger.recordSpReceived led txid vout sats tweak) σ := by
  refine wp_entries ready fun es ⟨s, later⟩ ready view => ?_
  split
  · exact ⟨ready.held, fun o member => ready.known o (List.mem_cons_of_mem _ member)⟩
  rename_i missing
  have unknown : (txid, vout) ∉ spOutpoints (s.world.mem led) := by
    rw [← view, mem_spOutpoints]
    exact missing
  have offFile : (txid, vout) ∉ spOutpoints s.world.ledger :=
    fun onFile => unknown (ready.known _ (List.mem_cons_self ..) onFile)
  refine wp_bind.2 fun answer allowed => ⟨⟨ready.held, offFile⟩, ?_⟩
  generalize entry_eq : Entry.spReceived (Ledger.nextSeq es) txid vout sats tweak .pending = entry
    at answer allowed
  have booked : entry.spOutpoint? = some (txid, vout) := by rw [← entry_eq]; rfl
  cases answer with
  | ok =>
      have moved : Undisturbed i ⟨s.world.appended led entry, s.holder⟩ (later 0) := allowed.2
      refine Ready.after (s := ⟨s.world.appended led entry, s.holder⟩)
        ⟨ready.held, fun o member onFile => ?_⟩ moved
      have old : o ∈ spOutpoints (s.world.ledger ++ [entry]) := onFile
      show o ∈ spOutpoints (Function.update s.world.mem led (s.world.mem led ++ [entry]) led)
      rw [Function.update_self, spOutpoints_append, booked]
      rw [spOutpoints_append, booked] at old
      rcases List.mem_append.1 old with before | new
      · exact List.mem_append_left _ (ready.known o (List.mem_cons_of_mem _ member) before)
      · exact List.mem_append_right _ new
  | lost e =>
      have moved : Undisturbed i s (later 0) := allowed.2
      exact Ready.after ⟨ready.held, nofun⟩ moved
  | kept e =>
      have moved : Undisturbed i ⟨s.world.written entry, s.holder⟩ (later 0) := allowed.2
      exact Ready.after (s := ⟨s.world.written entry, s.holder⟩) ⟨ready.held, nofun⟩ moved

theorem Ready.sub {rest rest' : List OutPoint} {σ : Shared × (ℕ → Shared)}
    (ready : Ready i led rest σ) (fewer : ∀ o ∈ rest', o ∈ rest) : Ready i led rest' σ :=
  ⟨ready.held, fun o member => ready.known o (fewer o member)⟩

/-- What one transaction pays us, as far as a pass books it. -/
theorem payouts_cons (tx : EsploraTx) (txs : List EsploraTx) :
    payouts host (tx :: txs) =
      ((host.txMatches tx).filter fun f => dustFloor ≤ f.sats).map (fun f => (tx.txid, f.vout)) ++
        payouts host txs := rfl

theorem wp_bookMatches {txid : String} {fs : List SpFound} {found : List Found}
    {rest : List OutPoint} {σ : Shared × (ℕ → Shared)}
    (ready : Ready i led
      ((fs.filter fun f => dustFloor ≤ f.sats).map (fun f => (txid, f.vout)) ++ rest) σ) :
    wp (amid host i) (BooksUnderLock i).alone
      (fun result σ' => Ready i led (if result.toBool then rest else []) σ')
      (bookMatches led txid fs found) σ := by
  induction fs generalizing found σ with
  | nil => exact ready
  | cons f fs ih =>
      unfold bookMatches
      split
      · rename_i dust
        rw [List.filter_cons_of_neg (by simpa using dust)] at ready
        exact ih ready
      · rename_i worth
        rw [List.filter_cons_of_pos (by simpa using worth), List.map_cons, List.cons_append] at ready
        refine wp_bind.2 (wp_mono (wp_recordSpReceived ready) ?_)
        rintro (e | booked) σ' ready'
        · exact ready'
        · exact ih ready'

theorem wp_bookPage {txs : List EsploraTx} {found : List Found} {σ : Shared × (ℕ → Shared)}
    (ready : Ready i led (payouts host txs) σ) :
    wp (amid host i) (BooksUnderLock i).alone (fun _ σ' => Ready i led [] σ')
      (bookPage host led txs found) σ := by
  induction txs generalizing found σ with
  | nil => exact ready.sub nofun
  | cons tx txs ih =>
      rw [payouts_cons] at ready
      refine wp_bind.2 (wp_mono (wp_bookMatches ready) ?_)
      rintro (e | found') σ' ready'
      · exact ready'
      · exact ih ready'

/-- A page is served: what it pays us and is on file, the instance knows. -/
theorem wp_blockTxs {α : Type} {hash : String} {start : ℕ} {f : List EsploraTx → Prog α}
    {Q : Except Error α → Shared × (ℕ → Shared) → Prop} {σ : Shared × (ℕ → Shared)}
    (ready : Ready i led [] σ) (failed : ∀ e σ', Ready i led [] σ' → Q (.error e) σ')
    (served : ∀ txs σ', Ready i led (payouts host txs) σ' →
      wp (amid host i) (BooksUnderLock i).alone Q (f txs) σ') :
    wp (amid host i) (BooksUnderLock i).alone Q (blockTxs hash start >>= f) σ := by
  obtain ⟨s, later⟩ := σ
  refine wp_bind.2 ?_
  rintro (e | txs) allowed
  · exact ⟨trivial, failed e _ (ready.after (s := s) allowed.2)⟩
  · have upToDate := allowed.1.2 led ready.held
    exact ⟨trivial, served txs _ (Ready.after (s := s) ⟨ready.held, upToDate⟩ allowed.2)⟩

theorem wp_scanPages {hash : String} {pages start : ℕ} {found : List Found}
    {σ : Shared × (ℕ → Shared)} (ready : Ready i led [] σ) :
    wp (amid host i) (BooksUnderLock i).alone (fun _ σ' => Ready i led [] σ')
      (scanPages host led hash pages start found) σ := by
  induction pages generalizing start found σ with
  | zero => exact ready
  | succ pages ih =>
      refine wp_blockTxs ready (fun _ _ ready' => ready') fun txs σ₁ ready₁ => ?_
      split
      · exact ready₁.sub nofun
      refine wp_bind.2 (wp_mono (wp_bookPage ready₁) ?_)
      rintro (e | found') σ₂ ready₂
      · exact ready₂
      refine bindPost_ok.2 ?_
      split
      · exact ready₂
      · exact ih ready₂

theorem wp_scanBlocks {pages count height : ℕ} {found : List Found} {σ : Shared × (ℕ → Shared)}
    (ready : Ready i led [] σ) :
    wp (amid host i) (BooksUnderLock i).alone (fun _ σ' => Ready i led [] σ')
      (scanBlocks host led pages count height found) σ := by
  induction count generalizing height found σ with
  | zero => exact ready
  | succ count ih =>
      refine wp_bind.2 (wp_mono (wp_aside ⟨trivial, fun _ => within_ofExcept⟩ ready) ?_)
      rintro (e | hash) σ₁ ready₁
      · exact ready₁
      refine wp_bind.2 (wp_mono (wp_scanPages ready₁) ?_)
      rintro (e | found') σ₂ ready₂
      · exact ready₂
      · exact ih ready₂

theorem wp_scanPass {pages : ℕ} {σ : Shared × (ℕ → Shared)} (ready : Ready i led [] σ) :
    wp (amid host i) (BooksUnderLock i).alone (fun _ σ' => Ready i led [] σ')
      (scanPass host led pages) σ := by
  refine wp_bind.2 (wp_ofExcept.2 ?_)
  rcases host.spScanKeypair with e | ⟨⟩
  · exact ready
  refine wp_bind.2 (wp_ofExcept.2 ?_)
  rcases host.spSpendKeypair with e | ⟨⟩
  · exact ready
  refine wp_bind.2 (wp_mono (wp_aside ⟨trivial, fun _ => within_ofExcept⟩ ready) ?_)
  rintro (e | tip) σ₁ ready₁
  · exact ready₁
  refine wp_bind.2 (wp_mono (wp_aside ⟨trivial, fun _ => within_ofExcept⟩ ready₁) ?_)
  rintro (e | checkpoint) σ₂ ready₂
  · exact ready₂
  refine wp_bind.2 (wp_mono (wp_scanBlocks ready₂) ?_)
  rintro (e | found) σ₃ ready₃
  · exact ready₃
  refine wp_aside (within_bind ⟨trivial, fun answer => ?_⟩ fun _ => ?_) ready₃
  · cases answer <;> trivial
  · refine within_bind (within_trackSpends trivial ?_ ?_) fun _ => trivial
    · exact fun _ _ => trivial
    · exact fun _ _ _ => trivial

/-- A pass on an open instance keeps the promise, from taking the lock to giving it back. -/
theorem wp_scanToTip {pages : ℕ} {σ : Shared × (ℕ → Shared)} (isOpen : led < σ.1.world.fresh) :
    wp (amid host i) (BooksUnderLock i).alone (fun _ _ => True) (scanToTip host led pages) σ := by
  obtain ⟨s, later⟩ := σ
  refine wp_bind.2 fun _ allowed => ⟨isOpen, ?_⟩
  have locked : Ready i led [] (⟨{ s.world with scanLocked := true }, some (i, led)⟩, later) :=
    ⟨rfl, nofun⟩
  have ready := locked.after allowed.2
  refine wp_bind.2 (wp_attempt.2 (wp_mono (wp_scanPass ready) fun outcome σ₁ ready₁ => ?_))
  refine wp_bind.2 fun _ _ => ⟨⟨led, ready₁.held⟩, wp_ofExcept.2 trivial⟩

/-! ## The callers keep the promise -/

/-- An instance that was opened stays open. -/
theorem wp_open {σ : Shared × (ℕ → Shared)} :
    wp (amid host i) (BooksUnderLock i).alone
      (fun result σ' => ∀ led, result = .ok led → led < σ'.1.world.fresh)
      Ledger.openWithIdentity σ := by
  obtain ⟨s, later⟩ := σ
  rintro (e | led) allowed
  · exact ⟨trivial, nofun⟩
  · refine ⟨trivial, fun led' same => ?_⟩
    cases same
    have moved : Undisturbed i ⟨s.world.load led, s.holder⟩ (later 0) := allowed.2
    exact Nat.lt_of_lt_of_le (Nat.lt_succ_self led) moved.fresh

/-- What a caller does beside its pass promises nothing. -/
theorem wp_beside {α : Type} {p : Prog α} {σ : Shared × (ℕ → Shared)} (body : p.Within Op.aside) :
    wp (amid host i) (BooksUnderLock i).alone (fun _ _ => True) p σ :=
  wp_unguarded (body.mono fun _ aside _ _ => promised_of_aside aside)

theorem wp_scanFresh {pages : ℕ} {σ : Shared × (ℕ → Shared)} :
    wp (amid host i) (BooksUnderLock i).alone (fun _ _ => True) (scanFresh host pages) σ := by
  refine wp_bind.2 (wp_mono wp_open ?_)
  rintro (e | led) σ₁ isOpen
  · trivial
  refine wp_bind.2 (wp_mono (wp_scanToTip (isOpen led rfl)) ?_)
  rintro (e | report) σ₂ -
  · trivial
  · exact wp_beside (within_bind ⟨trivial, fun _ => trivial⟩ fun _ => trivial)

theorem within_reconcile_aside : (reconcile led).Within Op.aside :=
  within_reconcile trivial (fun _ => trivial) (fun _ => trivial) (fun _ => trivial)
    (fun _ _ _ => trivial) (fun _ _ => trivial) trivial

theorem wp_balanceReport {pages : ℕ} {σ : Shared × (ℕ → Shared)} :
    wp (amid host i) (BooksUnderLock i).alone (fun _ _ => True) (balanceReport host pages) σ := by
  refine wp_bind.2 (wp_mono (wp_beside ⟨trivial, fun _ => within_ofExcept⟩) ?_)
  rintro (e | ⟨⟩) σ₁ -
  · trivial
  refine wp_bind.2 (wp_attempt.2 (wp_mono wp_open ?_))
  rintro (e | led) σ₂ isOpen
  · trivial
  refine wp_bind.2 (wp_attempt.2 (wp_mono (wp_scanToTip (isOpen led rfl)) fun _ σ₃ _ => ?_))
  refine wp_beside (within_bind (within_attempt within_reconcile_aside) fun _ => ?_)
  exact within_bind ⟨trivial, fun _ => trivial⟩ fun _ => trivial

theorem wp_collectionsReport {pages : ℕ} {σ : Shared × (ℕ → Shared)} :
    wp (amid host i) (BooksUnderLock i).alone (fun _ _ => True) (collectionsReport host pages) σ := by
  refine wp_bind.2 (wp_mono wp_open ?_)
  rintro (e | led) σ₁ isOpen
  · trivial
  refine wp_bind.2 (wp_attempt.2 (wp_mono (wp_scanToTip (isOpen led rfl)) fun outcome σ₂ _ => ?_))
  have rest : ∀ note : String, Within Op.aside (do
      let es ← Ledger.entries led
      let rows ← .ofExcept (collectionRows host (Ledger.collections es))
      return (note, rows) : Prog (String × List CollectionRow)) := fun note =>
    within_bind ⟨trivial, fun _ => trivial⟩ fun _ => within_bind within_ofExcept fun _ => trivial
  cases outcome with
  | ok report => exact wp_beside (rest _)
  | error e => exact wp_beside (rest _)

end Alone

theorem safe_caller (host : Host) (i : ℕ) (caller : Caller) (s : Shared) :
    Pool.Safe (fun i => (reading host i).restrict (UpToDate host i)) Undisturbed BooksUnderLock i
      (caller.program host) s := by
  intro s' later _
  cases caller with
  | scanFresh pages =>
      refine wp_bind.2 (wp_mono wp_scanFresh ?_)
      rintro (e | report) σ - <;> trivial
  | balanceReport pages =>
      refine wp_bind.2 (wp_mono wp_balanceReport ?_)
      rintro (e | report) σ - <;> trivial
  | collectionsReport pages =>
      refine wp_bind.2 (wp_mono wp_collectionsReport ?_)
      rintro (e | report) σ - <;> trivial

theorem outpoints_sublist {pick : Entry → Option Ledger.SpUtxo}
    (books : ∀ e u, pick e = some u → e.spOutpoint? = some (u.txid, u.vout)) (entries : List Entry) :
    ((entries.filterMap pick).map fun u => (u.txid, u.vout)).Sublist (spOutpoints entries) := by
  induction entries with
  | nil => exact .slnil
  | cons e entries ih =>
      rcases picked : pick e with _ | u
      · rw [List.filterMap_cons_none picked]
        exact ih.trans ((List.sublist_cons_self e entries).filterMap _)
      · rw [List.filterMap_cons_some picked, spOutpoints, List.filterMap_cons_some (books e u picked)]
        exact ih.cons_cons _

/-- The spendable outputs are among those on file, in order. -/
theorem spUtxos_sublist (entries : List Entry) :
    ((Ledger.spUtxos entries).map fun u => (u.txid, u.vout)).Sublist (spOutpoints entries) := by
  refine outpoints_sublist (fun e u chosen => ?_) entries
  cases e with
  | spReceived seq txid vout sats tweak status =>
      dsimp only at chosen
      split at chosen
      · cases chosen
        rfl
      · cases chosen
  | _ => cases chosen

/-- **In every interleaving of any number of callers, no output is on file twice, and the
spendable balance counts none twice**, provided that no pass is served an output that is
on file and missing from its caller's instance. -/
theorem outputs_booked_once (host : Host) (callers : List Caller) (s s' : Shared)
    (idle : s.holder = none) (distinct : (spOutpoints s.world.ledger).Nodup)
    (reaches : Pool.Reaches (fun i => (reading host i).restrict (UpToDate host i))
      (callers.map fun caller => caller.program host) s s') :
    (spOutpoints s'.world.ledger).Nodup ∧
      ((Ledger.spUtxos s'.world.ledger).map fun u => (u.txid, u.vout)).Nodup := by
  have start : BookedOnce s := by
    refine ⟨distinct, fun i led held => ?_⟩
    rw [idle] at held
    cases held
  have safe : ∀ i p, (callers.map fun caller => caller.program host)[i]? = some p →
      Pool.Safe (fun i => (reading host i).restrict (UpToDate host i)) Undisturbed
        BooksUnderLock i p s := by
    intro i p at_
    rw [List.getElem?_map] at at_
    obtain ⟨caller, -, rfl⟩ := Option.map_eq_some_iff.1 at_
    exact safe_caller host i caller s
  have once := Pool.invariant Undisturbed.refl Undisturbed.trans start safe
    (keeps_bookedOnce host) (others_undisturbed host) reaches
  exact ⟨once.distinct, once.distinct.sublist (spUtxos_sublist _)⟩

/-! ## Two callers, with and without a failed pass -/

/-- A wallet that one transaction pays 5000 sats. -/
def paidHost : Host :=
  { Host.sample .bitcoin .default with
    txMatches := fun tx => if tx.txid = sampleTxid then [⟨0, 5000, [7]⟩] else [] }

/-- The payment is in block 100; block 101 is empty. -/
def blockPage (hash : String) : List EsploraTx :=
  if hash = "block 100" then [⟨sampleTxid, [], []⟩] else []

/-- The chain ends at block 101, whose hash thread 0 asks for in vain if `cut`. -/
def scanAnswer (cut : Bool) (i : ℕ) (s : Shared) : (op : Op) → op.Ans
  | .tipHeight => .ok 101
  | .loadCheckpoint => match s.world.checkpoint with
      | .absent => .ok none
      | .scanned height => .ok (some height)
      | .torn => .error "expected value"
  | .blockHash height =>
      if height = 100 then .ok "block 100"
      else if cut ∧ i = 0 then .error "timed out"
      else .ok "block 101"
  | .blockTxs hash _ => .ok (blockPage hash)
  | op => Script.silent.answer paidHost s.world op

def scanHandle (cut : Bool) (i : ℕ) (op : Op) (s : Shared) : op.Ans × Shared :=
  (scanAnswer cut i s op, (reading paidHost i).next s op (scanAnswer cut i s op))

/-- The lock is free, or not asked for. -/
def lockFree (_ : ℕ) (op : Op) (s : Shared) : Bool :=
  match op with
  | .scanLock _ => s.world.scanLocked = false
  | _ => true

theorem scanAnswer_allowed (cut : Bool) (i : ℕ) (op : Op) (s : Shared) (free : lockFree i op s) :
    (reading paidHost i).allowed s op (scanAnswer cut i s op) := by
  have silent := Script.silent.allowed paidHost s.world op
  refine ⟨?_, ?_⟩
  · cases op with
    | loadCheckpoint =>
        show World.allows paidHost s.world .loadCheckpoint (match s.world.checkpoint with
          | .absent => .ok none
          | .scanned height => .ok (some height)
          | .torn => .error "expected value")
        split
        · assumption
        · assumption
        · trivial
    | tipHeight | blockHash | blockTxs => trivial
    | _ => exact silent
  · cases op with
    | scanLock led =>
        have unlocked : s.world.scanLocked = false := by simpa [lockFree] using free
        exact unlocked
    | _ => trivial

/-- Block 99 is scanned, nothing is on file. -/
def scanStart : Shared := ⟨{ World.blank with checkpoint := .scanned 99 }, none⟩

/-- Both callers open the ledger, then the first makes its pass, then the second. -/
def bothOpenFirst : List ℕ := [0, 1] ++ List.replicate 14 0 ++ List.replicate 14 1

def twoCallers : List Caller := [.scanFresh 1, .scanFresh 1]

/-- The first pass books the payment and fails; the second, on an instance opened before,
books it again. -/
theorem failed_pass_booked_again :
    ∃ s, Pool.Reaches (reading paidHost) (twoCallers.map fun caller => caller.program paidHost)
        scanStart s ∧ ¬ (spOutpoints s.world.ledger).Nodup := by
  refine ⟨_, Pool.drive_reaches lockFree (scanHandle true) (scanAnswer_allowed true)
    (fun _ _ _ => rfl) bothOpenFirst _ _, ?_⟩
  decide +kernel

/-- The lock is free, and the instance of the pass knows what is on file of the page. -/
def lockFreeUpToDate (i : ℕ) (op : Op) (s : Shared) : Bool :=
  lockFree i op s && match op, s.holder with
    | .blockTxs hash _, some (_, led) => (payouts paidHost (blockPage hash)).all fun o =>
        o ∉ spOutpoints s.world.ledger || o ∈ spOutpoints (s.world.mem led)
    | _, _ => true

theorem scanAnswer_upToDate (i : ℕ) (op : Op) (s : Shared) (free : lockFreeUpToDate i op s) :
    ((reading paidHost i).restrict (UpToDate paidHost i)).allowed s op (scanAnswer false i s op) := by
  obtain ⟨unlocked, current⟩ := Bool.and_eq_true_iff.1 free
  refine ⟨scanAnswer_allowed false i op s unlocked, ?_⟩
  cases op with
  | blockTxs hash start =>
      intro led held o member onFile
      simp only [held] at current
      have known := List.all_eq_true.1 current o member
      simpa [onFile] using known
  | _ => trivial

/-- Without the failure the second pass starts above the checkpoint of the first, and the
payment is on file once. -/
theorem outputs_booked_once_two :
    (spOutpoints (Pool.drive lockFreeUpToDate (scanHandle false) bothOpenFirst
        (twoCallers.map fun caller => caller.program paidHost) scanStart).2.world.ledger =
      [(sampleTxid, 0)]) ∧
    (spOutpoints (Pool.drive lockFreeUpToDate (scanHandle false) bothOpenFirst
        (twoCallers.map fun caller => caller.program paidHost) scanStart).2.world.ledger).Nodup := by
  have reached := Pool.drive_reaches lockFreeUpToDate (scanHandle false) scanAnswer_upToDate
    (fun _ _ _ => rfl) bothOpenFirst (twoCallers.map fun caller => caller.program paidHost)
    scanStart
  exact ⟨by decide +kernel, (outputs_booked_once paidHost twoCallers scanStart _ rfl
    List.nodup_nil reached).1⟩

end ComputerMoney.Safety

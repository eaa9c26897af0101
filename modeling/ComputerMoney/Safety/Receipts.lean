/-
# Safety.Receipts -- what a hostile buyer can make the daemon book

A buyer chooses what it sends, in any order and any number of sessions; the watch books
into the same ledger between them.  Every receipt on file was booked right after the
chain had shown a deposit of exactly that amount to the address of that index, the index
was issued before, and no transaction is booked twice.  What a buyer claims decides only
which of the deposits just shown is looked at.

The runs carry their history (`Interp.recorded`), so that "right after" can be said: the
last question the daemon put to the chain before the append is the one whose answer
holds the deposit.
-/
import ComputerMoney.Kernel.Serve
import ComputerMoney.Kernel.Script
import Mathlib.Data.List.Nodup

namespace ComputerMoney.Safety

set_option autoImplicit false

open Theory Theory.Program Kernel

/-! ## Histories and receipts -/

/-- A world with the calls made so far. -/
abbrev Logged := World × List (Event sig)

/-- With `sound`, an append that reports an error has left nothing on file. -/
def DiskSound (sound : Prop) : Guarantee sig World
  | _, .append _ _, .kept _ => ¬ sound
  | _, _, _ => True

/-- The host, with its history. -/
def logged (host : Host) (sound : Prop) : Interp sig Logged :=
  ((interp host).restrict (DiskSound sound)).recorded

/-- The last question about deposits, and the answer to it. -/
def lastDeposits : List (Event sig) → Option (String × Except Error (List Deposit))
  | [] => none
  | ⟨.depositsTo address, answer⟩ :: _ => some (address, answer)
  | _ :: earlier => lastDeposits earlier

/-- The chain was last asked about the address of `index`, and showed this deposit. -/
def Shown (host : Host) (history : List (Event sig)) (txid : String) (sats index : ℕ) : Prop :=
  ∃ address deposits, host.walletAddress index = .ok address ∧
    lastDeposits history = some (address, .ok deposits) ∧
    ∃ d ∈ deposits, d.txid = txid ∧ d.sats = sats

def Issued (entries : List Entry) (index : ℕ) : Prop :=
  ∃ e ∈ entries, e.issuedIndex? = some index

def receivedTxids (entries : List Entry) : List String := entries.filterMap Entry.receivedTxid?

/-- The receipt `e` was appended when the chain had just shown its deposit. -/
def BookedOnSight (host : Host) (history : List (Event sig)) (e : Entry) (txid : String)
    (sats index : ℕ) : Prop :=
  ∃ later led answer earlier, history = later ++ ⟨.append led e, answer⟩ :: earlier ∧
    Shown host earlier txid sats index

/-- Every receipt on file was booked on sight, under an index issued before it. -/
def Truthful (host : Host) (s : Logged) : Prop :=
  ∀ before seq txid sats index status after,
    s.1.ledger = before ++ .received seq txid sats index status :: after →
      BookedOnSight host s.2 (.received seq txid sats index status) txid sats index ∧
        Issued before index

/-! ## The promise -/

/-- A receipt is appended only on sight, only under an issued index, and (the disk being
sound) only for a transaction without one. -/
def BooksOnSight (host : Host) (sound : Prop) : Guarantee sig Logged
  | s, .append _ (.received _ txid sats index _), _ =>
      Shown host s.2 txid sats index ∧ Issued s.1.ledger index ∧
        (sound → txid ∉ receivedTxids s.1.ledger)
  | _, _, _ => True

/-- What holds of every state the daemon reaches. -/
structure Sound (host : Host) (sound : Prop) (s : Logged) : Prop where
  truthful : Truthful host s
  distinct : sound → (receivedTxids s.1.ledger).Nodup

theorem BookedOnSight.grow {host : Host} {history : List (Event sig)} {e : Entry} {txid : String}
    {sats index : ℕ} (booked : BookedOnSight host history e txid sats index) (event : Event sig) :
    BookedOnSight host (event :: history) e txid sats index := by
  obtain ⟨later, led, answer, earlier, rfl, shown⟩ := booked
  exact ⟨event :: later, led, answer, earlier, rfl, shown⟩

theorem Truthful.grow {host : Host} {w w' : World} {history : List (Event sig)}
    (truthful : Truthful host (w, history)) (same : w'.ledger = w.ledger) (event : Event sig) :
    Truthful host (w', event :: history) := by
  intro before seq txid sats index status after split
  obtain ⟨booked, issued⟩ := truthful before seq txid sats index status after (same ▸ split)
  exact ⟨booked.grow event, issued⟩

/-- An entry at the end of the file is truthful if it is no receipt, or honours the promise. -/
theorem Truthful.append {host : Host} {sound : Prop} {w w' : World} {history : List (Event sig)}
    {led : Handle} {e : Entry} {answer : AppendAnswer} (truthful : Truthful host (w, history))
    (promised : BooksOnSight host sound (w, history) (.append led e) answer)
    (grown : w'.ledger = w.ledger ++ [e]) :
    Truthful host (w', ⟨.append led e, answer⟩ :: history) := by
  intro before seq txid sats index status after split
  rw [grown] at split
  rcases List.eq_nil_or_concat after with rfl | ⟨front, last, rfl⟩
  · obtain ⟨rfl, same⟩ := List.append_inj' split rfl
    cases same
    exact ⟨⟨[], led, answer, history, rfl, promised.1⟩, promised.2.1⟩
  · rw [List.concat_eq_append, ← List.cons_append, ← List.append_assoc] at split
    obtain ⟨old, -⟩ := List.append_inj' split rfl
    obtain ⟨booked, issued⟩ := truthful before seq txid sats index status front old
    exact ⟨booked.grow _, issued⟩

theorem receivedTxids_append (entries : List Entry) (e : Entry) :
    receivedTxids (entries ++ [e]) = receivedTxids entries ++ e.receivedTxid?.toList := by
  rw [receivedTxids, List.filterMap_append]
  cases e <;> rfl

theorem distinct_append {host : Host} {sound : Prop} {s : Logged} {led : Handle} {e : Entry}
    {answer : AppendAnswer} (promised : BooksOnSight host sound s (.append led e) answer)
    (isSound : sound) (distinct : (receivedTxids s.1.ledger).Nodup) :
    (receivedTxids (s.1.ledger ++ [e])).Nodup := by
  rw [receivedTxids_append]
  cases e with
  | received seq txid sats index status =>
      refine List.nodup_append.2 ⟨distinct, List.nodup_singleton _, fun t old t' new same => ?_⟩
      rw [List.mem_singleton.1 new] at same
      exact promised.2.2 isSound (same ▸ old)
  | _ => rw [show (Entry.receivedTxid? _).toList = [] from rfl, List.append_nil]; exact distinct

theorem keeps_sound (host : Host) (sound : Prop) :
    Keeps (logged host sound) (BooksOnSight host sound) (Sound host sound) := by
  rintro ⟨w, history⟩ op answer allowed promised ⟨truthful, distinct⟩
  have framed : (∀ led e, op ≠ .append led e) →
      Sound host sound (w.after op answer, ⟨op, answer⟩ :: history) := by
    intro frame
    have same := World.after_ledger w answer frame
    exact ⟨truthful.grow same _, fun isSound => same ▸ distinct isSound⟩
  cases op with
  | append led e =>
      cases answer with
      | ok =>
          exact ⟨truthful.append promised rfl, fun isSound =>
            distinct_append promised isSound (distinct isSound)⟩
      | lost error => exact ⟨truthful.grow rfl _, distinct⟩
      | kept error =>
          exact ⟨truthful.append promised rfl, fun isSound =>
            distinct_append promised isSound (distinct isSound)⟩
  | _ => exact framed nofun

/-! ## The daemon's instance -/

/-- The daemon's instance `led` is open, holds nothing that is not on file, and, the disk
being sound, lacks no receipt. -/
structure Serving (sound : Prop) (led : Handle) (s : Logged) : Prop where
  isOpen : led < s.1.fresh
  onFile : ∀ index, Issued (s.1.mem led) index → Issued s.1.ledger index
  synced : sound → ∀ txid ∈ receivedTxids s.1.ledger, txid ∈ receivedTxids (s.1.mem led)

/-- The calls that append no receipt. -/
def Op.noReceipt : Op → Prop
  | .append _ (.received _ _ _ _ _) => False
  | _ => True

section Daemon

variable {host : Host} {sound : Prop} {led : Handle}

theorem Issued.append {entries : List Entry} {index : ℕ} (issued : Issued entries index)
    (e : Entry) : Issued (entries ++ [e]) index := by
  obtain ⟨e', member, is⟩ := issued
  exact ⟨e', List.mem_append_left _ member, is⟩

/-- An entry that goes to the file, and to the instance if it was the instance's. -/
theorem Issued.both {file mem : List Entry} {e : Entry}
    (onFile : ∀ index, Issued mem index → Issued file index) (index : ℕ)
    (issued : Issued (mem ++ [e]) index) : Issued (file ++ [e]) index := by
  obtain ⟨e', member, is⟩ := issued
  rcases List.mem_append.1 member with old | new
  · exact (onFile index ⟨e', old, is⟩).append e
  · exact ⟨e', List.mem_append_right _ new, is⟩

/-- Any append keeps the instance as the daemon needs it, provided that a receipt the file
got is one the instance got. -/
theorem Serving.append {s : Logged} {led' : Handle} {e : Entry} {answer : AppendAnswer}
    (serving : Serving sound led s) (mine : e.receivedTxid? = none ∨ led' = led)
    (allowed : (logged host sound).allowed s (.append led' e) answer) :
    Serving sound led ((logged host sound).next s (.append led' e) answer) := by
  obtain ⟨w, history⟩ := s
  cases answer with
  | ok =>
      rcases eq_or_ne led led' with rfl | different
      · have view : (w.appended led e).mem led = w.mem led ++ [e] := Function.update_self ..
        refine ⟨serving.isOpen, fun index issued => ?_, fun isSound txid member => ?_⟩
        · exact Issued.both serving.onFile index (view ▸ issued)
        · have old : txid ∈ receivedTxids (w.ledger ++ [e]) := member
          show txid ∈ receivedTxids ((w.appended led e).mem led)
          rw [view, receivedTxids_append]
          rw [receivedTxids_append] at old
          rcases List.mem_append.1 old with before | new
          · exact List.mem_append_left _ (serving.synced isSound txid before)
          · exact List.mem_append_right _ new
      · have view : (w.appended led' e).mem led = w.mem led := Function.update_of_ne different ..
        have silent : e.receivedTxid? = none := mine.resolve_right fun same => different same.symm
        refine ⟨serving.isOpen, fun index issued => ?_, fun isSound txid member => ?_⟩
        · exact (serving.onFile index (view ▸ issued)).append e
        · have old : txid ∈ receivedTxids (w.ledger ++ [e]) := member
          show txid ∈ receivedTxids ((w.appended led' e).mem led)
          rw [receivedTxids_append, silent, Option.toList_none, List.append_nil] at old
          rw [view]
          exact serving.synced isSound txid old
  | lost error => exact ⟨serving.isOpen, serving.onFile, serving.synced⟩
  | kept error =>
      refine ⟨serving.isOpen, fun index issued => (serving.onFile index issued).append e, ?_⟩
      exact fun isSound => absurd isSound allowed.2

theorem Serving.noReceipt {s : Logged} (op : Op) {answer : op.Ans} (serving : Serving sound led s)
    (quiet : Op.noReceipt op) (allowed : (logged host sound).allowed s op answer) :
    Serving sound led ((logged host sound).next s op answer) := by
  have framed : (∀ led e, op ≠ .append led e) → op ≠ .openLedger →
      Serving sound led ((logged host sound).next s op answer) := by
    intro appends opens
    have ledger : (s.1.after op answer).ledger = s.1.ledger := World.after_ledger _ _ appends
    have mem : (s.1.after op answer).mem = s.1.mem := World.after_mem _ _ appends opens
    have fresh : (s.1.after op answer).fresh = s.1.fresh := World.after_fresh _ _ opens
    constructor
    · exact fresh ▸ serving.isOpen
    · show ∀ index, Issued ((s.1.after op answer).mem led) index →
        Issued (s.1.after op answer).ledger index
      rw [ledger, mem]
      exact serving.onFile
    · show sound → ∀ txid ∈ receivedTxids (s.1.after op answer).ledger,
        txid ∈ receivedTxids ((s.1.after op answer).mem led)
      rw [ledger, mem]
      exact serving.synced
  cases op with
  | append led' e =>
      refine serving.append (.inl ?_) allowed
      cases e with
      | received => exact quiet.elim
      | _ => rfl
  | openLedger =>
      rcases answer with e | led'
      · exact ⟨serving.isOpen, serving.onFile, serving.synced⟩
      · obtain rfl : led' = s.1.fresh := allowed.1
        have view : (s.1.load s.1.fresh).mem led = s.1.mem led :=
          Function.update_of_ne (Nat.ne_of_lt serving.isOpen) ..
        refine ⟨Nat.lt_succ_of_lt serving.isOpen, ?_, ?_⟩
        · exact fun index issued => serving.onFile index (view ▸ issued)
        · exact fun isSound txid member => view ▸ serving.synced isSound txid member
  | _ => exact framed nofun nofun

/-- No call takes an issued index off the file. -/
theorem issued_next {s : Logged} (op : Op) {answer : op.Ans} {index : ℕ}
    (issued : Issued s.1.ledger index) :
    Issued ((logged host sound).next s op answer).1.ledger index := by
  have framed : (∀ led e, op ≠ .append led e) → Issued (s.1.after op answer).ledger index := by
    intro frame
    rw [World.after_ledger s.1 answer frame]
    exact issued
  cases op with
  | append led e =>
      cases answer with
      | ok => exact issued.append e
      | lost error => exact issued
      | kept error => exact issued.append e
  | _ => exact framed nofun

/-- What a program of the daemon leaves in place: the instance, and what was issued. -/
structure Served (sound : Prop) (led : Handle) (s s' : Logged) : Prop where
  serving : Serving sound led s'
  issued : ∀ index, Issued s.1.ledger index → Issued s'.1.ledger index

/-- The frame rule of the daemon. -/
theorem wp_noReceipt {α : Type} {p : Prog α} {s : Logged} (body : p.Within Op.noReceipt)
    (serving : Serving sound led s) :
    wp (logged host sound) (BooksOnSight host sound) (fun _ s' => Served sound led s s') p s := by
  have kept := wp_within
    (R := fun s s' => (Serving sound led s → Serving sound led s') ∧
      ∀ index, Issued s.1.ledger index → Issued s'.1.ledger index)
    (I := logged host sound) (G := BooksOnSight host sound) (w := s) body
    (fun _ => ⟨id, fun _ => id⟩)
    (fun first second => ⟨second.1 ∘ first.1, fun index => second.2 index ∘ first.2 index⟩)
    fun s op answer quiet allowed => by
      refine ⟨?_, fun serving => serving.noReceipt op quiet allowed, fun _ => issued_next op⟩
      cases op with
      | append led' e =>
          cases e with
          | received => exact quiet.elim
          | _ => trivial
      | _ => trivial
  exact wp_mono kept fun _ _ moved => ⟨moved.1 serving, moved.2⟩

/-! ## Booking -/

/-- Booking a deposit the chain has just shown, under an issued index. -/
theorem wp_recordReceived {txid : String} {sats index : ℕ} {s : Logged}
    (serving : Serving sound led s) (shown : Shown host s.2 txid sats index)
    (issued : Issued s.1.ledger index) :
    wp (logged host sound) (BooksOnSight host sound)
      (fun _ s' => Served sound led s s' ∧ lastDeposits s'.2 = lastDeposits s.2)
      (Ledger.recordReceived led txid sats index) s := by
  obtain ⟨w, history⟩ := s
  refine wp_bind.2 fun es allowed => ⟨trivial, ?_⟩
  obtain rfl : es = w.mem led := allowed.1
  refine bindPost_ok.2 ?_
  have read : Serving sound led (w, ⟨.entries led, w.mem led⟩ :: history) :=
    serving.noReceipt (.entries led) trivial allowed
  split
  · exact ⟨⟨read, fun _ => id⟩, rfl⟩
  rename_i unknown
  have unbooked : sound → txid ∉ receivedTxids w.ledger := by
    intro isSound onFile
    obtain ⟨e, member, is⟩ := List.mem_filterMap.1 (serving.synced isSound txid onFile)
    refine unknown (Ledger.hasTxid_iff.2 ⟨e, member, ?_⟩)
    cases e <;> first | exact is | cases is
  refine wp_bind.2 fun answer allowed' => ⟨⟨shown, issued, unbooked⟩, ?_⟩
  have after := read.append (.inr rfl) allowed'
  cases answer with
  | ok => exact ⟨⟨after, fun _ => issued_next (.append led _)⟩, rfl⟩
  | lost error => exact ⟨⟨after, fun _ => id⟩, rfl⟩
  | kept error => exact ⟨⟨after, fun _ => issued_next (.append led _)⟩, rfl⟩

theorem Served.trans {s₁ s₂ s₃ : Logged} (first : Served sound led s₁ s₂)
    (second : Served sound led s₂ s₃) : Served sound led s₁ s₃ :=
  ⟨second.serving, fun index issued => second.issued index (first.issued index issued)⟩

/-- Asking the chain: the answer is the last one on record. -/
theorem wp_depositsTo {α : Type} {address : String} {f : Except Error (List Deposit) → Prog α}
    {Q : Except Error α → Logged → Prop} {s : Logged} (serving : Serving sound led s)
    (answered : ∀ answer s', Served sound led s s' → lastDeposits s'.2 = some (address, answer) →
      wp (logged host sound) (BooksOnSight host sound) Q (f answer) s') :
    wp (logged host sound) (BooksOnSight host sound) Q
      ((depositsTo address).attempt >>= f) s := by
  refine wp_bind.2 fun answer allowed => ⟨trivial, ?_⟩
  have after := serving.noReceipt (.depositsTo address) trivial allowed
  have asked := answered answer _ ⟨after, fun _ => id⟩ rfl
  cases answer <;> exact asked

theorem wp_bookDeposits {address : String} {deposits : List Deposit} {index : ℕ} {s : Logged}
    (serving : Serving sound led s) (own : host.walletAddress index = .ok address)
    (asked : lastDeposits s.2 = some (address, .ok deposits)) (issued : Issued s.1.ledger index) :
    wp (logged host sound) (BooksOnSight host sound) (fun _ s' => Served sound led s s')
      (bookDeposits led index deposits) s := by
  refine wp_forEach
    (J := fun s' => Served sound led s s' ∧ lastDeposits s'.2 = some (address, .ok deposits))
    ⟨⟨serving, fun _ => id⟩, asked⟩ (fun d member s' ⟨served, asked'⟩ => ?_) fun _ holds => holds.1
  refine wp_bind.2 (wp_attempt.2 (wp_mono (wp_recordReceived served.serving
    ⟨address, deposits, own, asked', d, member, rfl, rfl⟩ (served.issued index issued)) ?_))
  rintro outcome s₂ ⟨served₂, same⟩
  exact ⟨served.trans served₂, same.trans asked'⟩

theorem wp_pollIndex {index : ℕ} {s : Logged} (serving : Serving sound led s)
    (issued : Issued s.1.ledger index) :
    wp (logged host sound) (BooksOnSight host sound) (fun _ s' => Served sound led s s')
      (pollIndex host led index) s := by
  unfold pollIndex
  split
  · exact ⟨serving, fun _ => id⟩
  rename_i address own
  refine wp_depositsTo serving fun answer s₁ served asked => ?_
  cases answer with
  | error e => exact served
  | ok deposits =>
      refine wp_mono (wp_bookDeposits served.serving own asked (served.issued index issued)) ?_
      exact fun _ _ served₂ => served.trans served₂

theorem wp_pollIssued {s : Logged} (serving : Serving sound led s) :
    wp (logged host sound) (BooksOnSight host sound) (fun _ s' => Served sound led s s')
      (pollIssued host led) s := by
  refine wp_bind.2 fun es allowed => ⟨trivial, ?_⟩
  obtain rfl : es = s.1.mem led := allowed.1
  have read : Serving sound led (s.1, ⟨.entries led, s.1.mem led⟩ :: s.2) :=
    serving.noReceipt (.entries led) trivial allowed
  refine wp_forEach (J := fun s' => Served sound led s s') ⟨read, fun _ => id⟩
    (fun index member s' served => ?_) fun _ served => served
  have issued := serving.onFile index (Ledger.mem_issuedUnpaid.1 member).1
  refine wp_mono (wp_pollIndex served.serving (served.issued index issued)) ?_
  rintro (e | ⟨⟩) s₂ served₂
  · exact served.trans served₂
  · exact served.trans served₂

theorem within_reconcile_noReceipt : (reconcile led).Within Op.noReceipt :=
  within_reconcile trivial (fun _ => trivial) (fun _ => trivial) (fun _ => trivial)
    (fun _ _ _ => trivial) (fun _ _ => trivial) trivial

theorem noReceipt_of_scans {led' : Handle} (op : Op) (scans : Op.scans led' op) :
    Op.noReceipt op := by
  cases op with
  | append led e => cases e <;> trivial
  | _ => trivial

theorem within_scanFresh_noReceipt (pages : ℕ) : (scanFresh host pages).Within Op.noReceipt :=
  within_bind ⟨trivial, fun _ => within_ofExcept⟩ fun _ =>
    within_bind ((within_scanToTip pages).mono noReceipt_of_scans) fun _ =>
      within_bind ⟨trivial, fun _ => trivial⟩ fun _ => trivial

theorem wp_chainWatch {pages : ℕ} {s : Logged} (serving : Serving sound led s) :
    wp (logged host sound) (BooksOnSight host sound) (fun _ s' => Served sound led s s')
      (chainWatch host led pages) s := by
  refine wp_bind.2 (wp_mono (wp_noReceipt (within_attempt within_reconcile_noReceipt) serving) ?_)
  rintro (e | outcome) s₁ served₁
  · exact served₁
  refine wp_bind.2 (wp_mono (wp_pollIssued served₁.serving) ?_)
  rintro (e | ⟨⟩) s₂ served₂
  · exact served₁.trans served₂
  refine wp_mono (wp_noReceipt (within_bind (within_attempt (within_scanFresh_noReceipt pages))
    fun _ => trivial) served₂.serving) ?_
  exact fun _ _ served₃ => (served₁.trans served₂).trans served₃

/-! ## Sessions -/

/-- The two variables of a session stay in step: an address is kept only together with the
index it was derived from, and that index is on file. -/
def InStep (host : Host) (s : Logged) (issuedIndex : Option ℕ) (issuedAddress : Option String) :
    Prop :=
  ∀ address, issuedAddress = some address → ∃ index, issuedIndex = some index ∧
    host.walletAddress index = .ok address ∧ Issued s.1.ledger index

theorem InStep.served {s s' : Logged} {issuedIndex : Option ℕ} {issuedAddress : Option String}
    (inStep : InStep host s issuedIndex issuedAddress) (served : Served sound led s s') :
    InStep host s' issuedIndex issuedAddress := by
  intro address kept
  obtain ⟨index, same, own, issued⟩ := inStep address kept
  exact ⟨index, same, own, served.issued index issued⟩

theorem wp_handleNotify {issuedIndex : Option ℕ} {issuedAddress : Option String} {txid : String}
    {claimed : ℕ} {s : Logged} (serving : Serving sound led s)
    (inStep : InStep host s issuedIndex issuedAddress) :
    wp (logged host sound) (BooksOnSight host sound) (fun _ s' => Served sound led s s')
      (handleNotify led issuedIndex issuedAddress txid claimed) s := by
  unfold handleNotify
  dsimp only
  split
  · exact ⟨serving, fun _ => id⟩
  rename_i address
  obtain ⟨index, rfl, own, issued⟩ := inStep address rfl
  refine wp_depositsTo serving fun answer s₁ served₁ asked => ?_
  cases answer with
  | error e => exact served₁
  | ok deposits =>
      dsimp only
      split
      · exact served₁
      rename_i d found
      refine wp_bind.2 (wp_mono (wp_recordReceived served₁.serving
        ⟨address, deposits, own, asked, d, List.mem_of_find?_eq_some found, rfl, rfl⟩
        (served₁.issued index issued)) ?_)
      rintro (e | booked) s₂ ⟨served₂, -⟩
      · exact served₁.trans served₂
      refine wp_mono (wp_noReceipt (within_bind (within_attempt within_reconcile_noReceipt)
        fun _ => trivial) served₂.serving) ?_
      exact fun _ _ served₃ => (served₁.trans served₂).trans served₃

theorem wp_runReceiver {closed : Except Error Unit} {inbox : List Message} {nextIndex : ℕ}
    {issuedIndex : Option ℕ} {issuedAddress : Option String} {s : Logged}
    (serving : Serving sound led s) (inStep : InStep host s issuedIndex issuedAddress) :
    wp (logged host sound) (BooksOnSight host sound) (fun _ s' => Served sound led s s')
      (runReceiver host led closed inbox nextIndex issuedIndex issuedAddress) s := by
  induction inbox generalizing nextIndex issuedIndex issuedAddress s with
  | nil => exact wp_ofExcept.2 ⟨serving, fun _ => id⟩
  | cons message inbox ih =>
      cases message with
      | addrRequest sats =>
          unfold runReceiver
          simp only [receiverHandle]
          rcases own : host.walletAddress nextIndex with e | address
          · exact ⟨serving, fun _ => id⟩
          refine wp_bind.2 (wp_mono (wp_noReceipt ⟨trivial, fun _ => trivial⟩ serving) ?_)
          rintro (e | es) s₁ served₁
          · exact served₁
          refine wp_bind.2 fun answer allowed => ⟨trivial, ?_⟩
          have served₂ : Served sound led s ((logged host sound).next s₁
              (.append led (.addressIssued (Ledger.nextSeq es) nextIndex)) answer) :=
            served₁.trans ⟨served₁.serving.append (.inl rfl) allowed, fun _ => issued_next _⟩
          cases answer with
          | lost error => exact served₂
          | kept error => exact served₂
          | ok =>
              have issued : Issued (s₁.1.ledger ++ [.addressIssued (Ledger.nextSeq es) nextIndex])
                  nextIndex := ⟨_, List.mem_append_right _ (List.mem_singleton_self _), rfl⟩
              refine wp_bind.2 (wp_mono (wp_noReceipt ⟨trivial, fun _ => within_ofExcept⟩
                served₂.serving) ?_)
              rintro (e | ⟨⟩) s₃ served₃
              · exact served₂.trans served₃
              refine wp_mono (ih served₃.serving ?_) ?_
              · intro _ same
                cases same
                exact ⟨nextIndex, rfl, own, served₃.issued nextIndex issued⟩
              · exact fun _ _ served₄ => (served₂.trans served₃).trans served₄
      | notify txid claimed => exact wp_handleNotify serving inStep
      | chat text => exact ih serving inStep
      | addrResponse address index => exact ih serving inStep

/-! ## The daemon -/

theorem wp_serve (duties : List Duty) (s : Logged) :
    wp (logged host sound) (BooksOnSight host sound) (fun _ _ => True) (serve host duties) s := by
  refine wp_bind.2 ?_
  rintro (e | led) allowed
  · exact ⟨trivial, trivial⟩
  obtain rfl : led = s.1.fresh := allowed.1
  refine ⟨trivial, ?_⟩
  have opened : Serving sound s.1.fresh ((logged host sound).next s .openLedger (.ok s.1.fresh)) := by
    have view := s.1.load_mem
    refine ⟨Nat.lt_succ_self _, fun index issued => ?_, fun _ txid member => ?_⟩
    · exact view ▸ issued
    · show txid ∈ receivedTxids ((s.1.load s.1.fresh).mem s.1.fresh)
      rw [view]
      exact member
  refine bindPost_ok.2 (wp_forEach (J := fun s' => Serving sound s.1.fresh s') opened ?_
    fun _ _ => trivial)
  intro duty _ s₁ serving
  cases duty with
  | watch pages =>
      refine wp_mono (wp_chainWatch serving) ?_
      rintro (e | ⟨⟩) s₂ served
      · trivial
      · exact served.serving
  | session inbox closed =>
      refine wp_bind.2 (wp_mono (wp_noReceipt ⟨trivial, fun _ => trivial⟩ serving) ?_)
      rintro (e | es) s₂ served
      · trivial
      refine wp_bind.2 (wp_attempt.2 (wp_mono (wp_runReceiver served.serving nofun) ?_))
      exact fun _ _ served₃ => served₃.serving

end Daemon

/-- What a crash leaves of a state: the history is not the program's to lose. -/
def crashLogged (s : Logged) : Logged := (s.1.crash, s.2)

/-- The states the daemon reaches, over any number of restarts. -/
def DaemonReaches (host : Host) (sound : Prop) (s : Logged) : Prop :=
  Reachable (logged host sound) (serve host) crashLogged (.blank, []) s

theorem daemon_sound {host : Host} {sound : Prop} {s : Logged}
    (reached : DaemonReaches host sound s) : Sound host sound s := by
  refine reached.inv (G := BooksOnSight host sound) (Q := fun _ _ => True) ?_ (keeps_sound host sound)
    ?_ fun duties s _ => wp_serve duties s
  · refine ⟨fun before seq txid sats index status after split => ?_, fun _ => List.nodup_nil⟩
    have empty : [] = before ++ Entry.received seq txid sats index status :: after := split
    simp at empty
  · exact fun s holds => ⟨holds.truthful, holds.distinct⟩

/-! ## What a claim can do -/

section Claims

variable {host : Host} {led : Handle} {σ : Type} {handle : (op : sig.Op) → σ → sig.Ans op × σ}
  {txid txid' : String}

/-- In this environment the two txids name the same deposit, or none, of every list of
deposits the chain can show. -/
def SameDeposit (handle : (op : sig.Op) → σ → sig.Ans op × σ) (txid txid' : String) : Prop :=
  ∀ address s deposits, (handle (.depositsTo address) s).1 = .ok deposits →
    deposits.find? (fun d => d.txid = txid) = deposits.find? (fun d => d.txid = txid')

theorem run_depositsTo (address : String) (s : σ) :
    run handle (depositsTo address) s = handle (.depositsTo address) s := by
  rcases asked : handle (.depositsTo address) s with ⟨answer, s'⟩
  show run handle (.ofExcept (handle (.depositsTo address) s).1)
    (handle (.depositsTo address) s).2 = _
  rw [asked]
  cases answer <;> rfl

theorem run_handleNotify {issuedIndex : Option ℕ} {issuedAddress : Option String}
    {claimed claimed' : ℕ} (same : SameDeposit handle txid txid') (s : σ) :
    run handle (handleNotify led issuedIndex issuedAddress txid claimed) s =
      run handle (handleNotify led issuedIndex issuedAddress txid' claimed') s := by
  cases issuedAddress with
  | none => rfl
  | some address =>
      simp only [handleNotify, run_bind, run_attempt, run_depositsTo]
      rcases answer : (handle (.depositsTo address) s).1 with e | deposits
      · rfl
      · simp only [same address s deposits answer]

theorem run_claims {closed : Except Error Unit} {before after after' : List Message}
    {nextIndex claimed claimed' : ℕ} {issuedIndex : Option ℕ} {issuedAddress : Option String}
    (same : SameDeposit handle txid txid') (s : σ) :
    run handle (runReceiver host led closed (before ++ .notify txid claimed :: after) nextIndex
        issuedIndex issuedAddress) s =
      run handle (runReceiver host led closed (before ++ .notify txid' claimed' :: after') nextIndex
        issuedIndex issuedAddress) s := by
  induction before generalizing nextIndex issuedIndex issuedAddress s with
  | nil => exact run_handleNotify same s
  | cons message before ih =>
      cases message with
      | addrRequest sats =>
          simp only [List.cons_append, runReceiver, receiverHandle]
          rcases host.walletAddress nextIndex with e | address
          · rfl
          · exact run_bind_congr fun _ _ => run_bind_congr fun _ _ => run_bind_congr fun _ s' => ih s'
      | notify txid claimed => rfl
      | chat text => exact ih s
      | addrResponse address index => exact ih s

end Claims

/-- **Whatever buyers send, receipts are truthful.**  In every state the daemon reaches,
every receipt on file was booked when the chain had just shown its deposit to the address
of its index, which was issued before; no transaction has two, as long as an append that
reports an error has left nothing on file; and two notifies that name the same deposit, or
none, of whatever the chain shows are the same to a session, the amount they claim and
everything after them included. -/
theorem receipts_sound (host : Host) :
    (∀ s, DaemonReaches host False s → Truthful host s) ∧
    (∀ s, DaemonReaches host True s → (receivedTxids s.1.ledger).Nodup) ∧
    ∀ (σ : Type) (handle : (op : sig.Op) → σ → sig.Ans op × σ) (txid txid' : String),
      SameDeposit handle txid txid' →
        ∀ (led : Handle) (closed : Except Error Unit) (before after after' : List Message)
          (nextIndex claimed claimed' : ℕ) (issuedIndex : Option ℕ)
          (issuedAddress : Option String) (s : σ),
          run handle (runReceiver host led closed (before ++ .notify txid claimed :: after)
              nextIndex issuedIndex issuedAddress) s =
            run handle (runReceiver host led closed (before ++ .notify txid' claimed' :: after')
              nextIndex issuedIndex issuedAddress) s := by
  refine ⟨fun s reached => (daemon_sound reached).truthful, fun s reached => ?_, ?_⟩
  · exact (daemon_sound reached).distinct trivial
  · intro σ handle txid txid' same led closed before after after' nextIndex claimed claimed'
      issuedIndex issuedAddress s
    exact run_claims same s

/-! ## Two sessions and a tick -/

/-- A wallet with an address for index 0 and another for every later one. -/
def sellerHost : Host :=
  { Host.sample .bitcoin .default with
    walletAddress := fun index =>
      if index = 0 then .ok sampleAddress.display
      else .ok "bc1qrp33g0q5c5txsp9arysrx4k6zdkfs4nce4xj0gdcccefvpysxf3qccfmv3" }

/-- One transaction, with one confirmation, pays both addresses 1000 sats. -/
def onePayment : Script :=
  { Script.silent with
    deposits := fun _ => .ok [⟨sampleTxid, 1000, 1⟩]
    confirmations := fun _ => .ok 1 }

/-- Drive the host and its history by the answers given. -/
def logHandle (answer : World → (op : Op) → op.Ans) (op : Op) (s : Logged) : op.Ans × Logged :=
  (answer s.1 op, (s.1.after op (answer s.1 op), ⟨op, answer s.1 op⟩ :: s.2))

/-- A driven run of the daemon from a new directory. -/
def daemonRun (answer : World → (op : Op) → op.Ans) (duties : List Duty) : Logged :=
  (run (logHandle answer) (serve sellerHost duties) (World.blank, [])).2

theorem daemonRun_reached {answer : World → (op : Op) → op.Ans} {sound : Prop} (duties : List Duty)
    (allowed : ∀ w op, ((interp sellerHost).restrict (DiskSound sound)).allowed w op (answer w op)) :
    DaemonReaches sellerHost sound (daemonRun answer duties) := by
  have exec : Exec (logged sellerHost sound) (serve sellerHost duties) (World.blank, [])
      (run (logHandle answer) (serve sellerHost duties) (World.blank, [])).1
      (daemonRun answer duties) :=
    run_exec id _ _ (fun op s => allowed s.1 op) fun _ _ => rfl
  exact ⟨_, duties, .boot, exec.reach⟩

theorem onePayment_allowed (sound : Prop) (w : World) (op : Op) :
    ((interp sellerHost).restrict (DiskSound sound)).allowed w op
      (onePayment.answer sellerHost w op) := by
  refine ⟨Script.allowed sellerHost onePayment w op, ?_⟩
  cases op <;> trivial

/-- A session issues index 0, a tick books the payment under it, and a second session
issues index 1 and is told `txid`. -/
def toldDuties (txid : String) : List Duty :=
  [.session [.addrRequest 1000] (.ok ()), .watch 1,
    .session [.addrRequest 1000, .notify txid 1000] (.ok ())]

theorem receipts_sound_told :
    (daemonRun (onePayment.answer sellerHost) (toldDuties sampleTxid)).1.ledger =
      [.addressIssued 0 0, .received 1 sampleTxid 1000 0 .pending, .addressIssued 2 1,
        .statusUpdate 3 sampleTxid .soft] ∧
    BookedOnSight sellerHost (daemonRun (onePayment.answer sellerHost) (toldDuties sampleTxid)).2
      (.received 1 sampleTxid 1000 0 .pending) sampleTxid 1000 0 ∧
    (receivedTxids (daemonRun (onePayment.answer sellerHost)
      (toldDuties sampleTxid)).1.ledger).Nodup := by
  have ledger : (daemonRun (onePayment.answer sellerHost) (toldDuties sampleTxid)).1.ledger =
      [.addressIssued 0 0, .received 1 sampleTxid 1000 0 .pending, .addressIssued 2 1,
        .statusUpdate 3 sampleTxid .soft] := by decide +kernel
  refine ⟨ledger, ?_, ?_⟩
  · exact ((receipts_sound sellerHost).1 _ (daemonRun_reached _ (onePayment_allowed False))
      [.addressIssued 0 0] 1 sampleTxid 1000 0 .pending _ ledger).1
  · exact (receipts_sound sellerHost).2.1 _ (daemonRun_reached _ (onePayment_allowed True))

/-- The disk keeps the line of the first receipt and reports an error. -/
def keepsFirst (w : World) : (op : Op) → op.Ans
  | .append _ (.received _ _ _ _ _) =>
      if receivedTxids w.ledger = [] then .kept "fsync failed" else .ok
  | op => onePayment.answer sellerHost w op

theorem keepsFirst_allowed (w : World) (op : Op) :
    ((interp sellerHost).restrict (DiskSound False)).allowed w op (keepsFirst w op) := by
  have scripted := onePayment_allowed False w op
  cases op with
  | append led e =>
      refine ⟨trivial, ?_⟩
      rcases keepsFirst w (.append led e) with _ | error | error
      · trivial
      · trivial
      · exact id
  | _ => exact scripted

/-- A claimed txid changes the file although no receipt is booked for it; and after a
failed append that kept its line, the next tick books the transaction again. -/
theorem claim_moves_statuses :
    (receivedTxids (daemonRun (onePayment.answer sellerHost) (toldDuties sampleTxid)).1.ledger =
        receivedTxids (daemonRun (onePayment.answer sellerHost) (toldDuties "unseen")).1.ledger ∧
      (daemonRun (onePayment.answer sellerHost) (toldDuties sampleTxid)).1.ledger ≠
        (daemonRun (onePayment.answer sellerHost) (toldDuties "unseen")).1.ledger) ∧
    ∃ s, DaemonReaches sellerHost False s ∧ ¬ (receivedTxids s.1.ledger).Nodup := by
  refine ⟨by decide +kernel, _, daemonRun_reached
    [.session [.addrRequest 1000] (.ok ()), .watch 1, .watch 1] keepsFirst_allowed, ?_⟩
  decide +kernel

end ComputerMoney.Safety

/-
# Safety.Collections -- which receipts the receive report shows

The report has one row for each issued index, and fills it with the first receipt booked
under that index.  The watch polls an index only until it has a receipt, but it books
every deposit that one poll shows, and a session books under the index it issued whatever
the watch has booked there before.  So an index can have two receipts, and the second is
in no row and in no sum.

`collections_report_once` is about every run of the daemon among any number of callers
that scan, over any number of restarts.  As long as an address is issued only under an
index that is not on file, and a deposit is booked only under an index without one, every
receipt is in exactly one row.  And as long as no failed append of an issued address has
left its line, the first half of that never fails, and a ledger is reported in full
exactly when no two of its receipts share an index.
-/
import ComputerMoney.Theory.FirstMatch
import ComputerMoney.Safety.AddressIssue
import ComputerMoney.Safety.ScanOnce

namespace ComputerMoney.Safety

set_option autoImplicit false

open Theory Theory.Program Kernel

namespace Collections

/-! ## What a report must show -/

/-- Transaction and amount of a receipt, on chain or silent. -/
def receipt? : Entry → Option (String × ℕ)
  | .received _ txid sats _ _ | .spReceived _ txid _ sats _ _ => some (txid, sats)
  | _ => none

/-- The rows with a transaction. -/
def paidRows (rows : List Ledger.Collection) : List (String × ℕ) :=
  rows.filterMap fun c => c.txid.map fun txid => (txid, c.sats)

/-- Each receipt is in one row, each row with a transaction is a receipt, and the amounts
of all rows sum to those of all receipts. -/
structure Reported (entries : List Entry) : Prop where
  rows : (paidRows (Ledger.collections entries)).Perm (entries.filterMap receipt?)
  total : ((Ledger.collections entries).map Ledger.Collection.sats).sum =
    ((entries.filterMap receipt?).map Prod.snd).sum

def issuedIndexes (entries : List Entry) : List ℕ := entries.filterMap Entry.issuedIndex?

def receivedIndexes (entries : List Entry) : List ℕ := entries.filterMap Entry.receivedIndex?

/-! ## The report as a table -/

/-- A receipt under an issued index, keyed by it. -/
def booked? : Entry → Option (ℕ × String × ℕ)
  | .received _ txid sats index _ => some (index, txid, sats)
  | _ => none

def spReceipt? : Entry → Option (String × ℕ)
  | .spReceived _ txid _ sats _ _ => some (txid, sats)
  | _ => none

theorem receiptFor_eq_lookup (entries : List Entry) (index : ℕ) :
    Ledger.receiptFor entries index = (entries.filterMap booked?).lookup index := by
  induction entries with
  | nil => rfl
  | cons e entries ih =>
      rw [Ledger.receiptFor] at ih ⊢
      cases e with
      | received seq txid sats i status =>
          by_cases same : i = index
          · simp [booked?, same]
          · have skipped : (index == i) = false := by simpa using fun is => same is.symm
            simp [booked?, List.lookup_cons, same, skipped, ih]
      | _ => exact ih

theorem receivedIndexes_eq (entries : List Entry) :
    receivedIndexes entries = (entries.filterMap booked?).map Prod.fst := by
  rw [receivedIndexes, List.map_filterMap]
  refine List.filterMap_congr fun e _ => ?_
  cases e <;> rfl

/-- The paid rows are the first receipts of the issued indexes, then the silent ones. -/
theorem paidRows_collections (entries : List Entry) :
    paidRows (Ledger.collections entries) =
      FirstMatch.readBy (entries.filterMap booked?) (issuedIndexes entries) ++
        entries.filterMap spReceipt? := by
  rw [paidRows, Ledger.collections, List.filterMap_append, List.filterMap_filterMap,
    List.filterMap_filterMap, FirstMatch.readBy, issuedIndexes, List.filterMap_filterMap]
  congr 1
  · refine List.filterMap_congr fun e _ => ?_
    cases e with
    | addressIssued seq index =>
        simp only [Entry.issuedIndex?, Option.bind_some, ← receiptFor_eq_lookup]
        rcases Ledger.receiptFor entries index with _ | ⟨txid, sats⟩ <;> rfl
    | _ => rfl
  · refine List.filterMap_congr fun e _ => ?_
    cases e <;> rfl

/-- Receipts of both kinds, apart. -/
theorem receipts_perm (entries : List Entry) :
    (entries.filterMap receipt?).Perm
      ((entries.filterMap booked?).map Prod.snd ++ entries.filterMap spReceipt?) := by
  induction entries with
  | nil => exact .refl _
  | cons e entries ih =>
      cases e with
      | received seq txid sats index status => exact ih.cons (txid, sats)
      | spReceived seq txid vout sats tweak status =>
          exact (ih.cons (txid, sats)).trans List.perm_middle.symm
      | _ => exact ih

/-- A row without a transaction has no amount. -/
theorem unpaid_sats {entries : List Entry} {c : Ledger.Collection}
    (member : c ∈ Ledger.collections entries) (unpaid : c.txid = none) : c.sats = 0 := by
  rcases List.mem_append.1 member with issued | sp
  · obtain ⟨e, -, is⟩ := List.mem_filterMap.1 issued
    cases e with
    | addressIssued seq index =>
        dsimp only at is
        split at is <;> cases is
        · cases unpaid
        · rfl
    | _ => cases is
  · obtain ⟨e, -, is⟩ := List.mem_filterMap.1 sp
    cases e with
    | spReceived => cases is; cases unpaid
    | _ => cases is

theorem sum_paidRows {rows : List Ledger.Collection}
    (unpaid : ∀ c ∈ rows, c.txid = none → c.sats = 0) :
    (rows.map Ledger.Collection.sats).sum = ((paidRows rows).map Prod.snd).sum := by
  induction rows with
  | nil => rfl
  | cons c rows ih =>
      have rest := ih fun c' member => unpaid c' (List.mem_cons_of_mem _ member)
      obtain ⟨index, _ | txid, sats, sp⟩ := c
      · have none : sats = 0 := unpaid _ (List.mem_cons_self ..) rfl
        simpa [paidRows, none] using rest
      · simpa [paidRows] using rest

/-- Where each index is issued once and every receipt has an issued index, the report is
complete exactly when no two receipts share an index. -/
theorem reported_iff {entries : List Entry} (issuedOnce : (issuedIndexes entries).Nodup)
    (issued : ∀ index ∈ receivedIndexes entries, index ∈ issuedIndexes entries) :
    Reported entries ↔ (receivedIndexes entries).Nodup := by
  rw [receivedIndexes_eq] at issued ⊢
  rw [← FirstMatch.readBy_perm_iff issuedOnce issued]
  have split := receipts_perm entries
  have rows := paidRows_collections entries
  constructor
  · intro reported
    have all := reported.rows.trans split
    rw [rows] at all
    exact (List.perm_append_right_iff _).1 all
  · intro read
    have all : (paidRows (Ledger.collections entries)).Perm (entries.filterMap receipt?) := by
      rw [rows]
      exact ((List.perm_append_right_iff _).2 read).trans split.symm
    refine ⟨all, ?_⟩
    rw [sum_paidRows fun c => unpaid_sats]
    exact (all.map Prod.snd).sum_nat

/-! ## Ledgers in order -/

/-- Each index is issued once, each receipt is under an issued index, and, when `first`
is asked for, no two are under the same. -/
structure Orderly (first : Prop) (entries : List Entry) : Prop where
  issuedOnce : (issuedIndexes entries).Nodup
  issued : ∀ index ∈ receivedIndexes entries, index ∈ issuedIndexes entries
  receivedOnce : first → (receivedIndexes entries).Nodup

theorem mem_issuedIndexes {entries : List Entry} {index : ℕ} :
    index ∈ issuedIndexes entries ↔ Issued entries index := List.mem_filterMap

theorem issuedIndexes_append (entries : List Entry) (e : Entry) :
    issuedIndexes (entries ++ [e]) = issuedIndexes entries ++ e.issuedIndex?.toList := by
  rw [issuedIndexes, List.filterMap_append]
  cases e <;> rfl

theorem receivedIndexes_append (entries : List Entry) (e : Entry) :
    receivedIndexes (entries ++ [e]) = receivedIndexes entries ++ e.receivedIndex?.toList := by
  rw [receivedIndexes, List.filterMap_append]
  cases e <;> rfl

theorem nodup_append_toList {xs : List ℕ} {o : Option ℕ} (distinct : xs.Nodup)
    (new : ∀ x, o = some x → x ∉ xs) : (xs ++ o.toList).Nodup := by
  cases o with
  | none => simpa using distinct
  | some x =>
      refine List.nodup_append.2 ⟨distinct, List.nodup_singleton x, fun y old z is same => ?_⟩
      rw [same, List.mem_singleton.1 is] at old
      exact new x rfl old

theorem orderly_nil (first : Prop) : Orderly first [] :=
  ⟨List.nodup_nil, nofun, fun _ => List.nodup_nil⟩

theorem Orderly.append {first : Prop} {entries : List Entry} {e : Entry}
    (orderly : Orderly first entries)
    (issues : ∀ index, e.issuedIndex? = some index → index ∉ issuedIndexes entries)
    (books : ∀ index, e.receivedIndex? = some index → index ∈ issuedIndexes entries)
    (once : first → ∀ index, e.receivedIndex? = some index → index ∉ receivedIndexes entries) :
    Orderly first (entries ++ [e]) := by
  constructor
  · rw [issuedIndexes_append]
    exact nodup_append_toList orderly.issuedOnce issues
  · intro index member
    rw [receivedIndexes_append] at member
    rw [issuedIndexes_append]
    apply List.mem_append_left
    rcases List.mem_append.1 member with old | new
    · exact orderly.issued index old
    · exact books index (Option.mem_toList.1 new)
  · intro isFirst
    rw [receivedIndexes_append]
    exact nodup_append_toList (orderly.receivedOnce isFirst) (once isFirst)

/-- A ledger of the system: the file, or an open instance. -/
def LedgerOf (s : Shared) (entries : List Entry) : Prop :=
  entries = s.world.ledger ∨ ∃ led < s.world.fresh, entries = s.world.mem led

/-- Every ledger is in order, and no instance has an index the file lacks. -/
structure Books (first : Prop) (s : Shared) : Prop where
  orderly : ∀ entries, LedgerOf s entries → Orderly first entries
  issued : ∀ entries, LedgerOf s entries →
    ∀ index ∈ issuedIndexes entries, index ∈ issuedIndexes s.world.ledger
  received : ∀ entries, LedgerOf s entries →
    ∀ index ∈ receivedIndexes entries, index ∈ receivedIndexes s.world.ledger

/-! ## Promise, reliance, assumption -/

/-- The promise about an append: an index is issued when the file, if `sound`, lacks it;
and a receipt is booked by an open instance under an index that the instance issued. -/
def Orders (sound : Prop) : Guarantee sig Shared
  | s, .append led e, _ =>
      (∀ index, e.issuedIndex? = some index → sound → index ∉ issuedIndexes s.world.ledger) ∧
        ∀ index, e.receivedIndex? = some index →
          led < s.world.fresh ∧ index ∈ issuedIndexes (s.world.mem led)
  | _, _, _ => True

/-- The calls that append neither an issued address nor a receipt under one. -/
def Op.quiet : Op → Prop
  | .append _ e => e.issuedIndex? = none ∧ e.receivedIndex? = none
  | _ => True

/-- What the daemon relies on: the others issue nothing. -/
structure Beside (s s' : Shared) : Prop where
  fresh : s.world.fresh ≤ s'.world.fresh
  ledger : issuedIndexes s'.world.ledger = issuedIndexes s.world.ledger
  view : ∀ led < s.world.fresh, issuedIndexes (s'.world.mem led) = issuedIndexes (s.world.mem led)

/-- The daemon is thread 0, the callers are the others. -/
def Promises (sound : Prop) : ℕ → Guarantee sig Shared
  | 0 => Orders sound
  | _ + 1 => fun _ op _ => Op.quiet op

def Relies : ℕ → Shared → Shared → Prop
  | 0 => Beside
  | _ + 1 => fun _ _ => True

/-- What is assumed of the calls of a run, as far as the order of a ledger needs it. -/
structure Adequate (assume : Guarantee sig Shared) (sound first : Prop) : Prop where
  intact : ∀ s led e error, assume s (.append led e) (.kept error) → sound → e.issuedIndex? = none
  issues : ∀ s led e answer, (∀ error, answer ≠ .lost error) → assume s (.append led e) answer →
    ¬ sound → ∀ index, e.issuedIndex? = some index → index ∉ issuedIndexes s.world.ledger
  books : ∀ s led e answer, (∀ error, answer ≠ .lost error) → assume s (.append led e) answer →
    first → ∀ index, e.receivedIndex? = some index → index ∉ receivedIndexes s.world.ledger

section Runs

variable {host : Host} {assume : Guarantee sig Shared} {sound first : Prop}

theorem Beside.refl (s : Shared) : Beside s s := ⟨Nat.le_refl _, rfl, fun _ _ => rfl⟩

theorem Beside.trans {s₁ s₂ s₃ : Shared} (h : Beside s₁ s₂) (h' : Beside s₂ s₃) : Beside s₁ s₃ where
  fresh := Nat.le_trans h.fresh h'.fresh
  ledger := h'.ledger.trans h.ledger
  view led isOpen := (h'.view led (Nat.lt_of_lt_of_le isOpen h.fresh)).trans (h.view led isOpen)

theorem relies_refl (i : ℕ) (s : Shared) : Relies i s s := by
  cases i with
  | zero => exact Beside.refl s
  | succ i => trivial

theorem relies_trans (i : ℕ) (s₁ s₂ s₃ : Shared) (h : Relies i s₁ s₂) (h' : Relies i s₂ s₃) :
    Relies i s₁ s₃ := by
  cases i with
  | zero => exact Beside.trans h h'
  | succ i => trivial

/-- Opening an instance leaves the older ones, and the new one is the file. -/
theorem load_ledgerOf {s : Shared} {entries : List Entry}
    (is : LedgerOf ⟨s.world.load s.world.fresh, s.holder⟩ entries) : LedgerOf s entries := by
  rcases is with file | ⟨led, isOpen, view⟩
  · exact .inl file
  · rcases eq_or_ne led s.world.fresh with rfl | older
    · exact .inl (view.trans s.world.load_mem)
    · have below : led < s.world.fresh := Nat.lt_of_le_of_ne (Nat.le_of_lt_succ isOpen) older
      exact .inr ⟨led, below, view.trans (Function.update_of_ne older ..)⟩

theorem Books.mono {s s' : Shared} (books : Books first s)
    (same : s'.world.ledger = s.world.ledger)
    (ledgers : ∀ entries, LedgerOf s' entries → LedgerOf s entries) : Books first s' where
  orderly entries is := books.orderly entries (ledgers entries is)
  issued entries is := same ▸ books.issued entries (ledgers entries is)
  received entries is := same ▸ books.received entries (ledgers entries is)

/-- The new line is in order wherever it goes: on the file, and in the instance that
appended it. -/
theorem Books.append {s s' : Shared} {led : Handle} {e : Entry} (books : Books first s)
    (issues : ∀ index, e.issuedIndex? = some index → index ∉ issuedIndexes s.world.ledger)
    (booked : ∀ index, e.receivedIndex? = some index →
      led < s.world.fresh ∧ index ∈ issuedIndexes (s.world.mem led))
    (once : first → ∀ index, e.receivedIndex? = some index →
      index ∉ receivedIndexes s.world.ledger)
    (file : s'.world.ledger = s.world.ledger ++ [e])
    (ledgers : ∀ entries, LedgerOf s' entries → LedgerOf s entries ∨
      entries = s.world.ledger ++ [e] ∨
      led < s.world.fresh ∧ entries = s.world.mem led ++ [e]) : Books first s' := by
  have grown : ∀ old, LedgerOf s old →
      (∀ index, e.receivedIndex? = some index → index ∈ issuedIndexes old) →
        Orderly first (old ++ [e]) := by
    intro old is has
    refine (books.orderly old is).append (fun index new known => ?_) has
      fun isFirst index new known => ?_
    · exact issues index new (books.issued old is index known)
    · exact once isFirst index new (books.received old is index known)
  have fileGrown : Orderly first (s.world.ledger ++ [e]) := by
    refine grown _ (.inl rfl) fun index new => ?_
    obtain ⟨isOpen, known⟩ := booked index new
    exact books.issued _ (.inr ⟨led, isOpen, rfl⟩) index known
  have among : ∀ {pick : List Entry → List ℕ},
      (∀ old, pick (old ++ [e]) = pick old ++ pick [e]) →
      (∀ entries, LedgerOf s entries → ∀ index ∈ pick entries, index ∈ pick s.world.ledger) →
      ∀ entries, LedgerOf s' entries → ∀ index ∈ pick entries, index ∈ pick s'.world.ledger := by
    intro pick splits below entries is index member
    rw [file, splits, List.mem_append]
    rcases ledgers entries is with old | rfl | ⟨isOpen, rfl⟩
    · exact .inl (below entries old index member)
    · rwa [splits, List.mem_append] at member
    · rw [splits, List.mem_append] at member
      exact member.imp_left (below _ (.inr ⟨led, isOpen, rfl⟩) index)
  constructor
  · intro entries is
    rcases ledgers entries is with old | rfl | ⟨isOpen, rfl⟩
    · exact books.orderly entries old
    · exact fileGrown
    · exact grown _ (.inr ⟨led, isOpen, rfl⟩) fun index new => (booked index new).2
  · exact among (fun _ => List.filterMap_append) books.issued
  · exact among (fun _ => List.filterMap_append) books.received

/-- The promise keeps every ledger in order. -/
theorem keeps_books (adequate : Adequate assume sound first) (i : ℕ) :
    Keeps ((reading host i).restrict assume) (Orders sound) (Books first) := by
  intro s op answer allowed promised books
  have framed : (∀ led e, op ≠ .append led e) → op ≠ .openLedger →
      Books first ⟨s.world.after op answer, holderAfter i s.holder op⟩ := by
    intro appends opens
    have ledger := World.after_ledger s.world answer appends
    have mem := World.after_mem s.world answer appends opens
    have fresh := World.after_fresh s.world answer opens
    refine books.mono ledger fun entries is => ?_
    rcases is with file | ⟨led, isOpen, view⟩
    · exact .inl (file.trans ledger)
    · exact .inr ⟨led, fresh ▸ isOpen, view.trans (congrFun mem led)⟩
  cases op with
  | append led e =>
      have issues : (∀ error, answer ≠ .lost error) → ∀ index, e.issuedIndex? = some index →
          index ∉ issuedIndexes s.world.ledger := by
        intro lands index new
        by_cases isSound : sound
        · exact promised.1 index new isSound
        · exact adequate.issues s led e answer lands allowed.2 isSound index new
      have once := fun lands => adequate.books s led e answer lands allowed.2
      cases answer with
      | lost error => exact books.mono rfl fun entries is => is
      | kept error =>
          refine books.append (issues nofun) promised.2 (once nofun) rfl fun entries is => ?_
          rcases is with file | view
          · exact .inr (.inl file)
          · exact .inl (.inr view)
      | ok =>
          refine books.append (issues nofun) promised.2 (once nofun) rfl fun entries is => ?_
          rcases is with file | ⟨led', isOpen, view⟩
          · exact .inr (.inl file)
          rcases eq_or_ne led' led with rfl | different
          · exact .inr (.inr ⟨isOpen, view.trans (Function.update_self ..)⟩)
          · exact .inl (.inr ⟨led', isOpen, view.trans (Function.update_of_ne different ..)⟩)
  | openLedger =>
      rcases answer with error | led
      · exact books.mono rfl fun entries is => is
      · obtain rfl : led = s.world.fresh := allowed.1.1
        exact books.mono rfl fun entries is => load_ledgerOf is
  | _ => exact framed nofun nofun

/-- An append that issues nothing changes no ledger's issued indexes. -/
theorem issuedIndexes_after {w : World} {led : Handle} {e : Entry} {answer : AppendAnswer}
    (other : e.issuedIndex? = none) :
    issuedIndexes (w.after (.append led e) answer).ledger = issuedIndexes w.ledger ∧
      ∀ led', issuedIndexes ((w.after (.append led e) answer).mem led') =
        issuedIndexes (w.mem led') := by
  have same : ∀ entries, issuedIndexes (entries ++ [e]) = issuedIndexes entries := by
    intro entries
    rw [issuedIndexes_append, other, Option.toList_none, List.append_nil]
  cases answer with
  | lost error => exact ⟨rfl, fun _ => rfl⟩
  | kept error => exact ⟨same _, fun _ => rfl⟩
  | ok =>
      refine ⟨same _, fun led' => ?_⟩
      show issuedIndexes (Function.update w.mem led (w.mem led ++ [e]) led') = _
      rcases eq_or_ne led' led with rfl | different
      · rw [Function.update_self, same]
      · rw [Function.update_of_ne different]

/-- Where no index is issued, the daemon is undisturbed. -/
theorem beside_next {i : ℕ} {s : Shared} {op : Op} {answer : op.Ans}
    (silent : ∀ led e, op = .append led e → e.issuedIndex? = none)
    (allowed : ((reading host i).restrict assume).allowed s op answer) :
    Beside s (((reading host i).restrict assume).next s op answer) := by
  have framed : (∀ led e, op ≠ .append led e) → op ≠ .openLedger →
      Beside s ⟨s.world.after op answer, holderAfter i s.holder op⟩ := by
    intro appends opens
    refine ⟨?_, ?_, fun led _ => ?_⟩
    · exact Nat.le_of_eq (World.after_fresh s.world answer opens).symm
    · exact congrArg issuedIndexes (World.after_ledger s.world answer appends)
    · exact congrArg issuedIndexes (congrFun (World.after_mem s.world answer appends opens) led)
  cases op with
  | append led e =>
      have same := @issuedIndexes_after s.world led e answer (silent led e rfl)
      refine ⟨?_, same.1, fun led' _ => same.2 led'⟩
      cases answer <;> exact Nat.le_refl _
  | openLedger =>
      rcases answer with error | led
      · exact Beside.refl s
      · obtain rfl : led = s.world.fresh := allowed.1.1
        refine ⟨Nat.le_succ _, rfl, fun led isOpen => ?_⟩
        exact congrArg issuedIndexes (Function.update_of_ne (Nat.ne_of_lt isOpen) ..)
  | _ => exact framed nofun nofun

/-! ## The daemon among the callers -/

/-- The host as the daemon finds it while the callers run. -/
abbrev amidst (host : Host) (assume : Guarantee sig Shared) :
    Interp sig (Shared × (ℕ → Shared)) :=
  ((reading host 0).restrict assume).among Beside

/-- The daemon's instance `led` is open and has issued the indexes `known`, which, if
`sound`, are all on file. -/
structure Serving (sound : Prop) (led : Handle) (known : List ℕ) (σ : Shared × (ℕ → Shared)) :
    Prop where
  isOpen : led < σ.1.world.fresh
  view : issuedIndexes (σ.1.world.mem led) = known
  synced : sound → ∀ index ∈ issuedIndexes σ.1.world.ledger, index ∈ known

/-- Whatever issues nothing leaves the daemon's instance as it was. -/
theorem Serving.beside {led : Handle} {known : List ℕ} {s s' : Shared}
    {later later' : ℕ → Shared} (serving : Serving sound led known (s, later))
    (moved : Beside s s') : Serving sound led known (s', later') where
  isOpen := Nat.lt_of_lt_of_le serving.isOpen moved.fresh
  view := (moved.view led serving.isOpen).trans serving.view
  synced isSound := moved.ledger ▸ serving.synced isSound

/-- The calls that issue nothing and book only under the indexes `known`, on `led`. -/
def Op.booksAmong (led : Handle) (known : List ℕ) : Op → Prop
  | .append led' e => e.issuedIndex? = none ∧
      ∀ index, e.receivedIndex? = some index → led' = led ∧ index ∈ known
  | _ => True

theorem booksAmong_of_quiet {led : Handle} {known : List ℕ} (op : Op) (quiet : Op.quiet op) :
    Op.booksAmong led known op := by
  cases op with
  | append led' e =>
      refine ⟨quiet.1, fun index booked => ?_⟩
      rw [quiet.2] at booked
      cases booked
  | _ => trivial

/-- The frame rule of the daemon. -/
theorem wp_booksAmong {α : Type} {p : Prog α} {led : Handle} {known : List ℕ}
    {σ : Shared × (ℕ → Shared)} (body : p.Within (Op.booksAmong led known))
    (serving : Serving sound led known σ) :
    wp (amidst host assume) (Orders sound).alone (fun _ σ' => Serving sound led known σ') p σ := by
  apply wp_preserves body serving
  intro ⟨s, later⟩ op answer among serving allowed
  have silent : ∀ led e, op = .append led e → e.issuedIndex? = none := by
    rintro led e rfl
    exact among.1
  refine ⟨?_, serving.beside ((beside_next silent allowed.1).trans allowed.2)⟩
  cases op with
  | append led' e =>
      refine ⟨fun index issued => ?_, fun index booked => ?_⟩
      · rw [among.1] at issued
        cases issued
      · obtain ⟨rfl, member⟩ := among.2 index booked
        exact ⟨serving.isOpen, serving.view ▸ member⟩
  | _ => trivial

theorem wp_quiet {α : Type} {p : Prog α} {led : Handle} {known : List ℕ}
    {σ : Shared × (ℕ → Shared)} (body : p.Within Op.quiet)
    (serving : Serving sound led known σ) :
    wp (amidst host assume) (Orders sound).alone (fun _ σ' => Serving sound led known σ') p σ :=
  wp_booksAmong (body.mono booksAmong_of_quiet) serving

theorem within_reconcile_quiet {led : Handle} : (reconcile led).Within Op.quiet :=
  within_reconcile trivial (fun _ => trivial) (fun _ => trivial) (fun _ => trivial)
    (fun _ _ _ => ⟨rfl, rfl⟩) (fun _ _ => trivial) trivial

theorem quiet_of_scans {led : Handle} (op : Op) (scans : Op.scans led op) : Op.quiet op := by
  cases op with
  | append led' e => cases e <;> first | exact scans.elim | exact ⟨rfl, rfl⟩
  | _ => trivial

theorem within_scanToTip_quiet {led : Handle} (pages : ℕ) :
    (scanToTip host led pages).Within Op.quiet :=
  (within_scanToTip pages).mono quiet_of_scans

theorem within_scanFresh_quiet (pages : ℕ) : (scanFresh host pages).Within Op.quiet :=
  within_bind ⟨trivial, fun _ => within_ofExcept⟩ fun _ =>
    within_bind (within_scanToTip_quiet pages) fun _ =>
      within_bind ⟨trivial, fun _ => trivial⟩ fun _ => trivial

/-- What a caller does issues nothing and books nothing under an index. -/
theorem within_caller (caller : Caller) : (caller.program host).Within Op.quiet := by
  cases caller with
  | scanFresh pages => exact within_bind (within_scanFresh_quiet pages) fun _ => trivial
  | balanceReport pages =>
      refine within_bind (within_bind ⟨trivial, fun _ => within_ofExcept⟩ fun _ => ?_)
        fun _ => trivial
      refine within_bind (within_attempt ⟨trivial, fun _ => within_ofExcept⟩) fun opened => ?_
      cases opened with
      | error error => trivial
      | ok led =>
          refine within_bind (within_attempt (within_scanToTip_quiet pages)) fun _ => ?_
          refine within_bind (within_attempt within_reconcile_quiet) fun _ => ?_
          exact within_bind ⟨trivial, fun _ => trivial⟩ fun _ => trivial
  | collectionsReport pages =>
      refine within_bind (within_bind ⟨trivial, fun _ => within_ofExcept⟩ fun led => ?_)
        fun _ => trivial
      refine within_bind (within_attempt (within_scanToTip_quiet pages)) fun outcome => ?_
      have rest : ∀ note : String, Within Op.quiet (do
          let es ← Ledger.entries led
          let rows ← .ofExcept (collectionRows host (Ledger.collections es))
          return (note, rows) : Prog (String × List CollectionRow)) := fun note =>
        within_bind ⟨trivial, fun _ => trivial⟩ fun _ =>
          within_bind within_ofExcept fun _ => trivial
      cases outcome with
      | ok report => exact rest _
      | error error => exact rest _

/-! ## Booking under what was issued -/

theorem within_recordReceived_among {led : Handle} {known : List ℕ} {txid : String} {sats index : ℕ}
    (issued : index ∈ known) :
    (Ledger.recordReceived led txid sats index).Within (Op.booksAmong led known) := by
  refine within_recordReceived trivial fun seq => ⟨rfl, fun index' booked => ?_⟩
  cases booked
  exact ⟨rfl, issued⟩

theorem within_pollIndex_among {led : Handle} {known : List ℕ} {index : ℕ} (issued : index ∈ known) :
    (pollIndex host led index).Within (Op.booksAmong led known) := by
  unfold pollIndex
  split
  · trivial
  refine within_bind (within_attempt ⟨trivial, fun _ => within_ofExcept⟩) fun answer => ?_
  cases answer with
  | error error => trivial
  | ok deposits =>
      exact within_forEach fun d _ =>
        within_bind (within_attempt (within_recordReceived_among issued)) fun _ => trivial

/-- The variables of a session: an address is kept only with its index, and that index is
one the instance issued. -/
def Kept (known : List ℕ) (issuedIndex : Option ℕ) (issuedAddress : Option String) : Prop :=
  issuedAddress.isSome → issuedIndex.getD 0 ∈ known

theorem within_handleNotify_among {led : Handle} {known : List ℕ} {issuedIndex : Option ℕ}
    {issuedAddress : Option String} {txid : String} {claimed : ℕ}
    (kept : Kept known issuedIndex issuedAddress) :
    (handleNotify led issuedIndex issuedAddress txid claimed).Within (Op.booksAmong led known) := by
  unfold handleNotify
  cases issuedAddress with
  | none => trivial
  | some address =>
      refine within_bind (within_attempt ⟨trivial, fun _ => within_ofExcept⟩) fun answer => ?_
      cases answer with
      | error error => trivial
      | ok deposits =>
          dsimp only
          split
          · trivial
          refine within_bind (within_recordReceived_among (kept rfl)) fun _ => ?_
          exact within_bind (within_attempt (within_reconcile_quiet.mono booksAmong_of_quiet))
            fun _ => trivial

/-- Reading the instance tells which indexes it issued. -/
theorem wp_readIssued {α : Type} {f : List Entry → Prog α} {led : Handle} {known : List ℕ}
    {Q : Except Error α → Shared × (ℕ → Shared) → Prop} {σ : Shared × (ℕ → Shared)}
    (serving : Serving sound led known σ)
    (read : ∀ es σ', Serving sound led known σ' → issuedIndexes es = known →
      wp (amidst host assume) (Orders sound).alone Q (f es) σ') :
    wp (amidst host assume) (Orders sound).alone Q (Ledger.entries led >>= f) σ := by
  obtain ⟨s, later⟩ := σ
  refine wp_bind.2 fun es allowed => ⟨trivial, bindPost_ok.2 ?_⟩
  obtain rfl : es = s.world.mem led := allowed.1.1.1
  exact read _ _ (serving.beside allowed.2) serving.view

theorem wp_pollIssued_among {led : Handle} {known : List ℕ} {σ : Shared × (ℕ → Shared)}
    (serving : Serving sound led known σ) :
    wp (amidst host assume) (Orders sound).alone (fun _ σ' => Serving sound led known σ')
      (pollIssued host led) σ := by
  refine wp_readIssued serving fun es σ' serving' same => ?_
  refine wp_booksAmong (within_forEach fun index member => within_pollIndex_among ?_) serving'
  rw [← same]
  exact mem_issuedIndexes.2 (Ledger.mem_issuedUnpaid.1 member).1

theorem wp_chainWatch_among {led : Handle} {known : List ℕ} {pages : ℕ}
    {σ : Shared × (ℕ → Shared)} (serving : Serving sound led known σ) :
    wp (amidst host assume) (Orders sound).alone (fun _ σ' => Serving sound led known σ')
      (chainWatch host led pages) σ := by
  refine wp_bind.2 (wp_mono (wp_quiet (within_attempt within_reconcile_quiet) serving) ?_)
  rintro (error | outcome) σ₁ serving₁
  · exact serving₁
  refine wp_bind.2 (wp_mono (wp_pollIssued_among serving₁) ?_)
  rintro (error | ⟨⟩) σ₂ serving₂
  · exact serving₂
  exact wp_quiet (within_bind (within_attempt (within_scanFresh_quiet pages)) fun _ => trivial)
    serving₂

/-! ## Issuing -/

/-- Issuing an index on the daemon's instance. -/
theorem Serving.issue {led : Handle} {known : List ℕ} {s : Shared} {later : ℕ → Shared} {e : Entry}
    {index : ℕ} (serving : Serving sound led known (s, later)) (is : e.issuedIndex? = some index) :
    Serving sound led (known ++ [index]) (⟨s.world.appended led e, s.holder⟩, later) where
  isOpen := serving.isOpen
  view := by
    show issuedIndexes (Function.update s.world.mem led (s.world.mem led ++ [e]) led) = _
    rw [Function.update_self, issuedIndexes_append, serving.view, is, Option.toList_some]
  synced isSound i member := by
    have grown : i ∈ issuedIndexes (s.world.ledger ++ [e]) := member
    rw [issuedIndexes_append, is, Option.toList_some] at grown
    apply List.mem_append.2
    exact (List.mem_append.1 grown).imp_left (serving.synced isSound i)

/-- A failed append leaves the instance; if its line is on file, the run was not `sound`. -/
theorem Serving.failed {led led' : Handle} {known : List ℕ} {s : Shared} {later : ℕ → Shared}
    {e : Entry} {error : Error} (serving : Serving sound led known (s, later))
    (unsound : ¬ sound) :
    Serving sound led known (⟨s.world.after (.append led' e) (.kept error), s.holder⟩, later) :=
  ⟨serving.isOpen, serving.view, fun isSound => absurd isSound unsound⟩

theorem wp_runReceiver_among (adequate : Adequate assume sound first) {led : Handle}
    {closed : Except Error Unit} {inbox : List Message} {nextIndex : ℕ} {issuedIndex : Option ℕ}
    {issuedAddress : Option String} {known : List ℕ} {σ : Shared × (ℕ → Shared)}
    (serving : Serving sound led known σ) (above : ∀ index ∈ known, index < nextIndex)
    (kept : Kept known issuedIndex issuedAddress) :
    wp (amidst host assume) (Orders sound).alone (fun _ σ' => ∃ known', Serving sound led known' σ')
      (runReceiver host led closed inbox nextIndex issuedIndex issuedAddress) σ := by
  induction inbox generalizing nextIndex issuedIndex issuedAddress known σ with
  | nil => exact wp_ofExcept.2 ⟨known, serving⟩
  | cons message inbox ih =>
      cases message with
      | addrRequest sats =>
          unfold runReceiver
          simp only [receiverHandle]
          rcases own : host.walletAddress nextIndex with error | address
          · exact ⟨known, serving⟩
          refine wp_readIssued serving ?_
          rintro es ⟨s, later⟩ serving -
          generalize line : Entry.addressIssued (Ledger.nextSeq es) nextIndex = e
          have is : e.issuedIndex? = some nextIndex := by rw [← line]; rfl
          have books : e.receivedIndex? = none := by rw [← line]; rfl
          refine wp_bind.2 fun answer allowed => ⟨⟨fun index issued isSound onFile => ?_, ?_⟩, ?_⟩
          · rw [is] at issued
            cases issued
            exact Nat.lt_irrefl _ (above _ (serving.synced isSound _ onFile))
          · intro index booked
            rw [books] at booked
            cases booked
          have moved := allowed.2
          cases answer with
          | lost error => exact ⟨known, serving.beside moved⟩
          | kept error =>
              refine ⟨known, (serving.failed fun isSound => ?_).beside moved⟩
              have silent := adequate.intact s led e error allowed.1.2 isSound
              rw [is] at silent
              cases silent
          | ok =>
              have issued : Serving sound led (known ++ [nextIndex])
                  (later 0, fun n => later (n + 1)) := (serving.issue is).beside moved
              refine wp_bind.2 (wp_mono (wp_quiet ⟨trivial, fun _ => within_ofExcept⟩ issued) ?_)
              rintro (error | ⟨⟩) σ₁ serving₁
              · exact ⟨_, serving₁⟩
              refine ih serving₁ (fun index member => ?_) fun _ => ?_
              · rcases List.mem_append.1 member with old | new
                · exact Nat.lt_succ_of_lt (above index old)
                · rw [List.mem_singleton.1 new]
                  exact Nat.lt_succ_self _
              · exact List.mem_append_right _ (List.mem_singleton_self _)
      | notify txid claimed =>
          refine wp_mono (wp_booksAmong (within_handleNotify_among kept) serving) ?_
          exact fun _ _ serving' => ⟨known, serving'⟩
      | chat text => exact ih serving above kept
      | addrResponse address index => exact ih serving above kept

theorem wp_duty (adequate : Adequate assume sound first) {led : Handle} {known : List ℕ}
    {σ : Shared × (ℕ → Shared)} (serving : Serving sound led known σ) (duty : Duty) :
    wp (amidst host assume) (Orders sound).alone (fun _ σ' => ∃ known', Serving sound led known' σ')
      (duty.perform host led) σ := by
  cases duty with
  | watch pages =>
      exact wp_mono (wp_chainWatch_among serving) fun _ _ serving' => ⟨known, serving'⟩
  | session inbox closed =>
      refine wp_readIssued serving fun es σ' serving' same => ?_
      refine wp_bind.2 (wp_attempt.2 (wp_mono (wp_runReceiver_among adequate serving' ?_ nofun) ?_))
      · intro index member
        rw [← same] at member
        exact lt_nextAddressIndex (mem_issuedIndexes.1 member)
      · exact fun _ _ serving'' => serving''

theorem wp_serve_among (adequate : Adequate assume sound first) (duties : List Duty)
    (σ : Shared × (ℕ → Shared)) :
    wp (amidst host assume) (Orders sound).alone (fun _ _ => True) (serve host duties) σ := by
  obtain ⟨s, later⟩ := σ
  refine wp_bind.2 ?_
  rintro (error | led) allowed
  · exact ⟨trivial, trivial⟩
  obtain rfl : led = s.world.fresh := allowed.1.1.1
  refine ⟨trivial, bindPost_ok.2 ?_⟩
  have opened : Serving sound s.world.fresh (issuedIndexes s.world.ledger)
      (⟨s.world.load s.world.fresh, s.holder⟩, later) :=
    ⟨Nat.lt_succ_self _, congrArg issuedIndexes s.world.load_mem, fun _ _ member => member⟩
  refine wp_forEach (J := fun σ => ∃ known, Serving sound s.world.fresh known σ)
    ⟨_, opened.beside allowed.2⟩ (fun duty _ σ ⟨known, serving⟩ => ?_) fun _ _ => trivial
  refine wp_mono (wp_duty adequate serving duty) ?_
  rintro (error | ⟨⟩) σ' serving'
  · trivial
  · exact serving'

/-! ## Runs -/

/-- One life of the system: the daemon with its duties, and the callers. -/
def system (host : Host) (duties : List Duty) (callers : List Caller) : Pool sig Error Unit :=
  serve host duties :: callers.map fun caller => caller.program host

/-- What a restart finds. -/
def reopened (s : Shared) : Shared := ⟨s.world.crash, none⟩

/-- The states that sessions, ticks and scans reach, in any interleaving and over any
number of restarts, each call of which satisfies `assume`. -/
inductive Mixed (host : Host) (assume : Guarantee sig Shared) : Shared → Prop
  | blank : Mixed host assume ⟨.blank, none⟩
  | life {s s' : Shared} (duties : List Duty) (callers : List Caller)
      (before : Mixed host assume s)
      (reaches : Pool.Reaches (fun i => (reading host i).restrict assume)
        (system host duties callers) (reopened s) s') : Mixed host assume s'

theorem books_blank : Books first ⟨.blank, none⟩ := by
  have empty : ∀ entries, LedgerOf ⟨.blank, none⟩ entries → entries = [] := by
    intro entries is
    rcases is with file | ⟨led, isOpen, -⟩
    · exact file
    · exact absurd isOpen (Nat.not_lt_zero led)
  constructor <;> intro entries is <;> rw [empty entries is]
  · exact orderly_nil first
  · nofun
  · nofun

theorem Books.reopened {s : Shared} (books : Books first s) : Books first (reopened s) := by
  have ledgers : ∀ entries, LedgerOf (Collections.reopened s) entries →
      entries = [] ∨ LedgerOf s entries := by
    intro entries is
    rcases is with file | ⟨led, -, view⟩
    · exact .inr (.inl file)
    · exact .inl view
  constructor <;> intro entries is <;> rcases ledgers entries is with rfl | old
  · exact orderly_nil first
  · exact books.orderly entries old
  · nofun
  · exact books.issued entries old
  · nofun
  · exact books.received entries old

theorem safe_system (adequate : Adequate assume sound first) (duties : List Duty)
    (callers : List Caller) (s : Shared) (i : ℕ) (p : Prog Unit)
    (at_ : (system host duties callers)[i]? = some p) :
    Pool.Safe (fun i => (reading host i).restrict assume) Relies (Promises sound) i p s := by
  cases i with
  | zero =>
      cases at_
      exact fun s' later _ => wp_serve_among adequate duties (s', later)
  | succ i =>
      rw [system, List.getElem?_cons_succ, List.getElem?_map] at at_
      obtain ⟨caller, -, rfl⟩ := Option.map_eq_some_iff.1 at_
      intro s' later _
      exact wp_unguarded ((within_caller caller).mono fun op quiet _ _ => quiet)

/-- A caller promises more than the daemon. -/
theorem orders_of_promises {i : ℕ} {s : Shared} {op : Op} {answer : op.Ans}
    (promised : Promises sound i s op answer) : Orders sound s op answer := by
  cases i with
  | zero => exact promised
  | succ i =>
      cases op with
      | append led e =>
          obtain ⟨silent, bookless⟩ := promised
          refine ⟨fun index issued => ?_, fun index booked => ?_⟩
          · rw [silent] at issued
            cases issued
          · rw [bookless] at booked
            cases booked
      | _ => trivial

/-- **Every ledger of every run is in order.** -/
theorem mixed_books (adequate : Adequate assume sound first) {s : Shared}
    (reached : Mixed host assume s) : Books first s := by
  induction reached with
  | blank => exact books_blank
  | @life s s' duties callers _ reaches ih =>
      refine Pool.invariant relies_refl relies_trans ih.reopened
        (safe_system adequate duties callers _) ?_ ?_ reaches
      · intro i s op answer allowed promised books
        exact keeps_books adequate i s op answer allowed (orders_of_promises promised) books
      · intro i j s op answer different _ allowed promised
        cases j with
        | succ j => trivial
        | zero =>
            cases i with
            | zero => exact absurd rfl different
            | succ i =>
                refine beside_next ?_ allowed
                rintro led e rfl
                exact promised.1

end Runs

/-- Every line that lands on file issues an index the file lacks, books a deposit under an
index without a receipt on file, or does neither. -/
def OnceEach : Guarantee sig Shared
  | _, .append _ _, .lost _ => True
  | s, .append _ e, _ =>
      (∀ index, e.issuedIndex? = some index → index ∉ issuedIndexes s.world.ledger) ∧
        ∀ index, e.receivedIndex? = some index → index ∉ receivedIndexes s.world.ledger
  | _, _, _ => True

/-- No failed append of an issued address has left its line. -/
def LinesIntact : Guarantee sig Shared
  | _, .append _ e, .kept _ => e.issuedIndex? = none
  | _, _, _ => True

theorem onceEach_adequate : Adequate OnceEach False True where
  intact _ _ _ _ _ isSound := isSound.elim
  issues _ _ _ answer lands assumed _ := by
    cases answer with
    | lost error => exact absurd rfl (lands error)
    | _ => exact assumed.1
  books _ _ _ answer lands assumed _ := by
    cases answer with
    | lost error => exact absurd rfl (lands error)
    | _ => exact assumed.2

theorem linesIntact_adequate : Adequate LinesIntact True False where
  intact _ _ _ _ assumed _ := assumed
  issues _ _ _ _ _ _ unsound := absurd trivial unsound
  books _ _ _ _ _ _ isFirst := isFirst.elim

end Collections

open Collections

/-- **Every receipt is reported once, unless an index has two.**  In every run of the
daemon among scanning callers: as long as each index is issued once and has one deposit
booked, every ledger, on file or open, is reported in full; and as long as no failed append
of an issued address has left its line, each index is issued once, and a ledger is reported
in full exactly when no two of its receipts share an index. -/
theorem collections_report_once (host : Host) :
    (∀ s entries, Mixed host OnceEach s → LedgerOf s entries → Reported entries) ∧
    ∀ s entries, Mixed host LinesIntact s → LedgerOf s entries →
      (issuedIndexes entries).Nodup ∧ (Reported entries ↔ (receivedIndexes entries).Nodup) := by
  constructor
  · intro s entries reached is
    have orderly := (mixed_books onceEach_adequate reached).orderly entries is
    exact (reported_iff orderly.issuedOnce orderly.issued).2 (orderly.receivedOnce trivial)
  · intro s entries reached is
    have orderly := (mixed_books linesIntact_adequate reached).orderly entries is
    exact ⟨orderly.issuedOnce, reported_iff orderly.issuedOnce orderly.issued⟩

/-! ## One deposit, and two -/

namespace Collections

/-- The chain shows these deposits to every address. -/
def depositsShown (deposits : List Deposit) : Script :=
  { Script.silent with deposits := fun _ => .ok deposits }

def shownHandle (deposits : List Deposit) (i : ℕ) (op : Op) (s : Shared) : op.Ans × Shared :=
  ((depositsShown deposits).answer sellerHost s.world op,
    (reading sellerHost i).next s op ((depositsShown deposits).answer sellerHost s.world op))

/-- The lock is free, and the line is the first of its index. -/
def lockFreeOnce (i : ℕ) (op : Op) (s : Shared) : Bool :=
  lockFree i op s && match op with
    | .append _ e => e.issuedIndex?.all (· ∉ issuedIndexes s.world.ledger) &&
        e.receivedIndex?.all (· ∉ receivedIndexes s.world.ledger)
    | _ => true

theorem shown_allowed (deposits : List Deposit) (i : ℕ) (op : Op) (s : Shared)
    (free : lockFree i op s) :
    (reading sellerHost i).allowed s op (shownHandle deposits i op s).1 := by
  refine ⟨Script.allowed sellerHost (depositsShown deposits) s.world op, ?_⟩
  cases op with
  | scanLock led =>
      have unlocked : s.world.scanLocked = false := by simpa [lockFree] using free
      exact unlocked
  | _ => trivial

theorem shown_intact (deposits : List Deposit) (i : ℕ) (op : Op) (s : Shared)
    (free : lockFree i op s) :
    ((reading sellerHost i).restrict LinesIntact).allowed s op (shownHandle deposits i op s).1 := by
  refine ⟨shown_allowed deposits i op s free, ?_⟩
  cases op <;> trivial

theorem shown_onceEach (deposits : List Deposit) (i : ℕ) (op : Op) (s : Shared)
    (once : lockFreeOnce i op s) :
    ((reading sellerHost i).restrict OnceEach).allowed s op (shownHandle deposits i op s).1 := by
  obtain ⟨free, fits⟩ := Bool.and_eq_true_iff.1 once
  refine ⟨shown_allowed deposits i op s free, ?_⟩
  cases op with
  | append led e =>
      obtain ⟨issues, books⟩ := Bool.and_eq_true_iff.1 fits
      refine ⟨fun index issued => ?_, fun index booked => ?_⟩
      · simpa [issued] using issues
      · simpa [booked] using books
  | _ => trivial

/-- A session issues index 0, and a tick polls it. -/
def issueAndPoll : List Duty := [.session [.addrRequest 1000] (.ok ()), .watch 1]

/-- The report is asked for between the two. -/
def reportBetween : List ℕ := List.replicate 5 0 ++ List.replicate 8 1 ++ List.replicate 20 0

def oneDeposit : List Deposit := [⟨sampleTxid, 1000, 1⟩]

def twoDeposits : List Deposit :=
  [⟨sampleTxid, 1000, 1⟩,
    ⟨"f4184fc596403b9d638783cf57adfe4c75c605f6356fbc91338530e9831e9e16", 2500, 0⟩]

end Collections

/-- With one deposit the report is complete. -/
theorem collections_report_once_paid :
    (Pool.drive lockFreeOnce (shownHandle oneDeposit) reportBetween
        (system sellerHost issueAndPoll [.collectionsReport 1])
        (reopened ⟨.blank, none⟩)).2.world.ledger =
      [.addressIssued 0 0, .received 1 sampleTxid 1000 0 .pending] ∧
    Reported (Pool.drive lockFreeOnce (shownHandle oneDeposit) reportBetween
        (system sellerHost issueAndPoll [.collectionsReport 1])
        (reopened ⟨.blank, none⟩)).2.world.ledger := by
  refine ⟨by decide +kernel, ?_⟩
  exact (collections_report_once sellerHost).1 _ _
    (.life issueAndPoll [.collectionsReport 1] .blank
      (Pool.drive_reaches lockFreeOnce (shownHandle oneDeposit) (shown_onceEach oneDeposit)
        (fun _ _ _ => rfl) reportBetween _ _)) (.inl rfl)

/-- With two deposits shown by one poll, the second is in no row: 1000 sats are reported
of 3500. -/
theorem second_deposit_unreported :
    ∃ s, Mixed sellerHost LinesIntact s ∧ ¬ Reported s.world.ledger := by
  refine ⟨_, .life issueAndPoll [.collectionsReport 1] .blank
    (Pool.drive_reaches lockFree (shownHandle twoDeposits) (shown_intact twoDeposits)
      (fun _ _ _ => rfl) reportBetween _ _), fun reported => absurd reported.total ?_⟩
  decide +kernel

end ComputerMoney.Safety

/-
# Kernel.Ledger -- the append-only log and the folds over it

The ledger is one list of entries; balance, the next receive index, the work queue and
the spend window are folds over it, and there is no other state to drift out of step
with them.  A fold here is the method of the same name over the instance's in-memory
entries; the file behind an instance is `Kernel.Host`'s business.

Amounts, indexes and times are natural numbers.  Where the release build's 64-bit
addition can wrap and a result depends on it (the spend window), the wrap is written
out (`u64Add`).
-/
import Mathlib.Algebra.GroupWithZero.Nat
import Mathlib.Data.List.Basic
import Mathlib.Data.List.Induction

namespace ComputerMoney.Kernel

set_option autoImplicit false

/-- Confirmation stage.  `failed` is off the ladder: no count maps to it. -/
inductive Status where
  | pending
  | soft
  | final
  | failed
  deriving DecidableEq, Repr

def Status.fromConfirmations : ℕ → Status
  | 0 => .pending
  | 1 | 2 => .soft
  | _ => .final

/-- One economic fact. -/
inductive Entry where
  | addressIssued (seq index : ℕ)
  | sent (seq : ℕ) (txid : String) (sats : ℕ) (payee : String) (status : Status) (sentAt : ℕ)
  | received (seq : ℕ) (txid : String) (sats index : ℕ) (status : Status)
  | statusUpdate (seq : ℕ) (txid : String) (status : Status)
  | spReceived (seq : ℕ) (txid : String) (vout sats : ℕ) (tweak : String) (status : Status)
  | spSpent (seq : ℕ) (txid : String) (vout : ℕ)
  deriving DecidableEq, Repr

namespace Entry

def seq : Entry → ℕ
  | .addressIssued seq _ | .sent seq _ _ _ _ _ | .received seq _ _ _ _
  | .statusUpdate seq _ _ | .spReceived seq _ _ _ _ _ | .spSpent seq _ _ => seq

/-- The txid of a payment in or out: what the dedup and the work queue are keyed by. -/
def paymentTxid? : Entry → Option String
  | .sent _ txid _ _ _ _ | .received _ txid _ _ _ | .spReceived _ txid _ _ _ _ => some txid
  | _ => none

/-- The status an entry assigns, with the txid it assigns it to. -/
def status? : Entry → Option (String × Status)
  | .sent _ txid _ _ status _ | .received _ txid _ _ status
  | .spReceived _ txid _ _ _ status | .statusUpdate _ txid status => some (txid, status)
  | _ => none

def sentTxid? : Entry → Option String
  | .sent _ txid _ _ _ _ => some txid
  | _ => none

/-- Amount and time of a send. -/
def sentSats? : Entry → Option (ℕ × ℕ)
  | .sent _ _ sats _ _ sentAt => some (sats, sentAt)
  | _ => none

def issuedIndex? : Entry → Option ℕ
  | .addressIssued _ index => some index
  | _ => none

def receivedIndex? : Entry → Option ℕ
  | .received _ _ _ index _ => some index
  | _ => none

def receivedTxid? : Entry → Option String
  | .received _ txid _ _ _ => some txid
  | _ => none

def spOutpoint? : Entry → Option (String × ℕ)
  | .spReceived _ txid vout _ _ _ => some (txid, vout)
  | _ => none

def spSpent? : Entry → Option (String × ℕ)
  | .spSpent _ txid vout => some (txid, vout)
  | _ => none

end Entry

/-- Addition as the release build performs it on `u64`. -/
def u64Add (a b : ℕ) : ℕ := (a + b) % 2 ^ 64

/-- `Iterator::sum` on `u64` in the release build. -/
def u64Sum (xs : List ℕ) : ℕ := xs.foldl u64Add 0

theorem foldl_u64Add (xs : List ℕ) (a : ℕ) : xs.foldl u64Add a % 2 ^ 64 = (a + xs.sum) % 2 ^ 64 := by
  induction xs generalizing a with
  | nil => simp
  | cons x xs ih =>
      rw [List.foldl_cons, ih, List.sum_cons, u64Add, Nat.mod_add_mod]
      congr 1
      omega

theorem u64Sum_eq_mod (xs : List ℕ) : u64Sum xs = xs.sum % 2 ^ 64 := by
  have bound : u64Sum xs < 2 ^ 64 := by
    rcases xs.eq_nil_or_concat with rfl | ⟨front, last, rfl⟩
    · decide
    · rw [u64Sum, List.concat_eq_append, List.foldl_append]
      exact Nat.mod_lt _ (by decide)
  have same := foldl_u64Add xs 0
  rw [Nat.zero_add] at same
  rw [← same, ← Nat.mod_eq_of_lt bound]
  rfl

theorem u64Sum_eq_of_lt {xs : List ℕ} (small : xs.sum < 2 ^ 64) : u64Sum xs = xs.sum := by
  rw [u64Sum_eq_mod, Nat.mod_eq_of_lt small]

namespace Ledger

def nextSeq (entries : List Entry) : ℕ :=
  match entries.getLast? with
  | some e => e.seq + 1
  | none => 0

/-- Highest issued index plus one. -/
def nextAddressIndex (entries : List Entry) : ℕ :=
  ((entries.filterMap Entry.issuedIndex?).map (· + 1)).foldl max 0

/-- Issued indexes with no `received` yet: the addresses the seller polls. -/
def issuedUnpaid (entries : List Entry) : List ℕ :=
  (entries.filterMap Entry.issuedIndex?).filter
    fun index => index ∉ entries.filterMap Entry.receivedIndex?

/-- Whether a payment in or out already references `txid`. -/
def hasTxid (entries : List Entry) (txid : String) : Bool :=
  entries.any fun e => e.paymentTxid? = some txid

/-- Whether the silent-payment outpoint is already booked. -/
def hasSpOutput (entries : List Entry) (txid : String) (vout : ℕ) : Bool :=
  entries.any fun e => e.spOutpoint? = some (txid, vout)

def isSpSpent (entries : List Entry) (txid : String) (vout : ℕ) : Bool :=
  entries.any fun e => e.spSpent? = some (txid, vout)

/-- The last status any entry assigns to `txid`. -/
def latestStatus (entries : List Entry) (txid : String) : Option Status :=
  entries.foldl (fun latest e => match e.status? with
    | some (t, status) => if t = txid then some status else latest
    | none => latest) none

/-- An unspent silent-payment output. -/
structure SpUtxo where
  txid : String
  vout : ℕ
  sats : ℕ
  tweak : String
  deriving DecidableEq, Repr

/-- Final, unspent silent-payment outputs: the spend candidates. -/
def spUtxos (entries : List Entry) : List SpUtxo :=
  entries.filterMap fun e => match e with
    | .spReceived _ txid vout sats tweak _ =>
        if latestStatus entries txid = some .final ∧ isSpSpent entries txid vout = false then
          some ⟨txid, vout, sats, tweak⟩
        else none
    | _ => none

/-- Spendable silent-payment balance: a fold of its own. -/
def spBalance (entries : List Entry) : ℕ :=
  u64Sum (entries.filterMap fun e => match e with
    | .spReceived _ txid vout sats _ _ =>
        if latestStatus entries txid = some .final ∧ isSpSpent entries txid vout = false then
          some sats
        else none
    | _ => none)

/-- Silent-payment income seen but not yet final. -/
def spIncoming (entries : List Entry) : ℕ :=
  u64Sum (entries.filterMap fun e => match e with
    | .spReceived _ txid vout sats _ _ =>
        if latestStatus entries txid ≠ some .final ∧ isSpSpent entries txid vout = false then
          some sats
        else none
    | _ => none)

/-- A row of the receive report: an issued index, or a silent-payment output. -/
structure Collection where
  index : ℕ
  txid : Option String
  sats : ℕ
  sp : Bool
  deriving DecidableEq, Repr

/-- The first receipt booked for `index`. -/
def receiptFor (entries : List Entry) (index : ℕ) : Option (String × ℕ) :=
  entries.findSome? fun e => match e with
    | .received _ txid sats i _ => if i = index then some (txid, sats) else none
    | _ => none

/-- One row for each issued index, then one for each silent-payment receipt. -/
def collections (entries : List Entry) : List Collection :=
  (entries.filterMap fun e => match e with
    | .addressIssued _ index => match receiptFor entries index with
        | some (txid, sats) => some ⟨index, some txid, sats, false⟩
        | none => some ⟨index, none, 0, false⟩
    | _ => none) ++
  entries.filterMap fun e => match e with
    | .spReceived _ txid vout sats _ _ => some ⟨vout, some txid, sats, true⟩
    | _ => none

/-- The work queue from `rest` on, skipping the txids already `seen`. -/
def pendingFrom (entries : List Entry) : List String → List Entry → List String
  | _, [] => []
  | seen, e :: rest =>
      match e.paymentTxid? with
      | none => pendingFrom entries seen rest
      | some txid =>
          if txid ∉ seen ∧ latestStatus entries txid ≠ some .final ∧
              latestStatus entries txid ≠ some .failed then
            txid :: pendingFrom entries (txid :: seen) rest
          else pendingFrom entries (txid :: seen) rest

/-- The work queue: every payment's txid whose effective status is not terminal, once. -/
def pending (entries : List Entry) : List String := pendingFrom entries [] entries

/-- An integer as the release build keeps it in an `i64`. -/
def i64 (x : Int) : Int := x.bmod (2 ^ 64)

/-- One entry's part in the balance: a final receipt is credited, a send that has not
failed is debited. -/
def balanceStep (entries : List Entry) (bal : Int) : Entry → Int
  | .received _ txid sats _ _ =>
      if latestStatus entries txid = some .final then i64 (bal + i64 sats) else bal
  | .sent _ txid sats _ _ _ =>
      if latestStatus entries txid ≠ some .failed then i64 (bal - i64 sats) else bal
  | _ => bal

/-- Spendable balance of the addresses, never below zero. -/
def balance (entries : List Entry) : ℕ := (max 0 (entries.foldl (balanceStep entries) 0)).toNat

/-- Total sent at or after `cutoff`. -/
def spentSince (entries : List Entry) (cutoff : ℕ) : ℕ :=
  u64Sum ((entries.filterMap Entry.sentSats?).filterMap
    fun send => if cutoff ≤ send.2 then some send.1 else none)

/-! ## What the folds say about membership -/

theorem hasTxid_iff {entries : List Entry} {txid : String} :
    hasTxid entries txid = true ↔ ∃ e ∈ entries, e.paymentTxid? = some txid := by
  simp [hasTxid]

theorem hasSpOutput_iff {entries : List Entry} {txid : String} {vout : ℕ} :
    hasSpOutput entries txid vout = true ↔ ∃ e ∈ entries, e.spOutpoint? = some (txid, vout) := by
  simp [hasSpOutput]

/-- The latest status after one more entry. -/
theorem latestStatus_append (entries : List Entry) (e : Entry) (txid : String) :
    latestStatus (entries ++ [e]) txid =
      match e.status? with
      | some (t, status) => if t = txid then some status else latestStatus entries txid
      | none => latestStatus entries txid := by
  rw [latestStatus, List.foldl_append]
  rfl

/-- An entry about another payment, or about none, leaves the status. -/
theorem latestStatus_append_other {entries : List Entry} {e : Entry} {txid : String}
    (other : ∀ status, e.status? ≠ some (txid, status)) :
    latestStatus (entries ++ [e]) txid = latestStatus entries txid := by
  rw [latestStatus_append]
  rcases assigns : e.status? with _ | ⟨t, status⟩
  · rfl
  · have different : t ≠ txid := fun same => other status (same ▸ assigns)
    simp only [if_neg different]

theorem latestStatus_append_self {entries : List Entry} {e : Entry} {txid : String} {status : Status}
    (assigns : e.status? = some (txid, status)) :
    latestStatus (entries ++ [e]) txid = some status := by
  rw [latestStatus_append, assigns]
  exact if_pos rfl

/-- A status was assigned by some entry. -/
theorem exists_of_latestStatus {entries : List Entry} {txid : String} {status : Status}
    (latest : latestStatus entries txid = some status) :
    ∃ e ∈ entries, e.status? = some (txid, status) := by
  induction entries using List.reverseRecOn with
  | nil => cases latest
  | append_singleton entries e ih =>
      by_cases mine : ∃ s, e.status? = some (txid, s)
      · obtain ⟨s, assigns⟩ := mine
        rw [latestStatus_append_self assigns] at latest
        cases latest
        exact ⟨e, List.mem_append_right _ (List.mem_singleton_self _), assigns⟩
      · rw [latestStatus_append_other fun s assigns => mine ⟨s, assigns⟩] at latest
        obtain ⟨e', member, assigns⟩ := ih latest
        exact ⟨e', List.mem_append_left _ member, assigns⟩

/-- Whatever was assigned a status has one. -/
theorem latestStatus_ne_none {entries : List Entry} {txid : String} {status : Status} {e : Entry}
    (member : e ∈ entries) (assigns : e.status? = some (txid, status)) :
    latestStatus entries txid ≠ none := by
  induction entries using List.reverseRecOn with
  | nil => cases member
  | append_singleton entries last ih =>
      rcases List.mem_append.1 member with before | new
      · rw [latestStatus_append]
        split
        · split
          · exact nofun
          · exact ih before
        · exact ih before
      · obtain rfl := List.mem_singleton.1 new
        rw [latestStatus_append_self assigns]
        exact nofun

theorem mem_pendingFrom {entries : List Entry} {txid : String} :
    ∀ {rest : List Entry} {seen : List String}, txid ∈ pendingFrom entries seen rest →
      (∃ e ∈ rest, e.paymentTxid? = some txid) ∧ latestStatus entries txid ≠ some .final ∧
        latestStatus entries txid ≠ some .failed
  | [], _, member => by simp [pendingFrom] at member
  | e :: rest, seen, member => by
      simp only [pendingFrom] at member
      split at member
      · obtain ⟨⟨x, inRest, is⟩, open_⟩ := mem_pendingFrom member
        exact ⟨⟨x, List.mem_cons_of_mem _ inRest, is⟩, open_⟩
      · rename_i t is
        split at member
        · rename_i open_
          rcases List.mem_cons.1 member with rfl | later
          · exact ⟨⟨e, List.mem_cons_self .., is⟩, open_.2⟩
          · obtain ⟨⟨x, inRest, is'⟩, open'⟩ := mem_pendingFrom later
            exact ⟨⟨x, List.mem_cons_of_mem _ inRest, is'⟩, open'⟩
        · obtain ⟨⟨x, inRest, is'⟩, open'⟩ := mem_pendingFrom member
          exact ⟨⟨x, List.mem_cons_of_mem _ inRest, is'⟩, open'⟩

/-- Everything on the work queue is the txid of a recorded payment. -/
theorem mem_pending {entries : List Entry} {txid : String} (member : txid ∈ pending entries) :
    ∃ e ∈ entries, e.paymentTxid? = some txid :=
  (mem_pendingFrom member).1

theorem mem_pendingFrom_of {entries : List Entry} {txid : String}
    (notFinal : latestStatus entries txid ≠ some .final)
    (notFailed : latestStatus entries txid ≠ some .failed) :
    ∀ {rest : List Entry} {seen : List String}, (∃ e ∈ rest, e.paymentTxid? = some txid) →
      txid ∉ seen → txid ∈ pendingFrom entries seen rest
  | [], _, recorded, _ => by
      obtain ⟨e, member, -⟩ := recorded
      cases member
  | e :: rest, seen, recorded, unseen => by
      obtain ⟨e', member, is⟩ := recorded
      have later : e' ≠ e → ∀ seen', txid ∉ seen' → txid ∈ pendingFrom entries seen' rest := by
        intro other seen' unseen'
        refine mem_pendingFrom_of notFinal notFailed ⟨e', ?_, is⟩ unseen'
        exact (List.mem_cons.1 member).resolve_left other
      simp only [pendingFrom]
      split
      · rename_i none
        refine later ?_ seen unseen
        rintro rfl
        rw [is] at none
        cases none
      · rename_i t is'
        by_cases same : t = txid
        · subst same
          rw [if_pos ⟨unseen, notFinal, notFailed⟩]
          exact List.mem_cons_self ..
        · have other : e' ≠ e := by
            rintro rfl
            rw [is] at is'
            exact same (Option.some.inj is').symm
          have unseen' : txid ∉ t :: seen := by
            rw [List.mem_cons, not_or]
            exact ⟨Ne.symm same, unseen⟩
          split
          · exact List.mem_cons_of_mem _ (later other _ unseen')
          · exact later other _ unseen'

/-- **The work queue is what is on record and not over.** -/
theorem mem_pending_iff {entries : List Entry} {txid : String} : txid ∈ pending entries ↔
    hasTxid entries txid = true ∧ latestStatus entries txid ≠ some .final ∧
      latestStatus entries txid ≠ some .failed := by
  rw [hasTxid_iff]
  refine ⟨mem_pendingFrom, ?_⟩
  rintro ⟨recorded, notFinal, notFailed⟩
  exact mem_pendingFrom_of notFinal notFailed recorded List.not_mem_nil

/-- The queue has each txid once, and none that was seen before. -/
theorem nodup_pendingFrom (entries rest : List Entry) (seen : List String) :
    (pendingFrom entries seen rest).Nodup ∧ ∀ txid ∈ pendingFrom entries seen rest, txid ∉ seen := by
  induction rest generalizing seen with
  | nil => exact ⟨List.nodup_nil, nofun⟩
  | cons e rest ih =>
      unfold pendingFrom
      split
      · exact ih seen
      rename_i txid is
      obtain ⟨once, unseen⟩ := ih (txid :: seen)
      have later : ∀ t ∈ pendingFrom entries (txid :: seen) rest, t ≠ txid ∧ t ∉ seen := by
        intro t member
        have fresh := unseen t member
        rw [List.mem_cons, not_or] at fresh
        exact fresh
      split
      · rename_i open_
        refine ⟨List.nodup_cons.2 ⟨fun again => (later txid again).1 rfl, once⟩, ?_⟩
        intro t member
        rcases List.mem_cons.1 member with rfl | rest
        · exact open_.1
        · exact (later t rest).2
      · exact ⟨once, fun t member => (later t member).2⟩

theorem nodup_pending (entries : List Entry) : (pending entries).Nodup :=
  (nodup_pendingFrom entries entries []).1

/-- The balance is the sum of what can be spent. -/
theorem spBalance_eq (entries : List Entry) :
    spBalance entries = u64Sum ((spUtxos entries).map SpUtxo.sats) := by
  unfold spBalance spUtxos
  rw [List.map_filterMap]
  congr 2
  funext e
  cases e with
  | spReceived seq txid vout sats tweak status =>
      dsimp only
      split <;> rfl
  | _ => rfl

theorem mem_spUtxos {entries : List Entry} {u : SpUtxo} :
    u ∈ spUtxos entries ↔
      (∃ seq status, Entry.spReceived seq u.txid u.vout u.sats u.tweak status ∈ entries) ∧
        latestStatus entries u.txid = some .final ∧ isSpSpent entries u.txid u.vout = false := by
  rw [spUtxos, List.mem_filterMap]
  constructor
  · rintro ⟨e, member, chosen⟩
    cases e with
    | spReceived seq txid vout sats tweak status =>
        dsimp only at chosen
        split at chosen
        · rename_i counts
          cases chosen
          exact ⟨⟨seq, status, member⟩, counts⟩
        · cases chosen
    | _ => cases chosen
  · rintro ⟨⟨seq, status, member⟩, counts⟩
    exact ⟨_, member, if_pos counts⟩

theorem mem_issuedUnpaid {entries : List Entry} {index : ℕ} :
    index ∈ issuedUnpaid entries ↔
      (∃ e ∈ entries, e.issuedIndex? = some index) ∧
        ¬ ∃ e ∈ entries, e.receivedIndex? = some index := by
  simp [issuedUnpaid, List.mem_filterMap]

end Ledger

end ComputerMoney.Kernel

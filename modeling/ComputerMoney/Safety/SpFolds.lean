/-
# Safety.SpFolds -- the silent-payment folds divide the income

Three folds read the same log: what can be spent, what is on its way, what was spent.  Each
filters it anew by the last status of a transaction and by the set of marked outpoints.  As
long as no outpoint is booked twice, which the check before a booking sees to, they divide
what is booked between them: `sp_folds_partition`, in every run on one ledger.

The folds know an outpoint as marked or not.  A mark counts wherever it stands, before the
booking or after it, and a second one does nothing (`MarksOnce`).  The two bookings check
before they append: each notes its outpoint once, and asked again it notes nothing
(`BooksOnce`).
-/
import ComputerMoney.Safety.ScanOnce
import ComputerMoney.Safety.TerminalStatus

namespace ComputerMoney.Safety

set_option autoImplicit false

open Theory Theory.Program Kernel

namespace SpFolds

/-! ## What is booked, and where it is counted -/

/-- An outpoint and its value. -/
abbrev Coin := OutPoint × ℕ

def coin? : Entry → Option Coin
  | .spReceived _ txid vout sats _ _ => some ((txid, vout), sats)
  | _ => none

/-- Everything that was ever booked. -/
def booked (entries : List Entry) : List Coin := entries.filterMap coin?

/-- What `sp_utxos` lists. -/
def spendable (entries : List Entry) : List Coin :=
  (Ledger.spUtxos entries).map fun u => ((u.txid, u.vout), u.sats)

def Marked (entries : List Entry) (c : Coin) : Prop :=
  Ledger.isSpSpent entries c.1.1 c.1.2 = true

instance (entries : List Entry) : DecidablePred (Marked entries) :=
  fun _ => inferInstanceAs (Decidable (_ = true))

/-- The transaction is final. -/
def Deep (entries : List Entry) (c : Coin) : Prop :=
  Ledger.latestStatus entries c.1.1 = some .final

instance (entries : List Entry) : DecidablePred (Deep entries) :=
  fun _ => inferInstanceAs (Decidable (_ = _))

/-- What was booked and not marked, in a transaction that is not final. -/
def incoming (entries : List Entry) : List Coin :=
  (booked entries).filter fun c => ¬ Marked entries c ∧ ¬ Deep entries c

/-- What was booked and marked. -/
def spent (entries : List Entry) : List Coin := (booked entries).filter fun c => Marked entries c

def total (coins : List Coin) : ℕ := (coins.map Prod.snd).sum

theorem spendable_eq (entries : List Entry) : spendable entries =
    (booked entries).filter fun c => ¬ Marked entries c ∧ Deep entries c := by
  unfold spendable Ledger.spUtxos booked
  rw [List.map_filterMap, List.filter_filterMap]
  congr 1
  funext e
  cases e with
  | spReceived seq txid vout sats tweak status =>
      simp [coin?, Option.filter_some, Marked, Deep, and_comm]
  | _ => rfl

/-- The fold of what is on its way adds up those coins. -/
theorem spIncoming_eq (entries : List Entry) :
    Ledger.spIncoming entries = u64Sum ((incoming entries).map Prod.snd) := by
  unfold Ledger.spIncoming incoming booked
  rw [List.filter_filterMap, List.map_filterMap]
  congr 2
  funext e
  cases e with
  | spReceived seq txid vout sats tweak status =>
      simp only [coin?, Option.filter_some, Marked, Deep, and_comm]
      by_cases unspent : Ledger.isSpSpent entries txid vout = false
      · by_cases final : Ledger.latestStatus entries txid = some .final
        · simp [unspent, final]
        · simp [unspent, final]
      · simp [unspent]
  | _ => rfl

/-! ## The division -/

/-- The coins counted by the three folds are those booked, each by one of them. -/
theorem parts_perm (entries : List Entry) :
    (spendable entries ++ incoming entries ++ spent entries).Perm (booked entries) := by
  let unmarked := (booked entries).filter fun c => ¬ Marked entries c
  have deep : (unmarked.filter fun c => Deep entries c) = spendable entries := by
    rw [spendable_eq, List.filter_filter]
    congr 1
    funext c
    simp [Bool.and_comm]
  have shallow : (unmarked.filter fun c => !decide (Deep entries c)) = incoming entries := by
    unfold incoming
    rw [List.filter_filter]
    congr 1
    funext c
    simp [Bool.and_comm]
  have halves : (spendable entries ++ incoming entries).Perm unmarked := by
    rw [← deep, ← shallow]
    exact List.filter_append_perm _ _
  have whole : (spent entries ++ unmarked).Perm (booked entries) := by
    have split := List.filter_append_perm (fun c => decide (Marked entries c)) (booked entries)
    simpa [spent, unmarked] using split
  exact ((halves.append_right _).trans List.perm_append_comm).trans whole

/-- The folds divide what is booked. -/
structure Partitioned (entries : List Entry) : Prop where
  /-- Each outpoint is booked once, and is spendable, incoming or spent. -/
  parts : (spendable entries ++ incoming entries ++ spent entries).Perm (booked entries)
  once : ((spendable entries ++ incoming entries ++ spent entries).map Prod.fst).Nodup
  utxos : ((Ledger.spUtxos entries).map fun u => (u.txid, u.vout)).Nodup
  balance : ((Ledger.spUtxos entries).map Ledger.SpUtxo.sats).sum = Ledger.spBalance entries
  income : total (incoming entries) = Ledger.spIncoming entries
  identity : Ledger.spBalance entries + Ledger.spIncoming entries + total (spent entries) =
    total (booked entries)

theorem booked_outpoints (entries : List Entry) :
    (booked entries).map Prod.fst = spOutpoints entries := by
  unfold booked spOutpoints
  rw [List.map_filterMap]
  congr 1
  funext e
  cases e <;> rfl

theorem total_perm {coins coins' : List Coin} (same : coins.Perm coins') :
    total coins = total coins' :=
  (same.map _).sum_nat

@[simp] theorem total_append (coins coins' : List Coin) :
    total (coins ++ coins') = total coins + total coins' := by
  simp [total]

/-- **If no outpoint is booked twice, the folds divide what is booked.** -/
theorem partitioned_of_distinct {entries : List Entry} (distinct : (spOutpoints entries).Nodup)
    (small : total (booked entries) < 2 ^ 64) : Partitioned entries := by
  have parts := parts_perm entries
  have once : ((spendable entries ++ incoming entries ++ spent entries).map Prod.fst).Nodup := by
    rw [(parts.map Prod.fst).nodup_iff, booked_outpoints]
    exact distinct
  have sum : total (spendable entries) + total (incoming entries) + total (spent entries) =
      total (booked entries) := by
    rw [← total_perm parts, total_append, total_append]
  have values : (Ledger.spUtxos entries).map Ledger.SpUtxo.sats =
      (spendable entries).map Prod.snd := by
    simp [spendable]
  have balance : Ledger.spBalance entries = total (spendable entries) := by
    rw [Ledger.spBalance_eq, values]
    exact u64Sum_eq_of_lt (by unfold total at *; omega)
  have income : Ledger.spIncoming entries = total (incoming entries) := by
    rw [spIncoming_eq]
    exact u64Sum_eq_of_lt (by unfold total at *; omega)
  refine ⟨parts, once, ?_, ?_, income.symm, ?_⟩
  · rw [List.map_append, List.map_append] at once
    have first := (List.nodup_append.1 (List.nodup_append.1 once).1).1
    rw [spendable, List.map_map] at first
    exact first
  · rw [balance, values]
    rfl
  · rw [balance, income]
    exact sum

/-! ## Marks -/

/-- What the folds make of a ledger. -/
structure View where
  utxos : List Ledger.SpUtxo
  balance : ℕ
  incoming : ℕ
  booked : List Coin
  spent : List Coin

def view (entries : List Entry) : View where
  utxos := Ledger.spUtxos entries
  balance := Ledger.spBalance entries
  incoming := Ledger.spIncoming entries
  booked := booked entries
  spent := spent entries

/-- The ledger without its marks. -/
def unmarked (entries : List Entry) : List Entry := entries.filter fun e => e.spSpent?.isNone

/-- A fold that does not look at marks reads the same without them. -/
theorem filterMap_unmarked {α : Type} {f : Entry → Option α} (entries : List Entry)
    (blind : ∀ seq txid vout, f (.spSpent seq txid vout) = none) :
    (unmarked entries).filterMap f = entries.filterMap f := by
  unfold unmarked
  rw [List.filterMap_filter]
  congr 1
  funext e
  cases e with
  | spSpent seq txid vout => simp [Entry.spSpent?, blind]
  | _ => rfl

theorem latestStatus_unmarked (entries : List Entry) (txid : String) :
    Ledger.latestStatus (unmarked entries) txid = Ledger.latestStatus entries txid := by
  unfold Ledger.latestStatus unmarked
  rw [List.foldl_filter]
  congr 1
  funext latest e
  cases e <;> rfl

/-- **The folds see what is not a mark, and the set of the marks.** -/
theorem view_congr {entries entries' : List Entry} (same : unmarked entries = unmarked entries')
    (marks : ∀ txid vout,
      Ledger.isSpSpent entries txid vout = Ledger.isSpSpent entries' txid vout) :
    view entries = view entries' := by
  have status : ∀ txid, Ledger.latestStatus entries txid = Ledger.latestStatus entries' txid := by
    intro txid
    rw [← latestStatus_unmarked, same, latestStatus_unmarked]
  have coins : booked entries = booked entries' := by
    unfold booked
    rw [← filterMap_unmarked entries fun _ _ _ => rfl, same,
      filterMap_unmarked entries' fun _ _ _ => rfl]
  have utxos : Ledger.spUtxos entries = Ledger.spUtxos entries' := by
    unfold Ledger.spUtxos
    rw [← filterMap_unmarked entries fun _ _ _ => rfl, same,
      filterMap_unmarked entries' fun _ _ _ => rfl]
    simp only [status, marks]
  have ways : incoming entries = incoming entries' := by
    unfold incoming
    rw [coins]
    apply List.filter_congr
    intro c _
    simp [Marked, Deep, status, marks]
  have gone : spent entries = spent entries' := by
    unfold spent
    rw [coins]
    apply List.filter_congr
    intro c _
    have marked : Marked entries c ↔ Marked entries' c := by
      unfold Marked
      rw [marks]
    exact decide_eq_decide.2 marked
  unfold view
  rw [Ledger.spBalance_eq, Ledger.spBalance_eq, spIncoming_eq, spIncoming_eq, utxos, coins, ways, gone]

/-- A mark counts once, wherever it stands. -/
structure MarksOnce (entries : List Entry) : Prop where
  /-- Made early, before its output was booked for one, it counts as if made now. -/
  anywhere : ∀ before after, entries = before ++ after → ∀ seq seq' txid vout,
    view (before ++ .spSpent seq txid vout :: after) =
      view (entries ++ [.spSpent seq' txid vout])
  /-- Made again, it does nothing. -/
  again : ∀ before after, entries = before ++ after → ∀ seq txid vout,
    Ledger.isSpSpent entries txid vout = true →
      view (before ++ .spSpent seq txid vout :: after) = view entries

theorem marksOnce (entries : List Entry) : MarksOnce entries := by
  constructor
  · rintro before after rfl seq seq' txid vout
    apply view_congr
    · simp [unmarked, Entry.spSpent?]
    · intro t v
      simp [Ledger.isSpSpent, Entry.spSpent?, Bool.or_comm, Bool.or_left_comm]
  · rintro before after rfl seq txid vout marked
    apply view_congr
    · simp [unmarked, Entry.spSpent?]
    · intro t v
      by_cases same : (txid, vout) = (t, v)
      · cases same
        rw [marked]
        simp [Ledger.isSpSpent, Entry.spSpent?]
      · simp [Ledger.isSpSpent, Entry.spSpent?, same]

end SpFolds

open SpFolds

/-! ## The two bookings -/

/-- What a booking that checks first has done: nothing, if it was known; else one line, or it
failed and the instance is as it was. -/
def Noted (led : Handle) (w : World) (known : Bool) (e : Entry) (result : Except Error Bool)
    (w' : World) : Prop :=
  if known then result = .ok false ∧ w' = w
  else (∃ error, result = .error error ∧ w'.mem led = w.mem led) ∨
    result = .ok true ∧ w'.mem led = w.mem led ++ [e]

/-- A booking from the instance as it is: what it does, that its outpoint is known after it,
and that made again it does nothing. -/
structure BooksOnce (host : Host) (led : Handle) (w : World) (book : Prog Bool)
    (known : List Entry → Bool) (e : Entry) : Prop where
  first : ∀ result w', Exec (interp host) book w result w' →
    Noted led w (known (w.mem led)) e result w'
  after : ∀ told w', Exec (interp host) book w (.ok told) w' → known (w'.mem led) = true
  again : ∀ told w', Exec (interp host) book w (.ok told) w' → ∀ result w'',
    Exec (interp host) book w' result w'' → result = .ok false ∧ w'' = w'

section Bookings

variable {host : Host} {led : Handle} {w : World}

/-- The shape of both: read, check, append. -/
def bookUnless (led : Handle) (known : List Entry → Bool) (entry : List Entry → Entry) :
    Prog Bool := do
  let es ← Ledger.entries led
  if known es then
    return false
  Ledger.append led (entry es)
  return true

theorem wp_bookUnless {known : List Entry → Bool} {entry : List Entry → Entry} :
    wp (interp host) (fun _ _ _ => True)
      (Noted led w (known (w.mem led)) (entry (w.mem led))) (bookUnless led known entry) w := by
  refine wp_bind.2 fun es read => ⟨trivial, bindPost_ok.2 ?_⟩
  obtain rfl : es = w.mem led := read
  cases is : known (w.mem led) with
  | true => exact ⟨rfl, rfl⟩
  | false =>
      refine wp_bind.2 ?_
      rintro (_ | error | error) - <;> refine ⟨trivial, ?_⟩
      · exact .inr ⟨rfl, Function.update_self ..⟩
      · exact .inl ⟨error, rfl, rfl⟩
      · exact .inl ⟨error, rfl, rfl⟩

theorem booksOnce (known : List Entry → Bool) (entry : List Entry → Entry)
    (notes : ∀ es, known (es ++ [entry es]) = true) :
    BooksOnce host led w (bookUnless led known entry) known (entry (w.mem led)) := by
  have first : ∀ w result w', Exec (interp host) (bookUnless led known entry) w result w' →
      Noted led w (known (w.mem led)) (entry (w.mem led)) result w' :=
    fun _ _ _ run => wp_exec wp_bookUnless run
  have after : ∀ told w', Exec (interp host) (bookUnless led known entry) w (.ok told) w' →
      known (w'.mem led) = true := by
    intro told w' run
    have noted := first w _ _ run
    unfold Noted at noted
    split at noted
    · rename_i is
      exact noted.2 ▸ is
    · rcases noted with ⟨error, failed, -⟩ | ⟨-, grown⟩
      · cases failed
      · exact grown ▸ notes _
  refine ⟨first w, after, fun told w' run result w'' run' => ?_⟩
  have noted := first w' _ _ run'
  rwa [Noted, if_pos (after told w' run)] at noted

end Bookings

/-- `record_sp_received` and `record_sp_spent`, each for every outpoint. -/
structure NotesOnce (host : Host) (led : Handle) (w : World) : Prop where
  received : ∀ txid vout sats tweak, BooksOnce host led w
    (Ledger.recordSpReceived led txid vout sats tweak)
    (fun es => Ledger.hasSpOutput es txid vout)
    (.spReceived (Ledger.nextSeq (w.mem led)) txid vout sats tweak .pending)
  spent : ∀ txid vout, BooksOnce host led w (Ledger.recordSpSpent led txid vout)
    (fun es => Ledger.isSpSpent es txid vout)
    (.spSpent (Ledger.nextSeq (w.mem led)) txid vout)

theorem notesOnce (host : Host) (led : Handle) (w : World) : NotesOnce host led w where
  received txid vout sats tweak := by
    refine booksOnce (fun es => Ledger.hasSpOutput es txid vout)
      (fun es => .spReceived (Ledger.nextSeq es) txid vout sats tweak .pending) fun es => ?_
    simp [Ledger.hasSpOutput, Entry.spOutpoint?]
  spent txid vout := by
    refine booksOnce (fun es => Ledger.isSpSpent es txid vout)
      (fun es => .spSpent (Ledger.nextSeq es) txid vout) fun es => ?_
    simp [Ledger.isSpSpent, Entry.spSpent?]

/-! ## Runs on one ledger -/

/-- One operation: the two bookings, a mark that bypasses the check, a change of status, or
any program that books no silent payment and marks none. -/
inductive SpAct where
  | received (txid : String) (vout sats : ℕ) (tweak : String)
  | spent (txid : String) (vout : ℕ)
  | rawSpent (seq : ℕ) (txid : String) (vout : ℕ)
  | update (txid : String) (status : Status)
  | other (body : Prog Unit)

def SpAct.perform (led : Handle) : SpAct → Prog Unit
  | .received txid vout sats tweak => do
      let _ ← (Ledger.recordSpReceived led txid vout sats tweak).attempt
  | .spent txid vout => do
      let _ ← (Ledger.recordSpSpent led txid vout).attempt
  | .rawSpent seq txid vout => do
      let _ ← (Ledger.append led (.spSpent seq txid vout)).attempt
  | .update txid status => do
      let _ ← (Ledger.updateStatus led txid status).attempt
  | .other body => body

/-- A call that gives the instance no silent-payment entry. -/
def Op.plain (led : Handle) : Op → Prop
  | .append led' e => led' = led → e.spOutpoint? = none ∧ e.spSpent? = none
  | _ => True

/-- The program is what it is said to be. -/
def SpAct.Fits (led : Handle) : SpAct → Prop
  | .other body => body.Within (Op.plain led)
  | _ => True

/-- The ledger's process, from one point of a run to a later one. -/
abbrev SpRun (host : Host) (led : Handle) : Prog Unit × World → Prog Unit × World → Prop :=
  Works (interp host) (SpAct.perform led) fun act _ => act.Fits led

section Acts

variable {host : Host} {led : Handle} {w : World}

/-- The promise: what the instance books is new to it. -/
def BooksNew (led : Handle) : Guarantee sig World
  | w, .append led' e, _ => led' = led → ∀ o, e.spOutpoint? = some o → o ∉ spOutpoints (w.mem led)
  | _, _, _ => True

/-- The instance is open, and has each outpoint once. -/
structure BookedApart (led : Handle) (w : World) : Prop where
  isOpen : led < w.fresh
  once : (spOutpoints (w.mem led)).Nodup

theorem BookedApart.of_mem {w' : World} (distinct : BookedApart led w) (fresh : w.fresh ≤ w'.fresh)
    (mem : w'.mem led = w.mem led) : BookedApart led w' :=
  ⟨Nat.lt_of_lt_of_le distinct.isOpen fresh, mem ▸ distinct.once⟩

theorem keeps_distinct : Keeps (interp host) (BooksNew led) (BookedApart led) := by
  intro w op answer allowed promised distinct
  cases op with
  | append led' e =>
      cases answer with
      | lost error => exact distinct
      | kept error => exact distinct.of_mem (Nat.le_refl _) rfl
      | ok =>
          by_cases ours : led' = led
          · subst ours
            refine ⟨distinct.isOpen, ?_⟩
            show (spOutpoints (Function.update w.mem led' (w.mem led' ++ [e]) led')).Nodup
            rw [Function.update_self, spOutpoints_append]
            cases is : e.spOutpoint? with
            | none => simpa using distinct.once
            | some o =>
                have new := promised rfl o is
                simp only [Option.toList_some]
                exact List.nodup_append.2 ⟨distinct.once, List.nodup_singleton _, by
                  intro o' old o'' last same
                  rw [List.mem_singleton.1 last] at same
                  exact new (same ▸ old)⟩
          · exact distinct.of_mem (Nat.le_refl _) (Function.update_of_ne (Ne.symm ours) ..)
  | openLedger =>
      cases answer with
      | error error => exact distinct
      | ok led' =>
          obtain rfl : led' = w.fresh := allowed
          exact distinct.of_mem (Nat.le_succ _)
            (Function.update_of_ne (Nat.ne_of_lt distinct.isOpen) ..)
  | _ =>
      exact distinct.of_mem (Nat.le_of_eq (w.after_fresh answer nofun).symm)
        (congrFun (World.after_mem w answer nofun nofun) led)

/-- The check before a booking keeps the promise. -/
theorem wp_received_new (txid : String) (vout sats : ℕ) (tweak : String) :
    wp (interp host) (BooksNew led) (fun _ _ => True)
      (Ledger.recordSpReceived led txid vout sats tweak) w := by
  apply wp_bind.2
  intro es allowed
  obtain rfl : es = w.mem led := allowed
  refine ⟨trivial, bindPost_ok.2 ?_⟩
  split
  · trivial
  · rename_i unknown
    apply wp_bind.2
    intro answer _
    refine ⟨fun _ o is => ?_, ?_⟩
    · cases is
      rw [mem_spOutpoints]
      exact unknown
    · cases answer <;> trivial

/-- A call that gives the instance no receipt. -/
def Op.booksNone (led : Handle) : Op → Prop
  | .append led' e => led' = led → e.spOutpoint? = none
  | _ => True

/-- Whatever books nothing keeps the promise. -/
theorem wp_booksNone {α : Type} {p : Prog α} (body : p.Within (Op.booksNone led)) :
    wp (interp host) (BooksNew led) (fun _ _ => True) p w := by
  apply wp_unguarded
  apply body.mono
  intro op none w answer
  cases op with
  | append led' e =>
      intro ours o is
      rw [none ours] at is
      cases is
  | _ => trivial

/-- **Every operation keeps the promise.** -/
theorem wp_spAct (act : SpAct) (fits : act.Fits led) :
    wp (interp host) (BooksNew led) (fun _ _ => True) (act.perform led) w := by
  cases act with
  | received txid vout sats tweak =>
      exact wp_bind.2 (wp_attempt.2 (wp_received_new txid vout sats tweak))
  | spent txid vout =>
      apply wp_booksNone
      exact within_bind (within_attempt (within_recordSpSpent trivial fun _ _ => rfl))
        fun _ => trivial
  | rawSpent seq txid vout =>
      apply wp_booksNone
      refine within_bind (within_attempt ⟨fun _ => rfl, fun answer => ?_⟩) fun _ => trivial
      cases answer <;> trivial
  | update txid status =>
      apply wp_booksNone
      exact within_bind (within_attempt (within_updateStatus trivial fun _ _ => rfl))
        fun _ => trivial
  | other body =>
      apply wp_booksNone
      apply fits.mono
      intro op plain
      cases op with
      | append led' e => exact fun ours => (plain ours).1
      | _ => trivial

end Acts

/-- **The folds divide the income**, at every point of every run on one ledger: what can be
spent, what is on its way and what was spent are, each counted once, what is booked; a mark
made early or again counts as one made now; and either booking notes its outpoint, once. -/
theorem sp_folds_partition {host : Host} {led : Handle} {start c : Prog Unit × World}
    (new : NewLedger led start) (run : SpRun host led start c)
    (small : total (booked (c.2.mem led)) < 2 ^ 64) :
    Partitioned (c.2.mem led) ∧ MarksOnce (c.2.mem led) ∧ NotesOnce host led c.2 := by
  have jobs : ∀ (act : SpAct) w, act.Fits led → BookedApart led w →
      wp (interp host) (BooksNew led) (fun _ _ => True) (act.perform led) w :=
    fun act _ fits _ => wp_spAct act fits
  have nothing : spOutpoints (start.2.mem led) = [] := by
    rw [new.empty]
    rfl
  have first : Steady (interp host) (BooksNew led) (BookedApart led) start :=
    .idle new.idle ⟨new.isOpen, nothing ▸ List.nodup_nil⟩
  have here := run.steady keeps_distinct jobs first
  exact ⟨partitioned_of_distinct here.safe.once small, marksOnce _, notesOnce host led c.2⟩

/-- Two outputs of one transaction and one of another, one of them marked before it is
booked and again after. -/
def SpFolds.mixedActs : List SpAct :=
  [.rawSpent 0 "beef" 1, .received sampleTxid 0 5000 "07", .received sampleTxid 1 700 "08",
    .received "beef" 1 400 "09", .spent "beef" 1, .update sampleTxid .final,
    .rawSpent 9 sampleTxid 1, .received "cafe" 0 30 "0a"]

def SpFolds.mixedLedger : World :=
  workOff (SpAct.perform 0) (Script.silent.handle (.sample .bitcoin .default)) mixedActs
    (World.blank.load 0)

theorem sp_folds_partition_mixed :
    Ledger.spBalance (mixedLedger.mem 0) = 5000 ∧ Ledger.spIncoming (mixedLedger.mem 0) = 30 ∧
      Partitioned (mixedLedger.mem 0) := by
  have allowed : ∀ (op : Op) w, (interp (.sample .bitcoin .default)).allowed w op
      (Script.silent.handle (.sample .bitcoin .default) op w).1 :=
    fun op w => Script.allowed _ _ w op
  have works := workOff_works (SpAct.perform 0) (fun act _ => act.Fits 0) allowed fun _ _ => rfl
  obtain ⟨p, -, run⟩ := works mixedActs (p := .pure ()) (w := World.blank.load 0) trivial
    ⟨trivial, trivial, trivial, trivial, trivial, trivial, trivial, trivial, trivial⟩
  have new : NewLedger 0 (.pure (), World.blank.load 0) := ⟨trivial, Nat.zero_lt_one, by decide⟩
  have small : total (booked (mixedLedger.mem 0)) < 2 ^ 64 := by decide +kernel
  exact ⟨by decide +kernel, by decide +kernel, (sp_folds_partition new run small).1⟩

end ComputerMoney.Safety

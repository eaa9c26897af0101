/-
# Safety.SpFundedSend -- a silent payment spent on, and the balance of the addresses

Silent-payment income is kept out of the balance of the addresses: a `spReceived` never
counts there.  What it pays for is not: a send is debited whatever funded it.  So income that
comes in and goes out again leaves the balance lower by what was paid, below zero for one,
where the clamp hides it until a later receipt of an address does not show in full.

`sp_trip_balance` says exactly when the trip leaves no trace: when its payment failed.  The
sums here are the 64-bit ones of the release build (`balance_eq`).
-/
import ComputerMoney.Safety.TerminalStatus
import Mathlib.Data.Fintype.EquivFin
import Mathlib.Tactic.Ring

namespace ComputerMoney.Safety

set_option autoImplicit false

open Theory Theory.Program Kernel

namespace SpFundedSend

/-! ## The balance as a sum -/

/-- The txid of an entry of the addresses' own: a receipt, or a send. -/
def ownTxid? : Entry → Option String
  | .received _ txid _ _ _ | .sent _ txid _ _ _ _ => some txid
  | _ => none

/-- What an entry puts in or takes out. -/
def part (entries : List Entry) : Entry → ℤ
  | .received _ txid sats _ _ => if Ledger.latestStatus entries txid = some .final then sats else 0
  | .sent _ txid sats _ _ _ => if Ledger.latestStatus entries txid ≠ some .failed then -sats else 0
  | _ => 0

/-- The final receipts of these entries less the sends that stand, as `entries` has their
status. -/
def sum (entries part_ : List Entry) : ℤ := (part_.map (part entries)).sum

/-- The final receipts less the sends that stand. -/
def net (entries : List Entry) : ℤ := sum entries entries

@[simp] theorem sum_nil (entries : List Entry) : sum entries [] = 0 := rfl

@[simp] theorem sum_cons (entries : List Entry) (e : Entry) (rest : List Entry) :
    sum entries (e :: rest) = part entries e + sum entries rest := by
  simp [sum]

@[simp] theorem sum_append (entries xs ys : List Entry) :
    sum entries (xs ++ ys) = sum entries xs + sum entries ys := by
  simp [sum]

/-- An `i64` is a remainder. -/
theorem i64_spec (x : ℤ) :
    -2 ^ 63 ≤ Ledger.i64 x ∧ Ledger.i64 x < 2 ^ 63 ∧ ∃ k, x = Ledger.i64 x + 2 ^ 64 * k := by
  have low : -2 ^ 63 ≤ Ledger.i64 x := Int.le_bmod (by decide)
  have high : Ledger.i64 x < 2 ^ 63 := Int.bmod_lt (by decide)
  refine ⟨low, high, x.bdiv (2 ^ 64), ?_⟩
  have whole := Int.bmod_add_bdiv x (2 ^ 64)
  unfold Ledger.i64
  omega

theorem foldl_balanceStep (entries rest : List Entry) (x : ℤ) :
    rest.foldl (Ledger.balanceStep entries) (Ledger.i64 x) = Ledger.i64 (x + sum entries rest) := by
  induction rest generalizing x with
  | nil => simp
  | cons e rest ih =>
      have step : Ledger.balanceStep entries (Ledger.i64 x) e =
          Ledger.i64 (x + part entries e) := by
        cases e with
        | received seq txid sats index status =>
            by_cases final : Ledger.latestStatus entries txid = some .final
            · simp [Ledger.balanceStep, part, final, Ledger.i64]
            · simp [Ledger.balanceStep, part, final]
        | sent seq txid sats payee status sentAt =>
            by_cases failed : Ledger.latestStatus entries txid = some .failed
            · simp [Ledger.balanceStep, part, failed]
            · have taken : Ledger.i64 (Ledger.i64 x - Ledger.i64 sats) = Ledger.i64 (x - sats) := by
                simp [Ledger.i64]
              simpa [Ledger.balanceStep, part, failed, Int.sub_eq_add_neg] using taken
        | _ => simp [Ledger.balanceStep, part]
      rw [List.foldl_cons, step, ih, sum_cons, Int.add_assoc]

/-- **The balance is the net sum, as an `i64`, or nothing.** -/
theorem balance_eq (entries : List Entry) :
    (Ledger.balance entries : ℤ) = max 0 (Ledger.i64 (net entries)) := by
  have fold := foldl_balanceStep entries entries 0
  rw [Int.zero_add] at fold
  unfold Ledger.balance
  rw [show (0 : ℤ) = Ledger.i64 0 from rfl, fold]
  exact Int.toNat_of_nonneg (Int.le_max_left ..)

/-! ## Entries beside each other -/

/-- An entry about other transactions leaves a status, wherever it stands. -/
theorem latestStatus_insert {before after : List Entry} {e : Entry} {txid : String}
    (other : ∀ status, e.status? ≠ some (txid, status)) :
    Ledger.latestStatus (before ++ e :: after) txid =
      Ledger.latestStatus (before ++ after) txid := by
  induction after using List.reverseRecOn with
  | nil => simpa using Ledger.latestStatus_append_other other
  | append_singleton after last ih =>
      rw [← List.cons_append, ← List.append_assoc, ← List.append_assoc, Ledger.latestStatus_append,
        Ledger.latestStatus_append, ih]

/-- Two endings that leave `txid` the same status, whatever stands before them. -/
def Alike (txid : String) (xs ys : List Entry) : Prop :=
  ∀ before, Ledger.latestStatus (before ++ xs) txid = Ledger.latestStatus (before ++ ys) txid

theorem Alike.append {txid : String} {xs ys : List Entry} (alike : Alike txid xs ys)
    (zs : List Entry) : Alike txid (zs ++ xs) (zs ++ ys) := by
  intro before
  rw [← List.append_assoc, ← List.append_assoc]
  exact alike _

theorem Alike.insert {txid : String} {xs ys : List Entry} {e : Entry} (alike : Alike txid xs ys)
    (other : ∀ status, e.status? ≠ some (txid, status)) : Alike txid (e :: xs) ys :=
  fun before => (latestStatus_insert other).trans (alike before)

/-- A txid that no entry of the addresses has. -/
def Unknown (entries : List Entry) (txid : String) : Prop :=
  ∀ e ∈ entries, ownTxid? e ≠ some txid

/-- If two ledgers agree on the status of these entries, they add up alike. -/
theorem sum_congr {entries entries' xs : List Entry}
    (agree : ∀ e ∈ xs, ∀ txid, ownTxid? e = some txid →
      Ledger.latestStatus entries txid = Ledger.latestStatus entries' txid) :
    sum entries xs = sum entries' xs := by
  unfold sum
  rw [List.map_congr_left]
  intro e member
  have same := agree e member
  cases e with
  | received seq txid sats index status => simp only [part, same txid rfl]
  | sent seq txid sats payee status sentAt => simp only [part, same txid rfl]
  | _ => rfl

/-! ## The trip -/

/-- Silent-payment income of `value` sats, and the payment of `sats` it funds alone. -/
structure Trip where
  income : String
  vout : ℕ
  value : ℕ
  tweak : String
  payment : String
  sats : ℕ
  payee : String
  sentAt : ℕ
  seqs : ℕ × ℕ × ℕ × ℕ

/-- A history, in the parts that stand before, between and after the entries of a trip. -/
structure Course where
  before : List Entry
  untilFinal : List Entry
  untilSent : List Entry
  untilMarked : List Entry
  after : List Entry

/-- The history alone. -/
def Course.plain (h : Course) : List Entry :=
  h.before ++ (h.untilFinal ++ (h.untilSent ++ (h.untilMarked ++ h.after)))

/-- The history with the trip: received, final, spent on, and marked. -/
def Course.woven (h : Course) (trip : Trip) : List Entry :=
  h.before ++ .spReceived trip.seqs.1 trip.income trip.vout trip.value trip.tweak .pending ::
    (h.untilFinal ++ .statusUpdate trip.seqs.2.1 trip.income .final ::
      (h.untilSent ++ .sent trip.seqs.2.2.1 trip.payment trip.sats trip.payee .pending trip.sentAt ::
        (h.untilMarked ++ .spSpent trip.seqs.2.2.2 trip.income trip.vout :: h.after)))

/-- The two transactions are the trip's own, and it spends no more than it brought in. -/
structure Trip.Fits (trip : Trip) (h : Course) : Prop where
  different : trip.income ≠ trip.payment
  newIncome : Unknown h.plain trip.income
  newPayment : Unknown h.plain trip.payment
  funded : trip.sats ≤ trip.value
  small : trip.value < 2 ^ 63

/-- The payment failed, by the last word on it. -/
def Trip.Failed (trip : Trip) (h : Course) : Prop :=
  Ledger.latestStatus (h.woven trip) trip.payment = some .failed

section Trip

variable {h : Course} {trip : Trip}

/-- The status of any other transaction is what it was. -/
theorem latestStatus_woven {txid : String} (notIncome : trip.income ≠ txid)
    (notPayment : trip.payment ≠ txid) :
    Ledger.latestStatus (h.woven trip) txid = Ledger.latestStatus h.plain txid := by
  have same : Alike txid h.after h.after := fun _ => rfl
  have marked := (same.insert (e := .spSpent trip.seqs.2.2.2 trip.income trip.vout)
    (by simp [Entry.status?])).append h.untilMarked
  have sent := (marked.insert (e := .sent trip.seqs.2.2.1 trip.payment trip.sats trip.payee .pending
    trip.sentAt) (by simp [Entry.status?, notPayment])).append h.untilSent
  have final := (sent.insert (e := .statusUpdate trip.seqs.2.1 trip.income .final)
    (by simp [Entry.status?, notIncome])).append h.untilFinal
  exact final.insert (by simp [Entry.status?, notIncome]) h.before

/-- **The trip takes its payment out of the sum**, unless that failed. -/
theorem net_woven (fits : trip.Fits h) :
    (trip.Failed h → net (h.woven trip) = net h.plain) ∧
      (¬ trip.Failed h → net (h.woven trip) = net h.plain - trip.sats) := by
  have agree : sum (h.woven trip) h.plain = net h.plain := by
    apply sum_congr
    intro e member txid is
    apply latestStatus_woven
    · rintro rfl
      exact fits.newIncome e member is
    · rintro rfl
      exact fits.newPayment e member is
  have parts : ∀ entries, sum entries (h.woven trip) = sum entries h.plain + part entries
      (.sent trip.seqs.2.2.1 trip.payment trip.sats trip.payee .pending trip.sentAt) := by
    intro entries
    simp only [Course.woven, Course.plain, sum_append, sum_cons, part]
    ring
  rw [net, parts, agree]
  constructor
  · intro failed
    unfold Trip.Failed at failed
    simp [part, failed]
  · intro stands
    unfold Trip.Failed at stands
    simp [part, stands, Int.sub_eq_add_neg]

end Trip

/-! ## A later receipt -/

/-- A receipt of an address, and its last confirmation. -/
def receipt (seq seq' : ℕ) (txid : String) (sats index : ℕ) : List Entry :=
  [.received seq txid sats index .pending, .statusUpdate seq' txid .final]

/-- **A receipt of a new transaction adds to the sum in full.** -/
theorem net_receipt {entries : List Entry} {seq seq' : ℕ} {txid : String} {sats index : ℕ}
    (new : Unknown entries txid) :
    net (entries ++ receipt seq seq' txid sats index) = net entries + sats := by
  have others : ∀ t, t ≠ txid → Ledger.latestStatus (entries ++ receipt seq seq' txid sats index) t =
      Ledger.latestStatus entries t := by
    intro t other
    have update : ∀ status, (Entry.statusUpdate seq' txid .final).status? ≠ some (t, status) := by
      simp [Entry.status?, other.symm]
    have received : ∀ status, (Entry.received seq txid sats index .pending).status? ≠
        some (t, status) := by
      simp [Entry.status?, other.symm]
    rw [receipt, latestStatus_insert received, Ledger.latestStatus_append_other update]
  have final : Ledger.latestStatus (entries ++ receipt seq seq' txid sats index) txid =
      some .final := by
    rw [receipt, List.append_cons]
    exact Ledger.latestStatus_append_self rfl
  have agree : sum (entries ++ receipt seq seq' txid sats index) entries = net entries := by
    apply sum_congr
    intro e member t is
    apply others
    rintro rfl
    exact new e member is
  have parts : sum (entries ++ receipt seq seq' txid sats index) (receipt seq seq' txid sats index) =
      (sats : ℤ) := by
    generalize entries ++ receipt seq seq' txid sats index = all at final
    simp [receipt, part, final]
  rw [net, sum_append, agree, parts]

/-- One receipt, of `sats`, is all that the addresses have of the transaction, and it is not
final. -/
structure Awaits (entries : List Entry) (txid : String) (sats : ℕ) : Prop where
  one : ∃ before after seq index status,
    entries = before ++ .received seq txid sats index status :: after ∧
      Unknown (before ++ after) txid
  notFinal : Ledger.latestStatus entries txid ≠ some .final

/-- **A receipt that becomes final adds to the sum in full**, whatever was written since it came
in. -/
theorem net_final {entries : List Entry} {seq : ℕ} {txid : String} {sats : ℕ}
    (awaits : Awaits entries txid sats) :
    net (entries ++ [.statusUpdate seq txid .final]) = net entries + sats := by
  obtain ⟨⟨before, after, seq', index, status, is, others⟩, notFinal⟩ := awaits
  have final : Ledger.latestStatus (entries ++ [.statusUpdate seq txid .final]) txid =
      some .final := Ledger.latestStatus_append_self rfl
  have agree : sum (entries ++ [.statusUpdate seq txid .final]) (before ++ after) =
      sum entries (before ++ after) := by
    apply sum_congr
    intro e member t own
    have other : txid ≠ t := by
      rintro rfl
      exact others e member own
    exact Ledger.latestStatus_append_other (by simp [Entry.status?, other])
  have parts : ∀ all, sum all entries = sum all (before ++ after) +
      part all (.received seq' txid sats index status) := by
    intro all
    simp only [is, sum_append, sum_cons]
    ring
  rw [net, sum_append, parts (entries ++ _), agree, net, parts entries]
  simp [part, final, notFinal]

/-- There is always a new transaction. -/
theorem exists_unknown (entries : List Entry) : ∃ txid, Unknown entries txid := by
  obtain ⟨txid, new⟩ := Infinite.exists_notMem_finset (entries.filterMap ownTxid?).toFinset
  refine ⟨txid, fun e member is => new ?_⟩
  simp only [List.mem_toFinset, List.mem_filterMap]
  exact ⟨e, member, is⟩

/-! ## The trace of a trip -/

/-- The trip leaves no trace: the balance is what it was, and a later receipt shows in full, also
one that came in before the trip or amid it, as long as the balance fits its type. -/
structure NoTrace (h : Course) (trip : Trip) : Prop where
  unchanged : Ledger.balance (h.woven trip) = Ledger.balance h.plain
  inFull : ∀ seq seq' txid sats index, Unknown (h.woven trip) txid →
    Ledger.balance (h.woven trip) + sats < 2 ^ 63 →
    Ledger.balance (h.woven trip ++ receipt seq seq' txid sats index) =
      Ledger.balance (h.woven trip) + sats
  found : ∀ seq txid sats, Awaits (h.woven trip) txid sats →
    Ledger.balance (h.woven trip) + sats < 2 ^ 63 →
    Ledger.balance (h.woven trip ++ [.statusUpdate seq txid .final]) =
      Ledger.balance (h.woven trip) + sats

/-- What is added to a sum that is not below nothing shows. -/
theorem balance_add {entries entries' : List Entry} {sats : ℕ}
    (above : 0 ≤ Ledger.i64 (net entries)) (more : net entries' = net entries + sats)
    (fits : Ledger.balance entries + sats < 2 ^ 63) :
    Ledger.balance entries' = Ledger.balance entries + sats := by
  have now := balance_eq entries
  have later := balance_eq entries'
  rw [more] at later
  obtain ⟨low, high, k, remainder⟩ := i64_spec (net entries)
  obtain ⟨low', high', k', remainder'⟩ := i64_spec (net entries + sats)
  omega

/-- A receipt shows in full exactly where the sum is not below nothing. -/
theorem inFull_iff (entries : List Entry) :
    (∀ seq seq' txid sats index, Unknown entries txid → Ledger.balance entries + sats < 2 ^ 63 →
      Ledger.balance (entries ++ receipt seq seq' txid sats index) =
        Ledger.balance entries + sats) ↔ 0 ≤ Ledger.i64 (net entries) := by
  constructor
  · intro inFull
    have now := balance_eq entries
    obtain ⟨low, high, k, remainder⟩ := i64_spec (net entries)
    obtain ⟨txid, new⟩ := exists_unknown entries
    by_contra below
    have one := inFull 0 0 txid 1 0 new (by omega)
    have later := balance_eq (entries ++ receipt 0 0 txid 1 0)
    rw [net_receipt new] at later
    obtain ⟨low', high', k', remainder'⟩ := i64_spec (net entries + (1 : ℕ))
    omega
  · intro above seq seq' txid sats index new fits
    exact balance_add above (net_receipt new) fits

end SpFundedSend

open SpFundedSend

/-- **Silent-payment money leaves no trace in the addresses' balance** exactly if its payment
failed, or was of nothing, on a ledger that does not stand below zero. -/
theorem sp_trip_balance (h : Course) (trip : Trip) (fits : trip.Fits h) :
    NoTrace h trip ↔ (trip.Failed h ∨ trip.sats = 0) ∧ 0 ≤ Ledger.i64 (net h.plain) := by
  have inFull := inFull_iff (h.woven trip)
  have before := balance_eq h.plain
  have after := balance_eq (h.woven trip)
  have woven := net_woven fits
  have small : trip.sats < 2 ^ 63 := Nat.lt_of_le_of_lt fits.funded fits.small
  obtain ⟨low, high, k, remainder⟩ := i64_spec (net h.plain)
  obtain ⟨low', high', k', remainder'⟩ := i64_spec (net (h.woven trip))
  constructor
  · intro noTrace
    have above := inFull.1 noTrace.inFull
    have same := noTrace.unchanged
    by_cases failed : trip.Failed h
    · have still := woven.1 failed
      rw [still] at above
      exact ⟨.inl failed, above⟩
    · have taken := woven.2 failed
      exact ⟨.inr (by omega), by omega⟩
  · intro ⟨stands, above⟩
    have still : net (h.woven trip) = net h.plain := by
      by_cases failed : trip.Failed h
      · exact woven.1 failed
      · have nothing := stands.resolve_left failed
        rw [woven.2 failed, nothing]
        omega
    rw [still] at inFull after
    refine ⟨by omega, inFull.2 above, fun seq txid sats awaits room => ?_⟩
    exact balance_add (still.symm ▸ above) (net_final awaits) room

/-- Everything is three deep, and the wallet builds one transaction. -/
def SpFundedSend.tripScript : Script :=
  { deepScript with finish := fun _ => .ok ⟨"beef", 200, [(sampleTxid, 0)], sampleAddress⟩ }

/-- Income of 10000 sats comes in, is found final, and pays 6000. -/
def SpFundedSend.tripLedger : List Entry :=
  (workOff (Act.perform walletHost 0) (tripScript.handle walletHost)
    [.spReceived sampleTxid 0 10000 "07", .task .reconcile,
      .task (.sendSpendingSp sampleAddress.display 6000 (some 500))] (World.blank.load 0)).mem 0

/-- That trip. -/
def SpFundedSend.sampleTrip : Trip where
  income := sampleTxid
  vout := 0
  value := 10000
  tweak := "07"
  payment := "beef"
  sats := 6000
  payee := sampleAddress.display
  sentAt := 0
  seqs := (0, 1, 2, 3)

/-- Nothing else happened before or between; what comes after is open. -/
def SpFundedSend.alone (after : List Entry) : Course := ⟨[], [], [], [], after⟩

theorem SpFundedSend.sampleTrip_fits {after : List Entry}
    (new : Unknown after sampleTxid ∧ Unknown after "beef") : sampleTrip.Fits (alone after) where
  different := by decide
  newIncome := new.1
  newPayment := new.2
  funded := by decide
  small := by decide

/-- The payment of the trip is rejected and found dead: no trace. -/
theorem sp_trip_balance_failed :
    NoTrace (alone [.statusUpdate 4 "beef" .failed]) sampleTrip := by
  have fits : sampleTrip.Fits (alone [.statusUpdate 4 "beef" .failed]) := sampleTrip_fits
    ⟨by simp [Unknown, ownTxid?], by simp [Unknown, ownTxid?]⟩
  refine (sp_trip_balance _ sampleTrip fits).2 ⟨.inl ?_, ?_⟩
  · unfold Trip.Failed
    decide
  · decide

/-- The ledger that the operations leave is the trip's, its balance is nothing, and a later
receipt of 5000 sats still shows as nothing. -/
theorem sp_trip_hides_receipt :
    tripLedger = (alone []).woven sampleTrip ∧ ¬ ∀ (h : Course) (trip : Trip), trip.Fits h →
      NoTrace h trip := by
  refine ⟨by decide +kernel, fun always => ?_⟩
  have fits : sampleTrip.Fits (alone []) := sampleTrip_fits ⟨by simp [Unknown], by simp [Unknown]⟩
  have new : Unknown ((alone []).woven sampleTrip) "cafe" := by
    simp [Unknown, Course.woven, alone, ownTxid?, sampleTrip]
  have balance : Ledger.balance ((alone []).woven sampleTrip) = 0 := by decide
  have shown := (always _ _ fits).inFull 4 5 "cafe" 5000 0 new (by omega)
  have hidden : Ledger.balance ((alone []).woven sampleTrip ++ receipt 4 5 "cafe" 5000 0) = 0 := by
    decide
  omega

end ComputerMoney.Safety

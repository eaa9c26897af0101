/-
# Safety.AmountGate -- the caps, in the arithmetic of the build

The amount gate adds twice without looking: the payments of the window, and the payment at
hand to their sum; the text of a refusal adds the same two again.  The release build wraps.
It never aborts, and the per-payment cap always holds; the daily cap fails exactly where the
payments reach 2^64 and wrap to a sum the cap admits (`amount_gate`).

A build with overflow checks fails the other way: what its gate lets through is within both
caps (`checked_within_caps`), and a large payment aborts it.
-/
import ComputerMoney.Safety.SpendLimits

namespace ComputerMoney.Safety

set_option autoImplicit false

open Theory Kernel

namespace AmountGate

/-! ## The gate under any addition -/

/-- How a build adds: a sum, or an abort. -/
abbrev Addition := ℕ → ℕ → Option ℕ

/-- The release build. -/
def release : Addition := fun a b => some (u64Add a b)

/-- A build with overflow checks. -/
def checked : Addition := fun a b => if a + b < 2 ^ 64 then some (a + b) else none

/-- `Ledger::spent_since`. -/
def spentSince (add : Addition) (entries : List Entry) (cutoff : ℕ) : Option ℕ :=
  ((entries.filterMap Entry.sentSats?).filterMap
    fun send => if cutoff ≤ send.2 then some send.1 else none).foldlM add 0

/-- The daily half of `Policy::check_amount`. -/
def checkDaily (add : Addition) (policy : Policy) (sats spentRecent : ℕ) :
    Option (Except PolicyError Unit) :=
  match policy.dailyLimitSats with
  | some cap => (add spentRecent sats).map fun sum =>
      if sum > cap then .error (.dailyLimitExceeded sats spentRecent cap) else .ok ()
  | none => some (.ok ())

/-- `Policy::check_amount`. -/
def checkAmount (add : Addition) (policy : Policy) (sats spentRecent : ℕ) :
    Option (Except PolicyError Unit) :=
  match policy.maxPaymentSats with
  | some cap =>
      if sats > cap then some (.error (.paymentTooLarge sats cap))
      else checkDaily add policy sats spentRecent
  | none => checkDaily add policy sats spentRecent

/-- `Display` of a refusal. -/
def display (add : Addition) : PolicyError → Option String
  | .dailyLimitExceeded attempted spent cap => (add spent attempted).map fun sum =>
      "payment of " ++ toString attempted ++ " sats would push the last-24h spend to " ++
        toString sum ++ " sats, over the daily cap of " ++ toString cap ++ " sats"
  | refusal => some refusal.display

/-- The gate at work: the window's sum, the verdict on the payment, and the text of a
refusal. -/
def gate (add : Addition) (entries : List Entry) (cutoff : ℕ) (policy : Policy) (sats : ℕ) :
    Option (Except String Unit) :=
  (spentSince add entries cutoff).bind fun spent =>
    (checkAmount add policy sats spent).bind fun verdict => match verdict with
      | .ok () => some (.ok ())
      | .error refusal => (display add refusal).map .error

/-! ## The build that wraps -/

theorem foldlM_release (xs : List ℕ) (sum : ℕ) :
    xs.foldlM release sum = some (xs.foldl u64Add sum) := by
  induction xs generalizing sum with
  | nil => rfl
  | cons x xs ih => exact ih _

/-- It computes what the gate of this development computes. -/
theorem gate_release (entries : List Entry) (cutoff : ℕ) (policy : Policy) (sats : ℕ) :
    gate release entries cutoff policy sats =
      some ((policy.checkAmount sats (Ledger.spentSince entries cutoff)).mapError
        PolicyError.display) := by
  have spent : spentSince release entries cutoff = some (Ledger.spentSince entries cutoff) :=
    foldlM_release _ _
  have daily : ∀ spent, (checkDaily release policy sats spent) =
      some (policy.checkDaily sats spent) := by
    intro spent
    unfold checkDaily Policy.checkDaily release
    cases policy.dailyLimitSats <;> rfl
  have amount : ∀ spent, checkAmount release policy sats spent =
      some (policy.checkAmount sats spent) := by
    intro spent
    unfold checkAmount Policy.checkAmount
    cases policy.maxPaymentSats with
    | none => exact daily spent
    | some cap =>
        dsimp only
        split
        · rfl
        · exact daily spent
  have shown : ∀ refusal, display release refusal = some refusal.display := by
    intro refusal
    cases refusal <;> rfl
  unfold gate
  rw [spent, Option.bind_some, amount, Option.bind_some]
  cases policy.checkAmount sats (Ledger.spentSince entries cutoff) with
  | ok value => rfl
  | error refusal =>
      dsimp only
      rw [shown]
      rfl

/-! ## The caps, in natural numbers -/

/-- The payment is within both caps that are set, the window's payments counted. -/
structure WithinCaps (entries : List Entry) (cutoff : ℕ) (policy : Policy) (sats : ℕ) : Prop where
  payment : ∀ cap, policy.maxPaymentSats = some cap → sats ≤ cap
  daily : ∀ cap, policy.dailyLimitSats = some cap → spentFrom entries cutoff + sats ≤ cap

/-- The gate gives a verdict, or the text of its refusal, and lets through what is within
the caps only. -/
def Guards (add : Addition) (entries : List Entry) (cutoff : ℕ) (policy : Policy) (sats : ℕ) :
    Prop :=
  ∃ verdict, gate add entries cutoff policy sats = some verdict ∧
    (verdict = .ok () → WithinCaps entries cutoff policy sats)

/-- The window's payments and this one come to 2^64 or more, what is left of them mod 2^64 is
within the daily cap, and the per-payment cap does not stop it. -/
structure WrapsUnder (entries : List Entry) (cutoff : ℕ) (policy : Policy) (sats : ℕ) : Prop where
  within_ : ∀ cap, policy.maxPaymentSats = some cap → sats ≤ cap
  large : 2 ^ 64 ≤ spentFrom entries cutoff + sats
  under : ∃ cap, policy.dailyLimitSats = some cap ∧
    (spentFrom entries cutoff + sats) % 2 ^ 64 ≤ cap

/-- What the gate lets through: a payment within its cap, and a sum mod 2^64 within the
day's. -/
theorem checkAmount_ok_iff {entries : List Entry} {cutoff : ℕ} {policy : Policy} {sats : ℕ} :
    policy.checkAmount sats (Ledger.spentSince entries cutoff) = .ok () ↔
      (∀ cap, policy.maxPaymentSats = some cap → sats ≤ cap) ∧
        ∀ cap, policy.dailyLimitSats = some cap →
          (spentFrom entries cutoff + sats) % 2 ^ 64 ≤ cap := by
  have sum : u64Add (Ledger.spentSince entries cutoff) sats =
      (spentFrom entries cutoff + sats) % 2 ^ 64 := by
    rw [u64Add, Ledger.spentSince, u64Sum_eq_mod, Nat.mod_add_mod, spentFrom]
  have daily : policy.checkDaily sats (Ledger.spentSince entries cutoff) = .ok () ↔
      ∀ cap, policy.dailyLimitSats = some cap →
        (spentFrom entries cutoff + sats) % 2 ^ 64 ≤ cap := by
    unfold Policy.checkDaily
    rw [sum]
    cases policy.dailyLimitSats with
    | none => simp
    | some cap => simp
  unfold Policy.checkAmount
  cases policy.maxPaymentSats with
  | none => simpa using daily
  | some cap =>
      by_cases fits : sats ≤ cap
      · simpa [fits, Nat.not_lt.2 fits] using daily
      · simp [fits, Nat.lt_of_not_le fits]

theorem guards_release_iff {entries : List Entry} {cutoff : ℕ} {policy : Policy} {sats : ℕ} :
    Guards release entries cutoff policy sats ↔
      (policy.checkAmount sats (Ledger.spentSince entries cutoff) = .ok () →
        WithinCaps entries cutoff policy sats) := by
  unfold Guards
  rw [gate_release]
  cases policy.checkAmount sats (Ledger.spentSince entries cutoff) with
  | ok value => simp [Except.mapError]
  | error refusal => simp [Except.mapError]

/-! ## The build that aborts -/

theorem foldlM_checked {xs : List ℕ} {start sum : ℕ} (added : xs.foldlM checked start = some sum) :
    sum = start + xs.sum := by
  induction xs generalizing start with
  | nil =>
      cases added
      simp
  | cons x xs ih =>
      rw [List.foldlM_cons] at added
      by_cases small : start + x < 2 ^ 64
      · rw [checked, if_pos small] at added
        rw [ih added, List.sum_cons, Nat.add_assoc]
      · rw [checked, if_neg small] at added
        cases added

theorem checkDaily_checked {policy : Policy} {sats spent : ℕ}
    (passed : checkDaily checked policy sats spent = some (.ok ())) :
    ∀ cap, policy.dailyLimitSats = some cap → spent + sats ≤ cap := by
  intro cap set
  unfold checkDaily checked at passed
  rw [set] at passed
  dsimp only at passed
  by_cases small : spent + sats < 2 ^ 64
  · rw [if_pos small, Option.map_some] at passed
    by_cases fits : spent + sats > cap
    · rw [if_pos fits] at passed
      cases passed
    · omega
  · rw [if_neg small] at passed
    cases passed

theorem checkAmount_checked {policy : Policy} {sats spent : ℕ}
    (passed : checkAmount checked policy sats spent = some (.ok ())) :
    (∀ cap, policy.maxPaymentSats = some cap → sats ≤ cap) ∧
      ∀ cap, policy.dailyLimitSats = some cap → spent + sats ≤ cap := by
  unfold checkAmount at passed
  cases most : policy.maxPaymentSats with
  | none =>
      rw [most] at passed
      exact ⟨nofun, checkDaily_checked passed⟩
  | some cap =>
      rw [most] at passed
      dsimp only at passed
      by_cases above : sats > cap
      · rw [if_pos above] at passed
        cases passed
      · rw [if_neg above] at passed
        refine ⟨fun cap' set => ?_, checkDaily_checked passed⟩
        cases set
        omega

/-- **With overflow checks the caps hold** for every payment the gate lets through. -/
theorem checked_within_caps {entries : List Entry} {cutoff : ℕ} {policy : Policy} {sats : ℕ}
    (passed : gate checked entries cutoff policy sats = some (.ok ())) :
    WithinCaps entries cutoff policy sats := by
  unfold gate at passed
  obtain ⟨spent, added, passed⟩ := Option.bind_eq_some_iff.1 passed
  obtain ⟨verdict, checks, passed⟩ := Option.bind_eq_some_iff.1 passed
  have sum : spent = spentFrom entries cutoff := by
    rw [foldlM_checked added, Nat.zero_add]
    rfl
  have ok : verdict = .ok () := by
    cases verdict with
    | ok value => rfl
    | error refusal =>
        obtain ⟨text, -, is⟩ := Option.map_eq_some_iff.1 passed
        cases is
  subst ok sum
  obtain ⟨payment, daily⟩ := checkAmount_checked checks
  exact ⟨payment, daily⟩

end AmountGate

open AmountGate

/-- **The release build's gate guards both caps**, and never aborts, unless the payments wrap
past 2^64 to a sum that the daily cap admits. -/
theorem amount_gate (entries : List Entry) (cutoff : ℕ) (policy : Policy) (sats : ℕ)
    (typed : ∀ cap, policy.dailyLimitSats = some cap → cap < 2 ^ 64) :
    Guards release entries cutoff policy sats ↔ ¬ WrapsUnder entries cutoff policy sats := by
  rw [guards_release_iff, checkAmount_ok_iff]
  constructor
  · intro guards wraps
    obtain ⟨cap, set, under⟩ := wraps.under
    have passes : ∀ cap, policy.dailyLimitSats = some cap →
        (spentFrom entries cutoff + sats) % 2 ^ 64 ≤ cap := by
      intro cap' set'
      rw [set] at set'
      cases set'
      exact under
    have below := (guards ⟨wraps.within_, passes⟩).daily cap set
    have small := typed cap set
    have large := wraps.large
    omega
  · intro noWrap ⟨within_, passes⟩
    refine ⟨within_, fun cap set => ?_⟩
    by_cases large : 2 ^ 64 ≤ spentFrom entries cutoff + sats
    · exact absurd ⟨within_, large, cap, set, passes cap set⟩ noWrap
    · have under := passes cap set
      rwa [Nat.mod_eq_of_lt (by omega)] at under

/-- A policy with a daily cap alone. -/
def AmountGate.dailyCap : Policy := { Policy.default with dailyLimitSats := some 5000 }

/-- A payment of 1000 sats in the window. -/
def AmountGate.oneSend : List Entry := [.sent 0 sampleTxid 1000 sampleAddress.display .pending 0]

theorem amount_gate_small : Guards release oneSend 0 dailyCap 4000 :=
  (amount_gate oneSend 0 dailyCap 4000 (by rintro cap ⟨⟩; decide)).2
    fun wraps => absurd wraps.large (by decide)

/-- 1000 sats and 2^64 - 1000 more wrap to nothing. -/
theorem large_amount_wraps : ¬ ∀ (entries : List Entry) (cutoff : ℕ) (policy : Policy) (sats : ℕ),
    1 ≤ sats → sats < 2 ^ 64 → Guards release entries cutoff policy sats := by
  intro always
  have guards := guards_release_iff.1
    (always oneSend 0 dailyCap (2 ^ 64 - 1000) (by decide) (by decide))
  have caps := guards (by decide)
  exact absurd (caps.daily 5000 rfl) (by decide)

end ComputerMoney.Safety

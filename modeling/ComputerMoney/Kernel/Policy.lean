/-
# Kernel.Policy -- the gate every outgoing payment passes

Caps and a blocklist, all optional.  The checks are split by when their inputs are
known: amount and daily window before the peer is contacted (`checkAmount`), the
destination once it is known (`checkAddress`), the fee once the transaction is built
(`checkFee`; the builders in `Kernel.Pay` repeat its comparison), and the mainnet
guard inside every builder (`ensureMainnetCapped`).

`checkAmount` adds as the release build does, so a sum of 2^64 or more wraps before it
is compared with the daily cap; `checkAmount_daily` says when it does not.
-/
import ComputerMoney.Kernel.Ledger

namespace ComputerMoney.Kernel

set_option autoImplicit false

/-- The networks `storage::network` can return. -/
inductive Network where
  | bitcoin
  | testnet
  | signet
  deriving DecidableEq, Repr

def Network.label : Network → String
  | .testnet => "testnet"
  | .signet => "signet"
  | .bitcoin => "mainnet"

/-- The rolling window of the daily limit, in seconds. -/
def dailyWindowSecs : ℕ := 86400

structure Policy where
  maxPaymentSats : Option ℕ
  dailyLimitSats : Option ℕ
  maxFeeSats : Option ℕ
  blockedAddresses : List String
  deriving DecidableEq, Repr

/-- No restriction at all: what an absent policy file means. -/
def Policy.default : Policy := ⟨none, none, none, []⟩

inductive PolicyError where
  | paymentTooLarge (sats cap : ℕ)
  | dailyLimitExceeded (attempted spent cap : ℕ)
  | feeTooHigh (fee cap : ℕ)
  | addressBlocked (address : String)
  | mainnetUncapped
  | mainnetNoFeeCap
  deriving DecidableEq, Repr

/-- The message a caller sees. -/
def PolicyError.display : PolicyError → String
  | .paymentTooLarge sats cap =>
      "payment of " ++ toString sats ++ " sats exceeds the per-payment cap of " ++
        toString cap ++ " sats"
  | .dailyLimitExceeded attempted spent cap =>
      "payment of " ++ toString attempted ++ " sats would push the last-24h spend to " ++
        toString (u64Add spent attempted) ++ " sats, over the daily cap of " ++
        toString cap ++ " sats"
  | .feeTooHigh fee cap =>
      "fee " ++ toString fee ++ " sats exceeds the cap of " ++ toString cap ++ " sats"
  | .addressBlocked address => "destination " ++ address ++ " is on the blocklist"
  | .mainnetUncapped =>
      "mainnet send refused: policy has no spend cap (set max_payment_sats or daily_limit_sats in policy.json)"
  | .mainnetNoFeeCap =>
      "mainnet send refused: policy has no fee cap (set max_fee_sats in policy.json)"

/-- Mainnet fail-closed guard: a spend cap and a fee cap, or no build. -/
def ensureMainnetCapped (network : Network) (policy : Policy) : Except PolicyError Unit :=
  if network ≠ .bitcoin then .ok ()
  else if policy.maxPaymentSats = none ∧ policy.dailyLimitSats = none then .error .mainnetUncapped
  else if policy.maxFeeSats = none then .error .mainnetNoFeeCap
  else .ok ()

namespace Policy

/-- The daily half of the amount gate. -/
def checkDaily (policy : Policy) (sats spentRecent : ℕ) : Except PolicyError Unit :=
  match policy.dailyLimitSats with
  | some cap =>
      if u64Add spentRecent sats > cap then .error (.dailyLimitExceeded sats spentRecent cap)
      else .ok ()
  | none => .ok ()

/-- Amount gates, before the peer is contacted. -/
def checkAmount (policy : Policy) (sats spentRecent : ℕ) : Except PolicyError Unit :=
  match policy.maxPaymentSats with
  | some cap =>
      if sats > cap then .error (.paymentTooLarge sats cap) else policy.checkDaily sats spentRecent
  | none => policy.checkDaily sats spentRecent

/-- Blocklist gate, by string. -/
def checkAddress (policy : Policy) (payee : String) : Except PolicyError Unit :=
  if payee ∈ policy.blockedAddresses then .error (.addressBlocked payee) else .ok ()

/-- Fee gate. -/
def checkFee (policy : Policy) (fee : ℕ) : Except PolicyError Unit :=
  match policy.maxFeeSats with
  | some cap => if fee > cap then .error (.feeTooHigh fee cap) else .ok ()
  | none => .ok ()

theorem checkAmount_cap {policy : Policy} {sats spent cap : ℕ}
    (passed : policy.checkAmount sats spent = .ok ()) (set : policy.maxPaymentSats = some cap) :
    sats ≤ cap := by
  simp only [checkAmount, set] at passed
  split at passed
  · cases passed
  · omega

/-- Without a wrap, a payment the gate lets through stays within the daily cap. -/
theorem checkAmount_daily {policy : Policy} {sats spent cap : ℕ}
    (passed : policy.checkAmount sats spent = .ok ()) (set : policy.dailyLimitSats = some cap)
    (small : spent + sats < 2 ^ 64) : spent + sats ≤ cap := by
  have daily : policy.checkDaily sats spent = .ok () := by
    simp only [checkAmount] at passed
    split at passed
    · split at passed
      · cases passed
      · exact passed
    · exact passed
  simp only [checkDaily, set, u64Add, Nat.mod_eq_of_lt small] at daily
  split at daily
  · cases daily
  · omega

theorem checkAddress_ok {policy : Policy} {payee : String} :
    policy.checkAddress payee = .ok () ↔ payee ∉ policy.blockedAddresses := by
  simp only [checkAddress]
  split <;> simp_all

end Policy

theorem ensureMainnetCapped_ok {network : Network} {policy : Policy} :
    ensureMainnetCapped network policy = .ok () ↔
      (network = .bitcoin → (policy.maxPaymentSats ≠ none ∨ policy.dailyLimitSats ≠ none) ∧
        policy.maxFeeSats ≠ none) := by
  simp only [ensureMainnetCapped]
  split
  · simp_all
  · split
    · simp_all
    · split <;> simp_all
      tauto

end ComputerMoney.Kernel

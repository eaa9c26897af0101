/-
# Kernel.CoinSelection -- which coins fund a silent payment

`select_largest_first` takes the wallet's coins by falling value until they cover the amount
and a fee that grows with each of them.  Coverage is not monotone in what is taken: a coin
that is worth less than its own part of the fee makes things worse.  But of all choices of
`k` coins the `k` largest are worth most, and the fee depends on `k` alone, so looking at the
prefixes of the sorted list is enough: `selection_exact`.
-/
import ComputerMoney.Kernel.Host
import ComputerMoney.Theory.Largest
import Mathlib.Algebra.Order.Group.Nat
import Mathlib.Data.List.Sort

namespace ComputerMoney.Kernel

set_option autoImplicit false

open Theory

/-- `u64::MAX`. -/
def u64Max : ℕ := 2 ^ 64 - 1

/-- Multiplication as the release build performs it on `u64`. -/
def u64Mul (a b : ℕ) : ℕ := a * b % 2 ^ 64

def saturatingAdd (a b : ℕ) : ℕ := min (a + b) u64Max

def saturatingMul (a b : ℕ) : ℕ := min (a * b) u64Max

inductive KeychainKind where
  | external
  | internal
  deriving DecidableEq, Repr

/-- A coin of the wallet: where it is, its value, and the key it is under. -/
structure DescUtxo where
  outpoint : OutPoint
  sats : ℕ
  keychain : KeychainKind
  index : ℕ
  deriving DecidableEq, Repr

namespace CoinSelection

/-- The amount and the estimated fee of a transaction with so many of these inputs. -/
def target (sats fr pinnedInputs nDesc : ℕ) : ℕ :=
  let estVsize := u64Add (u64Add (u64Add 11 (u64Mul (u64Add nDesc pinnedInputs) 58)) 43) 43
  saturatingAdd sats (saturatingMul fr estVsize)

/-- Take the coins in order until they are worth the target. -/
def accumulate (target : ℕ → ℕ) :
    List DescUtxo → List DescUtxo → ℕ → Option (List DescUtxo)
  | [], _, _ => none
  | u :: utxos, selected, running =>
      let selected := selected ++ [u]
      let running := u64Add running u.sats
      if target selected.length ≤ running then some selected
      else accumulate target utxos selected running

end CoinSelection

open CoinSelection

/-- `chain::select_largest_first`. -/
def selectLargestFirst (utxos : List DescUtxo) (sats fr prefunded pinnedInputs : ℕ) :
    Option (List DescUtxo) :=
  let utxos := utxos.insertionSort fun a b => b.sats ≤ a.sats
  if target sats fr pinnedInputs 0 ≤ prefunded then some []
  else accumulate (target sats fr pinnedInputs) utxos [] prefunded

namespace CoinSelection

/-! ## What it is for -/

/-- The amount and the fee of `n` coins beside the pinned inputs, in natural numbers up to
the largest `u64`. -/
def needed (sats fr pinnedInputs n : ℕ) : ℕ :=
  min (sats + fr * (11 + 58 * (n + pinnedInputs) + 86)) u64Max

/-- What the coins are worth together. -/
abbrev worth (coins : List DescUtxo) : ℕ := Largest.weight DescUtxo.sats coins

/-- These coins, with what is there already, pay the amount and their own fee. -/
def Covers (sats fr prefunded pinnedInputs : ℕ) (coins : List DescUtxo) : Prop :=
  needed sats fr pinnedInputs coins.length ≤ prefunded + worth coins

/-- A choice of coins as good as any: it covers, its coins are worth no less than those left,
and no choice that covers has fewer. -/
structure Best (sats fr prefunded pinnedInputs : ℕ) (utxos chosen : List DescUtxo) : Prop where
  covers : Covers sats fr prefunded pinnedInputs chosen
  largest : ∃ left, (chosen ++ left).Perm utxos ∧ ∀ u ∈ chosen, ∀ l ∈ left, l.sats ≤ u.sats
  fewest : ∀ coins : List DescUtxo, coins.Subperm utxos →
    Covers sats fr prefunded pinnedInputs coins → chosen.length ≤ coins.length
  /-- With nothing there already, some coin is spent. -/
  spends : prefunded = 0 → chosen ≠ []

/-! ## The loop -/

/-- With counts that fit, the closure computes what is needed. -/
theorem target_eq {sats fr pinnedInputs n : ℕ} (few : n < 2 ^ 50) (pinned : pinnedInputs < 2 ^ 50) :
    target sats fr pinnedInputs n = needed sats fr pinnedInputs n := by
  have size : u64Add (u64Add (u64Add 11 (u64Mul (u64Add n pinnedInputs) 58)) 43) 43 =
      11 + 58 * (n + pinnedInputs) + 86 := by
    unfold u64Add u64Mul
    omega
  unfold target needed saturatingAdd saturatingMul
  dsimp only
  rw [size]
  omega

theorem needed_pos {sats fr pinnedInputs n : ℕ} (rate : 1 ≤ fr) :
    0 < needed sats fr pinnedInputs n := by
  have fee : 0 < fr * (11 + 58 * (n + pinnedInputs) + 86) := Nat.mul_pos rate (by omega)
  unfold needed u64Max
  omega

section Loop

variable {goal : ℕ → ℕ} {prefunded : ℕ}

/-- So many coins of that value reach the goal. -/
def Reaches (goal : ℕ → ℕ) (prefunded : ℕ) : ℕ → ℕ → Prop := fun n value =>
  goal n ≤ prefunded + value

theorem reaches_upward : Largest.Upward (Reaches goal prefunded) := by
  intro k a b le reaches
  unfold Reaches at *
  omega

/-- **The loop stops at the first prefix that reaches the goal**, if it starts where none
has. -/
theorem accumulate_shortest (utxos : List DescUtxo) {selected : List DescUtxo} {running : ℕ}
    (sum : running = prefunded + worth selected)
    (small : prefunded + worth (selected ++ utxos) < 2 ^ 64)
    (none : ∀ k ≤ selected.length,
      ¬ Largest.Suffices DescUtxo.sats (Reaches goal prefunded) ((selected ++ utxos).take k)) :
    Largest.Shortest DescUtxo.sats (Reaches goal prefunded) (selected ++ utxos)
      (accumulate goal utxos selected running) := by
  induction utxos generalizing selected running with
  | nil =>
      intro k within_
      rw [List.append_nil] at within_
      exact none k within_
  | cons u utxos ih =>
      have same : selected ++ u :: utxos = (selected ++ [u]) ++ utxos := by simp
      have front : (selected ++ u :: utxos).take (selected ++ [u]).length = selected ++ [u] := by
        rw [same, List.take_left]
      have sum' : u64Add running u.sats = prefunded + worth (selected ++ [u]) := by
        simp only [worth, Largest.weight_append, Largest.weight_cons, Largest.weight_nil]
          at sum small ⊢
        unfold u64Add
        omega
      unfold accumulate
      dsimp only
      by_cases reached : goal (selected ++ [u]).length ≤ u64Add running u.sats
      · rw [if_pos reached]
        refine ⟨?_, front.symm, fun k below => none k ?_⟩
        · rw [sum'] at reached
          exact reached
        · rw [List.length_append, List.length_singleton] at below
          omega
      · rw [if_neg reached, same]
        rw [same] at small none
        apply ih sum' small
        intro k within_
        by_cases earlier : k ≤ selected.length
        · exact none k earlier
        · have here : k = (selected ++ [u]).length := by
            rw [List.length_append, List.length_singleton] at within_ ⊢
            omega
          rw [here, List.take_left]
          intro suffices_
          rw [sum'] at reached
          exact reached suffices_

end Loop

/-! ## The selection -/

section Selection

variable {utxos : List DescUtxo} {sats fr prefunded pinnedInputs : ℕ}

/-- The coins, the most valuable first. -/
def sorted (utxos : List DescUtxo) : List DescUtxo :=
  utxos.insertionSort fun a b => b.sats ≤ a.sats

theorem sorted_perm (utxos : List DescUtxo) : (sorted utxos).Perm utxos :=
  List.perm_insertionSort _ _

theorem sorted_falling (utxos : List DescUtxo) : Largest.Falling DescUtxo.sats (sorted utxos) :=
  have : Std.Total fun a b : DescUtxo => b.sats ≤ a.sats := ⟨fun _ _ => Nat.le_total _ _⟩
  have : IsTrans DescUtxo fun a b => b.sats ≤ a.sats := ⟨fun _ _ _ ab bc => Nat.le_trans bc ab⟩
  List.pairwise_insertionSort _ _

/-- The shortest prefix of the sorted coins that covers is what is selected. -/
theorem selectLargestFirst_shortest {selection : Option (List DescUtxo)}
    (is : selectLargestFirst utxos sats fr prefunded pinnedInputs = selection)
    (total : prefunded + worth utxos < 2 ^ 64) :
    Largest.Shortest DescUtxo.sats (Reaches (target sats fr pinnedInputs) prefunded)
      (sorted utxos) selection := by
  unfold selectLargestFirst at is
  dsimp only at is
  by_cases already : target sats fr pinnedInputs 0 ≤ prefunded
  · rw [if_pos already] at is
    subst is
    exact ⟨already, by simp, nofun⟩
  · rw [if_neg already] at is
    subst is
    have small : prefunded + worth ([] ++ sorted utxos) < 2 ^ 64 := by
      rw [List.nil_append, worth, Largest.weight_perm (sorted_perm utxos)]
      exact total
    apply accumulate_shortest (sorted utxos) (by simp) small
    intro k zero
    obtain rfl : k = 0 := by simpa using zero
    exact already

/-- With counts that fit, to reach the target is to cover. -/
theorem suffices_iff_covers (pinned : pinnedInputs < 2 ^ 50) {coins : List DescUtxo}
    (few : coins.length < 2 ^ 50) :
    Largest.Suffices DescUtxo.sats (Reaches (target sats fr pinnedInputs) prefunded) coins ↔
      Covers sats fr prefunded pinnedInputs coins := by
  unfold Largest.Suffices Reaches Covers
  rw [target_eq few pinned]

end Selection

end CoinSelection

/-- **Coin selection is sound, complete and minimal.**  It finds coins exactly when some
choice of them covers, of all 2^n; then what it finds is as good as any. -/
theorem selection_exact (utxos : List DescUtxo) (sats fr prefunded pinnedInputs : ℕ)
    (rate : 1 ≤ fr) (total : prefunded + worth utxos < 2 ^ 64) (few : utxos.length < 2 ^ 50)
    (pinned : pinnedInputs < 2 ^ 50) :
    ((selectLargestFirst utxos sats fr prefunded pinnedInputs).isSome ↔
      ∃ coins : List DescUtxo, coins.Subperm utxos ∧
        Covers sats fr prefunded pinnedInputs coins) ∧
    ∀ chosen, selectLargestFirst utxos sats fr prefunded pinnedInputs = some chosen →
      Best sats fr prefunded pinnedInputs utxos chosen := by
  generalize is : selectLargestFirst utxos sats fr prefunded pinnedInputs = selection
  have shortest : Largest.Shortest DescUtxo.sats (Reaches (target sats fr pinnedInputs) prefunded)
      (sorted utxos) selection := selectLargestFirst_shortest is total
  have falling := sorted_falling utxos
  have choices : ∀ coins : List DescUtxo, coins.Subperm utxos → (coins.Subperm (sorted utxos) ∧
      (Largest.Suffices DescUtxo.sats (Reaches (target sats fr pinnedInputs) prefunded) coins ↔
        Covers sats fr prefunded pinnedInputs coins)) := by
    intro coins sub
    have fewer : coins.length < 2 ^ 50 := Nat.lt_of_le_of_lt sub.length_le few
    exact ⟨sub.trans (sorted_perm utxos).symm.subperm, suffices_iff_covers pinned fewer⟩
  constructor
  · rw [shortest.isSome_iff falling reaches_upward]
    constructor
    · intro ⟨coins, sub, enough⟩
      have sub' : coins.Subperm utxos := sub.trans (sorted_perm utxos).subperm
      exact ⟨coins, sub', (choices coins sub').2.1 enough⟩
    · intro ⟨coins, sub, covers⟩
      exact ⟨coins, (choices coins sub).1, (choices coins sub).2.2 covers⟩
  · intro chosen found
    rw [found] at shortest
    obtain ⟨left, splits, heavier⟩ := shortest.largest falling
    have parts : (chosen ++ left).Perm utxos := by
      rw [← splits]
      exact sorted_perm utxos
    have sub : chosen.Subperm utxos :=
      (List.sublist_append_left chosen left).subperm.trans parts.subperm
    have covers := (choices chosen sub).2.1 shortest.1
    refine ⟨covers, ⟨left, parts, heavier⟩, fun coins sub' covers' => ?_, fun nothing => ?_⟩
    · exact shortest.least falling reaches_upward (choices coins sub').1
        ((choices coins sub').2.2 covers')
    · rintro rfl
      have positive : 0 < needed sats fr pinnedInputs 0 := needed_pos rate
      rw [Covers, List.length_nil, nothing, worth, Largest.weight_nil] at covers
      omega

/-- Three coins, of which the two largest are needed. -/
theorem selection_exact_three :
    let coin := fun n sats => DescUtxo.mk (toString n, 0) sats .external n
    let utxos := [coin 1 800, coin 2 900, coin 3 1100]
    selectLargestFirst utxos 1500 1 0 0 = some [coin 3 1100, coin 2 900] ∧
      Best 1500 1 0 0 utxos [coin 3 1100, coin 2 900] := by
  intro coin utxos
  have found : selectLargestFirst utxos 1500 1 0 0 = some [coin 3 1100, coin 2 900] := by
    decide +kernel
  exact ⟨found, (selection_exact utxos 1500 1 0 0 (by decide) (by decide +kernel)
    (by decide +kernel) (by decide)).2 _ found⟩

end ComputerMoney.Kernel

/-
# Safety.InputOrder -- when the order of the inputs matters

Sender and receiver add the keys of the inputs one by one, and both give up where a sum on
the way is zero.  The sum that counts is the total, and it is the same in every order; the
sums on the way are not.  A key, its opposite and a third have a total that is not zero, and
an order in which the first two meet.

`input_order_iff` says exactly when an order makes no difference: the partial sums are all
nonzero in both orders, or in neither, or nothing would come of the total anyway.
-/
import ComputerMoney.Theory.PartialSum
import ComputerMoney.Safety.SilentPaymentFound
import Mathlib.Algebra.Module.BigOperators

namespace ComputerMoney.Safety

set_option autoImplicit false

open Theory Theory.PartialSum
open Kernel hiding PublicKey Error
open Kernel.Sp

namespace InputOrder

/-! ## The least outpoint -/

theorem foldl_least (os : List RawOutPoint) (o : RawOutPoint) :
    let least := os.foldl
      (fun least o => if serOutpoint o < serOutpoint least then o else least) o
    least ∈ o :: os ∧ ∀ x ∈ o :: os, serOutpoint least ≤ serOutpoint x := by
  induction os generalizing o with
  | nil =>
      refine ⟨List.mem_cons_self .., fun x member => ?_⟩
      obtain rfl := List.mem_singleton.1 member
      exact List.le_refl _
  | cons next os ih =>
      rw [List.foldl_cons]
      obtain ⟨member, below⟩ := ih (if serOutpoint next < serOutpoint o then next else o)
      have first := below _ (List.mem_cons_self ..)
      have both :
          serOutpoint (if serOutpoint next < serOutpoint o then next else o) ≤ serOutpoint o ∧
          serOutpoint (if serOutpoint next < serOutpoint o then next else o) ≤
            serOutpoint next := by
        split
        · rename_i lower
          exact ⟨List.le_of_lt lower, List.le_refl _⟩
        · rename_i upper
          exact ⟨List.le_refl _, List.not_lt.1 upper⟩
      refine ⟨?_, fun x among => ?_⟩
      · rcases List.mem_cons.1 member with is | later
        · rw [is]
          split
          · exact List.mem_cons_of_mem _ (List.mem_cons_self ..)
          · exact List.mem_cons_self ..
        · exact List.mem_cons_of_mem _ (List.mem_cons_of_mem _ later)
      · rcases List.mem_cons.1 among with rfl | later
        · exact List.le_trans first both.1
        rcases List.mem_cons.1 later with rfl | later
        · exact List.le_trans first both.2
        · exact below x (List.mem_cons_of_mem _ later)

theorem smallestOutpoint_spec {os : List RawOutPoint} {least : RawOutPoint}
    (is : smallestOutpoint os = some least) :
    least ∈ os ∧ ∀ x ∈ os, serOutpoint least ≤ serOutpoint x := by
  cases os with
  | nil => cases is
  | cons o os =>
      obtain rfl := Option.some.inj is
      exact foldl_least os o

/-- The order of the outpoints does not change how the least one is written. -/
theorem smallestOutpoint_perm {os os' : List RawOutPoint} {least least' : RawOutPoint}
    (perm : os'.Perm os) (is : smallestOutpoint os = some least)
    (is' : smallestOutpoint os' = some least') : serOutpoint least' = serOutpoint least := by
  obtain ⟨member, below⟩ := smallestOutpoint_spec is
  obtain ⟨member', below'⟩ := smallestOutpoint_spec is'
  exact List.le_antisymm (below' _ (perm.mem_iff.2 member)) (below _ (perm.mem_iff.1 member'))

section

variable {F G X : Type} [Field F] [AddCommGroup G] [Module F G] [DecidableEq F] [DecidableEq G]
  [DecidableEq X] (secp : Secp F G X)

/-! ## The sums -/

omit [DecidableEq G] [DecidableEq X] in
theorem sumKeys_eq (aSum : Secret F) (rest : List (SpInput F)) :
    sumKeys secp aSum rest = orFail .secp (sumFrom aSum (rest.map fun input => input.key.1)) := by
  induction rest generalizing aSum with
  | nil => rfl
  | cons input rest ih =>
      rw [sumKeys, scalar_secretBytes, List.map_cons, sumFrom]
      show (orFail .secp (add? aSum input.key.1) >>= fun next => sumKeys secp next rest) = _
      cases add? aSum input.key.1 with
      | none => rfl
      | some next => exact ih next

omit [Field F] [Module F G] [DecidableEq F] [DecidableEq X] in
theorem sumPoints_eq (aSum : Point G) (rest : List (Point G)) :
    sumPoints aSum rest = orFail .secp (sumFrom aSum (rest.map Subtype.val)) := by
  induction rest generalizing aSum with
  | nil => rfl
  | cons pk rest ih =>
      rw [sumPoints, List.map_cons, sumFrom]
      show (orFail .secp (add? aSum pk.1) >>= fun next => sumPoints next rest) = _
      cases add? aSum pk.1 with
      | none => rfl
      | some next => exact ih next

/-! ## What is made of a sum -/

/-- The address that a sum of keys gives, by the least outpoint. -/
def addressOf (least : RawOutPoint) (scan spend : Point G) (aSum : Secret F) : Except Error X := do
  let t ← scalar secp (inputHash secp least (secp.publicKey aSum))
  let part ← orFail .secp (mulTweak aSum t)
  let u ← scalar secp (secp.secretBytes part.1)
  let ecdh ← orFail .secp (mulPoint scan u)
  let (key, _) ← outputAt secp ecdh spend 0
  return key

/-- The outputs that a sum of points finds. -/
def matchesOf (least : RawOutPoint) (outputs : List (ℕ × X × ℕ)) (scanSk : Secret F)
    (spend aSum : Point G) : List SpFound :=
  let found : Except Error (List SpFound) := do
    let t ← scalar secp (inputHash secp least aSum)
    let part ← orFail .secp (mulTweak scanSk t)
    let u ← scalar secp (secp.secretBytes part.1)
    let ecdh ← orFail .secp (mulPoint aSum u)
    receiveLoop secp ecdh spend outputs.length 0 outputs
  match found with
  | .ok found => found
  | .error _ => []

omit [DecidableEq X] in
theorem addressOf_congr {least least' : RawOutPoint} (same : serOutpoint least' = serOutpoint least)
    (scan spend : Point G) (aSum : Secret F) :
    addressOf secp least' scan spend aSum = addressOf secp least scan spend aSum := by
  rw [addressOf, addressOf, inputHash, inputHash, same]

omit [DecidableEq X] in
/-- Where the keys add up, the address is that of the sum; elsewhere there is none. -/
theorem sendAddress_eq {inputs : List (SpInput F)} {least : RawOutPoint} (scan spend : Point G)
    (is : smallestOutpoint (inputs.map SpInput.outpoint) = some least) :
    (sendAddress secp inputs scan spend).toOption =
      (sum? (inputs.map SpInput.key)).elim none fun aSum =>
        (addressOf secp least scan spend aSum).toOption := by
  cases inputs with
  | nil => cases is
  | cons first rest =>
      rw [sendAddress, sendShared, senderContext, sumKeys_eq, is, List.map_cons, sum?, List.map_map]
      show _ = (sumFrom first.key (rest.map fun input => input.key.1)).elim none _
      cases sumFrom first.key (rest.map fun input => input.key.1) with
      | none => rfl
      | some aSum =>
          simp only [orFail, addressOf, bind_assoc, pure_bind]
          rfl

theorem receiveCheck_eq (pubkeys : List (Point G)) (least : RawOutPoint)
    (outputs : List (ℕ × X × ℕ)) (scanSk : Secret F) (spend : Point G) :
    receiveCheck secp ⟨pubkeys, least⟩ outputs scanSk spend =
      (sum? pubkeys).elim [] (matchesOf secp least outputs scanSk spend) := by
  cases pubkeys with
  | nil => rfl
  | cons first rest =>
      rw [receiveCheck, receiveInner, receiveShared, sum?]
      dsimp only
      rw [sumPoints_eq]
      cases sumFrom first (rest.map Subtype.val) with
      | none => rfl
      | some aSum =>
          simp only [orFail, Option.elim, matchesOf, bind_assoc]
          rfl

/-! ## Two orders -/

def scalars (inputs : List (SpInput F)) : List F := inputs.map fun input => input.key.1

/-- The public keys a receiver sees. -/
def pubkeys (inputs : List (SpInput F)) : List (Point G) :=
  inputs.map fun input => secp.publicKey input.key

omit [DecidableEq F] [DecidableEq G] [DecidableEq X] in
theorem pubkeys_val (inputs : List (SpInput F)) :
    (pubkeys secp inputs).map Subtype.val = (scalars inputs).map (· • secp.gen) := by
  simp [pubkeys, scalars, Curve.publicKey]

omit [DecidableEq F] [DecidableEq G] [DecidableEq X] in
/-- The partial sums of the points are those of the scalars. -/
theorem unbroken_pubkeys (inputs : List (SpInput F)) :
    Unbroken 0 ((pubkeys secp inputs).map Subtype.val) ↔ Unbroken 0 (scalars inputs) := by
  rw [pubkeys_val, ← zero_smul F secp.gen]
  apply unbroken_map
  · exact fun x y => add_smul x y secp.gen
  · exact fun x => smul_eq_zero_iff_left secp.gen_ne_zero

/-- What the two sides make of a transaction's inputs does not depend on their order. -/
structure OrderFree (inputs inputs' : List (SpInput F)) (scan spend : Point G)
    (smallest : RawOutPoint) (outputs : List (ℕ × X × ℕ)) (scanSk : Secret F) (spendPk : Point G) :
    Prop where
  address : (sendAddress secp inputs' scan spend).toOption =
    (sendAddress secp inputs scan spend).toOption
  found : receiveCheck secp ⟨pubkeys secp inputs', smallest⟩ outputs scanSk spendPk =
    receiveCheck secp ⟨pubkeys secp inputs, smallest⟩ outputs scanSk spendPk

/-- Nothing comes of the total: no address derives from it, and it finds no output. -/
structure Fruitless (inputs : List (SpInput F)) (total : Secret F) (scan spend : Point G)
    (smallest : RawOutPoint) (outputs : List (ℕ × X × ℕ)) (scanSk : Secret F) (spendPk : Point G) :
    Prop where
  address : ∀ least, smallestOutpoint (inputs.map SpInput.outpoint) = some least →
    (addressOf secp least scan spend total).toOption = none
  found : matchesOf secp smallest outputs scanSk spendPk (secp.publicKey total) = []

omit [DecidableEq X] in
theorem address_iff {inputs inputs' : List (SpInput F)} {least : RawOutPoint} (scan spend : Point G)
    (perm : inputs'.Perm inputs) (nonzero : (scalars inputs).sum ≠ 0)
    (is : smallestOutpoint (inputs.map SpInput.outpoint) = some least) :
    (sendAddress secp inputs' scan spend).toOption = (sendAddress secp inputs scan spend).toOption ↔
      (Unbroken 0 (scalars inputs') ↔ Unbroken 0 (scalars inputs)) ∨
        (addressOf secp least scan spend ⟨_, nonzero⟩).toOption = none := by
  have values : ∀ inputs : List (SpInput F),
      (inputs.map SpInput.key).map Subtype.val = scalars inputs := fun inputs => by
    simp [scalars]
  obtain ⟨least', is'⟩ :
      ∃ least', smallestOutpoint (inputs'.map SpInput.outpoint) = some least' := by
    match inputs' with
    | [] =>
        rw [List.nil_perm.1 perm] at is
        cases is
    | first :: rest => exact ⟨_, rfl⟩
  rw [sendAddress_eq secp scan spend is, sendAddress_eq secp scan spend is']
  have same := addressOf_congr secp (smallestOutpoint_perm (perm.map _) is is') scan spend
  simp only [same]
  have sums := sum?_perm (perm.map SpInput.key) (by rw [values]; exact nonzero)
    (fun aSum => (addressOf secp least scan spend aSum).toOption) none
  rw [sums]
  simp only [values]

theorem found_iff {inputs inputs' : List (SpInput F)} (smallest : RawOutPoint)
    (outputs : List (ℕ × X × ℕ)) (scanSk : Secret F) (spendPk : Point G)
    (perm : inputs'.Perm inputs) (nonzero : (scalars inputs).sum ≠ 0) :
    receiveCheck secp ⟨pubkeys secp inputs', smallest⟩ outputs scanSk spendPk =
        receiveCheck secp ⟨pubkeys secp inputs, smallest⟩ outputs scanSk spendPk ↔
      (Unbroken 0 (scalars inputs') ↔ Unbroken 0 (scalars inputs)) ∨
        matchesOf secp smallest outputs scanSk spendPk (secp.publicKey ⟨_, nonzero⟩) = [] := by
  have total : ((pubkeys secp inputs).map Subtype.val).sum =
      (secp.publicKey ⟨_, nonzero⟩).1 := by
    rw [pubkeys_val, ← List.sum_smul]
    rfl
  have nonzero' : ((pubkeys secp inputs).map Subtype.val).sum ≠ 0 :=
    total ▸ (secp.publicKey ⟨_, nonzero⟩).2
  have same : (⟨_, nonzero'⟩ : Point G) = secp.publicKey ⟨_, nonzero⟩ := Subtype.ext total
  have shuffled : (pubkeys secp inputs').Perm (pubkeys secp inputs) := perm.map _
  rw [receiveCheck_eq, receiveCheck_eq, sum?_perm shuffled nonzero', same, unbroken_pubkeys,
    unbroken_pubkeys]

end

end InputOrder

open InputOrder

section

variable {F G X : Type} [Field F] [AddCommGroup G] [Module F G] [DecidableEq F] [DecidableEq G]
  [DecidableEq X] (secp : Secp F G X)

/-- **The order of the inputs matters exactly when a partial sum is zero in one order and none
is in the other**, unless nothing comes of the total.  The total is not zero, so no order
excludes the transaction. -/
theorem input_order_iff {inputs inputs' : List (SpInput F)} (perm : inputs'.Perm inputs)
    (nonzero : (scalars inputs).sum ≠ 0) (scan spend : Point G) (smallest : RawOutPoint)
    (outputs : List (ℕ × X × ℕ)) (scanSk : Secret F) (spendPk : Point G) :
    OrderFree secp inputs inputs' scan spend smallest outputs scanSk spendPk ↔
      (Unbroken 0 (scalars inputs') ↔ Unbroken 0 (scalars inputs)) ∨
        Fruitless secp inputs ⟨_, nonzero⟩ scan spend smallest outputs scanSk spendPk := by
  obtain ⟨least, is⟩ : ∃ least, smallestOutpoint (inputs.map SpInput.outpoint) = some least := by
    match inputs with
    | [] => exact absurd rfl nonzero
    | first :: rest => exact ⟨_, rfl⟩
  have address := address_iff secp scan spend perm nonzero is
  have found := found_iff secp smallest outputs scanSk spendPk perm nonzero
  constructor
  · intro free
    rcases address.1 free.address with both | noAddress
    · exact .inl both
    rcases found.1 free.found with both | noMatch
    · exact .inl both
    refine .inr ⟨fun least' is' => ?_, noMatch⟩
    rw [is] at is'
    cases is'
    exact noAddress
  · rintro (both | fruitless)
    · exact ⟨address.2 (.inl both), found.2 (.inl both)⟩
    · exact ⟨address.2 (.inr (fruitless.address least is)), found.2 (.inr fruitless.found)⟩

end

/-! ## A key and its opposite -/

namespace InputOrder

/-- An output of a transaction seen before, with this key. -/
def inputAt (vout : ℕ) (key : Secret (ZMod 7)) : SpInput (ZMod 7) :=
  ⟨((parseTxid firstTxid).getD [], vout), key⟩

/-- The keys 1 and 6 are opposite; 2 stands between them, or after both. -/
def apartInputs : List (SpInput (ZMod 7)) :=
  [inputAt 0 (sevenSecret 1), inputAt 1 (sevenSecret 2), inputAt 2 (sevenSecret 6)]

def adjacentInputs : List (SpInput (ZMod 7)) :=
  [inputAt 0 (sevenSecret 1), inputAt 2 (sevenSecret 6), inputAt 1 (sevenSecret 2)]

/-- The least outpoint of either, and an output with the key they pay to. -/
def leastOutpoint : RawOutPoint := ((parseTxid firstTxid).getD [], 0)

def paidOutput : List (ℕ × ZMod 7 × ℕ) := [(0, (2 : ℕ), 5000)]

end InputOrder

/-- With the opposite keys apart, the reverse order gives the same. -/
theorem input_order_iff_reverse :
    OrderFree sevenCurve apartInputs apartInputs.reverse (sevenCurve.publicKey sevenScan)
      (sevenCurve.publicKey sevenSpend) leastOutpoint paidOutput sevenScan
      (sevenCurve.publicKey sevenSpend) := by
  have nonzero : (scalars apartInputs).sum ≠ 0 := by decide
  have unbroken : Unbroken 0 (scalars apartInputs) := by decide
  have unbroken' : Unbroken 0 (scalars apartInputs.reverse) := by decide
  exact (input_order_iff sevenCurve (List.reverse_perm _) nonzero _ _ _ _ _ _).2
    (.inl (iff_of_true unbroken' unbroken))

/-- With the opposite keys next to each other the sender has no address, and the receiver
misses what was paid. -/
theorem opposite_keys_lose :
    adjacentInputs.Perm apartInputs ∧ (scalars apartInputs).sum ≠ 0 ∧
      sendAddress sevenCurve apartInputs (sevenCurve.publicKey sevenScan)
        (sevenCurve.publicKey sevenSpend) = .ok 2 ∧
      sendAddress sevenCurve adjacentInputs (sevenCurve.publicKey sevenScan)
        (sevenCurve.publicKey sevenSpend) = .error .secp ∧
      receiveCheck sevenCurve ⟨pubkeys sevenCurve apartInputs, leastOutpoint⟩ paidOutput sevenScan
        (sevenCurve.publicKey sevenSpend) = [⟨0, 5000, lastByte 1⟩] ∧
      receiveCheck sevenCurve ⟨pubkeys sevenCurve adjacentInputs, leastOutpoint⟩ paidOutput sevenScan
        (sevenCurve.publicKey sevenSpend) = [] ∧
      ¬ OrderFree sevenCurve apartInputs adjacentInputs (sevenCurve.publicKey sevenScan)
        (sevenCurve.publicKey sevenSpend) leastOutpoint paidOutput sevenScan
        (sevenCurve.publicKey sevenSpend) := by
  have missed : receiveCheck sevenCurve ⟨pubkeys sevenCurve adjacentInputs, leastOutpoint⟩ paidOutput
      sevenScan (sevenCurve.publicKey sevenSpend) = [] := by decide
  have found : receiveCheck sevenCurve ⟨pubkeys sevenCurve apartInputs, leastOutpoint⟩ paidOutput
      sevenScan (sevenCurve.publicKey sevenSpend) = [⟨0, 5000, lastByte 1⟩] := by decide
  refine ⟨.cons _ (.swap ..), by decide, by decide, by decide, found, missed, fun free => ?_⟩
  have same := free.found
  rw [missed, found] at same
  cases same

end ComputerMoney.Safety

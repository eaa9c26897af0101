/-
# Safety.SingleUse -- the paywall spends a text, not a transaction

The seller means one transaction to buy once and keeps the header texts it has accepted.
The lookup goes by the 32 bytes a text spells, and 64 hex digits spell the same bytes in
either letter case, so a second spelling of a spent payment is not found among the used
texts and buys again (`respelled_payment_buys_twice`).

`single_use_iff` says exactly when it cannot happen: no two requests name one
transaction by different texts while the chain shows it to cover the price.  The run
lemmas under it are about texts: a text unlocks at most once (`unlocked_once`), only when
it covers the price (`unlocked_covers`), and a covering text has been unlocked by the
time it is presented (`covers_unlocked`).
-/
import ComputerMoney.Kernel.Paywall
import ComputerMoney.Kernel.Script

namespace ComputerMoney.Safety

set_option autoImplicit false

open Theory Kernel

/-! ## Texts and the bytes they spell -/

/-- A text the paywall accepts as a txid spells 32 bytes. -/
theorem spells_of_isTxid {text : List Char} (accepted : isTxid text = true) :
    ∃ hash, Hex.fromHex text = some hash ∧ hash.length = 32 := by
  simp only [isTxid, Bool.and_eq_true, decide_eq_true_eq, List.all_eq_true] at accepted
  have long : text.length = 2 * 32 := by rw [← Hex.byteLength_of_digits accepted.2, accepted.1]
  exact Hex.fromHex_of_digits 32 long accepted.2

/-! ## Texts over one run -/

/-- The `i`-th request names `txid` and gets the body. -/
def Unlocked (seller : Seller) (used : List (List Char)) (arrivals : List Arrival) (i : ℕ)
    (txid : List Char) : Prop :=
  ∃ arrival reply, arrivals[i]? = some arrival ∧ arrival.names = some txid ∧
    (replies seller used arrivals)[i]? = some reply ∧ Reply.unlocks reply = true

section Run

variable {seller : Seller}

theorem unlocked_zero {used : List (List Char)} {arrival : Arrival} {arrivals : List Arrival}
    {txid : List Char} : Unlocked seller used (arrival :: arrivals) 0 txid ↔
      arrival.names = some txid ∧ Reply.unlocks (handle seller used arrival).1 = true := by
  simp [Unlocked, replies]

theorem unlocked_succ {used : List (List Char)} {arrival : Arrival} {arrivals : List Arrival}
    {i : ℕ} {txid : List Char} : Unlocked seller used (arrival :: arrivals) (i + 1) txid ↔
      Unlocked seller (handle seller used arrival).2 arrivals i txid := by
  simp [Unlocked, replies]

/-- Only an unused text that covers the price is unlocked. -/
theorem unlocked_covers {arrivals : List Arrival} {txid : List Char} :
    ∀ {used : List (List Char)} {i : ℕ}, Unlocked seller used arrivals i txid →
      txid ∉ used ∧ ∃ arrival, arrivals[i]? = some arrival ∧ arrival.names = some txid ∧
        arrival.covers seller txid = true := by
  induction arrivals with
  | nil =>
      rintro used i ⟨arrival, reply, at_, -⟩
      cases at_
  | cons arrival arrivals ih =>
      intro used i unlocked
      rcases handle_cases seller used arrival with
        ⟨first, names, fresh, covers, opened, after⟩ | ⟨-, closed, after⟩
      · cases i with
        | zero =>
            obtain ⟨names', -⟩ := unlocked_zero.1 unlocked
            obtain rfl : first = txid := Option.some.inj (names.symm.trans names')
            exact ⟨fresh, arrival, rfl, names, covers⟩
        | succ i =>
            obtain ⟨unused, later⟩ := ih (after ▸ unlocked_succ.1 unlocked)
            exact ⟨fun used => unused (List.mem_cons_of_mem _ used), later⟩
      · cases i with
        | zero => exact absurd (unlocked_zero.1 unlocked).2 (by simp [closed])
        | succ i => exact ih (after ▸ unlocked_succ.1 unlocked)

/-- A text that covers the price when it is presented has been used by then. -/
theorem covers_unlocked {arrivals : List Arrival} {arrival : Arrival} {txid : List Char} :
    ∀ {used : List (List Char)} {i : ℕ}, arrivals[i]? = some arrival →
      arrival.names = some txid → arrival.covers seller txid = true →
        txid ∈ used ∨ ∃ j, Unlocked seller used arrivals j txid := by
  induction arrivals with
  | nil =>
      intro used i at_
      cases at_
  | cons first arrivals ih =>
      intro used i at_ names covers
      cases i with
      | zero =>
          obtain rfl : first = arrival := Option.some.inj at_
          rcases handle_cases seller used first with
            ⟨txid', names', -, -, opened, -⟩ | ⟨blocked, -, -⟩
          · obtain rfl : txid' = txid := Option.some.inj (names'.symm.trans names)
            exact .inr ⟨0, unlocked_zero.2 ⟨names, opened⟩⟩
          · rcases blocked txid names with again | short
            · exact .inl again
            · rw [covers] at short
              cases short
      | succ i =>
          rcases @ih (handle seller used first).2 i at_ names covers with
            again | ⟨j, unlocked⟩
          · rcases handle_cases seller used first with
              ⟨txid', names', -, -, opened, after⟩ | ⟨-, -, after⟩
            · rw [after] at again
              rcases List.mem_cons.1 again with rfl | before
              · exact .inr ⟨0, unlocked_zero.2 ⟨names', opened⟩⟩
              · exact .inl before
            · exact .inl (after ▸ again)
          · exact .inr ⟨j + 1, unlocked_succ.2 unlocked⟩

/-- A text unlocks once. -/
theorem unlocked_once {arrivals : List Arrival} {txid : List Char} :
    ∀ {used : List (List Char)} {i j : ℕ}, Unlocked seller used arrivals i txid →
      Unlocked seller used arrivals j txid → i = j := by
  induction arrivals with
  | nil =>
      rintro used i j ⟨arrival, reply, at_, -⟩
      cases at_
  | cons arrival arrivals ih =>
      -- Once the first request has unlocked `txid`, it is used and no later one can.
      have spent : ∀ {used : List (List Char)} {j : ℕ},
          Unlocked seller used (arrival :: arrivals) 0 txid →
            ¬ Unlocked seller used (arrival :: arrivals) (j + 1) txid := by
        intro used j now later
        obtain ⟨names, opened⟩ := unlocked_zero.1 now
        rcases handle_cases seller used arrival with ⟨txid', names', -, -, -, after⟩ | ⟨-, closed, -⟩
        · obtain rfl : txid' = txid := Option.some.inj (names'.symm.trans names)
          exact (unlocked_covers (unlocked_succ.1 later)).1 (after ▸ List.mem_cons_self ..)
        · rw [opened] at closed
          cases closed
      intro used i j first second
      match i, j with
      | 0, 0 => rfl
      | 0, j + 1 => exact absurd second (spent first)
      | i + 1, 0 => exact absurd first (spent second)
      | i + 1, j + 1 => rw [ih (unlocked_succ.1 first) (unlocked_succ.1 second)]

end Run

/-! ## Transactions over one run -/

theorem isTxid_of_names {arrival : Arrival} {txid : List Char}
    (names : arrival.names = some txid) : isTxid txid = true := by
  unfold Arrival.names at names
  split at names
  · cases names
  · dsimp only at names
    split at names
    · exact (Option.filter_eq_some_iff.1 names).2
    · cases names

/-- Every 200 is bought with a text that spells 32 bytes. -/
theorem ok_unlocked {seller : Seller} {body : String} {arrivals : List Arrival} :
    ∀ {used : List (List Char)} {i : ℕ},
      (replies seller used arrivals)[i]? = some (some (.ok body)) →
        ∃ txid hash, Unlocked seller used arrivals i txid ∧ Hex.fromHex txid = some hash ∧
          hash.length = 32 := by
  induction arrivals with
  | nil =>
      intro used i got
      cases got
  | cons arrival arrivals ih =>
      intro used i got
      cases i with
      | zero =>
          have got' : (handle seller used arrival).1 = some (.ok body) := by
            simpa [replies] using got
          rcases handle_cases seller used arrival with
            ⟨txid, names, -, -, opened, -⟩ | ⟨-, closed, -⟩
          · obtain ⟨hash, spells, size⟩ := spells_of_isTxid (isTxid_of_names names)
            exact ⟨txid, hash, unlocked_zero.2 ⟨names, opened⟩, spells, size⟩
          · rw [got'] at closed
            cases closed
      | succ i =>
          obtain ⟨txid, hash, unlocked, spells⟩ := ih (i := i) (by simpa [replies] using got)
          exact ⟨txid, hash, unlocked_succ.2 unlocked, spells⟩

/-- Each transaction, by its 32 bytes, unlocks the body in at most one reply. -/
def SingleUse (seller : Seller) (arrivals : List Arrival) : Prop :=
  ∀ hash i j s t, Hex.fromHex s = some hash → Hex.fromHex t = some hash →
    Unlocked seller [] arrivals i s → Unlocked seller [] arrivals j t → i = j

/-- No transaction that covers the price is named by two different texts. -/
def OneSpelling (seller : Seller) (arrivals : List Arrival) : Prop :=
  ∀ hash, ∀ a ∈ arrivals, ∀ b ∈ arrivals, ∀ s t, a.names = some s → b.names = some t →
    Hex.fromHex s = some hash → Hex.fromHex t = some hash →
    a.covers seller s = true → b.covers seller t = true → s = t

/-- **A transaction buys once exactly when it is presented under one spelling.** -/
theorem single_use_iff (seller : Seller) (arrivals : List Arrival) :
    SingleUse seller arrivals ↔ OneSpelling seller arrivals := by
  constructor
  · intro once hash a inRun b inRun' s t names names' spells spells' covers covers'
    obtain ⟨i, here⟩ := List.mem_iff_getElem?.1 inRun
    obtain ⟨j, there⟩ := List.mem_iff_getElem?.1 inRun'
    obtain nothing | ⟨i', first⟩ := @covers_unlocked seller arrivals a s [] i here names covers
    · cases nothing
    obtain nothing | ⟨j', second⟩ := @covers_unlocked seller arrivals b t [] j there names' covers'
    · cases nothing
    obtain rfl := once hash i' j' s t spells spells' first second
    obtain ⟨-, x, at_, is, -⟩ := unlocked_covers first
    obtain ⟨-, y, at_', is', -⟩ := unlocked_covers second
    obtain rfl : x = y := Option.some.inj (at_.symm.trans at_')
    exact Option.some.inj (is.symm.trans is')
  · intro spelling hash i j s t spells spells' first second
    obtain ⟨-, a, at_, names, covers⟩ := unlocked_covers first
    obtain ⟨-, b, at_', names', covers'⟩ := unlocked_covers second
    obtain rfl := spelling hash a (List.mem_of_getElem? at_) b (List.mem_of_getElem? at_') s t
      names names' spells spells' covers covers'
    exact unlocked_once first second

/-! ## Two spellings -/

/-- The other spelling of the sample txid. -/
def sampleTxidUpper : String := "4A5E1E4BAAB89F3A32518A88C31BC87F618F76673E2CC77AB2127B7AFDEDA33B"

/-- Sells for 300 sats, from a wallet the sample transaction pays 1000. -/
def sampleSeller : Seller where
  host := { Host.sample .signet Policy.default with
    txMatches := fun tx =>
      if tx.txid = sampleTxid then [⟨0, 1000, List.replicate 32 7⟩] else [] }
  priceSats := 300
  body := "cm paywall: payment received.\n"
  spCode := "tsp1qqexample"

/-- A `GET` that presents `txid`, while the chain holds the sample transaction. -/
def presents (txid : String) : Arrival where
  stream := .ok ("GET / HTTP/1.1\r\nX-Payment: ".toList ++ txid.toList ++ "\r\n\r\n".toList)
  chain text :=
    if Hex.fromHex text = Hex.fromHex sampleTxid.toList then .ok ⟨sampleTxid, [], []⟩
    else .error "status code 404"

/-- The chain goes by the bytes, whatever the letter case, and still one transaction
unlocks the body twice. -/
theorem respelled_payment_buys_twice :
    (1 ≤ sampleSeller.priceSats ∧ ∀ txid s t, Hex.fromHex s = Hex.fromHex t →
      (presents txid).chain s = (presents txid).chain t) ∧
    ¬ SingleUse sampleSeller [presents sampleTxid, presents sampleTxidUpper] := by
  refine ⟨⟨by decide, fun txid s t same => by simp only [presents, same]⟩, fun once => ?_⟩
  have first : Unlocked sampleSeller [] [presents sampleTxid, presents sampleTxidUpper] 0
      sampleTxid.toList :=
    ⟨_, some (.ok sampleSeller.body), rfl, by decide, by decide, rfl⟩
  have second : Unlocked sampleSeller [] [presents sampleTxid, presents sampleTxidUpper] 1
      sampleTxidUpper.toList :=
    ⟨_, some (.ok sampleSeller.body), rfl, by decide, by decide, rfl⟩
  have spelt : Hex.fromHex sampleTxidUpper.toList = Hex.fromHex sampleTxid.toList := by decide
  obtain ⟨hash, read, -⟩ := spells_of_isTxid (show isTxid sampleTxid.toList = true by decide)
  have same := once hash 0 1 _ _ read (spelt.trans read) first second
  cases same

end ComputerMoney.Safety

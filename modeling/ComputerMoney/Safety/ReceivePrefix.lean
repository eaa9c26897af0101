/-
# Safety.ReceivePrefix -- the receiver finds the unbroken run of its keys

The loop derives one key after another and takes each out of a shrinking list, until one is
missing or nothing is left.  What is left at index `k` is what carries none of the first `k`
keys (`Left`), so the loop reads the outputs through the derived keys, up to the first that
none of them carries: `receive_finds_prefix`.  Reading through keys does not look at the
order of the rows (`FirstMatch.lookup_perm`), so neither does the receiver.

An index is four bytes on the way into the hash, so the keys repeat after `2 ^ 32`; what is
asked of them is asked below that, and no further than the number of outputs reaches.
-/
import ComputerMoney.Theory.FirstMatch
import ComputerMoney.Safety.SilentPaymentFound
import Mathlib.Data.List.Perm.Subperm

namespace ComputerMoney.Safety

set_option autoImplicit false

open Theory
open Kernel hiding PublicKey Error
open Kernel.Sp

namespace ReceivePrefix

section

variable {F G X : Type} [Field F] [AddCommGroup G] [Module F G] [DecidableEq F] [DecidableEq G]
  [DecidableEq X] (secp : Secp F G X)

/-! ## The derived keys -/

/-- The indexes there are. -/
def indexes : ℕ := 2 ^ 32

theorem leBytes_add (n k : ℕ) : leBytes n (k + 256 ^ n) = leBytes n k := by
  induction n generalizing k with
  | zero => rfl
  | succ n ih =>
      have low : (k + 256 ^ (n + 1)) % 256 = k % 256 := by
        rw [Nat.pow_succ, Nat.add_mul_mod_self_right]
      have high : (k + 256 ^ (n + 1)) / 256 = k / 256 + 256 ^ n := by
        rw [Nat.pow_succ, Nat.add_mul_div_right _ _ (by decide)]
      rw [leBytes, leBytes, low, high, ih]

omit [DecidableEq X] in
/-- After the last index the first comes again. -/
theorem outputAt_wraps (ecdh spend : Point G) :
    outputAt secp ecdh spend indexes = outputAt secp ecdh spend 0 := by
  have same : tweakAt secp ecdh indexes = tweakAt secp ecdh 0 := by
    rw [tweakAt, tweakAt, show indexes = 0 + 256 ^ 4 from rfl, leBytes_add]
  rw [outputAt, outputAt, same]

/-- `key` and `tweak` are what is derived, without error and without repetition, at every
index up to `count`. -/
structure KeysDerive (ecdh spend : Point G) (count : ℕ) (key : ℕ → X) (tweak : ℕ → List UInt8) :
    Prop where
  derived : ∀ k ≤ count, k < indexes → outputAt secp ecdh spend k = .ok (key k, tweak k)
  apart : ∀ i j, i < j → j ≤ count → j < indexes → key i ≠ key j

/-! ## The outputs as a table -/

def keys (outputs : List (ℕ × X × ℕ)) : List X := outputs.map fun o => o.2.1

/-- Index and value of the outputs, by key. -/
def table (outputs : List (ℕ × X × ℕ)) : List (X × ℕ × ℕ) :=
  outputs.map fun o => (o.2.1, o.1, o.2.2)

/-- What is to be reported of the key at index `k`. -/
def foundAt (outputs : List (ℕ × X × ℕ)) (key : ℕ → X) (tweak : ℕ → List UInt8) (k : ℕ) :
    Option SpFound :=
  ((table outputs).lookup (key k)).map fun o => ⟨o.1, o.2, tweak k⟩

/-- `m` is the first index whose key no output carries, or there is none and `m` is past
the last. -/
structure FirstMissing (outputs : List (ℕ × X × ℕ)) (key : ℕ → X) (m : ℕ) : Prop where
  bound : m ≤ indexes
  present : ∀ k < m, key k ∈ keys outputs
  missing : m < indexes → key m ∉ keys outputs

omit [Field F] [AddCommGroup G] [Module F G] [DecidableEq F] [DecidableEq G] [DecidableEq X] in
theorem keys_table (outputs : List (ℕ × X × ℕ)) : (table outputs).map Prod.fst = keys outputs := by
  simp [table, keys]

variable {secp} {outputs : List (ℕ × X × ℕ)} {key : ℕ → X} {tweak : ℕ → List UInt8} {m : ℕ}

omit [Field F] [AddCommGroup G] [Module F G] [DecidableEq F] [DecidableEq G] in
/-- The output with the key at index `k` is what is reported. -/
theorem foundAt_mem (distinct : (keys outputs).Nodup) {k vout sats : ℕ}
    (member : (vout, key k, sats) ∈ outputs) :
    foundAt outputs key tweak k = some ⟨vout, sats, tweak k⟩ := by
  have row : (key k, vout, sats) ∈ table outputs := List.mem_map.2 ⟨_, member, rfl⟩
  rw [← keys_table] at distinct
  rw [foundAt, (FirstMatch.lookup_eq_some_iff distinct).2 row]
  rfl

omit [Field F] [AddCommGroup G] [Module F G] [DecidableEq F] [DecidableEq G] [DecidableEq X] in
theorem mem_keys {x : X} : x ∈ keys outputs ↔ ∃ vout sats, (vout, x, sats) ∈ outputs := by
  simp [keys]

omit [Field F] [AddCommGroup G] [Module F G] [DecidableEq F] [DecidableEq G] [DecidableEq X] in
theorem keys_perm {outputs' : List (ℕ × X × ℕ)} (perm : outputs'.Perm outputs) :
    (keys outputs').Perm (keys outputs) := perm.map _

/-! ## The loop -/

/-- What is left at index `k`: the outputs that carry none of the first `k` keys. -/
structure Left (outputs : List (ℕ × X × ℕ)) (key : ℕ → X) (k : ℕ)
    (remaining : List (ℕ × X × ℕ)) : Prop where
  distinct : (keys remaining).Nodup
  mem : ∀ o, o ∈ remaining ↔ o ∈ outputs ∧ ∀ i < k, o.2.1 ≠ key i

omit [Field F] [AddCommGroup G] [Module F G] [DecidableEq F] [DecidableEq G] in
/-- Taking the key at index `k` leaves what the next index needs. -/
theorem Left.take {k vout sats : ℕ} {remaining rest : List (ℕ × X × ℕ)}
    (left : Left outputs key k remaining)
    (taken : takeKey (key k) remaining = some ((vout, key k, sats), rest)) :
    Left outputs key (k + 1) rest ∧ rest.length < remaining.length := by
  have split := takeKey_perm taken
  have distinct : (keys ((vout, key k, sats) :: rest)).Nodup :=
    (keys_perm split).nodup_iff.1 left.distinct
  obtain ⟨others, rest_distinct⟩ := List.nodup_cons.1 distinct
  refine ⟨⟨rest_distinct, fun o => ?_⟩, by simp [split.length_eq]⟩
  have here : o ∈ remaining ↔ o = (vout, key k, sats) ∨ o ∈ rest := by
    rw [split.mem_iff, List.mem_cons]
  constructor
  · intro member
    obtain ⟨among, earlier⟩ := (left.mem o).1 (here.2 (.inr member))
    refine ⟨among, fun i before same => ?_⟩
    rcases Nat.lt_succ_iff_lt_or_eq.1 before with lower | rfl
    · exact earlier i lower same
    · exact others (List.mem_map.2 ⟨o, member, same⟩)
  · rintro ⟨among, none⟩
    have known := here.1 ((left.mem o).2 ⟨among, fun i lower => none i (Nat.lt_succ_of_lt lower)⟩)
    rcases known with rfl | member
    · exact absurd rfl (none k (Nat.lt_succ_self k))
    · exact member

omit [Field F] [AddCommGroup G] [Module F G] [DecidableEq F] [DecidableEq G] in
theorem takeKey_none {x : X} {remaining : List (ℕ × X × ℕ)} (absent : x ∉ keys remaining) :
    takeKey x remaining = none := by
  induction remaining with
  | nil => rfl
  | cons o remaining ih =>
      obtain ⟨other, absent⟩ := not_or.1 (mt List.mem_cons.2 absent)
      rw [takeKey, if_neg (Ne.symm other), ih absent, Option.map_none]

omit [DecidableEq X] in
/-- An output with the key at index `k` is still there at index `k`. -/
theorem Left.holds {ecdh spend : Point G} {k : ℕ} {remaining : List (ℕ × X × ℕ)}
    (left : Left outputs key k remaining)
    (derives : KeysDerive secp ecdh spend outputs.length key tweak)
    (first : FirstMissing outputs key m) (short : m ≤ outputs.length) (early : k < m) :
    ∃ vout sats, (vout, key k, sats) ∈ remaining := by
  obtain ⟨vout, sats, member⟩ := mem_keys.1 (first.present k early)
  refine ⟨vout, sats, (left.mem _).2 ⟨member, fun i lower same => ?_⟩⟩
  have bound := first.bound
  exact derives.apart i k lower (by omega) (by omega) same.symm

/-- At the first missing index the loop ends. -/
theorem Left.ends {ecdh spend : Point G} {turns : ℕ} {remaining : List (ℕ × X × ℕ)}
    (left : Left outputs key m remaining)
    (derives : KeysDerive secp ecdh spend outputs.length key tweak)
    (first : FirstMissing outputs key m) (short : m ≤ outputs.length) :
    receiveLoop secp ecdh spend turns m remaining = .ok [] := by
  match remaining, turns with
  | [], _ => simp [receiveLoop]
  | _ :: _, 0 => simp [receiveLoop]
  | o :: others, turns + 1 =>
      have ended : ∀ x t, outputAt secp ecdh spend m = .ok (x, t) → x ∉ keys (o :: others) →
          receiveLoop secp ecdh spend (turns + 1) m (o :: others) = .ok [] := by
        intro x t derived absent
        exact bind_ok.2 ⟨_, derived, by simp only [takeKey_none absent]; rfl⟩
      rcases Nat.lt_or_eq_of_le first.bound with within | rfl
      · refine ended _ _ (derives.derived m short within) fun known => ?_
        obtain ⟨vout, sats, member⟩ := mem_keys.1 known
        exact first.missing within (mem_keys.2 ⟨vout, sats, ((left.mem _).1 member).1⟩)
      · -- Past the last index the key at 0 comes again, and it was taken at 0.
        have again := derives.derived 0 (Nat.zero_le _) (by decide)
        refine ended _ _ ((outputAt_wraps secp ecdh spend).trans again) fun known => ?_
        obtain ⟨vout, sats, member⟩ := mem_keys.1 known
        exact ((left.mem _).1 member).2 0 (by decide) rfl

/-- **The loop reads the outputs through the keys**, from any index on. -/
theorem receiveLoop_prefix {ecdh spend : Point G} (distinct : (keys outputs).Nodup)
    (derives : KeysDerive secp ecdh spend outputs.length key tweak)
    (first : FirstMissing outputs key m) (short : m ≤ outputs.length) {turns k : ℕ}
    {remaining : List (ℕ × X × ℕ)} (left : Left outputs key k remaining)
    (enough : remaining.length ≤ turns) (early : k ≤ m) :
    receiveLoop secp ecdh spend turns k remaining =
      .ok ((List.range' k (m - k)).filterMap (foundAt outputs key tweak)) := by
  induction turns generalizing k remaining with
  | zero =>
      obtain rfl := List.length_eq_zero_iff.1 (Nat.le_zero.1 enough)
      rcases Nat.lt_or_eq_of_le early with before | rfl
      · obtain ⟨vout, sats, member⟩ := left.holds derives first short before
        cases member
      · rw [Nat.sub_self, left.ends derives first short]
        rfl
  | succ turns ih =>
      rcases Nat.lt_or_eq_of_le early with before | rfl
      · obtain ⟨vout, sats, member⟩ := left.holds derives first short before
        obtain ⟨rest, taken⟩ := takeKey_mem member left.distinct
        obtain ⟨left', fewer⟩ := left.take taken
        have bound := first.bound
        have more := ih left' (by omega) before
        have reported : foundAt outputs key tweak k = some ⟨vout, sats, tweak k⟩ :=
          foundAt_mem distinct ((left.mem _).1 member).1
        match remaining with
        | o :: others =>
            refine bind_ok.2 ⟨_, derives.derived k (by omega) (by omega), ?_⟩
            simp only [taken, more]
            rw [show m - k = m - (k + 1) + 1 by omega, List.range'_succ,
              List.filterMap_cons_some reported]
            rfl
      · rw [Nat.sub_self, left.ends derives first short]
        rfl

/-! ## The first missing index -/

omit [DecidableEq X] in
/-- There is one, not past the number of outputs: more keys than outputs are not all among
them. -/
theorem exists_firstMissing {ecdh spend : Point G}
    (derives : KeysDerive secp ecdh spend outputs.length key tweak) :
    ∃ m ≤ outputs.length, FirstMissing outputs key m := by
  classical
  have some_ : ∃ m, m = indexes ∨ key m ∉ keys outputs := ⟨indexes, .inl rfl⟩
  have before : ∀ k < Nat.find some_, k ≠ indexes ∧ key k ∈ keys outputs := by
    intro k lower
    simpa [not_or] using Nat.find_min some_ lower
  have bound : Nat.find some_ ≤ indexes := Nat.find_min' some_ (.inl rfl)
  refine ⟨Nat.find some_, ?_, bound, fun k lower => (before k lower).2, fun within => ?_⟩
  · by_contra long
    have distinct : ((List.range (outputs.length + 1)).map key).Nodup := by
      refine List.Nodup.map_on (fun i iIn j jIn same => ?_) List.nodup_range
      rw [List.mem_range] at iIn jIn
      rcases Nat.lt_trichotomy i j with lower | rfl | higher
      · exact absurd same (derives.apart i j lower (by omega) (by omega))
      · rfl
      · exact absurd same.symm (derives.apart j i higher (by omega) (by omega))
    have among : (List.range (outputs.length + 1)).map key ⊆ keys outputs := by
      intro x member
      obtain ⟨k, inRange, rfl⟩ := List.mem_map.1 member
      exact (before k (by rw [List.mem_range] at inRange; omega)).2
    have lengths := (List.subperm_of_subset distinct among).length_le
    simp [keys] at lengths
  · exact (Nat.find_spec some_).resolve_left (Nat.ne_of_lt within)

omit [Field F] [AddCommGroup G] [Module F G] [DecidableEq F] [DecidableEq G] [DecidableEq X] in
/-- Which index is missing first does not depend on the order of the outputs. -/
theorem FirstMissing.perm {outputs' : List (ℕ × X × ℕ)} (first : FirstMissing outputs key m)
    (perm : outputs'.Perm outputs) : FirstMissing outputs' key m where
  bound := first.bound
  present k lower := (keys_perm perm).mem_iff.2 (first.present k lower)
  missing within := mt (keys_perm perm).mem_iff.1 (first.missing within)

theorem filterMap_range {α : Type} {f : ℕ → Option α} {m : ℕ}
    (each : ∀ k < m, ∃ a, f k = some a) :
    ((List.range m).filterMap f).length = m ∧
      ∀ k < m, ((List.range m).filterMap f)[k]? = f k := by
  induction m with
  | zero => exact ⟨rfl, nofun⟩
  | succ m ih =>
      obtain ⟨length, at_⟩ := ih fun k lower => each k (Nat.lt_succ_of_lt lower)
      obtain ⟨a, last⟩ := each m (Nat.lt_succ_self m)
      have grown : (List.range (m + 1)).filterMap f = (List.range m).filterMap f ++ [a] := by
        simp [List.range_succ, List.filterMap_append, last]
      rw [grown]
      refine ⟨by simp [length], fun k lower => ?_⟩
      rcases Nat.lt_succ_iff_lt_or_eq.1 lower with before | rfl
      · rw [List.getElem?_append_left (length.symm ▸ before), at_ k before]
      · rw [List.getElem?_append_right (Nat.le_of_eq length), length, Nat.sub_self, last]
        rfl

/-! ## The result -/

/-- What the check returns, as a function of the first missing index. -/
theorem receiveCheck_prefix {inputs : TxInputs G} {scanSk : Secret F} {ecdh spend : Point G}
    (distinct : (keys outputs).Nodup) (shared : receiveShared secp inputs scanSk = .ok ecdh)
    (derives : KeysDerive secp ecdh spend outputs.length key tweak)
    (first : FirstMissing outputs key m) (short : m ≤ outputs.length) :
    receiveCheck secp inputs outputs scanSk spend =
      (List.range m).filterMap (foundAt outputs key tweak) := by
  have start : Left outputs key 0 outputs := ⟨distinct, fun o => by simp⟩
  have looped := receiveLoop_prefix distinct derives first short start (Nat.le_refl _)
    (Nat.zero_le m)
  have ran : receiveInner secp inputs outputs scanSk spend =
      .ok ((List.range m).filterMap (foundAt outputs key tweak)) := by
    rw [List.range_eq_range']
    exact bind_ok.2 ⟨ecdh, shared, looped⟩
  rw [receiveCheck, ran]

/-- The tweak opens the key: added to the spend key, on the curve or as a secret, it gives
the key. -/
structure Opens (secp : Secp F G X) (spendSk : Secret F) (tweak : List UInt8) (x : X) : Prop where
  point : ∃ t, secp.scalarOf tweak = some t ∧
    secp.xOnly (spendSk.1 • secp.gen + t • secp.gen) = x
  keypair : ∃ d, spendKeypair secp spendSk tweak = .ok d ∧ secp.xOnly (secp.publicKey d).1 = x

omit [DecidableEq X] in
theorem opens_derived {ecdh : Point G} {spendSk : Secret F} {k : ℕ} {x : X} {t : List UInt8}
    (derived : outputAt secp ecdh (secp.publicKey spendSk) k = .ok (x, t)) :
    Opens secp spendSk t x := by
  refine ⟨?_, spendKeypair_outputAt secp derived⟩
  obtain ⟨d, opened, is⟩ := spendKeypair_outputAt secp derived
  obtain ⟨s, read, adds⟩ := bind_ok.1 opened
  refine ⟨s, orFail_ok.1 read, ?_⟩
  have added := orFail_ok.1 adds
  unfold addTweak at added
  split at added
  · cases added
    rw [← is, ← add_smul]
    rfl
  · cases added

end

end ReceivePrefix

open ReceivePrefix

section

variable {F G X : Type} [Field F] [AddCommGroup G] [Module F G] [DecidableEq F] [DecidableEq G]
  [DecidableEq X] (secp : Secp F G X)

/-- **The receiver finds the unbroken run of its keys, and nothing else.**  Among outputs with
distinct keys, it reports those with the keys at `0, …, m - 1`, in that order, where `m` is
the first index whose key is missing; each with its own index and value and with the tweak
that opens its key; and the order of the outputs changes nothing. -/
theorem receive_finds_prefix {inputs : TxInputs G} {outputs : List (ℕ × X × ℕ)}
    {scanSk spendSk : Secret F} {ecdh : Point G} {key : ℕ → X} {tweak : ℕ → List UInt8}
    (distinct : (keys outputs).Nodup) (shared : receiveShared secp inputs scanSk = .ok ecdh)
    (derives : KeysDerive secp ecdh (secp.publicKey spendSk) outputs.length key tweak) :
    (∃ m, FirstMissing outputs key m ∧
      (receiveCheck secp inputs outputs scanSk (secp.publicKey spendSk)).length = m ∧
      ∀ k < m, ∃ vout sats, (vout, key k, sats) ∈ outputs ∧
        (receiveCheck secp inputs outputs scanSk (secp.publicKey spendSk))[k]? =
          some ⟨vout, sats, tweak k⟩ ∧
        Opens secp spendSk (tweak k) (key k)) ∧
    ∀ outputs', outputs'.Perm outputs →
      receiveCheck secp inputs outputs' scanSk (secp.publicKey spendSk) =
        receiveCheck secp inputs outputs scanSk (secp.publicKey spendSk) := by
  obtain ⟨m, short, first⟩ := exists_firstMissing derives
  have is := receiveCheck_prefix distinct shared derives first short
  have each : ∀ k < m, ∃ vout sats, (vout, key k, sats) ∈ outputs ∧
      foundAt outputs key tweak k = some ⟨vout, sats, tweak k⟩ := by
    intro k lower
    obtain ⟨vout, sats, member⟩ := mem_keys.1 (first.present k lower)
    exact ⟨vout, sats, member, foundAt_mem distinct member⟩
  have some_ : ∀ k < m, ∃ f, foundAt outputs key tweak k = some f := by
    intro k lower
    obtain ⟨vout, sats, -, reported⟩ := each k lower
    exact ⟨_, reported⟩
  obtain ⟨length, at_⟩ := filterMap_range some_
  refine ⟨⟨m, first, is ▸ length, fun k lower => ?_⟩, fun outputs' perm => ?_⟩
  · obtain ⟨vout, sats, member, reported⟩ := each k lower
    have bound := first.bound
    refine ⟨vout, sats, member, ?_, opens_derived (derives.derived k (by omega) (by omega))⟩
    rw [is, at_ k lower, reported]
  · have lengths := perm.length_eq
    have distinct' := (keys_perm perm).nodup_iff.2 distinct
    rw [is, receiveCheck_prefix distinct' shared (lengths ▸ derives) (first.perm perm)
      (lengths ▸ short)]
    have rows : (table outputs').Perm (table outputs) := perm.map _
    have once : ((table outputs).map Prod.fst).Nodup := by
      rw [keys_table]
      exact distinct
    refine List.filterMap_congr fun k _ => ?_
    rw [foundAt, foundAt, FirstMatch.lookup_perm once rows]

end

/-! ## One key found, the next missing -/

namespace ReceivePrefix

/-- The first three indexes hash to 1, 2 and 6. -/
def numberedTweak (k : ℕ) : List UInt8 := lastByte (if k = 0 then 1 else if k = 1 then 2 else 6)

/-- The integers modulo 7, with a hash that depends on the index. -/
def numberedCurve : Secp (ZMod 7) (ZMod 7) (ZMod 7) :=
  { sevenCurve with
    taggedHash := fun tag msg =>
      if tag = "BIP0352/Inputs" then lastByte 3
      else numberedTweak (msg.getLast?.getD 0).toNat }

def numberedKey (k : ℕ) : ZMod 7 := (if k = 0 then 2 else if k = 1 then 1 else 3 : ℕ)

def oneInput : TxInputs (ZMod 7) := ⟨[sevenSecret 3], ([], 0)⟩

/-- An unrelated output, then the one with the first key. -/
def twoOutputs : List (ℕ × ZMod 7 × ℕ) := [(4, (5 : ℕ), 100), (3, numberedKey 0, 900)]

end ReceivePrefix

theorem receive_finds_prefix_one :
    receiveCheck numberedCurve oneInput twoOutputs sevenScan (numberedCurve.publicKey sevenSpend) =
        [⟨3, 900, numberedTweak 0⟩] ∧
      receiveCheck numberedCurve oneInput twoOutputs.reverse sevenScan
          (numberedCurve.publicKey sevenSpend) =
        receiveCheck numberedCurve oneInput twoOutputs sevenScan
          (numberedCurve.publicKey sevenSpend) := by
  have distinct : (keys twoOutputs).Nodup := by decide
  have shared : receiveShared numberedCurve oneInput sevenScan = .ok ⟨4, by decide⟩ := by decide
  have derived : ∀ k ≤ 2, outputAt numberedCurve ⟨4, by decide⟩
      (numberedCurve.publicKey sevenSpend) k = .ok (numberedKey k, numberedTweak k) := by decide
  have apart : ∀ j ≤ 2, ∀ i < j, numberedKey i ≠ numberedKey j := by decide
  have derives : KeysDerive numberedCurve ⟨4, by decide⟩ (numberedCurve.publicKey sevenSpend)
      twoOutputs.length numberedKey numberedTweak :=
    ⟨fun k upTo _ => derived k upTo, fun i j lower upTo _ => apart j upTo i lower⟩
  refine ⟨by decide, ?_⟩
  have found := receive_finds_prefix numberedCurve distinct shared derives
  exact found.2 _ (List.reverse_perm _)

end ComputerMoney.Safety

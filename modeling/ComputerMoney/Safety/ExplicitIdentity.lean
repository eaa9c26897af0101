/-
# Safety.ExplicitIdentity -- whether CM_ID decides which wallet is loaded

`CM_ID` may be as short as its user likes or as long as the whole identity, and the names it is
compared with have eight characters.  A short one is a prefix of exactly one name, and what is
loaded begins with the name, so all of it is honoured.  Of a long one only the first eight
characters are compared, with the name; the wallet is then compared with the name again, and
never with the rest (`explicit_identity`).
-/
import ComputerMoney.Kernel.Storage

namespace ComputerMoney.Safety

set_option autoImplicit false

open Theory Kernel Kernel.Storage

namespace ExplicitIdentity

/-! ## What a selector asks for -/

/-- This `CM_ID`, and no mnemonic, in the environment. -/
def selecting (env : Env) (cmId : List Char) : Env :=
  { env with cmMnemonic := none, cmId := some cmId }

/-- A name and a selector agree as far as both go. -/
def Compatible (id want : List Char) : Prop := id <+: want ∨ want <+: id

section

variable {Xpriv : Type} (crypto : Crypto Xpriv)

/-- The identity of `w` begins with `want`, and no stored identity is compatible with it but the
one that `w` is stored under. -/
def Honours (root : Root) (want : List Char) (w : Wallet Xpriv) : Prop :=
  ∃ actual, w.idHex crypto = .ok actual ∧ actual.length = 64 ∧ want <+: actual ∧
    ∀ id ∈ walletIds root, Compatible id want → id = actual.take 8

/-- The wallet stored under the first eight characters of `want`, if there is one that opens
and belongs there, has an identity that goes on as `want` does. -/
def GoesOn (env : Env) (root : Root) (want : List Char) : Prop :=
  ∀ id ∈ walletIds root, id <+: want → ∀ (w : Wallet Xpriv) (actual : List Char),
    openIdentity crypto env root id = .ok w → w.idHex crypto = .ok actual → id <+: actual →
      want <+: actual

end

/-! ## What is hit -/

section

variable {root : Root} {id want : List Char}

/-- A selector that goes on after a name is long. -/
theorem long_of_front (stored : id ∈ walletIds root) (front : id <+: want) :
    8 ≤ Text.byteLength want := by
  obtain ⟨rest, rfl⟩ := front
  have size := (length_of_isIdName (isIdName_of_mem stored)).2
  rw [Text.byteLength_append]
  omega

/-- A long selector that is a prefix of a name is that name. -/
theorem eq_of_long (stored : id ∈ walletIds root) (front : want <+: id)
    (long : 8 ≤ Text.byteLength want) : id = want := by
  obtain ⟨rest, is⟩ := front
  have size := (length_of_isIdName (isIdName_of_mem stored)).2
  have none_left : Text.byteLength rest = 0 := by
    rw [← is, Text.byteLength_append] at size
    omega
  cases rest with
  | nil => rw [← is, List.append_nil]
  | cons c rest =>
      have some_ := c.utf8Size_pos
      rw [Text.byteLength_cons] at none_left
      omega

/-- What is hit is what is compatible. -/
theorem mem_hits : id ∈ hits (walletIds root) want ↔ id ∈ walletIds root ∧ Compatible id want := by
  rw [hits, List.mem_filter]
  apply and_congr_right
  intro stored
  by_cases long : 8 ≤ Text.byteLength want
  · rw [if_pos long, startsWith_iff]
    constructor
    · exact .inl
    · rintro (front | front)
      · exact front
      · rw [eq_of_long stored front long]
  · rw [if_neg long, startsWith_iff]
    constructor
    · exact .inr
    · rintro (front | front)
      · exact absurd (long_of_front stored front) long
      · exact front

/-- One identity is hit, if it is the only one that is compatible. -/
theorem hits_eq_singleton : hits (walletIds root) want = [id] ↔
    (id ∈ walletIds root ∧ Compatible id want) ∧
      ∀ other ∈ walletIds root, Compatible other want → other = id := by
  have once : (hits (walletIds root) want).Nodup := (nodup_walletIds root).filter _
  rw [← List.perm_singleton, List.perm_ext_iff_of_nodup once (List.nodup_singleton id)]
  constructor
  · intro same
    refine ⟨mem_hits.1 ((same id).2 (List.mem_singleton_self id)), fun other stored agrees => ?_⟩
    exact List.mem_singleton.1 ((same other).1 (mem_hits.2 ⟨stored, agrees⟩))
  · intro ⟨own, only⟩ other
    rw [mem_hits, List.mem_singleton]
    constructor
    · intro ⟨stored, agrees⟩
      exact only other stored agrees
    · rintro rfl
      exact own

/-- Names of one length that are prefixes of one text are the same. -/
theorem only_prefix {other : List Char} (stored : id ∈ walletIds root) (front : id <+: want)
    (stored' : other ∈ walletIds root) (agrees : Compatible other want) : other = id := by
  have length := (length_of_isIdName (isIdName_of_mem stored)).1
  have length' := (length_of_isIdName (isIdName_of_mem stored')).1
  have front' : other <+: want := by
    rcases agrees with front' | front'
    · exact front'
    · rw [eq_of_long stored' front' (long_of_front stored front)]
  exact (List.prefix_of_prefix_length_le front' front (by omega)).eq_of_length (by omega)

end

end ExplicitIdentity

open ExplicitIdentity

/-- **An explicit identity is honoured, except past its eighth character.**  For every crypto,
environment, root and `CM_ID`: whatever wallet is loaded is the one that the trimmed `CM_ID` names
if and only if the wallet stored under its first eight characters goes on as it does. -/
theorem explicit_identity {Xpriv : Type} (crypto : Crypto Xpriv) (env : Env) (root : Root)
    (cmId : List Char) :
    (∀ w, loadWallet crypto (selecting env cmId) root = .ok w →
        Honours crypto root (Text.trim cmId) w) ↔
      GoesOn crypto env root (Text.trim cmId) := by
  constructor
  · intro honoured id stored front w actual opened is named
    have hit : hits (walletIds root) (Text.trim cmId) = [id] :=
      hits_eq_singleton.2 ⟨⟨stored, .inl front⟩, fun other stored' agrees =>
        only_prefix stored front stored' agrees⟩
    have loaded : loadWallet crypto (selecting env cmId) root = .ok w :=
      (loadWallet_ok rfl).2 ⟨id, actual, pickIdentity_explicit.2 hit, opened, is, named⟩
    obtain ⟨actual', is', -, begins, -⟩ := honoured w loaded
    rw [is] at is'
    cases is'
    exact begins
  · intro goesOn w loaded
    obtain ⟨id, actual, picked, opened, is, named⟩ := (loadWallet_ok rfl).1 loaded
    obtain ⟨⟨stored, agrees⟩, only⟩ := hits_eq_singleton.1 (pickIdentity_explicit.1 picked)
    have length := (length_of_isIdName (isIdName_of_mem stored)).1
    have own : id = actual.take 8 := by rw [← length, ← List.prefix_iff_eq_take.1 named]
    refine ⟨actual, is, length_idHex is, ?_, fun other stored' agrees' => ?_⟩
    · rcases agrees with front | front
      · exact goesOn id stored front w actual opened is named
      · exact front.trans named
    · exact (only other stored' agrees').trans own

/-! ## A wrong ninth character -/

namespace ExplicitIdentity

/-- Every wallet has the identity `1111…`. -/
def onesCrypto : Crypto Unit where
  seedOf _ := .ok []
  newMaster _ _ := .ok ()
  derivePriv _ _ := .ok []
  x25519Public _ := ⟨List.replicate 32 0x11, rfl⟩
  argon2 _ _ := .ok []
  decrypt _ _ _ := none

def onesName : List Char := List.replicate 8 '1'

/-- One identity, its mnemonic in the clear. -/
def onesRoot : Root where
  listing := [⟨some onesName, true⟩, ⟨some "default".toList, false⟩]
  distinct := by decide
  marker := some (onesName ++ ['\n'])
  dir _ := ⟨none, some (.ok "abandon".toList)⟩

def onSignet : Env := ⟨none, none, none, some "signet".toList⟩

/-- The identity's first eight characters, and `ff` instead of `11`. -/
def mistyped : List Char := onesName ++ "ff".toList

end ExplicitIdentity

/-- `CM_ID=11111111ff` loads the wallet `1111111111…`. -/
theorem mistyped_identity_loaded :
    ∃ w, loadWallet onesCrypto (selecting onSignet mistyped) onesRoot = .ok w ∧
      w.idHex onesCrypto = .ok (List.replicate 64 '1') ∧
      ¬ Honours onesCrypto onesRoot (Text.trim mistyped) w := by
  refine ⟨⟨(), .signet⟩, by rfl, by decide +kernel, ?_⟩
  intro ⟨actual, is, _, begins, _⟩
  have identity : (⟨(), .signet⟩ : Wallet Unit).idHex onesCrypto = .ok (List.replicate 64 '1') := by
    decide +kernel
  rw [identity] at is
  cases is
  exact absurd begins (by decide)

end ComputerMoney.Safety

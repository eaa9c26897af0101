/-
# Kernel.Storage -- which stored identity is loaded

Every wallet has a directory under the config root, named by the first eight characters of its
identity, the 64 hex digits of its X25519 key.  `pick_identity` chooses one of them: by `CM_ID`
if it is set, else by the `default` marker, else the only one there.  `load_wallet` opens what
was chosen, sealed or in the clear, and refuses a wallet whose identity does not begin with the
name of its directory.

The libraries are parameters (`Crypto`); an environment variable that is not Unicode reads as
one that is not set, as it does to `env::var(..).ok()`.
-/
import ComputerMoney.Kernel.Host
import ComputerMoney.Theory.Hex
import ComputerMoney.Theory.Lines
import Mathlib.Data.Char
import Mathlib.Data.List.Lex
import Mathlib.Data.List.Sort

namespace ComputerMoney.Kernel.Storage

set_option autoImplicit false

open Theory

/-! ## Wallets -/

/-- BIP-39, BIP-32 and X25519, and the sealing of seed files. -/
structure Crypto (Xpriv : Type) where
  /-- `Mnemonic::from_str(..)?.to_seed("")`. -/
  seedOf : List Char → Except Error (List UInt8)
  newMaster : Network → List UInt8 → Except Error Xpriv
  /-- `derive_priv` along a path, and the 32 bytes of the child's key. -/
  derivePriv : Xpriv → String → Except Error (List UInt8)
  x25519Public : List UInt8 → { bytes : List UInt8 // bytes.length = 32 }
  /-- `Argon2::default().hash_password_into`: passphrase and salt. -/
  argon2 : List Char → List UInt8 → Except Error (List UInt8)
  /-- ChaCha20-Poly1305: key, nonce, ciphertext. -/
  decrypt : List UInt8 → List UInt8 → List UInt8 → Option (List UInt8)

structure Wallet (Xpriv : Type) where
  root : Xpriv
  network : Network

/-- What the environment says, as `env::var(..).ok()`. -/
structure Env where
  cmMnemonic : Option (List Char)
  cmId : Option (List Char)
  cmPassphrase : Option (List Char)
  cmNetwork : Option (List Char)

/-- `storage::network`. -/
def network (env : Env) : Network :=
  let label := (Text.trim (env.cmNetwork.getD [])).map Text.asciiLower
  if label = "testnet".toList then .testnet
  else if label = "signet".toList then .signet
  else .bitcoin

section

variable {Xpriv : Type} (crypto : Crypto Xpriv)

def Wallet.fromMnemonicOn (network : Network) (phrase : List Char) : Except Error (Wallet Xpriv) :=
  do
    let seed ← (crypto.seedOf (Text.trim phrase)).mapError fun e => "mnemonic: " ++ e
    let root ← (crypto.newMaster network seed).mapError fun e => "bip32: " ++ e
    return ⟨root, network⟩

def Wallet.fromMnemonic (env : Env) (phrase : List Char) : Except Error (Wallet Xpriv) :=
  Wallet.fromMnemonicOn crypto (Storage.network env) phrase

def Wallet.coinType (wallet : Wallet Xpriv) : ℕ := if wallet.network = .bitcoin then 0 else 1

def Wallet.wgSecretBytes (wallet : Wallet Xpriv) : Except Error (List UInt8) :=
  (crypto.derivePriv wallet.root ("m/86'/" ++ toString wallet.coinType ++ "'/0'/3/0")).mapError
    fun e => "bip32: " ++ e

/-- The identity: the X25519 public key in lowercase hex. -/
def Wallet.idHex (wallet : Wallet Xpriv) : Except Error (List Char) := do
  let secret ← wallet.wgSecretBytes crypto
  return Hex.hexLower (crypto.x25519Public secret).val

/-! ## Seed files -/

def saltLen : ℕ := 16

def nonceLen : ℕ := 12

def deriveKey (passphrase : List Char) (salt : List UInt8) : Except Error (List UInt8) :=
  (crypto.argon2 passphrase salt).mapError fun e => "key derivation failed: " ++ e

/-- `load_encrypted`, of what reading the file returned. -/
def loadEncrypted (passphrase : List Char) (file : Except Error (List UInt8)) :
    Except Error (List Char) := do
  let data ← file
  if data.length < saltLen + nonceLen then throw "seed file is truncated"
  let rest := data.drop saltLen
  let key ← deriveKey crypto passphrase (data.take saltLen)
  match crypto.decrypt key (rest.take nonceLen) (rest.drop nonceLen) with
  | none => throw "decryption failed — wrong passphrase or corrupt file"
  | some plaintext =>
      match Lines.text? plaintext with
      | none => throw "invalid utf-8 sequence"
      | some phrase => return phrase

end

/-! ## The config root -/

/-- An entry of the root: its name, if that is Unicode. -/
structure DirEntry where
  name : Option (List Char)
  isDir : Bool

/-- What an identity directory holds: each file, if it exists, as it reads. -/
structure IdentityDir where
  seedEnc : Option (Except Error (List UInt8))
  mnemonic : Option (Except Error (List Char))

/-- `~/.config/computermoney`, or what `CM_HOME` names. -/
structure Root where
  listing : List DirEntry
  /-- A directory has no two entries of one name. -/
  distinct : (listing.filterMap DirEntry.name).Nodup
  /-- The `default` file, if it can be read. -/
  marker : Option (List Char)
  dir : List Char → IdentityDir

/-- Eight lowercase hex digits. -/
def isIdName (name : List Char) : Bool :=
  Text.byteLength name = 8 &&
    name.all fun c => ('0' ≤ c && c ≤ '9') || ('a' ≤ c && c ≤ 'f')

def walletIds (root : Root) : List (List Char) :=
  ((((root.listing.filter DirEntry.isDir).filterMap DirEntry.name).filter isIdName)).insertionSort
    fun a b => a ≤ b

/-- `ids.join(", ")`. -/
def joined (ids : List (List Char)) : String := String.ofList (List.intercalate ", ".toList ids)

/-- What `pick_identity` compares: a long selector is cut to the name, a short one cuts it. -/
def hits (ids : List (List Char)) (want : List Char) : List (List Char) :=
  ids.filter fun id =>
    if 8 ≤ Text.byteLength want then Text.startsWith want id else Text.startsWith id want

def pickIdentity (ids : List (List Char)) (cmId default : Option (List Char)) :
    Except Error (List Char) :=
  match cmId with
  | some cmId =>
      let want := Text.trim cmId
      match hits ids want with
      | [one] => .ok one
      | [] => .error ("CM_ID=" ++ String.ofList want ++ " matches no identity here (have: " ++
          joined ids ++ ")")
      | several => .error ("CM_ID=" ++ String.ofList want ++ " is ambiguous (matches: " ++
          joined several ++ ")")
  | none =>
      match (default.map Text.trim).filter fun marked => ids.any (· == marked) with
      | some marked => .ok marked
      | none =>
          match ids with
          | [one] => .ok one
          | [] => .error "no wallet: run `cm setup` first"
          | several => .error ("several identities live here (" ++ joined several ++
              "); set CM_ID=<prefix> to pick one")

section

variable {Xpriv : Type} (crypto : Crypto Xpriv)

/-- The wallet in the directory `id`: the sealed seed if there is one, else the mnemonic in the
clear, which mainnet refuses. -/
def openIdentity (env : Env) (root : Root) (id : List Char) : Except Error (Wallet Xpriv) :=
  match (root.dir id).seedEnc with
  | some seed =>
      match env.cmPassphrase with
      | none => throw ("identity " ++ String.ofList id ++
          " has an encrypted seed; set CM_PASSPHRASE to unlock")
      | some pass => do
          let phrase ← loadEncrypted crypto pass seed
          Wallet.fromMnemonic crypto env phrase
  | none =>
      match (root.dir id).mnemonic with
      | none => throw ("identity " ++ String.ofList id ++
          " has no seed.enc or mnemonic file — recreate it with `cm setup`")
      | some mnemonic =>
          if network env = .bitcoin then
            throw ("plaintext mnemonic file found, refused on mainnet — " ++
              "recreate the wallet with CM_PASSPHRASE set")
          else do
            let phrase ← mnemonic
            Wallet.fromMnemonic crypto env phrase

def loadWallet (env : Env) (root : Root) : Except Error (Wallet Xpriv) :=
  match env.cmMnemonic with
  | some phrase => Wallet.fromMnemonic crypto env phrase
  | none => do
      let id ← pickIdentity (walletIds root) env.cmId root.marker
      let w ← openIdentity crypto env root id
      let actual ← w.idHex crypto
      if Text.startsWith actual id then return w
      else throw ("identity " ++ String.ofList id ++ " resolves to " ++
        String.ofList (actual.take 8) ++ " on " ++ (network env).label ++
        " — this wallet belongs to a different network")

end

/-! ## What is chosen, and what is loaded -/

/-- The stored identities are names of directories, each once. -/
theorem walletIds_perm (root : Root) : (walletIds root).Perm
    (((root.listing.filter DirEntry.isDir).filterMap DirEntry.name).filter isIdName) :=
  List.perm_insertionSort _ _

theorem isIdName_of_mem {root : Root} {id : List Char} (stored : id ∈ walletIds root) :
    isIdName id = true :=
  (List.mem_filter.1 ((walletIds_perm root).mem_iff.1 stored)).2

theorem nodup_walletIds (root : Root) : (walletIds root).Nodup := by
  have entries : (root.listing.filter DirEntry.isDir).Sublist root.listing := List.filter_sublist
  rw [(walletIds_perm root).nodup_iff]
  exact (root.distinct.sublist (entries.filterMap DirEntry.name)).filter _

/-- Eight characters of one byte each. -/
theorem length_of_isIdName {id : List Char} (named : isIdName id = true) :
    id.length = 8 ∧ Text.byteLength id = 8 := by
  obtain ⟨size, digits⟩ := Bool.and_eq_true_iff.1 named
  have narrow : ∀ c ∈ id, c.utf8Size = 1 := by
    intro c member
    have digit := List.all_eq_true.1 digits c member
    apply Hex.utf8Size_of_digit
    simp only [Bool.or_eq_true, Bool.and_eq_true, decide_eq_true_eq] at digit
    unfold Hex.digitValue?
    by_cases number : '0' ≤ c ∧ c ≤ '9'
    · rw [if_pos number]
      rfl
    · rw [if_neg number, if_pos (digit.resolve_left number)]
      rfl
  have size' : Text.byteLength id = 8 := of_decide_eq_true size
  exact ⟨(Text.byteLength_narrow narrow).symm.trans size', size'⟩

/-- With a selector, the one stored identity that it hits is chosen, or nothing is. -/
theorem pickIdentity_explicit {ids : List (List Char)} {cmId id : List Char}
    {default : Option (List Char)} :
    pickIdentity ids (some cmId) default = .ok id ↔ hits ids (Text.trim cmId) = [id] := by
  unfold pickIdentity
  dsimp only
  generalize hits ids (Text.trim cmId) = found
  match found with
  | [] => exact iff_of_false nofun nofun
  | [one] =>
      constructor
      · rintro ⟨⟩
        rfl
      · rintro ⟨⟩
        rfl
  | _ :: _ :: _ => exact iff_of_false nofun nofun

section

variable {Xpriv : Type} {crypto : Crypto Xpriv}

theorem startsWith_iff {text start : List Char} :
    Text.startsWith text start = true ↔ start <+: text := List.isPrefixOf_iff_prefix

/-- An identity is 64 characters. -/
theorem length_idHex {w : Wallet Xpriv} {actual : List Char} (is : w.idHex crypto = .ok actual) :
    actual.length = 64 := by
  obtain ⟨secret, -, printed⟩ := bind_ok.1 is
  cases printed
  rw [Hex.length_hexLower, (crypto.x25519Public secret).property]

/-- Without a mnemonic in the environment, the wallet in the chosen directory is loaded, if its
identity begins with the directory's name. -/
theorem loadWallet_ok {env : Env} {root : Root} {w : Wallet Xpriv} (stored : env.cmMnemonic = none) :
    loadWallet crypto env root = .ok w ↔ ∃ id actual,
      pickIdentity (walletIds root) env.cmId root.marker = .ok id ∧
      openIdentity crypto env root id = .ok w ∧ w.idHex crypto = .ok actual ∧ id <+: actual := by
  unfold loadWallet
  rw [stored]
  simp only [bind_ok]
  constructor
  · intro ⟨id, picked, w', opened, actual, is, ends⟩
    by_cases named : Text.startsWith actual id
    · rw [if_pos named] at ends
      cases ends
      exact ⟨id, actual, picked, opened, is, startsWith_iff.1 named⟩
    · rw [if_neg named] at ends
      cases ends
  · intro ⟨id, actual, picked, opened, is, named⟩
    refine ⟨id, picked, w, opened, actual, is, ?_⟩
    rw [if_pos (startsWith_iff.2 named)]
    rfl

end

end ComputerMoney.Kernel.Storage

/-
# Kernel.Setup -- making a wallet

`cm setup` and the tool `cm_setup` make a wallet if no identity is stored, and then load the one
that is: a phrase is generated, the identity's directory made, the phrase saved in it, sealed or
in the clear, and the `default` marker written if there is none.

The config root is a disk that these calls change one at a time.  A write may fail with the file
untouched, or leave the first bytes of what was to be written; a crash is a run cut after any
call, and a crash inside a write is a cut after one that left a part.
-/
import ComputerMoney.Kernel.Storage

namespace ComputerMoney.Kernel.Storage

set_option autoImplicit false

open Theory

/-- What making a wallet asks of the libraries besides. -/
structure Keygen (Xpriv : Type) extends Crypto Xpriv where
  /-- ChaCha20-Poly1305: key, nonce, plaintext. -/
  encrypt : List UInt8 → List UInt8 → List UInt8 → Option (List UInt8)

/-! ## The disk -/

/-- The config root: the identity directories and other directories, the names of plain files,
and the bytes of the `default` marker, if there is one. -/
structure Disk where
  dirs : List (List Char × IdentityDir)
  files : List (List Char)
  distinct : (dirs.map Prod.fst ++ files).Nodup
  marker : Option (List UInt8)

namespace Disk

def dir (d : Disk) (id : List Char) : IdentityDir :=
  ((d.dirs.find? fun entry => entry.1 = id).map Prod.snd).getD ⟨none, none⟩

def listing (d : Disk) : List DirEntry :=
  (d.dirs.map fun entry => ⟨some entry.1, true⟩) ++ d.files.map fun name => ⟨some name, false⟩

theorem names_listing (d : Disk) :
    d.listing.filterMap DirEntry.name = d.dirs.map Prod.fst ++ d.files := by
  unfold listing
  rw [List.filterMap_append, List.filterMap_map, List.filterMap_map]
  congr 1
  · exact congrFun (List.filterMap_eq_map (f := Prod.fst)) d.dirs
  · exact List.filterMap_some

/-- The root as it reads. -/
def root (d : Disk) : Root where
  listing := d.listing
  distinct := by
    rw [d.names_listing]
    exact d.distinct
  marker := d.marker.bind Lines.text?
  dir := d.dir

/-- `create_dir_all`. -/
def addDir (d : Disk) (id : List Char) : Disk :=
  if known : (d.dirs.map Prod.fst ++ d.files).contains id then d
  else { d with
    dirs := (id, ⟨none, none⟩) :: d.dirs
    distinct := List.nodup_cons.2 ⟨mt List.contains_iff_mem.2 known, d.distinct⟩ }

/-- Change what the directory of `id` holds, if there is one. -/
def change (d : Disk) (id : List Char) (f : IdentityDir → IdentityDir) : Disk :=
  { d with
    dirs := d.dirs.map fun entry => if entry.1 = id then (entry.1, f entry.2) else entry
    distinct := by
      have names : (d.dirs.map fun entry => if entry.1 = id then (entry.1, f entry.2) else entry).map
          Prod.fst = d.dirs.map Prod.fst := by
        rw [List.map_map]
        refine List.map_congr_left fun entry _ => ?_
        show (if entry.1 = id then (entry.1, f entry.2) else entry).1 = entry.1
        split <;> rfl
      rw [names]
      exact d.distinct }

end Disk

/-- How a `fs::write` ended: done, with the file as it was, or with a first part of it written. -/
inductive Written where
  | done
  | untouched (e : Error)
  | torn (n : ℕ) (e : Error)
  deriving DecidableEq, Repr

/-- What is then in the file, if it was touched. -/
def Written.left (data : List UInt8) : Written → Option (List UInt8)
  | .done => some data
  | .untouched _ => none
  | .torn n _ => some (data.take n)

def Written.result : Written → Except Error Unit
  | .done => .ok ()
  | .untouched e | .torn _ e => .error e

/-- `read_to_string`. -/
def asText (data : List UInt8) : Except Error (List Char) :=
  match Lines.text? data with
  | some text => .ok text
  | none => .error "stream did not contain valid UTF-8"

/-! ## The calls -/

inductive SetupOp where
  /-- The root is read. -/
  | look
  /-- `Mnemonic::generate(12)`, as text. -/
  | generate
  | fillBytes (n : ℕ)
  | createDirAll (id : List Char)
  | writeSeed (id : List Char) (data : List UInt8)
  | writeMnemonic (id : List Char) (data : List UInt8)
  | setPermissions (id : List Char)
  | markerExists
  | writeMarker (data : List UInt8)
  deriving DecidableEq

def SetupOp.Ans : SetupOp → Type
  | .look => Root
  | .generate => Except Error (List Char)
  | .fillBytes _ => List UInt8
  | .createDirAll _ | .setPermissions _ => Except Error Unit
  | .writeSeed _ _ | .writeMnemonic _ _ | .writeMarker _ => Written
  | .markerExists => Bool

@[reducible] def setupSig : Signature := ⟨SetupOp, SetupOp.Ans⟩

abbrev Setup (α : Type) := Program setupSig Error α

def Disk.allowed (d : Disk) : (op : SetupOp) → op.Ans → Prop
  | .look, root => root = d.root
  | .fillBytes n, bytes => List.length bytes = n
  | .createDirAll id, made => made = .ok () → id ∉ d.files
  | .markerExists, there => there = d.marker.isSome
  | _, _ => True

def Disk.after (d : Disk) : (op : SetupOp) → op.Ans → Disk
  | .createDirAll id, .ok () => d.addDir id
  | .writeSeed id data, written => match written.left data with
      | some bytes => d.change id fun dir => { dir with seedEnc := some (.ok bytes) }
      | none => d
  | .writeMnemonic id data, written => match written.left data with
      | some bytes => d.change id fun dir => { dir with mnemonic := some (asText bytes) }
      | none => d
  | .writeMarker data, written => match written.left data with
      | some bytes => { d with marker := some bytes }
      | none => d
  | _, _ => d

def diskInterp : Interp setupSig Disk := ⟨Disk.allowed, Disk.after⟩

def look : Setup Root := .call .look .pure

def generate : Setup (List Char) := .call .generate .ofExcept

def fillBytes (n : ℕ) : Setup (List UInt8) := .call (.fillBytes n) .pure

def createDirAll (id : List Char) : Setup Unit := .call (.createDirAll id) .ofExcept

def writeSeed (id : List Char) (data : List UInt8) : Setup Unit :=
  .call (.writeSeed id data) fun written => .ofExcept written.result

def writeMnemonic (id : List Char) (data : List UInt8) : Setup Unit :=
  .call (.writeMnemonic id data) fun written => .ofExcept written.result

def setPermissions (id : List Char) : Setup Unit := .call (.setPermissions id) .ofExcept

def markerExists : Setup Bool := .call .markerExists .pure

def writeMarker (data : List UInt8) : Setup Unit :=
  .call (.writeMarker data) fun written => .ofExcept written.result

/-! ## Saving a wallet -/

section

variable {Xpriv : Type} (crypto : Keygen Xpriv)

/-- `Wallet::generate`. -/
def Wallet.generate (env : Env) : Setup (Wallet Xpriv × List Char) := do
  let phrase ← Storage.generate
  let w ← .ofExcept (Wallet.fromMnemonic crypto.toCrypto env phrase)
  return (w, phrase)

/-- `save_encrypted`, into the directory `id`. -/
def saveEncrypted (mnemonic passphrase : List Char) (id : List Char) : Setup Unit := do
  let salt ← fillBytes saltLen
  let nonce ← fillBytes nonceLen
  let key ← .ofExcept (deriveKey crypto.toCrypto passphrase salt)
  match crypto.encrypt key nonce (Lines.bytes mnemonic) with
  | none => .throw "encryption failed"
  | some ciphertext => writeSeed id (salt ++ nonce ++ ciphertext)

/-- `wallet_dir`: its name. -/
def walletDir (wallet : Wallet Xpriv) : Except Error (List Char) := do
  let id ← wallet.idHex crypto.toCrypto
  return id.take 8

/-- The phrase into the directory `id`, sealed if there is a passphrase. -/
def savePhrase (phrase : List Char) (passphrase : Option (List Char)) (id : List Char) :
    Setup Unit :=
  match passphrase with
  | some pass => saveEncrypted crypto phrase pass id
  | none => do
      writeMnemonic id (Lines.bytes (phrase ++ ['\n']))
      setPermissions id

/-- `save_new_wallet`. -/
def saveNewWallet (wallet : Wallet Xpriv) (phrase : List Char) (passphrase : Option (List Char)) :
    Setup (List Char) := do
  let dir ← .ofExcept (walletDir crypto wallet)
  createDirAll dir
  savePhrase crypto phrase passphrase dir
  if ← markerExists then return dir
  else do
    let dir' ← .ofExcept (walletDir crypto wallet)
    writeMarker (Lines.bytes (dir' ++ ['\n']))
    return dir

/-- What `cm setup` and `cm_setup` do to the disk: the wallet that is loaded in the end, and the
words to back up if one was made.  They differ in how they refuse mainnet without a passphrase. -/
def setup (refusal : Error) (env : Env) : Setup (Wallet Xpriv × Option (List Char)) := do
  let root ← look
  if walletIds root = [] then
    if env.cmPassphrase = none ∧ network env = .bitcoin then .throw refusal
    else do
      let (w, phrase) ← Wallet.generate crypto env
      let _ ← saveNewWallet crypto w phrase env.cmPassphrase
      let root ← look
      let w ← .ofExcept (loadWallet crypto.toCrypto env root)
      return (w, some phrase)
  else do
    let w ← .ofExcept (loadWallet crypto.toCrypto env root)
    return (w, none)

/-- The setup arm of `main::run`, up to the loading of the wallet. -/
def cliSetup (env : Env) : Setup (Wallet Xpriv × Option (List Char)) :=
  setup crypto ("cm setup seals your wallet with a passphrase: " ++
    "export CM_PASSPHRASE='…' then run `cm setup` again") env

/-- `mcp::setup_report`, up to there. -/
def setupReport (env : Env) : Setup (Wallet Xpriv × Option (List Char)) :=
  setup crypto ("mainnet seals the seed: add CM_PASSPHRASE to this MCP server's " ++
    "env registration, then call cm_setup again") env

end

end ComputerMoney.Kernel.Storage

/-
# Safety.SetupOnce -- one wallet, whatever happens to its setup

Setups run one after another on one disk, each in its own environment; each may be cut after
any call, and any of its writes may fail or leave a part of a file.

A setup that finds an identity never writes (`wp_setup_known`); one that finds none goes through
the stages of `Making`.  So no later setup changes what an earlier one left
(`setup_makes_once`), a wallet that a setup returned is the one of the words it printed and is
loaded ever after (`setup_keeps_wallet`), and a setup that was cut between the directory and the
end of the seed file leaves a disk on which none ever returns again (`setup_crash_points`).
-/
import ComputerMoney.Kernel.Setup

namespace ComputerMoney.Safety

set_option autoImplicit false

open Theory Theory.Program Kernel Kernel.Storage

namespace SetupOnce

/-! ## The disk -/

section Disk

variable {d : Disk} {id : List Char}

theorem walletIds_root (d : Disk) : walletIds d.root =
    ((d.dirs.map Prod.fst).filter isIdName).insertionSort fun a b => a ≤ b := by
  have names : (d.listing.filter DirEntry.isDir).filterMap DirEntry.name = d.dirs.map Prod.fst := by
    unfold Disk.listing
    rw [List.filter_append, List.filterMap_append]
    have dirs : (d.dirs.map fun entry => (⟨some entry.1, true⟩ : DirEntry)).filter DirEntry.isDir =
        d.dirs.map fun entry => ⟨some entry.1, true⟩ := by
      refine List.filter_eq_self.2 fun entry member => ?_
      obtain ⟨_, -, rfl⟩ := List.mem_map.1 member
      rfl
    have files : (d.files.map fun name => (⟨some name, false⟩ : DirEntry)).filter DirEntry.isDir =
        [] := by
      refine List.filter_eq_nil_iff.2 fun entry member => ?_
      obtain ⟨_, -, rfl⟩ := List.mem_map.1 member
      exact Bool.false_ne_true
    rw [dirs, files, List.filterMap_map, List.filterMap_nil, List.append_nil]
    exact congrFun (List.filterMap_eq_map (f := Prod.fst)) d.dirs
  show ((((d.listing.filter DirEntry.isDir).filterMap DirEntry.name).filter isIdName).insertionSort
    fun a b => a ≤ b) = _
  rw [names]

theorem notMem_of_walletIds (none : walletIds d.root = []) (named : isIdName id = true) :
    id ∉ d.dirs.map Prod.fst := by
  intro listed
  have member : id ∈ walletIds d.root := by
    rw [walletIds_root, List.mem_insertionSort]
    exact List.mem_filter.2 ⟨listed, named⟩
  rw [none] at member
  cases member

/-- The root of `d₀`, and in it the directory of `id`, which was not there. -/
structure Added (d₀ : Disk) (id : List Char) (held : IdentityDir) (d : Disk) : Prop where
  fresh : id ∉ d₀.dirs.map Prod.fst
  dirs : d.dirs = (id, held) :: d₀.dirs
  files : d.files = d₀.files
  /-- A marker that was there is there still. -/
  marker : d₀.marker.isSome → d.marker = d₀.marker

variable {d₀ : Disk} {held : IdentityDir}

theorem added_addDir (fresh : id ∉ d₀.dirs.map Prod.fst) (noFile : id ∉ d₀.files) :
    Added d₀ id ⟨none, none⟩ (d₀.addDir id) := by
  have unknown : id ∉ d₀.dirs.map Prod.fst ++ d₀.files := by
    rw [List.mem_append, not_or]
    exact ⟨fresh, noFile⟩
  unfold Disk.addDir
  rw [dif_neg (mt List.contains_iff_mem.1 unknown)]
  exact ⟨fresh, rfl, rfl, fun _ => rfl⟩

theorem Added.change (added : Added d₀ id held d) (f : IdentityDir → IdentityDir) :
    Added d₀ id (f held) (d.change id f) where
  fresh := added.fresh
  dirs := by
    have others : (d₀.dirs.map fun entry => if entry.1 = id then (entry.1, f entry.2) else entry) =
        d₀.dirs := by
      refine (List.map_congr_left fun entry member => ?_).trans (List.map_id d₀.dirs)
      have other : entry.1 ≠ id := by
        rintro rfl
        exact added.fresh (List.mem_map_of_mem member)
      exact if_neg other
    show (d.dirs.map fun entry => if entry.1 = id then (entry.1, f entry.2) else entry) = _
    rw [added.dirs, List.map_cons, others, if_pos rfl]
  files := added.files
  marker := added.marker

theorem Added.mark (added : Added d₀ id held d) (none : d.marker = none) (data : List UInt8) :
    Added d₀ id held { d with marker := some data } where
  fresh := added.fresh
  dirs := added.dirs
  files := added.files
  marker there := by
    rw [← added.marker there, none] at there
    cases there

theorem Added.walletIds (added : Added d₀ id held d) (none : walletIds d₀.root = [])
    (named : isIdName id = true) : walletIds d.root = [id] := by
  have empty : (d₀.dirs.map Prod.fst).filter isIdName = [] := by
    rw [walletIds_root] at none
    exact List.perm_nil.1 (none ▸ (List.perm_insertionSort _ _).symm)
  rw [walletIds_root, added.dirs, List.map_cons, List.filter_cons, if_pos named, empty]
  rfl

theorem Added.dir (added : Added d₀ id held d) : d.root.dir id = held := by
  show ((d.dirs.find? fun entry => entry.1 = id).map Prod.snd).getD ⟨none, none⟩ = held
  rw [added.dirs, List.find?_cons_of_pos (by simp)]
  rfl

end Disk

/-! ## What is saved -/

section Saved

variable {Xpriv : Type} {crypto : Keygen Xpriv} {env env' : Env} {phrase id : List Char}
  {w : Storage.Wallet Xpriv} {d₀ d : Disk} {held : IdentityDir}

/-- The bytes that a setup means to save. -/
def Saves (crypto : Keygen Xpriv) (phrase : List Char) : Option (List Char) → List UInt8 → Prop
  | none, data => data = Lines.bytes (phrase ++ ['\n'])
  | some pass, data => ∃ salt nonce key ciphertext, salt.length = saltLen ∧ nonce.length = nonceLen ∧
      deriveKey crypto.toCrypto pass salt = .ok key ∧
        crypto.encrypt key nonce (Lines.bytes phrase) = some ciphertext ∧
          data = salt ++ nonce ++ ciphertext

/-- The directory with these bytes in it. -/
def filed (passphrase : Option (List Char)) (data : List UInt8) : IdentityDir :=
  match passphrase with
  | none => ⟨none, some (asText data)⟩
  | some _ => ⟨some (.ok data), none⟩

/-- A wallet was generated in this environment, and its directory made. -/
structure Making (crypto : Keygen Xpriv) (env : Env) (d₀ : Disk) (phrase : List Char)
    (w : Storage.Wallet Xpriv) (id : List Char) (held : IdentityDir) (d : Disk) : Prop where
  allowed : env.cmPassphrase.isSome ∨ network env ≠ .bitcoin
  generated : Wallet.fromMnemonic crypto.toCrypto env phrase = .ok w
  named : walletDir crypto w = .ok id
  added : Added d₀ id held d

/-- The directory is empty, or holds a first part of what is to be saved. -/
def Partly (crypto : Keygen Xpriv) (env : Env) (phrase : List Char) (held : IdentityDir) : Prop :=
  held = ⟨none, none⟩ ∨ ∃ data n, Saves crypto phrase env.cmPassphrase data ∧
    held = filed env.cmPassphrase (data.take n)

/-- A disk that a setup in this environment may leave of `d₀`, cut or not. -/
def Stage (crypto : Keygen Xpriv) (env : Env) (d₀ d : Disk) : Prop :=
  d = d₀ ∨ ∃ phrase w id held, Making crypto env d₀ phrase w id held d ∧
    Partly crypto env phrase held

/-- A directory is named as `wallet_ids` looks for it. -/
theorem isIdName_walletDir (named : walletDir crypto w = .ok id) : isIdName id = true ∧
    ∃ actual, w.idHex crypto.toCrypto = .ok actual ∧ id <+: actual := by
  obtain ⟨actual, is, cut⟩ := bind_ok.1 named
  cases cut
  refine ⟨?_, actual, is, List.take_prefix 8 actual⟩
  have long : actual.length = 64 := length_idHex is
  obtain ⟨secret, -, printed⟩ := bind_ok.1 is
  cases printed
  have lower := Hex.lower_hexLower (crypto.x25519Public secret).val
  have digits : ∀ c ∈ (Hex.hexLower (crypto.x25519Public secret).val).take 8,
      (Hex.digitValue? c).isSome := fun c member =>
    Hex.digits_hexLower _ c (List.mem_of_mem_take member)
  unfold isIdName
  rw [Bool.and_eq_true, decide_eq_true_eq, Hex.byteLength_of_digits digits, List.length_take, long]
  exact ⟨rfl, List.all_eq_true.2 fun c member => lower c (List.mem_of_mem_take member)⟩

/-- What was sealed opens. -/
def Opens (crypto : Keygen Xpriv) : Prop := ∀ {key nonce plaintext ciphertext : List UInt8},
  crypto.encrypt key nonce plaintext = some ciphertext →
    crypto.decrypt key nonce ciphertext = some plaintext

/-- A seed file is read in its three parts. -/
theorem loadEncrypted_parts (pass : List Char) {salt nonce : List UInt8} (rest : List UInt8)
    (sized : salt.length = saltLen) (sized' : nonce.length = nonceLen) :
    loadEncrypted crypto.toCrypto pass (.ok (salt ++ nonce ++ rest)) =
      (deriveKey crypto.toCrypto pass salt >>= fun key =>
        match crypto.decrypt key nonce rest with
        | none => .error "decryption failed — wrong passphrase or corrupt file"
        | some plaintext =>
            match Lines.text? plaintext with
            | none => .error "invalid utf-8 sequence"
            | some phrase => .ok phrase) := by
  have long : ¬(salt ++ nonce ++ rest).length < saltLen + nonceLen := by
    simp only [List.length_append, sized, sized']
    omega
  have first : (salt ++ nonce ++ rest).take saltLen = salt := by
    rw [List.append_assoc, ← sized, List.take_left]
  have others : (salt ++ nonce ++ rest).drop saltLen = nonce ++ rest := by
    rw [List.append_assoc, ← sized, List.drop_left]
  have second : (nonce ++ rest).take nonceLen = nonce := by
    rw [← sized', List.take_left]
  have third : (nonce ++ rest).drop nonceLen = rest := by
    rw [← sized', List.drop_left]
  show (if _ < _ then _ else _) = _
  rw [if_neg long]
  show (deriveKey crypto.toCrypto pass ((salt ++ nonce ++ rest).take saltLen) >>= fun key =>
    match crypto.decrypt key (((salt ++ nonce ++ rest).drop saltLen).take nonceLen)
      (((salt ++ nonce ++ rest).drop saltLen).drop nonceLen) with
    | none => _
    | some plaintext => _) = _
  rw [first, others, second, third]
  rfl

theorem loadEncrypted_saved (opens : Opens crypto) {pass : List Char} {data : List UInt8}
    (saves : Saves crypto phrase (some pass) data) :
    loadEncrypted crypto.toCrypto pass (.ok data) = .ok phrase := by
  obtain ⟨salt, nonce, key, ciphertext, sized, sized', derived, encrypted, rfl⟩ := saves
  rw [loadEncrypted_parts pass ciphertext sized sized', derived]
  show (match crypto.decrypt key nonce ciphertext with
    | none => _
    | some plaintext => _) = _
  rw [opens encrypted]
  show (match Lines.text? (Lines.bytes phrase) with
    | none => _
    | some phrase => _) = _
  rw [Lines.text?_bytes]

/-- An environment that has what the wallet made in `env` is opened with. -/
structure Alike (env env' : Env) : Prop where
  stored : env'.cmMnemonic = none
  passphrase : env'.cmPassphrase = env.cmPassphrase
  network : network env' = network env

/-- A wallet whose file is whole is opened. -/
theorem open_made (opens : Opens crypto) (alike : Alike env env') {data : List UInt8}
    (making : Making crypto env d₀ phrase w id (filed env.cmPassphrase data) d)
    (saves : Saves crypto phrase env.cmPassphrase data) :
    openIdentity crypto.toCrypto env' d.root id = .ok w := by
  obtain ⟨allowed, generated, -, added⟩ := making
  have generated' : Wallet.fromMnemonic crypto.toCrypto env' phrase = .ok w := by
    unfold Wallet.fromMnemonic at generated ⊢
    rw [alike.network]
    exact generated
  unfold openIdentity
  rw [added.dir, alike.passphrase, alike.network]
  cases known : env.cmPassphrase with
  | some pass =>
      rw [known] at saves
      show (loadEncrypted crypto.toCrypto pass (.ok data) >>= _) = _
      rw [loadEncrypted_saved opens saves]
      exact generated'
  | none =>
      rw [known] at saves allowed
      cases saves
      have tested : network env ≠ .bitcoin := allowed.resolve_left (by simp)
      show (if network env = .bitcoin then _ else asText _ >>= _) = _
      have read : asText (Lines.bytes (phrase ++ ['\n'])) = .ok (phrase ++ ['\n']) := by
        unfold asText
        rw [Lines.text?_bytes]
      rw [if_neg tested, read]
      show Wallet.fromMnemonic crypto.toCrypto env' (phrase ++ ['\n']) = .ok w
      rw [← generated']
      unfold Wallet.fromMnemonic Wallet.fromMnemonicOn
      rw [Text.trim_append_white (by simp [Text.isWhitespace])]

/-- Only a stored identity is picked. -/
theorem mem_of_pickIdentity {ids : List (List Char)} {cmId default : Option (List Char)}
    (picked : pickIdentity ids cmId default = .ok id) : id ∈ ids := by
  cases cmId with
  | some cmId =>
      have only := pickIdentity_explicit.1 picked
      exact List.mem_of_mem_filter (only ▸ List.mem_singleton_self id)
  | none =>
      unfold pickIdentity at picked
      dsimp only at picked
      split at picked
      case h_1 marked is =>
          cases picked
          obtain ⟨-, listed⟩ := Option.filter_eq_some_iff.1 is
          simpa using listed
      case h_2 =>
          split at picked
          · cases picked
            exact List.mem_singleton_self _
          · cases picked
          · cases picked

/-- Where one identity is stored, it is picked without a selector. -/
theorem pickIdentity_only (default : Option (List Char)) :
    pickIdentity [id] none default = .ok id := by
  unfold pickIdentity
  dsimp only
  split
  case h_1 marked is =>
      have listed : ([id].any (· == marked)) = true := (Option.filter_eq_some_iff.1 is).2
      rw [List.any_cons, List.any_nil, Bool.or_false, beq_iff_eq] at listed
      rw [listed]
  case h_2 => rfl

/-- The whole file is loaded if its identity is picked at all. -/
theorem load_made (opens : Opens crypto) (alike : Alike env env') (unsaved : walletIds d₀.root = [])
    {data : List UInt8} (making : Making crypto env d₀ phrase w id (filed env.cmPassphrase data) d)
    (saves : Saves crypto phrase env.cmPassphrase data)
    (picks : ∃ id, pickIdentity (walletIds d.root) env'.cmId d.root.marker = .ok id) :
    loadWallet crypto.toCrypto env' d.root = .ok w := by
  obtain ⟨named, actual, is, front⟩ := isIdName_walletDir making.named
  obtain ⟨id', picked⟩ := picks
  obtain rfl : id' = id := by
    have member := mem_of_pickIdentity picked
    rwa [making.added.walletIds unsaved named, List.mem_singleton] at member
  exact (loadWallet_ok alike.stored).2
    ⟨id', actual, picked, open_made opens alike making saves, is, front⟩

/-- Without a selector, it is. -/
theorem picks_made (unsaved : walletIds d₀.root = [])
    (making : Making crypto env d₀ phrase w id held d) (default : Option (List Char)) :
    ∃ id, pickIdentity (walletIds d.root) none default = .ok id := by
  rw [making.added.walletIds unsaved (isIdName_walletDir making.named).1]
  exact ⟨id, pickIdentity_only default⟩

end Saved

/-! ## A setup on a fresh disk -/

section Fresh

variable {Xpriv : Type} {crypto : Keygen Xpriv} {env : Env} {phrase id : List Char}
  {w : Storage.Wallet Xpriv} {d₀ d : Disk} {held : IdentityDir}

/-- Wherever it is cut, a stage. -/
def Staged (crypto : Keygen Xpriv) (env : Env) (d₀ : Disk) : Guarantee setupSig Disk :=
  fun d op answer => Stage crypto env d₀ (diskInterp.next d op answer)

theorem Making.stage (making : Making crypto env d₀ phrase w id held d)
    (partly : Partly crypto env phrase held) : Stage crypto env d₀ d :=
  .inr ⟨phrase, w, id, held, making, partly⟩

theorem Making.change (making : Making crypto env d₀ phrase w id held d)
    (f : IdentityDir → IdentityDir) : Making crypto env d₀ phrase w id (f held) (d.change id f) :=
  { making with added := making.added.change f }

theorem partly_whole {data : List UInt8} (saves : Saves crypto phrase env.cmPassphrase data) :
    Partly crypto env phrase (filed env.cmPassphrase data) :=
  .inr ⟨data, data.length, saves, by rw [List.take_length]⟩

theorem wp_writeSeed {pass : List Char} {data : List UInt8}
    (making : Making crypto env d₀ phrase w id ⟨none, none⟩ d) (known : env.cmPassphrase = some pass)
    (saves : Saves crypto phrase (some pass) data) :
    wp diskInterp (Staged crypto env d₀)
      (fun result d' => match result with
        | .ok () => ∃ data, Saves crypto phrase (some pass) data ∧
            Making crypto env d₀ phrase w id (filed (some pass) data) d'
        | .error _ => Stage crypto env d₀ d')
      (writeSeed id data) d := by
  have part : ∀ n, Making crypto env d₀ phrase w id (filed (some pass) (data.take n))
      (d.change id fun dir => { dir with seedEnc := some (.ok (data.take n)) }) :=
    fun n => making.change fun dir => { dir with seedEnc := some (.ok (data.take n)) }
  have partly : ∀ n, Partly crypto env phrase (filed (some pass) (data.take n)) := fun n =>
    .inr ⟨data, n, known ▸ saves, known ▸ rfl⟩
  have whole := part data.length
  have all := partly data.length
  rw [List.take_length] at whole all
  rintro (_ | e | ⟨n, e⟩) - <;> refine ⟨?_, ?_⟩
  · exact whole.stage all
  · exact ⟨data, saves, whole⟩
  · exact making.stage (.inl rfl)
  · exact making.stage (.inl rfl)
  · exact (part n).stage (partly n)
  · exact (part n).stage (partly n)

theorem wp_writeMnemonic (making : Making crypto env d₀ phrase w id ⟨none, none⟩ d)
    (known : env.cmPassphrase = none) :
    wp diskInterp (Staged crypto env d₀)
      (fun result d' => match result with
        | .ok () => ∃ data, Saves crypto phrase none data ∧
            Making crypto env d₀ phrase w id (filed none data) d'
        | .error _ => Stage crypto env d₀ d')
      (writeMnemonic id (Lines.bytes (phrase ++ ['\n'])) >>= fun _ => setPermissions id) d := by
  generalize is : Lines.bytes (phrase ++ ['\n']) = data
  have saves : Saves crypto phrase none data := is.symm
  have part : ∀ n, Making crypto env d₀ phrase w id (filed none (data.take n))
      (d.change id fun dir => { dir with mnemonic := some (asText (data.take n)) }) :=
    fun n => making.change fun dir => { dir with mnemonic := some (asText (data.take n)) }
  have partly : ∀ n, Partly crypto env phrase (filed none (data.take n)) := fun n =>
    .inr ⟨data, n, known ▸ saves, known ▸ rfl⟩
  have whole := part data.length
  have all := partly data.length
  rw [List.take_length] at whole all
  refine wp_bind.2 ?_
  rintro (_ | e | ⟨n, e⟩) - <;> refine ⟨?_, ?_⟩
  · exact whole.stage all
  · rintro (e | ⟨⟨⟩⟩) - <;> refine ⟨whole.stage all, ?_⟩
    · exact whole.stage all
    · exact ⟨data, saves, whole⟩
  · exact making.stage (.inl rfl)
  · exact making.stage (.inl rfl)
  · exact (part n).stage (partly n)
  · exact (part n).stage (partly n)

/-- The save into the empty directory. -/
theorem wp_save (making : Making crypto env d₀ phrase w id ⟨none, none⟩ d) :
    wp diskInterp (Staged crypto env d₀)
      (fun result d' => match result with
        | .ok () => ∃ data, Saves crypto phrase env.cmPassphrase data ∧
            Making crypto env d₀ phrase w id (filed env.cmPassphrase data) d'
        | .error _ => Stage crypto env d₀ d')
      (savePhrase crypto phrase env.cmPassphrase id) d := by
  have stage : Stage crypto env d₀ d := making.stage (.inl rfl)
  unfold savePhrase
  cases known : env.cmPassphrase with
  | some pass =>
      refine wp_bind.2 fun (salt : List UInt8) sized => ⟨stage, bindPost_ok.2 ?_⟩
      refine wp_bind.2 fun (nonce : List UInt8) sized' => ⟨stage, bindPost_ok.2 ?_⟩
      refine wp_bind.2 (wp_ofExcept.2 ?_)
      cases derived : deriveKey crypto.toCrypto pass salt with
      | error e => exact stage
      | ok key =>
          rw [bindPost_ok]
          cases encrypted : crypto.encrypt key nonce (Lines.bytes phrase) with
          | none => exact stage
          | some ciphertext =>
              have saves : Saves crypto phrase (some pass) (salt ++ nonce ++ ciphertext) :=
                ⟨salt, nonce, key, ciphertext, sized, sized', derived, encrypted, rfl⟩
              exact wp_writeSeed making known saves
  | none => exact wp_writeMnemonic making known

/-- The directory, the phrase in it, and the marker. -/
theorem wp_saveNewWallet (unsaved : walletIds d₀.root = [])
    (allowed : env.cmPassphrase.isSome ∨ network env ≠ .bitcoin)
    (generated : Wallet.fromMnemonic crypto.toCrypto env phrase = .ok w) :
    wp diskInterp (Staged crypto env d₀)
      (fun result d => match result with
        | .ok _ => ∃ id data, Saves crypto phrase env.cmPassphrase data ∧
            Making crypto env d₀ phrase w id (filed env.cmPassphrase data) d
        | .error _ => Stage crypto env d₀ d)
      (saveNewWallet crypto w phrase env.cmPassphrase) d₀ := by
  refine wp_bind.2 (wp_ofExcept.2 ?_)
  cases named : walletDir crypto w with
  | error e => exact .inl rfl
  | ok id =>
      rw [bindPost_ok]
      refine wp_bind.2 ?_
      rintro (e | ⟨⟨⟩⟩) made
      · exact ⟨.inl rfl, .inl rfl⟩
      have fresh : id ∉ d₀.dirs.map Prod.fst :=
        notMem_of_walletIds unsaved (isIdName_walletDir named).1
      have making : Making crypto env d₀ phrase w id ⟨none, none⟩ (d₀.addDir id) :=
        ⟨allowed, generated, named, added_addDir fresh (made rfl)⟩
      refine ⟨making.stage (.inl rfl), bindPost_ok.2 (wp_bind.2 (wp_mono (wp_save making) ?_))⟩
      rintro (e | ⟨⟨⟩⟩) d saved
      · exact saved
      obtain ⟨data, saves, making⟩ := saved
      have stage : Stage crypto env d₀ d := making.stage (partly_whole saves)
      rw [bindPost_ok]
      refine wp_bind.2 fun there is => ⟨stage, bindPost_ok.2 ?_⟩
      cases there with
      | true => exact ⟨id, data, saves, making⟩
      | false =>
          have unmarked : d.marker = none := Option.not_isSome_iff_eq_none.1 fun marked =>
            Bool.false_ne_true (is.trans marked)
          have marked : ∀ bytes, Making crypto env d₀ phrase w id (filed env.cmPassphrase data)
              { d with marker := some bytes } := fun bytes =>
            { making with added := making.added.mark unmarked bytes }
          have stages : ∀ bytes, Stage crypto env d₀ { d with marker := some bytes } := fun bytes =>
            (marked bytes).stage (partly_whole saves)
          refine wp_bind.2 (wp_ofExcept.2 (bindPost_ok.2 (wp_bind.2 ?_)))
          rintro (_ | e | ⟨n, e⟩) - <;> refine ⟨?_, ?_⟩
          · exact stages _
          · exact ⟨id, data, saves, marked _⟩
          · exact stage
          · exact stage
          · exact stages _
          · exact stages _

/-- How a setup on a fresh disk ends: somewhere on its way, or with the wallet that it made. -/
def Founded (crypto : Keygen Xpriv) (env : Env) (d₀ : Disk)
    (result : Except Error (Storage.Wallet Xpriv × Option (List Char))) (d : Disk) : Prop :=
  Stage crypto env d₀ d ∧ ∀ w' backup, result = .ok (w', backup) → ∃ phrase w id data,
    Saves crypto phrase env.cmPassphrase data ∧
      Making crypto env d₀ phrase w id (filed env.cmPassphrase data) d ∧ backup = some phrase ∧
        loadWallet crypto.toCrypto env d.root = .ok w'

theorem founded_error {e : Error} (stage : Stage crypto env d₀ d) :
    Founded crypto env d₀ (.error e) d := by
  refine ⟨stage, fun w' backup is => ?_⟩
  cases is

theorem wp_setup_fresh (refusal : Error) (unsaved : walletIds d₀.root = []) :
    wp diskInterp (Staged crypto env d₀) (Founded crypto env d₀) (setup crypto refusal env) d₀ := by
  refine wp_bind.2 fun root is => ⟨.inl rfl, bindPost_ok.2 ?_⟩
  obtain rfl : root = d₀.root := is
  rw [if_pos unsaved]
  split
  case isTrue refused => exact founded_error (.inl rfl)
  case isFalse taken =>
      have allowed : env.cmPassphrase.isSome ∨ network env ≠ .bitcoin := by
        rw [not_and_or, ← ne_eq, Option.ne_none_iff_isSome] at taken
        exact taken
      refine wp_bind.2 (wp_bind.2 ?_)
      rintro (e | phrase) - <;> refine ⟨.inl rfl, ?_⟩
      · exact founded_error (.inl rfl)
      refine bindPost_ok.2 (wp_bind.2 (wp_ofExcept.2 ?_))
      cases generated : Wallet.fromMnemonic crypto.toCrypto env phrase with
      | error e => exact founded_error (.inl rfl)
      | ok w =>
          refine bindPost_ok.2 (wp_bind.2 (wp_mono (wp_saveNewWallet unsaved allowed generated) ?_))
          rintro (e | dir) d saved
          · exact founded_error saved
          obtain ⟨id, data, saves, making⟩ := saved
          have stage : Stage crypto env d₀ d := making.stage (partly_whole saves)
          rw [bindPost_ok]
          refine wp_bind.2 fun root is => ⟨stage, bindPost_ok.2 (wp_bind.2 (wp_ofExcept.2 ?_))⟩
          obtain rfl : root = d.root := is
          cases loaded : loadWallet crypto.toCrypto env d.root with
          | error e => exact founded_error stage
          | ok w' =>
              refine bindPost_ok.2 ⟨stage, fun w'' backup is => ?_⟩
              cases is
              exact ⟨phrase, w, id, data, saves, making, rfl, loaded⟩

end Fresh

/-! ## A setup where an identity is stored -/

section Known

variable {Xpriv : Type} {crypto : Keygen Xpriv} {env : Env} {d : Disk}

/-- It loads the wallet and writes nothing. -/
theorem wp_setup_known (refusal : Error) (saved : walletIds d.root ≠ []) :
    wp diskInterp (fun d' op answer => diskInterp.next d' op answer = d)
      (fun result d' => d' = d ∧
        result = (loadWallet crypto.toCrypto env d.root).map fun w => (w, none))
      (setup crypto refusal env) d := by
  refine wp_bind.2 fun root is => ⟨rfl, bindPost_ok.2 ?_⟩
  obtain rfl : root = d.root := is
  rw [if_neg saved]
  refine wp_bind.2 (wp_ofExcept.2 ?_)
  cases loadWallet crypto.toCrypto env d.root with
  | error e => exact ⟨rfl, rfl⟩
  | ok w => exact ⟨rfl, rfl⟩

end Known

/-! ## Setups one after another -/

section Leaves

variable {Xpriv : Type} {crypto : Keygen Xpriv} {env env' : Env} {d₀ d d' : Disk}
  {phrase id : List Char} {w : Storage.Wallet Xpriv} {held : IdentityDir}

/-- A disk that setups, one after another and each cut anywhere, leave of `d`. -/
def Leaves (crypto : Keygen Xpriv) (d d' : Disk) : Prop :=
  Reachable diskInterp (fun run : Error × Env => setup crypto run.1 run.2) (fun d => d) d d'

def Same (d d' : Disk) : Prop := d' = d

/-- Where an identity is stored, nothing is written any more. -/
theorem leaves_known (saved : walletIds d.root ≠ []) (leaves : Leaves crypto d d') : Same d d' := by
  have keeps : Keeps diskInterp (fun d' op answer => diskInterp.next d' op answer = d) (Same d) :=
    fun _ _ _ _ promised _ => promised
  have start : Same d d := rfl
  refine Reachable.inv (Q := fun _ _ => True) start keeps (fun _ same => same) ?_ leaves
  intro run d' same
  obtain rfl : d' = d := same
  exact wp_mono (wp_setup_known run.1 saved) fun _ _ _ => trivial

theorem saved_of_making (unsaved : walletIds d₀.root = [])
    (making : Making crypto env d₀ phrase w id held d) : walletIds d.root = [id] :=
  making.added.walletIds unsaved (isIdName_walletDir making.named).1

/-- Some setup got so far, and no other got any further. -/
def Somewhere (crypto : Keygen Xpriv) (d₀ d : Disk) : Prop := ∃ env, Stage crypto env d₀ d

theorem leaves_fresh (unsaved : walletIds d₀.root = []) (leaves : Leaves crypto d₀ d) :
    Somewhere crypto d₀ d := by
  have lives := leaves
  obtain ⟨_, run, _, _⟩ := lives
  have keeps : Keeps diskInterp
      (fun d op answer => Somewhere crypto d₀ (diskInterp.next d op answer))
      (Somewhere crypto d₀) := fun _ _ _ _ promised _ => promised
  refine Reachable.inv (Q := fun _ _ => True) ⟨run.2, .inl rfl⟩ keeps (fun _ same => same) ?_ leaves
  intro run d somewhere
  obtain ⟨env, rfl | ⟨phrase, w, id, held, making, partly⟩⟩ := somewhere
  · refine wp_mono (wp_weaken ?_ (wp_setup_fresh run.1 unsaved)) fun _ _ _ => trivial
    exact fun _ _ _ stage => ⟨run.2, stage⟩
  · have saved : walletIds d.root ≠ [] := by
      rw [saved_of_making unsaved making]
      exact List.cons_ne_nil id []
    refine wp_mono (wp_weaken ?_ (wp_setup_known run.1 saved)) fun _ _ _ => trivial
    intro _ _ _ same
    rw [same]
    exact ⟨env, making.stage partly⟩

end Leaves

end SetupOnce

/-! ## Three setups -/

namespace SetupOnce

/-- Each byte behind a zero, and a one at the end. -/
def pack (plaintext : List UInt8) : List UInt8 := plaintext.flatMap (fun b => [0, b]) ++ [1]

def unpack : List UInt8 → Option (List UInt8)
  | [] => none
  | [last] => if last = 1 then some [] else none
  | first :: b :: rest => if first = 0 then (unpack rest).map (b :: ·) else none

theorem pack_cons (b : UInt8) (rest : List UInt8) : pack (b :: rest) = 0 :: b :: pack rest := rfl

theorem unpack_pack (plaintext : List UInt8) : unpack (pack plaintext) = some plaintext := by
  induction plaintext with
  | nil => rfl
  | cons b rest ih =>
      rw [pack_cons, unpack, if_pos rfl, ih]
      rfl

/-- The phrase is the seed, and the first 32 bytes of the seed are the key. -/
def packing : Keygen (List UInt8) where
  seedOf phrase := .ok (Lines.bytes phrase)
  newMaster _ seed := .ok seed
  derivePriv root _ := .ok root
  x25519Public secret := ⟨(secret ++ List.replicate 32 0).take 32, by simp⟩
  argon2 pass salt := .ok (Lines.bytes pass ++ salt)
  decrypt _ _ ciphertext := unpack ciphertext
  encrypt _ _ plaintext := some (pack plaintext)

theorem opens_packing : Opens packing := by
  intro key nonce plaintext ciphertext sealed
  cases sealed
  exact unpack_pack plaintext

def words : List Char := "abandon abandon about".toList

/-- A directory is not made where there is a file. -/
def made (d : Disk) (id : List Char) : Except Error Unit :=
  if d.files.contains id then .error "File exists" else .ok ()

/-- Each call goes well, but for the write of the seed. -/
def answer (seed : Written) (d : Disk) : (op : SetupOp) → op.Ans
  | .look => d.root
  | .generate => .ok words
  | .fillBytes n => List.replicate n 7
  | .createDirAll id => made d id
  | .setPermissions _ => .ok ()
  | .writeSeed _ _ | .writeMnemonic _ _ => seed
  | .markerExists => d.marker.isSome
  | .writeMarker _ => .done

def answering (seed : Written) (op : SetupOp) (d : Disk) : op.Ans × Disk :=
  (answer seed d op, d.after op (answer seed d op))

theorem answering_allowed (seed : Written) (op : SetupOp) (d : Disk) :
    diskInterp.allowed d op (answering seed op d).1 := by
  cases op with
  | look => exact rfl
  | fillBytes n => exact List.length_replicate
  | markerExists => exact rfl
  | createDirAll id =>
      intro is file
      have refused : made d id = .error "File exists" := if_pos (List.contains_iff_mem.2 file)
      cases refused.symm.trans is
  | generate => trivial
  | setPermissions id => trivial
  | writeSeed id data => trivial
  | writeMnemonic id data => trivial
  | writeMarker data => trivial

def bare : Disk := ⟨[], [], List.nodup_nil, none⟩

/-- A passphrase, and mainnet. -/
def locked : Env := ⟨none, none, some "hunter2".toList, none⟩

/-- What a setup leaves of the bare disk. -/
def leftover (seed : Written) : Disk := ((cliSetup packing locked).run (answering seed) bare).2

theorem leftover_run (seed : Written) :
    Exec diskInterp (cliSetup packing locked) bare
      ((cliSetup packing locked).run (answering seed) bare).1 (leftover seed) :=
  run_exec id _ _ (answering_allowed seed) fun _ _ => rfl

theorem leftover_leaves (seed : Written) : Leaves packing bare (leftover seed) :=
  ⟨bare, (_, locked), .boot, (leftover_run seed).reach⟩

end SetupOnce

open SetupOnce

variable {Xpriv : Type} {crypto : Keygen Xpriv}

/-- **At most one wallet is ever made, and it is never written over.**  Whatever setups leave of
a disk, in whatever environments they run, whatever fails and wherever they are cut: once an
identity is stored no later one changes anything; and of a disk without one they leave the disk
itself, or it with the directory of one generated wallet, which is empty or holds a first part,
perhaps all, of that wallet's phrase. -/
theorem setup_makes_once {d₀ d d' : Disk} (first : Leaves crypto d₀ d) (later : Leaves crypto d d') :
    (walletIds d.root ≠ [] → d' = d) ∧
    (walletIds d₀.root = [] → d = d₀ ∨ ∃ env phrase w id held, walletIds d.root = [id] ∧
      Making crypto env d₀ phrase w id held d ∧ Partly crypto env phrase held) := by
  refine ⟨fun saved => leaves_known saved later, fun unsaved => ?_⟩
  obtain ⟨env, fresh | ⟨phrase, w, id, held, making, partly⟩⟩ := leaves_fresh unsaved first
  · exact .inl fresh
  · exact .inr ⟨env, phrase, w, id, held, saved_of_making unsaved making, making, partly⟩

/-- The seed is cut after thirty bytes; its directory stays as it is. -/
theorem setup_makes_once_torn :
    walletIds (leftover (.torn 30 "disk full")).root ≠ [] ∧
      ∀ d', Leaves packing (leftover (.torn 30 "disk full")) d' → d' = leftover (.torn 30 "disk full") := by
  have saved : walletIds (leftover (.torn 30 "disk full")).root ≠ [] := by decide +kernel
  exact ⟨saved, fun d' later => (setup_makes_once (leftover_leaves _) later).1 saved⟩

/-- **A wallet that was returned is kept.**  A setup that returns from a disk without an identity
returns the wallet of the words it shows, and after any later setups the disk still gives that
wallet, to every environment with its network and passphrase that leaves the choice open or
makes the same. -/
theorem setup_keeps_wallet (opens : Opens crypto) {env : Env} {refusal : Error} {d₀ d d' : Disk}
    {w : Storage.Wallet Xpriv} {backup : Option (List Char)} (unsaved : walletIds d₀.root = [])
    (stored : env.cmMnemonic = none)
    (run : Exec diskInterp (setup crypto refusal env) d₀ (.ok (w, backup)) d)
    (later : Leaves crypto d d') :
    (∃ phrase, backup = some phrase ∧ Wallet.fromMnemonic crypto.toCrypto env phrase = .ok w) ∧
      ∀ env', Alike env env' → env'.cmId = none ∨ env'.cmId = env.cmId →
        loadWallet crypto.toCrypto env' d'.root = .ok w := by
  obtain ⟨-, founded⟩ := wp_exec (wp_setup_fresh refusal unsaved) run
  obtain ⟨phrase, w', id, data, saves, making, shown, loaded⟩ := founded w backup rfl
  obtain ⟨_, _, picked, _⟩ := (loadWallet_ok stored).1 loaded
  have made := load_made opens ⟨stored, rfl, rfl⟩ unsaved making saves ⟨_, picked⟩
  obtain rfl : w' = w := Except.ok.inj (made.symm.trans loaded)
  have saved : walletIds d.root ≠ [] := by
    rw [saved_of_making unsaved making]
    exact List.cons_ne_nil id []
  obtain rfl : d' = d := leaves_known saved later
  refine ⟨⟨phrase, shown, making.generated⟩, fun env' alike chosen => ?_⟩
  refine load_made opens alike unsaved making saves ?_
  rcases chosen with open' | same
  · rw [open']
    exact picks_made unsaved making _
  · rw [same]
    exact ⟨_, picked⟩

/-- A setup returns, and its wallet is there with no selector. -/
theorem setup_keeps_wallet_sealed :
    ((cliSetup packing locked).run (answering .done) bare).1 =
        .ok (⟨Lines.bytes words, .bitcoin⟩, some words) ∧
      ∀ d', Leaves packing (leftover .done) d' →
        loadWallet packing.toCrypto locked d'.root = .ok ⟨Lines.bytes words, .bitcoin⟩ := by
  have ends : ((cliSetup packing locked).run (answering .done) bare).1 =
      .ok (⟨Lines.bytes words, .bitcoin⟩, some words) := by rfl
  have run := leftover_run .done
  rw [ends] at run
  refine ⟨ends, fun d' later => ?_⟩
  exact (setup_keeps_wallet opens_packing (by decide +kernel) rfl run later).2 locked
    ⟨rfl, rfl, rfl⟩ (.inl rfl)

end ComputerMoney.Safety

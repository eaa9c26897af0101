/-
# Safety.Income -- the income on file is the wallet's, and the wallet can spend it

A builder that spends silent-payment income takes the ledger's word for it: where the output
is, what it is worth, and by which tweak it opens (`Held`, `Pins`).  The ledger has all of this
from the scanner, and the scanner from the server.

A pass writes receipts only of what a page showed it (`vouched_scanToTip`), and no other call
of a command writes any.  So if the pages show the chain (`OnChain`), every receipt on file,
and in every instance, is of an output on the chain that its tweak opens (`Spendable`), however
many commands act at once and whichever of them fail; and every transaction then built on this
income is one that a node takes (`income_spendable`).
-/
import ComputerMoney.Kernel.Passes
import ComputerMoney.Safety.BuiltPayment
import ComputerMoney.Safety.HexKeys
import ComputerMoney.Safety.SellerScan
import ComputerMoney.Safety.StaleWriter

namespace ComputerMoney.Safety

set_option autoImplicit false

open Theory Theory.Program
open Kernel hiding PublicKey Error Psbt feeCap loadPolicy buildSigned buildSignedToSp
  buildSignedSpendingSp mainnetGuard
open Kernel.Builder
open Kernel.Sp (Secp spendKeypair p2trScript txMatches taprootOutputs taprootOutputKey outputAt
  receiveLoop receiveCheck takeKey)

open Builders

namespace Income

/-! ## What a pass writes, by what it was shown -/

section Commands

variable (shown : EsploraTx → Prop) (source : Receipt → Prop)

/-- The pages show only such transactions. -/
def PagesShow : (op : Op) → op.Ans → Prop
  | .blockTxs _ _, .ok txs => ∀ view ∈ txs, shown view
  | _, _ => True

/-- A receipt is written only of what is sourced. -/
def Sourced : Op → Prop
  | .append _ e => ∀ r, receipt? e = some r → source r
  | _ => True

/-- The receipts that the matches of a transaction are worth. -/
def Sources (host : Host) : Prop :=
  ∀ view, shown view → ∀ f ∈ host.txMatches view,
    source ⟨view.txid, f.vout, f.sats, String.ofList (Hex.hexLower f.tweak)⟩

variable {shown source} {host : Host} {led : Handle}

theorem sourced_of_scanless (op : Op) (scanless : Op.scanless op) : Sourced source op := by
  cases op with
  | append led e =>
      intro r is
      rw [show receipt? e = none from scanless] at is
      cases is
  | _ => trivial

/-! ## The scanner -/

variable (sources : Sources shown source host)
include sources

theorem vouched_bookMatches {view : EsploraTx} (honest : shown view) {fs : List SpFound}
    (among : ∀ f ∈ fs, f ∈ host.txMatches view) (found : List Found) :
    (bookMatches led view.txid fs found).Vouched (PagesShow shown) (Sourced source) := by
  induction fs generalizing found with
  | nil => trivial
  | cons f fs ih =>
      have rest := fun found => ih (fun g member => among g (List.mem_cons_of_mem _ member)) found
      unfold bookMatches
      split
      · exact rest _
      · refine vouched_bind (vouched_bind ⟨trivial, fun _ _ => trivial⟩ fun es => ?_)
          fun _ => rest _
        split
        · trivial
        · refine vouched_bind ⟨fun r is => ?_, fun answer _ => ?_⟩ fun _ => trivial
          · cases is
            exact sources view honest f (among f (List.mem_cons_self ..))
          · cases answer <;> trivial

theorem vouched_bookPage {txs : List EsploraTx} (honest : ∀ view ∈ txs, shown view)
    (found : List Found) :
    (bookPage host led txs found).Vouched (PagesShow shown) (Sourced source) := by
  induction txs generalizing found with
  | nil => trivial
  | cons view txs ih =>
      refine vouched_bind (vouched_bookMatches sources (honest view (List.mem_cons_self ..))
        (fun f member => member) _) fun _ => ?_
      exact ih (fun view member => honest view (List.mem_cons_of_mem _ member)) _

theorem vouched_scanPages (hash : String) (pages start : ℕ) (found : List Found) :
    (scanPages host led hash pages start found).Vouched (PagesShow shown) (Sourced source) := by
  induction pages generalizing start found with
  | zero => trivial
  | succ pages ih =>
      -- A page that came is of transactions shown; one that did not ends the pass.
      refine ⟨trivial, fun answer heard => ?_⟩
      cases answer with
      | error e => trivial
      | ok txs =>
          have honest : ∀ view ∈ txs, shown view := heard
          dsimp only [Program.ofExcept, Program.bind]
          split
          · trivial
          · refine vouched_bind (vouched_bookPage sources honest _) fun _ => ?_
            split
            · trivial
            · exact ih _ _

theorem vouched_scanBlocks (pages count height : ℕ) (found : List Found) :
    (scanBlocks host led pages count height found).Vouched (PagesShow shown) (Sourced source) := by
  induction count generalizing height found with
  | zero => trivial
  | succ count ih =>
      exact vouched_bind ⟨trivial, fun _ _ => within_ofExcept.vouched⟩ fun _ =>
        vouched_bind (vouched_scanPages sources _ _ _ _) fun _ => ih _ _

theorem vouched_scanToTip (pages : ℕ) :
    (scanToTip host led pages).Vouched (PagesShow shown) (Sourced source) := by
  refine vouched_bind ⟨trivial, fun _ _ => trivial⟩ fun _ => vouched_bind (vouched_attempt ?_)
    fun _ => vouched_bind ⟨trivial, fun _ _ => trivial⟩ fun _ => within_ofExcept.vouched
  refine vouched_bind within_ofExcept.vouched fun _ => vouched_bind within_ofExcept.vouched
    fun _ => ?_
  refine vouched_bind ⟨trivial, fun _ _ => within_ofExcept.vouched⟩ fun tip => ?_
  refine vouched_bind ⟨trivial, fun _ _ => within_ofExcept.vouched⟩ fun checkpoint => ?_
  refine vouched_bind (vouched_scanBlocks sources _ _ _ _) fun _ => ?_
  refine vouched_bind ⟨trivial, fun answer _ => ?_⟩ fun _ => vouched_bind ?_ fun _ => trivial
  · cases answer <;> trivial
  · exact vouched_of_scanless sourced_of_scanless
      (within_trackSpends trivial (fun _ _ => trivial) fun _ _ _ => rfl)

end Commands

/-! ## Whole interleavings -/

section Directory

variable {shown : EsploraTx → Prop} {source : Receipt → Prop} {host : Host}
  {commands : List Command} {pool : Pool sig Kernel.Error Unit} {s : Directory}

/-- Every receipt is sourced: those on file, and those that an instance holds. -/
structure AllSourced (source : Receipt → Prop) (w : World) : Prop where
  onFile : ∀ r ∈ receipts w.ledger, source r
  inMemory : ∀ led, ∀ r ∈ receipts (w.mem led), source r

theorem mem_receipts_append {entries : List Entry} {e : Entry} {r : Receipt}
    (member : r ∈ receipts (entries ++ [e])) : r ∈ receipts entries ∨ receipt? e = some r := by
  rw [receipts_append, List.mem_append] at member
  exact member.imp id fun last => Option.mem_toList.1 last

theorem AllSourced.after {w : World} {op : Op} {answer : sig.Ans op} (backed : AllSourced source w)
    (allowed : (interp host).allowed w op answer) (sourced : Sourced source op) :
    AllSourced source (w.after op answer) := by
  cases op with
  | openLedger =>
      rcases answer with error | led
      · exact backed
      obtain rfl : led = w.fresh := allowed
      refine ⟨backed.onFile, fun led r member => ?_⟩
      rcases eq_or_ne led w.fresh with rfl | other
      · have loaded : (w.load w.fresh).mem w.fresh = w.ledger := w.load_mem
        exact backed.onFile r (loaded ▸ member)
      · have same : (w.load w.fresh).mem led = w.mem led := Function.update_of_ne other ..
        exact backed.inMemory led r (same ▸ member)
  | append led e =>
      have onFile : ∀ r ∈ receipts (w.ledger ++ [e]), source r := fun r member =>
        (mem_receipts_append member).elim (backed.onFile r) (sourced r)
      cases answer with
      | ok =>
          refine ⟨onFile, fun led' r member => ?_⟩
          rcases eq_or_ne led' led with rfl | other
          · have grown : (w.appended led' e).mem led' = w.mem led' ++ [e] :=
              Function.update_self ..
            exact (mem_receipts_append (grown ▸ member)).elim (backed.inMemory led' r) (sourced r)
          · have same : (w.appended led e).mem led' = w.mem led' :=
              Function.update_of_ne other ..
            exact backed.inMemory led' r (same ▸ member)
      | lost error => exact backed
      | kept error => exact ⟨onFile, backed.inMemory⟩
  | _ =>
      have mem := w.after_mem answer nofun nofun
      have ledger := w.after_ledger answer nofun
      refine ⟨fun r member => backed.onFile r (ledger ▸ member), fun led r member => ?_⟩
      exact backed.inMemory led r (mem ▸ member)

theorem allSourced_blank : AllSourced source World.blank :=
  ⟨fun _ member => absurd member List.not_mem_nil,
    fun _ _ member => absurd member List.not_mem_nil⟩

/-- **Where the pages show only what is sourced, every receipt is**, in every interleaving of
every command. -/
theorem allSourced_interleaves (sources : Sources shown source host)
    (run : Interleaves host (fun _ => PagesShow shown) commands pool s) :
    AllSourced source s.1 := by
  refine @Pool.vouched sig Directory Kernel.Error Unit (PagesShow shown) (Sourced source)
    (threads host fun _ => PagesShow shown) (fun s => AllSourced source s.1) _ _ _ _
    allSourced_blank ?_ ?_ ?_ run
  · intro p member
    obtain ⟨command, -, rfl⟩ := List.mem_map.1 member
    exact vouched_command sourced_of_scanless (fun _ _ => vouched_scanToTip sources _) command
  · exact fun _ _ _ _ _ allowed => allowed.2
  · exact fun _ _ _ _ allowed sourced backed => backed.after allowed.1 sourced

end Directory

/-! ## What the scanner finds -/

section Found

variable {F G X Xpriv : Type} [Field F] [AddCommGroup G] [Module F G] [DecidableEq F]
  [DecidableEq G]

theorem key_of_takeKey [DecidableEq X] {key : X} {outputs rest : List (ℕ × X × ℕ)}
    {taken : ℕ × X × ℕ} (found : takeKey key outputs = some (taken, rest)) : taken.2.1 = key := by
  induction outputs generalizing rest with
  | nil => cases found
  | cons output outputs ih =>
      unfold takeKey at found
      split at found
      case isTrue same =>
          cases found
          exact same
      case isFalse =>
          obtain ⟨⟨taken', rest'⟩, deeper, same⟩ := Option.map_eq_some_iff.1 found
          cases same
          exact ih deeper

/-- A found output has the key that some index derives, and the tweak of that index. -/
theorem receiveLoop_derived [DecidableEq X] {secp : Secp F G X} {ecdh spend : Point G}
    {turns k : ℕ} {outputs : List (ℕ × X × ℕ)} {found : List SpFound}
    (looped : receiveLoop secp ecdh spend turns k outputs = .ok found) :
    ∀ f ∈ found, ∃ k key, outputAt secp ecdh spend k = .ok (key, f.tweak) ∧
      (f.vout, key, f.sats) ∈ outputs := by
  induction turns generalizing k outputs found with
  | zero =>
      cases outputs <;> cases looped <;> exact fun f member => absurd member List.not_mem_nil
  | succ turns ih =>
      cases outputs with
      | nil =>
          cases looped
          exact fun f member => absurd member List.not_mem_nil
      | cons output outputs =>
          obtain ⟨⟨key, tweak⟩, derived, rest⟩ := bind_ok.1 looped
          rcases taken : takeKey key (output :: outputs) with _ | ⟨⟨vout, key', sats⟩, others⟩
          · simp only [taken] at rest
            cases rest
            exact fun f member => absurd member List.not_mem_nil
          · simp only [taken] at rest
            obtain ⟨found', deeper, is⟩ := bind_ok.1 rest
            cases is
            obtain rfl : key' = key := key_of_takeKey taken
            have perm := takeKey_perm taken
            intro f member
            rcases List.mem_cons.1 member with rfl | later
            · exact ⟨k, key', derived, perm.mem_iff.2 (List.mem_cons_self ..)⟩
            · obtain ⟨k', key'', derived', among⟩ := ih deeper f later
              exact ⟨k', key'', derived', perm.mem_iff.2 (List.mem_cons_of_mem _ among)⟩

theorem txMatches_derived [DecidableEq X] {secp : Secp F G X} {view : EsploraTx}
    {scanSk : Secret F} {spend : Point G} {f : SpFound}
    (matched : f ∈ txMatches secp view scanSk spend) :
    ∃ ecdh k key, outputAt secp ecdh spend k = .ok (key, f.tweak) ∧
      (f.vout, key, f.sats) ∈ taprootOutputs secp view := by
  have none_ : f ∉ ([] : List SpFound) := List.not_mem_nil
  unfold txMatches at matched
  split at matched
  · exact absurd matched none_
  dsimp only at matched
  split at matched
  · exact absurd matched none_
  split at matched
  · exact absurd matched none_
  split at matched
  · exact absurd matched none_
  unfold receiveCheck at matched
  split at matched
  · rename_i found ran
    obtain ⟨ecdh, -, looped⟩ := bind_ok.1 ran
    exact ⟨ecdh, receiveLoop_derived looped f matched⟩
  · exact absurd matched none_

omit [DecidableEq F] [DecidableEq G] in
theorem mem_taprootOutputs {secp : Secp F G X} {view : EsploraTx} {i sats : ℕ} {key : X}
    (member : (i, key, sats) ∈ taprootOutputs secp view) :
    ∃ script, view.vout[i]? = some ⟨script, sats⟩ ∧ taprootOutputKey secp script = some key := by
  obtain ⟨⟨⟨script, value⟩, j⟩, listed, is⟩ := List.mem_filterMap.1 member
  obtain ⟨key', read, same⟩ := Option.map_eq_some_iff.1 is
  cases same
  exact ⟨script, List.mk_mem_zipIdx_iff_getElem?.1 listed, read⟩

variable (keys : Keys F G X Xpriv) (prevout : OutPoint → Option Vout) (spendSk : Secret F)

/-- What esplora shows is on the chain, and spelled as esplora spells it: the hex of a
transaction id and of a Taproot script is in lower case. -/
structure OnChain (view : EsploraTx) : Prop where
  txid : canonicalTxid view.txid = .ok view.txid
  outputs : ∀ i o, view.vout[i]? = some o → prevout (view.txid, i) = some o
  scripts : ∀ o ∈ view.vout, ∀ key, taprootOutputKey keys.toSecp o.scriptpubkey = some key →
    o.scriptpubkey = p2trScript keys.toSecp key

/-- A receipt is of an output on the chain that its tweak opens. -/
def Spendable (r : Receipt) : Prop :=
  ∃ tweak sk, canonicalTxid r.txid = .ok r.txid ∧
    (Mcp.decodeHex32 r.tweak.toList).run = some (.ok tweak) ∧
    spendKeypair keys.toSecp spendSk tweak = .ok sk ∧
    prevout (r.txid, r.vout) = some (pinnedUtxo keys sk r.sats)

variable {keys prevout spendSk}

/-- **What the scanner finds in a transaction on the chain, its tweak opens.** -/
theorem spendable_of_match [DecidableEq X] {scanSk : Secret F} {view : EsploraTx} {f : SpFound}
    (hashed : ∀ tag data, (keys.taggedHash tag data).length = 32)
    (onChain : OnChain keys prevout view)
    (matched : f ∈ txMatches keys.toSecp view scanSk (keys.publicKey spendSk)) :
    Spendable keys prevout spendSk
      ⟨view.txid, f.vout, f.sats, String.ofList (Hex.hexLower f.tweak)⟩ := by
  obtain ⟨ecdh, k, key, derived, listed⟩ := txMatches_derived matched
  obtain ⟨script, there, read⟩ := mem_taprootOutputs listed
  obtain ⟨sk, opens, is⟩ := spendKeypair_outputAt keys.toSecp derived
  have printed : script = p2trScript keys.toSecp key :=
    onChain.scripts _ (List.mem_of_getElem? there) key read
  have length : f.tweak.length = 32 := by
    obtain ⟨tsk, -, combines⟩ := bind_ok.1 derived
    obtain ⟨pk, -, made⟩ := bind_ok.1 combines
    have is : Sp.tweakAt keys.toSecp ecdh k = f.tweak := congrArg Prod.snd (Except.ok.inj made)
    rw [← is]
    exact hashed _ _
  refine ⟨f.tweak, sk, onChain.txid, ?_, opens, ?_⟩
  · rw [String.toList_ofList]
    exact HexKeys.parse_hexLower length
  · rw [pinnedUtxo, is, ← printed]
    exact onChain.outputs _ _ there

omit [DecidableEq G] in
theorem Spendable.pins {u : Ledger.SpUtxo}
    (opens : Spendable keys prevout spendSk ⟨u.txid, u.vout, u.sats, u.tweak⟩) :
    Held keys prevout spendSk u ∧ ∃ outpoint tweak sk, Pins keys spendSk u outpoint tweak sk := by
  obtain ⟨tweak, sk, txid, decoded, key, there⟩ := opens
  refine ⟨?_, (u.txid, u.vout), tweak, sk, ⟨txid, rfl, decoded, key⟩⟩
  intro txid' tweak' sk' txid_ decoded_ key_
  obtain rfl : u.txid = txid' := Except.ok.inj (txid.symm.trans txid_)
  obtain rfl : tweak = tweak' := Except.ok.inj (Option.some.inj (decoded.symm.trans decoded_))
  obtain rfl : sk = sk' := Except.ok.inj (key.symm.trans key_)
  exact there

theorem mem_receipts_spUtxos {entries : List Entry} {u : Ledger.SpUtxo}
    (member : u ∈ Ledger.spUtxos entries) :
    ⟨u.txid, u.vout, u.sats, u.tweak⟩ ∈ receipts entries := by
  obtain ⟨⟨seq, status, booked⟩, -⟩ := Ledger.mem_spUtxos.1 member
  exact List.mem_filterMap.2 ⟨_, booked, rfl⟩

end Found

end Income

open Income

section

variable {F G X Xpriv : Type} [Field F] [AddCommGroup G] [Module F G] [DecidableEq F]
  [DecidableEq G] [DecidableEq X]

/-- **The income of a ledger can be spent.**  However many commands act on a wallet directory,
in any interleaving and whatever fails, as long as the pages of the server are of transactions
on the chain: every coin of income that the file or an instance lists is there, and its tweak
opens it; and every transaction that is built on that income is one that a node takes. -/
theorem income_spendable (keys : Keys F G X Xpriv) (prevout : OutPoint → Option Vout)
    (scanSk spendSk : Secret F) (host : Host) (commands : List Command)
    (pool : Pool sig Kernel.Error Unit) (s : Directory)
    (hashed : ∀ tag data, (keys.taggedHash tag data).length = 32)
    (wallet : host.txMatches = fun view =>
      txMatches keys.toSecp view scanSk (keys.publicKey spendSk))
    (run : Interleaves host (fun _ => PagesShow (OnChain keys prevout)) commands pool s)
    (entries : List Entry) (held : entries = s.1.ledger ∨ ∃ led, entries = s.1.mem led) :
    (∀ u ∈ Ledger.spUtxos entries, Held keys prevout spendSk u ∧
      ∃ outpoint tweak sk, Pins keys spendSk u outpoint tweak sk) ∧
    (∀ store network payee sats maxFeeSats tx fee consumed,
      Returns (trusted keys store prevout) (buildSignedSpendingSp keys network payee sats maxFeeSats
        (Ledger.spUtxos entries) spendSk) (tx, fee, consumed) → Accepted keys prevout tx fee) ∧
    ∀ (store : Storage.Wallet Xpriv) scan spend sats maxFeeSats tx fee recipient consumed,
      Returns (trusted keys store prevout) (buildSignedToSp keys store.network
        (descriptors keys store).1 scan spend sats maxFeeSats (Ledger.spUtxos entries) spendSk)
        (tx, fee, recipient, consumed) → Accepted keys prevout tx fee := by
  have sources : Sources (OnChain keys prevout) (Spendable keys prevout spendSk) host := by
    intro view onChain f matched
    rw [wallet] at matched
    exact spendable_of_match hashed onChain matched
  have backed := allSourced_interleaves sources run
  have spendable : ∀ r ∈ receipts entries, Spendable keys prevout spendSk r := by
    rcases held with rfl | ⟨led, rfl⟩
    · exact backed.onFile
    · exact backed.inMemory led
  have pinned : ∀ u ∈ Ledger.spUtxos entries, Held keys prevout spendSk u ∧
      ∃ outpoint tweak sk, Pins keys spendSk u outpoint tweak sk :=
    fun u member => (spendable _ (mem_receipts_spUtxos member)).pins
  refine ⟨pinned, ?_, ?_⟩
  · intro store network payee sats maxFeeSats tx fee consumed built
    obtain ⟨recipient, request, psbt, -, completed⟩ := returns_buildSignedSpendingSp built
    exact completed.accepted fun u member => (pinned u member).1
  · intro store scan spend sats maxFeeSats tx fee recipient consumed built
    obtain ⟨request, psbt, completed, -⟩ := returns_buildSignedToSp built
    exact completed.accepted fun u member => (pinned u member).1

end

/-! ## A balance request over the integers modulo seven -/

namespace Income

/-- A chain of one transaction. -/
def outputsOf (view : EsploraTx) (o : OutPoint) : Option Vout :=
  if o.1 = view.txid then view.vout[o.2]? else none

/-- Every block of a short chain shows it, and it is confirmed. -/
def incomeAnswer (s : Directory) : (op : Op) → op.Ans
  | .tipHeight => .ok 1
  | .confirmations _ => .ok 6
  | op => shownAnswer sevenTx (s.1, []) op

def incomeHandle (i : ℕ) (op : Op) (s : Directory) : op.Ans × Directory :=
  (incomeAnswer s op, (s.1.after op (incomeAnswer s op), (i, ⟨op, incomeAnswer s op⟩) :: s.2))

/-- Someone asks for the balance, and this is the checkpoint. -/
def sevenAsks (checkpoint : CheckpointFile) : Pool sig Kernel.Error Unit × Directory :=
  Pool.drive mayAll incomeHandle (List.replicate 60 0) [(Command.balance 1).perform sevenHost]
    ({ World.blank with checkpoint := checkpoint }, [])

theorem onChain_seven : OnChain sevenKeys (outputsOf sevenTx) sevenTx where
  txid := rfl
  outputs _ _ there := (if_pos rfl).trans there
  scripts := by decide +kernel

theorem sevenAsks_steps (checkpoint : CheckpointFile) :
    Relation.ReflTransGen
      (Pool.Step (threads sevenHost fun _ => PagesShow (OnChain sevenKeys (outputsOf sevenTx))))
      ([Command.balance 1].map (Command.perform sevenHost),
        ({ World.blank with checkpoint := checkpoint }, []))
      (sevenAsks checkpoint) := by
  refine @Pool.drive_steps sig Directory Kernel.Error Unit
    (threads sevenHost fun _ => PagesShow (OnChain sevenKeys (outputsOf sevenTx))) mayAll
    incomeHandle (fun i op s _ => ?_) (fun _ _ _ => rfl) _ _ _
  have allowed := shownAnswer_allowed sevenTx (s.1, []) op
  cases op with
  | tipHeight | confirmations => exact ⟨trivial, trivial⟩
  | blockTxs hash start =>
      refine ⟨trivial, fun view member => ?_⟩
      obtain rfl := List.mem_singleton.1 (List.mem_of_mem_drop (List.mem_of_mem_take member))
      exact onChain_seven
  | _ => exact ⟨allowed, trivial⟩

theorem sevenCurve_taggedHash (tag : String) (data : List UInt8) :
    (sevenCurve.taggedHash tag data).length = 32 := by
  show (if tag = "BIP0352/Inputs" then lastByte 3 else lastByte 1).length = 32
  split <;> rfl

end Income

/-- What the request books is on the chain, and its tweak opens it. -/
theorem income_spendable_seven :
    Ledger.spUtxos (sevenAsks .absent).2.1.ledger =
      [⟨sampleTxid, 1, 5000, String.ofList (Hex.hexLower (lastByte 1))⟩] ∧
    ∀ u ∈ Ledger.spUtxos (sevenAsks .absent).2.1.ledger,
      Held sevenKeys (outputsOf sevenTx) sevenSpend u ∧
      ∃ outpoint tweak sk, Pins sevenKeys sevenSpend u outpoint tweak sk := by
  refine ⟨by decide +kernel, ?_⟩
  exact (income_spendable sevenKeys (outputsOf sevenTx) sevenScan sevenSpend sevenHost
    [.balance 1] (sevenAsks .absent).1 (sevenAsks .absent).2 sevenCurve_taggedHash rfl
    (sevenAsks_steps .absent) _ (.inl rfl)).1

end ComputerMoney.Safety

/-
# Safety.SellerScan -- what the seller takes for paid, and what the scanner books

Both look at a transaction through the same matches.  The seller adds all of them up; the
scanner books those at or above the dust floor.  So the two agree about a transaction exactly
when none of its matches is dust: a price paid in small pieces is delivered for, and never
comes in.
-/
import Mathlib.Data.List.Perm.Subperm
import ComputerMoney.Kernel.Esplora
import ComputerMoney.Kernel.Paywall
import ComputerMoney.Safety.ScanResume
import ComputerMoney.Safety.SilentPaymentFound

namespace ComputerMoney.Safety

set_option autoImplicit false

open Theory Theory.Program
open Kernel hiding PublicKey Error
open Kernel.Sp

section Matches

variable {F G X : Type} [Field F] [AddCommGroup G] [Module F G] [DecidableEq F] [DecidableEq G]
  [DecidableEq X] (secp : Secp F G X)

/-- What the loop finds is among what it is given. -/
theorem receiveLoop_subperm {ecdh spend : Point G} {turns k : ℕ} {remaining : List (ℕ × X × ℕ)}
    {found : List SpFound} (ran : receiveLoop secp ecdh spend turns k remaining = .ok found) :
    (found.map SpFound.vout).Subperm (remaining.map Prod.fst) := by
  induction turns generalizing k remaining found with
  | zero => cases remaining <;> cases ran <;> exact List.nil_subperm
  | succ turns ih =>
      match remaining with
      | [] =>
          cases ran
          exact List.nil_subperm
      | output :: outputs =>
          obtain ⟨⟨key, tweak⟩, -, rest⟩ := bind_ok.1 ran
          rcases taken : takeKey key (output :: outputs) with _ | ⟨⟨vout, _, sats⟩, others⟩
          · simp only [taken] at rest
            cases rest
            exact List.nil_subperm
          · simp only [taken] at rest
            obtain ⟨found', deeper, is⟩ := bind_ok.1 rest
            cases is
            exact ((List.subperm_cons vout).2 (ih deeper)).trans
              ((takeKey_perm taken).map Prod.fst).symm.subperm

omit [DecidableEq F] [DecidableEq G] [DecidableEq X] in
theorem taprootOutputs_nodup (tx : EsploraTx) : ((taprootOutputs secp tx).map Prod.fst).Nodup := by
  have indices : ∀ (vouts : List Vout) (start : ℕ),
      (((vouts.zipIdx start).filterMap fun entry =>
        (taprootOutputKey secp entry.1.scriptpubkey).map fun key =>
          (entry.2, key, entry.1.value)).map Prod.fst).Sublist (List.range' start vouts.length) := by
    intro vouts
    induction vouts with
    | nil => exact fun _ => .slnil
    | cons vout vouts ih =>
        intro start
        rw [List.zipIdx_cons, List.filterMap_cons, List.length_cons, List.range'_succ]
        rcases taprootOutputKey secp vout.scriptpubkey with _ | key
        · exact (ih (start + 1)).cons start
        · exact (ih (start + 1)).cons_cons start
  exact (indices tx.vout 0).nodup (List.nodup_range' ..)

/-- The matches of a transaction are at distinct outputs. -/
theorem txMatches_nodup (tx : EsploraTx) (scanSk : Secret F) (spend : Point G) :
    ((txMatches secp tx scanSk spend).map SpFound.vout).Nodup := by
  unfold txMatches
  split
  · exact List.nodup_nil
  dsimp only
  split
  · exact List.nodup_nil
  split
  · exact List.nodup_nil
  split
  · exact List.nodup_nil
  unfold receiveCheck
  split
  · rename_i found ran
    obtain ⟨ecdh, -, looped⟩ := bind_ok.1 ran
    obtain ⟨sub, same, within⟩ := receiveLoop_subperm secp looped
    exact same.nodup_iff.1 (within.nodup (taprootOutputs_nodup secp tx))
  · exact List.nodup_nil

end Matches

/-! ## A pass that returned -/

/-- The host, over a chain that moves; the disk may fail. -/
def overChain (host : Host) (contents : String → List EsploraTx) (chain : ℕ → Best) :
    Interp sig Journal :=
  (interp host).recorded.restrict fun s op answer => (chain s.2.length).serves contents op answer

/-- The error of a write that failed. -/
def writeFailure? : Event sig → Option Kernel.Error
  | ⟨.append _ _, answer⟩ => match answer with
      | .ok => none
      | .lost error | .kept error => some error
  | ⟨.saveCheckpoint _, answer⟩ => match answer with
      | .ok => none
      | .lost error | .torn error => some error
  | _ => none

section Writes

variable {host : Host} {led : Handle}

theorem propagates_entries_write : (Ledger.entries led).Propagates writeFailure? :=
  fun _ => ⟨nofun, trivial⟩

theorem propagates_append_write {e : Entry} : (Ledger.append led e).Propagates writeFailure? := by
  rintro (_ | error | error)
  · exact ⟨nofun, trivial⟩
  · exact ⟨fun _ failed => congrArg Program.throw (Option.some.inj failed), trivial⟩
  · exact ⟨fun _ failed => congrArg Program.throw (Option.some.inj failed), trivial⟩

theorem propagates_saveCheckpoint {height : ℕ} :
    (saveCheckpoint height).Propagates writeFailure? := by
  rintro (_ | error | error)
  · exact ⟨nofun, trivial⟩
  · exact ⟨fun _ failed => congrArg Program.throw (Option.some.inj failed), trivial⟩
  · exact ⟨fun _ failed => congrArg Program.throw (Option.some.inj failed), trivial⟩

theorem propagates_bookMatches {txid : String} {fs : List SpFound} {found : List Found} :
    (bookMatches led txid fs found).Propagates writeFailure? := by
  induction fs generalizing found with
  | nil => trivial
  | cons f fs ih =>
      unfold bookMatches
      split
      · exact ih
      · refine propagates_bind (propagates_bind propagates_entries_write fun es => ?_) fun _ => ih
        split
        · trivial
        · exact propagates_bind propagates_append_write fun _ => trivial

theorem propagates_bookPage {txs : List EsploraTx} {found : List Found} :
    (bookPage host led txs found).Propagates writeFailure? := by
  induction txs generalizing found with
  | nil => trivial
  | cons tx txs ih => exact propagates_bind propagates_bookMatches fun _ => ih

theorem propagates_scanPages {hash : String} {pages start : ℕ} {found : List Found} :
    (scanPages host led hash pages start found).Propagates writeFailure? := by
  induction pages generalizing start found with
  | zero => trivial
  | succ pages ih =>
      refine propagates_bind (fun _ => ⟨nofun, propagates_ofExcept⟩) fun txs => ?_
      split
      · trivial
      · refine propagates_bind propagates_bookPage fun _ => ?_
        split
        · trivial
        · exact ih

theorem propagates_scanBlocks {pages count height : ℕ} {found : List Found} :
    (scanBlocks host led pages count height found).Propagates writeFailure? := by
  induction count generalizing height found with
  | zero => trivial
  | succ count ih =>
      exact propagates_bind (fun _ => ⟨nofun, propagates_ofExcept⟩) fun _ =>
        propagates_bind propagates_scanPages fun _ => ih

theorem propagates_trackSpends : (trackSpends led).Propagates writeFailure? := by
  refine propagates_bind propagates_entries_write fun es => propagates_forEach fun u _ => ?_
  refine propagates_bind (fun _ => ⟨nofun, propagates_ofExcept⟩) fun spent => ?_
  split
  · refine propagates_bind (propagates_bind propagates_entries_write fun es => ?_) fun _ => trivial
    split
    · trivial
    · exact propagates_bind propagates_append_write fun _ => trivial
  · trivial

theorem propagates_scanPass {pages : ℕ} : (scanPass host led pages).Propagates writeFailure? :=
  propagates_bind propagates_ofExcept fun _ => propagates_bind propagates_ofExcept fun _ =>
    propagates_bind (fun _ => ⟨nofun, propagates_ofExcept⟩) fun _ =>
      propagates_bind (fun _ => ⟨nofun, propagates_ofExcept⟩) fun _ =>
        propagates_bind propagates_scanBlocks fun _ =>
          propagates_bind propagates_saveCheckpoint fun _ =>
            propagates_bind propagates_trackSpends fun _ => trivial

end Writes

/-- A pass that returned was shown a block at each height of its report, and has enrolled what
those pay. -/
def PassRead (host : Host) (contents : String → List EsploraTx) (s : Journal)
    (result : Except Kernel.Error ScanReport) (s' : Journal) : Prop :=
  ∀ report, result = .ok report → ∃ hashes : List String,
    hashes.length = report.toHeight + 1 - report.fromHeight ∧
    receipts s'.1.ledger = enrolAll Receipt.outpoint (receipts s.1.ledger)
      (hashes.flatMap fun hash => paidBy host (contents hash)) ∧
    ∀ k hash, hashes[k]? = some hash → lastHash s'.2 (report.fromHeight + k) = some hash

section Pass

variable {host : Host} {contents : String → List EsploraTx} {chain : ℕ → Best} {led : Handle}
  {s : Journal} {pages : ℕ}

theorem wp_scanPass_read (synced : s.1.mem led = s.1.ledger) :
    wp (online host contents chain fun _ _ _ => True) (fun _ _ _ => True)
      (PassRead host contents s) (scanPass host led pages) s := by
  refine wp_bind.2 (wp_ofExcept.2 ?_)
  rcases host.spScanKeypair with error | ⟨⟩
  · exact nofun
  refine wp_bind.2 (wp_ofExcept.2 ?_)
  rcases host.spSpendKeypair with error | ⟨⟩
  · exact nofun
  refine wp_bind.2 ?_
  rintro (error | tip) - <;> refine ⟨trivial, ?_⟩
  · exact nofun
  refine bindPost_ok.2 (wp_bind.2 ?_)
  rintro (error | found) - <;> refine ⟨trivial, ?_⟩
  · exact nofun
  refine bindPost_ok.2 (wp_bind.2 (wp_mono (Kernel.wp_scanBlocks (fun _ _ _ _ => trivial) synced) ?_))
  rintro (error | blocks) s₁ ⟨hashes, ms, reads, -, -, complete⟩
  · exact nofun
  obtain ⟨length, rfl⟩ := complete blocks rfl
  refine bindPost_ok.2 (wp_bind.2 ?_)
  rintro (_ | error | error) saved <;> refine ⟨trivial, ?_⟩
  · refine bindPost_ok.2 (wp_bind.2 (wp_mono (Kernel.wp_beside (fun _ _ _ _ => trivial)
      within_trackSpends_beside) ?_))
    rintro (error | ⟨⟩) s₂ books
    · exact nofun
    rintro report ⟨⟩
    have told : lastHash s₂.2 = lastHash s₁.2 := congrArg (fun told => told.2.1) books.told
    refine ⟨hashes, length, books.receipts.trans reads.receipts, fun k hash at_ => ?_⟩
    rw [told]
    exact reads.read k hash at_
  · exact nofun
  · exact saved.2.2.1.elim

/-- No write failed in a pass that returned. -/
theorem scanPass_read {report : ScanReport} {s' : Journal} (synced : s.1.mem led = s.1.ledger)
    (run : Exec (overChain host contents chain) (scanPass host led pages) s (.ok report) s') :
    PassRead host contents s (.ok report) s' := by
  have smooth : Exec (online host contents chain fun _ _ _ => True) (scanPass host led pages) s
      (.ok report) s' := by
    refine Propagates.exec_ok (I := overChain host contents chain) propagates_scanPass rfl ?_ run
    intro s op answer allowed fine
    refine ⟨allowed.1, allowed.2, ?_, trivial⟩
    cases op with
    | append led e => cases answer <;> trivial
    | saveCheckpoint height => cases answer <;> trivial
    | _ => trivial
  exact wp_exec (wp_scanPass_read synced) smooth

theorem scanToTip_read {report : ScanReport} {s' : Journal} (synced : s.1.mem led = s.1.ledger)
    (run : Exec (overChain host contents chain) (scanToTip host led pages) s (.ok report) s') :
    PassRead host contents s (.ok report) s' := by
  obtain ⟨_, s₁, locked, run⟩ := run.of_bind
  obtain ⟨outcome, s₂, passed, run⟩ := run.of_bind
  obtain ⟨_, s₃, unlocked, ended⟩ := run.of_bind
  rcases locked with _ | _ | ⟨-, ⟨⟩⟩
  rcases unlocked with _ | _ | ⟨-, ⟨⟩⟩
  cases outcome with
  | error error => cases ended
  | ok report' =>
      cases ended
      have read := scanPass_read (by exact synced) passed.of_attempt
      exact read

end Pass

/-! ## The two totals -/

/-- What is booked for a transaction. -/
def bookedFor (entries : List Entry) (txid : String) : ℕ :=
  (((receipts entries).filter fun r => r.txid = txid).map Receipt.sats).sum

def totalOf (fs : List SpFound) : ℕ := (fs.map SpFound.sats).sum

/-- The matches below the floor. -/
def dustOf (fs : List SpFound) : List SpFound := fs.filter fun f => f.sats < dustFloor

/-- What is on file of a transaction was booked from it, each output once. -/
structure BookedFrom (host : Host) (tx : EsploraTx) (entries : List Entry) : Prop where
  outputs : ∀ r ∈ receipts entries, r.txid = tx.txid →
    r ∈ matchReceipts tx.txid (host.txMatches tx)
  once : (((receipts entries).filter fun r => r.txid = tx.txid).map Receipt.outpoint).Nodup

theorem totalOf_matchReceipts (txid : String) (fs : List SpFound) :
    ((matchReceipts txid fs).map Receipt.sats).sum + totalOf (dustOf fs) = totalOf fs := by
  induction fs with
  | nil => rfl
  | cons f fs ih =>
      have both : ((matchReceipts txid (f :: fs)).map Receipt.sats).sum + totalOf (dustOf (f :: fs)) =
          f.sats + (((matchReceipts txid fs).map Receipt.sats).sum + totalOf (dustOf fs)) := by
        by_cases dust : f.sats < dustFloor
        · simp [matchReceipts, dustOf, totalOf, dust, Nat.not_le.2 dust]
          omega
        · simp [matchReceipts, dustOf, totalOf, dust, Nat.not_lt.1 dust]
          omega
      rw [both, ih]
      rfl

section Agreement

variable {host : Host} {contents : String → List EsploraTx} {chain : ℕ → Best} {led : Handle}
  {s s' : Journal} {pages : ℕ} {tx : EsploraTx}

theorem matchReceipts_distinct (distinct : ((host.txMatches tx).map SpFound.vout).Nodup) :
    ((matchReceipts tx.txid (host.txMatches tx)).map Receipt.outpoint).Nodup := by
  have keys : (matchReceipts tx.txid (host.txMatches tx)).map Receipt.outpoint =
      (((host.txMatches tx).filter fun f => dustFloor ≤ f.sats).map SpFound.vout).map
        fun vout => (tx.txid, vout) := by
    rw [matchReceipts, List.map_map, List.map_map]
    rfl
  rw [keys]
  refine List.Nodup.map (fun a b same => congrArg Prod.snd same) ?_
  exact distinct.sublist (List.filter_sublist.map _)

/-- **What a pass books of a transaction** it was shown: all of its matches but dust, and
nothing else. -/
theorem receipts_of_tx {report : ScanReport} {hash : String} {n : ℕ}
    (distinct : ((host.txMatches tx).map SpFound.vout).Nodup)
    (named : ∀ hash, ∀ tx' ∈ contents hash, tx'.txid = tx.txid → tx' = tx)
    (before : BookedFrom host tx s.1.ledger)
    (read : PassRead host contents s (.ok report) s') (low : report.fromHeight ≤ n)
    (high : n ≤ report.toHeight) (shown : lastHash s'.2 n = some hash) (member : tx ∈ contents hash) :
    ((receipts s'.1.ledger).filter fun r => r.txid = tx.txid).Perm
      (matchReceipts tx.txid (host.txMatches tx)) := by
  obtain ⟨hashes, length, ledger, each⟩ := read report rfl
  obtain ⟨k, rfl⟩ := Nat.exists_eq_add_of_le low
  have inRange : k < hashes.length := by omega
  obtain rfl : hashes[k] = hash :=
    Option.some.inj ((each k _ (List.getElem?_eq_getElem inRange)).symm.trans shown)
  rw [ledger, filter_enrolAll fun x y same => by rw [show x.txid = y.txid from congrArg Prod.fst same]]
  refine enrolAll_perm before.once (matchReceipts_distinct distinct) ?_ ?_ ?_
  · intro r onFile
    obtain ⟨listed, same⟩ := List.mem_filter.1 onFile
    exact before.outputs r listed (of_decide_eq_true same)
  · intro r paid
    obtain ⟨listed, same⟩ := List.mem_filter.1 paid
    obtain ⟨hash', -, inBlock⟩ := List.mem_flatMap.1 listed
    obtain ⟨tx', inContents, matched⟩ := List.mem_flatMap.1 inBlock
    obtain ⟨f, -, rfl⟩ := List.mem_map.1 matched
    obtain rfl := named hash' tx' inContents (of_decide_eq_true same)
    exact matched
  · intro r matched
    refine .inr (List.mem_map_of_mem (List.mem_filter.2 ⟨?_, ?_⟩))
    · exact List.mem_flatMap.2 ⟨_, List.getElem_mem inRange, List.mem_flatMap.2 ⟨tx, member, matched⟩⟩
    · obtain ⟨f, -, rfl⟩ := List.mem_map.1 matched
      exact decide_eq_true rfl

/-- The condition in numbers: the seller's total is within what is booked. -/
theorem mod_le_iff {booked : ℕ} {fs : List SpFound}
    (split : booked + totalOf (dustOf fs) = totalOf fs) :
    totalOf fs % 2 ^ 64 ≤ booked ↔
      (∀ f ∈ fs, f.sats = 0 ∨ dustFloor ≤ f.sats) ∨
        totalOf (dustOf fs) ≤ 2 ^ 64 * (totalOf fs / 2 ^ 64) := by
  have clean : (∀ f ∈ fs, f.sats = 0 ∨ dustFloor ≤ f.sats) → totalOf (dustOf fs) = 0 := by
    intro worth
    refine List.sum_eq_zero fun sats member => ?_
    obtain ⟨f, isDust, rfl⟩ := List.mem_map.1 member
    obtain ⟨listed, low⟩ := List.mem_filter.1 isDust
    exact (worth f listed).resolve_right (Nat.not_le.2 (of_decide_eq_true low))
  have parts := Nat.div_add_mod (totalOf fs) (2 ^ 64)
  constructor
  · intro within
    exact .inr (by omega)
  · rintro (worth | wrapped)
    · have none := clean worth
      omega
    · omega

/-- **Seller and scanner.**  After a pass that returned and was shown the transaction, what is
booked for it covers every price the seller takes it for exactly when none of its matches is
dust of one sat or more, or the seller's `u64` sum has wrapped by at least the dust. -/
theorem seller_agrees_with_scanner {F G X : Type} [Field F] [AddCommGroup G] [Module F G]
    [DecidableEq F] [DecidableEq G] [DecidableEq X] (secp : Secp F G X) (scanSk : Secret F)
    (spend : Point G) (wallet : host.txMatches = fun tx => txMatches secp tx scanSk spend)
    {report : ScanReport} {hash : String} {n : ℕ} (arrival : Arrival) (text : List Char)
    (named : ∀ hash, ∀ tx' ∈ contents hash, tx'.txid = tx.txid → tx' = tx)
    (before : BookedFrom host tx s.1.ledger) (synced : s.1.mem led = s.1.ledger)
    (run : Exec (overChain host contents chain) (scanToTip host led pages) s (.ok report) s')
    (low : report.fromHeight ≤ n) (high : n ≤ report.toHeight)
    (shown : lastHash s'.2 n = some hash) (member : tx ∈ contents hash)
    (looked : arrival.chain text = .ok tx) :
    BookedFrom host tx s'.1.ledger ∧
    ((∀ price sats, txPaysMe host arrival text = .ok sats → price ≤ sats →
        price ≤ bookedFor s'.1.ledger tx.txid) ↔
      (∀ f ∈ host.txMatches tx, f.sats = 0 ∨ dustFloor ≤ f.sats) ∨
        totalOf (dustOf (host.txMatches tx)) ≤ 2 ^ 64 * (totalOf (host.txMatches tx) / 2 ^ 64)) := by
  have distinct : ((host.txMatches tx).map SpFound.vout).Nodup := by
    rw [wallet]
    exact txMatches_nodup secp tx scanSk spend
  have perm := receipts_of_tx distinct named before (scanToTip_read synced run) low high shown member
  have booked : bookedFor s'.1.ledger tx.txid + totalOf (dustOf (host.txMatches tx)) =
      totalOf (host.txMatches tx) := by
    rw [bookedFor, (perm.map Receipt.sats).sum_eq]
    exact totalOf_matchReceipts tx.txid _
  have reported : txPaysMe host arrival text = .ok (totalOf (host.txMatches tx) % 2 ^ 64) := by
    rw [txPaysMe, looked, totalOf, ← u64Sum_eq_mod]
    rfl
  refine ⟨⟨fun r onFile same => ?_, ?_⟩, ?_⟩
  · exact perm.mem_iff.1 (List.mem_filter.2 ⟨onFile, decide_eq_true same⟩)
  · exact (perm.map Receipt.outpoint).nodup_iff.2 (matchReceipts_distinct distinct)
  · rw [← mod_le_iff booked]
    refine ⟨fun covers => covers _ _ reported (Nat.le_refl _), fun within price sats pays fits => ?_⟩
    rw [reported] at pays
    cases pays
    exact fits.trans within

end Agreement

/-! ## A price in one piece, and in two -/

/-- A wallet on the integers modulo seven. -/
def sevenHost : Host :=
  { Host.sample .signet .default with
    txMatches := fun tx => txMatches sevenCurve tx sevenScan (sevenCurve.publicKey sevenSpend) }

/-- Pays the wallet twice 200 sats. -/
def pieces : EsploraTx :=
  { sevenTx with vout := List.replicate 2 ⟨p2trScript sevenCurve (2 : ℕ), 200⟩ }

/-- The chain ends at block 100, which holds one transaction. -/
def shownAnswer (tx : EsploraTx) (s : Journal) : (op : Op) → op.Ans
  | .tipHeight => .ok 100
  | .loadCheckpoint => match s.1.checkpoint with
      | .absent => .ok none
      | .scanned scanned => .ok (some scanned)
      | .torn => .error "expected value"
  | .blockHash height => if height ≤ 100 then .ok "block" else .error "Block not found"
  | .blockTxs _ start => .ok (([tx].drop start).take pageSize)
  | op => Script.silent.answer sevenHost s.1 op

def shownHandle (tx : EsploraTx) (op : Op) (s : Journal) : op.Ans × Journal :=
  (shownAnswer tx s op, (s.1.after op (shownAnswer tx s op), ⟨op, shownAnswer tx s op⟩ :: s.2))

/-- Block 99 is scanned, nothing is on file; a pass to block 100. -/
def shownRun (tx : EsploraTx) : Except Kernel.Error ScanReport × Journal :=
  run (shownHandle tx) (scanToTip sevenHost 0 1) ({ World.blank with checkpoint := .scanned 99 }, [])

theorem shownAnswer_allowed (tx : EsploraTx) (s : Journal) (op : Op) :
    World.allows sevenHost s.1 op (shownAnswer tx s op) := by
  have silent := Script.silent.allowed sevenHost s.1 op
  cases op with
  | loadCheckpoint =>
      show World.allows sevenHost s.1 .loadCheckpoint (match s.1.checkpoint with
        | .absent => .ok none
        | .scanned scanned => .ok (some scanned)
        | .torn => .error "expected value")
      split
      · assumption
      · assumption
      · trivial
  | blockHash | tipHeight | blockTxs => trivial
  | _ => exact silent

theorem exec_shownRun (tx : EsploraTx) :
    Exec (overChain sevenHost (fun _ => [tx]) fun _ => ⟨100, fun _ => "block"⟩)
      (scanToTip sevenHost 0 1) ({ World.blank with checkpoint := .scanned 99 }, [])
      (shownRun tx).1 (shownRun tx).2 := by
  refine run_exec id _ _ (fun op s => ⟨shownAnswer_allowed tx s op, ?_⟩) fun _ _ => rfl
  cases op with
  | tipHeight | blockTxs => exact rfl
  | blockHash height =>
      by_cases within : height ≤ 100
      · rw [show (shownHandle tx (.blockHash height) s).1 = _ from if_pos within]
        exact ⟨within, rfl⟩
      · rw [show (shownHandle tx (.blockHash height) s).1 = _ from if_neg within]
        trivial
  | _ => trivial

/-- A connection served while the chain shows this transaction. -/
def lookedUp (tx : EsploraTx) : Arrival := ⟨.ok [], fun _ => .ok tx⟩

/-- Paid in one piece: 5000 sats are taken for paid and booked. -/
theorem seller_agrees_with_scanner_sample :
    txPaysMe sevenHost (lookedUp sevenTx) sampleTxid.toList = .ok 5000 ∧
      5000 ≤ bookedFor (shownRun sevenTx).2.1.ledger sampleTxid := by
  -- one evaluation of the run for all that is read off it
  obtain ⟨pays, reported, shown, large⟩ :
      txPaysMe sevenHost (lookedUp sevenTx) sampleTxid.toList = .ok 5000 ∧
        (shownRun sevenTx).1 = .ok ⟨100, 100, [⟨sampleTxid, 1, 5000⟩]⟩ ∧
        lastHash (shownRun sevenTx).2.2 100 = some "block" ∧
        ∀ f ∈ sevenHost.txMatches sevenTx, f.sats = 0 ∨ dustFloor ≤ f.sats := by
    decide +kernel
  have run := exec_shownRun sevenTx
  rw [reported] at run
  have fresh : BookedFrom sevenHost sevenTx World.blank.ledger := ⟨nofun, List.nodup_nil⟩
  have result := seller_agrees_with_scanner sevenCurve sevenScan (sevenCurve.publicKey sevenSpend)
    rfl (lookedUp sevenTx) sampleTxid.toList (fun _ _ member _ => List.mem_singleton.1 member) fresh
    rfl run (Nat.le_refl 100) (Nat.le_refl 100) shown (List.mem_singleton_self _) rfl
  exact ⟨pays, result.2.2 (.inl large) 5000 5000 pays (Nat.le_refl _)⟩

/-- Paid in two pieces of 200 sats: a price of 400 is taken for paid, and nothing is booked. -/
theorem pieces_never_booked :
    txPaysMe sevenHost (lookedUp pieces) sampleTxid.toList = .ok 400 ∧
      (shownRun pieces).1 = .ok ⟨100, 100, []⟩ ∧
      lastHash (shownRun pieces).2.2 100 = some "block" ∧
      ¬ 400 ≤ bookedFor (shownRun pieces).2.1.ledger sampleTxid := by
  decide +kernel

end ComputerMoney.Safety

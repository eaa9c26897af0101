/-
# Safety.ScanCoverage -- which blocks the scanner never comes back to

The only memory between two passes is one height.  A pass that finds no checkpoint starts
a fixed number of blocks below the tip of the moment, so if it fails and the chain grows
before the next attempt, that attempt starts higher and the blocks between are never read.
Nor is a block read again that replaced one at or below the checkpoint, or one that the
pass in progress had read.

`scans_cover` is the rest.  In every run in which none of this happens (`Undefeated`),
over every history of the best chain and whatever requests fail: after a successful pass,
every payment in a block of the best chain with three confirmations, from where the first
pass started, is booked, unless the chain has outgrown that pass's tip meanwhile.
-/
import ComputerMoney.Safety.ScanResume

namespace ComputerMoney.Safety

set_option autoImplicit false

open Theory Theory.Program Kernel

/-! ## What defeats the checkpoint -/

/-- No block at or below the checkpoint is replaced. -/
def ChainKeeps (chain : ℕ → Best) : Guarantee sig Journal := fun s op answer =>
  ∀ scanned, (s.1.after op answer).checkpoint = .scanned scanned → ∀ n ≤ scanned,
    (chain (s.2.length + 1)).hash n = (chain s.2.length).hash n

/-- A pass without a checkpoint starts no higher than the first pass did; and when a pass
saves, the blocks read last are still the best chain's. -/
def PassKeeps (chain : ℕ → Best) : Guarantee sig Journal
  | s, .loadCheckpoint, .ok none => ∀ lo tip, firstStart s.2 = some lo → lastTip s.2 = some tip →
      tip - startLookback ≤ lo
  | s, .saveCheckpoint _, _ => ∀ n hash, lastHash s.2 n = some hash →
      (chain s.2.length).hash n = hash
  | _, _, _ => True

def Undefeated (chain : ℕ → Best) : Guarantee sig Journal := fun s op answer =>
  ChainKeeps chain s op answer ∧ PassKeeps chain s op answer

/-- A pass of each caller, whatever comes of it, and then one more on its own instance. -/
def passesThenScan (host : Host) (callers : List Caller) (pages : ℕ) : Prog ScanReport := do
  .forEach callers fun caller => do
    let _ ← (caller.program host).attempt
  let led ← Ledger.openWithIdentity
  scanToTip host led pages

/-! ## The invariant -/

/-- What the best chain's blocks from `lo` to `upTo` pay us is booked. -/
def Covered (host : Host) (contents : String → List EsploraTx) (chain : ℕ → Best) (lo upTo : ℕ)
    (s : Journal) : Prop :=
  ∀ n, lo ≤ n → n ≤ upTo →
    (paidBy host (contents ((chain s.2.length).hash n))).map Receipt.outpoint ⊆
      (receipts s.1.ledger).map Receipt.outpoint

/-- Up to the checkpoint all is booked. -/
def CheckpointCovered (host : Host) (contents : String → List EsploraTx) (chain : ℕ → Best)
    (s : Journal) : Prop :=
  ∀ lo scanned, firstStart s.2 = some lo → s.1.checkpoint = .scanned scanned →
    Covered host contents chain lo scanned s

/-- A checkpoint is saved when all is booked up to it. -/
def SavesCovered (host : Host) (contents : String → List EsploraTx) (chain : ℕ → Best) :
    Guarantee sig Journal
  | s, .saveCheckpoint tip, .ok => ∀ lo, firstStart s.2 = some lo →
      Covered host contents chain lo tip s
  | _, _, _ => True

section Invariant

variable {host : Host} {contents : String → List EsploraTx} {chain : ℕ → Best} {s : Journal}

theorem savesCovered_of_ne {op : Op} {answer : sig.Ans op}
    (free : ∀ height, op ≠ .saveCheckpoint height) :
    SavesCovered host contents chain s op answer := by
  cases op with
  | saveCheckpoint height => exact absurd rfl (free height)
  | _ => trivial

/-- No call takes a receipt off the file. -/
theorem receipts_grow (w : World) (op : Op) (answer : sig.Ans op) :
    (receipts w.ledger).map Receipt.outpoint ⊆
      (receipts (w.after op answer).ledger).map Receipt.outpoint := by
  cases op with
  | append led e =>
      have grown : (receipts w.ledger).map Receipt.outpoint ⊆
          (receipts (w.ledger ++ [e])).map Receipt.outpoint := by
        rw [receipts_append, List.map_append]
        exact List.subset_append_left ..
      cases answer with
      | ok => exact grown
      | lost error => exact List.Subset.refl _
      | kept error => exact grown
  | _ =>
      have same := w.after_ledger answer nofun
      exact fun o member => same.symm ▸ member

theorem started_before {event : Event sig} {past : List (Event sig)} {lo : ℕ}
    (start : firstStart (event :: past) = some lo) (unread : eventCheckpoint? event = none) :
    firstStart past = some lo := by
  rwa [firstStart, unread, Option.bind_none, Option.or_none] at start

/-- What is covered stays so while the blocks do. -/
theorem Covered.after {lo upTo : ℕ} {op : Op} {answer : sig.Ans op}
    (covered : Covered host contents chain lo upTo s)
    (kept : ∀ n ≤ upTo, (chain (s.2.length + 1)).hash n = (chain s.2.length).hash n) :
    Covered host contents chain lo upTo (s.1.after op answer, ⟨op, answer⟩ :: s.2) := by
  intro n above below
  have grown := receipts_grow s.1 op answer
  show (paidBy host (contents ((chain (s.2.length + 1)).hash n))).map Receipt.outpoint ⊆ _
  rw [kept n below]
  exact fun o member => grown (covered n above below member)

/-- **Every call keeps the checkpoint covered**, if it is saved so. -/
theorem keeps_checkpointCovered :
    Keeps (online host contents chain (Undefeated chain)) (SavesCovered host contents chain)
      (CheckpointCovered host contents chain) := by
  intro s op answer allowed saved inv lo scanned start checkpoint
  have kept : ∀ n ≤ scanned, (chain (s.2.length + 1)).hash n = (chain s.2.length).hash n :=
    allowed.2.2.2.1 scanned checkpoint
  cases op with
  | saveCheckpoint tip =>
      cases answer with
      | ok =>
          obtain rfl : tip = scanned := CheckpointFile.scanned.inj checkpoint
          exact Covered.after (saved lo (started_before start rfl)) kept
      | lost error => exact (inv lo scanned (started_before start rfl) checkpoint).after kept
      | torn error => exact allowed.2.2.1.elim
  | loadCheckpoint =>
      rcases answer with error | found
      · exact (inv lo scanned (started_before start rfl) checkpoint).after kept
      have onFile : s.1.checkpoint = .scanned scanned := checkpoint
      rcases started : firstStart s.2 with _ | lo'
      · -- The pass that comes to start first: it starts above the checkpoint it has read.
        have starts : startOf s.2 found = some lo := by
          have here : (firstStart s.2).or ((some found).bind (startOf s.2)) = some lo := start
          rw [started] at here
          exact here
        have holds : World.allows host s.1 .loadCheckpoint (.ok found) := allowed.1
        rcases found with _ | height
        · cases onFile.symm.trans holds
        · cases onFile.symm.trans holds
          cases starts
          exact fun n above below => absurd above (by omega)
      · obtain rfl : lo' = lo := by
          have here : (firstStart s.2).or ((some found).bind (startOf s.2)) = some lo := start
          rw [started] at here
          exact Option.some.inj here
        exact (inv lo' scanned started onFile).after kept
  | _ =>
      refine (inv lo scanned (started_before start rfl) ?_).after kept
      exact (s.1.after_checkpoint answer nofun).symm.trans checkpoint

end Invariant

/-! ## A pass -/

/-- The runs in question, in states where the invariant holds. -/
abbrev covering (host : Host) (contents : String → List EsploraTx) (chain : ℕ → Best) :
    Interp sig Journal :=
  online host contents chain fun s op answer =>
    Undefeated chain s op answer ∧ CheckpointCovered host contents chain s

/-- After a success the checkpoint is the tip of the report. -/
def Reported (result : Except Error ScanReport) (s' : Journal) : Prop :=
  ∀ report, result = .ok report → s'.1.checkpoint = .scanned report.toHeight ∧
    ∃ lo, firstStart s'.2 = some lo

/-- The calls that save no checkpoint. -/
def Op.unsaved : Op → Prop
  | .saveCheckpoint _ => False
  | _ => True

section Pass

variable {host : Host} {contents : String → List EsploraTx} {chain : ℕ → Best} {led : Handle}
  {s : Journal}

/-- The blocks a pass has read, and those it was sure of, are covered when it saves. -/
theorem covered_of_read {start tip lo : ℕ} {hashes : List String} {s₀ : Journal}
    (reads : Reads chain led start hashes
      (hashes.flatMap fun hash => paidBy host (contents hash)) s₀ s)
    (length : hashes.length = tip + 1 - start)
    (begun : start ≤ lo ∨ s₀.1.checkpoint = .scanned (start - 1))
    (first : firstStart s.2 = some lo)
    (kept : ∀ n hash, lastHash s.2 n = some hash → (chain s.2.length).hash n = hash)
    (inv : CheckpointCovered host contents chain s) : Covered host contents chain lo tip s := by
  intro n above below
  by_cases inside : start ≤ n
  · obtain ⟨k, rfl⟩ := Nat.exists_eq_add_of_le inside
    obtain ⟨hash, at_⟩ : ∃ hash, hashes[k]? = some hash :=
      ⟨_, List.getElem?_eq_getElem (by omega)⟩
    rw [kept _ hash (reads.read k hash at_), reads.receipts]
    intro o member
    obtain ⟨r, paid, rfl⟩ := List.mem_map.1 member
    refine keys_enrolAll.2 (.inr (List.mem_map_of_mem (List.mem_flatMap.2 ⟨hash, ?_, paid⟩)))
    exact List.mem_of_getElem? at_
  · have checkpoint : s.1.checkpoint = .scanned (start - 1) := by
      rcases begun with low | scanned
      · omega
      · exact reads.checkpoint.trans scanned
    exact inv lo (start - 1) first checkpoint n above (by omega)

/-- Where a pass starts. -/
def passStart (tip : ℕ) : Option ℕ → ℕ
  | some height => height + 1
  | none => tip - startLookback

/-- A pass starts above the checkpoint, or no higher than the first pass did. -/
theorem begun_of_loaded {tip : ℕ} {found : Option ℕ}
    (holds : World.allows host s.1 .loadCheckpoint (.ok found))
    (kept : PassKeeps chain (s.1, ⟨.tipHeight, .ok tip⟩ :: s.2) .loadCheckpoint (.ok found)) :
    ∃ lo, firstStart (⟨.loadCheckpoint, .ok found⟩ :: ⟨.tipHeight, .ok tip⟩ :: s.2) = some lo ∧
      (passStart tip found ≤ lo ∨ s.1.checkpoint = .scanned (passStart tip found - 1)) := by
  have told : firstStart (⟨.tipHeight, .ok tip⟩ :: s.2) = firstStart s.2 := Option.or_none
  have here : firstStart (⟨.loadCheckpoint, .ok found⟩ :: ⟨.tipHeight, .ok tip⟩ :: s.2) =
      (firstStart s.2).or (startOf (⟨.tipHeight, .ok tip⟩ :: s.2) found) := by
    rw [← told]
    rfl
  have starts : startOf (⟨.tipHeight, .ok tip⟩ :: s.2) found = some (passStart tip found) := by
    cases found <;> rfl
  rw [here, starts]
  rcases started : firstStart s.2 with _ | lo
  · exact ⟨passStart tip found, rfl, .inl (Nat.le_refl _)⟩
  · refine ⟨lo, rfl, ?_⟩
    rcases found with _ | height
    · exact .inl (kept lo tip (told.trans started) rfl)
    · exact .inr holds

theorem wp_scanPass_covers {pages : ℕ} (synced : s.1.mem led = s.1.ledger) :
    wp (covering host contents chain) (SavesCovered host contents chain) Reported
      (scanPass host led pages) s := by
  refine wp_bind.2 (wp_ofExcept.2 ?_)
  rcases host.spScanKeypair with error | ⟨⟩
  · exact nofun
  refine wp_bind.2 (wp_ofExcept.2 ?_)
  rcases host.spSpendKeypair with error | ⟨⟩
  · exact nofun
  refine wp_bind.2 ?_
  rintro (error | tip) - <;> refine ⟨trivial, ?_⟩
  · exact nofun
  refine bindPost_ok.2 (wp_bind.2 ?_)
  rintro (error | found) allowed <;> refine ⟨trivial, ?_⟩
  · exact nofun
  obtain ⟨lo, first, begun⟩ := @begun_of_loaded host chain s tip found allowed.1 allowed.2.2.2.1.2
  have loop : wp (covering host contents chain) (SavesCovered host contents chain) _
      (scanBlocks host led pages (tip + 1 - passStart tip found) (passStart tip found) [])
      (s.1, ⟨.loadCheckpoint, .ok found⟩ :: ⟨.tipHeight, .ok tip⟩ :: s.2) :=
    Kernel.wp_scanBlocks (fun _ _ _ free => savesCovered_of_ne free) synced
  refine bindPost_ok.2 (wp_bind.2 (wp_mono loop ?_))
  rintro (error | blocks) s₁ ⟨hashes, ms, reads, -, -, complete⟩
  · exact nofun
  obtain ⟨length, rfl⟩ := complete blocks rfl
  have first₁ : firstStart s₁.2 = some lo := reads.start.trans first
  refine bindPost_ok.2 (wp_bind.2 ?_)
  rintro (_ | error | error) saved
  · refine ⟨fun lo' first' => ?_, ?_⟩
    · obtain rfl : lo' = lo := Option.some.inj (first'.symm.trans first₁)
      exact covered_of_read reads length begun first' saved.2.2.2.1.2 saved.2.2.2.2
    refine bindPost_ok.2 (wp_bind.2 (wp_mono (Kernel.wp_beside
      (fun _ _ _ free => savesCovered_of_ne free) within_trackSpends_beside) ?_))
    rintro (error | ⟨⟩) s₂ books
    · exact nofun
    · rintro report ⟨⟩
      have told : firstStart s₂.2 = firstStart (⟨.saveCheckpoint tip, .ok⟩ :: s₁.2) :=
        congrArg (fun told => told.2.2) books.told
      refine ⟨books.checkpoint, lo, told.trans ?_⟩
      rw [← first₁]
      exact Option.or_none
  · exact ⟨trivial, nofun⟩
  · exact saved.2.2.1.elim

/-- A pass on an instance that holds what is on file. -/
theorem wp_scanToTip_covers {pages : ℕ} (synced : s.1.mem led = s.1.ledger) :
    wp (covering host contents chain) (SavesCovered host contents chain) Reported
      (scanToTip host led pages) s := by
  refine wp_bind.2 fun _ _ => ⟨trivial, bindPost_ok.2 ?_⟩
  refine wp_bind.2 (wp_attempt.2 (wp_mono (wp_scanPass_covers synced) fun outcome s₁ reported => ?_))
  refine wp_bind.2 fun _ _ => ⟨trivial, wp_ofExcept.2 fun report is => ?_⟩
  obtain ⟨checkpoint, lo, first⟩ := reported report is
  refine ⟨checkpoint, lo, ?_⟩
  rw [← first]
  exact Option.or_none

/-- A pass on an instance of its own. -/
theorem wp_openThenScan {pages : ℕ} :
    wp (covering host contents chain) (SavesCovered host contents chain) Reported
      (do
        let led ← Ledger.openWithIdentity
        scanToTip host led pages) s := by
  refine wp_bind.2 ?_
  rintro (error | led) allowed <;> refine ⟨trivial, ?_⟩
  · exact nofun
  · obtain rfl : led = s.1.fresh := allowed.1
    exact wp_scanToTip_covers s.1.load_mem

/-- What saves no checkpoint needs no proof. -/
theorem wp_unsaved {α : Type} {p : Prog α} (body : p.Within Op.unsaved) :
    wp (covering host contents chain) (SavesCovered host contents chain) (fun _ _ => True) p s := by
  refine wp_unguarded (body.mono fun op free s answer => savesCovered_of_ne fun height is => ?_)
  subst is
  exact free

theorem wp_caller_covers (caller : Caller) :
    wp (covering host contents chain) (SavesCovered host contents chain) (fun _ _ => True)
      (caller.program host) s := by
  have reconciles : ∀ led, (reconcile led).Within Op.unsaved := fun led =>
    within_reconcile trivial (fun _ => trivial) (fun _ => trivial) (fun _ => trivial)
      (fun _ _ _ => trivial) (fun _ _ => trivial) trivial
  cases caller with
  | scanFresh pages =>
      refine wp_bind.2 (wp_bind.2 ?_)
      rintro (error | led) allowed <;> refine ⟨trivial, ?_⟩
      · trivial
      obtain rfl : led = s.1.fresh := allowed.1
      refine bindPost_ok.2 (wp_bind.2 (wp_mono (wp_scanToTip_covers s.1.load_mem) ?_))
      rintro (error | report) s₁ -
      · trivial
      · exact fun es _ => ⟨trivial, trivial⟩
  | balanceReport pages =>
      refine wp_bind.2 (wp_bind.2 ?_)
      rintro (error | ⟨⟩) - <;> refine ⟨trivial, ?_⟩
      · trivial
      refine bindPost_ok.2 (wp_bind.2 (wp_attempt.2 ?_))
      rintro (error | led) allowed <;> refine ⟨trivial, ?_⟩
      · trivial
      obtain rfl : led = s.1.fresh := allowed.1
      refine wp_bind.2 (wp_attempt.2 (wp_mono (wp_scanToTip_covers s.1.load_mem) fun _ s₁ _ => ?_))
      refine wp_bind.2 (wp_attempt.2 (wp_mono (wp_unsaved (reconciles _)) fun _ s₂ _ => ?_))
      exact fun es _ => ⟨trivial, trivial⟩
  | collectionsReport pages =>
      refine wp_bind.2 (wp_bind.2 ?_)
      rintro (error | led) allowed <;> refine ⟨trivial, ?_⟩
      · trivial
      obtain rfl : led = s.1.fresh := allowed.1
      refine bindPost_ok.2 (wp_bind.2 (wp_attempt.2
        (wp_mono (wp_scanToTip_covers s.1.load_mem) fun outcome s₁ _ => ?_)))
      have rest : ∀ note : String, wp (covering host contents chain)
          (SavesCovered host contents chain) (fun _ _ => True) (do
            let es ← Ledger.entries s.1.fresh
            let rows ← .ofExcept (collectionRows host (Ledger.collections es))
            return (note, rows) : Prog (String × List CollectionRow)) s₁ := fun note =>
        wp_unsaved (within_bind ⟨trivial, fun _ => trivial⟩ fun _ =>
          within_bind within_ofExcept fun _ => trivial)
      cases outcome <;> refine wp_mono (rest _) ?_ <;> rintro (error | value) s₂ - <;> trivial

end Pass

/-! ## Whole histories -/

/-- **What the scans cover.**  Over every history of the best chain, whatever requests fail,
in every run that is undefeated: after a successful pass, every output worth booking that
pays the wallet and sits in a block of the best chain with at least three confirmations, at
or above where the first pass started, is booked, if the chain has not outgrown the pass's
tip by more than two blocks. -/
theorem scans_cover (host : Host) (contents : String → List EsploraTx) (chain : ℕ → Best)
    (w : World) (callers : List Caller) (pages : ℕ) (report : ScanReport) (s : Journal)
    (run : Exec (online host contents chain (Undefeated chain)) (passesThenScan host callers pages)
      (w, []) (.ok report) s)
    (abreast : (chain s.2.length).height ≤ report.toHeight + 2) :
    ∃ lo, firstStart s.2 = some lo ∧ ∀ n, lo ≤ n → n + 2 ≤ (chain s.2.length).height →
      ∀ tx ∈ contents ((chain s.2.length).hash n), ∀ f ∈ host.txMatches tx, dustFloor ≤ f.sats →
        Ledger.hasSpOutput s.1.ledger tx.txid f.vout = true := by
  have passes : wp (covering host contents chain) (SavesCovered host contents chain) Reported
      (passesThenScan host callers pages) (w, []) := by
    refine wp_bind.2 (wp_forEach (J := fun _ => True) trivial (fun caller _ s _ => ?_) ?_)
    · refine wp_bind.2 (wp_attempt.2 (wp_mono (wp_caller_covers caller) fun _ _ _ => ?_))
      trivial
    · exact fun s _ => wp_openThenScan
  -- The invariant holds at every call, so it may be assumed there.
  have holds := wp_simulates (I := online host contents chain (Undefeated chain))
    (G := SavesCovered host contents chain)
    (R := fun s v => v = s ∧ CheckpointCovered host contents chain s) (w := (w, []))
    ⟨rfl, nofun⟩ (fun s v op answer ⟨same, inv⟩ allowed => by
      subst same
      refine ⟨⟨allowed.1, allowed.2.1, allowed.2.2.1, allowed.2.2.2, inv⟩, fun saved => ?_⟩
      exact ⟨saved, rfl, keeps_checkpointCovered _ _ _ allowed saved inv⟩) passes
  obtain ⟨v, ⟨rfl, inv⟩, reported⟩ := wp_exec holds run
  obtain ⟨checkpoint, lo, first⟩ := reported report rfl
  refine ⟨lo, first, fun n above deep tx member f matched worth => ?_⟩
  have covered := inv lo report.toHeight first checkpoint n above (by omega)
  exact hasSpOutput_iff_receipts.2 (covered (mem_paidBy member matched worth))

/-! ## A first pass that failed -/

/-- A pass of the daemon and then another one, from this checkpoint file. -/
def secondScan (height : ℕ → ℕ) (fails : List ℕ) (checkpoint : CheckpointFile) :
    Except Error ScanReport × Journal :=
  Program.run (passHandle height fails) (passesThenScan paidHost [.scanFresh 1] 1)
    ({ World.blank with checkpoint := checkpoint }, [])

/-- The chain has 244 blocks during the first pass and 245 during the second. -/
def oneMore (calls : ℕ) : ℕ := if calls < 8 then 244 else 245

/-- The first pass starts at block 100, which pays the wallet, and fails at once; the second
starts at block 101. -/
theorem first_block_skipped :
    ∃ report s, Exec (online paidHost blockPage (fun i => ⟨oneMore i, blockName⟩)
        fun _ _ _ => True) (passesThenScan paidHost [.scanFresh 1] 1) (World.blank, [])
        (.ok report) s ∧
      firstStart s.2 = some 100 ∧ report.fromHeight = 101 ∧ report.toHeight = 245 ∧
      oneMore s.2.length = 245 ∧ ∃ tx ∈ blockPage (blockName 100), ∃ f ∈ paidHost.txMatches tx,
        dustFloor ≤ f.sats ∧ Ledger.hasSpOutput s.1.ledger tx.txid f.vout = false := by
  have run := @run_exec sig Journal Error ScanReport (online paidHost blockPage
    (fun i => ⟨oneMore i, blockName⟩) fun _ _ _ => True) Journal (passHandle oneMore [4]) id
    (passesThenScan paidHost [.scanFresh 1] 1) (World.blank, []) (fun op s => by
      obtain ⟨allowed, served, holds⟩ := passAnswer_served oneMore [4] op s
      exact ⟨allowed, served, holds, trivial⟩) fun _ _ => rfl
  have ends : (secondScan oneMore [4] .absent).1 = .ok ⟨101, 245, []⟩ := by decide +kernel
  refine ⟨⟨101, 245, []⟩, (secondScan oneMore [4] .absent).2, ends ▸ run, ?_, rfl, rfl, ?_,
    ⟨sampleTxid, [], []⟩, ?_, ⟨0, 5000, [7]⟩, ?_, ?_, ?_⟩
  all_goals decide +kernel

/-- A state of a wallet that has a checkpoint and has read the chain's own blocks. -/
structure OnTrack (s : Journal) : Prop where
  anchored : s.1.checkpoint ≠ .absent
  read : ∀ n hash, lastHash s.2 n = some hash → blockName n = hash

theorem OnTrack.after {s : Journal} {tip : ℕ} {op : Op} {answer : sig.Ans op} (onTrack : OnTrack s)
    (served : (Best.mk tip blockName).serves blockPage op answer) (holds : diskHolds op answer) :
    OnTrack (s.1.after op answer, ⟨op, answer⟩ :: s.2) := by
  refine ⟨?_, fun n hash last => ?_⟩
  · cases op with
    | saveCheckpoint height =>
        cases answer with
        | ok => exact CheckpointFile.noConfusion
        | lost error => exact onTrack.anchored
        | torn error => exact holds.elim
    | _ =>
        have same := s.1.after_checkpoint answer nofun
        exact same.symm ▸ onTrack.anchored
  · cases op with
    | blockHash height =>
        rcases answer with error | hash'
        · exact onTrack.read n hash last
        · obtain ⟨-, rfl⟩ := served
          by_cases here : height = n
          · subst here
            simpa [lastHash, eventHash?] using last
          · refine onTrack.read n hash ?_
            simpa [lastHash, eventHash?, here] using last
    | _ => exact onTrack.read n hash last

/-- The pass of a wallet with a checkpoint is undefeated on a chain that stays. -/
theorem secondScan_exec (fails : List ℕ) :
    Exec (online paidHost blockPage (fun _ => ⟨102, blockName⟩) (Undefeated fun _ => ⟨102, blockName⟩))
      (passesThenScan paidHost [.scanFresh 1] 1)
      ({ World.blank with checkpoint := .scanned 99 }, [])
      (secondScan (fun _ => 102) fails (.scanned 99)).1
      (secondScan (fun _ => 102) fails (.scanned 99)).2 := by
  refine run_exec_inv id OnTrack _ _ ⟨nofun, nofun⟩ (fun op s onTrack => ?_) (fun _ _ => rfl)
    fun op s onTrack => ?_
  · obtain ⟨allowed, served, holds⟩ := passAnswer_served (fun _ => 102) fails op s
    refine ⟨allowed, served, holds, fun _ _ _ _ => rfl, ?_⟩
    cases op with
    | loadCheckpoint =>
        simp only [passHandle, passAnswer]
        split
        · exact absurd ‹_› onTrack.anchored
        · trivial
        · trivial
    | saveCheckpoint tip => exact onTrack.read
    | _ => trivial
  · obtain ⟨-, served, holds⟩ := passAnswer_served (fun _ => 102) fails op s
    exact onTrack.after served holds

/-- With a checkpoint to come back to, the blocks of a failed pass are read again. -/
theorem scans_cover_sample :
    firstStart (secondScan (fun _ => 102) [4] (.scanned 99)).2.2 = some 100 ∧
      ∃ lo, firstStart (secondScan (fun _ => 102) [4] (.scanned 99)).2.2 = some lo ∧
        ∀ n, lo ≤ n → n + 2 ≤ 102 → ∀ tx ∈ blockPage (blockName n), ∀ f ∈ paidHost.txMatches tx,
          dustFloor ≤ f.sats → Ledger.hasSpOutput
            (secondScan (fun _ => 102) [4] (.scanned 99)).2.1.ledger tx.txid f.vout = true := by
  have run := secondScan_exec [4]
  rw [show (secondScan (fun _ => 102) [4] (.scanned 99)).1 =
    .ok ⟨100, 102, [⟨sampleTxid, 0, 5000⟩]⟩ by decide +kernel] at run
  exact ⟨by decide +kernel, scans_cover paidHost blockPage (fun _ => ⟨102, blockName⟩) _ _ _ _ _ run
    (by decide)⟩

end ComputerMoney.Safety

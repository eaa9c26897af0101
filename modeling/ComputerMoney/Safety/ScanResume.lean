/-
# Safety.ScanResume -- interrupted scans add up to an uninterrupted one

A wallet whose scan is anchored at height `b` scans a chain that only grows.  Its passes
may fail at any request, reconciles come between them, and the ledger may be opened anew;
in the end one pass succeeds.  What is then on file, entry by entry and in order, is what
one pass from `b + 1` to the same tip would have put there.

Between two passes the receipts on file are those a prefix of the chain's payments
enrols, and the prefix reaches at least to the checkpoint (`Anchored`): a pass that starts
above the checkpoint reads on from a place it is sure of (`Theory.Enrol`).
-/
import ComputerMoney.Kernel.Esplora
import ComputerMoney.Safety.ScanOnce
import Mathlib.Order.Lattice

namespace ComputerMoney.Safety

set_option autoImplicit false

open Theory Theory.Program Kernel

/-! ## Passes with failures in between -/

inductive Errand where
  | scan (pages : ℕ)
  | reconcile
  | reopen

/-- Run the errand, whatever comes of it; the result is the instance to go on with. -/
def Errand.perform (host : Host) (led : Handle) : Errand → Prog Handle
  | .scan pages => do
      let _ ← (scanToTip host led pages).attempt
      return led
  | .reconcile => do
      let _ ← (Kernel.reconcile led).attempt
      return led
  | .reopen => do
      match ← Ledger.openWithIdentity.attempt with
      | .ok led' => return led'
      | .error _ => return led

def errands (host : Host) : List Errand → Handle → Prog Handle
  | [], led => .pure led
  | errand :: rest, led => do
      let led' ← errand.perform host led
      errands host rest led'

/-- Errands on one ledger, and then a pass. -/
def scanAfter (host : Host) (before : List Errand) (pages : ℕ) : Prog ScanReport := do
  let led ← Ledger.openWithIdentity
  let led' ← errands host before led
  scanToTip host led' pages

/-! ## A chain that only grows -/

/-- What the blocks above `b` and up to `n` pay us, in order. -/
def paidUpTo (host : Host) (contents : String → List EsploraTx) (hash : ℕ → String) (b n : ℕ) :
    List Receipt :=
  (List.range' (b + 1) (n - b)).flatMap fun height => paidBy host (contents (hash height))

section

variable {host : Host} {contents : String → List EsploraTx} {hash : ℕ → String} {b : ℕ}

theorem paidUpTo_append {m : ℕ} (n : ℕ) (above : b ≤ m) :
    paidUpTo host contents hash b m ++
      ((List.range' (m + 1) n).flatMap fun height => paidBy host (contents (hash height))) =
    paidUpTo host contents hash b (m + n) := by
  have joined : List.range' (b + 1) (m - b) ++ List.range' (m + 1) n =
      List.range' (b + 1) (m + n - b) := by
    have next : m + 1 = b + 1 + (m - b) := by omega
    rw [next, List.range'_append_1]
    congr 1
    omega
  rw [paidUpTo, paidUpTo, ← List.flatMap_append, joined]

theorem paidUpTo_grows {m n : ℕ} (above : b ≤ m) (grown : m ≤ n) :
    paidUpTo host contents hash b m <+: paidUpTo host contents hash b n := by
  have further := @paidUpTo_append host contents hash b m (n - m) above
  rw [Nat.add_sub_cancel' grown] at further
  exact ⟨_, further⟩

/-- The hashes shown are the chain's. -/
theorem hashes_shown {height : ℕ → ℕ} {led : Handle} {from_ : ℕ} {hashes : List String}
    {ms : List Receipt} {s s' : Journal}
    (reads : Reads (fun i => ⟨height i, hash⟩) led from_ hashes ms s s') :
    hashes = (List.range' from_ hashes.length).map hash := by
  refine List.ext_getElem? fun k => ?_
  rcases at_ : hashes[k]? with _ | found
  · rw [List.getElem?_eq_none_iff] at at_
    rw [List.getElem?_eq_none (by simpa using at_)]
  · obtain ⟨_, best⟩ := reads.shown k found at_
    have inside : k < hashes.length := (List.getElem?_eq_some_iff.1 at_).1
    have nth : (List.range' from_ hashes.length)[k]? = some (from_ + k) := by
      rw [List.getElem?_eq_getElem (by simpa using inside), List.getElem_range', Nat.one_mul]
    rw [List.getElem?_map, nth, ← best]
    rfl

end

/-! ## Between the passes -/

/-- The instance holds what is on file, and of what the chain pays us from `b` on the
receipts are sure up to the checkpoint. -/
structure Anchored (host : Host) (contents : String → List EsploraTx) (hash : ℕ → String)
    (height : ℕ → ℕ) (b : ℕ) (before : List Receipt) (led : Handle) (s : Journal) : Prop where
  synced : s.1.mem led = s.1.ledger
  sure : ∃ scanned, s.1.checkpoint = .scanned scanned ∧ b ≤ scanned ∧
    scanned ≤ height s.2.length ∧
      Resumed Receipt.outpoint before (paidUpTo host contents hash b (height s.2.length))
        (paidUpTo host contents hash b scanned) (receipts s.1.ledger)

section Passes

variable {host : Host} {contents : String → List EsploraTx} {hash : ℕ → String} {height : ℕ → ℕ}
  {b : ℕ} {before : List Receipt} {led : Handle} {s : Journal}

/-- The chain of that height history, any answer of the rest of the host. -/
abbrev growing (host : Host) (contents : String → List EsploraTx) (hash : ℕ → String)
    (height : ℕ → ℕ) : Interp sig Journal :=
  online host contents (fun i => ⟨height i, hash⟩) fun _ _ _ => True

theorem keeps_risen (rises : Monotone height) (n : ℕ) :
    Keeps (growing host contents hash height) (fun _ _ _ => True)
      fun s => n ≤ height s.2.length :=
  fun _ _ _ _ _ risen => risen.trans (rises (Nat.le_succ _))

theorem Anchored.moved {s' : Journal} (anchored : Anchored host contents hash height b before led s)
    (books : Books led [] s s') (risen : height s.2.length ≤ height s'.2.length) :
    Anchored host contents hash height b before led s' := by
  obtain ⟨scanned, checkpoint, above, below, resumed⟩ := anchored.sure
  refine ⟨books.synced anchored.synced, scanned, books.checkpoint.trans checkpoint, above,
    below.trans risen, ?_⟩
  rw [books.receipts, enrolAll_nil]
  exact resumed.grow (paidUpTo_grows (above.trans below) risen)

theorem within_trackSpends_beside : (trackSpends led).Within (Op.beside led) :=
  within_trackSpends trivial (fun _ _ => trivial) fun _ _ _ => ⟨rfl, rfl⟩

theorem within_reconcile_beside : (reconcile led).Within (Op.beside led) :=
  within_reconcile trivial (fun _ => trivial) (fun _ => trivial) (fun _ => trivial)
    (fun _ _ _ => ⟨rfl, rfl⟩) (fun _ _ => trivial) trivial

variable (rises : Monotone height)
include rises

/-- What makes no receipt leaves the wallet anchored. -/
theorem wp_anchored {α : Type} {p : Prog α} (body : p.Within (Op.beside led))
    (anchored : Anchored host contents hash height b before led s) :
    wp (growing host contents hash height) (fun _ _ _ => True)
      (fun _ s' => Books led [] s s' ∧ Anchored host contents hash height b before led s') p s := by
  refine wp_mono (wp_keeps (keeps_risen rises _) (Nat.le_refl _)
    (Kernel.wp_beside (fun _ _ _ _ => trivial) body)) ?_
  rintro result s' ⟨books, risen⟩
  exact ⟨books, anchored.moved books risen⟩

/-- What a pass promises: the wallet stays anchored, and after a success the receipts are
those of one reading up to its tip. -/
def PassDone (host : Host) (contents : String → List EsploraTx) (hash : ℕ → String)
    (height : ℕ → ℕ) (b : ℕ) (before : List Receipt) (led : Handle)
    (result : Except Error ScanReport) (s' : Journal) : Prop :=
  Anchored host contents hash height b before led s' ∧
    ∀ report, result = .ok report → receipts s'.1.ledger =
      enrolAll Receipt.outpoint before (paidUpTo host contents hash b report.toHeight)

/-- The blocks above the checkpoint, up to the tip. -/
theorem wp_scanBlocks_anchored {pages tip scanned : ℕ} (synced : s.1.mem led = s.1.ledger)
    (checkpoint : s.1.checkpoint = .scanned scanned) (above : b ≤ scanned)
    (below : scanned ≤ tip) (risen : tip ≤ height s.2.length)
    (resumed : Resumed Receipt.outpoint before (paidUpTo host contents hash b tip)
      (paidUpTo host contents hash b scanned) (receipts s.1.ledger)) :
    wp (growing host contents hash height) (fun _ _ _ => True)
      (fun result s' => Anchored host contents hash height b before led s' ∧
        tip ≤ height s'.2.length ∧ ∀ found, result = .ok found → receipts s'.1.ledger =
          enrolAll Receipt.outpoint before (paidUpTo host contents hash b tip))
      (scanBlocks host led pages (tip + 1 - (scanned + 1)) (scanned + 1) []) s := by
  refine wp_mono (wp_keeps (keeps_risen rises tip) risen
    (Kernel.wp_scanBlocks (fun _ _ _ _ => trivial) synced)) ?_
  rintro result s' ⟨⟨hashes, ms, reads, fewer, part, complete⟩, risen'⟩
  rw [hashes_shown reads, List.flatMap_map] at part
  have within : paidUpTo host contents hash b scanned ++ ms <+:
      paidUpTo host contents hash b tip := by
    have sofar := @paidUpTo_append host contents hash b scanned hashes.length above
    refine ((List.prefix_append_right_inj _).2 part).trans ?_
    rw [sofar]
    exact paidUpTo_grows (above.trans (Nat.le_add_right ..)) (by omega)
  have read := resumed.reads within
  rw [← reads.receipts] at read
  refine ⟨⟨reads.synced, scanned, reads.checkpoint.trans checkpoint, above, below.trans risen', ?_⟩,
    risen', fun found is => ?_⟩
  · exact (read.back (List.prefix_append ..)).grow (paidUpTo_grows (above.trans below) risen')
  · obtain ⟨length, all⟩ := complete found is
    rw [hashes_shown reads, List.flatMap_map] at all
    have full : paidUpTo host contents hash b scanned ++ ms =
        paidUpTo host contents hash b tip := by
      rw [all, paidUpTo_append _ above, length]
      congr 1
      omega
    rw [full] at read
    exact read.complete

theorem wp_scanPass_anchored {pages : ℕ}
    (anchored : Anchored host contents hash height b before led s) :
    wp (growing host contents hash height) (fun _ _ _ => True)
      (PassDone host contents hash height b before led) (scanPass host led pages) s := by
  refine wp_bind.2 (wp_ofExcept.2 ?_)
  rcases host.spScanKeypair with error | ⟨⟩
  · exact ⟨anchored, nofun⟩
  refine wp_bind.2 (wp_ofExcept.2 ?_)
  rcases host.spSpendKeypair with error | ⟨⟩
  · exact ⟨anchored, nofun⟩
  -- The two requests before the loop move nothing but the chain.
  obtain ⟨scanned, checkpoint, above, below, resumed⟩ := anchored.sure
  have waiting : ∀ past', height s.2.length ≤ height past'.length →
      Anchored host contents hash height b before led (s.1, past') := fun past' risen =>
    ⟨anchored.synced, scanned, checkpoint, above, below.trans risen,
      resumed.grow (paidUpTo_grows (above.trans below) risen)⟩
  refine wp_bind.2 ?_
  rintro (error | tip) allowed <;> refine ⟨trivial, ?_⟩
  · exact ⟨waiting _ (rises (Nat.le_succ _)), nofun⟩
  obtain rfl : tip = height s.2.length := allowed.2.1
  refine bindPost_ok.2 (wp_bind.2 ?_)
  rintro (error | found) allowed' <;> refine ⟨trivial, ?_⟩
  · exact ⟨waiting _ (rises (Nat.le_add_right s.2.length 2)), nofun⟩
  obtain rfl : found = some scanned := by
    have holds : World.allows host s.1 .loadCheckpoint (.ok found) := allowed'.1
    rcases found with _ | h
    · cases checkpoint.symm.trans holds
    · cases checkpoint.symm.trans holds
      rfl
  refine bindPost_ok.2 (wp_bind.2 (wp_mono (wp_scanBlocks_anchored rises anchored.synced checkpoint
    above below (rises (Nat.le_add_right s.2.length 2)) resumed) ?_))
  rintro (error | found) s₁ ⟨anchored₁, risen₁, complete⟩
  · exact ⟨anchored₁, nofun⟩
  have done := complete found rfl
  refine bindPost_ok.2 (wp_bind.2 ?_)
  rintro (_ | error | error) saved <;> refine ⟨trivial, ?_⟩
  · -- The checkpoint is the tip, and the receipts are complete up to it.
    have anchored₂ : Anchored host contents hash height b before led
        ({ s₁.1 with checkpoint := .scanned (height s.2.length) },
          ⟨.saveCheckpoint (height s.2.length), .ok⟩ :: s₁.2) := by
      have risen₂ : height s.2.length ≤ height (s₁.2.length + 1) :=
        risen₁.trans (rises (Nat.le_succ _))
      refine ⟨anchored₁.synced, height s.2.length, rfl, above.trans below, risen₂, ?_⟩
      exact ⟨_, List.prefix_refl _, paidUpTo_grows (above.trans below) risen₂, done⟩
    refine bindPost_ok.2 (wp_bind.2 (wp_mono
      (wp_anchored rises within_trackSpends_beside anchored₂) ?_))
    rintro (error | ⟨⟩) s₃ ⟨books, anchored₃⟩
    · exact ⟨anchored₃, nofun⟩
    · refine ⟨anchored₃, fun report is => ?_⟩
      cases is
      rw [books.receipts, enrolAll_nil]
      exact done
  · refine ⟨anchored₁.moved ⟨rfl, id, rfl, told_mute (.saveCheckpoint _) _ trivial s₁.2⟩ ?_, nofun⟩
    exact rises (Nat.le_succ _)
  · exact saved.2.2.1.elim

/-- A pass, from taking the lock to giving it back. -/
theorem wp_scanToTip_anchored {pages : ℕ}
    (anchored : Anchored host contents hash height b before led s) :
    wp (growing host contents hash height) (fun _ _ _ => True)
      (PassDone host contents hash height b before led) (scanToTip host led pages) s := by
  have locks : (Program.call (.scanLock led) .pure : Prog Unit).Within (Op.beside led) :=
    ⟨trivial, fun _ => trivial⟩
  have unlocks : (Program.call .scanUnlock .pure : Prog Unit).Within (Op.beside led) :=
    ⟨trivial, fun _ => trivial⟩
  refine wp_bind.2 (wp_mono (wp_anchored rises locks anchored) ?_)
  rintro (error | ⟨⟩) s₁ ⟨-, anchored₁⟩
  · exact ⟨anchored₁, nofun⟩
  refine wp_bind.2 (wp_attempt.2 (wp_mono (wp_scanPass_anchored rises anchored₁) ?_))
  rintro outcome s₂ ⟨anchored₂, complete⟩
  refine wp_bind.2 (wp_mono (wp_anchored rises unlocks anchored₂) ?_)
  rintro (error | ⟨⟩) s₃ ⟨books, anchored₃⟩
  · exact ⟨anchored₃, nofun⟩
  · refine wp_ofExcept.2 ⟨anchored₃, fun report is => ?_⟩
    rw [books.receipts, enrolAll_nil]
    exact complete report is

/-- The errands leave some instance anchored. -/
theorem wp_errands_anchored {es : List Errand}
    (anchored : Anchored host contents hash height b before led s) :
    wp (growing host contents hash height) (fun _ _ _ => True)
      (fun result s' => ∀ led', result = .ok led' →
        Anchored host contents hash height b before led' s') (errands host es led) s := by
  induction es generalizing led s with
  | nil =>
      rintro led' ⟨⟩
      exact anchored
  | cons errand es ih =>
      have performed : wp (growing host contents hash height) (fun _ _ _ => True)
          (fun result s' => ∀ led', result = .ok led' →
            Anchored host contents hash height b before led' s') (errand.perform host led) s := by
        cases errand with
        | scan pages =>
            refine wp_bind.2 (wp_attempt.2 (wp_mono (wp_scanToTip_anchored rises anchored) ?_))
            rintro outcome s₁ ⟨anchored₁, -⟩ led' ⟨⟩
            exact anchored₁
        | reconcile =>
            refine wp_bind.2 (wp_attempt.2 (wp_mono
              (wp_anchored rises within_reconcile_beside anchored) ?_))
            rintro outcome s₁ ⟨-, anchored₁⟩ led' ⟨⟩
            exact anchored₁
        | reopen =>
            obtain ⟨scanned, checkpoint, above, below, resumed⟩ := anchored.sure
            have risen : height s.2.length ≤ height (s.2.length + 1) := rises (Nat.le_succ _)
            refine wp_bind.2 (wp_attempt.2 ?_)
            rintro (error | led') allowed <;> refine ⟨trivial, ?_⟩
            · rintro led'' ⟨⟩
              exact ⟨anchored.synced, scanned, checkpoint, above, below.trans risen,
                resumed.grow (paidUpTo_grows (above.trans below) risen)⟩
            · obtain rfl : led' = s.1.fresh := allowed.1
              rintro led'' ⟨⟩
              exact ⟨s.1.load_mem, scanned, checkpoint, above, below.trans risen,
                resumed.grow (paidUpTo_grows (above.trans below) risen)⟩
      refine wp_bind.2 (wp_mono performed ?_)
      rintro (error | led') s₁ anchored₁
      · exact nofun
      · exact ih (anchored₁ led' rfl)

end Passes

/-! ## Whole histories -/

section

variable {host : Host} {contents : String → List EsploraTx} {hash : ℕ → String} {height : ℕ → ℕ}
  {b : ℕ} {s : Journal}

/-- Whatever came before, a successful pass leaves the receipts of one reading. -/
theorem receipts_scanAfter (rises : Monotone height) (anchored : s.1.checkpoint = .scanned b)
    (born : b ≤ height s.2.length) {before : List Errand} {pages : ℕ} {report : ScanReport}
    {s' : Journal}
    (run : Exec (growing host contents hash height) (scanAfter host before pages) s
      (.ok report) s') :
    receipts s'.1.ledger = enrolAll Receipt.outpoint (receipts s.1.ledger)
      (paidUpTo host contents hash b report.toHeight) := by
  have holds : wp (growing host contents hash height) (fun _ _ _ => True)
      (fun result s' => ∀ report, result = .ok report → receipts s'.1.ledger =
        enrolAll Receipt.outpoint (receipts s.1.ledger)
          (paidUpTo host contents hash b report.toHeight)) (scanAfter host before pages) s := by
    refine wp_bind.2 ?_
    rintro (error | led) allowed <;> refine ⟨trivial, ?_⟩
    · exact nofun
    obtain rfl : led = s.1.fresh := allowed.1
    have nothing : paidUpTo host contents hash b b = [] := by simp [paidUpTo]
    have opened : Anchored host contents hash height b (receipts s.1.ledger) s.1.fresh
        (s.1.load s.1.fresh, ⟨.openLedger, .ok s.1.fresh⟩ :: s.2) := by
      refine ⟨s.1.load_mem, b, anchored, Nat.le_refl _, born.trans (rises (Nat.le_succ _)), ?_⟩
      rw [nothing]
      exact ⟨[], List.prefix_refl _, List.nil_prefix, rfl⟩
    refine bindPost_ok.2 (wp_bind.2 (wp_mono (wp_errands_anchored rises opened) ?_))
    rintro (error | led') s₁ anchored₁
    · exact nofun
    · exact wp_mono (wp_scanToTip_anchored rises (anchored₁ led' rfl)) fun _ _ done => done.2
  exact wp_exec holds run report rfl

end

/-- **Interrupted scans equal an uninterrupted one.**  On a chain that only grows, for a
wallet anchored at a height the chain had: after any errands, whose passes may have failed
at any request, and a pass that succeeds, the silent-payment receipts on file are those of
before and then each payment of the blocks from the anchor to the tip once, in chain order;
which is what any single pass to the same tip leaves. -/
theorem interrupted_scans_equal (host : Host) (contents : String → List EsploraTx)
    (hash : ℕ → String) (height height' : ℕ → ℕ) (rises : Monotone height)
    (rises' : Monotone height') (w : World) (b : ℕ) (anchored : w.checkpoint = .scanned b)
    (born : b ≤ height 0) (born' : b ≤ height' 0) (before : List Errand) (pages pages' : ℕ)
    (report report' : ScanReport) (s s' : Journal)
    (run : Exec (growing host contents hash height) (scanAfter host before pages) (w, [])
      (.ok report) s)
    (single : Exec (growing host contents hash height') (scanAfter host [] pages') (w, [])
      (.ok report') s')
    (tip : report'.toHeight = report.toHeight) :
    receipts s.1.ledger = receipts s'.1.ledger ∧
      receipts s.1.ledger = enrolAll Receipt.outpoint (receipts w.ledger)
        (paidUpTo host contents hash b report.toHeight) := by
  have many := receipts_scanAfter rises anchored born run
  have one := receipts_scanAfter rises' anchored born' single
  rw [tip] at one
  exact ⟨many.trans one.symm, many⟩

/-! ## A pass cut off after its first block -/

/-- Block 100 pays the wallet; every other block is empty. -/
def blockName (height : ℕ) : String := if height = 100 then "block 100" else "block"

/-- The chain has these heights; the calls so numbered are answered by a failure. -/
def passAnswer (height : ℕ → ℕ) (fails : List ℕ) (s : Journal) : (op : Op) → op.Ans
  | .tipHeight => if s.2.length ∈ fails then .error "timed out" else .ok (height s.2.length)
  | .loadCheckpoint => match s.1.checkpoint with
      | .absent => .ok none
      | .scanned scanned => .ok (some scanned)
      | .torn => .error "expected value"
  | .blockHash n =>
      if s.2.length ∈ fails ∨ height s.2.length < n then .error "timed out" else .ok (blockName n)
  | .blockTxs hash start =>
      if s.2.length ∈ fails then .error "timed out"
      else .ok (((blockPage hash).drop start).take pageSize)
  | op => Script.silent.answer paidHost s.1 op

def passHandle (height : ℕ → ℕ) (fails : List ℕ) (op : Op) (s : Journal) : op.Ans × Journal :=
  (passAnswer height fails s op, (s.1.after op (passAnswer height fails s op),
    ⟨op, passAnswer height fails s op⟩ :: s.2))

theorem passAnswer_served (height : ℕ → ℕ) (fails : List ℕ) (op : Op) (s : Journal) :
    World.allows paidHost s.1 op (passAnswer height fails s op) ∧
      (Best.mk (height s.2.length) blockName).serves blockPage op (passAnswer height fails s op) ∧
      diskHolds op (passAnswer height fails s op) := by
  have silent := Script.silent.allowed paidHost s.1 op
  cases op with
  | tipHeight =>
      by_cases fail : s.2.length ∈ fails
      · rw [show passAnswer height fails s .tipHeight = _ from if_pos fail]
        exact ⟨trivial, trivial, trivial⟩
      · rw [show passAnswer height fails s .tipHeight = _ from if_neg fail]
        exact ⟨trivial, rfl, trivial⟩
  | loadCheckpoint =>
      refine ⟨?_, trivial, trivial⟩
      show World.allows paidHost s.1 .loadCheckpoint (match s.1.checkpoint with
        | .absent => .ok none
        | .scanned scanned => .ok (some scanned)
        | .torn => .error "expected value")
      split
      · assumption
      · assumption
      · trivial
  | blockHash n =>
      by_cases fail : s.2.length ∈ fails ∨ height s.2.length < n
      · rw [show passAnswer height fails s (.blockHash n) = _ from if_pos fail]
        exact ⟨trivial, trivial, trivial⟩
      · rw [show passAnswer height fails s (.blockHash n) = _ from if_neg fail]
        exact ⟨trivial, ⟨Nat.le_of_not_lt fun short => fail (.inr short), rfl⟩, trivial⟩
  | blockTxs hash start =>
      by_cases fail : s.2.length ∈ fails
      · rw [show passAnswer height fails s (.blockTxs hash start) = _ from if_pos fail]
        exact ⟨trivial, trivial, trivial⟩
      · rw [show passAnswer height fails s (.blockTxs hash start) = _ from if_neg fail]
        exact ⟨trivial, rfl, trivial⟩
  | _ => exact ⟨silent, trivial, trivial⟩

/-- Block 99 is scanned, nothing is on file; errands, and then a pass to block 101. -/
def passRun (fails : List ℕ) (before : List Errand) : Except Error ScanReport × Journal :=
  run (passHandle (fun _ => 101) fails) (scanAfter paidHost before 1)
    ({ World.blank with checkpoint := .scanned 99 }, [])

theorem passRun_exec (fails : List ℕ) (before : List Errand) :
    Exec (growing paidHost blockPage blockName fun _ => 101) (scanAfter paidHost before 1)
      ({ World.blank with checkpoint := .scanned 99 }, []) (passRun fails before).1
      (passRun fails before).2 := by
  refine run_exec id _ _ (fun op s => ?_) fun _ _ => rfl
  obtain ⟨allowed, served, holds⟩ := passAnswer_served (fun _ => 101) fails op s
  exact ⟨allowed, served, holds, trivial⟩

/-- The first pass books the payment and fails at the next block; the second finds it on
file. -/
theorem interrupted_scans_equal_sample :
    receipts (passRun [8] [.scan 1, .reconcile]).2.1.ledger = [⟨sampleTxid, 0, 5000, "07"⟩] ∧
      receipts (passRun [8] [.scan 1, .reconcile]).2.1.ledger =
        receipts (passRun [] []).2.1.ledger := by
  have run := passRun_exec [8] [.scan 1, .reconcile]
  have single := passRun_exec [] []
  rw [show (passRun [8] [.scan 1, .reconcile]).1 = .ok ⟨100, 101, []⟩ by decide +kernel] at run
  rw [show (passRun [] []).1 = .ok ⟨100, 101, [⟨sampleTxid, 0, 5000⟩]⟩ by decide +kernel] at single
  exact ⟨by decide +kernel, (interrupted_scans_equal paidHost blockPage blockName _ _ monotone_const
    monotone_const _ 99 rfl (by decide) (by decide) _ _ _ _ _ _ _ run single rfl).1⟩

end ComputerMoney.Safety

/-
# Kernel.Esplora -- a pass over a chain that moves

The best chain is a height and the hash of each block up to it; a block's transactions
are fixed by its hash.  The chain moves between any two calls: a history gives the best
chain after so many calls.  The server answers from the chain of the moment or fails, and
the disk works.

`wp_scanBlocks` says what the block loop of a pass leaves, whether it ends or is cut off
by a failed request: it has enrolled, in order and each output once, what the blocks it
was shown pay the wallet, or a prefix of that.
-/
import ComputerMoney.Kernel.Scan
import ComputerMoney.Theory.Enrol

namespace ComputerMoney.Kernel

set_option autoImplicit false

open Theory Theory.Program

/-! ## Silent-payment receipts -/

/-- What an `spReceived` entry books. -/
structure Receipt where
  txid : String
  vout : ℕ
  sats : ℕ
  tweak : String
  deriving DecidableEq, Repr

def Receipt.outpoint (r : Receipt) : OutPoint := (r.txid, r.vout)

def receipt? : Entry → Option Receipt
  | .spReceived _ txid vout sats tweak _ => some ⟨txid, vout, sats, tweak⟩
  | _ => none

/-- The receipts on file, in file order. -/
def receipts (entries : List Entry) : List Receipt := entries.filterMap receipt?

/-- What the matches of one transaction pay us, but for dust. -/
def matchReceipts (txid : String) (fs : List SpFound) : List Receipt :=
  (fs.filter fun f => dustFloor ≤ f.sats).map fun f =>
    ⟨txid, f.vout, f.sats, String.ofList (Hex.hexLower f.tweak)⟩

/-- What some transactions pay us. -/
def paidBy (host : Host) (txs : List EsploraTx) : List Receipt :=
  txs.flatMap fun tx => matchReceipts tx.txid (host.txMatches tx)

theorem receipts_append (entries : List Entry) (e : Entry) :
    receipts (entries ++ [e]) = receipts entries ++ (receipt? e).toList := by
  rw [receipts, List.filterMap_append]
  cases e <;> rfl

/-- The dedup of the ledger is by the outpoints of its receipts. -/
theorem hasSpOutput_iff_receipts {entries : List Entry} {txid : String} {vout : ℕ} :
    Ledger.hasSpOutput entries txid vout = true ↔
      (txid, vout) ∈ (receipts entries).map Receipt.outpoint := by
  rw [Ledger.hasSpOutput_iff, receipts, List.map_filterMap, List.mem_filterMap]
  refine exists_congr fun e => and_congr_right fun _ => ?_
  cases e <;> simp [receipt?, Entry.spOutpoint?, Receipt.outpoint]

theorem paidBy_append (host : Host) (txs txs' : List EsploraTx) :
    paidBy host (txs ++ txs') = paidBy host txs ++ paidBy host txs' := List.flatMap_append

theorem mem_paidBy {host : Host} {txs : List EsploraTx} {tx : EsploraTx} {f : SpFound}
    (member : tx ∈ txs) (matched : f ∈ host.txMatches tx) (worth : dustFloor ≤ f.sats) :
    (tx.txid, f.vout) ∈ (paidBy host txs).map Receipt.outpoint := by
  refine List.mem_map.2 ⟨⟨tx.txid, f.vout, f.sats, String.ofList (Hex.hexLower f.tweak)⟩, ?_, rfl⟩
  refine List.mem_flatMap.2 ⟨tx, member, List.mem_map.2 ⟨f, ?_, rfl⟩⟩
  exact List.mem_filter.2 ⟨matched, decide_eq_true worth⟩

/-! ## The chain and the server -/

/-- The best chain. -/
structure Best where
  height : ℕ
  hash : ℕ → String

/-- What the server answers while this is the best chain; any request may also fail. -/
def Best.serves (contents : String → List EsploraTx) (best : Best) : (op : Op) → op.Ans → Prop
  | .tipHeight, .ok tip => tip = best.height
  | .blockHash height, .ok hash => height ≤ best.height ∧ hash = best.hash height
  | .blockTxs hash start, .ok txs => txs = ((contents hash).drop start).take pageSize
  | _, _ => True

/-- The disk: a write that fails leaves nothing behind. -/
def diskHolds : (op : Op) → op.Ans → Prop
  | .append _ _, .kept _ => False
  | .saveCheckpoint _, .torn _ => False
  | _, _ => True

/-- The host, over a chain that after so many calls is `chain` of that number. -/
def online (host : Host) (contents : String → List EsploraTx) (chain : ℕ → Best)
    (cond : Guarantee sig Journal) : Interp sig Journal :=
  (interp host).recorded.restrict fun s op answer =>
    (chain s.2.length).serves contents op answer ∧ diskHolds op answer ∧ cond s op answer

/-! ## What a pass has been told -/

def eventTip? : Event sig → Option ℕ
  | ⟨.tipHeight, answer⟩ => match answer with
      | .ok tip => some tip
      | .error _ => none
  | _ => none

def eventHash? : Event sig → Option (ℕ × String)
  | ⟨.blockHash height, answer⟩ => match answer with
      | .ok hash => some (height, hash)
      | .error _ => none
  | _ => none

def eventCheckpoint? : Event sig → Option (Option ℕ)
  | ⟨.loadCheckpoint, answer⟩ => match answer with
      | .ok checkpoint => some checkpoint
      | .error _ => none
  | _ => none

/-- The last tip served. -/
def lastTip (past : List (Event sig)) : Option ℕ := past.findSome? eventTip?

/-- The last hash served for a height. -/
def lastHash (past : List (Event sig)) (height : ℕ) : Option String :=
  past.findSome? fun event => match eventHash? event with
    | some (h, hash) => if h = height then some hash else none
    | none => none

/-- Where a pass starts that has just read the checkpoint. -/
def startOf (past : List (Event sig)) : Option ℕ → Option ℕ
  | some height => some (height + 1)
  | none => (lastTip past).map (· - startLookback)

/-- Where the first pass that came to start has started. -/
def firstStart : List (Event sig) → Option ℕ
  | [] => none
  | event :: past => (firstStart past).or ((eventCheckpoint? event).bind (startOf past))

/-- All a pass has been told. -/
def told (past : List (Event sig)) : Option ℕ × (ℕ → Option String) × Option ℕ :=
  (lastTip past, lastHash past, firstStart past)

/-- The calls that neither book a receipt, nor tell a pass anything, nor save. -/
def Op.beside (led : Handle) : Op → Prop
  | .tipHeight | .blockHash _ | .loadCheckpoint | .saveCheckpoint _ | .openLedger => False
  | .append led' e => led' = led ∧ receipt? e = none
  | _ => True

/-- The calls that tell a pass nothing. -/
def Op.mute : Op → Prop
  | .tipHeight | .blockHash _ | .loadCheckpoint => False
  | _ => True

theorem mute_of_beside {led : Handle} {op : Op} (beside : Op.beside led op) : Op.mute op := by
  cases op <;> first | exact beside.elim | trivial

theorem told_mute (op : Op) (answer : sig.Ans op) (mute : Op.mute op) (past : List (Event sig)) :
    told (⟨op, answer⟩ :: past) = told past := by
  have start : firstStart (⟨op, answer⟩ :: past) = firstStart past := by
    have unread : eventCheckpoint? ⟨op, answer⟩ = none := by
      cases op <;> first | rfl | exact mute.elim
    rw [firstStart, unread, Option.bind_none, Option.or_none]
  rw [told, start]
  cases op <;> first | rfl | exact mute.elim

/-! ## Booking -/

/-- From `s` to `s'` the receipts `ms` were enrolled, and nothing else happened that a pass
depends on. -/
structure Books (led : Handle) (ms : List Receipt) (s s' : Journal) : Prop where
  receipts : receipts s'.1.ledger = enrolAll Receipt.outpoint (receipts s.1.ledger) ms
  synced : s.1.mem led = s.1.ledger → s'.1.mem led = s'.1.ledger
  checkpoint : s'.1.checkpoint = s.1.checkpoint
  told : told s'.2 = told s.2

theorem Books.refl (led : Handle) (s : Journal) : Books led [] s s := ⟨rfl, id, rfl, rfl⟩

theorem Books.trans {led : Handle} {ms ms' : List Receipt} {s₁ s₂ s₃ : Journal}
    (first : Books led ms s₁ s₂) (second : Books led ms' s₂ s₃) : Books led (ms ++ ms') s₁ s₃ where
  receipts := by rw [second.receipts, first.receipts, enrolAll_append]
  synced has := second.synced (first.synced has)
  checkpoint := second.checkpoint.trans first.checkpoint
  told := second.told.trans first.told

/-- What has to be booked is booked; or the program failed, and a prefix of it is. -/
def Booked {α : Type} (led : Handle) (all : List Receipt) (s : Journal) (result : Except Error α)
    (s' : Journal) : Prop :=
  ∃ ms, ms <+: all ∧ Books led ms s s' ∧ ∀ value, result = .ok value → ms = all

section Booking

variable {α β : Type} {host : Host} {contents : String → List EsploraTx} {chain : ℕ → Best}
  {cond G : Guarantee sig Journal} {led : Handle} {s s' : Journal}

theorem Booked.ok {all : List Receipt} {value : α} (booked : Booked led all s (.ok value) s') :
    Books led all s s' := by
  obtain ⟨ms, -, books, complete⟩ := booked
  obtain rfl := complete value rfl
  exact books

theorem Booked.failed {all : List Receipt} {error : Error} (rest : List Receipt)
    (booked : Booked led all s (.error error : Except Error α) s') :
    Booked led (all ++ rest) s (.error error : Except Error β) s' := by
  obtain ⟨ms, part, books, -⟩ := booked
  exact ⟨ms, part.trans (List.prefix_append ..), books, nofun⟩

theorem Booked.after {all rest : List Receipt} {s₁ : Journal} {result : Except Error α}
    (first : Books led all s s₁) (booked : Booked led rest s₁ result s') :
    Booked led (all ++ rest) s result s' := by
  obtain ⟨ms, part, books, complete⟩ := booked
  refine ⟨all ++ ms, (List.prefix_append_right_inj _).2 part, first.trans books, fun value is => ?_⟩
  rw [complete value is]

theorem booked_of_books {all : List Receipt} {value : α} (books : Books led all s s') :
    Booked led all s (.ok value) s' := ⟨all, List.prefix_refl _, books, fun _ _ => rfl⟩

/-- One call of the class. -/
theorem books_beside {op : Op} {answer : sig.Ans op}
    (allowed : (online host contents chain cond).allowed s op answer) (beside : Op.beside led op) :
    Books led [] s ((online host contents chain cond).next s op answer) := by
  have checkpoint : (s.1.after op answer).checkpoint = s.1.checkpoint := by
    refine s.1.after_checkpoint answer fun height is => ?_
    subst is
    exact beside
  refine ⟨?_, fun has => ?_, checkpoint, told_mute op answer (mute_of_beside beside) s.2⟩
  · cases op with
    | append led' e =>
        have same : receipts (s.1.ledger ++ [e]) = receipts s.1.ledger := by
          rw [receipts_append, beside.2, Option.toList_none, List.append_nil]
        cases answer with
        | ok => exact same
        | lost error => rfl
        | kept error => exact same
    | _ => exact congrArg receipts (s.1.after_ledger answer nofun)
  · cases op with
    | append led' e =>
        obtain ⟨rfl, -⟩ := beside
        cases answer with
        | ok =>
            show Function.update s.1.mem led' (s.1.mem led' ++ [e]) led' = s.1.ledger ++ [e]
            rw [Function.update_self, has]
        | lost error => exact has
        | kept error => exact allowed.2.2.1.elim
    | openLedger => exact beside.elim
    | _ =>
        have ledger := s.1.after_ledger answer nofun
        have mem := s.1.after_mem answer nofun nofun
        exact (congrFun mem led).trans (has.trans ledger.symm)

variable (free : ∀ s (op : Op) (answer : op.Ans), (∀ height, op ≠ .saveCheckpoint height) →
  G s op answer)
include free

/-- A program that only makes such calls. -/
theorem wp_beside {p : Prog α} (body : p.Within (Op.beside led)) :
    wp (online host contents chain cond) G (fun _ s' => Books led [] s s') p s := by
  refine wp_within body (Books.refl led) (fun first second => first.trans second) ?_
  intro s op answer beside allowed
  refine ⟨free s op answer fun height is => ?_, books_beside allowed beside⟩
  subst is
  exact beside

theorem wp_recordSpReceived {r : Receipt} (synced : s.1.mem led = s.1.ledger) :
    wp (online host contents chain cond) G (Booked led [r] s)
      (Ledger.recordSpReceived led r.txid r.vout r.sats r.tweak) s := by
  refine wp_bind.2 fun es allowed => ⟨free _ _ _ nofun, bindPost_ok.2 ?_⟩
  obtain rfl : es = s.1.mem led := allowed.1
  have read : told (⟨.entries led, s.1.mem led⟩ :: s.2) = told s.2 :=
    told_mute (.entries led) _ trivial s.2
  split
  · rename_i known
    refine booked_of_books ⟨?_, fun _ => synced, rfl, read⟩
    rw [synced, hasSpOutput_iff_receipts] at known
    exact (if_pos known).symm
  · rename_i unknown
    rw [synced, hasSpOutput_iff_receipts] at unknown
    refine wp_bind.2 ?_
    rintro (_ | error | error) allowed' <;> refine ⟨free _ _ _ nofun, ?_⟩
    · refine booked_of_books
        ⟨?_, fun _ => ?_, rfl, (told_mute (.append led _) _ trivial _).trans read⟩
      · show receipts (s.1.ledger ++ [_]) = enrol Receipt.outpoint (receipts s.1.ledger) r
        rw [receipts_append]
        exact (if_neg unknown).symm
      · show Function.update s.1.mem led (s.1.mem led ++ [_]) led = s.1.ledger ++ [_]
        rw [Function.update_self, synced]
    · exact ⟨[], List.nil_prefix,
        ⟨rfl, fun _ => synced, rfl, (told_mute (.append led _) _ trivial _).trans read⟩,
        nofun⟩
    · exact allowed'.2.2.1.elim

theorem wp_bookMatches {txid : String} {fs : List SpFound} {found : List Found}
    (synced : s.1.mem led = s.1.ledger) :
    wp (online host contents chain cond) G (Booked led (matchReceipts txid fs) s)
      (bookMatches led txid fs found) s := by
  induction fs generalizing s found with
  | nil => exact booked_of_books (Books.refl led s)
  | cons f fs ih =>
      unfold bookMatches
      split
      · rename_i dust
        have skipped : matchReceipts txid (f :: fs) = matchReceipts txid fs := by
          rw [matchReceipts, List.filter_cons_of_neg (by simpa using dust)]
          rfl
        rw [skipped]
        exact ih synced
      · rename_i worth
        have next : matchReceipts txid (f :: fs) =
            [⟨txid, f.vout, f.sats, String.ofList (Hex.hexLower f.tweak)⟩] ++
              matchReceipts txid fs := by
          rw [matchReceipts, List.filter_cons_of_pos (by simpa using worth)]
          rfl
        rw [next]
        refine wp_bind.2 (wp_mono (wp_recordSpReceived free
          (r := ⟨txid, f.vout, f.sats, String.ofList (Hex.hexLower f.tweak)⟩) synced) ?_)
        rintro (error | booked) s₁ done
        · exact done.failed _
        · exact wp_mono (ih (done.ok.synced synced)) fun _ _ => Booked.after done.ok

theorem wp_bookPage {txs : List EsploraTx} {found : List Found}
    (synced : s.1.mem led = s.1.ledger) :
    wp (online host contents chain cond) G (Booked led (paidBy host txs) s)
      (bookPage host led txs found) s := by
  induction txs generalizing s found with
  | nil => exact booked_of_books (Books.refl led s)
  | cons tx txs ih =>
      refine wp_bind.2 (wp_mono (wp_bookMatches free synced) ?_)
      rintro (error | found') s₁ done
      · exact done.failed _
      · exact wp_mono (ih (done.ok.synced synced)) fun _ _ => Booked.after done.ok

/-- The pages of one block. -/
theorem wp_scanPages {hash : String} {pages start : ℕ} {found : List Found}
    (synced : s.1.mem led = s.1.ledger) :
    wp (online host contents chain cond) G
      (Booked led (paidBy host ((contents hash).drop start)) s)
      (scanPages host led hash pages start found) s := by
  induction pages generalizing s start found with
  | zero => exact ⟨[], List.nil_prefix, Books.refl led s, nofun⟩
  | succ pages ih =>
      refine wp_bind.2 ?_
      rintro (error | txs) allowed <;> refine ⟨free _ _ _ nofun, ?_⟩
      · exact ⟨[], List.nil_prefix, books_beside allowed trivial, nofun⟩
      have page := @books_beside host contents chain cond led s _ _ allowed trivial
      obtain rfl : txs = ((contents hash).drop start).take pageSize := allowed.2.1
      refine bindPost_ok.2 ?_
      split
      · rename_i empty
        have spent : (contents hash).drop start = [] := by
          rcases List.take_eq_nil_iff.1 (List.isEmpty_iff.1 empty) with none | spent
          · cases none
          · exact spent
        have nothing : paidBy host ((contents hash).drop start) = [] := by
          rw [spent]
          rfl
        rw [nothing]
        exact booked_of_books page
      · have splits : paidBy host ((contents hash).drop start) =
            paidBy host (((contents hash).drop start).take pageSize) ++
              paidBy host ((contents hash).drop (start + pageSize)) := by
          rw [← paidBy_append, ← List.drop_drop, List.take_append_drop]
        refine wp_bind.2 (wp_mono (wp_bookPage free (page.synced synced)) ?_)
        rintro (error | found') s₁ done
        · have part := Booked.after page done
          rw [splits]
          exact part.failed _
        have booked := page.trans done.ok
        rw [List.nil_append] at booked
        refine bindPost_ok.2 ?_
        split
        · rename_i short
          have last : ((contents hash).drop start).take pageSize = (contents hash).drop start := by
            rw [List.length_take] at short
            exact List.take_of_length_le (by omega)
          rw [last] at booked
          exact booked_of_books booked
        · rename_i full
          have length : (((contents hash).drop start).take pageSize).length = pageSize := by
            rw [List.length_take] at full ⊢
            omega
          rw [splits, length]
          refine wp_mono (ih (booked.synced synced)) fun _ _ rest => ?_
          exact Booked.after booked rest

end Booking

/-! ## The block loop -/

/-- From `s` to `s'` a pass was shown these hashes from `height` on, and enrolled `ms`. -/
structure Reads (chain : ℕ → Best) (led : Handle) (height : ℕ) (hashes : List String)
    (ms : List Receipt) (s s' : Journal) : Prop where
  receipts : receipts s'.1.ledger = enrolAll Receipt.outpoint (receipts s.1.ledger) ms
  synced : s'.1.mem led = s'.1.ledger
  checkpoint : s'.1.checkpoint = s.1.checkpoint
  tip : lastTip s'.2 = lastTip s.2
  start : firstStart s'.2 = firstStart s.2
  /-- The blocks below are as they were last read. -/
  below : ∀ n < height, lastHash s'.2 n = lastHash s.2 n
  read : ∀ k hash, hashes[k]? = some hash → lastHash s'.2 (height + k) = some hash
  /-- Each was the best chain's when it was asked for. -/
  shown : ∀ k hash, hashes[k]? = some hash → ∃ i, (chain i).hash (height + k) = hash

section Blocks

variable {host : Host} {contents : String → List EsploraTx} {chain : ℕ → Best}
  {cond G : Guarantee sig Journal} {led : Handle} {s : Journal}

theorem Reads.refl {height : ℕ} (synced : s.1.mem led = s.1.ledger) :
    Reads chain led height [] [] s s :=
  ⟨rfl, synced, rfl, rfl, rfl, fun _ _ => rfl, nofun, nofun⟩

/-- A block is shown and read, then the blocks above it. -/
theorem Reads.cons {height i : ℕ} {hash : String} {hashes : List String} {ms ms' : List Receipt}
    {s₁ s₂ s' : Journal} (asked : s₁ = (s.1, ⟨.blockHash height, .ok hash⟩ :: s.2))
    (best : (chain i).hash height = hash) (books : Books led ms s₁ s₂)
    (rest : Reads chain led (height + 1) hashes ms' s₂ s') :
    Reads chain led height (hash :: hashes) (ms ++ ms') s s' := by
  subst asked
  have tip : lastTip s₂.2 = lastTip s.2 := congrArg Prod.fst books.told
  have start : firstStart s₂.2 = firstStart s.2 := by
    have same : firstStart s₂.2 = firstStart (⟨.blockHash height, .ok hash⟩ :: s.2) :=
      congrArg (fun told => told.2.2) books.told
    rw [same]
    exact Option.or_none
  have hashed : ∀ n, lastHash s₂.2 n = if height = n then some hash else lastHash s.2 n := by
    intro n
    have same : lastHash s₂.2 n = lastHash (⟨.blockHash height, .ok hash⟩ :: s.2) n :=
      congrFun (congrArg (fun told => told.2.1) books.told) n
    rw [same, lastHash, List.findSome?_cons]
    by_cases here : height = n
    · simp [eventHash?, here]
    · simp [eventHash?, here, lastHash]
  refine ⟨?_, rest.synced, rest.checkpoint.trans books.checkpoint, rest.tip.trans tip,
    rest.start.trans start, fun n below => ?_, fun k hash' at_ => ?_, fun k hash' at_ => ?_⟩
  · rw [rest.receipts, books.receipts, enrolAll_append]
  · rw [rest.below n (by omega), hashed n, if_neg (by omega)]
  · cases k with
    | zero =>
        cases at_
        rw [Nat.add_zero, rest.below height (Nat.lt_succ_self _), hashed height, if_pos rfl]
    | succ k =>
        rw [List.getElem?_cons_succ] at at_
        rw [← rest.read k hash' at_, Nat.add_assoc, Nat.add_comm 1 k]
  · cases k with
    | zero =>
        cases at_
        exact ⟨i, best⟩
    | succ k =>
        rw [List.getElem?_cons_succ] at at_
        obtain ⟨j, best'⟩ := rest.shown k hash' at_
        exact ⟨j, by rw [← best', Nat.add_assoc, Nat.add_comm 1 k]⟩

/-- What the loop leaves: it has read `count` blocks, or failed on the way. -/
def BlocksRead (host : Host) (contents : String → List EsploraTx) (chain : ℕ → Best)
    (led : Handle) (height count : ℕ) (s : Journal) (result : Except Error (List Found))
    (s' : Journal) : Prop :=
  ∃ hashes ms, Reads chain led height hashes ms s s' ∧ hashes.length ≤ count ∧
    ms <+: (hashes.flatMap fun hash => paidBy host (contents hash)) ∧
      ∀ found, result = .ok found → hashes.length = count ∧
        ms = hashes.flatMap fun hash => paidBy host (contents hash)

/-- **The block loop.** -/
theorem wp_scanBlocks (free : ∀ s (op : Op) (answer : op.Ans),
      (∀ height, op ≠ .saveCheckpoint height) → G s op answer)
    {pages count height : ℕ} {found : List Found} (synced : s.1.mem led = s.1.ledger) :
    wp (online host contents chain cond) G (BlocksRead host contents chain led height count s)
      (scanBlocks host led pages count height found) s := by
  induction count generalizing s height found with
  | zero =>
      exact ⟨[], [], Reads.refl synced, Nat.le_refl _, List.prefix_refl _, fun _ _ => ⟨rfl, rfl⟩⟩
  | succ count ih =>
      refine wp_bind.2 ?_
      rintro (error | hash) allowed <;> refine ⟨free _ _ _ nofun, ?_⟩
      · refine ⟨[], [], ⟨rfl, synced, rfl, rfl, ?_, fun _ _ => rfl, nofun, nofun⟩, Nat.zero_le _,
          List.prefix_refl _, nofun⟩
        exact Option.or_none
      obtain ⟨-, rfl⟩ := allowed.2.1
      refine bindPost_ok.2 (wp_bind.2 (wp_mono (wp_scanPages free synced) ?_))
      rintro (error | found') s₂ done
      · obtain ⟨ms, part, books, -⟩ := done
        have read := Reads.cons rfl rfl books (Reads.refl (books.synced synced))
        rw [List.append_nil] at read
        refine ⟨_, ms, read, Nat.le_add_left 1 count, ?_, nofun⟩
        rw [List.flatMap_singleton]
        exact part
      have books := done.ok
      refine wp_mono (ih (books.synced synced)) ?_
      rintro result s' ⟨hashes, ms, rest, fewer, part, complete⟩
      refine ⟨_, _, Reads.cons rfl rfl books rest, Nat.succ_le_succ fewer, ?_, fun found is => ?_⟩
      · exact (List.prefix_append_right_inj _).2 part
      · obtain ⟨length, all⟩ := complete found is
        exact ⟨congrArg Nat.succ length, congrArg _ all⟩

end Blocks

end ComputerMoney.Kernel

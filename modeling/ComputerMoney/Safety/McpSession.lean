/-
# Safety.McpSession -- one frame for each line that is owed one

A line is owed the parse error if it cannot be read, and a frame under its own id if it
carries one.  A server that takes every line writes exactly these, in order: that much holds
of every turn (`turn_replies`).

It does not take every line.  `read_line` gives up on a line that is not UTF-8, and the `?`
behind it ends the server; and the key of a `cm_pay` is measured in bytes and then sliced at
byte offsets, so that 64 bytes whose digits run into a wide character panic.  And it writes
what no line is owed: a `cm_pay` that succeeds over the tunnel has three lines of text on
stdout before its frame.  There is nothing else: `replies_correspond` is an equivalence.
-/
import ComputerMoney.Kernel.Mcp

namespace ComputerMoney.Safety

set_option autoImplicit false

open Theory Kernel.Mcp Kernel.Mcp.Handler
open Kernel (Error)

namespace McpSession

variable {server : Server} {tools : Tools} {s : State} {chunk : List UInt8}

/-! ## What is owed -/

inductive Due where
  | parseError
  | reply (id : Value)

/-- What the line is owed: nothing if it is blank or carries no id. -/
def due (server : Server) (chunk : List UInt8) : Option Due :=
  match Lines.text? chunk with
  | none => some .parseError
  | some line =>
      if Text.trim line = [] then none
      else
        match server.parse (Text.trim line) with
        | none => some .parseError
        | some msg => (msg.get "id").map .reply

def answers : Due → Output → Prop
  | .parseError, .frame frame => frame.get "id" = some .null ∧
      (frame.get "error").bind (·.get "code") = some (.number (.negInt 32700))
  | .reply id, .frame frame => frame.get "id" = some id
  | _, .line _ => False

def IsFrame : Output → Prop
  | .frame _ => True
  | .line _ => False

/-- The server takes every line, and stdout has the frames that are owed, in order, and
nothing else. -/
def Corresponds (server : Server) (held : Bool) (stdin : List UInt8) : Prop :=
  (run server held stdin).2 = none ∧
    List.Forall₂ answers ((Lines.chunks stdin).filterMap (due server)) (run server held stdin).1

/-! ## What harms -/

/-- The message of a line, if it has one and carries an id. -/
def request? (server : Server) (chunk : List UInt8) : Option Value :=
  (Lines.text? chunk).bind fun line =>
    if Text.trim line = [] then none
    else (server.parse (Text.trim line)).filter fun msg => (msg.get "id").isSome

/-- The tool that a line calls, and its arguments. -/
def toolCall? (server : Server) (chunk : List UInt8) : Option (String × Option Value) :=
  (request? server chunk).bind fun msg =>
    if methodOf msg = "tools/call" then
      (((msg.get "params").bind (·.get "name")).bind Value.asStr).map fun name =>
        (name, (msg.get "params").bind (·.get "arguments"))
    else none

/-- The wallet is there, held or loaded. -/
def unlocked (tools : Tools) (held : Bool) : Bool := held || tools.loadWallet.isOk

/-- Whether the wallet is held after the line: it stays held, and a tool that needs it loads
it. -/
def heldAfter (server : Server) (s : State) (chunk : List UInt8) : Bool :=
  s.2 || match toolCall? server chunk with
    | some (name, _) => decide (name ∈ walletTools) && unlocked (server.tools s.1) s.2
    | none => false

/-- The arguments have `pay_peer` pay this peer so much. -/
def Asks (args : Option Value) (peer : String) (sats : ℕ) : Prop :=
  ∃ members, args = some members ∧ (members.get "peer").bind Value.asStr = some peer ∧
    (members.get "sats").bind Value.asU64 = some sats ∧ sats ≠ 0

/-- The arguments have `pay_peer` pay this peer. -/
def Names (args : Option Value) (peer : String) : Prop := ∃ sats, Asks args peer sats

/-- The key texts that paying this peer takes apart: the part before the `@` of a link, or
the card key and then the public key of the card it resolves to, if that is dialed. -/
inductive Reads (tools : Tools) (peer : List Char) : List Char → Prop
  | link {wg addr : List Char} (parts : Text.splitOnce '@' peer = some (wg, addr))
      (identity : tools.identity = .ok ()) : Reads tools peer wg
  | card (whole : Text.splitOnce '@' peer = none) : Reads tools peer peer
  | resolved {key : List UInt8} {card : PeerCard} (whole : Text.splitOnce '@' peer = none)
      (parsed : (parseCardKey peer).run = some (.ok key))
      (found : tools.resolve key = .ok (some card)) (coded : card.sp = none)
      (dialed : card.ep ≠ []) (identity : tools.identity = .ok ()) :
      Reads tools peer card.wg.toList

/-- Paying this peer slices a key inside a character. -/
def Harms (tools : Tools) (peer : String) : Prop :=
  tools.ledgerPath = .ok () ∧ isCode (Text.trim peer.toList) = false ∧
    ∃ key, Reads tools (Text.trim peer.toList) key ∧ Cuts key

/-- The line has a peer paid whose key is sliced inside a character. -/
def Cutting (server : Server) (s : State) (chunk : List UInt8) : Prop :=
  ∃ args peer, toolCall? server chunk = some ("cm_pay", args) ∧
    unlocked (server.tools s.1) s.2 = true ∧ Names args peer ∧ Harms (server.tools s.1) peer

/-- Paying this peer goes over the tunnel and succeeds: to the address of a link, or to an
endpoint of the card the key resolves to. -/
inductive Tunnels (tools : Tools) (peer : List Char) (sats : ℕ) : Prop
  | link {wg addr : List Char} {key : List UInt8} {txid : String}
      (parts : Text.splitOnce '@' peer = some (wg, addr)) (identity : tools.identity = .ok ())
      (parsed : (parsePublicKey wg).run = some (.ok key))
      (paid : tools.tunnel (String.ofList addr) key sats = .ok txid)
  | card {cardKey key : List UInt8} {card : PeerCard} {addr txid : String}
      (whole : Text.splitOnce '@' peer = none)
      (parsed : (parseCardKey peer).run = some (.ok cardKey))
      (found : tools.resolve cardKey = .ok (some card)) (coded : card.sp = none)
      (identity : tools.identity = .ok ())
      (opened : (parsePublicKey card.wg.toList).run = some (.ok key))
      (dialed : addr ∈ card.ep) (paid : tools.tunnel addr key sats = .ok txid)

/-- Paying this peer prints to stdout. -/
def Prints (tools : Tools) (peer : String) (sats : ℕ) : Prop :=
  tools.ledgerPath = .ok () ∧ isCode (Text.trim peer.toList) = false ∧
    Tunnels tools (Text.trim peer.toList) sats

/-- The line has a peer paid over the tunnel. -/
def Printing (server : Server) (s : State) (chunk : List UInt8) : Prop :=
  ∃ args peer sats, toolCall? server chunk = some ("cm_pay", args) ∧
    unlocked (server.tools s.1) s.2 = true ∧ Asks args peer sats ∧
      Prints (server.tools s.1) peer sats

/-- The line is UTF-8, has no key sliced inside a character, and no payment over the
tunnel. -/
structure Calm (server : Server) (s : State) (chunk : List UInt8) : Prop where
  text : (Lines.text? chunk).isSome
  uncut : ¬ Cutting server s chunk
  silent : ¬ Printing server s chunk

/-- Every line is calm when it is reached. -/
def Harmless (server : Server) : State → List (List UInt8) → Prop
  | _, [] => True
  | s, chunk :: chunks =>
      Calm server s chunk ∧ Harmless server (s.1 + 1, heldAfter server s chunk) chunks

/-! ## Frames carry their id -/

theorem report_id (id : Value) (outcome : Except Error String) :
    (report id outcome).get "id" = some id := by
  cases outcome <;> rfl

theorem callServe_id (id : Value) (args : Option Value) :
    (callServe tools id args).get "id" = some id := report_id ..

theorem callPaywall_id (id : Value) (args : Option Value) :
    (callPaywall tools id args).get "id" = some id := by
  unfold callPaywall
  split
  · split
    · exact report_id ..
    · rfl
  · rfl

theorem callSend_id (id : Value) (args : Option Value) :
    (callSend tools id args).get "id" = some id := by
  unfold callSend
  split
  · rfl
  · split
    · rfl
    · rfl
    · split
      · rfl
      · exact report_id ..

theorem callFetch_id (id : Value) (args : Option Value) :
    (callFetch tools id args).get "id" = some id := by
  unfold callFetch
  split
  · rfl
  · split
    · rfl
    · exact report_id ..

theorem callConfs_id (id : Value) (args : Option Value) :
    (callConfs tools id args).get "id" = some id := by
  unfold callConfs
  split
  · rfl
  · split
    · rfl
    · exact report_id ..

theorem payArgs_id {id frame : Value} {args : Option Value}
    (refused : payArgs id args = .error frame) : frame.get "id" = some id := by
  unfold payArgs at refused
  split at refused
  · cases refused
    rfl
  · split at refused
    · cases refused
      rfl
    · cases refused
      rfl
    · split at refused
      · cases refused
        rfl
      · cases refused

theorem reportPaid_id (id : Value) (outcome : Except Error Paid) :
    (reportPaid id outcome).2.get "id" = some id := by
  rcases outcome with e | ⟨printed, outcome⟩
  · rfl
  · exact report_id ..

theorem callPay_id {id : Value} {answer : Answer} {args : Option Value}
    (called : callPay tools id args = some answer) : answer.2.get "id" = some id := by
  unfold callPay at called
  split at called
  · rename_i refused
    cases called
    exact payArgs_id refused
  · obtain ⟨outcome, -, rfl⟩ := Option.map_eq_some_iff.1 called
    exact reportPaid_id ..

theorem callOnWallet_id {id : Value} {answer : Answer} {args : Option Value} {name : String}
    (called : callOnWallet tools id args name = some answer) : answer.2.get "id" = some id := by
  unfold callOnWallet at called
  split_ifs at called
  · cases called
    exact callSend_id ..
  · exact callPay_id called
  · cases called
    exact callFetch_id ..
  · cases called
    exact callConfs_id ..
  all_goals
    cases called
    exact report_id ..

theorem toolsCall_id {held after : Bool} {id : Value} {answer : Answer} {params : Option Value}
    (called : toolsCall tools held id params = some (answer, after)) :
    answer.2.get "id" = some id := by
  unfold toolsCall at called
  dsimp only at called
  split at called
  · cases called
    rfl
  · split_ifs at called
    · cases called
      exact report_id ..
    · cases called
      exact callServe_id ..
    · cases called
      exact callPaywall_id ..
    · split at called
      · cases called
        rfl
      · obtain ⟨_, onWallet, same⟩ := Option.map_eq_some_iff.1 called
        cases same
        exact callOnWallet_id onWallet
    · cases called
      rfl

/-- **A frame carries the id of its request.** -/
theorem dispatch_id {held after : Bool} {id msg : Value} {answer : Answer}
    (dispatched : dispatch server tools held id msg = some (answer, after)) :
    answer.2.get "id" = some id := by
  unfold dispatch at dispatched
  dsimp only at dispatched
  split_ifs at dispatched
  · cases dispatched
    rfl
  · cases dispatched
    rfl
  · cases dispatched
    rfl
  · exact toolsCall_id dispatched
  · cases dispatched
    rfl

/-! ## Where a payment panics -/

theorem tunnelPay_panics (tools : Tools) (addr wg : String) (sats : ℕ) :
    Panics (tunnelPay tools addr wg sats) ↔ tools.identity = .ok () ∧ Cuts wg.toList := by
  simp only [tunnelPay, panics_bind, panics_ofExcept, panics_pure, run_ofExcept, parsePublicKey,
    parseKey_panics, Option.some.injEq, false_or, and_false, exists_false, or_false]
  constructor
  · rintro ⟨_, identity, cuts⟩
    exact ⟨identity, cuts⟩
  · rintro ⟨identity, cuts⟩
    exact ⟨(), identity, cuts⟩

theorem dial_panics {wg : String} {sats : ℕ} {eps : List String} {lastErr : Option Error} :
    Panics (dial tools wg sats eps lastErr) ↔
      eps ≠ [] ∧ tools.identity = .ok () ∧ Cuts wg.toList := by
  induction eps generalizing lastErr with
  | nil =>
      cases lastErr with
      | none => exact iff_of_false (panics_pure _) fun dialed => dialed.1 rfl
      | some e => exact iff_of_false (panics_throw _) fun dialed => dialed.1 rfl
  | cons addr eps ih =>
      have one := tunnelPay_panics tools addr wg sats
      unfold dial
      unfold Panics at one
      cases paid : (tunnelPay tools addr wg sats).run with
      | none => exact iff_of_true rfl ⟨List.cons_ne_nil _ _, one.1 paid⟩
      | some outcome =>
          have calm : ¬ (tools.identity = .ok () ∧ Cuts wg.toList) := fun panics => by
            rw [one.2 panics] at paid
            cases paid
          cases outcome with
          | ok => exact iff_of_false (panics_pure _) fun dialed => calm dialed.2
          | error e =>
              exact iff_of_false (fun panics => calm (ih.1 panics).2) fun dialed => calm dialed.2

theorem payCard_panics {peer : List Char} {sats : ℕ} (trimmed : Text.trim peer = peer)
    (whole : Text.splitOnce '@' peer = none) :
    Panics (payCard tools peer sats) ↔ ∃ key, Reads tools peer key ∧ Cuts key := by
  unfold payCard
  rw [panics_bind, parseCardKey, parseKey_panics, ← parseCardKey]
  constructor
  · rintro (cuts | ⟨key, parsed, panics⟩)
    · exact ⟨peer, .card whole, cuts⟩
    rw [panics_bind] at panics
    rcases panics with panics | ⟨_, -, panics⟩
    · rw [Panics, sliceTo_parsed trimmed parsed] at panics
      cases panics
    rw [panics_bind, run_ofExcept] at panics
    rcases panics with panics | ⟨found, resolved, panics⟩
    · exact absurd panics (panics_ofExcept _)
    rcases found with _ | card
    · exact absurd panics (panics_throw _)
    dsimp only at panics
    cases coded : card.sp with
    | some code =>
        rw [coded, panics_bind] at panics
        rcases panics with panics | ⟨_, -, panics⟩
        · exact absurd panics (panics_ofExcept _)
        · exact absurd panics (panics_pure _)
    | none =>
        rw [coded] at panics
        dsimp only at panics
        split at panics
        · exact absurd panics (panics_throw _)
        rw [panics_bind, dial_panics] at panics
        rcases panics with ⟨dialed, identity, cuts⟩ | ⟨_, -, panics⟩
        · exact ⟨_, .resolved whole parsed (Option.some.inj resolved) coded dialed identity, cuts⟩
        · exact absurd panics (panics_pure _)
  · rintro ⟨text, reads, cuts⟩
    cases reads with
    | link parts => rw [whole] at parts; cases parts
    | card => exact .inl cuts
    | resolved _ parsed found coded dialed identity =>
        refine .inr ⟨_, parsed, ?_⟩
        rw [panics_bind]
        refine .inr ⟨_, sliceTo_parsed trimmed parsed, ?_⟩
        rw [panics_bind]
        refine .inr ⟨_, congrArg some found, ?_⟩
        dsimp only
        rw [coded]
        dsimp only
        rw [if_neg (by simpa using dialed), panics_bind, dial_panics]
        exact .inl ⟨dialed, identity, cuts⟩

theorem link_panics {peer wg addr : List Char} {sats : ℕ}
    (parts : Text.splitOnce '@' peer = some (wg, addr)) :
    Panics (do
        let printed ← tunnelPay tools (String.ofList addr) (String.ofList wg) sats
        return (printed, readBack tools)) ↔ ∃ key, Reads tools peer key ∧ Cuts key := by
  rw [panics_bind, tunnelPay_panics, String.toList_ofList]
  constructor
  · rintro (⟨identity, cuts⟩ | ⟨_, -, panics⟩)
    · exact ⟨wg, .link parts identity, cuts⟩
    · exact absurd panics (panics_pure _)
  · rintro ⟨text, reads, cuts⟩
    cases reads with
    | link parts' identity =>
        rw [parts] at parts'
        cases parts'
        exact .inl ⟨identity, cuts⟩
    | card whole | resolved whole =>
        rw [parts] at whole
        cases whole

/-- **A payment panics exactly where a key is sliced inside a character.** -/
theorem payPeer_panics (tools : Tools) (peer : String) (sats : ℕ) :
    Panics (payPeer tools peer sats) ↔ Harms tools peer := by
  unfold payPeer Harms
  rw [panics_bind, run_ofExcept, or_iff_right (panics_ofExcept _)]
  -- What is left is to be read behind the ledger's path, which both sides ask for first.
  have path : ∀ {P : Unit → Prop}, (∃ a, some tools.ledgerPath = some (.ok a) ∧ P a) ↔
      tools.ledgerPath = .ok () ∧ P () :=
    ⟨fun ⟨_, found, holds⟩ => ⟨Option.some.inj found, holds⟩,
      fun ⟨found, holds⟩ => ⟨(), congrArg some found, holds⟩⟩
  rw [path]
  refine and_congr_right fun _ => ?_
  dsimp only
  cases code : isCode (Text.trim peer.toList) with
  | true =>
      refine iff_of_false ?_ fun harms => nomatch harms.1
      rw [if_pos rfl, panics_bind]
      rintro (panics | ⟨_, -, panics⟩)
      · exact panics_ofExcept _ panics
      · exact panics_pure _ panics
  | false =>
      rw [if_neg Bool.false_ne_true, and_iff_right rfl]
      cases parts : Text.splitOnce '@' (Text.trim peer.toList) with
      | none => exact payCard_panics (Text.trim_trim _) parts
      | some split => exact link_panics parts

/-! ## Where a payment prints -/

/-- A payment over the tunnel that succeeds prints, and no other does. -/
theorem tunnelPay_prints (tools : Tools) (addr wg : String) (sats : ℕ) (printed : List String) :
    (tunnelPay tools addr wg sats).run = some (.ok printed) ↔
      tools.identity = .ok () ∧ ∃ key, (parsePublicKey wg.toList).run = some (.ok key) ∧
        ∃ txid, tools.tunnel addr key sats = .ok txid ∧ printed = paidLines tools sats txid := by
  simp only [tunnelPay, run_bind_ok, run_ofExcept, Option.some.injEq]
  constructor
  · rintro ⟨_, identity, key, parsed, txid, paid, same⟩
    cases same
    exact ⟨identity, key, parsed, txid, paid, rfl⟩
  · rintro ⟨identity, key, parsed, txid, paid, rfl⟩
    exact ⟨(), identity, key, parsed, txid, paid, rfl⟩

theorem dial_prints (wg : String) (sats : ℕ) (eps : List String) (lastErr : Option Error) :
    (∃ printed, (dial tools wg sats eps lastErr).run = some (.ok printed) ∧ printed ≠ []) ↔
      tools.identity = .ok () ∧ ∃ key, (parsePublicKey wg.toList).run = some (.ok key) ∧
        ∃ addr ∈ eps, ∃ txid, tools.tunnel addr key sats = .ok txid := by
  induction eps generalizing lastErr with
  | nil =>
      refine iff_of_false ?_ ?_
      · rintro ⟨printed, ends, some_⟩
        cases lastErr <;> cases ends
        exact some_ rfl
      · rintro ⟨-, key, -, addr, member, -⟩
        exact List.not_mem_nil member
  | cons addr eps ih =>
      have one := tunnelPay_prints tools addr wg sats
      unfold dial
      cases paid : (tunnelPay tools addr wg sats).run with
      | none =>
          refine iff_of_false (fun ⟨_, ends, _⟩ => nomatch ends) ?_
          rintro ⟨identity, key, parsed, -⟩
          have halts := (tunnelPay_panics tools addr wg sats).1 paid
          rw [parsePublicKey, parseKey_panics.2 halts.2] at parsed
          cases parsed
      | some outcome =>
          cases outcome with
          | ok printed =>
              obtain ⟨identity, key, parsed, txid, through, rfl⟩ := (one printed).1 paid
              exact iff_of_true ⟨_, rfl, nofun⟩
                ⟨identity, key, parsed, addr, List.mem_cons_self .., txid, through⟩
          | error e =>
              refine (ih _).trans ⟨?_, ?_⟩
              · rintro ⟨identity, key, parsed, addr', member, through⟩
                exact ⟨identity, key, parsed, addr', List.mem_cons_of_mem _ member, through⟩
              · rintro ⟨identity, key, parsed, addr', member, txid, through⟩
                refine ⟨identity, key, parsed, addr', ?_, txid, through⟩
                refine (List.mem_cons.1 member).resolve_left ?_
                rintro rfl
                have printed := (one _).2 ⟨identity, key, parsed, txid, through, rfl⟩
                rw [paid] at printed
                cases printed

theorem payCard_prints {peer : List Char} {sats : ℕ} (trimmed : Text.trim peer = peer)
    (whole : Text.splitOnce '@' peer = none) :
    (∃ paid, (payCard tools peer sats).run = some (.ok paid) ∧ paid.1 ≠ []) ↔
      Tunnels tools peer sats := by
  unfold payCard
  simp only [run_bind_ok, run_ofExcept, Option.some.injEq]
  constructor
  · rintro ⟨paid, ⟨cardKey, parsed, _, -, found, resolved, ends⟩, printed⟩
    rcases found with _ | card
    · cases ends
    dsimp only at ends
    cases coded : card.sp with
    | some code =>
        rw [coded] at ends
        obtain ⟨txid, -, same⟩ := (run_bind_ok _ _).1 ends
        cases same
        exact absurd rfl printed
    | none =>
        rw [coded] at ends
        dsimp only at ends
        split at ends
        · cases ends
        obtain ⟨lines, dialed, same⟩ := (run_bind_ok _ _).1 ends
        cases same
        obtain ⟨identity, key, opened, addr, member, txid, through⟩ :=
          (dial_prints ..).1 ⟨lines, dialed, printed⟩
        exact .card whole parsed resolved coded identity opened member through
  · intro tunnels
    cases tunnels with
    | link parts =>
        rw [whole] at parts
        cases parts
    | @card cardKey key card addr txid _ parsed found coded identity opened dialed through =>
        obtain ⟨lines, ends, printed⟩ := (dial_prints card.wg sats card.ep none).2
          ⟨identity, key, opened, addr, dialed, txid, through⟩
        refine ⟨(lines, readBack tools),
          ⟨cardKey, parsed, _, sliceTo_parsed trimmed parsed, some card, found, ?_⟩, printed⟩
        have some_ : card.ep.isEmpty = false := by
          cases eps : card.ep with
          | nil =>
              rw [eps] at dialed
              cases dialed
          | cons => rfl
        dsimp only
        rw [coded]
        dsimp only
        rw [some_, if_neg Bool.false_ne_true, run_bind_ok]
        exact ⟨lines, ends, rfl⟩

theorem link_prints {peer wg addr : List Char} {sats : ℕ}
    (parts : Text.splitOnce '@' peer = some (wg, addr)) :
    (∃ paid, (do
        let printed ← tunnelPay tools (String.ofList addr) (String.ofList wg) sats
        return (printed, readBack tools) : Handler Paid).run = some (.ok paid) ∧ paid.1 ≠ []) ↔
      Tunnels tools peer sats := by
  simp only [run_bind_ok, tunnelPay_prints, String.toList_ofList]
  constructor
  · rintro ⟨paid, ⟨printed, ⟨identity, key, parsed, txid, through, -⟩, -⟩, -⟩
    exact .link parts identity parsed through
  · intro tunnels
    cases tunnels with
    | @link wg' addr' key txid parts' identity parsed through =>
        rw [parts] at parts'
        cases parts'
        exact ⟨(paidLines tools sats txid, readBack tools),
          ⟨_, ⟨identity, key, parsed, txid, through, rfl⟩, rfl⟩, nofun⟩
    | card whole =>
        rw [parts] at whole
        cases whole

/-- **A payment prints exactly where it goes over the tunnel and succeeds.** -/
theorem payPeer_prints (tools : Tools) (peer : String) (sats : ℕ) :
    (∃ paid, (payPeer tools peer sats).run = some (.ok paid) ∧ paid.1 ≠ []) ↔
      Prints tools peer sats := by
  unfold payPeer Prints
  simp only [run_bind_ok, run_ofExcept, Option.some.injEq]
  have path : ∀ {P : Paid → Prop}, (∃ paid, (∃ a : Unit, tools.ledgerPath = .ok a ∧ P paid) ∧
      paid.1 ≠ []) ↔ tools.ledgerPath = .ok () ∧ ∃ paid, P paid ∧ paid.1 ≠ [] :=
    ⟨fun ⟨paid, ⟨_, found, holds⟩, printed⟩ => ⟨found, paid, holds, printed⟩,
      fun ⟨found, paid, holds, printed⟩ => ⟨paid, ⟨(), found, holds⟩, printed⟩⟩
  rw [path]
  refine and_congr_right fun _ => ?_
  cases code : isCode (Text.trim peer.toList) with
  | true =>
      refine iff_of_false ?_ fun prints => nomatch prints.1
      rintro ⟨paid, ends, printed⟩
      rw [if_pos rfl, run_bind_ok] at ends
      obtain ⟨_, -, same⟩ := ends
      cases same
      exact printed rfl
  | false =>
      rw [if_neg Bool.false_ne_true, and_iff_right rfl]
      cases parts : Text.splitOnce '@' (Text.trim peer.toList) with
      | none => exact payCard_prints (Text.trim_trim _) parts
      | some split => exact link_prints parts

/-! ## Where a turn ends the server -/

theorem asks_iff {id : Value} {args : Option Value} {peer : String} {sats : ℕ} :
    Asks args peer sats ↔ payArgs id args = .ok (peer, sats) := by
  unfold Asks payArgs
  constructor
  · rintro ⟨members, rfl, named, amount, some_⟩
    dsimp only
    rw [named, amount]
    dsimp only
    rw [if_neg some_]
  · intro taken
    split at taken
    · cases taken
    · rename_i members
      split at taken
      · cases taken
      · cases taken
      · rename_i named amount
        split at taken
        · cases taken
        · rename_i some_
          cases taken
          exact ⟨members, rfl, named, amount, some_⟩

theorem names_iff {id : Value} {args : Option Value} {peer : String} :
    Names args peer ↔ ∃ sats, payArgs id args = .ok (peer, sats) :=
  exists_congr fun _ => asks_iff

theorem callPay_panics {id : Value} {args : Option Value} :
    callPay tools id args = none ↔ ∃ peer, Names args peer ∧ Harms tools peer := by
  unfold callPay
  cases taken : payArgs id args with
  | error frame =>
      refine iff_of_false nofun ?_
      rintro ⟨peer, named, -⟩
      obtain ⟨sats, same⟩ := names_iff.1 named
      rw [taken] at same
      cases same
  | ok payment =>
      obtain ⟨peer, sats⟩ := payment
      dsimp only
      rw [Option.map_eq_none_iff]
      refine (payPeer_panics tools peer sats).trans ⟨fun harms => ?_, ?_⟩
      · exact ⟨peer, names_iff.2 ⟨sats, taken⟩, harms⟩
      · rintro ⟨peer', named, harms⟩
        obtain ⟨sats', same⟩ := names_iff.1 named
        rw [taken] at same
        cases same
        exact harms

theorem callPay_prints (id : Value) (args : Option Value) :
    (∃ answer, callPay tools id args = some answer ∧ answer.1 ≠ []) ↔
      ∃ peer sats, Asks args peer sats ∧ Prints tools peer sats := by
  unfold callPay
  cases taken : payArgs id args with
  | error frame =>
      refine iff_of_false ?_ ?_
      · rintro ⟨answer, same, printed⟩
        cases same
        exact printed rfl
      · rintro ⟨peer, sats, asks, -⟩
        rw [asks_iff.1 asks] at taken
        cases taken
  | ok payment =>
      obtain ⟨peer, sats⟩ := payment
      dsimp only
      constructor
      · rintro ⟨answer, called, printed⟩
        obtain ⟨outcome, paid, rfl⟩ := Option.map_eq_some_iff.1 called
        rcases outcome with e | settled
        · exact absurd rfl printed
        · exact ⟨peer, sats, asks_iff.2 taken,
            (payPeer_prints tools peer sats).1 ⟨settled, paid, printed⟩⟩
      · rintro ⟨peer', sats', asks, prints⟩
        rw [asks_iff.1 asks] at taken
        cases taken
        obtain ⟨settled, paid, printed⟩ := (payPeer_prints tools peer sats).2 prints
        exact ⟨reportPaid id (.ok settled), Option.map_eq_some_iff.2 ⟨_, paid, rfl⟩, printed⟩

theorem unlock_ok {held : Bool} : unlock tools held = .ok () ↔ unlocked tools held = true := by
  unfold unlock unlocked
  cases held with
  | true => exact iff_of_true rfl rfl
  | false =>
      rw [if_neg Bool.false_ne_true, Bool.false_or]
      cases tools.loadWallet with
      | ok => exact iff_of_true rfl rfl
      | error e => exact iff_of_false nofun nofun

theorem callOnWallet_panics {id : Value} {args : Option Value} {name : String} :
    callOnWallet tools id args name = none ↔ name = "cm_pay" ∧ callPay tools id args = none := by
  unfold callOnWallet
  by_cases pay : name = "cm_pay"
  · subst pay
    rw [if_neg (by decide), if_pos rfl]
    exact (and_iff_right rfl).symm
  · refine iff_of_false ?_ fun panics => pay panics.1
    rw [if_neg pay]
    split_ifs <;> nofun

theorem callOnWallet_prints {id : Value} {args : Option Value} {name : String} :
    (∃ answer, callOnWallet tools id args name = some answer ∧ answer.1 ≠ []) ↔
      name = "cm_pay" ∧ ∃ answer, callPay tools id args = some answer ∧ answer.1 ≠ [] := by
  unfold callOnWallet
  by_cases pay : name = "cm_pay"
  · subst pay
    rw [if_neg (by decide), if_pos rfl]
    exact (and_iff_right rfl).symm
  · refine iff_of_false ?_ fun prints => pay prints.1
    rintro ⟨answer, called, printed⟩
    rw [if_neg pay] at called
    split_ifs at called
    all_goals
      cases called
      exact printed rfl

theorem walletTools_late : ∀ name ∈ walletTools,
    name ≠ "cm_setup" ∧ name ≠ "cm_serve" ∧ name ≠ "cm_paywall" := by
  decide

/-- A tool that needs the wallet is called once it is unlocked. -/
theorem toolsCall_wallet {held : Bool} {id : Value} {params : Option Value} {name : String}
    (named : (params.bind (·.get "name")).bind Value.asStr = some name)
    (needs : name ∈ walletTools) :
    toolsCall tools held id params = match unlock tools held with
      | .error e => some (([], toolErr id e), held)
      | .ok () => (callOnWallet tools id (params.bind (·.get "arguments")) name).map
          fun answer => (answer, true) := by
  obtain ⟨setup, serve, paywall⟩ := walletTools_late name needs
  unfold toolsCall
  dsimp only
  rw [named]
  dsimp only
  rw [if_neg setup, if_neg serve, if_neg paywall]
  exact if_pos needs

/-- Every other call answers with a frame alone, and leaves the wallet as it is. -/
theorem toolsCall_other (tools : Tools) (held : Bool) (id : Value) {params : Option Value}
    (other : ∀ name, (params.bind (·.get "name")).bind Value.asStr = some name →
      name ∉ walletTools) :
    ∃ frame, toolsCall tools held id params = some (([], frame), held) := by
  unfold toolsCall
  dsimp only
  cases named : (params.bind (·.get "name")).bind Value.asStr with
  | none => exact ⟨_, rfl⟩
  | some name =>
      dsimp only
      rw [if_neg (other name named)]
      split_ifs
      all_goals exact ⟨_, rfl⟩

theorem toolsCall_panics {held : Bool} {id : Value} {params : Option Value} :
    toolsCall tools held id params = none ↔
      (params.bind (·.get "name")).bind Value.asStr = some "cm_pay" ∧
        unlocked tools held = true ∧
        ∃ peer, Names (params.bind (·.get "arguments")) peer ∧ Harms tools peer := by
  by_cases needs : ∃ name, (params.bind (·.get "name")).bind Value.asStr = some name ∧
      name ∈ walletTools
  · obtain ⟨name, named, member⟩ := needs
    rw [toolsCall_wallet named member, ← callPay_panics, ← unlock_ok, named, Option.some.injEq]
    cases unlock tools held with
    | error e => exact iff_of_false nofun fun called => nomatch called.2.1
    | ok =>
        dsimp only
        rw [Option.map_eq_none_iff, callOnWallet_panics, and_iff_right rfl]
  · obtain ⟨frame, answered⟩ := toolsCall_other tools held id
      fun name named member => needs ⟨name, named, member⟩
    rw [answered]
    exact iff_of_false nofun fun called => needs ⟨_, called.1, by decide⟩

theorem toolsCall_prints {held : Bool} {id : Value} {params : Option Value} :
    (∃ answer after, toolsCall tools held id params = some (answer, after) ∧ answer.1 ≠ []) ↔
      (params.bind (·.get "name")).bind Value.asStr = some "cm_pay" ∧
        unlocked tools held = true ∧
        ∃ peer sats, Asks (params.bind (·.get "arguments")) peer sats ∧
          Prints tools peer sats := by
  by_cases needs : ∃ name, (params.bind (·.get "name")).bind Value.asStr = some name ∧
      name ∈ walletTools
  · obtain ⟨name, named, member⟩ := needs
    rw [toolsCall_wallet named member, ← callPay_prints id, ← unlock_ok, named,
      Option.some.injEq]
    cases unlock tools held with
    | error e =>
        refine iff_of_false ?_ fun called => nomatch called.2.1
        rintro ⟨answer, after, same, printed⟩
        cases same
        exact printed rfl
    | ok =>
        rw [and_iff_right rfl, ← callOnWallet_prints]
        constructor
        · rintro ⟨answer, after, called, printed⟩
          obtain ⟨_, onWallet, same⟩ := Option.map_eq_some_iff.1 called
          cases same
          exact ⟨answer, onWallet, printed⟩
        · rintro ⟨answer, onWallet, printed⟩
          exact ⟨answer, true, Option.map_eq_some_iff.2 ⟨answer, onWallet, rfl⟩, printed⟩
  · obtain ⟨frame, answered⟩ := toolsCall_other tools held id
      fun name named member => needs ⟨name, named, member⟩
    rw [answered]
    refine iff_of_false ?_ fun called => needs ⟨_, called.1, by decide⟩
    rintro ⟨answer, after, same, printed⟩
    cases same
    exact printed rfl

theorem toolsCall_held {held after : Bool} {id : Value} {answer : Answer} {params : Option Value}
    (called : toolsCall tools held id params = some (answer, after)) :
    after = (held || match (params.bind (·.get "name")).bind Value.asStr with
      | some name => decide (name ∈ walletTools) && unlocked tools held
      | none => false) := by
  cases named : (params.bind (·.get "name")).bind Value.asStr with
  | none =>
      obtain ⟨_, answered⟩ := toolsCall_other tools held id (fun name is => by
        rw [named] at is
        cases is)
      rw [answered] at called
      cases called
      exact (Bool.or_false _).symm
  | some name =>
      by_cases needs : name ∈ walletTools
      · rw [toolsCall_wallet named needs] at called
        dsimp only
        rw [decide_eq_true needs, Bool.true_and]
        cases opened : unlock tools held with
        | error e =>
            have locked : unlocked tools held = false := by
              rw [Bool.eq_false_iff, Ne, ← unlock_ok, opened]
              nofun
            rw [opened] at called
            cases called
            rw [locked, Bool.or_false]
        | ok =>
            rw [opened] at called
            obtain ⟨_, -, same⟩ := Option.map_eq_some_iff.1 called
            cases same
            rw [unlock_ok.1 opened, Bool.or_true]
      · obtain ⟨_, answered⟩ := toolsCall_other tools held id (fun name' is => by
          rw [named] at is
          cases is
          exact needs)
        rw [answered] at called
        cases called
        dsimp only
        rw [decide_eq_false needs, Bool.false_and, Bool.or_false]

theorem dispatch_call {held : Bool} {id msg : Value} (call : methodOf msg = "tools/call") :
    dispatch server tools held id msg = toolsCall tools held id (msg.get "params") := by
  unfold dispatch
  dsimp only
  rw [call, if_neg (by decide), if_neg (by decide), if_neg (by decide), if_pos rfl]

theorem dispatch_other (held : Bool) (id : Value) {msg : Value}
    (other : methodOf msg ≠ "tools/call") :
    ∃ frame, dispatch server tools held id msg = some (([], frame), held) := by
  unfold dispatch
  dsimp only
  rw [if_neg other]
  split_ifs
  all_goals exact ⟨_, rfl⟩

theorem toolCall?_some {msg : Value} (request : request? server chunk = some msg)
    {name : String} {args : Option Value} :
    toolCall? server chunk = some (name, args) ↔ methodOf msg = "tools/call" ∧
      ((msg.get "params").bind (·.get "name")).bind Value.asStr = some name ∧
      (msg.get "params").bind (·.get "arguments") = args := by
  rw [toolCall?, request, Option.bind_some]
  split
  · rename_i call
    rw [and_iff_right call, Option.map_eq_some_iff]
    constructor
    · rintro ⟨_, named, ⟨⟩⟩
      exact ⟨named, rfl⟩
    · rintro ⟨named, rfl⟩
      exact ⟨name, named, rfl⟩
  · rename_i other
    exact iff_of_false nofun fun called => other called.1

theorem dispatch_panics {msg id : Value} (request : request? server chunk = some msg) :
    dispatch server (server.tools s.1) s.2 id msg = none ↔ Cutting server s chunk := by
  unfold Cutting
  by_cases call : methodOf msg = "tools/call"
  · rw [dispatch_call call, toolsCall_panics]
    constructor
    · rintro ⟨pay, opened, peer, named, harms⟩
      exact ⟨_, peer, (toolCall?_some request).2 ⟨call, pay, rfl⟩, opened, named, harms⟩
    · rintro ⟨args, peer, called, opened, named, harms⟩
      obtain ⟨-, pay, rfl⟩ := (toolCall?_some request).1 called
      exact ⟨pay, opened, peer, named, harms⟩
  · obtain ⟨frame, answered⟩ := dispatch_other s.2 id call
    rw [answered]
    refine iff_of_false nofun ?_
    rintro ⟨args, peer, called, -⟩
    exact call ((toolCall?_some request).1 called).1

theorem dispatch_prints (id : Value) {msg : Value} (request : request? server chunk = some msg) :
    (∃ answer after, dispatch server (server.tools s.1) s.2 id msg = some (answer, after) ∧
      answer.1 ≠ []) ↔ Printing server s chunk := by
  unfold Printing
  by_cases call : methodOf msg = "tools/call"
  · rw [dispatch_call call, toolsCall_prints]
    constructor
    · rintro ⟨pay, opened, peer, sats, asks, prints⟩
      exact ⟨_, peer, sats, (toolCall?_some request).2 ⟨call, pay, rfl⟩, opened, asks, prints⟩
    · rintro ⟨args, peer, sats, called, opened, asks, prints⟩
      obtain ⟨-, pay, rfl⟩ := (toolCall?_some request).1 called
      exact ⟨pay, opened, peer, sats, asks, prints⟩
  · obtain ⟨frame, answered⟩ := dispatch_other s.2 id call
    rw [answered]
    refine iff_of_false ?_ ?_
    · rintro ⟨answer, after, same, printed⟩
      cases same
      exact printed rfl
    · rintro ⟨args, peer, sats, called, -⟩
      exact call ((toolCall?_some request).1 called).1

theorem dispatch_held {msg id : Value} {answer : Answer} {after : Bool}
    (request : request? server chunk = some msg)
    (dispatched : dispatch server (server.tools s.1) s.2 id msg = some (answer, after)) :
    after = heldAfter server s chunk := by
  unfold heldAfter
  by_cases call : methodOf msg = "tools/call"
  · rw [dispatch_call call] at dispatched
    rw [toolsCall_held dispatched, toolCall?, request, Option.bind_some, if_pos call]
    cases ((msg.get "params").bind (·.get "name")).bind Value.asStr with
    | none => rfl
    | some name => rfl
  · obtain ⟨_, answered⟩ := dispatch_other s.2 id call
    rw [answered] at dispatched
    cases dispatched
    rw [toolCall?, request, Option.bind_some, if_neg call, Bool.or_false]

/-- A line that is no request is passed over, or refused. -/
theorem turn_idle (s : State) {line : List Char} (read : Lines.text? chunk = some line)
    (none_ : request? server chunk = none) :
    ∃ output, turn server s chunk = .goes output (s.1 + 1, s.2) ∧
      (∀ o ∈ output, IsFrame o) ∧ Replies answers (due server chunk) output := by
  rw [request?, read, Option.bind_some] at none_
  unfold turn due
  rw [read]
  dsimp only
  split_ifs at none_ ⊢
  · exact ⟨_, rfl, nofun, trivial⟩
  · cases parsed : server.parse (Text.trim line) with
    | none => exact ⟨_, rfl, List.forall_mem_singleton.2 trivial, rfl, rfl⟩
    | some msg =>
        rw [parsed, Option.filter_some] at none_
        dsimp only
        cases named : msg.get "id" with
        | none => exact ⟨_, rfl, nofun, trivial⟩
        | some id =>
            rw [named] at none_
            cases none_

/-- A request is dispatched under its id. -/
theorem turn_request (s : State) {msg : Value} (request : request? server chunk = some msg) :
    ∃ id, msg.get "id" = some id ∧ due server chunk = some (.reply id) ∧
      turn server s chunk = match dispatch server (server.tools s.1) s.2 id msg with
        | none => .ends .panicked
        | some (answer, held) => .goes (Answer.outputs answer) (s.1 + 1, held) := by
  obtain ⟨line, read, request⟩ := Option.bind_eq_some_iff.1 request
  split_ifs at request with blank
  obtain ⟨parsed, carries⟩ := Option.filter_eq_some_iff.1 request
  obtain ⟨id, named⟩ := Option.isSome_iff_exists.1 carries
  refine ⟨id, named, ?_, ?_⟩
  · simp [due, read, blank, parsed, named]
  · cases dispatched : dispatch server (server.tools s.1) s.2 id msg with
    | none => simp [turn, read, blank, parsed, named, dispatched]
    | some outcome => simp [turn, read, blank, parsed, named, dispatched]

/-- An answer is a frame alone, or has lines before it. -/
theorem outputs_frames (answer : Answer) :
    (∀ o ∈ Answer.outputs answer, IsFrame o) ↔ answer.1 = [] := by
  obtain ⟨printed, frame⟩ := answer
  cases printed with
  | nil => exact iff_of_true (List.forall_mem_singleton.2 trivial) rfl
  | cons text printed =>
      refine iff_of_false (fun frames => ?_) nofun
      exact frames (.line text) (List.mem_cons_self ..)

theorem turn_goes (calm : Calm server s chunk) :
    ∃ output, turn server s chunk = .goes output (s.1 + 1, heldAfter server s chunk) ∧
      ∀ o ∈ output, IsFrame o := by
  obtain ⟨line, read⟩ := Option.isSome_iff_exists.1 calm.text
  cases request : request? server chunk with
  | none =>
      have idle : heldAfter server s chunk = s.2 := by
        rw [heldAfter, toolCall?, request, Option.bind_none, Bool.or_false]
      obtain ⟨output, goes, frames, -⟩ := turn_idle s read request
      rw [idle]
      exact ⟨output, goes, frames⟩
  | some msg =>
      obtain ⟨id, -, -, is⟩ := turn_request s request
      cases dispatched : dispatch server (server.tools s.1) s.2 id msg with
      | none => exact absurd ((dispatch_panics request).1 dispatched) calm.uncut
      | some outcome =>
          obtain ⟨answer, after⟩ := outcome
          have silent : answer.1 = [] := by_contra fun printed =>
            calm.silent ((dispatch_prints id request).1 ⟨answer, after, dispatched, printed⟩)
          rw [is, dispatched, ← dispatch_held request dispatched]
          exact ⟨_, rfl, (outputs_frames answer).2 silent⟩

/-- A line that is not calm ends the server, or has more written than frames. -/
theorem turn_harmed (harm : ¬ Calm server s chunk) {output : List Output} {next : State}
    (goes : turn server s chunk = .goes output next) : ¬ ∀ o ∈ output, IsFrame o := by
  cases read : Lines.text? chunk with
  | none =>
      rw [turn, read] at goes
      cases goes
  | some line =>
      cases request : request? server chunk with
      | none =>
          have uncalled : toolCall? server chunk = none := by rw [toolCall?, request]; rfl
          refine absurd ⟨by rw [read]; rfl, ?_, ?_⟩ harm
          · rintro ⟨args, peer, called, -⟩
            cases uncalled.symm.trans called
          · rintro ⟨args, peer, sats, called, -⟩
            cases uncalled.symm.trans called
      | some msg =>
          obtain ⟨id, -, -, is⟩ := turn_request s request
          cases dispatched : dispatch server (server.tools s.1) s.2 id msg with
          | none =>
              rw [is, dispatched] at goes
              cases goes
          | some outcome =>
              obtain ⟨answer, after⟩ := outcome
              rw [is, dispatched] at goes
              cases goes
              rw [outputs_frames]
              intro silent
              refine harm ⟨by rw [read]; rfl, fun cutting => ?_, fun printing => ?_⟩
              · rw [(dispatch_panics request).2 cutting] at dispatched
                cases dispatched
              · obtain ⟨answer', after', dispatched', printed⟩ :=
                  (dispatch_prints id request).2 printing
                cases dispatched.symm.trans dispatched'
                exact printed silent

/-- **The server takes every line, and writes frames alone, exactly when every line is
calm.** -/
theorem through_iff (chunks : List (List UInt8)) :
    (Through (turn server) s chunks ∧ ∀ o ∈ (converse (turn server) s chunks).1, IsFrame o) ↔
      Harmless server s chunks := by
  induction chunks generalizing s with
  | nil => exact iff_of_true ⟨trivial, nofun⟩ trivial
  | cons chunk chunks ih =>
      unfold Through Harmless converse
      by_cases calm : Calm server s chunk
      · obtain ⟨output, goes, frames⟩ := turn_goes calm
        rw [← ih, goes]
        constructor
        · rintro ⟨⟨_, _, ⟨⟩, rest⟩, only⟩
          exact ⟨calm, rest, (List.forall_mem_append.1 only).2⟩
        · rintro ⟨-, rest, only⟩
          exact ⟨⟨_, _, rfl, rest⟩, List.forall_mem_append.2 ⟨frames, only⟩⟩
      · refine iff_of_false ?_ fun rest => calm rest.1
        rintro ⟨⟨output, next, goes, -⟩, only⟩
        rw [goes] at only
        exact turn_harmed calm goes (List.forall_mem_append.1 only).1

/-- **A turn that writes frames alone writes what is owed.** -/
theorem turn_replies (s : State) (chunk : List UInt8) (output : List Output) (next : State)
    (goes : turn server s chunk = .goes output next) (frames : ∀ o ∈ output, IsFrame o) :
    Replies answers (due server chunk) output := by
  cases request : request? server chunk with
  | some msg =>
      obtain ⟨id, -, owed, is⟩ := turn_request s request
      rw [owed]
      cases dispatched : dispatch server (server.tools s.1) s.2 id msg with
      | none =>
          rw [is, dispatched] at goes
          cases goes
      | some outcome =>
          obtain ⟨⟨printed, frame⟩, after⟩ := outcome
          rw [is, dispatched] at goes
          cases goes
          obtain rfl : printed = [] := (outputs_frames _).1 frames
          exact dispatch_id dispatched
  | none =>
      cases read : Lines.text? chunk with
      | none =>
          rw [turn, read] at goes
          cases goes
      | some line =>
          obtain ⟨_, is, -, owed⟩ := turn_idle s read request
          rw [is] at goes
          cases goes
          exact owed

/-- What answers something is a frame. -/
theorem frames_of_answers {dues : List Due} {output : List Output}
    (answered : List.Forall₂ answers dues output) : ∀ o ∈ output, IsFrame o := by
  induction answered with
  | nil => exact nofun
  | @cons owed o _ _ one _ ih =>
      refine List.forall_mem_cons.2 ⟨?_, ih⟩
      cases o with
      | frame => trivial
      | line => cases owed <;> exact one

end McpSession

open McpSession

/-- **The server answers what is owed, and writes nothing else, exactly when every line is
calm.** -/
theorem replies_correspond (server : Server) (held : Bool) (stdin : List UInt8) :
    Corresponds server held stdin ↔ Harmless server (0, held) (Lines.chunks stdin) := by
  unfold Corresponds run
  rw [← through_iff, ← converse_through]
  constructor
  · rintro ⟨taken, answered⟩
    exact ⟨taken, frames_of_answers answered⟩
  · rintro ⟨taken, frames⟩
    exact ⟨taken, converse_replies turn_replies ((converse_through _).1 taken) frames⟩

namespace McpSession

/-- A host where everything works; `paid` is what comes of a payment over the tunnel. -/
def sampleTools (paid : Except Error String) : Tools where
  loadWallet := .ok ()
  setup := .ok "ready"
  serve := fun _ _ => .ok "serving"
  paywall := fun _ _ _ => .ok "selling"
  send := fun _ _ => .ok "sent"
  fetch := fun _ _ => .ok "fetched"
  confs := fun _ => .ok "confirmed"
  collections := .ok "none"
  cardId := .ok "card"
  address := .ok "address"
  balance := .ok "0 sats"
  ledgerPath := .ok ()
  spPay := fun _ _ => .ok "paid"
  identity := .ok ()
  tunnel := fun _ _ _ => paid
  resolve := fun _ => .ok none
  newestSent := .ok paid.toOption
  explorerTxUrl := id

/-- 64 bytes: a zero, 31 letters of two bytes each, a zero. -/
def widePeer : String := String.ofList ('0' :: List.replicate 31 'é' ++ ['0'])

/-- A call of `cm_pay` with this peer, as text and as parsed. -/
def payText (peer : String) : List Char :=
  ("\x7b\"id\":1,\"method\":\"tools/call\",\"params\":\x7b\"name\":\"cm_pay\"," ++
    "\"arguments\":\x7b\"peer\":\"" ++ peer ++ "\",\"sats\":1\x7d\x7d\x7d").toList

def payMessage (peer : String) : Value :=
  .object [("id", .number (.posInt 1)), ("method", .string "tools/call"),
    ("params", .object [("name", .string "cm_pay"),
      ("arguments", .object [("peer", .string peer), ("sats", .number (.posInt 1))])])]

/-- A server that can read one line, which pays this peer. -/
def sampleServer (peer : String) (paid : Except Error String) : Server where
  parse := fun text => if text = payText peer then some (payMessage peer) else none
  version := "0"
  instructions := ""
  toolsList := .object []
  tools := fun _ => sampleTools paid

/-- A link: a key of 64 zeros and an address. -/
def linkPeer : String := String.ofList (List.replicate 64 '0') ++ "@127.0.0.1:51820"

end McpSession

/-- A stray byte ends the server, and so does a peer of wide letters; and a payment over the
tunnel that succeeds has three lines on stdout before its frame. -/
theorem lines_end_server :
    ¬ Corresponds (sampleServer widePeer (.error "offline")) true [0xff, 0x0a] ∧
      ¬ Corresponds (sampleServer widePeer (.error "offline")) true
        (Lines.bytes (payText widePeer ++ ['\n'])) ∧
      ¬ Corresponds (sampleServer linkPeer (.ok "4a5e")) true
        (Lines.bytes (payText linkPeer ++ ['\n'])) := by
  have stray : (run (sampleServer widePeer (.error "offline")) true [0xff, 0x0a]).2 =
      some .notUtf8 := by
    decide +kernel
  have wide : (run (sampleServer widePeer (.error "offline")) true
      (Lines.bytes (payText widePeer ++ ['\n']))).2 = some .panicked := by
    decide +kernel
  have written : (run (sampleServer linkPeer (.ok "4a5e")) true
      (Lines.bytes (payText linkPeer ++ ['\n']))).1.length = 4 := by
    decide +kernel
  have owed : ((Lines.chunks (Lines.bytes (payText linkPeer ++ ['\n']))).filterMap
      (due (sampleServer linkPeer (.ok "4a5e")))).length = 1 := by
    decide +kernel
  refine ⟨fun taken => ?_, fun taken => ?_, fun taken => ?_⟩
  · cases stray.symm.trans taken.1
  · cases wide.symm.trans taken.1
  · have same := taken.2.length_eq
    rw [written, owed] at same
    cases same

end ComputerMoney.Safety

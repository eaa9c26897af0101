/-
# Kernel.Mcp -- the stdio server

One line in, one frame out at most.  A line is read as bytes up to its newline; a line that
is not UTF-8 ends the server with the error of the read.  A line that does not parse gets the
parse error under a null id; a message without an `id` gets nothing; every other message is
dispatched, and its frame carries its id.

What the tools do is the host's: `Tools` holds the outcomes at one request.  `cm_pay` is
followed further, to where it slices a key text at byte offsets.  A slice that cuts a
character panics, and a panic in the server's thread is the end of the server: a handler that
panics has no result (`none`).

The frames are not all there is on stdout: a payment over the tunnel ends in three lines that
`run_payer` prints there (`Output.line`), before the frame of its call.

The JSON crate is a parameter.  The schemas of the tools, the version and the instructions
are constants of the server that no handler reads.
-/
import ComputerMoney.Kernel.Host
import ComputerMoney.Theory.Hex
import ComputerMoney.Theory.Lines
import ComputerMoney.Theory.Session

namespace ComputerMoney.Kernel.Mcp

set_option autoImplicit false

open Theory

/-! ## Values and frames -/

inductive Number where
  | posInt (n : UInt64)
  | negInt (n : ℕ)
  | float (text : String)
  deriving DecidableEq, Repr

/-- `serde_json::Value`. -/
inductive Value where
  | null
  | bool (b : Bool)
  | number (n : Number)
  | string (s : String)
  | array (items : List Value)
  | object (members : List (String × Value))

namespace Value

def get (v : Value) (name : String) : Option Value :=
  match v with
  | .object members => members.lookup name
  | _ => none

def asStr : Value → Option String
  | .string s => some s
  | _ => none

def asU64 : Value → Option ℕ
  | .number (.posInt n) => some n.toNat
  | _ => none

end Value

def methodOf (msg : Value) : String := ((msg.get "method").bind Value.asStr).getD "(none)"

def resultFrame (id result : Value) : Value :=
  .object [("jsonrpc", .string "2.0"), ("id", id), ("result", result)]

/-- The code is the absolute value of a negative one. -/
def errorFrame (id : Value) (code : ℕ) (message : String) : Value :=
  .object [("jsonrpc", .string "2.0"), ("id", id),
    ("error", .object [("code", .number (.negInt code)), ("message", .string message)])]

def toolFrame (id : Value) (isError : Bool) (text : String) : Value :=
  resultFrame id (.object [
    ("content", .array [.object [("type", .string "text"), ("text", .string text)]]),
    ("isError", .bool isError)])

def toolOk (id : Value) (text : String) : Value := toolFrame id false text

def toolErr (id : Value) (text : String) : Value := toolFrame id true text

/-- `Ok(text) => tool_ok, Err(e) => tool_err`. -/
def report (id : Value) : Except Error String → Value
  | .ok text => toolOk id text
  | .error e => toolErr id e

/-! ## Keys -/

/-- A handler ends in a value or an error, or it panics and has no result. -/
abbrev Handler := ExceptT Error Option

def Handler.panic {α : Type} : Handler α := ExceptT.mk none

def Handler.ofExcept {α : Type} (outcome : Except Error α) : Handler α := ExceptT.mk (some outcome)

/-- `u8::from_str_radix(.., 16)` of two bytes that are two characters; a plus sign may lead. -/
def radixPair (c d : Char) : Option UInt8 :=
  if c = '+' then (Hex.digitValue? d).map UInt8.ofNat
  else (Hex.digitValue? c).bind fun high => (Hex.digitValue? d).map fun low =>
    UInt8.ofNat (16 * high + low)

/-- Bytes from slices of two bytes each: one that ends inside a character panics, one that is
no two hex digits is refused. -/
def hexPairs (refusal : Error) : List Char → Handler (List UInt8)
  | [] => pure []
  | c :: rest =>
      if c.utf8Size = 1 then
        match rest with
        | [] => .panic
        | d :: rest' =>
            if d.utf8Size = 1 then
              match radixPair c d with
              | some byte => do
                  let bytes ← hexPairs refusal rest'
                  return byte :: bytes
              | none => throw refusal
            else .panic
      else if c.utf8Size = 2 then throw refusal
      else .panic

/-- 64 bytes of text to 32 bytes. -/
def parseKey (short refusal : Error) (text : List Char) : Handler (List UInt8) :=
  let hex := Text.trim text
  if Text.byteLength hex ≠ 64 then throw short else hexPairs refusal hex

/-- `discover::parse_card_key`. -/
def parseCardKey (text : List Char) : Handler (List UInt8) :=
  parseKey "card key must be 64 hex chars" "card key is not valid hex" text

/-- `tunnel::parse_public_key`. -/
def parsePublicKey (text : List Char) : Handler (List UInt8) :=
  parseKey "WireGuard public key must be 64 hex chars (32 bytes)" "public key is not valid hex" text

/-- `chain::decode_hex32`: the same loop, without trimming; the refusal is the integer parser's
own. -/
def decodeHex32 (text : List Char) : Handler (List UInt8) :=
  if Text.byteLength text ≠ 64 then
    throw ("tweak must be 64 hex chars, got " ++ toString (Text.byteLength text))
  else hexPairs "invalid digit found in string" text

/-- `&text[..n]`. -/
def sliceTo : ℕ → List Char → Handler (List Char)
  | 0, _ => pure []
  | _ + 1, [] => .panic
  | n + 1, c :: rest =>
      if c.utf8Size ≤ n + 1 then do
        let front ← sliceTo (n + 1 - c.utf8Size) rest
        return c :: front
      else .panic
  termination_by _ text => text.length

/-! ## Tools -/

/-- A resolved card. -/
structure PeerCard where
  wg : String
  ep : List String
  sp : Option String

/-- What the host answers while one request is served. -/
structure Tools where
  loadWallet : Except Error Unit
  setup : Except Error String
  serve : String → Option String → Except Error String
  paywall : ℕ → String → ℕ → Except Error String
  send : String → ℕ → Except Error String
  fetch : String → ℕ → Except Error String
  confs : String → Except Error String
  collections : Except Error String
  cardId : Except Error String
  address : Except Error String
  balance : Except Error String
  ledgerPath : Except Error Unit
  /-- `sp_pay`, to the txid. -/
  spPay : String → ℕ → Except Error String
  identity : Except Error Unit
  /-- What `tunnel::pay` does once the peer's key is read, to the txid. -/
  tunnel : String → List UInt8 → ℕ → Except Error String
  resolve : List UInt8 → Except Error (Option PeerCard)
  /-- The newest `Sent` of the ledger, opened again. -/
  newestSent : Except Error (Option String)
  explorerTxUrl : String → String

/-- The last lines of `run_payer`, printed to stdout. -/
def paidLines (tools : Tools) (sats : ℕ) (txid : String) : List String :=
  ["paid " ++ toString sats ++ " sats. watch it reach final (3 conf):", "  cm confs " ++ txid,
    "  " ++ tools.explorerTxUrl txid]

/-- `tunnel::pay`, to the lines it has printed when it returns; one that fails printed none. -/
def tunnelPay (tools : Tools) (addr wg : String) (sats : ℕ) : Handler (List String) := do
  Handler.ofExcept tools.identity
  let key ← parsePublicKey wg.toList
  let txid ← Handler.ofExcept (tools.tunnel addr key sats)
  return paidLines tools sats txid

/-- Each endpoint in order until one succeeds; the last error if none does. -/
def dial (tools : Tools) (wg : String) (sats : ℕ) :
    List String → Option Error → Handler (List String)
  | [], none => pure []
  | [], some lastErr => throw lastErr
  | addr :: eps, _ =>
      match (tunnelPay tools addr wg sats).run with
      | none => .panic
      | some (.ok printed) => pure printed
      | some (.error e) => dial tools wg sats eps (some e)

def paidText (tools : Tools) (txid : String) : String :=
  "txid: " ++ txid ++ "\n" ++ tools.explorerTxUrl txid

/-- The settled txid, read back from the ledger. -/
def readBack (tools : Tools) : Except Error String := do
  match ← tools.newestSent with
  | some txid => return paidText tools txid
  | none => throw "payment sent but no Sent entry found in the ledger"

/-- A payment that got as far as this: the lines it has printed, and how it ends. -/
abbrev Paid := List String × Except Error String

def isCode (peer : List Char) : Bool :=
  Text.startsWith peer "sp1".toList || Text.startsWith peer "tsp1".toList

/-- The card arm of `pay_peer`. -/
def payCard (tools : Tools) (peer : List Char) (sats : ℕ) : Handler Paid := do
  let key ← parseCardKey peer
  let _ ← sliceTo 8 peer
  match ← Handler.ofExcept (tools.resolve key) with
  | none => throw "no card on the DHT for that key"
  | some card =>
      match card.sp with
      | some code => do
          let txid ← Handler.ofExcept (tools.spPay code sats)
          return ([], .ok (paidText tools txid))
      | none =>
          if card.ep.isEmpty then
            throw "peer published no endpoint (not accepting inbound sessions)"
          else do
            let printed ← dial tools card.wg sats card.ep none
            return (printed, readBack tools)

/-- `mcp::pay_peer`. -/
def payPeer (tools : Tools) (peer : String) (sats : ℕ) : Handler Paid := do
  Handler.ofExcept tools.ledgerPath
  let peer := Text.trim peer.toList
  if isCode peer then do
    let txid ← Handler.ofExcept (tools.spPay (String.ofList peer) sats)
    return ([], .ok (paidText tools txid))
  else
    match Text.splitOnce '@' peer with
    | some (wg, addr) => do
        let printed ← tunnelPay tools (String.ofList addr) (String.ofList wg) sats
        return (printed, readBack tools)
    | none => payCard tools peer sats

/-! ## Calls -/

/-- A frame, and the lines printed before it. -/
abbrev Answer := List String × Value

def callServe (tools : Tools) (id : Value) (args : Option Value) : Value :=
  let bind := ((args.bind (·.get "bind")).bind Value.asStr).getD "0.0.0.0:51820"
  report id (tools.serve bind ((args.bind (·.get "ep")).bind Value.asStr))

def defaultPaywallBody : String :=
  "cm paywall: payment received. (Pass body to sell your own content.)\n"

def callPaywall (tools : Tools) (id : Value) (args : Option Value) : Value :=
  match (args.bind (·.get "price_sats")).bind Value.asU64 with
  | some price =>
      if price ≥ 1 then
        let body := ((args.bind (·.get "body")).bind Value.asStr).getD defaultPaywallBody
        let port := ((args.bind (·.get "port")).bind Value.asU64).getD 8402 % 2 ^ 16
        report id (tools.paywall price body port)
      else errorFrame id 32602 "cm_paywall: 'price_sats' must be a positive integer"
  | none => errorFrame id 32602 "cm_paywall: 'price_sats' must be a positive integer"

def defaultMaxSats : ℕ := 10000

def callFetch (tools : Tools) (id : Value) : Option Value → Value
  | none => errorFrame id 32602 "cm_fetch requires arguments \x7b url, max_sats? \x7d"
  | some args =>
      match (args.get "url").bind Value.asStr with
      | none => errorFrame id 32602 "cm_fetch: 'url' must be a string"
      | some url =>
          let maxSats := ((args.get "max_sats").bind Value.asU64).getD defaultMaxSats
          report id (tools.fetch url maxSats)

def callSend (tools : Tools) (id : Value) : Option Value → Value
  | none => errorFrame id 32602 "cm_send requires arguments \x7b address, sats \x7d"
  | some args =>
      match (args.get "address").bind Value.asStr, (args.get "sats").bind Value.asU64 with
      | none, _ => errorFrame id 32602 "cm_send: 'address' must be a string"
      | some _, none => errorFrame id 32602 "cm_send: 'sats' must be a positive integer"
      | some address, some sats =>
          if sats = 0 then errorFrame id 32602 "cm_send: 'sats' must be >= 1"
          else report id (tools.send address sats)

def callConfs (tools : Tools) (id : Value) : Option Value → Value
  | none => errorFrame id 32602 "cm_confs requires arguments \x7b txid \x7d"
  | some args =>
      match (args.get "txid").bind Value.asStr with
      | none => errorFrame id 32602 "cm_confs: 'txid' must be a string"
      | some txid => report id (tools.confs txid)

/-- The peer and the amount of a `cm_pay`, or the error frame. -/
def payArgs (id : Value) : Option Value → Except Value (String × ℕ)
  | none => .error (errorFrame id 32602 "cm_pay requires arguments \x7b peer, sats \x7d")
  | some args =>
      match (args.get "peer").bind Value.asStr, (args.get "sats").bind Value.asU64 with
      | none, _ => .error (errorFrame id 32602
          "cm_pay: 'peer' must be a string (a 64-hex card key, or wg-pubkey@host:port)")
      | some _, none => .error (errorFrame id 32602 "cm_pay: 'sats' must be a positive integer")
      | some peer, some sats =>
          if sats = 0 then .error (errorFrame id 32602 "cm_pay: 'sats' must be >= 1")
          else .ok (peer, sats)

/-- `Ok(text) => tool_ok, Err(e) => tool_err` of a payment. -/
def reportPaid (id : Value) : Except Error Paid → Answer
  | .ok (printed, outcome) => (printed, report id outcome)
  | .error e => ([], toolErr id e)

def callPay (tools : Tools) (id : Value) (args : Option Value) : Option Answer :=
  match payArgs id args with
  | .error frame => some ([], frame)
  | .ok (peer, sats) => (payPeer tools peer sats).run.map (reportPaid id)

/-- The tools that run on the unlocked wallet. -/
def walletTools : List String :=
  ["cm_send", "cm_pay", "cm_fetch", "cm_balance", "cm_confs", "cm_collections", "cm_id",
    "cm_address"]

/-- A call on the unlocked wallet. -/
def callOnWallet (tools : Tools) (id : Value) (args : Option Value) (name : String) :
    Option Answer :=
  if name = "cm_send" then some ([], callSend tools id args)
  else if name = "cm_pay" then callPay tools id args
  else if name = "cm_fetch" then some ([], callFetch tools id args)
  else if name = "cm_confs" then some ([], callConfs tools id args)
  else if name = "cm_collections" then some ([], report id tools.collections)
  else if name = "cm_id" then some ([], report id tools.cardId)
  else if name = "cm_address" then some ([], report id tools.address)
  else some ([], report id tools.balance)

/-- The unlock, retried if the wallet is not held. -/
def unlock (tools : Tools) (held : Bool) : Except Error Unit :=
  if held then .ok () else tools.loadWallet

/-- `tools_call`: the answer, and whether the wallet is held after it; nothing if it
panics. -/
def toolsCall (tools : Tools) (held : Bool) (id : Value) (params : Option Value) :
    Option (Answer × Bool) :=
  let args := params.bind (·.get "arguments")
  match (params.bind (·.get "name")).bind Value.asStr with
  | none => some (([], errorFrame id 32602 "missing tool name"), held)
  | some name =>
      if name = "cm_setup" then some (([], report id tools.setup), held)
      else if name = "cm_serve" then some (([], callServe tools id args), held)
      else if name = "cm_paywall" then some (([], callPaywall tools id args), held)
      else if name ∈ walletTools then
        match unlock tools held with
        | .error e => some (([], toolErr id e), held)
        | .ok () => (callOnWallet tools id args name).map fun answer => (answer, true)
      else some (([], errorFrame id 32602 ("unknown tool: " ++ name)), held)

/-! ## The server -/

structure Server where
  /-- `serde_json::from_str::<Value>`. -/
  parse : List Char → Option Value
  version : String
  instructions : String
  toolsList : Value
  /-- The host at each line. -/
  tools : ℕ → Tools

def protocolVersion : String := "2025-06-18"

def initializeResult (server : Server) (params : Option Value) : Value :=
  .object [
    ("protocolVersion",
      .string (((params.bind (·.get "protocolVersion")).bind Value.asStr).getD protocolVersion)),
    ("capabilities", .object [("tools", .object [])]),
    ("serverInfo", .object [("name", .string "computermoney"),
      ("version", .string server.version)]),
    ("instructions", .string server.instructions)]

def dispatch (server : Server) (tools : Tools) (held : Bool) (id msg : Value) :
    Option (Answer × Bool) :=
  let method := methodOf msg
  let params := msg.get "params"
  if method = "initialize" then some (([], resultFrame id (initializeResult server params)), held)
  else if method = "ping" then some (([], resultFrame id (.object [])), held)
  else if method = "tools/list" then some (([], resultFrame id server.toolsList), held)
  else if method = "tools/call" then toolsCall tools held id params
  else some (([], errorFrame id 32601 ("method not found: " ++ method)), held)

/-- Why the server ends before its input does. -/
inductive Stop where
  | notUtf8
  | panicked
  deriving DecidableEq, Repr

/-- What is written to stdout: a frame of the protocol, or a line that was printed. -/
inductive Output where
  | frame (frame : Value)
  | line (text : String)

/-- The lines of an answer, and then its frame. -/
def Answer.outputs (answer : Answer) : List Output :=
  answer.1.map .line ++ [.frame answer.2]

/-- The number of the line, and whether the wallet is held. -/
abbrev State := ℕ × Bool

/-- One turn of the loop in `mcp::run`. -/
def turn (server : Server) (s : State) (chunk : List UInt8) : Turn State Output Stop :=
  match Lines.text? chunk with
  | none => .ends .notUtf8
  | some line =>
      let trimmed := Text.trim line
      if trimmed = [] then .goes [] (s.1 + 1, s.2)
      else
        match server.parse trimmed with
        | none => .goes [.frame (errorFrame .null 32700 "parse error")] (s.1 + 1, s.2)
        | some msg =>
            match msg.get "id" with
            | none => .goes [] (s.1 + 1, s.2)
            | some id =>
                match dispatch server (server.tools s.1) s.2 id msg with
                | none => .ends .panicked
                | some (answer, held) => .goes (Answer.outputs answer) (s.1 + 1, held)

/-- `mcp::run` on this input, to all that is on stdout after it; `held` says whether the
wallet was unlocked at the start. -/
def run (server : Server) (held : Bool) (stdin : List UInt8) : List Output × Option Stop :=
  converse (turn server) (0, held) (Lines.chunks stdin)

/-! ## Panics -/

namespace Handler

variable {α β : Type}

def Panics (handler : Handler α) : Prop := handler.run = none

@[simp] theorem panics_panic : Panics (panic : Handler α) := rfl

@[simp] theorem panics_ofExcept (outcome : Except Error α) : ¬ Panics (ofExcept outcome) := nofun

@[simp] theorem run_ofExcept (outcome : Except Error α) : (ofExcept outcome).run = some outcome :=
  rfl

@[simp] theorem panics_pure (a : α) : ¬ Panics (pure a : Handler α) := nofun

@[simp] theorem panics_throw (e : Error) : ¬ Panics (throw e : Handler α) := nofun

/-- A sequence panics in its first part, or in the rest on what the first part returned. -/
@[simp] theorem panics_bind (first : Handler α) (rest : α → Handler β) :
    Panics (first >>= rest) ↔ Panics first ∨ ∃ a, first.run = some (.ok a) ∧ Panics (rest a) := by
  unfold Panics
  rw [ExceptT.run_bind]
  rcases first.run with _ | (e | a)
  · exact ⟨fun _ => .inl rfl, fun _ => rfl⟩
  · exact ⟨nofun, fun panics => panics.elim nofun fun ⟨_, same, _⟩ => nomatch same⟩
  · refine ⟨fun panics => .inr ⟨a, rfl, panics⟩, fun panics => panics.elim nofun ?_⟩
    rintro ⟨_, ⟨⟩, panics⟩
    exact panics

/-- A sequence ends well if both parts do. -/
theorem run_bind_ok (first : Handler α) (rest : α → Handler β) {b : β} :
    (first >>= rest).run = some (.ok b) ↔
      ∃ a, first.run = some (.ok a) ∧ (rest a).run = some (.ok b) := by
  rw [ExceptT.run_bind]
  rcases first.run with _ | (e | a)
  · exact iff_of_false nofun fun ⟨_, same, _⟩ => nomatch same
  · exact iff_of_false nofun fun ⟨_, same, _⟩ => nomatch same
  · refine ⟨fun ends => ⟨a, rfl, ends⟩, ?_⟩
    rintro ⟨_, ⟨⟩, ends⟩
    exact ends

end Handler

open Handler

theorem size_of_radixPair {c d : Char} (read : (radixPair c d).isSome) :
    c.utf8Size = 1 ∧ d.utf8Size = 1 := by
  unfold radixPair at read
  split at read
  · rename_i plus
    rw [Option.isSome_map] at read
    exact ⟨by rw [plus]; decide, Hex.utf8Size_of_digit read⟩
  · obtain ⟨byte, is⟩ := Option.isSome_iff_exists.1 read
    obtain ⟨high, highIs, rest⟩ := Option.bind_eq_some_iff.1 is
    obtain ⟨low, lowIs, -⟩ := Option.map_eq_some_iff.1 rest
    exact ⟨Hex.utf8Size_of_digit (by rw [highIs]; rfl), Hex.utf8Size_of_digit (by rw [lowIs]; rfl)⟩

/-- The second byte of the text is not the last of its character. -/
def Astride : List Char → Prop
  | c :: d :: _ => 3 ≤ c.utf8Size ∨ c.utf8Size = 1 ∧ 2 ≤ d.utf8Size
  | [c] => 3 ≤ c.utf8Size
  | [] => False

/-- Pairs of digits, and then a character that straddles the end of a pair of bytes. -/
def RunsAstride (text : List Char) : Prop :=
  ∃ (pairs : List (Char × Char)) (rest : List Char),
    text = pairs.flatMap (fun pair => [pair.1, pair.2]) ++ rest ∧
      (∀ pair ∈ pairs, (radixPair pair.1 pair.2).isSome) ∧ Astride rest

theorem runsAstride_pair {c d : Char} {rest : List Char} (read : (radixPair c d).isSome) :
    RunsAstride (c :: d :: rest) ↔ RunsAstride rest := by
  have sizes := size_of_radixPair read
  constructor
  · rintro ⟨pairs, left, is, digits, astride⟩
    rcases pairs with _ | ⟨pair, pairs⟩
    · rw [List.flatMap_nil, List.nil_append] at is
      subst is
      rcases astride with wide | ⟨-, wide⟩ <;> omega
    · simp only [List.flatMap_cons, List.cons_append, List.nil_append, List.cons.injEq] at is
      obtain ⟨rfl, rfl, rfl⟩ := is
      exact ⟨pairs, left, rfl, fun pair member => digits pair (List.mem_cons_of_mem _ member),
        astride⟩
  · rintro ⟨pairs, left, rfl, digits, astride⟩
    refine ⟨(c, d) :: pairs, left, rfl, fun pair member => ?_, astride⟩
    rcases List.mem_cons.1 member with rfl | member
    · exact read
    · exact digits pair member

theorem runsAstride_unread {text : List Char}
    (unread : ∀ c d rest, text = c :: d :: rest → ¬ (radixPair c d).isSome) :
    RunsAstride text ↔ Astride text := by
  constructor
  · rintro ⟨pairs, left, is, digits, astride⟩
    rcases pairs with _ | ⟨pair, pairs⟩
    · rwa [is]
    · exact absurd (digits pair (List.mem_cons_self ..)) (unread _ _ _ is)
  · exact fun astride => ⟨[], text, rfl, nofun, astride⟩

theorem runsAstride_wide {c : Char} {rest : List Char} (wide : c.utf8Size ≠ 1) :
    RunsAstride (c :: rest) ↔ 3 ≤ c.utf8Size := by
  have unread : ∀ c' d rest', c :: rest = c' :: d :: rest' → ¬ (radixPair c' d).isSome := by
    rintro _ d rest' ⟨⟩ read
    exact wide (size_of_radixPair read).1
  refine (runsAstride_unread unread).trans ?_
  cases rest with
  | nil => exact Iff.rfl
  | cons d rest => exact or_iff_left fun narrow => wide narrow.1

/-- **Where the slices of two bytes panic.** -/
theorem hexPairs_panics {refusal : Error} {text : List Char}
    (even : Text.byteLength text % 2 = 0) :
    Panics (hexPairs refusal text) ↔ RunsAstride text := by
  fun_induction hexPairs refusal text with
  | case1 =>
      rw [runsAstride_unread (by rintro _ _ _ ⟨⟩)]
      exact iff_of_false (panics_pure _) id
  | case2 c narrow =>
      rw [Text.byteLength_cons, narrow] at even
      cases even
  | case3 c narrow d rest narrow' byte read ih =>
      have shorter : Text.byteLength rest % 2 = 0 := by
        rw [Text.byteLength_cons, Text.byteLength_cons] at even
        omega
      rw [runsAstride_pair (read ▸ rfl), ← ih shorter, panics_bind]
      exact or_iff_left fun ⟨_, _, panics⟩ => panics_pure _ panics
  | case4 c narrow d rest narrow' unread =>
      rw [runsAstride_unread]
      · refine iff_of_false (panics_throw _) ?_
        rintro (wide | ⟨-, wide⟩) <;> omega
      · rintro _ _ _ ⟨⟩ read
        rw [unread] at read
        cases read
  | case5 c narrow d rest wide =>
      have size := d.utf8Size_pos
      rw [runsAstride_unread]
      · exact iff_of_true panics_panic (.inr ⟨narrow, by omega⟩)
      · rintro _ _ _ ⟨⟩ read
        exact wide (size_of_radixPair read).2
  | case6 c rest wide two =>
      rw [runsAstride_wide wide]
      exact iff_of_false (panics_throw _) (by omega)
  | case7 c rest wide wider =>
      have size := c.utf8Size_pos
      rw [runsAstride_wide wide]
      exact iff_of_true panics_panic (by omega)

/-- What was read is one byte a character. -/
theorem narrow_of_hexPairs {refusal : Error} {text : List Char} {bytes : List UInt8}
    (read : (hexPairs refusal text).run = some (.ok bytes)) : ∀ c ∈ text, c.utf8Size = 1 := by
  fun_induction hexPairs refusal text generalizing bytes with
  | case1 => exact nofun
  | case3 c narrow d rest narrow' byte pair ih =>
      rw [ExceptT.run_bind] at read
      rcases inner : (hexPairs refusal rest).run with _ | (e | more)
      · rw [inner] at read
        cases read
      · rw [inner] at read
        cases read
      · intro c' member
        rcases List.mem_cons.1 member with rfl | member
        · exact narrow
        rcases List.mem_cons.1 member with rfl | member
        · exact narrow'
        · exact ih inner c' member
  | case2 | case4 | case5 | case6 | case7 => cases read

theorem sliceTo_narrow {n : ℕ} {text : List Char} (narrow : ∀ c ∈ text, c.utf8Size = 1)
    (long : n ≤ text.length) : (sliceTo n text).run = some (.ok (text.take n)) := by
  induction text generalizing n with
  | nil =>
      obtain rfl : n = 0 := by simpa using long
      rw [sliceTo]
      rfl
  | cons c text ih =>
      cases n with
      | zero =>
          rw [sliceTo]
          rfl
      | succ n =>
          have rest := ih (fun d member => narrow d (List.mem_cons_of_mem _ member))
            (Nat.le_of_succ_le_succ long)
          rw [sliceTo, narrow c (List.mem_cons_self ..), if_pos (by omega), ExceptT.run_bind,
            Nat.add_sub_cancel, rest]
          rfl

/-- A key of 64 bytes whose digits run into a character that straddles a pair. -/
def Cuts (text : List Char) : Prop :=
  Text.byteLength (Text.trim text) = 64 ∧ RunsAstride (Text.trim text)

theorem parseKey_panics {short refusal : Error} {text : List Char} :
    Panics (parseKey short refusal text) ↔ Cuts text := by
  unfold parseKey Cuts
  by_cases size : Text.byteLength (Text.trim text) = 64
  · rw [if_neg (not_not_intro size), hexPairs_panics (by rw [size])]
    exact ⟨fun astride => ⟨size, astride⟩, And.right⟩
  · rw [if_pos size]
    exact iff_of_false (panics_throw _) fun cuts => size cuts.1

/-- A key that parsed has a front of eight bytes. -/
theorem sliceTo_parsed {text : List Char} {key : List UInt8} (trimmed : Text.trim text = text)
    (parsed : (parseCardKey text).run = some (.ok key)) :
    (sliceTo 8 text).run = some (.ok (text.take 8)) := by
  unfold parseCardKey parseKey at parsed
  rw [trimmed] at parsed
  by_cases size : Text.byteLength text = 64
  · rw [if_neg (not_not_intro size)] at parsed
    have narrow := narrow_of_hexPairs parsed
    exact sliceTo_narrow narrow (by rw [← Text.byteLength_narrow narrow, size]; decide)
  · rw [if_pos size] at parsed
    cases parsed

end ComputerMoney.Kernel.Mcp

/-
# Kernel.Paywall -- the HTTP 402 seller

One body for one price.  A request is the text of its head; only the method and the
last `X-Payment` header count.  A payment header of 64 hex digits is looked up on the
chain, and if the transaction pays the wallet at least the price the body is handed out
and the header's text is remembered as used, for as long as the process runs.

What the seller remembers is the text; what it looks up is the transaction.  An
`Arrival` is one accepted connection: the head it sends (or the error reading it), and
what the chain answers while it is served.  A response that cannot be written back is
still a reply here, for by then the payment is used.
-/
import ComputerMoney.Kernel.Host
import ComputerMoney.Theory.Hex

namespace ComputerMoney.Kernel

set_option autoImplicit false

open Theory

/-- What `parse_request` keeps of a head. -/
structure Request where
  method : List Char
  payment : Option (List Char)
  deriving DecidableEq, Repr

/-- The header lines up to the first empty one; the last payment header wins. -/
def parseHeaders : List (List Char) → Option (List Char) → Option (List Char)
  | [], payment => payment
  | [] :: _, payment => payment
  | line :: lines, payment =>
      match Text.splitOnce ':' line with
      | some (name, value) =>
          if (Text.trim name).map Text.asciiLower = "x-payment".toList then
            parseHeaders lines (some (Text.trim value))
          else parseHeaders lines payment
      | none => parseHeaders lines payment

def parseRequest (raw : List Char) : Request :=
  match Text.splitCrlf raw with
  | first :: lines => ⟨Text.firstWord first, parseHeaders lines none⟩
  | [] => ⟨[], none⟩

/-- Lines until a blank one, the end of the stream, or more than 8192 bytes. -/
def readHead : List Char → List (List Char) → List Char
  | raw, [] => raw
  | raw, line :: lines =>
      if line = ['\r', '\n'] ∨ line = ['\n'] then raw ++ line
      else if Text.byteLength (raw ++ line) > 8192 then raw ++ line
      else readHead (raw ++ line) lines

def readHeaders (stream : List Char) : List Char := readHead [] (Text.readLines stream)

/-- 64 hex digits of either letter case. -/
def isTxid (text : List Char) : Bool :=
  Text.byteLength text = 64 && text.all fun c => (Hex.digitValue? c).isSome

/-- One accepted connection. -/
structure Arrival where
  stream : Except Error (List Char)
  chain : List Char → Except Error EsploraTx

inductive Reply where
  | ok (body : String)
  | methodNotAllowed (text : String)
  | paymentRequired (terms : Terms)
  deriving DecidableEq, Repr

/-- What one `paywall::run` sells, and for whom. -/
structure Seller where
  host : Host
  priceSats : ℕ
  body : String
  spCode : String

/-- `scan::tx_pays_me`: the wallet's total in the transaction the chain returns. -/
def txPaysMe (host : Host) (arrival : Arrival) (txid : List Char) : Except Error ℕ :=
  (arrival.chain txid).map fun tx => u64Sum ((host.txMatches tx).map SpFound.sats)

/-- Whether the transaction, as looked up now, covers the price. -/
def Arrival.covers (arrival : Arrival) (seller : Seller) (txid : List Char) : Bool :=
  match txPaysMe seller.host arrival txid with
  | .ok sats => seller.priceSats ≤ sats
  | .error _ => false

/-- Whether the payment counts, and the texts used after it. -/
def verifyPayment (seller : Seller) (arrival : Arrival) (txid : List Char)
    (used : List (List Char)) : Bool × List (List Char) :=
  if txid ∈ used then (false, used)
  else if arrival.covers seller txid then (true, txid :: used)
  else (false, used)

/-- One connection: the reply, if the head could be read, and the texts used after it. -/
def handle (seller : Seller) (used : List (List Char)) (arrival : Arrival) :
    Option Reply × List (List Char) :=
  let terms : Terms := ⟨1, seller.priceSats, seller.spCode, seller.host.network.label⟩
  match arrival.stream with
  | .error _ => (none, used)
  | .ok stream =>
      let request := parseRequest (readHeaders stream)
      if request.method ≠ "GET".toList then (some (.methodNotAllowed "GET only\n"), used)
      else
        match request.payment with
        | none => (some (.paymentRequired terms), used)
        | some txid =>
            if isTxid txid then
              match verifyPayment seller arrival txid used with
              | (true, used') => (some (.ok seller.body), used')
              | (false, used') => (some (.paymentRequired terms), used')
            else (some (.paymentRequired terms), used)

/-- The replies of one run, in order, from the texts already used. -/
def replies (seller : Seller) : List (List Char) → List Arrival → List (Option Reply)
  | _, [] => []
  | used, arrival :: arrivals =>
      (handle seller used arrival).1 :: replies seller (handle seller used arrival).2 arrivals

/-! ## What a reply depends on -/

/-- The payment a `GET` names: the text of its header, when it reads as a txid. -/
def Arrival.names (arrival : Arrival) : Option (List Char) :=
  match arrival.stream with
  | .error _ => none
  | .ok stream =>
      let request := parseRequest (readHeaders stream)
      if request.method = "GET".toList then request.payment.filter fun txid => isTxid txid else none

/-- The body is handed out. -/
def Reply.unlocks : Option Reply → Bool
  | some (.ok _) => true
  | _ => false

/-- The body goes to a named, unused payment that covers the price, which is then used;
every other connection leaves the used texts as they were. -/
theorem handle_cases (seller : Seller) (used : List (List Char)) (arrival : Arrival) :
    (∃ txid, arrival.names = some txid ∧ txid ∉ used ∧ arrival.covers seller txid = true ∧
      Reply.unlocks (handle seller used arrival).1 = true ∧
      (handle seller used arrival).2 = txid :: used) ∨
    ((∀ txid, arrival.names = some txid → txid ∈ used ∨ arrival.covers seller txid = false) ∧
      Reply.unlocks (handle seller used arrival).1 = false ∧
      (handle seller used arrival).2 = used) := by
  unfold Arrival.names handle verifyPayment
  rcases arrival.stream with e | stream
  · exact .inr ⟨nofun, rfl, rfl⟩
  dsimp only
  generalize parseRequest (readHeaders stream) = request
  generalize "GET".toList = verb
  by_cases get : request.method = verb
  · rcases request.payment with _ | txid
    · exact .inr ⟨by simp, by simp [get, Reply.unlocks], by simp [get]⟩
    · by_cases hex : isTxid txid
      · by_cases again : txid ∈ used
        · exact .inr ⟨by simp [get, hex, again], by simp [get, hex, again, Reply.unlocks],
            by simp [get, hex, again]⟩
        · by_cases covers : arrival.covers seller txid
          · exact .inl ⟨txid, by simp [get, hex], again, covers,
              by simp [get, hex, again, covers, Reply.unlocks], by simp [get, hex, again, covers]⟩
          · exact .inr ⟨by simpa [get, hex] using Or.inr covers,
              by simp [get, hex, again, covers, Reply.unlocks], by simp [get, hex, again, covers]⟩
      · exact .inr ⟨by simp [get, hex], by simp [get, hex, Reply.unlocks], by simp [get, hex]⟩
  · exact .inr ⟨by simp [get], by simp [get, Reply.unlocks], by simp [get]⟩

end ComputerMoney.Kernel

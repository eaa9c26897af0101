/-
# Kernel.Handshake -- opening a tunnel, from either end

The initiator sends one initiation and waits for the response in short slices, until a budget
is spent (`connect`).  The responder reads one datagram of a socket that it shares with the
daemon's loop; if that is an initiation, it learns from it who is dialing, answers, and has a
tunnel (`acceptAny`).

The clock and the socket are an environment of their own (`udp`).  A clone of a socket is the
same socket to the kernel, so one read timeout serves both, and who raises it raises it for the
other.  A read waits no longer than that timeout.

A loop that junk could keep going for ever is cut after `n` datagrams.
-/
import ComputerMoney.Kernel.Tunnel
import ComputerMoney.Theory.Parties

namespace ComputerMoney.Kernel.Tunnel

set_option autoImplicit false

open Theory

/-! ## The clock and the socket -/

/-- Durations and instants are in nanoseconds. -/
def secs (n : ℕ) : ℕ := n * 1000000000

/-- What `recv_from` found. -/
inductive Got where
  | datagram (data : List UInt8) (source : String)
  /-- `WouldBlock` or `TimedOut`. -/
  | idle
  | failed (e : Error)
  deriving DecidableEq, Repr

/-- What it found, and how long it waited for it. -/
structure Waited where
  nanos : ℕ
  got : Got
  deriving DecidableEq, Repr

inductive UdpOp where
  | instant
  | setReadTimeout (nanos : ℕ)
  | tryClone
  | sendTo (datagram : List UInt8) (peer : String)
  | recvFrom
  deriving DecidableEq, Repr

def UdpOp.Ans : UdpOp → Type
  | .instant => ℕ
  | .setReadTimeout _ | .tryClone | .sendTo _ _ => Except Error Unit
  | .recvFrom => Waited

@[reducible] def udp : Signature := ⟨UdpOp, UdpOp.Ans⟩

abbrev Udp (α : Type) := Program udp Error α

/-- What the kernel keeps: the time, and the read timeout of the socket and its clones. -/
structure Deck where
  clock : ℕ
  timeout : ℕ
  deriving DecidableEq, Repr

/-- The reading in which time passes as it likes between two calls; if `prompt`, only a read
takes any. -/
def Deck.allows (prompt : Prop) (d : Deck) : (op : UdpOp) → op.Ans → Prop
  | .instant, now => d.clock ≤ now ∧ (prompt → now = d.clock)
  | .recvFrom, waited => waited.nanos ≤ d.timeout ∧ (waited.got = .idle → waited.nanos = d.timeout)
  | _, _ => True

def Deck.after (d : Deck) : (op : UdpOp) → op.Ans → Deck
  | .instant, now => { d with clock := now }
  | .setReadTimeout nanos, .ok () => { d with timeout := nanos }
  | .recvFrom, waited => { d with clock := d.clock + waited.nanos }
  | _, _ => d

def udpInterp (prompt : Prop) : Interp udp Deck := ⟨Deck.allows prompt, Deck.after⟩

def instant : Udp ℕ := .call .instant .pure

def setReadTimeout (nanos : ℕ) : Udp Unit := .call (.setReadTimeout nanos) .ofExcept

def tryClone : Udp Unit := .call .tryClone .ofExcept

def sendTo (datagram : List UInt8) (peer : String) : Udp Unit :=
  .call (.sendTo datagram peer) .ofExcept

/-- `recv_from` into a buffer of 2048 bytes. -/
def recvFrom : Udp Got := .call .recvFrom fun waited => match waited.got with
  | .datagram data source => .pure (.datagram (data.take recvBuffer) source)
  | got => .pure got

/-! ## The crate -/

/-- What the handshake asks of the crate: a new tunnel for a pair of keys, its initiation, and
who sent an initiation that opens under our key. -/
structure Wg extends Noise where
  new : List UInt8 → List UInt8 → Tunn
  formatHandshakeInitiation : Tunn → TunnResult × Tunn
  parseHandshakeAnon : List UInt8 → List UInt8 → Option (List UInt8)

/-- A crate that seals nothing: an initiation, a response and a keepalive, told apart by the
type in their first byte and by their length. -/
def Wg.sample : Wg where
  Tunn := Unit
  new _ _ := ()
  encapsulate _ pkt _ := (.writeToNetwork pkt, ())
  decapsulate _ data _ := match data.head?, data.length with
    | some 1, 148 => (.writeToNetwork (2 :: List.replicate 91 0), ())
    | some 2, 92 => (.writeToNetwork (4 :: List.replicate 31 0), ())
    | some 4, 32 => (.done, ())
    | _, _ => (.err "InvalidPacket", ())
  formatHandshakeInitiation _ := (.writeToNetwork (1 :: List.replicate 147 0), ())
  parseHandshakeAnon _ packet :=
    if packet.head? = some 1 ∧ packet.length = 148 then some (List.replicate 32 9) else none

def recvTimeout : ℕ := secs 120

def handshakeBudget : ℕ := secs 120

def handshakePoll : ℕ := secs 2

section

variable (wg : Wg)

/-- `WgCore::handshake_init`. -/
def handshakeInit (tun : wg.Tunn) : Except Error (List UInt8) × wg.Tunn :=
  let (result, tun') := wg.formatHandshakeInitiation tun
  let packet := match result with
    | .writeToNetwork out => .ok out
    | .err e => .error ("handshake init: " ++ e)
    | _ => .error "unexpected handshake-init result"
  (packet, tun')

/-! ## The initiator -/

/-- The loop of `connect`: a slice that finds nothing and a datagram that is not the response
both end at the look at the clock. -/
def awaitResponse (peer : String) (deadline : ℕ) : ℕ → wg.Tunn → Udp wg.Tunn
  | 0, _ => .throw "cut short"
  | n + 1, tun => do
      match ← recvFrom with
      | .failed e => .throw e
      | .idle =>
          let now ← instant
          if deadline ≤ now then .throw "handshake timed out: peer did not respond"
          else awaitResponse peer deadline n tun
      | .datagram data _ =>
          match process wg.toNoise tun data with
          | (.ok (.sendBack keepalive), tun') => do
              sendTo keepalive peer
              setReadTimeout recvTimeout
              return tun'
          | (_, tun') => do
              let now ← instant
              if deadline ≤ now then .throw "handshake timed out: peer did not respond"
              else awaitResponse peer deadline n tun'

/-- `FramedTunnel::connect`. -/
def connect (secret peerPub : List UInt8) (peer : String) (n : ℕ) : Udp wg.Tunn := do
  setReadTimeout handshakePoll
  let (packet, tun) := handshakeInit wg (wg.new secret peerPub)
  let init ← .ofExcept packet
  sendTo init peer
  let started ← instant
  awaitResponse wg peer (started + handshakeBudget) n tun

/-! ## The responder -/

/-- `FramedTunnel::accept_any`: the tunnel, the peer's key, and where the peer is. -/
def acceptAny (identity : Except Error (List UInt8)) :
    Udp (Option (wg.Tunn × List UInt8 × String)) := do
  let secret ← .ofExcept identity
  match ← recvFrom with
  | .idle => return none
  | .failed e => .throw e
  | .datagram packet source =>
      match wg.parseHandshakeAnon secret packet with
      | none => return none
      | some peerPub =>
          match process wg.toNoise (wg.new secret peerPub) packet with
          | (.error e, _) => .throw e
          | (.ok (.sendBack resp), tun) => do
              tryClone
              setReadTimeout recvTimeout
              sendTo resp source
              return some (tun, peerPub, source)
          | (.ok _, _) => return none

end

end ComputerMoney.Kernel.Tunnel

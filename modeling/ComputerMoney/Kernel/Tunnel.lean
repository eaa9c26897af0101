/-
# Kernel.Tunnel -- messages over WireGuard over UDP

A frame is wrapped as an IPv4 packet, the packet is sealed into a datagram, and the datagram
is sent; the other side reads a datagram into a buffer of 2048 bytes, opens it, and takes the
header off.

The WireGuard crate is a parameter (`Noise`): what it makes of a packet or a datagram in a
given state, with room for so many bytes.  Of the socket, `inbox` holds the datagrams that
still arrive, `closed` how the wait ends after them, and `net` how a send ends that is not
too long for UDP.
-/
import ComputerMoney.Kernel.Protocol

namespace ComputerMoney.Kernel.Tunnel

set_option autoImplicit false

open Theory

/-! ## The crypto core -/

/-- `TunnResult`, without the addresses. -/
inductive TunnResult where
  | done
  | err (e : Error)
  | writeToNetwork (out : List UInt8)
  | writeToTunnelV4 (pkt : List UInt8)
  | writeToTunnelV6 (pkt : List UInt8)
  deriving DecidableEq, Repr

/-- The crate: a state, and what it makes of bytes given room for the result. -/
structure Noise where
  Tunn : Type
  encapsulate : Tunn → List UInt8 → ℕ → TunnResult × Tunn
  decapsulate : Tunn → List UInt8 → ℕ → TunnResult × Tunn

inductive Step where
  | sendBack (out : List UInt8)
  | frame (frame : List UInt8)
  | nothing
  deriving DecidableEq, Repr

def ipv4Header : ℕ := 20

def wgOverhead : ℕ := 64

/-- `wrap_ip`: the total length is cut to 16 bits. -/
def wrapIp (payload : List UInt8) : List UInt8 :=
  [0x45, 0] ++ Octets.bigEndian 2 ((ipv4Header + payload.length) % 2 ^ 16) ++
    [0, 0, 0, 0, 64, 253] ++ List.replicate 10 0 ++ payload

def unwrapIp (pkt : List UInt8) : Except Error (List UInt8) :=
  if pkt.length < ipv4Header then .error "tunneled packet shorter than its IP header"
  else .ok (pkt.drop ipv4Header)

@[simp] theorem length_wrapIp (payload : List UInt8) :
    (wrapIp payload).length = ipv4Header + payload.length := by
  simp [wrapIp, ipv4Header]
  omega

/-- What the header says the packet's length is. -/
def totalLength (pkt : List UInt8) : ℕ := Octets.fromBigEndian ((pkt.drop 2).take 2)

theorem totalLength_wrapIp (payload : List UInt8) :
    totalLength (wrapIp payload) = (ipv4Header + payload.length) % 2 ^ 16 := by
  have field : ((wrapIp payload).drop 2).take 2 =
      Octets.bigEndian 2 ((ipv4Header + payload.length) % 2 ^ 16) := rfl
  rw [totalLength, field, Octets.fromBigEndian_bigEndian]
  exact Nat.mod_mod _ _

theorem unwrapIp_wrapIp (payload : List UInt8) : unwrapIp (wrapIp payload) = .ok payload := by
  have long : ¬ (wrapIp payload).length < ipv4Header := by
    rw [length_wrapIp]
    omega
  rw [unwrapIp, if_neg long]
  rfl

section

variable (noise : Noise)

/-- `WgCore::process`. -/
def process (tun : noise.Tunn) (datagram : List UInt8) : Except Error Step × noise.Tunn :=
  let (result, tun') := noise.decapsulate tun datagram (datagram.length + wgOverhead)
  let step := match result with
    | .writeToNetwork out => .ok (.sendBack out)
    | .writeToTunnelV4 pkt => (unwrapIp pkt).map .frame
    | .writeToTunnelV6 pkt => (unwrapIp pkt).map .frame
    | .done => .ok .nothing
    | .err e => .error ("decapsulate: " ++ e)
  (step, tun')

/-- `WgCore::seal`. -/
def sealFrame (tun : noise.Tunn) (frame : List UInt8) : Except Error (List UInt8) × noise.Tunn :=
  let ip := wrapIp frame
  let (result, tun') := noise.encapsulate tun ip (ip.length + wgOverhead)
  let sealed := match result with
    | .writeToNetwork out => .ok out
    | .err e => .error ("encapsulate: " ++ e)
    | _ => .error "tunnel has no session yet"
  (sealed, tun')

/-! ## The UDP transport -/

/-- The longest datagram that UDP carries. -/
def udpMax : ℕ := 65507

/-- The buffer of `recv`. -/
def recvBuffer : ℕ := 2048

structure Socket where
  inbox : List (List UInt8)
  closed : Except Error Unit
  net : Except Error Unit

/-- `UdpSocket::send_to`. -/
def Socket.sendTo (sock : Socket) (datagram : List UInt8) : Except Error Unit :=
  if udpMax < datagram.length then .error "Message too long" else sock.net

structure FramedTunnel where
  core : noise.Tunn
  sock : Socket

variable {noise}

/-- `Wire::send`: the datagram that went out, if it returns `Ok`. -/
def send (tunnel : FramedTunnel noise) (msg : Message) :
    Except Error (List UInt8) × FramedTunnel noise :=
  let (sealed, core) := sealFrame noise tunnel.core msg.encode
  let sent := do
    let datagram ← sealed
    tunnel.sock.sendTo datagram
    return datagram
  (sent, { tunnel with core })

/-- The loop of `Wire::recv` over the datagrams that arrive.  A datagram is cut to the buffer;
one that does not open is dropped. -/
def recvLoop (fromSlice : List UInt8 → Option Message) (sock : Socket) :
    noise.Tunn → List (List UInt8) → Except Error (Option Message) × FramedTunnel noise
  | tun, [] => (sock.closed.map fun _ => none, ⟨tun, { sock with inbox := [] }⟩)
  | tun, datagram :: inbox =>
      match process noise tun (datagram.take recvBuffer) with
      | (.error _, tun') => recvLoop fromSlice sock tun' inbox
      | (.ok (.frame frame), tun') =>
          let received := match Message.decode fromSlice frame with
            | some (msg, _) => .ok (some msg)
            | none => .error "tunnel frame did not decode to a message"
          (received, ⟨tun', { sock with inbox }⟩)
      | (.ok (.sendBack out), tun') =>
          match sock.sendTo out with
          | .ok () => recvLoop fromSlice sock tun' inbox
          | .error e => (.error e, ⟨tun', { sock with inbox }⟩)
      | (.ok .nothing, tun') => recvLoop fromSlice sock tun' inbox

/-- `Wire::recv`. -/
def recv (fromSlice : List UInt8 → Option Message) (tunnel : FramedTunnel noise) :
    Except Error (Option Message) × FramedTunnel noise :=
  recvLoop fromSlice tunnel.sock tunnel.core tunnel.sock.inbox

end

end ComputerMoney.Kernel.Tunnel

/-
# Safety.TunnelDelivery -- what the tunnel delivers

Three lengths stand between a message and its reader: the frame's in 32 bits, the packet's in
16, and the 2048 bytes of the receive buffer.  UDP refuses what is longer than 65507 bytes,
and that keeps the first two exact.  The third is not looked at by the sender: a datagram of
more than 2048 bytes goes out, arrives cut short, does not authenticate, and is dropped, and
the sender has its `Ok`.

`tunnel_delivers` says so both ways.  What it relies on of the crate is `Established`.
-/
import ComputerMoney.Kernel.Tunnel

namespace ComputerMoney.Safety

set_option autoImplicit false

open Theory Kernel.Tunnel
open Kernel (Error Message)

namespace TunnelDelivery

/-! ## The session -/

/-- The header of a data message and the tag behind it. -/
def dataOverhead : ℕ := 32

def IsIpv4 (pkt : List UInt8) : Prop :=
  ipv4Header ≤ pkt.length ∧ pkt.head?.map (fun first => first.toNat / 16) = some 4

/-- The datagram that the packet is sealed into. -/
def Sealed (noise : Noise) (near : noise.Tunn) (pkt out : List UInt8) : Prop :=
  ∃ room, pkt.length + dataOverhead ≤ room ∧
    (noise.encapsulate near pkt room).1 = .writeToNetwork out

/-- The near side's session is the far side's: what the one seals the other opens, cut to the
length that its header gives, and a part of it does not authenticate. -/
structure Established (noise : Noise) (near far : noise.Tunn) : Prop where
  seals : ∀ (pkt : List UInt8) (room : ℕ), pkt.length + dataOverhead ≤ room → ∃ out,
    (noise.encapsulate near pkt room).1 = .writeToNetwork out ∧
      out.length = pkt.length + dataOverhead
  opens : ∀ (pkt out : List UInt8) (room : ℕ), Sealed noise near pkt out →
    out.length ≤ udpMax → IsIpv4 pkt → totalLength pkt ≤ pkt.length → out.length ≤ room →
    (noise.decapsulate far out room).1 = .writeToTunnelV4 (pkt.take (totalLength pkt))
  refuses : ∀ (pkt out : List UInt8) (room n : ℕ), Sealed noise near pkt out →
    out.length ≤ udpMax → 0 < n → n < out.length → n ≤ room →
    ∃ e, (noise.decapsulate far (out.take n) room).1 = .err e

/-- If `send` returns `Ok` and its datagram arrives, the peer's `recv` returns the message,
whatever arrives later. -/
def Delivers (noise : Noise) (fromSlice : List UInt8 → Option Message) (near far : noise.Tunn)
    (msg : Message) : Prop :=
  ∀ (here there : Socket) (datagram : List UInt8) (later : List (List UInt8)),
    (send ⟨near, here⟩ msg).1 = .ok datagram →
    (recv fromSlice ⟨far, { there with inbox := datagram :: later }⟩).1 = .ok (some msg)

/-- The bytes of the datagram that carries the message. -/
def datagramLength (msg : Message) : ℕ := ipv4Header + msg.encode.length + dataOverhead

section

variable {noise : Noise} {near far : noise.Tunn} {frame out : List UInt8}

/-! ## Sending -/

theorem roomy (pkt : List UInt8) : pkt.length + dataOverhead ≤ pkt.length + wgOverhead :=
  Nat.add_le_add_left (by decide) _

theorem sealFrame_ok (sealed : (sealFrame noise near frame).1 = .ok out) :
    Sealed noise near (wrapIp frame) out := by
  refine ⟨_, roomy _, ?_⟩
  unfold sealFrame at sealed
  dsimp only at sealed
  split at sealed
  · cases sealed
    assumption
  · cases sealed
  · cases sealed

theorem sealFrame_established (established : Established noise near far)
    (frame : List UInt8) : ∃ out, (sealFrame noise near frame).1 = .ok out := by
  obtain ⟨out, is, -⟩ := established.seals (wrapIp frame) _ (roomy _)
  refine ⟨out, ?_⟩
  unfold sealFrame
  dsimp only
  rw [is]

theorem length_sealed (established : Established noise near far)
    (sealed : Sealed noise near (wrapIp frame) out) :
    out.length = ipv4Header + frame.length + dataOverhead := by
  obtain ⟨room, roomy, is⟩ := sealed
  obtain ⟨_, same, length⟩ := established.seals (wrapIp frame) room roomy
  rw [same] at is
  cases is
  rw [length, length_wrapIp]

theorem send_ok {here : Socket} {msg : Message} {datagram : List UInt8} :
    (send ⟨near, here⟩ msg).1 = .ok datagram ↔ (sealFrame noise near msg.encode).1 = .ok datagram ∧
      datagram.length ≤ udpMax ∧ here.net = .ok () := by
  unfold send
  dsimp only
  cases (sealFrame noise near msg.encode).1 with
  | error e => exact iff_of_false nofun fun sent => nomatch sent.1
  | ok out =>
      have sending : here.sendTo out = .ok () ↔ out.length ≤ udpMax ∧ here.net = .ok () := by
        unfold Socket.sendTo
        split
        · exact iff_of_false nofun fun sent => by omega
        · exact (and_iff_right (by omega)).symm
      rw [Except.ok.injEq]
      constructor
      · intro sent
        cases went : here.sendTo out with
        | error e =>
            simp [went, bind, Except.bind] at sent
        | ok =>
            simp only [went, bind, Except.bind, pure, Except.pure, Except.ok.injEq] at sent
            subst sent
            exact ⟨rfl, sending.1 went⟩
      · rintro ⟨rfl, fits⟩
        simp only [sending.2 fits, bind, Except.bind, pure, Except.pure]

/-! ## Receiving -/

/-- The length field is exact for what a datagram holds. -/
theorem totalLength_exact (short : ipv4Header + frame.length < 2 ^ 16) :
    totalLength (wrapIp frame) = (wrapIp frame).length := by
  rw [totalLength_wrapIp, Nat.mod_eq_of_lt short, length_wrapIp]

theorem isIpv4_wrapIp (frame : List UInt8) : IsIpv4 (wrapIp frame) := by
  refine ⟨?_, rfl⟩
  rw [length_wrapIp]
  omega

/-- A datagram that arrives whole is its frame. -/
theorem process_whole (established : Established noise near far)
    (sealed : Sealed noise near (wrapIp frame) out) (carried : out.length ≤ udpMax) :
    (process noise far out).1 = .ok (.frame frame) := by
  have length := length_sealed established sealed
  have short : ipv4Header + frame.length < 2 ^ 16 := by
    unfold udpMax at carried
    omega
  have total := totalLength_exact short
  have opened := established.opens _ _ (out.length + wgOverhead) sealed carried
    (isIpv4_wrapIp frame) total.le (by omega)
  rw [total, List.take_length] at opened
  unfold process
  dsimp only
  rw [opened]
  dsimp only
  rw [unwrapIp_wrapIp]
  rfl

/-- A datagram that is cut is dropped. -/
theorem process_cut (established : Established noise near far)
    (sealed : Sealed noise near (wrapIp frame) out) (carried : out.length ≤ udpMax) {n : ℕ}
    (some_ : 0 < n) (cut : n < out.length) :
    ∃ e, (process noise far (out.take n)).1 = .error e := by
  have length : (out.take n).length = n := List.length_take_of_le cut.le
  obtain ⟨e, refused⟩ := established.refuses _ _ ((out.take n).length + wgOverhead) n sealed carried
    some_ cut (by omega)
  refine ⟨"decapsulate: " ++ e, ?_⟩
  unfold process
  dsimp only
  rw [refused]

/-! ## Delivery -/

variable {fromSlice : List UInt8 → Option Message} {msg : Message}

theorem delivers_short (established : Established noise near far)
    (reads : fromSlice msg.toVec = some msg) (short : datagramLength msg ≤ recvBuffer) :
    Delivers noise fromSlice near far msg := by
  intro here there datagram later sent
  obtain ⟨sealing, carried, -⟩ := send_ok.1 sent
  have sealed := sealFrame_ok sealing
  have length : datagram.length = datagramLength msg := length_sealed established sealed
  have whole : datagram.take recvBuffer = datagram := List.take_of_length_le (by omega)
  have framed := process_whole established sealed carried
  have fits : msg.toVec.length < 256 ^ Message.lengthOctets := by
    have outer : msg.encode.length = Message.lengthOctets + msg.toVec.length :=
      Octets.length_frame ..
    unfold datagramLength recvBuffer at short
    have small : 2048 < 256 ^ Message.lengthOctets := by decide
    omega
  have decoded := Message.decode_encode reads fits []
  rw [List.append_nil] at decoded
  unfold recv recvLoop
  dsimp only
  rw [whole]
  rcases processed : process noise far datagram with ⟨step, tun'⟩
  rw [processed] at framed
  cases framed
  dsimp only
  rw [decoded]

theorem delivers_refused (established : Established noise near far)
    (long : udpMax < datagramLength msg) : Delivers noise fromSlice near far msg := by
  intro here there datagram later sent
  obtain ⟨sealing, carried, -⟩ := send_ok.1 sent
  have length : datagram.length = datagramLength msg :=
    length_sealed established (sealFrame_ok sealing)
  omega

/-- In between the datagram goes out, and `recv` waits for another until it gives up. -/
theorem not_delivers (established : Established noise near far)
    (long : recvBuffer < datagramLength msg) (carried : datagramLength msg ≤ udpMax) :
    ¬ Delivers noise fromSlice near far msg := by
  obtain ⟨datagram, sealing⟩ := sealFrame_established established msg.encode
  have sealed := sealFrame_ok sealing
  have length : datagram.length = datagramLength msg := length_sealed established sealed
  obtain ⟨e, dropped⟩ := process_cut established sealed (by omega)
    (show 0 < recvBuffer by decide) (by omega)
  intro delivers
  have received := delivers ⟨[], .ok (), .ok ()⟩ ⟨[], .ok (), .ok ()⟩ datagram []
    (send_ok.2 ⟨sealing, by omega, rfl⟩)
  unfold recv recvLoop at received
  dsimp only at received
  rcases processed : process noise far (datagram.take recvBuffer) with ⟨step, tun'⟩
  rw [processed] at dropped
  cases dropped
  rw [processed] at received
  cases received

end

end TunnelDelivery

open TunnelDelivery

/-- **A message arrives unless its datagram is longer than the buffer and UDP carries it.** -/
theorem tunnel_delivers (noise : Noise) (near far : noise.Tunn)
    (established : Established noise near far) (fromSlice : List UInt8 → Option Message)
    (msg : Message) (reads : fromSlice msg.toVec = some msg) :
    Delivers noise fromSlice near far msg ↔
      datagramLength msg ≤ recvBuffer ∨ udpMax < datagramLength msg := by
  constructor
  · intro delivers
    by_contra between
    rw [not_or, Nat.not_le, Nat.not_lt] at between
    exact not_delivers established between.1 between.2 delivers
  · rintro (short | long)
    · exact delivers_short established reads short
    · exact delivers_refused established long

namespace TunnelDelivery

/-- A session in the clear: a data message that names its packet's length, with a blank tag. -/
def clearSeal (pkt : List UInt8) : List UInt8 :=
  [4, 0, 0, 0, 0, 0, 0, 0, 0, 0, 0, 0] ++ Octets.bigEndian 4 pkt.length ++ pkt ++
    List.replicate 16 0

def clearOpen (data : List UInt8) : TunnResult :=
  let length := Octets.fromBigEndian ((data.drop 12).take 4)
  let pkt := (data.drop 16).take length
  if data.length < dataOverhead then .err "InvalidPacket"
  else if data.length ≠ length + dataOverhead then .err "InvalidAeadTag"
  else .writeToTunnelV4 (pkt.take (totalLength pkt))

def clearNoise : Noise where
  Tunn := Unit
  encapsulate := fun _ pkt _ => (.writeToNetwork (clearSeal pkt), ())
  decapsulate := fun _ data _ => (clearOpen data, ())

theorem length_clearSeal (pkt : List UInt8) :
    (clearSeal pkt).length = pkt.length + dataOverhead := by
  simp only [clearSeal, dataOverhead, List.length_append, List.length_cons, List.length_nil,
    Octets.length_bigEndian, List.length_replicate]
  omega

/-- The length stands in the first sixteen bytes. -/
theorem field_clearSeal {pkt : List UInt8} (short : pkt.length < 256 ^ 4) {n : ℕ}
    (reaches : 16 ≤ n) :
    Octets.fromBigEndian ((((clearSeal pkt).take n).drop 12).take 4) = pkt.length := by
  have field : (((clearSeal pkt).take n).drop 12).take 4 = Octets.bigEndian 4 pkt.length := by
    rw [List.drop_take, List.take_take, Nat.min_eq_left (by omega)]
    rfl
  rw [field, Octets.fromBigEndian_bigEndian, Nat.mod_eq_of_lt short]

theorem clearOpen_whole {pkt : List UInt8} (short : pkt.length < 256 ^ 4) :
    clearOpen (clearSeal pkt) = .writeToTunnelV4 (pkt.take (totalLength pkt)) := by
  have length := length_clearSeal pkt
  have field := field_clearSeal short (show 16 ≤ (clearSeal pkt).length by
    unfold dataOverhead at length
    omega)
  rw [List.take_length] at field
  have inner : ((clearSeal pkt).drop 16).take pkt.length = pkt := List.take_left
  unfold clearOpen
  dsimp only
  rw [field, inner, if_neg (by omega), if_neg (by omega)]

theorem clearOpen_cut {pkt : List UInt8} (short : pkt.length < 256 ^ 4) {n : ℕ}
    (cut : n < (clearSeal pkt).length) : ∃ e, clearOpen ((clearSeal pkt).take n) = .err e := by
  have length := length_clearSeal pkt
  have left : ((clearSeal pkt).take n).length = n := List.length_take_of_le cut.le
  unfold clearOpen
  dsimp only
  split
  · exact ⟨_, rfl⟩
  · rename_i reaches
    rw [left] at reaches
    have field := field_clearSeal short (show 16 ≤ n by
      unfold dataOverhead at reaches
      omega)
    rw [field, left, if_pos (by omega)]
    exact ⟨_, rfl⟩

theorem clear_established : Established clearNoise () () where
  seals pkt room _ := ⟨clearSeal pkt, rfl, length_clearSeal pkt⟩
  opens pkt out room sealed carried _ _ _ := by
    obtain ⟨_, -, ⟨⟩⟩ := sealed
    rw [length_clearSeal] at carried
    exact clearOpen_whole (by unfold udpMax at carried; omega)
  refuses pkt out room n sealed carried _ cut _ := by
    obtain ⟨_, -, ⟨⟩⟩ := sealed
    rw [length_clearSeal] at carried
    exact clearOpen_cut (by unfold udpMax at carried; omega) cut

/-- A reader that knows one message. -/
def knows (msg : Message) (body : List UInt8) : Option Message :=
  if body = msg.toVec then some msg else none

theorem knows_reads (msg : Message) : knows msg msg.toVec = some msg := if_pos rfl

/-- A chat of so many letters. -/
def chatOf (n : ℕ) : Message := .chat (String.ofList (List.replicate n 'a'))

theorem length_letters (n : ℕ) :
    (Lines.bytes ((List.replicate n 'a').flatMap Json.escape)).length = n := by
  induction n with
  | zero => rfl
  | succ n ih =>
      have one : (Lines.bytes (Json.escape 'a')).length = 1 := by decide
      rw [List.replicate_succ, List.flatMap_cons, Lines.bytes, List.flatMap_append,
        List.length_append]
      unfold Lines.bytes at ih one
      rw [ih, one, Nat.add_comm]

/-- The object around the text takes 25 bytes. -/
theorem length_chatOf (n : ℕ) : (chatOf n).toVec.length = n + 25 := by
  have shape : (chatOf n).toVec =
      Lines.bytes ('\x7b' :: (Json.field "type" (Json.string "chat".toList) ++
        ',' :: (Json.string "text".toList ++ [':', '"']))) ++
        (Lines.bytes ((List.replicate n 'a').flatMap Json.escape) ++ Lines.bytes ['"', '\x7d']) := by
    unfold chatOf Message.toVec Message.fields Lines.bytes
    rw [← List.flatMap_append, ← List.flatMap_append]
    simp only [List.map_cons, List.map_nil, Json.Scalar.text, String.toList_ofList, Json.object,
      Json.joined, Json.field, Json.string, List.cons_append, List.append_assoc, List.nil_append]
  have front : (Lines.bytes ('\x7b' :: (Json.field "type" (Json.string "chat".toList) ++
      ',' :: (Json.string "text".toList ++ [':', '"'])))).length = 23 := by
    decide
  have back : (Lines.bytes ['"', '\x7d']).length = 2 := by decide
  rw [shape, List.length_append, List.length_append, length_letters, front, back]
  omega

end TunnelDelivery

theorem tunnel_delivers_chat :
    Established clearNoise () () ∧ Delivers clearNoise (knows (.chat "over wireguard")) () ()
      (.chat "over wireguard") :=
  ⟨clear_established, (tunnel_delivers clearNoise () () clear_established _ _ (knows_reads _)).2
    (.inl (by decide +kernel))⟩

/-- The chat is sent, and nobody receives it. -/
theorem long_chat_lost : ¬ Delivers clearNoise (knows (chatOf 2000)) () () (chatOf 2000) := by
  refine not_delivers clear_established ?_ ?_
  all_goals
    rw [datagramLength, Message.encode, Octets.length_frame, length_chatOf]
    decide

end ComputerMoney.Safety

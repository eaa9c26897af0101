/-
# Kernel.Protocol -- the messages as frames

A message is one JSON object, tagged with its type, led by its length in four bytes.  Writing
is spelled out; reading the JSON back is the crate's (`from_slice`, a parameter).

The frames make a `Framing` (`Message.framing`), so a reader of the stream takes the messages
it was sent however their bytes are cut: `stream_delivers`.
-/
import ComputerMoney.Kernel.Host
import ComputerMoney.Theory.Json
import ComputerMoney.Theory.Lines
import ComputerMoney.Theory.Octets
import ComputerMoney.Theory.Framing

namespace ComputerMoney.Kernel

set_option autoImplicit false

open Theory

namespace Message

/-- The object's fields: the tag in snake case, then the variant's own. -/
def fields : Message → List (String × Json.Scalar)
  | .addrRequest sats => [("type", .string "addr_request"), ("sats", .number sats)]
  | .addrResponse address index =>
      [("type", .string "addr_response"), ("address", .string address), ("index", .number index)]
  | .notify txid sats =>
      [("type", .string "notify"), ("txid", .string txid), ("sats", .number sats)]
  | .chat text => [("type", .string "chat"), ("text", .string text)]

/-- `serde_json::to_vec`. -/
def toVec (msg : Message) : List UInt8 :=
  Lines.bytes (Json.object (msg.fields.map fun member => Json.field member.1 member.2.text))

def lengthOctets : ℕ := 4

/-- `Message::encode`: the length as `u32`, then the body. -/
def encode (msg : Message) : List UInt8 := Octets.frame lengthOctets msg.toVec

/-- `Message::decode`: the message at the front of the buffer and the bytes it took. -/
def decode (fromSlice : List UInt8 → Option Message) (buf : List UInt8) : Option (Message × ℕ) :=
  (Octets.unframe lengthOctets buf).bind fun front =>
    (fromSlice front.1).map fun msg => (msg, front.2)

variable {fromSlice : List UInt8 → Option Message} {msg : Message}

/-- **A frame decodes to its message**, whatever follows it, if its length fits. -/
theorem decode_encode (reads : fromSlice msg.toVec = some msg)
    (fits : msg.toVec.length < 256 ^ lengthOctets) (rest : List UInt8) :
    decode fromSlice (msg.encode ++ rest) = some (msg, msg.encode.length) := by
  rw [decode, encode, Octets.unframe_frame fits, Option.bind_some, reads, Octets.length_frame]
  rfl

/-- No shorter part of a frame decodes. -/
theorem decode_part {front : List UInt8} (fits : msg.toVec.length < 256 ^ lengthOctets)
    (part : front <+: msg.encode) (short : front.length < msg.encode.length) :
    decode fromSlice front = none := by
  rw [decode, Octets.unframe_part fits part short]
  rfl

/-! ## The stream -/

/-- The messages as frames on a stream. -/
def framing (fromSlice : List UInt8 → Option Message) : Framing UInt8 Message where
  encode := encode
  decode := decode fromSlice
  idle := rfl

theorem framing_reads (reads : fromSlice msg.toVec = some msg)
    (fits : msg.toVec.length < 2 ^ 32) : (framing fromSlice).Reads msg where
  whole := decode_encode reads fits
  part _ := decode_part fits

end Message

open Message

/-- **The messages arrive as they were sent**, however their bytes are cut.  The reader that
decodes before it waits takes exactly them and is left with nothing; so does any order of
feeding and decoding that goes on to where it can go no further, and none goes on for longer
than the pieces and messages there are.  At every point the buffer decodes exactly when it
holds the last byte of the next message's frame, and no byte after it is consumed. -/
theorem stream_delivers (fromSlice : List UInt8 → Option Message) (msgs : List Message)
    (parses : ∀ msg ∈ msgs, fromSlice msg.toVec = some msg)
    (short : ∀ msg ∈ msgs, msg.toVec.length < 2 ^ 32) (chunks : List (List UInt8))
    (cut : chunks.flatten = msgs.flatMap Message.encode) :
    (framing fromSlice).drive (chunks.length + msgs.length) ⟨[], chunks, []⟩ = ⟨[], [], msgs⟩ ∧
    ∀ (n : ℕ) (r : Framing.Reader UInt8 Message),
      (framing fromSlice).Run n ⟨[], chunks, []⟩ r →
      n ≤ chunks.length + msgs.length ∧
      ((framing fromSlice).Stopped r → r = ⟨[], [], msgs⟩) ∧
      ∃ rest, msgs = r.taken ++ rest ∧
        Message.decode fromSlice r.buffer = (framing fromSlice).due r.buffer rest := by
  have reads : ∀ msg ∈ msgs, (framing fromSlice).Reads msg :=
    fun msg member => framing_reads (parses msg member) (short msg member)
  have sync : (framing fromSlice).Sync msgs ⟨[], chunks, []⟩ := ⟨msgs, rfl, cut⟩
  refine ⟨Framing.drive_takes reads sync, fun n r run => ?_⟩
  obtain ⟨sync', nearer⟩ := sync.run reads run
  refine ⟨?_, sync'.stopped reads, sync'.decode reads⟩
  simp only [List.length_nil] at nearer
  omega

/-- A greeting and a request, with one cut in the first length and one across both frames. -/
theorem stream_delivers_two :
    let msgs : List Message := [.chat "hi", .addrRequest 1000]
    let stream := msgs.flatMap Message.encode
    let fromSlice : List UInt8 → Option Message := fun body => msgs.find? (·.toVec = body)
    (framing fromSlice).drive 5
      ⟨[], [stream.take 2, (stream.drop 2).take 40, stream.drop 42], []⟩ = ⟨[], [], msgs⟩ := by
  intro msgs stream fromSlice
  refine (stream_delivers fromSlice msgs ?_ ?_ [stream.take 2, (stream.drop 2).take 40,
    stream.drop 42] ?_).1
  · decide +kernel
  · decide +kernel
  · decide +kernel

end ComputerMoney.Kernel

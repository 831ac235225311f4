import Alpine.Dtcp.PacketRoundTrip
import Mathlib.Data.Rat.Defs

/-!
# What becomes of a packet that is sent

`DtcpBaseUdpTransport::sendPacket` and `sendReliablePacket` take a buffer, have the packet written
to it, ask for its destination and give the buffer to the send queue. The packet is always a
`DtcpPacket` with a connection packet as its parent, whose `writeData` never returns true, so no
packet ever goes out this way (`SendOutcome.sent_eq_false`).

The writer is a class, so that the callers can be studied with any writer. Its only instance is that
of `DtcpPacket`: a theorem that names no other writer is about the code as it is.
-/

namespace Alpine

open Lib

/-- How the link layers of a connection packet are written: the status and the buffer after it. -/
class LinkWriter where
  writeData : ConnPacket → DataBuffer → Bool × DataBuffer

/-- `DtcpPacket::writeData` with the connection packet as its parent. -/
instance DtcpPacket.linkWriter : LinkWriter := ⟨fun conn linkBuffer => conn.chain.writeData linkBuffer⟩

/-- What a packet that is sent meets: the buffer that `getTempDataBuffer` gives out, if there is
one, the status of `addRequest`, the time and the draw for its retransmission. -/
structure SendOutcome where
  buffer : Option DataBuffer
  queued : Bool
  now : Nat
  draw : ℚ
  deriving DecidableEq

namespace SendOutcome

section AnyWriter

variable [LinkWriter]

/-- The packet is written and has a destination. -/
def written (o : SendOutcome) (packet : ConnPacket) : Bool :=
  match o.buffer with
  | none => false
  | some buffer => (LinkWriter.writeData packet buffer).1 && packet.getPeerLocation.isSome

/-- The status of the send. -/
def sent (o : SendOutcome) (packet : ConnPacket) : Bool := o.written packet && o.queued

end AnyWriter

@[simp] theorem written_eq_false (o : SendOutcome) (packet : ConnPacket) : o.written packet = false := by
  unfold written
  split
  · rfl
  · next buffer _ =>
    have hfalse : (LinkWriter.writeData packet buffer).1 = false :=
      DtcpPacket.writeData_parent (p := packet.chain) rfl buffer
    rw [hfalse, Bool.false_and]

/-- Nothing goes out. -/
@[simp] theorem sent_eq_false (o : SendOutcome) (packet : ConnPacket) : o.sent packet = false := by
  rw [sent, written_eq_false, Bool.false_and]

end SendOutcome

end Alpine

import TalkingTime.Rtp.Payloads

/-! Whether FU-A reassembly inverts the fragmentation loop: what that means for
one packet of the encoder, and that it never does. -/

namespace TalkingTime.Rtp

open Bytes FuA

/-- A packet of the encoder that the loop is for: a start code, the header of a
unit and its body. -/
structure EncoderOutput extends AVPacket where
  long : MAX_PACKET_LENGTH ≤ size
  startCode : slice data 0 4 = [0, 0, 0, 1]
  clear : Clear (data 4)

namespace EncoderOutput

variable (output : EncoderOutput)

def header : UInt8 := output.data 4

def body : List UInt8 := slice output.data 5 (output.size - 5)

def unit : List UInt8 := output.header :: output.body

end EncoderOutput

/-- The packets of the loop are the fragments of the unit, the last of them marked,
and `memcpy` stayed inside the frame. -/
structure InvertedByReassembly (output : EncoderOutput) (copied : List Nat)
    (packets : List RTPPacket) : Prop where
  inside : ∀ j ∈ copied, j < output.size
  fragmented : Fragmented output.header output.body (packets.map RTPPacket.payload)
  marked : ∀ (i : Nat) (bound : i < packets.length),
    packets[i].mark = true ↔ i + 1 = packets.length

theorem InvertedByReassembly.reassembles {output : EncoderOutput} {copied : List Nat}
    {packets : List RTPPacket} (inverted : InvertedByReassembly output copied packets) :
    reassemble (packets.map RTPPacket.payload) = [output.unit] :=
  reassemble_fragmented output.clear inverted.fragmented

def Inverts (session : RTPSession) (output : EncoderOutput) : Prop :=
  ∃ final packets, sendFragments session output.data output.size = some final ∧
    final.session.sent = session.sent ++ packets ∧
    InvertedByReassembly output final.copied packets

theorem paddedBody_ne_body (output : EncoderOutput) :
    paddedBody output.data output.size ≠ output.body := by
  intro same
  have lengths := length_paddedBody output.data output.size output.long
  rw [same, EncoderOutput.body, length_slice] at lengths
  have long := output.long
  unfold MAX_PACKET_LENGTH at long
  omega

theorem reassemble_ne_unit (output : EncoderOutput) :
    reassemble (fragmentPayloads output.data output.size) ≠ [output.unit] := by
  rw [reassemble, receiveAll_fragmentPayloads output.data output.size output.long output.clear]
  split
  · exact List.ne_cons_self
  · intro same
    have parts : output.data 4 = output.header ∧
        paddedBody output.data output.size = output.body := by
      simpa [Depacketiser.initial, EncoderOutput.unit] using same
    exact paddedBody_ne_body output parts.2

theorem Inverts.packets {session : RTPSession} {output : EncoderOutput}
    (inverts : Inverts session output) :
    InvertedByReassembly output (copiedIndices output.size)
      (fragmentPackets output.data output.size) := by
  obtain ⟨final, packets, ran, sent, inverted⟩ := inverts
  obtain ⟨closed, closedRan, closedSent, closedCopied⟩ :=
    sendFragments_eq_some output.data output.size session output.long
  have same : final = closed := Option.some.inj (ran.symm.trans closedRan)
  have samePackets : packets = fragmentPackets output.data output.size := by
    rw [same, closedSent] at sent
    exact (List.append_cancel_left sent).symm
  rw [same, closedCopied, samePackets] at inverted
  exact inverted

/-- The loop always ends, reassembly never inverts it, and the unit is never what
a receiver gets. -/
theorem inverts_never (session : RTPSession) (output : EncoderOutput) :
    ¬ Inverts session output ∧
      ∃ final packets, sendFragments session output.data output.size = some final ∧
        final.session.sent = session.sent ++ packets ∧
        reassemble (packets.map RTPPacket.payload) ≠ [output.unit] := by
  constructor
  · intro inverts
    have whole := inverts.packets.fragmented.whole
    have carried := flatMap_content_fragmentPayloads output.data output.size output.long
    exact paddedBody_ne_body output (carried.symm.trans whole)
  · obtain ⟨final, ran, sent, _⟩ :=
      sendFragments_eq_some output.data output.size session output.long
    exact ⟨final, fragmentPackets output.data output.size, ran, sent, reassemble_ne_unit output⟩

/-- The shortest frame that the loop gets: one packet, neither ended nor marked. -/
def shortestFrame : EncoderOutput where
  data i := [0, 0, 0, 1, 0x65].getD i 0
  size := 1360
  fits := by decide
  long := by decide
  startCode := by decide
  clear := by decide

theorem not_inverts_shortestFrame : ¬ Inverts .initial shortestFrame := by
  intro inverts
  have single : fragmentPackets shortestFrame.data shortestFrame.size =
      [⟨payloadAt shortestFrame.data 1360 0, false⟩] := rfl
  have marked := inverts.packets.marked
  rw [single] at marked
  exact absurd ((marked 0 (by decide)).mpr rfl) (by decide)

end TalkingTime.Rtp

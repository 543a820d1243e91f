import TalkingTime.Rtp.Payloads

/-! What a receiver gets from a whole stream of frames, short and long ones in any
order: short frames arrive, long ones arrive padded or are lost. -/

namespace TalkingTime.Rtp

open Bytes FuA

section Whole

variable (session : RTPSession) (sendData : Nat → UInt8) {sendlen : Nat}

theorem sendWhole_eq_some (least : 4 ≤ sendlen) (short : sendlen < MAX_PACKET_LENGTH) :
    sendWhole session sendData sendlen =
      some ⟨true, session.sent ++ [⟨slice sendData 4 (sendlen - 4), true⟩]⟩ := by
  have count : toSize (sendlen - 4) = sendlen - 4 := by
    unfold MAX_PACKET_LENGTH at short
    unfold toSize
    omega
  have fits : sendlen - 4 ≤ 1430 := by
    unfold MAX_PACKET_LENGTH at short
    omega
  have filled : memcpy sendbuf 0 sendData 4 (sendlen - 4) =
      some (slice sendData 4 (sendlen - 4) ++ List.replicate (1430 - (sendlen - 4)) 0) :=
    memcpy_fresh sendData 0 4 fits
  simp only [sendWhole, count, filled, Option.bind_eq_bind, Option.bind_some,
    sendPacket_written _ _ (length_slice sendData 4 (sendlen - 4)), setDefaultMark_defaultMark,
    setDefaultMark_sent]

theorem sendWhole_eq_none (tiny : sendlen < 4) : sendWhole session sendData sendlen = none := by
  have huge : ¬ 0 + toSize (sendlen - 4) ≤ sendbuf.length := by
    have buffer : sendbuf.length = 1430 := List.length_replicate
    rw [buffer]
    unfold toSize
    omega
  simp only [sendWhole, memcpy, if_neg huge, Option.bind_eq_bind, Option.bind_none]

end Whole

def framePackets (frame : AVPacket) : List RTPPacket :=
  if frame.size < MAX_PACKET_LENGTH then [⟨slice frame.data 4 (frame.size - 4), true⟩]
  else fragmentPackets frame.data frame.size

theorem sendFrame_eq_some (session : RTPSession) (frame : AVPacket) (least : 4 ≤ frame.size) :
    ∃ next, sendFrame session frame = some next ∧
      next.sent = session.sent ++ framePackets frame := by
  rcases Nat.lt_or_ge frame.size MAX_PACKET_LENGTH with short | long
  · refine ⟨⟨true, session.sent ++ framePackets frame⟩, ?_, rfl⟩
    rw [sendFrame, if_pos short, sendWhole_eq_some session frame.data least short, framePackets,
      if_pos short]
  · obtain ⟨final, ran, sent, _⟩ := sendFragments_eq_some frame.data frame.size session long
    have notShort : ¬ frame.size < MAX_PACKET_LENGTH := Nat.not_lt.mpr long
    refine ⟨final.session, ?_, ?_⟩
    · rw [sendFrame, if_neg notShort, ran]
      rfl
    · rw [sent, framePackets, if_neg notShort]

theorem sendFrame_eq_none_iff (session : RTPSession) (frame : AVPacket) :
    sendFrame session frame = none ↔ frame.size < 4 := by
  constructor
  · intro fault
    by_contra whole
    obtain ⟨next, sent, _⟩ := sendFrame_eq_some session frame (Nat.not_lt.mp whole)
    rw [fault] at sent
    cases sent
  · intro tiny
    have short : frame.size < MAX_PACKET_LENGTH := Nat.lt_trans tiny (by decide)
    rw [sendFrame, if_pos short, sendWhole_eq_none session frame.data tiny]

/-- The sender gets through a stream exactly when each of its frames has a start code. -/
theorem sendFrames_eq_none_iff (frames : List AVPacket) (session : RTPSession) :
    sendFrames session frames = none ↔ ∃ frame ∈ frames, frame.size < 4 := by
  induction frames generalizing session with
  | nil => simp [sendFrames]
  | cons frame rest ih =>
      have either : (∃ other ∈ frame :: rest, other.size < 4) ↔
          frame.size < 4 ∨ ∃ other ∈ rest, other.size < 4 := List.exists_mem_cons_iff _ _ _
      rw [either, ← sendFrame_eq_none_iff session frame]
      cases taken : sendFrame session frame with
      | none => simp [sendFrames, Runs.run, taken]
      | some next =>
          have later : sendFrames session (frame :: rest) = sendFrames next rest := by
            simp only [sendFrames, Runs.run, taken]
          have whole : ¬ some next = none := Option.some_ne_none next
          rw [later, ih next, or_iff_right whole]

/-- A frame with a unit in it, of a type that is not itself a fragment. -/
structure UnitFrame extends AVPacket where
  headed : 5 ≤ size
  clear : Clear (data 4)
  kind : unitType (data 4) ≠ fragmentType

namespace UnitFrame

variable (frame : UnitFrame)

def unit : List UInt8 := slice frame.data 4 (frame.size - 4)

def delivered : List (List UInt8) :=
  if frame.size < MAX_PACKET_LENGTH then [frame.unit]
  else if frame.size % MAX_PACKET_LENGTH = 0 then []
  else [frame.data 4 :: paddedBody frame.data frame.size]

theorem indicator_unit : indicator frame.unit = frame.data 4 := by
  have headed := frame.headed
  have split : frame.size - 4 = 1 + (frame.size - 5) := by omega
  rw [unit, split, ← slice_append, slice_one]
  rfl

theorem delivered_length_le : frame.delivered.length ≤ 1 := by
  unfold delivered
  split
  · exact Nat.le_refl 1
  · split
    · exact Nat.zero_le 1
    · exact Nat.le_refl 1

theorem delivered_eq_unit_iff :
    frame.delivered = [frame.unit] ↔ frame.size < MAX_PACKET_LENGTH := by
  constructor
  · intro same
    by_contra notShort
    have long : MAX_PACKET_LENGTH ≤ frame.size := Nat.not_lt.mp notShort
    rw [delivered, if_neg notShort] at same
    split at same
    · cases same
    · have units : frame.data 4 :: paddedBody frame.data frame.size = frame.unit :=
        List.head_eq_of_cons_eq same
      have lengths := congrArg List.length units
      rw [List.length_cons, length_paddedBody frame.data frame.size long, unit,
        length_slice] at lengths
      omega
  · intro short
    rw [delivered, if_pos short]

theorem receiveAll_framePackets (state : Depacketiser) :
    (state.receiveAll ((framePackets frame.toAVPacket).map RTPPacket.payload)).units =
      state.units ++ frame.delivered := by
  rcases Nat.lt_or_ge frame.size MAX_PACKET_LENGTH with short | long
  · have single : unitType (indicator frame.unit) ≠ fragmentType := by
      rw [indicator_unit]
      exact frame.kind
    rw [framePackets, delivered, if_pos short, if_pos short]
    have received := Depacketiser.receive_single state single
    exact congrArg Depacketiser.units received
  · have notShort : ¬ frame.size < MAX_PACKET_LENGTH := Nat.not_lt.mpr long
    rw [framePackets, delivered, if_neg notShort, if_neg notShort]
    have received := receiveAll_fragmentPayloads frame.data frame.size long frame.clear state
    rw [fragmentPayloads] at received
    rw [received]
    split
    · rw [List.append_nil]
    · rfl

end UnitFrame

theorem sendFrames_delivered (frames : List UnitFrame) (session : RTPSession) :
    ∃ final packets, sendFrames session (frames.map UnitFrame.toAVPacket) = some final ∧
      final.sent = session.sent ++ packets ∧
      ∀ state : Depacketiser, (state.receiveAll (packets.map RTPPacket.payload)).units =
        state.units ++ frames.flatMap UnitFrame.delivered := by
  induction frames generalizing session with
  | nil =>
      refine ⟨session, [], rfl, (List.append_nil _).symm, ?_⟩
      intro state
      exact (List.append_nil _).symm
  | cons frame rest ih =>
      have least : 4 ≤ frame.size := Nat.le_of_succ_le frame.headed
      obtain ⟨next, taken, sent⟩ := sendFrame_eq_some session frame.toAVPacket least
      obtain ⟨final, packets, ran, restSent, received⟩ := ih next
      refine ⟨final, framePackets frame.toAVPacket ++ packets, ?_, ?_, ?_⟩
      · exact Runs.run_cons_eq_some.mpr ⟨next, taken, ran⟩
      · rw [restSent, sent, List.append_assoc]
      · intro state
        rw [List.map_append, Depacketiser.receiveAll_append, received,
          frame.receiveAll_framePackets, List.append_assoc, List.flatMap_cons]

theorem delivered_length_le (frames : List UnitFrame) :
    (frames.flatMap UnitFrame.delivered).length ≤ frames.length := by
  induction frames with
  | nil => exact Nat.le_refl 0
  | cons frame rest ih =>
      have first := frame.delivered_length_le
      rw [List.flatMap_cons, List.length_append, List.length_cons]
      omega

theorem delivered_eq_units_iff (frames : List UnitFrame) :
    frames.flatMap UnitFrame.delivered = frames.map UnitFrame.unit ↔
      ∀ frame ∈ frames, frame.size < MAX_PACKET_LENGTH := by
  induction frames with
  | nil => simp
  | cons frame rest ih =>
      rw [List.flatMap_cons, List.map_cons, List.forall_mem_cons, ← ih,
        ← frame.delivered_eq_unit_iff]
      constructor
      · intro same
        have one : frame.delivered.length = 1 := by
          have lengths := congrArg List.length same
          have first := frame.delivered_length_le
          have others := delivered_length_le rest
          rw [List.length_append, List.length_cons, List.length_map] at lengths
          omega
        exact List.append_inj (same : _ = [frame.unit] ++ rest.map UnitFrame.unit) one
      · rintro ⟨first, others⟩
        rw [first, others]
        rfl

/-- From end to end: a fresh receiver gets exactly the units that were sent if and only if
all frames are short. -/
theorem reassemble_sendFrames_iff (frames : List UnitFrame) (session : RTPSession) :
    ∃ final packets, sendFrames session (frames.map UnitFrame.toAVPacket) = some final ∧
      final.sent = session.sent ++ packets ∧
      (reassemble (packets.map RTPPacket.payload) = frames.map UnitFrame.unit ↔
        ∀ frame ∈ frames, frame.size < MAX_PACKET_LENGTH) := by
  obtain ⟨final, packets, ran, sent, received⟩ := sendFrames_delivered frames session
  have units := received Depacketiser.initial
  refine ⟨final, packets, ran, sent, ?_⟩
  rw [reassemble, units, ← delivered_eq_units_iff frames]
  rfl

end TalkingTime.Rtp

import TalkingTime.Rtp.RawSender

/-! Whether a receiver that joins packets up to the mark gets the frames of
`test_rtp_client_3` back. It does as long as no long frame is a multiple of
`MAX_PACKET_LENGTH`; one that is runs into the frame behind it, and the short
frames that follow stay unmarked too. -/

namespace TalkingTime.Rtp.Raw

open Framing

def pieces (packets : List RTPPacket) : List (Piece UInt8) :=
  packets.map fun packet => ⟨packet.payload, packet.mark⟩

/-- The last packet of the frame is marked if the one before the frame was. -/
def EndsMarked (frame : AVPacket) : Prop :=
  frame.size < MAX_PACKET_LENGTH ∨ 0 < frame.size % MAX_PACKET_LENGTH

instance (frame : AVPacket) : Decidable (EndsMarked frame) :=
  inferInstanceAs (Decidable (_ ∨ _))

theorem pieces_append (front back : List RTPPacket) :
    pieces (front ++ back) = pieces front ++ pieces back := List.map_append

theorem flatMap_content_pieces (packets : List RTPPacket) :
    (pieces packets).flatMap Piece.content = packets.flatMap RTPPacket.payload := by
  rw [pieces, List.flatMap_map]

theorem markAfter_true_iff (frame : AVPacket) : markAfter true frame = true ↔ EndsMarked frame := by
  rw [markAfter, EndsMarked]
  split
  · simp [*]
  · simp [*]

theorem markAfter_of_not_endsMarked {frame : AVPacket} (unmarked : ¬ EndsMarked frame)
    (mark : Bool) : markAfter mark frame = false := by
  obtain ⟨notShort, exact⟩ := not_or.mp unmarked
  rw [markAfter, if_neg notShort, decide_eq_false exact]

section Frame

variable (state : Joiner UInt8) {mark : Bool} {frame : AVPacket}

theorem receiveAll_loopPackets_marked (sendData : Nat → UInt8) {sendlen : Nat}
    (remains : 0 < sendlen % MAX_PACKET_LENGTH) :
    state.receiveAll (pieces (loopPackets sendlen (payloadAt sendData sendlen))) =
      ⟨[], state.units ++ [state.pending ++ Bytes.slice sendData 0 sendlen]⟩ := by
  have count : fragmentCount sendlen = sendlen / MAX_PACKET_LENGTH + 1 := by
    rw [fragmentCount, if_pos remains]
  have joined := flatMap_payload_loopPackets sendData sendlen
  rw [← flatMap_content_pieces] at joined
  rw [loopPackets, count, List.range_succ, List.map_append, pieces_append] at joined ⊢
  rw [List.map_singleton] at joined ⊢
  rw [← joined]
  apply Joiner.receiveAll_unit
  · intro piece member
    simp only [pieces, List.map_map, List.mem_map, List.mem_range] at member
    obtain ⟨t, inner, rfl⟩ := member
    exact decide_eq_false (Nat.not_le.mpr inner)
  · exact decide_eq_true (Nat.le_refl _)

theorem receiveAll_loopPackets_unmarked (sendData : Nat → UInt8) {sendlen : Nat}
    (exact : sendlen % MAX_PACKET_LENGTH = 0) :
    state.receiveAll (pieces (loopPackets sendlen (payloadAt sendData sendlen))) =
      { state with pending := state.pending ++ Bytes.slice sendData 0 sendlen } := by
  rw [← flatMap_payload_loopPackets sendData sendlen, ← flatMap_content_pieces]
  apply Joiner.receiveAll_unmarked
  intro piece member
  simp only [pieces, loopPackets, List.map_map, List.mem_map, List.mem_range] at member
  obtain ⟨t, bound, rfl⟩ := member
  exact markAt_eq_false sendlen exact bound

theorem receiveAll_framePackets_marked (marked : markAfter mark frame = true) :
    state.receiveAll (pieces (framePackets mark frame)) =
      ⟨[], state.units ++ [state.pending ++ frameBytes frame]⟩ := by
  unfold markAfter at marked
  unfold framePackets
  split at marked
  · next short =>
      rw [if_pos short, marked]
      rfl
  · next notShort =>
      rw [if_neg notShort]
      exact receiveAll_loopPackets_marked state frame.data (of_decide_eq_true marked)

theorem receiveAll_framePackets_unmarked (unmarked : markAfter mark frame = false) :
    state.receiveAll (pieces (framePackets mark frame)) =
      { state with pending := state.pending ++ frameBytes frame } := by
  unfold markAfter at unmarked
  unfold framePackets
  split at unmarked
  · next short =>
      rw [if_pos short, unmarked]
      rfl
  · next notShort =>
      have exact : frame.size % MAX_PACKET_LENGTH = 0 :=
        Nat.eq_zero_of_not_pos (of_decide_eq_false unmarked)
      rw [if_neg notShort]
      exact receiveAll_loopPackets_unmarked state frame.data exact

end Frame

section Stream

variable (frames : List AVPacket) (state : Joiner UInt8) (mark : Bool)

theorem receiveAll_packetsFrom (allMarked : ∀ frame ∈ frames, EndsMarked frame)
    (idle : state.pending = []) :
    state.receiveAll (pieces (packetsFrom true frames)) =
      ⟨[], state.units ++ frames.map frameBytes⟩ := by
  induction frames generalizing state with
  | nil =>
      rw [List.map_nil, List.append_nil, ← idle]
      rfl
  | cons frame rest ih =>
      have marked : markAfter true frame = true :=
        (markAfter_true_iff frame).mpr (allMarked frame List.mem_cons_self)
      have others : ∀ frame ∈ rest, EndsMarked frame := by
        intro other member
        exact allMarked other (List.mem_cons_of_mem _ member)
      rw [packetsFrom, pieces_append, Joiner.receiveAll_append,
        receiveAll_framePackets_marked state marked, marked, ih _ others rfl, idle]
      simp

theorem units_length_framePackets (frame : AVPacket) :
    (state.receiveAll (pieces (framePackets mark frame))).units.length ≤
      state.units.length + 1 := by
  cases marked : markAfter mark frame with
  | true =>
      rw [receiveAll_framePackets_marked state marked, List.length_append,
        List.length_singleton]
  | false =>
      rw [receiveAll_framePackets_unmarked state marked]
      exact Nat.le_succ _

theorem units_length_le :
    (state.receiveAll (pieces (packetsFrom mark frames))).units.length ≤
      state.units.length + frames.length := by
  induction frames generalizing state mark with
  | nil => exact Nat.le_refl _
  | cons frame rest ih =>
      have first := units_length_framePackets state mark frame
      have others := ih (state.receiveAll (pieces (framePackets mark frame)))
        (markAfter mark frame)
      rw [packetsFrom, pieces_append, Joiner.receiveAll_append, List.length_cons]
      omega

theorem units_length_lt (lost : ∃ frame ∈ frames, ¬ EndsMarked frame) :
    (state.receiveAll (pieces (packetsFrom mark frames))).units.length <
      state.units.length + frames.length := by
  induction frames generalizing state mark with
  | nil =>
      obtain ⟨_, member, _⟩ := lost
      cases member
  | cons frame rest ih =>
      rw [packetsFrom, pieces_append, Joiner.receiveAll_append, List.length_cons]
      by_cases ends : EndsMarked frame
      · have first := units_length_framePackets state mark frame
        have lostLater : ∃ frame ∈ rest, ¬ EndsMarked frame := by
          obtain ⟨other, member, unmarked⟩ := lost
          rcases List.mem_cons.mp member with rfl | later
          · exact absurd ends unmarked
          · exact ⟨other, later, unmarked⟩
        have others := ih (state.receiveAll (pieces (framePackets mark frame)))
          (markAfter mark frame) lostLater
        omega
      · have unmarked := markAfter_of_not_endsMarked ends mark
        rw [receiveAll_framePackets_unmarked state unmarked]
        have others := units_length_le rest
          { state with pending := state.pending ++ frameBytes frame } (markAfter mark frame)
        change _ ≤ state.units.length + rest.length at others
        omega

end Stream

/-- From end to end: a receiver that joins up to the mark gets exactly the frames
if and only if no long frame is a multiple of `MAX_PACKET_LENGTH`. -/
theorem join_sendFrames_iff (frames : List AVPacket) :
    ∃ final, sendFrames .initial frames = some final ∧
      ((Joiner.initial.receiveAll (pieces final.sent)).units = frames.map frameBytes ↔
        ∀ frame ∈ frames, EndsMarked frame) := by
  refine ⟨_, sendFrames_eq_some frames .initial, ?_⟩
  change (Joiner.initial.receiveAll (pieces (packetsFrom true frames))).units = _ ↔ _
  constructor
  · intro joined frame member
    by_contra unmarked
    have fewer := units_length_lt frames Joiner.initial true ⟨frame, member, unmarked⟩
    change _ < 0 + frames.length at fewer
    rw [joined, List.length_map] at fewer
    omega
  · intro allMarked
    rw [receiveAll_packetsFrom frames Joiner.initial allMarked rfl]
    rfl

end TalkingTime.Rtp.Raw

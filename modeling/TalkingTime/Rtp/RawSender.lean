import TalkingTime.Library.Bytes
import TalkingTime.Library.Framing
import TalkingTime.Library.Runs
import TalkingTime.Rtp.Blocks

/-! The frame sender of `test_rtp_client_3`: the loop of `test_rtp_client` without
fragment headers. Its packets carry the bytes of the stream as they are, and the
mark ends a frame except where the last block of a frame is a full one. -/

namespace TalkingTime.Rtp.Raw

open Bytes Framing Loop

/-- The branch for `sendlen < MAX_PACKET_LENGTH`, which leaves the default mark alone. -/
def sendWhole (session : RTPSession) (sendData : Nat → UInt8) (sendlen : Nat) :
    Option RTPSession := do
  let buf ← memcpy sendbuf 0 sendData 0 (toSize sendlen)
  session.sendPacket buf (toSize sendlen)

def sendBlock (state : FragmentLoop) (mark : Bool) (sendData : Nat → UInt8) (start len : Nat) :
    Option FragmentLoop := do
  let buf ← memcpy sendbuf 0 sendData start len
  let session ← (state.session.setDefaultMark mark).sendPacket buf len
  some ⟨state.t + 1, session, state.copied ++ List.range' start len⟩

def fragment (sendData : Nat → UInt8) (sendlen : Nat) (state : FragmentLoop) :
    Option FragmentLoop :=
  let k := sendlen / MAX_PACKET_LENGTH
  let l := sendlen % MAX_PACKET_LENGTH
  let t := state.t
  if t = 0 ∨ (t < k ∧ t ≠ 0) then
    sendBlock state false sendData (t * MAX_PACKET_LENGTH) MAX_PACKET_LENGTH
  -- `t == (k - 1)` of the source; `k` is positive wherever the loop runs.
  else if (k = t ∧ 0 < l) ∨ (t + 1 = k ∧ l = 0) then
    let iSendLen := if 0 < l then sendlen - t * MAX_PACKET_LENGTH else MAX_PACKET_LENGTH
    sendBlock state true sendData (t * MAX_PACKET_LENGTH) iSendLen
  else some { state with t := t + 1 }

def sendFragments (session : RTPSession) (sendData : Nat → UInt8) (sendlen : Nat) :
    Option FragmentLoop :=
  whileLoop (moreFragments sendlen) (fragment sendData sendlen)
    (sendlen / MAX_PACKET_LENGTH + 2) ⟨0, session.setDefaultMark false, []⟩

def sendFrame (session : RTPSession) (h264Packet : AVPacket) : Option RTPSession :=
  let sendData := h264Packet.data
  let sendlen := h264Packet.size
  if sendlen < MAX_PACKET_LENGTH then sendWhole session sendData sendlen
  else (sendFragments session sendData sendlen).map FragmentLoop.session

def sendFrames (session : RTPSession) (frames : List AVPacket) : Option RTPSession :=
  Runs.run sendFrame session frames

section ClosedForm

variable (sendData : Nat → UInt8) (sendlen : Nat)

def blockLength (t : Nat) : Nat :=
  if t < sendlen / MAX_PACKET_LENGTH then MAX_PACKET_LENGTH else sendlen % MAX_PACKET_LENGTH

def payloadAt (t : Nat) : List UInt8 :=
  slice sendData (t * MAX_PACKET_LENGTH) (blockLength sendlen t)

def copiedAt (t : Nat) : List Nat :=
  List.range' (t * MAX_PACKET_LENGTH) (blockLength sendlen t)

theorem loopCopied_eq_range : loopCopied sendlen (copiedAt sendlen) = List.range sendlen := by
  have parts := quotient_mul_add_remainder sendlen
  have full : (List.range (sendlen / MAX_PACKET_LENGTH)).flatMap (copiedAt sendlen) =
      List.range' 0 (sendlen / MAX_PACKET_LENGTH * MAX_PACKET_LENGTH) := by
    rw [← flatMap_range']
    apply List.flatMap_congr
    intro t member
    rw [copiedAt, blockLength, if_pos (List.mem_range.mp member), Nat.zero_add]
  rw [loopCopied, fragmentCount, List.range_eq_range' (n := sendlen)]
  rcases Nat.eq_zero_or_pos (sendlen % MAX_PACKET_LENGTH) with exact | remains
  · rw [exact, Nat.add_zero] at parts
    rw [exact, if_neg (Nat.lt_irrefl 0), Nat.add_zero, full, parts]
  · have last : copiedAt sendlen (sendlen / MAX_PACKET_LENGTH) =
        List.range' (0 + sendlen / MAX_PACKET_LENGTH * MAX_PACKET_LENGTH)
          (sendlen % MAX_PACKET_LENGTH) := by
      rw [copiedAt, blockLength, if_neg (Nat.lt_irrefl _), Nat.zero_add]
    rw [if_pos remains, List.range_succ, List.flatMap_append, full, List.flatMap_singleton, last,
      List.range'_append_1, parts]

theorem flatMap_payload_loopPackets :
    (loopPackets sendlen (payloadAt sendData sendlen)).flatMap RTPPacket.payload =
      slice sendData 0 sendlen := by
  calc
    (loopPackets sendlen (payloadAt sendData sendlen)).flatMap RTPPacket.payload =
        (List.range (fragmentCount sendlen)).flatMap
          (fun t => (copiedAt sendlen t).map sendData) := by
      rw [loopPackets, List.flatMap_map]
      rfl
    _ = (loopCopied sendlen (copiedAt sendlen)).map sendData := by
      rw [loopCopied, List.map_flatMap]
    _ = slice sendData 0 sendlen := by
      rw [loopCopied_eq_range, slice, List.range_eq_range']

end ClosedForm

theorem memcpy_sendbuf (sendData : Nat → UInt8) (start : Nat) {len : Nat} (fits : len ≤ 1430) :
    memcpy sendbuf 0 sendData start len =
      some (slice sendData start len ++ List.replicate (1430 - len) 0) :=
  memcpy_fresh sendData 0 start fits

theorem sendWhole_eq_some (session : RTPSession) (sendData : Nat → UInt8) {sendlen : Nat}
    (short : sendlen < MAX_PACKET_LENGTH) :
    sendWhole session sendData sendlen =
      some { session with
        sent := session.sent ++ [⟨slice sendData 0 sendlen, session.defaultMark⟩] } := by
  unfold MAX_PACKET_LENGTH at short
  have count : toSize sendlen = sendlen := by
    unfold toSize
    omega
  have fits : sendlen ≤ 1430 := by omega
  simp only [sendWhole, count, memcpy_sendbuf sendData 0 fits, Option.bind_eq_bind,
    Option.bind_some, sendPacket_written session _ (length_slice sendData 0 sendlen)]

section Iteration

variable (sendData : Nat → UInt8) (sendlen : Nat) (state : FragmentLoop)

theorem sendBlock_eq_some (mark : Bool) (start : Nat) {len : Nat} (fits : len ≤ 1430) :
    sendBlock state mark sendData start len =
      some ⟨state.t + 1, ⟨mark, state.session.sent ++ [⟨slice sendData start len, mark⟩]⟩,
        state.copied ++ List.range' start len⟩ := by
  simp only [sendBlock, memcpy_sendbuf sendData start fits, Option.bind_eq_bind,
    Option.bind_some, sendPacket_written _ _ (length_slice sendData start len),
    setDefaultMark_defaultMark, setDefaultMark_sent]

theorem fragment_inner (inner : state.t < sendlen / MAX_PACKET_LENGTH) :
    fragment sendData sendlen state =
      some (state.after sendlen (payloadAt sendData sendlen) (copiedAt sendlen)) := by
  have sent := sendBlock_eq_some sendData state false (state.t * MAX_PACKET_LENGTH)
    (by decide : MAX_PACKET_LENGTH ≤ 1430)
  have full : state.t = 0 ∨ (state.t < sendlen / MAX_PACKET_LENGTH ∧ state.t ≠ 0) := by omega
  have unmarked : ¬ sendlen / MAX_PACKET_LENGTH ≤ state.t := by omega
  simp only [fragment, FragmentLoop.after, payloadAt, copiedAt, blockLength, markAt, if_pos full,
    if_pos inner, decide_eq_false unmarked]
  exact sent

theorem fragment_last (positive : state.t ≠ 0) (outer : state.t = sendlen / MAX_PACKET_LENGTH)
    (remains : 0 < sendlen % MAX_PACKET_LENGTH) :
    fragment sendData sendlen state =
      some (state.after sendlen (payloadAt sendData sendlen) (copiedAt sendlen)) := by
  have length : sendlen - state.t * MAX_PACKET_LENGTH = sendlen % MAX_PACKET_LENGTH := by
    have parts := quotient_mul_add_remainder sendlen
    rw [outer]
    omega
  have fits : sendlen % MAX_PACKET_LENGTH ≤ 1430 := by
    have short : sendlen % MAX_PACKET_LENGTH < 1360 := Nat.mod_lt _ (by decide)
    omega
  have sent := sendBlock_eq_some sendData state true (state.t * MAX_PACKET_LENGTH) fits
  simp only [fragment, FragmentLoop.after, payloadAt, copiedAt, blockLength, markAt, positive,
    outer.symm, Nat.lt_irrefl, Nat.le_refl, remains, length, if_false, if_true, and_self, or_self,
    true_or, false_and, decide_true]
  exact sent

theorem fragment_eq_some (long : MAX_PACKET_LENGTH ≤ sendlen)
    (more : moreFragments sendlen state = true) :
    fragment sendData sendlen state =
      some (state.after sendlen (payloadAt sendData sendlen) (copiedAt sendlen)) := by
  have quotient := quotient_pos sendlen long
  have bound := (moreFragments_iff sendlen state).mp more
  by_cases inner : state.t < sendlen / MAX_PACKET_LENGTH
  · exact fragment_inner sendData sendlen state inner
  · obtain ⟨outer, remains⟩ := remainder_of_last sendlen bound inner
    exact fragment_last sendData sendlen state (by omega) outer remains

end Iteration

theorem sendFragments_eq_some (sendData : Nat → UInt8) (sendlen : Nat) (session : RTPSession)
    (long : MAX_PACKET_LENGTH ≤ sendlen) :
    ∃ final, sendFragments session sendData sendlen = some final ∧
      final.session = ⟨decide (0 < sendlen % MAX_PACKET_LENGTH),
        session.sent ++ loopPackets sendlen (payloadAt sendData sendlen)⟩ ∧
      final.copied = List.range sendlen := by
  obtain ⟨final, ran, sent, copied⟩ := fragmentLoop_eq_some sendlen
    (payloadAt sendData sendlen) (copiedAt sendlen) long
    (fun state => fragment_eq_some sendData sendlen state long) session
  rw [loopCopied_eq_range] at copied
  exact ⟨final, ran, sent, copied⟩

section Frames

def frameBytes (frame : AVPacket) : List UInt8 := slice frame.data 0 frame.size

def framePackets (mark : Bool) (frame : AVPacket) : List RTPPacket :=
  if frame.size < MAX_PACKET_LENGTH then [⟨frameBytes frame, mark⟩]
  else loopPackets frame.size (payloadAt frame.data frame.size)

def markAfter (mark : Bool) (frame : AVPacket) : Bool :=
  if frame.size < MAX_PACKET_LENGTH then mark else decide (0 < frame.size % MAX_PACKET_LENGTH)

def packetsFrom : Bool → List AVPacket → List RTPPacket
  | _, [] => []
  | mark, frame :: rest => framePackets mark frame ++ packetsFrom (markAfter mark frame) rest

theorem sendFrame_eq_some (session : RTPSession) (frame : AVPacket) :
    sendFrame session frame =
      some ⟨markAfter session.defaultMark frame,
        session.sent ++ framePackets session.defaultMark frame⟩ := by
  rcases Nat.lt_or_ge frame.size MAX_PACKET_LENGTH with short | long
  · rw [sendFrame, if_pos short, sendWhole_eq_some session frame.data short, markAfter,
      if_pos short, framePackets, if_pos short, frameBytes]
  · obtain ⟨final, ran, sent, _⟩ := sendFragments_eq_some frame.data frame.size session long
    have notShort : ¬ frame.size < MAX_PACKET_LENGTH := Nat.not_lt.mpr long
    rw [sendFrame, if_neg notShort, ran, Option.map_some, sent, markAfter, if_neg notShort,
      framePackets, if_neg notShort]

theorem sendFrames_eq_some (frames : List AVPacket) (session : RTPSession) :
    sendFrames session frames =
      some ⟨frames.foldl markAfter session.defaultMark,
        session.sent ++ packetsFrom session.defaultMark frames⟩ := by
  induction frames generalizing session with
  | nil =>
      rw [packetsFrom, List.append_nil]
      rfl
  | cons frame rest ih =>
      rw [packetsFrom, ← List.append_assoc]
      exact Runs.run_cons_eq_some.mpr ⟨_, sendFrame_eq_some session frame, ih _⟩

theorem flatMap_payload_framePackets (mark : Bool) (frame : AVPacket) :
    (framePackets mark frame).flatMap RTPPacket.payload = frameBytes frame := by
  unfold framePackets
  split
  · rw [List.flatMap_singleton]
  · rw [flatMap_payload_loopPackets, frameBytes]

theorem flatMap_payload_packetsFrom (mark : Bool) (frames : List AVPacket) :
    (packetsFrom mark frames).flatMap RTPPacket.payload = frames.flatMap frameBytes := by
  induction frames generalizing mark with
  | nil => rfl
  | cons frame rest ih =>
      rw [packetsFrom, List.flatMap_append, flatMap_payload_framePackets, ih, List.flatMap_cons]

/-- The sender takes every stream, and what it has sent then is the stream. -/
theorem sendFrames_bytes (frames : List AVPacket) (session : RTPSession) :
    ∃ final, sendFrames session frames = some final ∧
      final.sent.flatMap RTPPacket.payload =
        session.sent.flatMap RTPPacket.payload ++ frames.flatMap frameBytes := by
  refine ⟨_, sendFrames_eq_some frames session, ?_⟩
  rw [List.flatMap_append, flatMap_payload_packetsFrom]

end Frames

end TalkingTime.Rtp.Raw

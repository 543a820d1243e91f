import TalkingTime.Library.Bytes
import TalkingTime.Library.Loop
import TalkingTime.Library.Runs
import TalkingTime.Rtp.Session

/-! The frame sender of `test_rtp_client`: how `main` hands one packet of the
H.264 encoder to the RTP session, whole or cut into FU-A fragments. -/

namespace TalkingTime.Rtp

open Bytes Loop

/-- The branch for `sendlen < MAX_PACKET_LENGTH`: everything after the start code. -/
def sendWhole (session : RTPSession) (sendData : Nat → UInt8) (sendlen : Nat) :
    Option RTPSession := do
  let buf ← memcpy sendbuf 0 sendData 4 (toSize (sendlen - 4))
  (session.setDefaultMark true).sendPacket buf (toSize (sendlen - 4))

def fillFragment (fu_indicator fu_type : UInt8) (sendData : Nat → UInt8) (start count : Nat) :
    Option (List UInt8) := do
  let buf ← memcpy sendbuf 0 (fun _ => fu_indicator) 0 1
  let buf ← memcpy buf 1 (fun _ => fu_type) 0 1
  memcpy buf 2 sendData start count

def FragmentLoop.sendFragment (state : FragmentLoop) (mark : Bool) (fu_indicator fu_type : UInt8)
    (sendData : Nat → UInt8) (start count len : Nat) : Option FragmentLoop := do
  let buf ← fillFragment fu_indicator fu_type sendData start count
  let session ← (state.session.setDefaultMark mark).sendPacket buf len
  some ⟨state.t + 1, session, state.copied ++ List.range' start count⟩

/-- The body of the loop. It also sets `sending_len`, which nothing reads: the
first two kinds of fragment are sent with `MAX_PACKET_LENGTH + 2` bytes. -/
def fragment (sendData : Nat → UInt8) (sendlen : Nat) (state : FragmentLoop) :
    Option FragmentLoop :=
  let naltype := sendData 4
  let fu_indicator := (naltype &&& 0x60) ||| 28
  let k := sendlen / MAX_PACKET_LENGTH
  let l := sendlen % MAX_PACKET_LENGTH
  let t := state.t
  let fu_type := naltype &&& 0x1f
  if t = 0 ∨ (t < k ∧ t ≠ 0) then
    if t = 0 then
      state.sendFragment false fu_indicator (fu_type ||| 0x80) sendData
        5 (MAX_PACKET_LENGTH - 5) (MAX_PACKET_LENGTH + 2)
    else
      state.sendFragment false fu_indicator fu_type sendData
        (t * MAX_PACKET_LENGTH) (MAX_PACKET_LENGTH + 2) (MAX_PACKET_LENGTH + 2)
  -- `t == (k - 1)` of the source; `k` is positive wherever the loop runs.
  else if (k = t ∧ 0 < l) ∨ (t + 1 = k ∧ l = 0) then
    let i_sendlen := if 0 < l then sendlen - t * MAX_PACKET_LENGTH else MAX_PACKET_LENGTH
    state.sendFragment true fu_indicator (fu_type ||| 0x40) sendData
      (t * MAX_PACKET_LENGTH) i_sendlen (i_sendlen + 2)
  else some { state with t := t + 1 }

/-- The branch for longer packets. Its loop makes at most one iteration more than
the quotient, so the fuel is enough (`sendFragments_eq_some`). -/
def sendFragments (session : RTPSession) (sendData : Nat → UInt8) (sendlen : Nat) :
    Option FragmentLoop :=
  whileLoop (moreFragments sendlen) (fragment sendData sendlen)
    (sendlen / MAX_PACKET_LENGTH + 2) ⟨0, session.setDefaultMark false, []⟩

def sendFrame (session : RTPSession) (h264Packet : AVPacket) : Option RTPSession :=
  let sendData := h264Packet.data
  let sendlen := h264Packet.size
  if sendlen < MAX_PACKET_LENGTH then sendWhole session sendData sendlen
  else (sendFragments session sendData sendlen).map FragmentLoop.session

def sendFrames (session : RTPSession) (frames : List AVPacket) : Option RTPSession :=
  Runs.run sendFrame session frames

theorem fillFragment_eq_some (fu_indicator fu_type : UInt8) (sendData : Nat → UInt8)
    (start : Nat) {count : Nat} (fits : count ≤ 1428) :
    fillFragment fu_indicator fu_type sendData start count =
      some ([fu_indicator, fu_type] ++ slice sendData start count ++
        List.replicate (1428 - count) 0) := by
  have first : memcpy sendbuf 0 (fun _ => fu_indicator) 0 1 =
      some ([fu_indicator] ++ List.replicate 1429 0) :=
    memcpy_fresh (fun _ => fu_indicator) 0 0 (by decide : 1 ≤ 1430)
  have second : memcpy ([fu_indicator] ++ List.replicate 1429 0) 1 (fun _ => fu_type) 0 1 =
      some ([fu_indicator, fu_type] ++ List.replicate 1428 0) :=
    memcpy_replicate (fun _ => fu_type) [fu_indicator] 0 0 (by decide : 1 ≤ 1429)
  have third : memcpy ([fu_indicator, fu_type] ++ List.replicate 1428 0) 2 sendData start count =
      some ([fu_indicator, fu_type] ++ slice sendData start count ++
        List.replicate (1428 - count) 0) :=
    memcpy_replicate sendData [fu_indicator, fu_type] 0 start fits
  simp only [fillFragment, first, second, third, Option.bind_eq_bind, Option.bind_some]

theorem sendFragment_eq_some (state : FragmentLoop) (mark : Bool) (fu_indicator fu_type : UInt8)
    (sendData : Nat → UInt8) (start : Nat) {count len : Nat} (fits : count ≤ 1428)
    (inside : len ≤ 1430) :
    state.sendFragment mark fu_indicator fu_type sendData start count len =
      some ⟨state.t + 1,
        ⟨mark, state.session.sent ++
          [⟨([fu_indicator, fu_type] ++ slice sendData start count ++
            List.replicate (1428 - count) 0).take len, mark⟩]⟩,
        state.copied ++ List.range' start count⟩ := by
  have bound : len ≤ ([fu_indicator, fu_type] ++ slice sendData start count ++
      List.replicate (1428 - count) 0).length := by
    rw [List.length_append, List.length_append, length_slice, List.length_replicate,
      List.length_cons, List.length_cons, List.length_nil]
    omega
  simp only [FragmentLoop.sendFragment, fillFragment_eq_some _ _ _ _ fits, Option.bind_eq_bind,
    Option.bind_some, sendPacket_of_le _ _ bound, setDefaultMark_defaultMark, setDefaultMark_sent]

end TalkingTime.Rtp

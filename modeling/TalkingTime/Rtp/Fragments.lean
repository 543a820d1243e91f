import TalkingTime.Rtp.Blocks
import TalkingTime.Rtp.Packetiser

/-! What the fragmentation loop sends: its packets in closed form, one iteration
and the whole loop. -/

namespace TalkingTime.Rtp

open Bytes

def headerBytes (naltype flags : UInt8) : List UInt8 :=
  [(naltype &&& 0x60) ||| 28, (naltype &&& 0x1f) ||| flags]

section ClosedForm

variable (sendData : Nat → UInt8) (sendlen : Nat)

/-- The start and end bits of iteration `t`. -/
def flagsAt (t : Nat) : UInt8 :=
  if t = 0 then 0x80 else if t < sendlen / MAX_PACKET_LENGTH then 0 else 0x40

/-- What iteration `t` sends after the two header bytes. Five zeros of `sendbuf`
follow the bytes of the first. -/
def contentAt (t : Nat) : List UInt8 :=
  if t = 0 then slice sendData 5 1355 ++ List.replicate 5 0
  else if t < sendlen / MAX_PACKET_LENGTH then
    slice sendData (t * MAX_PACKET_LENGTH) MAX_PACKET_LENGTH
  else slice sendData (t * MAX_PACKET_LENGTH) (sendlen % MAX_PACKET_LENGTH)

def payloadAt (t : Nat) : List UInt8 :=
  headerBytes (sendData 4) (flagsAt sendlen t) ++ contentAt sendData sendlen t

/-- The indices that iteration `t` copies from: two more than it sends between the
first and the last. -/
def copiedAt (t : Nat) : List Nat :=
  if t = 0 then List.range' 5 1355
  else if t < sendlen / MAX_PACKET_LENGTH then
    List.range' (t * MAX_PACKET_LENGTH) (MAX_PACKET_LENGTH + 2)
  else List.range' (t * MAX_PACKET_LENGTH) (sendlen % MAX_PACKET_LENGTH)

def fragmentPackets : List RTPPacket := loopPackets sendlen (payloadAt sendData sendlen)

def copiedIndices : List Nat := loopCopied sendlen (copiedAt sendlen)

end ClosedForm

theorem take_padded (first second : UInt8) (sendData : Nat → UInt8) (start : Nat)
    {count len : Nat} (beyond : count ≤ len) (room : Nat) :
    ([first, second] ++ slice sendData start count ++ List.replicate room (0 : UInt8)).take
        (len + 2) =
      [first, second] ++ slice sendData start count ++
        List.replicate (min (len - count) room) 0 := by
  have written : ([first, second] ++ slice sendData start count).length = 2 + count := by
    rw [List.length_append, length_slice]
    rfl
  have split : len + 2 = ([first, second] ++ slice sendData start count).length +
      (len - count) := by
    omega
  rw [split, List.take_length_add_append, List.take_replicate]

theorem take_cut (first second : UInt8) (sendData : Nat → UInt8) (start : Nat)
    {count len : Nat} (inside : len ≤ count) (filler : List UInt8) :
    ([first, second] ++ slice sendData start count ++ filler).take (len + 2) =
      [first, second] ++ slice sendData start len := by
  have written : len + 2 ≤ ([first, second] ++ slice sendData start count).length := by
    rw [List.length_append, length_slice, List.length_cons, List.length_singleton]
    omega
  rw [List.take_append_of_le_length written]
  simp [take_slice sendData start inside]

section Iteration

variable (sendData : Nat → UInt8) (sendlen : Nat) (state : FragmentLoop)

theorem fragment_first (quotient : 0 < sendlen / MAX_PACKET_LENGTH) (first : state.t = 0) :
    fragment sendData sendlen state =
      some (state.after sendlen (payloadAt sendData sendlen) (copiedAt sendlen)) := by
  have filled := sendFragment_eq_some state false ((sendData 4 &&& 0x60) ||| 28)
    ((sendData 4 &&& 0x1f) ||| 0x80) sendData 5 (by decide : 1355 ≤ 1428) (by decide : 1362 ≤ 1430)
  rw [take_padded _ _ sendData 5 (by decide : 1355 ≤ 1360) (1428 - 1355),
    List.append_assoc] at filled
  have unmarked : ¬ sendlen / MAX_PACKET_LENGTH ≤ 0 := by omega
  simp only [fragment, FragmentLoop.after, payloadAt, markAt, flagsAt, contentAt, copiedAt, first,
    unmarked, headerBytes, if_true, true_or, decide_false]
  rw [first] at filled
  exact filled

theorem fragment_middle (positive : state.t ≠ 0) (inner : state.t < sendlen / MAX_PACKET_LENGTH) :
    fragment sendData sendlen state =
      some (state.after sendlen (payloadAt sendData sendlen) (copiedAt sendlen)) := by
  have filled := sendFragment_eq_some state false ((sendData 4 &&& 0x60) ||| 28)
    (sendData 4 &&& 0x1f) sendData (state.t * 1360) (by decide : 1362 ≤ 1428)
    (by decide : 1362 ≤ 1430)
  rw [take_cut _ _ sendData _ (by decide : 1360 ≤ 1362)] at filled
  have unmarked : ¬ sendlen / MAX_PACKET_LENGTH ≤ state.t := by omega
  simp only [fragment, FragmentLoop.after, payloadAt, markAt, flagsAt, contentAt, copiedAt,
    positive, inner, unmarked, headerBytes, UInt8.or_zero, if_false, if_true, and_self, or_true,
    ne_eq, not_false_eq_true, decide_false]
  exact filled

theorem fragment_last (positive : state.t ≠ 0) (outer : state.t = sendlen / MAX_PACKET_LENGTH)
    (remains : 0 < sendlen % MAX_PACKET_LENGTH) :
    fragment sendData sendlen state =
      some (state.after sendlen (payloadAt sendData sendlen) (copiedAt sendlen)) := by
  have length : sendlen - state.t * MAX_PACKET_LENGTH = sendlen % MAX_PACKET_LENGTH := by
    have parts := quotient_mul_add_remainder sendlen
    rw [outer]
    omega
  have short : sendlen % MAX_PACKET_LENGTH < 1360 := Nat.mod_lt _ (by decide)
  have filled := sendFragment_eq_some state true ((sendData 4 &&& 0x60) ||| 28)
    ((sendData 4 &&& 0x1f) ||| 0x40) sendData (state.t * MAX_PACKET_LENGTH)
    (by omega : sendlen % MAX_PACKET_LENGTH ≤ 1428)
    (by omega : sendlen % MAX_PACKET_LENGTH + 2 ≤ 1430)
  rw [take_cut _ _ sendData _ le_rfl] at filled
  simp only [fragment, FragmentLoop.after, payloadAt, markAt, flagsAt, contentAt, copiedAt,
    positive, outer.symm, Nat.lt_irrefl, Nat.le_refl, remains, headerBytes, length, if_false,
    if_true, and_self, or_self, true_or, false_and, decide_true]
  exact filled

theorem fragment_eq_some (long : MAX_PACKET_LENGTH ≤ sendlen)
    (more : moreFragments sendlen state = true) :
    fragment sendData sendlen state =
      some (state.after sendlen (payloadAt sendData sendlen) (copiedAt sendlen)) := by
  have quotient := quotient_pos sendlen long
  simp only [moreFragments, Bool.or_eq_true, Bool.and_eq_true, decide_eq_true_eq,
    beq_iff_eq] at more
  rcases Nat.eq_zero_or_pos state.t with first | positive
  · exact fragment_first sendData sendlen state quotient first
  · rcases more with inner | ⟨outer, remains⟩
    · exact fragment_middle sendData sendlen state (Nat.ne_of_gt positive) inner
    · exact fragment_last sendData sendlen state (Nat.ne_of_gt positive) outer remains

end Iteration

theorem sendFragments_eq_some (sendData : Nat → UInt8) (sendlen : Nat) (session : RTPSession)
    (long : MAX_PACKET_LENGTH ≤ sendlen) :
    ∃ final, sendFragments session sendData sendlen = some final ∧
      final.session.sent = session.sent ++ fragmentPackets sendData sendlen ∧
      final.copied = copiedIndices sendlen := by
  obtain ⟨final, ran, sent, copied⟩ := fragmentLoop_eq_some sendlen
    (payloadAt sendData sendlen) (copiedAt sendlen) long
    (fun state => fragment_eq_some sendData sendlen state long) session
  exact ⟨final, ran, by rw [sent, fragmentPackets], copied⟩

end TalkingTime.Rtp

import Mathlib.Algebra.Ring.Int.Defs
import Mathlib.Algebra.Ring.Nat
import Mathlib.Data.List.Basic

/-! What the RTP senders under `harbor/test` share: the session of jrtplib, the
packets of the encoder, and the variables and condition of their loops. -/

namespace TalkingTime.Rtp

def MAX_PACKET_LENGTH : Nat := 1360

def sendbuf : List UInt8 := List.replicate 1430 0

structure RTPPacket where
  payload : List UInt8
  mark : Bool
  deriving DecidableEq, Repr

/-- The part of `jrtplib::RTPSession` that the senders use. -/
structure RTPSession where
  defaultMark : Bool
  sent : List RTPPacket
  deriving DecidableEq, Repr

def RTPSession.initial : RTPSession := ⟨true, []⟩

def RTPSession.setDefaultMark (session : RTPSession) (mark : Bool) : RTPSession :=
  { session with defaultMark := mark }

/-- `SendPacket(data, len)` sends the first `len` bytes with the default mark.
Reading past the end of `data` is undefined, which is the value `none`. The
status it returns is only printed. -/
def RTPSession.sendPacket (session : RTPSession) (data : List UInt8) (len : Nat) :
    Option RTPSession :=
  if len ≤ data.length then
    some { session with sent := session.sent ++ [⟨data.take len, session.defaultMark⟩] }
  else none

/-- `h264Packet`. The bytes of `data` from `size` on are whatever memory follows. -/
structure AVPacket where
  data : Nat → UInt8
  size : Nat
  fits : size < 2 ^ 31

/-- The conversion of an `int` argument to the `size_t` parameter of a call. -/
def toSize (value : Int) : Nat := (value % 2 ^ 64).toNat

/-- The variables of the loops that live longer than one iteration. `copied` is a
ghost: the indices of `sendData` that `memcpy` has read. -/
structure FragmentLoop where
  t : Nat
  session : RTPSession
  copied : List Nat
  deriving DecidableEq, Repr

/-- The condition of the loops, where `k` is the quotient and `l` the remainder of
`sendlen` by `MAX_PACKET_LENGTH`. -/
def moreFragments (sendlen : Nat) (state : FragmentLoop) : Bool :=
  let k := sendlen / MAX_PACKET_LENGTH
  let l := sendlen % MAX_PACKET_LENGTH
  state.t < k || (state.t == k && 0 < l)

@[simp] theorem setDefaultMark_defaultMark (session : RTPSession) (mark : Bool) :
    (session.setDefaultMark mark).defaultMark = mark := rfl

@[simp] theorem setDefaultMark_sent (session : RTPSession) (mark : Bool) :
    (session.setDefaultMark mark).sent = session.sent := rfl

theorem sendPacket_of_le (session : RTPSession) (data : List UInt8) {len : Nat}
    (inside : len ≤ data.length) :
    session.sendPacket data len =
      some { session with sent := session.sent ++ [⟨data.take len, session.defaultMark⟩] } := by
  rw [RTPSession.sendPacket, if_pos inside]

theorem sendPacket_written (session : RTPSession) {written : List UInt8} (filler : List UInt8)
    {len : Nat} (length : written.length = len) :
    session.sendPacket (written ++ filler) len =
      some { session with sent := session.sent ++ [⟨written, session.defaultMark⟩] } := by
  have inside : len ≤ (written ++ filler).length := by
    rw [List.length_append]
    omega
  rw [sendPacket_of_le session _ inside, List.take_left' length]

end TalkingTime.Rtp

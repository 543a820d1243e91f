import TalkingTime.Library.Loop
import TalkingTime.Rtp.Session

/-! The loops of the RTP senders without what they put into a packet: how many
iterations they make, which packet carries the mark, and what a whole loop sends
when it is known what one iteration sends. -/

namespace TalkingTime.Rtp

open Loop

section Counting

variable (sendlen : Nat)

def fragmentCount : Nat :=
  sendlen / MAX_PACKET_LENGTH + if 0 < sendlen % MAX_PACKET_LENGTH then 1 else 0

def markAt (t : Nat) : Bool := decide (sendlen / MAX_PACKET_LENGTH ≤ t)

theorem quotient_pos (long : MAX_PACKET_LENGTH ≤ sendlen) : 0 < sendlen / MAX_PACKET_LENGTH :=
  Nat.div_pos long (by decide)

theorem quotient_mul_add_remainder :
    sendlen / MAX_PACKET_LENGTH * MAX_PACKET_LENGTH + sendlen % MAX_PACKET_LENGTH = sendlen :=
  Nat.div_add_mod' sendlen MAX_PACKET_LENGTH

theorem fragmentCount_pos (long : MAX_PACKET_LENGTH ≤ sendlen) : 0 < fragmentCount sendlen := by
  have quotient := quotient_pos sendlen long
  rw [fragmentCount]
  omega

theorem moreFragments_iff (state : FragmentLoop) :
    moreFragments sendlen state = true ↔ state.t < fragmentCount sendlen := by
  simp only [moreFragments, fragmentCount, Bool.or_eq_true, Bool.and_eq_true, decide_eq_true_eq,
    beq_iff_eq]
  split <;> omega

theorem remainder_of_last {t : Nat} (bound : t < fragmentCount sendlen)
    (outer : ¬ t < sendlen / MAX_PACKET_LENGTH) :
    t = sendlen / MAX_PACKET_LENGTH ∧ 0 < sendlen % MAX_PACKET_LENGTH := by
  unfold fragmentCount at bound
  split at bound <;> omega

theorem markAt_iff_last (remains : 0 < sendlen % MAX_PACKET_LENGTH) {t : Nat}
    (bound : t < fragmentCount sendlen) :
    markAt sendlen t = true ↔ t + 1 = fragmentCount sendlen := by
  rw [fragmentCount, if_pos remains] at bound ⊢
  rw [markAt, decide_eq_true_iff]
  omega

theorem markAt_eq_false (exact : sendlen % MAX_PACKET_LENGTH = 0) {t : Nat}
    (bound : t < fragmentCount sendlen) : markAt sendlen t = false := by
  rw [fragmentCount, exact, if_neg (Nat.lt_irrefl 0), Nat.add_zero] at bound
  rw [markAt, decide_eq_false_iff_not]
  omega

theorem markAt_last (long : MAX_PACKET_LENGTH ≤ sendlen) :
    markAt sendlen (fragmentCount sendlen - 1) = decide (0 < sendlen % MAX_PACKET_LENGTH) := by
  have present := fragmentCount_pos sendlen long
  have bound : fragmentCount sendlen - 1 < fragmentCount sendlen := by omega
  rcases Nat.eq_zero_or_pos (sendlen % MAX_PACKET_LENGTH) with exact | remains
  · rw [markAt_eq_false sendlen exact bound, exact]
    rfl
  · have last := (markAt_iff_last sendlen remains bound).mpr (by omega)
    rw [last, decide_eq_true remains]

theorem mark_on_last_iff (long : MAX_PACKET_LENGTH ≤ sendlen) :
    (∀ t < fragmentCount sendlen, markAt sendlen t = true ↔ t + 1 = fragmentCount sendlen) ↔
      0 < sendlen % MAX_PACKET_LENGTH := by
  constructor
  · intro onLast
    have present := fragmentCount_pos sendlen long
    have marked := (onLast (fragmentCount sendlen - 1) (by omega)).mpr (by omega)
    rw [markAt_last sendlen long] at marked
    exact of_decide_eq_true marked
  · intro remains t bound
    exact markAt_iff_last sendlen remains bound

end Counting

section Run

variable (sendlen : Nat) (payloadAt : Nat → List UInt8) (copiedAt : Nat → List Nat)

def loopPackets : List RTPPacket :=
  (List.range (fragmentCount sendlen)).map fun t => ⟨payloadAt t, markAt sendlen t⟩

def loopCopied : List Nat := (List.range (fragmentCount sendlen)).flatMap copiedAt

/-- What an iteration that sends `payloadAt t` and copies from `copiedAt t` leaves. -/
def FragmentLoop.after (state : FragmentLoop) : FragmentLoop :=
  ⟨state.t + 1,
    ⟨markAt sendlen state.t,
      state.session.sent ++ [⟨payloadAt state.t, markAt sendlen state.t⟩]⟩,
    state.copied ++ copiedAt state.t⟩

/-- The invariant of the loops: the first `t` packets are sent. -/
structure Sending (session : RTPSession) (state : FragmentLoop) : Prop where
  bounded : state.t ≤ fragmentCount sendlen
  sent : state.session.sent =
    session.sent ++ (List.range state.t).map fun t => ⟨payloadAt t, markAt sendlen t⟩
  copied : state.copied = (List.range state.t).flatMap copiedAt
  mark : state.t ≠ 0 → state.session.defaultMark = markAt sendlen (state.t - 1)

theorem sending_initial (session : RTPSession) :
    Sending sendlen payloadAt copiedAt session ⟨0, session.setDefaultMark false, []⟩ where
  bounded := Nat.zero_le _
  sent := by simp
  copied := by simp
  mark absurdity := absurd rfl absurdity

theorem sending_after {session : RTPSession} {state : FragmentLoop}
    (sending : Sending sendlen payloadAt copiedAt session state)
    (left : state.t < fragmentCount sendlen) :
    Sending sendlen payloadAt copiedAt session (state.after sendlen payloadAt copiedAt) where
  bounded := left
  sent := by simp [FragmentLoop.after, sending.sent, List.range_succ]
  copied := by simp [FragmentLoop.after, sending.copied, List.range_succ]
  mark _ := rfl

theorem fragmentLoop_eq_some {body : FragmentLoop → Option FragmentLoop}
    (long : MAX_PACKET_LENGTH ≤ sendlen)
    (iteration : ∀ state, moreFragments sendlen state = true →
      body state = some (state.after sendlen payloadAt copiedAt))
    (session : RTPSession) :
    ∃ final, whileLoop (moreFragments sendlen) body (sendlen / MAX_PACKET_LENGTH + 2)
        ⟨0, session.setDefaultMark false, []⟩ = some final ∧
      final.session = ⟨decide (0 < sendlen % MAX_PACKET_LENGTH),
        session.sent ++ loopPackets sendlen payloadAt⟩ ∧
      final.copied = loopCopied sendlen copiedAt := by
  have enough : fragmentCount sendlen - 0 < sendlen / MAX_PACKET_LENGTH + 2 := by
    unfold fragmentCount MAX_PACKET_LENGTH
    split <;> omega
  have kept : ∀ state, Sending sendlen payloadAt copiedAt session state →
      moreFragments sendlen state = true → ∃ next, body state = some next ∧
        Sending sendlen payloadAt copiedAt session next ∧
        fragmentCount sendlen - next.t < fragmentCount sendlen - state.t := by
    intro state sending more
    have left : state.t < fragmentCount sendlen := (moreFragments_iff sendlen state).mp more
    refine ⟨_, iteration state more, sending_after sendlen payloadAt copiedAt sending left, ?_⟩
    change fragmentCount sendlen - (state.t + 1) < fragmentCount sendlen - state.t
    omega
  obtain ⟨final, ran, sending, stopped⟩ := whileLoop_total
    (fun state => fragmentCount sendlen - state.t) kept _ _
    (sending_initial sendlen payloadAt copiedAt session) enough
  have ended : final.t = fragmentCount sendlen := by
    have bounded := sending.bounded
    have reached : ¬ final.t < fragmentCount sendlen := by
      rw [← moreFragments_iff, stopped]
      decide
    omega
  have present := fragmentCount_pos sendlen long
  refine ⟨final, ran, ?_, ?_⟩
  · have mark := sending.mark (by omega)
    have sent := sending.sent
    rw [ended] at mark sent
    rw [← markAt_last sendlen long, ← mark, loopPackets, ← sent]
  · rw [sending.copied, ended, loopCopied]

end Run

end TalkingTime.Rtp

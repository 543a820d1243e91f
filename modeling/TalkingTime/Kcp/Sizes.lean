import TalkingTime.Kcp.Endpoint
import TalkingTime.Kcp.Reading
import TalkingTime.Library.SignedRange

/-! How long the messages are that `ikcp_recv` hands over, where the receive window and the
datagrams that arrive are bounded. -/

namespace TalkingTime.Kcp

open Serial Countdown

variable {bound size : Nat} {kcp final : IKCPCB}

def queuedBytes (kcp : IKCPCB) : Nat := (kcp.rcvQueue.segs.flatMap IKCPSEG.data).length

section Recv

theorem length_flatMap_first_le (segs : List IKCPSEG) :
    ((first (segs.map IKCPSEG.fragment)).flatMap Prod.snd).length ≤
      (segs.flatMap IKCPSEG.data).length := by
  induction segs with
  | nil => exact Nat.le_refl 0
  | cons seg rest ih =>
      rw [List.map_cons, first_cons, List.flatMap_cons, List.length_append]
      split
      · rw [List.flatMap_singleton]
        exact Nat.le_add_right _ _
      · rw [List.flatMap_cons, List.length_append]
        exact Nat.add_le_add_left ih _

theorem ikcpPeeksize_of_known (known : ¬ ikcpPeeksize kcp < 0) :
    ikcpPeeksize kcp =
      Int32.ofNat ((first (kcp.rcvQueue.segs.map IKCPSEG.fragment)).flatMap Prod.snd).length := by
  have negative : (-1 : Int32) < 0 := by decide
  rw [← peekLoop_eq]
  unfold ikcpPeeksize at known ⊢
  cases head : kcp.rcvQueue.segs with
  | nil =>
      rw [head] at known
      exact absurd negative known
  | cons seg rest =>
      rw [head] at known
      dsimp only at known ⊢
      by_cases single : seg.frg = 0
      · rw [if_pos single, peekLoop, if_pos single, Int32.add_zero]
      · rw [if_neg single] at known ⊢
        by_cases missing : kcp.rcvQueue.count < seg.frg + 1
        · rw [if_pos missing] at known
          exact absurd negative known
        · rw [if_neg missing]

/-- What `ikcp_recv` does where the bytes that wait are fewer than `2 ^ 31`: a call that
fails leaves everything as it is, and one that succeeds writes what `ikcp_peeksize` said,
for which there is room. -/
theorem ikcpRecv_fits (few : queuedBytes kcp < 2 ^ 31) (len : Int32) :
    (∃ code : Int32, code < 0 ∧ ikcpRecv kcp len = (kcp, code, [])) ∨
      ∃ next bytes, ikcpRecv kcp len = (next, ikcpPeeksize kcp, bytes) ∧
        (ikcpPeeksize kcp).toInt = bytes.length ∧ (bytes.length : Int) ≤ (bufferRoom len).toInt := by
  cases head : kcp.rcvQueue.segs with
  | nil => exact Or.inl ⟨-1, by decide, by simp only [ikcpRecv, head, List.isEmpty_nil, if_true]⟩
  | cons seg rest =>
      by_cases unknown : ikcpPeeksize kcp < 0
      · refine Or.inl ⟨-2, by decide, ?_⟩
        simp only [ikcpRecv, head, List.isEmpty_cons, Bool.false_eq_true, if_false, if_pos unknown]
      · have peeksize := ikcpPeeksize_of_known unknown
        have short := Nat.lt_of_le_of_lt (length_flatMap_first_le kcp.rcvQueue.segs) few
        have received := ikcpRecv_of_peeksize len head short peeksize
        rw [← recvMessage_buffer (decide (len < 0)) kcp] at peeksize short received
        split at received
        · rename_i room
          rw [← peeksize] at received
          refine Or.inr ⟨_, _, received, ?_, room⟩
          rw [peeksize, Int32.toInt_ofNat_of_lt short]
        · exact Or.inl ⟨-3, by decide, received⟩

theorem bufferRoom_toInt {len : Int32} (notLeast : len ≠ Int32.minValue) :
    (bufferRoom len).toInt = len.toInt.natAbs := by
  have short := SignedRange.natAbs_toInt_lt notLeast
  have zero : (0 : Int32).toInt = 0 := by decide
  unfold bufferRoom
  split
  · rename_i negative
    have below := Int32.lt_iff_toInt_lt.mp negative
    rw [SignedRange.toInt_neg ⟨by omega, by omega⟩]
    omega
  · rename_i other
    have above := Int32.le_iff_toInt_le.mp (Int32.not_lt.mp other)
    omega

end Recv

def Receiver.Sized (size : Nat) (receiver : Receiver) : Prop :=
  ∀ seg ∈ receiver.queue ++ receiver.buf, seg.data.length ≤ size

section Arriving

theorem Receiver.Sized.mono {receiver next : Receiver} (sized : receiver.Sized size)
    (fewer : ∀ seg ∈ next.queue ++ next.buf, seg ∈ receiver.queue ++ receiver.buf) :
    next.Sized size := fun seg member => sized seg (fewer seg member)

theorem moveAvailable_sized (sized : kcp.receiver.Sized size) :
    (moveAvailable kcp).receiver.Sized size := by
  apply moveAvailable_preserves (fun moved => moved.receiver.Sized size) _ sized
  intro moved seg rest held head _ _
  apply held.mono
  intro other member
  change other ∈ moved.rcvQueue.segs ++ moved.rcvBuf.segs
  rw [advance_receiver, Receiver.advance] at member
  change other ∈ (moved.rcvQueue.segs ++ [seg]) ++ moved.rcvBuf.segs.tail at member
  rw [head, List.tail_cons, List.append_assoc] at member
  rw [head]
  exact member

theorem inputPush_sized {newseg : IKCPSEG} (short : newseg.data.length ≤ size)
    (sized : kcp.receiver.Sized size) : (inputPush kcp newseg).receiver.Sized size := by
  unfold inputPush
  split
  · dsimp only
    split
    · unfold ikcpParseData
      dsimp only
      split
      · exact sized
      · apply moveAvailable_sized
        intro seg member
        rcases List.mem_append.mp member with queued | early
        · exact sized seg (List.mem_append_left _ queued)
        · rcases of_mem_link kcp.rcvBuf early with rfl | old
          · exact short
          · exact sized seg (List.mem_append_right _ old)
    · exact sized
  · exact sized

theorem inputSegment_sized (header : Header) {data : List UInt8} (short : data.length ≤ size)
    (sized : kcp.receiver.Sized size) : (inputSegment kcp header data).receiver.Sized size := by
  have start : (heard kcp header).receiver.Sized size := by
    rw [heard_receiver]
    exact sized
  rw [inputSegment_eq]
  split
  · rw [inputAck_receiver]
    exact start
  · split
    · exact inputPush_sized short start
    · split <;> exact start

theorem inputSegments_sized {segs : List IKCPSEG} (short : ∀ seg ∈ segs, seg.data.length ≤ size)
    (sized : kcp.receiver.Sized size) : (inputSegments kcp segs).receiver.Sized size := by
  induction segs generalizing kcp with
  | nil => exact sized
  | cons seg rest ih =>
      obtain ⟨first, later⟩ := List.forall_mem_cons.mp short
      exact ih later (inputSegment_sized seg.header first sized)

theorem ikcpInput_sized {data : List UInt8} {code : Int} (short : data.length ≤ size)
    (sized : kcp.receiver.Sized size) (taken : ikcpInput kcp data = some (final, code)) :
    final.receiver.Sized size := by
  have last : (inputSegments kcp (takenSegments kcp.conv data)).receiver.Sized size :=
    inputSegments_sized
      (fun seg member => Nat.le_trans (length_of_mem_takenSegments member) short) sized
  rcases ikcpInput_ends taken with rfl | rfl
  · rw [(frame_growWindow _).receiver]
    exact last
  · exact last

theorem ikcpRecv_sized (len : Int32) (sized : kcp.receiver.Sized size) :
    (ikcpRecv kcp len).1.receiver.Sized size := by
  have merged : ∀ ispeek, (recvMessage ispeek kcp).1.receiver.Sized size := by
    intro ispeek
    let queue := (mergeLoop ispeek kcp.rcvQueue.segs kcp.rcvQueue []).1
    have start : { kcp with rcvQueue := queue }.receiver.Sized size := by
      apply sized.mono
      intro seg member
      rcases List.mem_append.mp member with queued | early
      · exact List.mem_append_left _ ((mergeLoop_suffix ispeek kcp).subset queued)
      · exact List.mem_append_right _ early
    have moved := moveAvailable_sized start
    unfold recvMessage
    dsimp only
    split <;> exact moved
  unfold ikcpRecv
  dsimp only
  split
  · exact sized
  · split
    · exact sized
    · split
      · exact sized
      · exact merged _

end Arriving

section Calls

def DatagramWithin (size : Nat) : Call → Prop
  | .input data => data.length ≤ size
  | _ => True

instance (size : Nat) : (any : Call) → Decidable (DatagramWithin size any)
  | .input data => inferInstanceAs (Decidable (data.length ≤ size))
  | .send _ | .recv _ | .update _ | .flush | .setmtu _ | .nodelay _ _ _ _ | .interval _
  | .wndsize _ _ => isTrue trivial

def ReceivesWithin (bound size : Nat) (kcp : IKCPCB) (any : Call) : Prop :=
  RcvWndSetWithin bound kcp any ∧ DatagramWithin size any

instance (bound size : Nat) (kcp : IKCPCB) (any : Call) :
    Decidable (ReceivesWithin bound size kcp any) := inferInstanceAs (Decidable (_ ∧ _))

theorem sized_of_call {any : Call} (sized : kcp.receiver.Sized size)
    (short : DatagramWithin size any)
    (done : call kcp any = some final) : final.receiver.Sized size := by
  have drained : ∀ next : Receiver, (∃ acks, next = { kcp.receiver with acks := acks }) →
      next.Sized size := by
    rintro next ⟨acks, rfl⟩
    exact sized
  cases any with
  | send message =>
      obtain ⟨⟨sent, code⟩, sending, rfl⟩ := Option.map_eq_some_iff.mp done
      obtain ⟨queue, rfl⟩ := ikcpSend_queue sending
      exact sized
  | recv len =>
      cases done
      exact ikcpRecv_sized len sized
  | input data =>
      obtain ⟨⟨taken, code⟩, taking, rfl⟩ := Option.map_eq_some_iff.mp done
      exact ikcpInput_sized short sized taking
  | update current =>
      obtain ⟨⟨updated, datagrams⟩, updating, rfl⟩ := Option.map_eq_some_iff.mp done
      exact drained _ (ikcpUpdate_receiver updating)
  | flush =>
      obtain ⟨⟨flushed, datagrams⟩, flushing, rfl⟩ := Option.map_eq_some_iff.mp done
      exact drained _ (ikcpFlush_receiver flushing)
  | setmtu mtu =>
      cases done
      rw [ikcpSetmtu_receiver]
      exact sized
  | nodelay | interval | wndsize =>
      cases done
      exact sized

theorem queuedBytes_le (sized : kcp.receiver.Sized size)
    (queue : kcp.rcvQueue.segs.length ≤ bound) : queuedBytes kcp ≤ bound * size := by
  have each : ∀ segs : List IKCPSEG, (∀ seg ∈ segs, seg.data.length ≤ size) →
      (segs.flatMap IKCPSEG.data).length ≤ segs.length * size := by
    intro segs short
    induction segs with
    | nil => exact Nat.zero_le _
    | cons seg rest ih =>
        obtain ⟨first, later⟩ := List.forall_mem_cons.mp short
        have shorter := ih later
        rw [List.flatMap_cons, List.length_append, List.length_cons, Nat.succ_mul]
        omega
  exact Nat.le_trans (each _ fun seg member => sized seg (List.mem_append_left _ member))
    (Nat.mul_le_mul_right size queue)

variable {conv : UInt32} {calls : List Call}

theorem queuedBytes_of_run (least : IKCP_WND_RCV.toNat ≤ bound) (small : bound < 2 ^ 31)
    (within : Runs.Meets call (ReceivesWithin bound size) (ikcpCreate conv) calls)
    (replayed : Runs.run call (ikcpCreate conv) calls = some final) :
    queuedBytes final ≤ bound * size := by
  have narrow : Runs.Meets call (RcvWndSetWithin bound) (ikcpCreate conv) calls :=
    within.imp fun _ _ met => met.1
  have start : (ikcpCreate conv).receiver.Sized size := List.forall_mem_nil _
  have sized : final.receiver.Sized size :=
    Runs.invariant_of_meets (fun _ _ _ held met done => sized_of_call held met.2 done) start within
      replayed
  exact queuedBytes_le sized (within_of_run least small narrow replayed).queue

/-- Where a window of datagrams has fewer than `2 ^ 31` bytes, `ikcp_recv` fails and leaves
everything as it is, or it writes as many bytes as `ikcp_peeksize` says, for which the buffer
has room. -/
theorem recv_of_run (least : IKCP_WND_RCV.toNat ≤ bound) (small : bound < 2 ^ 31)
    (bytes : bound * size < 2 ^ 31)
    (within : Runs.Meets call (ReceivesWithin bound size) (ikcpCreate conv) calls)
    (replayed : Runs.run call (ikcpCreate conv) calls = some final) (len : Int32)
    (notLeast : len ≠ Int32.minValue) :
    (∃ code : Int32, code < 0 ∧ ikcpRecv final len = (final, code, [])) ∨
      ∃ next written, ikcpRecv final len = (next, ikcpPeeksize final, written) ∧
        (ikcpPeeksize final).toInt = written.length ∧ written.length ≤ len.toInt.natAbs := by
  have few := Nat.lt_of_le_of_lt (queuedBytes_of_run least small within replayed) bytes
  apply (ikcpRecv_fits few len).imp_right
  rintro ⟨next, written, received, peeksize, room⟩
  rw [bufferRoom_toInt notLeast] at room
  exact ⟨next, written, received, peeksize, Int.ofNat_le.mp room⟩

theorem recv_of_run_strangeCalls :
    ∃ final, Runs.run call (ikcpCreate 7) strangeCalls = some final ∧
      (ikcpRecv final 10).2 = (1, [4]) ∧
      ((∃ code : Int32, code < 0 ∧ ikcpRecv final 10 = (final, code, [])) ∨
        ∃ next written, ikcpRecv final 10 = (next, ikcpPeeksize final, written) ∧
          (ikcpPeeksize final).toInt = written.length ∧ written.length ≤ 10) := by
  have seen : (Runs.run call (ikcpCreate 7) strangeCalls).map
      (fun final => (ikcpRecv final 10).2) = some (1, [4]) := by decide +kernel
  have within : Runs.Meets call (ReceivesWithin 32 1400) (ikcpCreate 7) strangeCalls := by
    decide +kernel
  obtain ⟨final, replayed, received⟩ := Option.map_eq_some_iff.mp seen
  exact ⟨final, replayed, received,
    recv_of_run (by decide) (by decide) (by decide) within replayed 10 (by decide)⟩

end Calls

end TalkingTime.Kcp

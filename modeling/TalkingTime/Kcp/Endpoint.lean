import TalkingTime.Kcp.Contents
import TalkingTime.Library.Runs
import Mathlib.Data.List.Perm.Subperm

/-! One control block by itself, which gets any datagrams, not only those of a peer: the
segments that it holds for its user are bounded by its window. -/

namespace TalkingTime.Kcp

open Serial

inductive Call where
  | send (message : Message)
  | recv (len : Int32)
  | input (data : List UInt8)
  | update (current : UInt32)
  | flush
  | setmtu (mtu : Int32)
  | nodelay (nodelay interval resend nc : Int32)
  | interval (interval : Int32)
  | wndsize (sndwnd rcvwnd : Int32)
  deriving DecidableEq, Repr

def call (kcp : IKCPCB) : Call → Option IKCPCB
  | .send message => (ikcpSend kcp message.bytes message.len).map Prod.fst
  | .recv len => some (ikcpRecv kcp len).1
  | .input data => (ikcpInput kcp data).map Prod.fst
  | .update current => (ikcpUpdate kcp current).map Prod.fst
  | .flush => (ikcpFlush kcp).map Prod.fst
  | .setmtu mtu => some (ikcpSetmtu kcp mtu).1
  | .nodelay nodelay interval resend nc => some (ikcpNodelay kcp nodelay interval resend nc)
  | .interval interval => some (ikcpInterval kcp interval)
  | .wndsize sndwnd rcvwnd => some (ikcpWndsize kcp sndwnd rcvwnd)

section Receiving

variable {bound reach : Nat} {receiver : Receiver} {kcp : IKCPCB}

theorem AscendingFrom.length_le {base : UInt32} {segs : List IKCPSEG}
    (sorted : AscendingFrom base segs) (near : ∀ seg ∈ segs, ahead base seg.sn < bound) :
    segs.length ≤ bound := by
  let distances := segs.map (fun seg => ahead base seg.sn)
  have ascending : distances.Pairwise (· < ·) := List.pairwise_map.mpr sorted
  have nodup : distances.Nodup := ascending.imp Nat.ne_of_lt
  have inside : distances ⊆ List.range bound := by
    intro distance member
    obtain ⟨seg, present, rfl⟩ := List.mem_map.mp member
    exact List.mem_range.mpr (near seg present)
  have few := (nodup.subperm inside).length_le
  rw [List.length_map, List.length_range] at few
  exact few

/-- A bound on the window, and how far ahead a segment of `rcv_buf` can be. -/
structure WindowReach (bound reach : Nat) : Prop where
  small : bound < 2 ^ 31
  inside : bound ≤ reach
  far : reach ≤ 2 ^ 31

/-- What a receiver holds whose window is at most `bound` wide, and was wider before. -/
structure Receiver.Within (receiver : Receiver) (bound reach : Nat) : Prop where
  window : receiver.wnd.toNat ≤ bound
  queue : receiver.queue.length ≤ bound
  sorted : AscendingFrom receiver.nxt receiver.buf
  near : ∀ seg ∈ receiver.buf, ahead receiver.nxt seg.sn < reach

theorem Receiver.Within.advance {seg : IKCPSEG} {rest : List IKCPSEG}
    (within : receiver.Within bound reach) (head : receiver.buf = seg :: rest)
    (next : seg.sn = receiver.nxt) (room : receiver.queue.length < bound) :
    (receiver.advance seg).Within bound reach := by
  have tail : (receiver.advance seg).buf = rest := congrArg List.tail head
  have order := within.sorted
  rw [head, AscendingFrom, List.pairwise_cons, next, ahead_self] at order
  obtain ⟨positive, sorted⟩ := order
  -- what is left comes one nearer
  have nearer : ∀ other ∈ rest,
      ahead (receiver.nxt + 1) other.sn + 1 = ahead receiver.nxt other.sn :=
    fun other member => ahead_succ (positive other member)
  refine ⟨within.window, ?_, ?_, ?_⟩
  · change (receiver.queue ++ [seg]).length ≤ bound
    rw [List.length_append, List.length_singleton]
    exact room
  · rw [tail]
    apply List.Pairwise.imp_of_mem _ sorted
    intro first second firstMember secondMember less
    change ahead (receiver.nxt + 1) first.sn < ahead (receiver.nxt + 1) second.sn
    have firstNearer := nearer first firstMember
    have secondNearer := nearer second secondMember
    omega
  · intro other member
    rw [tail] at member
    change ahead (receiver.nxt + 1) other.sn < reach
    have before := within.near other (head ▸ List.mem_cons_of_mem seg member)
    have after := nearer other member
    omega

theorem Receiver.Within.drain {next : Receiver} (within : receiver.Within bound reach)
    (drained : ∃ acks, next = { receiver with acks := acks }) : next.Within bound reach := by
  obtain ⟨acks, rfl⟩ := drained
  exact { within with }

theorem ikcpWndsize_within (sndwnd : Int32) {rcvwnd : Int32} (narrow : rcvwnd.toInt ≤ bound)
    (within : kcp.receiver.Within bound reach) :
    (ikcpWndsize kcp sndwnd rcvwnd).receiver.Within bound reach := by
  refine { within with window := ?_ }
  change (if 0 < rcvwnd then rcvwnd.toUInt32 else kcp.rcvWnd).toNat ≤ bound
  split
  · rename_i positive
    have size : rcvwnd.toUInt32.toNat = rcvwnd.toInt.toNat :=
      Int32.toNat_toUInt32_of_le (Int32.le_of_lt positive)
    omega
  · exact within.window

theorem moveAvailable_within (wide : WindowReach bound reach)
    (within : kcp.receiver.Within bound reach) :
    (moveAvailable kcp).receiver.Within bound reach := by
  apply moveAvailable_preserves (fun moved => moved.receiver.Within bound reach) _ within
  intro moved seg rest held head next available
  have small := wide.small
  have window : moved.rcvWnd.toNat ≤ bound := held.window
  have queue : moved.rcvQueue.segs.length ≤ bound := held.queue
  have count := moved.rcvQueue.count_toNat (by omega)
  have less := UInt32.lt_iff_toNat_lt.mp available
  rw [advance_receiver]
  apply held.advance head next
  change moved.rcvQueue.segs.length < bound
  omega

theorem link_within {newseg : IKCPSEG} (wide : WindowReach bound reach)
    (within : kcp.receiver.Within bound reach)
    (inside : diff newseg.sn (kcp.rcvNxt + kcp.rcvWnd) < 0)
    (notBehind : 0 ≤ diff newseg.sn kcp.rcvNxt) :
    Receiver.Within { kcp.receiver with buf := (kcp.rcvBuf.link newseg).segs } bound reach := by
  obtain ⟨small, within_reach, far⟩ := wide
  have window : kcp.rcvWnd.toNat ≤ bound := within.window
  have near : ahead kcp.rcvNxt newseg.sn < bound := by
    have distance := ahead_lt_of_diff (Nat.lt_of_le_of_lt window small) notBehind inside
    omega
  refine ⟨within.window, within.queue, ?_, ?_⟩
  · apply link_ascending kcp.rcvBuf (Nat.lt_trans near small) _ within.sorted
    exact fun seg member => Nat.lt_of_lt_of_le (within.near seg member) far
  · intro seg member
    rcases of_mem_link kcp.rcvBuf member with rfl | old
    · exact Nat.lt_of_lt_of_le near within_reach
    · exact within.near seg old

theorem inputPush_within (wide : WindowReach bound reach) (newseg : IKCPSEG)
    (within : kcp.receiver.Within bound reach) :
    (inputPush kcp newseg).receiver.Within bound reach := by
  have acknowledged : (ikcpAckPush kcp newseg.sn newseg.ts).receiver.Within bound reach :=
    { within with }
  unfold inputPush
  split
  · rename_i inside
    dsimp only
    split
    · rename_i notBehind
      unfold ikcpParseData
      dsimp only
      split
      · exact acknowledged
      · apply moveAvailable_within wide
        exact link_within wide acknowledged inside notBehind
    · exact acknowledged
  · exact within

theorem inputSegment_within (wide : WindowReach bound reach) (header : Header) (data : List UInt8)
    (within : kcp.receiver.Within bound reach) :
    (inputSegment kcp header data).receiver.Within bound reach := by
  have start : (heard kcp header).receiver.Within bound reach := by
    rw [heard_receiver]
    exact within
  rw [inputSegment_eq]
  split
  · rw [inputAck_receiver]
    exact start
  · split
    · exact inputPush_within wide _ start
    · split
      · exact { start with }
      · exact start

theorem ikcpInput_within {final : IKCPCB} {data : List UInt8} {code : Int}
    (wide : WindowReach bound reach) (within : kcp.receiver.Within bound reach)
    (taken : ikcpInput kcp data = some (final, code)) : final.receiver.Within bound reach := by
  apply ikcpInput_preserves _ _ within taken
  · exact fun next header rest held => inputSegment_within wide header rest held
  · intro next held
    rw [(frame_growWindow next).receiver]
    exact held

theorem mergeLoop_suffix (ispeek : Bool) (kcp : IKCPCB) :
    (mergeLoop ispeek kcp.rcvQueue.segs kcp.rcvQueue []).1.segs <:+ kcp.rcvQueue.segs := by
  cases ispeek with
  | true => simp only [mergeLoop_peek, List.suffix_refl]
  | false =>
      rw [mergeLoop_queue rfl]
      exact List.drop_suffix _ _

theorem recvMessage_within (wide : WindowReach bound reach) (ispeek : Bool)
    (within : kcp.receiver.Within bound reach) :
    (recvMessage ispeek kcp).1.receiver.Within bound reach := by
  let queue := (mergeLoop ispeek kcp.rcvQueue.segs kcp.rcvQueue []).1
  have fewer : queue.segs.length ≤ kcp.rcvQueue.segs.length := (mergeLoop_suffix ispeek kcp).length_le
  have merged : { kcp with rcvQueue := queue }.receiver.Within bound reach :=
    { within with queue := Nat.le_trans fewer within.queue }
  have moved := moveAvailable_within wide merged
  unfold recvMessage
  dsimp only
  split
  · exact { moved with }
  · exact moved

theorem ikcpRecv_within (wide : WindowReach bound reach) (len : Int32)
    (within : kcp.receiver.Within bound reach) :
    (ikcpRecv kcp len).1.receiver.Within bound reach := by
  unfold ikcpRecv
  dsimp only
  split
  · exact within
  · split
    · exact within
    · split
      · exact within
      · exact recvMessage_within wide _ within

end Receiving

section Calls

variable {bound reach : Nat} {kcp final : IKCPCB} {datagrams : List (List UInt8)}

theorem recvMessage_sender (ispeek : Bool) (kcp : IKCPCB) :
    (recvMessage ispeek kcp).1.sender = kcp.sender := by
  unfold recvMessage
  dsimp only
  split
  · exact moveAvailable_sender _
  · exact moveAvailable_sender _

theorem ikcpRecv_sender (kcp : IKCPCB) (len : Int32) :
    (ikcpRecv kcp len).1.sender = kcp.sender := by
  unfold ikcpRecv
  dsimp only
  split
  · rfl
  · split
    · rfl
    · split
      · rfl
      · exact recvMessage_sender _ kcp

theorem ikcpSend_queue {next : IKCPCB} {buffer : List UInt8} {len : Int32} {code : Int}
    (sent : ikcpSend kcp buffer len = some (next, code)) :
    ∃ queue, next = { kcp with sndQueue := queue } := by
  unfold ikcpSend at sent
  dsimp only at sent
  split at sent
  · cases sent
    exact ⟨kcp.sndQueue, rfl⟩
  · split at sent
    · cases sent
      exact ⟨kcp.sndQueue, rfl⟩
    · split at sent
      · cases sent
        exact ⟨_, rfl⟩
      · cases sent

theorem ikcpFlush_receiver (flushed : ikcpFlush kcp = some (final, datagrams)) :
    ∃ acks, final.receiver = { kcp.receiver with acks := acks } := by
  by_cases started : kcp.updated = 0
  · rw [ikcpFlush, if_pos started] at flushed
    cases flushed
    exact ⟨kcp.acklist, rfl⟩
  · exact ⟨[], (ikcpFlush_leaves started flushed).2.receiver⟩

theorem ikcpUpdate_receiver {current : UInt32}
    (updated : ikcpUpdate kcp current = some (final, datagrams)) :
    ∃ acks, final.receiver = { kcp.receiver with acks := acks } := by
  obtain ⟨started, tsFlush, _, flushes | ⟨idle, _⟩⟩ := ikcpUpdate_cases kcp current
  · have drained := ikcpFlush_receiver (flushes.symm.trans updated)
    exact drained
  · rw [updated] at idle
    cases idle
    exact ⟨kcp.acklist, rfl⟩

/-- The user sets no receive window that is wider than `bound`. -/
def RcvWndSetWithin (bound : Nat) (_ : IKCPCB) : Call → Prop
  | .wndsize _ rcvwnd => rcvwnd.toInt ≤ bound
  | _ => True

instance (bound : Nat) (kcp : IKCPCB) : (any : Call) → Decidable (RcvWndSetWithin bound kcp any)
  | .wndsize _ rcvwnd => inferInstanceAs (Decidable (rcvwnd.toInt ≤ bound))
  | .send _ | .recv _ | .input _ | .update _ | .flush | .setmtu _ | .nodelay _ _ _ _ | .interval _ =>
      isTrue trivial

theorem within_of_call {any : Call} (wide : WindowReach bound reach)
    (within : kcp.receiver.Within bound reach) (narrow : RcvWndSetWithin bound kcp any)
    (done : call kcp any = some final) : final.receiver.Within bound reach := by
  cases any with
  | send message =>
      obtain ⟨⟨sent, code⟩, sending, rfl⟩ := Option.map_eq_some_iff.mp done
      obtain ⟨queue, rfl⟩ := ikcpSend_queue sending
      exact within
  | recv len =>
      cases done
      exact ikcpRecv_within wide len within
  | input data =>
      obtain ⟨⟨taken, code⟩, taking, rfl⟩ := Option.map_eq_some_iff.mp done
      exact ikcpInput_within wide within taking
  | update current =>
      obtain ⟨⟨updated, datagrams⟩, updating, rfl⟩ := Option.map_eq_some_iff.mp done
      exact within.drain (ikcpUpdate_receiver updating)
  | flush =>
      obtain ⟨⟨flushed, datagrams⟩, flushing, rfl⟩ := Option.map_eq_some_iff.mp done
      exact within.drain (ikcpFlush_receiver flushing)
  | setmtu mtu =>
      cases done
      rw [ikcpSetmtu_receiver]
      exact within
  | nodelay | interval =>
      cases done
      exact within
  | wndsize sndwnd rcvwnd =>
      cases done
      exact ikcpWndsize_within sndwnd narrow within

variable {conv : UInt32} {calls : List Call}

theorem within_of_run (least : IKCP_WND_RCV.toNat ≤ bound) (small : bound < 2 ^ 31)
    (narrow : Runs.Meets call (RcvWndSetWithin bound) (ikcpCreate conv) calls)
    (replayed : Runs.run call (ikcpCreate conv) calls = some final) :
    final.receiver.Within bound bound := by
  have wide : WindowReach bound bound := ⟨small, Nat.le_refl bound, Nat.le_of_lt small⟩
  have start : (ikcpCreate conv).receiver.Within bound bound :=
    ⟨least, Nat.zero_le bound, List.Pairwise.nil, List.forall_mem_nil _⟩
  exact Runs.invariant_of_meets (fun _ _ _ held met done => within_of_call wide held met done) start
    narrow replayed

/-- Whatever arrives, neither list of received segments is longer than the widest
window that has been set. -/
theorem received_bounded (least : IKCP_WND_RCV.toNat ≤ bound) (small : bound < 2 ^ 31)
    (narrow : Runs.Meets call (RcvWndSetWithin bound) (ikcpCreate conv) calls)
    (replayed : Runs.run call (ikcpCreate conv) calls = some final) :
    final.rcvQueue.segs.length ≤ bound ∧ final.rcvBuf.segs.length ≤ bound := by
  have within := within_of_run least small narrow replayed
  exact ⟨within.queue, within.sorted.length_le within.near⟩

def strangeSegment (cmd sn : UInt32) (data : List UInt8) : List UInt8 :=
  IKCPSEG.wire { ikcpSegmentNew data with conv := 7, cmd := cmd, wnd := 20, sn := sn }

/-- Of three segments in flight the second is acknowledged. Data arrive behind a gap and
in order, and then bytes that are no datagram. -/
def strangeCalls : List Call :=
  [.nodelay 1 10 2 1, .wndsize 64 32, .send (.ofByte 1), .send (.ofByte 2),
    .send (.ofByte 3), .update 0, .input (strangeSegment IKCP_CMD_ACK 1 []),
    .input (strangeSegment IKCP_CMD_PUSH 2 [6] ++ strangeSegment IKCP_CMD_PUSH 0 [4]),
    .input [1, 2, 3, 4, 5], .update 10]

theorem strangeCalls_replayed :
    ∃ final, Runs.run call (ikcpCreate 7) strangeCalls = some final ∧
      final.rcvQueue.segs.length = 1 ∧ final.rcvBuf.segs.length = 1 ∧
        final.sndBuf.segs.length = 2 ∧ final.rmtWnd = 20 := by
  have seen : (Runs.run call (ikcpCreate 7) strangeCalls).map (fun final =>
      (final.rcvQueue.segs.length, final.rcvBuf.segs.length, final.sndBuf.segs.length,
        final.rmtWnd)) = some (1, 1, 2, 20) := by decide +kernel
  obtain ⟨final, replayed, same⟩ := Option.map_eq_some_iff.mp seen
  simp only [Prod.mk.injEq] at same
  exact ⟨final, replayed, same⟩

theorem received_bounded_strangeCalls :
    ∃ final, Runs.run call (ikcpCreate 7) strangeCalls = some final ∧
      final.rcvQueue.segs.length = 1 ∧ final.rcvBuf.segs.length = 1 ∧
      final.rcvQueue.segs.length ≤ 32 ∧ final.rcvBuf.segs.length ≤ 32 := by
  obtain ⟨final, replayed, queue, buf, _⟩ := strangeCalls_replayed
  exact ⟨final, replayed, queue, buf,
    received_bounded (by decide) (by decide) (by decide +kernel) replayed⟩
end Calls

end TalkingTime.Kcp

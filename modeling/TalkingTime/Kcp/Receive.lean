import TalkingTime.Kcp.ControlBlock
import TalkingTime.Library.Serial

/-! The receiving side of a control block: `ikcp_peeksize`, `ikcp_recv` and
`ikcp_parse_data`. -/

namespace TalkingTime.Kcp

open Serial

/-- The loop of `ikcp_peeksize`. The sum of the lengths is an `int` and wraps around. -/
def peekLoop : List IKCPSEG → Int32
  | [] => 0
  | seg :: rest => seg.len.toInt32 + if seg.frg = 0 then 0 else peekLoop rest

def ikcpPeeksize (kcp : IKCPCB) : Int32 :=
  match kcp.rcvQueue.segs with
  | [] => -1
  | seg :: rest =>
      if seg.frg = 0 then seg.len.toInt32
      else if kcp.rcvQueue.count < seg.frg + 1 then -1
      else peekLoop (seg :: rest)

def mergeLoop (ispeek : Bool) : List IKCPSEG → SegQueue → List UInt8 → SegQueue × List UInt8
  | [], queue, buffer => (queue, buffer)
  | seg :: rest, queue, buffer =>
      let buffer := buffer ++ seg.data
      let queue := if ispeek then queue else queue.delHead
      if seg.frg = 0 then (queue, buffer) else mergeLoop ispeek rest queue buffer

/-- One turn of the loop in `ikcp_recv` and in `ikcp_parse_data` that moves the
head of `rcv_buf` to the end of `rcv_queue`. -/
def advance (kcp : IKCPCB) (seg : IKCPSEG) : IKCPCB :=
  { kcp with
      rcvBuf := kcp.rcvBuf.delHead
      rcvQueue := kcp.rcvQueue.addTail seg
      rcvNxt := kcp.rcvNxt + 1 }

def moveLoop : List IKCPSEG → IKCPCB → IKCPCB
  | [], kcp => kcp
  | seg :: rest, kcp =>
      if seg.sn = kcp.rcvNxt ∧ kcp.rcvQueue.count < kcp.rcvWnd then
        moveLoop rest (advance kcp seg)
      else kcp

def moveAvailable (kcp : IKCPCB) : IKCPCB := moveLoop kcp.rcvBuf.segs kcp

/-- `ikcp_recv` behind its checks: a message is merged into the buffer, and the
segments that are next in order take its place. -/
def recvMessage (ispeek : Bool) (kcp : IKCPCB) : IKCPCB × List UInt8 :=
  let recover : Bool := kcp.rcvWnd ≤ kcp.rcvQueue.count
  let (queue, buffer) := mergeLoop ispeek kcp.rcvQueue.segs kcp.rcvQueue []
  let kcp := moveAvailable { kcp with rcvQueue := queue }
  if kcp.rcvQueue.count < kcp.rcvWnd ∧ recover then
    ({ kcp with probe := kcp.probe ||| IKCP_ASK_TELL }, buffer)
  else (kcp, buffer)

/-- How many bytes a buffer has room for whose size, negative for a peek, is given to
`ikcp_recv`. The negation overflows for the least `int`, where the source is undefined;
here it wraps. -/
def bufferRoom (len : Int32) : Int32 := if len < 0 then -len else len

theorem bufferRoom_ofNat {size : Nat} (short : size < 2 ^ 31) :
    (bufferRoom (Int32.ofNat size)).toInt = size := by
  rw [bufferRoom, if_neg (Int32.not_lt.mpr (zero_le_ofNat short)), Int32.toInt_ofNat_of_lt short]

/-- `ikcp_recv` with a buffer: the new control block, what the call returns and the
bytes it writes to the buffer. -/
def ikcpRecv (kcp : IKCPCB) (len : Int32) : IKCPCB × Int32 × List UInt8 :=
  if kcp.rcvQueue.segs.isEmpty then (kcp, -1, [])
  else
    let ispeek : Bool := len < 0
    let peeksize := ikcpPeeksize kcp
    if peeksize < 0 then (kcp, -2, [])
    else if bufferRoom len < peeksize then (kcp, -3, [])
    else
      let (kcp, buffer) := recvMessage ispeek kcp
      (kcp, Int32.ofNat buffer.length, buffer)

/-- The walk of `ikcp_parse_data` over `rcv_buf`, which starts at its end: here the
list is reversed. The new segment is linked behind the first one with a smaller
number, and nowhere (`none`) when one with its own number comes first. -/
def linkBack (newseg : IKCPSEG) : List IKCPSEG → Option (List IKCPSEG)
  | [] => some [newseg]
  | seg :: prev =>
      if seg.sn = newseg.sn then none
      else if 0 < diff newseg.sn seg.sn then some (newseg :: seg :: prev)
      else (linkBack newseg prev).map (seg :: ·)

theorem length_linkBack {newseg : IKCPSEG} {segs linked : List IKCPSEG}
    (done : linkBack newseg segs = some linked) : linked.length = segs.length + 1 := by
  induction segs generalizing linked with
  | nil =>
      cases done
      rfl
  | cons seg prev ih =>
      rw [linkBack] at done
      split at done
      · cases done
      · split at done
        · cases done
          rfl
        · obtain ⟨front, inner, rfl⟩ := Option.map_eq_some_iff.mp done
          rw [List.length_cons, ih inner, List.length_cons]

def SegQueue.link (queue : SegQueue) (newseg : IKCPSEG) : SegQueue :=
  match done : linkBack newseg queue.segs.reverse with
  | some linked =>
      queue.grown linked.reverse (by
        rw [List.length_reverse, length_linkBack done, List.length_reverse])
  | none => queue

def ikcpParseData (kcp : IKCPCB) (newseg : IKCPSEG) : IKCPCB :=
  let sn := newseg.sn
  if 0 ≤ diff sn (kcp.rcvNxt + kcp.rcvWnd) ∨ diff sn kcp.rcvNxt < 0 then kcp
  else moveAvailable { kcp with rcvBuf := kcp.rcvBuf.link newseg }

section Moving

theorem moveLoop_preserves (holds : IKCPCB → Prop)
    (move : ∀ kcp seg rest, holds kcp → kcp.rcvBuf.segs = seg :: rest → seg.sn = kcp.rcvNxt →
      kcp.rcvQueue.count < kcp.rcvWnd → holds (advance kcp seg))
    {segs : List IKCPSEG} {kcp : IKCPCB} (all : kcp.rcvBuf.segs = segs) (held : holds kcp) :
    holds (moveLoop segs kcp) := by
  induction segs generalizing kcp with
  | nil => exact held
  | cons seg rest ih =>
      rw [moveLoop]
      split
      · rename_i next
        apply ih
        · rw [advance, SegQueue.delHead_segs, all, List.tail_cons]
        · exact move kcp seg rest held all next.1 next.2
      · exact held

theorem moveAvailable_preserves (holds : IKCPCB → Prop)
    (move : ∀ kcp seg rest, holds kcp → kcp.rcvBuf.segs = seg :: rest → seg.sn = kcp.rcvNxt →
      kcp.rcvQueue.count < kcp.rcvWnd → holds (advance kcp seg))
    {kcp : IKCPCB} (held : holds kcp) : holds (moveAvailable kcp) :=
  moveLoop_preserves holds move rfl held

theorem moveLoop_stops {segs : List IKCPSEG} {kcp : IKCPCB} (all : kcp.rcvBuf.segs = segs) :
    ∀ seg ∈ (moveLoop segs kcp).rcvBuf.segs.head?, seg.sn = (moveLoop segs kcp).rcvNxt →
      (moveLoop segs kcp).rcvWnd ≤ (moveLoop segs kcp).rcvQueue.count := by
  induction segs generalizing kcp with
  | nil =>
      intro seg head
      rw [moveLoop, all] at head
      cases head
  | cons first rest ih =>
      rw [moveLoop]
      split
      · apply ih
        rw [advance, SegQueue.delHead_segs, all, List.tail_cons]
      · rename_i stopped
        intro seg head next
        rw [all] at head
        cases head
        exact UInt32.not_lt.mp (fun room => stopped ⟨next, room⟩)

/-- The loop ends where its condition says: the head of `rcv_buf` is not the next
segment, or `rcv_queue` is full. -/
theorem moveAvailable_stops (kcp : IKCPCB) :
    ∀ seg ∈ (moveAvailable kcp).rcvBuf.segs.head?, seg.sn = (moveAvailable kcp).rcvNxt →
      (moveAvailable kcp).rcvWnd ≤ (moveAvailable kcp).rcvQueue.count :=
  moveLoop_stops rfl

end Moving

section Linking

variable {newseg : IKCPSEG}

theorem mem_of_linkBack {segs linked : List IKCPSEG} (done : linkBack newseg segs = some linked)
    (seg : IKCPSEG) : seg ∈ linked ↔ seg = newseg ∨ seg ∈ segs := by
  induction segs generalizing linked with
  | nil =>
      cases done
      simp
  | cons first prev ih =>
      rw [linkBack] at done
      split at done
      · cases done
      · split at done
        · cases done
          exact List.mem_cons
        · obtain ⟨front, inner, rfl⟩ := Option.map_eq_some_iff.mp done
          rw [List.mem_cons, ih inner, List.mem_cons]
          exact or_left_comm

theorem repeated_of_linkBack {segs : List IKCPSEG} (done : linkBack newseg segs = none) :
    ∃ seg ∈ segs, seg.sn = newseg.sn := by
  induction segs with
  | nil => cases done
  | cons first prev ih =>
      rw [linkBack] at done
      split at done
      · rename_i same
        exact ⟨first, List.mem_cons_self, same⟩
      · split at done
        · cases done
        · obtain ⟨seg, member, same⟩ := ih (Option.map_eq_none_iff.mp done)
          exact ⟨seg, List.mem_cons_of_mem first member, same⟩

theorem link_of_some {queue : SegQueue} {linked : List IKCPSEG}
    (done : linkBack newseg queue.segs.reverse = some linked) :
    (queue.link newseg).segs = linked.reverse := by
  unfold SegQueue.link
  split
  · rename_i other same
    rw [done] at same
    cases same
    rfl
  · rename_i nothing
    rw [done] at nothing
    cases nothing

theorem link_of_none {queue : SegQueue} (repeated : linkBack newseg queue.segs.reverse = none) :
    queue.link newseg = queue := by
  unfold SegQueue.link
  split
  · rename_i other done
    rw [repeated] at done
    cases done
  · rfl

variable (queue : SegQueue)

theorem of_mem_link {seg : IKCPSEG} (member : seg ∈ (queue.link newseg).segs) :
    seg = newseg ∨ seg ∈ queue.segs := by
  cases done : linkBack newseg queue.segs.reverse with
  | none =>
      rw [link_of_none done] at member
      exact Or.inr member
  | some linked =>
      rw [link_of_some done, List.mem_reverse, mem_of_linkBack done, List.mem_reverse] at member
      exact member

theorem mem_link {seg : IKCPSEG} (member : seg ∈ queue.segs) : seg ∈ (queue.link newseg).segs := by
  cases done : linkBack newseg queue.segs.reverse with
  | none =>
      rw [link_of_none done]
      exact member
  | some linked =>
      rw [link_of_some done, List.mem_reverse, mem_of_linkBack done, List.mem_reverse]
      exact Or.inr member

theorem link_present (newseg : IKCPSEG) : ∃ seg ∈ (queue.link newseg).segs, seg.sn = newseg.sn := by
  cases done : linkBack newseg queue.segs.reverse with
  | none =>
      obtain ⟨seg, member, same⟩ := repeated_of_linkBack done
      rw [link_of_none done]
      exact ⟨seg, List.mem_reverse.mp member, same⟩
  | some linked =>
      refine ⟨newseg, ?_, rfl⟩
      rw [link_of_some done, List.mem_reverse, mem_of_linkBack done]
      exact Or.inl rfl

/-- The order of segments by how far they are ahead of a number. -/
def AscendingFrom (base : UInt32) (segs : List IKCPSEG) : Prop :=
  segs.Pairwise (fun seg later => ahead base seg.sn < ahead base later.sn)

/-- Walking from the end, the new segment finds its place in the order. -/
theorem linkBack_descending {base : UInt32} {segs linked : List IKCPSEG}
    (done : linkBack newseg segs = some linked) (near : ahead base newseg.sn < 2 ^ 31)
    (bounded : ∀ seg ∈ segs, ahead base seg.sn < 2 ^ 31)
    (order : segs.Pairwise (fun seg later => ahead base later.sn < ahead base seg.sn)) :
    linked.Pairwise (fun seg later => ahead base later.sn < ahead base seg.sn) := by
  induction segs generalizing linked with
  | nil =>
      cases done
      exact List.pairwise_singleton _ newseg
  | cons first prev ih =>
      obtain ⟨greatest, rest⟩ := List.pairwise_cons.mp order
      have firstNear := bounded first List.mem_cons_self
      rw [linkBack] at done
      split at done
      · cases done
      · rename_i different
        split at done
        · rename_i greater
          cases done
          have above := (diff_pos_iff_ahead near firstNear).mp greater
          refine List.pairwise_cons.mpr ⟨?_, order⟩
          intro seg member
          rcases List.mem_cons.mp member with rfl | later
          · exact above
          · exact Nat.lt_trans (greatest seg later) above
        · rename_i notGreater
          obtain ⟨front, inner, rfl⟩ := Option.map_eq_some_iff.mp done
          have notAbove : ¬ ahead base first.sn < ahead base newseg.sn :=
            fun above => notGreater ((diff_pos_iff_ahead near firstNear).mpr above)
          have apart : ahead base newseg.sn ≠ ahead base first.sn :=
            fun same => different (ahead_inj same).symm
          have inOrder := ih inner
            (fun seg member => bounded seg (List.mem_cons_of_mem first member)) rest
          refine List.pairwise_cons.mpr ⟨?_, inOrder⟩
          intro seg member
          rcases (mem_of_linkBack inner seg).mp member with rfl | later
          · omega
          · exact greatest seg later

theorem link_ascending {base : UInt32} (near : ahead base newseg.sn < 2 ^ 31)
    (bounded : ∀ seg ∈ queue.segs, ahead base seg.sn < 2 ^ 31)
    (order : AscendingFrom base queue.segs) : AscendingFrom base (queue.link newseg).segs := by
  cases done : linkBack newseg queue.segs.reverse with
  | none =>
      rw [link_of_none done]
      exact order
  | some linked =>
      rw [link_of_some done]
      apply List.pairwise_reverse.mpr
      apply linkBack_descending done near
      · exact fun seg member => bounded seg (List.mem_reverse.mp member)
      · exact List.pairwise_reverse.mpr order

end Linking

end TalkingTime.Kcp

import TalkingTime.Kcp.Receive

/-! `ikcp_input`: the bytes of a datagram are read segment by segment. -/

namespace TalkingTime.Kcp

open Serial

def imin (a b : UInt32) : UInt32 := if a ≤ b then a else b
def imax (a b : UInt32) : UInt32 := if b ≤ a then a else b
def ibound (lower middle upper : UInt32) : UInt32 := imin (imax lower middle) upper

/-- `ikcp_update_ack`. `delta` is a `long` of 64 bits, all else is an `int`. Where an
`int` overflows the source is undefined; here it wraps. -/
def ikcpUpdateAck (kcp : IKCPCB) (rtt : Int32) : IKCPCB :=
  let kcp :=
    if kcp.rxSrtt = 0 then { kcp with rxSrtt := rtt, rxRttval := rtt / 2 }
    else
      let delta := (rtt - kcp.rxSrtt).toInt64
      let delta := if delta < 0 then -delta else delta
      let rttval := (((3 * kcp.rxRttval).toInt64 + delta) / 4).toInt32
      let srtt := (7 * kcp.rxSrtt + rtt) / 8
      { kcp with rxRttval := rttval, rxSrtt := if srtt < 1 then 1 else srtt }
  let rto := kcp.rxSrtt.toUInt32 + imax 1 (4 * kcp.rxRttval).toUInt32
  { kcp with rxRto := (ibound kcp.rxMinrto.toUInt32 rto IKCP_RTO_MAX).toInt32 }

def ikcpShrinkBuf (kcp : IKCPCB) : IKCPCB :=
  match kcp.sndBuf.segs with
  | seg :: _ => { kcp with sndUna := seg.sn }
  | [] => { kcp with sndUna := kcp.sndNxt }

def ackLoop (sn : UInt32) : List IKCPSEG → List IKCPSEG
  | [] => []
  | seg :: rest =>
      if sn = seg.sn then rest
      else { seg with fastack := seg.fastack + 1 } :: ackLoop sn rest

theorem length_ackLoop_of_mem {sn : UInt32} {segs : List IKCPSEG}
    (linked : ∃ seg ∈ segs, sn = seg.sn) : (ackLoop sn segs).length + 1 = segs.length := by
  induction segs with
  | nil =>
      obtain ⟨seg, member, _⟩ := linked
      cases member
  | cons first rest ih =>
      rw [ackLoop]
      split
      · rfl
      · rename_i other
        obtain ⟨seg, member, same⟩ := linked
        rcases List.mem_cons.mp member with rfl | later
        · exact absurd same other
        · rw [List.length_cons, ih ⟨seg, later, same⟩, List.length_cons]

theorem ackLoop_of_not_mem {sn : UInt32} {segs : List IKCPSEG}
    (absent : ¬ ∃ seg ∈ segs, sn = seg.sn) :
    ackLoop sn segs = segs.map (fun seg => { seg with fastack := seg.fastack + 1 }) := by
  induction segs with
  | nil => rfl
  | cons first rest ih =>
      have other : ¬ sn = first.sn := fun same => absent ⟨first, List.mem_cons_self, same⟩
      have later : ¬ ∃ seg ∈ rest, sn = seg.sn := by
        rintro ⟨seg, member, same⟩
        exact absent ⟨seg, List.mem_cons_of_mem first member, same⟩
      rw [ackLoop, if_neg other, ih later, List.map_cons]

/-- The walk of `ikcp_parse_ack` over `snd_buf` with the counter, which it decrements
where it unlinks. -/
def SegQueue.ack (queue : SegQueue) (sn : UInt32) : SegQueue :=
  if linked : ∃ seg ∈ queue.segs, sn = seg.sn then
    queue.shrunk (ackLoop sn queue.segs) (length_ackLoop_of_mem linked)
  else queue.map (fun seg => { seg with fastack := seg.fastack + 1 })

@[simp] theorem SegQueue.ack_segs (queue : SegQueue) (sn : UInt32) :
    (queue.ack sn).segs = ackLoop sn queue.segs := by
  unfold SegQueue.ack
  split
  · rfl
  · rename_i absent
    rw [SegQueue.map_segs, ackLoop_of_not_mem absent]

def ikcpParseAck (kcp : IKCPCB) (sn : UInt32) : IKCPCB :=
  if diff sn kcp.sndUna < 0 ∨ 0 ≤ diff sn kcp.sndNxt then kcp
  else { kcp with sndBuf := kcp.sndBuf.ack sn }

def unaLoop (una : UInt32) : List IKCPSEG → SegQueue → SegQueue
  | [], queue => queue
  | seg :: rest, queue =>
      if 0 < diff una seg.sn then unaLoop una rest queue.delHead else queue

def ikcpParseUna (kcp : IKCPCB) (una : UInt32) : IKCPCB :=
  { kcp with sndBuf := unaLoop una kcp.sndBuf.segs kcp.sndBuf }

def ikcpAckPush (kcp : IKCPCB) (sn ts : UInt32) : IKCPCB :=
  { kcp with acklist := kcp.acklist ++ [(sn, ts)] }

def Header.segment (header : Header) (data : List UInt8) : IKCPSEG :=
  { ikcpSegmentNew data with
      conv := header.conv
      cmd := header.cmd.toUInt32
      frg := header.frg.toUInt32
      wnd := header.wnd.toUInt32
      ts := header.ts
      sn := header.sn
      una := header.una }

def inputAck (kcp : IKCPCB) (ts sn : UInt32) : IKCPCB :=
  let kcp :=
    if 0 ≤ diff kcp.current ts then ikcpUpdateAck kcp (kcp.current - ts).toInt32 else kcp
  ikcpShrinkBuf (ikcpParseAck kcp sn)

def inputPush (kcp : IKCPCB) (newseg : IKCPSEG) : IKCPCB :=
  if diff newseg.sn (kcp.rcvNxt + kcp.rcvWnd) < 0 then
    let kcp := ikcpAckPush kcp newseg.sn newseg.ts
    if 0 ≤ diff newseg.sn kcp.rcvNxt then ikcpParseData kcp newseg else kcp
  else kcp

def knownCommand (cmd : UInt32) : Prop :=
  cmd = IKCP_CMD_PUSH ∨ cmd = IKCP_CMD_ACK ∨ cmd = IKCP_CMD_WASK ∨ cmd = IKCP_CMD_WINS

instance (cmd : UInt32) : Decidable (knownCommand cmd) :=
  inferInstanceAs (Decidable (_ ∨ _ ∨ _ ∨ _))

/-- One segment that has passed the checks of `ikcp_input`. -/
def inputSegment (kcp : IKCPCB) (header : Header) (data : List UInt8) : IKCPCB :=
  let kcp := { kcp with rmtWnd := header.wnd.toUInt32 }
  let kcp := ikcpShrinkBuf (ikcpParseUna kcp header.una)
  let cmd := header.cmd.toUInt32
  if cmd = IKCP_CMD_ACK then inputAck kcp header.ts header.sn
  else if cmd = IKCP_CMD_PUSH then inputPush kcp (header.segment data)
  else if cmd = IKCP_CMD_WASK then { kcp with probe := kcp.probe ||| IKCP_ASK_TELL }
  else kcp

/-- The loop of `ikcp_input` for at most `fuel` segments, with what the call returns
where the loop ends it. -/
def inputLoop : Nat → IKCPCB → List UInt8 → Option (IKCPCB × Int)
  | 0, _, _ => none
  | fuel + 1, kcp, data =>
      if data.length < IKCP_OVERHEAD then some (kcp, 0)
      else
        match decodeHeader data with
        | none => none
        | some (header, data) =>
            if header.conv ≠ kcp.conv then some (kcp, -1)
            else if data.length < header.len.toNat then some (kcp, -2)
            else if ¬ knownCommand header.cmd.toUInt32 then some (kcp, -3)
            else
              inputLoop fuel (inputSegment kcp header (data.take header.len.toNat))
                (data.drop header.len.toNat)

/-- Slow start below `ssthresh`, and congestion avoidance from there on. -/
def openWindow (kcp : IKCPCB) : IKCPCB :=
  let mss := kcp.mss
  if kcp.cwnd < kcp.ssthresh then { kcp with cwnd := kcp.cwnd + 1, incr := kcp.incr + mss }
  else
    let incr := if kcp.incr < mss then mss else kcp.incr
    let incr := incr + (mss * mss / incr + mss / 16)
    { kcp with
        incr := incr
        cwnd := if (kcp.cwnd + 1) * mss ≤ incr then kcp.cwnd + 1 else kcp.cwnd }

def growWindow (kcp : IKCPCB) : IKCPCB :=
  if kcp.cwnd < kcp.rmtWnd then
    let kcp := openWindow kcp
    if kcp.rmtWnd < kcp.cwnd then { kcp with cwnd := kcp.rmtWnd, incr := kcp.rmtWnd * kcp.mss }
    else kcp
  else kcp

/-- `ikcp_input`. The first read of the data comes before the check of their
length, so that it is undefined (`none`) on fewer than four bytes. -/
def ikcpInput (kcp : IKCPCB) (data : List UInt8) : Option (IKCPCB × Int) :=
  match ikcpDecode32u data with
  | none => none
  | some _ =>
      if data.length < IKCP_OVERHEAD then some (kcp, 0)
      else
        match inputLoop (data.length + 1) kcp data with
        | none => none
        | some (final, code) =>
            if code < 0 then some (final, code)
            else if 0 < diff final.sndUna kcp.sndUna then some (growWindow final, 0)
            else some (final, 0)

/-- What every segment preserves, the loop preserves, and its fuel never runs out. -/
theorem inputLoop_preserves (holds : IKCPCB → Prop)
    (segment : ∀ kcp header data, holds kcp → holds (inputSegment kcp header data))
    {fuel : Nat} {kcp : IKCPCB} {data : List UInt8} (enough : data.length < fuel)
    (held : holds kcp) : ∃ final code, inputLoop fuel kcp data = some (final, code) ∧ holds final := by
  induction fuel generalizing kcp data with
  | zero => exact absurd enough (Nat.not_lt_zero _)
  | succ fuel ih =>
      rw [inputLoop]
      split
      · exact ⟨kcp, 0, rfl, held⟩
      · rename_i long
        obtain ⟨header, decoded⟩ := decodeHeader_isSome data (Nat.not_lt.mp long)
        rw [decoded]
        dsimp only
        split
        · exact ⟨kcp, -1, rfl, held⟩
        · split
          · exact ⟨kcp, -2, rfl, held⟩
          · split
            · exact ⟨kcp, -3, rfl, held⟩
            · apply ih
              · rw [List.length_drop, List.length_drop]
                unfold IKCP_OVERHEAD at long ⊢
                omega
              · exact segment kcp header _ held

theorem ikcpInput_eq_none_iff (kcp : IKCPCB) (data : List UInt8) :
    ikcpInput kcp data = none ↔ data.length < 4 := by
  have kept : ∀ (kcp : IKCPCB) (header : Header) (data : List UInt8), True → True :=
    fun _ _ _ held => held
  obtain ⟨final, code, ran, _⟩ : ∃ final code, inputLoop (data.length + 1) kcp data =
      some (final, code) ∧ True :=
    inputLoop_preserves (fun _ => True) kept (Nat.lt_succ_self data.length) trivial
  rw [← ikcpDecode32u_eq_none_iff, ikcpInput]
  cases decoded : ikcpDecode32u data with
  | none => simp
  | some first =>
      simp only [ran, reduceCtorEq, iff_false]
      split
      · exact Option.some_ne_none _
      · split
        · exact Option.some_ne_none _
        · split <;> exact Option.some_ne_none _

theorem ikcpInput_of_inputLoop {kcp last : IKCPCB} {data : List UInt8} {code : Int}
    (enough : 4 ≤ data.length) (ran : inputLoop (data.length + 1) kcp data = some (last, code))
    (ended : code ≤ 0) :
    ikcpInput kcp data =
      some (if code = 0 ∧ 0 < diff last.sndUna kcp.sndUna then growWindow last else last, code) := by
  obtain ⟨first, decoded⟩ := ikcpDecode32u_isSome data enough
  simp only [ikcpInput, decoded]
  split
  · rename_i short
    rw [inputLoop, if_pos short] at ran
    cases ran
    rw [diff_self, if_neg (fun grown => Int.lt_irrefl 0 grown.2)]
  · rw [ran]
    dsimp only
    split
    · rename_i negative
      rw [if_neg (fun grown => Int.ne_of_lt negative grown.1)]
    · have zero : code = 0 := Int.le_antisymm ended (Int.not_lt.mp ‹_›)
      subst zero
      simp only [true_and]
      split <;> rfl

theorem ikcpInput_preserves {holds : IKCPCB → Prop}
    (segment : ∀ kcp header data, holds kcp → holds (inputSegment kcp header data))
    (growth : ∀ kcp, holds kcp → holds (growWindow kcp))
    {kcp final : IKCPCB} {data : List UInt8} {code : Int} (held : holds kcp)
    (taken : ikcpInput kcp data = some (final, code)) : holds final := by
  obtain ⟨last, result, ran, kept⟩ := inputLoop_preserves holds segment (Nat.lt_succ_self data.length) held
  unfold ikcpInput at taken
  rw [ran] at taken
  split at taken
  · cases taken
  · split at taken
    · cases taken
      exact held
    · dsimp only at taken
      split at taken
      · cases taken
        exact kept
      · split at taken
        · cases taken
          exact growth last kept
        · cases taken
          exact kept

end TalkingTime.Kcp

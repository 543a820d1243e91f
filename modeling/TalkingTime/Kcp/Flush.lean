import TalkingTime.Kcp.Input

/-! `ikcp_flush` and `ikcp_update`: acknowledgements, window probes, new and lost
segments are packed into datagrams of at most `mtu` bytes. -/

namespace TalkingTime.Kcp

open Serial

def IKCPSEG.wire (seg : IKCPSEG) : List UInt8 := ikcpEncodeSeg seg ++ seg.data

@[simp] theorem length_wire (seg : IKCPSEG) :
    seg.wire.length = IKCP_OVERHEAD + seg.data.length := by
  rw [IKCPSEG.wire, List.length_append, length_ikcpEncodeSeg]

/-- The bytes from `buffer` up to `ptr`, and the datagrams given to `output`. -/
structure Output where
  written : List UInt8
  sent : List (List UInt8)
  deriving DecidableEq, Repr

/-- `ikcp_output`, after which `ptr` is set back to `buffer` (or used no more). -/
def ikcpOutput (out : Output) : Output :=
  if out.written = [] then out else ⟨[], out.sent ++ [out.written]⟩

/-- Writes a segment behind `ptr`, after the bytes before it are sent when both do
not fit into one datagram. A write past the end of the buffer is undefined. -/
def place (kcp : IKCPCB) (out : Output) (seg : IKCPSEG) : Option Output :=
  let need := IKCP_OVERHEAD + seg.data.length
  let out := if kcp.mtu.toNat < out.written.length + need then ikcpOutput out else out
  let written := out.written ++ seg.wire
  if written.length ≤ kcp.buffer then some { out with written := written } else none

def ikcpWndUnused (kcp : IKCPCB) : UInt32 :=
  if kcp.rcvQueue.count < kcp.rcvWnd then kcp.rcvWnd - kcp.rcvQueue.count else 0

/-- The local `seg` of `ikcp_flush`. -/
def controlSegment (kcp : IKCPCB) : IKCPSEG :=
  { ikcpSegmentNew [] with
      conv := kcp.conv
      cmd := IKCP_CMD_ACK
      wnd := ikcpWndUnused kcp
      una := kcp.rcvNxt }

def flushAcks (kcp : IKCPCB) :
    List (UInt32 × UInt32) → IKCPSEG → Output → Option (IKCPSEG × Output)
  | [], seg, out => some (seg, out)
  | (sn, ts) :: rest, seg, out => do
      let seg := { seg with sn := sn, ts := ts }
      let out ← place kcp out seg
      flushAcks kcp rest seg out

def probePause (wait : UInt32) : UInt32 :=
  let wait := if wait < IKCP_PROBE_INIT then IKCP_PROBE_INIT else wait
  let wait := wait + wait / 2
  if IKCP_PROBE_LIMIT < wait then IKCP_PROBE_LIMIT else wait

def probeWindow (kcp : IKCPCB) : IKCPCB :=
  if kcp.rmtWnd = 0 then
    if kcp.probeWait = 0 then
      { kcp with probeWait := IKCP_PROBE_INIT, tsProbe := kcp.current + IKCP_PROBE_INIT }
    else if 0 ≤ diff kcp.current kcp.tsProbe then
      let wait := probePause kcp.probeWait
      { kcp with
          probeWait := wait
          tsProbe := kcp.current + wait
          probe := kcp.probe ||| IKCP_ASK_SEND }
    else kcp
  else { kcp with tsProbe := 0, probeWait := 0 }

def flushProbe (kcp : IKCPCB) (ask cmd : UInt32) (seg : IKCPSEG) (out : Output) :
    Option (IKCPSEG × Output) :=
  if kcp.probe &&& ask ≠ 0 then do
    let seg := { seg with cmd := cmd }
    let out ← place kcp out seg
    some (seg, out)
  else some (seg, out)

def flushControl (kcp : IKCPCB) : Option (IKCPCB × Output) := do
  let (seg, out) ← flushAcks kcp kcp.acklist (controlSegment kcp) ⟨[], []⟩
  let kcp := probeWindow { kcp with acklist := [] }
  let (seg, out) ← flushProbe kcp IKCP_ASK_SEND IKCP_CMD_WASK seg out
  let (_, out) ← flushProbe kcp IKCP_ASK_TELL IKCP_CMD_WINS seg out
  some ({ kcp with probe := 0 }, out)

def windowSize (kcp : IKCPCB) : UInt32 :=
  let cwnd := imin kcp.sndWnd kcp.rmtWnd
  if kcp.nocwnd = 0 then imin kcp.cwnd cwnd else cwnd

/-- One turn of the loop that moves segments from `snd_queue` to `snd_buf`. -/
def number (wnd : UInt32) (kcp : IKCPCB) (newseg : IKCPSEG) : IKCPCB :=
  { kcp with
      sndQueue := kcp.sndQueue.delHead
      sndBuf := kcp.sndBuf.addTail
        { newseg with
            conv := kcp.conv
            cmd := IKCP_CMD_PUSH
            wnd := wnd
            ts := kcp.current
            sn := kcp.sndNxt
            una := kcp.rcvNxt
            resendts := kcp.current
            rto := kcp.rxRto.toUInt32
            fastack := 0
            xmit := 0 }
      sndNxt := kcp.sndNxt + 1 }

def numberLoop (wnd cwnd : UInt32) : List IKCPSEG → IKCPCB → IKCPCB
  | [], kcp => kcp
  | newseg :: rest, kcp =>
      if diff kcp.sndNxt (kcp.sndUna + cwnd) < 0 then
        numberLoop wnd cwnd rest (number wnd kcp newseg)
      else kcp

/-- Why a segment of `snd_buf` is sent, if it is (`needsend`). -/
inductive Due where
  | first
  | timeout
  | fast
  | idle
  deriving DecidableEq, Repr

def due (kcp : IKCPCB) (resent : UInt32) (segment : IKCPSEG) : Due :=
  if segment.xmit = 0 then .first
  else if 0 ≤ diff kcp.current segment.resendts then .timeout
  else if resent ≤ segment.fastack then .fast
  else .idle

/-- The segment as the loop over `snd_buf` leaves it. -/
def renew (kcp : IKCPCB) (wnd rtomin : UInt32) (segment : IKCPSEG) (reason : Due) : IKCPSEG :=
  let sent := { segment with
    xmit := segment.xmit + 1, ts := kcp.current, wnd := wnd, una := kcp.rcvNxt }
  match reason with
  | .first =>
      let rto := kcp.rxRto.toUInt32
      { sent with rto := rto, resendts := kcp.current + rto + rtomin }
  | .timeout =>
      let more := if kcp.nodelay = 0 then kcp.rxRto else kcp.rxRto / 2
      let rto := segment.rto + more.toUInt32
      { sent with rto := rto, resendts := kcp.current + rto }
  | .fast => { sent with fastack := 0, resendts := kcp.current + segment.rto }
  | .idle => segment

structure FlushLoop where
  xmit : UInt32
  state : UInt32
  change : Nat
  lost : Bool
  out : Output
  deriving DecidableEq, Repr

def flushSegment (kcp : IKCPCB) (wnd resent rtomin : UInt32) (loop : FlushLoop)
    (segment : IKCPSEG) : Option FlushLoop :=
  let reason := due kcp resent segment
  let segment := renew kcp wnd rtomin segment reason
  let loop : FlushLoop :=
    match reason with
    | .timeout => { loop with xmit := loop.xmit + 1, lost := true }
    | .fast => { loop with change := loop.change + 1 }
    | _ => loop
  if reason = .idle then some loop
  -- `size + need` is an `int`, whose overflow is undefined
  else if 2 ^ 31 ≤ loop.out.written.length + (IKCP_OVERHEAD + segment.data.length) then none
  else do
    let out ← place kcp loop.out segment
    some { loop with
      out := out, state := if kcp.deadLink ≤ segment.xmit then 0xffffffff else loop.state }

def flushLoop (kcp : IKCPCB) (wnd resent rtomin : UInt32) :
    List IKCPSEG → FlushLoop → Option FlushLoop
  | [], loop => some loop
  | segment :: rest, loop => do
      let loop ← flushSegment kcp wnd resent rtomin loop segment
      flushLoop kcp wnd resent rtomin rest loop

def leastSsthresh (ssthresh : UInt32) : UInt32 :=
  if ssthresh < IKCP_THRESH_MIN then IKCP_THRESH_MIN else ssthresh

def windowAfterFast (resent : UInt32) (loop : FlushLoop) (kcp : IKCPCB) : IKCPCB :=
  if loop.change ≠ 0 then
    let ssthresh := leastSsthresh ((kcp.sndNxt - kcp.sndUna) / 2)
    { kcp with
        ssthresh := ssthresh, cwnd := ssthresh + resent, incr := (ssthresh + resent) * kcp.mss }
  else kcp

def windowAfterLoss (cwnd : UInt32) (loop : FlushLoop) (kcp : IKCPCB) : IKCPCB :=
  if loop.lost then { kcp with ssthresh := leastSsthresh (cwnd / 2), cwnd := 1, incr := kcp.mss }
  else kcp

def updateSsthresh (resent cwnd : UInt32) (loop : FlushLoop) (kcp : IKCPCB) : IKCPCB :=
  let kcp := windowAfterLoss cwnd loop (windowAfterFast resent loop kcp)
  if kcp.cwnd < 1 then { kcp with cwnd := 1, incr := kcp.mss } else kcp

/-- The part of `ikcp_flush` that sends data. `wnd` is `seg.wnd`. -/
def flushData (wnd : UInt32) (kcp : IKCPCB) (out : Output) : Option (IKCPCB × Output) := do
  let cwnd := windowSize kcp
  let kcp := numberLoop wnd cwnd kcp.sndQueue.segs kcp
  let resent := if 0 < kcp.fastresend then kcp.fastresend.toUInt32 else 0xffffffff
  let rtomin := if kcp.nodelay = 0 then (kcp.rxRto >>> 3).toUInt32 else 0
  let loop ← flushLoop kcp wnd resent rtomin kcp.sndBuf.segs ⟨kcp.xmit, kcp.state, 0, false, out⟩
  let segments := kcp.sndBuf.map (fun seg => renew kcp wnd rtomin seg (due kcp resent seg))
  let kcp := { kcp with sndBuf := segments, xmit := loop.xmit, state := loop.state }
  some (updateSsthresh resent cwnd loop kcp, ikcpOutput loop.out)

/-- `ikcp_flush`, with the datagrams it outputs. It counts the acknowledgements with an
`int`; they are taken to be fewer than `2 ^ 31`. -/
def ikcpFlush (kcp : IKCPCB) : Option (IKCPCB × List (List UInt8)) :=
  if kcp.updated = 0 then some (kcp, [])
  else do
    let (quiet, out) ← flushControl kcp
    let (final, out) ← flushData (ikcpWndUnused kcp) quiet out
    some (final, out.sent)

def startClock (kcp : IKCPCB) (current : UInt32) : IKCPCB :=
  if kcp.updated = 0 then { kcp with current := current, updated := 1, tsFlush := current }
  else { kcp with current := current }

/-- `slap`, after a clock that is ten seconds off has been set right. -/
def resetClock (kcp : IKCPCB) : IKCPCB × Int :=
  let slap := diff kcp.current kcp.tsFlush
  if 10000 ≤ slap ∨ slap < -10000 then ({ kcp with tsFlush := kcp.current }, 0) else (kcp, slap)

def nextFlush (kcp : IKCPCB) : IKCPCB :=
  let tsFlush := kcp.tsFlush + kcp.interval
  if 0 ≤ diff kcp.current tsFlush then { kcp with tsFlush := kcp.current + kcp.interval }
  else { kcp with tsFlush := tsFlush }

/-- `ikcp_update`, with the datagrams that its call of `ikcp_flush` outputs. -/
def ikcpUpdate (kcp : IKCPCB) (current : UInt32) : Option (IKCPCB × List (List UInt8)) :=
  let (kcp, slap) := resetClock (startClock kcp current)
  if 0 ≤ slap then ikcpFlush (nextFlush kcp) else some (kcp, [])

theorem clock_cases (kcp : IKCPCB) (current : UInt32) :
    ∃ updated tsFlush slap, updated ≠ 0 ∧
      resetClock (startClock kcp current) =
        ({ kcp with current := current, updated := updated, tsFlush := tsFlush }, slap) ∧
      (slap < 0 → -10000 ≤ diff current kcp.tsFlush ∧ diff current kcp.tsFlush < 0) := by
  by_cases first : kcp.updated = 0
  · refine ⟨1, current, 0, by decide, ?_, fun negative => absurd negative (by decide)⟩
    unfold resetClock startClock
    rw [if_pos first]
    dsimp only
    rw [diff_self, if_neg (by decide)]
  · unfold resetClock startClock
    rw [if_neg first]
    dsimp only
    split
    · exact ⟨kcp.updated, current, 0, first, rfl, fun negative => absurd negative (by decide)⟩
    · rename_i near
      refine ⟨kcp.updated, kcp.tsFlush, _, first, rfl, fun negative => ⟨?_, negative⟩⟩
      by_contra off
      exact near (Or.inr (Int.not_le.mp off))

/-- A call of `ikcp_update` takes the time, and then it flushes, unless the next flush
is due within the next ten seconds. -/
theorem ikcpUpdate_cases (kcp : IKCPCB) (current : UInt32) :
    ∃ updated tsFlush, updated ≠ 0 ∧
      let timed := { kcp with current := current, updated := updated, tsFlush := tsFlush }
      ikcpUpdate kcp current = ikcpFlush timed ∨ ikcpUpdate kcp current = some (timed, []) ∧
        -10000 ≤ diff current kcp.tsFlush ∧ diff current kcp.tsFlush < 0 := by
  obtain ⟨updated, tsFlush, slap, started, timed, early⟩ := clock_cases kcp current
  have next : ∀ timed : IKCPCB, ∃ tsFlush, nextFlush timed = { timed with tsFlush := tsFlush } := by
    intro timed
    unfold nextFlush
    dsimp only
    split <;> exact ⟨_, rfl⟩
  unfold ikcpUpdate
  rw [timed]
  dsimp only
  split
  · obtain ⟨later, same⟩ := next { kcp with current := current, updated := updated, tsFlush := tsFlush }
    rw [same]
    exact ⟨updated, later, started, Or.inl rfl⟩
  · rename_i negative
    exact ⟨updated, tsFlush, started, Or.inr ⟨rfl, early (Int.not_le.mp negative)⟩⟩

end TalkingTime.Kcp

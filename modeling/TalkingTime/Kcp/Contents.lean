import TalkingTime.Kcp.Handover

/-! Exactly what a flush sends: its acknowledgements, its probes and the segments that
are due, each once and in this order, however they are spread over datagrams. -/

namespace TalkingTime.Kcp

open Serial

variable {kcp final : IKCPCB} {datagrams : List (List UInt8)}

section Packing

variable {out next : Output} {segs : List IKCPSEG} {seg : IKCPSEG}

/-- Datagrams that are made of these segments, one after the other. -/
def Packs (datagrams : List (List UInt8)) (segs : List IKCPSEG) : Prop :=
  ∃ groups : List (List IKCPSEG),
    datagrams = groups.map (List.flatMap IKCPSEG.wire) ∧ groups.flatten = segs

theorem Packs.group (packs : Packs datagrams segs) (member : seg ∈ segs) :
    ∃ (index : Nat) (group : List IKCPSEG),
      datagrams[index]? = some (group.flatMap IKCPSEG.wire) ∧ seg ∈ group ∧
        ∀ other ∈ group, other ∈ segs := by
  obtain ⟨groups, rfl, rfl⟩ := packs
  obtain ⟨group, present, inside⟩ := List.mem_flatten.mp member
  obtain ⟨index, found⟩ := List.mem_iff_getElem?.mp present
  refine ⟨index, group, ?_, inside, ?_⟩
  · rw [List.getElem?_map, found, Option.map_some]
  · exact fun other contained => List.mem_flatten_of_mem present contained

def Output.Holds (out : Output) (segs : List IKCPSEG) : Prop :=
  ∃ sent last : List IKCPSEG,
    Packs out.sent sent ∧ out.written = last.flatMap IKCPSEG.wire ∧ sent ++ last = segs

theorem Output.Holds.initial : Output.Holds ⟨[], []⟩ [] := ⟨[], [], ⟨[], rfl, rfl⟩, rfl, rfl⟩

theorem eq_nil_of_wire (empty : segs.flatMap IKCPSEG.wire = []) : segs = [] := by
  cases segs with
  | nil => rfl
  | cons seg rest =>
      have length := congrArg List.length empty
      rw [List.flatMap_cons, List.length_append, length_wire, List.length_nil] at length
      unfold IKCP_OVERHEAD at length
      omega

theorem Output.Holds.output (holds : out.Holds segs) :
    Packs (ikcpOutput out).sent segs ∧ (ikcpOutput out).written = [] := by
  obtain ⟨sent, last, ⟨groups, packed, grouped⟩, written, rfl⟩ := holds
  unfold ikcpOutput
  split
  · rename_i empty
    rw [written] at empty
    rw [eq_nil_of_wire empty, List.append_nil]
    refine ⟨⟨groups, packed, grouped⟩, ?_⟩
    rw [written]
    exact empty
  · refine ⟨⟨groups ++ [last], ?_, ?_⟩, rfl⟩
    · rw [packed, written, List.map_append, List.map_singleton]
    · rw [List.flatten_append, grouped, List.flatten_singleton]

theorem Output.Holds.place (holds : out.Holds segs) (placed : place kcp out seg = some next) :
    next.Holds (segs ++ [seg]) := by
  have append : ∀ base : Output, base.Holds segs →
      Output.Holds ⟨base.written ++ seg.wire, base.sent⟩ (segs ++ [seg]) := by
    rintro base ⟨sent, last, packed, written, rfl⟩
    refine ⟨sent, last ++ [seg], packed, ?_, (List.append_assoc _ _ _).symm⟩
    rw [List.flatMap_append, List.flatMap_singleton, ← written]
  have flushed : (ikcpOutput out).Holds segs := by
    obtain ⟨packed, empty⟩ := holds.output
    exact ⟨segs, [], packed, empty, List.append_nil _⟩
  unfold Kcp.place at placed
  dsimp only at placed
  split at placed <;> split at placed <;> cases placed
  · exact append _ flushed
  · exact append _ holds

end Packing

section Control

variable {segs : List IKCPSEG} {seg last : IKCPSEG} {out next : Output}

def ackSegments (seg : IKCPSEG) (acks : List (UInt32 × UInt32)) : List IKCPSEG :=
  acks.map (fun ack => { seg with sn := ack.1, ts := ack.2 })

def lastAck (seg : IKCPSEG) (acks : List (UInt32 × UInt32)) : IKCPSEG :=
  acks.foldl (fun seg ack => { seg with sn := ack.1, ts := ack.2 }) seg

theorem flushAcks_holds {acks : List (UInt32 × UInt32)} (holds : out.Holds segs)
    (flushed : flushAcks kcp acks seg out = some (last, next)) :
    next.Holds (segs ++ ackSegments seg acks) ∧ last = lastAck seg acks := by
  induction acks generalizing seg out segs with
  | nil =>
      cases flushed
      rw [ackSegments, List.map_nil, List.append_nil]
      exact ⟨holds, rfl⟩
  | cons ack rest ih =>
      obtain ⟨sn, ts⟩ := ack
      rw [flushAcks] at flushed
      obtain ⟨placed, done, remaining⟩ := Option.bind_eq_some_iff.mp flushed
      obtain ⟨held, same⟩ := ih (holds.place done) remaining
      rw [List.append_assoc] at held
      exact ⟨held, same⟩

def probeSegments (kcp : IKCPCB) (ask cmd : UInt32) (seg : IKCPSEG) : List IKCPSEG :=
  if kcp.probe &&& ask ≠ 0 then [{ seg with cmd := cmd }] else []

theorem flushProbe_holds {ask cmd : UInt32} (holds : out.Holds segs)
    (flushed : flushProbe kcp ask cmd seg out = some (last, next)) :
    next.Holds (segs ++ probeSegments kcp ask cmd seg) ∧
      (last = seg ∨ last = { seg with cmd := cmd }) := by
  unfold flushProbe at flushed
  unfold probeSegments
  split at flushed
  · rename_i asked
    obtain ⟨placed, done, same⟩ := Option.bind_eq_some_iff.mp flushed
    cases same
    rw [if_pos asked]
    exact ⟨holds.place done, Or.inr rfl⟩
  · rename_i silent
    cases flushed
    rw [if_neg silent, List.append_nil]
    exact ⟨holds, Or.inl rfl⟩

/-- The state in which a flush looks for data to send. -/
def quieted (kcp : IKCPCB) : IKCPCB := { probeWindow { kcp with acklist := [] } with probe := 0 }

def controlSegments (kcp : IKCPCB) : List IKCPSEG :=
  let probed := probeWindow { kcp with acklist := [] }
  let seg := lastAck (controlSegment kcp) kcp.acklist
  ackSegments (controlSegment kcp) kcp.acklist ++
    probeSegments probed IKCP_ASK_SEND IKCP_CMD_WASK seg ++
      probeSegments probed IKCP_ASK_TELL IKCP_CMD_WINS seg

theorem flushControl_holds {quiet : IKCPCB} (flushed : flushControl kcp = some (quiet, out)) :
    quiet = quieted kcp ∧ out.Holds (controlSegments kcp) := by
  obtain ⟨⟨acking, first⟩, acksDone, flushed⟩ := Option.bind_eq_some_iff.mp flushed
  obtain ⟨⟨asking, second⟩, askDone, flushed⟩ := Option.bind_eq_some_iff.mp flushed
  obtain ⟨⟨telling, third⟩, tellDone, same⟩ := Option.bind_eq_some_iff.mp flushed
  obtain ⟨afterAcks, rfl⟩ := flushAcks_holds Output.Holds.initial acksDone
  obtain ⟨afterAsk, asked⟩ := flushProbe_holds afterAcks askDone
  obtain ⟨afterTell, _⟩ := flushProbe_holds afterAsk tellDone
  cases same
  refine ⟨rfl, ?_⟩
  -- a second probe overwrites the command of the first one
  have tell : probeSegments (probeWindow { kcp with acklist := [] }) IKCP_ASK_TELL IKCP_CMD_WINS
      asking = probeSegments (probeWindow { kcp with acklist := [] }) IKCP_ASK_TELL IKCP_CMD_WINS
        (lastAck (controlSegment kcp) kcp.acklist) := by
    rcases asked with rfl | rfl <;> rfl
  rw [tell] at afterTell
  exact afterTell

end Control

section Data

variable {wnd resent rtomin : UInt32} {segs placed : List IKCPSEG} {out : Output}

def dueSegments (kcp : IKCPCB) (wnd resent rtomin : UInt32) (segs : List IKCPSEG) : List IKCPSEG :=
  (segs.filter (fun seg => due kcp resent seg ≠ .idle)).map
    (fun seg => renew kcp wnd rtomin seg (due kcp resent seg))

theorem flushSegment_holds {loop next : FlushLoop} {seg : IKCPSEG} (holds : loop.out.Holds placed)
    (flushed : flushSegment kcp wnd resent rtomin loop seg = some next) :
    next.out.Holds (placed ++ dueSegments kcp wnd resent rtomin [seg]) := by
  unfold flushSegment at flushed
  unfold dueSegments
  cases reason : due kcp resent seg with
  | idle =>
      rw [reason] at flushed
      cases flushed
      simp only [reason, List.filter_cons, ne_eq, not_true_eq_false, decide_false,
        Bool.false_eq_true, if_false, List.filter_nil, List.map_nil, List.append_nil]
      exact holds
  | first | timeout | fast =>
      rw [reason] at flushed
      simp only [reduceCtorEq, if_false, Option.ite_none_left_eq_some] at flushed
      obtain ⟨out, done, same⟩ := Option.bind_eq_some_iff.mp flushed.2
      cases same
      simp only [reason, List.filter_cons, ne_eq, reduceCtorEq, not_false_eq_true, decide_true,
        if_true, List.filter_nil, List.map_cons, List.map_nil]
      exact holds.place done

theorem flushLoop_holds {loop last : FlushLoop} (holds : loop.out.Holds placed)
    (flushed : flushLoop kcp wnd resent rtomin segs loop = some last) :
    last.out.Holds (placed ++ dueSegments kcp wnd resent rtomin segs) := by
  induction segs generalizing loop placed with
  | nil =>
      cases flushed
      rw [dueSegments, List.filter_nil, List.map_nil, List.append_nil]
      exact holds
  | cons seg rest ih =>
      obtain ⟨next, done, remaining⟩ := Option.bind_eq_some_iff.mp flushed
      have held := ih (flushSegment_holds holds done) remaining
      have split : dueSegments kcp wnd resent rtomin (seg :: rest) =
          dueSegments kcp wnd resent rtomin [seg] ++ dueSegments kcp wnd resent rtomin rest := by
        rw [dueSegments, dueSegments, dueSegments, ← List.map_append, ← List.filter_append,
          List.singleton_append]
      rw [split, ← List.append_assoc]
      exact held

def skipsToResend (kcp : IKCPCB) : UInt32 :=
  if 0 < kcp.fastresend then kcp.fastresend.toUInt32 else 0xffffffff

def timeoutMargin (kcp : IKCPCB) : UInt32 :=
  if kcp.nodelay = 0 then (kcp.rxRto >>> 3).toUInt32 else 0

/-- The control block once the segments that may be sent have their numbers. -/
def numbered (wnd : UInt32) (kcp : IKCPCB) : IKCPCB :=
  numberLoop wnd (windowSize kcp) kcp.sndQueue.segs kcp

def dataSegments (wnd : UInt32) (kcp : IKCPCB) : List IKCPSEG :=
  let next := numbered wnd kcp
  dueSegments next wnd (skipsToResend next) (timeoutMargin next) next.sndBuf.segs

def rewritten (wnd : UInt32) (kcp : IKCPCB) (loop : FlushLoop) : IKCPCB :=
  let next := numbered wnd kcp
  { next with
      sndBuf := next.sndBuf.map (fun seg =>
        renew next wnd (timeoutMargin next) seg (due next (skipsToResend next) seg))
      xmit := loop.xmit
      state := loop.state }

theorem flushData_holds {last : Output} (holds : out.Holds placed)
    (flushed : flushData wnd kcp out = some (final, last)) :
    Packs last.sent (placed ++ dataSegments wnd kcp) ∧
      ∃ resent loop, final = updateSsthresh resent (windowSize kcp) loop (rewritten wnd kcp loop) := by
  obtain ⟨loop, ran, same⟩ := Option.bind_eq_some_iff.mp flushed
  cases same
  have sent := flushLoop_holds holds ran
  exact ⟨sent.output.1, _, loop, rfl⟩

end Data

/-- All segments that a flush sends. -/
def flushContents (kcp : IKCPCB) : List IKCPSEG :=
  controlSegments kcp ++ dataSegments (ikcpWndUnused kcp) (quieted kcp)

theorem ikcpFlush_holds (started : kcp.updated ≠ 0)
    (flushed : ikcpFlush kcp = some (final, datagrams)) :
    Packs datagrams (flushContents kcp) ∧ ∃ resent loop,
      final = updateSsthresh resent (windowSize (quieted kcp)) loop
        (rewritten (ikcpWndUnused kcp) (quieted kcp) loop) := by
  rw [ikcpFlush, if_neg started] at flushed
  obtain ⟨⟨quiet, out⟩, controlled, flushed⟩ := Option.bind_eq_some_iff.mp flushed
  obtain ⟨⟨last, sent⟩, sending, same⟩ := Option.bind_eq_some_iff.mp flushed
  obtain ⟨rfl, holds⟩ := flushControl_holds controlled
  cases same
  exact flushData_holds holds sending

section Members

variable {seg : IKCPSEG}

theorem lastAck_eq (seg : IKCPSEG) (acks : List (UInt32 × UInt32)) :
    ∃ sn ts, lastAck seg acks = { seg with sn := sn, ts := ts } := by
  induction acks generalizing seg with
  | nil => exact ⟨seg.sn, seg.ts, rfl⟩
  | cons ack rest ih => exact ih { seg with sn := ack.1, ts := ack.2 }

theorem of_mem_controlSegments (member : seg ∈ controlSegments kcp) :
    ∃ cmd sn ts, seg = { controlSegment kcp with cmd := cmd, sn := sn, ts := ts } ∧
      (cmd = IKCP_CMD_ACK ∧ (sn, ts) ∈ kcp.acklist ∨ cmd = IKCP_CMD_WASK ∨ cmd = IKCP_CMD_WINS) := by
  obtain ⟨sn, ts, last⟩ := lastAck_eq (controlSegment kcp) kcp.acklist
  unfold controlSegments at member
  dsimp only at member
  rw [last] at member
  rcases List.mem_append.mp member with front | tell
  · rcases List.mem_append.mp front with acked | ask
    · obtain ⟨⟨number, time⟩, present, rfl⟩ := List.mem_map.mp acked
      exact ⟨IKCP_CMD_ACK, number, time, rfl, Or.inl ⟨rfl, present⟩⟩
    · unfold probeSegments at ask
      split at ask
      · exact ⟨_, sn, ts, List.mem_singleton.mp ask, Or.inr (Or.inl rfl)⟩
      · cases ask
  · unfold probeSegments at tell
    split at tell
    · exact ⟨_, sn, ts, List.mem_singleton.mp tell, Or.inr (Or.inr rfl)⟩
    · cases tell

theorem mem_controlSegments_ack {ack : UInt32 × UInt32} (member : ack ∈ kcp.acklist) :
    { controlSegment kcp with sn := ack.1, ts := ack.2 } ∈ controlSegments kcp :=
  List.mem_append_left _ (List.mem_append_left _ (List.mem_map_of_mem member))

theorem mem_controlSegments_ask
    (asked : (probeWindow { kcp with acklist := [] }).probe &&& IKCP_ASK_SEND ≠ 0) :
    { lastAck (controlSegment kcp) kcp.acklist with cmd := IKCP_CMD_WASK } ∈
      controlSegments kcp := by
  apply List.mem_append_left
  apply List.mem_append_right
  rw [probeSegments, if_pos asked]
  exact List.mem_singleton_self _

theorem mem_controlSegments_tell
    (asked : (probeWindow { kcp with acklist := [] }).probe &&& IKCP_ASK_TELL ≠ 0) :
    { lastAck (controlSegment kcp) kcp.acklist with cmd := IKCP_CMD_WINS } ∈
      controlSegments kcp := by
  apply List.mem_append_right
  rw [probeSegments, if_pos asked]
  exact List.mem_singleton_self _

theorem of_mem_dataSegments {wnd : UInt32} (member : seg ∈ dataSegments wnd kcp) :
    ∃ old ∈ (numbered wnd kcp).sndBuf.segs, ∃ reason : Due, reason ≠ .idle ∧
      seg = renew (numbered wnd kcp) wnd (timeoutMargin (numbered wnd kcp)) old reason := by
  obtain ⟨old, present, rfl⟩ := List.mem_map.mp member
  obtain ⟨buffered, sent⟩ := List.mem_filter.mp present
  exact ⟨old, buffered, _, of_decide_eq_true sent, rfl⟩

theorem mem_dataSegments {wnd : UInt32} (member : seg ∈ (numbered wnd kcp).sndBuf.segs)
    (sent : due (numbered wnd kcp) (skipsToResend (numbered wnd kcp)) seg ≠ .idle) :
    ∃ renewed ∈ dataSegments wnd kcp, renewed.stamp = seg.stamp :=
  ⟨_, List.mem_map_of_mem (List.mem_filter.mpr ⟨member, decide_eq_true sent⟩),
    stamp_renew _ _ _ _ _⟩

end Members

section After

structure RoundTrips where
  rxSrtt : Int32
  rxRttval : Int32
  rxRto : Int32
  deriving DecidableEq, Repr

/-- What the user of a control block sets, what the other side tells it, and what it
measures. -/
structure Settings where
  sndWnd : UInt32
  rcvWnd : UInt32
  rmtWnd : UInt32
  rxMinrto : Int32
  interval : UInt32
  roundTrips : RoundTrips
  deriving DecidableEq, Repr

def IKCPCB.roundTrips (kcp : IKCPCB) : RoundTrips := ⟨kcp.rxSrtt, kcp.rxRttval, kcp.rxRto⟩

def IKCPCB.settings (kcp : IKCPCB) : Settings :=
  ⟨kcp.sndWnd, kcp.rcvWnd, kcp.rmtWnd, kcp.rxMinrto, kcp.interval, kcp.roundTrips⟩

theorem quieted_frame (kcp : IKCPCB) :
    Frame { kcp with acklist := [] } (quieted kcp) ∧ (quieted kcp).settings = kcp.settings ∧
      (quieted kcp).cwnd = kcp.cwnd ∧ (quieted kcp).nocwnd = kcp.nocwnd ∧
      (quieted kcp).current = kcp.current := by
  have frame := frame_probeWindow { kcp with acklist := [] }
  refine ⟨⟨frame.sender, frame.receiver⟩, ?_⟩
  unfold quieted probeWindow
  dsimp only
  split
  · split
    · exact ⟨rfl, rfl, rfl, rfl⟩
    · split <;> exact ⟨rfl, rfl, rfl, rfl⟩
  · exact ⟨rfl, rfl, rfl, rfl⟩

theorem numbered_frame (wnd : UInt32) (kcp : IKCPCB) :
    (numbered wnd kcp).receiver = kcp.receiver ∧ (numbered wnd kcp).settings = kcp.settings ∧
      (numbered wnd kcp).sndUna = kcp.sndUna ∧ (numbered wnd kcp).current = kcp.current ∧
      (numbered wnd kcp).probeWait = kcp.probeWait ∧ (numbered wnd kcp).tsProbe = kcp.tsProbe ∧
      (numbered wnd kcp).sndQueue.segs.length ≤ kcp.sndQueue.segs.length := by
  apply numberLoop_preserves (fun next => next.receiver = kcp.receiver ∧
    next.settings = kcp.settings ∧ next.sndUna = kcp.sndUna ∧ next.current = kcp.current ∧
    next.probeWait = kcp.probeWait ∧ next.tsProbe = kcp.tsProbe ∧
    next.sndQueue.segs.length ≤ kcp.sndQueue.segs.length) wnd (windowSize kcp) _ rfl
    ⟨rfl, rfl, rfl, rfl, rfl, rfl, Nat.le_refl _⟩
  rintro next newseg rest ⟨receiver, settings, una, current, wait, time, fewer⟩ head _
  refine ⟨receiver, settings, una, current, wait, time, ?_⟩
  rw [number, SegQueue.delHead_segs, List.length_tail]
  omega

theorem numbered_shrinks (wnd : UInt32) {newseg : IKCPSEG} {rest : List IKCPSEG}
    (head : kcp.sndQueue.segs = newseg :: rest)
    (room : diff kcp.sndNxt (kcp.sndUna + windowSize kcp) < 0) :
    (numbered wnd kcp).sndQueue.segs.length < kcp.sndQueue.segs.length := by
  have start : (number wnd kcp newseg).sndQueue.segs = rest := by
    rw [number, SegQueue.delHead_segs, head, List.tail_cons]
  have loop : numbered wnd kcp = numberLoop wnd (windowSize kcp) rest (number wnd kcp newseg) := by
    rw [numbered, head, numberLoop, if_pos room]
  have fewer : (numberLoop wnd (windowSize kcp) rest (number wnd kcp newseg)).sndQueue.segs.length ≤
      rest.length := by
    apply numberLoop_preserves (fun next => next.sndQueue.segs.length ≤ rest.length) wnd
      (windowSize kcp) _ start (Nat.le_of_eq (congrArg List.length start))
    intro next other more held _ _
    rw [number, SegQueue.delHead_segs, List.length_tail]
    omega
  rw [loop, head, List.length_cons]
  omega

theorem length_numbered (wnd : UInt32) (kcp : IKCPCB) :
    (numbered wnd kcp).sndBuf.segs.length + (numbered wnd kcp).sndQueue.segs.length =
      kcp.sndBuf.segs.length + kcp.sndQueue.segs.length := by
  apply numberLoop_preserves (fun next => next.sndBuf.segs.length + next.sndQueue.segs.length =
    kcp.sndBuf.segs.length + kcp.sndQueue.segs.length) wnd (windowSize kcp) _ rfl rfl
  intro next newseg rest held head _
  rw [head, List.length_cons] at held
  rw [number, SegQueue.addTail_segs, SegQueue.delHead_segs, head, List.length_append,
    List.length_singleton, List.tail_cons]
  omega

theorem updateSsthresh_frame (resent cwnd : UInt32) (loop : FlushLoop) (kcp : IKCPCB) :
    let next := updateSsthresh resent cwnd loop kcp
    next.settings = kcp.settings ∧ next.probeWait = kcp.probeWait ∧ next.tsProbe = kcp.tsProbe ∧
      0 < next.cwnd.toNat := by
  have windows : ∀ next : IKCPCB, next = windowAfterLoss cwnd loop (windowAfterFast resent loop kcp) →
      next.settings = kcp.settings ∧ next.probeWait = kcp.probeWait ∧ next.tsProbe = kcp.tsProbe := by
    rintro next rfl
    unfold windowAfterLoss windowAfterFast
    split <;> split <;> exact ⟨rfl, rfl, rfl⟩
  obtain ⟨settings, wait, time⟩ := windows _ rfl
  unfold updateSsthresh
  dsimp only
  split
  · exact ⟨settings, wait, time, Nat.one_pos⟩
  · rename_i positive
    have least := UInt32.le_iff_toNat_le.mp (UInt32.not_lt.mp positive)
    exact ⟨settings, wait, time, least⟩

/-- What a flush leaves, set against the state in which it looks for data to send. -/
structure AfterFlush (kcp final : IKCPCB) : Prop where
  receiver : final.receiver = { kcp.receiver with acks := [] }
  settings : final.settings = kcp.settings
  una : final.sndUna = kcp.sndUna
  nxt : final.sndNxt = (numbered (ikcpWndUnused kcp) (quieted kcp)).sndNxt
  queue : final.sndQueue.segs = (numbered (ikcpWndUnused kcp) (quieted kcp)).sndQueue.segs
  buf : final.sndBuf.segs.map IKCPSEG.stamp =
    (numbered (ikcpWndUnused kcp) (quieted kcp)).sndBuf.segs.map IKCPSEG.stamp
  probeWait : final.probeWait = (quieted kcp).probeWait
  tsProbe : final.tsProbe = (quieted kcp).tsProbe
  cwnd : 0 < final.cwnd.toNat

theorem AfterFlush.total (left : AfterFlush kcp final) :
    final.sndBuf.segs.length + final.sndQueue.segs.length =
      kcp.sndBuf.segs.length + kcp.sndQueue.segs.length := by
  have lengths := congrArg List.length left.buf
  rw [List.length_map, List.length_map] at lengths
  have quiet := (quieted_frame kcp).1.sender
  have buf : (quieted kcp).sndBuf.segs = kcp.sndBuf.segs := congrArg Sender.buf quiet
  have queue : (quieted kcp).sndQueue.segs = kcp.sndQueue.segs := congrArg Sender.queue quiet
  rw [lengths, left.queue, length_numbered, buf, queue]

/-- A flush that is not the first thing to happen sends exactly these segments. -/
theorem ikcpFlush_leaves (started : kcp.updated ≠ 0)
    (flushed : ikcpFlush kcp = some (final, datagrams)) :
    Packs datagrams (flushContents kcp) ∧ AfterFlush kcp final := by
  obtain ⟨packs, resent, loop, rfl⟩ := ikcpFlush_holds started flushed
  let wnd := ikcpWndUnused kcp
  let written := rewritten wnd (quieted kcp) loop
  obtain ⟨quiet, settings, _, _, _⟩ := quieted_frame kcp
  obtain ⟨receiver, kept, una, _, wait, time, _⟩ := numbered_frame wnd (quieted kcp)
  have frame := frame_updateSsthresh resent (windowSize (quieted kcp)) loop written
  obtain ⟨after, probeWait, tsProbe, cwnd⟩ :=
    updateSsthresh_frame resent (windowSize (quieted kcp)) loop written
  have stamps : written.sndBuf.segs.map IKCPSEG.stamp =
      (numbered wnd (quieted kcp)).sndBuf.segs.map IKCPSEG.stamp := by
    change ((numbered wnd (quieted kcp)).sndBuf.segs.map _).map IKCPSEG.stamp = _
    rw [List.map_map]
    apply List.map_congr_left
    intro seg _
    exact stamp_renew _ wnd _ seg _
  have sameUna : (quieted kcp).sndUna = kcp.sndUna := congrArg Sender.una quiet.sender
  refine ⟨packs, ?_, after.trans (kept.trans settings), ?_, ?_, ?_, ?_, probeWait.trans wait,
    tsProbe.trans time, cwnd⟩
  · rw [frame.receiver]
    exact receiver.trans quiet.receiver
  · exact (congrArg Sender.una frame.sender).trans (una.trans sameUna)
  · exact congrArg Sender.nxt frame.sender
  · exact congrArg Sender.queue frame.sender
  · have same : (updateSsthresh resent (windowSize (quieted kcp)) loop written).sndBuf.segs =
        written.sndBuf.segs := congrArg Sender.buf frame.sender
    rw [same]
    exact stamps

theorem flushContents_tells {seg : IKCPSEG} (member : seg ∈ flushContents kcp) :
    seg.una = kcp.rcvNxt ∧ seg.wnd = ikcpWndUnused kcp := by
  rcases List.mem_append.mp member with control | data
  · obtain ⟨cmd, sn, ts, rfl, _⟩ := of_mem_controlSegments control
    exact ⟨rfl, rfl⟩
  · obtain ⟨old, _, reason, sent, rfl⟩ := of_mem_dataSegments data
    have receiver := (numbered_frame (ikcpWndUnused kcp) (quieted kcp)).1
    have quiet := (quieted_frame kcp).1.receiver
    have nxt : (numbered (ikcpWndUnused kcp) (quieted kcp)).rcvNxt = kcp.rcvNxt :=
      congrArg Receiver.nxt (receiver.trans quiet)
    cases reason with
    | first | timeout | fast => exact ⟨nxt, rfl⟩
    | idle => exact absurd rfl sent

theorem flushContents_honest {out inn done : Log} {peerHas : Nat → Prop} {seg : IKCPSEG}
    (outSmall : out.length < 2 ^ 31) (innSmall : inn.length < 2 ^ 31)
    (right : HalvesSound out inn done peerHas kcp) (member : seg ∈ flushContents kcp) :
    Honest kcp.conv out kcp.receiver.Has seg := by
  have small : kcp.rcvNxt.toNat < 2 ^ 31 := Nat.lt_of_le_of_lt right.receiver.inside innSmall
  rcases List.mem_append.mp member with control | data
  · obtain ⟨cmd, sn, ts, rfl, kind⟩ := of_mem_controlSegments control
    have silent : Control kcp.conv kcp.rcvNxt
        { controlSegment kcp with cmd := cmd, sn := sn, ts := ts } := ⟨rfl, rfl, rfl, rfl⟩
    apply silent.honest small
    exact kind.imp_left (fun ack => ⟨ack.1, right.receiver.acked _ ack.2⟩)
  · obtain ⟨old, buffered, reason, sent, rfl⟩ := of_mem_dataSegments data
    obtain ⟨quiet, _⟩ := quieted_frame kcp
    obtain ⟨receiver, _⟩ := numbered_frame (ikcpWndUnused kcp) (quieted kcp)
    have sender : (quieted kcp).sender.Sound out peerHas := quiet.sender ▸ right.sender
    have held : (numbered (ikcpWndUnused kcp) (quieted kcp)).sender.Sound out peerHas :=
      numberLoop_sound (ikcpWndUnused kcp) (windowSize (quieted kcp)) rfl outSmall sender
    have same := receiver.trans quiet.receiver
    have has : (numbered (ikcpWndUnused kcp) (quieted kcp)).receiver.Has = kcp.receiver.Has := by
      rw [same]
      rfl
    have conv : (numbered (ikcpWndUnused kcp) (quieted kcp)).conv = kcp.conv :=
      (numberLoop_frame (ikcpWndUnused kcp) (windowSize (quieted kcp)) rfl).2.1.trans quiet.conv
    have nxt : (numbered (ikcpWndUnused kcp) (quieted kcp)).rcvNxt = kcp.rcvNxt :=
      congrArg Receiver.nxt same
    have honest := renew_honest (ikcpWndUnused kcp)
      (timeoutMargin (numbered (ikcpWndUnused kcp) (quieted kcp))) held (nxt ▸ small) buffered sent
    rw [conv, has] at honest
    exact honest

end After

end TalkingTime.Kcp

import TalkingTime.Kcp.Arrival

/-! What `ikcp_flush` sends: datagrams of honest segments, none longer than `mtu`,
and no write past the end of the buffer. -/

namespace TalkingTime.Kcp

open Serial

variable {kcp : IKCPCB}

section Packing

variable {good : IKCPSEG → Prop} {mtu : Nat}

/-- A datagram as `ikcp_output` gets it. -/
structure Datagram (good : IKCPSEG → Prop) (mtu : Nat) (data : List UInt8) : Prop where
  carries : Carries good data
  nonempty : data ≠ []
  short : data.length ≤ mtu

structure Output.Sound (good : IKCPSEG → Prop) (mtu : Nat) (out : Output) : Prop where
  carries : Carries good out.written
  short : out.written.length ≤ mtu
  sent : ∀ data ∈ out.sent, Datagram good mtu data

theorem Output.Sound.initial : Output.Sound good mtu ⟨[], []⟩ :=
  ⟨Carries.nil good, Nat.zero_le mtu, List.forall_mem_nil _⟩

theorem ikcpOutput_sound {out : Output} (sound : out.Sound good mtu) :
    (ikcpOutput out).Sound good mtu ∧ (ikcpOutput out).written = [] := by
  unfold ikcpOutput
  split
  · rename_i empty
    exact ⟨sound, empty⟩
  · rename_i nonempty
    have last : Datagram good mtu out.written := ⟨sound.carries, nonempty, sound.short⟩
    have all : ∀ data ∈ out.sent ++ [out.written], Datagram good mtu data :=
      List.forall_mem_append.mpr ⟨sound.sent, List.forall_mem_singleton.mpr last⟩
    exact ⟨⟨Carries.nil good, Nat.zero_le mtu, all⟩, rfl⟩

/-- A segment that fits into a datagram is placed without a fault. -/
theorem place_sound {out : Output} {seg : IKCPSEG} (room : kcp.mtu.toNat ≤ kcp.buffer)
    (sound : out.Sound good kcp.mtu.toNat) (honest : good seg)
    (short : IKCP_OVERHEAD + seg.data.length ≤ kcp.mtu.toNat) :
    ∃ next, place kcp out seg = some next ∧ next.Sound good kcp.mtu.toNat := by
  -- behind what is written so far, or at the start of an empty buffer
  have append : ∀ base : Output, base.Sound good kcp.mtu.toNat →
      base.written.length + (IKCP_OVERHEAD + seg.data.length) ≤ kcp.mtu.toNat →
      (base.written ++ seg.wire).length ≤ kcp.buffer ∧
        Output.Sound good kcp.mtu.toNat ⟨base.written ++ seg.wire, base.sent⟩ := by
    intro base held fits
    have length : (base.written ++ seg.wire).length ≤ kcp.mtu.toNat := by
      rw [List.length_append, length_wire]
      exact fits
    exact ⟨Nat.le_trans length room, held.carries.append honest, length, held.sent⟩
  unfold place
  dsimp only
  split
  · obtain ⟨flushed, empty⟩ := ikcpOutput_sound sound
    have alone : (ikcpOutput out).written.length + (IKCP_OVERHEAD + seg.data.length) ≤
        kcp.mtu.toNat := by
      rw [empty, List.length_nil, Nat.zero_add]
      exact short
    obtain ⟨inside, next⟩ := append (ikcpOutput out) flushed alone
    exact ⟨_, if_pos inside, next⟩
  · rename_i fits
    obtain ⟨inside, next⟩ := append out sound (Nat.not_lt.mp fits)
    exact ⟨_, if_pos inside, next⟩

end Packing

section Control

variable {good : IKCPSEG → Prop} {conv una : UInt32}

structure Control (conv una : UInt32) (seg : IKCPSEG) : Prop where
  conv : seg.conv = conv
  una : seg.una = una
  frg : seg.frg = 0
  data : seg.data = []

theorem Control.short {seg : IKCPSEG} (control : Control conv una seg) (fits : kcp.sender.Fits) :
    IKCP_OVERHEAD + seg.data.length ≤ kcp.mtu.toNat := by
  have overhead : IKCP_OVERHEAD + kcp.mss.toNat = kcp.mtu.toNat := fits.overhead
  rw [control.data, List.length_nil]
  omega

theorem flushAcks_sound {acks : List (UInt32 × UInt32)} {seg : IKCPSEG} {out : Output}
    (fits : kcp.sender.Fits) (control : Control conv una seg) (cmd : seg.cmd = IKCP_CMD_ACK)
    (each : ∀ ack, Control conv una ack → ack.cmd = IKCP_CMD_ACK → (ack.sn, ack.ts) ∈ acks → good ack)
    (sound : out.Sound good kcp.mtu.toNat) :
    ∃ last next, flushAcks kcp acks seg out = some (last, next) ∧ Control conv una last ∧
      next.Sound good kcp.mtu.toNat := by
  induction acks generalizing seg out with
  | nil => exact ⟨seg, out, rfl, control, sound⟩
  | cons ack rest ih =>
      obtain ⟨sn, ts⟩ := ack
      have numbered : Control conv una { seg with sn := sn, ts := ts } := { control with }
      have honest := each _ numbered cmd List.mem_cons_self
      obtain ⟨next, placed, held⟩ := place_sound fits.room sound honest (numbered.short fits)
      rw [flushAcks]
      simp only [placed, Option.bind_eq_bind, Option.bind_some]
      apply ih numbered cmd _ held
      exact fun other known push member => each other known push (List.mem_cons_of_mem _ member)

theorem flushProbe_sound (ask : UInt32) {cmd : UInt32} {seg : IKCPSEG} {out : Output}
    (fits : kcp.sender.Fits) (control : Control conv una seg)
    (each : ∀ probe, Control conv una probe → probe.cmd = cmd → good probe)
    (sound : out.Sound good kcp.mtu.toNat) :
    ∃ last next, flushProbe kcp ask cmd seg out = some (last, next) ∧ Control conv una last ∧
      next.Sound good kcp.mtu.toNat := by
  unfold flushProbe
  split
  · have probe : Control conv una { seg with cmd := cmd } := { control with }
    obtain ⟨next, placed, held⟩ := place_sound fits.room sound (each _ probe rfl) (probe.short fits)
    refine ⟨_, next, ?_, probe, held⟩
    simp only [placed, Option.bind_eq_bind, Option.bind_some]
  · exact ⟨seg, out, rfl, control, sound⟩

theorem frame_probeWindow (kcp : IKCPCB) : Frame kcp (probeWindow kcp) := by
  unfold probeWindow
  dsimp only
  split
  · split
    · constructor <;> simp only [IKCPCB.sender, IKCPCB.receiver]
    · split <;> exact ⟨rfl, rfl⟩
  · exact ⟨rfl, rfl⟩

theorem flushControl_sound (good : IKCPSEG → Prop) (fits : kcp.sender.Fits)
    (acks : ∀ ack, Control kcp.conv kcp.rcvNxt ack → ack.cmd = IKCP_CMD_ACK →
      (ack.sn, ack.ts) ∈ kcp.acklist → good ack)
    (probes : ∀ probe, Control kcp.conv kcp.rcvNxt probe →
      probe.cmd = IKCP_CMD_WASK ∨ probe.cmd = IKCP_CMD_WINS → good probe) :
    ∃ quiet out, flushControl kcp = some (quiet, out) ∧ out.Sound good kcp.mtu.toNat ∧
      Frame { kcp with acklist := [] } quiet := by
  have control : Control kcp.conv kcp.rcvNxt (controlSegment kcp) := ⟨rfl, rfl, rfl, rfl⟩
  have start : Output.Sound good kcp.mtu.toNat ⟨[], []⟩ := Output.Sound.initial
  obtain ⟨acking, first, acksDone, afterAcks, firstSound⟩ :=
    flushAcks_sound fits control rfl acks start
  let probed := probeWindow { kcp with acklist := [] }
  have frame : Frame { kcp with acklist := [] } probed := frame_probeWindow _
  have sender : probed.sender = kcp.sender := frame.sender
  have sameMtu : probed.mtu = kcp.mtu := congrArg Sender.mtu sender
  have probedFits : probed.sender.Fits := sender ▸ fits
  rw [← sameMtu] at firstSound
  obtain ⟨asking, second, askDone, afterAsk, secondSound⟩ :=
    flushProbe_sound IKCP_ASK_SEND probedFits afterAcks
      (fun probe known cmd => probes probe known (Or.inl cmd)) firstSound
  obtain ⟨telling, third, tellDone, afterTell, thirdSound⟩ :=
    flushProbe_sound IKCP_ASK_TELL probedFits afterAsk
      (fun probe known cmd => probes probe known (Or.inr cmd)) secondSound
  refine ⟨{ probed with probe := 0 }, third, ?_, sameMtu ▸ thirdSound, frame.sender, frame.receiver⟩
  simp only [flushControl, acksDone, Option.bind_eq_bind, Option.bind_some]
  rw [askDone, Option.bind_some]
  simp only
  rw [tellDone]
  rfl

end Control

section Numbering

variable {log : Log} {has : Nat → Prop}

theorem numberLoop_preserves (holds : IKCPCB → Prop) (wnd cwnd : UInt32)
    (step : ∀ kcp newseg rest, holds kcp → kcp.sndQueue.segs = newseg :: rest →
      diff kcp.sndNxt (kcp.sndUna + cwnd) < 0 → holds (number wnd kcp newseg))
    {segs : List IKCPSEG} (all : kcp.sndQueue.segs = segs) (held : holds kcp) :
    holds (numberLoop wnd cwnd segs kcp) := by
  induction segs generalizing kcp with
  | nil => exact held
  | cons newseg rest ih =>
      rw [numberLoop]
      split
      · rename_i room
        apply ih
        · rw [number, SegQueue.delHead_segs, all, List.tail_cons]
        · exact step kcp newseg rest held all room
      · exact held

def numberedSegment (wnd : UInt32) (kcp : IKCPCB) (newseg : IKCPSEG) : IKCPSEG :=
  { newseg with
      conv := kcp.conv, cmd := IKCP_CMD_PUSH, wnd := wnd, ts := kcp.current, sn := kcp.sndNxt,
      una := kcp.rcvNxt, resendts := kcp.current, rto := kcp.rxRto.toUInt32, fastack := 0, xmit := 0 }

theorem number_sender (wnd : UInt32) {newseg : IKCPSEG} {rest : List IKCPSEG}
    (head : kcp.sndQueue.segs = newseg :: rest) :
    (number wnd kcp newseg).sender =
      { kcp.sender with
          nxt := kcp.sndNxt + 1
          queue := rest
          buf := kcp.sndBuf.segs ++ [numberedSegment wnd kcp newseg] } := by
  have tail : kcp.sndQueue.delHead.segs = rest := by
    rw [SegQueue.delHead_segs, head, List.tail_cons]
  simp only [IKCPCB.sender, number, SegQueue.addTail_segs, tail, numberedSegment]

theorem numberLoop_frame (wnd cwnd : UInt32) {segs : List IKCPSEG} (all : kcp.sndQueue.segs = segs) :
    let numbered := numberLoop wnd cwnd segs kcp
    numbered.receiver = kcp.receiver ∧ numbered.conv = kcp.conv ∧ numbered.mtu = kcp.mtu := by
  apply numberLoop_preserves (fun numbered => numbered.receiver = kcp.receiver ∧
    numbered.conv = kcp.conv ∧ numbered.mtu = kcp.mtu) wnd cwnd _ all ⟨rfl, rfl, rfl⟩
  exact fun next newseg rest held _ _ => held

theorem numberLoop_fits (wnd cwnd : UInt32) {segs : List IKCPSEG} (all : kcp.sndQueue.segs = segs)
    (fits : kcp.sender.Fits) : (numberLoop wnd cwnd segs kcp).sender.Fits := by
  apply numberLoop_preserves (fun numbered => numbered.sender.Fits) wnd cwnd _ all fits
  intro next newseg rest held head _
  rw [number_sender wnd head]
  exact held.number _ head rfl

theorem numberLoop_sound (wnd cwnd : UInt32) {segs : List IKCPSEG} (all : kcp.sndQueue.segs = segs)
    (small : log.length < 2 ^ 31) (sound : kcp.sender.Sound log has) :
    (numberLoop wnd cwnd segs kcp).sender.Sound log has := by
  apply numberLoop_preserves (fun numbered => numbered.sender.Sound log has) wnd cwnd _ all sound
  intro next newseg rest held head _
  rw [number_sender wnd head]
  exact held.number _ small head rfl rfl rfl rfl

end Numbering

section Data

variable {log : Log} {has : Nat → Prop} {good : IKCPSEG → Prop}

theorem stamp_renew (kcp : IKCPCB) (wnd rtomin : UInt32) (segment : IKCPSEG) (reason : Due) :
    (renew kcp wnd rtomin segment reason).stamp = segment.stamp := by
  cases reason <;> rfl

theorem data_renew (kcp : IKCPCB) (wnd rtomin : UInt32) (segment : IKCPSEG) (reason : Due) :
    (renew kcp wnd rtomin segment reason).data = segment.data := by
  cases reason <;> rfl

theorem una_renew (kcp : IKCPCB) (wnd rtomin : UInt32) (segment : IKCPSEG) {reason : Due}
    (sent : reason ≠ .idle) : (renew kcp wnd rtomin segment reason).una = kcp.rcvNxt := by
  cases reason with
  | first => rfl
  | timeout => rfl
  | fast => rfl
  | idle => exact absurd rfl sent

theorem renew_honest (wnd rtomin : UInt32) {segment : IKCPSEG} {reason : Due}
    (sound : kcp.sender.Sound log has) (small : kcp.rcvNxt.toNat < 2 ^ 31)
    (member : segment ∈ kcp.sndBuf.segs) (sent : reason ≠ .idle) :
    Honest kcp.conv log kcp.receiver.Has (renew kcp wnd rtomin segment reason) := by
  obtain ⟨conv, cmd, sn, fragment⟩ := of_stamp_eq (stamp_renew kcp wnd rtomin segment reason)
  have una := una_renew kcp wnd rtomin segment sent
  have found : log[segment.sn.toNat]? = some segment.fragment := sound.numbered segment member
  obtain ⟨sameConv, push⟩ := sound.pushes segment member
  have waiting := sound.fits.waiting segment (List.mem_append_right kcp.sender.queue member)
  have frg : (renew kcp wnd rtomin segment reason).frg.toNat = segment.frg.toNat :=
    congrArg Prod.fst fragment
  refine ⟨conv.trans sameConv, Or.inl (cmd.trans push), ?_, ?_, ?_, ?_, ?_, ?_⟩
  · intro _
    rw [sn, fragment]
    exact found
  · intro ack
    exact absurd (ack.symm.trans (cmd.trans push)) (by decide)
  · intro index before
    rw [una] at before
    exact Or.inl before
  · rw [una]
    exact small
  · rw [frg]
    exact sound.labels segment.fragment (List.mem_of_getElem? found)
  · rw [data_renew]
    have bound := kcp.mtu.toNat_lt
    change IKCP_OVERHEAD + segment.data.length ≤ kcp.mtu.toNat at waiting
    omega

def Ready (good : IKCPSEG → Prop) (kcp : IKCPCB) (wnd rtomin : UInt32) (segment : IKCPSEG) : Prop :=
  IKCP_OVERHEAD + segment.data.length ≤ kcp.mtu.toNat ∧
    ∀ reason : Due, reason ≠ .idle → good (renew kcp wnd rtomin segment reason)

theorem flushSegment_sound {wnd resent rtomin : UInt32} {loop : FlushLoop} {segment : IKCPSEG}
    (fits : kcp.sender.Fits) (ready : Ready good kcp wnd rtomin segment)
    (packed : loop.out.Sound good kcp.mtu.toNat) :
    ∃ next, flushSegment kcp wnd resent rtomin loop segment = some next ∧
      next.out.Sound good kcp.mtu.toNat := by
  obtain ⟨short, each⟩ := ready
  have placed : ∀ reason : Due, reason ≠ .idle → ∃ out,
      place kcp loop.out (renew kcp wnd rtomin segment reason) = some out ∧
        out.Sound good kcp.mtu.toNat := by
    intro reason sent
    apply place_sound fits.room packed (each reason sent)
    rw [data_renew]
    exact short
  have noOverflow : ∀ reason : Due, ¬ 2 ^ 31 ≤ loop.out.written.length +
      (IKCP_OVERHEAD + (renew kcp wnd rtomin segment reason).data.length) := by
    intro reason
    have small : kcp.mtu.toNat < 2 ^ 30 := fits.small
    have written := packed.short
    rw [data_renew]
    omega
  unfold flushSegment
  cases reason : due kcp resent segment with
  | idle => exact ⟨loop, rfl, packed⟩
  | first =>
      obtain ⟨out, done, held⟩ := placed .first (by decide)
      simp only [done, reduceCtorEq, if_false, if_neg (noOverflow .first), Option.bind_eq_bind,
        Option.bind_some]
      exact ⟨_, rfl, held⟩
  | timeout =>
      obtain ⟨out, done, held⟩ := placed .timeout (by decide)
      simp only [done, reduceCtorEq, if_false, if_neg (noOverflow .timeout), Option.bind_eq_bind,
        Option.bind_some]
      exact ⟨_, rfl, held⟩
  | fast =>
      obtain ⟨out, done, held⟩ := placed .fast (by decide)
      simp only [done, reduceCtorEq, if_false, if_neg (noOverflow .fast), Option.bind_eq_bind,
        Option.bind_some]
      exact ⟨_, rfl, held⟩

theorem flushLoop_sound {wnd rtomin : UInt32} (resent : UInt32) {segs : List IKCPSEG}
    {loop : FlushLoop} (fits : kcp.sender.Fits)
    (ready : ∀ segment ∈ segs, Ready good kcp wnd rtomin segment)
    (packed : loop.out.Sound good kcp.mtu.toNat) :
    ∃ final, flushLoop kcp wnd resent rtomin segs loop = some final ∧
      final.out.Sound good kcp.mtu.toNat := by
  induction segs generalizing loop with
  | nil => exact ⟨loop, rfl, packed⟩
  | cons segment rest ih =>
      obtain ⟨first, later⟩ := List.forall_mem_cons.mp ready
      obtain ⟨next, taken, held⟩ := flushSegment_sound fits first packed
      rw [flushLoop, taken]
      exact ih later held

theorem frame_windowAfterFast (resent : UInt32) (loop : FlushLoop) (kcp : IKCPCB) :
    Frame kcp (windowAfterFast resent loop kcp) := by
  unfold windowAfterFast
  split
  · exact ⟨rfl, rfl⟩
  · exact Frame.refl kcp

theorem frame_windowAfterLoss (cwnd : UInt32) (loop : FlushLoop) (kcp : IKCPCB) :
    Frame kcp (windowAfterLoss cwnd loop kcp) := by
  unfold windowAfterLoss
  split
  · exact ⟨rfl, rfl⟩
  · exact Frame.refl kcp

theorem frame_updateSsthresh (resent cwnd : UInt32) (loop : FlushLoop) (kcp : IKCPCB) :
    Frame kcp (updateSsthresh resent cwnd loop kcp) := by
  apply (frame_windowAfterFast resent loop kcp).trans
  apply (frame_windowAfterLoss cwnd loop _).trans
  unfold updateSsthresh
  dsimp only
  split
  · exact ⟨rfl, rfl⟩
  · exact Frame.refl _

/-- The segments of `snd_buf` are written to, but not their stamps. -/
structure Rewritten (kcp next : IKCPCB) : Prop where
  sender : ∃ buf : List IKCPSEG, buf.map IKCPSEG.stamp = kcp.sndBuf.segs.map IKCPSEG.stamp ∧
    next.sender = { kcp.sender with buf := buf }
  receiver : next.receiver = kcp.receiver

theorem Rewritten.fits {next : IKCPCB} (rewritten : Rewritten kcp next) (fits : kcp.sender.Fits) :
    next.sender.Fits := by
  obtain ⟨buf, stamps, sender⟩ := rewritten.sender
  rw [sender]
  apply fits.release buf
  rw [stamps]
  exact List.Sublist.refl _

theorem Rewritten.sound {next : IKCPCB} (rewritten : Rewritten kcp next)
    (sound : kcp.sender.Sound log has) : next.sender.Sound log has := by
  obtain ⟨buf, stamps, sender⟩ := rewritten.sender
  rw [sender]
  apply sound.release buf
  · rw [stamps]
    exact List.Sublist.refl _
  · intro seg member
    have stamp : seg.stamp ∈ buf.map IKCPSEG.stamp := stamps ▸ List.mem_map_of_mem member
    obtain ⟨other, present, same⟩ := List.mem_map.mp stamp
    exact Or.inr ⟨other, present, (of_stamp_eq same).2.2.1⟩

theorem flushData_sound (wnd : UInt32) {out : Output} (fits : kcp.sender.Fits)
    (ready : ∀ segment rtomin,
      let numbered := numberLoop wnd (windowSize kcp) kcp.sndQueue.segs kcp
      segment ∈ numbered.sndBuf.segs → ∀ reason : Due, reason ≠ .idle →
        good (renew numbered wnd rtomin segment reason))
    (packed : out.Sound good kcp.mtu.toNat) :
    ∃ final last, flushData wnd kcp out = some (final, last) ∧ last.Sound good kcp.mtu.toNat ∧
      Rewritten (numberLoop wnd (windowSize kcp) kcp.sndQueue.segs kcp) final := by
  let numbered := numberLoop wnd (windowSize kcp) kcp.sndQueue.segs kcp
  let resent := if 0 < numbered.fastresend then numbered.fastresend.toUInt32 else 0xffffffff
  let rtomin := if numbered.nodelay = 0 then (numbered.rxRto >>> 3).toUInt32 else 0
  let renewed := fun seg => renew numbered wnd rtomin seg (due numbered resent seg)
  have numberedFits : numbered.sender.Fits := numberLoop_fits wnd (windowSize kcp) rfl fits
  obtain ⟨_, _, mtu⟩ := numberLoop_frame wnd (windowSize kcp) (rfl : kcp.sndQueue.segs = _)
  change numbered.mtu = kcp.mtu at mtu
  rw [← mtu] at packed ⊢
  let start : FlushLoop := ⟨numbered.xmit, numbered.state, 0, false, out⟩
  have started : start.out.Sound good numbered.mtu.toNat := packed
  have all : ∀ segment ∈ numbered.sndBuf.segs, Ready good numbered wnd rtomin segment := by
    intro segment member
    have waiting := numberedFits.waiting segment (List.mem_append_right numbered.sender.queue member)
    exact ⟨waiting, ready segment rtomin member⟩
  obtain ⟨loop, ran, sent⟩ := flushLoop_sound resent numberedFits all started
  let written := { numbered with
    sndBuf := numbered.sndBuf.map renewed, xmit := loop.xmit, state := loop.state }
  have stamps : (numbered.sndBuf.segs.map renewed).map IKCPSEG.stamp =
      numbered.sndBuf.segs.map IKCPSEG.stamp := by
    rw [List.map_map]
    apply List.map_congr_left
    intro seg _
    exact stamp_renew numbered wnd rtomin seg (due numbered resent seg)
  have frame := frame_updateSsthresh resent (windowSize kcp) loop written
  refine ⟨updateSsthresh resent (windowSize kcp) loop written, ikcpOutput loop.out, ?_,
    (ikcpOutput_sound sent).1, ⟨numbered.sndBuf.segs.map renewed, stamps, frame.sender⟩,
    frame.receiver⟩
  rw [flushData]
  simp only [Option.bind_eq_bind]
  rw [ran]
  rfl

end Data

section Flush

variable {out inn done : Log} {peerHas : Nat → Prop}

/-- A call that leaves both halves right and outputs honest datagrams. It changes
nothing of the receiver but its acknowledgements. -/
structure Flushed (out inn done : Log) (peerHas : Nat → Prop) (kcp final : IKCPCB)
    (datagrams : List (List UInt8)) : Prop where
  right : HalvesSound out inn done peerHas final
  receiver : ∃ acks, final.receiver = { kcp.receiver with acks := acks }
  conv : final.conv = kcp.conv
  datagrams : ∀ data ∈ datagrams, Datagram (Honest kcp.conv out kcp.receiver.Has) kcp.mtu.toNat data

theorem Control.honest {log : Log} {seg : IKCPSEG} (control : Control kcp.conv kcp.rcvNxt seg)
    (small : kcp.rcvNxt.toNat < 2 ^ 31)
    (cmd : seg.cmd = IKCP_CMD_ACK ∧ kcp.receiver.Has seg.sn.toNat ∨ seg.cmd = IKCP_CMD_WASK ∨
      seg.cmd = IKCP_CMD_WINS) : Honest kcp.conv log kcp.receiver.Has seg where
  conv := control.conv
  una := by
    intro index before
    rw [control.una] at before
    exact Or.inl before
  unaSmall := by rw [control.una]; exact small
  frg := by rw [control.frg]; decide
  len := by rw [control.data]; decide
  known := by
    rcases cmd with ⟨ack, _⟩ | ask | tell
    · exact Or.inr (Or.inl ack)
    · exact Or.inr (Or.inr (Or.inl ask))
    · exact Or.inr (Or.inr (Or.inr tell))
  push := by
    intro push
    rcases cmd with ⟨other, _⟩ | other | other <;>
      exact absurd (push.symm.trans other) (by decide)
  ack := by
    intro ack
    rcases cmd with ⟨_, had⟩ | other | other
    · exact had
    · exact absurd (ack.symm.trans other) (by decide)
    · exact absurd (ack.symm.trans other) (by decide)

/-- `ikcp_flush` never faults. -/
theorem ikcpFlush_sound (outSmall : out.length < 2 ^ 31) (innSmall : inn.length < 2 ^ 31)
    (right : HalvesSound out inn done peerHas kcp) :
    ∃ final datagrams, ikcpFlush kcp = some (final, datagrams) ∧
      Flushed out inn done peerHas kcp final datagrams := by
  unfold ikcpFlush
  split
  · exact ⟨kcp, [], rfl, right, ⟨kcp.acklist, rfl⟩, rfl, List.forall_mem_nil _⟩
  · have small : kcp.rcvNxt.toNat < 2 ^ 31 := Nat.lt_of_le_of_lt right.receiver.inside innSmall
    obtain ⟨quiet, written, controlled, packed, frame⟩ :=
      flushControl_sound (Honest kcp.conv out kcp.receiver.Has) right.sender.fits
        (fun ack control cmd member =>
          control.honest small (Or.inl ⟨cmd, right.receiver.acked _ member⟩))
        (fun probe control cmd => control.honest small (Or.inr cmd))
    have sender : quiet.sender = kcp.sender := frame.sender
    have receiver : quiet.receiver = { kcp.receiver with acks := [] } := frame.receiver
    have mtu : quiet.mtu = kcp.mtu := congrArg Sender.mtu sender
    have sound : quiet.sender.Sound out peerHas := sender ▸ right.sender
    let numbered := numberLoop (ikcpWndUnused kcp) (windowSize quiet) quiet.sndQueue.segs quiet
    have held : numbered.sender.Sound out peerHas :=
      numberLoop_sound (ikcpWndUnused kcp) (windowSize quiet) rfl outSmall sound
    obtain ⟨sameReceiver, sameConv, _⟩ :=
      numberLoop_frame (ikcpWndUnused kcp) (windowSize quiet) (rfl : quiet.sndQueue.segs = _)
    change numbered.receiver = quiet.receiver at sameReceiver
    change numbered.conv = quiet.conv at sameConv
    have conv : numbered.conv = kcp.conv := sameConv.trans frame.conv
    have nxt : numbered.rcvNxt = kcp.rcvNxt :=
      congrArg Receiver.nxt (sameReceiver.trans receiver)
    have has : numbered.receiver.Has = kcp.receiver.Has := by
      rw [sameReceiver, receiver]
      rfl
    rw [← mtu] at packed
    obtain ⟨final, last, sent, honest, rewritten⟩ := flushData_sound (ikcpWndUnused kcp)
      (sender ▸ right.sender.fits) (fun segment rtomin member reason idle => by
        have due := renew_honest (ikcpWndUnused kcp) rtomin held (nxt ▸ small) member idle
        rw [conv, has] at due
        exact due) packed
    rw [mtu] at honest
    have drained : Receiver.Sound { kcp.receiver with acks := [] } inn done :=
      { right.receiver with acked := List.forall_mem_nil _ }
    obtain ⟨buf, _, finalSender⟩ := rewritten.sender
    have finalConv : final.conv = numbered.conv := congrArg Sender.conv finalSender
    have finalReceiver : final.receiver = { kcp.receiver with acks := [] } :=
      rewritten.receiver.trans (sameReceiver.trans receiver)
    refine ⟨final, last.sent, ?_, ⟨rewritten.sound held, ?_⟩, ⟨[], finalReceiver⟩,
      finalConv.trans conv, honest.sent⟩
    · simp only [controlled, sent, Option.bind_eq_bind, Option.bind_some]
    · rw [finalReceiver]
      exact drained

theorem ikcpFlush_fits (fits : kcp.sender.Fits) :
    ∃ final datagrams, ikcpFlush kcp = some (final, datagrams) ∧ final.sender.Fits ∧
      ∃ acks, final.receiver = { kcp.receiver with acks := acks } := by
  unfold ikcpFlush
  split
  · exact ⟨kcp, [], rfl, fits, kcp.acklist, rfl⟩
  · obtain ⟨quiet, written, controlled, packed, frame⟩ :=
      flushControl_sound (fun _ => True) fits (fun _ _ _ _ => trivial) (fun _ _ _ => trivial)
    have sender : quiet.sender = kcp.sender := frame.sender
    have mtu : quiet.mtu = kcp.mtu := congrArg Sender.mtu sender
    have quietFits : quiet.sender.Fits := sender ▸ fits
    rw [← mtu] at packed
    obtain ⟨final, last, sent, _, rewritten⟩ :=
      flushData_sound (ikcpWndUnused kcp) quietFits (fun _ _ _ _ _ => trivial) packed
    obtain ⟨receiver, _, _⟩ :=
      numberLoop_frame (ikcpWndUnused kcp) (windowSize quiet) (rfl : quiet.sndQueue.segs = _)
    refine ⟨final, last.sent, ?_, ?_, [], ?_⟩
    · simp only [controlled, sent, Option.bind_eq_bind, Option.bind_some]
    · exact rewritten.fits (numberLoop_fits (ikcpWndUnused kcp) (windowSize quiet) rfl quietFits)
    · rw [rewritten.receiver]
      exact receiver.trans frame.receiver

theorem frame_clock (kcp : IKCPCB) (current updated tsFlush : UInt32) :
    Frame kcp { kcp with current := current, updated := updated, tsFlush := tsFlush } := ⟨rfl, rfl⟩

theorem ikcpUpdate_fits (current : UInt32) (fits : kcp.sender.Fits) :
    ∃ final datagrams, ikcpUpdate kcp current = some (final, datagrams) ∧ final.sender.Fits := by
  obtain ⟨updated, tsFlush, _, flushes | ⟨idle, _⟩⟩ := ikcpUpdate_cases kcp current
  · have timed : { kcp with current := current, updated := updated, tsFlush := tsFlush }.sender.Fits :=
      fits
    obtain ⟨final, datagrams, flushed, held, _⟩ := ikcpFlush_fits timed
    exact ⟨final, datagrams, flushes.trans flushed, held⟩
  · exact ⟨_, [], idle, fits⟩

theorem ikcpUpdate_sound (current : UInt32) (outSmall : out.length < 2 ^ 31)
    (innSmall : inn.length < 2 ^ 31) (right : HalvesSound out inn done peerHas kcp) :
    ∃ final datagrams, ikcpUpdate kcp current = some (final, datagrams) ∧
      Flushed out inn done peerHas kcp final datagrams := by
  obtain ⟨updated, tsFlush, _, cases⟩ := ikcpUpdate_cases kcp current
  have timed := right.frame (frame_clock kcp current updated tsFlush)
  rcases cases with flushes | ⟨idle, _⟩
  · obtain ⟨final, datagrams, ran, flushed⟩ := ikcpFlush_sound outSmall innSmall timed
    exact ⟨final, datagrams, flushes.trans ran, flushed.right, flushed.receiver, flushed.conv,
      flushed.datagrams⟩
  · exact ⟨_, [], idle, timed, ⟨kcp.acklist, rfl⟩, rfl, List.forall_mem_nil _⟩

end Flush

end TalkingTime.Kcp

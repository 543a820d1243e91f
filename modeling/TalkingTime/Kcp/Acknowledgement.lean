import TalkingTime.Kcp.Blocking
import TalkingTime.Kcp.Flight

/-! The way of an acknowledgement: what arrives in the window is acknowledged, and once
that has arrived in turn, the fragment is never sent again. -/

namespace TalkingTime.Kcp

open Mail (Side)
open Serial

variable {kcp final : IKCPCB} {datagrams : List (List UInt8)}

section Arriving

/-- A datagram that brings a fragment into the window, new or not. -/
def Brings (kcp : IKCPCB) (data : List UInt8) (sn : UInt32) : Prop :=
  ∃ front seg rest, data = (front ++ seg :: rest).flatMap IKCPSEG.wire ∧
    (∀ other ∈ front ++ seg :: rest, Legible kcp.conv other) ∧
    seg.cmd = IKCP_CMD_PUSH ∧ seg.sn = sn ∧
    let reached := inputSegments kcp front
    diff sn (reached.rcvNxt + reached.rcvWnd) < 0

def Answers (conv : UInt32) (data : List UInt8) (sn : UInt32) : Prop :=
  ∃ segs : List IKCPSEG, data = segs.flatMap IKCPSEG.wire ∧ (∀ seg ∈ segs, Legible conv seg) ∧
    ∃ ack ∈ segs, ack.cmd = IKCP_CMD_ACK ∧ ack.sn = sn

theorem acks_inputSegments (kcp : IKCPCB) (segs : List IKCPSEG) :
    kcp.acklist <+: (inputSegments kcp segs).acklist := by
  induction segs generalizing kcp with
  | nil => exact List.prefix_refl _
  | cons seg rest ih =>
      exact (hears_inputSegment kcp seg.header seg.data).acks.trans
        (ih (inputSegment kcp seg.header seg.data))

theorem inputSegment_acknowledges {seg : IKCPSEG} (pushed : seg.cmd = IKCP_CMD_PUSH)
    (inWindow : diff seg.sn (kcp.rcvNxt + kcp.rcvWnd) < 0) :
    (seg.sn, seg.ts) ∈ (inputSegment kcp seg.header seg.data).acklist := by
  have receiver := heard_receiver kcp seg.header
  have nxt : (heard kcp seg.header).rcvNxt = kcp.rcvNxt := congrArg Receiver.nxt receiver
  have wnd : (heard kcp seg.header).rcvWnd = kcp.rcvWnd := congrArg Receiver.wnd receiver
  have voice := (inputPush_voice (heard kcp seg.header) (seg.header.segment seg.data)).2
  have inside : diff (seg.header.segment seg.data).sn (kcp.rcvNxt + kcp.rcvWnd) < 0 := inWindow
  rw [nxt, wnd, if_pos inside] at voice
  rw [inputSegment_eq, header_cmd (Or.inl pushed), pushed]
  change (seg.sn, seg.ts) ∈ (inputPush (heard kcp seg.header) (seg.header.segment seg.data)).acklist
  rw [voice]
  exact List.mem_append_right _ (List.mem_singleton_self _)

theorem ikcpInput_acknowledges {data : List UInt8} {sn : UInt32} {code : Int}
    (brings : Brings kcp data sn) (taken : ikcpInput kcp data = some (final, code)) :
    ∃ ts, (sn, ts) ∈ final.acklist := by
  obtain ⟨front, seg, rest, rfl, legible, pushed, rfl, inWindow⟩ := brings
  have nonempty : front ++ seg :: rest ≠ [] :=
    List.append_ne_nil_of_right_ne_nil _ (List.cons_ne_nil _ _)
  have all : inputSegments kcp (front ++ seg :: rest) =
      inputSegments (inputSegment (inputSegments kcp front) seg.header seg.data) rest := by
    rw [inputSegments, List.foldl_append]
    rfl
  have last : (seg.sn, seg.ts) ∈ (inputSegments kcp (front ++ seg :: rest)).acklist := by
    rw [all]
    exact (acks_inputSegments _ rest).subset (inputSegment_acknowledges pushed inWindow)
  refine ⟨seg.ts, ?_⟩
  rw [ikcpInput_wire nonempty legible] at taken
  cases taken
  split
  · exact (hears_growWindow _).acks.subset last
  · exact last

end Arriving

section Answering

variable {out inn done : Log} {peerHas : Nat → Prop} {ack : UInt32 × UInt32}

theorem ikcpFlush_answers (outSmall : out.length < 2 ^ 31) (innSmall : inn.length < 2 ^ 31)
    (right : HalvesSound out inn done peerHas kcp) (pending : ack ∈ kcp.acklist)
    (flushed : ikcpFlush kcp = some (final, datagrams)) :
    ack ∈ final.acklist ∨ ∃ data ∈ datagrams, Answers kcp.conv data ack.1 := by
  by_cases started : kcp.updated = 0
  · rw [ikcpFlush, if_pos started] at flushed
    cases flushed
    exact Or.inl pending
  · obtain ⟨packs, _⟩ := ikcpFlush_leaves started flushed
    have sent : { controlSegment kcp with sn := ack.1, ts := ack.2 } ∈ flushContents kcp :=
      List.mem_append_left _ (mem_controlSegments_ack pending)
    obtain ⟨index, group, found, inside, all⟩ := packs.group sent
    refine Or.inr ⟨_, List.mem_of_getElem? found, group, rfl, ?_, _, inside, rfl, rfl⟩
    exact fun seg member =>
      (flushContents_honest outSmall innSmall right (all seg member)).legible

theorem ikcpUpdate_answers {current : UInt32} (outSmall : out.length < 2 ^ 31)
    (innSmall : inn.length < 2 ^ 31) (right : HalvesSound out inn done peerHas kcp)
    (pending : ack ∈ kcp.acklist) (updated : ikcpUpdate kcp current = some (final, datagrams)) :
    ack ∈ final.acklist ∨ ∃ data ∈ datagrams, Answers kcp.conv data ack.1 := by
  obtain ⟨started, tsFlush, _, flushes | ⟨idle, _⟩⟩ := ikcpUpdate_cases kcp current
  · have timed := right.frame (frame_clock kcp current started tsFlush)
    have answers := ikcpFlush_answers outSmall innSmall timed pending (flushes.symm.trans updated)
    exact answers
  · rw [updated] at idle
    cases idle
    exact Or.inl pending

theorem acks_ikcpRecv (kcp : IKCPCB) (len : Int32) : (ikcpRecv kcp len).1.acklist = kcp.acklist := by
  have merged : ∀ ispeek, (recvMessage ispeek kcp).1.acklist = kcp.acklist := by
    intro ispeek
    unfold recvMessage
    dsimp only
    split <;> exact (hears_moveAvailable _).1
  unfold ikcpRecv
  dsimp only
  split
  · rfl
  · split
    · rfl
    · split
      · rfl
      · exact merged _

theorem acks_ikcpInput {data : List UInt8} {code : Int}
    (taken : ikcpInput kcp data = some (final, code)) : kcp.acklist <+: final.acklist := by
  refine ikcpInput_preserves (fun next header rest (held : kcp.acklist <+: next.acklist) => ?_)
    (fun next held => ?_) (List.prefix_refl _) taken
  · exact held.trans (hears_inputSegment next header rest).acks
  · exact held.trans (hears_growWindow next).acks

def Call.Silent : Call → Prop
  | .update _ | .flush => False
  | _ => True

theorem acks_of_call {any : Call} (silent : any.Silent)
    (done : call kcp any = some final) : kcp.acklist <+: final.acklist := by
  cases any with
  | send message =>
      obtain ⟨⟨sent, code⟩, sending, rfl⟩ := Option.map_eq_some_iff.mp done
      obtain ⟨queue, rfl⟩ := ikcpSend_queue sending
      exact List.prefix_refl _
  | recv len =>
      cases done
      simp only [acks_ikcpRecv, List.prefix_refl]
  | input data =>
      obtain ⟨⟨taken, code⟩, taking, rfl⟩ := Option.map_eq_some_iff.mp done
      exact acks_ikcpInput taking
  | update | flush => exact silent.elim
  | setmtu mtu =>
      cases done
      have acks : (ikcpSetmtu kcp mtu).1.acklist = kcp.acklist :=
        congrArg Receiver.acks (ikcpSetmtu_receiver kcp mtu)
      simp only [acks, List.prefix_refl]
  | nodelay | interval | wndsize =>
      cases done
      exact List.prefix_refl _

end Answering

section Releasing

variable {bound : Nat} {sn : UInt32} {segs : List IKCPSEG}

theorem absent_ackLoop {base : UInt32} (sorted : AscendingFrom base segs) :
    ∀ seg ∈ ackLoop sn segs, seg.sn ≠ sn := by
  induction segs with
  | nil => exact List.forall_mem_nil _
  | cons first rest ih =>
      obtain ⟨least, order⟩ := List.pairwise_cons.mp sorted
      rw [ackLoop]
      split
      · rename_i same
        intro seg member again
        have less := least seg member
        rw [again, same] at less
        exact Nat.lt_irrefl _ less
      · rename_i other
        exact List.forall_mem_cons.mpr ⟨fun same => other same.symm, ih order⟩

theorem ikcpParseAck_releases (small : bound < 2 ^ 31) (paced : kcp.sender.Paced bound) :
    ∀ seg ∈ (ikcpParseAck kcp sn).sndBuf.segs, seg.sn ≠ sn := by
  obtain ⟨sorted, below, near⟩ := paced
  unfold ikcpParseAck
  split
  · rename_i ignored
    rintro seg member rfl
    have before : ahead kcp.sndUna seg.sn < ahead kcp.sndUna kcp.sndNxt := below seg member
    have most : ahead kcp.sndUna kcp.sndNxt ≤ bound := near
    have positive := (diff_pos_iff_ahead (by omega) (by omega)).mpr before
    rcases ignored with behind | beyond
    · rw [diff_eq_ahead (by omega)] at behind
      omega
    · rw [diff_swap (by omega)] at beyond
      omega
  · rw [SegQueue.ack_segs]
    exact absent_ackLoop sorted

theorem inputAck_releases (ts : UInt32) (small : bound < 2 ^ 31) (paced : kcp.sender.Paced bound) :
    ∀ seg ∈ (inputAck kcp ts sn).sndBuf.segs, seg.sn ≠ sn := by
  have parsed : ∀ next : IKCPCB, next.sender = kcp.sender →
      ∀ seg ∈ (ikcpShrinkBuf (ikcpParseAck next sn)).sndBuf.segs, seg.sn ≠ sn := by
    intro next same
    have buf : (ikcpShrinkBuf (ikcpParseAck next sn)).sndBuf.segs =
        (ikcpParseAck next sn).sndBuf.segs := congrArg Sender.buf (ikcpShrinkBuf_sender _)
    rw [buf]
    exact ikcpParseAck_releases small (same ▸ paced)
  unfold inputAck
  dsimp only
  split
  · exact parsed _ (frame_ikcpUpdateAck kcp _).sender
  · exact parsed kcp rfl

theorem Sender.Released.absent {before after : Sender} (released : before.Released after)
    (absent : ∀ seg ∈ before.buf, seg.sn ≠ sn) : ∀ seg ∈ after.buf, seg.sn ≠ sn := by
  intro seg member
  obtain ⟨old, present, same⟩ :=
    List.mem_map.mp (released.stamps.subset (List.mem_map_of_mem member))
  rw [← (of_stamp_eq same).2.2.1]
  exact absent old present

theorem inputSegments_absent (segs : List IKCPSEG)
    (absent : ∀ seg ∈ kcp.sndBuf.segs, seg.sn ≠ sn) :
    ∀ seg ∈ (inputSegments kcp segs).sndBuf.segs, seg.sn ≠ sn := by
  induction segs generalizing kcp with
  | nil => exact absent
  | cons seg rest ih =>
      exact ih ((released_inputSegment kcp seg.header seg.data).absent absent)

theorem inputSegments_releases {ack : IKCPSEG} (small : bound < 2 ^ 31)
    (paced : kcp.sender.Paced bound) (member : ack ∈ segs) (acked : ack.cmd = IKCP_CMD_ACK) :
    ∀ seg ∈ (inputSegments kcp segs).sndBuf.segs, seg.sn ≠ ack.sn := by
  induction segs generalizing kcp with
  | nil => cases member
  | cons first rest ih =>
      rcases List.mem_cons.mp member with rfl | later
      · apply inputSegments_absent rest
        have start := paced.released (released_heard kcp ack.header)
        change ∀ seg ∈ (inputSegment kcp ack.header ack.data).sndBuf.segs, seg.sn ≠ ack.sn
        rw [inputSegment_eq, header_cmd (Or.inr (Or.inl acked)), if_pos acked]
        exact inputAck_releases ack.ts small start
      · exact ih (paced.released (released_inputSegment kcp first.header first.data)) later

theorem ikcpInput_releases {data : List UInt8} {code : Int} (small : bound < 2 ^ 31)
    (paced : kcp.sender.Paced bound) (answers : Answers kcp.conv data sn)
    (taken : ikcpInput kcp data = some (final, code)) : ∀ seg ∈ final.sndBuf.segs, seg.sn ≠ sn := by
  obtain ⟨segs, rfl, legible, ack, member, acked, rfl⟩ := answers
  have released := inputSegments_releases small paced member acked
  rw [ikcpInput_wire (List.ne_nil_of_mem member) legible] at taken
  cases taken
  split
  · have sender := (frame_growWindow (inputSegments kcp segs)).sender
    have buf : (growWindow (inputSegments kcp segs)).sndBuf.segs =
        (inputSegments kcp segs).sndBuf.segs := congrArg Sender.buf sender
    rw [buf]
    exact released
  · exact released

end Releasing

section Numbering

variable {log : Log} {has : Nat → Prop} {before after : Sender}

theorem Sender.Sound.paced (sound : before.Sound log has) (small : log.length < 2 ^ 31) :
    before.Paced (2 ^ 31 - 1) := by
  have last : ahead before.una before.nxt = before.nxt.toNat - before.una.toNat :=
    ahead_of_le sound.unaInside
  have inside := sound.inside
  have distance : ∀ seg ∈ before.buf,
      ahead before.una seg.sn = seg.sn.toNat - before.una.toNat :=
    fun seg member => ahead_of_le (sound.oldest seg member)
  refine ⟨?_, ?_, by omega⟩
  · apply List.Pairwise.imp_of_mem _ sound.sorted
    intro seg later member laterMember less
    have oldest := sound.oldest seg member
    rw [distance seg member, distance later laterMember]
    omega
  · intro seg member
    have oldest := sound.oldest seg member
    have below := sound.below seg member
    rw [distance seg member, last]
    omega

/-- What a sender has in `snd_buf` later is there already or has yet to get its number. -/
structure Sender.Later (before after : Sender) : Prop where
  nxt : before.nxt.toNat ≤ after.nxt.toNat
  buf : ∀ seg ∈ after.buf,
    (∃ old ∈ before.buf, old.sn = seg.sn) ∨ before.nxt.toNat ≤ seg.sn.toNat

theorem Sender.Later.refl (sender : Sender) : sender.Later sender :=
  ⟨Nat.le_refl _, fun seg member => Or.inl ⟨seg, member, rfl⟩⟩

theorem Sender.Later.trans {last : Sender} (first : before.Later after)
    (second : after.Later last) : before.Later last := by
  refine ⟨Nat.le_trans first.nxt second.nxt, ?_⟩
  intro seg member
  rcases second.buf seg member with ⟨old, present, same⟩ | new
  · rw [← same]
    exact first.buf old present
  · exact Or.inr (Nat.le_trans first.nxt new)

theorem Sender.Later.of_stamps (nxt : after.nxt = before.nxt)
    (stamps : (after.buf.map IKCPSEG.stamp).Sublist (before.buf.map IKCPSEG.stamp)) :
    before.Later after := by
  refine ⟨by rw [nxt], ?_⟩
  intro seg member
  obtain ⟨old, present, same⟩ := List.mem_map.mp (stamps.subset (List.mem_map_of_mem member))
  exact Or.inl ⟨old, present, (of_stamp_eq same).2.2.1⟩

theorem Sender.Later.absent {sn : UInt32} (later : before.Later after)
    (numbered : sn.toNat < before.nxt.toNat) (absent : ∀ seg ∈ before.buf, seg.sn ≠ sn) :
    ∀ seg ∈ after.buf, seg.sn ≠ sn := by
  rintro seg member rfl
  rcases later.buf seg member with ⟨old, present, same⟩ | new
  · exact absent old present same
  · omega

theorem later_numbered (wnd : UInt32) (small : log.length < 2 ^ 31)
    (sound : kcp.sender.Sound log has) : kcp.sender.Later (numbered wnd kcp).sender := by
  refine (numberLoop_preserves
    (fun next => next.sender.Sound log has ∧ kcp.sender.Later next.sender) wnd (windowSize kcp) ?_
    rfl ⟨sound, Sender.Later.refl _⟩).2
  rintro next newseg rest ⟨held, later⟩ head _
  have inside : next.sndNxt.toNat ≤ log.length := held.inside
  have succ := toNat_succ (Nat.lt_of_le_of_lt inside small)
  rw [number_sender wnd head]
  refine ⟨held.number _ small head rfl rfl rfl rfl, later.trans ⟨?_, ?_⟩⟩
  · change next.sndNxt.toNat ≤ (next.sndNxt + 1).toNat
    omega
  · intro seg member
    rcases List.mem_append.mp member with old | new
    · exact Or.inl ⟨seg, old, rfl⟩
    · rw [List.mem_singleton.mp new]
      exact Or.inr (Nat.le_refl _)

theorem Sends.later (sends : Sends kcp final) (small : log.length < 2 ^ 31)
    (sound : kcp.sender.Sound log has) : kcp.sender.Later final.sender := by
  cases sends with
  | rests una nxt buf =>
      apply Sender.Later.of_stamps nxt
      change (final.sndBuf.segs.map IKCPSEG.stamp).Sublist _
      rw [buf]
      exact List.Sublist.refl _
  | releases released =>
      have nxt : final.sndNxt = kcp.sndNxt := congrArg Sender.nxt released.same
      exact Sender.Later.of_stamps nxt released.stamps
  | flushes timed sender settings left =>
      have quiet : (quieted timed).sender = kcp.sender :=
        (quieted_frame timed).1.sender.trans sender
      have start : (quieted timed).sender.Sound log has := quiet ▸ sound
      have numbering := later_numbered (ikcpWndUnused timed) small start
      rw [quiet] at numbering
      apply numbering.trans (Sender.Later.of_stamps left.nxt _)
      change (final.sndBuf.segs.map IKCPSEG.stamp).Sublist _
      rw [left.buf]
      exact List.Sublist.refl _

end Numbering

section Runs

variable {conv : UInt32} {connection after : Connection} {ledger : Ledger} {action : Action}
  {ack : UInt32 × UInt32}

def Answered (conv : UInt32) (side : Side) (before : Nat) (sn : UInt32) (connection : Connection) :
    Prop :=
  ∃ index data, before ≤ index ∧ (connection.wire side)[index]? = some data ∧ Answers conv data sn

theorem found_in_longer {datagrams more : List (List UInt8)} {index : Nat} {data : List UInt8}
    (grown : datagrams <+: more) (found : datagrams[index]? = some data) :
    more[index]? = some data := by
  obtain ⟨bound, same⟩ := List.getElem?_eq_some_iff.mp found
  rw [List.prefix_iff_getElem?.mp grown index bound, same]

theorem Answered.grow {side : Side} {before earlier : Nat} {sn : UInt32}
    (answered : Answered conv side before sn connection) (fewer : earlier ≤ before)
    (wire : connection.wire side <+: after.wire side) : Answered conv side earlier sn after := by
  obtain ⟨index, data, new, found, answers⟩ := answered
  exact ⟨index, data, Nat.le_trans fewer new, found_in_longer wire found, answers⟩

theorem answered_of_step (sound : connection.Sound conv ledger) {side : Side}
    (done : connection.step action = some after)
    (pending : ack ∈ (connection.host side).acklist) :
    ack ∈ (after.host side).acklist ∨
      Answered conv side (connection.wire side).length ack.1 after := by
  have output : ∀ (next : IKCPCB) (datagrams : List (List UInt8)),
      after = (connection.become side next).output side datagrams →
      (ack ∈ next.acklist ∨ ∃ data ∈ datagrams, Answers (connection.host side).conv data ack.1) →
      ack ∈ (after.host side).acklist ∨
        Answered conv side (connection.wire side).length ack.1 after := by
    rintro next datagrams rfl (still | ⟨data, member, answers⟩)
    · left
      change ack ∈ (Function.update connection.host side next side).acklist
      rw [Function.update_self]
      exact still
    · obtain ⟨index, found⟩ := List.mem_iff_getElem?.mp member
      rw [sound.sameConv side] at answers
      refine Or.inr ⟨(connection.wire side).length + index, data, Nat.le_add_right _ _, ?_, answers⟩
      change (Function.update connection.wire side (connection.wire side ++ datagrams) side)[_]? = _
      rw [Function.update_self, List.getElem?_append_right (Nat.le_add_right _ _),
        Nat.add_sub_cancel_left]
      exact found
  obtain ⟨next, called, host⟩ := Connection.host_of_step done
  by_cases own : action.side = side
  · subst own
    have self : after.host action.side = next := by rw [host, Function.update_self]
    cases action with
    | update side current =>
        rw [Connection.step] at done
        split at done
        · cases done
        · rename_i next datagrams updated
          cases done
          exact output next datagrams rfl (ikcpUpdate_answers (sound.small side)
            (sound.small side.peer) (sound.right side) pending updated)
    | flush side =>
        rw [Connection.step] at done
        split at done
        · cases done
        · rename_i next datagrams flushed
          cases done
          exact output next datagrams rfl (ikcpFlush_answers (sound.small side)
            (sound.small side.peer) (sound.right side) pending flushed)
    | send | recv | deliver | setmtu | nodelay | interval | wndsize =>
        left
        rw [self]
        refine (acks_of_call ?_ called).subset pending
        exact trivial
  · left
    rw [host, Function.update_of_ne (Ne.symm own)]
    exact pending

/-- What a connection has become: nothing that was sent is taken back, and no number is
given twice. -/
structure Since (conv : UInt32) (side : Side) (start connection : Connection) : Prop where
  sound : ∃ ledger, connection.Sound conv ledger
  later : (start.host side).sender.Later (connection.host side).sender
  wire : ∀ any, start.wire any <+: connection.wire any

theorem Since.refl (sound : connection.Sound conv ledger) (side : Side) :
    Since conv side connection connection :=
  ⟨⟨ledger, sound⟩, Sender.Later.refl _, fun _ => List.prefix_refl _⟩

theorem Since.step {start : Connection} {side : Side} (since : Since conv side start connection)
    (permitted : Permitted connection action) (done : connection.step action = some after) :
    Since conv side start after := by
  obtain ⟨⟨ledger, sound⟩, later, wire⟩ := since
  obtain ⟨next, follows⟩ := sound.step permitted done
  refine ⟨⟨next, follows.sound⟩, later.trans ?_,
    fun any => (wire any).trans (Connection.wire_prefix_of_step done any)⟩
  obtain ⟨kcp, called, host⟩ := Connection.host_of_step done
  rw [host]
  by_cases own : action.side = side
  · subst own
    rw [Function.update_self]
    exact (sends_of_call called).later (sound.small _) (sound.right _).sender
  · rw [Function.update_of_ne (Ne.symm own)]
    exact Sender.Later.refl _

theorem since_of_run {start final : Connection} {side : Side} {actions : List Action}
    (sound : start.Sound conv ledger)
    (replayed : Runs.run Connection.step start actions = some final)
    (permitted : Runs.Meets Connection.step Permitted start actions) : Since conv side start final :=
  Runs.invariant_of_meets (fun _ _ _ since met done => since.step met done)
    (Since.refl sound side) permitted replayed

/-- An acknowledgement that was due at some time is due still or has been sent since. -/
theorem answered_of_run {start final : Connection} {side : Side} {actions : List Action}
    (sound : start.Sound conv ledger) (pending : ack ∈ (start.host side).acklist)
    (replayed : Runs.run Connection.step start actions = some final)
    (permitted : Runs.Meets Connection.step Permitted start actions) :
    ack ∈ (final.host side).acklist ∨ Answered conv side (start.wire side).length ack.1 final := by
  refine (Runs.invariant_of_meets (fun connection action after
    (held : Since conv side start connection ∧ (ack ∈ (connection.host side).acklist ∨
      Answered conv side (start.wire side).length ack.1 connection)) met done => ?_)
    ⟨Since.refl sound side, Or.inl pending⟩ permitted replayed).2
  obtain ⟨since, due⟩ := held
  obtain ⟨_, held⟩ := since.sound
  refine ⟨since.step met done, ?_⟩
  rcases due with still | answered
  · refine (answered_of_step held done still).imp_right ?_
    exact fun answered => answered.grow (since.wire side).length_le (List.prefix_refl _)
  · exact Or.inr (answered.grow (Nat.le_refl _) (Connection.wire_prefix_of_step done side))

/-- The delivery of an acknowledgement ends the retransmission for good. -/
theorem released_of_run {start final : Connection} {side : Side} {actions : List Action}
    {index : Nat} {data : List UInt8} {sn : UInt32} (sound : start.Sound conv ledger)
    (numbered : sn.toNat < (start.host side).sndNxt.toNat)
    (found : (start.wire side.peer)[index]? = some data) (answers : Answers conv data sn)
    (replayed : Runs.run Connection.step start actions = some final)
    (permitted : Runs.Meets Connection.step Permitted start actions)
    (delivered : .deliver side index ∈ actions) :
    ∀ seg ∈ (final.host side).sndBuf.segs, seg.sn ≠ sn := by
  obtain ⟨front, back, rfl⟩ := List.append_of_mem delivered
  obtain ⟨middle, before, remaining⟩ := Runs.run_append_eq_some.mp replayed
  obtain ⟨metBefore, met⟩ := (Runs.meets_append before).mp permitted
  obtain ⟨after, done, behind⟩ := Runs.run_cons_eq_some.mp remaining
  obtain ⟨allowed, metBehind⟩ := (Runs.meets_cons done).mp met
  have since : Since conv side start middle := since_of_run sound before metBefore
  obtain ⟨_, held⟩ := since.sound
  obtain ⟨_, follows⟩ := held.step allowed done
  -- the sender on which the acknowledgement arrives
  obtain ⟨next, called, host⟩ := Connection.host_of_step done
  obtain ⟨⟨taken, code⟩, taking, rfl⟩ := Option.map_eq_some_iff.mp called
  change ikcpInput (middle.host side) ((middle.wire side.peer)[index]?.getD []) = _ at taking
  rw [found_in_longer (since.wire side.peer) found, Option.getD_some] at taking
  have right := (held.right side).sender
  have answer : Answers (middle.host side).conv data sn := by
    rw [held.sameConv side]
    exact answers
  have absent := ikcpInput_releases (by decide) (right.paced (held.small side)) answer taking
  have arrived : after.host side = taken := by
    rw [host]
    exact Function.update_self ..
  have later : (middle.host side).sender.Later (after.host side).sender := by
    rw [arrived]
    exact (sends_ikcpInput taking).later (held.small side) right
  have given : sn.toNat < (after.host side).sndNxt.toNat :=
    Nat.lt_of_lt_of_le numbered (Nat.le_trans since.later.nxt later.nxt)
  exact (since_of_run follows.sound behind metBehind).later.absent given (arrived ▸ absent)

def onlySegment : IKCPSEG :=
  { ikcpSegmentNew [1, 2, 3] with conv := 7, cmd := IKCP_CMD_PUSH, wnd := 32, ts := 100 }

end Runs

end TalkingTime.Kcp

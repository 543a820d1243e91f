import TalkingTime.Kcp.Halves

/-! What `ikcp_input` does to the two halves when honest segments arrive. -/

namespace TalkingTime.Kcp

open Serial

variable {kcp : IKCPCB}

section Data

variable {log done : Log}

theorem moveAvailable_sender (kcp : IKCPCB) : (moveAvailable kcp).sender = kcp.sender := by
  apply moveAvailable_preserves (fun moved => moved.sender = kcp.sender) _ rfl
  exact fun moved seg rest same _ _ _ => same

theorem moveAvailable_sound (small : log.length < 2 ^ 31) (sound : kcp.receiver.Sound log done) :
    (moveAvailable kcp).receiver.Sound log done ∧
      kcp.receiver.Grows (moveAvailable kcp).receiver := by
  refine moveAvailable_preserves (fun moved => moved.receiver.Sound log done ∧
    kcp.receiver.Grows moved.receiver) ?_ ⟨sound, Receiver.Grows.refl _⟩
  rintro moved seg rest ⟨held, grown⟩ head next _
  have nxtSmall : moved.receiver.nxt.toNat < 2 ^ 31 := Nat.lt_of_le_of_lt held.inside small
  rw [advance_receiver]
  exact ⟨held.advance small head next, grown.trans (Receiver.grows_advance nxtSmall head next)⟩

theorem link_sound {newseg : IKCPSEG} (small : log.length < 2 ^ 31)
    (sound : kcp.receiver.Sound log done) (found : log[newseg.sn.toNat]? = some newseg.fragment)
    (ahead : kcp.rcvNxt.toNat ≤ newseg.sn.toNat) :
    let linked := { kcp with rcvBuf := kcp.rcvBuf.link newseg }
    linked.receiver.Sound log done ∧ kcp.receiver.Grows linked.receiver ∧
      linked.receiver.Has newseg.sn.toNat := by
  have grown : kcp.receiver.Grows
      { kcp.receiver with buf := (kcp.rcvBuf.link newseg).segs } := by
    refine ⟨Nat.le_refl _, ?_⟩
    rintro index (before | ⟨seg, member, number⟩)
    · exact Or.inl before
    · exact Or.inr ⟨seg, mem_link kcp.rcvBuf member, number⟩
  obtain ⟨bound, _⟩ := List.getElem?_eq_some_iff.mp found
  refine ⟨⟨sound.taken, sound.inside, ?_, ?_, ?_, ?_⟩, grown, ?_⟩
  · intro seg member
    rcases of_mem_link kcp.rcvBuf member with rfl | old
    · exact found
    · exact sound.early seg old
  · intro seg member
    rcases of_mem_link kcp.rcvBuf member with rfl | old
    · exact ahead
    · exact sound.ahead seg old
  · have order := (ascending_iff_from kcp.rcvBuf.segs).mp sound.sorted
    apply (ascending_iff_from _).mpr
    apply link_ascending kcp.rcvBuf _ _ order
    · rw [ahead_zero]
      exact Nat.lt_trans bound small
    · intro seg member
      obtain ⟨inside, _⟩ := List.getElem?_eq_some_iff.mp (sound.early seg member)
      rw [ahead_zero]
      exact Nat.lt_trans inside small
  · exact fun ack member => grown.has _ (sound.acked ack member)
  · obtain ⟨seg, member, same⟩ := link_present kcp.rcvBuf newseg
    exact Or.inr ⟨seg, member, congrArg UInt32.toNat same⟩

/-- Two control blocks, where the second has what the first one has, and is right. -/
structure Gains (log done : Log) (kcp next : IKCPCB) : Prop where
  sound : next.receiver.Sound log done
  grows : kcp.receiver.Grows next.receiver
  sender : next.sender = kcp.sender

theorem Gains.conv {next : IKCPCB} (gains : Gains log done kcp next) : next.conv = kcp.conv :=
  congrArg Sender.conv gains.sender

theorem inputPush_sender (kcp : IKCPCB) (newseg : IKCPSEG) :
    (inputPush kcp newseg).sender = kcp.sender := by
  unfold inputPush
  split
  · dsimp only
    split
    · unfold ikcpParseData
      dsimp only
      split
      · rfl
      · exact moveAvailable_sender _
    · rfl
  · rfl

theorem inputPush_accepts {newseg : IKCPSEG}
    (inWindow : diff newseg.sn (kcp.rcvNxt + kcp.rcvWnd) < 0)
    (notBehind : 0 ≤ diff newseg.sn kcp.rcvNxt) :
    inputPush kcp newseg = moveAvailable { ikcpAckPush kcp newseg.sn newseg.ts with
      rcvBuf := kcp.rcvBuf.link newseg } := by
  have accepted : ¬ (0 ≤ diff newseg.sn (kcp.rcvNxt + kcp.rcvWnd) ∨
      diff newseg.sn kcp.rcvNxt < 0) := by
    rintro (outside | behind)
    · exact absurd inWindow (Int.not_lt.mpr outside)
    · exact absurd notBehind (Int.not_le.mpr behind)
  have parsed : ikcpParseData (ikcpAckPush kcp newseg.sn newseg.ts) newseg =
      moveAvailable { ikcpAckPush kcp newseg.sn newseg.ts with
        rcvBuf := kcp.rcvBuf.link newseg } := if_neg accepted
  rw [inputPush, if_pos inWindow, ← parsed]
  exact if_pos notBehind

theorem ikcpAckPush_sound {sn : UInt32} (ts : UInt32) (sound : kcp.receiver.Sound log done)
    (had : kcp.receiver.Has sn.toNat) : (ikcpAckPush kcp sn ts).receiver.Sound log done := by
  refine ⟨sound.taken, sound.inside, sound.early, sound.ahead, sound.sorted, ?_⟩
  intro ack member
  rcases List.mem_append.mp member with old | new
  · exact sound.acked ack old
  · rw [List.mem_singleton.mp new]
    exact had

variable {newseg : IKCPSEG}

theorem inputPush_linked (small : log.length < 2 ^ 31) (sound : kcp.receiver.Sound log done)
    (found : log[newseg.sn.toNat]? = some newseg.fragment)
    (inWindow : diff newseg.sn (kcp.rcvNxt + kcp.rcvWnd) < 0)
    (ahead : kcp.rcvNxt.toNat ≤ newseg.sn.toNat) :
    Gains log done kcp (inputPush kcp newseg) ∧
      (inputPush kcp newseg).receiver.Has newseg.sn.toNat := by
  obtain ⟨bound, _⟩ := List.getElem?_eq_some_iff.mp found
  have nxtSmall : kcp.rcvNxt.toNat < 2 ^ 31 := Nat.lt_of_le_of_lt sound.inside small
  have notBehind : 0 ≤ diff newseg.sn kcp.rcvNxt := by
    rw [diff_eq_sub (by omega) (by omega)]
    omega
  obtain ⟨held, grown, had⟩ := link_sound small sound found ahead
  have ready := ikcpAckPush_sound newseg.ts held had
  obtain ⟨final, more⟩ := moveAvailable_sound small ready
  -- the list of acknowledgements does not matter here
  have pushed : kcp.receiver.Grows (ikcpAckPush { kcp with rcvBuf := kcp.rcvBuf.link newseg }
      newseg.sn newseg.ts).receiver := ⟨grown.nxt, grown.has⟩
  rw [inputPush_accepts inWindow notBehind]
  exact ⟨⟨final, pushed.trans more, moveAvailable_sender _⟩, more.has _ had⟩

theorem inputPush_gains (small : log.length < 2 ^ 31) (sound : kcp.receiver.Sound log done)
    (found : log[newseg.sn.toNat]? = some newseg.fragment) :
    Gains log done kcp (inputPush kcp newseg) := by
  obtain ⟨bound, _⟩ := List.getElem?_eq_some_iff.mp found
  have nxtSmall : kcp.rcvNxt.toNat < 2 ^ 31 := Nat.lt_of_le_of_lt sound.inside small
  by_cases inWindow : diff newseg.sn (kcp.rcvNxt + kcp.rcvWnd) < 0
  · rcases Nat.lt_or_ge newseg.sn.toNat kcp.rcvNxt.toNat with before | ahead
    · have behind := (diff_neg_iff (Nat.lt_trans bound small) nxtSmall).mpr before
      have only : inputPush kcp newseg = ikcpAckPush kcp newseg.sn newseg.ts := by
        rw [inputPush, if_pos inWindow]
        exact if_neg (Int.not_le.mpr behind)
      rw [only]
      exact ⟨ikcpAckPush_sound newseg.ts sound (Or.inl before),
        ⟨Nat.le_refl _, fun _ had => had⟩, rfl⟩
    · exact (inputPush_linked small sound found inWindow ahead).1
  · rw [inputPush, if_neg inWindow]
    exact ⟨sound, Receiver.Grows.refl _, rfl⟩

end Data

section Acknowledged

variable {log : Log} {has : Nat → Prop}

theorem unaLoop_suffix (una : UInt32) {segs : List IKCPSEG} {queue : SegQueue}
    (all : queue.segs = segs) :
    ∃ dropped, segs = dropped ++ (unaLoop una segs queue).segs ∧
      ∀ seg ∈ dropped, 0 < diff una seg.sn := by
  induction segs generalizing queue with
  | nil => exact ⟨[], all.symm, List.forall_mem_nil _⟩
  | cons seg rest ih =>
      rw [unaLoop]
      split
      · rename_i acknowledged
        have tail : queue.delHead.segs = rest := by rw [SegQueue.delHead_segs, all, List.tail_cons]
        obtain ⟨dropped, split, before⟩ := ih tail
        exact ⟨seg :: dropped, congrArg (seg :: ·) split,
          List.forall_mem_cons.mpr ⟨acknowledged, before⟩⟩
      · exact ⟨[], all.symm, List.forall_mem_nil _⟩

theorem stamps_unaLoop (una : UInt32) (queue : SegQueue) :
    ((unaLoop una queue.segs queue).segs.map IKCPSEG.stamp).Sublist
      (queue.segs.map IKCPSEG.stamp) := by
  obtain ⟨dropped, split, _⟩ := unaLoop_suffix una (rfl : queue.segs = queue.segs)
  apply List.Sublist.map
  exact List.IsSuffix.sublist ⟨dropped, split.symm⟩

theorem ikcpParseUna_sound {una : UInt32} (small : log.length < 2 ^ 31)
    (sound : kcp.sender.Sound log has) (unaSmall : una.toNat < 2 ^ 31)
    (honest : ∀ index < una.toNat, has index) : (ikcpParseUna kcp una).sender.Sound log has := by
  obtain ⟨dropped, split, before⟩ := unaLoop_suffix una (rfl : kcp.sndBuf.segs = kcp.sndBuf.segs)
  apply sound.release (unaLoop una kcp.sndBuf.segs kcp.sndBuf).segs (stamps_unaLoop una kcp.sndBuf)
  intro seg member
  have below : seg.sn.toNat < kcp.sndNxt.toNat := sound.below seg member
  have inside : kcp.sndNxt.toNat ≤ log.length := sound.inside
  have snSmall : seg.sn.toNat < 2 ^ 31 := by omega
  change seg ∈ kcp.sndBuf.segs at member
  rw [split] at member
  rcases List.mem_append.mp member with gone | kept
  · exact Or.inl (honest _ ((diff_pos_iff unaSmall snSmall).mp (before seg gone)))
  · exact Or.inr ⟨seg, kept, rfl⟩

theorem stamps_ackLoop (sn : UInt32) (segs : List IKCPSEG) :
    ((ackLoop sn segs).map IKCPSEG.stamp).Sublist (segs.map IKCPSEG.stamp) := by
  induction segs with
  | nil => exact List.Sublist.refl _
  | cons seg rest ih =>
      rw [ackLoop]
      split
      · exact List.sublist_cons_self _ _
      · exact List.Sublist.cons_cons seg.stamp ih

theorem kept_ackLoop {sn : UInt32} {segs : List IKCPSEG} {seg : IKCPSEG} (member : seg ∈ segs) :
    seg.sn = sn ∨ ∃ other ∈ ackLoop sn segs, other.sn = seg.sn := by
  induction segs with
  | nil => cases member
  | cons first rest ih =>
      rw [ackLoop]
      split
      · rename_i same
        rcases List.mem_cons.mp member with rfl | later
        · exact Or.inl same.symm
        · exact Or.inr ⟨seg, later, rfl⟩
      · rcases List.mem_cons.mp member with rfl | later
        · exact Or.inr ⟨_, List.mem_cons_self, rfl⟩
        · refine (ih later).imp_right ?_
          rintro ⟨other, present, same⟩
          exact ⟨other, List.mem_cons_of_mem _ present, same⟩

theorem ikcpParseAck_sound {sn : UInt32} (sound : kcp.sender.Sound log has)
    (honest : has sn.toNat) : (ikcpParseAck kcp sn).sender.Sound log has := by
  unfold ikcpParseAck
  split
  · exact sound
  · have released := sound.release (ackLoop sn kcp.sndBuf.segs)
      (stamps_ackLoop sn kcp.sndBuf.segs) (by
        intro seg member
        refine (kept_ackLoop member).imp_left ?_
        intro same
        rw [same]
        exact honest)
    simpa only [IKCPCB.sender, SegQueue.ack_segs] using released

theorem ikcpShrinkBuf_sender (kcp : IKCPCB) :
    (ikcpShrinkBuf kcp).sender = { kcp.sender with una := kcp.sender.least } := by
  unfold ikcpShrinkBuf Sender.least IKCPCB.sender
  split <;> rename_i buffered <;> simp only [buffered]

theorem ikcpShrinkBuf_sound (sound : kcp.sender.Sound log has) :
    (ikcpShrinkBuf kcp).sender.Sound log has := by
  rw [ikcpShrinkBuf_sender]
  exact sound.shrink

end Acknowledged

section Segments

/-- What every segment of a datagram does before its command is looked at. -/
def heard (kcp : IKCPCB) (header : Header) : IKCPCB :=
  ikcpShrinkBuf (ikcpParseUna { kcp with rmtWnd := header.wnd.toUInt32 } header.una)

theorem inputSegment_eq (kcp : IKCPCB) (header : Header) (data : List UInt8) :
    inputSegment kcp header data =
      if header.cmd.toUInt32 = IKCP_CMD_ACK then inputAck (heard kcp header) header.ts header.sn
      else if header.cmd.toUInt32 = IKCP_CMD_PUSH then
        inputPush (heard kcp header) (header.segment data)
      else if header.cmd.toUInt32 = IKCP_CMD_WASK then
        { heard kcp header with probe := (heard kcp header).probe ||| IKCP_ASK_TELL }
      else heard kcp header :=
  rfl

theorem released_ikcpShrinkBuf {sender : Sender} {buf : List IKCPSEG}
    (changed : kcp.sender = { sender with buf := buf })
    (stamps : (buf.map IKCPSEG.stamp).Sublist (sender.buf.map IKCPSEG.stamp)) :
    sender.Released (ikcpShrinkBuf kcp).sender := by
  rw [ikcpShrinkBuf_sender, changed]
  exact ⟨rfl, stamps, rfl⟩

theorem released_heard (kcp : IKCPCB) (header : Header) :
    kcp.sender.Released (heard kcp header).sender :=
  released_ikcpShrinkBuf rfl (stamps_unaLoop header.una kcp.sndBuf)

variable {out inn done : Log} {peerHas : Nat → Prop}

/-- Both halves are right: `out` is sent, of `inn` the fragments `done` are taken out,
and the other side has the fragments `peerHas` of `out`. -/
structure HalvesSound (out inn done : Log) (peerHas : Nat → Prop) (kcp : IKCPCB) : Prop where
  sender : kcp.sender.Sound out peerHas
  receiver : kcp.receiver.Sound inn done

/-- Neither half is touched. -/
structure Frame (kcp next : IKCPCB) : Prop where
  sender : next.sender = kcp.sender
  receiver : next.receiver = kcp.receiver

theorem HalvesSound.frame {next : IKCPCB} (right : HalvesSound out inn done peerHas kcp)
    (frame : Frame kcp next) : HalvesSound out inn done peerHas next :=
  ⟨frame.sender ▸ right.sender, frame.receiver ▸ right.receiver⟩

theorem Frame.refl (kcp : IKCPCB) : Frame kcp kcp := ⟨rfl, rfl⟩

theorem Frame.conv {next : IKCPCB} (frame : Frame kcp next) : next.conv = kcp.conv :=
  congrArg Sender.conv frame.sender

theorem Frame.trans {next last : IKCPCB} (first : Frame kcp next) (second : Frame next last) :
    Frame kcp last :=
  ⟨second.sender.trans first.sender, second.receiver.trans first.receiver⟩

theorem frame_ikcpUpdateAck (kcp : IKCPCB) (rtt : Int32) : Frame kcp (ikcpUpdateAck kcp rtt) := by
  unfold ikcpUpdateAck
  dsimp only
  split <;> exact ⟨rfl, rfl⟩

theorem frame_openWindow (kcp : IKCPCB) : Frame kcp (openWindow kcp) := by
  unfold openWindow
  dsimp only
  split <;> exact ⟨rfl, rfl⟩

theorem frame_growWindow (kcp : IKCPCB) : Frame kcp (growWindow kcp) := by
  unfold growWindow
  dsimp only
  split
  · apply (frame_openWindow kcp).trans
    split <;> exact ⟨rfl, rfl⟩
  · exact Frame.refl kcp

theorem ikcpShrinkBuf_receiver (kcp : IKCPCB) : (ikcpShrinkBuf kcp).receiver = kcp.receiver := by
  unfold ikcpShrinkBuf
  split <;> rfl

theorem ikcpParseAck_receiver (kcp : IKCPCB) (sn : UInt32) :
    (ikcpParseAck kcp sn).receiver = kcp.receiver := by
  unfold ikcpParseAck
  split <;> rfl

theorem inputAck_receiver (kcp : IKCPCB) (ts sn : UInt32) :
    (inputAck kcp ts sn).receiver = kcp.receiver := by
  unfold inputAck
  dsimp only
  rw [ikcpShrinkBuf_receiver, ikcpParseAck_receiver]
  split
  · exact (frame_ikcpUpdateAck kcp _).receiver
  · rfl

theorem inputAck_sound (ts : UInt32) {sn : UInt32} (right : HalvesSound out inn done peerHas kcp)
    (honest : peerHas sn.toNat) : HalvesSound out inn done peerHas (inputAck kcp ts sn) := by
  have receiver := inputAck_receiver kcp ts sn
  refine ⟨?_, receiver ▸ right.receiver⟩
  unfold inputAck
  dsimp only
  apply ikcpShrinkBuf_sound
  apply ikcpParseAck_sound _ honest
  split
  · exact (right.frame (frame_ikcpUpdateAck kcp _)).sender
  · exact right.sender

theorem released_inputAck (kcp : IKCPCB) (ts sn : UInt32) :
    kcp.sender.Released (inputAck kcp ts sn).sender := by
  have parsed : ∀ next : IKCPCB, next.sender = kcp.sender →
      kcp.sender.Released (ikcpShrinkBuf (ikcpParseAck next sn)).sender := by
    intro next same
    rw [← same]
    unfold ikcpParseAck
    split
    · exact released_ikcpShrinkBuf rfl (List.Sublist.refl _)
    · apply released_ikcpShrinkBuf rfl
      rw [SegQueue.ack_segs]
      exact stamps_ackLoop sn next.sndBuf.segs
  unfold inputAck
  dsimp only
  split
  · exact parsed _ (frame_ikcpUpdateAck kcp _).sender
  · exact parsed kcp rfl

theorem inputSegment_released (kcp : IKCPCB) (header : Header) (data : List UInt8) :
    (heard kcp header).sender.Released (inputSegment kcp header data).sender := by
  have same := Sender.Released.refl (released_heard kcp header).tight
  rw [inputSegment_eq]
  split
  · exact released_inputAck _ header.ts header.sn
  · split
    · rw [inputPush_sender]
      exact same
    · split <;> exact same

theorem released_inputSegment (kcp : IKCPCB) (header : Header) (data : List UInt8) :
    kcp.sender.Released (inputSegment kcp header data).sender :=
  (released_heard kcp header).trans (inputSegment_released kcp header data)

theorem inputSegment_conv (kcp : IKCPCB) (header : Header) (data : List UInt8) :
    (inputSegment kcp header data).conv = kcp.conv :=
  congrArg Sender.conv (released_inputSegment kcp header data).same

theorem header_cmd {seg : IKCPSEG} (known : knownCommand seg.cmd) :
    seg.header.cmd.toUInt32 = seg.cmd := by
  change seg.cmd.toUInt8.toUInt32 = seg.cmd
  rcases known with cmd | cmd | cmd | cmd <;> rw [cmd] <;> decide

theorem header_segment_fragment {seg : IKCPSEG} (small : seg.frg.toNat < 256) :
    (seg.header.segment seg.data).fragment = seg.fragment := by
  change (seg.frg.toUInt8.toUInt32.toNat, seg.data) = (seg.frg.toNat, seg.data)
  rw [UInt8.toNat_toUInt32, UInt32.toNat_toUInt8, Nat.mod_eq_of_lt small]

theorem heard_receiver (kcp : IKCPCB) (header : Header) :
    (heard kcp header).receiver = kcp.receiver :=
  ikcpShrinkBuf_receiver _

structure Advances (out inn done : Log) (peerHas : Nat → Prop) (kcp next : IKCPCB) : Prop where
  right : HalvesSound out inn done peerHas next
  grows : kcp.receiver.Grows next.receiver
  conv : next.conv = kcp.conv

/-- What one honest segment leaves right, whatever its command. -/
theorem inputSegment_sound {seg : IKCPSEG} (outSmall : out.length < 2 ^ 31)
    (innSmall : inn.length < 2 ^ 31) (right : HalvesSound out inn done peerHas kcp)
    (honest : Honest kcp.conv inn peerHas seg) :
    Advances out inn done peerHas kcp (inputSegment kcp seg.header seg.data) := by
  have receiver := heard_receiver kcp seg.header
  have start : HalvesSound out inn done peerHas (heard kcp seg.header) := by
    have sender : { kcp with rmtWnd := seg.header.wnd.toUInt32 }.sender.Sound out peerHas :=
      right.sender
    exact ⟨ikcpShrinkBuf_sound (ikcpParseUna_sound outSmall sender honest.unaSmall honest.una),
      receiver ▸ right.receiver⟩
  suffices halves : HalvesSound out inn done peerHas (inputSegment kcp seg.header seg.data) ∧
      kcp.receiver.Grows (inputSegment kcp seg.header seg.data).receiver from
    ⟨halves.1, halves.2, inputSegment_conv kcp seg.header seg.data⟩
  rw [inputSegment_eq, header_cmd honest.known]
  split
  · rename_i acked
    refine ⟨inputAck_sound seg.ts start (honest.ack acked), ?_⟩
    rw [inputAck_receiver, receiver]
    exact Receiver.Grows.refl _
  · split
    · rename_i pushed
      have found : inn[(seg.header.segment seg.data).sn.toNat]? =
          some (seg.header.segment seg.data).fragment := by
        rw [header_segment_fragment honest.frg]
        exact honest.push pushed
      have gains := inputPush_gains innSmall start.receiver found
      exact ⟨⟨gains.sender ▸ start.sender, gains.sound⟩, receiver ▸ gains.grows⟩
    · have same : kcp.receiver.Grows (heard kcp seg.header).receiver :=
        receiver ▸ Receiver.Grows.refl _
      split
      · exact ⟨⟨start.sender, start.receiver⟩, same⟩
      · exact ⟨start, same⟩

end Segments

section Datagrams

/-- Bytes that are segments of a kind, one after the other. -/
def Carries (good : IKCPSEG → Prop) (data : List UInt8) : Prop :=
  ∃ segs : List IKCPSEG, data = segs.flatMap IKCPSEG.wire ∧ ∀ seg ∈ segs, good seg

theorem Carries.nil (good : IKCPSEG → Prop) : Carries good [] := ⟨[], rfl, List.forall_mem_nil _⟩

theorem Carries.append {good : IKCPSEG → Prop} {data : List UInt8} {seg : IKCPSEG}
    (carries : Carries good data) (last : good seg) : Carries good (data ++ seg.wire) := by
  obtain ⟨segs, rfl, all⟩ := carries
  refine ⟨segs ++ [seg], ?_, ?_⟩
  · rw [List.flatMap_append, List.flatMap_singleton]
  · exact List.forall_mem_append.mpr ⟨all, List.forall_mem_singleton.mpr last⟩

theorem Carries.imp {good better : IKCPSEG → Prop} {data : List UInt8} (carries : Carries good data)
    (implies : ∀ seg, good seg → better seg) : Carries better data := by
  obtain ⟨segs, rfl, all⟩ := carries
  exact ⟨segs, rfl, fun seg member => implies seg (all seg member)⟩

/-- A segment that `ikcp_input` takes in a conversation. -/
structure Legible (conv : UInt32) (seg : IKCPSEG) : Prop where
  conv : seg.conv = conv
  known : knownCommand seg.cmd
  len : seg.data.length < 2 ^ 32

def inputSegments (kcp : IKCPCB) (segs : List IKCPSEG) : IKCPCB :=
  segs.foldl (fun kcp seg => inputSegment kcp seg.header seg.data) kcp

theorem inputLoop_append_wire {seg : IKCPSEG} (legible : Legible kcp.conv seg) (fuel : Nat)
    (rest : List UInt8) :
    inputLoop (fuel + 1) kcp (seg.wire ++ rest) =
      inputLoop fuel (inputSegment kcp seg.header seg.data) rest := by
  obtain ⟨conv, known, short⟩ := legible
  have bytes : seg.wire ++ rest = ikcpEncodeSeg seg ++ (seg.data ++ rest) := by
    rw [IKCPSEG.wire, List.append_assoc]
  have whole : ¬ (ikcpEncodeSeg seg ++ (seg.data ++ rest)).length < IKCP_OVERHEAD := by
    rw [List.length_append, length_ikcpEncodeSeg]
    omega
  have len : seg.header.len.toNat = seg.data.length := UInt32.toNat_ofNat_of_lt' short
  have room : ¬ (seg.data ++ rest).length < seg.data.length := by
    rw [List.length_append]
    omega
  have accepted : ¬ ¬ knownCommand seg.header.cmd.toUInt32 := by
    rw [header_cmd known]
    exact not_not.mpr known
  have sameConv : ¬ seg.header.conv ≠ kcp.conv := not_not.mpr conv
  rw [bytes, inputLoop, if_neg whole, decodeHeader_encodeSeg]
  simp only [len, if_neg room, if_neg accepted, if_neg sameConv, List.take_left, List.drop_left]

/-- Why the loop of `ikcp_input` ends in front of `data`, and what the call returns. -/
inductive Stops (conv : UInt32) (data : List UInt8) : Int → Prop where
  | short (few : data.length < IKCP_OVERHEAD) : Stops conv data 0
  | foreign (header : Header) (rest : List UInt8) (long : IKCP_OVERHEAD ≤ data.length)
      (decoded : decodeHeader data = some (header, rest)) (other : header.conv ≠ conv) :
      Stops conv data (-1)
  | cut (header : Header) (rest : List UInt8) (long : IKCP_OVERHEAD ≤ data.length)
      (decoded : decodeHeader data = some (header, rest)) (same : header.conv = conv)
      (few : rest.length < header.len.toNat) : Stops conv data (-2)
  | unknown (header : Header) (rest : List UInt8) (long : IKCP_OVERHEAD ≤ data.length)
      (decoded : decodeHeader data = some (header, rest)) (same : header.conv = conv)
      (whole : header.len.toNat ≤ rest.length) (strange : ¬ knownCommand header.cmd.toUInt32) :
      Stops conv data (-3)

theorem Stops.nonpos {conv : UInt32} {data : List UInt8} {code : Int}
    (stops : Stops conv data code) : code ≤ 0 := by
  cases stops <;> decide

theorem Stops.nil (conv : UInt32) : Stops conv [] 0 := .short (by decide)

theorem inputLoop_of_stops {data : List UInt8} {code : Int} (stops : Stops kcp.conv data code)
    (fuel : Nat) : inputLoop (fuel + 1) kcp data = some (kcp, code) := by
  rw [inputLoop]
  cases stops with
  | short few => rw [if_pos few]
  | foreign header rest long decoded other =>
      simp only [if_neg (Nat.not_lt.mpr long), decoded, if_pos other]
  | cut header rest long decoded same few =>
      simp only [if_neg (Nat.not_lt.mpr long), decoded, if_neg (not_not.mpr same), if_pos few]
  | unknown header rest long decoded same whole strange =>
      simp only [if_neg (Nat.not_lt.mpr long), decoded, if_neg (not_not.mpr same),
        if_neg (Nat.not_lt.mpr whole), if_pos strange]

theorem inputLoop_segments {segs : List IKCPSEG} {tail : List UInt8} {code : Int} {fuel : Nat}
    (enough : (segs.flatMap IKCPSEG.wire ++ tail).length < fuel)
    (legible : ∀ seg ∈ segs, Legible kcp.conv seg) (stops : Stops kcp.conv tail code) :
    inputLoop fuel kcp (segs.flatMap IKCPSEG.wire ++ tail) =
      some (inputSegments kcp segs, code) := by
  induction segs generalizing fuel kcp with
  | nil =>
      cases fuel with
      | zero => exact absurd enough (Nat.not_lt_zero _)
      | succ fuel => exact inputLoop_of_stops stops fuel
  | cons seg rest ih =>
      cases fuel with
      | zero => exact absurd enough (Nat.not_lt_zero _)
      | succ fuel =>
          obtain ⟨first, later⟩ := List.forall_mem_cons.mp legible
          rw [List.flatMap_cons, List.append_assoc] at enough ⊢
          rw [List.length_append, length_wire] at enough
          rw [inputLoop_append_wire first]
          have same := inputSegment_conv kcp seg.header seg.data
          apply ih
          · unfold IKCP_OVERHEAD at enough
            omega
          · rw [same]
            exact later
          · rw [same]
            exact stops

/-- `ikcp_input` does with written segments what they do one after the other, up to where
it stops; the congestion window may grow where all has been taken. -/
theorem ikcpInput_segments {segs : List IKCPSEG} {tail : List UInt8} {code : Int}
    (enough : 4 ≤ (segs.flatMap IKCPSEG.wire ++ tail).length)
    (legible : ∀ seg ∈ segs, Legible kcp.conv seg) (stops : Stops kcp.conv tail code) :
    let last := inputSegments kcp segs
    ikcpInput kcp (segs.flatMap IKCPSEG.wire ++ tail) =
      some (if code = 0 ∧ 0 < diff last.sndUna kcp.sndUna then growWindow last else last, code) :=
  ikcpInput_of_inputLoop enough (inputLoop_segments (Nat.lt_succ_self _) legible stops) stops.nonpos

theorem four_le_wire (seg : IKCPSEG) (rest : List UInt8) : 4 ≤ (seg.wire ++ rest).length := by
  rw [List.length_append, length_wire]
  unfold IKCP_OVERHEAD
  omega

theorem ikcpInput_wire {segs : List IKCPSEG} (nonempty : segs ≠ [])
    (legible : ∀ seg ∈ segs, Legible kcp.conv seg) :
    let last := inputSegments kcp segs
    ikcpInput kcp (segs.flatMap IKCPSEG.wire) =
      some (if 0 < diff last.sndUna kcp.sndUna then growWindow last else last, 0) := by
  have enough : 4 ≤ (segs.flatMap IKCPSEG.wire ++ []).length := by
    cases segs with
    | nil => exact absurd rfl nonempty
    | cons seg rest =>
        rw [List.append_nil, List.flatMap_cons]
        exact four_le_wire seg _
  have taken := ikcpInput_segments enough legible (.nil kcp.conv)
  simpa only [List.append_nil, true_and] using taken

variable {out inn done : Log} {peerHas : Nat → Prop}

theorem Honest.legible {conv : UInt32} {log : Log} {has : Nat → Prop} {seg : IKCPSEG}
    (honest : Honest conv log has seg) : Legible conv seg := ⟨honest.conv, honest.known, honest.len⟩

theorem inputSegments_preserves (holds : List IKCPSEG → IKCPCB → Prop)
    (outSmall : out.length < 2 ^ 31) (innSmall : inn.length < 2 ^ 31)
    (segment : ∀ kcp seg rest, HalvesSound out inn done peerHas kcp → Honest kcp.conv inn peerHas seg →
      holds (seg :: rest) kcp → holds rest (inputSegment kcp seg.header seg.data))
    {segs : List IKCPSEG} (right : HalvesSound out inn done peerHas kcp)
    (all : ∀ seg ∈ segs, Honest kcp.conv inn peerHas seg) (held : holds segs kcp) :
    HalvesSound out inn done peerHas (inputSegments kcp segs) ∧ holds [] (inputSegments kcp segs) := by
  induction segs generalizing kcp with
  | nil => exact ⟨right, held⟩
  | cons seg rest ih =>
      obtain ⟨honest, later⟩ := List.forall_mem_cons.mp all
      have next := inputSegment_sound outSmall innSmall right honest
      apply ih next.right
      · rw [next.conv]
        exact later
      · exact segment kcp seg rest right honest held

theorem ikcpInput_honest (holds : List IKCPSEG → IKCPCB → Prop)
    (outSmall : out.length < 2 ^ 31) (innSmall : inn.length < 2 ^ 31)
    (segment : ∀ kcp seg rest, HalvesSound out inn done peerHas kcp → Honest kcp.conv inn peerHas seg →
      holds (seg :: rest) kcp → holds rest (inputSegment kcp seg.header seg.data))
    (growth : ∀ kcp, holds [] kcp → holds [] (growWindow kcp))
    {segs : List IKCPSEG} (nonempty : segs ≠ []) (right : HalvesSound out inn done peerHas kcp)
    (all : ∀ seg ∈ segs, Honest kcp.conv inn peerHas seg) (held : holds segs kcp) :
    ∃ final, ikcpInput kcp (segs.flatMap IKCPSEG.wire) = some (final, 0) ∧
      HalvesSound out inn done peerHas final ∧ holds [] final := by
  obtain ⟨last, kept⟩ := inputSegments_preserves holds outSmall innSmall segment right all held
  have taken := ikcpInput_wire nonempty (fun seg member => (all seg member).legible)
  refine ⟨_, taken, ?_⟩
  split
  · exact ⟨last.frame (frame_growWindow _), growth _ kept⟩
  · exact ⟨last, kept⟩

/-- A datagram of honest segments is taken whole and leaves both halves right. -/
theorem ikcpInput_sound {segs : List IKCPSEG} (outSmall : out.length < 2 ^ 31)
    (innSmall : inn.length < 2 ^ 31) (right : HalvesSound out inn done peerHas kcp)
    (all : ∀ seg ∈ segs, Honest kcp.conv inn peerHas seg) (nonempty : segs ≠ []) :
    ∃ final, ikcpInput kcp (segs.flatMap IKCPSEG.wire) = some (final, 0) ∧
      Advances out inn done peerHas kcp final := by
  obtain ⟨final, taken, held, grown, conv⟩ := ikcpInput_honest
    (fun _ next => kcp.receiver.Grows next.receiver ∧ next.conv = kcp.conv) outSmall innSmall
    (by
      rintro next seg rest right honest ⟨grown, same⟩
      have advances := inputSegment_sound outSmall innSmall right honest
      exact ⟨grown.trans advances.grows, advances.conv.trans same⟩)
    (by
      rintro next ⟨grown, same⟩
      have frame := frame_growWindow next
      rw [frame.receiver]
      exact ⟨grown, frame.conv.trans same⟩)
    nonempty right all ⟨Receiver.Grows.refl _, rfl⟩
  exact ⟨final, taken, held, grown, conv⟩

end Datagrams

end TalkingTime.Kcp

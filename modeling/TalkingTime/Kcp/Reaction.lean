import TalkingTime.Kcp.Bounds

/-! How one side reacts to what it gets and to its own clock: what a segment makes it
keep, say or forget, and what it sends when it is time. -/

namespace TalkingTime.Kcp

open Serial

variable {kcp final : IKCPCB} {datagrams : List (List UInt8)}

section Stopped

variable {receiver : Receiver} {log done : Log}

/-- The segment that is next in order is not left in `rcv_buf` while there is room. -/
def Receiver.Stopped (receiver : Receiver) : Prop :=
  ∀ seg ∈ receiver.buf.head?, seg.sn = receiver.nxt → receiver.wnd.toNat ≤ receiver.queue.length

theorem stopped_moveAvailable (kcp : IKCPCB) : (moveAvailable kcp).receiver.Stopped := by
  intro seg head next
  have full := UInt32.le_iff_toNat_le.mp (moveAvailable_stops kcp seg head next)
  have count : (moveAvailable kcp).rcvQueue.count.toNat ≤
      (moveAvailable kcp).rcvQueue.segs.length := by
    rw [(moveAvailable kcp).rcvQueue.counted, UInt32.toNat_ofNat']
    exact Nat.mod_le _ _
  exact Nat.le_trans full count

theorem Receiver.Sound.head_of_has (sound : receiver.Sound log done)
    (has : receiver.Has receiver.nxt.toNat) : ∃ seg ∈ receiver.buf.head?, seg.sn = receiver.nxt := by
  rcases has with before | ⟨seg, member, number⟩
  · exact absurd before (Nat.lt_irrefl _)
  · cases buffered : receiver.buf with
    | nil =>
        rw [buffered] at member
        cases member
    | cons first rest =>
        have present : first ∈ receiver.buf := buffered ▸ List.mem_cons_self
        have notBefore := sound.ahead first present
        have order := sound.sorted
        rw [buffered, Ascending, List.pairwise_cons] at order
        rw [buffered] at member
        have notAfter : first.sn.toNat ≤ seg.sn.toNat := by
          rcases List.mem_cons.mp member with rfl | later
          · exact Nat.le_refl _
          · exact Nat.le_of_lt (order.1 seg later)
        refine ⟨first, by rw [List.head?_cons]; exact rfl, ?_⟩
        apply UInt32.toNat_inj.mp
        omega

end Stopped

section NoUserChange

variable {before middle after : Receiver}

/-- A receiver has moved on until it stopped, or it is the same but for what it has
still to acknowledge. -/
def Receiver.Settles (before after : Receiver) : Prop :=
  after.Stopped ∨ ∃ acks, after = { before with acks := acks }

theorem Receiver.Settles.refl (receiver : Receiver) : receiver.Settles receiver :=
  Or.inr ⟨receiver.acks, rfl⟩

theorem Receiver.Settles.trans (first : before.Settles middle) (second : middle.Settles after) :
    before.Settles after := by
  rcases second with stopped | ⟨acks, rfl⟩
  · exact Or.inl stopped
  · rcases first with stopped | ⟨old, rfl⟩
    · exact Or.inl stopped
    · exact Or.inr ⟨acks, rfl⟩

/-- What the calls preserve that neither send a message nor change a setting. -/
structure NoUserChange (kcp next : IKCPCB) : Prop where
  rcvWnd : next.rcvWnd = kcp.rcvWnd
  settles : kcp.receiver.Settles next.receiver
  queue : next.sndQueue.segs.length ≤ kcp.sndQueue.segs.length

theorem NoUserChange.refl (kcp : IKCPCB) : NoUserChange kcp kcp :=
  ⟨rfl, Receiver.Settles.refl _, Nat.le_refl _⟩

theorem NoUserChange.trans {next last : IKCPCB} (first : NoUserChange kcp next)
    (second : NoUserChange next last) :
    NoUserChange kcp last :=
  ⟨second.rcvWnd.trans first.rcvWnd, first.settles.trans second.settles,
    Nat.le_trans second.queue first.queue⟩

theorem NoUserChange.of_receiver {next : IKCPCB} (receiver : next.receiver = kcp.receiver)
    (queue : next.sndQueue.segs.length ≤ kcp.sndQueue.segs.length) : NoUserChange kcp next := by
  refine ⟨congrArg Receiver.wnd receiver, ?_, queue⟩
  rw [receiver]
  exact Receiver.Settles.refl _

theorem Frame.noUserChange {next : IKCPCB} (frame : Frame kcp next) : NoUserChange kcp next := by
  have queue : next.sndQueue.segs = kcp.sndQueue.segs := congrArg Sender.queue frame.sender
  exact NoUserChange.of_receiver frame.receiver (Nat.le_of_eq (congrArg List.length queue))

theorem noUserChange_inputPush (kcp : IKCPCB) (newseg : IKCPSEG) :
    NoUserChange kcp (inputPush kcp newseg) := by
  have window : (inputPush kcp newseg).rcvWnd = kcp.rcvWnd :=
    congrArg Settings.rcvWnd (settings_inputPush kcp newseg)
  have queue : (inputPush kcp newseg).sndQueue.segs = kcp.sndQueue.segs :=
    congrArg Sender.queue (inputPush_sender kcp newseg)
  refine ⟨window, ?_, Nat.le_of_eq (congrArg List.length queue)⟩
  unfold inputPush
  split
  · dsimp only
    split
    · unfold ikcpParseData
      dsimp only
      split
      · exact Or.inr ⟨_, rfl⟩
      · exact Or.inl (stopped_moveAvailable _)
    · exact Or.inr ⟨_, rfl⟩
  · exact Receiver.Settles.refl _

theorem noUserChange_inputSegment (kcp : IKCPCB) (header : Header) (data : List UInt8) :
    NoUserChange kcp (inputSegment kcp header data) := by
  have receiver := heard_receiver kcp header
  have queue : (inputSegment kcp header data).sndQueue.segs = kcp.sndQueue.segs :=
    congrArg Sender.queue (released_inputSegment kcp header data).same
  have window : (inputSegment kcp header data).rcvWnd = kcp.rcvWnd := by
    obtain ⟨_, settings, _⟩ := settings_inputSegment kcp header data
    exact congrArg Settings.rcvWnd settings
  refine ⟨window, ?_, Nat.le_of_eq (congrArg List.length queue)⟩
  rw [← receiver, inputSegment_eq]
  split
  · rw [inputAck_receiver]
    exact Receiver.Settles.refl _
  · split
    · exact (noUserChange_inputPush _ _).settles
    · split <;> exact Receiver.Settles.refl _

theorem noUserChange_ikcpInput {data : List UInt8} {code : Int}
    (taken : ikcpInput kcp data = some (final, code)) : NoUserChange kcp final := by
  apply ikcpInput_preserves _ _ (NoUserChange.refl kcp) taken
  · exact fun next header rest held => held.trans (noUserChange_inputSegment next header rest)
  · exact fun next unchanged => unchanged.trans (frame_growWindow next).noUserChange

theorem noUserChange_ikcpRecv (kcp : IKCPCB) (len : Int32) :
    NoUserChange kcp (ikcpRecv kcp len).1 := by
  have window : (ikcpRecv kcp len).1.rcvWnd = kcp.rcvWnd :=
    congrArg Settings.rcvWnd (settings_ikcpRecv kcp len)
  have queue : (ikcpRecv kcp len).1.sndQueue.segs = kcp.sndQueue.segs :=
    congrArg Sender.queue (ikcpRecv_sender kcp len)
  refine ⟨window, ?_, Nat.le_of_eq (congrArg List.length queue)⟩
  have same := Receiver.Settles.refl kcp.receiver
  unfold ikcpRecv
  dsimp only
  split
  · exact same
  · split
    · exact same
    · split
      · exact same
      · unfold recvMessage
        dsimp only
        split <;> exact Or.inl (stopped_moveAvailable _)

theorem AfterFlush.noUserChange (left : AfterFlush kcp final) : NoUserChange kcp final := by
  obtain ⟨_, _, _, _, _, _, fewer⟩ := numbered_frame (ikcpWndUnused kcp) (quieted kcp)
  have quiet : (quieted kcp).sndQueue.segs = kcp.sndQueue.segs :=
    congrArg Sender.queue (quieted_frame kcp).1.sender
  refine ⟨congrArg Settings.rcvWnd left.settings, Or.inr ⟨[], left.receiver⟩, ?_⟩
  · rw [left.queue, ← quiet]
    exact fewer

theorem noUserChange_ikcpFlush (flushed : ikcpFlush kcp = some (final, datagrams)) :
    NoUserChange kcp final := by
  by_cases started : kcp.updated = 0
  · rw [ikcpFlush, if_pos started] at flushed
    cases flushed
    exact NoUserChange.refl kcp
  · exact (ikcpFlush_leaves started flushed).2.noUserChange

theorem noUserChange_ikcpUpdate {current : UInt32}
    (updated : ikcpUpdate kcp current = some (final, datagrams)) : NoUserChange kcp final := by
  obtain ⟨started, tsFlush, _, cases⟩ := ikcpUpdate_cases kcp current
  have timed :
      NoUserChange kcp { kcp with current := current, updated := started, tsFlush := tsFlush } :=
    ⟨rfl, Receiver.Settles.refl _, Nat.le_refl _⟩
  rcases cases with flushes | ⟨idle, _⟩
  · rw [updated] at flushes
    exact timed.trans (noUserChange_ikcpFlush flushes.symm)
  · rw [updated] at idle
    cases idle
    exact timed

end NoUserChange

section Input

variable {out inn done : Log} {peerHas : Nat → Prop} {seg : IKCPSEG} {segs : List IKCPSEG}

theorem inputPush_has {newseg : IKCPSEG} (small : inn.length < 2 ^ 31)
    (sound : kcp.receiver.Sound inn done) (window : IsWindow kcp.rcvWnd)
    (found : inn[newseg.sn.toNat]? = some newseg.fragment)
    (notAhead : newseg.sn.toNat ≤ kcp.rcvNxt.toNat) :
    (inputPush kcp newseg).receiver.Has newseg.sn.toNat := by
  rcases Nat.lt_or_eq_of_le notAhead with before | same
  · exact (inputPush_gains small sound found).grows.has _ (Or.inl before)
  · have next : newseg.sn = kcp.rcvNxt := UInt32.toNat_inj.mp same
    have inWindow : diff newseg.sn (kcp.rcvNxt + kcp.rcvWnd) < 0 := by
      rw [next]
      exact diff_add_neg window.1 window.2
    exact (inputPush_linked small sound found inWindow (Nat.le_of_eq same.symm)).2

theorem inputSegment_has (innSmall : inn.length < 2 ^ 31) (right : HalvesSound out inn done peerHas kcp)
    (honest : Honest kcp.conv inn peerHas seg) (pushed : seg.cmd = IKCP_CMD_PUSH)
    (window : IsWindow kcp.rcvWnd) (notAhead : seg.sn.toNat ≤ kcp.rcvNxt.toNat) :
    (inputSegment kcp seg.header seg.data).receiver.Has seg.sn.toNat := by
  have receiver := heard_receiver kcp seg.header
  have same : (heard kcp seg.header).rcvWnd = kcp.rcvWnd := congrArg Receiver.wnd receiver
  have nxt : (heard kcp seg.header).rcvNxt = kcp.rcvNxt := congrArg Receiver.nxt receiver
  have found : inn[(seg.header.segment seg.data).sn.toNat]? =
      some (seg.header.segment seg.data).fragment := by
    rw [header_segment_fragment honest.frg]
    exact honest.push pushed
  have segment : inputSegment kcp seg.header seg.data =
      inputPush (heard kcp seg.header) (seg.header.segment seg.data) := by
    rw [inputSegment_eq, header_cmd honest.known, pushed]
    rfl
  rw [segment]
  exact inputPush_has innSmall (receiver ▸ right.receiver) (same ▸ window) found (nxt ▸ notAhead)

theorem ikcpInput_has (outSmall : out.length < 2 ^ 31) (innSmall : inn.length < 2 ^ 31)
    (right : HalvesSound out inn done peerHas kcp) (all : ∀ seg ∈ segs, Honest kcp.conv inn peerHas seg)
    (member : seg ∈ segs) (pushed : seg.cmd = IKCP_CMD_PUSH) (window : IsWindow kcp.rcvWnd)
    (notAhead : seg.sn.toNat ≤ kcp.rcvNxt.toNat) :
    ∃ final, ikcpInput kcp (segs.flatMap IKCPSEG.wire) = some (final, 0) ∧
      final.receiver.Has seg.sn.toNat := by
  obtain ⟨final, taken, _, _, _, arrived⟩ := ikcpInput_honest
    (fun left next => next.rcvWnd = kcp.rcvWnd ∧ kcp.receiver.Grows next.receiver ∧
      (seg ∈ left ∨ next.receiver.Has seg.sn.toNat)) outSmall innSmall
    (by
      rintro next other rest right honest ⟨same, grown, arrives⟩
      have advances := inputSegment_sound outSmall innSmall right honest
      have unchanged := noUserChange_inputSegment next other.header other.data
      refine ⟨unchanged.rcvWnd.trans same, grown.trans advances.grows, ?_⟩
      rcases arrives with ahead | had
      · rcases List.mem_cons.mp ahead with rfl | later
        · have reached : seg.sn.toNat ≤ next.rcvNxt.toNat := Nat.le_trans notAhead grown.nxt
          exact Or.inr (inputSegment_has innSmall right honest pushed (same ▸ window) reached)
        · exact Or.inl later
      · exact Or.inr (advances.grows.has _ had))
    (by
      rintro next ⟨same, grown, arrives⟩
      have frame := frame_growWindow next
      refine ⟨frame.noUserChange.rcvWnd.trans same, ?_, ?_⟩
      · rw [frame.receiver]
        exact grown
      · rw [frame.receiver]
        exact arrives)
    (List.ne_nil_of_mem member) right all ⟨rfl, Receiver.Grows.refl _, Or.inl member⟩
  exact ⟨final, taken, arrived.resolve_left List.not_mem_nil⟩

end Input

section Speaking

variable {out inn done : Log} {peerHas : Nat → Prop} {seg : IKCPSEG} {segs : List IKCPSEG}

/-- The next flush has something to say: an acknowledgement, or the window that was
asked for. -/
def Speaks (kcp : IKCPCB) : Prop := kcp.acklist ≠ [] ∨ kcp.probe &&& IKCP_ASK_TELL ≠ 0

def Prompts (nxt : Nat) (seg : IKCPSEG) : Prop :=
  seg.cmd = IKCP_CMD_WASK ∨ seg.cmd = IKCP_CMD_PUSH ∧ seg.sn.toNat < nxt

theorem or_and_self (probe ask : UInt32) : (probe ||| ask) &&& ask = ask := by
  apply UInt32.toBitVec_inj.mp
  ext index bound
  simpa using Or.inr

theorem tell_of_or (probe : UInt32) : (probe ||| IKCP_ASK_TELL) &&& IKCP_ASK_TELL ≠ 0 := by
  rw [or_and_self]
  decide

structure Hears (kcp next : IKCPCB) : Prop where
  acks : kcp.acklist <+: next.acklist
  probe : next.probe = kcp.probe ∨ next.probe = kcp.probe ||| IKCP_ASK_TELL

theorem Hears.of_eq {next : IKCPCB} (acks : next.acklist = kcp.acklist)
    (probe : next.probe = kcp.probe) : Hears kcp next :=
  ⟨acks ▸ List.prefix_refl _, Or.inl probe⟩

theorem Speaks.hears {next : IKCPCB} (speaks : Speaks kcp) (hears : Hears kcp next) :
    Speaks next := by
  rcases speaks with acked | asked
  · left
    intro none
    have acks := hears.acks
    rw [none] at acks
    exact acked (List.prefix_nil.mp acks)
  · right
    rcases hears.probe with same | told
    · rw [same]
      exact asked
    · rw [told]
      exact tell_of_or kcp.probe

theorem hears_moveAvailable (kcp : IKCPCB) : (moveAvailable kcp).acklist = kcp.acklist ∧
    (moveAvailable kcp).probe = kcp.probe := by
  apply moveAvailable_preserves
    (fun moved => moved.acklist = kcp.acklist ∧ moved.probe = kcp.probe) _ ⟨rfl, rfl⟩
  exact fun moved seg rest same _ _ _ => same

theorem heard_probe (kcp : IKCPCB) (header : Header) : (heard kcp header).probe = kcp.probe := by
  unfold heard ikcpShrinkBuf
  split <;> rfl

theorem inputAck_probe (kcp : IKCPCB) (ts sn : UInt32) :
    (inputAck kcp ts sn).probe = kcp.probe := by
  have shrink : ∀ next : IKCPCB, (ikcpShrinkBuf next).probe = next.probe := by
    intro next
    unfold ikcpShrinkBuf
    split <;> rfl
  have parse : ∀ next : IKCPCB, (ikcpParseAck next sn).probe = next.probe := by
    intro next
    unfold ikcpParseAck
    split <;> rfl
  have timed : ∀ rtt, (ikcpUpdateAck kcp rtt).probe = kcp.probe := by
    intro rtt
    unfold ikcpUpdateAck
    dsimp only
    split <;> rfl
  unfold inputAck
  dsimp only
  rw [shrink, parse]
  split
  · exact timed _
  · rfl

theorem inputPush_voice (kcp : IKCPCB) (newseg : IKCPSEG) :
    (inputPush kcp newseg).probe = kcp.probe ∧ (inputPush kcp newseg).acklist =
      if diff newseg.sn (kcp.rcvNxt + kcp.rcvWnd) < 0 then kcp.acklist ++ [(newseg.sn, newseg.ts)]
      else kcp.acklist := by
  unfold inputPush
  split
  · dsimp only
    split
    · unfold ikcpParseData
      dsimp only
      split
      · exact ⟨rfl, rfl⟩
      · exact ⟨(hears_moveAvailable _).2, (hears_moveAvailable _).1⟩
    · exact ⟨rfl, rfl⟩
  · exact ⟨rfl, rfl⟩

theorem hears_inputSegment (kcp : IKCPCB) (header : Header) (data : List UInt8) :
    Hears kcp (inputSegment kcp header data) := by
  have acks : (heard kcp header).acklist = kcp.acklist :=
    congrArg Receiver.acks (heard_receiver kcp header)
  have probe := heard_probe kcp header
  rw [inputSegment_eq]
  split
  · have same := inputAck_receiver (heard kcp header) header.ts header.sn
    exact Hears.of_eq ((congrArg Receiver.acks same).trans acks)
      ((inputAck_probe _ _ _).trans probe)
  · split
    · obtain ⟨same, pushed⟩ := inputPush_voice (heard kcp header) (header.segment data)
      refine ⟨?_, Or.inl (same.trans probe)⟩
      rw [pushed, acks]
      split
      · exact List.prefix_append _ _
      · exact List.prefix_refl _
    · split
      · refine ⟨acks ▸ List.prefix_refl _, Or.inr ?_⟩
        change (heard kcp header).probe ||| IKCP_ASK_TELL = _
        rw [probe]
      · exact Hears.of_eq acks probe

theorem inputSegment_speaks (kcp : IKCPCB) (known : knownCommand seg.cmd)
    (near : kcp.rcvNxt.toNat + kcp.rcvWnd.toNat < 2 ^ 31)
    (prompts : Prompts kcp.rcvNxt.toNat seg) :
    Speaks (inputSegment kcp seg.header seg.data) := by
  have receiver := heard_receiver kcp seg.header
  rw [inputSegment_eq, header_cmd known]
  rcases prompts with asked | ⟨pushed, before⟩
  · rw [asked]
    exact Or.inr (tell_of_or _)
  · have window : (heard kcp seg.header).rcvWnd = kcp.rcvWnd := congrArg Receiver.wnd receiver
    have nxt : (heard kcp seg.header).rcvNxt = kcp.rcvNxt := congrArg Receiver.nxt receiver
    have sum : (kcp.rcvNxt + kcp.rcvWnd).toNat = kcp.rcvNxt.toNat + kcp.rcvWnd.toNat := by
      rw [UInt32.toNat_add, Nat.mod_eq_of_lt (by omega)]
    have inside : diff seg.sn (kcp.rcvNxt + kcp.rcvWnd) < 0 := by
      apply (diff_neg_iff _ _).mpr <;> omega
    have acked := (inputPush_voice (heard kcp seg.header) (seg.header.segment seg.data)).2
    rw [window, nxt] at acked
    have inWindow : diff (seg.header.segment seg.data).sn (kcp.rcvNxt + kcp.rcvWnd) < 0 := inside
    rw [if_pos inWindow] at acked
    rw [pushed]
    left
    change (inputPush (heard kcp seg.header) (seg.header.segment seg.data)).acklist ≠ []
    rw [acked]
    exact List.append_ne_nil_of_right_ne_nil _ (List.cons_ne_nil _ _)

theorem hears_growWindow (kcp : IKCPCB) : Hears kcp (growWindow kcp) := by
  have opened : (openWindow kcp).probe = kcp.probe := by
    unfold openWindow
    dsimp only
    split <;> rfl
  refine Hears.of_eq (congrArg Receiver.acks (frame_growWindow kcp).receiver) ?_
  unfold growWindow
  dsimp only
  split
  · split <;> exact opened
  · rfl

theorem ikcpInput_speaks (outSmall : out.length < 2 ^ 31)
    (near : inn.length + kcp.rcvWnd.toNat < 2 ^ 31)
    (right : HalvesSound out inn done peerHas kcp) (all : ∀ seg ∈ segs, Honest kcp.conv inn peerHas seg)
    (member : seg ∈ segs) (prompts : Prompts kcp.rcvNxt.toNat seg) :
    ∃ final, ikcpInput kcp (segs.flatMap IKCPSEG.wire) = some (final, 0) ∧ Speaks final := by
  have innSmall : inn.length < 2 ^ 31 := by omega
  obtain ⟨final, taken, _, _, _, spoken⟩ := ikcpInput_honest
    (fun left next => next.rcvWnd = kcp.rcvWnd ∧ kcp.receiver.Grows next.receiver ∧
      (seg ∈ left ∨ Speaks next)) outSmall innSmall
    (by
      rintro next other rest right honest ⟨same, grown, speaks⟩
      have advances := inputSegment_sound outSmall innSmall right honest
      have unchanged := noUserChange_inputSegment next other.header other.data
      refine ⟨unchanged.rcvWnd.trans same, grown.trans advances.grows, ?_⟩
      rcases speaks with ahead | spoken
      · rcases List.mem_cons.mp ahead with rfl | later
        · right
          have inside : next.rcvNxt.toNat ≤ inn.length := right.receiver.inside
          have further : kcp.rcvNxt.toNat ≤ next.rcvNxt.toNat := grown.nxt
          apply inputSegment_speaks next honest.known
          · rw [same]
            omega
          · exact prompts.imp_right (fun pushed => ⟨pushed.1, Nat.lt_of_lt_of_le pushed.2 further⟩)
        · exact Or.inl later
      · exact Or.inr (spoken.hears (hears_inputSegment next _ _)))
    (by
      rintro next ⟨same, grown, speaks⟩
      have frame := frame_growWindow next
      refine ⟨frame.noUserChange.rcvWnd.trans same, ?_, ?_⟩
      · rw [frame.receiver]
        exact grown
      · exact speaks.imp_right (fun spoken => spoken.hears (hears_growWindow next)))
    (List.ne_nil_of_mem member) right all ⟨rfl, Receiver.Grows.refl _, Or.inl member⟩
  exact ⟨final, taken, spoken.resolve_left List.not_mem_nil⟩

end Speaking

section Acknowledging

variable {out inn done : Log} {peerHas : Nat → Prop} {seg : IKCPSEG} {segs : List IKCPSEG}

theorem unaLoop_all {una : UInt32} {segs : List IKCPSEG} {queue : SegQueue}
    (linked : queue.segs = segs) (before : ∀ seg ∈ segs, 0 < diff una seg.sn) :
    (unaLoop una segs queue).segs = [] := by
  induction segs generalizing queue with
  | nil => exact linked
  | cons seg rest ih =>
      obtain ⟨first, later⟩ := List.forall_mem_cons.mp before
      rw [unaLoop, if_pos first]
      apply ih _ later
      rw [SegQueue.delHead_segs, linked, List.tail_cons]

theorem heard_empties {header : Header} (outSmall : out.length < 2 ^ 31)
    (sound : kcp.sender.Sound out peerHas) (unaSmall : header.una.toNat < 2 ^ 31)
    (all : kcp.sndNxt.toNat ≤ header.una.toNat) : (heard kcp header).sndBuf.segs = [] := by
  have buf : (heard kcp header).sndBuf.segs =
      (unaLoop header.una kcp.sndBuf.segs kcp.sndBuf).segs :=
    congrArg Sender.buf (ikcpShrinkBuf_sender _)
  rw [buf]
  apply unaLoop_all rfl
  intro seg member
  have below : seg.sn.toNat < kcp.sndNxt.toNat := sound.below seg member
  have inside : kcp.sndNxt.toNat ≤ out.length := sound.inside
  apply (diff_pos_iff unaSmall _).mpr <;> omega

theorem ikcpInput_empties {una wnd : UInt32} (outSmall : out.length < 2 ^ 31)
    (innSmall : inn.length < 2 ^ 31) (right : HalvesSound out inn done peerHas kcp)
    (all : ∀ seg ∈ segs, Honest kcp.conv inn peerHas seg) (nonempty : segs ≠ [])
    (tells : ∀ seg ∈ segs, seg.una = una ∧ seg.wnd = wnd) (numbered : kcp.sndNxt.toNat ≤ una.toNat) :
    ∃ final, ikcpInput kcp (segs.flatMap IKCPSEG.wire) = some (final, 0) ∧
      final.sndBuf.segs = [] ∧ final.rmtWnd = wnd.toUInt16.toUInt32 := by
  obtain ⟨final, taken, _, _, _, told⟩ := ikcpInput_honest
    (fun left next => next.sndNxt = kcp.sndNxt ∧ (∀ seg ∈ left, seg.una = una ∧ seg.wnd = wnd) ∧
      (left = segs ∨ next.sndBuf.segs = [] ∧ next.rmtWnd = wnd.toUInt16.toUInt32))
    outSmall innSmall
    (by
      rintro next other rest right honest ⟨same, tells, _⟩
      obtain ⟨⟨tellsUna, tellsWnd⟩, later⟩ := List.forall_mem_cons.mp tells
      have released := released_inputSegment next other.header other.data
      obtain ⟨_, settings, _⟩ := settings_inputSegment next other.header other.data
      have covered : next.sndNxt.toNat ≤ other.header.una.toNat := by
        rw [same]
        change kcp.sndNxt.toNat ≤ other.una.toNat
        rw [tellsUna]
        exact numbered
      have emptied := heard_empties outSmall right.sender honest.unaSmall covered
      refine ⟨(congrArg Sender.nxt released.same).trans same, later, Or.inr ⟨?_, ?_⟩⟩
      · exact (inputSegment_released next other.header other.data).nil emptied
      · rw [← tellsWnd]
        exact congrArg Settings.rmtWnd settings)
    (by
      rintro next ⟨same, tells, told⟩
      have sender := (frame_growWindow next).sender
      have settings := settings_growWindow next
      refine ⟨(congrArg Sender.nxt sender).trans same, tells, told.imp_right ?_⟩
      rintro ⟨empty, window⟩
      exact ⟨(congrArg Sender.buf sender).trans empty, (congrArg Settings.rmtWnd settings).trans window⟩)
    nonempty right all ⟨rfl, tells, Or.inl rfl⟩
  exact ⟨final, taken, told.resolve_left nonempty.symm⟩

end Acknowledging

section Sending

variable {out inn done : Log} {peerHas : Nat → Prop} {seg : IKCPSEG}

theorem mem_flushContents_of_due (member : seg ∈ kcp.sndBuf.segs)
    (time : 0 ≤ diff kcp.current seg.resendts) :
    ∃ renewed ∈ flushContents kcp, renewed.stamp = seg.stamp := by
  obtain ⟨quiet, _, _, _, current⟩ := quieted_frame kcp
  obtain ⟨_, _, _, same, _⟩ := numbered_frame (ikcpWndUnused kcp) (quieted kcp)
  have buffered : seg ∈ (quieted kcp).sndBuf.segs := by
    rw [show (quieted kcp).sndBuf.segs = kcp.sndBuf.segs from congrArg Sender.buf quiet.sender]
    exact member
  have kept : seg ∈ (numbered (ikcpWndUnused kcp) (quieted kcp)).sndBuf.segs := by
    apply numberLoop_preserves (fun next => seg ∈ next.sndBuf.segs) (ikcpWndUnused kcp)
      (windowSize (quieted kcp)) _ rfl buffered
    intro next newseg rest held _ _
    exact List.mem_append_left _ held
  have sent : due (numbered (ikcpWndUnused kcp) (quieted kcp))
      (skipsToResend (numbered (ikcpWndUnused kcp) (quieted kcp))) seg ≠ .idle := by
    unfold due
    rw [same, current, if_pos time]
    split <;> exact Due.noConfusion
  obtain ⟨renewed, present, stamp⟩ := mem_dataSegments kept sent
  exact ⟨renewed, List.mem_append_right _ present, stamp⟩

theorem mem_flushContents_of_probe (closed : kcp.rmtWnd = 0) (waiting : kcp.probeWait ≠ 0)
    (time : 0 ≤ diff kcp.current kcp.tsProbe) :
    ∃ seg ∈ flushContents kcp, seg.cmd = IKCP_CMD_WASK := by
  have asked : (probeWindow { kcp with acklist := [] }).probe &&& IKCP_ASK_SEND ≠ 0 := by
    unfold probeWindow
    dsimp only
    rw [if_pos closed, if_neg waiting, if_pos time]
    rw [or_and_self]
    decide
  exact ⟨_, List.mem_append_left _ (mem_controlSegments_ask asked), rfl⟩

theorem AfterFlush.waits (left : AfterFlush kcp final) (closed : kcp.rmtWnd = 0)
    (idle : kcp.probeWait = 0) :
    final.probeWait ≠ 0 := by
  have wait : (quieted kcp).probeWait = IKCP_PROBE_INIT := by
    unfold quieted probeWindow
    dsimp only
    rw [if_pos closed, if_pos idle]
  rw [left.probeWait, wait]
  decide

theorem tell_or_send (probe : UInt32) :
    (probe ||| IKCP_ASK_SEND) &&& IKCP_ASK_TELL = probe &&& IKCP_ASK_TELL := by
  have apart : IKCP_ASK_SEND &&& IKCP_ASK_TELL = 0 := rfl
  apply UInt32.toBitVec_inj.mp
  apply BitVec.eq_of_getLsbD_eq
  intro index _
  have bit := congrArg (fun word : UInt32 => word.toBitVec.getLsbD index) apart
  simp only [UInt32.toBitVec_and, BitVec.getLsbD_and] at bit
  simp only [UInt32.toBitVec_and, UInt32.toBitVec_or, BitVec.getLsbD_and, BitVec.getLsbD_or,
    Bool.and_or_distrib_right, bit]
  simp

theorem Speaks.contents (speaks : Speaks kcp) : flushContents kcp ≠ [] := by
  have nonempty : ∀ seg, seg ∈ controlSegments kcp → flushContents kcp ≠ [] :=
    fun seg member => List.ne_nil_of_mem (List.mem_append_left _ member)
  rcases speaks with acked | asked
  · obtain ⟨ack, member⟩ := List.exists_mem_of_ne_nil kcp.acklist acked
    exact nonempty _ (mem_controlSegments_ack member)
  · apply nonempty _ (mem_controlSegments_tell _)
    unfold probeWindow
    dsimp only
    split
    · split
      · exact asked
      · split
        · rw [tell_or_send]
          exact asked
        · exact asked
    · exact asked

theorem told_window_pos (narrow : kcp.rcvWnd.toNat < 2 ^ 16)
    (room : kcp.rcvQueue.segs.length < kcp.rcvWnd.toNat) :
    0 < (ikcpWndUnused kcp).toUInt16.toUInt32.toNat := by
  have count := kcp.rcvQueue.count_toNat (by omega)
  have less : kcp.rcvQueue.count < kcp.rcvWnd := by
    rw [UInt32.lt_iff_toNat_lt]
    omega
  rw [ikcpWndUnused, if_pos less, UInt16.toNat_toUInt32, UInt32.toNat_toUInt16,
    UInt32.toNat_sub_of_le _ _ (UInt32.le_of_lt less)]
  omega

theorem imin_toNat (a b : UInt32) : (imin a b).toNat = min a.toNat b.toNat := by
  unfold imin
  split <;> simp only [UInt32.le_iff_toNat_le] at * <;> omega

theorem windowSize_pos (snd : 0 < kcp.sndWnd.toNat) (rmt : 0 < kcp.rmtWnd.toNat)
    (cwnd : 0 < kcp.cwnd.toNat) : 0 < (windowSize kcp).toNat := by
  unfold windowSize
  dsimp only
  split <;> simp only [imin_toNat] <;> omega

theorem windowSize_le (kcp : IKCPCB) : (windowSize kcp).toNat ≤ kcp.sndWnd.toNat := by
  unfold windowSize
  dsimp only
  split <;> simp only [imin_toNat] <;> omega

theorem AfterFlush.shrinks (left : AfterFlush kcp final) (ranges : RangesHold kcp)
    (idle : kcp.sndBuf.segs = []) (waiting : kcp.sndQueue.segs ≠ [])
    (remote : 0 < kcp.rmtWnd.toNat) (cwnd : 0 < kcp.cwnd.toNat) :
    final.sndQueue.segs.length < kcp.sndQueue.segs.length := by
  obtain ⟨quiet, settings, sameCwnd, _, _⟩ := quieted_frame kcp
  have queue : (quieted kcp).sndQueue.segs = kcp.sndQueue.segs := congrArg Sender.queue quiet.sender
  have sndWnd : (quieted kcp).sndWnd = kcp.sndWnd := congrArg Settings.sndWnd settings
  have rmtWnd : (quieted kcp).rmtWnd = kcp.rmtWnd := congrArg Settings.rmtWnd settings
  have local_ : IsWindow kcp.sndWnd := ranges.sane.sndWnd
  have tight : kcp.sndUna = kcp.sndNxt := by
    have least := ranges.tight
    unfold Sender.Tight Sender.least at least
    rw [show kcp.sender.buf = [] from idle] at least
    exact least
  have una : (quieted kcp).sndUna = (quieted kcp).sndNxt :=
    (congrArg Sender.una quiet.sender).trans (tight.trans (congrArg Sender.nxt quiet.sender).symm)
  have room : diff (quieted kcp).sndNxt ((quieted kcp).sndUna + windowSize (quieted kcp)) < 0 := by
    rw [una]
    apply diff_add_neg
    · apply windowSize_pos
      · exact sndWnd ▸ local_.1
      · exact rmtWnd ▸ remote
      · exact sameCwnd ▸ cwnd
    · have least := windowSize_le (quieted kcp)
      rw [sndWnd] at least
      exact Nat.lt_of_le_of_lt least local_.2
  obtain ⟨newseg, rest, head⟩ := List.exists_cons_of_ne_nil waiting
  rw [left.queue, ← queue]
  exact numbered_shrinks (ikcpWndUnused kcp) (queue.trans head) room

end Sending

end TalkingTime.Kcp

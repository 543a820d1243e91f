import TalkingTime.Kcp.Departure

/-! What `ikcp_send` takes from the user and `ikcp_recv` hands to the user. -/

namespace TalkingTime.Kcp

open Serial Countdown

variable {kcp : IKCPCB}

theorem fits_ikcpCreate (conv : UInt32) : (ikcpCreate conv).sender.Fits := by
  have small : IKCP_MTU_DEF.toNat < 2 ^ 30 := by decide
  have payload : 0 < (IKCP_MTU_DEF - UInt32.ofNat IKCP_OVERHEAD).toNat := by decide
  have overhead : IKCP_OVERHEAD + (IKCP_MTU_DEF - UInt32.ofNat IKCP_OVERHEAD).toNat =
      IKCP_MTU_DEF.toNat := by decide
  have room : IKCP_MTU_DEF.toNat ≤ bufferSize IKCP_MTU_DEF := by decide
  exact ⟨small, payload, overhead, room, List.forall_mem_nil _⟩

theorem halvesSound_ikcpCreate (conv : UInt32) (peerHas : Nat → Prop) :
    HalvesSound [] [] [] peerHas (ikcpCreate conv) := by
  constructor
  · refine ⟨fits_ikcpCreate conv, List.forall_mem_nil _, Nat.le_refl 0, Nat.le_refl 0, rfl,
      List.forall_mem_nil _, List.forall_mem_nil _, List.forall_mem_nil _, List.forall_mem_nil _,
      List.Pairwise.nil, ?_⟩
    intro index before
    exact absurd before (Nat.not_lt_zero index)
  · exact ⟨rfl, Nat.le_refl 0, List.forall_mem_nil _, List.forall_mem_nil _, List.Pairwise.nil,
      List.forall_mem_nil _⟩

section Send

theorem sendCount_pos (mss len : Nat) (payload : 0 < mss) : 0 < sendCount mss len := by
  unfold sendCount
  split
  · exact Nat.one_pos
  · apply Nat.div_pos _ payload
    omega

theorem le_sendCount_mul (mss len : Nat) (payload : 0 < mss) : len ≤ sendCount mss len * mss := by
  unfold sendCount
  split
  · omega
  · have division := Nat.div_add_mod (len + mss - 1) mss
    have remainder := Nat.mod_lt (len + mss - 1) payload
    rw [Nat.mul_comm] at division
    omega

theorem sendLoop_segs (mss : Nat) {count : Nat} (few : count < 2 ^ 32) (buffer : List UInt8)
    (queue : SegQueue) :
    ∃ more, (sendLoop mss count buffer queue).segs = queue.segs ++ more ∧
      more.map IKCPSEG.fragment = label (cut mss count buffer) := by
  induction count generalizing buffer queue with
  | zero => exact ⟨[], (List.append_nil _).symm, rfl⟩
  | succ left ih =>
      let size := if mss < buffer.length then mss else buffer.length
      let seg := { ikcpSegmentNew (buffer.take size) with frg := UInt32.ofNat left }
      have taken : buffer.take size = buffer.take mss := by
        by_cases longer : mss < buffer.length
        · rw [show size = mss from if_pos longer]
        · rw [show size = buffer.length from if_neg longer, List.take_length,
            List.take_of_length_le (Nat.not_lt.mp longer)]
      have dropped : buffer.drop size = buffer.drop mss := by
        by_cases longer : mss < buffer.length
        · rw [show size = mss from if_pos longer]
        · rw [show size = buffer.length from if_neg longer, List.drop_length,
            List.drop_of_length_le (Nat.not_lt.mp longer)]
      have fragment : seg.fragment = (left, buffer.take mss) := by
        have number : (UInt32.ofNat left).toNat = left :=
          UInt32.toNat_ofNat_of_lt' (Nat.lt_of_succ_lt few)
        change ((UInt32.ofNat left).toNat, buffer.take size) = _
        rw [number, taken]
      obtain ⟨more, linked, labelled⟩ := ih (by omega) (buffer.drop size) (queue.addTail seg)
      refine ⟨seg :: more, ?_, ?_⟩
      · change (sendLoop mss left (buffer.drop size) (queue.addTail seg)).segs = _
        rw [linked, SegQueue.addTail_segs, List.append_assoc]
        rfl
      · rw [List.map_cons, labelled, fragment, dropped, cut, label, length_cut]

structure MessagePieces (pieces : List (List UInt8)) : Prop where
  nonempty : pieces ≠ []
  short : pieces.flatten.length < 2 ^ 31

/-- What `ikcp_send` does with a message: nothing, or its pieces are put behind
`snd_queue`. -/
theorem ikcpSend_pieces (payload : 0 < kcp.mss.toNat) (message : Message) :
    ikcpSend kcp message.bytes message.len = some (kcp, -2) ∨
      ∃ next pieces more, ikcpSend kcp message.bytes message.len = some (next, 0) ∧
        MessagePieces pieces ∧ pieces.flatten = message.bytes ∧
        pieces.length = sendCount kcp.mss.toNat message.bytes.length ∧
        more.map IKCPSEG.fragment = label pieces ∧
        (∀ seg ∈ more, seg.frg.toNat < 256 ∧ seg.data.length ≤ kcp.mss.toNat) ∧
        next.sender = { kcp.sender with queue := kcp.sender.queue ++ more } ∧
        next.receiver = kcp.receiver := by
  let bytes := message.bytes
  let count := sendCount kcp.mss.toNat bytes.length
  have whole : bytes.take bytes.length = bytes := List.take_length
  by_cases many : 255 < count
  · left
    simp only [ikcpSend, message.len_toNat, if_neg message.len_nonneg]
    rw [if_pos many]
  · right
    have counted : 0 < count := sendCount_pos kcp.mss.toNat bytes.length payload
    have few : count < 2 ^ 32 := by omega
    let pieces := cut kcp.mss.toNat count bytes
    have length : pieces.length = count := length_cut kcp.mss.toNat count bytes
    have joined : pieces.flatten = bytes :=
      flatten_cut kcp.mss.toNat (le_sendCount_mul kcp.mss.toNat bytes.length payload)
    obtain ⟨more, linked, labelled⟩ := sendLoop_segs kcp.mss.toNat few bytes kcp.sndQueue
    let next := { kcp with sndQueue := sendLoop kcp.mss.toNat count bytes kcp.sndQueue }
    have sender : next.sender = { kcp.sender with queue := kcp.sender.queue ++ more } := by
      simp only [IKCPCB.sender, next, linked]
    refine ⟨next, pieces, more, ?_, ⟨?_, ?_⟩, joined, length, labelled, ?_, sender, rfl⟩
    · simp only [ikcpSend, message.len_toNat, if_neg message.len_nonneg]
      rw [if_neg many, if_pos (Nat.le_refl _), List.take_length]
    · apply List.length_pos_iff.mp
      omega
    · rw [joined]
      exact message.short
    · intro seg member
      have entry : seg.fragment ∈ label pieces := labelled ▸ List.mem_map_of_mem member
      obtain ⟨number, piece⟩ := of_mem_label entry
      change seg.frg.toNat < pieces.length at number
      exact ⟨by omega, length_le_of_mem_cut piece⟩

theorem ikcpSend_cases {out inn done : Log} {peerHas : Nat → Prop}
    (right : HalvesSound out inn done peerHas kcp) (message : Message) :
    ikcpSend kcp message.bytes message.len = some (kcp, -2) ∨
      ∃ next pieces, ikcpSend kcp message.bytes message.len = some (next, 0) ∧
        MessagePieces pieces ∧ pieces.flatten = message.bytes ∧
        pieces.length = sendCount kcp.mss.toNat message.bytes.length ∧
        HalvesSound (out ++ label pieces) inn done peerHas next ∧
        next.receiver = kcp.receiver ∧ next.conv = kcp.conv := by
  apply (ikcpSend_pieces right.sender.fits.payload message).imp_right
  rintro ⟨next, pieces, more, sent, taken, joined, count, labelled, each, sender, receiver⟩
  have held : next.sender.Sound (out ++ label pieces) peerHas := by
    rw [sender, ← labelled]
    apply right.sender.send
    · exact fun seg member => (each seg member).2
    · exact fun seg member => (each seg member).1
  exact ⟨next, pieces, sent, taken, joined, count, ⟨held, receiver ▸ right.receiver⟩, receiver,
    congrArg Sender.conv sender⟩

end Send

section Recv

theorem mergeLoop_buffer (ispeek : Bool) (segs : List IKCPSEG) (queue : SegQueue)
    (buffer : List UInt8) :
    (mergeLoop ispeek segs queue buffer).2 =
      buffer ++ (first (segs.map IKCPSEG.fragment)).flatMap Prod.snd := by
  induction segs generalizing queue buffer with
  | nil => exact (List.append_nil buffer).symm
  | cons seg rest ih =>
      have last : seg.frg = 0 ↔ seg.fragment.1 = 0 := UInt32.toNat_inj.symm
      rw [mergeLoop, List.map_cons, first_cons]
      by_cases final : seg.frg = 0
      · rw [if_pos final, if_pos (last.mp final), List.flatMap_singleton]
        rfl
      · rw [if_neg final, if_neg (fun zero => final (last.mpr zero)), ih, List.flatMap_cons,
          List.append_assoc]
        rfl

theorem mergeLoop_peek (segs : List IKCPSEG) (queue : SegQueue) (buffer : List UInt8) :
    (mergeLoop true segs queue buffer).1 = queue := by
  induction segs generalizing buffer with
  | nil => rfl
  | cons seg rest ih =>
      rw [mergeLoop]
      split
      · rfl
      · exact ih _

theorem mergeLoop_queue {segs : List IKCPSEG} {queue : SegQueue} (all : queue.segs = segs)
    (buffer : List UInt8) :
    (mergeLoop false segs queue buffer).1.segs =
      segs.drop (first (segs.map IKCPSEG.fragment)).length := by
  induction segs generalizing queue buffer with
  | nil => exact all
  | cons seg rest ih =>
      have last : seg.frg = 0 ↔ seg.fragment.1 = 0 := UInt32.toNat_inj.symm
      have tail : queue.delHead.segs = rest := by rw [SegQueue.delHead_segs, all, List.tail_cons]
      rw [mergeLoop, List.map_cons, first_cons]
      by_cases final : seg.frg = 0
      · rw [if_pos final, if_pos (last.mp final)]
        exact tail
      · rw [if_neg final, if_neg (fun zero => final (last.mpr zero)), List.length_cons,
          List.drop_succ_cons]
        exact ih tail _

theorem peekLoop_eq (segs : List IKCPSEG) :
    peekLoop segs =
      Int32.ofNat ((first (segs.map IKCPSEG.fragment)).flatMap Prod.snd).length := by
  induction segs with
  | nil => rfl
  | cons seg rest ih =>
      have last : seg.frg = 0 ↔ seg.fragment.1 = 0 := UInt32.toNat_inj.symm
      rw [peekLoop, List.map_cons, first_cons]
      by_cases final : seg.frg = 0
      · rw [if_pos final, if_pos (last.mp final), List.flatMap_singleton, Int32.add_zero]
        rfl
      · rw [if_neg final, if_neg (fun zero => final (last.mpr zero)), List.flatMap_cons,
          List.length_append, Int32.ofNat_add, ih]
        rfl

/-- `ikcp_peeksize` is the length of the first message, or negative when not all of
its fragments are there. -/
theorem ikcpPeeksize_eq {seg : IKCPSEG} {rest : List IKCPSEG}
    (head : kcp.rcvQueue.segs = seg :: rest) (few : (seg :: rest).length < 2 ^ 31)
    (small : seg.frg.toNat < 256) :
    ikcpPeeksize kcp =
      if seg.frg.toNat < (seg :: rest).length then
        Int32.ofNat ((first ((seg :: rest).map IKCPSEG.fragment)).flatMap Prod.snd).length
      else -1 := by
  have last : seg.frg = 0 ↔ seg.fragment.1 = 0 := UInt32.toNat_inj.symm
  have count : kcp.rcvQueue.count.toNat = (seg :: rest).length := by
    rw [SegQueue.count_toNat _ (by rw [head]; omega), head]
  have missing : kcp.rcvQueue.count < seg.frg + 1 ↔ ¬ seg.frg.toNat < (seg :: rest).length := by
    rw [UInt32.lt_iff_toNat_lt, count, toNat_succ (by omega)]
    omega
  unfold ikcpPeeksize
  rw [head]
  dsimp only
  by_cases final : seg.frg = 0
  · have zero : seg.frg.toNat = 0 := last.mp final
    rw [if_pos final, if_pos (by rw [zero]; exact Nat.succ_pos _), List.map_cons, first_cons,
      if_pos (last.mp final), List.flatMap_singleton]
    rfl
  · rw [if_neg final, peekLoop_eq]
    by_cases present : seg.frg.toNat < (seg :: rest).length
    · rw [if_pos present, if_neg (fun absent => missing.mp absent present)]
    · rw [if_neg present, if_pos (missing.mpr present)]

variable {inn : Log}

theorem recvMessage_gains {ispeek : Bool} {done : Log} (small : inn.length < 2 ^ 31)
    (merged : Receiver.Sound { kcp.receiver with
      queue := (mergeLoop ispeek kcp.rcvQueue.segs kcp.rcvQueue []).1.segs } inn done) :
    Gains inn done kcp (recvMessage ispeek kcp).1 := by
  let start := { kcp with rcvQueue := (mergeLoop ispeek kcp.rcvQueue.segs kcp.rcvQueue []).1 }
  have begun : start.receiver.Sound inn done := merged
  obtain ⟨sound, ⟨nxt, has⟩⟩ := moveAvailable_sound small begun
  -- the queue does not matter to what the receiver has
  have grown : kcp.receiver.Grows (moveAvailable start).receiver := ⟨nxt, has⟩
  have sender : (moveAvailable start).sender = kcp.sender := moveAvailable_sender start
  unfold recvMessage
  dsimp only
  split
  · exact ⟨sound, grown, sender⟩
  · exact ⟨sound, grown, sender⟩

theorem recvMessage_buffer (ispeek : Bool) (kcp : IKCPCB) :
    (recvMessage ispeek kcp).2 =
      (first (kcp.rcvQueue.segs.map IKCPSEG.fragment)).flatMap Prod.snd := by
  have merged := mergeLoop_buffer ispeek kcp.rcvQueue.segs kcp.rcvQueue []
  unfold recvMessage
  dsimp only
  split <;> exact merged

theorem ikcpRecv_of_peeksize (len : Int32) {seg : IKCPSEG} {rest : List IKCPSEG}
    (head : kcp.rcvQueue.segs = seg :: rest) {size : Nat} (short : size < 2 ^ 31)
    (peeksize : ikcpPeeksize kcp = Int32.ofNat size) :
    ikcpRecv kcp len =
      if (size : Int) ≤ (bufferRoom len).toInt then
        ((recvMessage (decide (len < 0)) kcp).1,
          Int32.ofNat (recvMessage (decide (len < 0)) kcp).2.length,
          (recvMessage (decide (len < 0)) kcp).2)
      else (kcp, -3, []) := by
  have nonempty : kcp.rcvQueue.segs.isEmpty = false := by
    rw [head]
    rfl
  have value : (Int32.ofNat size).toInt = size := Int32.toInt_ofNat_of_lt short
  have known : ¬ Int32.ofNat size < 0 := Int32.not_lt.mpr (zero_le_ofNat short)
  have less : bufferRoom len < Int32.ofNat size ↔ ¬ (size : Int) ≤ (bufferRoom len).toInt := by
    rw [Int32.lt_iff_toInt_lt, value, Int.not_le]
  simp only [ikcpRecv, nonempty, Bool.false_eq_true, if_false, peeksize, if_neg known, less]
  by_cases room : (size : Int) ≤ (bufferRoom len).toInt
  · rw [if_neg (not_not.mpr room), if_pos room]
  · rw [if_pos room, if_neg room]

theorem merged_sound {taken : List (List (List UInt8))} {message : List (List UInt8)} {held : Log}
    (sound : kcp.receiver.Sound inn (stream taken))
    (split : kcp.rcvQueue.segs.map IKCPSEG.fragment = label message ++ held)
    (merged : first (kcp.rcvQueue.segs.map IKCPSEG.fragment) = label message) (ispeek : Bool) :
    Receiver.Sound { kcp.receiver with
      queue := (mergeLoop ispeek kcp.rcvQueue.segs kcp.rcvQueue []).1.segs } inn
      (stream (if ispeek then taken else taken ++ [message])) := by
  have taking : stream taken ++ kcp.rcvQueue.segs.map IKCPSEG.fragment =
      inn.take kcp.rcvNxt.toNat := sound.taken
  refine { sound with taken := ?_ }
  change _ = inn.take kcp.rcvNxt.toNat
  rw [← taking]
  cases ispeek with
  | true =>
      rw [mergeLoop_peek]
      rfl
  | false =>
      rw [mergeLoop_queue rfl, List.map_drop, merged, split, List.drop_left]
      exact (congrArg (· ++ held) (stream_concat taken message)).trans (List.append_assoc _ _ _)

/-- What `ikcp_recv` does at a side that has taken some messages of the stream of the
other side: it hands over the next one, unless this is not complete or too long for the
buffer. A peek leaves it in place. -/
theorem ikcpRecv_cases {taken rest : List (List (List UInt8))} (small : inn.length < 2 ^ 31)
    (labels : ∀ entry ∈ inn, entry.1 < 256) (all : inn = stream (taken ++ rest))
    (whole : ∀ message ∈ rest, MessagePieces message)
    (sound : kcp.receiver.Sound inn (stream taken)) (len : Int32) :
    (∃ code : Int32, code < 0 ∧ ikcpRecv kcp len = (kcp, code, []) ∧
        ∀ message later, rest = message :: later →
          message.length ≤ kcp.rcvQueue.segs.length →
            (bufferRoom len).toInt < message.flatten.length) ∨
      ∃ next message later, rest = message :: later ∧
        ikcpRecv kcp len = (next, Int32.ofNat message.flatten.length, message.flatten) ∧
        (message.flatten.length : Int) ≤ (bufferRoom len).toInt ∧
        message.length ≤ kcp.rcvQueue.segs.length ∧
        Gains inn (stream (if len < 0 then taken else taken ++ [message])) kcp next := by
  cases head : kcp.rcvQueue.segs with
  | nil =>
      left
      refine ⟨-1, by decide, by simp only [ikcpRecv, head, List.isEmpty_nil, if_true], ?_⟩
      rintro message later rfl none
      exact absurd (List.eq_nil_of_length_eq_zero (Nat.le_zero.mp none))
        (whole message List.mem_cons_self).nonempty
  | cons seg queued =>
      have taking : stream taken ++ kcp.rcvQueue.segs.map IKCPSEG.fragment =
          inn.take kcp.rcvNxt.toNat := sound.taken
      have length : (seg :: queued).length ≤ inn.length := by
        have lengths := congrArg List.length taking
        rw [head, List.length_append, List.length_map, List.length_take] at lengths
        omega
      have present : seg.fragment ∈ inn := by
        have queued : seg.fragment ∈ inn.take kcp.rcvNxt.toNat := by
          rw [← taking, head]
          exact List.mem_append_right _ List.mem_cons_self
        exact List.mem_of_mem_take queued
      have prefixed : stream taken ++ seg.fragment :: queued.map IKCPSEG.fragment <+:
          stream (taken ++ rest) := by
        rw [← all, ← List.map_cons, ← head, taking]
        exact List.take_prefix _ _
      have nonempty : ∀ message ∈ rest, message ≠ [] :=
        fun message member => (whole message member).nonempty
      have peeksize := ikcpPeeksize_eq head (Nat.lt_of_le_of_lt length small)
        (labels seg.fragment present)
      rw [← head] at peeksize
      by_cases complete : seg.frg.toNat < kcp.rcvQueue.segs.length
      · obtain ⟨message, later, held, rfl, split, merged⟩ := next_message nonempty prefixed (by
          rw [← List.map_cons, ← head, List.length_map]
          exact complete)
        rw [← List.map_cons, ← head] at split merged
        have bytes : (label message).flatMap Prod.snd = message.flatten := by
          rw [List.flatMap_def, map_snd_label]
        rw [if_pos complete, merged, bytes] at peeksize
        have received := ikcpRecv_of_peeksize len head (whole message List.mem_cons_self).short peeksize
        rw [recvMessage_buffer, merged, bytes] at received
        by_cases room : (message.flatten.length : Int) ≤ (bufferRoom len).toInt
        · rw [if_pos room] at received
          have gains := recvMessage_gains small (merged_sound sound split merged (decide (len < 0)))
          simp only [decide_eq_true_eq] at gains
          have queue : message.length ≤ (seg :: queued).length := by
            have lengths := congrArg List.length split
            rw [head, List.length_map, List.length_append, length_label] at lengths
            omega
          exact Or.inr ⟨_, message, later, rfl, received, room, queue, gains⟩
        · rw [if_neg room] at received
          refine Or.inl ⟨-3, by decide, received, ?_⟩
          rintro other more same _
          cases same
          exact Int.not_le.mp room
      · rw [if_neg complete] at peeksize
        left
        refine ⟨-2, by decide, by simp only [ikcpRecv, head, peeksize]; rfl, ?_⟩
        rintro message later rfl enough
        have count := length_of_first (nonempty message List.mem_cons_self) prefixed
        have number : seg.fragment.1 = seg.frg.toNat := rfl
        rw [head] at complete
        omega

end Recv

section Settings

variable {out inn done : Log} {peerHas : Nat → Prop}

/-- What a user has to see to who sets the MTU: nothing where `ikcp_setmtu` refuses it.
Else it is below `2 ^ 30`, where neither the size of the buffer wraps around nor the sum
of two lengths in `ikcp_flush` overflows, and no segment that waits to be sent is longer. -/
def MtuFits (kcp : IKCPCB) (mtu : Int32) : Prop :=
  mtu < 50 ∨ mtu.toUInt32.toNat < 2 ^ 30 ∧
    ∀ seg ∈ kcp.sndQueue.segs ++ kcp.sndBuf.segs,
      IKCP_OVERHEAD + seg.data.length ≤ mtu.toUInt32.toNat

instance (kcp : IKCPCB) (mtu : Int32) : Decidable (MtuFits kcp mtu) :=
  inferInstanceAs (Decidable (_ ∨ _ ∧ _))

theorem fifty_le_mtu {mtu : Int32} (small : mtu.toUInt32.toNat < 2 ^ 30)
    (least : ¬ mtu < 50) : 50 ≤ mtu.toUInt32.toNat := by
  have signed : mtu.toInt = Int.bmod mtu.toUInt32.toNat (2 ^ 32) := BitVec.toInt_eq_toNat_bmod _
  have positive : Int.bmod mtu.toUInt32.toNat (2 ^ 32) = mtu.toUInt32.toNat := by
    rw [Int.bmod_def]
    split <;> omega
  have bound : ¬ mtu.toInt < (50 : Int32).toInt := fun less => least (Int32.lt_iff_toInt_lt.mpr less)
  have fifty : (50 : Int32).toInt = 50 := by decide
  omega

theorem ikcpSetmtu_fits {mtu : Int32} (change : MtuFits kcp mtu) (fits : kcp.sender.Fits) :
    (ikcpSetmtu kcp mtu).1.sender.Fits := by
  unfold ikcpSetmtu
  split
  · exact fits
  · rename_i accepted
    have least : ¬ mtu < 50 := fun less => accepted (by simp only [less, decide_true, Bool.true_or])
    obtain ⟨small, waiting⟩ := change.resolve_left least
    have fifty := fifty_le_mtu small least
    have overhead : (UInt32.ofNat IKCP_OVERHEAD).toNat = IKCP_OVERHEAD := by decide
    have mss : (mtu.toUInt32 - UInt32.ofNat IKCP_OVERHEAD).toNat =
        mtu.toUInt32.toNat - IKCP_OVERHEAD := by
      rw [UInt32.toNat_sub_of_le, overhead]
      rw [UInt32.le_iff_toNat_le, overhead]
      unfold IKCP_OVERHEAD
      omega
    have buffer : bufferSize mtu.toUInt32 = (mtu.toUInt32.toNat + IKCP_OVERHEAD) * 3 := by
      have three : (3 : UInt32).toNat = 3 := by decide
      rw [bufferSize, UInt32.toNat_mul, UInt32.toNat_add, overhead, three]
      unfold IKCP_OVERHEAD
      omega
    refine ⟨small, ?_, ?_, ?_, waiting⟩
    · change 0 < (mtu.toUInt32 - UInt32.ofNat IKCP_OVERHEAD).toNat
      rw [mss]
      unfold IKCP_OVERHEAD
      omega
    · change IKCP_OVERHEAD + (mtu.toUInt32 - UInt32.ofNat IKCP_OVERHEAD).toNat = mtu.toUInt32.toNat
      rw [mss]
      unfold IKCP_OVERHEAD
      omega
    · change mtu.toUInt32.toNat ≤ bufferSize mtu.toUInt32
      rw [buffer]
      omega

theorem ikcpSetmtu_receiver (kcp : IKCPCB) (mtu : Int32) :
    (ikcpSetmtu kcp mtu).1.receiver = kcp.receiver := by
  unfold ikcpSetmtu
  split <;> rfl

theorem ikcpSetmtu_conv (kcp : IKCPCB) (mtu : Int32) : (ikcpSetmtu kcp mtu).1.conv = kcp.conv := by
  unfold ikcpSetmtu
  split <;> rfl

theorem ikcpSetmtu_sound {mtu : Int32} (change : MtuFits kcp mtu)
    (right : HalvesSound out inn done peerHas kcp) :
    HalvesSound out inn done peerHas (ikcpSetmtu kcp mtu).1 := by
  have fits := ikcpSetmtu_fits change right.sender.fits
  have receiver := ikcpSetmtu_receiver kcp mtu
  refine ⟨?_, receiver ▸ right.receiver⟩
  unfold ikcpSetmtu at fits ⊢
  split
  · exact right.sender
  · rename_i accepted
    rw [if_neg accepted] at fits
    exact { right.sender with fits := fits }

theorem frame_ikcpInterval (kcp : IKCPCB) (interval : Int32) :
    Frame kcp (ikcpInterval kcp interval) := ⟨rfl, rfl⟩

theorem frame_ikcpNodelay (kcp : IKCPCB) (nodelay interval resend nc : Int32) :
    Frame kcp (ikcpNodelay kcp nodelay interval resend nc) := ⟨rfl, rfl⟩

theorem ikcpWndsize_sound (sndwnd rcvwnd : Int32) (right : HalvesSound out inn done peerHas kcp) :
    HalvesSound out inn done peerHas (ikcpWndsize kcp sndwnd rcvwnd) :=
  ⟨right.sender, { right.receiver with }⟩

end Settings

end TalkingTime.Kcp

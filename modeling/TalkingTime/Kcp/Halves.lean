import TalkingTime.Kcp.Flush

/-! The two halves of a control block, sending and receiving, set against the log of
all fragments which one side has been given to send. -/

namespace TalkingTime.Kcp

open Serial

/-- The fragments of one direction, each with the number of fragments behind it in
its message. A fragment's place in the log is its number. -/
abbrev Log := List (Nat × List UInt8)

def IKCPSEG.fragment (seg : IKCPSEG) : Nat × List UInt8 := (seg.frg.toNat, seg.data)

structure Sender where
  conv : UInt32
  mtu : UInt32
  mss : UInt32
  buffer : Nat
  una : UInt32
  nxt : UInt32
  queue : List IKCPSEG
  buf : List IKCPSEG

structure Receiver where
  wnd : UInt32
  nxt : UInt32
  queue : List IKCPSEG
  buf : List IKCPSEG
  acks : List (UInt32 × UInt32)

def IKCPCB.sender (kcp : IKCPCB) : Sender :=
  ⟨kcp.conv, kcp.mtu, kcp.mss, kcp.buffer, kcp.sndUna, kcp.sndNxt, kcp.sndQueue.segs,
    kcp.sndBuf.segs⟩

def IKCPCB.receiver (kcp : IKCPCB) : Receiver :=
  ⟨kcp.rcvWnd, kcp.rcvNxt, kcp.rcvQueue.segs, kcp.rcvBuf.segs, kcp.acklist⟩

def Ascending (segs : List IKCPSEG) : Prop :=
  segs.Pairwise (fun seg later => seg.sn.toNat < later.sn.toNat)

theorem ascending_iff_from (segs : List IKCPSEG) : Ascending segs ↔ AscendingFrom 0 segs := by
  simp only [Ascending, AscendingFrom, ahead_zero]

/-- The receiver has the fragment with a number, in order or early. -/
def Receiver.Has (receiver : Receiver) (index : Nat) : Prop :=
  index < receiver.nxt.toNat ∨ ∃ seg ∈ receiver.buf, seg.sn.toNat = index

/-- What is right about a receiver of a log from which the fragments `done` have
been taken out. -/
structure Receiver.Sound (receiver : Receiver) (log done : Log) : Prop where
  taken : done ++ receiver.queue.map IKCPSEG.fragment = log.take receiver.nxt.toNat
  inside : receiver.nxt.toNat ≤ log.length
  early : ∀ seg ∈ receiver.buf, log[seg.sn.toNat]? = some seg.fragment
  ahead : ∀ seg ∈ receiver.buf, receiver.nxt.toNat ≤ seg.sn.toNat
  sorted : Ascending receiver.buf
  acked : ∀ ack ∈ receiver.acks, receiver.Has ack.1.toNat

/-- The buffer holds a datagram, and a datagram every segment that waits to be sent. -/
structure Sender.Fits (sender : Sender) : Prop where
  small : sender.mtu.toNat < 2 ^ 30
  payload : 0 < sender.mss.toNat
  overhead : IKCP_OVERHEAD + sender.mss.toNat = sender.mtu.toNat
  room : sender.mtu.toNat ≤ sender.buffer
  waiting : ∀ seg ∈ sender.queue ++ sender.buf,
    IKCP_OVERHEAD + seg.data.length ≤ sender.mtu.toNat

/-- What is right about the sender of a log of which the other side has the
fragments `has`: in particular it keeps all others. -/
structure Sender.Sound (sender : Sender) (log : Log) (has : Nat → Prop) : Prop where
  fits : sender.Fits
  labels : ∀ entry ∈ log, entry.1 < 256
  inside : sender.nxt.toNat ≤ log.length
  unaInside : sender.una.toNat ≤ sender.nxt.toNat
  queued : sender.queue.map IKCPSEG.fragment = log.drop sender.nxt.toNat
  numbered : ∀ seg ∈ sender.buf, log[seg.sn.toNat]? = some seg.fragment
  below : ∀ seg ∈ sender.buf, seg.sn.toNat < sender.nxt.toNat
  oldest : ∀ seg ∈ sender.buf, sender.una.toNat ≤ seg.sn.toNat
  pushes : ∀ seg ∈ sender.buf, seg.conv = sender.conv ∧ seg.cmd = IKCP_CMD_PUSH
  sorted : Ascending sender.buf
  kept : ∀ index < sender.nxt.toNat, has index ∨ ∃ seg ∈ sender.buf, seg.sn.toNat = index

/-- A segment on its way from a side that sends the log and has, of the log of the
other side, the fragments `has`. -/
structure Honest (conv : UInt32) (log : Log) (has : Nat → Prop) (seg : IKCPSEG) : Prop where
  conv : seg.conv = conv
  known : knownCommand seg.cmd
  push : seg.cmd = IKCP_CMD_PUSH → log[seg.sn.toNat]? = some seg.fragment
  ack : seg.cmd = IKCP_CMD_ACK → has seg.sn.toNat
  una : ∀ index < seg.una.toNat, has index
  unaSmall : seg.una.toNat < 2 ^ 31
  frg : seg.frg.toNat < 256
  len : seg.data.length < 2 ^ 32

theorem Receiver.Sound.mono {receiver : Receiver} {log longer done : Log}
    (sound : receiver.Sound log done) (grown : log <+: longer) : receiver.Sound longer done := by
  obtain ⟨more, rfl⟩ := grown
  refine { sound with taken := ?_, inside := ?_, early := ?_ }
  · rw [List.take_append_of_le_length sound.inside]
    exact sound.taken
  · rw [List.length_append]
    exact Nat.le_add_right_of_le sound.inside
  · intro seg member
    have found := sound.early seg member
    obtain ⟨bound, _⟩ := List.getElem?_eq_some_iff.mp found
    rw [List.getElem?_append_left bound]
    exact found

theorem Sender.Sound.mono {sender : Sender} {log : Log} {has more : Nat → Prop}
    (sound : sender.Sound log has) (grown : ∀ index, has index → more index) :
    sender.Sound log more := by
  refine { sound with kept := ?_ }
  intro index bound
  exact (sound.kept index bound).imp_left (grown index)

theorem Honest.mono {conv : UInt32} {log longer : Log} {has more : Nat → Prop} {seg : IKCPSEG}
    (honest : Honest conv log has seg) (grown : log <+: longer)
    (gained : ∀ index, has index → more index) : Honest conv longer more seg := by
  refine { honest with push := ?_, ack := ?_, una := ?_ }
  · intro pushed
    have found := honest.push pushed
    obtain ⟨bound, _⟩ := List.getElem?_eq_some_iff.mp found
    obtain ⟨later, rfl⟩ := grown
    rw [List.getElem?_append_left bound]
    exact found
  · exact fun acked => gained _ (honest.ack acked)
  · exact fun index bound => gained index (honest.una index bound)

section Receiving

variable {receiver : Receiver} {log done : Log}

def Receiver.advance (receiver : Receiver) (seg : IKCPSEG) : Receiver :=
  { receiver with
      nxt := receiver.nxt + 1, queue := receiver.queue ++ [seg], buf := receiver.buf.tail }

theorem advance_receiver (kcp : IKCPCB) (seg : IKCPSEG) :
    (advance kcp seg).receiver = kcp.receiver.advance seg := by
  simp only [IKCPCB.receiver, advance, SegQueue.addTail_segs, SegQueue.delHead_segs,
    Receiver.advance]

structure Receiver.Grows (before after : Receiver) : Prop where
  nxt : before.nxt.toNat ≤ after.nxt.toNat
  has : ∀ index, before.Has index → after.Has index

theorem Receiver.Grows.refl (receiver : Receiver) : receiver.Grows receiver :=
  ⟨Nat.le_refl _, fun _ had => had⟩

theorem Receiver.Grows.trans {before middle after : Receiver} (first : before.Grows middle)
    (second : middle.Grows after) : before.Grows after :=
  ⟨Nat.le_trans first.nxt second.nxt, fun index had => second.has index (first.has index had)⟩

theorem Receiver.grows_advance {seg : IKCPSEG} {rest : List IKCPSEG}
    (small : receiver.nxt.toNat < 2 ^ 31) (head : receiver.buf = seg :: rest)
    (next : seg.sn = receiver.nxt) : receiver.Grows (receiver.advance seg) := by
  have tail : (receiver.advance seg).buf = rest := congrArg List.tail head
  have succ := toNat_succ small
  constructor
  · change receiver.nxt.toNat ≤ (receiver.nxt + 1).toNat
    omega
  · rintro index (before | ⟨other, member, number⟩)
    · left
      change index < (receiver.nxt + 1).toNat
      omega
    · rw [head] at member
      rcases List.mem_cons.mp member with rfl | later
      · left
        change index < (receiver.nxt + 1).toNat
        rw [next] at number
        omega
      · exact Or.inr ⟨other, tail ▸ later, number⟩

theorem Receiver.Sound.advance {seg : IKCPSEG} {rest : List IKCPSEG}
    (sound : receiver.Sound log done) (small : log.length < 2 ^ 31)
    (head : receiver.buf = seg :: rest) (next : seg.sn = receiver.nxt) :
    (receiver.advance seg).Sound log done := by
  have tail : (receiver.advance seg).buf = rest := congrArg List.tail head
  have nxtSmall : receiver.nxt.toNat < 2 ^ 31 := Nat.lt_of_le_of_lt sound.inside small
  have succ := toNat_succ nxtSmall
  have found : log[receiver.nxt.toNat]? = some seg.fragment := by
    rw [← next]
    exact sound.early seg (head ▸ List.mem_cons_self)
  obtain ⟨bound, _⟩ := List.getElem?_eq_some_iff.mp found
  have order := sound.sorted
  rw [head, Ascending, List.pairwise_cons] at order
  refine ⟨?_, ?_, ?_, ?_, tail ▸ order.2, ?_⟩
  · calc
      done ++ (receiver.queue ++ [seg]).map IKCPSEG.fragment =
          done ++ receiver.queue.map IKCPSEG.fragment ++ [seg.fragment] := by
        rw [List.map_append, List.append_assoc]
        rfl
      _ = log.take (receiver.nxt.toNat + 1) := by
        rw [sound.taken, List.take_add_one, found]
        rfl
      _ = log.take (receiver.nxt + 1).toNat := by rw [succ]
  · change (receiver.nxt + 1).toNat ≤ log.length
    omega
  · intro other member
    rw [tail] at member
    exact sound.early other (head ▸ List.mem_cons_of_mem seg member)
  · intro other member
    rw [tail] at member
    change (receiver.nxt + 1).toNat ≤ other.sn.toNat
    have greater := order.1 other member
    rw [next] at greater
    omega
  · intro ack member
    exact (Receiver.grows_advance nxtSmall head next).has _ (sound.acked ack member)

end Receiving

section Sending

variable {sender : Sender} {log : Log} {has : Nat → Prop}

/-- What a segment of `snd_buf` keeps while it waits for its acknowledgement. -/
def IKCPSEG.stamp (seg : IKCPSEG) : UInt32 × UInt32 × UInt32 × (Nat × List UInt8) :=
  (seg.conv, seg.cmd, seg.sn, seg.fragment)

theorem of_stamp_eq {seg other : IKCPSEG} (same : seg.stamp = other.stamp) :
    seg.conv = other.conv ∧ seg.cmd = other.cmd ∧ seg.sn = other.sn ∧
      seg.fragment = other.fragment := by
  simpa only [IKCPSEG.stamp, Prod.mk.injEq] using same

theorem ascending_iff_stamps (segs : List IKCPSEG) :
    Ascending segs ↔
      (segs.map IKCPSEG.stamp).Pairwise (fun stamp later => stamp.2.2.1.toNat < later.2.2.1.toNat) := by
  rw [List.pairwise_map]
  rfl

theorem Sender.Sound.acknowledged (sound : sender.Sound log has) {index : Nat}
    (before : index < sender.una.toNat) : has index := by
  have bound : index < sender.nxt.toNat := Nat.lt_of_lt_of_le before sound.unaInside
  rcases sound.kept index bound with had | ⟨seg, member, number⟩
  · exact had
  · have later := sound.oldest seg member
    omega

theorem Sender.Fits.release (fits : sender.Fits) (buf : List IKCPSEG)
    (sublist : (buf.map IKCPSEG.stamp).Sublist (sender.buf.map IKCPSEG.stamp)) :
    Sender.Fits { sender with buf := buf } := by
  refine { fits with waiting := ?_ }
  intro seg member
  rcases List.mem_append.mp member with queued | buffered
  · exact fits.waiting seg (List.mem_append_left sender.buf queued)
  · obtain ⟨other, present, same⟩ := List.mem_map.mp (sublist.subset (List.mem_map_of_mem buffered))
    have data : other.data = seg.data := congrArg Prod.snd (of_stamp_eq same).2.2.2
    rw [← data]
    exact fits.waiting other (List.mem_append_right sender.queue present)

theorem Sender.Fits.number {newseg : IKCPSEG} {rest : List IKCPSEG} (fits : sender.Fits)
    (seg : IKCPSEG) (head : sender.queue = newseg :: rest) (data : seg.data = newseg.data) :
    Sender.Fits { sender with nxt := sender.nxt + 1, queue := rest, buf := sender.buf ++ [seg] } := by
  have waiting := fits.waiting
  rw [head] at waiting
  refine { fits with waiting := ?_ }
  intro other member
  rcases List.mem_append.mp member with queued | buffered
  · exact waiting other (List.mem_append_left sender.buf (List.mem_cons_of_mem newseg queued))
  · rcases List.mem_append.mp buffered with old | new
    · exact waiting other (List.mem_append_right (newseg :: rest) old)
    · rw [List.mem_singleton.mp new, data]
      exact waiting newseg (List.mem_append_left sender.buf List.mem_cons_self)

theorem Sender.Fits.send {more : List IKCPSEG} (fits : sender.Fits)
    (short : ∀ seg ∈ more, seg.data.length ≤ sender.mss.toNat) :
    Sender.Fits { sender with queue := sender.queue ++ more } := by
  have overhead := fits.overhead
  refine { fits with waiting := ?_ }
  intro seg member
  rcases List.mem_append.mp member with queued | buffered
  · rcases List.mem_append.mp queued with old | new
    · exact fits.waiting seg (List.mem_append_left sender.buf old)
    · have size := short seg new
      change IKCP_OVERHEAD + seg.data.length ≤ sender.mtu.toNat
      omega
  · exact fits.waiting seg (List.mem_append_right sender.queue buffered)

theorem Sender.Sound.release (sound : sender.Sound log has) (buf : List IKCPSEG)
    (sublist : (buf.map IKCPSEG.stamp).Sublist (sender.buf.map IKCPSEG.stamp))
    (released : ∀ seg ∈ sender.buf, has seg.sn.toNat ∨ ∃ other ∈ buf, other.sn = seg.sn) :
    Sender.Sound { sender with buf := buf } log has := by
  have origin : ∀ seg ∈ buf, ∃ other ∈ sender.buf, other.stamp = seg.stamp := by
    intro seg member
    exact List.mem_map.mp (sublist.subset (List.mem_map_of_mem member))
  refine { sound with fits := sound.fits.release buf sublist, numbered := ?_, below := ?_,
                      oldest := ?_, pushes := ?_, sorted := ?_, kept := ?_ }
  · intro seg member
    obtain ⟨other, present, same⟩ := origin seg member
    obtain ⟨_, _, number, fragment⟩ := of_stamp_eq same
    rw [← number, ← fragment]
    exact sound.numbered other present
  · intro seg member
    obtain ⟨other, present, same⟩ := origin seg member
    rw [← (of_stamp_eq same).2.2.1]
    exact sound.below other present
  · intro seg member
    obtain ⟨other, present, same⟩ := origin seg member
    rw [← (of_stamp_eq same).2.2.1]
    exact sound.oldest other present
  · intro seg member
    obtain ⟨other, present, same⟩ := origin seg member
    rw [← (of_stamp_eq same).1, ← (of_stamp_eq same).2.1]
    exact sound.pushes other present
  · have order := (ascending_iff_stamps sender.buf).mp sound.sorted
    exact (ascending_iff_stamps buf).mpr (order.sublist sublist)
  · intro index bound
    rcases sound.kept index bound with had | ⟨seg, member, number⟩
    · exact Or.inl had
    · rw [← number]
      refine (released seg member).imp_right ?_
      rintro ⟨other, present, same⟩
      exact ⟨other, present, congrArg UInt32.toNat same⟩

def Sender.least (sender : Sender) : UInt32 :=
  match sender.buf with
  | seg :: _ => seg.sn
  | [] => sender.nxt

/-- `snd_una` is the first number in `snd_buf`, or the next one. -/
def Sender.Tight (sender : Sender) : Prop := sender.una = sender.least

/-- What arrives acknowledges segments: they are dropped, others are written to where
their stamp is not, and `snd_una` is set right. -/
structure Sender.Released (before after : Sender) : Prop where
  same : after = { before with una := after.una, buf := after.buf }
  stamps : (after.buf.map IKCPSEG.stamp).Sublist (before.buf.map IKCPSEG.stamp)
  tight : after.Tight

theorem Sender.Released.refl (tight : sender.Tight) : sender.Released sender :=
  ⟨rfl, List.Sublist.refl _, tight⟩

theorem Sender.Released.trans {middle last : Sender} (first : sender.Released middle)
    (second : middle.Released last) : sender.Released last := by
  refine ⟨?_, second.stamps.trans first.stamps, second.tight⟩
  calc
    last = { middle with una := last.una, buf := last.buf } := second.same
    _ = { sender with una := last.una, buf := last.buf } := by rw [first.same]

theorem Sender.Released.nil {after : Sender} (released : sender.Released after)
    (empty : sender.buf = []) : after.buf = [] := by
  have stamps := released.stamps
  rw [empty, List.map_nil] at stamps
  exact List.map_eq_nil_iff.mp (List.sublist_nil.mp stamps)

theorem Sender.Fits.released {after : Sender} (fits : sender.Fits)
    (released : sender.Released after) : after.Fits := by
  rw [released.same]
  exact { fits.release after.buf released.stamps with }

theorem Sender.Sound.shrink (sound : sender.Sound log has) :
    Sender.Sound { sender with una := sender.least } log has := by
  have order := sound.sorted
  have below := sound.below
  have fits : Sender.Fits { sender with una := sender.least } := { sound.fits with }
  refine { sound with fits := fits, unaInside := ?_, oldest := ?_ } <;> unfold Sender.least
  · cases buffered : sender.buf with
    | nil => exact Nat.le_refl _
    | cons first rest => exact Nat.le_of_lt (below first (buffered ▸ List.mem_cons_self))
  · intro seg member
    change seg ∈ sender.buf at member
    cases buffered : sender.buf with
    | nil =>
        rw [buffered] at member
        cases member
    | cons first rest =>
        rw [buffered] at member order
        rcases List.mem_cons.mp member with rfl | later
        · exact Nat.le_refl _
        · exact Nat.le_of_lt ((List.pairwise_cons.mp order).1 seg later)

theorem Sender.Sound.number {newseg : IKCPSEG} {rest : List IKCPSEG}
    (sound : sender.Sound log has) (seg : IKCPSEG) (small : log.length < 2 ^ 31)
    (head : sender.queue = newseg :: rest) (same : seg.fragment = newseg.fragment)
    (next : seg.sn = sender.nxt) (conv : seg.conv = sender.conv) (cmd : seg.cmd = IKCP_CMD_PUSH) :
    Sender.Sound
      { sender with nxt := sender.nxt + 1, queue := rest, buf := sender.buf ++ [seg] } log has := by
  have queued := sound.queued
  rw [head, List.map_cons] at queued
  have found : log[sender.nxt.toNat]? = some newseg.fragment := by
    rw [← List.head?_drop, ← queued]
    rfl
  obtain ⟨bound, _⟩ := List.getElem?_eq_some_iff.mp found
  have succ := toNat_succ (Nat.lt_trans bound small)
  have unaInside := sound.unaInside
  have data : seg.data = newseg.data := congrArg Prod.snd same
  refine ⟨sound.fits.number seg head data, sound.labels, ?_, ?_, ?_, ?_, ?_, ?_, ?_, ?_, ?_⟩
  · change (sender.nxt + 1).toNat ≤ log.length
    omega
  · change sender.una.toNat ≤ (sender.nxt + 1).toNat
    omega
  · calc
      rest.map IKCPSEG.fragment = (log.drop sender.nxt.toNat).tail := by rw [← queued, List.tail_cons]
      _ = log.drop (sender.nxt + 1).toNat := by rw [List.tail_drop, succ]
  · intro other member
    rcases List.mem_append.mp member with old | new
    · exact sound.numbered other old
    · rw [List.mem_singleton.mp new, next, same]
      exact found
  · intro other member
    change other.sn.toNat < (sender.nxt + 1).toNat
    rcases List.mem_append.mp member with old | new
    · have before := sound.below other old
      omega
    · rw [List.mem_singleton.mp new, next]
      omega
  · intro other member
    rcases List.mem_append.mp member with old | new
    · exact sound.oldest other old
    · rw [List.mem_singleton.mp new, next]
      exact unaInside
  · intro other member
    rcases List.mem_append.mp member with old | new
    · exact sound.pushes other old
    · rw [List.mem_singleton.mp new]
      exact ⟨conv, cmd⟩
  · refine List.pairwise_append.mpr ⟨sound.sorted, List.pairwise_singleton _ seg, ?_⟩
    intro other member last new
    rw [List.mem_singleton.mp new, next]
    exact sound.below other member
  · intro index before
    change index < (sender.nxt + 1).toNat at before
    rcases Nat.lt_or_ge index sender.nxt.toNat with old | new
    · refine (sound.kept index old).imp_right ?_
      rintro ⟨other, member, number⟩
      exact ⟨other, List.mem_append_left [seg] member, number⟩
    · refine Or.inr ⟨seg, List.mem_append_right sender.buf (List.mem_singleton_self seg), ?_⟩
      rw [next]
      omega

theorem Sender.Sound.send (sound : sender.Sound log has) {more : List IKCPSEG}
    (short : ∀ seg ∈ more, seg.data.length ≤ sender.mss.toNat)
    (labelled : ∀ seg ∈ more, seg.frg.toNat < 256) :
    Sender.Sound { sender with queue := sender.queue ++ more } (log ++ more.map IKCPSEG.fragment)
      has := by
  refine { sound with fits := sound.fits.send short, labels := ?_, inside := ?_, queued := ?_,
                      numbered := ?_ }
  · refine List.forall_mem_append.mpr ⟨sound.labels, ?_⟩
    intro entry member
    obtain ⟨seg, present, rfl⟩ := List.mem_map.mp member
    exact labelled seg present
  · rw [List.length_append]
    exact Nat.le_add_right_of_le sound.inside
  · calc
      (sender.queue ++ more).map IKCPSEG.fragment =
          log.drop sender.nxt.toNat ++ more.map IKCPSEG.fragment := by
        rw [List.map_append, sound.queued]
      _ = (log ++ more.map IKCPSEG.fragment).drop sender.nxt.toNat := by
        rw [List.drop_append_of_le_length sound.inside]
  · intro seg member
    have found := sound.numbered seg member
    obtain ⟨bound, _⟩ := List.getElem?_eq_some_iff.mp found
    rw [List.getElem?_append_left bound]
    exact found

end Sending

end TalkingTime.Kcp

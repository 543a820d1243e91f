import TalkingTime.Kcp.Blocking
import TalkingTime.Kcp.Reaction

/-! No state is a dead end: whatever the network has lost, all messages can still be
delivered, with nothing but updates, receives and datagrams that are yet to be sent. -/

namespace TalkingTime.Kcp

open Mail (Side Event)
open Countdown
open Serial

/-- A message has no more pieces than the window of the other side, which never gets
narrower and stays below `2 ^ 16`, so that a header can tell it. -/
def Careful (connection : Connection) (action : Action) : Prop :=
  Permitted connection action ∧
    match action with
    | .send side message =>
        let kcp := connection.host side
        let count := sendCount kcp.mss.toNat message.bytes.length
        fragmentsSent kcp + count + 2 ^ 16 ≤ 2 ^ 31 ∧
          count ≤ (connection.host side.peer).rcvWnd.toNat
    | .wndsize side _ rcvwnd =>
        0 < rcvwnd → ((connection.host side).rcvWnd.toNat : Int) ≤ rcvwnd.toInt ∧
          rcvwnd.toInt < 2 ^ 16
    | _ => True

instance (connection : Connection) : (action : Action) → Decidable (Careful connection action)
  | .send _ _ => inferInstanceAs (Decidable (_ ∧ _ ∧ _))
  | .wndsize _ _ _ => inferInstanceAs (Decidable (_ ∧ (_ → _)))
  | .setmtu _ _ | .recv _ _ | .deliver _ _ | .update _ _ | .flush _ | .nodelay _ _ _ _ _
  | .interval _ _ => inferInstanceAs (Decidable (_ ∧ True))

namespace Connection.Sound

variable {conv : UInt32} {connection : Connection} {ledger : Ledger}

theorem peer (sound : connection.Sound conv ledger) (side : Side) :
    HalvesSound (ledger.log side.peer) (ledger.log side) (stream (ledger.received side))
      (connection.host side).receiver.Has (connection.host side.peer) := by
  have right := sound.right side.peer
  rw [Side.peer_peer] at right
  exact right

theorem length_received (sound : connection.Sound conv ledger) (side : Side) :
    (stream (ledger.received side)).length + (connection.host side.peer).rcvQueue.segs.length =
      (connection.host side.peer).rcvNxt.toNat := by
  have receiver := (sound.peer side).receiver
  have inside : (connection.host side.peer).rcvNxt.toNat ≤ (ledger.log side).length :=
    receiver.inside
  have lengths := congrArg List.length receiver.taken
  rw [List.length_append, List.length_map, List.length_take] at lengths
  change _ + (connection.host side.peer).rcvQueue.segs.length =
    min (connection.host side.peer).rcvNxt.toNat _ at lengths
  omega

theorem length_log (ledger : Ledger) (side : Side) : (ledger.log side).length =
    (stream (ledger.received side)).length + (stream (ledger.pending side)).length := by
  rw [Ledger.log, Ledger.messages, stream_append, List.length_append]

theorem receivable (sound : connection.Sound conv ledger) {side : Side}
    {pieces : List (List UInt8)} {rest : List (List (List UInt8))}
    (pending : ledger.pending side = pieces :: rest)
    (arrived : pieces.length ≤ (connection.host side.peer).rcvQueue.segs.length) {len : Int32}
    (room : (pieces.flatten.length : Int) ≤ (bufferRoom len).toInt) :
    ∃ next, ikcpRecv (connection.host side.peer) len =
      (next, Int32.ofNat pieces.flatten.length, pieces.flatten) := by
  have labels := (sound.right side).sender.labels
  rcases ikcpRecv_cases (sound.small side) labels rfl (sound.whole side)
      (sound.peer side).receiver len with
    ⟨code, _, _, short⟩ | ⟨next, message, later, first, received, _⟩
  · have less := short pieces rest pending arrived
    omega
  · rw [pending] at first
    cases first
    exact ⟨next, received⟩

end Connection.Sound

/-- The first message of a side that the other one has not yet received has arrived
there with all its pieces. -/
def Available (connection : Connection) (ledger : Ledger) (side : Side) : Prop :=
  ∀ pieces ∈ (ledger.pending side).head?,
    pieces.length ≤ (connection.host side.peer).rcvQueue.segs.length

/-- What holds of a connection that is used with care. -/
structure Recoverable (conv : UInt32) (connection : Connection) (ledger : Ledger) : Prop where
  sound : connection.Sound conv ledger
  ranges : ∀ side, RangesHold (connection.host side)
  narrow : ∀ side, (connection.host side).rcvWnd.toNat < 2 ^ 16
  near : ∀ side, (ledger.log side).length + 2 ^ 16 ≤ 2 ^ 31
  fits : ∀ side, ∀ pieces ∈ ledger.pending side,
    pieces.length ≤ (connection.host side.peer).rcvWnd.toNat
  stuck : ∀ side, (∃ seg ∈ (connection.host side.peer).rcvBuf.segs.head?,
    seg.sn = (connection.host side.peer).rcvNxt) → Available connection ledger side

theorem recoverable_initial (conv : UInt32) :
    Recoverable conv (Connection.initial conv) ⟨fun _ => [], fun _ => []⟩ where
  sound := sound_initial conv
  ranges := fun _ => rangesHold_ikcpCreate conv
  narrow := fun _ => by
    change IKCP_WND_RCV.toNat < 2 ^ 16
    decide
  near := fun _ => by
    change 0 + 2 ^ 16 ≤ 2 ^ 31
    decide
  fits := fun _ => List.forall_mem_nil _
  stuck := by
    rintro side ⟨seg, head, _⟩
    cases head

section Steps

variable {conv : UInt32} {connection after : Connection} {ledger next : Ledger} {action : Action}
  {kcp final : IKCPCB}

theorem call_receiver {any : Call} (done : call kcp any = some final) :
    final.rcvWnd = kcp.rcvWnd ∧ kcp.receiver.Settles final.receiver ∨
      ∃ sndwnd rcvwnd, any = .wndsize sndwnd rcvwnd ∧ final = ikcpWndsize kcp sndwnd rcvwnd := by
  have alone : final.receiver = kcp.receiver →
      final.rcvWnd = kcp.rcvWnd ∧ kcp.receiver.Settles final.receiver := by
    intro receiver
    have settles : kcp.receiver.Settles kcp.receiver := Receiver.Settles.refl _
    exact ⟨congrArg Receiver.wnd receiver, receiver ▸ settles⟩
  have settled : NoUserChange kcp final →
      final.rcvWnd = kcp.rcvWnd ∧ kcp.receiver.Settles final.receiver :=
    fun unchanged => ⟨unchanged.rcvWnd, unchanged.settles⟩
  cases any with
  | send message =>
      obtain ⟨⟨sent, code⟩, sending, rfl⟩ := Option.map_eq_some_iff.mp done
      obtain ⟨queue, rfl⟩ := ikcpSend_queue sending
      exact Or.inl (alone rfl)
  | recv len =>
      cases done
      exact Or.inl (settled (noUserChange_ikcpRecv kcp len))
  | input data =>
      obtain ⟨⟨taken, code⟩, taking, rfl⟩ := Option.map_eq_some_iff.mp done
      exact Or.inl (settled (noUserChange_ikcpInput taking))
  | update current =>
      obtain ⟨⟨updated, datagrams⟩, updating, rfl⟩ := Option.map_eq_some_iff.mp done
      exact Or.inl (settled (noUserChange_ikcpUpdate updating))
  | flush =>
      obtain ⟨⟨flushed, datagrams⟩, flushing, rfl⟩ := Option.map_eq_some_iff.mp done
      exact Or.inl (settled (noUserChange_ikcpFlush flushing))
  | setmtu mtu =>
      cases done
      exact Or.inl (alone (ikcpSetmtu_receiver kcp mtu))
  | nodelay nodelay interval resend nc =>
      cases done
      exact Or.inl (alone rfl)
  | interval interval =>
      cases done
      exact Or.inl (alone rfl)
  | wndsize sndwnd rcvwnd =>
      cases done
      exact Or.inr ⟨sndwnd, rcvwnd, rfl, rfl⟩

theorem events_of_step (done : connection.step action = some after) :
    after.events = connection.events ∨
      (∃ side message, action = .send side message ∧
        after.events = connection.events ++ [.post side message.bytes]) ∨
      ∃ side len bytes, action = .recv side len ∧
        after.events = connection.events ++ [.take side bytes] := by
  cases action with
  | send side message =>
      rw [Connection.step] at done
      split at done
      · cases done
      · rename_i next code sent
        by_cases accepted : code = 0
        · simp only [if_pos accepted] at done
          cases done
          exact Or.inr (Or.inl ⟨side, message, rfl, rfl⟩)
        · simp only [if_neg accepted] at done
          cases done
          exact Or.inl rfl
  | recv side len =>
      rcases received : ikcpRecv (connection.host side) len with ⟨next, code, bytes⟩
      by_cases taken : 0 ≤ code ∧ 0 ≤ len
      · simp only [Connection.step, received, if_pos taken] at done
        cases done
        exact Or.inr (Or.inr ⟨side, len, bytes, rfl, rfl⟩)
      · simp only [Connection.step, received, if_neg taken] at done
        cases done
        exact Or.inl rfl
  | deliver side index =>
      left
      rw [Connection.step] at done
      split at done
      · cases done
      · split at done <;> cases done
        rfl
  | update side current | flush side =>
      left
      rw [Connection.step] at done
      split at done <;> cases done
      rfl
  | setmtu | nodelay | interval | wndsize =>
      cases done
      exact Or.inl rfl

theorem send_of_post {side : Side} {message : List UInt8}
    (done : connection.step action = some after)
    (posted : after.events = connection.events ++ [.post side message]) :
    ∃ sent : Message, action = .send side sent ∧ sent.bytes = message := by
  rcases events_of_step done with same | ⟨any, other, rfl, events⟩ | ⟨any, len, bytes, _, events⟩
  · rw [same] at posted
    have lengths := congrArg List.length posted
    rw [List.length_append, List.length_singleton] at lengths
    omega
  · rw [events] at posted
    have event := List.append_cancel_left posted
    simp only [List.cons.injEq, Event.post.injEq, and_true] at event
    obtain ⟨rfl, bytes⟩ := event
    exact ⟨other, rfl, bytes⟩
  · rw [events] at posted
    cases List.append_cancel_left posted

theorem receiver_of_step {side : Side} (narrow : (connection.host side).rcvWnd.toNat < 2 ^ 16)
    (careful : Careful connection action) (done : connection.step action = some after) :
    (connection.host side).rcvWnd.toNat ≤ (after.host side).rcvWnd.toNat ∧
      (after.host side).rcvWnd.toNat < 2 ^ 16 ∧
      ((after.host side).receiver.Stopped ∨
        (after.host side).rcvNxt = (connection.host side).rcvNxt ∧
          (after.host side).rcvQueue.segs = (connection.host side).rcvQueue.segs ∧
            (after.host side).rcvBuf.segs = (connection.host side).rcvBuf.segs) := by
  obtain ⟨kcp, called, host⟩ := Connection.host_of_step done
  rw [host]
  by_cases own : action.side = side
  · subst own
    rw [Function.update_self]
    rcases call_receiver called with ⟨window, settles⟩ | ⟨sndwnd, rcvwnd, set, rfl⟩
    · rw [window]
      refine ⟨Nat.le_refl _, narrow, settles.imp_right ?_⟩
      rintro ⟨acks, same⟩
      exact ⟨congrArg Receiver.nxt same, congrArg Receiver.queue same, congrArg Receiver.buf same⟩
    · cases action with
      | wndsize side first second =>
          cases set
          have bounds := careful.2
          change (connection.host side).rcvWnd.toNat ≤
              (if 0 < rcvwnd then rcvwnd.toUInt32 else (connection.host side).rcvWnd).toNat ∧
            (if 0 < rcvwnd then rcvwnd.toUInt32 else (connection.host side).rcvWnd).toNat < 2 ^ 16 ∧ _
          split
          · rename_i positive
            obtain ⟨wider, most⟩ := bounds positive
            have size : rcvwnd.toUInt32.toNat = rcvwnd.toInt.toNat :=
              Int32.toNat_toUInt32_of_le (Int32.le_of_lt positive)
            exact ⟨by omega, by omega, Or.inr ⟨rfl, rfl, rfl⟩⟩
          · exact ⟨Nat.le_refl _, narrow, Or.inr ⟨rfl, rfl, rfl⟩⟩
      | send | recv | deliver | update | flush | setmtu | nodelay | interval => cases set
  · rw [Function.update_of_ne (Ne.symm own)]
    exact ⟨Nat.le_refl _, narrow, Or.inr ⟨rfl, rfl, rfl⟩⟩

theorem rangesHold_of_step {side : Side} (ranges : RangesHold (connection.host side))
    (done : connection.step action = some after) : RangesHold (after.host side) := by
  obtain ⟨kcp, called, host⟩ := Connection.host_of_step done
  rw [host]
  by_cases own : action.side = side
  · subst own
    rw [Function.update_self]
    exact ranges.call called
  · rw [Function.update_of_ne (Ne.symm own)]
    exact ranges

theorem Recoverable.stays {side : Side} (held : Recoverable conv connection ledger)
    (follows : Connection.Sound.Follows conv connection ledger after next)
    (nxt : (after.host side.peer).rcvNxt = (connection.host side.peer).rcvNxt)
    (queue : (after.host side.peer).rcvQueue.segs = (connection.host side.peer).rcvQueue.segs)
    (first : ∃ seg ∈ (connection.host side.peer).rcvBuf.segs.head?,
      seg.sn = (connection.host side.peer).rcvNxt) : Available after next side := by
  have available := held.stuck side first
  unfold Available at available ⊢
  rw [queue]
  have before := held.sound.length_received side
  have later := follows.sound.length_received side
  rw [queue, nxt] at later
  cases follows.moves with
  | stay => exact available
  | send any pieces posted count =>
      by_cases own : side = any
      · subst own
        rw [ledger.send_pending]
        cases pending : ledger.pending side with
        | nil =>
            -- all has been received, so that nothing is next
            obtain ⟨seg, head, number⟩ := first
            have early := (held.sound.peer side).receiver.early seg (List.mem_of_mem_head? head)
            obtain ⟨bound, _⟩ := List.getElem?_eq_some_iff.mp early
            have total := Connection.Sound.length_log ledger side
            rw [pending] at total
            rw [number] at bound
            change _ = _ + 0 at total
            omega
        | cons message rest =>
            rw [pending] at available
            exact available
      · rw [ledger.send_pending_of_ne own]
        exact available
  | receive any pieces rest pending taken =>
      by_cases own : side = any.peer
      · subst own
        have longer : stream ((ledger.receive any.peer pieces rest).received any.peer) =
            stream (ledger.received any.peer) ++ label pieces := by
          rw [ledger.receive_received, stream_concat]
        have positive := List.length_pos_iff.mpr
          (held.sound.whole any.peer pieces (pending ▸ List.mem_cons_self)).nonempty
        rw [longer, List.length_append, length_label] at later
        omega
      · rw [ledger.receive_pending_of_ne own]
        exact available

/-- Careful calls keep it so. -/
theorem Recoverable.step (held : Recoverable conv connection ledger)
    (careful : Careful connection action) (done : connection.step action = some after)
    (follows : Connection.Sound.Follows conv connection ledger after next) :
    Recoverable conv after next := by
  have receiver : ∀ side, _ := fun side => receiver_of_step (held.narrow side) careful done
  have fits : ∀ side, ∀ pieces ∈ next.pending side,
      pieces.length ≤ (after.host side.peer).rcvWnd.toNat := by
    intro side pieces member
    have wider := (receiver side.peer).1
    have old : pieces ∈ ledger.pending side → pieces.length ≤ (after.host side.peer).rcvWnd.toNat :=
      fun present => Nat.le_trans (held.fits side pieces present) wider
    cases follows.moves with
    | stay => exact old member
    | send any more posted count =>
        by_cases own : side = any
        · subst own
          rw [ledger.send_pending] at member
          rcases List.mem_append.mp member with before | new
          · exact old before
          · rw [List.mem_singleton.mp new, count]
            obtain ⟨message, rfl, bytes⟩ := send_of_post done posted
            rw [← bytes]
            exact Nat.le_trans careful.2.2 wider
        · rw [ledger.send_pending_of_ne own] at member
          exact old member
    | receive any more rest pending taken =>
        by_cases own : side = any.peer
        · subst own
          rw [ledger.receive_pending] at member
          exact old (pending ▸ List.mem_cons_of_mem more member)
        · rw [ledger.receive_pending_of_ne own] at member
          exact old member
  refine ⟨follows.sound, fun side => rangesHold_of_step (held.ranges side) done,
    fun side => (receiver side).2.1, ?_, fits, ?_⟩
  · intro side
    have near := held.near side
    cases follows.moves with
    | stay => exact near
    | send any pieces posted count =>
        by_cases own : side = any
        · subst own
          obtain ⟨message, rfl, bytes⟩ := send_of_post done posted
          have room := careful.2.1
          change fragmentsSent (connection.host side) + sendCount (connection.host side).mss.toNat
            message.bytes.length + 2 ^ 16 ≤ 2 ^ 31 at room
          rw [held.sound.fragmentsSent_eq side, bytes] at room
          rw [ledger.log_send, List.length_append, length_label, count]
          exact room
        · rw [ledger.log_send_of_ne own]
          exact near
    | receive any pieces rest pending taken =>
        rw [ledger.log_receive pending]
        exact near
  · rintro side ⟨seg, head, number⟩
    rcases (receiver side.peer).2.2 with stopped | ⟨nxt, queue, buf⟩
    · have full := stopped seg head number
      intro pieces first
      exact Nat.le_trans (fits side pieces (List.mem_of_mem_head? first)) full
    · rw [buf] at head
      rw [nxt] at number
      exact held.stays follows nxt queue ⟨seg, head, number⟩

theorem recoverable_of_run {actions : List Action}
    (replayed : Runs.run Connection.step (Connection.initial conv) actions = some after)
    (careful : Runs.Meets Connection.step Careful (Connection.initial conv) actions) :
    ∃ ledger, Recoverable conv after ledger := by
  have preserved : ∀ connection action next, (∃ ledger, Recoverable conv connection ledger) →
      Careful connection action → connection.step action = some next →
        ∃ ledger, Recoverable conv next ledger := by
    rintro connection action next ⟨ledger, held⟩ met done
    obtain ⟨after, follows⟩ := held.sound.step met.1 done
    exact ⟨after, held.step met done follows⟩
  exact Runs.invariant_of_meets preserved ⟨_, recoverable_initial conv⟩ careful replayed

end Steps

section Onwards

variable {conv : UInt32} {start connection middle after : Connection}
  {ledger between next : Ledger} {action : Action} {side : Side}

/-- What may still happen once no message is sent any more: the clocks go on, the users
receive, and datagrams arrive that have been output since `start`. -/
def Recovering (start : Connection) (_ : Connection) : Action → Prop
  | .update _ _ => True
  | .recv _ _ => True
  | .deliver side index => (start.wire side.peer).length ≤ index
  | _ => False

theorem Recovering.careful (met : Recovering start connection action) :
    Careful connection action := by
  cases action with
  | update | recv | deliver => exact ⟨trivial, trivial⟩
  | send | flush | setmtu | nodelay | interval | wndsize => exact met.elim

/-- What holds of a connection that has gone on from `start` in this way. -/
structure Recovery (conv : UInt32) (start connection : Connection) (ledger : Ledger) : Prop where
  recoverable : Recoverable conv connection ledger
  fresh : ∀ side, (start.wire side).length ≤ (connection.wire side).length
  posted : ∀ side, Mail.posted side connection.events = Mail.posted side start.events

structure Nearer (connection : Connection) (ledger : Ledger) (after : Connection) (next : Ledger)
    (side : Side) : Prop where
  pending : (next.pending side).length ≤ (ledger.pending side).length
  log : next.log side = ledger.log side
  nxt : (connection.host side.peer).rcvNxt.toNat ≤ (after.host side.peer).rcvNxt.toNat
  queue : (after.host side).sndQueue.segs.length ≤ (connection.host side).sndQueue.segs.length

def Gained (connection : Connection) (ledger : Ledger) (after : Connection) (next : Ledger)
    (side : Side) : Prop :=
  (next.pending side).length < (ledger.pending side).length ∨
    (connection.host side.peer).rcvNxt.toNat < (after.host side.peer).rcvNxt.toNat ∨
      (after.host side).sndQueue.segs.length < (connection.host side).sndQueue.segs.length

/-- How much of what one side has sent is still to be received, to arrive and to be
numbered. -/
def distance (connection : Connection) (ledger : Ledger) (side : Side) : Nat :=
  (ledger.pending side).length +
    ((ledger.log side).length - (connection.host side.peer).rcvNxt.toNat) +
      (connection.host side).sndQueue.segs.length

theorem Nearer.refl (connection : Connection) (ledger : Ledger) (side : Side) :
    Nearer connection ledger connection ledger side :=
  ⟨Nat.le_refl _, rfl, Nat.le_refl _, Nat.le_refl _⟩

theorem Nearer.trans (first : Nearer connection ledger middle between side)
    (second : Nearer middle between after next side) : Nearer connection ledger after next side :=
  ⟨Nat.le_trans second.pending first.pending, second.log.trans first.log,
    Nat.le_trans first.nxt second.nxt, Nat.le_trans second.queue first.queue⟩

theorem Nearer.gained (first : Nearer connection ledger middle between side)
    (second : Gained middle between after next side) :
    Gained connection ledger after next side :=
  second.imp (fun less => Nat.lt_of_lt_of_le less first.pending)
    (Or.imp (fun more => Nat.lt_of_le_of_lt first.nxt more)
      (fun less => Nat.lt_of_lt_of_le less first.queue))

theorem Nearer.distance_le (nearer : Nearer connection ledger after next side) :
    distance after next side ≤ distance connection ledger side := by
  obtain ⟨pending, log, nxt, queue⟩ := nearer
  unfold distance
  rw [log]
  omega

theorem Nearer.distance_lt (nearer : Nearer connection ledger after next side)
    (sound : after.Sound conv next) (gained : Gained connection ledger after next side) :
    distance after next side < distance connection ledger side := by
  have inside : (after.host side.peer).rcvNxt.toNat ≤ (next.log side).length :=
    (sound.peer side).receiver.inside
  obtain ⟨pending, log, nxt, queue⟩ := nearer
  unfold distance
  unfold Gained at gained
  rw [log] at inside ⊢
  omega

structure Onwards (conv : UInt32) (start connection : Connection) (ledger : Ledger)
    (after : Connection) (next : Ledger) : Prop where
  reaches : Runs.Reaches Connection.step (Recovering start) connection after
  held : Recovery conv start after next
  nearer : ∀ side, Nearer connection ledger after next side

theorem Recovery.refl (held : Recovery conv start connection ledger) :
    Onwards conv start connection ledger connection ledger :=
  ⟨Runs.Reaches.refl _, held, Nearer.refl connection ledger⟩

theorem Onwards.trans (first : Onwards conv start connection ledger middle between)
    (second : Onwards conv start middle between after next) :
    Onwards conv start connection ledger after next :=
  ⟨first.reaches.trans second.reaches, second.held,
    fun side => (first.nearer side).trans (second.nearer side)⟩

theorem queue_of_step (met : Recovering start connection action)
    (done : connection.step action = some after) (side : Side) :
    (after.host side).sndQueue.segs.length ≤ (connection.host side).sndQueue.segs.length := by
  obtain ⟨kcp, called, host⟩ := Connection.host_of_step done
  rw [host]
  by_cases own : action.side = side
  · subst own
    rw [Function.update_self]
    cases action with
    | update any current =>
        obtain ⟨⟨updated, datagrams⟩, updating, rfl⟩ := Option.map_eq_some_iff.mp called
        exact (noUserChange_ikcpUpdate updating).queue
    | recv any len =>
        cases called
        exact (noUserChange_ikcpRecv _ len).queue
    | deliver any index =>
        obtain ⟨⟨taken, code⟩, taking, rfl⟩ := Option.map_eq_some_iff.mp called
        exact (noUserChange_ikcpInput taking).queue
    | send | flush | setmtu | nodelay | interval | wndsize => exact met.elim
  · rw [Function.update_of_ne (Ne.symm own)]

theorem Recovery.step (held : Recovery conv start connection ledger)
    (met : Recovering start connection action) (done : connection.step action = some after)
    (follows : Connection.Sound.Follows conv connection ledger after next) :
    Onwards conv start connection ledger after next := by
  have silent : ∀ any message, action ≠ .send any message := by
    rintro any message rfl
    exact met.elim
  refine ⟨Runs.Reaches.single met done, ⟨held.recoverable.step met.careful done follows, ?_, ?_⟩, ?_⟩
  · exact fun side => Nat.le_trans (held.fresh side) (Connection.wire_prefix_of_step done side).length_le
  · intro side
    rw [← held.posted side]
    rcases events_of_step done with same | ⟨any, message, sent, _⟩ | ⟨any, len, bytes, _, events⟩
    · rw [same]
    · exact absurd sent (silent any message)
    · rw [events, Mail.posted_append]
      exact List.append_nil _
  · intro side
    have nxt := (follows.grows side.peer).nxt
    have queue := queue_of_step met done side
    cases follows.moves with
    | stay => exact ⟨Nat.le_refl _, rfl, nxt, queue⟩
    | send any pieces posted =>
        obtain ⟨message, sent, _⟩ := send_of_post done posted
        exact absurd sent (silent any message)
    | receive any pieces rest pending =>
        refine ⟨?_, ledger.log_receive pending side, nxt, queue⟩
        by_cases own : side = any.peer
        · subst own
          rw [ledger.receive_pending, pending]
          exact Nat.le_succ _
        · rw [ledger.receive_pending_of_ne own]

end Onwards

section Rounds

variable {conv : UInt32} {start connection : Connection} {ledger : Ledger} {side : Side}

def Progress (conv : UInt32) (start connection : Connection) (ledger : Ledger) (side : Side) :
    Prop :=
  ∃ after next, Onwards conv start connection ledger after next ∧
    Gained connection ledger after next side

theorem Onwards.progress {after : Connection} {next : Ledger}
    (onwards : Onwards conv start connection ledger after next)
    (progress : Progress conv start after next side) : Progress conv start connection ledger side := by
  obtain ⟨last, final, further, gained⟩ := progress
  exact ⟨last, final, onwards.trans further, (onwards.nearer side).gained gained⟩

theorem Recovery.receive (held : Recovery conv start connection ledger)
    (some : ledger.pending side ≠ []) (available : Available connection ledger side) :
    Progress conv start connection ledger side := by
  have sound := held.recoverable.sound
  obtain ⟨pieces, rest, pending⟩ := List.exists_cons_of_ne_nil some
  have arrived : pieces.length ≤ (connection.host side.peer).rcvQueue.segs.length := by
    apply available
    rw [pending, List.head?_cons]
    exact rfl
  have short : pieces.flatten.length < 2 ^ 31 :=
    (sound.whole side pieces (pending ▸ List.mem_cons_self)).short
  let len := Int32.ofNat pieces.flatten.length
  obtain ⟨after, next, done, follows⟩ := sound.recv side.peer len
  have met : Recovering start connection (.recv side.peer len) := trivial
  have onwards := held.step met done follows
  refine ⟨after, next, onwards, Or.inl ?_⟩
  -- the call hands the message over, so that the ledger changes
  have events : ∃ bytes, after.events = connection.events ++ [.take side.peer bytes] := by
    have room := Int.le_of_eq (bufferRoom_ofNat short).symm
    obtain ⟨kcp, received⟩ := sound.receivable pending arrived room
    simp only [Connection.step, len, received] at done
    rw [if_pos ⟨zero_le_ofNat short, zero_le_ofNat short⟩] at done
    cases done
    exact ⟨_, rfl⟩
  obtain ⟨bytes, events⟩ := events
  cases follows.moves with
  | stay same =>
      rw [same] at events
      have lengths := congrArg List.length events
      rw [List.length_append, List.length_singleton] at lengths
      omega
  | send any more posted =>
      rw [posted] at events
      cases List.append_cancel_left events
  | receive any more later first taken =>
      rw [taken] at events
      have event := List.append_cancel_left events
      simp only [List.cons.injEq, Event.take.injEq, and_true] at event
      have same : any.peer = side := by rw [event.1, Side.peer_peer]
      rw [same] at first ⊢
      rw [ledger.receive_pending, first]
      exact Nat.lt_succ_self _

def Ticked (kcp : IKCPCB) (time : UInt32) (timed : IKCPCB) : Prop :=
  ∃ current updated tsFlush, updated ≠ 0 ∧ 0 ≤ diff current time ∧
    timed = { kcp with current := current, updated := updated, tsFlush := tsFlush }

theorem Ticked.same {kcp timed : IKCPCB} {time : UInt32} (ticked : Ticked kcp time timed) :
    timed.sndBuf = kcp.sndBuf ∧ timed.sndQueue = kcp.sndQueue ∧ timed.rmtWnd = kcp.rmtWnd ∧
      timed.probeWait = kcp.probeWait := by
  obtain ⟨current, updated, tsFlush, _, _, rfl⟩ := ticked
  exact ⟨rfl, rfl, rfl, rfl⟩

theorem Ticked.resends {kcp timed : IKCPCB} {seg : IKCPSEG}
    (ticked : Ticked kcp seg.resendts timed) (member : seg ∈ kcp.sndBuf.segs) :
    ∃ renewed ∈ flushContents timed, renewed.stamp = seg.stamp := by
  obtain ⟨current, updated, tsFlush, _, due, rfl⟩ := ticked
  exact mem_flushContents_of_due member due

theorem Ticked.asks {kcp timed : IKCPCB} (ticked : Ticked kcp kcp.tsProbe timed)
    (closed : kcp.rmtWnd = 0) (waiting : kcp.probeWait ≠ 0) :
    ∃ seg ∈ flushContents timed, seg.cmd = IKCP_CMD_WASK := by
  obtain ⟨current, updated, tsFlush, _, due, rfl⟩ := ticked
  exact mem_flushContents_of_probe closed waiting due

theorem Ticked.speaks {kcp timed : IKCPCB} {time : UInt32} (ticked : Ticked kcp time timed)
    (speaks : Speaks kcp) : ∃ seg ∈ flushContents timed, True := by
  obtain ⟨current, updated, tsFlush, _, _, rfl⟩ := ticked
  have spoken : Speaks { kcp with current := current, updated := updated, tsFlush := tsFlush } :=
    speaks
  obtain ⟨seg, member⟩ := List.exists_mem_of_ne_nil _ spoken.contents
  exact ⟨seg, member, trivial⟩

theorem Recovery.flush (held : Recovery conv start connection ledger) (side : Side)
    (time : UInt32) :
    ∃ timed final after, Ticked (connection.host side) time timed ∧ AfterFlush timed final ∧
      Onwards conv start connection ledger after ledger ∧
      after.host = Function.update connection.host side final ∧
      ∀ seg ∈ flushContents timed, ∃ (index : Nat) (group : List IKCPSEG),
        (start.wire side).length ≤ index ∧
        (after.wire side)[index]? = some (group.flatMap IKCPSEG.wire) ∧ seg ∈ group ∧
        ∀ other ∈ group, other ∈ flushContents timed := by
  have sound := held.recoverable.sound
  obtain ⟨current, updated, tsFlush, started, due, flushes⟩ :=
    ikcpUpdate_flushes (connection.host side) time
  obtain ⟨after, done, follows⟩ := sound.update side current
  have met : Recovering start connection (.update side current) := trivial
  have onwards := held.step met done follows
  have frame : Frame (connection.host side) { connection.host side with
      current := current, updated := updated, tsFlush := tsFlush } := ⟨rfl, rfl⟩
  obtain ⟨final, datagrams, flushed, _⟩ := ikcpFlush_sound (sound.small side)
    (sound.small side.peer) ((sound.right side).frame frame)
  obtain ⟨packs, left⟩ := ikcpFlush_leaves started flushed
  simp only [Connection.step, flushes, flushed] at done
  cases done
  refine ⟨_, final, _, ⟨current, updated, tsFlush, started, due, rfl⟩, left, onwards, rfl, ?_⟩
  intro seg member
  obtain ⟨index, group, found, inside, all⟩ := packs.group member
  refine ⟨(connection.wire side).length + index, group, ?_, ?_, inside, all⟩
  · exact Nat.le_add_right_of_le (held.fresh side)
  · change (Function.update connection.wire side (connection.wire side ++ datagrams) side)[_]? = _
    rw [Function.update_self, List.getElem?_append_right (Nat.le_add_right _ _),
      Nat.add_sub_cancel_left]
    exact found

theorem Recovery.deliver (held : Recovery conv start connection ledger) (side : Side) {index : Nat}
    {group : List IKCPSEG} (fresh : (start.wire side.peer).length ≤ index)
    (found : (connection.wire side.peer)[index]? = some (group.flatMap IKCPSEG.wire)) :
    ∃ next, ikcpInput (connection.host side) (group.flatMap IKCPSEG.wire) = some (next, 0) ∧
      Onwards conv start connection ledger (connection.become side next) ledger := by
  have sound := held.recoverable.sound
  obtain ⟨next, taken, _⟩ := sound.ikcpInput_eq side (List.mem_of_getElem? found)
  obtain ⟨present, _⟩ := List.getElem?_eq_some_iff.mp found
  obtain ⟨after, done, follows⟩ := sound.deliver side present
  have met : Recovering start connection (.deliver side index) := fresh
  have onwards := held.step met done follows
  simp only [Connection.step, found, taken] at done
  cases done
  exact ⟨next, taken, onwards⟩

/-- One side flushes, and one of its datagrams arrives at the other. -/
structure Exchanged (conv : UInt32) (start connection : Connection) (ledger : Ledger)
    (side : Side) (group : List IKCPSEG) (after : Connection) : Prop where
  honest : ∀ seg ∈ group, Honest conv (ledger.log side) (connection.host side).receiver.Has seg
  tells : ∀ seg ∈ group, seg.una = (connection.host side).rcvNxt ∧
    seg.wnd = ikcpWndUnused (connection.host side)
  taken : ikcpInput (connection.host side.peer) (group.flatMap IKCPSEG.wire) =
    some (after.host side.peer, 0)
  onwards : Onwards conv start connection ledger after ledger

theorem Recovery.exchange (held : Recovery conv start connection ledger) (side : Side)
    (time : UInt32) (picks : IKCPSEG → Prop)
    (some : ∀ timed, Ticked (connection.host side) time timed → ∃ seg ∈ flushContents timed, picks seg) :
    ∃ group seg after, seg ∈ group ∧ picks seg ∧
      Exchanged conv start connection ledger side group after := by
  have sound := held.recoverable.sound
  obtain ⟨timed, final, flushed, ticked, _, onwards, host, sends⟩ := held.flush side time
  obtain ⟨seg, member, picked⟩ := some timed ticked
  obtain ⟨index, group, fresh, found, inside, all⟩ := sends seg member
  have wire : (flushed.wire side.peer.peer)[index]? = .some (group.flatMap IKCPSEG.wire) := by
    rw [Side.peer_peer]
    exact found
  have later : (start.wire side.peer.peer).length ≤ index := by
    rw [Side.peer_peer]
    exact fresh
  obtain ⟨next, taken, further⟩ := onwards.held.deliver side.peer later wire
  have peer : flushed.host side.peer = connection.host side.peer := by
    rw [host]
    exact Function.update_of_ne (Side.peer_ne side) ..
  have self : (flushed.become side.peer next).host side.peer = next := Function.update_self ..
  obtain ⟨current, updated, tsFlush, _, _, rfl⟩ := ticked
  have frame : Frame (connection.host side) { connection.host side with
      current := current, updated := updated, tsFlush := tsFlush } := ⟨rfl, rfl⟩
  refine ⟨group, seg, flushed.become side.peer next, inside, picked, ?_, ?_, ?_, onwards.trans further⟩
  · intro other contained
    have honest := flushContents_honest (sound.small side) (sound.small side.peer)
      ((sound.right side).frame frame) (all other contained)
    rw [← sound.sameConv side]
    exact honest
  · intro other contained
    have told := flushContents_tells (all other contained)
    exact told
  · rw [self, ← peer]
    exact taken

theorem Recovery.available (held : Recovery conv start connection ledger) (side : Side)
    (has : (connection.host side.peer).receiver.Has (connection.host side.peer).rcvNxt.toNat) :
    Available connection ledger side :=
  held.recoverable.stuck side ((held.recoverable.sound.peer side).receiver.head_of_has has)

/-- A fragment that is numbered and has not arrived is sent again, and arrives. -/
theorem Recovery.resend (held : Recovery conv start connection ledger)
    (some : ledger.pending side ≠ [])
    (behind : (connection.host side.peer).rcvNxt.toNat < (connection.host side).sndNxt.toNat) :
    Progress conv start connection ledger side := by
  have sound := held.recoverable.sound
  have sender := (sound.right side).sender
  rcases sender.kept _ behind with has | ⟨seg, member, number⟩
  · exact held.receive some (held.available side has)
  · obtain ⟨group, sent, after, inside, ⟨pushed, same⟩, exchanged⟩ := held.exchange side seg.resendts
      (fun sent => sent.cmd = IKCP_CMD_PUSH ∧ sent.sn = seg.sn) (by
        intro timed ticked
        obtain ⟨renewed, present, stamp⟩ := ticked.resends member
        obtain ⟨_, cmd, sn, _⟩ := of_stamp_eq stamp
        exact ⟨renewed, present, cmd.trans (sender.pushes seg member).2, sn⟩)
    have sameNumber : sent.sn.toNat = (connection.host side.peer).rcvNxt.toNat := by
      rw [same]
      exact number
    have conv := sound.sameConv side.peer
    obtain ⟨final, taken, has⟩ := ikcpInput_has (sound.small side.peer) (sound.small side)
      (sound.peer side) (by rw [conv]; exact exchanged.honest) inside pushed
      (held.recoverable.ranges side.peer).sane.rcvWnd (Nat.le_of_eq sameNumber)
    rw [exchanged.taken] at taken
    cases taken
    rw [sameNumber] at has
    have onwards := exchanged.onwards
    rcases Nat.lt_or_eq_of_le (onwards.nearer side).nxt with more | stays
    · exact ⟨after, ledger, onwards, Or.inr (Or.inl more)⟩
    · rw [stays] at has
      exact onwards.progress (onwards.held.receive some (onwards.held.available side has))

/-- Neither receiving nor sending again helps: all that is numbered has arrived, there is
room for more, and more is waiting. -/
structure Blocked (connection : Connection) (side : Side) : Prop where
  covered : (connection.host side).sndNxt.toNat ≤ (connection.host side.peer).rcvNxt.toNat
  room : (connection.host side.peer).rcvQueue.segs.length <
    (connection.host side.peer).rcvWnd.toNat
  waiting : (connection.host side).sndQueue.segs ≠ []

theorem Recovery.progress_or_blocked (held : Recovery conv start connection ledger)
    (some : ledger.pending side ≠ []) :
    Progress conv start connection ledger side ∨ Blocked connection side := by
  have sound := held.recoverable.sound
  by_cases available : Available connection ledger side
  · exact Or.inl (held.receive some available)
  · rcases Nat.lt_or_ge (connection.host side.peer).rcvNxt.toNat
      (connection.host side).sndNxt.toNat with behind | covered
    · exact Or.inl (held.resend some behind)
    · refine Or.inr ⟨covered, ?_, ?_⟩
      · by_contra full
        apply available
        intro pieces first
        have fits := held.recoverable.fits side pieces (List.mem_of_mem_head? first)
        exact Nat.le_trans fits (Nat.not_lt.mp full)
      · intro none
        apply available
        intro pieces first
        -- all that has been sent has arrived
        have numbered := sound.fragmentsSent_eq side
        have arrived := sound.length_received side
        have total := Connection.Sound.length_log ledger side
        obtain ⟨rest, pending⟩ := List.head?_eq_some_iff.mp first
        have message : pieces.length ≤ (stream (ledger.pending side)).length := by
          rw [pending, stream, List.flatMap_cons, List.length_append, length_label]
          exact Nat.le_add_right _ _
        rw [fragmentsSent, none, List.length_nil] at numbered
        omega

theorem Recovery.settle_open (held : Recovery conv start connection ledger)
    (idle : (connection.host side).sndBuf.segs = []) (waiting : (connection.host side).sndQueue.segs ≠ [])
    (remote : 0 < (connection.host side).rmtWnd.toNat) (cwnd : 0 < (connection.host side).cwnd.toNat) :
    Progress conv start connection ledger side := by
  obtain ⟨timed, final, after, ticked, left, onwards, host, _⟩ := held.flush side 0
  have ranges := held.recoverable.ranges side
  obtain ⟨current, updated, tsFlush, _, _, rfl⟩ := ticked
  have less := left.shrinks ⟨ranges.sane, ranges.tight⟩ idle waiting remote cwnd
  refine ⟨after, ledger, onwards, Or.inr (Or.inr ?_)⟩
  rw [host, Function.update_self]
  exact less

theorem Recovery.settle (held : Recovery conv start connection ledger)
    (idle : (connection.host side).sndBuf.segs = []) (waiting : (connection.host side).sndQueue.segs ≠ [])
    (remote : 0 < (connection.host side).rmtWnd.toNat) :
    Progress conv start connection ledger side := by
  obtain ⟨timed, final, after, ticked, left, onwards, host, _⟩ := held.flush side 0
  have self : after.host side = final := by
    rw [host, Function.update_self]
  have total := left.total
  obtain ⟨sameBuf, sameQueue, sameWnd, _⟩ := ticked.same
  rw [sameBuf, sameQueue, idle, List.length_nil] at total
  have positive := List.length_pos_iff.mpr waiting
  by_cases numbered : final.sndQueue.segs.length < (connection.host side).sndQueue.segs.length
  · refine ⟨after, ledger, onwards, Or.inr (Or.inr ?_)⟩
    rw [self]
    exact numbered
  · apply onwards.progress
    apply onwards.held.settle_open <;> rw [self]
    · apply List.eq_nil_of_length_eq_zero
      omega
    · apply List.ne_nil_of_length_pos
      omega
    · have window : final.rmtWnd = timed.rmtWnd := congrArg Settings.rmtWnd left.settings
      rw [window, sameWnd]
      exact remote
    · exact left.cwnd

theorem Recovery.answer (held : Recovery conv start connection ledger)
    (some : ledger.pending side ≠ []) (blocked : Blocked connection side)
    (speaks : Speaks (connection.host side.peer)) : Progress conv start connection ledger side := by
  have sound := held.recoverable.sound
  obtain ⟨group, seg, after, inside, _, exchanged⟩ := held.exchange side.peer 0 (fun _ => True)
    (fun timed ticked => ticked.speaks speaks)
  have taken := exchanged.taken
  rw [Side.peer_peer] at taken
  have conv := sound.sameConv side
  obtain ⟨final, same, empty, window⟩ := ikcpInput_empties (sound.small side)
    (sound.small side.peer) (sound.right side) (by rw [conv]; exact exchanged.honest)
    (List.ne_nil_of_mem inside) exchanged.tells blocked.covered
  rw [taken] at same
  cases same
  have told : 0 < (after.host side).rmtWnd.toNat := by
    rw [window]
    exact told_window_pos (held.recoverable.narrow side.peer) blocked.room
  have onwards := exchanged.onwards
  apply onwards.progress
  rcases onwards.held.progress_or_blocked some with progress | further
  · exact progress
  · exact onwards.held.settle empty further.waiting told

theorem Recovery.prompt (held : Recovery conv start connection ledger)
    (some : ledger.pending side ≠ []) (time : UInt32)
    (prompts : ∀ timed, Ticked (connection.host side) time timed →
      ∃ seg ∈ flushContents timed, Prompts (connection.host side.peer).rcvNxt.toNat seg) :
    Progress conv start connection ledger side := by
  have sound := held.recoverable.sound
  obtain ⟨group, seg, after, inside, prompting, exchanged⟩ := held.exchange side time _ prompts
  have conv := sound.sameConv side.peer
  have narrow := held.recoverable.narrow side.peer
  have near := held.recoverable.near side
  obtain ⟨final, same, speaks⟩ := ikcpInput_speaks (sound.small side.peer) (by omega)
    (sound.peer side) (by rw [conv]; exact exchanged.honest) inside prompting
  rw [exchanged.taken] at same
  cases same
  have onwards := exchanged.onwards
  apply onwards.progress
  rcases onwards.held.progress_or_blocked some with progress | blocked
  · exact progress
  · exact onwards.held.answer some blocked speaks

theorem Recovery.prompt_again (held : Recovery conv start connection ledger)
    (some : ledger.pending side ≠ []) (blocked : Blocked connection side)
    (flight : (connection.host side).sndBuf.segs ≠ []) :
    Progress conv start connection ledger side := by
  have sender := (held.recoverable.sound.right side).sender
  obtain ⟨seg, member⟩ := List.exists_mem_of_ne_nil _ flight
  apply held.prompt some seg.resendts
  intro timed ticked
  obtain ⟨renewed, present, stamp⟩ := ticked.resends member
  obtain ⟨_, cmd, sn, _⟩ := of_stamp_eq stamp
  have below : seg.sn.toNat < (connection.host side).sndNxt.toNat := sender.below seg member
  refine ⟨renewed, present, Or.inr ⟨cmd.trans (sender.pushes seg member).2, ?_⟩⟩
  rw [sn]
  exact Nat.lt_of_lt_of_le below blocked.covered

/-- A side that waits for a window asks for it, and prompts the other side. -/
theorem Recovery.prompt_window (held : Recovery conv start connection ledger)
    (some : ledger.pending side ≠ []) (closed : (connection.host side).rmtWnd = 0)
    (waiting : (connection.host side).probeWait ≠ 0) :
    Progress conv start connection ledger side := by
  apply held.prompt some (connection.host side).tsProbe
  intro timed ticked
  obtain ⟨seg, member, asks⟩ := ticked.asks closed waiting
  exact ⟨seg, member, Or.inl asks⟩

/-- As long as a message has not been received, there is a way on. -/
theorem Recovery.progress (held : Recovery conv start connection ledger)
    (some : ledger.pending side ≠ []) : Progress conv start connection ledger side := by
  rcases held.progress_or_blocked some with progress | blocked
  · exact progress
  · by_cases idle : (connection.host side).sndBuf.segs = []
    · by_cases closed : (connection.host side).rmtWnd = 0
      · by_cases waiting : (connection.host side).probeWait = 0
        · -- a first flush begins to wait for the window
          obtain ⟨timed, final, after, ticked, left, onwards, host, _⟩ := held.flush side 0
          have self : after.host side = final := by
            rw [host, Function.update_self]
          obtain ⟨_, _, sameWnd, sameWait⟩ := ticked.same
          have window : final.rmtWnd = timed.rmtWnd := congrArg Settings.rmtWnd left.settings
          apply onwards.progress
          apply onwards.held.prompt_window some <;> rw [self]
          · exact window.trans (sameWnd.trans closed)
          · exact left.waits (sameWnd.trans closed) (sameWait.trans waiting)
        · exact held.prompt_window some closed waiting
      · apply held.settle idle blocked.waiting
        by_contra zero
        exact closed (UInt32.toNat_inj.mp (Nat.eq_zero_of_not_pos zero))
    · exact held.prompt_again some blocked idle

end Rounds

section Recovering

variable {conv : UInt32} {connection state : Connection} {ledger : Ledger} {actions : List Action}

def OnTheWay (conv : UInt32) (start connection : Connection) (rank : Nat) : Prop :=
  ∃ ledger, Recovery conv start connection ledger ∧
    rank = distance connection ledger .left + distance connection ledger .right

theorem Recovery.descends {side : Side} (held : Recovery conv connection state ledger)
    (some : ledger.pending side ≠ []) :
    ∃ next lower, Runs.Reaches Connection.step (Recovering connection) state next ∧
      OnTheWay conv connection next lower ∧
        lower < distance state ledger .left + distance state ledger .right := by
  obtain ⟨after, next, onwards, gained⟩ := held.progress some
  have less := (onwards.nearer side).distance_lt onwards.held.recoverable.sound gained
  have left := (onwards.nearer .left).distance_le
  have right := (onwards.nearer .right).distance_le
  refine ⟨after, _, onwards.reaches, ⟨next, onwards.held, rfl⟩, ?_⟩
  cases side <;> omega

theorem Recovery.delivered (held : Recovery conv connection state ledger)
    (none : ∀ side, ledger.pending side = []) (side : Side) :
    Mail.taken side.peer state.events = Mail.posted side connection.events := by
  have all := Mail.posted_eq held.recoverable.sound.mail side
  have empty : ledger.mail side = [] := by
    simp only [Ledger.mail, none side, List.map_nil]
  rw [empty, List.append_nil] at all
  rw [← held.posted side]
  exact all.symm

/-- Whatever has been lost, all messages that have been sent can still be received, each
once and in order: there is a way on of nothing but updates, receives and datagrams that
are output on this way. -/
theorem deliverable_of_run
    (replayed : Runs.run Connection.step (Connection.initial conv) actions = some connection)
    (careful : Runs.Meets Connection.step Careful (Connection.initial conv) actions) :
    ∃ final, Runs.Reaches Connection.step (Recovering connection) connection final ∧
      ∀ side, Mail.taken side.peer final.events = Mail.posted side connection.events := by
  obtain ⟨first, recoverable⟩ := recoverable_of_run replayed careful
  have start : OnTheWay conv connection connection _ :=
    ⟨first, ⟨recoverable, fun _ => Nat.le_refl _, fun _ => rfl⟩, rfl⟩
  apply Runs.reaches_of_rank _ start
  rintro state rank ⟨ledger, held, rfl⟩
  by_cases none : ∀ side, ledger.pending side = []
  · exact Or.inl (held.delivered none)
  · obtain ⟨side, some⟩ := not_forall.mp none
    exact Or.inr (held.descends some)

/-- Where the segment numbered `rcv_nxt` waits in `rcv_buf`, the next message is complete
in `rcv_queue` and can be received. -/
theorem next_receivable
    (replayed : Runs.run Connection.step (Connection.initial conv) actions = some connection)
    (careful : Runs.Meets Connection.step Careful (Connection.initial conv) actions)
    (side : Side) (seg : IKCPSEG) (arrived : seg ∈ (connection.host side.peer).rcvBuf.segs)
    (next : seg.sn = (connection.host side.peer).rcvNxt) :
    ∃ message rest, Mail.posted side connection.events =
        Mail.taken side.peer connection.events ++ message :: rest ∧
      ∀ len : Int32, (message.length : Int) ≤ (bufferRoom len).toInt → ∃ after,
        ikcpRecv (connection.host side.peer) len =
          (after, Int32.ofNat message.length, message) := by
  obtain ⟨ledger, recoverable⟩ := recoverable_of_run replayed careful
  have sound := recoverable.sound
  have receiver := (sound.peer side).receiver
  have has : (connection.host side.peer).receiver.Has (connection.host side.peer).rcvNxt.toNat :=
    Or.inr ⟨seg, arrived, congrArg UInt32.toNat next⟩
  have available := recoverable.stuck side (receiver.head_of_has has)
  have inside : (connection.host side.peer).rcvNxt.toNat < (ledger.log side).length := by
    rw [← next]
    exact (List.getElem?_eq_some_iff.mp (receiver.early seg arrived)).1
  have received := sound.length_received side
  have total := Connection.Sound.length_log ledger side
  cases pending : ledger.pending side with
  | nil =>
      have none : (stream ([] : List (List (List UInt8)))).length = 0 := rfl
      rw [pending, none] at total
      omega
  | cons pieces rest =>
      refine ⟨pieces.flatten, rest.map List.flatten, ?_, ?_⟩
      · have posted := Mail.posted_eq sound.mail side
        rw [Ledger.mail, pending, List.map_cons] at posted
        exact posted
      · intro len room
        exact sound.receivable pending (available pieces (by rw [pending]; rfl)) room

/-- A reordered datagram makes the left side send beyond the window of the right side. -/
def crowded : List Action :=
  [.wndsize .left 64 0, .nodelay .left 1 10 0 1, .nodelay .right 1 10 0 1, .send .right (.ofByte 1),
    .update .right 0] ++ List.replicate 33 (.send .left (.ofByte 2)) ++
  [.update .left 0, .deliver .right 0, .update .right 10, .deliver .left 1, .deliver .left 0,
    .update .left 10, .deliver .right 1]

theorem next_receivable_crowded :
    ∃ connection, Runs.run Connection.step (Connection.initial 7) crowded = some connection ∧
      ∃ message rest, Mail.posted .left connection.events =
          Mail.taken .right connection.events ++ message :: rest ∧
        ∀ len : Int32, (message.length : Int) ≤ (bufferRoom len).toInt → ∃ after,
          ikcpRecv (connection.host .right) len =
            (after, Int32.ofNat message.length, message) := by
  have seen : (Runs.run Connection.step (Connection.initial 7) crowded).map (fun connection =>
      ((connection.host .right).rcvBuf.segs.map IKCPSEG.sn, (connection.host .right).rcvNxt)) =
        some ([32], 32) := by decide +kernel
  obtain ⟨connection, replayed, same⟩ := Option.map_eq_some_iff.mp seen
  obtain ⟨numbers, nxt⟩ := Prod.mk.inj same
  have one : 32 ∈ (connection.host .right).rcvBuf.segs.map IKCPSEG.sn := by
    rw [numbers]
    exact List.mem_singleton_self 32
  obtain ⟨seg, arrived, number⟩ := List.mem_map.mp one
  exact ⟨connection, replayed, next_receivable replayed (by decide +kernel) .left seg arrived
    (number.trans nxt.symm)⟩

theorem deliverable_of_run_lost :
    ∃ connection, Runs.run Connection.step (Connection.initial 7) oneMessage = some connection ∧
      ∃ final, Runs.Reaches Connection.step (Recovering connection) connection final ∧
        ∀ side, Mail.taken side.peer final.events = Mail.posted side connection.events := by
  obtain ⟨connection, replayed⟩ := Option.isSome_iff_exists.mp (by decide +kernel :
    (Runs.run Connection.step (Connection.initial 7) oneMessage).isSome = true)
  exact ⟨connection, replayed, deliverable_of_run replayed (by decide +kernel)⟩

end Recovering

end TalkingTime.Kcp

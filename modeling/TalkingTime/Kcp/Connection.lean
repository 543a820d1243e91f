import TalkingTime.Kcp.Handover
import TalkingTime.Library.Mail

/-! Two control blocks of one conversation and a network between them that may lose,
duplicate, delay and reorder datagrams, but does not change them. -/

namespace TalkingTime.Kcp

open Mail (Side Event)

/-- `wire` holds every datagram that a side has output so far: any of them may arrive
at any time, any number of times or never. `events` is a history of what the users
of the two sides have sent and received. -/
structure Connection where
  host : Side → IKCPCB
  wire : Side → List (List UInt8)
  events : List (Event (List UInt8))

def Connection.initial (conv : UInt32) : Connection :=
  ⟨fun _ => ikcpCreate conv, fun _ => [], []⟩

/-- The calls on one of the two sides. `deliver` is `ikcp_input` with a datagram of
the other side. -/
inductive Action where
  | send (side : Side) (message : Message)
  | recv (side : Side) (len : Int32)
  | deliver (side : Side) (index : Nat)
  | update (side : Side) (current : UInt32)
  | flush (side : Side)
  | setmtu (side : Side) (mtu : Int32)
  | nodelay (side : Side) (nodelay interval resend nc : Int32)
  | interval (side : Side) (interval : Int32)
  | wndsize (side : Side) (sndwnd rcvwnd : Int32)
  deriving DecidableEq, Repr

namespace Connection

variable (connection : Connection)

def become (side : Side) (next : IKCPCB) : Connection :=
  { connection with host := Function.update connection.host side next }

def record (event : Event (List UInt8)) : Connection :=
  { connection with events := connection.events ++ [event] }

def output (side : Side) (datagrams : List (List UInt8)) : Connection :=
  { connection with
      wire := Function.update connection.wire side (connection.wire side ++ datagrams) }

/-- One call. It is not enabled (`none`) where it delivers a datagram that there is
not, or where the source is undefined. -/
def step : Action → Option Connection
  | .send side message =>
      match ikcpSend (connection.host side) message.bytes message.len with
      | none => none
      | some (next, code) =>
          let after := connection.become side next
          some (if code = 0 then after.record (.post side message.bytes) else after)
  | .recv side len =>
      match ikcpRecv (connection.host side) len with
      | (next, code, bytes) =>
          let after := connection.become side next
          some (if 0 ≤ code ∧ 0 ≤ len then after.record (.take side bytes) else after)
  | .deliver side index =>
      match (connection.wire side.peer)[index]? with
      | none => none
      | some data =>
          match ikcpInput (connection.host side) data with
          | none => none
          | some (next, _) => some (connection.become side next)
  | .update side current =>
      match ikcpUpdate (connection.host side) current with
      | none => none
      | some (next, datagrams) => some ((connection.become side next).output side datagrams)
  | .flush side =>
      match ikcpFlush (connection.host side) with
      | none => none
      | some (next, datagrams) => some ((connection.become side next).output side datagrams)
  | .setmtu side mtu => some (connection.become side (ikcpSetmtu (connection.host side) mtu).1)
  | .nodelay side nodelay interval resend nc =>
      some (connection.become side (ikcpNodelay (connection.host side) nodelay interval resend nc))
  | .interval side interval =>
      some (connection.become side (ikcpInterval (connection.host side) interval))
  | .wndsize side sndwnd rcvwnd =>
      some (connection.become side (ikcpWndsize (connection.host side) sndwnd rcvwnd))

end Connection

def fragmentsSent (kcp : IKCPCB) : Nat := kcp.sndNxt.toNat + kcp.sndQueue.segs.length

/-- What the users have to see to: fewer than `2 ^ 31` fragments are sent each way, and
the MTU is changed only where it fits. -/
def Permitted (connection : Connection) : Action → Prop
  | .send side message =>
      let kcp := connection.host side
      fragmentsSent kcp + sendCount kcp.mss.toNat message.bytes.length < 2 ^ 31
  | .setmtu side mtu => MtuFits (connection.host side) mtu
  | _ => True

instance (connection : Connection) : (action : Action) → Decidable (Permitted connection action)
  | .send _ _ => inferInstanceAs (Decidable (_ < _))
  | .setmtu side mtu => inferInstanceAs (Decidable (MtuFits (connection.host side) mtu))
  | .recv _ _ | .deliver _ _ | .update _ _ | .flush _ | .nodelay _ _ _ _ _ | .interval _ _
  | .wndsize _ _ _ => isTrue trivial

/-- The messages of the two sides, cut into pieces: those of a side that the other one
has received, and those that it has not yet received. -/
structure Ledger where
  received : Side → List (List (List UInt8))
  pending : Side → List (List (List UInt8))

namespace Ledger

variable (ledger : Ledger)

def messages (side : Side) : List (List (List UInt8)) := ledger.received side ++ ledger.pending side

def log (side : Side) : Log := Countdown.stream (ledger.messages side)

def send (side : Side) (pieces : List (List UInt8)) : Ledger :=
  { ledger with pending := Function.update ledger.pending side (ledger.pending side ++ [pieces]) }

def receive (side : Side) (pieces : List (List UInt8)) (later : List (List (List UInt8))) :
    Ledger where
  received := Function.update ledger.received side (ledger.received side ++ [pieces])
  pending := Function.update ledger.pending side later

def mail (side : Side) : List (List UInt8) := (ledger.pending side).map List.flatten

variable {side other : Side} {pieces : List (List UInt8)} {later : List (List (List UInt8))}

theorem send_pending :
    (ledger.send side pieces).pending side = ledger.pending side ++ [pieces] :=
  Function.update_self ..

theorem send_pending_of_ne (apart : other ≠ side) :
    (ledger.send side pieces).pending other = ledger.pending other :=
  Function.update_of_ne apart ..

theorem receive_received :
    (ledger.receive side pieces later).received side = ledger.received side ++ [pieces] :=
  Function.update_self ..

theorem receive_received_of_ne (apart : other ≠ side) :
    (ledger.receive side pieces later).received other = ledger.received other :=
  Function.update_of_ne apart ..

theorem receive_pending : (ledger.receive side pieces later).pending side = later :=
  Function.update_self ..

theorem receive_pending_of_ne (apart : other ≠ side) :
    (ledger.receive side pieces later).pending other = ledger.pending other :=
  Function.update_of_ne apart ..

theorem messages_send :
    (ledger.send side pieces).messages side = ledger.messages side ++ [pieces] := by
  have received : (ledger.send side pieces).received = ledger.received := rfl
  rw [messages, messages, send_pending, received, List.append_assoc]

theorem messages_send_of_ne (apart : other ≠ side) :
    (ledger.send side pieces).messages other = ledger.messages other := by
  have received : (ledger.send side pieces).received = ledger.received := rfl
  rw [messages, messages, send_pending_of_ne ledger apart, received]

theorem messages_receive (next : ledger.pending side = pieces :: later) (any : Side) :
    (ledger.receive side pieces later).messages any = ledger.messages any := by
  rw [messages, messages]
  by_cases own : any = side
  · subst own
    rw [receive_received, receive_pending, next, List.append_assoc]
    rfl
  · rw [receive_received_of_ne ledger own, receive_pending_of_ne ledger own]

theorem log_send : (ledger.send side pieces).log side = ledger.log side ++ Countdown.label pieces := by
  rw [log, log, messages_send, Countdown.stream_concat]

theorem log_send_of_ne (apart : other ≠ side) :
    (ledger.send side pieces).log other = ledger.log other := by
  rw [log, log, messages_send_of_ne ledger apart]

theorem log_receive (next : ledger.pending side = pieces :: later) (any : Side) :
    (ledger.receive side pieces later).log any = ledger.log any := by
  rw [log, log, messages_receive ledger next]

theorem mail_send :
    Mail.step ledger.mail (.post side pieces.flatten) = some (ledger.send side pieces).mail := by
  refine congrArg some (funext fun any => ?_)
  by_cases own : any = side
  · subst own
    rw [Function.update_self, mail, mail, send_pending, List.map_append, List.map_singleton]
  · rw [Function.update_of_ne own, mail, mail, send_pending_of_ne ledger own]

theorem mail_receive (next : ledger.pending side = pieces :: later) :
    Mail.step ledger.mail (.take side.peer pieces.flatten) =
      some (ledger.receive side pieces later).mail := by
  have head : ledger.mail side = pieces.flatten :: later.map List.flatten := by
    rw [mail, next, List.map_cons]
  have taken : Mail.step ledger.mail (.take side.peer pieces.flatten) =
      some (Function.update ledger.mail side (later.map List.flatten)) := by
    simp only [Mail.step, Side.peer_peer, head, if_true]
  rw [taken]
  refine congrArg some (funext fun any => ?_)
  by_cases own : any = side
  · subst own
    rw [Function.update_self, mail, receive_pending]
  · rw [Function.update_of_ne own, mail, mail, receive_pending_of_ne ledger own]

/-- How one call changes the ledger and the history. A message that `ikcp_recv` hands
over is in `rcv_queue` with all its pieces. -/
inductive Moves (connection after : Connection) : Ledger → Prop where
  | stay (same : after.events = connection.events) : Moves connection after ledger
  | send (side : Side) (pieces : List (List UInt8))
      (posted : after.events = connection.events ++ [.post side pieces.flatten])
      (count : pieces.length = sendCount (connection.host side).mss.toNat pieces.flatten.length) :
      Moves connection after (ledger.send side pieces)
  | receive (side : Side) (pieces : List (List UInt8)) (later : List (List (List UInt8)))
      (next : ledger.pending side.peer = pieces :: later)
      (taken : after.events = connection.events ++ [.take side pieces.flatten])
      (held : pieces.length ≤ (connection.host side).rcvQueue.segs.length) :
      Moves connection after (ledger.receive side.peer pieces later)

theorem Moves.messages_prefix {ledger next : Ledger} {connection after : Connection}
    (moves : ledger.Moves connection after next) (any : Side) :
    ledger.messages any <+: next.messages any := by
  cases moves with
  | stay => exact List.prefix_refl _
  | send side pieces =>
      by_cases own : any = side
      · subst own
        rw [messages_send]
        exact List.prefix_append _ _
      · simp only [messages_send_of_ne ledger own, List.prefix_refl]
  | receive side pieces later first =>
      simp only [messages_receive ledger first any, List.prefix_refl]

end Ledger

/-- What holds of a connection in every reachable state, for some ledger. -/
structure Connection.Sound (conv : UInt32) (connection : Connection) (ledger : Ledger) :
    Prop where
  sameConv : ∀ side, (connection.host side).conv = conv
  small : ∀ side, (ledger.log side).length < 2 ^ 31
  whole : ∀ side, ∀ pieces ∈ ledger.pending side, MessagePieces pieces
  right : ∀ side, HalvesSound (ledger.log side) (ledger.log side.peer)
    (Countdown.stream (ledger.received side.peer)) (connection.host side.peer).receiver.Has
    (connection.host side)
  wire : ∀ side, ∀ data ∈ connection.wire side, data ≠ [] ∧
    Carries (Honest conv (ledger.log side) (connection.host side).receiver.Has) data
  mail : Runs.run Mail.step Mail.empty connection.events = some ledger.mail

end TalkingTime.Kcp

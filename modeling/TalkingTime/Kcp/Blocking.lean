import TalkingTime.Kcp.Endpoint
import TalkingTime.Kcp.Reliability

/-! `ikcp_send` takes a message of up to 255 pieces, but one of more pieces than the
window of the receiver is never handed over: it blocks itself and all messages behind it. -/

namespace TalkingTime.Kcp

open Mail (Side)
open Serial

def Action.side : Action → Side
  | .send side _ => side
  | .recv side _ => side
  | .deliver side _ => side
  | .update side _ => side
  | .flush side => side
  | .setmtu side _ => side
  | .nodelay side _ _ _ _ => side
  | .interval side _ => side
  | .wndsize side _ _ => side

namespace Connection

variable {connection after : Connection}

def called (connection : Connection) : Action → Call
  | .send _ message => .send message
  | .recv _ len => .recv len
  | .deliver side index => .input ((connection.wire side.peer)[index]?.getD [])
  | .update _ current => .update current
  | .flush _ => .flush
  | .setmtu _ mtu => .setmtu mtu
  | .nodelay _ nodelay interval resend nc => .nodelay nodelay interval resend nc
  | .interval _ interval => .interval interval
  | .wndsize _ sndwnd rcvwnd => .wndsize sndwnd rcvwnd

/-- An action is a call on one control block and leaves the other one alone. -/
theorem host_of_step {action : Action} (done : connection.step action = some after) :
    ∃ next, call (connection.host action.side) (connection.called action) = some next ∧
      after.host = Function.update connection.host action.side next := by
  cases action with
  | send side message =>
      rw [step] at done
      split at done
      · cases done
      · rename_i next code sent
        refine ⟨next, by simp only [called, call, Action.side, sent, Option.map_some], ?_⟩
        cases done
        split <;> rfl
  | recv side len =>
      rw [step] at done
      rcases received : ikcpRecv (connection.host side) len with ⟨next, code, bytes⟩
      rw [received] at done
      cases done
      refine ⟨next, by simp only [called, call, Action.side, received], ?_⟩
      split <;> rfl
  | deliver side index =>
      rw [step] at done
      split at done
      · cases done
      · rename_i data found
        split at done
        · cases done
        · rename_i next code taken
          cases done
          refine ⟨next, ?_, rfl⟩
          simp only [called, call, Action.side, found, Option.getD_some, taken, Option.map_some]
  | update side current =>
      rw [step] at done
      split at done
      · cases done
      · rename_i next datagrams updated
        cases done
        exact ⟨next, by simp only [called, call, Action.side, updated, Option.map_some], rfl⟩
  | flush side =>
      rw [step] at done
      split at done
      · cases done
      · rename_i next datagrams flushed
        cases done
        exact ⟨next, by simp only [called, call, Action.side, flushed, Option.map_some], rfl⟩
  | setmtu side mtu =>
      cases done
      exact ⟨_, rfl, rfl⟩
  | nodelay side nodelay interval resend nc =>
      cases done
      exact ⟨_, rfl, rfl⟩
  | interval side interval =>
      cases done
      exact ⟨_, rfl, rfl⟩
  | wndsize side sndwnd rcvwnd =>
      cases done
      exact ⟨_, rfl, rfl⟩

theorem wire_prefix_of_step {action : Action} (done : connection.step action = some after)
    (side : Side) : connection.wire side <+: after.wire side := by
  have output : ∀ (any : Side) (kcp : IKCPCB) (datagrams : List (List UInt8)),
      connection.wire side <+: ((connection.become any kcp).output any datagrams).wire side := by
    intro any kcp datagrams
    change _ <+: Function.update connection.wire any (connection.wire any ++ datagrams) side
    by_cases own : side = any
    · subst own
      rw [Function.update_self]
      exact List.prefix_append _ _
    · simp only [Function.update_of_ne own, List.prefix_refl]
  cases action with
  | send any message =>
      rw [step] at done
      split at done
      · cases done
      · cases done
        split <;> exact List.prefix_refl _
  | recv any len =>
      rcases received : ikcpRecv (connection.host any) len with ⟨kcp, code, bytes⟩
      rw [step, received] at done
      cases done
      split <;> exact List.prefix_refl _
  | deliver any index =>
      rw [step] at done
      split at done
      · cases done
      · split at done <;> cases done
        exact List.prefix_refl _
  | update any current | flush any =>
      rw [step] at done
      split at done <;> cases done
      exact output any _ _
  | setmtu | nodelay | interval | wndsize =>
      cases done
      exact List.prefix_refl _

end Connection

/-- What the users have to see to, and a bound on the window that the peer of a side sets. -/
def PermittedWithin (side : Side) (bound : Nat) (connection : Connection) (action : Action) :
    Prop :=
  Permitted connection action ∧ (action.side = side.peer →
    RcvWndSetWithin bound (connection.host side.peer) (connection.called action))

instance (side : Side) (bound : Nat) (connection : Connection) (action : Action) :
    Decidable (PermittedWithin side bound connection action) :=
  inferInstanceAs (Decidable (_ ∧ (_ → _)))

variable {conv : UInt32} {bound : Nat} {side : Side} {connection after : Connection}
  {ledger : Ledger} {action : Action}

section Ledgers

structure Accounts (conv : UInt32) (side : Side) (connection : Connection) (ledger : Ledger) :
    Prop where
  sound : connection.Sound conv ledger
  taken : Mail.taken side.peer connection.events = (ledger.received side).map List.flatten

theorem accounts_initial (conv : UInt32) (side : Side) :
    Accounts conv side (Connection.initial conv) ⟨fun _ => [], fun _ => []⟩ :=
  ⟨sound_initial conv, rfl⟩

theorem Accounts.posted (accounts : Accounts conv side connection ledger) :
    Mail.posted side connection.events = (ledger.messages side).map List.flatten := by
  have all := Mail.posted_eq accounts.sound.mail side
  rw [accounts.taken] at all
  rw [Ledger.messages, List.map_append]
  exact all

theorem Accounts.moves {next : Ledger} (accounts : Accounts conv side connection ledger)
    (sound : after.Sound conv next) (moves : ledger.Moves connection after next) :
    Accounts conv side after next := by
  refine ⟨sound, ?_⟩
  cases moves with
  | stay same => rw [same, accounts.taken]
  | send any pieces posted count =>
      rw [posted, Mail.taken_append, accounts.taken]
      exact List.append_nil _
  | receive any pieces later first taken held =>
      rw [taken, Mail.taken_append, accounts.taken]
      by_cases own : any = side.peer
      · subst own
        rw [Side.peer_peer, Ledger.receive_received, List.map_append]
        simp only [Mail.taken, if_true, List.map_singleton]
      · have self : any = side := (Side.eq_or_eq_peer side any).resolve_right own
        subst self
        rw [ledger.receive_received_of_ne (Side.peer_ne any).symm]
        simp only [Mail.taken, if_neg own, List.append_nil]

theorem Accounts.step (accounts : Accounts conv side connection ledger)
    (permitted : Permitted connection action) (done : connection.step action = some after) :
    ∃ next, Accounts conv side after next ∧ ledger.Moves connection after next := by
  obtain ⟨next, follows⟩ := accounts.sound.step permitted done
  exact ⟨next, accounts.moves follows.sound follows.moves, follows.moves⟩

theorem accounts_of_run {actions : List Action}
    (replayed : Runs.run Connection.step (Connection.initial conv) actions = some connection)
    (permitted : Runs.Meets Connection.step Permitted (Connection.initial conv) actions)
    (side : Side) : ∃ ledger, Accounts conv side connection ledger := by
  have preserved : ∀ connection action next,
      (∃ ledger, Accounts conv side connection ledger) → Permitted connection action →
        connection.step action = some next → ∃ ledger, Accounts conv side next ledger := by
    rintro connection action next ⟨ledger, accounts⟩ met done
    obtain ⟨after, held, _⟩ := accounts.step met done
    exact ⟨after, held⟩
  exact Runs.invariant_of_meets preserved ⟨_, accounts_initial conv side⟩ permitted replayed

end Ledgers

section Windows

theorem Receiver.Sound.within {receiver : Receiver} {log done : Log}
    (sound : receiver.Sound log done) (small : log.length < 2 ^ 31)
    (window : receiver.wnd.toNat ≤ bound) (queue : receiver.queue.length ≤ bound) :
    receiver.Within bound (2 ^ 31) := by
  have distance : ∀ seg ∈ receiver.buf,
      Serial.ahead receiver.nxt seg.sn = seg.sn.toNat - receiver.nxt.toNat :=
    fun seg member => ahead_of_le (sound.ahead seg member)
  refine ⟨window, queue, ?_, ?_⟩
  · apply List.Pairwise.imp_of_mem _ sound.sorted
    intro first second firstMember secondMember less
    have notBehind := sound.ahead first firstMember
    rw [distance first firstMember, distance second secondMember]
    omega
  · intro seg member
    obtain ⟨inside, _⟩ := List.getElem?_eq_some_iff.mp (sound.early seg member)
    rw [distance seg member]
    omega

theorem within_of_step (small : bound < 2 ^ 31)
    (within : (connection.host side.peer).receiver.Within bound (2 ^ 31))
    (met : PermittedWithin side bound connection action)
    (done : connection.step action = some after) :
    (after.host side.peer).receiver.Within bound (2 ^ 31) := by
  have wide : WindowReach bound (2 ^ 31) := ⟨small, Nat.le_of_lt small, Nat.le_refl _⟩
  obtain ⟨next, called, host⟩ := Connection.host_of_step done
  rw [host]
  by_cases own : action.side = side.peer
  · rw [own] at called
    rw [own, Function.update_self]
    exact within_of_call wide within (met.2 own) called
  · rw [Function.update_of_ne (Ne.symm own)]
    exact within

end Windows

/-- The message `pieces`, behind the messages `base`, has more pieces than the window of
the other side ever holds, and has not been received. -/
structure MessageBlocked (conv : UInt32) (bound : Nat) (side : Side) (base : List (List (List UInt8)))
    (pieces : List (List UInt8)) (connection : Connection) (ledger : Ledger) : Prop where
  accounts : Accounts conv side connection ledger
  within : (connection.host side.peer).receiver.Within bound (2 ^ 31)
  placed : base ++ [pieces] <+: ledger.messages side
  few : (ledger.received side).length ≤ base.length

variable {base : List (List (List UInt8))} {pieces : List (List UInt8)}

theorem MessageBlocked.next {first : List (List UInt8)} {later : List (List (List UInt8))}
    (blocked : MessageBlocked conv bound side base pieces connection ledger)
    (pending : ledger.pending side = first :: later)
    (all : (ledger.received side).length = base.length) : first = pieces := by
  obtain ⟨tail, split⟩ := blocked.placed
  rw [Ledger.messages, pending, List.append_assoc] at split
  obtain ⟨_, rest⟩ := List.append_inj split all.symm
  exact (List.cons.inj rest).1.symm

theorem MessageBlocked.step (blocked : MessageBlocked conv bound side base pieces connection ledger)
    (long : bound < pieces.length) (small : bound < 2 ^ 31)
    (met : PermittedWithin side bound connection action)
    (done : connection.step action = some after) :
    ∃ next, MessageBlocked conv bound side base pieces after next := by
  obtain ⟨next, accounts, moves⟩ := blocked.accounts.step met.1 done
  have within := within_of_step small blocked.within met done
  have placed := blocked.placed.trans (moves.messages_prefix side)
  refine ⟨next, accounts, within, placed, ?_⟩
  cases moves with
  | stay | send => exact blocked.few
  | receive any other later first taken held =>
      by_cases own : any = side.peer
      · subst own
        rw [Side.peer_peer] at first ⊢
        have few := blocked.few
        have queue : (connection.host side.peer).rcvQueue.segs.length ≤ bound := blocked.within.queue
        have notAll : (ledger.received side).length ≠ base.length := by
          intro all
          have same := blocked.next first all
          rw [same] at held
          omega
        rw [Ledger.receive_received, List.length_append, List.length_singleton]
        omega
      · have self : any = side := (Side.eq_or_eq_peer side any).resolve_right own
        subst self
        rw [ledger.receive_received_of_ne (Side.peer_ne any).symm]
        exact blocked.few

theorem MessageBlocked.received_prefix
    (blocked : MessageBlocked conv bound side base pieces connection ledger) :
    ledger.received side <+: base := by
  have before : base <+: ledger.messages side := (List.prefix_append _ _).trans blocked.placed
  have received : ledger.received side <+: ledger.messages side := List.prefix_append _ _
  exact List.prefix_of_prefix_length_le received before blocked.few

theorem ikcpSend_accepted {kcp : IKCPCB} {message : Message}
    (few : sendCount kcp.mss.toNat message.bytes.length ≤ 255) :
    ∃ next, ikcpSend kcp message.bytes message.len = some (next, 0) := by
  simp only [ikcpSend, message.len_toNat, if_neg message.len_nonneg]
  rw [if_neg (Nat.not_lt.mpr few), if_pos (Nat.le_refl _)]
  exact ⟨_, rfl⟩

theorem Accounts.send {message : Message} (accounts : Accounts conv side connection ledger)
    (permitted : Permitted connection (.send side message))
    (done : connection.step (.send side message) = some after)
    (accepted : sendCount (connection.host side).mss.toNat message.bytes.length ≤ 255) :
    ∃ pieces, Accounts conv side after (ledger.send side pieces) ∧
      pieces.length = sendCount (connection.host side).mss.toNat message.bytes.length := by
  obtain ⟨kcp, sent⟩ := ikcpSend_accepted accepted
  have events : after.events = connection.events ++ [.post side message.bytes] := by
    simp only [Connection.step, sent, if_true] at done
    cases done
    rfl
  obtain ⟨next, held, moves⟩ := accounts.step permitted done
  cases moves with
  | stay same =>
      rw [same] at events
      have lengths := congrArg List.length events
      rw [List.length_append, List.length_singleton] at lengths
      omega
  | send any pieces posted count =>
      rw [posted] at events
      have same := List.append_cancel_left events
      simp only [List.cons.injEq, Mail.Event.post.injEq, and_true] at same
      obtain ⟨rfl, flat⟩ := same
      rw [flat] at count
      exact ⟨pieces, held, count⟩
  | receive any pieces rest first taken _ =>
      rw [taken] at events
      have same := List.append_cancel_left events
      simp at same

section Runs

variable {earlier later : List Action} {final : Connection} {message : Message}

/-- A message of more pieces than the window of the peer is wide and its `rcv_queue` long
is never received, nor is any message behind it, for as long as that window is not set
wider. -/
theorem never_received
    (before : Runs.run Connection.step (Connection.initial conv) earlier = some connection)
    (permitted : Runs.Meets Connection.step Permitted (Connection.initial conv) earlier)
    (window : (connection.host side.peer).rcvWnd.toNat ≤ bound)
    (queue : (connection.host side.peer).rcvQueue.segs.length ≤ bound)
    (long : bound < sendCount (connection.host side).mss.toNat message.bytes.length)
    (accepted : sendCount (connection.host side).mss.toNat message.bytes.length ≤ 255)
    (replayed : Runs.run Connection.step connection (.send side message :: later) = some final)
    (meets : Runs.Meets Connection.step (PermittedWithin side bound) connection
      (.send side message :: later)) :
    Mail.taken side.peer final.events <+: Mail.posted side connection.events := by
  obtain ⟨ledger, accounts⟩ := accounts_of_run before permitted side
  obtain ⟨sent, done, rest⟩ := Runs.run_cons_eq_some.mp replayed
  obtain ⟨met, remaining⟩ := (Runs.meets_cons done).mp meets
  have small : bound < 2 ^ 31 := by omega
  have log : (ledger.log side).length < 2 ^ 31 := accounts.sound.small side
  have right := (accounts.sound.right side.peer).receiver
  rw [Side.peer_peer] at right
  have within := within_of_step small (right.within log window queue) met done
  obtain ⟨pieces, begun, count⟩ := accounts.send met.1 done accepted
  have start : MessageBlocked conv bound side (ledger.messages side) pieces sent
      (ledger.send side pieces) := by
    refine ⟨begun, within, ?_, ?_⟩
    · simp only [ledger.messages_send, List.prefix_refl]
    · change (ledger.received side).length ≤ (ledger.received side ++ ledger.pending side).length
      rw [List.length_append]
      omega
  have preserved : ∀ connection action after,
      (∃ ledger', MessageBlocked conv bound side (ledger.messages side) pieces connection ledger') →
        PermittedWithin side bound connection action → connection.step action = some after →
          ∃ ledger', MessageBlocked conv bound side (ledger.messages side) pieces after ledger' := by
    rintro connection action after ⟨ledger', held⟩ met done
    exact held.step (count ▸ long) small met done
  obtain ⟨last, ended⟩ := Runs.invariant_of_meets preserved ⟨_, start⟩ remaining rest
  rw [ended.accounts.taken, accounts.posted]
  exact ended.received_prefix.map List.flatten

/-- With an MTU of 50 a message of 130 bytes has five pieces, one more than the window. -/
def narrowWindow : List Action :=
  [.setmtu .left 50, .nodelay .left 1 10 2 1, .wndsize .right 0 4]

def fivePieces : Message := ⟨List.replicate 130 0, by rw [List.length_replicate]; decide⟩

/-- All five arrive, and the receiver waits for more room. -/
def fivePiecesArrive : List Action :=
  [.send .left (.ofByte 1), .update .left 0, .deliver .right 0, .deliver .right 1,
    .deliver .right 2, .deliver .right 3, .deliver .right 4, .recv .right 1000, .update .right 0,
    .deliver .left 0, .update .left 300, .recv .right 1000]

theorem never_received_fivePieces :
    ∃ connection final,
      Runs.run Connection.step (Connection.initial 7) narrowWindow = some connection ∧
      Runs.run Connection.step connection (.send .left fivePieces :: fivePiecesArrive) =
        some final ∧
      (final.host .right).rcvQueue.segs.map IKCPSEG.frg = [4, 3, 2, 1] ∧
      (final.host .right).rcvBuf.segs.map IKCPSEG.frg = [0] ∧
      Mail.taken .right final.events <+: Mail.posted .left connection.events := by
  have start : (Runs.run Connection.step (Connection.initial 7) narrowWindow).map
      (fun connection => ((connection.host .left).mss, (connection.host .right).rcvWnd,
        (connection.host .right).rcvQueue.segs.length)) = some (26, 4, 0) := by decide +kernel
  have seen : (Runs.run Connection.step (Connection.initial 7)
      (narrowWindow ++ .send .left fivePieces :: fivePiecesArrive)).map
      (fun final => ((final.host .right).rcvQueue.segs.map IKCPSEG.frg,
        (final.host .right).rcvBuf.segs.map IKCPSEG.frg)) = some ([4, 3, 2, 1], [0]) := by
    decide +kernel
  have met : Runs.Meets Connection.step (PermittedWithin .left 4) (Connection.initial 7)
      (narrowWindow ++ .send .left fivePieces :: fivePiecesArrive) := by decide +kernel
  obtain ⟨final, whole, same⟩ := Option.map_eq_some_iff.mp seen
  obtain ⟨queued, early⟩ := Prod.mk.inj same
  obtain ⟨connection, before, replayed⟩ := Runs.run_append_eq_some.mp whole
  rw [before] at start
  simp only [Option.map_some, Option.some.injEq, Prod.mk.injEq] at start
  obtain ⟨mss, wnd, queue⟩ := start
  have window : (connection.host (Side.peer .left)).rcvWnd.toNat ≤ 4 := by
    change (connection.host .right).rcvWnd.toNat ≤ 4
    rw [wnd]
    decide
  have count : sendCount (connection.host .left).mss.toNat fivePieces.bytes.length = 5 := by
    rw [mss]
    decide +kernel
  refine ⟨connection, final, before, replayed, queued, early, ?_⟩
  exact never_received before (by decide +kernel) window (queue ▸ Nat.zero_le 4)
    (by rw [count]; decide) (by rw [count]; decide) replayed ((Runs.meets_append before).mp met).2

example : IKCP_WND_RCV.toNat < sendCount (ikcpCreate 1).mss.toNat 45000 ∧
    sendCount (ikcpCreate 1).mss.toNat 45000 ≤ 255 := by decide

end Runs

end TalkingTime.Kcp

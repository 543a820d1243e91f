import TalkingTime.Kcp.Connection
import TalkingTime.Kcp.Contents

/-! Every run of a connection delivers messages in order, each once and none lost,
whatever the network does with the datagrams, and never reaches undefined behaviour. -/

namespace TalkingTime.Kcp

open Mail (Side Event)
open Countdown
open Serial

theorem sound_initial (conv : UInt32) :
    (Connection.initial conv).Sound conv ⟨fun _ => [], fun _ => []⟩ where
  sameConv := fun _ => rfl
  small := fun _ => Nat.two_pow_pos 31
  whole := fun _ => List.forall_mem_nil _
  right := fun _ => halvesSound_ikcpCreate conv _
  wire := fun _ => List.forall_mem_nil _
  mail := rfl

namespace Connection.Sound

variable {conv : UInt32} {connection : Connection} {ledger : Ledger}

theorem become (sound : connection.Sound conv ledger) (side : Side) {next : IKCPCB}
    {after : Ledger} {events : List (Event (List UInt8))}
    (log : ledger.log side <+: after.log side) (peerLog : after.log side.peer = ledger.log side.peer)
    (received : after.received side = ledger.received side)
    (small : (after.log side).length < 2 ^ 31)
    (whole : ∀ any, ∀ pieces ∈ after.pending any, MessagePieces pieces)
    (right : HalvesSound (after.log side) (ledger.log side.peer) (stream (after.received side.peer))
      (connection.host side.peer).receiver.Has next)
    (grows : (connection.host side).receiver.Grows next.receiver) (sameConv : next.conv = conv)
    (mail : Runs.run Mail.step Mail.empty events = some after.mail) :
    Sound conv { connection.become side next with events := events } after := by
  have self : Function.update connection.host side next side = next := Function.update_self ..
  have peer : Function.update connection.host side next side.peer = connection.host side.peer :=
    Function.update_of_ne (Side.peer_ne side) ..
  refine ⟨?_, ?_, whole, ?_, ?_, mail⟩ <;> intro any <;>
    rcases Side.eq_or_eq_peer side any with rfl | rfl
  · change (Function.update connection.host any next any).conv = conv
    rw [self]
    exact sameConv
  · change (Function.update connection.host side next side.peer).conv = conv
    rw [peer]
    exact sound.sameConv side.peer
  · exact small
  · rw [peerLog]
    exact sound.small side.peer
  · change HalvesSound _ _ _ (Function.update connection.host any next any.peer).receiver.Has
      (Function.update connection.host any next any)
    rw [self, peer, peerLog]
    exact right
  · change HalvesSound _ _ _ (Function.update connection.host side next side.peer.peer).receiver.Has
      (Function.update connection.host side next side.peer)
    have held := sound.right side.peer
    rw [Side.peer_peer] at held ⊢
    rw [self, peer, peerLog, received]
    exact ⟨held.sender.mono grows.has, held.receiver.mono log⟩
  · intro data member
    change data ≠ [] ∧ Carries (Honest conv _
      (Function.update connection.host any next any).receiver.Has) data
    obtain ⟨nonempty, carries⟩ := sound.wire any data member
    rw [self]
    exact ⟨nonempty, carries.imp (fun seg honest => honest.mono log grows.has)⟩
  · intro data member
    change data ≠ [] ∧ Carries (Honest conv _
      (Function.update connection.host side next side.peer).receiver.Has) data
    rw [peer, peerLog]
    exact sound.wire side.peer data member

theorem stay (sound : connection.Sound conv ledger) (side : Side) {next : IKCPCB}
    (right : HalvesSound (ledger.log side) (ledger.log side.peer) (stream (ledger.received side.peer))
      (connection.host side.peer).receiver.Has next)
    (grows : (connection.host side).receiver.Grows next.receiver) (sameConv : next.conv = conv) :
    (connection.become side next).Sound conv ledger :=
  sound.become side (List.prefix_refl _) rfl rfl (sound.small side) sound.whole right grows
    sameConv sound.mail

theorem frame (sound : connection.Sound conv ledger) (side : Side) {next : IKCPCB}
    (frame : Frame (connection.host side) next) :
    (connection.become side next).Sound conv ledger := by
  apply sound.stay side ((sound.right side).frame frame)
  · rw [frame.receiver]
    exact Receiver.Grows.refl _
  · exact frame.conv.trans (sound.sameConv side)

theorem output (sound : connection.Sound conv ledger) (side : Side) {datagrams : List (List UInt8)}
    (honest : ∀ data ∈ datagrams, data ≠ [] ∧
      Carries (Honest conv (ledger.log side) (connection.host side).receiver.Has) data) :
    (connection.output side datagrams).Sound conv ledger := by
  refine { sound with wire := ?_ }
  intro any data member
  change data ∈ Function.update connection.wire side (connection.wire side ++ datagrams) any
    at member
  by_cases own : any = side
  · subst own
    rw [Function.update_self] at member
    rcases List.mem_append.mp member with old | new
    · exact sound.wire any data old
    · exact honest data new
  · rw [Function.update_of_ne own] at member
    exact sound.wire any data member

theorem fragmentsSent_eq (sound : connection.Sound conv ledger) (side : Side) :
    fragmentsSent (connection.host side) = (ledger.log side).length := by
  have sender := (sound.right side).sender
  have inside : (connection.host side).sndNxt.toNat ≤ (ledger.log side).length := sender.inside
  have lengths := congrArg List.length sender.queued
  rw [List.length_map, List.length_drop] at lengths
  change (connection.host side).sndQueue.segs.length =
    (ledger.log side).length - (connection.host side).sndNxt.toNat at lengths
  rw [fragmentsSent, lengths]
  omega

structure Follows (conv : UInt32) (connection : Connection) (ledger : Ledger)
    (after : Connection) (next : Ledger) : Prop where
  sound : after.Sound conv next
  moves : ledger.Moves connection after next
  grows : ∀ any, (connection.host any).receiver.Grows (after.host any).receiver

def Leads (conv : UInt32) (connection : Connection) (ledger : Ledger) (action : Action) : Prop :=
  ∃ after next, connection.step action = some after ∧ Follows conv connection ledger after next

def Keeps (conv : UInt32) (connection : Connection) (ledger : Ledger) (action : Action) : Prop :=
  ∃ after, connection.step action = some after ∧ Follows conv connection ledger after ledger

theorem Keeps.leads {action : Action} (keeps : Keeps conv connection ledger action) :
    Leads conv connection ledger action := by
  obtain ⟨after, done, follows⟩ := keeps
  exact ⟨after, ledger, done, follows⟩

theorem grows_become (connection : Connection) (side : Side) {next : IKCPCB}
    (grows : (connection.host side).receiver.Grows next.receiver) (any : Side) :
    (connection.host any).receiver.Grows ((connection.become side next).host any).receiver := by
  change (connection.host any).receiver.Grows (Function.update connection.host side next any).receiver
  by_cases own : any = side
  · subst own
    rw [Function.update_self]
    exact grows
  · rw [Function.update_of_ne own]
    exact Receiver.Grows.refl _

theorem send (sound : connection.Sound conv ledger) (side : Side) (message : Message)
    (permitted : Permitted connection (.send side message)) :
    Leads conv connection ledger (.send side message) := by
  rcases ikcpSend_cases (sound.right side) message with refused | ⟨next, pieces, sent, taken,
    joined, count, right, receiver, sameConv⟩
  · exact ⟨_, ledger, by simp only [Connection.step, refused]; rfl,
      sound.frame side (Frame.refl _), .stay rfl,
      grows_become connection side (Receiver.Grows.refl _)⟩
  · have grows : (connection.host side).receiver.Grows next.receiver := by
      rw [receiver]
      exact Receiver.Grows.refl _
    refine ⟨(connection.become side next).record (.post side message.bytes), ledger.send side pieces,
      by simp only [Connection.step, sent, if_true], ?_,
      .send side pieces (by rw [joined]; rfl) (by rw [joined]; exact count),
      grows_become connection side grows⟩
    apply sound.become side
    · rw [ledger.log_send]
      exact List.prefix_append _ _
    · exact ledger.log_send_of_ne (Side.peer_ne side)
    · rfl
    · have total : fragmentsSent (connection.host side) +
          sendCount (connection.host side).mss.toNat message.bytes.length < 2 ^ 31 := permitted
      rw [sound.fragmentsSent_eq side] at total
      rw [ledger.log_send, List.length_append, length_label, count]
      exact total
    · intro any other member
      by_cases own : any = side
      · subst own
        rw [ledger.send_pending] at member
        rcases List.mem_append.mp member with old | new
        · exact sound.whole any other old
        · rw [List.mem_singleton.mp new]
          exact taken
      · rw [ledger.send_pending_of_ne own] at member
        exact sound.whole any other member
    · rw [ledger.log_send]
      exact right
    · exact grows
    · exact sameConv.trans (sound.sameConv side)
    · rw [← joined]
      exact Runs.run_append_eq_some.mpr ⟨_, sound.mail, Runs.run_singleton ledger.mail_send⟩

theorem recv (sound : connection.Sound conv ledger) (side : Side) (len : Int32) :
    Leads conv connection ledger (.recv side len) := by
  have right := sound.right side
  have labels := (sound.right side.peer).sender.labels
  rcases ikcpRecv_cases (sound.small side.peer) labels rfl (sound.whole side.peer) right.receiver
    len with ⟨code, negative, refused, _⟩ | ⟨next, message, later, pending, received, _, held, gains⟩
  · refine ⟨connection.become side (connection.host side), ledger, ?_,
      sound.frame side (Frame.refl _), .stay rfl,
      grows_become connection side (Receiver.Grows.refl _)⟩
    simp only [Connection.step, refused]
    rw [if_neg (fun both => Int32.not_le.mpr negative both.1)]
  · have sameConv : next.conv = conv := gains.conv.trans (sound.sameConv side)
    have sender : next.sender.Sound (ledger.log side)
        (connection.host side.peer).receiver.Has := gains.sender ▸ right.sender
    by_cases peek : len < 0
    · have kept := gains.sound
      rw [if_pos peek] at kept
      refine ⟨connection.become side next, ledger, ?_,
        sound.stay side ⟨sender, kept⟩ gains.grows sameConv, .stay rfl,
        grows_become connection side gains.grows⟩
      simp only [Connection.step, received]
      rw [if_neg (fun both => Int32.not_le.mpr peek both.2)]
    · have kept := gains.sound
      rw [if_neg peek] at kept
      have log := ledger.log_receive pending
      have apart : side ≠ side.peer := (Side.peer_ne side).symm
      have first : MessagePieces message :=
        sound.whole side.peer message (pending ▸ List.mem_cons_self)
      have event : Mail.step ledger.mail (.take side message.flatten) =
          some (ledger.receive side.peer message later).mail := by
        have taken := ledger.mail_receive pending
        rw [Side.peer_peer] at taken
        exact taken
      refine ⟨(connection.become side next).record (.take side message.flatten),
        ledger.receive side.peer message later, ?_, ?_, .receive side message later pending rfl held,
        grows_become connection side gains.grows⟩
      · simp only [Connection.step, received]
        rw [if_pos ⟨zero_le_ofNat first.short, Int32.not_lt.mp peek⟩]
      · apply sound.become side
        · simp only [log side, List.prefix_refl]
        · exact log side.peer
        · exact ledger.receive_received_of_ne apart
        · rw [log side]
          exact sound.small side
        · intro any other member
          by_cases own : any = side.peer
          · subst own
            rw [ledger.receive_pending] at member
            apply sound.whole side.peer other
            rw [pending]
            exact List.mem_cons_of_mem message member
          · rw [ledger.receive_pending_of_ne own] at member
            exact sound.whole any other member
        · rw [log side, ledger.receive_received]
          exact ⟨sender, kept⟩
        · exact gains.grows
        · exact sameConv
        · exact Runs.run_append_eq_some.mpr ⟨_, sound.mail, Runs.run_singleton event⟩

theorem ikcpInput_eq (sound : connection.Sound conv ledger) (side : Side) {data : List UInt8}
    (member : data ∈ connection.wire side.peer) :
    ∃ next, ikcpInput (connection.host side) data = some (next, 0) ∧
      (connection.become side next).Sound conv ledger ∧
      (connection.host side).receiver.Grows next.receiver := by
  obtain ⟨nonempty, segs, rfl, all⟩ := sound.wire side.peer data member
  rw [← sound.sameConv side] at all
  have some : segs ≠ [] := by
    rintro rfl
    exact nonempty rfl
  obtain ⟨next, taken, advances⟩ := ikcpInput_sound (sound.small side)
    (sound.small side.peer) (sound.right side) all some
  exact ⟨next, taken, sound.stay side advances.right advances.grows
    (advances.conv.trans (sound.sameConv side)), advances.grows⟩

theorem deliver (sound : connection.Sound conv ledger) (side : Side) {index : Nat}
    (present : index < (connection.wire side.peer).length) :
    Keeps conv connection ledger (.deliver side index) := by
  have found := List.getElem?_eq_getElem present
  obtain ⟨next, taken, after, grows⟩ := sound.ikcpInput_eq side (List.getElem_mem present)
  exact ⟨_, by simp only [Connection.step, found, taken], after, .stay rfl,
    grows_become connection side grows⟩

theorem flushed (sound : connection.Sound conv ledger) (side : Side) {next : IKCPCB}
    {datagrams : List (List UInt8)}
    (flushed : Flushed (ledger.log side) (ledger.log side.peer)
      (stream (ledger.received side.peer)) (connection.host side.peer).receiver.Has
      (connection.host side) next datagrams) :
    Follows conv connection ledger ((connection.become side next).output side datagrams)
      ledger := by
  obtain ⟨acks, receiver⟩ := flushed.receiver
  have same : next.receiver.Has = (connection.host side).receiver.Has := by
    rw [receiver]
    rfl
  have grows : (connection.host side).receiver.Grows next.receiver := by
    rw [receiver]
    exact ⟨Nat.le_refl _, fun _ had => had⟩
  have after := sound.stay side flushed.right grows (flushed.conv.trans (sound.sameConv side))
  refine ⟨after.output side ?_, .stay rfl, grows_become connection side grows⟩
  intro data member
  have datagram := flushed.datagrams data member
  have self : (connection.become side next).host side = next := Function.update_self ..
  rw [self, same, ← sound.sameConv side]
  exact ⟨datagram.nonempty, datagram.carries⟩

theorem update (sound : connection.Sound conv ledger) (side : Side) (current : UInt32) :
    Keeps conv connection ledger (.update side current) := by
  obtain ⟨next, datagrams, done, flushed⟩ := ikcpUpdate_sound current (sound.small side)
    (sound.small side.peer) (sound.right side)
  exact ⟨_, by simp only [Connection.step, done], sound.flushed side flushed⟩

theorem flush (sound : connection.Sound conv ledger) (side : Side) :
    Keeps conv connection ledger (.flush side) := by
  obtain ⟨next, datagrams, done, flushed⟩ := ikcpFlush_sound (sound.small side)
    (sound.small side.peer) (sound.right side)
  exact ⟨_, by simp only [Connection.step, done], sound.flushed side flushed⟩

theorem setmtu (sound : connection.Sound conv ledger) (side : Side) {mtu : Int32}
    (permitted : Permitted connection (.setmtu side mtu)) :
    Keeps conv connection ledger (.setmtu side mtu) := by
  have right := ikcpSetmtu_sound permitted (sound.right side)
  have sameConv := ikcpSetmtu_conv (connection.host side) mtu
  have grows : (connection.host side).receiver.Grows
      (ikcpSetmtu (connection.host side) mtu).1.receiver := by
    rw [ikcpSetmtu_receiver]
    exact Receiver.Grows.refl _
  exact ⟨_, rfl, sound.stay side right grows (sameConv.trans (sound.sameConv side)), .stay rfl,
    grows_become connection side grows⟩

end Connection.Sound

/-- The datagrams that a call delivers have been output. -/
def Present (connection : Connection) : Action → Prop
  | .deliver side index => index < (connection.wire side.peer).length
  | _ => True

/-- No permitted call is undefined, and each leaves the connection right. -/
theorem Connection.Sound.leads {conv : UInt32} {connection : Connection} {ledger : Ledger}
    (sound : connection.Sound conv ledger) (action : Action)
    (permitted : Permitted connection action) (present : Present connection action) :
    Sound.Leads conv connection ledger action := by
  cases action with
  | send side message => exact sound.send side message permitted
  | recv side len => exact sound.recv side len
  | deliver side index => exact (sound.deliver side present).leads
  | update side current => exact (sound.update side current).leads
  | flush side => exact (sound.flush side).leads
  | setmtu side mtu => exact (sound.setmtu side permitted).leads
  | nodelay side nodelay interval resend nc =>
      exact ⟨_, ledger, rfl, sound.frame side (frame_ikcpNodelay _ nodelay interval resend nc),
        .stay rfl, Sound.grows_become connection side (Receiver.Grows.refl _)⟩
  | interval side interval =>
      exact ⟨_, ledger, rfl, sound.frame side (frame_ikcpInterval _ interval), .stay rfl,
        Sound.grows_become connection side (Receiver.Grows.refl _)⟩
  | wndsize side sndwnd rcvwnd =>
      have grows : (connection.host side).receiver.Grows
          (ikcpWndsize (connection.host side) sndwnd rcvwnd).receiver :=
        ⟨Nat.le_refl _, fun _ had => had⟩
      exact ⟨_, ledger, rfl, sound.stay side (ikcpWndsize_sound sndwnd rcvwnd (sound.right side))
        grows (sound.sameConv side), .stay rfl, Sound.grows_become connection side grows⟩

theorem present_of_step {connection after : Connection} {action : Action}
    (done : connection.step action = some after) : Present connection action := by
  cases action with
  | deliver side index =>
      rw [Connection.step] at done
      split at done
      · cases done
      · rename_i data found
        obtain ⟨bound, _⟩ := List.getElem?_eq_some_iff.mp found
        exact bound
  | send | recv | update | flush | setmtu | nodelay | interval | wndsize => trivial

theorem Connection.Sound.step {conv : UInt32} {connection after : Connection} {ledger : Ledger}
    (sound : connection.Sound conv ledger) {action : Action} (permitted : Permitted connection action)
    (done : connection.step action = some after) :
    ∃ next, Sound.Follows conv connection ledger after next := by
  obtain ⟨other, next, taken, follows⟩ := sound.leads action permitted (present_of_step done)
  rw [done] at taken
  cases taken
  exact ⟨next, follows⟩

section Runs

variable {conv : UInt32} {actions : List Action} {final : Connection}

theorem sound_of_run (replayed : Runs.run Connection.step (Connection.initial conv) actions = some final)
    (permitted : Runs.Meets Connection.step Permitted (Connection.initial conv) actions) :
    ∃ ledger, final.Sound conv ledger := by
  have preserved : ∀ connection action next, (∃ ledger, Connection.Sound conv connection ledger) →
      Permitted connection action → connection.step action = some next →
        ∃ ledger, Connection.Sound conv next ledger := by
    rintro connection action next ⟨ledger, sound⟩ allowed done
    obtain ⟨after, follows⟩ := sound.step allowed done
    exact ⟨after, follows.sound⟩
  exact Runs.invariant_of_meets preserved ⟨_, sound_initial conv⟩ permitted replayed

/-- What the users see of any run is a run of the two mailboxes. -/
theorem events_refine_mail
    (replayed : Runs.run Connection.step (Connection.initial conv) actions = some final)
    (permitted : Runs.Meets Connection.step Permitted (Connection.initial conv) actions) :
    ∃ pending, Runs.run Mail.step Mail.empty final.events = some pending := by
  obtain ⟨ledger, sound⟩ := sound_of_run replayed permitted
  exact ⟨ledger.mail, sound.mail⟩

def oneMessage : List Action :=
  [.send .left ⟨[1, 2, 3], by decide⟩, .update .left 0, .update .left 100]

/-- The datagram arrives twice; the other side receives the message and acknowledges. -/
def exchange : List Action :=
  oneMessage ++ [.deliver .right 0, .deliver .right 0, .recv .right 100, .update .right 0,
    .deliver .left 0]

theorem exchange_permitted :
    Runs.Meets Connection.step Permitted (Connection.initial 7) exchange := by
  decide +kernel

theorem exchange_replayed :
    ∃ final, Runs.run Connection.step (Connection.initial 7) exchange = some final ∧
      (final.wire .left).length = 1 ∧ (final.host .left).updated = 1 ∧
        (final.host .left).sndNxt = 1 ∧ (final.host .left).sndUna = 1 := by
  have seen : (Runs.run Connection.step (Connection.initial 7) exchange).map (fun final =>
      ((final.wire .left).length, (final.host .left).updated, (final.host .left).sndNxt,
        (final.host .left).sndUna)) = some (1, 1, 1, 1) := by decide +kernel
  obtain ⟨final, replayed, same⟩ := Option.map_eq_some_iff.mp seen
  simp only [Prod.mk.injEq] at same
  exact ⟨final, replayed, same⟩

/-- The messages received on one side are the first ones sent on the other. -/
theorem received_prefix_sent
    (replayed : Runs.run Connection.step (Connection.initial conv) actions = some final)
    (permitted : Runs.Meets Connection.step Permitted (Connection.initial conv) actions)
    (side : Side) : Mail.taken side.peer final.events <+: Mail.posted side final.events := by
  obtain ⟨pending, mail⟩ := events_refine_mail replayed permitted
  exact Mail.taken_prefix_posted mail side

theorem received_prefix_sent_exchange :
    ∃ final, Runs.run Connection.step (Connection.initial 7) exchange = some final ∧
      Mail.taken .right final.events <+: Mail.posted .left final.events := by
  obtain ⟨final, replayed, _⟩ := exchange_replayed
  exact ⟨final, replayed, received_prefix_sent replayed exchange_permitted .left⟩

/-- The left side has a fragment to acknowledge, has room again after its queue was full,
has waited to probe the window of the right side, and misses an acknowledgement. -/
def busy : List Action :=
  [.wndsize .left 0 2, .wndsize .right 0 1, .nodelay .left 1 5000 2 1, .nodelay .right 1 10 2 1,
    .send .left (.ofByte 1), .update .left 0, .send .left (.ofByte 2), .flush .left,
    .deliver .right 0, .send .right (.ofByte 3), .update .right 0, .deliver .left 0,
    .update .left 5000, .update .left 10000, .send .right (.ofByte 4), .flush .right,
    .deliver .left 1, .recv .left 1, .update .left 12000]

/-- Every datagram of the other side is accepted, and does what its segments do, one
after the other; the congestion window may grow after the last one. -/
theorem input_of_run
    (replayed : Runs.run Connection.step (Connection.initial conv) actions = some final)
    (permitted : Runs.Meets Connection.step Permitted (Connection.initial conv) actions)
    (side : Side) (data : List UInt8) (member : data ∈ final.wire side.peer) :
    ∃ segs, segs ≠ [] ∧ data = segs.flatMap IKCPSEG.wire ∧
      let last := inputSegments (final.host side) segs
      ikcpInput (final.host side) data =
        some (if 0 < diff last.sndUna (final.host side).sndUna then growWindow last else last, 0) := by
  obtain ⟨ledger, sound⟩ := sound_of_run replayed permitted
  obtain ⟨nonempty, segs, rfl, all⟩ := sound.wire side.peer data member
  have some : segs ≠ [] := by
    rintro rfl
    exact nonempty rfl
  rw [← sound.sameConv side] at all
  exact ⟨segs, some, rfl, ikcpInput_wire some (fun seg present => (all seg present).legible)⟩

theorem input_of_run_exchange :
    ∃ final data, Runs.run Connection.step (Connection.initial 7) exchange = some final ∧
      data ∈ final.wire .left ∧ ∃ segs, segs ≠ [] ∧ data = segs.flatMap IKCPSEG.wire ∧
        let last := inputSegments (final.host .right) segs
        ikcpInput (final.host .right) data = some
          (if 0 < diff last.sndUna (final.host .right).sndUna then growWindow last else last, 0) := by
  obtain ⟨final, replayed, length, _⟩ := exchange_replayed
  obtain ⟨data, member⟩ := List.exists_mem_of_length_pos (Nat.lt_of_lt_of_eq Nat.one_pos length.symm)
  exact ⟨final, data, replayed, member,
    input_of_run replayed exchange_permitted .right data member⟩

/-- A numbered fragment is at the receiver or still in `snd_buf`: none is lost. -/
theorem fragment_kept
    (replayed : Runs.run Connection.step (Connection.initial conv) actions = some final)
    (permitted : Runs.Meets Connection.step Permitted (Connection.initial conv) actions)
    (side : Side) (index : Nat) (numbered : index < (final.host side).sndNxt.toNat) :
    (final.host side.peer).receiver.Has index ∨
      ∃ seg ∈ (final.host side).sndBuf.segs, seg.sn.toNat = index := by
  obtain ⟨ledger, sound⟩ := sound_of_run replayed permitted
  exact (sound.right side).sender.kept index numbered

theorem fragment_kept_exchange :
    ∃ final, Runs.run Connection.step (Connection.initial 7) exchange = some final ∧
      ((final.host .right).receiver.Has 0 ∨
        ∃ seg ∈ (final.host .left).sndBuf.segs, seg.sn.toNat = 0) := by
  obtain ⟨final, replayed, _, _, next, _⟩ := exchange_replayed
  have numbered : 0 < (final.host .left).sndNxt.toNat := by
    rw [next]
    decide
  exact ⟨final, replayed, fragment_kept replayed exchange_permitted .left 0 numbered⟩

/-- What is acknowledged has arrived. -/
theorem acknowledged_arrived
    (replayed : Runs.run Connection.step (Connection.initial conv) actions = some final)
    (permitted : Runs.Meets Connection.step Permitted (Connection.initial conv) actions)
    (side : Side) (index : Nat) (acknowledged : index < (final.host side).sndUna.toNat) :
    (final.host side.peer).receiver.Has index := by
  obtain ⟨ledger, sound⟩ := sound_of_run replayed permitted
  exact (sound.right side).sender.acknowledged acknowledged

theorem acknowledged_arrived_exchange :
    ∃ final, Runs.run Connection.step (Connection.initial 7) exchange = some final ∧
      (final.host .right).receiver.Has 0 := by
  obtain ⟨final, replayed, _, _, _, una⟩ := exchange_replayed
  have acknowledged : 0 < (final.host .left).sndUna.toNat := by
    rw [una]
    decide
  exact ⟨final, replayed, acknowledged_arrived replayed exchange_permitted .left 0 acknowledged⟩

end Runs

end TalkingTime.Kcp

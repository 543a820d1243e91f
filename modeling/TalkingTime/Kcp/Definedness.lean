import TalkingTime.Kcp.RoundTrip
import TalkingTime.Kcp.Sizes
import TalkingTime.Kcp.Blocking

/-! Where the source is defined: for which calls, in which runs, nothing is read or written
out of place and no `int` overflows. -/

namespace TalkingTime.Kcp

open Mail (Side)

variable {kcp final : IKCPCB} {any : Call}

/-- The source is defined for a call: it reads and writes inside the data that arrive, the
buffer of the control block and the buffer of the user, and no `int` overflows. -/
def Defined (kcp : IKCPCB) (any : Call) : Prop :=
  (call kcp any).isSome ∧
    match any with
    -- a call without a segment to read returns before it negates `len`
    | .recv len => kcp.rcvQueue.segs ≠ [] →
        len ≠ Int32.minValue ∧ (ikcpRecv kcp len).2.2.length ≤ len.toInt.natAbs
    | .input data => AcksDefined kcp (takenSegments kcp.conv data)
    | _ => True

section Calls

def RecvFits (kcp : IKCPCB) : Prop :=
  ∀ len : Int32, len ≠ Int32.minValue → (ikcpRecv kcp len).2.2.length ≤ len.toInt.natAbs

theorem recvFits_of_queuedBytes (few : queuedBytes kcp < 2 ^ 31) : RecvFits kcp := by
  intro len notLeast
  rcases ikcpRecv_fits few len with ⟨code, _, refused⟩ | ⟨next, written, received, _, room⟩
  · rw [refused]
    exact Nat.zero_le _
  · rw [bufferRoom_toInt notLeast] at room
    rw [received]
    exact Int.ofNat_le.mp room

/-- A call that keeps its integers in range is defined, but for the input of fewer than four
bytes. -/
theorem defined_or_short (fits : kcp.sender.Fits) (small : kcp.roundTrips.Small)
    (room : RecvFits kcp) (inRange : CallInRange kcp any) :
    Defined kcp any ∨ ∃ data, any = .input data ∧ data.length < 4 := by
  cases any with
  | send message =>
      refine Or.inl ⟨?_, trivial⟩
      rcases ikcpSend_pieces fits.payload message with refused | ⟨next, _, _, sent, _⟩
      · simp only [call, refused, Option.map_some, Option.isSome_some]
      · simp only [call, sent, Option.map_some, Option.isSome_some]
  | recv len => exact Or.inl ⟨rfl, fun _ => ⟨inRange, room len inRange⟩⟩
  | input data =>
      rcases Nat.lt_or_ge data.length 4 with few | enough
      · exact Or.inr ⟨data, rfl, few⟩
      · obtain ⟨_, code, _, _, _, taken⟩ := ikcpInput_takes kcp enough
        refine Or.inl ⟨?_, (ikcpInput_defined small inRange taken).1⟩
        simp only [call, taken, Option.map_some, Option.isSome_some]
  | update current =>
      obtain ⟨next, datagrams, updated, _⟩ := ikcpUpdate_fits current fits
      refine Or.inl ⟨?_, trivial⟩
      simp only [call, updated, Option.map_some, Option.isSome_some]
  | flush =>
      obtain ⟨next, datagrams, flushed, _⟩ := ikcpFlush_fits fits
      refine Or.inl ⟨?_, trivial⟩
      simp only [call, flushed, Option.map_some, Option.isSome_some]
  | setmtu | nodelay | interval | wndsize => exact Or.inl ⟨rfl, trivial⟩

theorem not_defined_of_short {data : List UInt8} (few : data.length < 4) :
    ¬ Defined kcp (.input data) := by
  rintro ⟨taken, _⟩
  simp only [call, (ikcpInput_eq_none_iff kcp data).mpr few, Option.map_none, Option.isSome_none,
    Bool.false_eq_true] at taken

def MtuSetFits (kcp : IKCPCB) : Call → Prop
  | .setmtu mtu => MtuFits kcp mtu
  | _ => True

instance (kcp : IKCPCB) : (any : Call) → Decidable (MtuSetFits kcp any)
  | .setmtu mtu => inferInstanceAs (Decidable (MtuFits kcp mtu))
  | .send _ | .recv _ | .input _ | .update _ | .flush | .nodelay _ _ _ _ | .interval _
  | .wndsize _ _ => isTrue trivial

theorem ikcpInput_fits {data : List UInt8} {code : Int} (fits : kcp.sender.Fits)
    (taken : ikcpInput kcp data = some (final, code)) : final.sender.Fits := by
  apply ikcpInput_preserves _ _ fits taken
  · exact fun next header rest held => held.released (released_inputSegment next header rest)
  · intro next held
    rw [(frame_growWindow next).sender]
    exact held

theorem fits_of_call (fits : kcp.sender.Fits) (met : MtuSetFits kcp any)
    (done : call kcp any = some final) : final.sender.Fits := by
  cases any with
  | send message =>
      obtain ⟨⟨sent, code⟩, sending, rfl⟩ := Option.map_eq_some_iff.mp done
      rcases ikcpSend_pieces fits.payload message with
        refused | ⟨next, pieces, more, accepted, _, _, _, _, each, sender, _⟩
      · rw [refused] at sending
        cases sending
        exact fits
      · rw [accepted] at sending
        cases sending
        rw [sender]
        exact fits.send fun seg member => (each seg member).2
  | recv len =>
      cases done
      rw [ikcpRecv_sender]
      exact fits
  | input data =>
      obtain ⟨⟨taken, code⟩, taking, rfl⟩ := Option.map_eq_some_iff.mp done
      exact ikcpInput_fits fits taking
  | update current =>
      obtain ⟨⟨updated, datagrams⟩, updating, rfl⟩ := Option.map_eq_some_iff.mp done
      obtain ⟨next, sent, same, held⟩ := ikcpUpdate_fits current fits
      rw [updating] at same
      cases same
      exact held
  | flush =>
      obtain ⟨⟨flushed, datagrams⟩, flushing, rfl⟩ := Option.map_eq_some_iff.mp done
      obtain ⟨next, sent, same, held, _⟩ := ikcpFlush_fits fits
      rw [flushing] at same
      cases same
      exact held
  | setmtu mtu =>
      cases done
      exact ikcpSetmtu_fits met fits
  | nodelay | interval | wndsize =>
      cases done
      exact fits

end Calls

section Endpoint

variable {bound size : Nat} {conv : UInt32} {calls : List Call}

/-- What the user of a control block has to see to, and a bound on what arrives. -/
structure CallWithin (bound size : Nat) (kcp : IKCPCB) (any : Call) : Prop where
  receives : ReceivesWithin bound size kcp any
  inRange : CallInRange kcp any
  mtu : MtuSetFits kcp any

instance (bound size : Nat) (kcp : IKCPCB) (any : Call) :
    Decidable (CallWithin bound size kcp any) :=
  decidable_of_iff (ReceivesWithin bound size kcp any ∧ CallInRange kcp any ∧ MtuSetFits kcp any)
    ⟨fun ⟨receives, inRange, mtu⟩ => ⟨receives, inRange, mtu⟩,
      fun within => ⟨within.receives, within.inRange, within.mtu⟩⟩

def thirdAcknowledged : List UInt8 := strangeSegment IKCP_CMD_ACK 2 []

end Endpoint

section Connections

variable {conv : UInt32} {connection after last : Connection} {ledger : Ledger} {action : Action}
  {actions : List Action}

theorem Connection.Sound.recvFits (sound : connection.Sound conv ledger) (side : Side) :
    RecvFits (connection.host side) := by
  intro len notLeast
  rcases ikcpRecv_cases (sound.small side.peer) (sound.right side.peer).sender.labels rfl
    (sound.whole side.peer) (sound.right side).receiver len with
    ⟨code, _, refused, _⟩ | ⟨next, message, later, _, received, room, _⟩
  · rw [refused]
    exact Nat.zero_le _
  · rw [bufferRoom_toInt notLeast] at room
    rw [received]
    exact Int.ofNat_le.mp room

/-- What the users have to see to for every call to be defined. -/
def Admitted (connection : Connection) (action : Action) : Prop :=
  Permitted connection action ∧
    CallInRange (connection.host action.side) (connection.called action)

instance (connection : Connection) (action : Action) : Decidable (Admitted connection action) :=
  inferInstanceAs (Decidable (_ ∧ _))

def SmallEstimates (connection : Connection) : Prop :=
  ∀ side, (connection.host side).roundTrips.Small

theorem SmallEstimates.step (small : SmallEstimates connection)
    (admitted : Admitted connection action) (done : connection.step action = some after) :
    SmallEstimates after := by
  obtain ⟨next, called, host⟩ := Connection.host_of_step done
  have moved := small_of_call (small action.side) admitted.2 called
  intro side
  rw [host]
  by_cases own : side = action.side
  · rw [own, Function.update_self]
    exact moved
  · rw [Function.update_of_ne own]
    exact small side

end Connections

end TalkingTime.Kcp

import TalkingTime.Kcp.Endpoint

/-! What stays in bounds in every run of a control block, whatever it receives: the
windows, the retransmission timeout, the interval and `snd_una`. -/

namespace TalkingTime.Kcp

open Serial

variable {kcp final : IKCPCB} {datagrams : List (List UInt8)}

def IsWindow (window : UInt32) : Prop := 0 < window.toNat ∧ window.toNat < 2 ^ 31
def IsMinrto (minrto : Int32) : Prop := minrto = IKCP_RTO_NDL ∨ minrto = IKCP_RTO_MIN
def IsRto (rto : Int32) : Prop := 30 ≤ rto.toUInt32.toNat ∧ rto.toUInt32.toNat ≤ 60000
def IsInterval (interval : UInt32) : Prop := 10 ≤ interval.toNat ∧ interval.toNat ≤ 5000

structure Settings.Sane (settings : Settings) : Prop where
  sndWnd : IsWindow settings.sndWnd
  rcvWnd : IsWindow settings.rcvWnd
  rmtWnd : settings.rmtWnd.toNat < 2 ^ 16
  rxMinrto : IsMinrto settings.rxMinrto
  interval : IsInterval settings.interval
  rxRto : IsRto settings.roundTrips.rxRto

structure RangesHold (kcp : IKCPCB) : Prop where
  sane : kcp.settings.Sane
  tight : kcp.sender.Tight

section Settings

theorem ibound_between (lower middle upper : UInt32)
    (ordered : lower.toNat ≤ upper.toNat) :
    lower.toNat ≤ (ibound lower middle upper).toNat ∧
      (ibound lower middle upper).toNat ≤ upper.toNat := by
  unfold ibound imin imax
  split <;> split <;> simp only [UInt32.le_iff_toNat_le] at * <;> omega

theorem ikcpUpdateAck_rxRto (kcp : IKCPCB) (rtt : Int32)
    (least : IsMinrto kcp.rxMinrto) : IsRto (ikcpUpdateAck kcp rtt).rxRto := by
  have bounds : 30 ≤ kcp.rxMinrto.toUInt32.toNat ∧ kcp.rxMinrto.toUInt32.toNat ≤ 60000 := by
    rcases least with same | same <;> rw [same] <;> decide
  have most : IKCP_RTO_MAX.toNat = 60000 := by decide
  have rto : ∃ middle, (ikcpUpdateAck kcp rtt).rxRto =
      (ibound kcp.rxMinrto.toUInt32 middle IKCP_RTO_MAX).toInt32 := by
    unfold ikcpUpdateAck
    dsimp only
    split <;> exact ⟨_, rfl⟩
  obtain ⟨middle, same⟩ := rto
  obtain ⟨above, below⟩ := ibound_between kcp.rxMinrto.toUInt32 middle IKCP_RTO_MAX (by omega)
  rw [same, IsRto, UInt32.toUInt32_toInt32]
  omega

theorem settings_ikcpUpdateAck (kcp : IKCPCB) (rtt : Int32) :
    (ikcpUpdateAck kcp rtt).settings =
      { kcp.settings with roundTrips := (ikcpUpdateAck kcp rtt).roundTrips } := by
  unfold ikcpUpdateAck
  dsimp only
  split <;> rfl

theorem settings_ikcpShrinkBuf (kcp : IKCPCB) : (ikcpShrinkBuf kcp).settings = kcp.settings := by
  unfold ikcpShrinkBuf
  split <;> rfl

theorem settings_ikcpParseAck (kcp : IKCPCB) (sn : UInt32) :
    (ikcpParseAck kcp sn).settings = kcp.settings := by
  unfold ikcpParseAck
  split <;> rfl

theorem settings_moveAvailable (kcp : IKCPCB) : (moveAvailable kcp).settings = kcp.settings := by
  apply moveAvailable_preserves (fun moved => moved.settings = kcp.settings) _ rfl
  exact fun moved seg rest same _ _ _ => same

theorem settings_inputPush (kcp : IKCPCB) (newseg : IKCPSEG) :
    (inputPush kcp newseg).settings = kcp.settings := by
  unfold inputPush
  split
  · dsimp only
    split
    · unfold ikcpParseData
      dsimp only
      split
      · rfl
      · exact settings_moveAvailable _
    · rfl
  · rfl

theorem settings_heard (kcp : IKCPCB) (header : Header) :
    (heard kcp header).settings = { kcp.settings with rmtWnd := header.wnd.toUInt32 } :=
  settings_ikcpShrinkBuf _

theorem current_heard (kcp : IKCPCB) (header : Header) :
    (heard kcp header).current = kcp.current := by
  unfold heard ikcpShrinkBuf
  split <;> rfl

theorem settings_inputSegment (kcp : IKCPCB) (header : Header) (data : List UInt8) :
    ∃ roundTrips,
      (inputSegment kcp header data).settings =
        { kcp.settings with rmtWnd := header.wnd.toUInt32, roundTrips := roundTrips } ∧
      (roundTrips = kcp.roundTrips ∨
        header.cmd.toUInt32 = IKCP_CMD_ACK ∧ 0 ≤ diff kcp.current header.ts ∧
          roundTrips =
            (ikcpUpdateAck (heard kcp header) (kcp.current - header.ts).toInt32).roundTrips) := by
  have start := settings_heard kcp header
  rw [inputSegment_eq]
  split
  · rename_i ack
    unfold inputAck
    dsimp only
    rw [settings_ikcpShrinkBuf, settings_ikcpParseAck, current_heard]
    split
    · rename_i measured
      rw [settings_ikcpUpdateAck, start]
      exact ⟨_, rfl, Or.inr ⟨ack, measured, rfl⟩⟩
    · exact ⟨kcp.roundTrips, start, Or.inl rfl⟩
  · refine ⟨kcp.roundTrips, ?_, Or.inl rfl⟩
    split
    · exact (settings_inputPush _ _).trans start
    · split <;> exact start

theorem settings_growWindow (kcp : IKCPCB) : (growWindow kcp).settings = kcp.settings := by
  have opened : (openWindow kcp).settings = kcp.settings := by
    unfold openWindow
    dsimp only
    split <;> rfl
  unfold growWindow
  dsimp only
  split
  · split <;> exact opened
  · rfl

theorem Settings.Sane.inputSegment (sane : kcp.settings.Sane) (header : Header) (data : List UInt8) :
    (inputSegment kcp header data).settings.Sane := by
  obtain ⟨roundTrips, settings, measured⟩ := settings_inputSegment kcp header data
  have minrto : (heard kcp header).rxMinrto = kcp.rxMinrto :=
    congrArg Settings.rxMinrto (settings_heard kcp header)
  have window : header.wnd.toUInt32.toNat < 2 ^ 16 := by
    rw [UInt16.toNat_toUInt32]
    exact header.wnd.toNat_lt
  rw [settings]
  refine { sane with rmtWnd := window, rxRto := ?_ }
  rcases measured with rfl | ⟨_, _, rfl⟩
  · exact sane.rxRto
  · exact ikcpUpdateAck_rxRto _ _ (minrto ▸ sane.rxMinrto)

theorem settings_recvMessage (ispeek : Bool) (kcp : IKCPCB) :
    (recvMessage ispeek kcp).1.settings = kcp.settings := by
  unfold recvMessage
  dsimp only
  split <;> exact settings_moveAvailable _

theorem settings_ikcpRecv (kcp : IKCPCB) (len : Int32) :
    (ikcpRecv kcp len).1.settings = kcp.settings := by
  unfold ikcpRecv
  dsimp only
  split
  · rfl
  · split
    · rfl
    · split
      · rfl
      · exact settings_recvMessage _ kcp

theorem isWindow_toUInt32 {number : Int32} (positive : 0 < number) : IsWindow number.toUInt32 := by
  have size : number.toUInt32.toNat = number.toInt.toNat :=
    Int32.toNat_toUInt32_of_le (Int32.le_of_lt positive)
  have above : 0 < number.toInt := Int32.lt_iff_toInt_lt.mp positive
  have below := number.toInt_lt
  unfold IsWindow
  omega

theorem isInterval_boundInterval (interval : Int32) : IsInterval (boundInterval interval) := by
  unfold IsInterval boundInterval
  split
  · decide
  · rename_i most
    split
    · decide
    · rename_i least
      have lower : (10 : Int32).toInt ≤ interval.toInt := Int32.le_iff_toInt_le.mp (Int32.not_lt.mp least)
      have upper : interval.toInt ≤ (5000 : Int32).toInt := Int32.le_iff_toInt_le.mp (Int32.not_lt.mp most)
      have ten : (10 : Int32).toInt = 10 := by decide
      have fiveThousand : (5000 : Int32).toInt = 5000 := by decide
      have zero : (0 : Int32).toInt = 0 := by decide
      have notNegative : 0 ≤ interval := Int32.le_iff_toInt_le.mpr (by omega)
      have size : interval.toUInt32.toNat = interval.toInt.toNat :=
        Int32.toNat_toUInt32_of_le notNegative
      omega

end Settings

section Least

theorem least_eq_of_stamps {sender other : Sender} (nxt : sender.nxt = other.nxt)
    (stamps : sender.buf.map IKCPSEG.stamp = other.buf.map IKCPSEG.stamp) :
    sender.least = other.least := by
  unfold Sender.least
  cases first : sender.buf with
  | nil =>
      rw [first, List.map_nil] at stamps
      rw [List.map_eq_nil_iff.mp stamps.symm]
      exact nxt
  | cons seg rest =>
      cases second : other.buf with
      | nil =>
          rw [first, second] at stamps
          cases stamps
      | cons newseg more =>
          rw [first, second, List.map_cons, List.map_cons] at stamps
          exact (of_stamp_eq (List.cons.inj stamps).1).2.2.1

theorem Sender.Tight.number {sender : Sender} {seg : IKCPSEG} (queue : List IKCPSEG)
    (tight : sender.Tight) (next : seg.sn = sender.nxt) :
    Sender.Tight { sender with
      nxt := sender.nxt + 1, queue := queue, buf := sender.buf ++ [seg] } := by
  unfold Sender.Tight Sender.least at tight ⊢
  cases buffered : sender.buf with
  | nil =>
      rw [buffered] at tight
      exact tight.trans next.symm
  | cons first rest =>
      rw [buffered] at tight
      exact tight

theorem tight_numbered (wnd : UInt32) (tight : kcp.sender.Tight) :
    (numbered wnd kcp).sender.Tight := by
  apply numberLoop_preserves (fun next => next.sender.Tight) wnd (windowSize kcp) _ rfl tight
  intro next newseg rest held head _
  rw [number_sender wnd head]
  exact held.number rest rfl

theorem AfterFlush.tight (left : AfterFlush kcp final) (tight : kcp.sender.Tight) :
    final.sender.Tight := by
  have quiet := (quieted_frame kcp).1.sender
  have start : (quieted kcp).sender.Tight := quiet ▸ tight
  have numbering := tight_numbered (ikcpWndUnused kcp) start
  obtain ⟨_, _, una, _⟩ := numbered_frame (ikcpWndUnused kcp) (quieted kcp)
  have before : (quieted kcp).sndUna = kcp.sndUna := congrArg Sender.una quiet
  calc
    final.sndUna = (numbered (ikcpWndUnused kcp) (quieted kcp)).sndUna := by
      rw [left.una, una, before]
    _ = (numbered (ikcpWndUnused kcp) (quieted kcp)).sender.least := numbering
    _ = final.sender.least := least_eq_of_stamps left.nxt.symm left.buf.symm

end Least

section Calls

theorem ikcpUpdate_flushes (kcp : IKCPCB) (time : UInt32) :
    ∃ current updated tsFlush, updated ≠ 0 ∧ 0 ≤ diff current time ∧ ikcpUpdate kcp current =
      ikcpFlush { kcp with current := current, updated := updated, tsFlush := tsFlush } := by
  obtain ⟨updated, tsFlush, started, now | ⟨_, least, early⟩⟩ := ikcpUpdate_cases kcp time
  · exact ⟨time, updated, tsFlush, started, Int.le_of_eq (diff_self time).symm, now⟩
  · -- in twenty seconds the next flush is due
    have wait : ahead time (time + 20000) = 20000 := ahead_add time 20000
    have later : diff (time + 20000) kcp.tsFlush = diff time kcp.tsFlush + 20000 := by
      rw [diff_eq_add_ahead (by rw [wait]; omega), wait]
      rfl
    have after : diff (time + 20000) time = 20000 := by
      rw [diff_eq_add_ahead (by rw [wait, diff_self]; decide), wait, diff_self]
      rfl
    obtain ⟨updated, tsFlush, started, flushes | ⟨_, _, early⟩⟩ :=
      ikcpUpdate_cases kcp (time + 20000)
    · exact ⟨_, updated, tsFlush, started, by omega, flushes⟩
    · omega

theorem RangesHold.flush (ranges : RangesHold kcp)
    (flushed : ikcpFlush kcp = some (final, datagrams)) : RangesHold final := by
  by_cases started : kcp.updated = 0
  · rw [ikcpFlush, if_pos started] at flushed
    cases flushed
    exact ranges
  · obtain ⟨_, left⟩ := ikcpFlush_leaves started flushed
    exact ⟨left.settings ▸ ranges.sane, left.tight ranges.tight⟩

theorem RangesHold.update {current : UInt32} (ranges : RangesHold kcp)
    (updated : ikcpUpdate kcp current = some (final, datagrams)) : RangesHold final := by
  obtain ⟨started, tsFlush, _, cases⟩ := ikcpUpdate_cases kcp current
  have timed : RangesHold { kcp with current := current, updated := started, tsFlush := tsFlush } :=
    ⟨ranges.sane, ranges.tight⟩
  rcases cases with flushes | ⟨idle, _⟩
  · rw [updated] at flushes
    exact timed.flush flushes.symm
  · rw [updated] at idle
    cases idle
    exact timed

theorem RangesHold.input {data : List UInt8} {code : Int} (ranges : RangesHold kcp)
    (taken : ikcpInput kcp data = some (final, code)) : RangesHold final := by
  apply ikcpInput_preserves _ _ ranges taken
  · intro next header rest held
    exact ⟨held.sane.inputSegment header rest, (released_inputSegment next header rest).tight⟩
  · intro next held
    have frame := (frame_growWindow next).sender
    exact ⟨settings_growWindow next ▸ held.sane, frame ▸ held.tight⟩

theorem Settings.Sane.nodelay (sane : kcp.settings.Sane) (nodelay interval resend nc : Int32) :
    (ikcpNodelay kcp nodelay interval resend nc).settings.Sane := by
  refine { sane with rxMinrto := ?_, interval := ?_ }
  · change IsMinrto (if 0 ≤ nodelay then (if nodelay ≠ 0 then IKCP_RTO_NDL else IKCP_RTO_MIN)
      else kcp.rxMinrto)
    split
    · split
      · exact Or.inl rfl
      · exact Or.inr rfl
    · exact sane.rxMinrto
  · change IsInterval (if 0 ≤ interval then boundInterval interval else kcp.interval)
    split
    · exact isInterval_boundInterval interval
    · exact sane.interval

theorem Settings.Sane.wndsize (sane : kcp.settings.Sane) (sndwnd rcvwnd : Int32) :
    (ikcpWndsize kcp sndwnd rcvwnd).settings.Sane := by
  refine { sane with sndWnd := ?_, rcvWnd := ?_ }
  · change IsWindow (if 0 < sndwnd then sndwnd.toUInt32 else kcp.sndWnd)
    split
    · rename_i positive
      exact isWindow_toUInt32 positive
    · exact sane.sndWnd
  · change IsWindow (if 0 < rcvwnd then rcvwnd.toUInt32 else kcp.rcvWnd)
    split
    · rename_i positive
      exact isWindow_toUInt32 positive
    · exact sane.rcvWnd

theorem rangesHold_ikcpCreate (conv : UInt32) : RangesHold (ikcpCreate conv) where
  sane := by
    have snd : 0 < IKCP_WND_SND.toNat ∧ IKCP_WND_SND.toNat < 2 ^ 31 := by decide
    have rcv : 0 < IKCP_WND_RCV.toNat ∧ IKCP_WND_RCV.toNat < 2 ^ 31 := by decide
    have rmt : IKCP_WND_RCV.toNat < 2 ^ 16 := by decide
    have rto : 30 ≤ IKCP_RTO_DEF.toUInt32.toNat ∧ IKCP_RTO_DEF.toUInt32.toNat ≤ 60000 := by decide
    have interval : 10 ≤ IKCP_INTERVAL.toNat ∧ IKCP_INTERVAL.toNat ≤ 5000 := by decide
    exact ⟨snd, rcv, rmt, Or.inr rfl, interval, rto⟩
  tight := rfl

theorem RangesHold.call {next : IKCPCB} {any : Call} (ranges : RangesHold kcp)
    (done : call kcp any = some next) : RangesHold next := by
  cases any with
  | send message =>
      obtain ⟨⟨sent, code⟩, sending, rfl⟩ := Option.map_eq_some_iff.mp done
      obtain ⟨queue, rfl⟩ := ikcpSend_queue sending
      exact ⟨ranges.sane, ranges.tight⟩
  | recv len =>
      cases done
      refine ⟨?_, ?_⟩
      · rw [settings_ikcpRecv]
        exact ranges.sane
      · rw [ikcpRecv_sender]
        exact ranges.tight
  | input data =>
      obtain ⟨⟨taken, code⟩, taking, rfl⟩ := Option.map_eq_some_iff.mp done
      exact ranges.input taking
  | update current =>
      obtain ⟨⟨updated, datagrams⟩, updating, rfl⟩ := Option.map_eq_some_iff.mp done
      exact ranges.update updating
  | flush =>
      obtain ⟨⟨flushed, datagrams⟩, flushing, rfl⟩ := Option.map_eq_some_iff.mp done
      exact ranges.flush flushing
  | setmtu mtu =>
      cases done
      unfold ikcpSetmtu
      split
      · exact ranges
      · exact ⟨ranges.sane, ranges.tight⟩
  | nodelay nodelay interval resend nc =>
      cases done
      exact ⟨ranges.sane.nodelay nodelay interval resend nc, ranges.tight⟩
  | interval interval =>
      cases done
      exact ⟨{ ranges.sane with interval := isInterval_boundInterval interval }, ranges.tight⟩
  | wndsize sndwnd rcvwnd =>
      cases done
      exact ⟨ranges.sane.wndsize sndwnd rcvwnd, ranges.tight⟩

/-- Whatever a control block receives, and whatever its user sets, its windows are not
empty, its timeout is between 30 and 60000, and `snd_una` is right. -/
theorem ranges_of_run {conv : UInt32} {calls : List Call}
    (replayed : Runs.run call (ikcpCreate conv) calls = some final) : RangesHold final :=
  Runs.invariant_of_run (fun _ _ _ ranges done => ranges.call done) (rangesHold_ikcpCreate conv)
    replayed

theorem ranges_of_run_strangeCalls :
    ∃ final, Runs.run call (ikcpCreate 7) strangeCalls = some final ∧ final.rmtWnd = 20 ∧
      RangesHold final := by
  obtain ⟨final, replayed, _, _, _, window⟩ := strangeCalls_replayed
  exact ⟨final, replayed, window, ranges_of_run replayed⟩

end Calls

end TalkingTime.Kcp

import TalkingTime.Kcp.Bounds
import TalkingTime.Kcp.Reading
import TalkingTime.Library.SignedRange

/-! The integers of `ikcp_update_ack`: none overflows while every acknowledgement that
arrives repeats a time less than `2 ^ 28` milliseconds ago, about three days. -/

namespace TalkingTime.Kcp

open Serial SignedRange

variable {kcp : IKCPCB}

/-- What `ikcp_update_ack` computes with `int`, where an overflow is undefined. -/
structure UpdateAckDefined (kcp : IKCPCB) (rtt : Int32) : Prop where
  delta : kcp.rxSrtt ≠ 0 → InInt32 (rtt.toInt - kcp.rxSrtt.toInt)
  rttval : kcp.rxSrtt ≠ 0 → InInt32 (3 * kcp.rxRttval.toInt)
  srtt : kcp.rxSrtt ≠ 0 → InInt32 (7 * kcp.rxSrtt.toInt)
  sum : kcp.rxSrtt ≠ 0 → InInt32 (7 * kcp.rxSrtt.toInt + rtt.toInt)
  rto : InInt32 (4 * (ikcpUpdateAck kcp rtt).rxRttval.toInt)

def AcksDefined (kcp : IKCPCB) : List IKCPSEG → Prop
  | [] => True
  | seg :: rest =>
      (seg.cmd = IKCP_CMD_ACK → 0 ≤ diff kcp.current seg.ts →
        UpdateAckDefined (heard kcp seg.header) (kcp.current - seg.ts).toInt32) ∧
      AcksDefined (inputSegment kcp seg.header seg.data) rest

def AcksRecent (kcp : IKCPCB) (segs : List IKCPSEG) : Prop :=
  ∀ seg ∈ segs, seg.cmd = IKCP_CMD_ACK → diff kcp.current seg.ts < 2 ^ 28

instance (kcp : IKCPCB) (segs : List IKCPSEG) : Decidable (AcksRecent kcp segs) :=
  inferInstanceAs (Decidable (∀ seg ∈ segs, seg.cmd = IKCP_CMD_ACK → _))

def IsSmall (time : Int32) : Prop := 0 ≤ time.toInt ∧ time.toInt < 2 ^ 28

structure RoundTrips.Small (roundTrips : RoundTrips) : Prop where
  rxSrtt : IsSmall roundTrips.rxSrtt
  rxRttval : IsSmall roundTrips.rxRttval

section Estimates

variable {rtt : Int32}

theorem small_iff (kcp : IKCPCB) :
    kcp.roundTrips.Small ↔ IsSmall kcp.rxSrtt ∧ IsSmall kcp.rxRttval :=
  ⟨fun small => ⟨small.rxSrtt, small.rxRttval⟩, fun both => ⟨both.1, both.2⟩⟩

theorem ikcpUpdateAck_first (first : kcp.rxSrtt = 0) :
    (ikcpUpdateAck kcp rtt).rxSrtt = rtt ∧ (ikcpUpdateAck kcp rtt).rxRttval = rtt / 2 := by
  unfold ikcpUpdateAck
  simp only [if_pos first, and_self]

theorem ikcpUpdateAck_later (later : kcp.rxSrtt ≠ 0) (small : kcp.roundTrips.Small)
    (recent : IsSmall rtt) :
    (ikcpUpdateAck kcp rtt).rxSrtt.toInt = max 1 ((7 * kcp.rxSrtt.toInt + rtt.toInt) / 8) ∧
      (ikcpUpdateAck kcp rtt).rxRttval.toInt =
        (3 * kcp.rxRttval.toInt + |rtt.toInt - kcp.rxSrtt.toInt|) / 4 := by
  obtain ⟨⟨srttLeast, srttMost⟩, ⟨valLeast, valMost⟩⟩ := (small_iff kcp).mp small
  obtain ⟨least, most⟩ := recent
  have three : (3 : Int32).toInt = 3 := by decide
  have seven : (7 : Int32).toInt = 7 := by decide
  have eight : (8 : Int32).toInt = 8 := by decide
  have one : (1 : Int32).toInt = 1 := by decide
  have delta : (rtt - kcp.rxSrtt).toInt = rtt.toInt - kcp.rxSrtt.toInt :=
    toInt_sub ⟨by omega, by omega⟩
  have triple : (3 * kcp.rxRttval).toInt = 3 * kcp.rxRttval.toInt := by
    rw [toInt_mul (by rw [three]; exact ⟨by omega, by omega⟩), three]
  have weighted : (7 * kcp.rxSrtt).toInt = 7 * kcp.rxSrtt.toInt := by
    rw [toInt_mul (by rw [seven]; exact ⟨by omega, by omega⟩), seven]
  have sum : (7 * kcp.rxSrtt + rtt).toInt = 7 * kcp.rxSrtt.toInt + rtt.toInt := by
    rw [toInt_add (by rw [weighted]; exact ⟨by omega, by omega⟩), weighted]
  have mean : ((7 * kcp.rxSrtt + rtt) / 8).toInt = (7 * kcp.rxSrtt.toInt + rtt.toInt) / 8 := by
    rw [toInt_div (by rw [sum]; omega) (by decide), sum, eight]
  have distance := toInt_distance (rtt - kcp.rxSrtt)
  have bound : |rtt.toInt - kcp.rxSrtt.toInt| < 2 ^ 28 := abs_lt.mpr ⟨by omega, by omega⟩
  have positive := abs_nonneg (rtt.toInt - kcp.rxSrtt.toInt)
  unfold ikcpUpdateAck
  simp only [if_neg later]
  constructor
  · split
    · rename_i less
      have below := Int32.lt_iff_toInt_lt.mp less
      rw [mean, one] at below
      rw [one, max_eq_left (by omega)]
    · rename_i enough
      have above := Int32.le_iff_toInt_le.mp (Int32.not_lt.mp enough)
      rw [mean, one] at above
      rw [mean, max_eq_right above]
  · rw [toInt_mean (by rw [triple]; omega) (by rw [distance, delta]; exact positive)
      (by rw [distance, delta]; omega), triple, distance, delta]

/-- With small estimates and a small round trip nothing overflows, and the new estimates
are small too. -/
theorem ikcpUpdateAck_defined (small : kcp.roundTrips.Small) (recent : IsSmall rtt) :
    UpdateAckDefined kcp rtt ∧ (ikcpUpdateAck kcp rtt).roundTrips.Small := by
  obtain ⟨⟨srttLeast, srttMost⟩, ⟨valLeast, valMost⟩⟩ := (small_iff kcp).mp small
  have ⟨least, most⟩ := recent
  have estimates : (ikcpUpdateAck kcp rtt).roundTrips.Small := by
    by_cases first : kcp.rxSrtt = 0
    · obtain ⟨srtt, rttval⟩ : (ikcpUpdateAck kcp rtt).rxSrtt = rtt ∧
          (ikcpUpdateAck kcp rtt).rxRttval = rtt / 2 := ikcpUpdateAck_first first
      have half : (rtt / 2).toInt = rtt.toInt / 2 := toInt_div least (by decide)
      rw [small_iff, srtt, rttval]
      refine ⟨recent, ?_⟩
      rw [IsSmall, half]
      omega
    · obtain ⟨srtt, rttval⟩ := ikcpUpdateAck_later first small recent
      have bound : |rtt.toInt - kcp.rxSrtt.toInt| < 2 ^ 28 := abs_lt.mpr ⟨by omega, by omega⟩
      have positive := abs_nonneg (rtt.toInt - kcp.rxSrtt.toInt)
      rw [small_iff, IsSmall, IsSmall, srtt, rttval]
      omega
  obtain ⟨newLeast, newMost⟩ := ((small_iff _).mp estimates).2
  have inRange : ∀ value : Int, -2 ^ 28 < value → value < 2 ^ 31 → InInt32 value :=
    fun value low high => ⟨by omega, high⟩
  exact ⟨⟨fun _ => inRange _ (by omega) (by omega), fun _ => inRange _ (by omega) (by omega),
    fun _ => inRange _ (by omega) (by omega), fun _ => inRange _ (by omega) (by omega),
    inRange _ (by omega) (by omega)⟩, estimates⟩

end Estimates

section Segments

theorem current_inputSegment (kcp : IKCPCB) (header : Header) (data : List UInt8) :
    (inputSegment kcp header data).current = kcp.current := by
  have start := current_heard kcp header
  have shrunk : ∀ next, (ikcpShrinkBuf next).current = next.current := by
    intro next
    unfold ikcpShrinkBuf
    split <;> rfl
  have parsed : ∀ next sn, (ikcpParseAck next sn).current = next.current := by
    intro next sn
    unfold ikcpParseAck
    split <;> rfl
  have measured : ∀ next rtt, (ikcpUpdateAck next rtt).current = next.current := by
    intro next rtt
    unfold ikcpUpdateAck
    dsimp only
    split <;> rfl
  have moved : ∀ next, (moveAvailable next).current = next.current :=
    fun next => moveAvailable_preserves (fun last => last.current = next.current)
      (fun _ _ _ same _ _ _ => same) rfl
  rw [inputSegment_eq]
  split
  · unfold inputAck
    dsimp only
    rw [shrunk, parsed]
    split
    · rw [measured, start]
    · exact start
  · split
    · unfold inputPush
      split
      · dsimp only
        split
        · unfold ikcpParseData
          dsimp only
          split
          · exact start
          · rw [moved]
            exact start
        · exact start
      · exact start
    · split <;> exact start

theorem roundTrips_of_settings {next : IKCPCB} (same : next.settings = kcp.settings) :
    next.roundTrips = kcp.roundTrips := congrArg Settings.roundTrips same

theorem small_heard (header : Header) (small : kcp.roundTrips.Small) :
    (heard kcp header).roundTrips.Small := by
  have same : (heard kcp header).roundTrips = kcp.roundTrips :=
    congrArg Settings.roundTrips (settings_heard kcp header)
  rw [same]
  exact small

theorem inputSegment_defined {seg : IKCPSEG} (small : kcp.roundTrips.Small)
    (known : knownCommand seg.cmd)
    (recent : seg.cmd = IKCP_CMD_ACK → diff kcp.current seg.ts < 2 ^ 28) :
    (seg.cmd = IKCP_CMD_ACK → 0 ≤ diff kcp.current seg.ts →
      UpdateAckDefined (heard kcp seg.header) (kcp.current - seg.ts).toInt32) ∧
    (inputSegment kcp seg.header seg.data).roundTrips.Small := by
  have start := small_heard seg.header small
  have acked : seg.cmd = IKCP_CMD_ACK → 0 ≤ diff kcp.current seg.ts →
      UpdateAckDefined (heard kcp seg.header) (kcp.current - seg.ts).toInt32 ∧
        (ikcpUpdateAck (heard kcp seg.header) (kcp.current - seg.ts).toInt32).roundTrips.Small :=
    fun ack notAfter => ikcpUpdateAck_defined start ⟨notAfter, recent ack⟩
  refine ⟨fun ack notAfter => (acked ack notAfter).1, ?_⟩
  obtain ⟨roundTrips, settings, same | ⟨ack, notAfter, measured⟩⟩ :=
    settings_inputSegment kcp seg.header seg.data
  · have unchanged : (inputSegment kcp seg.header seg.data).roundTrips = kcp.roundTrips :=
      (congrArg Settings.roundTrips settings).trans same
    rw [unchanged]
    exact small
  · rw [header_cmd known] at ack
    have updated : (inputSegment kcp seg.header seg.data).roundTrips = _ :=
      (congrArg Settings.roundTrips settings).trans measured
    rw [updated]
    exact (acked ack notAfter).2

theorem inputSegments_defined {segs : List IKCPSEG} (small : kcp.roundTrips.Small)
    (known : ∀ seg ∈ segs, knownCommand seg.cmd) (recent : AcksRecent kcp segs) :
    AcksDefined kcp segs ∧ (inputSegments kcp segs).roundTrips.Small := by
  induction segs generalizing kcp with
  | nil => exact ⟨trivial, small⟩
  | cons seg rest ih =>
      obtain ⟨first, later⟩ := List.forall_mem_cons.mp known
      obtain ⟨firstRecent, laterRecent⟩ := List.forall_mem_cons.mp recent
      obtain ⟨defined, next⟩ := inputSegment_defined small first firstRecent
      have clock := current_inputSegment kcp seg.header seg.data
      have remaining : AcksRecent (inputSegment kcp seg.header seg.data) rest := by
        rw [AcksRecent, clock]
        exact laterRecent
      obtain ⟨more, last⟩ := ih next later remaining
      exact ⟨⟨defined, more⟩, last⟩

theorem ikcpInput_defined {final : IKCPCB} {data : List UInt8} {code : Int}
    (small : kcp.roundTrips.Small) (recent : AcksRecent kcp (takenSegments kcp.conv data))
    (taken : ikcpInput kcp data = some (final, code)) :
    AcksDefined kcp (takenSegments kcp.conv data) ∧ final.roundTrips.Small := by
  obtain ⟨_, _, _, legible, _⟩ := takenSegments_reads kcp.conv data
  obtain ⟨defined, last⟩ :=
    inputSegments_defined small (fun seg member => (legible seg member).known) recent
  refine ⟨defined, ?_⟩
  rcases ikcpInput_ends taken with rfl | rfl
  · rw [roundTrips_of_settings (settings_growWindow _)]
    exact last
  · exact last

end Segments

section Calls

variable {final : IKCPCB} {any : Call}

/-- What a user has to see to for the integers of a call to stay in range: no buffer size
that cannot be negated, and no acknowledgement that is days old. -/
def CallInRange (kcp : IKCPCB) : Call → Prop
  | .recv len => len ≠ Int32.minValue
  | .input data => AcksRecent kcp (takenSegments kcp.conv data)
  | _ => True

instance (kcp : IKCPCB) : (any : Call) → Decidable (CallInRange kcp any)
  | .recv len => inferInstanceAs (Decidable (len ≠ Int32.minValue))
  | .input data => inferInstanceAs (Decidable (AcksRecent kcp (takenSegments kcp.conv data)))
  | .send _ | .update _ | .flush | .setmtu _ | .nodelay _ _ _ _ | .interval _ | .wndsize _ _ =>
      isTrue trivial

theorem roundTrips_ikcpFlush {datagrams : List (List UInt8)}
    (flushed : ikcpFlush kcp = some (final, datagrams)) : final.roundTrips = kcp.roundTrips := by
  by_cases started : kcp.updated = 0
  · rw [ikcpFlush, if_pos started] at flushed
    cases flushed
    rfl
  · exact roundTrips_of_settings (ikcpFlush_leaves started flushed).2.settings

theorem small_of_call (small : kcp.roundTrips.Small) (inRange : CallInRange kcp any)
    (done : call kcp any = some final) : final.roundTrips.Small := by
  cases any with
  | send message =>
      obtain ⟨⟨sent, code⟩, sending, rfl⟩ := Option.map_eq_some_iff.mp done
      obtain ⟨queue, rfl⟩ := ikcpSend_queue sending
      exact small
  | recv len =>
      cases done
      rw [roundTrips_of_settings (settings_ikcpRecv kcp len)]
      exact small
  | input data =>
      obtain ⟨⟨taken, code⟩, taking, rfl⟩ := Option.map_eq_some_iff.mp done
      exact (ikcpInput_defined small inRange taking).2
  | update current =>
      obtain ⟨⟨updated, datagrams⟩, updating, rfl⟩ := Option.map_eq_some_iff.mp done
      obtain ⟨started, tsFlush, _, flushes | ⟨idle, _⟩⟩ := ikcpUpdate_cases kcp current
      · rw [roundTrips_ikcpFlush (flushes.symm.trans updating)]
        exact small
      · rw [updating] at idle
        cases idle
        exact small
  | flush =>
      obtain ⟨⟨flushed, datagrams⟩, flushing, rfl⟩ := Option.map_eq_some_iff.mp done
      rw [roundTrips_ikcpFlush flushing]
      exact small
  | setmtu mtu =>
      cases done
      unfold ikcpSetmtu
      split <;> exact small
  | nodelay | interval | wndsize =>
      cases done
      exact small

theorem small_ikcpCreate (conv : UInt32) : (ikcpCreate conv).roundTrips.Small := by
  have zero : IsSmall 0 := ⟨by decide, by decide⟩
  exact ⟨zero, zero⟩

end Calls

end TalkingTime.Kcp

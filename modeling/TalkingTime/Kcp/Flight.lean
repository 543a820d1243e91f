import TalkingTime.Kcp.Reaction

/-! What a control block has on its way: numbers in order from `snd_una` on, each
once, and never more of them than the widest window that its user has set. -/

namespace TalkingTime.Kcp

open Serial

variable {kcp final : IKCPCB} {datagrams : List (List UInt8)} {bound : Nat}

section Pace

variable {sender : Sender}

/-- The numbers in `snd_buf` lie in order from `snd_una` up to `snd_nxt`, which is at
most `bound` ahead. -/
structure Sender.Paced (sender : Sender) (bound : Nat) : Prop where
  sorted : AscendingFrom sender.una sender.buf
  below : ∀ seg ∈ sender.buf, ahead sender.una seg.sn < ahead sender.una sender.nxt
  near : ahead sender.una sender.nxt ≤ bound

theorem ascendingFrom_iff_stamps (base : UInt32) (segs : List IKCPSEG) :
    AscendingFrom base segs ↔ (segs.map IKCPSEG.stamp).Pairwise
      (fun stamp later => ahead base stamp.2.2.1 < ahead base later.2.2.1) := by
  rw [List.pairwise_map]
  rfl

theorem Sender.Paced.kept {other : Sender} (paced : sender.Paced bound)
    (una : other.una = sender.una) (nxt : other.nxt = sender.nxt)
    (stamps : (other.buf.map IKCPSEG.stamp).Sublist (sender.buf.map IKCPSEG.stamp)) :
    other.Paced bound := by
  refine ⟨?_, ?_, ?_⟩
  · rw [una]
    have order := (ascendingFrom_iff_stamps _ _).mp paced.sorted
    exact (ascendingFrom_iff_stamps _ _).mpr (order.sublist stamps)
  · intro seg member
    obtain ⟨old, present, same⟩ := List.mem_map.mp (stamps.subset (List.mem_map_of_mem member))
    rw [una, nxt, ← (of_stamp_eq same).2.2.1]
    exact paced.below old present
  · rw [una, nxt]
    exact paced.near

theorem Sender.Paced.shrink (paced : sender.Paced bound) :
    Sender.Paced { sender with una := sender.least } bound := by
  obtain ⟨sorted, below, near⟩ := paced
  by_cases empty : sender.buf = []
  · have least : sender.least = sender.nxt := by
      unfold Sender.least
      rw [empty]
    rw [least]
    refine ⟨?_, ?_, ?_⟩
    · change AscendingFrom sender.nxt sender.buf
      rw [empty]
      exact List.Pairwise.nil
    · change ∀ seg ∈ sender.buf, _
      rw [empty]
      exact List.forall_mem_nil _
    · change ahead sender.nxt sender.nxt ≤ bound
      rw [ahead_self]
      exact Nat.zero_le bound
  · obtain ⟨first, rest, buffered⟩ := List.exists_cons_of_ne_nil empty
    have least : sender.least = first.sn := by
      unfold Sender.least
      rw [buffered]
    -- all that is left comes nearer by as much
    have notBefore : ∀ seg ∈ sender.buf, ahead sender.una first.sn ≤ ahead sender.una seg.sn := by
      intro seg member
      rw [buffered] at member sorted
      rcases List.mem_cons.mp member with rfl | later
      · exact Nat.le_refl _
      · exact Nat.le_of_lt ((List.pairwise_cons.mp sorted).1 seg later)
    have present : first ∈ sender.buf := buffered ▸ List.mem_cons_self
    have last := ahead_add_ahead (Nat.le_of_lt (below first present))
    rw [least]
    refine ⟨?_, ?_, ?_⟩
    · apply List.Pairwise.imp_of_mem _ sorted
      intro seg other member otherMember less
      have nearer := ahead_add_ahead (notBefore seg member)
      have otherNearer := ahead_add_ahead (notBefore other otherMember)
      change ahead first.sn seg.sn < ahead first.sn other.sn
      omega
    · intro seg member
      have nearer := ahead_add_ahead (notBefore seg member)
      have before := below seg member
      change ahead first.sn seg.sn < ahead first.sn sender.nxt
      omega
    · change ahead first.sn sender.nxt ≤ bound
      omega

theorem Sender.Paced.released {after : Sender} (paced : sender.Paced bound)
    (released : sender.Released after) : after.Paced bound := by
  have dropped : Sender.Paced { sender with buf := after.buf } bound :=
    paced.kept rfl rfl released.stamps
  have tight : after.una = Sender.least { sender with buf := after.buf } := by
    have least := released.tight
    unfold Sender.Tight at least
    rw [least, released.same]
    rfl
  rw [released.same, tight]
  exact dropped.shrink

theorem Sender.Paced.number {seg : IKCPSEG} (queue : List IKCPSEG) (paced : sender.Paced bound)
    (small : bound < 2 ^ 31) (next : seg.sn = sender.nxt)
    (room : ahead sender.una sender.nxt < bound) :
    Sender.Paced { sender with
      nxt := sender.nxt + 1, queue := queue, buf := sender.buf ++ [seg] } bound := by
  have further : ahead sender.una (sender.nxt + 1) = ahead sender.una sender.nxt + 1 :=
    ahead_next (by omega)
  refine ⟨?_, ?_, ?_⟩
  · refine List.pairwise_append.mpr ⟨paced.sorted, List.pairwise_singleton _ seg, ?_⟩
    intro other member last new
    rw [List.mem_singleton.mp new, next]
    exact paced.below other member
  · intro other member
    change ahead sender.una other.sn < ahead sender.una (sender.nxt + 1)
    rcases List.mem_append.mp member with old | new
    · have before := paced.below other old
      omega
    · rw [List.mem_singleton.mp new, next]
      omega
  · change ahead sender.una (sender.nxt + 1) ≤ bound
    omega

theorem paced_numbered (wnd : UInt32) (small : bound < 2 ^ 31)
    (window : kcp.sndWnd.toNat ≤ bound) (paced : kcp.sender.Paced bound) :
    (numbered wnd kcp).sender.Paced bound := by
  have width : (windowSize kcp).toNat ≤ bound := Nat.le_trans (windowSize_le kcp) window
  apply numberLoop_preserves (fun next => next.sender.Paced bound) wnd (windowSize kcp) _ rfl paced
  intro next newseg rest held head room
  have near : ahead next.sndUna next.sndNxt ≤ bound := held.near
  have notBehind : 0 ≤ diff next.sndNxt next.sndUna := by
    rw [diff_eq_ahead (by omega)]
    exact Int.natCast_nonneg _
  have inside := ahead_lt_of_diff (by omega) notBehind room
  rw [number_sender wnd head]
  exact held.number rest small rfl (by change ahead next.sndUna next.sndNxt < bound; omega)

theorem AfterFlush.paced (left : AfterFlush kcp final) (small : bound < 2 ^ 31)
    (window : kcp.sndWnd.toNat ≤ bound) (paced : kcp.sender.Paced bound) :
    final.sender.Paced bound := by
  obtain ⟨quiet, settings, _⟩ := quieted_frame kcp
  obtain ⟨_, _, una, _⟩ := numbered_frame (ikcpWndUnused kcp) (quieted kcp)
  have before : (quieted kcp).sndUna = kcp.sndUna := congrArg Sender.una quiet.sender
  have start : (quieted kcp).sender.Paced bound := quiet.sender ▸ paced
  have sndWnd : (quieted kcp).sndWnd = kcp.sndWnd := congrArg Settings.sndWnd settings
  have numbering := paced_numbered (ikcpWndUnused kcp) small (sndWnd ▸ window) start
  have sameUna : final.sndUna = (numbered (ikcpWndUnused kcp) (quieted kcp)).sndUna := by
    rw [left.una, una, before]
  apply numbering.kept sameUna left.nxt
  change (final.sndBuf.segs.map IKCPSEG.stamp).Sublist _
  rw [left.buf]
  exact List.Sublist.refl _

end Pace

section Calls

/-- What a call does to the sending half: nothing but to what waits for a number, the
release of what has been acknowledged, or a flush at some time. -/
inductive Sends (kcp final : IKCPCB) : Prop where
  | rests (una : final.sndUna = kcp.sndUna) (nxt : final.sndNxt = kcp.sndNxt)
      (buf : final.sndBuf.segs = kcp.sndBuf.segs)
  | releases (released : kcp.sender.Released final.sender)
  | flushes (timed : IKCPCB) (sender : timed.sender = kcp.sender)
      (settings : timed.settings = kcp.settings) (left : AfterFlush timed final)

theorem sends_of_sender (same : final.sender = kcp.sender) : Sends kcp final :=
  .rests (congrArg Sender.una same) (congrArg Sender.nxt same) (congrArg Sender.buf same)

theorem sends_ikcpInput {data : List UInt8} {code : Int}
    (taken : ikcpInput kcp data = some (final, code)) : Sends kcp final := by
  have released : final.sender = kcp.sender ∨ kcp.sender.Released final.sender := by
    refine ikcpInput_preserves
      (fun next header rest (held : next.sender = kcp.sender ∨ kcp.sender.Released next.sender) => ?_)
      (fun next held => ?_) (Or.inl rfl) taken
    · have more := released_inputSegment next header rest
      rcases held with same | released
      · exact Or.inr (same ▸ more)
      · exact Or.inr (released.trans more)
    · rw [(frame_growWindow next).sender]
      exact held
  rcases released with same | released
  · exact sends_of_sender same
  · exact .releases released

theorem sends_ikcpUpdate {current : UInt32}
    (updated : ikcpUpdate kcp current = some (final, datagrams)) : Sends kcp final := by
  obtain ⟨started, tsFlush, running, flushes | ⟨idle, _⟩⟩ := ikcpUpdate_cases kcp current
  · rw [updated] at flushes
    have left := (ikcpFlush_leaves running flushes.symm).2
    exact .flushes { kcp with current := current, updated := started, tsFlush := tsFlush } rfl rfl left
  · rw [updated] at idle
    cases idle
    exact .rests rfl rfl rfl

theorem sends_of_call {any : Call} (done : call kcp any = some final) : Sends kcp final := by
  cases any with
  | send message =>
      obtain ⟨⟨sent, code⟩, sending, rfl⟩ := Option.map_eq_some_iff.mp done
      obtain ⟨queue, rfl⟩ := ikcpSend_queue sending
      exact .rests rfl rfl rfl
  | recv len =>
      cases done
      exact sends_of_sender (ikcpRecv_sender kcp len)
  | input data =>
      obtain ⟨⟨taken, code⟩, taking, rfl⟩ := Option.map_eq_some_iff.mp done
      exact sends_ikcpInput taking
  | update current =>
      obtain ⟨⟨updated, datagrams⟩, updating, rfl⟩ := Option.map_eq_some_iff.mp done
      exact sends_ikcpUpdate updating
  | flush =>
      obtain ⟨⟨flushed, datagrams⟩, flushing, rfl⟩ := Option.map_eq_some_iff.mp done
      by_cases started : kcp.updated = 0
      · rw [ikcpFlush, if_pos started] at flushing
        cases flushing
        exact .rests rfl rfl rfl
      · exact .flushes kcp rfl rfl (ikcpFlush_leaves started flushing).2
  | setmtu mtu =>
      cases done
      unfold ikcpSetmtu
      split <;> exact .rests rfl rfl rfl
  | nodelay | interval | wndsize =>
      cases done
      exact .rests rfl rfl rfl

theorem sndWnd_ikcpInput {data : List UInt8} {code : Int}
    (taken : ikcpInput kcp data = some (final, code)) : final.sndWnd = kcp.sndWnd := by
  refine ikcpInput_preserves (fun next header rest (held : next.sndWnd = kcp.sndWnd) => ?_)
    (fun next held => ?_) rfl taken
  · obtain ⟨_, settings, _⟩ := settings_inputSegment next header rest
    exact (congrArg Settings.sndWnd settings).trans held
  · exact (congrArg Settings.sndWnd (settings_growWindow next)).trans held

theorem sndWnd_ikcpFlush (flushed : ikcpFlush kcp = some (final, datagrams)) :
    final.sndWnd = kcp.sndWnd := by
  by_cases started : kcp.updated = 0
  · rw [ikcpFlush, if_pos started] at flushed
    cases flushed
    rfl
  · exact congrArg Settings.sndWnd (ikcpFlush_leaves started flushed).2.settings

theorem sndWnd_of_call {any : Call} (done : call kcp any = some final) :
    final.sndWnd = kcp.sndWnd ∨ ∃ sndwnd rcvwnd, any = .wndsize sndwnd rcvwnd ∧ 0 < sndwnd ∧
      final.sndWnd = sndwnd.toUInt32 := by
  cases any with
  | send message =>
      obtain ⟨⟨sent, code⟩, sending, rfl⟩ := Option.map_eq_some_iff.mp done
      obtain ⟨queue, rfl⟩ := ikcpSend_queue sending
      exact Or.inl rfl
  | recv len =>
      cases done
      exact Or.inl (congrArg Settings.sndWnd (settings_ikcpRecv kcp len))
  | input data =>
      obtain ⟨⟨taken, code⟩, taking, rfl⟩ := Option.map_eq_some_iff.mp done
      exact Or.inl (sndWnd_ikcpInput taking)
  | update current =>
      obtain ⟨⟨updated, datagrams⟩, updating, rfl⟩ := Option.map_eq_some_iff.mp done
      obtain ⟨started, tsFlush, _, flushes | ⟨idle, _⟩⟩ := ikcpUpdate_cases kcp current
      · have same := sndWnd_ikcpFlush (flushes.symm.trans updating)
        exact Or.inl same
      · rw [updating] at idle
        cases idle
        exact Or.inl rfl
  | flush =>
      obtain ⟨⟨flushed, datagrams⟩, flushing, rfl⟩ := Option.map_eq_some_iff.mp done
      exact Or.inl (sndWnd_ikcpFlush flushing)
  | setmtu mtu =>
      cases done
      unfold ikcpSetmtu
      split <;> exact Or.inl rfl
  | nodelay | interval =>
      cases done
      exact Or.inl rfl
  | wndsize sndwnd rcvwnd =>
      cases done
      by_cases positive : 0 < sndwnd
      · exact Or.inr ⟨sndwnd, rcvwnd, rfl, positive, if_pos positive⟩
      · exact Or.inl (if_neg positive)

structure SendsWithin (bound : Nat) (kcp : IKCPCB) : Prop where
  window : kcp.sndWnd.toNat ≤ bound
  paced : kcp.sender.Paced bound

/-- The user sets no send window that is wider than `bound`. -/
def SndWndSetWithin (bound : Nat) (_ : IKCPCB) : Call → Prop
  | .wndsize sndwnd _ => sndwnd.toInt ≤ bound
  | _ => True

instance (bound : Nat) (kcp : IKCPCB) : (any : Call) → Decidable (SndWndSetWithin bound kcp any)
  | .wndsize sndwnd _ => inferInstanceAs (Decidable (sndwnd.toInt ≤ bound))
  | .send _ | .recv _ | .input _ | .update _ | .flush | .setmtu _ | .nodelay _ _ _ _ | .interval _ =>
      isTrue trivial

theorem sendsWithin_ikcpCreate (conv : UInt32) (least : IKCP_WND_SND.toNat ≤ bound) :
    SendsWithin bound (ikcpCreate conv) := by
  refine ⟨least, List.Pairwise.nil, List.forall_mem_nil _, ?_⟩
  change ahead 0 0 ≤ bound
  rw [ahead_self]
  exact Nat.zero_le bound

theorem Sends.paced (sends : Sends kcp final) (small : bound < 2 ^ 31)
    (within : SendsWithin bound kcp) : final.sender.Paced bound := by
  obtain ⟨window, paced⟩ := within
  cases sends with
  | rests una nxt buf =>
      apply paced.kept una nxt
      change (final.sndBuf.segs.map IKCPSEG.stamp).Sublist _
      rw [buf]
      exact List.Sublist.refl _
  | releases released => exact paced.released released
  | flushes timed sender settings left =>
      have sndWnd : timed.sndWnd = kcp.sndWnd := congrArg Settings.sndWnd settings
      exact left.paced small (sndWnd ▸ window) (sender ▸ paced)

theorem SendsWithin.call {any : Call} (within : SendsWithin bound kcp) (small : bound < 2 ^ 31)
    (met : SndWndSetWithin bound kcp any) (done : call kcp any = some final) :
    SendsWithin bound final := by
  refine ⟨?_, (sends_of_call done).paced small within⟩
  rcases sndWnd_of_call done with same | ⟨sndwnd, rcvwnd, rfl, positive, set⟩
  · rw [same]
    exact within.window
  · have narrow : sndwnd.toInt ≤ bound := met
    have size : sndwnd.toUInt32.toNat = sndwnd.toInt.toNat :=
      Int32.toNat_toUInt32_of_le (Int32.le_of_lt positive)
    rw [set]
    omega

variable {conv : UInt32} {calls : List Call}

/-- Whatever arrives, no more segments wait for their acknowledgement than the widest
window that has been set allows, and no two of them have the same number. -/
theorem in_flight_bounded (least : IKCP_WND_SND.toNat ≤ bound) (small : bound < 2 ^ 31)
    (met : Runs.Meets call (SndWndSetWithin bound) (ikcpCreate conv) calls)
    (replayed : Runs.run call (ikcpCreate conv) calls = some final) :
    final.sndBuf.segs.length ≤ ahead final.sndUna final.sndNxt ∧
      ahead final.sndUna final.sndNxt ≤ bound ∧ (final.sndBuf.segs.map IKCPSEG.sn).Nodup := by
  have within : SendsWithin bound final :=
    Runs.invariant_of_meets (fun _ _ _ held met done => held.call small met done)
      (sendsWithin_ikcpCreate conv least) met replayed
  obtain ⟨sorted, below, near⟩ := within.paced
  refine ⟨sorted.length_le below, near, ?_⟩
  apply List.pairwise_map.mpr
  apply List.Pairwise.imp _ sorted
  intro seg later less same
  rw [same] at less
  exact Nat.lt_irrefl _ less

theorem in_flight_bounded_strangeCalls :
    ∃ final, Runs.run call (ikcpCreate 7) strangeCalls = some final ∧
      final.sndBuf.segs.length = 2 ∧
      final.sndBuf.segs.length ≤ ahead final.sndUna final.sndNxt ∧
        ahead final.sndUna final.sndNxt ≤ 64 ∧ (final.sndBuf.segs.map IKCPSEG.sn).Nodup := by
  obtain ⟨final, replayed, _, _, several, _⟩ := strangeCalls_replayed
  exact ⟨final, replayed, several,
    in_flight_bounded (by decide) (by decide) (by decide +kernel) replayed⟩

end Calls

end TalkingTime.Kcp

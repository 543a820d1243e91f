import TalkingTime.Kcp.Connection

/-! `ikcp_check` says when `ikcp_update` has to be called next: until then the calls
of `ikcp_update` do nothing, so that they may be left out. -/

namespace TalkingTime.Kcp

open Mail (Side)
open Serial

/-- The loop of `ikcp_check` over `snd_buf`: `tm_packet`, unless a segment is due. -/
def checkLoop (current : UInt32) : List IKCPSEG → Int → Option Int
  | [], packet => some packet
  | seg :: rest, packet =>
      let distance := diff seg.resendts current
      if distance ≤ 0 then none
      else checkLoop current rest (if distance < packet then distance else packet)

def ikcpCheck (kcp : IKCPCB) (current : UInt32) : UInt32 :=
  if kcp.updated = 0 then current
  else
    let slap := diff current kcp.tsFlush
    let tsFlush := if 10000 ≤ slap ∨ slap < -10000 then current else kcp.tsFlush
    if 0 ≤ diff current tsFlush then current
    else
      let flush := diff tsFlush current
      match checkLoop current kcp.sndBuf.segs 0x7fffffff with
      | none => current
      | some packet =>
          let minimal := UInt32.ofInt (if packet < flush then packet else flush)
          let minimal := if kcp.interval ≤ minimal then kcp.interval else minimal
          current + minimal

variable {kcp : IKCPCB} {current : UInt32}

theorem checkLoop_pos {segs : List IKCPSEG} {packet least : Int} (positive : 0 < packet)
    (done : checkLoop current segs packet = some least) : 0 < least := by
  induction segs generalizing packet with
  | nil =>
      cases done
      exact positive
  | cons seg rest ih =>
      rw [checkLoop] at done
      split at done
      · cases done
      · rename_i later
        apply ih _ done
        split
        · exact Int.not_le.mp later
        · exact positive

theorem toNat_ofInt_le {number : Int} (notNegative : 0 ≤ number) :
    (UInt32.ofInt number).toNat ≤ number.toNat := by
  have wrapped : (UInt32.ofInt number).toNat = (number % 2 ^ 32).toNat % 2 ^ 32 :=
    UInt32.toNat_ofNat'
  omega

theorem ahead_ikcpCheck {time : UInt32}
    (before : ahead current time < ahead current (ikcpCheck kcp current)) :
    kcp.updated ≠ 0 ∧ -10000 ≤ diff current kcp.tsFlush ∧
      diff current kcp.tsFlush + ahead current time < 0 := by
  -- it does not answer `current`
  have later : ikcpCheck kcp current ≠ current := by
    intro same
    rw [same, ahead_self] at before
    exact Nat.not_lt_zero _ before
  unfold ikcpCheck at before later
  dsimp only at before later
  split at later
  · exact absurd rfl later
  · rename_i updated
    rw [if_neg updated] at before
    by_cases wrong : 10000 ≤ diff current kcp.tsFlush ∨ diff current kcp.tsFlush < -10000
    · rw [if_pos wrong, if_pos (Int.le_of_eq (diff_self current).symm)] at later
      exact absurd rfl later
    · rw [if_neg wrong] at before later
      by_cases flushing : 0 ≤ diff current kcp.tsFlush
      · rw [if_pos flushing] at later
        exact absurd rfl later
      · rw [if_neg flushing] at before later
        cases packets : checkLoop current kcp.sndBuf.segs 0x7fffffff with
        | none =>
            rw [packets] at later
            exact absurd rfl later
        | some packet =>
            rw [packets] at before
            have positive := checkLoop_pos (by decide) packets
            have back : diff kcp.tsFlush current = -diff current kcp.tsFlush := diff_swap (by omega)
            let least := if packet < diff kcp.tsFlush current then packet
              else diff kcp.tsFlush current
            have near : 0 ≤ least ∧ least ≤ -diff current kcp.tsFlush := by
              change 0 ≤ (if packet < _ then packet else _) ∧ (if packet < _ then packet else _) ≤ _
              split <;> omega
            have small := toNat_ofInt_le near.1
            let minimal := if kcp.interval ≤ UInt32.ofInt least then kcp.interval
              else UInt32.ofInt least
            have smaller : minimal.toNat ≤ (UInt32.ofInt least).toNat := by
              change (if kcp.interval ≤ UInt32.ofInt least then kcp.interval else _).toNat ≤ _
              split
              · rename_i interval
                exact UInt32.le_iff_toNat_le.mp interval
              · exact Nat.le_refl _
            change ahead current time < ahead current (current + minimal) at before
            rw [ahead_add] at before
            refine ⟨updated, ?_, ?_⟩ <;> omega

/-- Before the time that `ikcp_check` answers, `ikcp_update` only takes the time. -/
theorem ikcpUpdate_idle {time : UInt32}
    (before : ahead current time < ahead current (ikcpCheck kcp current)) :
    ikcpUpdate kcp time = some ({ kcp with current := time }, []) := by
  obtain ⟨updated, recent, early⟩ := ahead_ikcpCheck before
  have slap : diff time kcp.tsFlush = diff current kcp.tsFlush + ahead current time :=
    diff_eq_add_ahead (by omega)
  have clock : startClock kcp time = { kcp with current := time } := if_neg updated
  have inside : ¬ (10000 ≤ diff time kcp.tsFlush ∨ diff time kcp.tsFlush < -10000) := by omega
  have waiting : ¬ 0 ≤ diff time kcp.tsFlush := by omega
  simp only [ikcpUpdate, clock, resetClock, if_neg inside, if_neg waiting]

namespace Connection

variable {connection : Connection}

theorem become_become (connection : Connection) (side : Side) (first second : IKCPCB) :
    (connection.become side first).become side second = connection.become side second := by
  simp only [become, Function.update_idem]

theorem output_nil (connection : Connection) (side : Side) :
    connection.output side [] = connection := by
  simp only [output, List.append_nil, Function.update_eq_self]

end Connection

/-- Any number of calls of `ikcp_update` at times before the one that `ikcp_check` answers
may be left out before the next one: what the sides hold and what has been output is the
same. -/
theorem updates_skipped {connection : Connection} (side : Side) (current : UInt32)
    (times : List UInt32) (next : UInt32)
    (before : ∀ time ∈ times,
      ahead current time < ahead current (ikcpCheck (connection.host side) current)) :
    Runs.run Connection.step connection (times.map (Action.update side) ++ [.update side next]) =
      Runs.run Connection.step connection [.update side next] := by
  induction times generalizing connection with
  | nil => rfl
  | cons time rest ih =>
      obtain ⟨first, later⟩ := List.forall_mem_cons.mp before
      let timed := connection.become side { connection.host side with current := time }
      have self : timed.host side = { connection.host side with current := time } :=
        Function.update_self ..
      have idle : connection.step (.update side time) = some timed := by
        simp only [Connection.step, ikcpUpdate_idle first, Connection.output_nil]
        rfl
      -- neither `ikcp_check` nor `ikcp_update` reads the time of the last call
      have check : ikcpCheck (timed.host side) current = ikcpCheck (connection.host side) current := by
        rw [self]
        rfl
      have update : ikcpUpdate (timed.host side) next = ikcpUpdate (connection.host side) next := by
        rw [self]
        rfl
      have last : timed.step (.update side next) = connection.step (.update side next) := by
        rw [Connection.step, Connection.step, update]
        cases ikcpUpdate (connection.host side) next with
        | none => rfl
        | some result =>
            exact congrArg (fun after => some (after.output side result.2))
              (connection.become_become side _ _)
      calc
        Runs.run Connection.step connection
            ((time :: rest).map (Action.update side) ++ [.update side next]) =
            Runs.run Connection.step timed (rest.map (Action.update side) ++ [.update side next]) := by
          rw [List.map_cons, List.cons_append, Runs.run, idle]
        _ = Runs.run Connection.step timed [.update side next] := by
          apply ih
          rw [check]
          exact later
        _ = Runs.run Connection.step connection [.update side next] := by
          rw [Runs.run, Runs.run, last]

theorem updates_skipped_until_flush :
    ∃ connection, Runs.run Connection.step (Connection.initial 7) [.update .left 0] =
        some connection ∧ ikcpCheck (connection.host .left) 10 = 100 ∧
      Runs.run Connection.step connection [.update .left 20, .update .left 99, .update .left 100] =
        Runs.run Connection.step connection [.update .left 100] := by
  have told : (Runs.run Connection.step (Connection.initial 7) [.update .left 0]).map
      (fun connection => ikcpCheck (connection.host .left) 10) = some 100 := by decide +kernel
  obtain ⟨connection, replayed, check⟩ := Option.map_eq_some_iff.mp told
  refine ⟨connection, replayed, check, updates_skipped .left 10 [20, 99] 100 ?_⟩
  rw [check]
  intro time member
  rcases List.mem_pair.mp member with rfl | rfl <;> decide +kernel

end TalkingTime.Kcp

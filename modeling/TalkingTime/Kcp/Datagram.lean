import TalkingTime.Kcp.Reading
import TalkingTime.Kcp.Reliability

/-! The number of the conversation in front of every datagram, which `ikcp_get_conv`
reads and `ikcp_set_conv` writes. -/

namespace TalkingTime.Kcp

open Serial
open Mail (Side)

/-- `ikcp_get_conv`, with no value where it returns -1. -/
def ikcpGetConv (data : List UInt8) : Option UInt32 :=
  if data.length < 4 then none else (ikcpDecode32u data).map Prod.fst

/-- `ikcp_set_conv`: the data as it leaves them, and what it returns. -/
def ikcpSetConv (data : List UInt8) (conv : UInt32) : List UInt8 × Int :=
  if data.length < 4 then (data, -1) else (ikcpEncode32u conv ++ data.drop 4, 0)

section Conversations

variable {conv : UInt32} {actions : List Action} {final : Connection}

theorem ikcpGetConv_wire (seg : IKCPSEG) (rest : List UInt8) :
    ikcpGetConv (seg.wire ++ rest) = some seg.conv := by
  have long : ¬ (seg.wire ++ rest).length < 4 := Nat.not_lt.mpr (four_le_wire seg rest)
  rw [ikcpGetConv, if_neg long, IKCPSEG.wire, ikcpEncodeSeg]
  simp only [List.append_assoc, ikcpDecode32u_encode, Option.map_some]

theorem ikcpSetConv_wire (seg : IKCPSEG) (rest : List UInt8) (conv : UInt32) :
    ikcpSetConv (seg.wire ++ rest) conv = (IKCPSEG.wire { seg with conv := conv } ++ rest, 0) := by
  have long : ¬ (seg.wire ++ rest).length < 4 := Nat.not_lt.mpr (four_le_wire seg rest)
  rw [ikcpSetConv, if_neg long]
  rfl

theorem stops_foreign {conv : UInt32} {seg : IKCPSEG} (foreign : seg.conv ≠ conv)
    (rest : List UInt8) : Stops conv (seg.wire ++ rest) (-1) := by
  refine .foreign seg.header (seg.data ++ rest) ?_ ?_ foreign
  · rw [List.length_append, length_wire]
    omega
  · rw [IKCPSEG.wire, List.append_assoc, decodeHeader_encodeSeg]

theorem ikcpInput_foreign {kcp : IKCPCB} {segs : List IKCPSEG} {next : IKCPSEG}
    (legible : ∀ seg ∈ segs, Legible kcp.conv seg) (foreign : next.conv ≠ kcp.conv)
    (rest : List UInt8) :
    ikcpInput kcp (segs.flatMap IKCPSEG.wire ++ (next.wire ++ rest)) =
      some (inputSegments kcp segs, -1) := by
  have enough : 4 ≤ (segs.flatMap IKCPSEG.wire ++ (next.wire ++ rest)).length := by
    have more := four_le_wire next rest
    rw [List.length_append]
    omega
  have taken := ikcpInput_segments enough legible (stops_foreign foreign rest)
  have failed : ¬ ((-1 : Int) = 0 ∧
      0 < diff (inputSegments kcp segs).sndUna kcp.sndUna) := by simp
  dsimp only at taken
  rwa [if_neg failed] at taken

/-- Every datagram of a connection names its conversation, and changes nothing at the
control blocks of all others. -/
theorem conversations_apart
    (replayed : Runs.run Connection.step (Connection.initial conv) actions = some final)
    (permitted : Runs.Meets Connection.step Permitted (Connection.initial conv) actions)
    (side : Side) (data : List UInt8) (member : data ∈ final.wire side) :
    ikcpGetConv data = some conv ∧
      ∀ kcp : IKCPCB, kcp.conv ≠ conv → ikcpInput kcp data = some (kcp, -1) := by
  obtain ⟨ledger, sound⟩ := sound_of_run replayed permitted
  obtain ⟨nonempty, segs, rfl, all⟩ := sound.wire side data member
  cases segs with
  | nil => exact absurd rfl nonempty
  | cons seg rest =>
      have same : seg.conv = conv := (all seg List.mem_cons_self).conv
      have read := ikcpGetConv_wire seg (rest.flatMap IKCPSEG.wire)
      rw [same] at read
      rw [List.flatMap_cons]
      refine ⟨read, ?_⟩
      intro kcp other
      have foreign : seg.conv ≠ kcp.conv := by
        rw [same]
        exact other.symm
      exact ikcpInput_foreign (List.forall_mem_nil _) foreign (rest.flatMap IKCPSEG.wire)

def twoMessages : List Action :=
  [.nodelay .left 1 10 2 1, .send .left (.ofByte 1), .send .left (.ofByte 2), .update .left 0]

theorem twoMessages_permitted :
    Runs.Meets Connection.step Permitted (Connection.initial 7) twoMessages := by
  decide +kernel

theorem twoMessages_replayed :
    ∃ final data, Runs.run Connection.step (Connection.initial 7) twoMessages = some final ∧
      data ∈ final.wire .left ∧ data.length = 50 := by
  have seen : (Runs.run Connection.step (Connection.initial 7) twoMessages).map (fun final =>
      (final.wire .left).map List.length) = some [50] := by decide +kernel
  obtain ⟨final, replayed, lengths⟩ := Option.map_eq_some_iff.mp seen
  have one : 50 ∈ (final.wire .left).map List.length := by
    rw [lengths]
    exact List.mem_singleton_self 50
  obtain ⟨data, member, length⟩ := List.mem_map.mp one
  exact ⟨final, data, replayed, member, length⟩

theorem conversations_apart_twoMessages :
    ∃ final data, Runs.run Connection.step (Connection.initial 7) twoMessages = some final ∧
      data ∈ final.wire .left ∧ ikcpGetConv data = some 7 ∧
        ∀ kcp : IKCPCB, kcp.conv ≠ 7 → ikcpInput kcp data = some (kcp, -1) := by
  obtain ⟨final, data, replayed, member, _⟩ := twoMessages_replayed
  exact ⟨final, data, replayed, member,
    conversations_apart replayed twoMessages_permitted .left data member⟩

/-- A datagram that is relabelled for another conversation is taken there if it is a
single segment. Of a longer one only the first segment is taken, and the call fails. -/
theorem relabelled_input
    (replayed : Runs.run Connection.step (Connection.initial conv) actions = some final)
    (permitted : Runs.Meets Connection.step Permitted (Connection.initial conv) actions)
    (side : Side) (data : List UInt8) (member : data ∈ final.wire side) (kcp : IKCPCB)
    (other : kcp.conv ≠ conv) :
    ∃ (seg : IKCPSEG) (rest : List IKCPSEG), data = (seg :: rest).flatMap IKCPSEG.wire ∧
      let last := inputSegment kcp (IKCPSEG.header { seg with conv := kcp.conv }) seg.data
      (rest = [] → ikcpInput kcp (ikcpSetConv data kcp.conv).1 =
        some (if 0 < diff last.sndUna kcp.sndUna then growWindow last else last, 0)) ∧
      (rest ≠ [] → ikcpInput kcp (ikcpSetConv data kcp.conv).1 = some (last, -1)) := by
  obtain ⟨ledger, sound⟩ := sound_of_run replayed permitted
  obtain ⟨nonempty, segs, rfl, all⟩ := sound.wire side data member
  cases segs with
  | nil => exact absurd rfl nonempty
  | cons seg rest =>
      have legible : Legible kcp.conv { seg with conv := kcp.conv } :=
        ⟨rfl, (all seg List.mem_cons_self).known, (all seg List.mem_cons_self).len⟩
      refine ⟨seg, rest, rfl, ?_, ?_⟩
      · rintro rfl
        rw [List.flatMap_singleton, ← List.append_nil seg.wire, ikcpSetConv_wire]
        have taken := ikcpInput_wire (List.cons_ne_nil _ []) (List.forall_mem_singleton.mpr legible)
        rw [List.flatMap_singleton] at taken
        rw [List.append_nil]
        exact taken
      · intro several
        cases rest with
        | nil => exact absurd rfl several
        | cons next rest =>
            have foreign : next.conv ≠ kcp.conv := by
              rw [(all next (by simp)).conv]
              exact other.symm
            rw [List.flatMap_cons, List.flatMap_cons, ikcpSetConv_wire]
            have taken := ikcpInput_foreign (List.forall_mem_singleton.mpr legible) foreign
              (rest.flatMap IKCPSEG.wire)
            rw [List.flatMap_singleton] at taken
            exact taken

theorem relabelled_input_twoMessages :
    ∃ final data, Runs.run Connection.step (Connection.initial 7) twoMessages = some final ∧
      data ∈ final.wire .left ∧
      ∃ (seg : IKCPSEG) (rest : List IKCPSEG), data = (seg :: rest).flatMap IKCPSEG.wire ∧
        let kcp := ikcpCreate 8
        let last := inputSegment kcp (IKCPSEG.header { seg with conv := kcp.conv }) seg.data
        (rest = [] → ikcpInput kcp (ikcpSetConv data kcp.conv).1 =
          some (if 0 < diff last.sndUna kcp.sndUna then growWindow last else last, 0)) ∧
        (rest ≠ [] → ikcpInput kcp (ikcpSetConv data kcp.conv).1 = some (last, -1)) := by
  obtain ⟨final, data, replayed, member, _⟩ := twoMessages_replayed
  exact ⟨final, data, replayed, member,
    relabelled_input replayed twoMessages_permitted .left data member (ikcpCreate 8) (by decide)⟩

end Conversations

end TalkingTime.Kcp

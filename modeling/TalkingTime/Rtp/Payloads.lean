import TalkingTime.Library.FuA
import TalkingTime.Rtp.Fragments

/-! The payloads of the fragmentation loop as FU-A fragments. Their headers always
fit; where the loop copies from, the end bit and the mark depend on the length of
the frame; what they carry is never the frame itself. -/

namespace TalkingTime.Rtp

open Bytes FuA

section HeaderBytes

theorem or_and_byte (left right mask : UInt8) :
    (left ||| right) &&& mask = (left &&& mask) ||| (right &&& mask) := by
  apply UInt8.toBitVec_inj.mp
  exact BitVec.and_or_distrib_right

theorem flag_fuHeader (naltype flags mask : UInt8) (apart : 0x1f &&& mask = 0) :
    ((naltype &&& 0x1f) ||| flags) &&& mask = flags &&& mask := by
  rw [or_and_byte, UInt8.and_assoc, apart, UInt8.and_zero, UInt8.zero_or]

theorem starts_fuHeader (naltype flags : UInt8) :
    starts ((naltype &&& 0x1f) ||| flags) = starts flags := by
  rw [starts, flag_fuHeader naltype flags 0x80 (by decide), starts]

theorem ends_fuHeader (naltype flags : UInt8) :
    ends ((naltype &&& 0x1f) ||| flags) = ends flags := by
  rw [ends, flag_fuHeader naltype flags 0x40 (by decide), ends]

theorem unitType_fuHeader (naltype flags : UInt8) (apart : flags &&& 0x1f = 0) :
    unitType ((naltype &&& 0x1f) ||| flags) = unitType naltype := by
  rw [unitType, or_and_byte, UInt8.and_assoc, UInt8.and_self, apart, UInt8.or_zero, unitType]

theorem unitType_fuIndicator (naltype : UInt8) :
    unitType ((naltype &&& 0x60) ||| 28) = fragmentType := by
  revert naltype
  apply forall_byte
  decide

theorem reference_fuIndicator (naltype : UInt8) :
    reference ((naltype &&& 0x60) ||| 28) = reference naltype := by
  revert naltype
  apply forall_byte
  decide

end HeaderBytes

section Packets

variable (sendData : Nat → UInt8) (sendlen t : Nat)

theorem indicator_payloadAt :
    indicator (payloadAt sendData sendlen t) = (sendData 4 &&& 0x60) ||| 28 := rfl

theorem fuHeader_payloadAt :
    fuHeader (payloadAt sendData sendlen t) =
      (sendData 4 &&& 0x1f) ||| flagsAt sendlen t := rfl

theorem fragmentOf_payloadAt :
    FragmentOf (sendData 4) (payloadAt sendData sendlen t) where
  sized := by simp [payloadAt, headerBytes]
  kind := by rw [indicator_payloadAt, unitType_fuIndicator]
  reference := by rw [indicator_payloadAt, reference_fuIndicator]
  unitType := by
    rw [fuHeader_payloadAt, unitType_fuHeader]
    unfold flagsAt
    split <;> [decide; split <;> decide]

theorem starts_payloadAt :
    starts (fuHeader (payloadAt sendData sendlen t)) = true ↔ t = 0 := by
  rw [fuHeader_payloadAt, starts_fuHeader, flagsAt]
  rcases Nat.eq_zero_or_pos t with first | positive
  · have set : starts 0x80 = true := by decide
    simp [first, set]
  · have later : t ≠ 0 := Nat.ne_of_gt positive
    have unset : starts (if t < sendlen / MAX_PACKET_LENGTH then 0 else 0x40) = false := by
      split <;> decide
    simp [later, unset]

theorem ends_payloadAt (long : MAX_PACKET_LENGTH ≤ sendlen) :
    ends (fuHeader (payloadAt sendData sendlen t)) =
      markAt sendlen t := by
  have quotient := quotient_pos sendlen long
  rw [fuHeader_payloadAt, ends_fuHeader, flagsAt, markAt]
  rcases Nat.eq_zero_or_pos t with first | positive
  · have unset : ends 0x80 = false := by decide
    have inner : ¬ sendlen / MAX_PACKET_LENGTH ≤ 0 := by omega
    simp [first, unset, inner]
  · have later : t ≠ 0 := Nat.ne_of_gt positive
    rcases Nat.lt_or_ge t (sendlen / MAX_PACKET_LENGTH) with inner | outer
    · have unset : ends 0 = false := by decide
      simp [later, inner, unset]
    · have set : ends 0x40 = true := by decide
      simp [later, outer, Nat.not_lt.mpr outer, set]

end Packets

section Sequence

variable (sendData : Nat → UInt8) (sendlen : Nat)

def fragmentPayloads : List (List UInt8) :=
  (fragmentPackets sendData sendlen).map RTPPacket.payload

/-- The bytes between the headers, put together: five zeros too many after the first 1355. -/
def paddedBody : List UInt8 :=
  slice sendData 5 1355 ++ List.replicate 5 0 ++
    slice sendData MAX_PACKET_LENGTH (sendlen - MAX_PACKET_LENGTH)

@[simp] theorem length_fragmentPayloads :
    (fragmentPayloads sendData sendlen).length = fragmentCount sendlen := by
  simp [fragmentPayloads, fragmentPackets, loopPackets]

@[simp] theorem getElem_fragmentPayloads (i : Nat)
    (bound : i < (fragmentPayloads sendData sendlen).length) :
    (fragmentPayloads sendData sendlen)[i] = payloadAt sendData sendlen i := by
  simp [fragmentPayloads, fragmentPackets, loopPackets]

theorem flatMap_contentAt_inner (count : Nat) (inner : count + 1 ≤ sendlen / MAX_PACKET_LENGTH) :
    (List.range (count + 1)).flatMap (contentAt sendData sendlen) =
      slice sendData 5 1355 ++ List.replicate 5 0 ++
        slice sendData MAX_PACKET_LENGTH (count * MAX_PACKET_LENGTH) := by
  induction count with
  | zero => simp [contentAt]
  | succ count ih =>
      have block : contentAt sendData sendlen (count + 1) =
          slice sendData (MAX_PACKET_LENGTH + count * MAX_PACKET_LENGTH) MAX_PACKET_LENGTH := by
        have before : count + 1 < sendlen / MAX_PACKET_LENGTH := by omega
        rw [contentAt, if_neg (Nat.succ_ne_zero count), if_pos before, Nat.succ_mul,
          Nat.add_comm]
      rw [List.range_succ, List.flatMap_append, ih (by omega), List.flatMap_singleton, block,
        List.append_assoc, slice_append, Nat.succ_mul]

theorem flatMap_contentAt (long : MAX_PACKET_LENGTH ≤ sendlen) :
    (List.range (fragmentCount sendlen)).flatMap (contentAt sendData sendlen) =
      paddedBody sendData sendlen := by
  have quotient := quotient_pos sendlen long
  have parts := quotient_mul_add_remainder sendlen
  obtain ⟨count, blocks⟩ : ∃ count, sendlen / MAX_PACKET_LENGTH = count + 1 :=
    Nat.exists_eq_succ_of_ne_zero (Nat.ne_of_gt quotient)
  have inner := flatMap_contentAt_inner sendData sendlen count (Nat.le_of_eq blocks.symm)
  rw [blocks, Nat.succ_mul] at parts
  rcases Nat.eq_zero_or_pos (sendlen % MAX_PACKET_LENGTH) with exact | remains
  · have left : sendlen - MAX_PACKET_LENGTH = count * MAX_PACKET_LENGTH := by omega
    rw [fragmentCount, exact, if_neg (Nat.lt_irrefl 0), blocks, Nat.add_zero, inner, paddedBody,
      left]
  · have left : sendlen - MAX_PACKET_LENGTH =
        count * MAX_PACKET_LENGTH + sendlen % MAX_PACKET_LENGTH := by
      omega
    have last : contentAt sendData sendlen (count + 1) =
        slice sendData (MAX_PACKET_LENGTH + count * MAX_PACKET_LENGTH)
          (sendlen % MAX_PACKET_LENGTH) := by
      rw [contentAt, if_neg (Nat.succ_ne_zero count), blocks, if_neg (Nat.lt_irrefl _),
        Nat.succ_mul, Nat.add_comm]
    rw [fragmentCount, if_pos remains, blocks, List.range_succ, List.flatMap_append, inner,
      List.flatMap_singleton, last, List.append_assoc, slice_append, paddedBody, left]

theorem flatMap_content_fragmentPayloads (long : MAX_PACKET_LENGTH ≤ sendlen) :
    (fragmentPayloads sendData sendlen).flatMap content = paddedBody sendData sendlen := by
  rw [fragmentPayloads, fragmentPackets, loopPackets, List.map_map, List.flatMap_map,
    ← flatMap_contentAt sendData sendlen long]
  rfl

theorem length_paddedBody (long : MAX_PACKET_LENGTH ≤ sendlen) :
    (paddedBody sendData sendlen).length = sendlen := by
  unfold MAX_PACKET_LENGTH at long
  simp only [paddedBody, List.length_append, length_slice, List.length_replicate,
    MAX_PACKET_LENGTH]
  omega

theorem fragmentOf_fragmentPayloads :
    ∀ payload ∈ fragmentPayloads sendData sendlen, FragmentOf (sendData 4) payload := by
  intro payload member
  obtain ⟨i, bound, rfl⟩ := List.getElem_of_mem member
  rw [getElem_fragmentPayloads]
  exact fragmentOf_payloadAt sendData sendlen i

theorem starts_fragmentPayloads (i : Nat)
    (bound : i < (fragmentPayloads sendData sendlen).length) :
    starts (fuHeader (fragmentPayloads sendData sendlen)[i]) = true ↔ i = 0 := by
  rw [getElem_fragmentPayloads]
  exact starts_payloadAt sendData sendlen i

theorem fragmented_paddedBody (long : MAX_PACKET_LENGTH ≤ sendlen)
    (remains : 0 < sendlen % MAX_PACKET_LENGTH) :
    Fragmented (sendData 4) (paddedBody sendData sendlen) (fragmentPayloads sendData sendlen) where
  present := by
    apply List.ne_nil_of_length_pos
    rw [length_fragmentPayloads]
    exact fragmentCount_pos sendlen long
  fragment := fragmentOf_fragmentPayloads sendData sendlen
  start := starts_fragmentPayloads sendData sendlen
  finish := by
    intro i bound
    rw [length_fragmentPayloads] at bound ⊢
    rw [getElem_fragmentPayloads, ends_payloadAt sendData sendlen i long]
    exact markAt_iff_last sendlen remains bound
  whole := flatMap_content_fragmentPayloads sendData sendlen long

theorem opening_fragmentPayloads (long : MAX_PACKET_LENGTH ≤ sendlen)
    (exact : sendlen % MAX_PACKET_LENGTH = 0) :
    Opening (sendData 4) (fragmentPayloads sendData sendlen) where
  fragment := fragmentOf_fragmentPayloads sendData sendlen
  start := starts_fragmentPayloads sendData sendlen
  unended := by
    intro payload member
    obtain ⟨i, bound, rfl⟩ := List.getElem_of_mem member
    have index : i < fragmentCount sendlen := by simpa using bound
    rw [getElem_fragmentPayloads, ends_payloadAt sendData sendlen i long]
    exact markAt_eq_false sendlen exact index

theorem receiveAll_fragmentPayloads (long : MAX_PACKET_LENGTH ≤ sendlen)
    (clear : Clear (sendData 4)) (state : Depacketiser) :
    (state.receiveAll (fragmentPayloads sendData sendlen)).units =
      if sendlen % MAX_PACKET_LENGTH = 0 then state.units
      else state.units ++ [sendData 4 :: paddedBody sendData sendlen] := by
  rcases Nat.eq_zero_or_pos (sendlen % MAX_PACKET_LENGTH) with exact | remains
  · have opening := opening_fragmentPayloads sendData sendlen long exact
    have present : fragmentPayloads sendData sendlen ≠ [] := by
      apply List.ne_nil_of_length_pos
      rw [length_fragmentPayloads]
      exact fragmentCount_pos sendlen long
    rw [Depacketiser.receiveAll_opening state clear _ opening present, if_pos exact]
  · have fragmented := fragmented_paddedBody sendData sendlen long remains
    rw [Depacketiser.receiveAll_fragmented state clear fragmented,
      if_neg (Nat.ne_of_gt remains)]

theorem mem_copiedIndices (j : Nat) :
    j ∈ copiedIndices sendlen ↔ ∃ t < fragmentCount sendlen, j ∈ copiedAt sendlen t := by
  simp [copiedIndices, loopCopied]

theorem mem_copiedAt_inner {t j : Nat} (later : t ≠ 0)
    (inner : t < sendlen / MAX_PACKET_LENGTH) :
    j ∈ copiedAt sendlen t ↔
      t * MAX_PACKET_LENGTH ≤ j ∧ j < t * MAX_PACKET_LENGTH + (MAX_PACKET_LENGTH + 2) := by
  rw [copiedAt, if_neg later, if_pos inner, List.mem_range'_1]

theorem copiedAt_inside (long : MAX_PACKET_LENGTH ≤ sendlen) {t j : Nat}
    (bound : t < fragmentCount sendlen) (outer : t = 0 ∨ ¬ t < sendlen / MAX_PACKET_LENGTH)
    (member : j ∈ copiedAt sendlen t) : j < sendlen := by
  have parts := quotient_mul_add_remainder sendlen
  rcases Nat.eq_zero_or_pos t with first | positive
  · rw [copiedAt, if_pos first, List.mem_range'_1] at member
    unfold MAX_PACKET_LENGTH at long
    omega
  · have later : t ≠ 0 := Nat.ne_of_gt positive
    have notInner : ¬ t < sendlen / MAX_PACKET_LENGTH := outer.resolve_left later
    have last := (remainder_of_last sendlen bound notInner).1
    rw [copiedAt, if_neg later, if_neg notInner, List.mem_range'_1, last] at member
    omega

theorem copied_inside_iff (long : MAX_PACKET_LENGTH ≤ sendlen) :
    (∀ j ∈ copiedIndices sendlen, j < sendlen) ↔
      sendlen < 2 * MAX_PACKET_LENGTH ∨ 2 ≤ sendlen % MAX_PACKET_LENGTH := by
  have parts := quotient_mul_add_remainder sendlen
  simp only [mem_copiedIndices]
  constructor
  · intro inside
    by_contra neither
    rw [not_or, Nat.not_lt, Nat.not_le] at neither
    have two : 2 ≤ sendlen / MAX_PACKET_LENGTH :=
      (Nat.le_div_iff_mul_le (by decide)).mpr neither.1
    obtain ⟨t, blocks⟩ : ∃ t, sendlen / MAX_PACKET_LENGTH = t + 1 :=
      Nat.exists_eq_succ_of_ne_zero (by omega)
    have bound : t < fragmentCount sendlen := by
      rw [fragmentCount]
      omega
    have beyond : t * MAX_PACKET_LENGTH + (MAX_PACKET_LENGTH + 1) ∈ copiedAt sendlen t := by
      rw [mem_copiedAt_inner sendlen (by omega) (by omega)]
      omega
    have reached := inside _ ⟨t, bound, beyond⟩
    rw [blocks, Nat.succ_mul] at parts
    omega
  · rintro roomy j ⟨t, bound, member⟩
    by_cases outer : t = 0 ∨ ¬ t < sendlen / MAX_PACKET_LENGTH
    · exact copiedAt_inside sendlen long bound outer member
    · rw [not_or, not_not] at outer
      have reach := (mem_copiedAt_inner sendlen outer.1 outer.2).mp member
      have blocks : (t + 1) * MAX_PACKET_LENGTH ≤
          sendlen / MAX_PACKET_LENGTH * MAX_PACKET_LENGTH :=
        Nat.mul_le_mul_right _ outer.2
      have two : ¬ sendlen < 2 * MAX_PACKET_LENGTH := by
        have least : 2 * MAX_PACKET_LENGTH ≤ (t + 1) * MAX_PACKET_LENGTH :=
          Nat.mul_le_mul_right _ (by omega)
        omega
      have tail : 2 ≤ sendlen % MAX_PACKET_LENGTH := roomy.resolve_left two
      rw [Nat.succ_mul] at blocks
      omega

end Sequence

end TalkingTime.Rtp

import TalkingTime.Kcp.Arrival

/-! What any bytes are to `ikcp_input`: segments that it takes, up to where it stops. -/

namespace TalkingTime.Kcp

open Serial

section Words

variable {data rest : List UInt8}

theorem ikcpEncode8u_decode {c : UInt8} (decoded : ikcpDecode8u data = some (c, rest)) :
    data = ikcpEncode8u c ++ rest := by
  match data, decoded with
  | _ :: _, rfl => rfl

theorem ikcpEncode16u_decode {w : UInt16} (decoded : ikcpDecode16u data = some (w, rest)) :
    data = ikcpEncode16u w ++ rest := by
  match data, decoded with
  | p0 :: p1 :: p, rfl =>
      have first : (p0.toUInt16 + (p1.toUInt16 <<< 8)).toUInt8 = p0 := by
        apply UInt8.toNat_inj.mp
        have bound := p0.toNat_lt
        simp only [UInt16.toNat_toUInt8, UInt16.toNat_add, UInt16.toNat_shiftLeft,
          UInt8.toNat_toUInt16, UInt16.reduceToNat, Nat.reduceMod, Nat.shiftLeft_eq]
        omega
      have second : ((p0.toUInt16 + (p1.toUInt16 <<< 8)) >>> 8).toUInt8 = p1 := by
        apply UInt8.toNat_inj.mp
        have bound := p0.toNat_lt
        have bound' := p1.toNat_lt
        simp only [UInt16.toNat_toUInt8, UInt16.toNat_shiftRight, UInt16.toNat_add,
          UInt16.toNat_shiftLeft, UInt8.toNat_toUInt16, UInt16.reduceToNat, Nat.reduceMod,
          Nat.shiftLeft_eq, Nat.shiftRight_eq_div_pow]
        omega
      rw [ikcpEncode16u, first, second]
      rfl

theorem toNat_decode32u (p0 p1 p2 p3 : UInt8) :
    (p0.toUInt32 + ((p1.toUInt32 + ((p2.toUInt32 + (p3.toUInt32 <<< 8)) <<< 8)) <<< 8)).toNat =
      p0.toNat + 256 * (p1.toNat + 256 * (p2.toNat + 256 * p3.toNat)) := by
  have bound0 := p0.toNat_lt
  have bound1 := p1.toNat_lt
  have bound2 := p2.toNat_lt
  have bound3 := p3.toNat_lt
  simp only [UInt32.toNat_add, UInt32.toNat_shiftLeft, UInt8.toNat_toUInt32, UInt32.reduceToNat,
    Nat.reduceMod, Nat.shiftLeft_eq]
  omega

theorem ikcpEncode32u_decode {l : UInt32} (decoded : ikcpDecode32u data = some (l, rest)) :
    data = ikcpEncode32u l ++ rest := by
  match data, decoded with
  | p0 :: p1 :: p2 :: p3 :: p, decoded =>
      obtain ⟨word, rfl⟩ := Prod.mk.inj (Option.some.inj decoded)
      have value := toNat_decode32u p0 p1 p2 p3
      rw [word] at value
      have bound0 := p0.toNat_lt
      have bound1 := p1.toNat_lt
      have bound2 := p2.toNat_lt
      have bound3 := p3.toNat_lt
      have byte0 : l.toUInt8 = p0 := by
        apply UInt8.toNat_inj.mp
        rw [UInt32.toNat_toUInt8, value]
        omega
      have byte1 : (l >>> 8).toUInt8 = p1 := by
        apply UInt8.toNat_inj.mp
        simp only [UInt32.toNat_toUInt8, UInt32.toNat_shiftRight, value, UInt32.reduceToNat,
          Nat.reduceMod, Nat.shiftRight_eq_div_pow]
        omega
      have byte2 : (l >>> 16).toUInt8 = p2 := by
        apply UInt8.toNat_inj.mp
        simp only [UInt32.toNat_toUInt8, UInt32.toNat_shiftRight, value, UInt32.reduceToNat,
          Nat.reduceMod, Nat.shiftRight_eq_div_pow]
        omega
      have byte3 : (l >>> 24).toUInt8 = p3 := by
        apply UInt8.toNat_inj.mp
        simp only [UInt32.toNat_toUInt8, UInt32.toNat_shiftRight, value, UInt32.reduceToNat,
          Nat.reduceMod, Nat.shiftRight_eq_div_pow]
        omega
      rw [ikcpEncode32u, byte0, byte1, byte2, byte3]
      rfl

theorem encodeSeg_decodeHeader {seg : IKCPSEG}
    (decoded : decodeHeader data = some (seg.header, rest)) : data = ikcpEncodeSeg seg ++ rest := by
  simp only [decodeHeader, Option.bind_eq_bind, Option.bind_eq_some_iff, Prod.exists,
    Option.some.injEq, Prod.mk.injEq, IKCPSEG.header, Header.mk.injEq] at decoded
  obtain ⟨_, _, first, _, _, second, _, _, third, _, _, fourth, _, _, fifth, _, _, sixth, _, _,
    seventh, _, _, eighth, ⟨rfl, rfl, rfl, rfl, rfl, rfl, rfl, rfl⟩, rfl⟩ := decoded
  rw [ikcpEncode32u_decode first, ikcpEncode8u_decode second, ikcpEncode8u_decode third,
    ikcpEncode16u_decode fourth, ikcpEncode32u_decode fifth, ikcpEncode32u_decode sixth,
    ikcpEncode32u_decode seventh, ikcpEncode32u_decode eighth]
  simp only [ikcpEncodeSeg, List.append_assoc]

end Words

section Reading

variable {kcp : IKCPCB}

theorem header_segment {header : Header} {data : List UInt8}
    (whole : data.length = header.len.toNat) : (header.segment data).header = header := by
  have len : (header.segment data).len = header.len := by
    change UInt32.ofNat data.length = header.len
    rw [whole, UInt32.ofNat_toNat]
  simp only [IKCPSEG.header, len]
  simp only [Header.segment, UInt8.toUInt8_toUInt32, UInt16.toUInt16_toUInt32]

theorem wire_segment {header : Header} {data rest : List UInt8}
    (decoded : decodeHeader data = some (header, rest)) (whole : header.len.toNat ≤ rest.length)
    (known : knownCommand header.cmd.toUInt32) :
    let seg := header.segment (rest.take header.len.toNat)
    data = seg.wire ++ rest.drop header.len.toNat ∧ seg.header = header ∧
      Legible header.conv seg := by
  have taken : (rest.take header.len.toNat).length = header.len.toNat := by
    rw [List.length_take, Nat.min_eq_left whole]
  have same := header_segment taken
  refine ⟨?_, same, rfl, known, ?_⟩
  · rw [← same] at decoded
    have bytes := encodeSeg_decodeHeader decoded
    rw [bytes, IKCPSEG.wire, List.append_assoc]
    exact congrArg _ (List.take_append_drop _ rest).symm
  · change (rest.take header.len.toNat).length < 2 ^ 32
    rw [taken]
    exact header.len.toNat_lt

/-- The loop of `ikcp_input` with nothing but what it reads: the segments that pass its
checks. -/
def takenLoop (conv : UInt32) : Nat → List UInt8 → List IKCPSEG
  | 0, _ => []
  | fuel + 1, data =>
      if data.length < IKCP_OVERHEAD then []
      else
        match decodeHeader data with
        | none => []
        | some (header, data) =>
            if header.conv = conv ∧ header.len.toNat ≤ data.length ∧
                knownCommand header.cmd.toUInt32 then
              header.segment (data.take header.len.toNat) ::
                takenLoop conv fuel (data.drop header.len.toNat)
            else []

def takenSegments (conv : UInt32) (data : List UInt8) : List IKCPSEG :=
  takenLoop conv (data.length + 1) data

theorem takenLoop_reads (conv : UInt32) {fuel : Nat} {data : List UInt8}
    (enough : data.length < fuel) :
    ∃ (tail : List UInt8) (code : Int),
      data = (takenLoop conv fuel data).flatMap IKCPSEG.wire ++ tail ∧
        (∀ seg ∈ takenLoop conv fuel data, Legible conv seg) ∧ Stops conv tail code := by
  induction fuel generalizing data with
  | zero => exact absurd enough (Nat.not_lt_zero _)
  | succ fuel ih =>
      rw [takenLoop]
      by_cases few : data.length < IKCP_OVERHEAD
      · rw [if_pos few]
        exact ⟨data, 0, rfl, List.forall_mem_nil _, .short few⟩
      have long : IKCP_OVERHEAD ≤ data.length := Nat.not_lt.mp few
      obtain ⟨header, decoded⟩ := decodeHeader_isSome data long
      rw [if_neg few, decoded]
      dsimp only
      split
      · rename_i checked
        obtain ⟨rfl, whole, known⟩ := checked
        obtain ⟨bytes, _, legible⟩ := wire_segment decoded whole known
        have shorter : ((data.drop IKCP_OVERHEAD).drop header.len.toNat).length < fuel := by
          rw [List.length_drop, List.length_drop]
          unfold IKCP_OVERHEAD at long ⊢
          omega
        obtain ⟨tail, code, rest, all, stops⟩ := ih shorter
        refine ⟨tail, code, ?_, List.forall_mem_cons.mpr ⟨legible, all⟩, stops⟩
        rw [List.flatMap_cons, List.append_assoc, ← rest]
        exact bytes
      · rename_i failed
        refine (?_ : ∃ code, Stops conv data code).elim
          (fun code stops => ⟨data, code, rfl, List.forall_mem_nil _, stops⟩)
        by_cases same : header.conv = conv
        · by_cases whole : header.len.toNat ≤ (data.drop IKCP_OVERHEAD).length
          · exact ⟨-3, .unknown header _ long decoded same whole
              (fun known => failed ⟨same, whole, known⟩)⟩
          · exact ⟨-2, .cut header _ long decoded same (Nat.not_le.mp whole)⟩
        · exact ⟨-1, .foreign header _ long decoded same⟩

theorem takenSegments_reads (conv : UInt32) (data : List UInt8) :
    ∃ (tail : List UInt8) (code : Int),
      data = (takenSegments conv data).flatMap IKCPSEG.wire ++ tail ∧
        (∀ seg ∈ takenSegments conv data, Legible conv seg) ∧ Stops conv tail code :=
  takenLoop_reads conv (Nat.lt_succ_self data.length)

theorem length_of_mem_takenSegments {conv : UInt32} {data : List UInt8} {seg : IKCPSEG}
    (member : seg ∈ takenSegments conv data) : seg.data.length ≤ data.length := by
  obtain ⟨tail, code, bytes, _, _⟩ := takenSegments_reads conv data
  obtain ⟨front, back, split⟩ := List.append_of_mem member
  have length := congrArg List.length bytes
  rw [split, List.flatMap_append, List.flatMap_cons] at length
  simp only [List.length_append, length_wire] at length
  omega

theorem ikcpInput_takes (kcp : IKCPCB) {data : List UInt8} (enough : 4 ≤ data.length) :
    let segs := takenSegments kcp.conv data
    ∃ (tail : List UInt8) (code : Int),
      data = segs.flatMap IKCPSEG.wire ++ tail ∧ (∀ seg ∈ segs, Legible kcp.conv seg) ∧
        Stops kcp.conv tail code ∧
          let last := inputSegments kcp segs
          ikcpInput kcp data =
            some (if code = 0 ∧ 0 < diff last.sndUna kcp.sndUna then growWindow last else last,
              code) := by
  obtain ⟨tail, code, bytes, legible, stops⟩ := takenSegments_reads kcp.conv data
  refine ⟨tail, code, bytes, legible, stops, ?_⟩
  rw [bytes] at enough
  have taken := ikcpInput_segments enough legible stops
  rw [← bytes] at taken
  exact taken

theorem four_le_of_taken {kcp final : IKCPCB} {data : List UInt8} {code : Int}
    (taken : ikcpInput kcp data = some (final, code)) : 4 ≤ data.length := by
  by_contra few
  rw [(ikcpInput_eq_none_iff kcp data).mpr (Nat.not_le.mp few)] at taken
  cases taken

theorem ikcpInput_ends {final : IKCPCB} {data : List UInt8} {code : Int}
    (taken : ikcpInput kcp data = some (final, code)) :
    let last := inputSegments kcp (takenSegments kcp.conv data)
    final = growWindow last ∨ final = last := by
  obtain ⟨_, other, _, _, _, taking⟩ := ikcpInput_takes kcp (four_le_of_taken taken)
  rw [taken] at taking
  obtain ⟨same, _⟩ := Prod.mk.inj (Option.some.inj taking)
  split at same
  · exact Or.inl same
  · exact Or.inr same

/-- Any data that `ikcp_input` can take are segments that it takes and a rest for which it
stops: the segments have their effect even where the call fails. -/
theorem input_reads (kcp : IKCPCB) (data : List UInt8) (enough : 4 ≤ data.length) :
    ∃ (segs : List IKCPSEG) (tail : List UInt8) (code : Int),
      data = segs.flatMap IKCPSEG.wire ++ tail ∧ (∀ seg ∈ segs, Legible kcp.conv seg) ∧
        Stops kcp.conv tail code ∧
          let last := inputSegments kcp segs
          ikcpInput kcp data =
            some (if code = 0 ∧ 0 < diff last.sndUna kcp.sndUna then growWindow last else last,
              code) :=
  ⟨takenSegments kcp.conv data, ikcpInput_takes kcp enough⟩

/-- What `ikcp_input` accepts is well formed, and what is well formed it accepts: whole
segments of its conversation, with fewer bytes than a header behind them. -/
theorem input_accepts_iff (kcp : IKCPCB) (data : List UInt8) :
    (∃ final, ikcpInput kcp data = some (final, 0)) ↔
      4 ≤ data.length ∧ ∃ (segs : List IKCPSEG) (tail : List UInt8),
        data = segs.flatMap IKCPSEG.wire ++ tail ∧ tail.length < IKCP_OVERHEAD ∧
          ∀ seg ∈ segs, Legible kcp.conv seg := by
  constructor
  · rintro ⟨final, accepted⟩
    have enough := four_le_of_taken accepted
    obtain ⟨tail, code, bytes, legible, stops, taken⟩ := ikcpInput_takes kcp enough
    rw [accepted] at taken
    obtain ⟨_, rfl⟩ := Prod.mk.inj (Option.some.inj taken)
    cases stops with
    | short few => exact ⟨enough, _, tail, bytes, few, legible⟩
  · rintro ⟨enough, segs, tail, rfl, few, legible⟩
    exact ⟨_, ikcpInput_segments enough legible (.short few)⟩

def probeAndForeign : List UInt8 :=
  IKCPSEG.wire { ikcpSegmentNew [] with conv := 7, cmd := IKCP_CMD_WASK } ++
    IKCPSEG.wire { ikcpSegmentNew [1] with conv := 8, cmd := IKCP_CMD_PUSH }

theorem input_reads_probeAndForeign :
    ∃ (segs : List IKCPSEG) (tail : List UInt8) (code : Int),
      probeAndForeign = segs.flatMap IKCPSEG.wire ++ tail ∧ (∀ seg ∈ segs, Legible 7 seg) ∧
        Stops 7 tail code ∧
          let last := inputSegments (ikcpCreate 7) segs
          ikcpInput (ikcpCreate 7) probeAndForeign =
            some (if code = 0 ∧ 0 < diff last.sndUna (ikcpCreate 7).sndUna then growWindow last
              else last, code) :=
  input_reads (ikcpCreate 7) probeAndForeign (by decide)

end Reading

end TalkingTime.Kcp

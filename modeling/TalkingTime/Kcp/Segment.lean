import Mathlib.Algebra.Ring.Nat
import Mathlib.Data.List.Basic

/-! Segments of KCP and the 24 bytes of their headers (`ikcp.cc`, three copies
that differ in debug output only). -/

namespace TalkingTime.Kcp

def IKCP_CMD_PUSH : UInt32 := 81
def IKCP_CMD_ACK : UInt32 := 82
def IKCP_CMD_WASK : UInt32 := 83
def IKCP_CMD_WINS : UInt32 := 84
def IKCP_OVERHEAD : Nat := 24

/-- `struct IKCPSEG` without its list node; `len` is the length of `data`. -/
structure IKCPSEG where
  conv : UInt32
  cmd : UInt32
  frg : UInt32
  wnd : UInt32
  ts : UInt32
  sn : UInt32
  una : UInt32
  resendts : UInt32
  rto : UInt32
  fastack : UInt32
  xmit : UInt32
  data : List UInt8
  deriving DecidableEq, Repr

def IKCPSEG.len (seg : IKCPSEG) : UInt32 := UInt32.ofNat seg.data.length

/-- `ikcp_segment_new`. What it leaves uninitialised is zero here; nothing reads
it before `ikcp_flush` or `ikcp_input` sets it. -/
def ikcpSegmentNew (data : List UInt8) : IKCPSEG :=
  ⟨0, 0, 0, 0, 0, 0, 0, 0, 0, 0, 0, data⟩

section Words

def ikcpEncode8u (c : UInt8) : List UInt8 := [c]

def ikcpEncode16u (w : UInt16) : List UInt8 := [w.toUInt8, (w >>> 8).toUInt8]

def ikcpEncode32u (l : UInt32) : List UInt8 :=
  [l.toUInt8, (l >>> 8).toUInt8, (l >>> 16).toUInt8, (l >>> 24).toUInt8]

/-- The decoders return the value and the bytes behind it. Reading past the end
of the data is undefined, which is the value `none`. -/
def ikcpDecode8u : List UInt8 → Option (UInt8 × List UInt8)
  | c :: p => some (c, p)
  | [] => none

def ikcpDecode16u : List UInt8 → Option (UInt16 × List UInt8)
  | p0 :: p1 :: p => some (p0.toUInt16 + (p1.toUInt16 <<< 8), p)
  | _ => none

def ikcpDecode32u : List UInt8 → Option (UInt32 × List UInt8)
  | p0 :: p1 :: p2 :: p3 :: p =>
      let l := p3.toUInt32
      let l := p2.toUInt32 + (l <<< 8)
      let l := p1.toUInt32 + (l <<< 8)
      let l := p0.toUInt32 + (l <<< 8)
      some (l, p)
  | _ => none

variable (rest : List UInt8)

theorem ikcpDecode8u_encode (c : UInt8) :
    ikcpDecode8u (ikcpEncode8u c ++ rest) = some (c, rest) := rfl

theorem ikcpDecode16u_encode (w : UInt16) :
    ikcpDecode16u (ikcpEncode16u w ++ rest) = some (w, rest) := by
  have word : w.toUInt8.toUInt16 + ((w >>> 8).toUInt8.toUInt16 <<< 8) = w := by
    apply UInt16.toNat_inj.mp
    have bound := w.toNat_lt
    simp only [UInt16.toNat_add, UInt16.toNat_shiftLeft, UInt8.toNat_toUInt16,
      UInt16.toNat_toUInt8, UInt16.toNat_shiftRight, UInt16.reduceToNat, Nat.reduceMod,
      Nat.shiftLeft_eq, Nat.shiftRight_eq_div_pow]
    omega
  exact congrArg (fun value => some (value, rest)) word

theorem ikcpDecode32u_encode (l : UInt32) :
    ikcpDecode32u (ikcpEncode32u l ++ rest) = some (l, rest) := by
  have word : l.toUInt8.toUInt32 + (((l >>> 8).toUInt8.toUInt32 +
      (((l >>> 16).toUInt8.toUInt32 + ((l >>> 24).toUInt8.toUInt32 <<< 8)) <<< 8)) <<< 8) = l := by
    apply UInt32.toNat_inj.mp
    have bound := l.toNat_lt
    simp only [UInt32.toNat_add, UInt32.toNat_shiftLeft, UInt8.toNat_toUInt32,
      UInt32.toNat_toUInt8, UInt32.toNat_shiftRight, UInt32.reduceToNat, Nat.reduceMod,
      Nat.shiftLeft_eq, Nat.shiftRight_eq_div_pow]
    omega
  exact congrArg (fun value => some (value, rest)) word

end Words

structure Header where
  conv : UInt32
  cmd : UInt8
  frg : UInt8
  wnd : UInt16
  ts : UInt32
  sn : UInt32
  una : UInt32
  len : UInt32
  deriving DecidableEq, Repr

def ikcpEncodeSeg (seg : IKCPSEG) : List UInt8 :=
  ikcpEncode32u seg.conv ++ (ikcpEncode8u seg.cmd.toUInt8 ++ (ikcpEncode8u seg.frg.toUInt8 ++
    (ikcpEncode16u seg.wnd.toUInt16 ++ (ikcpEncode32u seg.ts ++ (ikcpEncode32u seg.sn ++
      (ikcpEncode32u seg.una ++ ikcpEncode32u seg.len))))))

/-- The run of decoders at the top of the loop of `ikcp_input`. -/
def decodeHeader (data : List UInt8) : Option (Header × List UInt8) := do
  let (conv, data) ← ikcpDecode32u data
  let (cmd, data) ← ikcpDecode8u data
  let (frg, data) ← ikcpDecode8u data
  let (wnd, data) ← ikcpDecode16u data
  let (ts, data) ← ikcpDecode32u data
  let (sn, data) ← ikcpDecode32u data
  let (una, data) ← ikcpDecode32u data
  let (len, data) ← ikcpDecode32u data
  some (⟨conv, cmd, frg, wnd, ts, sn, una, len⟩, data)

def IKCPSEG.header (seg : IKCPSEG) : Header :=
  ⟨seg.conv, seg.cmd.toUInt8, seg.frg.toUInt8, seg.wnd.toUInt16, seg.ts, seg.sn, seg.una, seg.len⟩

@[simp] theorem length_ikcpEncodeSeg (seg : IKCPSEG) :
    (ikcpEncodeSeg seg).length = IKCP_OVERHEAD := rfl

/-- Reading a header back, whatever follows it. -/
theorem decodeHeader_encodeSeg (seg : IKCPSEG) (rest : List UInt8) :
    decodeHeader (ikcpEncodeSeg seg ++ rest) = some (seg.header, rest) := by
  simp only [decodeHeader, ikcpEncodeSeg, List.append_assoc, ikcpDecode32u_encode,
    ikcpDecode8u_encode, ikcpDecode16u_encode, Option.bind_eq_bind, Option.bind_some,
    IKCPSEG.header]

section Enough

variable (data : List UInt8)

theorem ikcpDecode8u_isSome (enough : 1 ≤ data.length) :
    ∃ value, ikcpDecode8u data = some (value, data.drop 1) := by
  match data, enough with
  | c :: p, _ => exact ⟨c, rfl⟩

theorem ikcpDecode16u_isSome (enough : 2 ≤ data.length) :
    ∃ value, ikcpDecode16u data = some (value, data.drop 2) := by
  match data, enough with
  | p0 :: p1 :: p, _ => exact ⟨_, rfl⟩

theorem ikcpDecode32u_isSome (enough : 4 ≤ data.length) :
    ∃ value, ikcpDecode32u data = some (value, data.drop 4) := by
  match data, enough with
  | p0 :: p1 :: p2 :: p3 :: p, _ => exact ⟨_, rfl⟩

theorem ikcpDecode32u_eq_none_iff : ikcpDecode32u data = none ↔ data.length < 4 := by
  constructor
  · intro fault
    by_contra enough
    obtain ⟨value, decoded⟩ := ikcpDecode32u_isSome data (Nat.not_lt.mp enough)
    rw [fault] at decoded
    cases decoded
  · intro few
    match data, few with
    | [], _ => rfl
    | [_], _ => rfl
    | [_, _], _ => rfl
    | [_, _, _], _ => rfl

theorem decodeHeader_isSome (enough : IKCP_OVERHEAD ≤ data.length) :
    ∃ header, decodeHeader data = some (header, data.drop IKCP_OVERHEAD) := by
  unfold IKCP_OVERHEAD at enough
  obtain ⟨conv, first⟩ := ikcpDecode32u_isSome data (by omega)
  obtain ⟨cmd, second⟩ := ikcpDecode8u_isSome (data.drop 4) (by rw [List.length_drop]; omega)
  obtain ⟨frg, third⟩ := ikcpDecode8u_isSome (data.drop 5) (by rw [List.length_drop]; omega)
  obtain ⟨wnd, fourth⟩ := ikcpDecode16u_isSome (data.drop 6) (by rw [List.length_drop]; omega)
  obtain ⟨ts, fifth⟩ := ikcpDecode32u_isSome (data.drop 8) (by rw [List.length_drop]; omega)
  obtain ⟨sn, sixth⟩ := ikcpDecode32u_isSome (data.drop 12) (by rw [List.length_drop]; omega)
  obtain ⟨una, seventh⟩ := ikcpDecode32u_isSome (data.drop 16) (by rw [List.length_drop]; omega)
  obtain ⟨len, eighth⟩ := ikcpDecode32u_isSome (data.drop 20) (by rw [List.length_drop]; omega)
  rw [List.drop_drop] at second third fourth fifth sixth seventh eighth
  refine ⟨⟨conv, cmd, frg, wnd, ts, sn, una, len⟩, ?_⟩
  simp only [decodeHeader, first, second, third, fourth, fifth, sixth, seventh, eighth,
    Option.bind_eq_bind, Option.bind_some, Nat.reduceAdd, IKCP_OVERHEAD]

end Enough

end TalkingTime.Kcp

import Mathlib.Data.List.Induction

/-! FU-A fragments of H.264 units in RTP payloads: the bits of their two header
bytes, sequences of fragments of one unit, and a depacketiser that puts units
together again. -/

namespace FuA

def fragmentType : UInt8 := 0x1c

def unitType (header : UInt8) : UInt8 := header &&& 0x1f

def reference (header : UInt8) : UInt8 := header &&& 0x60

def starts (fuHeader : UInt8) : Bool := fuHeader &&& 0x80 != 0

def ends (fuHeader : UInt8) : Bool := fuHeader &&& 0x40 != 0

/-- The header of the unit that a fragment is from, its forbidden bit clear. -/
def unitHeader (indicator fuHeader : UInt8) : UInt8 := reference indicator ||| unitType fuHeader

def Clear (header : UInt8) : Prop := header &&& 0x80 = 0

instance (header : UInt8) : Decidable (Clear header) := inferInstanceAs (Decidable (_ = _))

def indicator (payload : List UInt8) : UInt8 := payload.getD 0 0

def fuHeader (payload : List UInt8) : UInt8 := payload.getD 1 0

def content (payload : List UInt8) : List UInt8 := payload.drop 2

structure FragmentOf (header : UInt8) (payload : List UInt8) : Prop where
  sized : 2 ≤ payload.length
  kind : unitType (indicator payload) = fragmentType
  reference : reference (indicator payload) = reference header
  unitType : unitType (fuHeader payload) = unitType header

/-- The payloads are the fragments of the unit `header :: body`, first to last. -/
structure Fragmented (header : UInt8) (body : List UInt8) (payloads : List (List UInt8)) :
    Prop where
  present : payloads ≠ []
  fragment : ∀ payload ∈ payloads, FragmentOf header payload
  start : ∀ (i : Nat) (bound : i < payloads.length),
    starts (fuHeader payloads[i]) = true ↔ i = 0
  finish : ∀ (i : Nat) (bound : i < payloads.length),
    ends (fuHeader payloads[i]) = true ↔ i + 1 = payloads.length
  whole : payloads.flatMap content = body

/-- The payloads are fragments of a unit with this header up to some place before
its last fragment. -/
structure Opening (header : UInt8) (payloads : List (List UInt8)) : Prop where
  fragment : ∀ payload ∈ payloads, FragmentOf header payload
  start : ∀ (i : Nat) (bound : i < payloads.length),
    starts (fuHeader payloads[i]) = true ↔ i = 0
  unended : ∀ payload ∈ payloads, ends (fuHeader payload) = false

/-- What a receiver has put together: the unit of which the last fragment is
still to come, and the complete units in the order of their completion. -/
structure Depacketiser where
  pending : Option (List UInt8)
  units : List (List UInt8)
  deriving DecidableEq, Repr

def Depacketiser.initial : Depacketiser := ⟨none, []⟩

/-- A fragment joined to the pending unit. One that starts a unit drops what is
pending; one that does not start a unit is lost when nothing is pending. -/
def gather (pending : Option (List UInt8)) (payload : List UInt8) : Option (List UInt8) :=
  if starts (fuHeader payload) = true then
    some (unitHeader (indicator payload) (fuHeader payload) :: content payload)
  else pending.map (· ++ content payload)

def Depacketiser.receive (state : Depacketiser) (payload : List UInt8) : Depacketiser :=
  if unitType (indicator payload) ≠ fragmentType then ⟨none, state.units ++ [payload]⟩
  else if payload.length < 2 then state
  else
    match gather state.pending payload with
    | none => state
    | some unit =>
        if ends (fuHeader payload) = true then ⟨none, state.units ++ [unit]⟩
        else { state with pending := some unit }

def Depacketiser.receiveAll (state : Depacketiser) (payloads : List (List UInt8)) :
    Depacketiser :=
  payloads.foldl Depacketiser.receive state

def reassemble (payloads : List (List UInt8)) : List (List UInt8) :=
  (Depacketiser.initial.receiveAll payloads).units

theorem forall_byte {holds : UInt8 → Prop} (all : ∀ bits : BitVec 8, holds ⟨bits⟩)
    (byte : UInt8) : holds byte :=
  all byte.toBitVec

theorem reference_or_unitType {header : UInt8} (clear : Clear header) :
    reference header ||| unitType header = header := by
  revert header
  apply forall_byte
  decide

theorem unitHeader_of_fragment {header : UInt8} {payload : List UInt8}
    (fragment : FragmentOf header payload) (clear : Clear header) :
    unitHeader (indicator payload) (fuHeader payload) = header := by
  rw [unitHeader, fragment.reference, fragment.unitType, reference_or_unitType clear]

theorem start_last_of_start {front : List (List UInt8)} {last : List UInt8}
    (start : ∀ (i : Nat) (bound : i < (front ++ [last]).length),
      starts (fuHeader (front ++ [last])[i]) = true ↔ i = 0) :
    starts (fuHeader last) = true ↔ front = [] := by
  have atEnd := start front.length (by simp)
  simpa using atEnd

theorem start_front_of_start {front : List (List UInt8)} {last : List UInt8}
    (start : ∀ (i : Nat) (bound : i < (front ++ [last]).length),
      starts (fuHeader (front ++ [last])[i]) = true ↔ i = 0)
    (i : Nat) (bound : i < front.length) : starts (fuHeader front[i]) = true ↔ i = 0 := by
  have whole := start i (by rw [List.length_append]; omega)
  rwa [List.getElem_append_left bound] at whole

theorem Opening.start_last {header : UInt8} {front : List (List UInt8)} {last : List UInt8}
    (opening : Opening header (front ++ [last])) :
    starts (fuHeader last) = true ↔ front = [] :=
  start_last_of_start opening.start

theorem Opening.front {header : UInt8} {front : List (List UInt8)} {last : List UInt8}
    (opening : Opening header (front ++ [last])) : Opening header front where
  fragment payload member := opening.fragment payload (List.mem_append_left _ member)
  start := start_front_of_start opening.start
  unended payload member := opening.unended payload (List.mem_append_left _ member)

theorem Fragmented.start_last {header : UInt8} {body : List UInt8} {front : List (List UInt8)}
    {last : List UInt8} (fragmented : Fragmented header body (front ++ [last])) :
    starts (fuHeader last) = true ↔ front = [] :=
  start_last_of_start fragmented.start

theorem Fragmented.opening {header : UInt8} {body : List UInt8} {front : List (List UInt8)}
    {last : List UInt8} (fragmented : Fragmented header body (front ++ [last])) :
    Opening header front where
  fragment payload member := fragmented.fragment payload (List.mem_append_left _ member)
  start := start_front_of_start fragmented.start
  unended := by
    intro payload member
    obtain ⟨i, bound, rfl⟩ := List.getElem_of_mem member
    have whole := fragmented.finish i (by rw [List.length_append]; omega)
    rw [List.getElem_append_left bound, List.length_append, List.length_singleton] at whole
    rw [← Bool.not_eq_true, whole]
    omega

namespace Depacketiser

variable {header : UInt8} {payload : List UInt8} (state : Depacketiser)

@[simp] theorem receiveAll_nil : state.receiveAll [] = state := rfl

@[simp] theorem receiveAll_append (front back : List (List UInt8)) :
    state.receiveAll (front ++ back) = (state.receiveAll front).receiveAll back := by
  simp [receiveAll]

theorem receiveAll_singleton : state.receiveAll [payload] = state.receive payload := rfl

theorem receive_single (single : unitType (indicator payload) ≠ fragmentType) :
    state.receive payload = ⟨none, state.units ++ [payload]⟩ := by
  simp [receive, single]

theorem receive_fragment (fragment : FragmentOf header payload) {unit : List UInt8}
    (gathered : gather state.pending payload = some unit) :
    state.receive payload =
      if ends (fuHeader payload) = true then ⟨none, state.units ++ [unit]⟩
      else { state with pending := some unit } := by
  have whole : ¬ payload.length < 2 := Nat.not_lt.mpr fragment.sized
  have single : ¬ unitType (indicator payload) ≠ fragmentType := not_not.mpr fragment.kind
  rw [receive, if_neg single, if_neg whole, gathered]

theorem gather_start (fragment : FragmentOf header payload) (clear : Clear header)
    (start : starts (fuHeader payload) = true) (pending : Option (List UInt8)) :
    gather pending payload = some (header :: content payload) := by
  rw [gather, if_pos start, unitHeader_of_fragment fragment clear]

theorem gather_continue (middle : starts (fuHeader payload) = false) (unit : List UInt8) :
    gather (some unit) payload = some (unit ++ content payload) := by
  simp [gather, middle]

theorem receiveAll_concat (clear : Clear header) (front : List (List UInt8))
    (fragment : FragmentOf header payload)
    (start : starts (fuHeader payload) = true ↔ front = [])
    (opened : front ≠ [] → state.receiveAll front =
      { state with pending := some (header :: front.flatMap content) }) :
    state.receiveAll (front ++ [payload]) =
      if ends (fuHeader payload) = true then
        ⟨none, state.units ++ [header :: (front ++ [payload]).flatMap content]⟩
      else { state with pending := some (header :: (front ++ [payload]).flatMap content) } := by
  rw [receiveAll_append, receiveAll_singleton]
  rcases eq_or_ne front [] with alone | joined
  · have gathered := gather_start fragment clear (start.mpr alone) state.pending
    rw [alone, receiveAll_nil, receive_fragment state fragment gathered]
    simp
  · have middle : starts (fuHeader payload) = false := by
      rw [← Bool.not_eq_true, start]
      exact joined
    have gathered := gather_continue middle (header :: front.flatMap content)
    rw [opened joined, receive_fragment _ fragment gathered]
    simp

theorem receiveAll_opening (clear : Clear header) (payloads : List (List UInt8))
    (opening : Opening header payloads) (present : payloads ≠ []) :
    state.receiveAll payloads =
      { state with pending := some (header :: payloads.flatMap content) } := by
  induction payloads using List.reverseRecOn with
  | nil => exact absurd rfl present
  | append_singleton front last ih =>
      have lastFragment : FragmentOf header last := opening.fragment last (by simp)
      have lastOpen : ends (fuHeader last) = false := opening.unended last (by simp)
      rw [receiveAll_concat state clear front lastFragment opening.start_last
        (ih opening.front), lastOpen]
      simp

theorem receiveAll_fragmented (clear : Clear header) {body : List UInt8}
    {payloads : List (List UInt8)} (fragmented : Fragmented header body payloads) :
    state.receiveAll payloads = ⟨none, state.units ++ [header :: body]⟩ := by
  have split : payloads.dropLast ++ [payloads.getLast fragmented.present] = payloads :=
    List.dropLast_concat_getLast fragmented.present
  rw [← split] at fragmented ⊢
  generalize payloads.dropLast = front, payloads.getLast _ = last at fragmented
  have lastFragment : FragmentOf header last := fragmented.fragment last (by simp)
  have lastEnds : ends (fuHeader last) = true := by
    have atEnd := fragmented.finish front.length (by simp)
    simpa using atEnd
  rw [receiveAll_concat state clear front lastFragment fragmented.start_last
    (receiveAll_opening state clear front fragmented.opening), if_pos lastEnds,
    fragmented.whole]

end Depacketiser

theorem reassemble_fragmented {header : UInt8} {body : List UInt8} {payloads : List (List UInt8)}
    (clear : Clear header) (fragmented : Fragmented header body payloads) :
    reassemble payloads = [header :: body] := by
  rw [reassemble, Depacketiser.receiveAll_fragmented _ clear fragmented]
  rfl

end FuA

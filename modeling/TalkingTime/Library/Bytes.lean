import Mathlib.Data.List.Basic

/-! Byte ranges of a memory and `memcpy` into a buffer. -/

namespace Bytes

def slice (memory : Nat → UInt8) (start count : Nat) : List UInt8 :=
  (List.range' start count).map memory

/-- `memcpy(buffer + offset, memory + start, count)`. Writing past the end of the
buffer is undefined, which is the value `none`. -/
def memcpy (buffer : List UInt8) (offset : Nat) (memory : Nat → UInt8) (start count : Nat) :
    Option (List UInt8) :=
  if offset + count ≤ buffer.length then
    some (buffer.take offset ++ slice memory start count ++ buffer.drop (offset + count))
  else none

variable (memory : Nat → UInt8)

@[simp] theorem slice_zero (start : Nat) : slice memory start 0 = [] := rfl

@[simp] theorem length_slice (start count : Nat) : (slice memory start count).length = count := by
  simp [slice]

theorem slice_one (start : Nat) : slice memory start 1 = [memory start] := rfl

theorem slice_append (start first second : Nat) :
    slice memory start first ++ slice memory (start + first) second =
      slice memory start (first + second) := by
  rw [slice, slice, slice, ← List.map_append, List.range'_append_1]

theorem flatMap_range' (start size count : Nat) :
    (List.range count).flatMap (fun block => List.range' (start + block * size) size) =
      List.range' start (count * size) := by
  induction count with
  | zero => simp
  | succ count ih =>
      rw [List.range_succ, List.flatMap_append, ih, List.flatMap_singleton, List.range'_append_1,
        Nat.succ_mul]

theorem take_slice (start : Nat) {first count : Nat} (bound : first ≤ count) :
    (slice memory start count).take first = slice memory start first := by
  have split : count = first + (count - first) := by omega
  rw [split, ← slice_append, List.take_left' (length_slice memory start first)]

theorem memcpy_append (written rest : List UInt8) (start : Nat) {count : Nat}
    (fits : count ≤ rest.length) :
    memcpy (written ++ rest) written.length memory start count =
      some (written ++ slice memory start count ++ rest.drop count) := by
  have room : written.length + count ≤ (written ++ rest).length := by
    rw [List.length_append]
    omega
  have remaining : (written ++ rest).drop (written.length + count) = rest.drop count := by
    rw [List.drop_length_add_append]
  rw [memcpy, if_pos room, List.take_left, remaining]

theorem memcpy_replicate (written : List UInt8) (filler : UInt8) (start : Nat) {count room : Nat}
    (fits : count ≤ room) :
    memcpy (written ++ List.replicate room filler) written.length memory start count =
      some (written ++ slice memory start count ++ List.replicate (room - count) filler) := by
  rw [memcpy_append memory written (List.replicate room filler) start (by simpa using fits),
    List.drop_replicate]

theorem memcpy_fresh (filler : UInt8) (start : Nat) {count room : Nat} (fits : count ≤ room) :
    memcpy (List.replicate room filler) 0 memory start count =
      some (slice memory start count ++ List.replicate (room - count) filler) :=
  memcpy_replicate memory [] filler start fits

end Bytes

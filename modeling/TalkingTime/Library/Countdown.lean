import Mathlib.Data.List.Basic

/-! Messages cut into pieces of bounded size, each piece with the number of pieces
behind it, and the stream that many such messages make. -/

namespace Countdown

variable {α : Type*}

/-- Cuts `count` pieces of at most `size` elements off the front of a message. -/
def cut (size : Nat) : Nat → List α → List (List α)
  | 0, _ => []
  | count + 1, message => message.take size :: cut size count (message.drop size)

def label : List α → List (Nat × α)
  | [] => []
  | piece :: rest => (rest.length, piece) :: label rest

/-- The labelled pieces up to the first one that says it is the last. -/
def first : List (Nat × α) → List (Nat × α)
  | [] => []
  | (0, piece) :: _ => [(0, piece)]
  | (behind + 1, piece) :: rest => (behind + 1, piece) :: first rest

/-- The labelled pieces of a sequence of messages. -/
def stream (messages : List (List α)) : List (Nat × α) := messages.flatMap label

@[simp] theorem length_cut (size count : Nat) (message : List α) :
    (cut size count message).length = count := by
  induction count generalizing message with
  | zero => rfl
  | succ count ih => rw [cut, List.length_cons, ih]

theorem length_le_of_mem_cut {size count : Nat} {message piece : List α}
    (member : piece ∈ cut size count message) : piece.length ≤ size := by
  induction count generalizing message with
  | zero => cases member
  | succ count ih =>
      rcases List.mem_cons.mp member with rfl | later
      · exact List.length_take_le size message
      · exact ih later

theorem flatten_cut (size : Nat) {count : Nat} {message : List α}
    (enough : message.length ≤ count * size) : (cut size count message).flatten = message := by
  induction count generalizing message with
  | zero =>
      have empty : message = [] := List.eq_nil_of_length_eq_zero (by omega)
      rw [empty]
      rfl
  | succ count ih =>
      have rest : (message.drop size).length ≤ count * size := by
        rw [List.length_drop]
        rw [Nat.succ_mul] at enough
        omega
      rw [cut, List.flatten_cons, ih rest, List.take_append_drop]

@[simp] theorem length_label (pieces : List α) : (label pieces).length = pieces.length := by
  induction pieces with
  | nil => rfl
  | cons piece rest ih => rw [label, List.length_cons, List.length_cons, ih]

@[simp] theorem map_snd_label (pieces : List α) : (label pieces).map Prod.snd = pieces := by
  induction pieces with
  | nil => rfl
  | cons piece rest ih => rw [label, List.map_cons, ih]

theorem of_mem_label {pieces : List α} {labelled : Nat × α} (member : labelled ∈ label pieces) :
    labelled.1 < pieces.length ∧ labelled.2 ∈ pieces := by
  induction pieces with
  | nil => cases member
  | cons piece rest ih =>
      rcases List.mem_cons.mp member with rfl | later
      · exact ⟨Nat.lt_succ_self rest.length, List.mem_cons_self⟩
      · obtain ⟨bound, present⟩ := ih later
        exact ⟨Nat.lt_succ_of_lt bound, List.mem_cons_of_mem piece present⟩

theorem first_label_append {pieces : List α} (nonempty : pieces ≠ []) (later : List (Nat × α)) :
    first (label pieces ++ later) = label pieces := by
  induction pieces with
  | nil => exact absurd rfl nonempty
  | cons piece rest ih =>
      cases rest with
      | nil => rfl
      | cons next more =>
          have tail := ih (List.cons_ne_nil next more)
          exact congrArg ((more.length + 1, piece) :: ·) tail

theorem stream_append (front back : List (List α)) :
    stream (front ++ back) = stream front ++ stream back :=
  List.flatMap_append

theorem stream_concat (messages : List (List α)) (message : List α) :
    stream (messages ++ [message]) = stream messages ++ label message := by
  rw [stream_append]
  exact congrArg (stream messages ++ ·) (List.append_nil _)

theorem first_cons (labelled : Nat × α) (rest : List (Nat × α)) :
    first (labelled :: rest) =
      if labelled.1 = 0 then [labelled] else labelled :: first rest := by
  obtain ⟨behind, piece⟩ := labelled
  cases behind <;> rfl

variable {done rest later : List (List α)} {message : List α} {labelled : Nat × α}
  {queue : List (Nat × α)}

theorem queue_prefix (prefixed : stream done ++ labelled :: queue <+: stream (done ++ rest)) :
    labelled :: queue <+: stream rest := by
  rw [stream_append] at prefixed
  exact (List.prefix_append_right_inj (stream done)).mp prefixed

theorem length_of_first (nonempty : message ≠ [])
    (prefixed : stream done ++ labelled :: queue <+: stream (done ++ message :: later)) :
    message.length = labelled.1 + 1 := by
  have ahead := queue_prefix prefixed
  cases message with
  | nil => exact absurd rfl nonempty
  | cons head tail =>
      have opening : labelled = (tail.length, head) := (List.cons_prefix_cons.mp ahead).1
      rw [opening, List.length_cons]

/-- A queue of the stream that holds as many pieces as its first one calls for begins with
the next message. -/
theorem next_message (whole : ∀ message ∈ rest, message ≠ [])
    (prefixed : stream done ++ labelled :: queue <+: stream (done ++ rest))
    (enough : labelled.1 < (labelled :: queue).length) :
    ∃ message later held, rest = message :: later ∧
      labelled :: queue = label message ++ held ∧
      first (labelled :: queue) = label message := by
  have ahead := queue_prefix prefixed
  cases rest with
  | nil => exact absurd (List.prefix_nil.mp ahead) (List.cons_ne_nil _ _)
  | cons message later =>
      have nonempty : message ≠ [] := whole message List.mem_cons_self
      have count := length_of_first nonempty prefixed
      have inside : label message <+: labelled :: queue := by
        apply List.prefix_of_prefix_length_le (List.prefix_append _ (stream later)) ahead
        rw [length_label]
        omega
      obtain ⟨held, split⟩ := inside
      refine ⟨message, later, held, rfl, split.symm, ?_⟩
      rw [← split, first_label_append nonempty]

end Countdown

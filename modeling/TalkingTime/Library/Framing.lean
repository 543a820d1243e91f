import Mathlib.Data.List.Basic

/-! Units sent in pieces of which the last one carries a mark, and a receiver that
joins the pieces up to each mark. -/

namespace Framing

variable {Symbol : Type*}

structure Piece (Symbol : Type*) where
  content : List Symbol
  mark : Bool

/-- What is joined since the last mark, and the units that a mark has ended. -/
structure Joiner (Symbol : Type*) where
  pending : List Symbol
  units : List (List Symbol)

namespace Joiner

def initial : Joiner Symbol := ⟨[], []⟩

def receive (state : Joiner Symbol) (piece : Piece Symbol) : Joiner Symbol :=
  if piece.mark = true then ⟨[], state.units ++ [state.pending ++ piece.content]⟩
  else { state with pending := state.pending ++ piece.content }

def receiveAll (state : Joiner Symbol) (pieces : List (Piece Symbol)) : Joiner Symbol :=
  pieces.foldl receive state

variable (state : Joiner Symbol)

@[simp] theorem receiveAll_nil : state.receiveAll [] = state := rfl

@[simp] theorem receiveAll_append (front back : List (Piece Symbol)) :
    state.receiveAll (front ++ back) = (state.receiveAll front).receiveAll back := by
  simp [receiveAll]

theorem receiveAll_unmarked (pieces : List (Piece Symbol))
    (unmarked : ∀ piece ∈ pieces, piece.mark = false) :
    state.receiveAll pieces =
      { state with pending := state.pending ++ pieces.flatMap Piece.content } := by
  induction pieces generalizing state with
  | nil => simp
  | cons piece rest ih =>
      have first : piece.mark = false := unmarked piece List.mem_cons_self
      have others : ∀ piece ∈ rest, piece.mark = false := by
        intro other member
        exact unmarked other (List.mem_cons_of_mem _ member)
      have taken : state.receive piece =
          { state with pending := state.pending ++ piece.content } := by
        simp [receive, first]
      change (state.receive piece).receiveAll rest = _
      rw [taken, ih _ others, List.flatMap_cons, List.append_assoc]

theorem receiveAll_unit (front : List (Piece Symbol)) (last : Piece Symbol)
    (unmarked : ∀ piece ∈ front, piece.mark = false) (marked : last.mark = true) :
    state.receiveAll (front ++ [last]) =
      ⟨[], state.units ++ [state.pending ++ (front ++ [last]).flatMap Piece.content]⟩ := by
  rw [receiveAll_append, receiveAll_unmarked state front unmarked]
  change Joiner.receive _ last = _
  simp [receive, marked]

end Joiner

end Framing

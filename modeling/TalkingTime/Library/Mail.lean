import TalkingTime.Library.Runs
import Mathlib.Logic.Function.Basic

/-! Two parties that post messages to each other. What one of them takes is what the
other one has posted, in order, each message once. -/

namespace Mail

inductive Side where
  | left
  | right
  deriving DecidableEq, Repr

def Side.peer : Side → Side
  | .left => .right
  | .right => .left

@[simp] theorem Side.peer_peer (side : Side) : side.peer.peer = side := by
  cases side <;> rfl

theorem Side.peer_ne (side : Side) : side.peer ≠ side := by
  cases side <;> decide

theorem Side.eq_or_eq_peer (side other : Side) : other = side ∨ other = side.peer := by
  cases side <;> cases other <;> decide

inductive Event (Message : Type*) where
  | post (side : Side) (message : Message)
  | take (side : Side) (message : Message)
  deriving DecidableEq, Repr

variable {Message : Type*}

def posted (side : Side) : List (Event Message) → List Message
  | [] => []
  | .post poster message :: rest =>
      if poster = side then message :: posted side rest else posted side rest
  | .take _ _ :: rest => posted side rest

def taken (side : Side) : List (Event Message) → List Message
  | [] => []
  | .take taker message :: rest =>
      if taker = side then message :: taken side rest else taken side rest
  | .post _ _ :: rest => taken side rest

theorem posted_append (side : Side) (front back : List (Event Message)) :
    posted side (front ++ back) = posted side front ++ posted side back := by
  induction front with
  | nil => rfl
  | cons event rest ih =>
      cases event with
      | post poster message =>
          rw [List.cons_append, posted, posted, ih]
          split <;> rfl
      | take taker message => exact ih

theorem taken_append (side : Side) (front back : List (Event Message)) :
    taken side (front ++ back) = taken side front ++ taken side back := by
  induction front with
  | nil => rfl
  | cons event rest ih =>
      cases event with
      | post poster message => exact ih
      | take taker message =>
          rw [List.cons_append, taken, taken, ih]
          split <;> rfl

variable [DecidableEq Message]

/-- The state is what each party has posted and the other one has not yet taken. -/
def step (pending : Side → List Message) : Event Message → Option (Side → List Message)
  | .post side message => some (Function.update pending side (pending side ++ [message]))
  | .take side message =>
      match pending side.peer with
      | first :: rest =>
          if first = message then some (Function.update pending side.peer rest) else none
      | [] => none

def empty (_ : Side) : List Message := []

theorem take_step {pending next : Side → List Message} {side : Side} {message : Message}
    (done : step pending (.take side message) = some next) :
    pending side.peer = message :: next side.peer ∧ next side = pending side := by
  rw [step] at done
  split at done
  · rename_i first rest head
    split at done
    · rename_i same
      cases done
      rw [head, same, Function.update_self, Function.update_of_ne (Side.peer_ne side).symm]
      exact ⟨rfl, rfl⟩
    · cases done
  · cases done

theorem posted_eq {events : List (Event Message)} {pending final : Side → List Message}
    (replayed : Runs.run step pending events = some final) (side : Side) :
    pending side ++ posted side events = taken side.peer events ++ final side := by
  induction events generalizing pending with
  | nil =>
      cases replayed
      exact List.append_nil _
  | cons event rest ih =>
      obtain ⟨next, done, remaining⟩ := Runs.run_cons_eq_some.mp replayed
      have later := ih remaining
      cases event with
      | post poster message =>
          cases done
          by_cases own : poster = side
          · subst own
            rw [Function.update_self, List.append_assoc] at later
            rw [posted, if_pos rfl]
            exact later
          · rw [Function.update_of_ne (Ne.symm own)] at later
            rw [posted, if_neg own]
            exact later
      | take taker message =>
          obtain ⟨first, same⟩ := take_step done
          by_cases own : taker = side.peer
          · subst own
            rw [Side.peer_peer] at first
            rw [posted, taken, if_pos rfl, first, List.cons_append, List.cons_append, later]
          · have self : taker = side := (Side.eq_or_eq_peer side taker).resolve_right own
            subst self
            rw [posted, taken, if_neg own, ← same]
            exact later

theorem taken_prefix_posted {events : List (Event Message)} {final : Side → List Message}
    (replayed : Runs.run step empty events = some final) (side : Side) :
    taken side.peer events <+: posted side events :=
  ⟨final side, (posted_eq replayed side).symm⟩

end Mail

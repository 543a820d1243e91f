import Mathlib.Logic.Function.Basic
import TalkingTime.Library.Census
import TalkingTime.Library.Runs
import TalkingTime.Queue.TinyMesgQueue

/-! One `TinyMesgQueue` shared by arbitrarily many threads. The steps which
interleave are the emptiness test of `deQueue`, made before `qlock_` is taken,
and the two sections guarded by `qlock_`. A thread may start any call whenever
it is not inside one, so every sequence of calls by every thread is a schedule.
-/

namespace TalkingTime.Sections

open Census Runs

/-- Where a thread stands between two steps. A thread which `deQueue` threw out
of its call is `outside` again. -/
inductive Pc where
  | outside
  | passedTest
  deriving DecidableEq, Repr

/-- `pushed` and `returned` log the values in the order of their sections.
`poppedEmpty` says that a `front()` and `pop()` section ran on an empty
`queue_`; nothing is defined after that. -/
@[ext]
structure State (Tid T : Type*) where
  que : TinyMesgQueue T
  pc : Tid → Pc
  pushed : List T
  returned : List T
  poppedEmpty : Bool

inductive Action (Tid T : Type*) where
  | test (thread : Tid)
  | pop (thread : Tid)
  | push (thread : Tid) (elem : T)
  deriving DecidableEq, Repr

variable {Tid T : Type*} [DecidableEq Tid]

def State.initial : State Tid T := ⟨.new, fun _ => .outside, [], [], false⟩

def State.setPc (state : State Tid T) (thread : Tid) (pc : Pc) : State Tid T :=
  { state with pc := Function.update state.pc thread pc }

def State.Passed (state : State Tid T) (thread : Tid) : Prop :=
  state.pc thread = .passedTest

instance (state : State Tid T) : DecidablePred state.Passed :=
  fun thread => inferInstanceAs (Decidable (state.pc thread = .passedTest))

def perform (state : State Tid T) (action : Action Tid T) : Option (State Tid T) :=
  match action with
  | .test thread =>
      match state.pc thread with
      | .outside =>
          match state.que.emptinessTest with
          | .error _ => some state
          | .ok () => some (state.setPc thread .passedTest)
      | .passedTest => none
  | .pop thread =>
      match state.pc thread with
      | .outside => none
      | .passedTest =>
          match state.que.popSection with
          | none => some { state with poppedEmpty := true }
          | some (t, que) =>
              some { state.setPc thread .outside with
                que := que, returned := state.returned ++ [t] }
  | .push thread elem =>
      match state.pc thread with
      | .outside =>
          some { state with
            que := state.que.pushSection elem, pushed := state.pushed ++ [elem] }
      | .passedTest => none

def step (state : State Tid T) (action : Action Tid T) : Option (State Tid T) :=
  if state.poppedEmpty then none else perform state action

/-- Everything a step can do. -/
inductive Transition (state : State Tid T) : Action Tid T → State Tid T → Prop where
  | throws (thread : Tid) (outside : state.pc thread = .outside)
      (nil : state.que.queue_ = []) : Transition state (.test thread) state
  | passes (thread : Tid) (outside : state.pc thread = .outside)
      (filled : state.que.queue_ ≠ []) :
      Transition state (.test thread) (state.setPc thread .passedTest)
  | popsEmpty (thread : Tid) (passed : state.Passed thread) (nil : state.que.queue_ = []) :
      Transition state (.pop thread) { state with poppedEmpty := true }
  | pops (thread : Tid) (t : T) (rest : List T) (passed : state.Passed thread)
      (filled : state.que.queue_ = t :: rest) :
      Transition state (.pop thread)
        { state.setPc thread .outside with que := ⟨rest⟩, returned := state.returned ++ [t] }
  | pushes (thread : Tid) (elem : T) (outside : state.pc thread = .outside) :
      Transition state (.push thread elem)
        { state with que := state.que.pushSection elem, pushed := state.pushed ++ [elem] }

theorem transition_of_perform {state next : State Tid T} {action : Action Tid T}
    (taken : perform state action = some next) : Transition state action next := by
  unfold perform at taken
  cases action with
  | test thread =>
      cases here : state.pc thread with
      | passedTest => simp [here] at taken
      | outside =>
          by_cases nil : state.que.queue_ = []
          · simp only [here, TinyMesgQueue.emptinessTest_of_nil nil,
              Option.some.injEq] at taken
            exact taken ▸ .throws thread here nil
          · simp only [here, TinyMesgQueue.emptinessTest_of_ne_nil nil,
              Option.some.injEq] at taken
            exact taken ▸ .passes thread here nil
  | pop thread =>
      cases here : state.pc thread with
      | outside => simp [here] at taken
      | passedTest =>
          cases filled : state.que.queue_ with
          | nil =>
              simp only [here, TinyMesgQueue.popSection_of_nil filled,
                Option.some.injEq] at taken
              exact taken ▸ .popsEmpty thread here filled
          | cons t rest =>
              simp only [here, TinyMesgQueue.popSection_of_cons filled,
                Option.some.injEq] at taken
              exact taken ▸ .pops thread t rest here filled
  | push thread elem =>
      cases here : state.pc thread with
      | passedTest => simp [here] at taken
      | outside =>
          simp only [here, Option.some.injEq] at taken
          exact taken ▸ .pushes thread elem here

theorem perform_of_transition {state next : State Tid T} {action : Action Tid T}
    (transition : Transition state action next) : perform state action = some next := by
  unfold perform
  cases transition with
  | throws thread outside nil => simp [outside, TinyMesgQueue.emptinessTest_of_nil nil]
  | passes thread outside filled =>
      simp [outside, TinyMesgQueue.emptinessTest_of_ne_nil filled]
  | popsEmpty thread passed nil =>
      have here : state.pc thread = .passedTest := passed
      simp [here, TinyMesgQueue.popSection_of_nil nil]
  | pops thread t rest passed filled =>
      have here : state.pc thread = .passedTest := passed
      simp [here, TinyMesgQueue.popSection_of_cons filled]
  | pushes thread elem outside => simp [outside]

theorem step_eq_some_iff {state next : State Tid T} {action : Action Tid T} :
    step state action = some next ↔
      state.poppedEmpty = false ∧ Transition state action next := by
  cases defined : state.poppedEmpty with
  | true => simp [step, defined]
  | false =>
      have unguarded : step state action = perform state action := by simp [step, defined]
      rw [unguarded]
      constructor
      · intro taken
        exact ⟨rfl, transition_of_perform taken⟩
      · intro taken
        exact perform_of_transition taken.2

theorem passed_enter (state : State Tid T) (thread other : Tid) :
    (state.setPc thread .passedTest).Passed other ↔ other = thread ∨ state.Passed other := by
  by_cases same : other = thread <;>
    simp [State.Passed, State.setPc, same]

theorem passed_leave (state : State Tid T) (thread other : Tid) :
    (state.setPc thread .outside).Passed other ↔ other ≠ thread ∧ state.Passed other := by
  by_cases same : other = thread <;>
    simp [State.Passed, State.setPc, same]

omit [DecidableEq Tid] in
theorem not_passed_of_outside {state : State Tid T} {thread : Tid}
    (outside : state.pc thread = .outside) : ¬ state.Passed thread := by
  simp [State.Passed, outside]

end TalkingTime.Sections

import TalkingTime.Queue.Fifo

/-! `TinyMesgQueue` one statement at a time: `pthread_mutex_lock`, `front()`,
`pop()` and the rest are separate steps, and any thread may run between any two
of them. The lock is the only thing that keeps the sections whole. -/

namespace TalkingTime.Statements

open Runs

/-- The statement a thread executes next. `elem` and `t` are the locals of
`enQueue` and `deQueue`. -/
inductive Pc (T : Type*) where
  | idle
  | enLock (elem : T)
  | enPush (elem : T)
  | enUnlock
  | deTest
  | deLock
  | deFront
  | dePop (t : T)
  | deUnlock (t : T)
  deriving DecidableEq, Repr

/-- `qlock_` is the thread which owns the mutex. `undefined` says that `front()`
or `pop()` was called on an empty `queue_`. -/
structure State (Tid T : Type*) where
  que : TinyMesgQueue T
  qlock_ : Option Tid
  pc : Tid → Pc T
  pushed : List T
  returned : List T
  undefined : Bool

inductive Action (Tid T : Type*) where
  | callEnQueue (thread : Tid) (elem : T)
  | callDeQueue (thread : Tid)
  | advance (thread : Tid)
  deriving DecidableEq, Repr

variable {Tid T : Type*} [DecidableEq Tid]

/-- The constructor leaves `qlock_` uninitialised; here it starts as a free mutex. -/
def State.initial : State Tid T := ⟨.new, none, fun _ => .idle, [], [], false⟩

def State.goto (state : State Tid T) (thread : Tid) (pc : Pc T) : State Tid T :=
  { state with pc := Function.update state.pc thread pc }

def lock (state : State Tid T) (thread : Tid) (pc : Pc T) : Option (State Tid T) :=
  match state.qlock_ with
  | none => some { state.goto thread pc with qlock_ := some thread }
  | some _ => none

/-- The statement of `thread` that comes next. `push`, the copy of `front()` and `pop` do
not throw: an exception from one of them would leave `qlock_` locked for good. -/
def advance (state : State Tid T) (thread : Tid) : Option (State Tid T) :=
  match state.pc thread with
  | .idle => none
  | .enLock elem => lock state thread (.enPush elem)
  | .enPush elem =>
      some { state.goto thread .enUnlock with
        que := state.que.pushSection elem, pushed := state.pushed ++ [elem] }
  | .enUnlock => some { state.goto thread .idle with qlock_ := none }
  | .deTest =>
      match state.que.emptinessTest with
      | .error _ => some (state.goto thread .idle)
      | .ok () => some (state.goto thread .deLock)
  | .deLock => lock state thread .deFront
  | .deFront =>
      match state.que.queue_ with
      | [] => some { state with undefined := true }
      | t :: _ => some (state.goto thread (.dePop t))
  | .dePop t =>
      match state.que.queue_ with
      | [] => some { state with undefined := true }
      | _ :: rest =>
          some { state.goto thread (.deUnlock t) with
            que := ⟨rest⟩, returned := state.returned ++ [t] }
  | .deUnlock _ => some { state.goto thread .idle with qlock_ := none }

def perform (state : State Tid T) (action : Action Tid T) : Option (State Tid T) :=
  match action with
  | .callEnQueue thread elem =>
      match state.pc thread with
      | .idle => some (state.goto thread (.enLock elem))
      | _ => none
  | .callDeQueue thread =>
      match state.pc thread with
      | .idle => some (state.goto thread .deTest)
      | _ => none
  | .advance thread => advance state thread

def step (state : State Tid T) (action : Action Tid T) : Option (State Tid T) :=
  if state.undefined then none else perform state action

inductive Transition (state : State Tid T) : Action Tid T → State Tid T → Prop where
  | callEnQueue (thread : Tid) (elem : T) (here : state.pc thread = .idle) :
      Transition state (.callEnQueue thread elem) (state.goto thread (.enLock elem))
  | callDeQueue (thread : Tid) (here : state.pc thread = .idle) :
      Transition state (.callDeQueue thread) (state.goto thread .deTest)
  | enLock (thread : Tid) (elem : T) (here : state.pc thread = .enLock elem)
      (free : state.qlock_ = none) :
      Transition state (.advance thread)
        { state.goto thread (.enPush elem) with qlock_ := some thread }
  | enPush (thread : Tid) (elem : T) (here : state.pc thread = .enPush elem) :
      Transition state (.advance thread)
        { state.goto thread .enUnlock with
          que := state.que.pushSection elem, pushed := state.pushed ++ [elem] }
  | enUnlock (thread : Tid) (here : state.pc thread = .enUnlock) :
      Transition state (.advance thread) { state.goto thread .idle with qlock_ := none }
  | throws (thread : Tid) (here : state.pc thread = .deTest) (nil : state.que.queue_ = []) :
      Transition state (.advance thread) (state.goto thread .idle)
  | passes (thread : Tid) (here : state.pc thread = .deTest)
      (filled : state.que.queue_ ≠ []) :
      Transition state (.advance thread) (state.goto thread .deLock)
  | deLock (thread : Tid) (here : state.pc thread = .deLock) (free : state.qlock_ = none) :
      Transition state (.advance thread)
        { state.goto thread .deFront with qlock_ := some thread }
  | frontOfEmpty (thread : Tid) (here : state.pc thread = .deFront)
      (nil : state.que.queue_ = []) :
      Transition state (.advance thread) { state with undefined := true }
  | front (thread : Tid) (t : T) (rest : List T) (here : state.pc thread = .deFront)
      (filled : state.que.queue_ = t :: rest) :
      Transition state (.advance thread) (state.goto thread (.dePop t))
  | popOfEmpty (thread : Tid) (t : T) (here : state.pc thread = .dePop t)
      (nil : state.que.queue_ = []) :
      Transition state (.advance thread) { state with undefined := true }
  | pop (thread : Tid) (t head : T) (rest : List T) (here : state.pc thread = .dePop t)
      (filled : state.que.queue_ = head :: rest) :
      Transition state (.advance thread)
        { state.goto thread (.deUnlock t) with
          que := ⟨rest⟩, returned := state.returned ++ [t] }
  | deUnlock (thread : Tid) (t : T) (here : state.pc thread = .deUnlock t) :
      Transition state (.advance thread) { state.goto thread .idle with qlock_ := none }

theorem transition_of_advance {state next : State Tid T} {thread : Tid}
    (taken : advance state thread = some next) : Transition state (.advance thread) next := by
  unfold advance at taken
  cases here : state.pc thread with
  | idle => simp [here] at taken
  | enLock elem =>
      cases free : state.qlock_ with
      | some owner => simp [here, lock, free] at taken
      | none =>
          simp only [here, lock, free, Option.some.injEq] at taken
          exact taken ▸ .enLock thread elem here free
  | enPush elem =>
      simp only [here, Option.some.injEq] at taken
      exact taken ▸ .enPush thread elem here
  | enUnlock =>
      simp only [here, Option.some.injEq] at taken
      exact taken ▸ .enUnlock thread here
  | deTest =>
      by_cases nil : state.que.queue_ = []
      · simp only [here, TinyMesgQueue.emptinessTest_of_nil nil, Option.some.injEq] at taken
        exact taken ▸ .throws thread here nil
      · simp only [here, TinyMesgQueue.emptinessTest_of_ne_nil nil,
          Option.some.injEq] at taken
        exact taken ▸ .passes thread here nil
  | deLock =>
      cases free : state.qlock_ with
      | some owner => simp [here, lock, free] at taken
      | none =>
          simp only [here, lock, free, Option.some.injEq] at taken
          exact taken ▸ .deLock thread here free
  | deFront =>
      cases filled : state.que.queue_ with
      | nil =>
          simp only [here, filled, Option.some.injEq] at taken
          exact taken ▸ .frontOfEmpty thread here filled
      | cons t rest =>
          simp only [here, filled, Option.some.injEq] at taken
          exact taken ▸ .front thread t rest here filled
  | dePop t =>
      cases filled : state.que.queue_ with
      | nil =>
          simp only [here, filled, Option.some.injEq] at taken
          exact taken ▸ .popOfEmpty thread t here filled
      | cons head rest =>
          simp only [here, filled, Option.some.injEq] at taken
          exact taken ▸ .pop thread t head rest here filled
  | deUnlock t =>
      simp only [here, Option.some.injEq] at taken
      exact taken ▸ .deUnlock thread t here

theorem advance_of_transition {state next : State Tid T} {thread : Tid}
    (transition : Transition state (.advance thread) next) :
    advance state thread = some next := by
  unfold advance
  cases transition with
  | enLock _ elem here free => simp [here, lock, free]
  | enPush _ elem here => simp [here]
  | enUnlock _ here => simp [here]
  | throws _ here nil => simp [here, TinyMesgQueue.emptinessTest_of_nil nil]
  | passes _ here filled => simp [here, TinyMesgQueue.emptinessTest_of_ne_nil filled]
  | deLock _ here free => simp [here, lock, free]
  | frontOfEmpty _ here nil => simp [here, nil]
  | front _ t rest here filled => simp [here, filled]
  | popOfEmpty _ t here nil => simp [here, nil]
  | pop _ t head rest here filled => simp [here, filled]
  | deUnlock _ t here => simp [here]

theorem perform_eq_some_iff {state next : State Tid T} {action : Action Tid T} :
    perform state action = some next ↔ Transition state action next := by
  constructor
  · intro taken
    cases action with
    | callEnQueue thread elem =>
        cases here : state.pc thread <;> simp only [perform, here, reduceCtorEq] at taken
        exact (Option.some.inj taken) ▸ .callEnQueue thread elem here
    | callDeQueue thread =>
        cases here : state.pc thread <;> simp only [perform, here, reduceCtorEq] at taken
        exact (Option.some.inj taken) ▸ .callDeQueue thread here
    | advance thread => exact transition_of_advance taken
  · intro transition
    cases action with
    | callEnQueue thread elem =>
        cases transition with
        | callEnQueue _ _ here => simp [perform, here]
    | callDeQueue thread =>
        cases transition with
        | callDeQueue _ here => simp [perform, here]
    | advance thread => exact advance_of_transition transition

theorem step_eq_some_iff {state next : State Tid T} {action : Action Tid T} :
    step state action = some next ↔
      state.undefined = false ∧ Transition state action next := by
  cases defined : state.undefined with
  | true => simp [step, defined]
  | false => simp [step, defined, perform_eq_some_iff]

end TalkingTime.Statements

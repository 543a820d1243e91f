import TalkingTime.Queue.Statements

/-! What `qlock_` gives the statements of `enQueue` and `deQueue`: one thread at
a time inside a section, a front that is still the front when it is popped, and
always somebody who can go on. -/

namespace TalkingTime.Statements

open Runs

variable {Tid T : Type*} [DecidableEq Tid]

def Pc.holdsLock : Pc T → Bool
  | .enPush _ | .enUnlock | .deFront | .dePop _ | .deUnlock _ => true
  | .idle | .enLock _ | .deTest | .deLock => false

/-- `owner` is mutual exclusion. `head` is what it is for: between `front()` and
`pop()` nobody else touches the queue. -/
structure LockInv (state : State Tid T) : Prop where
  owner : ∀ thread, (state.pc thread).holdsLock = true ↔ state.qlock_ = some thread
  head : ∀ thread t, state.pc thread = .dePop t → state.que.queue_.head? = some t

omit [DecidableEq Tid] in
theorem lockInv_initial : LockInv (.initial : State Tid T) where
  owner := by intro thread; simp [State.initial, Pc.holdsLock]
  head := by intro thread t here; simp [State.initial] at here

theorem goto_pc (state : State Tid T) (thread other : Tid) (pc : Pc T) :
    (state.goto thread pc).pc other = if other = thread then pc else state.pc other := by
  simp [State.goto, Function.update_apply]

omit [DecidableEq Tid] in
theorem LockInv.alone {state : State Tid T} (inv : LockInv state) {thread other : Tid}
    (holds : (state.pc thread).holdsLock = true) (different : other ≠ thread) :
    (state.pc other).holdsLock = false := by
  have mine : state.qlock_ = some thread := (inv.owner thread).mp holds
  cases theirs : (state.pc other).holdsLock with
  | false => rfl
  | true =>
      have both : some other = some thread := ((inv.owner other).mp theirs).symm.trans mine
      exact absurd (Option.some.inj both) different

section Owner

variable {state : State Tid T} {thread : Tid} {pc : Pc T}

theorem LockInv.owner_keep (inv : LockInv state)
    (same : pc.holdsLock = (state.pc thread).holdsLock) (other : Tid) :
    ((state.goto thread pc).pc other).holdsLock = true ↔ state.qlock_ = some other := by
  rw [goto_pc]
  split
  · next equal => rw [equal, same]; exact inv.owner thread
  · exact inv.owner other

theorem LockInv.owner_take (inv : LockInv state) (free : state.qlock_ = none)
    (holds : pc.holdsLock = true) (other : Tid) :
    ((state.goto thread pc).pc other).holdsLock = true ↔ some thread = some other := by
  rw [goto_pc]
  split
  · next equal => simp [equal, holds]
  · next different =>
      rw [inv.owner other, free]
      simp [Ne.symm different]

theorem LockInv.owner_release (inv : LockInv state)
    (holds : (state.pc thread).holdsLock = true) (drops : pc.holdsLock = false) (other : Tid) :
    ((state.goto thread pc).pc other).holdsLock = true ↔ none = some other := by
  rw [goto_pc]
  split
  · simp [drops]
  · next different => simp [inv.alone holds different]

theorem LockInv.head_goto (inv : LockInv state) {queue : List T}
    (others : (state.pc thread).holdsLock = true ∨ queue = state.que.queue_)
    (mine : ∀ t, pc = .dePop t → queue.head? = some t) (other : Tid) (t : T)
    (here : (state.goto thread pc).pc other = .dePop t) : queue.head? = some t := by
  rw [goto_pc] at here
  split at here
  · exact mine t here
  · next different =>
      rcases others with holds | same
      · have free := inv.alone holds different
        rw [here] at free
        cases free
      · rw [same]
        exact inv.head other t here

end Owner

theorem lockInv_step (state : State Tid T) (action : Action Tid T) (next : State Tid T)
    (inv : LockInv state) (taken : step state action = some next) : LockInv next := by
  obtain ⟨_, transition⟩ := step_eq_some_iff.mp taken
  cases transition with
  | callEnQueue thread elem here =>
      exact ⟨inv.owner_keep (by rw [here]; rfl), inv.head_goto (Or.inr rfl) (by simp)⟩
  | callDeQueue thread here =>
      exact ⟨inv.owner_keep (by rw [here]; rfl), inv.head_goto (Or.inr rfl) (by simp)⟩
  | enLock thread elem here free =>
      exact ⟨inv.owner_take free rfl, inv.head_goto (Or.inr rfl) (by simp)⟩
  | enPush thread elem here =>
      exact ⟨inv.owner_keep (by rw [here]; rfl),
        inv.head_goto (Or.inl (by rw [here]; rfl)) (by simp)⟩
  | enUnlock thread here =>
      exact ⟨inv.owner_release (by rw [here]; rfl) rfl, inv.head_goto (Or.inr rfl) (by simp)⟩
  | throws thread here nil =>
      exact ⟨inv.owner_keep (by rw [here]; rfl), inv.head_goto (Or.inr rfl) (by simp)⟩
  | passes thread here filled =>
      exact ⟨inv.owner_keep (by rw [here]; rfl), inv.head_goto (Or.inr rfl) (by simp)⟩
  | deLock thread here free =>
      exact ⟨inv.owner_take free rfl, inv.head_goto (Or.inr rfl) (by simp)⟩
  | frontOfEmpty thread here nil => exact ⟨inv.owner, inv.head⟩
  | front thread t rest here filled =>
      exact ⟨inv.owner_keep (by rw [here]; rfl),
        inv.head_goto (Or.inr rfl) (by simp [State.goto, filled])⟩
  | popOfEmpty thread t here nil => exact ⟨inv.owner, inv.head⟩
  | pop thread t head rest here filled =>
      exact ⟨inv.owner_keep (by rw [here]; rfl),
        inv.head_goto (Or.inl (by rw [here]; rfl)) (by simp)⟩
  | deUnlock thread t here =>
      exact ⟨inv.owner_release (by rw [here]; rfl) rfl, inv.head_goto (Or.inr rfl) (by simp)⟩

theorem lockInv_of_run {actions : List (Action Tid T)} {state : State Tid T}
    (replayed : run step .initial actions = some state) : LockInv state :=
  invariant_of_run lockInv_step lockInv_initial replayed

/-- In every reachable state at most one thread is inside a section, and what it has read
with `front()` is still the front when it comes to `pop()`. -/
theorem mutual_exclusion {actions : List (Action Tid T)} {state : State Tid T}
    (replayed : run step .initial actions = some state) :
    (∀ first second, (state.pc first).holdsLock = true → (state.pc second).holdsLock = true →
      first = second) ∧
    ∀ thread t, state.pc thread = .dePop t → state.que.queue_.head? = some t := by
  have inv := lockInv_of_run replayed
  refine ⟨?_, inv.head⟩
  intro first second inFirst inSecond
  by_contra different
  have free := inv.alone inSecond different
  rw [inFirst] at free
  cases free

def handOver : List (Action Bool Nat) :=
  [.callEnQueue false 7, .advance false, .advance false, .callDeQueue true, .advance true,
    .advance false, .advance true, .advance true]

theorem handOver_replayed :
    ∃ state, run step .initial handOver = some state ∧ state.undefined = false ∧
      state.pc true = .dePop 7 := by
  have seen : (run step .initial handOver).map (fun state => (state.undefined, state.pc true)) =
      some (false, .dePop 7) := by decide
  obtain ⟨state, replayed, same⟩ := Option.map_eq_some_iff.mp seen
  simp only [Prod.mk.injEq] at same
  exact ⟨state, replayed, same⟩

theorem mutual_exclusion_handOver :
    ∃ state : State Bool Nat, run step .initial handOver = some state ∧
      (∀ first second, (state.pc first).holdsLock = true → (state.pc second).holdsLock = true →
        first = second) ∧
      ∀ thread t, state.pc thread = .dePop t → state.que.queue_.head? = some t := by
  obtain ⟨state, replayed, _⟩ := handOver_replayed
  exact ⟨state, replayed, mutual_exclusion replayed⟩

theorem exists_transition {state : State Tid T} {thread : Tid} (busy : state.pc thread ≠ .idle)
    (free : state.qlock_ = none ∨ (state.pc thread).holdsLock = true) :
    ∃ next, Transition state (.advance thread) next := by
  cases here : state.pc thread with
  | idle => exact absurd here busy
  | enLock elem =>
      rcases free with free | holds
      · exact ⟨_, .enLock thread elem here free⟩
      · simp [here, Pc.holdsLock] at holds
  | enPush elem => exact ⟨_, .enPush thread elem here⟩
  | enUnlock => exact ⟨_, .enUnlock thread here⟩
  | deTest =>
      by_cases nil : state.que.queue_ = []
      · exact ⟨_, .throws thread here nil⟩
      · exact ⟨_, .passes thread here nil⟩
  | deLock =>
      rcases free with free | holds
      · exact ⟨_, .deLock thread here free⟩
      · simp [here, Pc.holdsLock] at holds
  | deFront =>
      cases filled : state.que.queue_ with
      | nil => exact ⟨_, .frontOfEmpty thread here filled⟩
      | cons t rest => exact ⟨_, .front thread t rest here filled⟩
  | dePop t =>
      cases filled : state.que.queue_ with
      | nil => exact ⟨_, .popOfEmpty thread t here filled⟩
      | cons head rest => exact ⟨_, .pop thread t head rest here filled⟩
  | deUnlock t => exact ⟨_, .deUnlock thread t here⟩

/-- No deadlock: while some thread is inside a call, some thread can go on. The
throwing path of `deQueue` leaves before the lock, so no lock is left behind. -/
theorem no_deadlock {actions : List (Action Tid T)} {state : State Tid T}
    (replayed : run step .initial actions = some state) (defined : state.undefined = false)
    {thread : Tid} (busy : state.pc thread ≠ .idle) :
    ∃ (mover : Tid) (next : State Tid T), step state (.advance mover) = some next := by
  have inv := lockInv_of_run replayed
  cases owned : state.qlock_ with
  | none =>
      have moves := exists_transition busy (Or.inl owned)
      obtain ⟨next, transition⟩ := moves
      exact ⟨thread, next, step_eq_some_iff.mpr ⟨defined, transition⟩⟩
  | some owner =>
      have holds : (state.pc owner).holdsLock = true := (inv.owner owner).mpr owned
      have inside : state.pc owner ≠ .idle := by
        intro idle
        simp [idle, Pc.holdsLock] at holds
      have moves := exists_transition inside (Or.inr holds)
      obtain ⟨next, transition⟩ := moves
      exact ⟨owner, next, step_eq_some_iff.mpr ⟨defined, transition⟩⟩

theorem no_deadlock_handOver :
    ∃ state : State Bool Nat, run step .initial handOver = some state ∧
      ∃ mover next, step state (.advance mover) = some next := by
  obtain ⟨state, replayed, defined, here⟩ := handOver_replayed
  have busy : state.pc true ≠ .idle := by
    rw [here]
    simp
  exact ⟨state, replayed, no_deadlock replayed defined busy⟩

end TalkingTime.Statements

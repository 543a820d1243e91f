import TalkingTime.Queue.MutualExclusion

/-! The two levels of the shared queue agree. Under mutual exclusion every run
of single statements is, seen through `State.sections`, a run of whole sections,
and every run of sections comes from a run of statements. So what holds of the
sections under a condition on the tests holds of the code, and the race between
two consumers is a race of the code. -/

namespace TalkingTime.Statements

open Runs

variable {Tid T : Type*}

/-- Where a thread stands for somebody who sees sections only. -/
def Pc.view : Pc T → Sections.Pc
  | .deLock | .deFront | .dePop _ => .passedTest
  | .idle | .enLock _ | .enPush _ | .enUnlock | .deTest | .deUnlock _ => .outside

def State.sections (state : State Tid T) : Sections.State Tid T where
  que := state.que
  pc := fun thread => (state.pc thread).view
  pushed := state.pushed
  returned := state.returned
  poppedEmpty := state.undefined

/-- The section which a statement completes. The pop section is done at `pop()`,
or at a `front()` that is already undefined. -/
def labels (state : State Tid T) : Action Tid T → List (Sections.Action Tid T)
  | .callEnQueue _ _ => []
  | .callDeQueue _ => []
  | .advance thread =>
      match state.pc thread with
      | .enPush elem => [.push thread elem]
      | .deTest => [.test thread]
      | .deFront => if state.que.queue_ = [] then [.pop thread] else []
      | .dePop _ => [.pop thread]
      | .idle | .enLock _ | .enUnlock | .deLock | .deUnlock _ => []

variable [DecidableEq Tid]

theorem view_goto (state : State Tid T) (thread : Tid) (pc : Pc T) :
    (state.goto thread pc).sections.pc =
      Function.update state.sections.pc thread pc.view := by
  funext other
  by_cases same : other = thread <;> simp [State.sections, State.goto, same]

theorem view_goto_same {state : State Tid T} {thread : Tid} (pc : Pc T)
    (same : pc.view = (state.pc thread).view) :
    (state.goto thread pc).sections.pc = state.sections.pc := by
  rw [view_goto, same]
  exact Function.update_eq_self thread state.sections.pc

theorem sections_goto {state : State Tid T} {thread : Tid} (pc : Pc T) (owner : Option Tid)
    (same : pc.view = (state.pc thread).view) :
    State.sections { state.goto thread pc with qlock_ := owner } = state.sections :=
  Sections.State.ext rfl (view_goto_same pc same) rfl rfl rfl

theorem sections_step {state next : State Tid T} {action : Action Tid T}
    (inv : LockInv state) (taken : step state action = some next) :
    run Sections.step state.sections (labels state action) = some next.sections := by
  obtain ⟨defined, transition⟩ := step_eq_some_iff.mp taken
  have invisible : next.sections = state.sections → labels state action = [] →
      run Sections.step state.sections (labels state action) = some next.sections := by
    intro same none
    rw [none, same, run_nil]
  have visible : ∀ {label : Sections.Action Tid T} {after : Sections.State Tid T},
      Sections.Transition state.sections label after → next.sections = after →
      labels state action = [label] →
      run Sections.step state.sections (labels state action) = some next.sections := by
    intro label after completed same one
    rw [one, same]
    exact run_singleton (Sections.step_eq_some_iff.mpr ⟨defined, completed⟩)
  have seen : ∀ {thread : Tid} {pc : Pc T}, state.pc thread = pc →
      state.sections.pc thread = pc.view := by
    intro thread pc here
    rw [← here]
    rfl
  cases transition with
  | callEnQueue thread elem here =>
      exact invisible (sections_goto (.enLock elem) state.qlock_ (seen here).symm) rfl
  | callDeQueue thread here =>
      exact invisible (sections_goto .deTest state.qlock_ (seen here).symm) rfl
  | enLock thread elem here free =>
      exact invisible (sections_goto (.enPush elem) (some thread) (seen here).symm)
        (by simp [labels, here])
  | enPush thread elem here =>
      have pcs := view_goto_same .enUnlock (seen here).symm
      exact visible (.pushes thread elem (seen here))
        (Sections.State.ext rfl pcs rfl rfl rfl) (by simp [labels, here])
  | enUnlock thread here =>
      exact invisible (sections_goto .idle none (seen here).symm) (by simp [labels, here])
  | throws thread here nil =>
      exact visible (.throws thread (seen here) nil)
        (sections_goto .idle state.qlock_ (seen here).symm) (by simp [labels, here])
  | passes thread here filled =>
      have pcs := view_goto state thread .deLock
      exact visible (.passes thread (seen here) filled)
        (Sections.State.ext rfl pcs rfl rfl rfl) (by simp [labels, here])
  | deLock thread here free =>
      exact invisible (sections_goto .deFront (some thread) (seen here).symm)
        (by simp [labels, here])
  | frontOfEmpty thread here nil =>
      exact visible (.popsEmpty thread (seen here) nil) rfl (by simp [labels, here, nil])
  | front thread t rest here filled =>
      exact invisible (sections_goto (.dePop t) state.qlock_ (seen here).symm)
        (by simp [labels, here, filled])
  | popOfEmpty thread t here nil =>
      exact visible (.popsEmpty thread (seen here) nil) rfl (by simp [labels, here])
  | pop thread t head rest here filled =>
      -- the lock was held since `front()`, so what is popped is what was read
      have same : head = t := by
        have read := inv.head thread t here
        rw [filled] at read
        exact Option.some.inj read
      subst same
      have pcs := view_goto state thread (.deUnlock head)
      exact visible (.pops thread head rest (seen here) filled)
        (Sections.State.ext rfl pcs rfl rfl rfl) (by simp [labels, here])
  | deUnlock thread t here =>
      exact invisible (sections_goto .idle none (seen here).symm) (by simp [labels, here])

omit [DecidableEq Tid] in
theorem labels_cases (state : State Tid T) (action : Action Tid T) :
    labels state action = [] ∨ ∃ label, labels state action = [label] := by
  cases action with
  | callEnQueue thread elem => exact Or.inl rfl
  | callDeQueue thread => exact Or.inl rfl
  | advance thread =>
      cases here : state.pc thread with
      | deFront => by_cases nil : state.que.queue_ = [] <;> simp [labels, here, nil]
      | _ => simp [labels, here]

def Completes (condition : Sections.State Tid T → Sections.Action Tid T → Prop)
    (state : State Tid T) (action : Action Tid T) : Prop :=
  ∀ label ∈ labels state action, condition state.sections label

instance {condition : Sections.State Tid T → Sections.Action Tid T → Prop}
    [∀ image label, Decidable (condition image label)] (state : State Tid T)
    (action : Action Tid T) : Decidable (Completes condition state action) :=
  inferInstanceAs (Decidable (∀ label ∈ labels state action, condition state.sections label))

def Viewed (state : State Tid T) (image : Sections.State Tid T) : Prop :=
  LockInv state ∧ image = state.sections

theorem sections_simulate
    (condition : Sections.State Tid T → Sections.Action Tid T → Prop) :
    Simulates step (Completes condition) Sections.step condition Viewed := by
  intro state image action next viewed met taken
  rcases viewed with ⟨inv, rfl⟩
  have completed := sections_step inv taken
  refine ⟨labels state action, next.sections, completed, ?_,
    lockInv_step state action next inv taken, rfl⟩
  rcases labels_cases state action with none | ⟨label, one⟩
  · rw [none]
    trivial
  · rw [one, meets_singleton]
    exact met label (by rw [one]; exact List.mem_singleton_self label)

omit [DecidableEq Tid] in
theorem viewed_initial : Viewed (.initial : State Tid T) .initial :=
  ⟨lockInv_initial, rfl⟩

theorem exists_sections_run {actions : List (Action Tid T)} {state : State Tid T}
    (replayed : run step .initial actions = some state) :
    ∃ labels, run Sections.step .initial labels = some state.sections := by
  have met : Meets step (Completes Always) .initial actions :=
    meets_of_forall_mem (fun _ _ _ _ _ => trivial) _
  obtain ⟨labels, image, seen, _, _, same⟩ :=
    (sections_simulate Always).run viewed_initial met replayed
  exact ⟨labels, same ▸ seen⟩

/-- Statement by statement too, up to a `front()` or `pop()` that is undefined, nothing is
lost, duplicated or reordered. -/
theorem fifo_of_run {actions : List (Action Tid T)} {state : State Tid T}
    (replayed : run step .initial actions = some state) :
    state.returned ++ state.que.queue_ = state.pushed := by
  obtain ⟨labels, seen⟩ := exists_sections_run replayed
  exact Sections.ledger_of_run seen

theorem fifo_of_run_handOver :
    ∃ state : State Bool Nat, run step .initial handOver = some state ∧
      state.returned ++ state.que.queue_ = state.pushed := by
  obtain ⟨state, replayed, _⟩ := handOver_replayed
  exact ⟨state, replayed, fifo_of_run replayed⟩

/-- The condition on tests makes the code safe. -/
theorem safe_of_tests_covered {actions : List (Action Tid T)} {state : State Tid T}
    (meets : Meets step (Completes Sections.TestCovered) .initial actions)
    (replayed : run step .initial actions = some state) : Sections.Safe state.sections := by
  obtain ⟨labels, image, seen, seenMeets, _, same⟩ :=
    (sections_simulate Sections.TestCovered).run viewed_initial meets replayed
  exact same ▸ Sections.safe_of_covered_run seenMeets seen

theorem safe_of_tests_covered_handOver :
    ∃ state : State Bool Nat, run step .initial handOver = some state ∧
      Sections.Safe state.sections := by
  obtain ⟨state, replayed, _⟩ := handOver_replayed
  exact ⟨state, replayed, safe_of_tests_covered (by decide) replayed⟩

section SingleConsumer

def OnlyCaller (consumer : Tid) (_ : State Tid T) (action : Action Tid T) : Prop :=
  ∀ thread, action = .callDeQueue thread → thread = consumer

def OnlyTester (consumer : Tid) (state : State Tid T) : Prop :=
  ∀ thread, state.pc thread = .deTest → thread = consumer

omit [DecidableEq Tid] in
theorem OnlyTester.completes {consumer : Tid} {state : State Tid T}
    (only : OnlyTester consumer state) (action : Action Tid T) :
    Completes (Sections.OnlyConsumer consumer) state action := by
  rintro label member thread rfl
  cases action with
  | callEnQueue other elem => cases member
  | callDeQueue other => cases member
  | advance other =>
      cases here : state.pc other with
      | deTest =>
          simp only [labels, here, List.mem_singleton, Sections.Action.test.injEq] at member
          exact member ▸ only other here
      | deFront => by_cases nil : state.que.queue_ = [] <;> simp [labels, here, nil] at member
      | _ => simp [labels, here] at member

theorem onlyTester_step {consumer : Tid} {state next : State Tid T} {action : Action Tid T}
    (only : OnlyTester consumer state) (caller : OnlyCaller consumer state action)
    (taken : step state action = some next) : OnlyTester consumer next := by
  obtain ⟨_, transition⟩ := step_eq_some_iff.mp taken
  have moved : ∀ (thread : Tid) (pc : Pc T), (pc = .deTest → thread = consumer) →
      ∀ other, (state.goto thread pc).pc other = .deTest → other = consumer := by
    intro thread pc mine other here
    rw [goto_pc] at here
    split at here
    · next same => exact same ▸ mine here
    · exact only other here
  cases transition with
  | callEnQueue thread elem => exact moved thread _ (fun here => by cases here)
  | callDeQueue thread => exact moved thread _ (fun _ => caller thread rfl)
  | enLock thread elem => exact moved thread _ (fun here => by cases here)
  | enPush thread elem => exact moved thread _ (fun here => by cases here)
  | enUnlock thread => exact moved thread _ (fun here => by cases here)
  | throws thread => exact moved thread _ (fun here => by cases here)
  | passes thread => exact moved thread _ (fun here => by cases here)
  | deLock thread => exact moved thread _ (fun here => by cases here)
  | frontOfEmpty thread => exact only
  | front thread t => exact moved thread _ (fun here => by cases here)
  | popOfEmpty thread => exact only
  | pop thread t => exact moved thread _ (fun here => by cases here)
  | deUnlock thread => exact moved thread _ (fun here => by cases here)

/-- With a single consumer, and any number of producers, the code is safe: it never calls
`front()` or `pop()` on an empty `queue_`. -/
theorem safe_of_single_consumer (consumer : Tid) {actions : List (Action Tid T)}
    {state : State Tid T} (only : Meets step (OnlyCaller consumer) .initial actions)
    (replayed : run step .initial actions = some state) : Sections.Safe state.sections := by
  have simulates : Simulates (@step Tid T _) (OnlyCaller consumer) Sections.step
      (Sections.OnlyConsumer consumer)
      (fun (state : State Tid T) image => Viewed state image ∧ OnlyTester consumer state) := by
    rintro state image action next ⟨viewed, tester⟩ caller taken
    obtain ⟨labels, after, seen, meets, later⟩ := sections_simulate (Sections.OnlyConsumer consumer)
      state image action next viewed (tester.completes action) taken
    exact ⟨labels, after, seen, meets, later, onlyTester_step tester caller taken⟩
  have first : Viewed (.initial : State Tid T) .initial ∧
      OnlyTester consumer (.initial : State Tid T) := ⟨viewed_initial, fun _ here => by cases here⟩
  obtain ⟨labels, image, seen, meets, ⟨_, same⟩, _⟩ := simulates.run first only replayed
  exact same ▸ Sections.safe_of_only_consumer meets seen

theorem safe_of_single_consumer_handOver :
    ∃ state : State Bool Nat, run step .initial handOver = some state ∧
      Sections.Safe state.sections := by
  obtain ⟨state, replayed, _⟩ := handOver_replayed
  have only : Meets step (OnlyCaller true) .initial handOver :=
    meets_of_forall_mem (by simp [handOver, OnlyCaller]) _
  exact ⟨state, replayed, safe_of_single_consumer true only replayed⟩

end SingleConsumer

def Resting (state : State Tid T) : Prop :=
  state.qlock_ = none ∧ ∀ thread, state.pc thread = .idle ∨ state.pc thread = .deLock

/-- A state of the sections and a state of the code which shows it. -/
def Realised (image : Sections.State Tid T) (state : State Tid T) : Prop :=
  image = state.sections ∧ (state.undefined = false → Resting state)

omit [DecidableEq Tid] in
theorem Resting.idle {state : State Tid T} (resting : Resting state) {thread : Tid}
    (outside : state.sections.pc thread = .outside) : state.pc thread = .idle := by
  rcases resting.2 thread with idle | waiting
  · exact idle
  · simp [State.sections, waiting, Pc.view] at outside

omit [DecidableEq Tid] in
theorem Resting.deLock {state : State Tid T} (resting : Resting state) {thread : Tid}
    (passed : state.sections.pc thread = .passedTest) : state.pc thread = .deLock := by
  rcases resting.2 thread with idle | waiting
  · simp [State.sections, idle, Pc.view] at passed
  · exact waiting

theorem run_of_transition {state next final : State Tid T} {action : Action Tid T}
    {rest : List (Action Tid T)} (defined : state.undefined = false)
    (transition : Transition state action next) (later : run step next rest = some final) :
    run step state (action :: rest) = some final :=
  run_cons_eq_some.mpr ⟨next, step_eq_some_iff.mpr ⟨defined, transition⟩, later⟩

theorem Resting.of_update {state final : State Tid T} (resting : Resting state) {thread : Tid}
    {pc : Pc T} (moved : final.pc = Function.update state.pc thread pc)
    (rests : pc = .idle ∨ pc = .deLock) (free : final.qlock_ = none) : Resting final := by
  refine ⟨free, ?_⟩
  intro other
  rw [moved, Function.update_apply]
  split
  · exact rests
  · exact resting.2 other

theorem Resting.realised {state final : State Tid T} (resting : Resting state) {thread : Tid}
    {pc : Pc T} (moved : final.pc = Function.update state.pc thread pc)
    (rests : pc = .idle ∨ pc = .deLock) (free : final.qlock_ = none) :
    Realised ⟨final.que, Function.update state.sections.pc thread pc.view, final.pushed,
      final.returned, final.undefined⟩ final := by
  refine ⟨Sections.State.ext rfl ?_ rfl rfl rfl, fun _ => resting.of_update moved rests free⟩
  rw [← view_goto]
  simp only [State.sections, State.goto, moved]

theorem statements_simulate :
    Simulates (@Sections.step Tid T _) Always step Always Realised := by
  intro image state action next realised _ taken
  rcases realised with ⟨rfl, rests⟩
  obtain ⟨open_, transition⟩ := Sections.step_eq_some_iff.mp taken
  have defined : state.undefined = false := open_
  have resting : Resting state := rests defined
  suffices shown : ∃ actions final, run step state actions = some final ∧ Realised next final by
    obtain ⟨actions, final, replayed, realised⟩ := shown
    exact ⟨actions, final, replayed, meets_always state actions, realised⟩
  cases transition with
  | throws thread outside nil =>
      have here := resting.idle outside
      have replayed : run step state [.callDeQueue thread, .advance thread] =
          some (state.goto thread .idle) := by
        refine run_of_transition defined (.callDeQueue thread here) ?_
        refine run_of_transition defined (.throws thread (by simp [goto_pc]) nil) ?_
        simp [State.goto]
      refine ⟨_, _, replayed, ?_⟩
      have same : (state.goto thread .idle).sections.pc = state.sections.pc :=
        view_goto_same .idle (by rw [here])
      exact ⟨Sections.State.ext rfl same.symm rfl rfl rfl,
        fun _ => resting.of_update rfl (Or.inl rfl) resting.1⟩
  | passes thread outside filled =>
      have here := resting.idle outside
      have replayed : run step state [.callDeQueue thread, .advance thread] =
          some (state.goto thread .deLock) := by
        refine run_of_transition defined (.callDeQueue thread here) ?_
        refine run_of_transition defined (.passes thread (by simp [goto_pc]) filled) ?_
        simp [State.goto]
      have moved : (state.goto thread .deLock).pc = Function.update state.pc thread .deLock := rfl
      exact ⟨_, _, replayed, resting.realised moved (Or.inr rfl) resting.1⟩
  | popsEmpty thread passed nil =>
      have here := resting.deLock passed
      have replayed : run step state [.advance thread, .advance thread] = some
          { state.goto thread .deFront with qlock_ := some thread, undefined := true } := by
        refine run_of_transition defined (.deLock thread here resting.1) ?_
        exact run_of_transition defined (.frontOfEmpty thread (by simp [goto_pc]) nil) rfl
      have same : (state.goto thread .deFront).sections.pc = state.sections.pc :=
        view_goto_same .deFront (by rw [here]; rfl)
      exact ⟨_, _, replayed, Sections.State.ext rfl same.symm rfl rfl rfl, fun shut => by cases shut⟩
  | pops thread t rest passed filled =>
      have here := resting.deLock passed
      let final : State Tid T :=
        { state.goto thread .idle with
          que := ⟨rest⟩, returned := state.returned ++ [t], qlock_ := none }
      have replayed : run step state
          [.advance thread, .advance thread, .advance thread, .advance thread] = some final := by
        refine run_of_transition defined (.deLock thread here resting.1) ?_
        refine run_of_transition defined (.front thread t rest (by simp [goto_pc]) filled) ?_
        refine run_of_transition defined (.pop thread t t rest (by simp [goto_pc]) filled) ?_
        refine run_of_transition defined (.deUnlock thread t (by simp [goto_pc])) ?_
        simp [State.goto, final]
      have moved : final.pc = Function.update state.pc thread .idle := rfl
      exact ⟨_, _, replayed, resting.realised moved (Or.inl rfl) rfl⟩
  | pushes thread elem outside =>
      have here := resting.idle outside
      let final : State Tid T :=
        { state.goto thread .idle with
          que := state.que.pushSection elem, pushed := state.pushed ++ [elem], qlock_ := none }
      have replayed : run step state
          [.callEnQueue thread elem, .advance thread, .advance thread, .advance thread] =
            some final := by
        refine run_of_transition defined (.callEnQueue thread elem here) ?_
        refine run_of_transition defined (.enLock thread elem (by simp [goto_pc]) resting.1) ?_
        refine run_of_transition defined (.enPush thread elem (by simp [goto_pc])) ?_
        refine run_of_transition defined (.enUnlock thread (by simp [goto_pc])) ?_
        simp [State.goto, final]
      have same : final.sections.pc = state.sections.pc :=
        view_goto_same .idle (by rw [here])
      exact ⟨_, _, replayed, Sections.State.ext rfl same.symm rfl rfl rfl,
        fun _ => resting.of_update rfl (Or.inl rfl) rfl⟩

omit [DecidableEq Tid] in
theorem realised_initial : Realised (.initial : Sections.State Tid T) .initial :=
  ⟨rfl, fun _ => ⟨rfl, fun _ => Or.inl rfl⟩⟩

theorem exists_statements_run {labels : List (Sections.Action Tid T)}
    {image : Sections.State Tid T} (seen : run Sections.step .initial labels = some image) :
    ∃ (actions : List (Action Tid T)) (state : State Tid T),
      run step .initial actions = some state ∧ image = state.sections := by
  obtain ⟨actions, state, replayed, _, realised⟩ :=
    statements_simulate.run realised_initial (meets_always _ labels) seen
  exact ⟨actions, state, replayed, realised.1⟩

/-- What is reachable in sections is exactly what is seen of the reachable
states of the code. -/
theorem sections_reachable_iff (image : Sections.State Tid T) :
    (∃ labels, run Sections.step .initial labels = some image) ↔
      ∃ (actions : List (Action Tid T)) (state : State Tid T),
        run step .initial actions = some state ∧ image = state.sections := by
  constructor
  · rintro ⟨labels, seen⟩
    exact exists_statements_run seen
  · rintro ⟨actions, state, replayed, rfl⟩
    exact exists_sections_run replayed

theorem exists_undefined_run :
    ∃ (actions : List (Action (Fin 2) Nat)) (state : State (Fin 2) Nat),
      run step .initial actions = some state ∧ state.undefined = true := by
  have race : (run Sections.step .initial Sections.raceForOneElement).map (·.poppedEmpty) =
      some true := by decide
  obtain ⟨image, seen, empty⟩ := Option.map_eq_some_iff.mp race
  obtain ⟨actions, state, replayed, same⟩ := exists_statements_run seen
  refine ⟨actions, state, replayed, ?_⟩
  rw [same] at empty
  exact empty

end TalkingTime.Statements

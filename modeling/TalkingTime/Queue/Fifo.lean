import TalkingTime.Queue.Sections

/-! What interleaved calls on one `TinyMesgQueue` keep, and when. The order of
the values never breaks. A pop of an empty `queue_` is another matter: the
emptiness test and the pop belong to different moments, and what decides is how
many calls are between the two when a further call passes its test. -/

namespace TalkingTime.Sections

open Census Runs

variable {Tid T : Type*} [DecidableEq Tid]

def Ledger (state : State Tid T) : Prop :=
  state.returned ++ state.que.queue_ = state.pushed

structure Safe (state : State Tid T) : Prop where
  neverPoppedEmpty : state.poppedEmpty = false
  ledger : Ledger state

/-- The contract of the class: every state reached by every interleaving is safe. -/
def FifoUnderEveryInterleaving (Tid T : Type*) [DecidableEq Tid] : Prop :=
  ∀ (actions : List (Action Tid T)) (state : State Tid T),
    run step .initial actions = some state → Safe state

/-- No more calls are past their test than there are elements to pop. -/
def Covered (state : State Tid T) : Prop :=
  Fewer (state.que.queue_.length + 1) state.Passed

/-- An emptiness test which lets its call go on is made while fewer calls are
past their test than there are elements queued. -/
def TestCovered (state : State Tid T) : Action Tid T → Prop
  | .test _ => state.que.queue_ ≠ [] → Fewer state.que.queue_.length state.Passed
  | .pop _ => True
  | .push _ _ => True

instance [Fintype Tid] (state : State Tid T) (action : Action Tid T) :
    Decidable (TestCovered state action) :=
  match action with
  | .test _ =>
      match filled : state.que.queue_ with
      | [] => isTrue (fun nonempty => absurd filled nonempty)
      | _ :: _ =>
          decidable_of_iff (Fewer state.que.queue_.length state.Passed)
            (by simp [TestCovered, filled])
  | .pop _ => isTrue trivial
  | .push _ _ => isTrue trivial

theorem ledger_step (state : State Tid T) (action : Action Tid T) (next : State Tid T)
    (ledger : Ledger state) (taken : step state action = some next) : Ledger next := by
  obtain ⟨_, transition⟩ := step_eq_some_iff.mp taken
  cases transition with
  | throws => exact ledger
  | passes => exact ledger
  | popsEmpty => exact ledger
  | pops thread t rest _ filled =>
      calc
        (state.returned ++ [t]) ++ rest = state.returned ++ state.que.queue_ := by
          rw [filled, List.append_assoc, List.singleton_append]
        _ = state.pushed := ledger
  | pushes thread elem _ =>
      calc
        state.returned ++ (state.que.queue_ ++ [elem]) =
            (state.returned ++ state.que.queue_) ++ [elem] := by rw [List.append_assoc]
        _ = state.pushed ++ [elem] := by rw [ledger]

theorem ledger_of_run {actions : List (Action Tid T)} {state : State Tid T}
    (replayed : run step .initial actions = some state) : Ledger state := by
  have first : Ledger (.initial : State Tid T) := rfl
  exact invariant_of_run ledger_step first replayed

theorem returned_prefix_of_run {actions : List (Action Tid T)} {state : State Tid T}
    (replayed : run step .initial actions = some state) : state.returned <+: state.pushed :=
  ⟨state.que.queue_, ledger_of_run replayed⟩

theorem covered_step (state : State Tid T) (action : Action Tid T) (next : State Tid T)
    (held : state.poppedEmpty = false ∧ Covered state) (met : TestCovered state action)
    (taken : step state action = some next) :
    next.poppedEmpty = false ∧ Covered next := by
  obtain ⟨defined, transition⟩ := step_eq_some_iff.mp taken
  obtain ⟨_, covered⟩ := held
  cases transition with
  | throws => exact ⟨defined, covered⟩
  | passes thread _ filled =>
      refine ⟨defined, (met filled).join thread ?_⟩
      intro other passed
      exact (passed_enter state thread other).mp passed
  | popsEmpty thread passed nil =>
      rw [Covered, nil] at covered
      exact absurd passed (covered.none thread)
  | pops thread t rest passed filled =>
      rw [Covered, filled] at covered
      refine ⟨defined, covered.leave passed ?_⟩
      intro other still
      exact (passed_leave state thread other).mp still
  | pushes thread elem _ =>
      have wider : state.que.queue_.length + 1 ≤ (state.que.queue_ ++ [elem]).length + 1 := by
        simp
      exact ⟨defined, Fewer.weaken covered wider⟩

omit [DecidableEq Tid] in
theorem covered_initial : Covered (.initial : State Tid T) :=
  fewer_none (fun _ => by simp [State.Passed, State.initial])

theorem exists_pops_of_roll (roll : List Tid) (state : State Tid T) (nodup : roll.Nodup)
    (passed : ∀ thread ∈ roll, state.Passed thread) (defined : state.poppedEmpty = false)
    (long : state.que.queue_.length < roll.length) :
    ∃ (pops : List Tid) (final : State Tid T),
      run step state (pops.map Action.pop) = some final ∧
      final.poppedEmpty = true := by
  induction roll generalizing state with
  | nil => simp at long
  | cons thread rest ih =>
      have first := passed thread (by simp)
      rcases filled : state.que.queue_ with _ | ⟨t, queue⟩
      · have taken := step_eq_some_iff.mpr ⟨defined, .popsEmpty thread first filled⟩
        exact ⟨[thread], _, run_singleton taken, rfl⟩
      · have taken := step_eq_some_iff.mpr ⟨defined, .pops thread t queue first filled⟩
        obtain ⟨absent, nodupRest⟩ := List.nodup_cons.mp nodup
        let popped : State Tid T :=
          { state.setPc thread .outside with que := ⟨queue⟩, returned := state.returned ++ [t] }
        have stillPassed : ∀ other ∈ rest, popped.Passed other := by
          intro other member
          have different : other ≠ thread := by
            rintro rfl
            exact absent member
          exact (passed_leave state thread other).mpr ⟨different, passed other (by simp [member])⟩
        have shorter : popped.que.queue_.length < rest.length := by
          rw [filled] at long
          simpa [popped] using long
        obtain ⟨pops, final, replayed, empty⟩ :=
          ih popped nodupRest stillPassed defined shorter
        exact ⟨thread :: pops, final, run_cons_eq_some.mpr ⟨_, taken, replayed⟩, empty⟩

/-- A state is covered exactly when the calls past their test can be scheduled
in every order without popping an empty `queue_`. -/
theorem covered_iff_pops_defined {state : State Tid T} (defined : state.poppedEmpty = false) :
    Covered state ↔ ∀ (pops : List Tid) (final : State Tid T),
      run step state (pops.map Action.pop) = some final → final.poppedEmpty = false := by
  constructor
  · intro covered pops final replayed
    have met : Meets step TestCovered state (pops.map Action.pop) := by
      refine meets_of_forall_mem ?_ state
      intro action member anywhere
      obtain ⟨thread, _, rfl⟩ := List.mem_map.mp member
      trivial
    exact (invariant_of_meets covered_step ⟨defined, covered⟩ met replayed).1
  · intro always
    by_contra uncovered
    obtain ⟨roll, nodup, passed, long⟩ := exists_roll_of_not_fewer uncovered
    obtain ⟨pops, final, replayed, empty⟩ :=
      exists_pops_of_roll roll state nodup passed defined long
    rw [always pops final replayed] at empty
    cases empty

theorem not_covered_of_uncovered_test {state next : State Tid T} {thread : Tid}
    (taken : step state (.test thread) = some next)
    (uncovered : ¬ TestCovered state (.test thread)) :
    next.poppedEmpty = false ∧ ¬ Covered next := by
  obtain ⟨defined, transition⟩ := step_eq_some_iff.mp taken
  cases transition with
  | throws _ _ nil => exact absurd (fun filled => absurd nil filled) uncovered
  | passes _ outside filled =>
      refine ⟨defined, fun covered => uncovered (fun _ => ?_)⟩
      refine covered.leave ((passed_enter state thread thread).mpr (Or.inl rfl)) ?_
      intro other passed
      refine ⟨?_, (passed_enter state thread other).mpr (Or.inr passed)⟩
      rintro rfl
      exact not_passed_of_outside outside passed

theorem safe_of_covered_run {actions : List (Action Tid T)} {state : State Tid T}
    (meets : Meets step TestCovered .initial actions)
    (replayed : run step .initial actions = some state) : Safe state := by
  have first : (State.initial : State Tid T).poppedEmpty = false ∧
      Covered (State.initial : State Tid T) := ⟨rfl, covered_initial⟩
  exact ⟨(invariant_of_meets covered_step first meets replayed).1, ledger_of_run replayed⟩

/-- Every state of a run whose passing tests are all covered is safe. No uncovered test
can be let through: after any run it can be followed by pops alone of which one finds
`queue_` empty, though a push that comes before them may still fill it. -/
theorem fifo_while_tests_covered (actions : List (Action Tid T)) :
    (Meets step TestCovered .initial actions →
      ∀ (count : Nat) (state : State Tid T),
        run step .initial (actions.take count) = some state → Safe state) ∧
    (∀ (state next : State Tid T) (thread : Tid),
      run step .initial actions = some state → step state (.test thread) = some next →
      ¬ TestCovered state (.test thread) →
      ∃ (pops : List Tid) (final : State Tid T),
        run step .initial (actions ++ .test thread :: pops.map .pop) = some final ∧
          final.poppedEmpty = true) := by
  constructor
  · intro meets count state replayed
    exact safe_of_covered_run (meets_take meets count) replayed
  · intro state next thread replayed taken uncovered
    obtain ⟨defined, exposed⟩ := not_covered_of_uncovered_test taken uncovered
    rw [covered_iff_pops_defined defined] at exposed
    simp only [not_forall, Bool.not_eq_false] at exposed
    obtain ⟨pops, final, drained, empty⟩ := exposed
    exact ⟨pops, final, run_append_eq_some.mpr ⟨state, replayed,
      run_cons_eq_some.mpr ⟨next, taken, drained⟩⟩, empty⟩

theorem fifo_while_tests_covered_two_consumers :
    (∀ state, run step .initial
        ([.push 0 7, .push 1 8, .test 0, .test 1, .pop 1, .pop 0] : List (Action (Fin 2) Nat)) =
          some state → Safe state) ∧
      ∃ (pops : List (Fin 2)) (final : State (Fin 2) Nat),
        run step .initial ([.push 0 7, .test 0] ++ .test 1 :: pops.map .pop) = some final ∧
          final.poppedEmpty = true := by
  constructor
  · exact (fifo_while_tests_covered
      [.push 0 7, .push 1 8, .test 0, .test 1, .pop 1, .pop 0]).1 (by decide) 6
  · exact (fifo_while_tests_covered [.push 0 7, .test 0]).2 _ _ 1 rfl rfl (by decide)

/-- Two consumers pass the test on one element and both pop. -/
def raceForOneElement : List (Action (Fin 2) Nat) :=
  [.push 0 7, .test 0, .test 1, .pop 0, .pop 1]

theorem not_fifoUnderEveryInterleaving : ¬ FifoUnderEveryInterleaving (Fin 2) Nat := by
  intro contract
  have race : (run step .initial raceForOneElement).map (·.poppedEmpty) = some true := by decide
  obtain ⟨final, replayed, empty⟩ := Option.map_eq_some_iff.mp race
  have safe := (contract raceForOneElement final replayed).neverPoppedEmpty
  rw [safe] at empty
  cases empty

omit [DecidableEq Tid] in
theorem testCovered_of_nobody_passed {state : State Tid T}
    (nobody : ∀ thread, ¬ state.Passed thread) (action : Action Tid T) :
    TestCovered state action := by
  cases action with
  | test thread =>
      intro filled
      have positive : 0 + 1 ≤ state.que.queue_.length := List.length_pos_iff.mpr filled
      exact Fewer.weaken (fewer_none nobody) positive
  | pop thread => trivial
  | push thread elem => trivial

def OnlyConsumer (consumer : Tid) (_ : State Tid T) (action : Action Tid T) : Prop :=
  ∀ thread, action = .test thread → thread = consumer

theorem single_consumer_step (consumer : Tid) (state : State Tid T) (action : Action Tid T)
    (next : State Tid T)
    (held : (state.poppedEmpty = false ∧ Covered state) ∧
      ∀ thread, state.Passed thread → thread = consumer)
    (only : OnlyConsumer consumer state action) (taken : step state action = some next) :
    (next.poppedEmpty = false ∧ Covered next) ∧
      ∀ thread, next.Passed thread → thread = consumer := by
  obtain ⟨covered, alone⟩ := held
  obtain ⟨_, transition⟩ := step_eq_some_iff.mp taken
  have met : TestCovered state action := by
    cases transition with
    | throws _ _ nil => exact fun filled => absurd nil filled
    | passes thread outside =>
        apply testCovered_of_nobody_passed
        intro other passed
        have same : other = thread := (alone other passed).trans (only thread rfl).symm
        exact not_passed_of_outside outside (same ▸ passed)
    | popsEmpty => trivial
    | pops => trivial
    | pushes => trivial
  refine ⟨covered_step state action next covered met taken, ?_⟩
  intro other passed
  cases transition with
  | throws => exact alone other passed
  | passes thread =>
      rcases (passed_enter state thread other).mp passed with same | before
      · exact same.trans (only thread rfl)
      · exact alone other before
  | popsEmpty => exact alone other passed
  | pops thread => exact alone other ((passed_leave state thread other).mp passed).2
  | pushes => exact alone other passed

theorem safe_of_only_consumer {consumer : Tid} {actions : List (Action Tid T)}
    {state : State Tid T} (only : Meets step (OnlyConsumer consumer) .initial actions)
    (replayed : run step .initial actions = some state) : Safe state := by
  have first : ((State.initial : State Tid T).poppedEmpty = false ∧
      Covered (State.initial : State Tid T)) ∧
      ∀ thread, (State.initial : State Tid T).Passed thread → thread = consumer := by
    refine ⟨⟨rfl, covered_initial⟩, ?_⟩
    intro thread passed
    exact absurd passed (by simp [State.Passed, State.initial])
  have last := invariant_of_meets (single_consumer_step consumer) first only replayed
  exact ⟨last.1.1, ledger_of_run replayed⟩

end TalkingTime.Sections

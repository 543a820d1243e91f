import Mathlib.Data.List.Basic

/-! Runs of executable transition systems: replaying a schedule of actions,
conditions that every action of a schedule meets, invariants of whole runs, and
simulations of one system by another. -/

namespace Runs

variable {State Action : Type*}

/-- Replays a schedule. An action that is not enabled where the schedule takes
it ends the replay with `none`. -/
def run (step : State → Action → Option State) : State → List Action → Option State
  | state, [] => some state
  | state, action :: rest =>
      match step state action with
      | some next => run step next rest
      | none => none

/-- Every action which the schedule takes meets `condition` in the state before it. -/
def Meets (step : State → Action → Option State) (condition : State → Action → Prop) :
    State → List Action → Prop
  | _, [] => True
  | state, action :: rest =>
      condition state action ∧
        match step state action with
        | some next => Meets step condition next rest
        | none => True

def Always (_ : State) (_ : Action) : Prop := True

variable {step : State → Action → Option State} {condition : State → Action → Prop}

instance decidableMeets [∀ state action, Decidable (condition state action)] :
    ∀ (state : State) (actions : List Action), Decidable (Meets step condition state actions)
  | _, [] => inferInstanceAs (Decidable True)
  | state, action :: rest =>
      match taken : step state action with
      | some next =>
          @decidable_of_iff _ (condition state action ∧ Meets step condition next rest)
            (by simp only [Meets, taken])
            (@instDecidableAnd _ _ _ (decidableMeets next rest))
      | none => decidable_of_iff (condition state action) (by simp only [Meets, taken, and_true])

@[simp] theorem run_nil (state : State) : run step state [] = some state := rfl

theorem run_cons_eq_some {state final : State} {action : Action} {rest : List Action} :
    run step state (action :: rest) = some final ↔
      ∃ next, step state action = some next ∧ run step next rest = some final := by
  cases taken : step state action with
  | none => simp [run, taken]
  | some next => simp [run, taken]

theorem run_append_eq_some {front back : List Action} {state final : State} :
    run step state (front ++ back) = some final ↔
      ∃ middle, run step state front = some middle ∧ run step middle back = some final := by
  induction front generalizing state with
  | nil => simp
  | cons action rest ih =>
      simp only [List.cons_append, run_cons_eq_some, ih]
      constructor
      · rintro ⟨next, taken, middle, first, second⟩
        exact ⟨middle, ⟨next, taken, first⟩, second⟩
      · rintro ⟨middle, ⟨next, taken, first⟩, second⟩
        exact ⟨next, taken, middle, first, second⟩

theorem run_singleton {state next : State} {action : Action}
    (taken : step state action = some next) : run step state [action] = some next := by
  simp [run, taken]

@[simp] theorem meets_nil (state : State) : Meets step condition state [] := trivial

theorem meets_cons {state next : State} {action : Action} {rest : List Action}
    (taken : step state action = some next) :
    Meets step condition state (action :: rest) ↔
      condition state action ∧ Meets step condition next rest := by
  simp only [Meets, taken]

theorem meets_singleton {state : State} {action : Action} :
    Meets step condition state [action] ↔ condition state action := by
  cases taken : step state action <;> simp [Meets, taken]

theorem meets_append {front back : List Action} {state middle : State}
    (replayed : run step state front = some middle) :
    Meets step condition state (front ++ back) ↔
      Meets step condition state front ∧ Meets step condition middle back := by
  induction front generalizing state with
  | nil =>
      cases replayed
      simp
  | cons action rest ih =>
      obtain ⟨next, taken, remaining⟩ := run_cons_eq_some.mp replayed
      rw [List.cons_append, meets_cons taken, meets_cons taken, ih remaining, and_assoc]

theorem meets_take {actions : List Action} {state : State}
    (meets : Meets step condition state actions) (count : Nat) :
    Meets step condition state (actions.take count) := by
  induction actions generalizing state count with
  | nil => simp
  | cons action rest ih =>
      cases count with
      | zero => simp
      | succ count =>
          rw [List.take_succ_cons]
          refine ⟨meets.1, ?_⟩
          cases taken : step state action with
          | none => trivial
          | some next => exact ih ((meets_cons taken).mp meets).2 count

theorem meets_of_forall_mem {actions : List Action}
    (all : ∀ action ∈ actions, ∀ state, condition state action) (state : State) :
    Meets step condition state actions := by
  induction actions generalizing state with
  | nil => trivial
  | cons action rest ih =>
      refine ⟨all action (by simp) state, ?_⟩
      cases step state action with
      | none => trivial
      | some next => exact ih (fun later member => all later (by simp [member])) next

theorem Meets.imp {weaker : State → Action → Prop} {actions : List Action} {state : State}
    (meets : Meets step condition state actions)
    (implies : ∀ state action, condition state action → weaker state action) :
    Meets step weaker state actions := by
  induction actions generalizing state with
  | nil => trivial
  | cons action rest ih =>
      obtain ⟨met, later⟩ := meets
      refine ⟨implies state action met, ?_⟩
      cases taken : step state action with
      | none => trivial
      | some next =>
          rw [taken] at later
          exact ih later

theorem meets_always (state : State) (actions : List Action) :
    Meets step Always state actions :=
  meets_of_forall_mem (fun _ _ _ => trivial) state

/-- What every action that meets the condition preserves holds after every run
whose actions all meet it. -/
theorem invariant_of_meets {holds : State → Prop}
    (preserved : ∀ state action next, holds state → condition state action →
      step state action = some next → holds next)
    {state final : State} {actions : List Action} (first : holds state)
    (meets : Meets step condition state actions)
    (replayed : run step state actions = some final) : holds final := by
  induction actions generalizing state with
  | nil =>
      cases replayed
      exact first
  | cons action rest ih =>
      obtain ⟨next, taken, remaining⟩ := run_cons_eq_some.mp replayed
      obtain ⟨met, rest⟩ := (meets_cons taken).mp meets
      exact ih (preserved state action next first met taken) rest remaining

theorem invariant_of_run {holds : State → Prop}
    (preserved : ∀ state action next, holds state → step state action = some next → holds next)
    {state final : State} {actions : List Action} (first : holds state)
    (replayed : run step state actions = some final) : holds final := by
  have meets : Meets step Always state actions := meets_always state actions
  refine invariant_of_meets ?_ first meets replayed
  intro state action next held _ taken
  exact preserved state action next held taken

section Reaching

variable {state middle next final : State} {action : Action}

/-- A run whose actions all meet the condition leads from one state to the other. -/
def Reaches (step : State → Action → Option State) (condition : State → Action → Prop)
    (state final : State) : Prop :=
  ∃ actions, run step state actions = some final ∧ Meets step condition state actions

theorem Reaches.refl (state : State) : Reaches step condition state state := ⟨[], rfl, trivial⟩

theorem Reaches.trans (first : Reaches step condition state middle)
    (second : Reaches step condition middle final) : Reaches step condition state final := by
  obtain ⟨front, replayed, meets⟩ := first
  obtain ⟨back, remaining, later⟩ := second
  exact ⟨front ++ back, run_append_eq_some.mpr ⟨middle, replayed, remaining⟩,
    (meets_append replayed).mpr ⟨meets, later⟩⟩

theorem Reaches.single (met : condition state action) (taken : step state action = some next) :
    Reaches step condition state next :=
  ⟨[action], run_singleton taken, meets_singleton.mpr met⟩

/-- Where a state that is not at the goal leads on to one of lower rank, the goal is
reached. -/
theorem reaches_of_rank {holds : State → Nat → Prop} {goal : State → Prop}
    (descends : ∀ state rank, holds state rank → goal state ∨
      ∃ next lower, Reaches step condition state next ∧ holds next lower ∧ lower < rank)
    {rank : Nat} (held : holds state rank) :
    ∃ final, Reaches step condition state final ∧ goal final := by
  induction rank using Nat.strongRecOn generalizing state with
  | ind rank ih =>
      rcases descends state rank held with arrived | ⟨next, lower, reaches, kept, less⟩
      · exact ⟨state, Reaches.refl state, arrived⟩
      · obtain ⟨final, onwards, arrived⟩ := ih lower less kept
        exact ⟨final, reaches.trans onwards, arrived⟩

end Reaching

section Simulation

variable {Spec Label : Type*} {spec : Spec → Label → Option Spec}
  {specCondition : Spec → Label → Prop} {Related : State → Spec → Prop}

/-- Each action of the first system, taken under its condition, is matched by a
run of the second one whose actions meet the second condition. The matching run
may be empty: then the action is invisible there. -/
def Simulates (step : State → Action → Option State) (condition : State → Action → Prop)
    (spec : Spec → Label → Option Spec) (specCondition : Spec → Label → Prop)
    (Related : State → Spec → Prop) : Prop :=
  ∀ state image action next, Related state image → condition state action →
    step state action = some next →
    ∃ labels after, run spec image labels = some after ∧
      Meets spec specCondition image labels ∧ Related next after

theorem Simulates.run (simulates : Simulates step condition spec specCondition Related)
    {state final : State} {image : Spec} {actions : List Action}
    (related : Related state image) (meets : Meets step condition state actions)
    (replayed : Runs.run step state actions = some final) :
    ∃ labels after, Runs.run spec image labels = some after ∧
      Meets spec specCondition image labels ∧ Related final after := by
  induction actions generalizing state image with
  | nil =>
      cases replayed
      exact ⟨[], image, rfl, trivial, related⟩
  | cons action rest ih =>
      obtain ⟨next, taken, remaining⟩ := run_cons_eq_some.mp replayed
      obtain ⟨met, later⟩ := (meets_cons taken).mp meets
      obtain ⟨front, middle, frontRun, frontMeets, relatedMiddle⟩ :=
        simulates state image action next related met taken
      obtain ⟨back, after, backRun, backMeets, relatedAfter⟩ :=
        ih relatedMiddle later remaining
      exact ⟨front ++ back, after, run_append_eq_some.mpr ⟨middle, frontRun, backRun⟩,
        (meets_append frontRun).mpr ⟨frontMeets, backMeets⟩, relatedAfter⟩

end Simulation

end Runs

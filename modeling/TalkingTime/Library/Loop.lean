import Mathlib.Data.Nat.Basic

/-! While loops whose body may fault, and their total correctness rule. -/

namespace Loop

variable {State : Type*} {test : State → Bool} {body : State → Option State}

/-- Runs a while loop for at most `fuel` tests of its condition. The result is
`none` when the body faults or the fuel runs out before the test fails. -/
def whileLoop (test : State → Bool) (body : State → Option State) :
    Nat → State → Option State
  | 0, _ => none
  | fuel + 1, state =>
      if test state = true then
        match body state with
        | some next => whileLoop test body fuel next
        | none => none
      else some state

theorem whileLoop_of_false (fuel : Nat) {state : State} (stops : test state = false) :
    whileLoop test body (fuel + 1) state = some state := by
  simp [whileLoop, stops]

theorem whileLoop_of_true (fuel : Nat) {state next : State} (goes : test state = true)
    (taken : body state = some next) :
    whileLoop test body (fuel + 1) state = whileLoop test body fuel next := by
  simp [whileLoop, goes, taken]

theorem whileLoop_total {invariant : State → Prop} (variant : State → Nat)
    (iteration : ∀ state, invariant state → test state = true →
      ∃ next, body state = some next ∧ invariant next ∧ variant next < variant state) :
    ∀ (fuel : Nat) (state : State), invariant state → variant state < fuel →
      ∃ final, whileLoop test body fuel state = some final ∧
        invariant final ∧ test final = false := by
  intro fuel
  induction fuel with
  | zero =>
      intro state _ enough
      exact absurd enough (Nat.not_lt_zero _)
  | succ fuel ih =>
      intro state held enough
      cases tested : test state with
      | false => exact ⟨state, whileLoop_of_false fuel tested, held, tested⟩
      | true =>
          obtain ⟨next, taken, kept, lower⟩ := iteration state held tested
          rw [whileLoop_of_true fuel tested taken]
          apply ih next kept
          omega

end Loop

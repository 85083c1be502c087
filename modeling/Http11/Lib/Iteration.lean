import Mathlib.Order.Basic

/-! Loops that return: a body, a size every pass decreases, and the equation of one pass. -/

/-- A loop given by its body, which either passes a state on or returns a result. -/
structure Iteration (State Result : Type) where
  /-- One pass over the body. -/
  body : State → State ⊕ Result
  /-- What is left to do before the loop has to return. -/
  size : State → Nat
  /-- Every pass that does not return leaves less to do. -/
  decreases : ∀ {state next}, body state = .inl next → size next < size state

namespace Iteration

variable {State Result : Type}

/-- The body run at most a given number of times. -/
def runFor (body : State → State ⊕ Result) : Nat → State → Option Result
  | 0, _ => none
  | fuel + 1, state =>
    -- A pass either hands its state to the next one or ends the loop.
    match body state with
    | .inl next => runFor body fuel next
    | .inr result => some result

/-- More passes than the size of the state are enough to return. -/
theorem runFor_isSome (loop : Iteration State Result) (fuel : Nat) (state : State)
    (enough : loop.size state < fuel) : (runFor loop.body fuel state).isSome := by
  -- Each pass that goes on has a smaller state and one pass less to spend.
  induction fuel generalizing state with
  | zero => omega
  | succ fuel ih =>
    simp only [runFor]
    cases pass : loop.body state with
    | inl next =>
      have smaller := loop.decreases pass
      exact ih next (by omega)
    | inr result => rfl

/-- The result of the loop, which always exists. -/
def run (loop : Iteration State Result) (state : State) : Result :=
  (runFor loop.body (loop.size state + 1) state).get
    (loop.runFor_isSome _ state (Nat.lt_succ_self _))

/-- Any number of passes above the size gives the same result. -/
theorem runFor_eq_run (loop : Iteration State Result) (fuel : Nat) (state : State)
    (enough : loop.size state < fuel) : runFor loop.body fuel state = some (loop.run state) := by
  -- Two runs that both have passes to spare take the same passes.
  have agree : ∀ left right, ∀ state, loop.size state < left → loop.size state < right →
      runFor loop.body left state = runFor loop.body right state := by
    intro left
    induction left with
    | zero => intro _ _ none; omega
    | succ left ih =>
      intro right state leftEnough rightEnough
      cases right with
      | zero => omega
      | succ right =>
        simp only [runFor]
        cases pass : loop.body state with
        | inl next =>
          have smaller := loop.decreases pass
          exact ih right next (by omega) (by omega)
        | inr result => rfl
  rw [agree fuel (loop.size state + 1) state enough (Nat.lt_succ_self _)]
  simp [run]

/-- One pass of the loop: either it returned, or the rest of the loop answers. -/
theorem run_eq (loop : Iteration State Result) (state : State) :
    loop.run state = match loop.body state with
      | .inl next => loop.run next
      | .inr result => result := by
  -- The passes reserved for a state are enough for the state after one of them.
  have started := loop.runFor_eq_run (loop.size state + 1) state (Nat.lt_succ_self _)
  simp only [runFor] at started
  cases pass : loop.body state with
  | inl next =>
    have smaller := loop.decreases pass
    rw [pass] at started
    simp only [loop.runFor_eq_run (loop.size state) next smaller, Option.some.injEq] at started
    exact started.symm
  | inr result =>
    rw [pass] at started
    simpa using started.symm

/-- A pass that returns ends the loop with its result. -/
theorem run_of_return (loop : Iteration State Result) {state : State} {result : Result}
    (pass : loop.body state = .inr result) : loop.run state = result := by
  rw [run_eq, pass]

/-- A pass that goes on leaves the result to the state it passes on. -/
theorem run_of_continue (loop : Iteration State Result) {state next : State}
    (pass : loop.body state = .inl next) : loop.run state = loop.run next := by
  rw [run_eq, pass]

/-- States with the same pass have the same result. -/
theorem run_congr (loop : Iteration State Result) {state other : State}
    (same : loop.body state = loop.body other) : loop.run state = loop.run other := by
  rw [run_eq, run_eq, same]

/-- Steps that each leave less to do are no more than what is left to do before the first one. -/
theorem passes_le {size : State → Nat} {goesOn : State → State → Prop}
    (shortens : ∀ {state next}, goesOn state next → size next < size state)
    (states : Nat → State) (passes : Nat)
    (goes : ∀ pass < passes, goesOn (states pass) (states (pass + 1))) :
    passes + size (states passes) ≤ size (states 0) := by
  induction passes with
  | zero => exact Nat.le_of_eq (Nat.zero_add _)
  | succ passes ih =>
    -- Each pass counts one and leaves at least one less to do.
    have before := ih fun pass earlier => goes pass (by omega)
    have last := shortens (goes passes (by omega))
    omega

/-- What every returning pass establishes, and every other pass preserves backwards, holds. -/
theorem run_rule (loop : Iteration State Result) {motive : State → Result → Prop}
    (returns : ∀ state result, loop.body state = .inr result → motive state result)
    (goesOn : ∀ state next result, loop.body state = .inl next → motive next result →
      motive state result)
    (state : State) : motive state (loop.run state) := by
  -- The induction is on what is left to do, which one pass decreases.
  generalize left : loop.size state = size
  induction size using Nat.strongRecOn generalizing state with
  | ind size ih =>
    cases pass : loop.body state with
    | inl next =>
      have smaller := loop.decreases pass
      rw [loop.run_of_continue pass]
      exact goesOn state next _ pass (ih (loop.size next) (by omega) next rfl)
    | inr result =>
      rw [loop.run_of_return pass]
      exact returns state result pass

end Iteration

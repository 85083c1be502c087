import Mathlib.Logic.Relation

/-! Machines fed their input piece by piece: cutting the input differently changes nothing. -/

/--
A deterministic machine with a buffer that can be extended at any time.

A step never depends on input that has not arrived: one that was possible stays possible,
with the same effect, when more input follows.
-/
structure Incremental (State Symbol : Type) where
  /-- The next step, or none while the machine waits for input or has stopped. -/
  step : State → Option State
  /-- More input at the end of the buffer. -/
  feed : State → List Symbol → State
  /-- No input changes nothing. -/
  feed_nil : ∀ state, feed state [] = state
  /-- Two pieces of input are one longer piece. -/
  feed_feed : ∀ state front back, feed (feed state front) back = feed state (front ++ back)
  /-- A step is the same with more input behind it. -/
  step_feed : ∀ {state next}, step state = some next → ∀ input,
    step (feed state input) = some (feed next input)

namespace Incremental

variable {State Symbol Driver : Type} (machine : Incremental State Symbol)

/-- Any number of steps. -/
def Reaches : State → State → Prop :=
  Relation.ReflTransGen fun state next => machine.step state = some next

/-- No step is possible. -/
def Settled (state : State) : Prop := machine.step state = none

variable {machine} {start middle stop other : State}

/-- A state reaches itself. -/
theorem Reaches.refl : machine.Reaches start start := Relation.ReflTransGen.refl

/-- Reaching a state in two parts. -/
theorem Reaches.trans (first : machine.Reaches start middle) (rest : machine.Reaches middle stop) :
    machine.Reaches start stop := Relation.ReflTransGen.trans first rest

/-- One step reaches the state after it. -/
theorem Reaches.single (step : machine.step start = some stop) : machine.Reaches start stop :=
  Relation.ReflTransGen.single step

/-- A step and then more. -/
theorem Reaches.head (step : machine.step start = some middle)
    (rest : machine.Reaches middle stop) : machine.Reaches start stop :=
  Relation.ReflTransGen.head step rest

/-- What every step preserves holds wherever the machine gets. -/
theorem Reaches.preserves {motive : State → Prop} (reached : machine.Reaches start stop)
    (preserved : ∀ state next, motive state → machine.step state = some next → motive next)
    (initial : motive start) : motive stop := by
  -- The last step of the run preserves what the steps before it did.
  induction reached with
  | refl => exact initial
  | tail _ last ih => exact preserved _ _ ih last

/-- Steps taken before some input arrived are the steps taken with it already there. -/
theorem Reaches.feed (reached : machine.Reaches start stop) (input : List Symbol) :
    machine.Reaches (machine.feed start input) (machine.feed stop input) := by
  induction reached with
  | refl => exact Reaches.refl
  | tail _ last ih => exact ih.trans (Reaches.single (machine.step_feed last input))

/-- A settled state reaches only itself. -/
theorem Reaches.of_settled (settled : machine.Settled start)
    (reached : machine.Reaches start stop) : stop = start := by
  -- The first step of any longer run would contradict that none is possible.
  rcases Relation.ReflTransGen.cases_head reached with same | ⟨next, first, _⟩
  · exact same.symm
  · rw [Settled] at settled
    rw [settled] at first
    cases first

/-- Since steps are determined, whatever is reached is the start or lies behind the first step. -/
theorem Reaches.cases_step (reached : machine.Reaches start stop)
    (step : machine.step start = some middle) : stop = start ∨ machine.Reaches middle stop := by
  rcases Relation.ReflTransGen.cases_head reached with same | ⟨next, first, rest⟩
  · exact .inl same.symm
  · rw [step] at first
    cases first
    exact .inr rest

/-- Since steps are determined, a run that settles passes through every reachable state. -/
theorem Reaches.onward (reached : machine.Reaches start middle)
    (ended : machine.Reaches start stop) (settled : machine.Settled stop) :
    machine.Reaches middle stop := by
  induction reached using Relation.ReflTransGen.head_induction_on with
  | refl => exact ended
  | head first _ ih =>
    -- The run ends here, or it takes the only step that there is.
    rcases Relation.ReflTransGen.cases_head ended with same | ⟨next, taken, rest⟩
    · subst same
      rw [Settled] at settled
      rw [settled] at first
      cases first
    · rw [first] at taken
      cases taken
      exact ih rest

/-- The states that are passed through, up to a number of steps. -/
def states (machine : Incremental State Symbol) : Nat → State → List State
  | 0, state => [state]
  | steps + 1, state =>
    state :: match machine.step state with
      | none => []
      | some next => machine.states steps next

/-- Where fewer states are passed through than was allowed, they are all that is reached. -/
theorem Reaches.mem_states {steps : Nat} (few : (machine.states steps start).length ≤ steps)
    (reached : machine.Reaches start stop) : stop ∈ machine.states steps start := by
  -- Each state that is passed through has one step less to spend.
  induction steps generalizing start with
  | zero => simp [states] at few
  | succ steps ih =>
    cases stepped : machine.step start with
    | none => simp [states, Reaches.of_settled stepped reached]
    | some next =>
      simp only [states, stepped, List.length_cons, Nat.add_le_add_iff_right] at few ⊢
      rcases reached.cases_step stepped with same | later
      · exact List.mem_cons.mpr (.inl same)
      · exact List.mem_cons_of_mem _ (ih few later)

/-- A run settles in one state only. -/
theorem Reaches.settled_unique (left : machine.Reaches start stop)
    (leftSettled : machine.Settled stop) (right : machine.Reaches start other)
    (rightSettled : machine.Settled other) : stop = other := by
  have onward := left.onward right rightSettled
  exact (Reaches.of_settled leftSettled onward).symm

/--
A driver that follows the machine from fragment to fragment ends where the whole input leads.

The driver hands each fragment on and then pumps until the machine waits.
-/
theorem fragments_follow (machine : Incremental State Symbol) {follows : Driver → State → Prop}
    {give : Driver → List Symbol → Driver} {pump : Driver → Driver}
    (gives : ∀ driver state input, follows driver state →
      follows (give driver input) (machine.feed state input))
    (pumps : ∀ driver state, follows driver state →
      ∃ next, follows (pump driver) next ∧ machine.Reaches state next ∧ machine.Settled next)
    (fragments : List (List Symbol)) (driver : Driver) (state : State)
    (follow : follows driver state) (settled : machine.Settled state) :
    ∃ next, follows (fragments.foldl (fun at_ input => pump (give at_ input)) driver) next ∧
      machine.Reaches (machine.feed state fragments.flatten) next ∧ machine.Settled next := by
  -- Every fragment extends the run of the fragments before it.
  induction fragments generalizing driver state with
  | nil => exact ⟨state, follow, by simpa [machine.feed_nil] using Reaches.refl, settled⟩
  | cons input rest ih =>
    obtain ⟨next, followNext, reached, settledNext⟩ :=
      pumps _ _ (gives driver state input follow)
    obtain ⟨last, followLast, reachedLast, settledLast⟩ :=
      ih (pump (give driver input)) next followNext settledNext
    refine ⟨last, followLast, ?_, settledLast⟩
    have earlier := reached.feed rest.flatten
    rw [machine.feed_feed] at earlier
    simpa using earlier.trans reachedLast

/--
A driver that may refuse input follows the machine as long as it refuses none.

Once it has refused a fragment it stays so, which is why nothing has to be said about it then.
-/
theorem fragments_follow_unrefused (machine : Incremental State Symbol)
    (follows : Driver → State → Prop) (refused : Driver → Prop)
    (give : Driver → List Symbol → Driver) (pump : Driver → Driver)
    (keeps : ∀ driver input, refused driver → refused (pump (give driver input)))
    (gives : ∀ driver state input, follows driver state →
      ¬ refused (pump (give driver input)) → follows (give driver input) (machine.feed state input))
    (pumps : ∀ driver state, follows driver state →
      ∃ next, follows (pump driver) next ∧ machine.Reaches state next ∧ machine.Settled next)
    (fragments : List (List Symbol)) (driver : Driver) (state : State)
    (follow : follows driver state) (settled : machine.Settled state)
    (accepted : ¬ refused (fragments.foldl (fun at_ input => pump (give at_ input)) driver)) :
    ∃ next, follows (fragments.foldl (fun at_ input => pump (give at_ input)) driver) next ∧
      machine.Reaches (machine.feed state fragments.flatten) next ∧ machine.Settled next := by
  -- A refusal on the way would still stand at the end.
  have lasts : ∀ (rest : List (List Symbol)) (driver : Driver), refused driver →
      refused (rest.foldl (fun at_ input => pump (give at_ input)) driver) := by
    intro rest
    induction rest with
    | nil => exact fun _ broken => broken
    | cons input rest ih => exact fun driver broken => ih _ (keeps driver input broken)
  -- Every fragment extends the run of the fragments before it.
  induction fragments generalizing driver state with
  | nil => exact ⟨state, follow, by simpa [machine.feed_nil] using Reaches.refl, settled⟩
  | cons input rest ih =>
    have unbroken : ¬ refused (pump (give driver input)) :=
      fun broken => accepted (lasts rest _ broken)
    obtain ⟨next, followNext, reached, settledNext⟩ :=
      pumps _ _ (gives driver state input follow unbroken)
    obtain ⟨last, followLast, reachedLast, settledLast⟩ :=
      ih (pump (give driver input)) next followNext settledNext accepted
    refine ⟨last, followLast, ?_, settledLast⟩
    have earlier := reached.feed rest.flatten
    rw [machine.feed_feed] at earlier
    simpa using earlier.trans reachedLast

end Incremental

import Http11.Lib.Incremental

/-! Machines driven by events, and machines that see a window of their input only. -/

namespace Incremental

variable {State Symbol : Type} {machine : Incremental State Symbol} {start left right : State}

/-- Since steps are determined, of two states that are reached one lies behind the other. -/
theorem Reaches.comparable (first : machine.Reaches start left)
    (second : machine.Reaches start right) :
    machine.Reaches left right ∨ machine.Reaches right left := by
  -- The induction is on the second run; its last step decides only where the two had met.
  induction second with
  | refl => exact .inr first
  | tail _ last ih =>
    rcases ih with behind | ahead
    · exact .inl (behind.trans (.single last))
    · rcases ahead.cases_step last with same | onward
      · exact .inl (same ▸ .single last)
      · exact .inr onward

/--
A driver that follows the machine from event to event ends where all the input leads.

An event may bring input, let the machine go on for a while, or do neither.
-/
theorem events_follow {Driver Event : Type} {follows : Driver → State → Prop}
    {happen : Driver → Event → Driver} {input : Event → List Symbol}
    (keeps : ∀ driver state event, follows driver state → ∃ next,
      follows (happen driver event) next ∧ machine.Reaches (machine.feed state (input event)) next)
    (events : List Event) (driver : Driver) (state : State) (follow : follows driver state) :
    ∃ next, follows (events.foldl happen driver) next ∧
      machine.Reaches (machine.feed state (events.flatMap input)) next := by
  -- Every event extends the run of the events before it.
  induction events generalizing driver state with
  | nil => exact ⟨state, follow, by simpa [machine.feed_nil] using Reaches.refl⟩
  | cons event rest ih =>
    obtain ⟨next, followNext, reached⟩ := keeps driver state event follow
    obtain ⟨last, followLast, onward⟩ := ih (happen driver event) next followNext
    have earlier := reached.feed (rest.flatMap input)
    rw [machine.feed_feed] at earlier
    exact ⟨last, followLast, by simpa using earlier.trans onward⟩

/-- A window on the input of a machine, whose first part is all that a step may look at. -/
structure Window (machine : Incremental State Symbol) where
  /-- The state with the input in the window only. -/
  front : State → State
  /-- The input behind the window. -/
  behind : State → List Symbol
  /-- The two make up the state. -/
  whole : ∀ state, machine.feed (front state) (behind state) = state
  /-- Input that arrives comes into sight first and stays behind the window after that. -/
  arrives : ∀ state input, ∃ shown, front (machine.feed state input) =
    machine.feed (front state) shown ∧ shown ++ behind (machine.feed state input) =
      behind state ++ input

namespace Window

variable (window : Window machine)

/-- The machine that takes the steps which its window allows. -/
def narrowed : Incremental State Symbol where
  step := fun state => (machine.step (window.front state)).map fun next =>
    machine.feed next (window.behind state)
  feed := machine.feed
  feed_nil := machine.feed_nil
  feed_feed := machine.feed_feed
  step_feed := by
    intro state next stepped input
    -- What was in the window stays there, so the step is the one taken before.
    simp only [Option.map_eq_some_iff] at stepped ⊢
    obtain ⟨middle, inside, rfl⟩ := stepped
    obtain ⟨shown, front, whole⟩ := window.arrives state input
    refine ⟨machine.feed middle shown, ?_, ?_⟩
    · rw [front]
      exact machine.step_feed inside shown
    · rw [machine.feed_feed, machine.feed_feed, whole]

variable {window}

/-- A step within the window is a step. -/
theorem step_whole {state next : State} (stepped : window.narrowed.step state = some next) :
    machine.step state = some next := by
  -- The input behind the window changes no step.
  simp only [narrowed, Option.map_eq_some_iff] at stepped
  obtain ⟨middle, inside, rfl⟩ := stepped
  have fed := machine.step_feed inside (window.behind state)
  rwa [window.whole] at fed

/-- A run within the window is a run. -/
theorem reaches_whole (reached : window.narrowed.Reaches left right) :
    machine.Reaches left right := by
  induction reached with
  | refl => exact .refl
  | tail _ last ih => exact ih.trans (.single (step_whole last))

/-- While nothing is behind the window, the machine takes its own steps. -/
theorem step_shown {state : State} (shown : window.behind state = []) :
    window.narrowed.step state = machine.step state := by
  have whole := window.whole state
  rw [shown, machine.feed_nil] at whole
  simp [narrowed, shown, whole, machine.feed_nil]

/-- A run on which nothing is behind the window is a run within it. -/
theorem reaches_shown (reached : machine.Reaches left right) (shown : window.behind left = [])
    (stays : ∀ state next, machine.step state = some next → window.behind state = [] →
      window.behind next = []) :
    window.narrowed.Reaches left right ∧ window.behind right = [] := by
  -- Each step is one within the window, and leaves nothing behind it.
  induction reached with
  | refl => exact ⟨.refl, shown⟩
  | tail _ last ih =>
    obtain ⟨before, clear⟩ := ih
    refine ⟨before.trans (.single ?_), stays _ _ last clear⟩
    rw [step_shown clear]
    exact last

/-- Where the front of a state waits, the state waits. -/
theorem settled_of_front {state : State} (settled : machine.Settled (window.front state)) :
    window.narrowed.Settled state := by
  rw [Settled] at settled
  simp [Settled, narrowed, settled]

end Window

end Incremental

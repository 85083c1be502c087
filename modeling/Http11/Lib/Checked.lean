/-! Computations that may fail: what a success says about its parts. -/

namespace Checked

variable {Failure Value Result State Item : Type}

/-- Failure under a condition. -/
def reject (condition : Bool) (failure : Failure) : Except Failure Unit :=
  if condition then .error failure else .ok ()

/-- A step that is only taken under a condition. -/
def onlyIf (condition : Bool) (step : Except Failure Unit) : Except Failure Unit :=
  if condition then step else .ok ()

/-- A sequence succeeds when both its parts do. -/
theorem bind_ok {first : Except Failure Value} {next : Value → Except Failure Result}
    {result : Result} :
    (first >>= next) = .ok result ↔ ∃ value, first = .ok value ∧ next value = .ok result := by
  cases first with
  | error failure => simp [Bind.bind, Except.bind]
  | ok value => simp [Bind.bind, Except.bind]

/-- A check and what follows it succeed when both do. -/
theorem seq_ok {first : Except Failure Unit} {next : Unit → Except Failure Result}
    {result : Result} :
    (first >>= next) = .ok result ↔ first = .ok () ∧ next () = .ok result := by
  cases first with
  | error failure => simp [Bind.bind, Except.bind]
  | ok value => simp [Bind.bind, Except.bind]

/-- A mapped computation succeeds when the computation does. -/
theorem map_ok {first : Except Failure Value} {change : Value → Result} {result : Result} :
    first.map change = .ok result ↔ ∃ value, first = .ok value ∧ change value = result := by
  cases first with
  | error failure => simp [Except.map]
  | ok value => simp [Except.map]

/-- A rejection succeeds when its condition does not hold. -/
theorem reject_ok {condition : Bool} {failure : Failure} {done : Unit} :
    reject condition failure = .ok done ↔ condition = false := by
  cases condition with
  | true => simp [reject]
  | false => simp [reject]

/-- A conditional step succeeds when it does or is not taken. -/
theorem onlyIf_ok {condition : Bool} {step : Except Failure Unit} {done : Unit} :
    onlyIf condition step = .ok done ↔ (condition = true → step = .ok ()) := by
  cases condition with
  | true => simp [onlyIf]
  | false => simp [onlyIf]

/-- A property that every step of a checked fold keeps holds of its result. -/
theorem foldlM_keeps {motive : State → Prop} {step : State → Item → Except Failure State}
    (items : List Item) {start result : State}
    (keeps : ∀ state next item, motive state → step state item = .ok next → motive next)
    (initial : motive start) (folded : items.foldlM step start = .ok result) : motive result := by
  -- The items are taken one by one, and the state before each has the property.
  induction items generalizing start with
  | nil =>
    cases folded
    exact initial
  | cons item items ih =>
    rw [List.foldlM_cons, bind_ok] at folded
    obtain ⟨next, stepped, rest⟩ := folded
    exact ih (keeps _ _ _ initial stepped) rest

/-- What any first step establishes and every step keeps holds of a fold that took a step. -/
theorem foldlM_establishes {motive : State → Prop} {step : State → Item → Except Failure State}
    {items : List Item} {start result : State} (present : items ≠ [])
    (first : ∀ next item, step start item = .ok next → motive next)
    (keeps : ∀ state next item, motive state → step state item = .ok next → motive next)
    (folded : items.foldlM step start = .ok result) : motive result := by
  -- The first step establishes the property, and all others are steps of a fold that keeps it.
  cases items with
  | nil => exact absurd rfl present
  | cons item items =>
    rw [List.foldlM_cons, bind_ok] at folded
    obtain ⟨next, stepped, rest⟩ := folded
    exact foldlM_keeps items keeps (first _ _ stepped) rest

/-- A fold whose steps have to agree on a value has the value that all items read as. -/
theorem foldlM_agree {step : Option Value → Item → Except Failure (Option Value)}
    {read : Item → Option Value}
    (agrees : ∀ state item next, step state item = .ok next ↔
      ∃ value, read item = some value ∧ (state = none ∨ state = some value) ∧ next = some value)
    (items : List Item) (start result : Option Value) :
    items.foldlM step start = .ok result ↔ (items = [] ∧ result = start) ∨
      (items ≠ [] ∧ ∃ value, result = some value ∧ (start = none ∨ start = some value) ∧
        ∀ item ∈ items, read item = some value) := by
  induction items generalizing start with
  | nil => simp [pure, Except.pure, eq_comm]
  | cons item items ih =>
    simp only [List.foldlM_cons, bind_ok, agrees, ih, List.forall_mem_cons]
    -- The first item sets the value when there is none yet, and all others have to repeat it.
    constructor
    · rintro ⟨_, ⟨value, first, before, rfl⟩, ⟨rfl, rfl⟩ | ⟨_, other, rfl, same, rest⟩⟩
      · exact .inr ⟨by simp, value, rfl, before, first, by simp⟩
      · obtain rfl : value = other := by simpa using same
        exact .inr ⟨by simp, value, rfl, before, first, rest⟩
    · rintro (⟨none, _⟩ | ⟨_, value, rfl, before, first, rest⟩)
      · cases none
      · refine ⟨some value, ⟨value, first, before, rfl⟩, ?_⟩
        -- Behind the first item the value is there already.
        cases items with
        | nil => exact .inl ⟨rfl, rfl⟩
        | cons => exact .inr ⟨by simp, value, rfl, .inr rfl, rest⟩

end Checked

import Mathlib.Data.List.Basic

/-! Cutting lists at the delimiters that a scanner meets in its first state. -/

/-- A scanner that goes from state to state, and the items it may cut at. -/
structure Cutting (State Item : Type) where
  /-- The first state, in which alone the scanner cuts. -/
  start : State
  /-- The state behind an item. -/
  step : State → Item → State
  /-- An item to cut at. -/
  isDelimiter : Item → Bool

namespace Cutting

variable {State Item : Type} [DecidableEq State] (cutting : Cutting State Item)

/-- Whether an item is a cut where the scanner stands. -/
def cuts (state : State) (item : Item) : Bool :=
  decide (state = cutting.start) && cutting.isDelimiter item

/-- The state behind some items. -/
def run (state : State) (items : List Item) : State := items.foldl cutting.step state

/-- The parts between the cuts, from some state on. -/
def cutFrom : State → List Item → List (List Item)
  | _, [] => [[]]
  | state, item :: rest =>
    if cutting.cuts state item then [] :: cutFrom cutting.start rest
    else (cutFrom (cutting.step state item) rest).modifyHead (item :: ·)

/-- The parts between the cuts. -/
def cut (items : List Item) : List (List Item) := cutting.cutFrom cutting.start items

/-- Items without a cut among them. -/
def IsWhole : State → List Item → Prop
  | _, [] => True
  | state, item :: rest =>
    cutting.cuts state item = false ∧ IsWhole (cutting.step state item) rest

/-- Items without a cut behind which the scanner stands in its first state again. -/
def IsClosed (items : List Item) : Prop :=
  cutting.IsWhole cutting.start items ∧ cutting.run cutting.start items = cutting.start

/-- Parts that all are closed, but for the last one, which is whole. -/
inductive AreParts : List (List Item) → Prop where
  /-- The last part. -/
  | last {part : List Item} (whole : cutting.IsWhole cutting.start part) : AreParts [part]
  /-- A part in front of others. -/
  | more {part : List Item} {others : List (List Item)} (closed : cutting.IsClosed part)
    (parts : AreParts others) : AreParts (part :: others)

variable {cutting}

omit [DecidableEq State] in
/-- Items are run through one after the other. -/
theorem run_append (state : State) (front back : List Item) :
    cutting.run state (front ++ back) = cutting.run (cutting.run state front) back :=
  List.foldl_append

/-- Items are whole if their front is and what is behind it. -/
theorem isWhole_append {state : State} {front back : List Item} :
    cutting.IsWhole state (front ++ back) ↔
      cutting.IsWhole state front ∧ cutting.IsWhole (cutting.run state front) back := by
  induction front generalizing state with
  | nil => exact ⟨fun whole => ⟨trivial, whole⟩, And.right⟩
  | cons item front ih =>
    -- The first item is judged in the same state on both sides.
    rw [List.cons_append, IsWhole, IsWhole, ih, and_assoc]
    rfl

/-- Closed parts are closed one behind the other. -/
theorem IsClosed.append {front back : List Item} (first : cutting.IsClosed front)
    (second : cutting.IsClosed back) : cutting.IsClosed (front ++ back) := by
  refine ⟨?_, ?_⟩
  · rw [isWhole_append, first.2]
    exact ⟨first.1, second.1⟩
  · rw [run_append, first.2, second.2]

/-- Closed items are parts. -/
theorem areParts_of_closed {parts : List (List Item)} (present : parts ≠ [])
    (closed : ∀ part ∈ parts, cutting.IsClosed part) : cutting.AreParts parts := by
  induction parts with
  | nil => exact absurd rfl present
  | cons part others ih =>
    obtain ⟨here, behind⟩ := List.forall_mem_cons.mp closed
    -- Only the last part has no delimiter behind it.
    cases others with
    | nil => exact .last here.1
    | cons second others => exact .more here (ih (List.cons_ne_nil _ _) behind)

/-- Closed parts stand in front of others. -/
theorem areParts_append {front back : List (List Item)}
    (closed : ∀ part ∈ front, cutting.IsClosed part) (parts : cutting.AreParts back) :
    cutting.AreParts (front ++ back) := by
  induction front with
  | nil => exact parts
  | cons part others ih =>
    obtain ⟨here, behind⟩ := List.forall_mem_cons.mp closed
    exact .more here (ih behind)

/-- Whole items are one part. -/
theorem cutFrom_whole {state : State} {part : List Item} (whole : cutting.IsWhole state part) :
    cutting.cutFrom state part = [part] := by
  induction part generalizing state with
  | nil => rfl
  | cons item rest ih =>
    rw [cutFrom, if_neg (by simp [whole.1]), ih whole.2]
    rfl

/-- Whole items in front belong to the first part. -/
theorem cutFrom_append {state : State} {front : List Item} (whole : cutting.IsWhole state front)
    (back : List Item) : cutting.cutFrom state (front ++ back) =
      (cutting.cutFrom (cutting.run state front) back).modifyHead (front ++ ·) := by
  -- No item in front is a delimiter where it stands, so each joins the first part.
  induction front generalizing state with
  | nil =>
    cases parts : cutting.cutFrom (cutting.run state []) back <;> exact parts
  | cons item rest ih =>
    rw [List.cons_append, cutFrom, if_neg (by simp [whole.1]), ih whole.2, List.modifyHead_modifyHead]
    rfl

/-- A closed part ends at a delimiter behind it. -/
theorem cut_append {part : List Item} (closed : cutting.IsClosed part) {delimiter : Item}
    (delimits : cutting.isDelimiter delimiter = true) (rest : List Item) :
    cutting.cut (part ++ delimiter :: rest) = part :: cutting.cut rest := by
  rw [cut, cutFrom_append closed.1, closed.2, cutFrom, if_pos (by simp [cuts, delimits]),
    List.modifyHead_cons, List.append_nil]
  rfl

/-- Parts that a text was joined of are found again. -/
theorem AreParts.cut_intercalate {parts : List (List Item)} (are : cutting.AreParts parts)
    {delimiter : Item} (delimits : cutting.isDelimiter delimiter = true) :
    cutting.cut ([delimiter].intercalate parts) = parts := by
  induction are with
  | @last part whole =>
    rw [List.intercalate_singleton]
    exact cutFrom_whole whole
  | @more part others closed parts ih =>
    -- There is a part behind every part but the last.
    obtain ⟨second, rest, rfl⟩ : ∃ second rest, others = second :: rest := by
      cases parts with
      | last => exact ⟨_, _, rfl⟩
      | more => exact ⟨_, _, rfl⟩
    rw [List.intercalate_cons_cons, List.append_assoc, List.singleton_append,
      cut_append closed delimits, ih]

/-- Every part is whole. -/
theorem AreParts.whole {parts : List (List Item)} (are : cutting.AreParts parts) :
    ∀ part ∈ parts, cutting.IsWhole cutting.start part := by
  induction are with
  | last whole => simpa using whole
  | more closed parts ih => exact List.forall_mem_cons.mpr ⟨closed.1, ih⟩

/-- Parts without the last one are parts. -/
theorem AreParts.dropLast {parts : List (List Item)} (are : cutting.AreParts parts)
    (present : parts.dropLast ≠ []) : cutting.AreParts parts.dropLast := by
  induction are with
  | last => exact absurd rfl present
  | @more part others closed parts ih =>
    cases parts with
    | last => exact .last closed.1
    | more _ rest => exact .more closed (ih (by cases rest <;> exact List.cons_ne_nil _ _))

/-- What is left of the items if a first part is set apart, which started in some state. -/
def Fits (cutting : Cutting State Item) (state : State) (parts : List (List Item)) : Prop :=
  ∃ part others, parts = part :: others ∧ cutting.IsWhole state part ∧
    (others ≠ [] → cutting.run state part = cutting.start ∧ cutting.AreParts others)

/-- Cutting gives parts. -/
theorem cutFrom_fits (state : State) (items : List Item) :
    cutting.Fits state (cutting.cutFrom state items) := by
  induction items generalizing state with
  | nil => exact ⟨[], [], rfl, trivial, fun filled => absurd rfl filled⟩
  | cons item rest ih =>
    rw [cutFrom]
    by_cases here : cutting.cuts state item = true
    · -- A cut: the part before it is empty, and the rest starts anew.
      rw [if_pos here]
      obtain ⟨part, others, same, whole, behind⟩ := ih cutting.start
      have at_start : state = cutting.start := by
        rw [cuts, Bool.and_eq_true] at here
        exact of_decide_eq_true here.1
      refine ⟨[], _, rfl, trivial, fun _ => ⟨at_start, ?_⟩⟩
      rw [same]
      cases others with
      | nil => exact .last whole
      | cons second others =>
        obtain ⟨run, parts⟩ := behind (List.cons_ne_nil _ _)
        exact .more ⟨whole, run⟩ parts
    · rw [if_neg here]
      obtain ⟨part, others, same, whole, behind⟩ := ih (cutting.step state item)
      rw [same]
      exact ⟨item :: part, others, rfl, ⟨by simpa using here, whole⟩, behind⟩

/-- What a text is cut into are parts. -/
theorem cut_areParts (items : List Item) : cutting.AreParts (cutting.cut items) := by
  have fits : cutting.Fits cutting.start _ := cutFrom_fits cutting.start items
  obtain ⟨part, others, same, whole, behind⟩ := fits
  rw [cut, same]
  -- The part before a delimiter has closed there, and the last one ends with the items.
  cases others with
  | nil => exact .last whole
  | cons second others =>
    obtain ⟨run, parts⟩ := behind (List.cons_ne_nil _ _)
    exact .more ⟨whole, run⟩ parts

/-- The last part leaves the scanner in the state in which all items leave it. -/
theorem cutFrom_ends
    (still : ∀ item, cutting.isDelimiter item = true → cutting.step cutting.start item = cutting.start)
    (state : State) (items : List Item) : ∃ front last, cutting.cutFrom state items = front ++ [last] ∧
      cutting.run (if front = [] then state else cutting.start) last = cutting.run state items := by
  induction items generalizing state with
  | nil => exact ⟨[], [], rfl, rfl⟩
  | cons item rest ih =>
    rw [cutFrom]
    by_cases here : cutting.cuts state item = true
    · -- The scanner stays in its first state at a cut.
      rw [if_pos here]
      rw [cuts, Bool.and_eq_true, decide_eq_true_eq] at here
      obtain ⟨front, last, same, run⟩ := ih cutting.start
      refine ⟨[] :: front, last, by rw [same, List.cons_append], ?_⟩
      rw [if_neg (List.cons_ne_nil _ _), Cutting.run, Cutting.run, List.foldl_cons, here.1,
        still item here.2]
      rw [ite_self] at run
      exact run
    · rw [if_neg here]
      obtain ⟨front, last, same, run⟩ := ih (cutting.step state item)
      rw [same]
      cases front with
      | nil => exact ⟨[], item :: last, rfl, run⟩
      | cons first others => exact ⟨(item :: first) :: others, last, rfl, run⟩

/-- Items are cut into closed parts and a last one that leaves the scanner as all items do. -/
theorem cut_ends
    (still : ∀ item, cutting.isDelimiter item = true → cutting.step cutting.start item = cutting.start)
    (items : List Item) : ∃ front last, cutting.cut items = front ++ [last] ∧
      (∀ part ∈ front, cutting.IsClosed part) ∧ cutting.IsWhole cutting.start last ∧
      cutting.run cutting.start last = cutting.run cutting.start items := by
  obtain ⟨front, last, same, run⟩ := cutFrom_ends still cutting.start items
  rw [ite_self] at run
  have parts : cutting.AreParts (cutting.cut items) := cut_areParts items
  rw [cut, same] at parts
  refine ⟨front, last, same, ?_, parts.whole last (by simp), run⟩
  -- All parts in front of another one are closed.
  clear same
  induction front with
  | nil => exact List.forall_mem_nil _
  | cons first others ih =>
    cases others with
    | nil =>
      cases parts with
      | more closed _ => exact List.forall_mem_singleton.mpr closed
    | cons second others =>
      cases parts with
      | more closed behind => exact List.forall_mem_cons.mpr ⟨closed, ih behind⟩

/-- The parts of what another scanner of the same states does not cut are not cut by it either. -/
theorem cut_whole (other : Cutting State Item)
    (still : ∀ item, cutting.isDelimiter item = true → cutting.step cutting.start item = cutting.start)
    (starts : other.start = cutting.start) (steps : other.step = cutting.step)
    {items : List Item} (whole : other.IsWhole other.start items) :
    ∀ part ∈ cutting.cut items, other.IsWhole other.start part := by
  -- The generalization is to every state, which only the first part is judged in.
  have general : ∀ state, other.IsWhole state items → ∃ first others,
      cutting.cutFrom state items = first :: others ∧ other.IsWhole state first ∧
      ∀ part ∈ others, other.IsWhole other.start part := by
    clear whole
    induction items with
    | nil => exact fun _ _ => ⟨[], [], rfl, trivial, List.forall_mem_nil _⟩
    | cons item rest ih =>
      intro state whole
      rw [cutFrom]
      by_cases here : cutting.cuts state item = true
      · rw [if_pos here]
        rw [cuts, Bool.and_eq_true, decide_eq_true_eq] at here
        have behind := whole.2
        rw [steps, here.1, still item here.2, ← starts] at behind
        obtain ⟨first, others, same, one, more⟩ := ih other.start behind
        rw [← starts, same]
        exact ⟨[], first :: others, rfl, trivial, List.forall_mem_cons.mpr ⟨one, more⟩⟩
      · rw [if_neg here]
        have behind := whole.2
        rw [steps] at behind
        obtain ⟨first, others, same, one, more⟩ := ih _ behind
        rw [same]
        refine ⟨item :: first, others, rfl, ⟨whole.1, ?_⟩, more⟩
        rw [steps]
        exact one
  obtain ⟨first, others, same, one, more⟩ := general other.start whole
  rw [cut, ← starts, same]
  exact List.forall_mem_cons.mpr ⟨one, more⟩

/-- The parts with an item in front of all but the first of them. -/
def padded (item : Item) : List (List Item) → List (List Item)
  | [] => []
  | first :: others => first :: others.map (item :: ·)

omit [DecidableEq State] in
/-- Joining with an item behind the delimiter is joining parts that are padded with it. -/
theorem intercalate_padded (delimiter item : Item) (parts : List (List Item)) :
    [delimiter, item].intercalate parts = [delimiter].intercalate (padded item parts) := by
  cases parts with
  | nil => rfl
  | cons first others =>
    induction others generalizing first with
    | nil => simp [padded]
    | cons second others ih =>
      rw [List.intercalate_cons_cons, ih second, padded, padded, List.map_cons,
        List.intercalate_cons_cons]
      -- The item in front of the second part belongs to the separator on the other side.
      cases others <;> simp [List.intercalate_cons_cons]

/-- Parts stay parts if they are padded with an item that the scanner passes over. -/
theorem AreParts.padded {parts : List (List Item)} (are : cutting.AreParts parts) {item : Item}
    (still : cutting.step cutting.start item = cutting.start)
    (other : cutting.isDelimiter item = false) : cutting.AreParts (padded item parts) := by
  -- A padded part is scanned as the part is.
  have cuts : cutting.cuts cutting.start item = false := by simp [Cutting.cuts, other]
  have whole : ∀ part, cutting.IsWhole cutting.start part →
      cutting.IsWhole cutting.start (item :: part) := by
    intro part whole
    rw [IsWhole, still]
    exact ⟨cuts, whole⟩
  have behind : ∀ parts, cutting.AreParts parts → cutting.AreParts (parts.map (item :: ·)) := by
    intro parts are
    induction are with
    | last here => exact .last (whole _ here)
    | more closed parts ih =>
      refine .more ⟨whole _ closed.1, ?_⟩ ih
      rw [run, List.foldl_cons, still]
      exact closed.2
  cases are with
  | last here => exact .last here
  | more closed parts => exact .more closed (behind _ parts)

/-- Parts that a text was joined of with an item behind each delimiter are found padded with it. -/
theorem AreParts.cut_padded {parts : List (List Item)} (are : cutting.AreParts parts)
    {delimiter item : Item} (delimits : cutting.isDelimiter delimiter = true)
    (still : cutting.step cutting.start item = cutting.start)
    (other : cutting.isDelimiter item = false) :
    cutting.cut ([delimiter, item].intercalate parts) = Cutting.padded item parts := by
  rw [intercalate_padded]
  exact (are.padded still other).cut_intercalate delimits

end Cutting

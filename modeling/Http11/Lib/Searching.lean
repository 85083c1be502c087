import Mathlib.Data.List.Infix
import Mathlib.Order.Basic
import Http11.Lib.Splitting

/-! Where a pattern stands in a text, and what of a text need not be searched again. -/

namespace Searching

variable {Item : Type} {pattern text : List Item} {start stop position : Nat}

/-- A pattern stands at a position of a text. -/
def OccursAt (pattern text : List Item) (position : Nat) : Prop := pattern <+: text.drop position

/-- The first place of a pattern from a position on. -/
structure IsFirst (pattern text : List Item) (start position : Nat) : Prop where
  /-- It is not in front of the start. -/
  behind : start ≤ position
  /-- The pattern stands there. -/
  occurs : OccursAt pattern text position
  /-- The pattern stands nowhere between. -/
  first : ∀ before, start ≤ before → before < position → ¬ OccursAt pattern text before

/-- Places at which the pattern would be whole and does not stand. -/
def Searched (pattern text : List Item) (start stop : Nat) : Prop :=
  ∀ position, start ≤ position → position < stop →
    position + pattern.length ≤ text.length ∧ ¬ OccursAt pattern text position

/-- A pattern that is not empty stands within the text. -/
theorem OccursAt.within (present : pattern ≠ []) (occurs : OccursAt pattern text position) :
    position + pattern.length ≤ text.length := by
  have positive := List.length_pos_of_ne_nil present
  have short := occurs.length_le
  rw [List.length_drop] at short
  omega

/-- What stands at a place, item by item. -/
theorem occursAt_iff_take :
    OccursAt pattern text position ↔ (text.drop position).take pattern.length = pattern := by
  rw [OccursAt, List.prefix_iff_eq_take, eq_comm]

/-- Places behind the part of a text that is left out. -/
theorem occursAt_drop (skipped : Nat) :
    OccursAt pattern (text.drop skipped) position ↔
      OccursAt pattern text (skipped + position) := by
  rw [OccursAt, List.drop_drop, OccursAt]

/-- Where the pattern would be whole, what follows the text does not matter. -/
theorem occursAt_append (whole : position + pattern.length ≤ text.length) (more : List Item) :
    OccursAt pattern (text ++ more) position ↔ OccursAt pattern text position := by
  rw [occursAt_iff_take, occursAt_iff_take, List.drop_append_of_le_length (by omega),
    List.take_append_of_le_length (by rw [List.length_drop]; omega)]

/-- There is one first place. -/
theorem IsFirst.unique {other : Nat} (left : IsFirst pattern text start position)
    (right : IsFirst pattern text start other) : position = other := by
  rcases Nat.lt_trichotomy position other with less | same | greater
  · exact absurd left.occurs (right.first position left.behind less)
  · exact same
  · exact absurd right.occurs (left.first other right.behind greater)

/-- A first place stays the first one when more follows. -/
theorem IsFirst.append (present : pattern ≠ []) (found : IsFirst pattern text start position)
    (more : List Item) : IsFirst pattern (text ++ more) start position where
  behind := found.behind
  occurs := (occursAt_append (found.occurs.within present) more).mpr found.occurs
  first := by
    intro before behind earlier occurs
    -- Every place in front of the found one is whole as well.
    have within := found.occurs.within present
    exact found.first before behind earlier ((occursAt_append (by omega) more).mp occurs)

/-- The first place in what is left of a text. -/
theorem isFirst_drop (skipped : Nat) :
    IsFirst pattern (text.drop skipped) start position ↔
      IsFirst pattern text (skipped + start) (skipped + position) := by
  -- A place in the rest is one in the whole, moved by what was skipped.
  constructor
  · rintro ⟨behind, occurs, first⟩
    refine ⟨by omega, (occursAt_drop skipped).mp occurs, fun before low high => ?_⟩
    have same : skipped + (before - skipped) = before := by omega
    have earlier := first (before - skipped) (by omega) (by omega)
    rwa [occursAt_drop, same] at earlier
  · rintro ⟨behind, occurs, first⟩
    refine ⟨by omega, (occursAt_drop skipped).mpr occurs, fun before low high => ?_⟩
    rw [occursAt_drop]
    exact first (skipped + before) (by omega) (by omega)

/-- No place is searched where none is left. -/
theorem searched_empty (none : stop ≤ start) : Searched pattern text start stop :=
  fun _ low high => absurd (Nat.lt_of_le_of_lt low high) (by omega)

/-- Fewer places are searched as well. -/
theorem Searched.shrink {inner last : Nat} (searched : Searched pattern text start stop)
    (later : start ≤ inner) (earlier : last ≤ stop) : Searched pattern text inner last :=
  fun position low high => searched position (by omega) (by omega)

/-- Places that were searched stay so when more follows. -/
theorem Searched.append (searched : Searched pattern text start stop) (more : List Item) :
    Searched pattern (text ++ more) start stop := by
  intro position low high
  obtain ⟨whole, absent⟩ := searched position low high
  refine ⟨by rw [List.length_append]; omega, fun occurs => absent ?_⟩
  exact (occursAt_append whole more).mp occurs

/-- Searching goes on behind the places that were searched, with the same result. -/
theorem Searched.resume (searched : Searched pattern text start stop) :
    IsFirst pattern text (max start stop) position ↔ IsFirst pattern text start position := by
  constructor
  · rintro ⟨behind, occurs, first⟩
    refine ⟨by omega, occurs, fun before low high => ?_⟩
    by_cases early : before < stop
    · exact (searched before low early).2
    · exact first before (by omega) high
  · rintro ⟨behind, occurs, first⟩
    refine ⟨?_, occurs, fun before low high => first before (by omega) high⟩
    -- The pattern does not stand at a place that was searched.
    by_contra early
    exact (searched position behind (by omega)).2 occurs

/-- The places in front of the first one have been searched. -/
theorem IsFirst.searched (present : pattern ≠ []) (found : IsFirst pattern text start position) :
    Searched pattern text start position := by
  intro before low high
  have within := found.occurs.within present
  exact ⟨by omega, found.first before low high⟩

/-- Without a place from the start on, only the last items could begin one. -/
theorem searched_of_absent (absent : ∀ place, ¬ IsFirst pattern text start place) :
    Searched pattern text start (text.length - (pattern.length - 1)) := by
  -- The first place at which the pattern stood would be one.
  have nowhere : ∀ place, start ≤ place → ¬ OccursAt pattern text place := by
    intro place
    induction place using Nat.strongRecOn with
    | ind place ih =>
      intro low occurs
      exact absent place ⟨low, occurs, fun before behind earlier => ih before earlier behind⟩
  intro place low high
  exact ⟨by omega, nowhere place low⟩

/-- A pattern that does not stand at the start is searched from the next item on. -/
theorem isFirst_cons {item : Item} {rest : List Item}
    (elsewhere : ¬ pattern <+: item :: rest) :
    IsFirst pattern (item :: rest) 0 (position + 1) ↔ IsFirst pattern rest 0 position := by
  have shifted : IsFirst pattern rest 0 position ↔
      IsFirst pattern (item :: rest) (1 + 0) (1 + position) :=
    @isFirst_drop Item pattern (item :: rest) 0 position 1
  -- The rest is the text without its first item.
  rw [shifted, Nat.add_comm 1 position]
  constructor
  · rintro ⟨_, occurs, first⟩
    exact ⟨by omega, occurs, fun before _ high => first before (Nat.zero_le _) high⟩
  · rintro ⟨_, occurs, first⟩
    refine ⟨Nat.zero_le _, occurs, fun before _ high => ?_⟩
    -- The only place that the rest does not have is the first one.
    cases before with
    | zero => exact elsewhere
    | succ before => exact first (before + 1) (by omega) high

section Split

variable [DecidableEq Item] {front back : List Item}

/-- A text is split where the pattern first stands. -/
theorem splitFirst_iff (present : pattern ≠ []) :
    Splitting.splitFirst pattern text = some (front, back) ↔
      IsFirst pattern text 0 front.length ∧ text = front ++ (pattern ++ back) := by
  induction text generalizing front with
  | nil =>
    rw [Splitting.splitFirst, if_neg present]
    refine ⟨fun split => (by cases split), fun split => absurd split.2.symm ?_⟩
    simp [present]
  | cons item rest ih =>
    rw [Splitting.splitFirst]
    by_cases stands : pattern <+: item :: rest
    · rw [if_pos (List.isPrefixOf_iff_prefix.mpr stands)]
      have here : IsFirst pattern (item :: rest) 0 0 :=
        ⟨Nat.le_refl 0, stands, fun before _ none => absurd none (Nat.not_lt_zero before)⟩
      obtain ⟨behind, whole⟩ := stands
      rw [← whole, List.drop_left]
      rw [← whole] at here
      constructor
      · intro split
        cases split
        exact ⟨here, rfl⟩
      · rintro ⟨found, same⟩
        -- There is one first place, so that nothing is in front of it.
        cases List.eq_nil_of_length_eq_zero (found.unique here)
        rw [List.append_cancel_left same]
    · rw [if_neg (fun starts => stands (List.isPrefixOf_iff_prefix.mp starts)),
        Option.map_eq_some_iff]
      constructor
      · rintro ⟨⟨before, behind⟩, split, same⟩
        cases same
        obtain ⟨found, whole⟩ := ih.mp split
        exact ⟨(isFirst_cons stands).mpr found, congrArg (item :: ·) whole⟩
      · rintro ⟨found, whole⟩
        cases front with
        | nil => exact absurd ⟨back, whole.symm⟩ stands
        | cons other front =>
          obtain ⟨rfl, behind⟩ := List.cons.inj whole
          exact ⟨(front, back), ih.mpr ⟨(isFirst_cons stands).mp found, behind⟩, rfl⟩

/-- A text is not split when the pattern stands nowhere. -/
theorem splitFirst_none (present : pattern ≠ []) :
    Splitting.splitFirst pattern text = none ↔ ∀ place, ¬ IsFirst pattern text 0 place := by
  constructor
  · -- Where the pattern stands first the text would be split.
    intro missing place found
    obtain ⟨behind, stands⟩ := found.occurs
    have within := found.occurs.within present
    have split : Splitting.splitFirst pattern text = some (text.take place, behind) := by
      rw [splitFirst_iff present, List.length_take, Nat.min_eq_left (by omega), stands,
        List.take_append_drop]
      exact ⟨found, rfl⟩
    rw [missing] at split
    cases split
  · intro nowhere
    cases split : Splitting.splitFirst pattern text with
    | none => rfl
    | some parts => exact absurd ((splitFirst_iff present).mp split).1 (nowhere _)

/-- In front of a pattern behind it, a text does not begin the pattern anywhere. -/
def Clear (pattern front : List Item) : Prop :=
  ∀ position < front.length, ¬ OccursAt pattern (front ++ pattern) position

/-- A text is split behind what the pattern does not begin in. -/
theorem splitFirst_iff_clear (present : pattern ≠ []) :
    Splitting.splitFirst pattern text = some (front, back) ↔
      Clear pattern front ∧ text = front ++ (pattern ++ back) := by
  rw [splitFirst_iff present]
  refine and_congr_left fun whole => ?_
  subst whole
  -- What begins in front of the pattern ends within it.
  have inside : ∀ {position : Nat}, position ≤ front.length →
      (OccursAt pattern (front ++ (pattern ++ back)) position ↔
        OccursAt pattern (front ++ pattern) position) := by
    intro position low
    rw [← List.append_assoc]
    exact occursAt_append (by rw [List.length_append]; omega) back
  constructor
  · intro first position low occurs
    exact first.first position (Nat.zero_le _) low ((inside (Nat.le_of_lt low)).mpr occurs)
  · intro clear
    refine ⟨Nat.zero_le _, ?_, fun before _ low occurs => ?_⟩
    · rw [OccursAt, List.drop_left]
      exact List.prefix_append pattern back
    · exact clear before low ((inside (Nat.le_of_lt low)).mp occurs)

/-- A text that is split is split at the same place when more follows. -/
theorem splitFirst_extend (present : pattern ≠ [])
    (split : Splitting.splitFirst pattern text = some (front, back)) (more : List Item) :
    Splitting.splitFirst pattern (text ++ more) = some (front, back ++ more) := by
  rw [splitFirst_iff present] at split ⊢
  obtain ⟨found, whole⟩ := split
  refine ⟨found.append present more, ?_⟩
  rw [whole]
  simp only [List.append_assoc]

end Split

end Searching

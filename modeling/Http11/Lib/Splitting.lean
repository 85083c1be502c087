import Mathlib.Data.List.Basic

/-! Splitting lists at a separator of several items: at its first occurrence, and at all of them. -/

namespace Splitting

variable {Item : Type} [DecidableEq Item]

/-- What stands before and behind the first occurrence of a separator. -/
def splitFirst (separator : List Item) : List Item → Option (List Item × List Item)
  | [] => if separator = [] then some ([], []) else none
  | item :: rest =>
    if separator.isPrefixOf (item :: rest) then
      some ([], (item :: rest).drop separator.length)
    else (splitFirst separator rest).map fun (front, back) => (item :: front, back)

/-- The parts between the occurrences of a separator, once some items of one are skipped. -/
def splitBehind (separator : List Item) : Nat → List Item → List (List Item)
  | _, [] => [[]]
  | skipped + 1, _ :: rest => splitBehind separator skipped rest
  | 0, item :: rest =>
    if separator.isPrefixOf (item :: rest) then
      [] :: splitBehind separator (separator.length - 1) rest
    else (splitBehind separator 0 rest).modifyHead (item :: ·)

/-- The parts between all occurrences of a separator. -/
def splitEvery (separator text : List Item) : List (List Item) := splitBehind separator 0 text

/-- What is skipped is left out. -/
theorem splitBehind_append (separator skipped rest : List Item) :
    splitBehind separator skipped.length (skipped ++ rest) = splitBehind separator 0 rest := by
  induction skipped with
  | nil => rfl
  | cons item skipped ih => exact ih

section Plain

variable {first : Item} {others : List Item}

/-- A separator does not start where another item stands. -/
theorem isPrefixOf_other {item : Item} (other : first ≠ item) (rest : List Item) :
    (first :: others).isPrefixOf (item :: rest) = false := by
  simp [List.isPrefixOf, other]

/-- A part without the first item of a separator is not split. -/
theorem splitEvery_plain {line : List Item} (plain : first ∉ line) :
    splitEvery (first :: others) line = [line] := by
  unfold splitEvery
  induction line with
  | nil => rfl
  | cons item line ih =>
    rw [List.mem_cons, not_or] at plain
    -- The separator does not start at an item other than its first one.
    rw [splitBehind, if_neg (by simp [isPrefixOf_other plain.1]), ih plain.2]
    rfl

/-- A part without the first item of a separator ends at the next separator. -/
theorem splitEvery_append {line : List Item} (plain : first ∉ line) (rest : List Item) :
    splitEvery (first :: others) (line ++ (first :: others) ++ rest) =
      line :: splitEvery (first :: others) rest := by
  unfold splitEvery
  induction line with
  | nil =>
    have found : (first :: others).isPrefixOf (first :: (others ++ rest)) = true := by
      rw [List.isPrefixOf_iff_prefix]
      exact ⟨rest, rfl⟩
    change splitBehind (first :: others) 0 (first :: (others ++ rest)) = _
    rw [splitBehind, if_pos found]
    -- The rest of the separator is skipped.
    exact congrArg ([] :: ·) (splitBehind_append (first :: others) others rest)
  | cons item line ih =>
    rw [List.mem_cons, not_or] at plain
    have more := ih plain.2
    simp only [List.cons_append, List.append_assoc] at more ⊢
    rw [splitBehind, if_neg (by simp [isPrefixOf_other plain.1]), more]
    rfl

/-- Parts without the first item of a separator are what splitting the whole gives back. -/
theorem splitEvery_intercalate {lines : List (List Item)} (present : lines ≠ [])
    (plain : ∀ line ∈ lines, first ∉ line) :
    splitEvery (first :: others) ((first :: others).intercalate lines) = lines := by
  induction lines with
  | nil => exact absurd rfl present
  | cons line lines ih =>
    rw [List.forall_mem_cons] at plain
    -- Behind the first part there is a separator, unless it is the last part.
    cases lines with
    | nil => rw [List.intercalate_singleton, splitEvery_plain plain.1]
    | cons next lines =>
      rw [List.intercalate_cons_cons, splitEvery_append plain.1, ih (by simp) plain.2]

/-- Items before a separator that does not start at any of them stay before it. -/
theorem splitFirst_append (separator front rest : List Item)
    (apart : ∀ before item behind, front = before ++ item :: behind →
      separator.isPrefixOf (item :: (behind ++ rest)) = false) :
    splitFirst separator (front ++ rest) =
      (splitFirst separator rest).map fun (before, behind) => (front ++ before, behind) := by
  induction front with
  | nil => simp
  | cons item front ih =>
    -- The separator starts nowhere in front, so the search moves on item by item.
    have away := apart [] item front rfl
    have later := ih fun before other behind same =>
      apart (item :: before) other behind (congrArg (item :: ·) same)
    rw [List.cons_append, splitFirst, if_neg (by simp [away]), later, Option.map_map]
    rfl

/-- The separator itself is where a text that starts with it splits. -/
theorem splitFirst_self (separator rest : List Item) :
    splitFirst separator (separator ++ rest) = some ([], rest) := by
  -- The separator stands at the start, even when it is empty.
  cases separator with
  | nil =>
    cases rest with
    | nil => rfl
    | cons item rest => simp [splitFirst]
  | cons first others =>
    have found : (first :: others).isPrefixOf (first :: (others ++ rest)) = true := by
      rw [List.isPrefixOf_iff_prefix]
      exact ⟨rest, rfl⟩
    rw [List.cons_append, splitFirst, if_pos found]
    simp

/-- Two separators in a row do not start inside one that other items follow. -/
theorem isPrefixOf_twice (single : first ∉ others) {next rest : List Item} (present : next ≠ [])
    (plain : first ∉ next) {before behind : List Item} {item : Item}
    (inside : first :: others = before ++ item :: behind) :
    ((first :: others) ++ (first :: others)).isPrefixOf (item :: (behind ++ (next ++ rest))) =
      false := by
  by_contra found
  rw [Bool.not_eq_false, List.isPrefixOf_iff_prefix] at found
  cases before with
  | nil =>
    -- From its start, a second separator would have to start with the next items.
    cases inside
    obtain ⟨after, same⟩ := found
    simp only [List.cons_append, List.append_assoc, List.cons.injEq, true_and,
      List.append_cancel_left_eq] at same
    obtain ⟨head, next, rfl⟩ := List.exists_cons_of_ne_nil present
    simp only [List.cons_append, List.cons.injEq] at same
    exact plain (same.1 ▸ List.mem_cons_self)
  | cons start before =>
    -- Later on, the first item would stand among the others.
    cases inside
    obtain ⟨after, same⟩ := found
    simp only [List.cons_append, List.cons.injEq] at same
    exact single (by simp [same.1])

/-- Lines that are not empty end at the first two separators in a row. -/
theorem splitFirst_lines (single : first ∉ others) {lines : List (List Item)} (present : lines ≠ [])
    (plain : ∀ line ∈ lines, line ≠ [] ∧ first ∉ line) (rest : List Item) :
    splitFirst ((first :: others) ++ (first :: others))
        (lines.flatMap (· ++ (first :: others)) ++ ((first :: others) ++ rest)) =
      some ((first :: others).intercalate lines, rest) := by
  induction lines with
  | nil => exact absurd rfl present
  | cons line lines ih =>
    rw [List.forall_mem_cons] at plain
    obtain ⟨⟨_, lineless⟩, later⟩ := plain
    -- No separator starts inside a line.
    have through : ∀ text : List Item,
        splitFirst ((first :: others) ++ (first :: others)) (line ++ text) =
          (splitFirst ((first :: others) ++ (first :: others)) text).map
            fun (before, behind) => (line ++ before, behind) := by
      intro text
      refine splitFirst_append _ line text fun before item behind same => ?_
      have other : first ≠ item := by
        rintro rfl
        rw [same] at lineless
        simp at lineless
      exact isPrefixOf_other other (behind ++ text)
    rw [List.flatMap_cons, List.append_assoc, List.append_assoc, through]
    cases lines with
    | nil =>
      rw [List.flatMap_nil, List.nil_append, ← List.append_assoc (first :: others),
        splitFirst_self, List.intercalate_singleton]
      simp
    | cons next lines =>
      obtain ⟨nonempty, nextless⟩ := later next (by simp)
      have behind := splitFirst_append ((first :: others) ++ (first :: others)) (first :: others)
        ((next :: lines).flatMap (· ++ (first :: others)) ++ ((first :: others) ++ rest))
        fun before item behind inside => by
          rw [List.flatMap_cons, List.append_assoc, List.append_assoc]
          exact isPrefixOf_twice single nonempty nextless inside
      rw [behind, ih (by simp) later, List.intercalate_cons_cons]
      simp

end Plain

end Splitting

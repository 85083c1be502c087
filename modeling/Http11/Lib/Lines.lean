import Http11.Lib.Searching

/-! Lines between separators: what is joined of lines without a separator is split into them again. -/

namespace Searching

open Splitting

variable {Item : Type} {first : Item} {others line text : List Item}

/-- A line in front of a separator whose first item does not come again holds no other one. -/
theorem clear_iff_absent (single : first ∉ others) :
    Clear (first :: others) line ↔ ¬ (first :: others) <:+: line := by
  constructor
  · -- What stands in the line stands in front of the separator behind it.
    rintro clear ⟨front, back, rfl⟩
    refine clear front.length ?_ ⟨back ++ (first :: others), ?_⟩
    · simp only [List.length_append, List.length_cons]
      omega
    · simp
  · intro absent position low occurs
    obtain ⟨back, stands⟩ := occurs
    by_cases whole : position + (first :: others).length ≤ line.length
    · have inside : OccursAt (first :: others) line position :=
        (occursAt_append whole (first :: others)).mp ⟨back, stands⟩
      exact absent (inside.isInfix.trans (List.drop_suffix _ _).isInfix)
    · -- Across the end of the line, the first item would come again.
      rw [List.drop_append_of_le_length (Nat.le_of_lt low)] at stands
      have length : (line.drop position).length = line.length - position := List.length_drop
      have item := congrArg (fun items => items[line.length - position]?) stands
      rw [List.getElem?_append_left (by omega), List.getElem?_append_right (by omega), length,
        Nat.sub_self] at item
      obtain ⟨offset, behind⟩ : ∃ offset, line.length - position = offset + 1 :=
        ⟨line.length - position - 1, by omega⟩
      rw [behind, List.getElem?_cons_succ, List.getElem?_cons_zero] at item
      exact single (List.mem_of_getElem? item)

section Split

variable [DecidableEq Item] {separator : List Item}

/-- Whether a text may be split behind a line can be computed. -/
instance : Decidable (Clear separator line) :=
  inferInstanceAs (Decidable (∀ position < line.length,
    ¬ separator <+: (line ++ separator).drop position))

/-- A text is split at its first separator, and then on behind it. -/
theorem splitEvery_eq (present : separator ≠ []) (text : List Item) :
    splitEvery separator text = match splitFirst separator text with
      | none => [text]
      | some (front, back) => front :: splitEvery separator back := by
  unfold splitEvery
  induction text with
  | nil => rw [splitFirst, if_neg present, splitBehind]
  | cons item rest ih =>
    rw [splitBehind, splitFirst]
    by_cases stands : separator.isPrefixOf (item :: rest) = true
    · rw [if_pos stands, if_pos stands]
      obtain ⟨behind, whole⟩ := List.isPrefixOf_iff_prefix.mp stands
      obtain ⟨head, others, rfl⟩ := List.exists_cons_of_ne_nil present
      -- The rest of the separator is skipped.
      rw [List.cons_append, List.cons.injEq] at whole
      obtain ⟨rfl, rfl⟩ := whole
      have skipped := splitBehind_append (head :: others) others behind
      have left : (head :: (others ++ behind)).drop (head :: others).length = behind := by simp
      rw [left]
      exact congrArg ([] :: ·) skipped
    · rw [if_neg stands, if_neg stands, ih]
      cases splitFirst separator rest <;> rfl

/-- The parts of a text are without a separator, and the text is what they join to. -/
theorem splitEvery_spec (single : first ∉ others) (text : List Item) :
    (first :: others).intercalate (splitEvery (first :: others) text) = text ∧
      (∀ line ∈ splitEvery (first :: others) text, ¬ (first :: others) <:+: line) ∧
      splitEvery (first :: others) text ≠ [] := by
  have present : first :: others ≠ [] := List.cons_ne_nil _ _
  -- What is split next is shorter.
  induction length : text.length using Nat.strongRecOn generalizing text with
  | ind count ih =>
    rw [splitEvery_eq present]
    cases split : splitFirst (first :: others) text with
    | none =>
      refine ⟨List.intercalate_singleton, ?_, List.cons_ne_nil _ _⟩
      rw [splitFirst_none present] at split
      refine List.forall_mem_singleton.mpr fun inside => ?_
      obtain ⟨front, back, whole⟩ := inside
      have occurs : OccursAt (first :: others) text front.length :=
        ⟨back, by rw [← whole, List.append_assoc, List.drop_left]⟩
      have searched : Searched (first :: others) text 0 _ := searched_of_absent split
      exact (searched front.length (Nat.zero_le _) (by
        have within := occurs.within present
        rw [List.length_cons] at within ⊢
        omega)).2 occurs
    | some parts =>
      obtain ⟨front, back⟩ := parts
      obtain ⟨clear, rfl⟩ := (splitFirst_iff_clear present).mp split
      obtain ⟨joined, lines, filled⟩ := ih back.length
        (by simp only [← length, List.length_append, List.length_cons]; omega) back rfl
      refine ⟨?_, List.forall_mem_cons.mpr ⟨(clear_iff_absent single).mp clear, lines⟩,
        List.cons_ne_nil _ _⟩
      dsimp only
      obtain ⟨next, rest, same⟩ := List.exists_cons_of_ne_nil filled
      rw [same, List.intercalate_cons_cons, ← same, joined, List.append_assoc]

/-- Lines without a separator are what splitting the whole gives back. -/
theorem splitEvery_lines (single : first ∉ others) {lines : List (List Item)} (filled : lines ≠ [])
    (clear : ∀ line ∈ lines, ¬ (first :: others) <:+: line) :
    splitEvery (first :: others) ((first :: others).intercalate lines) = lines := by
  have present : first :: others ≠ [] := List.cons_ne_nil _ _
  induction lines with
  | nil => exact absurd rfl filled
  | cons line lines ih =>
    rw [List.forall_mem_cons] at clear
    have here := (clear_iff_absent single).mpr clear.1
    cases lines with
    | nil =>
      rw [List.intercalate_singleton, splitEvery_eq present]
      -- The only line has no separator to be split at.
      cases split : splitFirst (first :: others) line with
      | none => rfl
      | some parts =>
        obtain ⟨front, back⟩ := parts
        obtain ⟨_, rfl⟩ := (splitFirst_iff_clear present).mp split
        exact absurd ⟨front, back, by simp⟩ clear.1
    | cons next lines =>
      rw [List.intercalate_cons_cons, List.append_assoc, splitEvery_eq present,
        (splitFirst_iff_clear present).mpr ⟨here, rfl⟩]
      exact congrArg (line :: ·) (ih (List.cons_ne_nil _ _) clear.2)

/-- Lines that are not empty end at the first two separators in a row. -/
theorem splitFirst_blank (single : first ∉ others) {lines : List (List Item)} (filled : lines ≠ [])
    (clear : ∀ line ∈ lines, line ≠ [] ∧ ¬ (first :: others) <:+: line) (rest : List Item) :
    splitFirst ((first :: others) ++ (first :: others))
        (lines.flatMap (· ++ (first :: others)) ++ ((first :: others) ++ rest)) =
      some ((first :: others).intercalate lines, rest) := by
  -- No separator begins in a line, wherever the next one stands.
  have through : ∀ line text : List Item, ¬ (first :: others) <:+: line →
      splitFirst ((first :: others) ++ (first :: others)) (line ++ ((first :: others) ++ text)) =
        (splitFirst ((first :: others) ++ (first :: others)) ((first :: others) ++ text)).map
          fun parts => (line ++ parts.1, parts.2) := by
    intro line text plain
    refine splitFirst_append _ line _ fun before item behind same => ?_
    by_contra found
    rw [Bool.not_eq_false, List.isPrefixOf_iff_prefix] at found
    have longer := (List.prefix_append (first :: others) (first :: others)).trans found
    refine (clear_iff_absent single).mpr plain before.length ?_ ?_
    · rw [same, List.length_append, List.length_cons]
      omega
    · rw [OccursAt, same, List.append_assoc, List.drop_left]
      refine List.prefix_of_prefix_length_le longer ?_ ?_
      · rw [← List.append_assoc, ← List.cons_append, ← List.cons_append]
        exact List.prefix_append _ _
      · simp only [List.length_append, List.length_cons]
        omega
  induction lines with
  | nil => exact absurd rfl filled
  | cons line lines ih =>
    rw [List.forall_mem_cons] at clear
    obtain ⟨⟨_, plain⟩, later⟩ := clear
    rw [List.flatMap_cons, List.append_assoc, List.append_assoc, through _ _ plain]
    cases lines with
    | nil =>
      rw [List.flatMap_nil, List.nil_append, ← List.append_assoc (first :: others),
        splitFirst_self, List.intercalate_singleton]
      simp
    | cons next lines =>
      obtain ⟨nonempty, nextPlain⟩ := later next (by simp)
      have nextClear := (clear_iff_absent single).mpr nextPlain
      -- Two separators in a row would begin the next line with one.
      have behind := splitFirst_append ((first :: others) ++ (first :: others)) (first :: others)
        ((next :: lines).flatMap (· ++ (first :: others)) ++ ((first :: others) ++ rest))
        fun before item behind inside => by
          by_contra found
          rw [Bool.not_eq_false, List.isPrefixOf_iff_prefix] at found
          cases before with
          | nil =>
            cases inside
            rw [← List.cons_append, List.prefix_append_right_inj] at found
            refine nextClear 0 (List.length_pos_of_ne_nil nonempty) ?_
            rw [OccursAt, List.drop_zero]
            refine List.prefix_of_prefix_length_le found ?_ ?_
            · rw [List.flatMap_cons, List.append_assoc]
              exact List.prefix_append _ _
            · rw [List.length_append]
              omega
          | cons start before =>
            cases inside
            obtain ⟨after, same⟩ := found
            simp only [List.cons_append, List.cons.injEq] at same
            exact single (by simp [same.1])
      rw [behind, ih (by simp) later, List.intercalate_cons_cons]
      simp

end Split

end Searching

import Http11.Lib.Cutting
import Http11.Lib.Trimming

/-! Lists separated by one item, and what trimming does to their parts. -/

namespace Separating

variable {Item : Type} [DecidableEq Item] {separator : Item}

/-- No part has a separator in it. -/
theorem not_mem_of_mem_splitOn {items part : List Item} (inside : part ∈ items.splitOn separator) :
    separator ∉ part := by
  induction items generalizing part with
  | nil =>
    rw [List.splitOn_nil, List.mem_singleton] at inside
    rw [inside]
    exact List.not_mem_nil
  | cons item rest ih =>
    rw [List.splitOn_cons_eq_if_modifyHead] at inside
    split at inside
    · rcases List.mem_cons.mp inside with rfl | behind
      · exact List.not_mem_nil
      · exact ih behind
    · rename_i other
      obtain ⟨first, others, same⟩ := List.exists_cons_of_ne_nil (List.splitOn_ne_nil separator rest)
      rw [same] at inside ih
      rcases List.mem_cons.mp inside with rfl | behind
      · -- The first part goes on with an item that is no separator.
        rw [List.mem_cons, not_or]
        exact ⟨fun same => other (by simp [same]), ih List.mem_cons_self⟩
      · exact ih (List.mem_cons_of_mem _ behind)

/-- Items in front without a separator belong to the first part. -/
theorem splitOn_append {front : List Item} (plain : separator ∉ front) (items : List Item) :
    (front ++ items).splitOn separator = (items.splitOn separator).modifyHead (front ++ ·) := by
  induction front with
  | nil =>
    rw [List.nil_append]
    cases items.splitOn separator <;> rfl
  | cons item front ih =>
    -- The first item is no separator, so it joins the first part of the rest.
    rw [List.mem_cons, not_or] at plain
    rw [List.cons_append, List.splitOn_cons_eq_if_modifyHead, if_neg (by simp [Ne.symm plain.1]),
      ih plain.2, List.modifyHead_modifyHead]
    rfl

/-- Parts that are joined with an item behind each separator are found padded with it. -/
theorem splitOn_padded {parts : List (List Item)} (plain : ∀ part ∈ parts, separator ∉ part)
    (present : parts ≠ []) {item : Item} (other : item ≠ separator) :
    ([separator, item].intercalate parts).splitOn separator = Cutting.padded item parts := by
  -- The item behind a separator belongs to the next part.
  rw [Cutting.intercalate_padded]
  obtain ⟨first, others, rfl⟩ := List.exists_cons_of_ne_nil present
  obtain ⟨here, behind⟩ := List.forall_mem_cons.mp plain
  refine List.splitOn_intercalate separator ?_ (List.cons_ne_nil _ _)
  refine List.forall_mem_cons.mpr ⟨here, List.forall_mem_map.mpr fun part inside => ?_⟩
  rw [List.mem_cons, not_or]
  exact ⟨other.symm, behind part inside⟩

variable {kind : Item → Bool}

omit [DecidableEq Item] in
/-- Items of the kind around a list are trimmed with those at its own ends. -/
theorem trim_around {before after : List Item} (front : Trimming.All kind before)
    (back : Trimming.All kind after) (items : List Item) :
    Trimming.trim kind (before ++ (items ++ after)) = Trimming.trim kind items := by
  -- What is trimmed off the items is of the kind, as are the items around them.
  obtain ⟨left, right, opening, closing, trimmed, same⟩ := Trimming.trim_spec kind items
  have whole : before ++ (items ++ after) =
      (before ++ left) ++ (Trimming.trim kind items ++ (right ++ after)) := by
    conv_lhs => rw [same]
    simp
  rw [whole]
  exact Trimming.trim_framed (List.forall_mem_append.mpr ⟨front, opening⟩)
    (List.forall_mem_append.mpr ⟨closing, back⟩) trimmed

omit [DecidableEq Item] in
/-- What stands behind joined parts stands behind the last one. -/
theorem intercalate_last (separator : List Item) (front : List (List Item)) (last after : List Item) :
    separator.intercalate (front ++ [last]) ++ after =
      separator.intercalate (front ++ [last ++ after]) := by
  induction front with
  | nil => simp
  | cons part others ih =>
    -- There is another part behind the first one on both sides.
    obtain ⟨second, rest, same⟩ := List.exists_cons_of_ne_nil
      (List.append_ne_nil_of_right_ne_nil others (List.cons_ne_nil last []))
    obtain ⟨again, more, also⟩ := List.exists_cons_of_ne_nil
      (List.append_ne_nil_of_right_ne_nil others (List.cons_ne_nil (last ++ after) []))
    rw [same, also] at ih
    rw [List.cons_append, List.cons_append, same, also, List.intercalate_cons_cons,
      List.intercalate_cons_cons, List.append_assoc, ih]

/-- Trimming a list does not change the trimmed parts of it. -/
theorem map_trim_splitOn (other : kind separator = false) (items : List Item) :
    ((Trimming.trim kind items).splitOn separator).map (Trimming.trim kind) =
      (items.splitOn separator).map (Trimming.trim kind) := by
  obtain ⟨before, after, front, back, _, same⟩ := Trimming.trim_spec kind items
  generalize Trimming.trim kind items = middle at same
  have plain : ∀ text, Trimming.All kind text → separator ∉ text := by
    intro text all inside
    have found := all separator inside
    rw [other] at found
    cases found
  -- The parts of the middle have the back behind the last one, and the front before the first one.
  have parts : ∀ part ∈ middle.splitOn separator, separator ∉ part :=
    fun part inside => not_mem_of_mem_splitOn inside
  have whole : [separator].intercalate (middle.splitOn separator) = middle :=
    List.intercalate_splitOn separator
  obtain ⟨others, last, pieces⟩ :=
    (List.eq_nil_or_concat' (middle.splitOn separator)).resolve_left (List.splitOn_ne_nil _ _)
  rw [pieces] at parts whole ⊢
  obtain ⟨plainOthers, plainLast⟩ := List.forall_mem_append.mp parts
  have behind : (middle ++ after).splitOn separator = others ++ [last ++ after] := by
    rw [← whole, intercalate_last]
    refine List.splitOn_intercalate separator ?_ (by simp)
    refine List.forall_mem_append.mpr ⟨plainOthers, List.forall_mem_singleton.mpr ?_⟩
    rw [List.mem_append, not_or]
    exact ⟨plainLast last (List.mem_singleton_self _), plain after back⟩
  rw [same, splitOn_append (plain before front), behind]
  cases others with
  | nil => exact congrArg ([·]) (trim_around front back last).symm
  | cons first others =>
    have ends := trim_around front (List.forall_mem_nil _) first
    have closes := trim_around (List.forall_mem_nil _) back last
    rw [List.append_nil] at ends
    rw [List.nil_append] at closes
    simp [ends, closes]

end Separating

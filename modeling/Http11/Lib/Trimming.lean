import Mathlib.Data.List.DropRight

/-! Taking the items of some kind away at both ends of a list. -/

namespace Trimming

variable {Item : Type} {kind : Item → Bool}

/-- A list without the items of some kind around it. -/
def trim (kind : Item → Bool) (items : List Item) : List Item :=
  (items.dropWhile kind).rdropWhile kind

/-- A list that neither starts nor ends with an item of some kind. -/
structure IsTrimmed (kind : Item → Bool) (items : List Item) : Prop where
  /-- The first item is of no such kind. -/
  starts : ∀ item rest, items = item :: rest → kind item = false
  /-- The last item is of no such kind. -/
  ends : ∀ rest item, items = rest ++ [item] → kind item = false

/-- All items of a list are of some kind. -/
def All (kind : Item → Bool) (items : List Item) : Prop := ∀ item ∈ items, kind item = true

/-- Nothing is trimmed. -/
theorem isTrimmed_nil : IsTrimmed kind ([] : List Item) where
  starts := fun _ _ same => by cases same
  ends := fun rest item same => by cases rest <;> cases same

/-- A list starts as its front does. -/
theorem starts_append {front : List Item} (present : front ≠ [])
    (starts : ∀ item rest, front = item :: rest → kind item = false) (back : List Item) :
    ∀ item rest, front ++ back = item :: rest → kind item = false := by
  intro item rest same
  obtain ⟨first, more, rfl⟩ := List.exists_cons_of_ne_nil present
  rw [List.cons_append, List.cons.injEq] at same
  rw [← same.1]
  exact starts first more rfl

/-- A list is trimmed if its first and its last items are. -/
theorem isTrimmed_append {front back : List Item} (middle : List Item) (present : front ≠ [])
    (filled : back ≠ []) (first : IsTrimmed kind front) (last : IsTrimmed kind back) :
    IsTrimmed kind (front ++ (middle ++ back)) where
  starts := starts_append present first.starts _
  ends := by
    -- The last item of the whole is the last one of the part at the end.
    intro rest item same
    obtain ⟨more, stop, rfl⟩ := (List.eq_nil_or_concat' back).resolve_left filled
    have whole : front ++ (middle ++ more) ++ [stop] = rest ++ [item] := by simpa using same
    rw [← List.singleton_inj.mp (List.append_inj' whole rfl).2]
    exact last.ends more stop rfl

/-- Items of no such kind are trimmed. -/
theorem isTrimmed_of_none {items : List Item} (none : ∀ item ∈ items, kind item = false) :
    IsTrimmed kind items where
  starts := fun item rest same => none item (by simp [same])
  ends := fun rest item same => none item (by simp [same])

/-- Trimmed lists that are not empty are trimmed when they are joined. -/
theorem isTrimmed_intercalate (separator : List Item) {parts : List (List Item)}
    (trimmed : ∀ part ∈ parts, part ≠ [] ∧ IsTrimmed kind part) :
    IsTrimmed kind (separator.intercalate parts) ∧
      (parts ≠ [] → separator.intercalate parts ≠ []) := by
  induction parts with
  | nil => exact ⟨isTrimmed_nil, fun present => absurd rfl present⟩
  | cons first others ih =>
    obtain ⟨⟨filled, here⟩, behind⟩ := List.forall_mem_cons.mp trimmed
    -- A single part is the whole; otherwise the first part opens it and the others close it.
    cases others with
    | nil =>
      rw [List.intercalate_singleton]
      exact ⟨here, fun _ => filled⟩
    | cons second others =>
      obtain ⟨whole, present⟩ := ih behind
      rw [List.intercalate_cons_cons, List.append_assoc]
      exact ⟨isTrimmed_append separator filled (present (List.cons_ne_nil _ _)) here whole,
        fun _ => List.append_ne_nil_of_left_ne_nil filled _⟩

/-- What is trimmed of more is trimmed of less. -/
theorem IsTrimmed.mono {wider : Item → Bool} {items : List Item}
    (within : ∀ item, kind item = true → wider item = true) (trimmed : IsTrimmed wider items) :
    IsTrimmed kind items where
  -- An item of the smaller kind at an end would be one of the wider kind.
  starts := by
    intro item rest same
    by_contra found
    have wide := within item (by simpa using found)
    rw [trimmed.starts item rest same] at wide
    cases wide
  ends := by
    intro rest item same
    by_contra found
    have wide := within item (by simpa using found)
    rw [trimmed.ends rest item same] at wide
    cases wide

/-- A list without items of some kind in front keeps all of its items there. -/
theorem dropWhile_framed {before items : List Item} (all : All kind before)
    (starts : ∀ item rest, items = item :: rest → kind item = false) :
    (before ++ items).dropWhile kind = items := by
  rw [List.dropWhile_append_of_pos all]
  cases items with
  | nil => rfl
  | cons item rest => exact List.dropWhile_cons_of_neg (by simp [starts item rest rfl])

/-- Items of some kind around a trimmed list are what trimming takes away. -/
theorem trim_framed {before items after : List Item} (front : All kind before)
    (back : All kind after) (trimmed : IsTrimmed kind items) :
    trim kind (before ++ (items ++ after)) = items := by
  rcases List.eq_nil_or_concat' items with rfl | ⟨rest, last, rfl⟩
  · -- Everything is of the kind.
    have all : All kind (before ++ ([] ++ after)) := by
      intro item inside
      rw [List.nil_append, List.mem_append] at inside
      exact inside.elim (front item) (back item)
    have dropped : (before ++ ([] ++ after)).dropWhile kind = [] := List.dropWhile_eq_nil_iff.mpr all
    rw [trim, dropped, List.rdropWhile_nil]
  · have starts : ∀ after item more, rest ++ [last] ++ after = item :: more → kind item = false :=
      starts_append (by simp) trimmed.starts
    rw [trim, dropWhile_framed front (starts after)]
    -- The back is taken away from its end.
    have ends := trimmed.ends rest last rfl
    induction after using List.reverseRecOn with
    | nil =>
      rw [List.append_nil]
      exact List.rdropWhile_concat_neg _ _ _ (by simp [ends])
    | append_singleton after item ih =>
      have here := back item (by simp)
      have others : All kind after := fun other inside => back other (by simp [inside])
      rw [← List.append_assoc, List.rdropWhile_concat_pos _ _ _ here]
      exact ih others

/-- A trimmed list stays as it is. -/
theorem IsTrimmed.trim_eq {items : List Item} (trimmed : IsTrimmed kind items) :
    trim kind items = items := by
  have framed : trim kind ([] ++ (items ++ [])) = items :=
    trim_framed (List.forall_mem_nil _) (List.forall_mem_nil _) trimmed
  rwa [List.nil_append, List.append_nil] at framed

/-- Around a trimmed list stood items of the kind. -/
theorem trim_spec (kind : Item → Bool) (items : List Item) :
    ∃ before after, All kind before ∧ All kind after ∧ IsTrimmed kind (trim kind items) ∧
      items = before ++ (trim kind items ++ after) := by
  refine ⟨items.takeWhile kind, (items.dropWhile kind).rtakeWhile kind,
    fun item inside => List.mem_takeWhile_imp inside,
    fun item inside => List.mem_rtakeWhile_imp inside, ⟨?_, ?_⟩, ?_⟩
  · intro item rest same
    -- The first item is that of the list without its front.
    obtain ⟨back, whole⟩ := List.rdropWhile_prefix kind (items.dropWhile kind)
    have kept := List.head?_dropWhile_not kind items
    change trim kind items ++ back = _ at whole
    rw [← whole, same, List.cons_append, List.head?_cons] at kept
    simpa using kept
  · intro rest item same
    have filled : (items.dropWhile kind).rdropWhile kind ≠ [] := by
      change trim kind items ≠ []
      rw [same]
      simp
    have kept := List.rdropWhile_last_not kind _ filled
    have last : ((items.dropWhile kind).rdropWhile kind).getLast filled = item := by
      have shape : (items.dropWhile kind).rdropWhile kind = rest ++ [item] := same
      simp [shape]
    rw [last] at kept
    simpa using kept
  · rw [trim, List.rdropWhile_append_rtakeWhile, List.takeWhile_append_dropWhile]

/-- An item of the kind in front of a trimmed list is taken away. -/
theorem IsTrimmed.trim_cons {items : List Item} (trimmed : IsTrimmed kind items) {item : Item}
    (takes : kind item = true) : trim kind (item :: items) = items := by
  have framed : trim kind ([item] ++ (items ++ [])) = items :=
    trim_framed (List.forall_mem_singleton.mpr takes) (List.forall_mem_nil _) trimmed
  rwa [List.append_nil] at framed

/-- Trimming does not reach into a trimmed front that is not empty. -/
theorem IsTrimmed.trim_append {front : List Item} (first : IsTrimmed kind front)
    (present : front ≠ []) (before : List Item) (all : All kind before) (items : List Item) :
    ∃ rest, trim kind (before ++ (front ++ items)) = front ++ rest := by
  obtain ⟨left, right, opening, closing, trimmed, same⟩ := trim_spec kind items
  by_cases filled : trim kind items = []
  · -- All that follows is of the kind.
    have taken : All kind items := by
      rw [same, filled, List.nil_append]
      exact List.forall_mem_append.mpr ⟨opening, closing⟩
    refine ⟨[], ?_⟩
    rw [List.append_nil]
    exact trim_framed all taken first
  · have whole : IsTrimmed kind (front ++ (left ++ trim kind items)) :=
      isTrimmed_append left present filled first trimmed
    have kept := trim_framed all closing whole
    refine ⟨left ++ trim kind items, ?_⟩
    rw [← kept]
    conv_lhs => rw [same]
    simp only [List.append_assoc]

/-- A list is trimmed around an item in it that is of no such kind. -/
theorem IsTrimmed.behind {front back : List Item} (first : IsTrimmed kind front) {mark : Item}
    (other : kind mark = false) (filled : back ≠ []) (last : IsTrimmed kind back) :
    IsTrimmed kind (front ++ mark :: back) := by
  -- The mark is the first item when there is none in front of it.
  by_cases present : front = []
  · have single : IsTrimmed kind [mark] := isTrimmed_of_none (List.forall_mem_singleton.mpr other)
    have whole : IsTrimmed kind ([mark] ++ ([] ++ back)) :=
      isTrimmed_append [] (List.cons_ne_nil _ _) filled single last
    rw [present]
    exact whole
  · exact isTrimmed_append [mark] present filled first last

end Trimming

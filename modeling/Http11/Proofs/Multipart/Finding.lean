import Http11.Lib.Searching
import Http11.Multipart

/-! The search for bytes finds their first place, though it only looks at their first byte. -/

namespace Http11

open Searching

section Search

variable {haystack others : Bytes} {first : UInt8}

/-- A needle stands only where its first byte does. -/
theorem first_of_occursAt {position : Nat}
    (occurs : OccursAt (first :: others) haystack position) : haystack[position]? = some first := by
  obtain ⟨rest, same⟩ := occurs
  rw [← Nat.add_zero position, ← List.getElem?_drop, ← same]
  rfl

/-- The bytes in which the needle can begin, counted from the start of the haystack. -/
theorem getElem?_window (haystack : Bytes) (maxStart i j : Nat) (inside : i + j ≤ maxStart) :
    ((haystack.drop i).take (maxStart + 1 - i))[j]? = haystack[i + j]? := by
  rw [List.getElem?_take_of_lt (by omega), List.getElem?_drop]

/-- The bytes skipped for the next first byte of the needle do not begin the needle. -/
theorem searched_of_findIdx? {i offset : Nat}
    (fits : (first :: others).length ≤ haystack.length)
    (found : ((haystack.drop i).take (haystack.length - (first :: others).length + 1 - i)).findIdx?
      (· == first) = some offset) :
    Searched (first :: others) haystack i (i + offset) ∧
      i + offset + (first :: others).length ≤ haystack.length := by
  obtain ⟨inside, _, earlier⟩ := List.findIdx?_eq_some_iff_getElem.mp found
  have bound := inside
  rw [List.length_take, List.length_drop] at bound
  refine ⟨fun position low high => ⟨by omega, fun occurs => ?_⟩, by omega⟩
  -- A needle that stood there would have had its first byte found there.
  have skipped := earlier (position - i) (by omega)
  have begins := first_of_occursAt occurs
  have window := getElem?_window haystack (haystack.length - (first :: others).length) i (position - i)
    (by omega)
  rw [Nat.add_sub_cancel' low, begins, List.getElem?_eq_some_iff] at window
  obtain ⟨_, same⟩ := window
  rw [same] at skipped
  exact skipped (beq_self_eq_true first)

/-- The search from a position on returns the first place of the needle from there on. -/
theorem findBytesLoop_iff (fits : (first :: others).length ≤ haystack.length) (i : Nat) :
    ∀ place, (findBytesLoop haystack (first :: others) first
        (haystack.length - (first :: others).length)).run i = some place ↔
      IsFirst (first :: others) haystack i place := by
  refine (findBytesLoop haystack (first :: others) first
    (haystack.length - (first :: others).length)).run_rule (motive := fun i result =>
      ∀ place, result = some place ↔ IsFirst (first :: others) haystack i place) ?_ ?_ i
  · intro i result returned place
    change findBytesPass _ _ _ _ i = .inr result at returned
    unfold findBytesPass at returned
    split at returned
    · -- The rest of the haystack is shorter than the needle.
      rename_i short
      cases returned
      refine ⟨fun found => (by cases found), fun found => ?_⟩
      have within := found.occurs.within (List.cons_ne_nil _ _)
      have behind := found.behind
      omega
    rename_i long
    split at returned
    · -- The first byte of the needle is missing from where it could begin.
      rename_i missing
      cases returned
      refine ⟨fun found => (by cases found), fun found => ?_⟩
      have within := found.occurs.within (List.cons_ne_nil _ _)
      have behind := found.behind
      have window := getElem?_window haystack (haystack.length - (first :: others).length) i
        (place - i) (by omega)
      rw [Nat.add_sub_cancel' behind, first_of_occursAt found.occurs] at window
      have other := List.findIdx?_eq_none_iff.mp missing first (List.mem_of_getElem? window)
      simp at other
    rename_i offset skipped
    obtain ⟨searched, _⟩ := searched_of_findIdx? fits skipped
    split at returned
    · rename_i stands
      cases returned
      have here : IsFirst (first :: others) haystack i (i + offset) :=
        ⟨Nat.le_add_right _ _, occursAt_iff_take.mpr stands,
          fun before low high => (searched before low high).2⟩
      rw [Option.some.injEq]
      exact ⟨fun same => same ▸ here, fun found => here.unique found⟩
    · cases returned
  · intro i next result passed ih place
    change findBytesPass _ _ _ _ i = .inl next at passed
    unfold findBytesPass at passed
    split at passed
    · cases passed
    split at passed
    · cases passed
    rename_i offset skipped
    obtain ⟨searched, whole⟩ := searched_of_findIdx? fits skipped
    split at passed
    · cases passed
    rename_i differs
    cases passed
    -- The place that was compared has been searched as well.
    have compared : Searched (first :: others) haystack i (i + offset + 1) := by
      intro position low high
      rcases Nat.lt_succ_iff_lt_or_eq.mp high with earlier | rfl
      · exact searched position low earlier
      · exact ⟨whole, fun occurs => differs (occursAt_iff_take.mp occurs)⟩
    rw [ih place, ← compared.resume, Nat.max_eq_right (by omega)]

end Search

/-- Bytes are found at their first place, and nowhere else. -/
theorem findBytes_iff {haystack needle : Bytes} (present : needle ≠ []) {place : Nat} :
    findBytes haystack needle = some place ↔ IsFirst needle haystack 0 place := by
  cases needle with
  | nil => exact absurd rfl present
  | cons first others =>
    unfold findBytes
    dsimp only
    -- The source compares the lengths first: nothing is found in a shorter text.
    by_cases short : haystack.length < (first :: others).length
    · rw [if_pos short]
      refine ⟨fun found => (by cases found), fun found => ?_⟩
      have within := found.occurs.within present
      omega
    · rw [if_neg short]
      exact findBytesLoop_iff (by omega) 0 place

/-- Bytes are found at their first place from a position on. -/
theorem findBytesFrom_iff {buffer needle : Bytes} (present : needle ≠ []) {start place : Nat} :
    findBytesFrom buffer start needle = some place ↔ IsFirst needle buffer start place := by
  rw [findBytesFrom, Option.map_eq_some_iff]
  constructor
  · -- The search runs over the rest, so its places are counted from there.
    rintro ⟨offset, found, rfl⟩
    have moved := (isFirst_drop start).mp ((findBytes_iff present).mp found)
    exact moved
  · intro found
    have same : start + (place - start) = place := Nat.add_sub_cancel' found.behind
    refine ⟨place - start, (findBytes_iff present).mpr ((isFirst_drop start).mpr ?_), same⟩
    rw [same]
    exact found

/-- Bytes that are not found have no first place. -/
theorem findBytesFrom_none {buffer needle : Bytes} (present : needle ≠ []) {start : Nat}
    (missing : findBytesFrom buffer start needle = none) (place : Nat) :
    ¬ IsFirst needle buffer start place := by
  intro found
  rw [← findBytesFrom_iff present, missing] at found
  cases found

/-- Searching again behind what has been searched finds the same. -/
theorem findBytesFrom_resume {buffer needle : Bytes} (present : needle ≠ []) {start stop : Nat}
    (searched : Searched needle buffer start stop) :
    findBytesFrom buffer (max start stop) needle = findBytesFrom buffer start needle := by
  refine Option.ext fun place => ?_
  rw [findBytesFrom_iff present, findBytesFrom_iff present, searched.resume]

end Http11

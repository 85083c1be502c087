import Mathlib.Order.Interval.Set.Basic
import Http11.Lib.Separating
import Http11.Proofs.Quoting
import Http11.Range

/-! What ranges denote, and that they are the same when they are parsed again. -/

namespace Http11

/-- A number of sixty-four bits is read back from its digits. -/
theorem readU64_write (number : UInt64) :
    readU64 (Numerals.write 10 number.toNat) = some number := by
  have fits : number.toNat ≤ u64Max := Nat.le_of_lt_succ number.toNat_lt
  have read : parseU64 (Numerals.write 10 number.toNat) = some number.toNat :=
    Numerals.read_write (by decide) (by decide) fits
  rw [readU64, read, Option.map_some, UInt64.ofNat_toNat]

/-- Digits have no other characters in them. -/
theorem not_mem_digits {text : Str} (digits : IsDigits text) {other : Char}
    (refused : other.isDigit = false) : other ∉ text := by
  intro inside
  rw [digits.2 other inside] at refused
  cases refused

namespace RangeSpec

/-- The positions that a range denotes in something of some length. -/
def positions (spec : RangeSpec) (totalLength : UInt64) : Set Nat :=
  match spec with
  | range start finish => {position | start.toNat ≤ position ∧ position ≤ finish.toNat}
  | fromStart start => {position | start.toNat ≤ position}
  | suffix length =>
    {position | position < totalLength.toNat ∧ totalLength.toNat ≤ position + length.toNat}

/-- The positions of something that a range selects. -/
def selected (spec : RangeSpec) (totalLength : UInt64) : Set Nat :=
  spec.positions totalLength ∩ Set.Iio totalLength.toNat

/-- The last position of something that is not empty. -/
theorem toNat_last {totalLength : UInt64} (filled : ¬ totalLength = 0) :
    (totalLength - 1).toNat = totalLength.toNat - 1 ∧ 0 < totalLength.toNat := by
  have positive : 0 < totalLength.toNat := by
    rw [Nat.pos_iff_ne_zero]
    exact fun zero => filled (UInt64.toNat_inj.mp zero)
  have least : (1 : UInt64) ≤ totalLength := UInt64.le_iff_toNat_le.mpr positive
  exact ⟨UInt64.toNat_sub_of_le _ _ least, positive⟩

/-- There are bounds of what is selected, and none where nothing is. -/
theorem toBounds_spec (spec : RangeSpec) (totalLength : UInt64) :
    match spec.toBounds totalLength with
    | none => spec.selected totalLength = ∅
    | some (start, finish) => start ≤ finish ∧ finish < totalLength ∧
        spec.selected totalLength = Set.Icc start.toNat finish.toNat := by
  unfold toBounds
  by_cases empty : totalLength = 0
  · -- Nothing has no positions.
    rw [if_pos empty]
    ext position
    simp [selected, empty]
  · rw [if_neg empty]
    obtain ⟨last, positive⟩ := toNat_last empty
    cases spec with
    | range start finish =>
      dsimp only
      by_cases outside : start > finish ∨ start ≥ totalLength
      · rw [if_pos outside]
        rw [gt_iff_lt, ge_iff_le, UInt64.lt_iff_toNat_lt, UInt64.le_iff_toNat_le] at outside
        ext position
        simp only [selected, positions, Set.mem_inter_iff, Set.mem_ofPred_eq, Set.mem_Iio,
          Set.mem_empty_iff_false, iff_false]
        omega
      · rw [if_neg outside]
        rw [gt_iff_lt, ge_iff_le, UInt64.lt_iff_toNat_lt, UInt64.le_iff_toNat_le] at outside
        -- The end is cut off at the last position.
        have cut : (min finish (totalLength - 1)).toNat =
            min finish.toNat (totalLength.toNat - 1) := by
          change (if finish ≤ totalLength - 1 then finish else totalLength - 1).toNat = _
          rw [← last]
          split
          · rename_i below
            exact (min_eq_left (UInt64.le_iff_toNat_le.mp below)).symm
          · rename_i above
            have beyond := UInt64.le_of_lt (UInt64.not_le.mp above)
            exact (min_eq_right (UInt64.le_iff_toNat_le.mp beyond)).symm
        refine ⟨?_, ?_, ?_⟩
        · rw [UInt64.le_iff_toNat_le, cut]
          omega
        · rw [UInt64.lt_iff_toNat_lt, cut]
          omega
        · ext position
          simp only [selected, positions, Set.mem_inter_iff, Set.mem_ofPred_eq, Set.mem_Iio,
            Set.mem_Icc, cut]
          omega
    | fromStart start =>
      dsimp only
      by_cases outside : start ≥ totalLength
      · rw [if_pos outside]
        rw [ge_iff_le, UInt64.le_iff_toNat_le] at outside
        ext position
        simp only [selected, positions, Set.mem_inter_iff, Set.mem_ofPred_eq, Set.mem_Iio,
          Set.mem_empty_iff_false, iff_false]
        omega
      · rw [if_neg outside]
        rw [ge_iff_le, UInt64.le_iff_toNat_le] at outside
        refine ⟨?_, ?_, ?_⟩
        · rw [UInt64.le_iff_toNat_le, last]
          omega
        · rw [UInt64.lt_iff_toNat_lt, last]
          omega
        · ext position
          simp only [selected, positions, Set.mem_inter_iff, Set.mem_ofPred_eq, Set.mem_Iio,
            Set.mem_Icc, last]
          omega
    | suffix length =>
      dsimp only
      by_cases none : length = 0
      · rw [if_pos none]
        ext position
        simp only [selected, positions, none, Set.mem_inter_iff, Set.mem_ofPred_eq, Set.mem_Iio,
          Set.mem_empty_iff_false, iff_false, UInt64.toNat_zero]
        omega
      · rw [if_neg none]
        have some : 0 < length.toNat := (toNat_last none).2
        -- What is longer than the whole is all of it.
        have start : (if length > totalLength then (0 : UInt64) else totalLength - length).toNat =
            totalLength.toNat - length.toNat := by
          by_cases longer : length > totalLength
          · rw [if_pos longer]
            rw [gt_iff_lt, UInt64.lt_iff_toNat_lt] at longer
            rw [UInt64.toNat_zero]
            omega
          · rw [if_neg longer]
            exact UInt64.toNat_sub_of_le _ _ (UInt64.not_lt.mp longer)
        refine ⟨?_, ?_, ?_⟩
        · rw [UInt64.le_iff_toNat_le, start, last]
          omega
        · rw [UInt64.lt_iff_toNat_lt, last]
          omega
        · ext position
          simp only [selected, positions, Set.mem_inter_iff, Set.mem_ofPred_eq, Set.mem_Iio,
            Set.mem_Icc, last, start]
          omega

/-- There are bounds exactly where something is selected, and then they are those of it. -/
theorem toBounds_iff (spec : RangeSpec) (totalLength : UInt64) :
    ((spec.toBounds totalLength).isSome = true ↔ (spec.selected totalLength).Nonempty) ∧
    ∀ start finish, spec.toBounds totalLength = some (start, finish) →
      start ≤ finish ∧ finish < totalLength ∧
        spec.selected totalLength = Set.Icc start.toNat finish.toNat := by
  have bounds := toBounds_spec spec totalLength
  cases found : spec.toBounds totalLength with
  -- Without bounds the selection is empty.
  | none =>
    rw [found] at bounds
    dsimp only at bounds
    rw [bounds]
    exact ⟨by simp, fun _ _ same => by cases same⟩
  | some pair =>
    obtain ⟨start, finish⟩ := pair
    rw [found] at bounds
    dsimp only at bounds
    refine ⟨?_, fun _ _ same => by cases same; exact bounds⟩
    -- The bounds are in order, so they are selected themselves.
    rw [bounds.2.2, Set.nonempty_Icc]
    exact iff_of_true rfl (UInt64.le_iff_toNat_le.mp bounds.1)

/-- The start of a range is not behind its end. -/
def IsOrdered : RangeSpec → Prop
  -- A range that starts behind its end or behind the last position selects nothing.
  | range start finish => start ≤ finish
  | fromStart _ => True
  | suffix _ => True

/-- A range that is parsed is in order. -/
theorem isOrdered_of_parse {text : Str} {spec : RangeSpec} (parsed : parseRangeSpec text = .ok spec) :
    spec.IsOrdered := by
  unfold parseRangeSpec at parsed
  split at parsed
  · cases parsed
  · dsimp only at parsed
    split at parsed
    · cases parsed
    · split at parsed
      · split at parsed
        · cases parsed
        · cases parsed
          trivial
      · split at parsed
        · cases parsed
        · split at parsed
          · cases parsed
            trivial
          · split at parsed
            · cases parsed
            · -- Both ends are there, and they were compared.
              split at parsed
              · cases parsed
              · rename_i ordered
                cases parsed
                exact UInt64.not_lt.mp ordered

/-- A range in order is parsed again. -/
theorem parse_display {spec : RangeSpec} (ordered : spec.IsOrdered) :
    parseRangeSpec spec.display = .ok spec := by
  -- Digits are read, whether they stand before the dash or behind it.
  have digits : ∀ number : UInt64, Numerals.write 10 number.toNat ≠ [] ∧
      trim (Numerals.write 10 number.toNat) = Numerals.write 10 number.toNat ∧
      '-' ∉ Numerals.write 10 number.toNat := by
    intro number
    have are := (isDigits_write number.toNat).1
    obtain ⟨filled, trimmed, _⟩ := isDigits_plain are
    exact ⟨filled, trimmed.trim_eq, not_mem_digits are (by decide)⟩
  have none : trim [] = [] := rfl
  cases spec with
  | range start finish =>
    obtain ⟨here, first, dash⟩ := digits start
    obtain ⟨there, second, _⟩ := digits finish
    rw [display, parseRangeSpec, splitOnce_append dash]
    dsimp only
    rw [first, second, if_neg (by simp [here]), if_neg (by simpa using here), readU64_write]
    dsimp only
    rw [if_neg (by simpa using there), readU64_write]
    dsimp only
    rw [if_neg (UInt64.not_lt.mpr ordered)]
  -- The same without an end: the range goes on to the last position.
  | fromStart start =>
    obtain ⟨here, first, dash⟩ := digits start
    rw [display, parseRangeSpec, splitOnce_append dash]
    dsimp only
    rw [first, none, if_neg (by simp [here]), if_neg (by simpa using here), readU64_write]
    rfl
  -- The last positions, of which there may be none.
  | suffix length =>
    obtain ⟨here, first, _⟩ := digits length
    have split : splitOnce '-' ('-' :: Numerals.write 10 length.toNat) =
        some ([], Numerals.write 10 length.toNat) := rfl
    rw [display, parseRangeSpec, split]
    dsimp only
    rw [first, none, if_neg (by simp [here]), if_pos List.isEmpty_nil, readU64_write]

/-- A number behind the dash only is the length of a suffix. -/
example : parseRangeSpec "-500".toList = .ok (.suffix 500) := by decide +kernel

/-- A range is written without white space around it and without commas. -/
theorem display_plain (spec : RangeSpec) : spec.display ≠ [] ∧
    Trimming.IsTrimmed isWhitespace spec.display ∧ ',' ∉ spec.display := by
  -- There are only digits and a dash.
  have each : ∀ char ∈ spec.display, char = '-' ∨ isWhitespace char = false ∧ char ≠ ',' := by
    have digits : ∀ number : UInt64, ∀ char ∈ Numerals.write 10 number.toNat,
        isWhitespace char = false ∧ char ≠ ',' := by
      intro number
      exact Numerals.forall_mem_write (by decide) (by decide) number.toNat
    intro char inside
    cases spec with
    | range start finish =>
      rw [display, List.mem_append, List.mem_cons] at inside
      rcases inside with front | dash | back
      · exact .inr (digits start char front)
      · exact .inl dash
      · exact .inr (digits finish char back)
    | fromStart start =>
      rw [display, List.mem_append, List.mem_singleton] at inside
      rcases inside with front | dash
      · exact .inr (digits start char front)
      · exact .inl dash
    | suffix length =>
      rw [display, List.mem_cons] at inside
      rcases inside with dash | back
      · exact .inl dash
      · exact .inr (digits length char back)
  refine ⟨by cases spec <;> simp [display], Trimming.isTrimmed_of_none fun char inside => ?_, ?_⟩
  · rcases each char inside with rfl | dark
    · decide
    · exact dark.1
  · intro comma
    rcases each ',' comma with dash | other
    · exact absurd dash (by decide)
    · exact other.2 rfl

end RangeSpec

namespace Range

/-- The ranges of a field have a unit that is a token, and are in order. -/
theorem parse_wellFormed {input : Str} {range : Range} (parsed : parse input = .ok range) :
    isToken range.unit = true ∧ range.ranges ≠ [] ∧ ∀ spec ∈ range.ranges, spec.IsOrdered := by
  unfold parse at parsed
  dsimp only at parsed
  split at parsed
  · cases parsed
  · split at parsed
    · cases parsed
    · split at parsed
      · cases parsed
      · rename_i token
        split at parsed
        · cases parsed
        · rename_i ranges elements
          split at parsed
          · cases parsed
          · rename_i filled
            cases parsed
            -- Only one branch is left, in which all checks have passed.
            exact ⟨by simpa using token, by simpa using filled,
              forall_of_parseElements elements fun _ _ => RangeSpec.isOrdered_of_parse⟩

/-- Ranges of a field are the same when they are parsed again. -/
theorem parse_display {range : Range} (token : isToken range.unit = true)
    (present : range.ranges ≠ []) (ordered : ∀ spec ∈ range.ranges, spec.IsOrdered) :
    parse range.display = .ok range := by
  obtain ⟨unit, ranges⟩ := range
  obtain ⟨filled, trimmed⟩ := isToken_trimmed token
  -- No printed range has a comma or white space at its ends.
  have printed : ∀ text ∈ ranges.map RangeSpec.display,
      text ≠ [] ∧ Trimming.IsTrimmed isWhitespace text ∧ ',' ∉ text :=
    List.forall_mem_map.mpr fun spec _ => spec.display_plain
  have joined := Trimming.isTrimmed_intercalate ", ".toList fun text inside =>
    ⟨(printed text inside).1, (printed text inside).2.1⟩
  have shown := joined.2 (by simpa using present)
  -- Neither the whole field nor what stands behind the sign is trimmed.
  have whole : trim (display ⟨unit, ranges⟩) = display ⟨unit, ranges⟩ :=
    (isTrimmed_signed trimmed shown joined.1).trim_eq
  have back : trim (", ".toList.intercalate (ranges.map RangeSpec.display)) = _ := joined.1.trim_eq
  have front : trim unit = unit := trimmed.trim_eq
  have sign : '=' ∉ unit := not_mem_token token (by decide +kernel)
  -- The commas are those that join, each with a space behind it.
  have split : (", ".toList.intercalate (ranges.map RangeSpec.display)).splitOn ',' =
      Cutting.padded ' ' (ranges.map RangeSpec.display) :=
    Separating.splitOn_padded (fun text inside => (printed text inside).2.2) (by simpa using present)
      (by decide)
  have elements : parseElements trim parseRangeSpec
      (Cutting.padded ' ' (ranges.map RangeSpec.display)) = .ok ranges := by
    rw [parseElements_padded (fun text inside => (printed text inside).1)
      fun text inside => trimmed_space (printed text inside).2.1, List.forall₂_map_left_iff]
    exact List.forall₂_same.mpr fun spec inside => RangeSpec.parse_display (ordered spec inside)
  unfold parse
  dsimp only
  rw [whole, if_neg (by simp [display]), display, splitOnce_append sign]
  dsimp only
  rw [front, if_neg (by simp [token]), back, split, elements]
  dsimp only
  rw [if_neg (by simpa using present)]

end Range

namespace ContentRange

/-- The range of bytes within bounds is made, its length is that of the bounds, and it is the same
when it is parsed again. -/
theorem newBytes_spec {start finish totalLength : UInt64} (ordered : start ≤ finish)
    (within : finish < totalLength) :
    ∃ range, newBytes start finish (some totalLength) = some range ∧
      range.length.map UInt64.toNat = some (finish.toNat - start.toNat + 1) ∧
      parse range.display = .ok range := by
  refine ⟨⟨"bytes".toList, some start, some finish, some totalLength⟩, ?_, ?_, ?_⟩
  · rw [newBytes, if_neg (by simpa using ordered)]
    rw [if_neg (by simpa using within)]
  · have difference : (finish - start).toNat = finish.toNat - start.toNat :=
      UInt64.toNat_sub_of_le _ _ ordered
    rw [UInt64.lt_iff_toNat_lt] at within
    have top := totalLength.toNat_lt
    rw [length]
    dsimp only
    -- The end is before the length, so one more than the difference is no more than that.
    rw [if_neg (UInt64.not_lt.mpr ordered), if_neg (by rw [difference, u64Max]; omega),
      Option.map_some, UInt64.toNat_add, difference, UInt64.toNat_one, Nat.mod_eq_of_lt (by omega)]
  · have digits := fun number : UInt64 => (isDigits_write number.toNat).1
    -- There are only digits around the dash.
    have plain : ∀ other : Char, other.isDigit = false → other ≠ '-' →
        other ∉ Numerals.write 10 start.toNat ++ '-' :: Numerals.write 10 finish.toNat := by
      intro other refused different
      simp [not_mem_digits (digits start) refused, not_mem_digits (digits finish) refused, different]
    have slash := plain '/' (by decide) (by decide)
    have stars := plain '*' (by decide) (by decide)
    have dash := not_mem_digits (digits start) (by decide : '-'.isDigit = false)
    have star : ∀ text : Str, '*' ∉ text → text ≠ ['*'] := by
      rintro text other rfl
      exact other List.mem_cons_self
    obtain ⟨_, first, _⟩ := isDigits_plain (digits start)
    obtain ⟨present, second, _⟩ := isDigits_plain (digits finish)
    obtain ⟨filled, third, _⟩ := isDigits_plain (digits totalLength)
    have bounds := first.behind (by decide : isWhitespace '-' = false) present second
    have value := bounds.behind (by decide : isWhitespace '/' = false) filled third
    have unit : Trimming.IsTrimmed isWhitespace "bytes".toList :=
      Trimming.isTrimmed_of_none (by decide +kernel)
    have whole := Trimming.isTrimmed_append [' '] (by decide) (by simp) unit value
    generalize written : display _ = text
    have same : text = "bytes".toList ++ ([' '] ++ ((Numerals.write 10 start.toNat ++
        '-' :: Numerals.write 10 finish.toNat) ++ '/' :: Numerals.write 10 totalLength.toNat)) := by
      rw [← written]
      simp [display]
    have cut : text = "bytes".toList ++ ' ' :: ((Numerals.write 10 start.toNat ++
        '-' :: Numerals.write 10 finish.toNat) ++ '/' :: Numerals.write 10 totalLength.toNat) := same
    have shown : trim text = text := by
      rw [same]
      exact whole.trim_eq
    have rest : trim ((Numerals.write 10 start.toNat ++ '-' :: Numerals.write 10 finish.toNat) ++
        '/' :: Numerals.write 10 totalLength.toNat) = _ := value.trim_eq
    have front : trim "bytes".toList = "bytes".toList := unit.trim_eq
    have pair : trim (Numerals.write 10 start.toNat ++ '-' :: Numerals.write 10 finish.toNat) = _ :=
      bounds.trim_eq
    have last : trim (Numerals.write 10 totalLength.toNat) = _ := third.trim_eq
    unfold parse
    dsimp only
    rw [shown, if_neg (by rw [cut]; simp), cut, splitOnce_append (by decide)]
    dsimp only
    rw [front, if_neg (by decide +kernel), rest, splitOnce_append slash]
    dsimp only
    rw [pair, last, if_neg (star _ (not_mem_digits (digits totalLength) (by decide))), readU64_write]
    dsimp only
    rw [if_neg (star _ stars), splitOnce_append dash]
    dsimp only
    rw [readU64_write]
    dsimp only
    rw [readU64_write]
    dsimp only
    rw [validateContentRangeParts, if_neg (UInt64.not_lt.mpr ordered)]
    rw [if_neg (UInt64.not_le.mpr within)]

end ContentRange

/-- A range has bounds exactly where it selects something, and these bounds are those of what it
selects: a message can hold the bytes within them, says how many they are, and what it says is read
again. Ranges that are asked for are the same when they are parsed again. -/
theorem ranges_resolve :
    (∀ (spec : RangeSpec) (totalLength : UInt64),
      ((spec.toBounds totalLength).isSome = true ↔ (spec.selected totalLength).Nonempty) ∧
      ∀ start finish, spec.toBounds totalLength = some (start, finish) →
        Set.Icc start.toNat finish.toNat = spec.selected totalLength ∧
        ∃ range, ContentRange.newBytes start finish (some totalLength) = some range ∧
          range.length.map UInt64.toNat = some (finish.toNat - start.toNat + 1) ∧
          ContentRange.parse range.display = .ok range) ∧
    ∀ input range, Range.parse input = .ok range → Range.parse range.display = .ok range := by
  refine ⟨fun spec totalLength => ?_, fun input range parsed => ?_⟩
  · obtain ⟨exact, bounds⟩ := RangeSpec.toBounds_iff spec totalLength
    refine ⟨exact, fun start finish found => ?_⟩
    obtain ⟨ordered, within, same⟩ := bounds start finish found
    exact ⟨same.symm, ContentRange.newBytes_spec ordered within⟩
  · obtain ⟨token, present, ordered⟩ := Range.parse_wellFormed parsed
    exact Range.parse_display token present ordered

/-- The last five hundred of a thousand bytes are those from the five hundredth on, and a list of
ranges is written with spaces behind its commas. -/
theorem ranges_resolve_suffix :
    Set.Icc 500 999 = RangeSpec.selected (.suffix 500) 1000 ∧
    Range.parse "bytes=0-4, -5".toList = .ok ⟨"bytes".toList, [.range 0 4, .suffix 5]⟩ :=
  ⟨((ranges_resolve.1 (.suffix 500) 1000).2 500 999 (by decide)).1,
    ranges_resolve.2 "bytes= 0-4,,-5".toList ⟨"bytes".toList, [.range 0 4, .suffix 5]⟩
      (by decide +kernel)⟩

end Http11

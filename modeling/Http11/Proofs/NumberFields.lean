import Http11.NumberFields
import Http11.Proofs.Quoting

/-! When the numbers of ranges and dates are written with digits only. -/

namespace Http11

/-- A text that is read as what is reported for its field. -/
def IsRead (reporting : Reporting) (text : NumberField × Str) (number : NumberField × Nat) : Prop :=
  text.1 = number.1 ∧ ∃ limit value, Numerals.read 10 limit text.2 = some value ∧
    reporting text.1 text.2 value = number.2

/-- A text that is read consists of digits only unless there is a plus sign in front. -/
theorem IsRead.numeral_iff {reporting : Reporting} {text : NumberField × Str}
    {number : NumberField × Nat} (read : IsRead reporting text number) :
    IsNumeral reporting text number ↔ text.2.head? ≠ some '+' := by
  obtain ⟨field, limit, value, found, reported⟩ := read
  constructor
  · intro ⟨_, digits, _⟩ plus
    -- A sign is no digit.
    exact absurd (digits.2 '+' (List.mem_of_head? plus)) (by decide)
  · intro unsigned
    obtain ⟨digits, same | same, present, are, denotes, _⟩ := (Numerals.read_iff (by decide)).mp found
    · rw [← same] at present are denotes
      exact ⟨field, ⟨present, (areDigits_iff _).mp are⟩, by rw [denotes, reported]⟩
    · rw [same] at unsigned
      exact absurd rfl unsigned

/-- Texts that are read consist of digits only exactly when none has a plus sign in front. -/
theorem areNumerals_iff {reporting : Reporting} {texts : List (NumberField × Str)}
    {numbers : List (NumberField × Nat)} (read : List.Forall₂ (IsRead reporting) texts numbers) :
    AreNumerals reporting texts numbers ↔ AreUnsigned texts := by
  unfold AreNumerals AreUnsigned
  induction read with
  | nil => exact iff_of_true .nil (List.forall_mem_nil _)
  | cons first others ih =>
    rw [List.forall₂_cons, first.numeral_iff, ih, List.forall_mem_cons]

/-- A number of sixty-four bits is read. -/
theorem readU64_isRead {text : Str} {number : UInt64} (found : readU64 text = some number)
    (field : NumberField) : IsRead asWritten (field, text) (field, number.toNat) := by
  obtain ⟨value, read, rfl⟩ := Option.map_eq_some_iff.mp found
  have fits : value < 2 ^ 64 := Nat.lt_succ_of_le (Numerals.read_le read)
  exact ⟨rfl, u64Max, value, read, (UInt64.toNat_ofNat_of_lt' fits).symm⟩

/-- The numbers of a range are read. -/
theorem RangeSpec.numbers_read {part : Str} {spec : RangeSpec}
    (parsed : parseRangeSpec part = .ok spec) :
    List.Forall₂ (IsRead asWritten) (numberTexts part) spec.numbers := by
  unfold parseRangeSpec at parsed
  split at parsed
  · cases parsed
  · rename_i front back split
    rw [numberTexts, split]
    dsimp only at parsed ⊢
    split at parsed
    · cases parsed
    · split at parsed
      · -- Nothing stands before the dash.
        rename_i none
        rw [if_pos (List.isEmpty_iff.mp none)]
        split at parsed
        · cases parsed
        · rename_i length read
          cases parsed
          exact .cons (readU64_isRead read _) .nil
      · rename_i some
        rw [if_neg (by simpa using some)]
        split at parsed
        · cases parsed
        · rename_i start first
          split at parsed
          · rename_i none
            cases parsed
            rw [if_pos (List.isEmpty_iff.mp none)]
            exact .cons (readU64_isRead first _) .nil
          · rename_i more
            rw [if_neg (by simpa using more)]
            split at parsed
            · cases parsed
            · rename_i finish last
              split at parsed
              · cases parsed
              · cases parsed
                exact .cons (readU64_isRead first _) (.cons (readU64_isRead last _) .nil)

/-- The numbers of ranges are read. -/
theorem Range.numbers_read {input : Str} {range : Range} (parsed : parse input = .ok range) :
    List.Forall₂ (IsRead asWritten) (numberTexts input) range.numbers := by
  unfold parse at parsed
  dsimp only at parsed
  split at parsed
  · cases parsed
  · split at parsed
    · cases parsed
    · rename_i front back split
      split at parsed
      · cases parsed
      · split at parsed
        · cases parsed
        · rename_i ranges elements
          split at parsed
          · cases parsed
          · cases parsed
            rw [numberTexts, split]
            -- Each part between commas is one range.
            have parts := parseElements_iff.mp elements
            exact List.rel_flatMap parts fun _ _ => RangeSpec.numbers_read

/-- The numbers of a held range are read. -/
theorem ContentRange.numbers_read {input : Str} {range : ContentRange}
    (parsed : parse input = .ok range) :
    List.Forall₂ (IsRead asWritten) (numberTexts input) range.numbers := by
  unfold parse at parsed
  dsimp only at parsed
  split at parsed
  · cases parsed
  · split at parsed
    · cases parsed
    · rename_i unit rest split
      split at parsed
      · cases parsed
      · split at parsed
        · cases parsed
        · rename_i range length cut
          split at parsed
          · cases parsed
          · rename_i completeLength complete
            -- The length is a star or a number.
            have behind : List.Forall₂ (IsRead asWritten)
                (if trim length = ['*'] then [] else [(.completeLength, trim length)])
                (completeLength.map fun length => (.completeLength, length.toNat)).toList := by
              split at complete
              · rename_i star
                cases complete
                rw [if_pos star]
                exact .nil
              · rename_i other
                rw [if_neg other]
                split at complete
                · cases complete
                · rename_i number read
                  cases complete
                  exact .cons (readU64_isRead read _) .nil
            split at parsed
            · rename_i star
              split at parsed
              · cases parsed
              · cases parsed
                have undivided : splitOnce '-' ['*'] = none := by decide
                rw [numberTexts, split]
                dsimp only
                rw [cut]
                dsimp only
                rw [star, undivided]
                exact behind
            · split at parsed
              · cases parsed
              · rename_i first last dash
                split at parsed
                · cases parsed
                · rename_i start here
                  split at parsed
                  · cases parsed
                  · rename_i finish there
                    split at parsed
                    · cases parsed
                    · cases parsed
                      rw [numberTexts, split]
                      dsimp only
                      rw [cut]
                      dsimp only
                      rw [dash]
                      exact .cons (readU64_isRead here _) (.cons (readU64_isRead there _) behind)

section Dates

/-- A number of eight bits is read. -/
theorem parseU8_isRead {reporting : Reporting} {text : Str} {number : UInt8} {field : NumberField}
    (found : parseU8 text = some number) (plain : ∀ value, reporting field text value = value) :
    IsRead reporting (field, text) (field, number.toNat) := by
  obtain ⟨value, read, rfl⟩ := Option.map_eq_some_iff.mp found
  have fits : value < 2 ^ 8 := Nat.lt_succ_of_le (Numerals.read_le read)
  refine ⟨rfl, 255, value, read, ?_⟩
  rw [plain]
  exact (UInt8.toNat_ofNat_of_lt' fits).symm

/-- A year as it is written is read. -/
theorem parseU16_isRead {text : Str} {number : Nat} (found : parseU16 text = some number) :
    (UInt16.ofNat number).toNat = number :=
  UInt16.toNat_ofNat_of_lt' (Nat.lt_succ_of_le (Numerals.read_le found))

/-- The numbers of a time are read. -/
theorem parseTime_isRead {reporting : Reporting} {time : Str} {hour minute second : UInt8}
    (parsed : parseTime time = .ok (hour, minute, second))
    (plain : ∀ field ≠ .year, ∀ text value, reporting field text value = value) :
    List.Forall₂ (IsRead reporting) (timeTexts time)
      [(.hour, hour.toNat), (.minute, minute.toNat), (.second, second.toNat)] := by
  unfold parseTime at parsed
  split at parsed
  · rename_i hourText minuteText secondText split
    rw [timeTexts, split]
    dsimp only
    -- Each of the three texts must be a number, and all of them must be in range.
    cases first : parseU8 hourText with
    | none => simp [first] at parsed
    | some one =>
      cases second : parseU8 minuteText with
      | none => simp [first, second] at parsed
      | some two =>
        cases third : parseU8 secondText with
        | none => simp [first, second, third] at parsed
        | some three =>
          simp only [first, second, third] at parsed
          repeat' split at parsed
          all_goals cases parsed
          exact .cons (parseU8_isRead first (plain _ (by decide) _))
            (.cons (parseU8_isRead second (plain _ (by decide) _))
            (.cons (parseU8_isRead third (plain _ (by decide) _)) .nil))
  · cases parsed

namespace HttpDate

/-- A date that is made has the numbers that it is made of. -/
theorem numbers_new {dayOfWeek : DayOfWeek} {day month : UInt8} {year : UInt16}
    {hour minute second : UInt8} {date : HttpDate}
    (made : new dayOfWeek day month year hour minute second = .ok date) :
    date.numbers = [(.day, day.toNat), (.year, year.toNat), (.hour, hour.toNat),
      (.minute, minute.toNat), (.second, second.toNat)] := by
  unfold new at made
  repeat' split at made
  all_goals cases made
  rfl

/-- The numbers of a date are read one after the other. -/
theorem numbers_isRead {reporting : Reporting} {dayOfWeek : DayOfWeek} {day month : UInt8}
    {year : UInt16} {hour minute second : UInt8} {date : HttpDate} {dayText yearText time : Str}
    (made : new dayOfWeek day month year hour minute second = .ok date)
    (readDay : parseU8 dayText = some day)
    (readYear : IsRead reporting (.year, yearText) (.year, year.toNat))
    (readTime : parseTime time = .ok (hour, minute, second))
    (plain : ∀ field ≠ .year, ∀ text value, reporting field text value = value) :
    List.Forall₂ (IsRead reporting) ((.day, dayText) :: (.year, yearText) :: timeTexts time)
      date.numbers := by
  rw [numbers_new made]
  exact .cons (parseU8_isRead readDay (plain _ (by decide) _))
    (.cons readYear (parseTime_isRead readTime plain))

/-- The numbers of a date in the preferred form are read. -/
theorem parseImfFixdate_read {dayName rest : Str} {date : HttpDate}
    (parsed : parseImfFixdate dayName rest = .ok date) :
    ∃ day month year time zone, splitWhitespace rest = [day, month, year, time, zone] ∧
      List.Forall₂ (IsRead asWritten) ((.day, day) :: (.year, year) :: timeTexts time)
        date.numbers := by
  unfold parseImfFixdate at parsed
  -- The five words are split first, and each of them is read on its own.
  split at parsed
  · cases parsed
  · split at parsed
    · rename_i dayText monthText yearText time zone split
      refine ⟨dayText, monthText, yearText, time, zone, split, ?_⟩
      split at parsed
      · cases parsed
      · rename_i day readDay
        split at parsed
        · cases parsed
        · split at parsed
          · cases parsed
          · rename_i year readYear
            split at parsed
            · cases parsed
            · rename_i hour minute second readTime
              split at parsed
              · cases parsed
              · -- The year is reported as it is written in this form.
                have same := parseU16_isRead readYear
                exact numbers_isRead parsed readDay ⟨rfl, u16Max, year, readYear, same.symm⟩ readTime
                  fun _ _ _ _ => rfl
    · cases parsed

/-- The numbers of a date without a comma are read. -/
theorem parseAsctime_read {input : Str} {date : HttpDate}
    (parsed : parseAsctime input = .ok date) :
    ∃ dayName month day time year, splitWhitespace input = [dayName, month, day, time, year] ∧
      List.Forall₂ (IsRead asWritten) ((.day, day) :: (.year, year) :: timeTexts time)
        date.numbers := by
  unfold parseAsctime at parsed
  split at parsed
  · rename_i dayName monthText dayText time yearText split
    refine ⟨dayName, monthText, dayText, time, yearText, split, ?_⟩
    -- The name of the day, the month, the day, the time and the year follow one another.
    split at parsed
    · cases parsed
    · split at parsed
      · cases parsed
      · split at parsed
        · cases parsed
        · rename_i day readDay
          split at parsed
          · cases parsed
          · rename_i hour minute second readTime
            split at parsed
            · cases parsed
            · rename_i year readYear
              -- The year is reported as it is written in this form.
              have same := parseU16_isRead readYear
              exact numbers_isRead parsed readDay ⟨rfl, u16Max, year, readYear, same.symm⟩ readTime
                fun _ _ _ _ => rfl
  · cases parsed

/-- The numbers of a date with hyphens are read, its year near the year of reference. -/
theorem parseRfc850Inner_read {dayName rest : Str} {referenceYear : UInt16} {date : HttpDate}
    (parsed : parseRfc850Inner dayName rest referenceYear = .ok date) :
    ∃ dateText time zone day month year, splitWhitespace rest = [dateText, time, zone] ∧
      dateText.splitOn '-' = [day, month, year] ∧
      List.Forall₂ (IsRead (nearYear referenceYear))
        ((.day, day) :: (.year, year) :: timeTexts time) date.numbers := by
  unfold parseRfc850Inner at parsed
  split at parsed
  · cases parsed
  · split at parsed
    · rename_i dateText time zone split
      split at parsed
      · rename_i dayText monthText yearText cut
        refine ⟨dateText, time, zone, dayText, monthText, yearText, split, cut, ?_⟩
        split at parsed
        · cases parsed
        · rename_i day readDay
          split at parsed
          · cases parsed
          · split at parsed
            · cases parsed
            · rename_i rawYear readYear
              dsimp only at parsed
              split at parsed
              · cases parsed
              · rename_i hour minute second readTime
                split at parsed
                · cases parsed
                · refine numbers_isRead parsed readDay ⟨rfl, u16Max, rawYear, readYear, ?_⟩ readTime
                    fun field other _ _ => if_neg fun both => other both.1
                  -- Two digits are resolved, and other years are taken as they are.
                  by_cases short : byteLength yearText = 2
                  · rw [nearYear, if_pos ⟨rfl, short⟩, if_pos short]
                  · rw [nearYear, if_neg fun both => short both.2, if_neg short]
                    exact (parseU16_isRead readYear).symm
      · cases parsed
    · cases parsed

/-- The numbers of a date are read. -/
theorem numbers_read {input : Str} {date : HttpDate} (parsed : parse input = .ok date) :
    List.Forall₂ (IsRead asWritten) (numberTexts input) date.numbers := by
  unfold parse at parsed
  dsimp only at parsed
  split at parsed
  · cases parsed
  · -- A comma tells the preferred form from the one without it.
    split at parsed
    · rename_i dayName rest comma
      split at parsed
      · cases parsed
      · obtain ⟨day, month, year, time, zone, split, read⟩ := parseImfFixdate_read parsed
        rw [numberTexts, comma]
        dsimp only
        rw [split]
        exact read
    · rename_i comma
      obtain ⟨dayName, month, day, time, year, split, read⟩ := parseAsctime_read parsed
      rw [numberTexts, comma]
      dsimp only
      rw [split]
      exact read

/-- The numbers of a date with hyphens are read. -/
theorem rfc850Numbers_read {input : Str} {referenceYear : UInt16} {date : HttpDate}
    (parsed : parseRfc850 input referenceYear = .ok date) :
    List.Forall₂ (IsRead (nearYear referenceYear)) (rfc850NumberTexts input) date.numbers := by
  unfold parseRfc850 at parsed
  dsimp only at parsed
  -- The name of the day stands in front of the comma in this form.
  split at parsed
  · cases parsed
  · split at parsed
    · cases parsed
    · rename_i dayName rest comma
      split at parsed
      · cases parsed
      · obtain ⟨dateText, time, zone, day, month, year, split, cut, read⟩ :=
          parseRfc850Inner_read parsed
        rw [rfc850NumberTexts, comma]
        dsimp only
        rw [split]
        dsimp only
        rw [cut]
        exact read

end HttpDate

end Dates

/-- Every number of a field that is accepted is written with digits only exactly when none has a
plus sign in front, in ranges that are asked for or held and in dates of all three forms. -/
theorem numerals_unsigned (input : Str) :
    (∀ range, Range.parse input = .ok range →
      (AreNumerals asWritten (Range.numberTexts input) range.numbers ↔
        AreUnsigned (Range.numberTexts input))) ∧
    (∀ range, ContentRange.parse input = .ok range →
      (AreNumerals asWritten (ContentRange.numberTexts input) range.numbers ↔
        AreUnsigned (ContentRange.numberTexts input))) ∧
    (∀ date, HttpDate.parse input = .ok date →
      (AreNumerals asWritten (HttpDate.numberTexts input) date.numbers ↔
        AreUnsigned (HttpDate.numberTexts input))) ∧
    ∀ referenceYear date, HttpDate.parseRfc850 input referenceYear = .ok date →
      (AreNumerals (nearYear referenceYear) (HttpDate.rfc850NumberTexts input) date.numbers ↔
        AreUnsigned (HttpDate.rfc850NumberTexts input)) :=
  ⟨fun _ parsed => areNumerals_iff (Range.numbers_read parsed),
    fun _ parsed => areNumerals_iff (ContentRange.numbers_read parsed),
    fun _ parsed => areNumerals_iff (HttpDate.numbers_read parsed),
    fun _ _ parsed => areNumerals_iff (HttpDate.rfc850Numbers_read parsed)⟩

/-- Ranges from the start on and a date on the sixth of a month are written with digits only. -/
theorem numerals_unsigned_plain :
    AreNumerals asWritten (Range.numberTexts "bytes=0-5, -7".toList)
      [(.firstPos, 0), (.lastPos, 5), (.suffixLength, 7)] ∧
    AreNumerals asWritten (ContentRange.numberTexts "bytes 0-5/8".toList)
      [(.firstPos, 0), (.lastPos, 5), (.completeLength, 8)] ∧
    AreNumerals asWritten (HttpDate.numberTexts "Sun, 06 Nov 1994 08:49:37 GMT".toList)
      [(.day, 6), (.year, 1994), (.hour, 8), (.minute, 49), (.second, 37)] ∧
    AreNumerals (nearYear 2026) (HttpDate.rfc850NumberTexts "Sun, 06-Nov-94 08:49:37 GMT".toList)
      [(.day, 6), (.year, 1994), (.hour, 8), (.minute, 49), (.second, 37)] := by
  -- Each reader has its own part of the theorem.
  have ranges := (numerals_unsigned "bytes=0-5, -7".toList).1
  have held := (numerals_unsigned "bytes 0-5/8".toList).2.1
  have dates := (numerals_unsigned "Sun, 06 Nov 1994 08:49:37 GMT".toList).2.2.1
  have rfc850 := (numerals_unsigned "Sun, 06-Nov-94 08:49:37 GMT".toList).2.2.2
  exact ⟨(ranges ⟨"bytes".toList, [.range 0 5, .suffix 7]⟩
      (by decide)).mpr (by decide),
    (held ⟨"bytes".toList, some 0, some 5, some 8⟩
      (by decide)).mpr (by decide),
    (dates ⟨.sunday, 6, 11, 1994, 8, 49, 37, by decide⟩
      (by decide)).mpr (by decide),
    (rfc850 2026 ⟨.sunday, 6, 11, 1994, 8, 49, 37, by decide⟩
      (by decide)).mpr (by decide)⟩

/-- Numbers with plus signs are accepted in ranges and in dates of all forms. -/
theorem plus_accepted :
    (∃ range, Range.parse "bytes=+0-5".toList = .ok range ∧
      ¬ AreNumerals asWritten (Range.numberTexts "bytes=+0-5".toList) range.numbers) ∧
    (∃ range, ContentRange.parse "bytes 0-5/+8".toList = .ok range ∧
      ¬ AreNumerals asWritten (ContentRange.numberTexts "bytes 0-5/+8".toList) range.numbers) ∧
    (∃ date, HttpDate.parse "Sun, +6 Nov 1994 08:49:37 GMT".toList = .ok date ∧
      ¬ AreNumerals asWritten (HttpDate.numberTexts "Sun, +6 Nov 1994 08:49:37 GMT".toList)
        date.numbers) ∧
    ∃ date, HttpDate.parseRfc850 "Sun, 06-Nov-1994 +8:49:37 GMT".toList 2026 = .ok date ∧
      ¬ AreNumerals (nearYear 2026)
        (HttpDate.rfc850NumberTexts "Sun, 06-Nov-1994 +8:49:37 GMT".toList) date.numbers := by
  refine ⟨⟨⟨"bytes".toList, [.range 0 5]⟩, by decide, fun numerals => ?_⟩,
    ⟨⟨"bytes".toList, some 0, some 5, some 8⟩, by decide, fun numerals => ?_⟩,
    ⟨⟨.sunday, 6, 11, 1994, 8, 49, 37, by decide⟩, by decide, fun numerals => ?_⟩,
    ⟨⟨.sunday, 6, 11, 1994, 8, 49, 37, by decide⟩, by decide, fun numerals => ?_⟩⟩
  · -- In each text one of the numbers has a plus sign, which is no digit.
    exact absurd ((areNumerals_iff (Range.numbers_read (by decide))).mp numerals)
      (by decide)
  · exact absurd ((areNumerals_iff (ContentRange.numbers_read (by decide))).mp numerals)
      (by decide)
  · exact absurd ((areNumerals_iff (HttpDate.numbers_read (by decide))).mp numerals)
      (by decide)
  · exact absurd ((areNumerals_iff (HttpDate.rfc850Numbers_read (by decide))).mp numerals)
      (by decide)

end Http11

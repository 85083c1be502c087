import Http11.Date
import Http11.Proofs.Quoting

/-! Dates are the same when they are parsed again. -/

namespace Http11

/-- Words that are joined with spaces are found again. -/
theorem splitWhitespace_join {words : List Str}
    (plain : ∀ word ∈ words, word ≠ [] ∧ ∀ char ∈ word, isWhitespace char = false) :
    splitWhitespace ([' '].intercalate words) = words := by
  have keeps : ∀ (word : Str) (others : List Str), word ≠ [] →
      (word :: others).filter (fun word => !word.isEmpty) =
        word :: others.filter fun word => !word.isEmpty :=
    fun word others filled => List.filter_cons_of_pos (by simp [filled])
  induction words with
  | nil => rfl
  | cons word others ih =>
    obtain ⟨⟨filled, dark⟩, behind⟩ := List.forall_mem_cons.mp plain
    cases others with
    | nil =>
      rw [List.intercalate_singleton, splitWhitespace, List.splitOnP_eq_singleton dark,
        keeps word _ filled]
      rfl
    | cons second others =>
      -- The space behind the first word ends it.
      rw [List.intercalate_cons_cons, List.append_assoc, List.singleton_append, splitWhitespace,
        List.splitOnP_append_cons_of_forall_mem dark ' ' (by decide), keeps word _ filled]
      exact congrArg (word :: ·) (ih behind)

/-- A byte is read from its padded number. -/
theorem parseU8_writePadded (value : UInt8) (width : Nat) :
    parseU8 (Numerals.writePadded 10 width value.toNat) = some value := by
  have small : value.toNat ≤ 255 := Nat.le_of_lt_succ value.toNat_lt
  rw [parseU8, Numerals.read_writePadded (by decide) (by decide) small, Option.map_some,
    UInt8.ofNat_toNat]

/-- A character of a word of a date. -/
def IsDateChar (char : Char) : Prop :=
  isWhitespace char = false ∧ char ≠ ',' ∧ char ≠ '-' ∧ char ≠ ';'

/-- A word of a date. -/
structure IsDateWord (word : Str) : Prop where
  /-- There is something in it. -/
  filled : word ≠ []
  /-- Neither white space nor something with a meaning around dates is in it. -/
  plain : ∀ char ∈ word, IsDateChar char

/-- A word of a date has no commas, no hyphens and no semicolons in it. -/
theorem IsDateWord.not_mem {word : Str} (holds : IsDateWord word) :
    ',' ∉ word ∧ '-' ∉ word ∧ ';' ∉ word :=
  ⟨fun inside => (holds.plain ',' inside).2.1 rfl, fun inside => (holds.plain '-' inside).2.2.1 rfl,
    fun inside => (holds.plain ';' inside).2.2.2 rfl⟩

/-- Padded decimal numbers are words of dates without colons. -/
theorem writePadded_word (width value : Nat) :
    IsDateWord (Numerals.writePadded 10 width value) ∧ ':' ∉ Numerals.writePadded 10 width value := by
  -- The ten digits are looked at one by one.
  have digits : ∀ digit < 10, isWhitespace (Numerals.digitChar digit) = false ∧
      Numerals.digitChar digit ≠ ',' ∧ Numerals.digitChar digit ≠ '-' ∧
      Numerals.digitChar digit ≠ ';' ∧ Numerals.digitChar digit ≠ ':' := by decide
  have plain : ∀ char ∈ Numerals.writePadded 10 width value, IsDateChar char ∧ char ≠ ':' := by
    refine Numerals.forall_mem_writePadded (by decide) (fun digit below => ?_) width value
    obtain ⟨dark, comma, hyphen, semicolon, colon⟩ := digits digit below
    exact ⟨⟨dark, comma, hyphen, semicolon⟩, colon⟩
  exact ⟨⟨Numerals.writePadded_ne_nil (by decide) width value, fun char inside =>
    (plain char inside).1⟩, fun inside => (plain ':' inside).2 rfl⟩

/-- Short names are words of dates and are read again. -/
theorem fromName_shortName (day : DayOfWeek) :
    DayOfWeek.fromName day.shortName = some day ∧ IsDateWord day.shortName := by
  have named : DayOfWeek.fromName day.shortName = some day := by cases day <;> decide
  have plain : day.shortName ≠ [] ∧ ∀ char ∈ day.shortName,
      isWhitespace char = false ∧ char ≠ ',' ∧ char ≠ '-' ∧ char ≠ ';' := by cases day <;> decide +kernel
  exact ⟨named, plain.1, plain.2⟩

/-- Names of months are words of dates and are read again. -/
theorem parseMonth_monthName {month : UInt8} (valid : 1 ≤ month ∧ month ≤ 12) :
    parseMonth (monthName month) = .ok month ∧ IsDateWord (monthName month) := by
  -- All bytes are checked, of which twelve are months.
  have checked : ∀ value : Fin 256, 1 ≤ UInt8.ofNat value.val ∧ UInt8.ofNat value.val ≤ 12 →
      parseMonth (monthName (UInt8.ofNat value.val)) = .ok (UInt8.ofNat value.val) ∧
        monthName (UInt8.ofNat value.val) ≠ [] ∧ ∀ char ∈ monthName (UInt8.ofNat value.val),
          isWhitespace char = false ∧ char ≠ ',' ∧ char ≠ '-' ∧ char ≠ ';' := by
    decide +kernel
  have here := checked ⟨month.toNat, month.toNat_lt⟩
  rw [UInt8.ofNat_toNat] at here
  obtain ⟨read, filled, plain⟩ := here valid
  exact ⟨read, filled, plain⟩

/-- A time as it is written. -/
def timeText (hour minute second : UInt8) : Str :=
  [':'].intercalate [Numerals.writePadded 10 2 hour.toNat, Numerals.writePadded 10 2 minute.toNat,
    Numerals.writePadded 10 2 second.toNat]

/-- A written time is read. -/
theorem parseTime_text {hour minute second : UInt8} (hours : hour ≤ 23) (minutes : minute ≤ 59)
    (seconds : second ≤ 60) : parseTime (timeText hour minute second) = .ok (hour, minute, second) := by
  -- Two digits each, with no colon among them.
  have split : (timeText hour minute second).splitOn ':' =
      [Numerals.writePadded 10 2 hour.toNat, Numerals.writePadded 10 2 minute.toNat,
        Numerals.writePadded 10 2 second.toNat] := by
    refine List.splitOn_intercalate ':' ?_ (List.cons_ne_nil _ _)
    have plain := fun value => (writePadded_word 2 value).2
    simp [plain]
  rw [parseTime, split]
  dsimp only
  rw [parseU8_writePadded, parseU8_writePadded, parseU8_writePadded]
  -- Hours, minutes and seconds pass their bounds, a leap second too.
  dsimp only
  rw [if_neg (UInt8.not_lt.mpr hours), if_neg (UInt8.not_lt.mpr minutes),
    if_neg (UInt8.not_lt.mpr seconds)]

/-- A written time is a word of a date. -/
theorem timeText_word (hour minute second : UInt8) : IsDateWord (timeText hour minute second) := by
  have number := fun value => (writePadded_word 2 value).1.plain
  have colon : IsDateChar ':' := by
    refine ⟨?_, ?_, ?_, ?_⟩ <;> decide
  refine ⟨by simp [timeText, List.intercalate_cons_cons], ?_⟩
  simp only [timeText, List.intercalate_cons_cons, List.intercalate_singleton, List.append_assoc,
    List.singleton_append]
  -- Digits and colons are both characters of words.
  exact List.forall_mem_append.mpr ⟨number _, List.forall_mem_cons.mpr ⟨colon,
    List.forall_mem_append.mpr ⟨number _, List.forall_mem_cons.mpr ⟨colon, number _⟩⟩⟩⟩

namespace HttpDate

/-- The words behind the comma. -/
def words (date : HttpDate) : List Str :=
  [Numerals.writePadded 10 2 date.day.toNat, monthName date.month,
    Numerals.writePadded 10 4 date.year.toNat, timeText date.hour date.minute date.second,
    "GMT".toList]

/-- A date is the name of its day and the words behind the comma. -/
theorem display_eq (date : HttpDate) :
    date.display = date.dayOfWeek.shortName ++ ',' :: ' ' :: [' '].intercalate date.words := by
  simp [display, words, timeText, List.intercalate_cons_cons]

/-- A date of valid numbers is made. -/
theorem new_valid (date : HttpDate) : new date.dayOfWeek date.day date.month date.year date.hour
    date.minute date.second = .ok date := by
  obtain ⟨dayOfWeek, day, month, year, hour, minute, second, valid⟩ := date
  simp only [new]
  rw [dif_pos valid.monthOfYear, dif_pos valid.dayOfMonth, dif_pos valid.anno, dif_pos valid.hourOfDay,
    dif_pos valid.minuteOfHour, dif_pos valid.secondOfMinute]

/-- The words behind the comma are words of dates. -/
theorem words_plain (date : HttpDate) : ∀ word ∈ date.words, IsDateWord word := by
  have zone : IsDateWord "GMT".toList := by
    -- The zone is the only word that is always the same.
    have plain : ∀ char ∈ "GMT".toList, isWhitespace char = false ∧ char ≠ ',' ∧ char ≠ '-' ∧
      char ≠ ';' := by decide +kernel
    exact ⟨by decide, plain⟩
  exact List.forall_mem_cons.mpr ⟨(writePadded_word _ _).1, List.forall_mem_cons.mpr
    ⟨(parseMonth_monthName date.valid.monthOfYear).2, List.forall_mem_cons.mpr
    ⟨(writePadded_word _ _).1, List.forall_mem_cons.mpr ⟨timeText_word _ _ _,
    List.forall_mem_singleton.mpr zone⟩⟩⟩⟩

/-- The words behind the comma are read behind the name of the day. -/
theorem parseImfFixdate_words (date : HttpDate) :
    parseImfFixdate date.dayOfWeek.shortName ([' '].intercalate date.words) = .ok date := by
  -- No word has white space in it, so they are split where they were joined.
  have split : splitWhitespace ([' '].intercalate date.words) = date.words :=
    splitWhitespace_join fun word inside => by
      have holds := date.words_plain word inside
      exact ⟨holds.filled, fun char member => (holds.plain char member).1⟩
  -- The year is written with at least four digits, which does not change its value.
  have small : date.year.toNat ≤ u16Max := Nat.le_of_lt_succ date.year.toNat_lt
  have year : parseU16 (Numerals.writePadded 10 4 date.year.toNat) = some date.year.toNat :=
    Numerals.read_writePadded (by decide) (by decide) small 4
  rw [parseImfFixdate, (fromName_shortName date.dayOfWeek).1, split, words]
  dsimp only
  rw [parseU8_writePadded, (parseMonth_monthName date.valid.monthOfYear).1]
  dsimp only
  rw [year, parseTime_text date.valid.hourOfDay date.valid.minuteOfHour date.valid.secondOfMinute]
  dsimp only
  rw [if_neg (by simp), UInt16.ofNat_toNat, new_valid]

/-- The words behind the comma have no white space around them, and no hyphens and semicolons. -/
theorem joined_plain (date : HttpDate) : [' '].intercalate date.words ≠ [] ∧
    Trimming.IsTrimmed isWhitespace ([' '].intercalate date.words) ∧
    ∀ char ∈ [' '].intercalate date.words, char ≠ '-' ∧ char ≠ ';' := by
  have each : ∀ word ∈ date.words, word ≠ [] ∧ Trimming.IsTrimmed isWhitespace word := by
    intro word inside
    have holds := date.words_plain word inside
    exact ⟨holds.filled, Trimming.isTrimmed_of_none fun char member => (holds.plain char member).1⟩
  obtain ⟨trimmed, filled⟩ := Trimming.isTrimmed_intercalate [' '] each
  refine ⟨filled (List.cons_ne_nil _ _), trimmed, fun char inside => ?_⟩
  -- Every character is that of a word or a space between two words.
  obtain ⟨word, others, same⟩ : ∃ word others, date.words = word :: others := ⟨_, _, rfl⟩
  rw [same, intercalate_cons_flatMap] at inside
  have plain : ∀ word ∈ date.words, ∀ char ∈ word, char ≠ '-' ∧ char ≠ ';' :=
    fun word member char inside => ((date.words_plain word member).plain char inside).2.2
  rw [same] at plain
  obtain ⟨here, behind⟩ := List.forall_mem_cons.mp plain
  rcases List.mem_append.mp inside with first | rest
  · exact here char first
  · obtain ⟨other, member, found⟩ := List.mem_flatMap.mp rest
    rcases List.mem_cons.mp found with rfl | last
    · decide
    · exact behind other member char last

/-- A date is written without white space around it and without semicolons. -/
theorem display_plain (date : HttpDate) :
    Trimming.IsTrimmed isWhitespace date.display ∧ ';' ∉ date.display ∧ date.display ≠ [] := by
  have name := (fromName_shortName date.dayOfWeek).2
  -- The name of the day and the other words start and end with visible characters.
  obtain ⟨filled, trimmed, plain⟩ := date.joined_plain
  have first : Trimming.IsTrimmed isWhitespace date.dayOfWeek.shortName :=
    Trimming.isTrimmed_of_none fun char inside => (name.plain char inside).1
  have semicolon : ';' ∉ [' '].intercalate date.words := fun inside => (plain ';' inside).2 rfl
  rw [display_eq]
  exact ⟨Trimming.isTrimmed_append [',', ' '] name.filled filled first trimmed,
    by simp [name.not_mem.2.2, semicolon], by simp⟩

/-- A date is parsed again from its text. -/
theorem parse_display (date : HttpDate) : parse date.display = .ok date := by
  obtain ⟨trimmed, _, present⟩ := date.display_plain
  obtain ⟨filled, joined, plain⟩ := date.joined_plain
  have same : trim date.display = date.display := trimmed.trim_eq
  have comma := (fromName_shortName date.dayOfWeek).2.not_mem.1
  -- The space behind the comma is dropped.
  have start : trimStart (' ' :: [' '].intercalate date.words) = [' '].intercalate date.words :=
    Trimming.dropWhile_framed (List.forall_mem_singleton.mpr (by decide)) joined.starts
  have hyphen : ([' '].intercalate date.words).contains '-' = false := by
    rw [List.contains_eq_mem, decide_eq_false_iff_not]
    exact fun inside => (plain '-' inside).1 rfl
  rw [parse, same]
  dsimp only
  rw [if_neg (by simpa using present), display_eq, splitOnce_append comma]
  dsimp only
  rw [start, hyphen]
  exact date.parseImfFixdate_words

/-- Dates that are made of numbers or parsed from a text of any of the three forms are the same when
they are parsed again, and all dates are such. -/
theorem dates_survive (date : HttpDate) : parse date.display = .ok date := date.parse_display

end HttpDate

end Http11

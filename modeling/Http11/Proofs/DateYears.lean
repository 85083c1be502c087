import Http11.DateYears
import Http11.Proofs.NumberFields

/-! When years of two digits are found without leaving sixteen bits. -/

namespace Http11

/-- The first year of a century. -/
theorem toNat_century (year : UInt16) : checkedMul16 (year / 100) 100 = some (year / 100 * 100) ∧
    (year / 100 * 100).toNat = year.toNat / 100 * 100 := by
  have bound := year.toNat_lt
  have quotient : (year / 100).toNat = year.toNat / 100 := UInt16.toNat_div _ _
  have hundred : (100 : UInt16).toNat = 100 := rfl
  -- The century is no later than the year, so nothing overflows.
  have fits : (year / 100).toNat * (100 : UInt16).toNat ≤ u16Max := by
    rw [quotient, hundred, u16Max]
    omega
  refine ⟨by rw [checkedMul16, if_pos fits], ?_⟩
  rw [UInt16.toNat_mul, quotient]
  exact Nat.mod_eq_of_lt (Nat.lt_of_le_of_lt (Nat.div_mul_le_self _ _) bound)

/-- Two numbers are added unless the sum is too large. -/
theorem checkedAdd16_eq {left right : UInt16} (fits : left.toNat + right.toNat ≤ u16Max) :
    checkedAdd16 left right = some (left + right) ∧
      (left + right).toNat = left.toNat + right.toNat := by
  refine ⟨by rw [checkedAdd16, if_pos fits], ?_⟩
  rw [UInt16.toNat_add]
  exact Nat.mod_eq_of_lt (Nat.lt_succ_of_le fits)

/-- The arithmetic stays within sixteen bits exactly where the year of reference leaves room for
fifty more and the two digits are no more than fifty after it. -/
theorem interpretTwoDigitYearChecked_eq {twoDigit referenceYear : UInt16}
    (few : twoDigit.toNat < 100) : interpretTwoDigitYearChecked twoDigit referenceYear =
      if referenceYear.toNat ≤ 65485 ∧ twoDigit.toNat ≤ referenceYear.toNat + 50 then
        some (interpretTwoDigitYear twoDigit referenceYear)
      else none := by
  obtain ⟨product, century⟩ := toNat_century referenceYear
  rw [interpretTwoDigitYearChecked, product, Option.bind_eq_bind, Option.bind_some]
  by_cases room : referenceYear.toNat ≤ 65485
  · have fifty : (50 : UInt16).toNat = 50 := rfl
    have hundred : (100 : UInt16).toNat = 100 := rfl
    obtain ⟨sum, candidate⟩ : checkedAdd16 (referenceYear / 100 * 100) twoDigit = _ ∧ _ :=
      checkedAdd16_eq (by rw [century, u16Max]; omega)
    obtain ⟨added, latest⟩ : checkedAdd16 referenceYear 50 = _ ∧ _ :=
      checkedAdd16_eq (by rw [fifty, u16Max]; omega)
    rw [sum, Option.bind_some, added, Option.bind_some, interpretTwoDigitYear]
    by_cases later : referenceYear / 100 * 100 + twoDigit > referenceYear + 50
    · rw [if_pos later, if_pos later, checkedSub16]
      rw [gt_iff_lt, UInt16.lt_iff_toNat_lt, candidate, latest, century, fifty] at later
      -- A hundred years can be taken away unless the century is the first one.
      refine if_congr ?_ rfl rfl
      rw [UInt16.le_iff_toNat_le, candidate, century, hundred]
      omega
    · rw [if_neg later, if_neg later, if_pos]
      rw [gt_iff_lt, UInt16.lt_iff_toNat_lt, candidate, latest, century, fifty] at later
      omega
  · have top : checkedAdd16 referenceYear 50 = none := by
      have fifty : (50 : UInt16).toNat = 50 := rfl
      rw [checkedAdd16, if_neg]
      rw [fifty, u16Max]
      omega
    rw [if_neg fun both => room both.1, top]
    cases checkedAdd16 (referenceYear / 100 * 100) twoDigit <;> rfl

/-- Within sixteen bits the year has the two digits, and it is near the year of reference. -/
theorem interpretTwoDigitYear_near {twoDigit referenceYear : UInt16} (few : twoDigit.toNat < 100)
    (room : referenceYear.toNat ≤ 65485) (near : twoDigit.toNat ≤ referenceYear.toNat + 50) :
    (interpretTwoDigitYear twoDigit referenceYear).toNat % 100 = twoDigit.toNat ∧
    (referenceYear.toNat : Int) - 100 < (interpretTwoDigitYear twoDigit referenceYear).toNat ∧
    ((interpretTwoDigitYear twoDigit referenceYear).toNat : Int) ≤ referenceYear.toNat + 50 := by
  obtain ⟨_, century⟩ := toNat_century referenceYear
  have fifty : (50 : UInt16).toNat = 50 := rfl
  have hundred : (100 : UInt16).toNat = 100 := rfl
  -- Neither the candidate nor the latest year leaves sixteen bits.
  obtain ⟨_, candidate⟩ : checkedAdd16 (referenceYear / 100 * 100) twoDigit = _ ∧ _ :=
    checkedAdd16_eq (by rw [century, u16Max]; omega)
  obtain ⟨_, latest⟩ : checkedAdd16 referenceYear 50 = _ ∧ _ :=
    checkedAdd16_eq (by rw [fifty, u16Max]; omega)
  rw [interpretTwoDigitYear]
  by_cases later : referenceYear / 100 * 100 + twoDigit > referenceYear + 50
  · -- The candidate is too late, and a hundred years earlier it is near.
    rw [if_pos later]
    rw [gt_iff_lt, UInt16.lt_iff_toNat_lt, candidate, latest, century, fifty] at later
    have enough : (100 : UInt16) ≤ referenceYear / 100 * 100 + twoDigit := by
      rw [UInt16.le_iff_toNat_le, candidate, century, hundred]
      omega
    rw [UInt16.toNat_sub_of_le _ _ enough, candidate, century, hundred]
    omega
  · -- The candidate is no later than fifty years ahead.
    rw [if_neg later]
    rw [gt_iff_lt, UInt16.lt_iff_toNat_lt, candidate, latest, century, fifty] at later
    rw [candidate, century]
    omega

/-- A text of digits has as many bytes as there are. -/
theorem byteLength_digits {text : Str} (digits : IsDigits text) : byteLength text = text.length := by
  refine byteLength_ascii fun char inside => ?_
  have digit := digits.2 char inside
  simp only [Char.isDigit, Bool.and_eq_true, decide_eq_true_eq] at digit
  have high : char.toNat ≤ 57 := digit.2
  omega

/-- A number of two bytes is less than a hundred. -/
theorem parseU16_few {text : Str} {number : Nat} (read : parseU16 text = some number)
    (short : byteLength text = 2) : number < 100 := by
  obtain ⟨digits, same, _, are, denotes, _⟩ := (Numerals.read_iff (by decide)).mp read
  have length : digits.length ≤ 2 := by
    have all := length_le_byteLength text
    -- A sign takes one of the two bytes.
    rcases same with same | same
    · rw [same] at all short
      omega
    · rw [same] at all short
      rw [List.length_cons] at all
      omega
  rw [← denotes]
  exact (Numerals.value_lt are).trans_le (Nat.pow_le_pow_right (by decide) length)

namespace HttpDate

/-- The year of two bytes that is reached is one of less than a hundred. -/
theorem twoDigitYear_few {input : Str} {year : UInt16} (reached : twoDigitYear input = some year) :
    year.toNat < 100 := by
  unfold twoDigitYear at reached
  dsimp only at reached
  -- Every other branch gives no year.
  repeat' split at reached
  all_goals try cases reached
  rename_i short
  obtain ⟨number, read, rfl⟩ := Option.map_eq_some_iff.mp reached
  rw [parseU16_isRead read]
  exact parseU16_few read short

/-- With checked arithmetic a date is parsed as it is without, unless a year of two bytes is reached
whose arithmetic leaves sixteen bits. -/
theorem parseRfc850Checked_eq (input : Str) (referenceYear : UInt16) :
    parseRfc850Checked input referenceYear =
      (twoDigitYear input).elim (some (parseRfc850 input referenceYear)) fun year =>
        (interpretTwoDigitYearChecked year referenceYear).map fun _ =>
          parseRfc850 input referenceYear := by
  unfold parseRfc850Checked parseRfc850 twoDigitYear
  dsimp only
  by_cases empty : (trim input).isEmpty = true
  · rw [if_pos empty, if_pos empty, List.isEmpty_iff.mp empty]
    rfl
  · rw [if_neg empty, if_neg empty]
    cases splitOnce ',' (trim input) with
    | none => rfl
    | some parts =>
      obtain ⟨dayName, rest⟩ := parts
      dsimp only
      by_cases hyphen : (!(trimStart rest).contains '-') = true
      · rw [if_pos hyphen, if_pos hyphen, if_pos hyphen]
        rfl
      · rw [if_neg hyphen, if_neg hyphen, if_neg hyphen, parseRfc850InnerChecked, parseRfc850Inner]
        cases DayOfWeek.fromName dayName with
        | none => rfl
        | some dayOfWeek =>
          -- There are three words, and the first one has three parts.
          rcases splitWhitespace (trimStart rest) with _ | ⟨dateText, _ | ⟨time, _ | ⟨zone, _ | _⟩⟩⟩
          · rfl
          · rfl
          · rfl
          · dsimp only
            rcases dateText.splitOn '-' with
              _ | ⟨dayText, _ | ⟨monthText, _ | ⟨yearText, _ | _⟩⟩⟩
            · rfl
            · rfl
            · rfl
            · dsimp only
              cases parseU8 dayText with
              | none => rfl
              | some day =>
                cases parseMonth monthText with
                | error error => rfl
                | ok month =>
                  dsimp only
                  cases read : parseU16 yearText with
                  | none =>
                    rw [Option.map_none, ite_self]
                    rfl
                  | some rawYear =>
                    dsimp only
                    by_cases short : byteLength yearText = 2
                    · -- The year is resolved, or the arithmetic leaves sixteen bits.
                      have few : (UInt16.ofNat rawYear).toNat < 100 := by
                        rw [parseU16_isRead read]
                        exact parseU16_few read short
                      rw [if_pos short, if_pos short, if_pos short, Option.map_some,
                        Option.elim_some, interpretTwoDigitYearChecked_eq few]
                      by_cases within : referenceYear.toNat ≤ 65485 ∧
                          (UInt16.ofNat rawYear).toNat ≤ referenceYear.toNat + 50
                      · rw [if_pos within]
                        cases parseTime time with
                        | error error => rfl
                        | ok numbers =>
                          dsimp only
                          split <;> rfl
                      · rw [if_neg within]
                        rfl
                    · rw [if_neg short, if_neg short, if_neg short]
                      cases parseTime time with
                      | error error => rfl
                      | ok numbers =>
                        dsimp only
                        split <;> rfl
            · rfl
          · rfl

/-- A year of two bytes is reached in a text that is a date. -/
theorem twoDigitYear_of_parse {input : Str} {referenceYear : UInt16} {date : HttpDate} {text : Str}
    (parsed : parseRfc850 input referenceYear = .ok date)
    (field : (.year, text) ∈ rfc850NumberTexts input) (short : byteLength text = 2) :
    ∃ year, twoDigitYear input = some year ∧ parseU16 text = some year.toNat ∧
      date.year = interpretTwoDigitYear year referenceYear := by
  unfold parseRfc850 at parsed
  dsimp only at parsed
  split at parsed
  · cases parsed
  · split at parsed
    · cases parsed
    · rename_i dayName rest comma
      rw [rfc850NumberTexts, comma] at field
      dsimp only at field
      split at parsed
      · cases parsed
      · rename_i hyphen
        unfold parseRfc850Inner at parsed
        split at parsed
        · cases parsed
        · rename_i dayOfWeek named
          split at parsed
          · rename_i dateText time zone words
            rw [words] at field
            dsimp only at field
            split at parsed
            · rename_i dayText monthText yearText cut
              rw [cut] at field
              -- The text is that of the year, which is the only one.
              have same : text = yearText := by
                rcases List.mem_cons.mp field with day | rest
                · cases day
                · rcases List.mem_cons.mp rest with year | times
                  · exact (Prod.mk.injEq _ _ _ _ ▸ year).2
                  · unfold timeTexts at times
                    split at times
                    · simp at times
                    · cases times
              subst same
              split at parsed
              · cases parsed
              · rename_i day readDay
                split at parsed
                · cases parsed
                · rename_i month readMonth
                  split at parsed
                  · cases parsed
                  · rename_i rawYear readYear
                    rw [if_pos short] at parsed
                    refine ⟨UInt16.ofNat rawYear, ?_, by rw [parseU16_isRead readYear, readYear], ?_⟩
                    · simp only [twoDigitYear, comma, if_neg hyphen, named, words, cut, readDay,
                        readMonth, if_pos short, readYear, Option.map_some]
                    dsimp only at parsed
                    split at parsed
                    · cases parsed
                    · split at parsed
                      · cases parsed
                      · have numbers := numbers_new parsed
                        simp only [HttpDate.numbers, List.cons.injEq, Prod.mk.injEq, true_and,
                          UInt16.toNat_inj] at numbers
                        exact numbers.2.1
            · cases parsed
          · cases parsed

/-- A year of two digits is resolved near the year of reference exactly where that leaves room for
fifty more and the digits are no more than fifty after it. -/
theorem years_resolved (input : Str) (referenceYear : UInt16) :
    IsResolved input referenceYear ↔ ∀ year, twoDigitYear input = some year →
      referenceYear.toNat ≤ 65485 ∧ year.toNat ≤ referenceYear.toNat + 50 := by
  constructor
  · intro ⟨result, checked, _⟩ year reached
    rw [parseRfc850Checked_eq, reached, Option.elim_some,
      interpretTwoDigitYearChecked_eq (twoDigitYear_few reached)] at checked
    by_contra outside
    rw [if_neg outside] at checked
    cases checked
  · intro within
    refine ⟨parseRfc850 input referenceYear, ?_, rfl, ?_⟩
    · rw [parseRfc850Checked_eq]
      cases reached : twoDigitYear input with
      | none => rfl
      | some year =>
        rw [Option.elim_some, interpretTwoDigitYearChecked_eq (twoDigitYear_few reached),
          if_pos (within year reached)]
        rfl
    · intro date parsed text field digits two
      have short : byteLength text = 2 := (byteLength_digits digits).trans two
      obtain ⟨year, reached, read, same⟩ := twoDigitYear_of_parse parsed field short
      obtain ⟨room, near⟩ := within year reached
      obtain ⟨last, bounds⟩ := interpretTwoDigitYear_near (twoDigitYear_few reached) room near
      have value : Numerals.value 10 text = year.toNat := by
        -- Digits have no plus sign in front.
        obtain ⟨others, equal | equal, _, _, denotes, _⟩ :=
          (Numerals.read_iff (by decide)).mp read
        · rw [equal, denotes]
        · exact absurd (digits.2 '+' (by simp [equal])) (by decide)
      rw [same, last, value]
      exact ⟨rfl, bounds⟩

/-- Near the ends of sixteen bits the arithmetic of a year of two digits leaves them, and where it
wraps around a year far in the future comes out. -/
theorem years_unresolved :
    ¬ IsResolved "Sunday, 06-Nov-99 08:49:37 GMT".toList 0 ∧
    ¬ IsResolved "Sunday, 06-Nov-20 08:49:37 GMT".toList 65500 ∧
    parseRfc850 "Sunday, 06-Nov-99 08:49:37 GMT".toList 0 =
      .ok ⟨.sunday, 6, 11, 65535, 8, 49, 37, by decide⟩ := by
  -- The subtraction of a hundred goes below zero, the addition over sixteen bits.
  have first : parseRfc850Checked "Sunday, 06-Nov-99 08:49:37 GMT".toList 0 = none := by
    decide
  have second : parseRfc850Checked "Sunday, 06-Nov-20 08:49:37 GMT".toList 65500 = none := by
    decide
  refine ⟨?_, ?_, by decide⟩
  · intro ⟨result, checked, _⟩
    rw [first] at checked
    cases checked
  · intro ⟨result, checked, _⟩
    rw [second] at checked
    cases checked

end HttpDate

end Http11

import Mathlib.Data.List.TakeWhile
import Mathlib.Data.Nat.Digits.Lemmas
import Http11.Lib.Utf8

/-! Unsigned numbers as text: writing digits most significant first, and checked reading. -/

namespace Numerals

/-- The digit a character stands for, in any base up to thirty-six. -/
def digitValue (char : Char) : Option Nat :=
  if '0' ≤ char ∧ char ≤ '9' then some (char.toNat - 48)
  else if 'a' ≤ char ∧ char ≤ 'z' then some (char.toNat - 87)
  else if 'A' ≤ char ∧ char ≤ 'Z' then some (char.toNat - 55)
  else none

/-- The lower-case character of a digit. -/
def digitChar (digit : Nat) : Char :=
  if digit < 10 then Char.ofNat (48 + digit) else Char.ofNat (87 + digit)

/-- One more digit on the right, unless the value passes the limit. -/
def push (base limit value : Nat) (char : Char) : Option Nat := do
  let digit ← digitValue char
  if digit < base then
    let value := value * base + digit
    if value ≤ limit then some value else none
  else none

/-- The value of some digits, unless it passes the limit. -/
def readDigits (base limit : Nat) (text : List Char) : Option Nat :=
  text.foldlM (push base limit) 0

/-- The value of an unsigned number, which may carry a plus sign. -/
def read (base limit : Nat) (text : List Char) : Option Nat :=
  match text with
  | [] | ['+'] | ['-'] => none
  | '+' :: digits => readDigits base limit digits
  | digits => readDigits base limit digits

/-- The digits of a number, most significant first. -/
def write (base value : Nat) : List Char :=
  if value = 0 then [digitChar 0] else (Nat.digits base value).reverse.map digitChar

/-- Every digit below sixteen is written as the character that stands for it. -/
theorem digitValue_digitChar {digit : Nat} (small : digit < 16) :
    digitValue (digitChar digit) = some digit := by
  revert digit
  decide

/-- The characters of digits lie in the ASCII range and are neither signs nor separators. -/
theorem digitChar_plain {digit : Nat} (small : digit < 16) :
    (digitChar digit).isAlphanum = true ∧ (digitChar digit).toNat < 0x80 := by
  revert digit
  decide

/-- A number of more than one digit ends in its remainder. -/
theorem write_step {base value : Nat} (atLeastTwo : 1 < base) (large : base ≤ value) :
    write base value = write base (value / base) ++ [digitChar (value % base)] := by
  have positive : 0 < value := by omega
  -- Only the number zero has a quotient that is written by itself.
  have quotient : value / base ≠ 0 := by
    have := Nat.div_pos large (by omega)
    omega
  simp only [write, if_neg (by omega : ¬ value = 0), if_neg quotient]
  rw [Nat.digits_eq_cons_digits_div atLeastTwo (by omega)]
  simp

/-- A number of one digit is that digit. -/
theorem write_digit {base value : Nat} (small : value < base) :
    write base value = [digitChar value] := by
  by_cases zero : value = 0
  · simp [write, zero]
  · simp only [write, if_neg zero]
    rw [Nat.digits_of_lt base value zero small]
    rfl

/-- What holds of every digit of the base holds of every character of a written number. -/
theorem forall_mem_write {base : Nat} {motive : Char → Prop} (atLeastTwo : 1 < base)
    (digits : ∀ digit < base, motive (digitChar digit)) (value : Nat) :
    ∀ char ∈ write base value, motive char := by
  induction value using Nat.strongRecOn with
  | ind value ih =>
    -- A longer number ends in a digit behind a smaller number.
    by_cases small : value < base
    · intro char member
      rw [write_digit small] at member
      rw [List.mem_singleton.mp member]
      exact digits value small
    · intro char member
      have smaller : value / base < value := Nat.div_lt_self (by omega) atLeastTwo
      rw [write_step atLeastTwo (by omega), List.mem_append] at member
      rcases member with inFront | last
      · exact ih _ smaller char inFront
      · rw [List.mem_singleton.mp last]
        exact digits _ (Nat.mod_lt _ (by omega))

/-- A written number is not empty. -/
theorem write_ne_nil {base : Nat} (atLeastTwo : 1 < base) (value : Nat) :
    write base value ≠ [] := by
  by_cases small : value < base
  · simp [write_digit small]
  · rw [write_step atLeastTwo (by omega)]
    simp

/-- A number below a power of the base is written in as many digits at most. -/
theorem write_length_le {base value count : Nat} (atLeastTwo : 1 < base) (some : 0 < count)
    (small : value < base ^ count) : (write base value).length ≤ count := by
  unfold write
  split
  · exact some
  · rw [List.length_map, List.length_reverse]
    exact (Nat.digits_length_le_iff atLeastTwo value).mpr small

/-- A number from a power of the base on is written in more digits. -/
theorem lt_write_length {base value count : Nat} (atLeastTwo : 1 < base)
    (large : base ^ count ≤ value) : count < (write base value).length := by
  have positive : 0 < base ^ count := Nat.pow_pos (by omega)
  rw [write, if_neg (by omega), List.length_map, List.length_reverse]
  exact (Nat.lt_digits_length_iff atLeastTwo value).mpr large

/-- Digits written for a number within the limit are read back as that number. -/
theorem readDigits_write {base limit value : Nat} (atLeastTwo : 1 < base) (small : base ≤ 16)
    (fits : value ≤ limit) : readDigits base limit (write base value) = some value := by
  -- The digits before the last one are those of a smaller number, which fits as well.
  induction value using Nat.strongRecOn with
  | ind value ih =>
    by_cases single : value < base
    · rw [write_digit single]
      simp [readDigits, push, digitValue_digitChar (by omega : value < 16), single, fits]
    · have smaller : value / base < value := Nat.div_lt_self (by omega) atLeastTwo
      have last : value % base < base := Nat.mod_lt _ (by omega)
      have whole : value / base * base + value % base = value := Nat.div_add_mod' value base
      have front := ih (value / base) smaller (by omega)
      rw [write_step atLeastTwo (by omega)]
      simp only [readDigits] at front ⊢
      rw [List.foldlM_append, front]
      simp [push, digitValue_digitChar (by omega : value % base < 16), last, whole, fits]

/-- A number within the limit is read back from its text. -/
theorem read_write {base limit value : Nat} (atLeastTwo : 1 < base) (small : base ≤ 16)
    (fits : value ≤ limit) : read base limit (write base value) = some value := by
  have signless : ∀ char ∈ write base value, char ≠ '+' ∧ char ≠ '-' := by
    refine forall_mem_write atLeastTwo ?_ value
    intro digit below
    have plain := (digitChar_plain (by omega : digit < 16)).1
    constructor <;> intro same <;> rw [same] at plain <;> exact absurd plain (by decide)
  have digits := readDigits_write atLeastTwo small fits
  have present := write_ne_nil atLeastTwo value
  generalize write base value = text at *
  -- Only the sign cases of the reader differ from reading digits.
  unfold read
  split
  · exact absurd rfl present
  · exact absurd rfl (signless '+' (by simp)).1
  · exact absurd rfl (signless '-' (by simp)).2
  · exact absurd rfl (signless '+' (by simp)).1
  · exact digits

/-- Reading digits never passes the limit. -/
theorem foldlM_push_le {base limit : Nat} (text : List Char) {start value : Nat}
    (within : start ≤ limit) (read : text.foldlM (push base limit) start = some value) :
    value ≤ limit := by
  -- Every digit is checked against the limit when it is added.
  induction text generalizing start with
  | nil =>
    cases read
    exact within
  | cons char text ih =>
    simp only [List.foldlM_cons, Option.bind_eq_bind, Option.bind_eq_some_iff] at read
    obtain ⟨next, pushed, rest⟩ := read
    refine ih ?_ rest
    simp only [push, Option.bind_eq_bind, Option.bind_eq_some_iff] at pushed
    obtain ⟨digit, _, added⟩ := pushed
    split at added
    · split at added
      · cases added
        assumption
      · cases added
    · cases added

/-- A number that was read is within the limit. -/
theorem read_le {base limit value : Nat} {text : List Char}
    (found : read base limit text = some value) : value ≤ limit := by
  -- A sign alone and a text that is empty are no numbers; all else is read digit by digit.
  unfold read at found
  split at found
  · cases found
  · cases found
  · cases found
  · exact foldlM_push_le _ (Nat.zero_le _) found
  · exact foldlM_push_le _ (Nat.zero_le _) found

/-- Some digits of a base, and nothing else. -/
def AreDigits (base : Nat) (text : List Char) : Prop :=
  ∀ char ∈ text, ∃ digit < base, digitValue char = some digit

/-- The number that digits denote behind those of another number. -/
def valueFrom (base start : Nat) (text : List Char) : Nat :=
  text.foldl (fun value char => value * base + (digitValue char).getD 0) start

/-- The number that digits denote. -/
def value (base : Nat) (text : List Char) : Nat := valueFrom base 0 text

/-- The digits in front count once for every digit that follows. -/
theorem valueFrom_eq (base start : Nat) (text : List Char) :
    valueFrom base start text = start * base ^ text.length + value base text := by
  unfold value
  induction text generalizing start with
  | nil => simp [valueFrom]
  | cons char text ih =>
    -- The first digit is in front of all others, on either side.
    change valueFrom base (start * base + _) text =
      _ + valueFrom base (0 * base + (digitValue char).getD 0) text
    rw [ih, ih (0 * base + _), List.length_cons, Nat.pow_succ]
    ring

/-- Digits are read as what they denote, as long as that is within the limit. -/
theorem foldlM_push_iff {base limit : Nat} (positive : 0 < base) (text : List Char)
    {start number : Nat} (within : start ≤ limit) :
    text.foldlM (push base limit) start = some number ↔
      AreDigits base text ∧ valueFrom base start text = number ∧ number ≤ limit := by
  induction text generalizing start with
  | nil =>
    simp only [List.foldlM_nil, Option.pure_def, Option.some.injEq, valueFrom, List.foldl_nil]
    exact ⟨fun same => ⟨by simp [AreDigits], same, by omega⟩, fun digits => digits.2.1⟩
  | cons char text ih =>
    have grows : ∀ next, next ≤ valueFrom base next text := by
      intro next
      rw [valueFrom_eq]
      exact Nat.le_add_right_of_le (Nat.le_mul_of_pos_right _ (Nat.pow_pos positive))
    rw [List.foldlM_cons, AreDigits, List.forall_mem_cons]
    cases found : digitValue char with
    | none => simp [push, found]
    | some digit =>
      have same : valueFrom base start (char :: text) =
          valueFrom base (start * base + digit) text := by
        simp [valueFrom, found]
      by_cases small : digit < base
      · by_cases fits : start * base + digit ≤ limit
        · -- The digit is added, and the others are read behind it.
          have pushed : push base limit start char = some (start * base + digit) := by
            simp [push, found, small, fits]
          rw [pushed, Option.bind_eq_bind, Option.bind_some, ih fits, same]
          exact and_congr_left fun _ => ⟨fun rest => ⟨⟨digit, small, rfl⟩, rest⟩, And.right⟩
        · -- The number grows with every digit, so it stays past the limit.
          have pushed : push base limit start char = none := by
            simp [push, found, small, fits]
          rw [pushed, same]
          have larger := grows (start * base + digit)
          simp only [Option.bind_eq_bind, Option.bind_none, reduceCtorEq, false_iff]
          omega
      · have pushed : push base limit start char = none := by simp [push, found, small]
        rw [pushed]
        simp only [Option.bind_eq_bind, Option.bind_none, reduceCtorEq, false_iff]
        rintro ⟨⟨⟨other, inside, same⟩, _⟩, _⟩
        cases same
        exact small inside

/-- What is read of digits. -/
theorem readDigits_iff {base limit number : Nat} (positive : 0 < base) {text : List Char} :
    readDigits base limit text = some number ↔
      AreDigits base text ∧ value base text = number ∧ number ≤ limit :=
  foldlM_push_iff positive text (Nat.zero_le limit)

/-- A sign is no digit. -/
theorem digitValue_sign : digitValue '+' = none ∧ digitValue '-' = none := by decide

/-- What is read of a number: its digits, behind a plus sign or not. -/
theorem read_iff {base limit number : Nat} (positive : 0 < base) {text : List Char} :
    read base limit text = some number ↔
      ∃ digits, (text = digits ∨ text = '+' :: digits) ∧ digits ≠ [] ∧ AreDigits base digits ∧
        value base digits = number ∧ number ≤ limit := by
  -- A sign is no digit, so that no text of digits starts with one.
  have unsigned : ∀ sign rest, digitValue sign = none → ¬ AreDigits base (sign :: rest) := by
    intro sign rest none digits
    obtain ⟨_, _, found⟩ := digits sign List.mem_cons_self
    rw [none] at found
    cases found
  unfold read
  split
  · simp
  · refine ⟨fun found => (by cases found), ?_⟩
    rintro ⟨digits, same | same, present, all, _⟩
    · subst same
      exact absurd all (unsigned _ _ digitValue_sign.1)
    · cases same
      exact absurd rfl present
  · refine ⟨fun found => (by cases found), ?_⟩
    rintro ⟨digits, same | same, present, all, _⟩
    · subst same
      exact absurd all (unsigned _ _ digitValue_sign.2)
    · cases same
  · rename_i digits signed
    rw [readDigits_iff positive]
    -- Behind a plus sign the digits are those of the rest.
    constructor
    · exact fun read => ⟨digits, .inr rfl, signed, read⟩
    · rintro ⟨others, same | same, _, all, read⟩
      · subst same
        exact absurd all (unsigned _ _ digitValue_sign.1)
      · cases same
        exact ⟨all, read⟩
  · rename_i present _ _ unsignedText
    rw [readDigits_iff positive]
    -- Without a sign the digits are the whole text.
    constructor
    · exact fun read => ⟨_, .inl rfl, present, read⟩
    · rintro ⟨others, same | same, _, read⟩
      · subst same
        exact read
      · exact absurd same (unsignedText others)

/-- Digits are zeros, or a digit that is not zero stands behind some of them. -/
theorem zeros_split (text : List Char) :
    ∃ zeros rest, text = zeros ++ rest ∧ (∀ char ∈ zeros, char = '0') ∧ rest.head? ≠ some '0' := by
  refine ⟨text.takeWhile (· == '0'), text.dropWhile (· == '0'),
    (List.takeWhile_append_dropWhile).symm, fun char inside => ?_, ?_⟩
  · simpa using List.mem_takeWhile_imp inside
  · intro first
    have stopped := List.head?_dropWhile_not (fun char => char == '0') text
    simp [first] at stopped

/-- The value of a digit in front of others. -/
theorem value_cons (base : Nat) (char : Char) (text : List Char) :
    value base (char :: text) =
      (digitValue char).getD 0 * base ^ text.length + value base text := by
  change valueFrom base (0 * base + (digitValue char).getD 0) text = _
  rw [valueFrom_eq, Nat.zero_mul, Nat.zero_add]

/-- Digits denote less than a power of their base. -/
theorem value_lt {base : Nat} {text : List Char} (digits : AreDigits base text) :
    value base text < base ^ text.length := by
  induction text with
  | nil => simp [value, valueFrom]
  | cons char text ih =>
    obtain ⟨digit, small, found⟩ := digits char List.mem_cons_self
    have rest := ih fun other inside => digits other (List.mem_cons_of_mem _ inside)
    -- The first digit counts at most one less than the base.
    rw [value_cons, found, Option.getD_some, List.length_cons]
    calc digit * base ^ text.length + value base text
        < digit * base ^ text.length + base ^ text.length := by omega
      _ = (digit + 1) * base ^ text.length := by ring
      _ ≤ base * base ^ text.length := Nat.mul_le_mul_right _ small
      _ = base ^ (text.length + 1) := by ring

/-- Zeros in front do not count. -/
theorem value_zeros (base : Nat) {zeros : List Char} (blank : ∀ char ∈ zeros, char = '0')
    (rest : List Char) : value base (zeros ++ rest) = value base rest := by
  induction zeros with
  | nil => rfl
  | cons char zeros ih =>
    rw [List.forall_mem_cons] at blank
    obtain ⟨rfl, others⟩ := blank
    -- The zero adds nothing to the digits behind it.
    have zero : digitValue '0' = some 0 := by decide
    rw [List.cons_append, value_cons, ih others, zero]
    simp

/-- A character that stands for zero below ten is the zero. -/
theorem eq_zero_of_digitValue {char : Char} (zero : digitValue char = some 0) : char = '0' := by
  unfold digitValue at zero
  split at zero
  · -- Letters stand for ten and more, so that only the first range is left.
    rename_i range
    have low := range.1
    rw [Char.le_def, UInt32.le_iff_toNat_le] at low
    have same : char.toNat = '0'.toNat := by
      have lowest : '0'.toNat ≤ char.toNat := low
      have exact : char.toNat - 48 = 0 := Option.some.inj zero
      have zero : '0'.toNat = 48 := rfl
      omega
    rw [← Char.ofNat_toNat char, same]
    rfl
  · split at zero
    · rename_i range
      have low : 'a'.toNat ≤ char.toNat := by
        have bound := range.1
        rw [Char.le_def, UInt32.le_iff_toNat_le] at bound
        exact bound
      have exact : char.toNat - 87 = 0 := Option.some.inj zero
      have first : 'a'.toNat = 97 := rfl
      omega
    · split at zero
      · rename_i range
        have low : 'A'.toNat ≤ char.toNat := by
          have bound := range.1
          rw [Char.le_def, UInt32.le_iff_toNat_le] at bound
          exact bound
        have exact : char.toNat - 55 = 0 := Option.some.inj zero
        have first : 'A'.toNat = 65 := rfl
        omega
      · cases zero

/-- A number between two powers of its base has its digits behind zeros. -/
theorem digits_split {base count : Nat} (atLeastTwo : 1 < base) {text : List Char}
    (digits : AreDigits base text) (low : base ^ count ≤ value base text)
    (high : value base text < base ^ (count + 1)) :
    ∃ zeros front, text = zeros ++ front ∧ (∀ char ∈ zeros, char = '0') ∧
      front.length = count + 1 ∧ AreDigits base front ∧ value base front = value base text := by
  obtain ⟨zeros, front, rfl, blank, first⟩ := zeros_split text
  rw [value_zeros base blank] at low high ⊢
  have inside : AreDigits base front := fun char member =>
    digits char (List.mem_append_right _ member)
  refine ⟨zeros, front, rfl, blank, ?_, inside, rfl⟩
  have bounded := value_lt inside
  -- The first digit is not zero, so the number is at least the power before it.
  have reaches : front ≠ [] → base ^ (front.length - 1) ≤ value base front := by
    intro present
    cases front with
    | nil => exact absurd rfl present
    | cons char front =>
      obtain ⟨digit, _, found⟩ := inside char List.mem_cons_self
      have positive : 1 ≤ digit := by
        refine Nat.one_le_iff_ne_zero.mpr fun zero => ?_
        rw [zero] at found
        rw [eq_zero_of_digitValue found] at first
        exact first rfl
      rw [value_cons, found, Option.getD_some, List.length_cons, Nat.add_sub_cancel]
      exact Nat.le_add_right_of_le (Nat.le_mul_of_pos_left _ positive)
  have least : count < front.length := by
    refine (Nat.pow_lt_pow_iff_right atLeastTwo).mp ?_
    omega
  have present : front ≠ [] := by
    intro empty
    rw [empty] at least
    exact absurd least (Nat.not_lt_zero _)
  have most : front.length - 1 < count + 1 := by
    refine (Nat.pow_lt_pow_iff_right atLeastTwo).mp ?_
    have bound := reaches present
    omega
  omega

/-- The digits of a number, with zeros in front where there are fewer than some width. -/
def writePadded (base width value : Nat) : List Char :=
  List.replicate (width - (write base value).length) '0' ++ write base value

/-- There is at least one digit. -/
theorem writePadded_ne_nil {base : Nat} (atLeastTwo : 1 < base) (width value : Nat) :
    writePadded base width value ≠ [] :=
  List.append_ne_nil_of_right_ne_nil _ (write_ne_nil atLeastTwo value)

/-- What holds of every digit of the base holds of every character of a padded number. -/
theorem forall_mem_writePadded {base : Nat} {motive : Char → Prop} (atLeastTwo : 1 < base)
    (each : ∀ digit < base, motive (digitChar digit)) (width value : Nat) :
    ∀ char ∈ writePadded base width value, motive char := by
  refine List.forall_mem_append.mpr ⟨fun char inside => ?_, forall_mem_write atLeastTwo each value⟩
  -- Zeros are digits.
  rw [List.eq_of_mem_replicate inside]
  exact each 0 (by omega)

/-- A padded number within the limit is read back. -/
theorem read_writePadded {base limit value : Nat} (atLeastTwo : 1 < base) (small : base ≤ 16)
    (within : value ≤ limit) (width : Nat) :
    read base limit (writePadded base width value) = some value := by
  have positive : 0 < base := by omega
  obtain ⟨_, denotes, fits⟩ := (readDigits_iff positive).mp (readDigits_write atLeastTwo small within)
  have digits : AreDigits base (writePadded base width value) :=
    forall_mem_writePadded atLeastTwo (fun digit below =>
      ⟨digit, below, digitValue_digitChar (by omega)⟩) width value
  refine (read_iff positive).mpr
    ⟨_, .inl rfl, writePadded_ne_nil atLeastTwo width value, digits, ?_, fits⟩
  -- The zeros in front do not count.
  rw [writePadded, value_zeros base fun char inside => List.eq_of_mem_replicate inside]
  exact denotes

end Numerals

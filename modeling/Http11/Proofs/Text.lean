import Http11.Text

/-! Splitting strings at separators, trimming them, and what the parts are. -/

namespace Http11

/-- A string splits at its first separator. -/
theorem splitOnce_append {separator : Char} {front : Str} (plain : separator ∉ front)
    (back : Str) : splitOnce separator (front ++ separator :: back) = some (front, back) := by
  induction front with
  | nil => simp [splitOnce]
  | cons char front ih =>
    simp only [List.mem_cons, not_or] at plain
    simp [splitOnce, Ne.symm plain.1, ih plain.2]

/-- A string without a separator does not split. -/
theorem splitOnce_none {separator : Char} {text : Str} (plain : separator ∉ text) :
    splitOnce separator text = none := by
  induction text with
  | nil => rfl
  | cons char text ih =>
    simp only [List.mem_cons, not_or] at plain
    simp [splitOnce, Ne.symm plain.1, ih plain.2]

/-- The parts of a string that splits are what stands around its first separator. -/
theorem splitOnce_some {separator : Char} {text front back : Str}
    (split : splitOnce separator text = some (front, back)) :
    text = front ++ separator :: back ∧ separator ∉ front := by
  induction text generalizing front with
  | nil => cases split
  | cons char text ih =>
    simp only [splitOnce] at split
    split at split
    · -- The first character is the separator.
      rename_i same
      cases split
      exact ⟨by simp [same], by simp⟩
    · -- It is another one, and the separator is found behind it.
      rename_i other
      simp only [Option.map_eq_some_iff, Prod.mk.injEq] at split
      obtain ⟨⟨first, rest⟩, found, rfl, rfl⟩ := split
      obtain ⟨rfl, plain⟩ := ih found
      exact ⟨by simp, by simp [Ne.symm other, plain]⟩

/-- A string that does not split has no separator. -/
theorem not_mem_of_splitOnce {separator : Char} {text : Str}
    (unsplit : splitOnce separator text = none) : separator ∉ text := by
  intro inside
  obtain ⟨front, back, rfl, plain⟩ := List.eq_append_cons_of_mem inside
  rw [splitOnce_append plain] at unsplit
  cases unsplit

/-- A string splits at its last separator. -/
theorem rsplitOnce_some {separator : Char} {text front back : Str}
    (split : rsplitOnce separator text = some (front, back)) :
    text = front ++ separator :: back ∧ separator ∉ back := by
  simp only [rsplitOnce, Option.map_eq_some_iff, Prod.mk.injEq] at split
  obtain ⟨⟨reversed, rest⟩, found, rfl, rfl⟩ := split
  -- What stands before the first separator of the reversed string stands behind the last one.
  obtain ⟨whole, plain⟩ := splitOnce_some found
  refine ⟨?_, by simpa using plain⟩
  rw [← List.reverse_reverse text, whole]
  simp

/-- The first of several parts is the first word of the string. -/
theorem splitn_head (count : Nat) (separator : Char) (text : Str) :
    (splitn (count + 2) separator text)[0]?.getD [] =
      (text.splitOn separator).head?.getD [] ∧
    separator ∉ (splitn (count + 2) separator text)[0]?.getD [] := by
  unfold splitn
  cases split : splitOnce separator text with
  | none =>
    -- A text that does not split is one word.
    have plain := not_mem_of_splitOnce split
    simp [List.splitOn_eq_singleton plain, plain]
  | some parts =>
    obtain ⟨front, back⟩ := parts
    obtain ⟨rfl, plain⟩ := splitOnce_some split
    simp [List.splitOn_append_cons_self_of_not_mem plain, plain]

/-- A prefix of one character is the first character. -/
theorem stripPrefix_one {char : Char} {text rest : Str} :
    stripPrefix [char] text = some rest ↔ text = char :: rest := by
  cases text with
  | nil => simp [stripPrefix]
  | cons first others =>
    by_cases same : char = first
    · simp [stripPrefix, same]
    · have other : ¬ first = char := fun found => same found.symm
      simp [stripPrefix, same, other]

/-- Trimming only leaves characters of the text. -/
theorem trimOws_subset (text : Str) : trimOws text ⊆ text := fun _ inside =>
  (List.dropWhile_suffix _).subset ((List.rdropWhile_prefix _ _).subset inside)

/-- Trimming takes away spaces and tabs only. -/
theorem mem_trimOws {text : Str} {char : Char} (inside : char ∈ text) (kept : isOws char = false) :
    char ∈ trimOws text := by
  -- In front, only white space is dropped.
  have front : char ∈ text.dropWhile isOws := by
    rw [← List.takeWhile_append_dropWhile (p := isOws) (l := text), List.mem_append] at inside
    refine inside.resolve_left fun dropped => ?_
    rw [List.mem_takeWhile_imp dropped] at kept
    cases kept
  rw [trimOws, List.rdropWhile, List.mem_reverse]
  -- Behind, the reversed text drops white space in the same way.
  have back := List.mem_reverse.mpr front
  rw [← List.takeWhile_append_dropWhile (p := isOws) (l := (text.dropWhile isOws).reverse),
    List.mem_append] at back
  refine back.resolve_left fun dropped => ?_
  rw [List.mem_takeWhile_imp dropped] at kept
  cases kept

/-- A space in front is trimmed away. -/
theorem trimOws_space (text : Str) : trimOws (' ' :: text) = trimOws text := by
  simp [trimOws, List.dropWhile, isOws]

/-- Trimming twice is trimming once. -/
theorem trimOws_trimOws (text : Str) : trimOws (trimOws text) = trimOws text := by
  unfold trimOws
  generalize front : text.dropWhile isOws = rest
  -- The front of the trimmed text is the front of the rest, which is not dropped.
  have starts : (rest.rdropWhile isOws).dropWhile isOws = rest.rdropWhile isOws := by
    obtain ⟨back, whole⟩ := List.rdropWhile_prefix isOws rest
    cases trimmed : rest.rdropWhile isOws with
    | nil => rfl
    | cons first others =>
      have kept := List.head?_dropWhile_not isOws text
      rw [front, ← whole, trimmed] at kept
      simp only [List.cons_append, List.head?_cons] at kept
      simp [List.dropWhile, kept]
  rw [starts, List.rdropWhile_idempotent]

/-- A character that is no letter is the lower case of itself only. -/
theorem toLower_unlettered {char lower : Char} (same : char.toLower = lower)
    (unlettered : lower.isLower = false) : char = lower := by
  unfold Char.toLower at same
  split at same
  · -- An upper-case letter is turned into a lower-case one.
    rename_i upper
    subst same
    delta Char.isLower at unlettered
    simp only [Bool.and_eq_false_iff, decide_eq_false_iff_not] at unlettered
    simp only [ge_iff_le, UInt32.le_iff_toNat_le] at upper unlettered
    change 65 ≤ char.val.toNat ∧ char.val.toNat ≤ 90 at upper
    have lowered : (char.val + 32).toNat = char.val.toNat + 32 := by
      rw [UInt32.toNat_add]
      simp only [UInt32.reduceToNat]
      omega
    change ¬ 97 ≤ (char.val + 32).toNat ∨ ¬ (char.val + 32).toNat ≤ 122 at unlettered
    omega
  · exact same

/-- A text without letters is the lower case of itself only. -/
theorem toAsciiLowercase_unlettered {text lower : Str} (same : toAsciiLowercase text = lower)
    (unlettered : lower.all (fun char => !char.isLower) = true) : text = lower := by
  subst same
  induction text with
  | nil => rfl
  | cons char text ih =>
    simp only [toAsciiLowercase, List.map_cons, List.all_cons, Bool.and_eq_true,
      Bool.not_eq_true'] at unlettered
    rw [toAsciiLowercase, List.map_cons]
    -- An upper case letter would have turned into a lower one.
    exact congrArg₂ List.cons (toLower_unlettered rfl unlettered.1) (ih unlettered.2)

/-- A string without a colon splits at the first slashes behind one. -/
theorem splitOnceStr_slashes {front : Str} (plain : ':' ∉ front) (back : Str) :
    splitOnceStr "://".toList (front ++ "://".toList ++ back) = some (front, back) := by
  induction front with
  | nil => simp [splitOnceStr]
  | cons char front ih =>
    simp only [List.mem_cons, not_or] at plain
    -- The pattern begins with a colon, which the front has not.
    have other : ("://".toList).isPrefixOf (char :: (front ++ "://".toList ++ back)) = false := by
      simp [List.isPrefixOf, plain.1]
    simp only [List.cons_append, splitOnceStr, other, Bool.false_eq_true, if_false, ih plain.2,
      Option.map_some]

/-- A decimal digit is a decimal character. -/
theorem digitValue_decimal (char : Char) :
    (∃ digit < 10, Numerals.digitValue char = some digit) ↔ char.isDigit = true := by
  have decimal : ('0' ≤ char ∧ char ≤ '9') ↔ char.isDigit = true := by
    simp [Char.isDigit, Char.le_def, ge_iff_le]
  rw [← decimal]
  unfold Numerals.digitValue
  constructor
  · rintro ⟨digit, small, found⟩
    split at found
    · assumption
    · -- Letters stand for ten and more.
      exfalso
      split at found
      · rename_i range
        have low : 'a'.toNat ≤ char.toNat := range.1
        have first : 'a'.toNat = 97 := rfl
        have value := Option.some.inj found
        omega
      · split at found
        · rename_i range
          have low : 'A'.toNat ≤ char.toNat := range.1
          have first : 'A'.toNat = 65 := rfl
          have value := Option.some.inj found
          omega
        · cases found
  · intro range
    rw [if_pos range]
    have high : char.toNat ≤ '9'.toNat := range.2
    have last : '9'.toNat = 57 := rfl
    exact ⟨_, by omega, rfl⟩

/-- The digits of a number are decimal characters. -/
theorem areDigits_iff (text : Str) :
    Numerals.AreDigits 10 text ↔ ∀ char ∈ text, char.isDigit = true :=
  forall₂_congr fun char _ => digitValue_decimal char

/-- A number is written as digits whose value it is. -/
theorem isDigits_write (number : Nat) : IsDigits (Numerals.write 10 number) ∧
    Numerals.value 10 (Numerals.write 10 number) = number := by
  have digits : ∀ digit < 10, (Numerals.digitChar digit).isDigit = true := by decide
  have all : ∀ char ∈ Numerals.write 10 number, char.isDigit = true :=
    Numerals.forall_mem_write (by decide) digits _
  refine ⟨⟨Numerals.write_ne_nil (by decide) _, all⟩, ?_⟩
  have read : Numerals.read 10 number (Numerals.write 10 number) = some number :=
    Numerals.read_write (by decide) (by decide) (Nat.le_refl number)
  obtain ⟨others, same | same, _, _, value, _⟩ := (Numerals.read_iff (by decide)).mp read
  · rw [same, value]
  · -- A sign is no digit.
    rw [same] at all
    exact absurd (all '+' List.mem_cons_self) (by decide)

/-- A text that does not begin with a character of some kind. -/
def Stops (kind : Char → Bool) (text : Str) : Prop := text.takeWhile kind = []

/-- A text stops a kind that its first character is not of. -/
theorem stops_cons {kind : Char → Bool} {char : Char} {rest : Str} (other : kind char = false) :
    Stops kind (char :: rest) := List.takeWhile_cons_of_neg (by simp [other])

/-- Characters of a kind end where something stops it. -/
theorem Stops.takeWhile {kind : Char → Bool} {front back : Str} (stops : Stops kind back)
    (all : ∀ char ∈ front, kind char = true) : (front ++ back).takeWhile kind = front := by
  rw [List.takeWhile_append_of_pos all, stops, List.append_nil]

/-- What stops a kind is left behind its characters. -/
theorem Stops.dropWhile {kind : Char → Bool} {front back : Str} (stops : Stops kind back)
    (all : ∀ char ∈ front, kind char = true) : (front ++ back).dropWhile kind = back := by
  have parts := List.takeWhile_append_dropWhile (p := kind) (l := front ++ back)
  rw [stops.takeWhile all] at parts
  exact List.append_cancel_left parts

/-- A kind is stopped behind all of its characters. -/
theorem stops_dropWhile (kind : Char → Bool) (text : Str) : Stops kind (text.dropWhile kind) := by
  cases behind : text.dropWhile kind with
  | nil => rfl
  | cons char rest =>
    have other := List.head?_dropWhile_not kind text
    rw [behind, List.head?_cons] at other
    exact stops_cons (by simpa using other)

/-- What follows the characters of a kind is left behind their number. -/
theorem drop_takeWhile (kind : Char → Bool) (text : Str) :
    text.drop (text.takeWhile kind).length = text.dropWhile kind := by
  have parts := congrArg (List.drop (text.takeWhile kind).length)
    (List.takeWhile_append_dropWhile (p := kind) (l := text))
  rw [List.drop_left] at parts
  exact parts.symm

/-- The length of a text is that of its parts. -/
theorem byteLength_append (front back : Str) :
    byteLength (front ++ back) = byteLength front + byteLength back := by
  rw [byteLength, Utf8.encode_append, List.length_append]
  rfl

/-- The bytes of ASCII characters are as many as they are. -/
theorem byteLength_ascii {text : Str} (ascii : ∀ char ∈ text, char.toNat < 0x80) :
    byteLength text = text.length := by
  induction text with
  | nil => rfl
  | cons char text ih =>
    obtain ⟨first, others⟩ := List.forall_mem_cons.mp ascii
    -- An ASCII character is one byte.
    rw [← List.singleton_append, byteLength_append, ih others, List.length_append, byteLength,
      Utf8.encode_cons, Utf8.encodeChar_ascii first]
    rfl

end Http11

import Http11.ContentDisposition
import Http11.Proofs.AuthHeaders
import Http11.Proofs.Authority
import Http11.Proofs.Quoting

/-! Extended values: what the two decoders make of them. -/

namespace Http11

/-- An attribute character stands for itself in an extended value. -/
def isAttrChr (char : Char) : Bool :=
  decide (char.toNat < 0x80) && isAttrChar (UInt8.ofNat char.toNat)

/-- The value part of an extended value, with plus signs in place of first digits or without. -/
inductive IsExtBytes (signed : Bool) : Str → Bytes → Prop where
  /-- Nothing. -/
  | none : IsExtBytes signed [] []
  /-- A character that stands for itself. -/
  | plain {char : Char} {text : Str} {bytes : Bytes} (attr : isAttrChr char = true)
    (more : IsExtBytes signed text bytes) :
    IsExtBytes signed (char :: text) (UInt8.ofNat char.toNat :: bytes)
  /-- A byte as two hexadecimal digits. -/
  | escape {high low : Char} {hi lo : Nat} {text : Str} {bytes : Bytes}
    (first : Numerals.digitValue high = some hi) (upper : hi < 16)
    (second : Numerals.digitValue low = some lo) (lower : lo < 16)
    (more : IsExtBytes signed text bytes) :
    IsExtBytes signed ('%' :: high :: low :: text) (UInt8.ofNat (16 * hi + lo) :: bytes)
  /-- A byte as a plus sign and one hexadecimal digit. -/
  | sign {low : Char} {lo : Nat} {text : Str} {bytes : Bytes} (allowed : signed = true)
    (second : Numerals.digitValue low = some lo) (lower : lo < 16)
    (more : IsExtBytes signed text bytes) :
    IsExtBytes signed ('%' :: '+' :: low :: text) (UInt8.ofNat lo :: bytes)

/-- A charset, a language and a value that decodes to a text. -/
def IsExtendedValue (signed : Bool) (value text : Str) : Prop :=
  ∃ charset language encoded, eqIgnoreAsciiCase charset "UTF-8".toList = true ∧ '\'' ∉ language ∧
    value = charset ++ '\'' :: (language ++ '\'' :: encoded) ∧
    IsExtBytes signed encoded (Utf8.encode text)

/-- A percent sign is no attribute character. -/
theorem isAttrChr_percent {char : Char} (attr : isAttrChr char = true) : char ≠ '%' := by
  intro same
  rw [same] at attr
  revert attr
  decide

/-- Two characters are read as a number if they are digits, or a plus sign and a digit. -/
theorem read_pair (high low : Char) (value : Nat) :
    Numerals.read 16 255 [high, low] = some value ↔
      (∃ hi lo, Numerals.digitValue high = some hi ∧ hi < 16 ∧ Numerals.digitValue low = some lo ∧
        lo < 16 ∧ value = 16 * hi + lo) ∨
      (high = '+' ∧ Numerals.digitValue low = some value ∧ value < 16) := by
  rw [Numerals.read_iff (by decide)]
  constructor
  · intro found
    obtain ⟨digits, same | same, present, all, denoted, _⟩ := found
    · -- Two digits.
      subst same
      obtain ⟨hi, upper, first⟩ := all high (by simp)
      obtain ⟨lo, lower, second⟩ := all low (by simp)
      refine .inl ⟨hi, lo, first, upper, second, lower, ?_⟩
      rw [← denoted]
      simp [Numerals.value, Numerals.valueFrom, first, second]
      omega
    · -- A sign and one digit.
      rw [List.cons.injEq] at same
      obtain ⟨rfl, rfl⟩ := same
      obtain ⟨lo, lower, second⟩ := all low (by simp)
      refine .inr ⟨rfl, ?_, ?_⟩
      all_goals simp [Numerals.value, Numerals.valueFrom, second] at denoted
      · rw [second, denoted]
      · omega
  · intro digits
    rcases digits with ⟨hi, lo, first, upper, second, lower, rfl⟩ | ⟨rfl, second, lower⟩
    · refine ⟨[high, low], .inl rfl, List.cons_ne_nil _ _, ?_, ?_, by omega⟩
      · intro char inside
        rcases List.mem_cons.mp inside with rfl | inside
        · exact ⟨hi, upper, first⟩
        · rw [List.mem_singleton.mp inside]
          exact ⟨lo, lower, second⟩
      · simp [Numerals.value, Numerals.valueFrom, first, second]
        omega
    · refine ⟨[low], .inr rfl, List.cons_ne_nil _ _, ?_, ?_, by omega⟩
      · intro char inside
        rw [List.mem_singleton.mp inside]
        exact ⟨value, lower, second⟩
      · simp [Numerals.value, Numerals.valueFrom, second]

/-- Digits are one byte each. -/
theorem byteLength_digit {char : Char} {digit : Nat}
    (found : Numerals.digitValue char = some digit) (rest : Str) :
    byteLength (char :: rest) = byteLength rest + 1 := by
  have ascii := ascii_of_digitValue found
  simp [byteLength, Utf8.encodeChar_ascii ascii]

/-- What is too short for two digits is no number of two bytes. -/
theorem read_short {short : Str} (few : short.length < 2) (two : byteLength short = 2) :
    Numerals.read 16 255 short = none := by
  match short, few with
  | [], _ => rfl
  | [char], _ =>
    by_contra found
    obtain ⟨value, read⟩ := Option.ne_none_iff_exists'.mp found
    obtain ⟨digits, same, present, all, _⟩ := (Numerals.read_iff (by decide)).mp read
    -- A digit alone would be one byte.
    rcases same with rfl | same
    · obtain ⟨digit, _, found⟩ := all char (by simp)
      rw [byteLength_digit found] at two
      cases two
    · rw [List.cons.injEq] at same
      exact present same.2.symm

/-- The decoder of file names reads signs as digits. -/
theorem percentDecodeBytes_iff (text : Str) (bytes : Bytes) :
    percentDecodeBytes text = some bytes ↔ IsExtBytes true text bytes := by
  constructor
  · intro decoded
    fun_induction percentDecodeBytes text generalizing bytes with
    | case1 =>
      cases decoded
      exact .none
    | case2 | case3 | case7 => cases decoded
    | case4 char percent high low rest two value read ih =>
      rw [Option.map_eq_some_iff] at decoded
      obtain ⟨more, found, rfl⟩ := decoded
      rw [beq_iff_eq.mp percent]
      rcases (read_pair high low value).mp read with ⟨hi, lo, digits⟩ | ⟨rfl, second, lower⟩
      · obtain ⟨first, upper, second, lower, rfl⟩ := digits
        exact .escape first upper second lower (ih _ found)
      · exact .sign rfl second lower (ih _ found)
    | case5 => cases decoded
    | case6 char percent short long two =>
      -- There is no number without two characters.
      have few : short.length < 2 := by
        match short, long with
        | [], _ => decide
        | [_], _ => simp
        | high :: low :: rest, long => exact absurd rfl (long high low rest)
      rw [read_short few (by simpa using two)] at decoded
      cases decoded
    | case8 char rest other plain ih =>
      rw [Option.map_eq_some_iff] at decoded
      obtain ⟨more, found, rfl⟩ := decoded
      have attr : isAttrChr char = true := by simpa [isAttrChr] using plain
      exact .plain attr (ih _ found)
  · intro written
    induction written with
    | none => rfl
    | @plain char text bytes attr more ih =>
      have percent : ¬ (char == '%') = true := by simpa using isAttrChr_percent attr
      have plain : (decide (0x80 ≤ char.toNat) || !isAttrChar (UInt8.ofNat char.toNat)) = false := by
        simpa [isAttrChr] using attr
      rw [percentDecodeBytes.eq_def]
      dsimp only
      rw [if_neg percent, plain, ih]
      rfl
    | @escape high low hi lo text bytes first upper second lower more ih =>
      have two : byteLength [high, low] = 2 := by
        rw [byteLength_digit first, byteLength_digit second]
        rfl
      have read := (read_pair high low _).mpr (.inl ⟨hi, lo, first, upper, second, lower, rfl⟩)
      rw [percentDecodeBytes.eq_def]
      dsimp only
      rw [if_pos (by decide), if_neg (by simp [two]), read, ih]
      rfl
    | @sign low lo text bytes allowed second lower more ih =>
      have two : byteLength ['+', low] = 2 := by
        have one := byteLength_digit second []
        simp only [byteLength, Utf8.encode_cons] at one ⊢
        rw [Utf8.encodeChar_ascii (by decide), List.singleton_append, List.length_cons, one]
        rfl
      have read := (read_pair '+' low _).mpr (.inr ⟨rfl, second, lower⟩)
      rw [percentDecodeBytes.eq_def]
      dsimp only
      rw [if_pos (by decide), if_neg (by simp [two]), read, ih]
      rfl

/-- A byte that is a digit is the character of one. -/
theorem toDigit16_iff {byte value : UInt8} : toDigit16 byte = some value ↔
    byte.toNat < 0x80 ∧ ∃ digit < 16, Numerals.digitValue (Char.ofNat byte.toNat) = some digit ∧
      value = UInt8.ofNat digit := by
  rw [toDigit16, Option.bind_eq_some_iff]
  constructor
  · intro found
    -- The source tells digits from letters by their value, which is below sixteen.
    obtain ⟨digit, read, small⟩ := found
    split at small
    · rename_i lower
      cases small
      -- Only ASCII bytes are digits of any base.
      have narrow : ∀ byte : UInt8, (Numerals.digitValue (Char.ofNat byte.toNat)).isSome = true →
          byte.toNat < 0x80 := forall_byte (by decide +kernel)
      exact ⟨narrow byte (by rw [read]; rfl), digit, lower, read, rfl⟩
    · cases small
  · intro found
    obtain ⟨_, digit, lower, read, rfl⟩ := found
    exact ⟨digit, read, if_pos lower⟩

/-- The byte of a digit is read as its value. -/
theorem toDigit16_digit {char : Char} {digit : Nat} (found : Numerals.digitValue char = some digit)
    (small : digit < 16) : toDigit16 (UInt8.ofNat char.toNat) = some (UInt8.ofNat digit) := by
  have ascii := ascii_of_digitValue found
  have same : (UInt8.ofNat char.toNat).toNat = char.toNat := Utf8.toNat_ofNat_small _ (by omega)
  refine toDigit16_iff.mpr ⟨by omega, digit, small, ?_, rfl⟩
  rw [same, Char.ofNat_toNat, found]

/-- Two digits make a byte of its halves. -/
theorem halves_eq {hi lo : Nat} (upper : hi < 16) (lower : lo < 16) :
    (UInt8.ofNat hi <<< 4) ||| UInt8.ofNat lo = UInt8.ofNat (16 * hi + lo) := by
  have checked : ∀ hi < 16, ∀ lo < 16,
      (UInt8.ofNat hi <<< 4) ||| UInt8.ofNat lo = UInt8.ofNat (16 * hi + lo) := by decide
  exact checked hi upper lo lower

/-- The bytes of a text that starts with an ASCII byte are those behind its first character. -/
theorem encode_ascii_cons {text : Str} {byte : UInt8} {rest : Bytes}
    (same : Utf8.encode text = byte :: rest) (ascii : byte.toNat < 0x80) :
    ∃ others, text = Char.ofNat byte.toNat :: others ∧ rest = Utf8.encode others := by
  cases text with
  | nil => cases same
  | cons char others =>
    have first := Utf8.head_of_encode same ascii
    subst first
    have small : (Char.ofNat byte.toNat).toNat = byte.toNat := by
      -- Below 128 a character is its number.
      have each : ∀ value < 0x80, (Char.ofNat value).toNat = value := by decide
      exact each byte.toNat ascii
    rw [Utf8.encode_cons, Utf8.encodeChar_ascii (by omega), List.singleton_append,
      List.cons.injEq] at same
    exact ⟨others, rfl, same.2.symm⟩

/-- The decoder of user names reads digits only. -/
theorem decodeExtBytes_iff (text : Str) (bytes : Bytes) :
    decodeExtBytes (Utf8.encode text) = some bytes ↔ IsExtBytes false text bytes := by
  constructor
  · intro decoded
    generalize encoded : Utf8.encode text = source at decoded
    -- Every step reads ASCII bytes, which are characters of the text.
    fun_induction decodeExtBytes source generalizing text bytes with
    | case1 =>
      cases decoded
      rw [Utf8.encode_eq_nil.mp encoded]
      exact .none
    | case2 high low rest ih =>
      simp only [Option.bind_eq_bind, Option.bind_eq_some_iff, Option.pure_def,
        Option.some.injEq] at decoded
      obtain ⟨hi, first, lo, second, more, found, rfl⟩ := decoded
      obtain ⟨narrow, left, upper, one, rfl⟩ := toDigit16_iff.mp first
      obtain ⟨slim, right, lower, two, rfl⟩ := toDigit16_iff.mp second
      obtain ⟨behind, rfl, after⟩ := encode_ascii_cons encoded (by decide)
      obtain ⟨further, rfl, last⟩ := encode_ascii_cons after.symm narrow
      obtain ⟨others, rfl, tail⟩ := encode_ascii_cons last.symm slim
      rw [halves_eq upper lower]
      exact .escape one upper two lower (ih _ _ tail.symm found)
    | case3 => cases decoded
    | case4 byte rest other attr ih =>
      rw [Option.map_eq_some_iff] at decoded
      obtain ⟨more, found, rfl⟩ := decoded
      have narrow : ∀ byte, isAttrChar byte = true → byte.toNat < 0x80 :=
        forall_byte (by decide +kernel)
      have ascii := narrow byte attr
      obtain ⟨others, rfl, tail⟩ := encode_ascii_cons encoded ascii
      have small : (Char.ofNat byte.toNat).toNat = byte.toNat := by
        have each : ∀ value < 0x80, (Char.ofNat value).toNat = value := by decide
        exact each byte.toNat ascii
      have kept : IsExtBytes false (Char.ofNat byte.toNat :: others)
          (UInt8.ofNat (Char.ofNat byte.toNat).toNat :: more) :=
        .plain (by simp [isAttrChr, small, ascii, attr]) (ih _ _ tail.symm found)
      rwa [small, UInt8.ofNat_toNat] at kept
    | case5 => cases decoded
  · intro written
    induction written with
    | none => rfl
    | @plain char text bytes attr more ih =>
      have percent := isAttrChr_percent attr
      rw [isAttrChr, Bool.and_eq_true, decide_eq_true_eq] at attr
      have other : ¬ UInt8.ofNat char.toNat = 0x25 := by
        intro same
        have value := congrArg UInt8.toNat same
        rw [Utf8.toNat_ofNat_small _ (by omega)] at value
        exact percent (Char.toNat_inj.mp value)
      rw [Utf8.encode_cons, Utf8.encodeChar_ascii attr.1, List.singleton_append,
        decodeExtBytes.eq_def]
      dsimp only
      rw [if_neg other, if_pos attr.2, ih]
      rfl
    | @escape high low hi lo text bytes first upper second lower more ih =>
      have one := ascii_of_digitValue first
      have two := ascii_of_digitValue second
      have left := toDigit16_digit first upper
      have right := toDigit16_digit second lower
      rw [Utf8.encode_cons, Utf8.encode_cons, Utf8.encode_cons, Utf8.encodeChar_ascii (by decide),
        Utf8.encodeChar_ascii one, Utf8.encodeChar_ascii two]
      change decodeExtBytes (0x25 :: UInt8.ofNat high.toNat :: UInt8.ofNat low.toNat ::
        Utf8.encode text) = _
      rw [decodeExtBytes.eq_def]
      simp [left, right, ih, halves_eq upper lower]
    | sign allowed => cases allowed

/-- A name of the charset has no apostrophe. -/
theorem charset_plain {charset : Str} (known : eqIgnoreAsciiCase charset "UTF-8".toList = true) :
    '\'' ∉ charset := by
  intro inside
  rw [eqIgnoreAsciiCase, beq_iff_eq] at known
  have lower : '\'' ∈ charset.map Char.toLower := List.mem_map.mpr ⟨'\'', inside, by decide⟩
  rw [known] at lower
  revert lower
  decide

/-- The decoder of user names accepts exactly the extended values. -/
theorem decodeUsernameExtValue_iff (value text : Str) :
    decodeUsernameExtValue value = .ok text ↔ IsExtendedValue false value text := by
  constructor
  · -- Each check of the source is one condition of the grammar.
    intro decoded
    unfold decodeUsernameExtValue at decoded
    split at decoded
    · cases decoded
    rename_i charset rest outer
    split at decoded
    · cases decoded
    rename_i known
    split at decoded
    · cases decoded
    rename_i language encoded inner
    split at decoded
    · cases decoded
    rename_i bytes read
    split at decoded
    · cases decoded
    rename_i name valid
    cases decoded
    obtain ⟨rfl, _⟩ := splitOnce_some outer
    obtain ⟨rfl, plain⟩ := splitOnce_some inner
    -- What was decoded is UTF-8, so the text is the one with these bytes.
    refine ⟨charset, language, encoded, by simpa using known, plain, rfl, ?_⟩
    rw [← Utf8.decode_iff.mp valid]
    exact (decodeExtBytes_iff _ _).mp read
  · intro valued
    obtain ⟨charset, language, encoded, known, plain, rfl, written⟩ := valued
    have read := (decodeExtBytes_iff _ _).mpr written
    have valid := Utf8.decode_iff.mpr (rfl : Utf8.encode text = Utf8.encode text)
    -- The charset has no quote in it, so it is cut off where it was written.
    have outer := splitOnce_append (charset_plain known) (language ++ '\'' :: encoded)
    unfold decodeUsernameExtValue
    rw [outer]
    dsimp only
    rw [known, splitOnce_append plain]
    dsimp only
    rw [read]
    dsimp only
    rw [valid]
    rfl

/-- The decoder of file names trims, and accepts signs in place of first digits as well. -/
theorem parseExtValue_iff (value text : Str) :
    parseExtValue value = .ok text ↔ IsExtendedValue true (trim value) text := by
  constructor
  · -- The charset is checked last here, but the conditions are the same.
    intro decoded
    unfold parseExtValue at decoded
    split at decoded
    · cases decoded
    rename_i charset rest outer
    split at decoded
    · cases decoded
    rename_i language encoded inner
    split at decoded
    · cases decoded
    rename_i known
    unfold percentDecode at decoded
    split at decoded
    · cases decoded
    rename_i bytes read
    split at decoded
    · cases decoded
    rename_i found valid
    cases decoded
    -- Trimming stands in front of all, so the grammar is about what is left.
    obtain ⟨whole, _⟩ := splitOnce_some outer
    obtain ⟨rfl, plain⟩ := splitOnce_some inner
    refine ⟨charset, language, encoded, by simpa using known, plain, whole, ?_⟩
    rw [← Utf8.decode_iff.mp valid]
    exact (percentDecodeBytes_iff _ _).mp read
  · intro valued
    obtain ⟨charset, language, encoded, known, plain, whole, written⟩ := valued
    have read := (percentDecodeBytes_iff _ _).mpr written
    have valid := Utf8.decode_iff.mpr (rfl : Utf8.encode text = Utf8.encode text)
    -- Both quotes are found where they were written.
    have outer := splitOnce_append (charset_plain known) (language ++ '\'' :: encoded)
    unfold parseExtValue
    rw [whole, outer]
    dsimp only
    rw [splitOnce_append plain]
    dsimp only
    rw [known, percentDecode, read]
    dsimp only
    rw [valid]
    rfl

/-- Digits are read in either case, and a language is passed over. -/
example : parseExtValue "utf-8'en'%e2%82%AC".toList = .ok ['€'] := by decide +kernel

/-- An escaped byte is written as its two digits. -/
theorem hexByte_digits (byte : UInt8) : ∃ high low, (hexByte byte).toList = [high, low] ∧
    Numerals.digitValue high = some (byte.toNat / 16) ∧
    Numerals.digitValue low = some (byte.toNat % 16) := by
  -- All bytes are checked.
  have checked : ∀ byte, (hexByte byte).toList.map Numerals.digitValue =
      [some (byte.toNat / 16), some (byte.toNat % 16)] := forall_byte (by decide +kernel)
  have digits := checked byte
  have two : (hexByte byte).toList.length = 2 := by simpa using congrArg List.length digits
  obtain ⟨high, low, shown⟩ := List.length_eq_two.mp two
  rw [shown] at digits
  simp only [List.map_cons, List.map_nil, List.cons.injEq, and_true] at digits
  exact ⟨high, low, shown, digits.1, digits.2⟩

example : (hexByte 0xE2).toList = ['E', '2'] := by decide +kernel

/-- What is encoded is written in extended form. -/
theorem encodeExtValue_written (signed : Bool) (text : Str) :
    IsExtBytes signed (encodeExtValue text) (Utf8.encode text) := by
  unfold encodeExtValue
  generalize Utf8.encode text = bytes
  induction bytes with
  | nil => exact .none
  | cons byte bytes ih =>
    rw [List.flatMap_cons]
    by_cases attr : isAttrChar byte = true
    · have narrow : ∀ byte, isAttrChar byte = true → byte.toNat < 0x80 :=
        forall_byte (by decide +kernel)
      have ascii := narrow byte attr
      have small : (Char.ofNat byte.toNat).toNat = byte.toNat := by
        have each : ∀ value < 0x80, (Char.ofNat value).toNat = value := by decide
        exact each byte.toNat ascii
      have plain : isAttrChr (Char.ofNat byte.toNat) = true := by
        simp [isAttrChr, small, ascii, attr]
      have kept := IsExtBytes.plain plain ih
      rw [small, UInt8.ofNat_toNat] at kept
      rw [if_pos attr]
      exact kept
    · -- Any other byte is escaped.
      obtain ⟨high, low, shown, first, second⟩ := hexByte_digits byte
      have upper : byte.toNat / 16 < 16 := by
        have := byte.toNat_lt
        omega
      have kept := IsExtBytes.escape first upper second (by omega) ih
      have whole : 16 * (byte.toNat / 16) + byte.toNat % 16 = byte.toNat := by omega
      rw [whole, UInt8.ofNat_toNat] at kept
      rw [if_neg attr, shown]
      exact kept

/-- No character of an extended value is white space or has a meaning in lists. -/
theorem IsExtBytes.plain_chars {text : Str} {bytes : Bytes} (written : IsExtBytes false text bytes) :
    ∀ char ∈ text, isWhitespace char = false ∧ char ≠ '"' ∧ char ≠ '\\' ∧ char ≠ ';' := by
  -- The characters that stand as they are, and the digits behind a percent sign.
  have attrs : ∀ char : Char, isAttrChr char = true →
      isWhitespace char = false ∧ char ≠ '"' ∧ char ≠ '\\' ∧ char ≠ ';' := by
    intro char attr
    have ascii : char.toNat < 0x80 := by
      rw [isAttrChr, Bool.and_eq_true, decide_eq_true_eq] at attr
      exact attr.1
    revert attr
    exact forall_ascii (motive := fun char => isAttrChr char = true →
      isWhitespace char = false ∧ char ≠ '"' ∧ char ≠ '\\' ∧ char ≠ ';') (by decide +kernel) ascii
  have digits : ∀ (char : Char) digit, Numerals.digitValue char = some digit →
      isWhitespace char = false ∧ char ≠ '"' ∧ char ≠ '\\' ∧ char ≠ ';' := by
    intro char digit found
    have some : (Numerals.digitValue char).isSome = true := by rw [found]; rfl
    have ascii := ascii_of_digitValue found
    clear found
    revert some
    exact forall_ascii (motive := fun char => (Numerals.digitValue char).isSome = true →
      isWhitespace char = false ∧ char ≠ '"' ∧ char ≠ '\\' ∧ char ≠ ';') (by decide) ascii
  induction written with
  | none => exact List.forall_mem_nil _
  | plain attr more ih => exact List.forall_mem_cons.mpr ⟨attrs _ attr, ih⟩
  | escape first upper second lower more ih =>
    exact List.forall_mem_cons.mpr ⟨by decide, List.forall_mem_cons.mpr ⟨digits _ _ first,
      List.forall_mem_cons.mpr ⟨digits _ _ second, ih⟩⟩⟩
  -- A sign is no part of the stricter grammar.
  | sign allowed => cases allowed

/-- What is encoded is decoded behind the charset. -/
theorem parseExtValue_encode (text : Str) :
    parseExtValue ("UTF-8''".toList ++ encodeExtValue text) = .ok text := by
  have plain := (encodeExtValue_written false text).plain_chars
  have charset : ∀ char ∈ "UTF-8''".toList, isWhitespace char = false := by decide +kernel
  -- Nothing is trimmed, since nothing in it is white space.
  have dark : Trimming.IsTrimmed isWhitespace ("UTF-8''".toList ++ encodeExtValue text) := by
    refine Trimming.isTrimmed_of_none fun char inside => ?_
    rcases List.mem_append.mp inside with front | back
    · exact charset char front
    · exact (plain char back).1
  have same : trim ("UTF-8''".toList ++ encodeExtValue text) = "UTF-8''".toList ++ encodeExtValue text :=
    dark.trim_eq
  rw [parseExtValue_iff, same]
  exact ⟨"UTF-8".toList, [], encodeExtValue text, beq_self_eq_true _, List.not_mem_nil, rfl,
    encodeExtValue_written true text⟩

/-- What is written without signs may be written where they are allowed. -/
theorem IsExtBytes.signed {text : Str} {bytes : Bytes} (written : IsExtBytes false text bytes) :
    IsExtBytes true text bytes := by
  induction written with
  | none => exact .none
  | plain attr more ih => exact .plain attr ih
  | escape first upper second lower more ih => exact .escape first upper second lower ih
  | sign allowed => cases allowed

/-- The decoders agree and are exact on a value exactly if no sign is read as a digit in it. -/
theorem extValue_exact {value : Str} (trimmed : trim value = value) :
    ((∀ text, (parseExtValue value = .ok text ↔ decodeUsernameExtValue value = .ok text) ∧
        (decodeUsernameExtValue value = .ok text ↔ IsExtendedValue false value text)) ↔
      ¬ ∃ text, IsExtendedValue true value text ∧ ¬ IsExtendedValue false value text) ∧
    ∀ text, parseExtValue ("UTF-8''".toList ++ encodeExtValue text) = .ok text := by
  refine ⟨?_, parseExtValue_encode⟩
  have filename : ∀ text, parseExtValue value = .ok text ↔ IsExtendedValue true value text := by
    intro text
    rw [parseExtValue_iff, trimmed]
  simp only [filename, decodeUsernameExtValue_iff, iff_self, and_true, not_exists, not_and, not_not]
  -- Without signs a value may only lose a reading.
  have fewer : ∀ text, IsExtendedValue false value text → IsExtendedValue true value text := by
    intro text valued
    obtain ⟨charset, language, encoded, known, plain, whole, written⟩ := valued
    exact ⟨charset, language, encoded, known, plain, whole, written.signed⟩
  exact ⟨fun agree text signed => (agree text).mp signed,
    fun unsigned text => ⟨unsigned text, fewer text⟩⟩

/-- On a value with an escaped letter the decoders agree and are exact, and the letter is encoded to
what is decoded again. -/
theorem extValue_exact_accented :
    (∀ text, (parseExtValue "utf-8'en'a%C3%a9".toList = .ok text ↔
        decodeUsernameExtValue "utf-8'en'a%C3%a9".toList = .ok text) ∧
      (decodeUsernameExtValue "utf-8'en'a%C3%a9".toList = .ok text ↔
        IsExtendedValue false "utf-8'en'a%C3%a9".toList text)) ∧
    parseExtValue ("UTF-8''".toList ++ encodeExtValue "aé".toList) = .ok "aé".toList := by
  have trimmed : trim "utf-8'en'a%C3%a9".toList = "utf-8'en'a%C3%a9".toList := by decide
  obtain ⟨exactly, written⟩ := extValue_exact trimmed
  refine ⟨exactly.mpr fun found => ?_, written "aé".toList⟩
  obtain ⟨text, signed, unsigned⟩ := found
  -- Both decoders read the same text.
  have read : parseExtValue "utf-8'en'a%C3%a9".toList = .ok "aé".toList := by decide +kernel
  have also : decodeUsernameExtValue "utf-8'en'a%C3%a9".toList = .ok "aé".toList := by decide +kernel
  have same := (parseExtValue_iff _ text).mpr (by rwa [trimmed])
  rw [read, Except.ok.injEq] at same
  rw [← same] at unsigned
  exact unsigned ((decodeUsernameExtValue_iff _ _).mp also)

/-- A sign in an escape is accepted in a file name, though not in a user name. -/
theorem signed_escape : ¬ ∀ value text, trim value = value →
    (parseExtValue value = .ok text ↔ decodeUsernameExtValue value = .ok text) := by
  intro agree
  have both := agree "UTF-8''%+A".toList ['\n'] (by decide)
  have read : parseExtValue "UTF-8''%+A".toList = .ok ['\n'] := by decide +kernel
  exact absurd (both.mp read) (by decide +kernel)

end Http11

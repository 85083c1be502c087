import Mathlib.Data.List.Basic
import Mathlib.Data.List.Infix

/-! UTF-8 text as lists of characters: encoding, checked decoding and lossy decoding. -/

namespace Utf8

/-- Where decoding stopped, and how long the bad sequence is unless the input ended inside it. -/
structure DecodeError where
  /-- How many bytes before the bad sequence are well formed. -/
  validUpTo : Nat
  /-- The length of the bad sequence, or none when more bytes could have completed it. -/
  errorLen : Option Nat
  deriving DecidableEq, Repr

/-- The bytes of a text. -/
def encode (text : List Char) : List UInt8 := text.flatMap String.utf8EncodeChar

/-- A byte that continues a sequence. -/
def isTail (byte : UInt8) : Bool := 0x80 ≤ byte.toNat && byte.toNat ≤ 0xBF

/-- A second byte allowed after the first byte of a three-byte sequence. -/
def isSecondOfThree (first second : UInt8) : Bool :=
  -- Overlong forms follow E0, and surrogates follow ED.
  if first.toNat = 0xE0 then 0xA0 ≤ second.toNat && second.toNat ≤ 0xBF
  else if first.toNat = 0xED then 0x80 ≤ second.toNat && second.toNat ≤ 0x9F
  else isTail second

/-- A second byte allowed after the first byte of a four-byte sequence. -/
def isSecondOfFour (first second : UInt8) : Bool :=
  -- Overlong forms follow F0, and code points past the last plane follow F4.
  if first.toNat = 0xF0 then 0x90 ≤ second.toNat && second.toNat ≤ 0xBF
  else if first.toNat = 0xF4 then 0x80 ≤ second.toNat && second.toNat ≤ 0x8F
  else isTail second

/-- The character a sequence of bytes starts with and its width, or the length of a bad start. -/
def firstChar (byte : UInt8) (rest : List UInt8) : Except (Option Nat) (Char × Nat) :=
  if byte.toNat < 0x80 then .ok (Char.ofNat byte.toNat, 1)
  -- Two bytes; the two starts below these would spell ASCII in two bytes.
  else if 0xC2 ≤ byte.toNat ∧ byte.toNat ≤ 0xDF then
    match rest with
    | [] => .error none
    | second :: _ =>
      if isTail second then
        .ok (Char.ofNat ((byte.toNat - 0xC0) * 64 + (second.toNat - 0x80)), 2)
      else .error (some 1)
  -- Three bytes; the second one tells overlong forms and surrogates.
  else if 0xE0 ≤ byte.toNat ∧ byte.toNat ≤ 0xEF then
    match rest with
    | [] => .error none
    | second :: rest =>
      if isSecondOfThree byte second then
        match rest with
        | [] => .error none
        | third :: _ =>
          if isTail third then
            .ok (Char.ofNat ((byte.toNat - 0xE0) * 4096 + (second.toNat - 0x80) * 64 +
              (third.toNat - 0x80)), 3)
          else .error (some 2)
      else .error (some 1)
  -- Four bytes, up to the last character there is.
  else if 0xF0 ≤ byte.toNat ∧ byte.toNat ≤ 0xF4 then
    match rest with
    | [] => .error none
    | second :: rest =>
      if isSecondOfFour byte second then
        match rest with
        | [] => .error none
        | third :: rest =>
          if isTail third then
            match rest with
            | [] => .error none
            | fourth :: _ =>
              if isTail fourth then
                .ok (Char.ofNat ((byte.toNat - 0xF0) * 262144 + (second.toNat - 0x80) * 4096 +
                  (third.toNat - 0x80) * 64 + (fourth.toNat - 0x80)), 4)
              else .error (some 3)
          else .error (some 2)
      else .error (some 1)
  -- No character starts with such a byte.
  else .error (some 1)

/-- Decoding from a byte position on, with some bytes of the character before it still to pass. -/
def decodeFrom : Nat → Nat → List UInt8 → Except DecodeError (List Char)
  | _, _, [] => .ok []
  | index, skip + 1, _ :: rest => decodeFrom (index + 1) skip rest
  | index, 0, byte :: rest =>
    match firstChar byte rest with
    | .ok (char, width) => (decodeFrom (index + 1) (width - 1) rest).map (char :: ·)
    | .error errorLen => .error ⟨index, errorLen⟩

/-- The text some bytes encode. -/
def decode (bytes : List UInt8) : Except DecodeError (List Char) := decodeFrom 0 0 bytes

/-- Decoding that writes the replacement character for every bad sequence. -/
def decodeLossyFrom : Nat → List UInt8 → List Char
  | _, [] => []
  | skip + 1, _ :: rest => decodeLossyFrom skip rest
  | 0, byte :: rest =>
    match firstChar byte rest with
    | .ok (char, width) => char :: decodeLossyFrom (width - 1) rest
    | .error (some errorLen) => Char.ofNat 0xFFFD :: decodeLossyFrom (errorLen - 1) rest
    | .error none => [Char.ofNat 0xFFFD]

/-- The text some bytes encode, with a replacement character for every bad sequence. -/
def decodeLossy (bytes : List UInt8) : List Char := decodeLossyFrom 0 bytes

@[simp] theorem encode_nil : encode [] = [] := rfl

@[simp] theorem encode_cons (char : Char) (text : List Char) :
    encode (char :: text) = String.utf8EncodeChar char ++ encode text := rfl

@[simp] theorem encode_append (front back : List Char) :
    encode (front ++ back) = encode front ++ encode back := List.flatMap_append

/-- A byte of a text belongs to one of its characters. -/
theorem mem_encode {byte : UInt8} {text : List Char} :
    byte ∈ encode text ↔ ∃ char ∈ text, byte ∈ String.utf8EncodeChar char := by
  simp [encode]

/-- A character of the ASCII range is its own single byte. -/
theorem encodeChar_ascii {char : Char} (ascii : char.toNat < 0x80) :
    String.utf8EncodeChar char = [UInt8.ofNat char.toNat] := by
  have small : char.val.toNat ≤ 127 := by
    have : char.val.toNat < 128 := ascii
    omega
  simp only [String.utf8EncodeChar, small, if_true]
  rfl

/-- A text of ASCII characters has as many bytes as characters. -/
theorem length_encode_ascii {text : List Char} (ascii : ∀ char ∈ text, char.toNat < 0x80) :
    (encode text).length = text.length := by
  induction text with
  | nil => rfl
  | cons char text ih =>
    rw [List.forall_mem_cons] at ascii
    rw [encode_cons, encodeChar_ascii ascii.1, List.length_append, ih ascii.2,
      List.length_singleton, List.length_cons, Nat.add_comm]

/-- Every character has at least one byte. -/
theorem encodeChar_ne_nil (char : Char) : String.utf8EncodeChar char ≠ [] := by
  intro none
  have size := String.length_utf8EncodeChar char
  have positive := Char.utf8Size_pos char
  rw [none] at size
  simp at size
  omega

@[simp] theorem encode_eq_nil {text : List Char} : encode text = [] ↔ text = [] := by
  cases text with
  | nil => simp
  | cons char text => simp

/-- The code points of characters stay below the last plane. -/
theorem toNat_lt_last (char : Char) : char.val.toNat < 0x110000 := by
  rcases char.valid with low | ⟨_, high⟩
  · have : char.val.toNat < 0xD800 := low
    omega
  · exact high

/-- Surrogates are not characters. -/
theorem not_surrogate (char : Char) : char.val.toNat < 0xD800 ∨ 0xDFFF < char.val.toNat := by
  rcases char.valid with low | ⟨high, _⟩
  · exact Or.inl low
  · exact Or.inr high

/-- Characters past the ASCII range have no byte below it. -/
theorem le_of_mem_encodeChar {char : Char} (wide : 0x80 ≤ char.toNat) {byte : UInt8}
    (member : byte ∈ String.utf8EncodeChar char) : 0x80 ≤ byte.toNat := by
  have wide' : 0x80 ≤ char.val.toNat := wide
  -- Each of the three wider forms sets the top bit of all its bytes.
  simp only [String.utf8EncodeChar, if_neg (by omega : ¬ char.val.toNat ≤ 127)] at member
  split at member
  · simp only [List.mem_cons, List.not_mem_nil, or_false] at member
    rcases member with rfl | rfl <;> simp only [UInt8.toNat_ofNat'] <;> omega
  · split at member
    · simp only [List.mem_cons, List.not_mem_nil, or_false] at member
      rcases member with rfl | rfl | rfl <;> simp only [UInt8.toNat_ofNat'] <;> omega
    · have last := toNat_lt_last char
      simp only [List.mem_cons, List.not_mem_nil, or_false] at member
      rcases member with rfl | rfl | rfl | rfl <;> simp only [UInt8.toNat_ofNat'] <;> omega

/-- The first byte of a text in ASCII is its first character. -/
theorem head_of_encode {char : Char} {text : List Char} {byte : UInt8} {rest : List UInt8}
    (same : encode (char :: text) = byte :: rest) (ascii : byte.toNat < 0x80) :
    char = Char.ofNat byte.toNat := by
  rw [encode_cons] at same
  by_cases small : char.toNat < 0x80
  · rw [encodeChar_ascii small, List.singleton_append, List.cons.injEq] at same
    rw [← same.1, UInt8.toNat_ofNat', Nat.mod_eq_of_lt (by omega), Char.ofNat_toNat]
  · -- The first byte of a wider character is not ASCII.
    cases bytes : String.utf8EncodeChar char with
    | nil => exact absurd bytes (encodeChar_ne_nil char)
    | cons first others =>
      rw [bytes, List.cons_append, List.cons.injEq] at same
      have member : first ∈ String.utf8EncodeChar char := by rw [bytes]; exact List.mem_cons_self
      have high := le_of_mem_encodeChar (by omega) member
      rw [same.1] at high
      omega

/-- An ASCII byte of a text is one of its characters. -/
theorem mem_encode_ascii {char : Char} (ascii : char.toNat < 0x80) {text : List Char} :
    UInt8.ofNat char.toNat ∈ encode text ↔ char ∈ text := by
  constructor
  · intro member
    obtain ⟨other, inText, inChar⟩ := mem_encode.mp member
    by_cases wide : 0x80 ≤ other.toNat
    · -- A wider character has no byte in the ASCII range.
      have high := le_of_mem_encodeChar wide inChar
      simp only [UInt8.toNat_ofNat'] at high
      omega
    · rw [encodeChar_ascii (by omega)] at inChar
      have bytes := congrArg UInt8.toNat (List.mem_singleton.mp inChar)
      simp only [UInt8.toNat_ofNat'] at bytes
      have same : char.toNat = other.toNat := by omega
      have : char = other := by
        rw [← Char.ofNat_toNat char, same, Char.ofNat_toNat]
      rwa [this]
  · intro member
    exact mem_encode.mpr ⟨char, member, by simp [encodeChar_ascii ascii]⟩

/-- The value of a byte built from a small number. -/
theorem toNat_ofNat_small (value : Nat) (small : value < 256) :
    (UInt8.ofNat value).toNat = value := by
  simp only [UInt8.toNat_ofNat']
  omega

/-- The first character of an encoded text is read back with its own width. -/
theorem firstChar_encodeChar (char : Char) (text : List UInt8) :
    ∃ byte rest, String.utf8EncodeChar char = byte :: rest ∧
      firstChar byte (rest ++ text) = .ok (char, rest.length + 1) := by
  have last := toNat_lt_last char
  have plane := not_surrogate char
  have back : Char.ofNat char.val.toNat = char := Char.ofNat_toNat char
  -- The four widths of the encoding, narrowest first.
  by_cases one : char.val.toNat ≤ 127
  · refine ⟨UInt8.ofNat char.val.toNat, [], encodeChar_ascii (Nat.lt_succ_of_le one), ?_⟩
    have value := toNat_ofNat_small char.val.toNat (by omega)
    simp only [firstChar, value, if_pos (Nat.lt_succ_of_le one), back, List.length_nil]
  by_cases two : char.val.toNat ≤ 2047
  · refine ⟨UInt8.ofNat (char.val.toNat / 64 % 32 + 192), [UInt8.ofNat (char.val.toNat % 64 + 128)],
      by simp only [String.utf8EncodeChar, if_neg one, if_pos two], ?_⟩
    have value := toNat_ofNat_small (char.val.toNat / 64 % 32 + 192) (by omega)
    have second := toNat_ofNat_small (char.val.toNat % 64 + 128) (by omega)
    have point : (char.val.toNat / 64 % 32 + 192 - 0xC0) * 64 + (char.val.toNat % 64 + 128 - 0x80)
        = char.val.toNat := by omega
    simp only [firstChar, isTail, value, second, List.cons_append, List.nil_append, point, back,
      Bool.and_eq_true, decide_eq_true_eq]
    rw [if_neg (by omega), if_pos (by omega), if_pos (by omega)]
    rfl
  by_cases three : char.val.toNat ≤ 65535
  · refine ⟨UInt8.ofNat (char.val.toNat / 4096 % 16 + 224),
      [UInt8.ofNat (char.val.toNat / 64 % 64 + 128), UInt8.ofNat (char.val.toNat % 64 + 128)],
      by simp only [String.utf8EncodeChar, if_neg one, if_neg two, if_pos three], ?_⟩
    have value := toNat_ofNat_small (char.val.toNat / 4096 % 16 + 224) (by omega)
    have second := toNat_ofNat_small (char.val.toNat / 64 % 64 + 128) (by omega)
    have third := toNat_ofNat_small (char.val.toNat % 64 + 128) (by omega)
    have point : (char.val.toNat / 4096 % 16 + 224 - 0xE0) * 4096 +
        (char.val.toNat / 64 % 64 + 128 - 0x80) * 64 + (char.val.toNat % 64 + 128 - 0x80)
        = char.val.toNat := by omega
    -- Overlong forms and surrogates are excluded by the width and by the character.
    have allowed : isSecondOfThree (UInt8.ofNat (char.val.toNat / 4096 % 16 + 224))
        (UInt8.ofNat (char.val.toNat / 64 % 64 + 128)) = true := by
      simp only [isSecondOfThree, isTail, value, second]
      split
      · simp only [Bool.and_eq_true, decide_eq_true_eq]; omega
      · split <;> simp only [Bool.and_eq_true, decide_eq_true_eq] <;> omega
    simp only [firstChar, allowed, isTail, value, second, third, List.cons_append, List.nil_append,
      point, back, Bool.and_eq_true, decide_eq_true_eq]
    rw [if_neg (by omega), if_neg (by omega), if_pos (by omega), if_pos trivial, if_pos (by omega)]
    rfl
  · refine ⟨UInt8.ofNat (char.val.toNat / 262144 % 8 + 240),
      [UInt8.ofNat (char.val.toNat / 4096 % 64 + 128), UInt8.ofNat (char.val.toNat / 64 % 64 + 128),
        UInt8.ofNat (char.val.toNat % 64 + 128)],
      by simp only [String.utf8EncodeChar, if_neg one, if_neg two, if_neg three], ?_⟩
    have value := toNat_ofNat_small (char.val.toNat / 262144 % 8 + 240) (by omega)
    have second := toNat_ofNat_small (char.val.toNat / 4096 % 64 + 128) (by omega)
    have third := toNat_ofNat_small (char.val.toNat / 64 % 64 + 128) (by omega)
    have fourth := toNat_ofNat_small (char.val.toNat % 64 + 128) (by omega)
    have point : (char.val.toNat / 262144 % 8 + 240 - 0xF0) * 262144 +
        (char.val.toNat / 4096 % 64 + 128 - 0x80) * 4096 +
        (char.val.toNat / 64 % 64 + 128 - 0x80) * 64 + (char.val.toNat % 64 + 128 - 0x80)
        = char.val.toNat := by omega
    have allowed : isSecondOfFour (UInt8.ofNat (char.val.toNat / 262144 % 8 + 240))
        (UInt8.ofNat (char.val.toNat / 4096 % 64 + 128)) = true := by
      simp only [isSecondOfFour, isTail, value, second]
      split
      · simp only [Bool.and_eq_true, decide_eq_true_eq]; omega
      · split <;> simp only [Bool.and_eq_true, decide_eq_true_eq] <;> omega
    simp only [firstChar, allowed, isTail, value, second, third, fourth, List.cons_append,
      List.nil_append, point, back, Bool.and_eq_true, decide_eq_true_eq]
    rw [if_neg (by omega), if_neg (by omega), if_neg (by omega), if_pos (by omega), if_pos trivial,
      if_pos (by omega), if_pos (by omega)]
    rfl

/-- Bytes of a character already read are passed over. -/
theorem decodeFrom_skip (index : Nat) (passed rest : List UInt8) :
    decodeFrom index passed.length (passed ++ rest) = decodeFrom (index + passed.length) 0 rest := by
  induction passed generalizing index with
  | nil => rfl
  | cons byte passed ih =>
    simp only [List.length_cons, List.cons_append, decodeFrom, ih]
    congr 1
    omega

/-- Decoding reads back an encoded text from any position on. -/
theorem decodeFrom_encode (index : Nat) (text : List Char) :
    decodeFrom index 0 (encode text) = .ok text := by
  induction text generalizing index with
  | nil => rfl
  | cons char text ih =>
    -- The first character takes its own bytes, and those of the others are left.
    obtain ⟨byte, rest, bytes, first⟩ := firstChar_encodeChar char (encode text)
    simp only [encode_cons, bytes, List.cons_append, decodeFrom, first, Nat.add_sub_cancel,
      decodeFrom_skip, ih]
    rfl

/-- Decoding reads back an encoded text. -/
theorem decode_encode (text : List Char) : decode (encode text) = .ok text :=
  decodeFrom_encode 0 text

/-- A code point that is no surrogate is the one of its character. -/
theorem toNat_ofNat (point : Nat) (low : point < 0x110000)
    (plane : point < 0xD800 ∨ 0xDFFF < point) : (Char.ofNat point).val.toNat = point := by
  have valid : point.isValidChar := plane.imp id fun high => ⟨high, low⟩
  rw [Char.ofNat, dif_pos valid]
  rfl

/-- A byte below 128 encodes the character with its number. -/
theorem encodeChar_single {byte : UInt8} (low : byte.toNat < 0x80) :
    String.utf8EncodeChar (Char.ofNat byte.toNat) = [byte] := by
  have point := toNat_ofNat byte.toNat (by omega) (by omega)
  simp only [String.utf8EncodeChar, point]
  rw [if_pos (by omega), UInt8.ofNat_toNat]

/-- A first byte of two and a byte behind it encode the character they are read as. -/
theorem encodeChar_pair {byte second : UInt8} (first : 0xC2 ≤ byte.toNat ∧ byte.toNat ≤ 0xDF)
    (tail : isTail second = true) :
    String.utf8EncodeChar (Char.ofNat ((byte.toNat - 0xC0) * 64 + (second.toNat - 0x80))) =
      [byte, second] := by
  simp only [isTail, Bool.and_eq_true, decide_eq_true_eq] at tail
  generalize whole : (byte.toNat - 0xC0) * 64 + (second.toNat - 0x80) = point
  have number := toNat_ofNat point (by omega) (by omega)
  simp only [String.utf8EncodeChar, number]
  rw [if_neg (by omega), if_pos (by omega)]
  -- Each byte is its digit of the number, at the base 64.
  have high : point / 64 % 32 + 192 = byte.toNat := by omega
  have low : point % 64 + 128 = second.toNat := by omega
  simp only [high, low, UInt8.ofNat_toNat]

/-- A first byte of three and two bytes behind it encode the character they are read as. -/
theorem encodeChar_triple {byte second third : UInt8}
    (first : 0xE0 ≤ byte.toNat ∧ byte.toNat ≤ 0xEF)
    (allowed : isSecondOfThree byte second = true) (tail : isTail third = true) :
    String.utf8EncodeChar (Char.ofNat ((byte.toNat - 0xE0) * 4096 + (second.toNat - 0x80) * 64 +
      (third.toNat - 0x80))) = [byte, second, third] := by
  simp only [isTail, Bool.and_eq_true, decide_eq_true_eq] at tail
  -- The second byte rules out overlong forms and surrogates.
  have range : 0x80 ≤ second.toNat ∧ second.toNat ≤ 0xBF ∧
      (byte.toNat = 0xE0 → 0xA0 ≤ second.toNat) ∧ (byte.toNat = 0xED → second.toNat ≤ 0x9F) := by
    simp only [isSecondOfThree, isTail] at allowed
    split at allowed
    · simp only [Bool.and_eq_true, decide_eq_true_eq] at allowed; omega
    · split at allowed <;> simp only [Bool.and_eq_true, decide_eq_true_eq] at allowed <;> omega
  generalize whole : (byte.toNat - 0xE0) * 4096 + (second.toNat - 0x80) * 64 +
    (third.toNat - 0x80) = point
  have number := toNat_ofNat point (by omega) (by omega)
  simp only [String.utf8EncodeChar, number]
  rw [if_neg (by omega), if_neg (by omega), if_pos (by omega)]
  have high : point / 4096 % 16 + 224 = byte.toNat := by omega
  have middle : point / 64 % 64 + 128 = second.toNat := by omega
  have low : point % 64 + 128 = third.toNat := by omega
  simp only [high, middle, low, UInt8.ofNat_toNat]

/-- A first byte of four and three bytes behind it encode the character they are read as. -/
theorem encodeChar_quadruple {byte second third fourth : UInt8}
    (first : 0xF0 ≤ byte.toNat ∧ byte.toNat ≤ 0xF4)
    (allowed : isSecondOfFour byte second = true) (inner : isTail third = true)
    (tail : isTail fourth = true) :
    String.utf8EncodeChar (Char.ofNat ((byte.toNat - 0xF0) * 262144 +
      (second.toNat - 0x80) * 4096 + (third.toNat - 0x80) * 64 + (fourth.toNat - 0x80))) =
        [byte, second, third, fourth] := by
  simp only [isTail, Bool.and_eq_true, decide_eq_true_eq] at inner tail
  -- The second byte rules out overlong forms and numbers past the last plane.
  have range : 0x80 ≤ second.toNat ∧ second.toNat ≤ 0xBF ∧
      (byte.toNat = 0xF0 → 0x90 ≤ second.toNat) ∧ (byte.toNat = 0xF4 → second.toNat ≤ 0x8F) := by
    simp only [isSecondOfFour, isTail] at allowed
    split at allowed
    · simp only [Bool.and_eq_true, decide_eq_true_eq] at allowed; omega
    · split at allowed <;> simp only [Bool.and_eq_true, decide_eq_true_eq] at allowed <;> omega
  generalize whole : (byte.toNat - 0xF0) * 262144 + (second.toNat - 0x80) * 4096 +
    (third.toNat - 0x80) * 64 + (fourth.toNat - 0x80) = point
  have number := toNat_ofNat point (by omega) (by omega)
  simp only [String.utf8EncodeChar, number]
  rw [if_neg (by omega), if_neg (by omega), if_neg (by omega)]
  have high : point / 262144 % 8 + 240 = byte.toNat := by omega
  have upper : point / 4096 % 64 + 128 = second.toNat := by omega
  have lower : point / 64 % 64 + 128 = third.toNat := by omega
  have low : point % 64 + 128 = fourth.toNat := by omega
  simp only [high, upper, lower, low, UInt8.ofNat_toNat]

/-- The bytes that a character was read from encode it. -/
theorem encodeChar_firstChar {byte : UInt8} {rest : List UInt8} {char : Char} {width : Nat}
    (read : firstChar byte rest = .ok (char, width)) :
    ∃ passed more, rest = passed ++ more ∧ width = passed.length + 1 ∧
      String.utf8EncodeChar char = byte :: passed := by
  unfold firstChar at read
  -- The first byte tells how many follow, and a missing or wrong one is an error.
  split at read
  · rename_i single
    cases read
    exact ⟨[], rest, rfl, rfl, encodeChar_single single⟩
  split at read
  · rename_i first
    split at read
    · cases read
    split at read
    · rename_i second more tail
      simp only [Except.ok.injEq, Prod.mk.injEq] at read
      obtain ⟨rfl, rfl⟩ := read
      exact ⟨[second], more, rfl, rfl, encodeChar_pair first tail⟩
    · cases read
  split at read
  · rename_i first
    split at read
    · cases read
    split at read
    · rename_i second rest allowed
      split at read
      · cases read
      split at read
      · rename_i third more tail
        simp only [Except.ok.injEq, Prod.mk.injEq] at read
        obtain ⟨rfl, rfl⟩ := read
        exact ⟨[second, third], more, rfl, rfl, encodeChar_triple first allowed tail⟩
      · cases read
    · cases read
  split at read
  · rename_i first
    split at read
    · cases read
    split at read
    · rename_i second rest allowed
      split at read
      · cases read
      split at read
      · rename_i third rest inner
        split at read
        · cases read
        split at read
        · rename_i fourth more tail
          simp only [Except.ok.injEq, Prod.mk.injEq] at read
          obtain ⟨rfl, rfl⟩ := read
          exact ⟨[second, third, fourth], more, rfl, rfl,
            encodeChar_quadruple first allowed inner tail⟩
        · cases read
      · cases read
    · cases read
  · cases read

/-- Text that is decoded encodes as the bytes it was decoded from. -/
theorem encode_decodeFrom {index : Nat} {bytes : List UInt8} {text : List Char}
    (decoded : decodeFrom index 0 bytes = .ok text) : encode text = bytes := by
  -- Each character takes at least one byte off the front.
  generalize size : bytes.length = length
  induction length using Nat.strongRecOn generalizing index bytes text with
  | ind length ih =>
    cases bytes with
    | nil =>
      cases decoded
      rfl
    | cons byte rest =>
      cases read : firstChar byte rest with
      | error error => simp [decodeFrom, read] at decoded
      | ok pair =>
        obtain ⟨char, width⟩ := pair
        obtain ⟨passed, more, rfl, rfl, encoded⟩ := encodeChar_firstChar read
        simp only [decodeFrom, read, Nat.add_sub_cancel, decodeFrom_skip] at decoded
        cases later : decodeFrom (index + 1 + passed.length) 0 more with
        | error error =>
          rw [later] at decoded
          cases decoded
        | ok others =>
          rw [later] at decoded
          cases decoded
          have shorter : more.length < length := by
            rw [← size, List.length_cons, List.length_append]
            omega
          rw [encode_cons, encoded, ih more.length shorter later rfl, List.cons_append]

/-- Bytes are decoded as a text exactly when they encode it. -/
theorem decode_iff {bytes : List UInt8} {text : List Char} :
    decode bytes = .ok text ↔ bytes = encode text := by
  constructor
  · exact fun decoded => (encode_decodeFrom decoded).symm
  · rintro rfl
    exact decode_encode text

/-- ASCII bytes encode the characters that they are. -/
theorem encode_ascii {bytes : List UInt8} (ascii : ∀ byte ∈ bytes, byte.toNat < 0x80) :
    encode (bytes.map fun byte => Char.ofNat byte.toNat) = bytes := by
  induction bytes with
  | nil => rfl
  | cons byte bytes ih =>
    have small := ascii byte List.mem_cons_self
    -- A number below 128 is that of its character, which takes one byte.
    have each : ∀ value < 0x80, (Char.ofNat value).toNat = value := by decide
    have same := each byte.toNat small
    rw [List.map_cons, encode_cons, encodeChar_ascii (by rw [same]; exact small), same,
      ih fun other inside => ascii other (List.mem_cons_of_mem _ inside), UInt8.ofNat_toNat]
    rfl

/-- A text in ASCII stands at the start of the bytes of another text where it starts that text. -/
theorem encode_prefix_iff {pattern text : List Char} (ascii : ∀ char ∈ pattern, char.toNat < 0x80) :
    encode pattern <+: encode text ↔ pattern <+: text := by
  constructor
  · intro starts
    -- Each byte of the pattern is the next character of the text.
    induction pattern generalizing text with
    | nil => exact List.nil_prefix
    | cons char pattern ih =>
      obtain ⟨small, rest⟩ := List.forall_mem_cons.mp ascii
      obtain ⟨behind, same⟩ := starts
      rw [encode_cons, encodeChar_ascii small, List.singleton_append, List.cons_append] at same
      have low : (UInt8.ofNat char.toNat).toNat = char.toNat := by
        rw [UInt8.toNat_ofNat', Nat.mod_eq_of_lt (by omega)]
      cases text with
      | nil => cases same
      | cons other text =>
        have first := head_of_encode same.symm (by omega)
        rw [low, Char.ofNat_toNat] at first
        subst first
        rw [encode_cons, encodeChar_ascii small, List.singleton_append, List.cons.injEq] at same
        exact List.cons_prefix_cons.mpr ⟨rfl, ih rest ⟨behind, same.2⟩⟩
  · rintro ⟨behind, rfl⟩
    exact ⟨encode behind, (encode_append _ _).symm⟩

/-- A text in ASCII stands in the bytes of another text where it stands in that text. -/
theorem encode_infix_iff {pattern text : List Char} (ascii : ∀ char ∈ pattern, char.toNat < 0x80) :
    encode pattern <:+: encode text ↔ pattern <:+: text := by
  constructor
  · intro inside
    induction text with
    | nil =>
      have empty : encode pattern = [] := List.infix_nil.mp inside
      rw [encode_eq_nil.mp empty]
    | cons char text ih =>
      by_cases small : char.toNat < 0x80
      · have bytes : encode (char :: text) = UInt8.ofNat char.toNat :: encode text := by
          rw [encode_cons, encodeChar_ascii small, List.singleton_append]
        rw [bytes, List.infix_cons_iff, ← bytes, encode_prefix_iff ascii] at inside
        exact List.infix_cons_iff.mpr (inside.imp_right ih)
      · -- The bytes of a wider character are none of the pattern.
        cases pattern with
        | nil => exact List.nil_infix
        | cons first others =>
          have skipped : ∀ front : List UInt8, (∀ byte ∈ front, 0x80 ≤ byte.toNat) →
              encode (first :: others) <:+: front ++ encode text →
                encode (first :: others) <:+: encode text := by
            intro front high found
            induction front with
            | nil => exact found
            | cons byte front later =>
              obtain ⟨here, rest⟩ := List.forall_mem_cons.mp high
              rw [List.cons_append, List.infix_cons_iff] at found
              refine later rest (found.resolve_left fun starts => ?_)
              have low := ascii first List.mem_cons_self
              rw [encode_cons, encodeChar_ascii low, List.singleton_append,
                List.cons_prefix_cons] at starts
              rw [← starts.1, UInt8.toNat_ofNat', Nat.mod_eq_of_lt (by omega)] at here
              omega
          rw [encode_cons char] at inside
          exact List.infix_cons_iff.mpr (.inr (ih (skipped _
            (fun byte member => le_of_mem_encodeChar (by omega) member) inside)))
  · rintro ⟨front, back, rfl⟩
    exact ⟨encode front, encode back, by rw [← encode_append, ← encode_append]⟩

end Utf8

import Mathlib.Data.List.DropRight
import Http11.Lib.Numerals

/-! Strings and bytes as the source handles them: searching, splitting, trimming and parsing. -/

namespace Http11

/-- The bytes of a buffer or a slice. -/
abbrev Bytes := List UInt8

/-- The characters of a string, whose bytes are their encoding. -/
abbrev Str := List Char

/-- What holds of all items of a list is decided item by item. -/
instance (priority := 2000) decidableForallMem {Item : Type} {motive : Item → Prop}
    [DecidablePred motive] (items : List Item) : Decidable (∀ item ∈ items, motive item) :=
  List.decidableBAll motive items

/-- The largest value of a machine word, and of the lengths counted in one. -/
def usizeMax : Nat := 2 ^ 64 - 1

/-- The largest value of a 64-bit number. -/
def u64Max : Nat := 2 ^ 64 - 1

/-- The largest value of a 16-bit number. -/
def u16Max : Nat := 2 ^ 16 - 1

/-- The sum of two lengths, unless it leaves the machine word. -/
def checkedAdd (left right : Nat) : Option Nat :=
  if left + right ≤ usizeMax then some (left + right) else none

/-- There is a sum exactly within the machine word. -/
theorem checkedAdd_iff {left right sum : Nat} : checkedAdd left right = some sum ↔
    left + right ≤ usizeMax ∧ sum = left + right := by
  rw [checkedAdd, Option.ite_none_right_eq_some, Option.some.injEq, eq_comm]

/-- The two bytes that end a line. -/
def crlf : Bytes := [13, 10]

/-- Equality of strings up to the case of ASCII letters. -/
def eqIgnoreAsciiCase (left right : Str) : Bool := left.map Char.toLower == right.map Char.toLower

/-- A string with its ASCII letters in lower case. -/
def toAsciiLowercase (text : Str) : Str := text.map Char.toLower

/-- A space or a tab. -/
def isOws (char : Char) : Bool := char == ' ' || char == '\t'

/-- A string without the spaces and tabs around it. -/
def trimOws (text : Str) : Str := (text.dropWhile isOws).rdropWhile isOws

/-- A character with the Unicode property of white space. -/
def isWhitespace (char : Char) : Bool :=
  let code := char.toNat
  (9 ≤ code && code ≤ 13) || code == 0x20 || code == 0x85 || code == 0xA0 || code == 0x1680 ||
    (0x2000 ≤ code && code ≤ 0x200A) || code == 0x2028 || code == 0x2029 || code == 0x202F ||
    code == 0x205F || code == 0x3000

/-- A string without the white space around it. -/
def trim (text : Str) : Str := (text.dropWhile isWhitespace).rdropWhile isWhitespace

/-- A string without the white space in front. -/
def trimStart (text : Str) : Str := text.dropWhile isWhitespace

/-- The length of a string, which is that of its bytes. -/
def byteLength (text : Str) : Nat := (Utf8.encode text).length

/-- A text has at least as many bytes as characters. -/
theorem length_le_byteLength (text : Str) : text.length ≤ byteLength text := by
  induction text with
  | nil => exact Nat.zero_le _
  | cons char rest ih =>
    -- Every character takes a byte.
    have positive : 0 < (String.utf8EncodeChar char).length := by
      rw [String.length_utf8EncodeChar]
      exact char.utf8Size_pos
    simp only [byteLength, Utf8.encode_cons, List.length_append, List.length_cons] at ih ⊢
    omega

/-- What stands before and after a number of bytes, which must end a character. -/
def splitAtByte : Nat → Str → Option (Str × Str)
  | 0, text => some ([], text)
  | _ + 1, [] => none
  | count + 1, char :: rest =>
    if char.utf8Size ≤ count + 1 then
      (splitAtByte (count + 1 - char.utf8Size) rest).map fun (front, back) => (char :: front, back)
    else none

/-- The position behind the bytes of some kind. -/
def skipWhile (kind : UInt8 → Bool) (bytes : Bytes) (i : Nat) : Nat :=
  i + ((bytes.drop i).takeWhile kind).length

/-- The text between two positions, both of which must be between characters. -/
def slice (text : Str) (first last : Nat) : Option Str := do
  let (_, back) ← splitAtByte first text
  let (middle, _) ← splitAtByte (last - first) back
  return middle

/-- The text behind a position, which must be between characters. -/
def sliceFrom (text : Str) (first : Nat) : Option Str := (splitAtByte first text).map Prod.snd

/-- What stands before and after the first separator. -/
def splitOnce (separator : Char) : Str → Option (Str × Str)
  | [] => none
  | char :: rest =>
    if char = separator then some ([], rest)
    else (splitOnce separator rest).map fun (front, back) => (char :: front, back)

/-- What stands before and after the last separator. -/
def rsplitOnce (separator : Char) (text : Str) : Option (Str × Str) :=
  (splitOnce separator text.reverse).map fun (back, front) => (front.reverse, back.reverse)

/-- The parts between separators, at most a given number, the last of them holding the rest. -/
def splitn : Nat → Char → Str → List Str
  | 0, _, _ => []
  | 1, _, text => [text]
  | count + 2, separator, text =>
    match splitOnce separator text with
    | some (front, back) => front :: splitn (count + 1) separator back
    | none => [text]

/-- What stands before and after the first occurrence of a pattern. -/
def splitOnceStr (pattern : Str) : Str → Option (Str × Str)
  | [] => if pattern = [] then some ([], []) else none
  | char :: rest =>
    if pattern.isPrefixOf (char :: rest) then some ([], (char :: rest).drop pattern.length)
    else (splitOnceStr pattern rest).map fun (front, back) => (char :: front, back)

/-- A string that holds a pattern somewhere. -/
def containsStr (pattern text : Str) : Bool := (splitOnceStr pattern text).isSome

/-- The rest of a string that starts with a pattern. -/
def stripPrefix (pattern text : Str) : Option Str :=
  if pattern.isPrefixOf text then some (text.drop pattern.length) else none

/-- A decimal number of sixteen bits. -/
def parseU16 (text : Str) : Option Nat := Numerals.read 10 u16Max text

/-- A decimal number of sixty-four bits. -/
def parseU64 (text : Str) : Option Nat := Numerals.read 10 u64Max text

/-- A hexadecimal length. -/
def parseHexUsize (text : Str) : Option Nat := Numerals.read 16 usizeMax text

/-- At least one decimal digit. -/
def IsDigits (text : Str) : Prop := text ≠ [] ∧ ∀ char ∈ text, char.isDigit = true

/-- A byte that is a decimal digit. -/
def isAsciiDigit (byte : UInt8) : Bool := 0x30 ≤ byte && byte ≤ 0x39

/-- A byte that is an ASCII letter. -/
def isAsciiAlphabetic (byte : UInt8) : Bool :=
  (0x41 ≤ byte && byte ≤ 0x5A) || (0x61 ≤ byte && byte ≤ 0x7A)

/-- A byte that is an ASCII letter or a decimal digit. -/
def isAsciiAlphanumeric (byte : UInt8) : Bool := isAsciiAlphabetic byte || isAsciiDigit byte

/-- A byte that is a hexadecimal digit. -/
def isAsciiHexdigit (byte : UInt8) : Bool :=
  isAsciiDigit byte || (0x41 ≤ byte && byte ≤ 0x46) || (0x61 ≤ byte && byte ≤ 0x66)

/-- A byte that is one of some ASCII characters. -/
def isOneOf (chars : String) (byte : UInt8) : Bool :=
  chars.toList.contains (Char.ofNat byte.toNat)

/-- A byte as two upper-case hexadecimal digits. -/
def hexByte (byte : UInt8) : String :=
  String.ofList ([byte.toNat / 16, byte.toNat % 16].map fun digit =>
    (Numerals.digitChar digit).toUpper)

/-- The text of a decoding error. -/
def utf8ErrorText (error : Utf8.DecodeError) : String :=
  match error.errorLen with
  | some length => "invalid utf-8 sequence of " ++ toString length ++ " bytes from index " ++
      toString error.validUpTo
  | none => "incomplete utf-8 byte sequence from index " ++ toString error.validUpTo

end Http11

import Http11.Proofs.Text
import Http11.Validate

/-! What the checked strings of a message can hold: no separators where they would be misread. -/

namespace Http11

/-- What holds of all two hundred and fifty-six bytes holds of every byte. -/
theorem forall_byte {motive : UInt8 → Prop}
    (checked : ∀ value < 256, motive (UInt8.ofNat value)) (byte : UInt8) : motive byte := by
  have same := checked byte.toNat byte.toNat_lt
  rwa [UInt8.ofNat_toNat] at same

/-- A character whose byte is not allowed does not stand in a checked text. -/
theorem not_mem_of_encode_all {allowed : UInt8 → Bool} {text : Str} {char : Char}
    (checked : (Utf8.encode text).all allowed = true) (ascii : char.toNat < 0x80)
    (refused : allowed (UInt8.ofNat char.toNat) = false) : char ∉ text := by
  intro inside
  have present := (Utf8.mem_encode_ascii ascii).mpr inside
  have accepted := List.all_eq_true.mp checked _ present
  rw [refused] at accepted
  cases accepted

/-- Where only ASCII bytes are allowed, every character is one allowed byte. -/
theorem ascii_of_encode_all {allowed : UInt8 → Bool} {text : Str}
    (narrow : ∀ byte, allowed byte = true → byte.toNat < 0x80)
    (checked : (Utf8.encode text).all allowed = true) :
    ∀ char ∈ text, char.toNat < 0x80 ∧ allowed (UInt8.ofNat char.toNat) = true := by
  intro char inside
  have each : ∀ byte ∈ String.utf8EncodeChar char, allowed byte = true := fun byte member =>
    List.all_eq_true.mp checked byte (Utf8.mem_encode.mpr ⟨char, inside, member⟩)
  by_cases ascii : char.toNat < 0x80
  · exact ⟨ascii, each _ (by simp [Utf8.encodeChar_ascii ascii])⟩
  · -- A wider character would have a byte outside the range.
    obtain ⟨byte, member⟩ := List.exists_mem_of_ne_nil _ (Utf8.encodeChar_ne_nil char)
    have high := Utf8.le_of_mem_encodeChar (by omega) member
    have low := narrow byte (each byte member)
    omega

/-- What holds of every allowed ASCII byte holds of every character of a checked text. -/
theorem forall_mem_of_encode_all {allowed : UInt8 → Bool} {good : Char → Prop} {text : Str}
    (narrow : ∀ byte, allowed byte = true → byte.toNat < 0x80)
    (each : ∀ value < 0x80, allowed (UInt8.ofNat value) = true → good (Char.ofNat value))
    (checked : (Utf8.encode text).all allowed = true) : ∀ char ∈ text, good char := by
  intro char inside
  obtain ⟨ascii, accepted⟩ := ascii_of_encode_all narrow checked char inside
  have held := each char.toNat ascii accepted
  rwa [Char.ofNat_toNat] at held

/-- The bytes of a part of a text are bytes of the text. -/
theorem encode_all_of_subset {allowed : UInt8 → Bool} {part text : Str} (inside : part ⊆ text)
    (checked : (Utf8.encode text).all allowed = true) :
    (Utf8.encode part).all allowed = true := by
  refine List.all_eq_true.mpr fun byte member => ?_
  obtain ⟨char, found, inChar⟩ := Utf8.mem_encode.mp member
  exact List.all_eq_true.mp checked byte (Utf8.mem_encode.mpr ⟨char, inside found, inChar⟩)

/-- Token bytes are ASCII. -/
theorem isTokenChar_narrow : ∀ byte, isTokenChar byte = true → byte.toNat < 0x80 :=
  forall_byte (by decide +kernel)

/-- Digit bytes are ASCII. -/
theorem isAsciiDigit_narrow : ∀ byte, isAsciiDigit byte = true → byte.toNat < 0x80 :=
  forall_byte (by decide +kernel)

example : isAsciiDigit 0x39 = true ∧ isAsciiDigit 0x3A = false := by decide +kernel

/-- The bytes of a text are digits exactly when its characters are. -/
theorem all_isDigit (text : Str) :
    (Utf8.encode text).all isAsciiDigit = text.all Char.isDigit := by
  rw [Bool.eq_iff_iff]
  constructor
  · intro digits
    exact List.all_eq_true.mpr (forall_mem_of_encode_all isAsciiDigit_narrow (by decide)
      digits)
  · intro digits
    -- The ten digits are checked one by one.
    have each : ∀ value < 0x3A, 0x30 ≤ value → isAsciiDigit (UInt8.ofNat value) = true := by
      decide
    refine List.all_eq_true.mpr fun byte inside => ?_
    -- A byte of the text belongs to one of its characters, which is a digit of one byte.
    obtain ⟨char, found, member⟩ := Utf8.mem_encode.mp inside
    have digit := List.all_eq_true.mp digits char found
    simp only [Char.isDigit, Bool.and_eq_true, decide_eq_true_eq, ge_iff_le,
      UInt32.le_iff_toNat_le] at digit
    change 48 ≤ char.toNat ∧ char.toNat ≤ 57 at digit
    rw [Utf8.encodeChar_ascii (by omega), List.mem_singleton] at member
    rw [member]
    exact each char.toNat (by omega) (by omega)

/-- A text is digits as it was checked. -/
theorem isDigits_iff (text : Str) :
    IsDigits text ↔ (!text.isEmpty && (Utf8.encode text).all isAsciiDigit) = true := by
  rw [all_isDigit, IsDigits, Bool.and_eq_true, Bool.not_eq_true', List.isEmpty_eq_false_iff,
    List.all_eq_true]

/-- A character that separates parts of a line, or ends it. -/
def isSeparator (char : Char) : Bool :=
  isWhitespace char || char == ':' || char == ',' || char == ';'

/-- Tokens hold no separator. -/
theorem isToken_plain {text : Str} (token : isToken text = true) :
    text ≠ [] ∧ ∀ char ∈ text, isSeparator char = false := by
  simp only [isToken, Bool.and_eq_true, Bool.not_eq_true', List.isEmpty_eq_false_iff] at token
  exact ⟨token.1, forall_mem_of_encode_all isTokenChar_narrow (by decide) token.2⟩

/-- Digits are no separators. -/
theorem digits_plain {text : Str} (digits : (Utf8.encode text).all isAsciiDigit = true) :
    ∀ char ∈ text, isSeparator char = false :=
  forall_mem_of_encode_all isAsciiDigit_narrow (by decide) digits

/-- A protocol version holds no separator. -/
theorem isValidProtocolVersion_plain {version : Str}
    (valid : isValidProtocolVersion version = true) :
    version ≠ [] ∧ ∀ char ∈ version, isSeparator char = false := by
  unfold isValidProtocolVersion at valid
  -- A version has a slash, and a dot somewhere behind it.
  cases slash : splitOnce '/' version with
  | none => simp [slash] at valid
  | some parts =>
    obtain ⟨name, afterSlash⟩ := parts
    cases dot : splitOnce '.' afterSlash with
    | none => simp [slash, dot] at valid
    | some numbers =>
      obtain ⟨major, minor⟩ := numbers
      simp only [slash, dot, Bool.and_eq_true] at valid
      obtain ⟨⟨_, nameToken⟩, ⟨⟨_, majorDigits⟩, _⟩, minorDigits⟩ := valid
      obtain ⟨rfl, _⟩ := splitOnce_some slash
      obtain ⟨rfl, _⟩ := splitOnce_some dot
      have namePlain : ∀ char ∈ name, isSeparator char = false :=
        forall_mem_of_encode_all isTokenChar_narrow (by decide +kernel) nameToken
      refine ⟨by simp, fun char inside => ?_⟩
      simp only [List.mem_append, List.mem_cons] at inside
      -- Each of the five parts is without separators.
      rcases inside with inName | rfl | inMajor | rfl | inMinor
      · exact namePlain char inName
      · decide
      · exact digits_plain majorDigits char inMajor
      · decide
      · exact digits_plain minorDigits char inMinor

/-- A text without separators holds none of the given ones. -/
theorem not_mem_of_plain {text : Str} (char : Char) (separator : isSeparator char = true)
    (plain : ∀ other ∈ text, isSeparator other = false) : char ∉ text := by
  intro inside
  rw [plain char inside] at separator
  cases separator

/-- A byte that may stand in a request target. -/
def isTargetByte (byte : UInt8) : Bool :=
  0x20 < byte && byte != 0x7F && !isRfc3986Excluded byte

/-- The bytes of a request target are printable and none of the excluded ones. -/
theorem isValidTargetBytes_all {bytes : Bytes} (valid : isValidTargetBytes bytes = true) :
    bytes.all isTargetByte = true := by
  have hex : ∀ byte, isAsciiHexdigit byte = true → isTargetByte byte = true :=
    forall_byte (by decide +kernel)
  -- Each byte is checked on its own, or as one of the two digits after a percent sign.
  fun_induction isValidTargetBytes bytes with
  | case1 => rfl
  | case2 => cases valid
  | case3 => cases valid
  | case4 byte printable _ percent high low rest ih =>
    simp only [Bool.and_eq_true] at valid
    obtain ⟨⟨⟨highHex, lowHex⟩, _⟩, restValid⟩ := valid
    simp only [List.all_cons, hex high highHex, hex low lowHex, ih restValid, Bool.and_true]
    simp only [beq_iff_eq] at percent
    rw [percent]
    decide
  | case5 => cases valid
  | case6 byte rest printable allowed _ ih =>
    simp only [Bool.or_eq_true, decide_eq_true_eq, beq_iff_eq, not_or, UInt8.not_le] at printable
    simp only [List.all_cons, ih valid, Bool.and_true]
    simpa [isTargetByte, bne_iff_ne, allowed] using printable

/-- A request target holds neither white space nor line ends. -/
theorem isValidRequestTarget_plain {target : Str} (valid : isValidRequestTarget target = true) :
    target ≠ [] ∧ ' ' ∉ target ∧ '\r' ∉ target ∧ '\n' ∉ target := by
  simp only [isValidRequestTarget, Bool.and_eq_true, Bool.not_eq_true',
    List.isEmpty_eq_false_iff] at valid
  have bytes := isValidTargetBytes_all valid.2
  exact ⟨valid.1, not_mem_of_encode_all bytes (by decide) (by decide),
    not_mem_of_encode_all bytes (by decide) (by decide),
    not_mem_of_encode_all bytes (by decide) (by decide)⟩

/-- Text without control bytes holds no line ends. -/
theorem vchars_plain {text : Str} (valid : (Utf8.encode text).all isValidFieldVchar = true) :
    '\r' ∉ text ∧ '\n' ∉ text :=
  ⟨not_mem_of_encode_all valid (by decide) (by decide),
    not_mem_of_encode_all valid (by decide) (by decide)⟩

end Http11

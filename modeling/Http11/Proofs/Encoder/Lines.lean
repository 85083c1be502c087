import Http11.Encoder
import Http11.Decoder.Body
import Http11.Proofs.Validate

/-! The lines an encoder writes are the lines a decoder reads. -/

namespace Http11

/-- A line without a carriage return ends at the first line end. -/
theorem splitLine_crlf (line : Bytes) (plain : 13 ∉ line) (rest : Bytes) :
    splitLine (line ++ crlf ++ rest) = some (line, rest) := by
  -- The search passes over the line one byte at a time.
  have found : findLine (line ++ crlf ++ rest) = some line.length := by
    induction line with
    | nil => rfl
    | cons byte line ih =>
      simp only [List.mem_cons, not_or] at plain
      -- The byte in front is no carriage return, so no line end starts with it.
      rw [List.cons_append, List.cons_append, findLine, ih plain.2]
      · rfl
      · intro _ first
        exact absurd first.symm plain.1
  rw [splitLine, found]
  simp [crlf]

/-- Text without a carriage return ends at the line end written after it. -/
theorem splitLine_encode {text : Str} (plain : '\r' ∉ text) (rest : Bytes) :
    splitLine (Utf8.encode text ++ crlf ++ rest) = some (Utf8.encode text, rest) := by
  refine splitLine_crlf _ ?_ rest
  -- The byte of a carriage return only comes from one.
  rw [show (13 : UInt8) = UInt8.ofNat '\r'.toNat from rfl, Utf8.mem_encode_ascii (by decide)]
  exact plain

/-- The text of a line is the text that was encoded. -/
theorem lineText_encode (text : Str) : lineText (Utf8.encode text) = .ok text := by
  simp [lineText, Utf8.decode_encode]

/-- Nothing is dropped from the back of a text that does not end in dropped characters. -/
theorem rdropWhile_of_forall {drop : Char → Bool} {text : Str}
    (kept : ∀ char ∈ text, drop char = false) : text.rdropWhile drop = text := by
  rw [List.rdropWhile_eq_self_iff]
  intro present
  simp [kept _ (List.getLast_mem present)]

/-- Nothing is dropped from the front of a text that does not start with dropped characters. -/
theorem dropWhile_of_forall {drop : Char → Bool} {text : Str}
    (kept : ∀ char ∈ text, drop char = false) : text.dropWhile drop = text := by
  cases text with
  | nil => rfl
  | cons char text => simp [List.dropWhile, kept char (by simp)]

/-- A separator is all that trimming takes away. -/
theorem isSeparator_of_isOws {char : Char} (ows : isOws char = true) : isSeparator char = true := by
  simp only [isOws, Bool.or_eq_true, beq_iff_eq] at ows
  rcases ows with rfl | rfl <;> decide

/-- Text without separators stays as it is when spaces and tabs are trimmed. -/
theorem trimOws_plain {text : Str} (plain : ∀ char ∈ text, isSeparator char = false) :
    trimOws text = text := by
  -- Spaces and tabs are separators, so none of them is in the text.
  have kept : ∀ char ∈ text, isOws char = false := by
    intro char inside
    by_contra ows
    have separator := isSeparator_of_isOws (by simpa using ows)
    rw [plain char inside] at separator
    cases separator
  rw [trimOws, dropWhile_of_forall kept, rdropWhile_of_forall kept]

/-- Text without separators stays as it is when white space is trimmed. -/
theorem trim_plain {text : Str} (plain : ∀ char ∈ text, isSeparator char = false) :
    trim text = text := by
  have kept : ∀ char ∈ text, isWhitespace char = false := by
    intro char inside
    have none := plain char inside
    simp only [isSeparator, Bool.or_eq_false_iff] at none
    exact none.1.1.1
  rw [trim, dropWhile_of_forall kept, rdropWhile_of_forall kept]

/-- A field with its value as a receiver keeps it. -/
def receivedField (field : Str × Str) : Str × Str := (field.1, trimOws field.2)

/-- Fields with their values as a receiver keeps them. -/
def receivedHeaders (headers : Headers) : Headers := headers.map receivedField

/-- The line of a field. -/
def fieldText (field : Str × Str) : Str := field.1 ++ ": ".toList ++ field.2

/-- The lines of fields are the texts of the fields, each with a line end. -/
theorem encodeFields_cons (field : Str × Str) (headers : Headers) :
    encodeFields (field :: headers) =
      Utf8.encode (fieldText field) ++ crlf ++ encodeFields headers := by
  simp [encodeFields, fieldText, List.append_assoc]

/-- A field that may be sent. -/
def sendable (field : Str × Str) : Prop :=
  isValidHeaderName field.1 = true ∧ isValidFieldValue field.2 = true

/-- The line of a field is neither empty nor does it hold line ends. -/
theorem fieldText_plain {field : Str × Str} (valid : sendable field) :
    fieldText field ≠ [] ∧ '\r' ∉ fieldText field ∧ '\n' ∉ fieldText field := by
  obtain ⟨name, value⟩ := field
  obtain ⟨present, namePlain⟩ := isToken_plain valid.1
  have ends := vchars_plain valid.2
  have nameReturn : '\r' ∉ name := not_mem_of_plain _ (by decide) namePlain
  have nameFeed : '\n' ∉ name := not_mem_of_plain _ (by decide) namePlain
  -- Neither the name nor the value has a line end, and the colon is none.
  refine ⟨by simp [fieldText], ?_, ?_⟩
  · simp [fieldText, nameReturn, ends.1]
  · simp [fieldText, nameFeed, ends.2]

/-- A name, a colon and a value are read as a field, with the value trimmed. -/
theorem parseHeaderLine_parts {name content : Str} (token : isToken name = true)
    (valid : (Utf8.encode content).all isValidFieldVchar = true) :
    parseHeaderLine (name ++ ':' :: content) = .ok (name, trimOws content) := by
  obtain ⟨present, namePlain⟩ := isToken_plain token
  have ends := vchars_plain valid
  have nameReturn : '\r' ∉ name := not_mem_of_plain _ (by decide) namePlain
  have nameFeed : '\n' ∉ name := not_mem_of_plain _ (by decide) namePlain
  have nameColon : ':' ∉ name := not_mem_of_plain _ (by decide) namePlain
  -- The first character belongs to the name, so the line is no continuation.
  have starts : (name ++ ':' :: content).head? ≠ some ' ' ∧
      (name ++ ':' :: content).head? ≠ some '\t' := by
    obtain ⟨first, name, rfl⟩ := List.exists_cons_of_ne_nil present
    have firstPlain := namePlain first (by simp)
    constructor <;> intro same <;> simp only [List.cons_append, List.head?_cons,
      Option.some.injEq] at same <;> rw [same] at firstPlain <;> exact absurd firstPlain (by decide)
  have noSpaces : (Utf8.encode name).any (fun byte => byte == 0x20 || byte == 0x09) = false := by
    simp only [isToken, Bool.and_eq_true] at token
    refine List.any_eq_false.mpr fun byte inside => ?_
    have tokenByte := List.all_eq_true.mp token.2 byte inside
    revert tokenByte
    exact forall_byte (motive := fun byte => isTokenChar byte = true →
      ¬ (byte == 0x20 || byte == 0x09) = true) (by decide +kernel) byte
  have kept : isValidFieldValue (trimOws content) = true :=
    encode_all_of_subset (trimOws_subset content) valid
  unfold parseHeaderLine
  rw [if_neg (by simpa only [Bool.or_eq_true, beq_iff_eq, not_or] using starts),
    if_neg (by simp [nameReturn, nameFeed, ends.1, ends.2]), splitOnce_append nameColon]
  simp [present, trim_plain namePlain, noSpaces, isValidHeaderName, token, kept]

/-- The line of a field is read as the field, with its value trimmed. -/
theorem parseHeaderLine_fieldText {field : Str × Str} (valid : sendable field) :
    parseHeaderLine (fieldText field) = .ok (receivedField field) := by
  obtain ⟨name, value⟩ := field
  have spaced : (Utf8.encode (' ' :: value)).all isValidFieldVchar = true := by
    rw [Utf8.encode_cons, List.all_append, Utf8.encodeChar_ascii (by decide)]
    exact valid.2
  have text : fieldText (name, value) = name ++ ':' :: ' ' :: value := by simp [fieldText]
  -- The name ends at the colon, and the space behind it is trimmed off.
  rw [text, parseHeaderLine_parts valid.1 spaced, trimOws_space]
  rfl

/-- Fields that were checked can be sent. -/
theorem validateHeaders_ok {headers : Headers} (checked : validateHeaders headers = .ok ()) :
    ∀ field ∈ headers, sendable field := by
  induction headers with
  | nil => simp
  | cons field headers ih =>
    obtain ⟨name, value⟩ := field
    -- The fields are checked from the first one on.
    simp only [validateHeaders, Checked.bind_ok] at checked
    obtain ⟨_, first, rest⟩ := checked
    unfold checkHeader at first
    split at first
    · cases first
    rename_i nameValid
    split at first
    · cases first
    rename_i valueValid
    intro field member
    rcases List.mem_cons.mp member with rfl | later
    · exact ⟨by simpa using nameValid, by simpa using valueValid⟩
    · exact ih rest field later

/-- The digits of a size are hexadecimal. -/
theorem writeHexUsize_all (size : Nat) :
    ∀ byte ∈ writeHexUsize size, isAsciiHexdigit byte = true := by
  intro byte inside
  obtain ⟨char, member, inChar⟩ := Utf8.mem_encode.mp inside
  obtain ⟨value, small, rfl⟩ := Numerals.forall_mem_write
    (motive := fun char => ∃ value < 16, char = Numerals.digitChar value) (by omega)
    (fun value small => ⟨value, small, rfl⟩) size char member
  rw [Utf8.encodeChar_ascii (Numerals.digitChar_plain small).2, List.mem_singleton] at inChar
  subst inChar
  clear member inside
  -- The sixteen digits are checked one by one.
  revert value
  decide +kernel

/-- A line of digits holds no line end. -/
theorem writeHexUsize_plain (size : Nat) : 13 ∉ writeHexUsize size := fun inside =>
  absurd (writeHexUsize_all size _ inside) (by decide)

/-- The digits of a size are read back as the size. -/
theorem parseChunkSize_write (limits : DecoderLimits) {size : Nat} (fits : size ≤ usizeMax)
    (short : (writeHexUsize size).length ≤ limits.maxChunkLineSize) :
    parseChunkSize limits (writeHexUsize size) = .ok size := by
  have hex : ∀ byte ∈ writeHexUsize size, isAsciiHexdigit byte = true := writeHexUsize_all size
  have noExt : (writeHexUsize size).contains 0x3B = false := by
    simpa using fun inside => absurd (hex _ inside) (by decide)
  -- So the digits are the whole line, and nothing trails them.
  have whole : (writeHexUsize size).takeWhile (fun byte => byte != 0x3B) = writeHexUsize size :=
    List.takeWhile_eq_self_iff.mpr fun byte inside => by
      rw [bne_iff_ne]
      rintro rfl
      exact absurd (hex _ inside) (by decide)
  have digits : (writeHexUsize size).takeWhile isAsciiHexdigit = writeHexUsize size :=
    List.takeWhile_eq_self_iff.mpr fun byte inside => hex byte inside
  have nothing : (writeHexUsize size).dropWhile isAsciiHexdigit = [] :=
    List.dropWhile_eq_nil_iff.mpr fun byte inside => hex byte inside
  have present : writeHexUsize size ≠ [] := by
    simpa [writeHexUsize] using Numerals.write_ne_nil (by omega : 1 < 16) size
  have text : Utf8.decode (writeHexUsize size) = .ok (Numerals.write 16 size) :=
    Utf8.decode_encode _
  have read : parseHexUsize (Numerals.write 16 size) = some size :=
    Numerals.read_write (by omega) le_rfl fits
  unfold parseChunkSize
  rw [if_neg (Nat.not_lt.mpr short)]
  simp only [noExt, whole, digits, nothing, text, read]
  simp [present, pure, Except.pure]

end Http11

import Mathlib.Order.Basic
import Http11.Lib.Iteration
import Http11.Quoting

/-! The type of a content, with its parameters. -/

namespace Http11

/-- What is wrong with a content type. -/
inductive ContentTypeError where
  /-- Nothing is there. -/
  | empty
  /-- The type or the subtype. -/
  | invalidMediaType
  /-- A parameter. -/
  | invalidParameter
  /-- A quoted string without its closing quote. -/
  | unterminatedQuote
  deriving DecidableEq, Repr

/-- What is wrong with a content type in which a quoted string is wrong. -/
def ContentTypeError.ofQuoted : Validate.QuotedStringError → ContentTypeError
  | .invalidQdtext => .invalidParameter
  | .invalidQuotedPair => .invalidParameter
  | .unterminated => .unterminatedQuote

/-- A content type. -/
structure ContentType where
  /-- The type in front of the slash. -/
  mediaType : Str
  /-- The subtype behind the slash. -/
  subtype : Str
  /-- The parameters with their values, in their order. -/
  parameters : List (Str × Str)
  deriving DecidableEq, Repr

namespace ContentType

/-- What stands before and after the first semicolon. -/
def splitAtSemicolon (input : Str) : Str × Str :=
  match splitOnce ';' input with
  | some (front, back) => (trim front, trim back)
  | none => (trim input, [])

/-- The type and the subtype around a slash. -/
def parseMediaType (input : Str) : Except ContentTypeError (Str × Str) :=
  let input := trim input
  if input.isEmpty then .error .invalidMediaType
  else match splitOnce '/' input with
    | none => .error .invalidMediaType
    | some (front, back) =>
      let mediaType := trim front
      let subtype := trim back
      if mediaType.isEmpty || subtype.isEmpty then .error .invalidMediaType
      else if !isValidToken mediaType || !isValidToken subtype then .error .invalidMediaType
      else .ok (mediaType, subtype)

/-- A character in front of which a token ends. -/
def endsToken (char : Char) : Bool := char == ';' || isWhitespace char

/-- The token in front of a text and what follows it. -/
def parseTokenValue (input : Str) : Except ContentTypeError (Str × Str) :=
  let token := input.takeWhile fun char => !endsToken char
  if !isValidToken token then .error .invalidParameter
  else .ok (token, input.dropWhile fun char => !endsToken char)

/-- The value in front of a text and what follows it. -/
def parseValue (rest : Str) : Except ContentTypeError (Str × Str) :=
  match stripPrefix ['"'] rest with
  | some afterQuote => match Validate.parseQuotedString afterQuote with
    | .error error => .error (.ofQuoted error)
    | .ok found => .ok found
  | none => parseTokenValue rest

/-- What follows the semicolons in front of a text. -/
def skipSemicolons (rest : Str) : Str := trim (rest.dropWhile (· == ';'))

/-- One pass over the parameters: one of them and the semicolons behind it. -/
def parseParametersPass (rest : Str) (parameters : List (Str × Str)) :
    (Str × List (Str × Str)) ⊕ Except ContentTypeError (List (Str × Str)) :=
  if rest.isEmpty then .inr (.ok parameters)
  else
    -- Empty parameters are passed over.
    let rest := skipSemicolons rest
    if rest.isEmpty then .inr (.ok parameters)
    else match splitOnce '=' rest with
      | none => .inr (.error .invalidParameter)
      | some (front, back) =>
        let name := trim front
        if name.isEmpty || !isValidToken name then .inr (.error .invalidParameter)
        else match parseValue (trim back) with
          | .error error => .inr (.error error)
          | .ok (value, remaining) =>
            -- Behind a value any number of semicolons is passed over, also none.
            .inl (skipSemicolons remaining, parameters ++ [(toAsciiLowercase name, value)])

/-- A quoted string leaves no more than there was. -/
theorem length_of_parseQuotedString {input result value rest : Str} {escaped : Bool}
    (parsed : Validate.parseQuotedStringFrom result escaped input = .ok (value, rest)) :
    rest.length ≤ input.length := by
  induction input generalizing result escaped with
  | nil => cases parsed
  | cons char others ih =>
    rw [Validate.parseQuotedStringFrom] at parsed
    rw [List.length_cons]
    -- Every character that is read is gone, and the closing quote ends the reading.
    split at parsed
    · split at parsed
      · cases parsed
      · exact Nat.le_succ_of_le (ih parsed)
    · split at parsed
      · exact Nat.le_succ_of_le (ih parsed)
      · split at parsed
        · cases parsed
          exact Nat.le_succ _
        · split at parsed
          · cases parsed
          · exact Nat.le_succ_of_le (ih parsed)

/-- A value leaves no more than there was. -/
theorem length_of_parseValue {rest value remaining : Str}
    (parsed : parseValue rest = .ok (value, remaining)) : remaining.length ≤ rest.length := by
  unfold parseValue at parsed
  split at parsed
  · rename_i after found
    cases read : Validate.parseQuotedString after with
    | error error => simp [read] at parsed
    | ok pair =>
      simp only [read, Except.ok.injEq] at parsed
      subst parsed
      have shorter := length_of_parseQuotedString read
      -- The opening quote is gone as well.
      have stripped : after.length ≤ rest.length := by
        rw [stripPrefix] at found
        split at found
        · cases found
          simp
        · cases found
      omega
  · unfold parseTokenValue at parsed
    dsimp only at parsed
    split at parsed
    · cases parsed
    · cases parsed
      exact (List.dropWhile_sublist _).length_le

/-- Trimming makes nothing longer. -/
theorem length_trim (text : Str) : (trim text).length ≤ text.length :=
  le_trans (List.rdropWhile_prefix _ _).length_le (List.dropWhile_sublist _).length_le

/-- Skipping semicolons makes nothing longer. -/
theorem length_skipSemicolons (text : Str) : (skipSemicolons text).length ≤ text.length :=
  le_trans (length_trim _) (List.dropWhile_sublist _).length_le

/-- What is behind a separator is shorter than the text. -/
theorem length_of_splitOnce {separator : Char} {text front back : Str}
    (split : splitOnce separator text = some (front, back)) : back.length < text.length := by
  induction text generalizing front with
  | nil => cases split
  | cons char rest ih =>
    rw [splitOnce] at split
    rw [List.length_cons]
    -- The separator itself is gone as well.
    split at split
    · cases split
      exact Nat.lt_succ_self _
    · rw [Option.map_eq_some_iff] at split
      obtain ⟨⟨before, behind⟩, found, same⟩ := split
      cases same
      exact Nat.lt_succ_of_lt (ih found)

/-- The loop over the parameters. -/
def parseParametersLoop : Iteration (Str × List (Str × Str))
    (Except ContentTypeError (List (Str × Str))) where
  body := fun (rest, parameters) => parseParametersPass rest parameters
  size := fun (rest, _) => rest.length
  decreases := by
    intro state next passed
    obtain ⟨rest, parameters⟩ := state
    dsimp only at passed ⊢
    unfold parseParametersPass at passed
    dsimp only at passed
    have skipped := length_skipSemicolons rest
    split at passed
    · cases passed
    split at passed
    · cases passed
    split at passed
    · cases passed
    rename_i front back split
    have shorter := length_of_splitOnce split
    split at passed
    · cases passed
    split at passed
    · cases passed
    rename_i value remaining parsed
    cases passed
    -- The equals sign is gone at least.
    have trimmed := length_trim back
    have left := length_of_parseValue parsed
    have behind := length_skipSemicolons remaining
    dsimp only
    omega

/-- The parameters of a text. -/
def parseParameters (input : Str) : Except ContentTypeError (List (Str × Str)) :=
  parseParametersLoop.run (trim input, [])

/-- The content type of a header. -/
def parse (input : Str) : Except ContentTypeError ContentType :=
  let input := trim input
  if input.isEmpty then .error .empty
  else
    let (mediaTypePart, rest) := splitAtSemicolon input
    match parseMediaType mediaTypePart with
    | .error error => .error error
    | .ok (mediaType, subtype) => match parseParameters rest with
      | .error error => .error error
      | .ok parameters => .ok {
          mediaType := toAsciiLowercase mediaType
          subtype := toAsciiLowercase subtype
          parameters }

/-- A content type without parameters. -/
def new (mediaType subtype : Str) : ContentType where
  mediaType := toAsciiLowercase mediaType
  subtype := toAsciiLowercase subtype
  parameters := []

/-- A content type with one more parameter. -/
def withParameter (contentType : ContentType) (name value : Str) : ContentType :=
  { contentType with parameters := contentType.parameters ++ [(toAsciiLowercase name, value)] }

/-- The value of a parameter, the first one if the name comes more than once. -/
def parameter (contentType : ContentType) (name : Str) : Option Str :=
  let nameLower := toAsciiLowercase name
  (contentType.parameters.find? fun param => param.1 == nameLower).map Prod.snd

/-- The boundary between the parts of a content. -/
def boundary (contentType : ContentType) : Option Str := contentType.parameter "boundary".toList

/-- A content type of forms in several parts. -/
def isFormData (contentType : ContentType) : Bool :=
  contentType.mediaType == "multipart".toList && contentType.subtype == "form-data".toList

/-- The parameters as they are written. -/
def displayParameters (parameters : List (Str × Str)) : Str :=
  parameters.flatMap fun (name, value) => "; ".toList ++ name ++ '=' :: formatValue value

/-- The header of a content type. -/
def display (contentType : ContentType) : Str :=
  contentType.mediaType ++ '/' :: contentType.subtype ++ displayParameters contentType.parameters

end ContentType

end Http11

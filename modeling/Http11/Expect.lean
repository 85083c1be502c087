import Http11.Quoting

/-! What a request expects of the server before its body is sent. -/

namespace Http11

/-- What is wrong with a list of expectations. -/
inductive ExpectError where
  /-- Nothing. -/
  | empty
  /-- No name in front of an equals sign. -/
  | invalidFormat
  /-- A name that is no token. -/
  | invalidToken
  /-- A value that is neither a token nor a quoted string. -/
  | invalidValue
  /-- A quoted string without its closing quote. -/
  | unterminatedQuote
  deriving DecidableEq, Repr

/-- What is wrong with a list in which a quoted string is wrong. -/
def ExpectError.ofQuoted : Validate.QuotedStringError → ExpectError
  | .invalidQdtext => .invalidValue
  | .invalidQuotedPair => .invalidValue
  | .unterminated => .unterminatedQuote

/-- One expectation. -/
structure Expectation where
  /-- Its name in lower case. -/
  token : Str
  /-- Its value. -/
  value : Option Str
  deriving DecidableEq, Repr

/-- The expectation as it is written. -/
def Expectation.display (item : Expectation) : Str :=
  match item.value with
  | none => item.token
  | some value => item.token ++ '=' :: formatValue value

/-- A list of expectations. -/
structure Expect where
  /-- The expectations in their order. -/
  items : List Expectation
  deriving DecidableEq, Repr

namespace Expect

/-- The value behind an equals sign. -/
def parseValue (input : Str) : Except ExpectError Str :=
  let input := trim input
  if input.isEmpty then .error .invalidValue
  else match stripPrefix ['"'] input with
    | some rest => match Validate.parseQuotedString rest with
      | .error error => .error (.ofQuoted error)
      | .ok (value, remaining) =>
        -- Nothing may follow the closing quote.
        if !(trim remaining).isEmpty then .error .invalidValue else .ok value
    | none => if !isValidToken input then .error .invalidValue else .ok input

/-- The name and the value of an element. -/
def parseParts (part : Str) : Except ExpectError (Str × Option Str) :=
  match splitOnce '=' part with
  | some (token, value) =>
    let token := trim token
    if token.isEmpty then .error .invalidFormat
    else match parseValue value with
      | .error error => .error error
      | .ok value => .ok (token, some value)
  | none => .ok (part, none)

/-- The expectation that is an element. -/
def parseItem (part : Str) : Except ExpectError Expectation :=
  match parseParts part with
  | .error error => .error error
  | .ok (token, value) =>
    if !isValidToken token then .error .invalidToken
    else .ok { token := toAsciiLowercase token, value }

/-- The expectations of a header. -/
def parse (input : Str) : Except ExpectError Expect :=
  match parseElements trim parseItem (splitWithQuotes (trim input) ',') with
  | .error error => .error error
  | .ok items => .ok { items }

/-- The header of some expectations. -/
def display (expect : Expect) : Str := ", ".toList.intercalate (expect.items.map Expectation.display)

end Expect

end Http11

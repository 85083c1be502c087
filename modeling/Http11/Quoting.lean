import Http11.AuthHeaders

/-! Quoted strings, and lists whose delimiters do not count inside of quotes. -/

namespace Http11

namespace Validate

/-- What is wrong with a quoted string. -/
inductive QuotedStringError where
  /-- A character that has to be escaped or cannot be. -/
  | invalidQdtext
  /-- A character behind a backslash that cannot be there. -/
  | invalidQuotedPair
  /-- No closing quote. -/
  | unterminated
  deriving DecidableEq, Repr

/-- The value of a quoted string and what follows it, from some character on. -/
def parseQuotedStringFrom (result : Str) (escaped : Bool) :
    Str → Except QuotedStringError (Str × Str)
  | [] => .error .unterminated
  | char :: rest =>
    if escaped then
      if !isQuotedPairChar char then .error .invalidQuotedPair
      else parseQuotedStringFrom (result ++ [char]) false rest
    else if char == '\\' then parseQuotedStringFrom result true rest
    else if char == '"' then .ok (result, rest)
    else if !isQdtextChar char then .error .invalidQdtext
    else parseQuotedStringFrom (result ++ [char]) false rest

/-- The value of a quoted string whose opening quote is gone, and what follows it. -/
def parseQuotedString (input : Str) : Except QuotedStringError (Str × Str) :=
  parseQuotedStringFrom [] false input

end Validate

/-- The parts of a list, from some character on. -/
def splitWithQuotesFrom (delimiter : Char) (inQuote escaped : Bool) : Str → List Str
  | [] => [[]]
  | char :: rest =>
    -- A quote behind a backslash does not end the quoted text.
    if escaped then
      (splitWithQuotesFrom delimiter inQuote false rest).modifyHead (char :: ·)
    else if char == '\\' && inQuote then
      (splitWithQuotesFrom delimiter inQuote true rest).modifyHead (char :: ·)
    else if char == '"' then
      (splitWithQuotesFrom delimiter (!inQuote) false rest).modifyHead (char :: ·)
    -- A delimiter in quotes belongs to its element.
    else if char == delimiter && !inQuote then
      [] :: splitWithQuotesFrom delimiter inQuote false rest
    else (splitWithQuotesFrom delimiter inQuote false rest).modifyHead (char :: ·)

/-- The parts of a list between the delimiters outside of quotes. -/
def splitWithQuotes (input : Str) (delimiter : Char) : List Str :=
  splitWithQuotesFrom delimiter false false input

/-- The elements of a list, each trimmed and parsed, but for those that are empty. -/
def parseElements (trimming : Str → Str) (parseElement : Str → Except Failure Element) :
    List Str → Except Failure (List Element)
  | [] => .ok []
  | part :: rest =>
    if (trimming part).isEmpty then parseElements trimming parseElement rest
    else match parseElement (trimming part) with
      | .error error => .error error
      | .ok element => match parseElements trimming parseElement rest with
        | .error error => .error error
        | .ok elements => .ok (element :: elements)

/-- A value as a token where that is possible, and between quotes otherwise. -/
def formatValue (value : Str) : Str :=
  if needsQuoting value then '"' :: (escapeQuotes value ++ ['"']) else value

end Http11

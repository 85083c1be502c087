import Http11.Quoting

/-! Entity tags and lists of them. -/

namespace Http11

/-- What is wrong with an entity tag or a list of them. -/
inductive ETagError where
  /-- Nothing is there. -/
  | empty
  /-- Something follows the closing quote. -/
  | invalidFormat
  /-- A quote is missing. -/
  | missingQuote
  /-- A character does not belong into a tag. -/
  | invalidCharacter
  deriving DecidableEq, Repr

/-- A byte of an entity tag. -/
def isEtagc (byte : UInt8) : Bool := byte == 0x21 || (0x23 ≤ byte && byte ≤ 0x7E) || 0x80 ≤ byte

/-- An entity tag. -/
structure EntityTag where
  /-- Whether it is weak. -/
  isWeak : Bool
  /-- What stands between its quotes. -/
  tag : Str
  /-- All of its bytes may stand there. -/
  valid : (Utf8.encode tag).all isEtagc = true
  deriving DecidableEq, Repr

namespace EntityTag

/-- An entity tag of some strength. -/
def ofTag (isWeak : Bool) (tag : Str) : Except ETagError EntityTag :=
  if valid : (Utf8.encode tag).all isEtagc = true then .ok { isWeak, tag, valid }
  else .error .invalidCharacter

/-- A strong entity tag. -/
def strong (tag : Str) : Except ETagError EntityTag := ofTag false tag

/-- A weak entity tag. -/
def weak (tag : Str) : Except ETagError EntityTag := ofTag true tag

/-- The entity tag of a header. -/
def parse (input : Str) : Except ETagError EntityTag :=
  let input := trim input
  if input.isEmpty then .error .empty
  else
    -- Only a capital W marks a weak tag.
    let (isWeak, rest) := match stripPrefix ['W', '/'] input with
      | some rest => (true, rest)
      | none => (false, input)
    match stripPrefix ['"'] rest with
    | none => .error .missingQuote
    | some inner => match splitOnce '"' inner with
      | none => .error .missingQuote
      | some (tag, afterQuote) => match ofTag isWeak tag with
        | .error error => .error error
        -- Nothing may follow the closing quote.
        | .ok etag => if !afterQuote.isEmpty then .error .invalidFormat else .ok etag

/-- The entity tag as it is written. -/
def display (etag : EntityTag) : Str :=
  (if etag.isWeak then ['W', '/'] else []) ++ '"' :: (etag.tag ++ ['"'])

end EntityTag

/-- The parts of a list of entity tags, from some character on. -/
def splitEtagListRawFrom (inQuotes : Bool) : Str → List Str
  | [] => [[]]
  | char :: rest =>
    -- No byte of a longer character is a quote or a comma.
    if char == '"' then (splitEtagListRawFrom (!inQuotes) rest).modifyHead (char :: ·)
    else if char == ',' && !inQuotes then [] :: splitEtagListRawFrom inQuotes rest
    else (splitEtagListRawFrom inQuotes rest).modifyHead (char :: ·)

/-- The parts of a list of entity tags between the commas outside of quotes. -/
def splitEtagListRaw (input : Str) : List Str := splitEtagListRawFrom false input

/-- A list of entity tags, or all of them. -/
inductive ETagList where
  /-- All entity tags. -/
  | any
  /-- Some entity tags. -/
  | tags (etags : List EntityTag)
  deriving DecidableEq, Repr

/-- The entity tags of a header. -/
def parseEtagList (input : Str) : Except ETagError ETagList :=
  let input := trim input
  if input.isEmpty then .error .empty
  else if input == ['*'] then .ok .any
  else match parseElements trim EntityTag.parse (splitEtagListRaw input) with
    | .error error => .error error
    | .ok etags => if etags.isEmpty then .error .empty else .ok (.tags etags)

/-- The header of a list of entity tags. -/
def ETagList.display : ETagList → Str
  | .any => ['*']
  | .tags etags => ", ".toList.intercalate (etags.map EntityTag.display)

end Http11

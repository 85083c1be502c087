import Http11.Quoting

/-! How a content is to be presented, and the names it may be stored under. -/

namespace Http11

/-- What is wrong with a content disposition. -/
inductive ContentDispositionError where
  /-- Nothing is there. -/
  | empty
  /-- There is no type. -/
  | invalidFormat
  /-- The type is no token. -/
  | invalidDispositionType
  /-- The value of a parameter. -/
  | invalidParameter
  /-- An extended value. -/
  | invalidExtValue
  /-- A parameter is there twice. -/
  | duplicateParameter (name : Str)
  /-- There are more parameters than allowed. -/
  | tooManyParameters
  deriving DecidableEq, Repr

/-- The number of parameters that are allowed. -/
def maxParams : Nat := 32

/-- The type of a disposition. -/
inductive DispositionType where
  /-- The content is shown. -/
  | inline
  /-- The content is stored. -/
  | attachment
  /-- The content is a part of a form. -/
  | formData
  /-- Any other token, in lower case. -/
  | unknown (name : Str)
  deriving DecidableEq, Repr

/-- The type with some name. -/
def DispositionType.fromStr (name : Str) : Except ContentDispositionError DispositionType :=
  let lower := toAsciiLowercase name
  if lower == "inline".toList then .ok .inline
  else if lower == "attachment".toList then .ok .attachment
  else if lower == "form-data".toList then .ok .formData
  else if isValidToken name then .ok (.unknown lower)
  else .error .invalidDispositionType

/-- The name of a type. -/
def DispositionType.display : DispositionType → Str
  | .inline => "inline".toList
  | .attachment => "attachment".toList
  | .formData => "form-data".toList
  | .unknown name => name

/-- The parts between semicolons outside of quotes, without the last one if it is empty. -/
def splitParamsFrom (parts : List Str) (current : Str) (inQuotes escapeNext : Bool) : Str → List Str
  -- Only the last part is left out when it is empty.
  | [] => if current.isEmpty then parts else parts ++ [current]
  | char :: rest =>
    -- Quotes and escapes stay in the parts as they are written.
    if escapeNext then splitParamsFrom parts (current ++ [char]) inQuotes false rest
    else if char == '\\' && inQuotes then
      splitParamsFrom parts (current ++ [char]) inQuotes true rest
    else if char == '"' then splitParamsFrom parts (current ++ [char]) (!inQuotes) false rest
    else if char == ';' && !inQuotes then splitParamsFrom (parts ++ [current]) [] inQuotes false rest
    else splitParamsFrom parts (current ++ [char]) inQuotes false rest

/-- The parts of a header. -/
def splitParams (input : Str) : List Str := splitParamsFrom [] [] false false input

/-- The bytes of an extended value, whose escapes are read as numbers of two characters. -/
def percentDecodeBytes : Str → Option Bytes
  | [] => some []
  | char :: rest =>
    if char == '%' then
      match rest with
      | high :: low :: rest =>
        if byteLength [high, low] ≠ 2 then none
        else match Numerals.read 16 255 [high, low] with
          | none => none
          | some value => (percentDecodeBytes rest).map (UInt8.ofNat value :: ·)
      | short =>
        -- Fewer than two characters are left, though they may be two bytes.
        if byteLength short ≠ 2 then none
        else (Numerals.read 16 255 short).map fun value => [UInt8.ofNat value]
    else if 0x80 ≤ char.toNat || !isAttrChar (UInt8.ofNat char.toNat) then none
    else (percentDecodeBytes rest).map (UInt8.ofNat char.toNat :: ·)

/-- The text of an extended value. -/
def percentDecode (value : Str) : Except ContentDispositionError Str :=
  match percentDecodeBytes value with
  | none => .error .invalidExtValue
  | some bytes => match Utf8.decode bytes with
    | .error _ => .error .invalidExtValue
    | .ok text => .ok text

/-- The text of a value with a charset and a language in front. -/
def parseExtValue (value : Str) : Except ContentDispositionError Str :=
  match splitOnce '\'' (trim value) with
  | none => .error .invalidExtValue
  | some (charset, rest) => match splitOnce '\'' rest with
    | none => .error .invalidExtValue
    | some (_, encodedValue) =>
      if !eqIgnoreAsciiCase charset "UTF-8".toList then .error .invalidExtValue
      else percentDecode encodedValue

/-- A text in the form of an extended value. -/
def encodeExtValue (text : Str) : Str :=
  (Utf8.encode text).flatMap fun byte =>
    if isAttrChar byte then [Char.ofNat byte.toNat] else '%' :: (hexByte byte).toList

/-- How a content is to be presented. -/
structure ContentDisposition where
  /-- The type. -/
  dispositionType : DispositionType
  /-- The name to store it under. -/
  filename : Option Str
  /-- The name to store it under, as it is once decoded. -/
  filenameExt : Option Str
  /-- The name of the field of a form. -/
  name : Option Str
  /-- The other parameters. -/
  parameters : List (Str × Str)
  deriving DecidableEq, Repr

namespace ContentDisposition

/-- The text between quotes. -/
def parseQuotedString : Str → Except ContentDispositionError Str
  | [] => .ok []
  | char :: rest =>
    if char == '\\' then
      match rest with
      | [] => .error .invalidParameter
      | next :: rest =>
        if !isQuotedPairChar next then .error .invalidParameter
        else (parseQuotedString rest).map (next :: ·)
    else if !isQdtextChar char then .error .invalidParameter
    else (parseQuotedString rest).map (char :: ·)

/-- The value of a parameter: a quoted string or a token. -/
def parseParamValue (value : Str) : Except ContentDispositionError Str :=
  let value := trim value
  if value.head? = some '"' then
    if value.getLast? = some '"' && 2 ≤ byteLength value then parseQuotedString value.tail.dropLast
    else .error .invalidParameter
  else if !isValidToken value then .error .invalidParameter
  else .ok value

/-- A content disposition without parameters. -/
def new (dispositionType : DispositionType) : ContentDisposition where
  dispositionType := dispositionType
  filename := none
  filenameExt := none
  name := none
  parameters := []

/-- A content disposition with a name to store it under. -/
def withFilename (disposition : ContentDisposition) (filename : Str) : ContentDisposition :=
  { disposition with filename := some filename }

/-- A content disposition with a name to store it under that is written encoded. -/
def withFilenameExt (disposition : ContentDisposition) (filename : Str) : ContentDisposition :=
  { disposition with filenameExt := some filename }

/-- A content disposition with a name of a field. -/
def withName (disposition : ContentDisposition) (name : Str) : ContentDisposition :=
  { disposition with name := some name }

/-- A content disposition with one more parameter. -/
def setParam (disposition : ContentDisposition) (name value : Str) :
    Except ContentDispositionError ContentDisposition :=
  if name = "filename".toList then (parseParamValue value).map disposition.withFilename
  else if name = "filename*".toList then (parseExtValue value).map disposition.withFilenameExt
  else if name = "name".toList then (parseParamValue value).map disposition.withName
  else (parseParamValue value).map fun value =>
    { disposition with parameters := disposition.parameters ++ [(name, value)] }

/-- What one part says, with the names of the parameters so far. -/
def parsePart (state : ContentDisposition × List Str) (part : Str) :
    Except ContentDispositionError (ContentDisposition × List Str) :=
  let part := trim part
  if part.isEmpty then .ok state
  else match splitOnce '=' part with
    -- A part without an equals sign says nothing.
    | none => .ok state
    | some (front, back) =>
      let paramName := toAsciiLowercase (trim front)
      -- No name may stand twice, not even an unknown one.
      if state.2.any (· == paramName) then .error (.duplicateParameter paramName)
      else if maxParams ≤ state.2.length then .error .tooManyParameters
      else (state.1.setParam paramName (trim back)).map fun disposition =>
        (disposition, state.2 ++ [paramName])

/-- The content disposition of a header. -/
def parse (input : Str) : Except ContentDispositionError ContentDisposition :=
  let input := trim input
  if input.isEmpty then .error .empty
  else match splitParams input with
    | [] => .error .invalidFormat
    | typeStr :: parts => match DispositionType.fromStr (trim typeStr) with
      | .error error => .error error
      | .ok dispositionType =>
        (parts.foldlM parsePart (new dispositionType, [])).map Prod.fst

/-- A parameter between quotes, behind its semicolon. -/
def displayParam (param : Str × Str) : Str :=
  "; ".toList ++ param.1 ++ '=' :: '"' :: (escapeQuotes param.2 ++ ['"'])

/-- The header of a content disposition. -/
def display (disposition : ContentDisposition) : Str :=
  disposition.dispositionType.display ++
    ((disposition.name.map fun name => displayParam ("name".toList, name)).getD [] ++
    ((disposition.filename.map fun name => displayParam ("filename".toList, name)).getD [] ++
    ((disposition.filenameExt.map fun name =>
      "; filename*=UTF-8''".toList ++ encodeExtValue name).getD [] ++
    disposition.parameters.flatMap displayParam)))

end ContentDisposition

end Http11

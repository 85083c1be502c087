import Http11.Trailing

/-! The grammar of a body in chunks, and what a decoder completes of its input. -/

namespace Http11

/-- Spaces and tabs, any number of them. -/
def IsBws (bytes : Bytes) : Prop := ∀ byte ∈ bytes, byte = 0x20 ∨ byte = 0x09

/-- A token. -/
def IsTokenBytes (bytes : Bytes) : Prop := bytes ≠ [] ∧ ∀ byte ∈ bytes, isTokenChar byte = true

/-- A byte that may stand behind a backslash. -/
def isQuotable (byte : UInt8) : Bool :=
  byte == 0x09 || byte == 0x20 || (0x21 ≤ byte && byte ≤ 0x7E) || 0x80 ≤ byte

/-- What stands between two quotes: bytes on their own, and bytes behind backslashes. -/
inductive IsQuotedText : Bytes → Prop where
  /-- Nothing. -/
  | none : IsQuotedText []
  /-- A byte on its own. -/
  | plain {byte : UInt8} {rest : Bytes} (plain : isQdtext byte = true) (more : IsQuotedText rest) :
    IsQuotedText (byte :: rest)
  /-- A byte behind a backslash. -/
  | pair {byte : UInt8} {rest : Bytes} (quotable : isQuotable byte = true)
    (more : IsQuotedText rest) : IsQuotedText (0x5C :: byte :: rest)

/-- The value of an extension: a token or a quoted string. -/
def IsExtValue (bytes : Bytes) : Prop :=
  IsTokenBytes bytes ∨ ∃ text, IsQuotedText text ∧ bytes = 0x22 :: (text ++ [0x22])

/-- An extension: a name behind a semicolon, and maybe a value behind an equals sign. -/
def IsExtension (bytes : Bytes) : Prop :=
  ∃ before gap name, IsBws before ∧ IsBws gap ∧ IsTokenBytes name ∧
    (bytes = before ++ 0x3B :: (gap ++ name) ∨
      ∃ left right value, IsBws left ∧ IsBws right ∧ IsExtValue value ∧
        bytes = before ++ 0x3B :: (gap ++ name ++ (left ++ 0x3D :: (right ++ value))))

/-- The size of a chunk, in at least one hexadecimal digit. -/
def IsHexSize (digits : Bytes) (size : Nat) : Prop :=
  digits ≠ [] ∧ (∀ byte ∈ digits, isAsciiHexdigit byte = true) ∧
    Numerals.value 16 (digits.map fun byte => Char.ofNat byte.toNat) = size

/-- A size line: a size and any number of extensions. -/
def IsSizeLine (line : Bytes) (size : Nat) : Prop :=
  ∃ (digits : Bytes) (extensions : List Bytes), IsHexSize digits size ∧
    (∀ extension ∈ extensions, IsExtension extension) ∧ line = digits ++ extensions.flatten

/-- A size line with spaces or tabs behind its last extension. -/
def IsPaddedSizeLine (line : Bytes) (size : Nat) : Prop :=
  ∃ (digits : Bytes) (extensions : List Bytes) (padding : Bytes), IsHexSize digits size ∧
    (∀ extension ∈ extensions, IsExtension extension) ∧ extensions ≠ [] ∧ IsBws padding ∧
    padding ≠ [] ∧ line = digits ++ extensions.flatten ++ padding

/--
A trailer line: a field that the head announced, of a name that may stand there.

Behind the colon there is any number of visible characters, spaces, tabs and bytes of obs-text.
-/
def IsTrailerField (headers : Headers) (line : Bytes) : Prop :=
  ∃ (name : Str) (content : Bytes), isToken name = true ∧
    (∀ byte ∈ content, isValidFieldVchar byte = true) ∧
    line = Utf8.encode name ++ 0x3A :: content ∧
    (∃ element ∈ fieldElements headers "Trailer".toList, eqIgnoreAsciiCase name element = true) ∧
    isProhibitedTrailerField name = false

/-- A line whose bytes are those of a text. -/
def IsTextLine (line : Bytes) : Prop := ∃ text : Str, line = Utf8.encode text

/-- The lines and the data of a body in chunks. -/
structure ChunkedBody where
  /-- The size lines and the data of its chunks. -/
  chunks : List (Bytes × Bytes)
  /-- The size line of the last chunk, which is empty. -/
  last : Bytes
  /-- The trailer lines. -/
  trailers : List Bytes

namespace ChunkedBody

/-- A chunk on the connection: its size line and its data, each with a line end. -/
def chunkBytes (chunk : Bytes × Bytes) : Bytes := chunk.1 ++ crlf ++ chunk.2 ++ crlf

/-- A body in chunks on the connection. -/
def bytes (body : ChunkedBody) : Bytes :=
  body.chunks.flatMap chunkBytes ++
    (body.last ++ crlf ++ (body.trailers.flatMap (· ++ crlf) ++ crlf))

/-- The content of a body in chunks. -/
def content (body : ChunkedBody) : Bytes := body.chunks.flatMap Prod.snd

/-- The size lines of a body in chunks. -/
def sizeLines (body : ChunkedBody) : List Bytes := body.chunks.map Prod.fst ++ [body.last]

/-- A body in chunks is generated by the grammar, with some notion of its size lines. -/
structure IsGenerated (isSizeLine : Bytes → Nat → Prop) (headers : Headers) (body : ChunkedBody) :
    Prop where
  /-- No chunk is empty, and each has its length in its size line. -/
  chunks : ∀ chunk ∈ body.chunks, chunk.2 ≠ [] ∧ isSizeLine chunk.1 chunk.2.length
  /-- The last chunk has no length. -/
  last : isSizeLine body.last 0
  /-- The trailers were announced, and may stand there. -/
  trailers : ∀ line ∈ body.trailers, IsTrailerField headers line

end ChunkedBody

/-- Some bytes are a body in chunks with some content. -/
def IsChunkedBody (headers : Headers) (bytes content : Bytes) : Prop :=
  ∃ body : ChunkedBody, body.IsGenerated IsSizeLine headers ∧ body.bytes = bytes ∧
    body.content = content

/--
Some bytes are a body in chunks, but for spaces or tabs behind the extensions of a size line.

All of its trailer lines are texts.
-/
def IsPaddedBody (headers : Headers) (bytes content : Bytes) : Prop :=
  ∃ body : ChunkedBody,
    body.IsGenerated (fun line size => IsSizeLine line size ∨ IsPaddedSizeLine line size) headers ∧
    (∃ line ∈ body.sizeLines, ∃ size, IsPaddedSizeLine line size) ∧
    (∀ line ∈ body.trailers, IsTextLine line) ∧ body.bytes = bytes ∧ body.content = content

/-- Some bytes are a body in chunks with a trailer line that is not a text. -/
def IsUntextualBody (headers : Headers) (bytes content : Bytes) : Prop :=
  ∃ body : ChunkedBody, body.IsGenerated IsSizeLine headers ∧
    (∃ line ∈ body.trailers, ¬ IsTextLine line) ∧ body.bytes = bytes ∧ body.content = content

namespace BodyState

/-- What calls on a body lead to until it is complete, and the bytes that they deliver. -/
inductive Reads (limits : DecoderLimits) (start : BodyState) : BodyState → Bytes → Prop where
  /-- No call yet. -/
  | start : Reads limits start start []
  /-- One more call that succeeds, for any number of bytes. -/
  | call {state next : BodyState} {delivered : Bytes} {progress : BodyProgress} (len : Nat)
    (earlier : Reads limits start state delivered) (incomplete : state.phase ≠ .complete)
    (consumed : consumeBody limits len state = (.ok progress, next)) :
    Reads limits start next (delivered ++ state.offered len)

/-- A decoder of a body in chunks behind a head, before the first size line. -/
def chunkedStart (headers : Headers) (input : Bytes) : BodyState where
  buf := input
  phase := .bodyChunkedSize
  bodyDecoder := { declaredTrailers := collectDeclaredTrailers headers }

/-- The decoder completes a body with some content, and some of its input is left. -/
def Completes (headers : Headers) (input content rest : Bytes) : Prop :=
  ∃ state, Reads .unlimited (chunkedStart headers input) state content ∧
    state.phase = .complete ∧ state.buf = rest

end BodyState

/-- What the decoder completes in front of the rest of its input is what the grammar generates. -/
def ReadsGrammar (headers : Headers) (front rest content : Bytes) : Prop :=
  BodyState.Completes headers (front ++ rest) content rest ↔ IsChunkedBody headers front content

end Http11

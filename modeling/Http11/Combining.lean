import Http11.Decoder.Request
import Http11.Decoder.Response
import Http11.Message
import Http11.Trailing

/-! Heads on the connection whose field lines are combined, and what is told of both. -/

namespace Http11

/-- A line of a head reads as a field. -/
def ReadsAs (line : Bytes) (field : Str × Str) : Prop :=
  ∃ text, lineText line = .ok text ∧ parseHeaderLine text = .ok field

/-- A head on the connection: its lines, each with a line end, and an empty line. -/
def headBytes (startLine : Bytes) (lines : List Bytes) : Bytes :=
  startLine ++ crlf ++ (lines.flatMap (· ++ crlf) ++ crlf)

/-- A head, line by line. -/
structure HeadLines where
  /-- The start line. -/
  startLine : Bytes
  /-- The field lines. -/
  lines : List Bytes
  /-- The start line is one line. -/
  started : IsLine startLine
  /-- Each field line is one line, and not the empty one that ends the head. -/
  each : ∀ line ∈ lines, IsTrailerLine line

/-- The fields whose lines may be combined. -/
def combinableFields : List Str :=
  ["Transfer-Encoding".toList, "Content-Length".toList, "Connection".toList, "Trailer".toList]

/-- The line of a field with two values, which a comma and a space separate. -/
def combinedLine (name left right : Str) : Bytes :=
  Utf8.encode (name ++ ": ".toList ++ (left ++ ", ".toList ++ right))

/-- Two lines of a field, with two values, become one, which stands somewhere between them. -/
def Combines (name left right : Str) (lines combined : List Bytes) : Prop :=
  ∃ (before first second after : List Bytes) (line other : Bytes) (spelled leftName rightName : Str),
    ReadsAs line (leftName, left) ∧ ReadsAs other (rightName, right) ∧
    eqIgnoreAsciiCase leftName name = true ∧ eqIgnoreAsciiCase rightName name = true ∧
    eqIgnoreAsciiCase spelled name = true ∧
    -- No other line of the field stands between the two.
    (∀ between ∈ first ++ second, ∀ field, ReadsAs between field →
      eqIgnoreAsciiCase field.1 name = false) ∧
    lines = before ++ line :: (first ++ second ++ other :: after) ∧
    combined = before ++ first ++ combinedLine spelled left right :: (second ++ after)

/-- The length told of a combined head, where the lines combined are of a field of some name. -/
structure SameLength (name left right : Str) (length combined : Except Error (Option Nat)) :
    Prop where
  /-- What is told of the head is told of the combined one, unless it is an error. -/
  told : ∀ declared, length = .ok declared → combined = .ok declared
  /-- Lines of other fields leave the errors as well. -/
  other : name ≠ "Content-Length".toList → combined = length
  /-- An error stays one, unless one of the two values lists lengths and the other one does not. -/
  failed : (listElements left = [] ↔ listElements right = []) → ∀ error, length = .error error →
    ∃ error, combined = .error error

/-- A decoder frames a head in which two lines are combined as it frames the head. -/
def KeepsFraming {Head Context : Type} (side : Side Head Context) (version : Head → Str) : Prop :=
  ∀ (core : Core Context) (whole : HeadLines) (rest : Bytes) (name left right : Str)
    (combined : List Bytes) (head : Head) (bodyKind : BodyKind) (next : Core Context),
    core.phase = .startLine → core.headers = [] → name ∈ combinableFields →
    Combines name left right whole.lines combined →
    (∀ line ∈ combined, line.length ≤ core.limits.maxHeaderLineSize) →
    Core.decodeHeaders side { core with buf := headBytes whole.startLine whole.lines ++ rest } =
      (.ok (some (head, bodyKind)), next) →
    ∃ other after,
      Core.decodeHeaders side { core with buf := headBytes whole.startLine combined ++ rest } =
        (.ok (some (other, bodyKind)), after) ∧
      HttpHead.isKeepAlive (version other) (side.headersOf other) =
        HttpHead.isKeepAlive (version head) (side.headersOf head) ∧
      HttpHead.isChunked (side.headersOf other) = HttpHead.isChunked (side.headersOf head) ∧
      after.bodyDecoder.declaredTrailers = next.bodyDecoder.declaredTrailers ∧
      SameLength name left right (HttpHead.contentLength (side.headersOf head))
        (HttpHead.contentLength (side.headersOf other))

end Http11

import Http11.ContentDisposition
import Http11.ContentType
import Http11.Lib.Splitting

/-! The parser of forms in several parts, which is fed piece by piece and hands out the parts. -/

namespace Http11

/-- What is wrong with a form in several parts. -/
inductive MultipartError where
  /-- A boundary that cannot be used. -/
  | invalidBoundary
  /-- The header lines of a part are no text. -/
  | invalidHeader
  /-- A delimiter is followed by neither a line end nor two hyphens. -/
  | invalidPart
  /-- More input is needed. -/
  | incomplete
  /-- A part without a content disposition. -/
  | missingContentDisposition
  /-- A part whose disposition is not that of a form. -/
  | invalidContentDisposition
  /-- A part without a name. -/
  | missingName
  /-- More input is held than allowed. -/
  | bufferOverflow (size limit : Nat)
  deriving DecidableEq, Repr

/-- A part of a form. -/
structure Part where
  /-- How the part is to be presented. -/
  contentDisposition : Option ContentDisposition
  /-- The type of its content. -/
  contentType : Option ContentType
  /-- The other header fields. -/
  headers : List (Str × Str)
  /-- The content. -/
  body : Bytes
  deriving DecidableEq, Repr

/-- What a parser waits for. -/
inductive ParserState where
  /-- The first delimiter. -/
  | initial
  /-- The rest of a part. -/
  | inPart
  /-- The two bytes behind the delimiter of a part that has been handed out. -/
  | afterInnerDelimiter
  /-- Nothing more, behind the last delimiter. -/
  | finished
  deriving DecidableEq, Repr

/-- A character that a boundary may have. -/
def isValidBoundaryChar (byte : UInt8) : Bool :=
  isAsciiAlphanumeric byte || isOneOf "'()+_,-./:=? " byte

/-- A boundary has from one to seventy characters, and no space at its end. -/
def isValidBoundary (boundary : Str) : Bool :=
  let bytes := Utf8.encode boundary
  !bytes.isEmpty && bytes.length ≤ 70 && bytes.all isValidBoundaryChar &&
    bytes.getLast? != some 0x20

/-- The two hyphens around a boundary. -/
def hyphens : Bytes := [0x2D, 0x2D]

/-- One pass of the search: the next byte that could begin the needle, and what stands there. -/
def findBytesPass (haystack needle : Bytes) (first : UInt8) (maxStart i : Nat) :
    Nat ⊕ Option Nat :=
  if maxStart < i then .inr none
  else match ((haystack.drop i).take (maxStart + 1 - i)).findIdx? (· == first) with
    | none => .inr none
    | some offset =>
      if (haystack.drop (i + offset)).take needle.length = needle then .inr (some (i + offset))
      else .inl (i + offset + 1)

/-- The loop of the search. -/
def findBytesLoop (haystack needle : Bytes) (first : UInt8) (maxStart : Nat) :
    Iteration Nat (Option Nat) where
  body := findBytesPass haystack needle first maxStart
  size := fun i => maxStart + 1 - i
  decreases := by
    intro i next passed
    unfold findBytesPass at passed
    split at passed
    · cases passed
    split at passed
    · cases passed
    split at passed
    · cases passed
    cases passed
    omega

/-- The first place of a needle. -/
def findBytes (haystack needle : Bytes) : Option Nat :=
  match needle with
  | [] => some 0
  | first :: _ =>
    if haystack.length < needle.length then none
    else
      let maxStart := haystack.length - needle.length
      (findBytesLoop haystack needle first maxStart).run 0

/-- The first place of a needle from a position on, counted from the start of the buffer. -/
def findBytesFrom (buffer : Bytes) (start : Nat) (needle : Bytes) : Option Nat :=
  (findBytes (buffer.drop start) needle).map (start + ·)

/-- A byte that may stand between a delimiter and the end of its line. -/
def isTransportPadding (byte : UInt8) : Bool := byte == 0x20 || byte == 0x09

/-- The two bytes at a position, once they are there. -/
def twoBytes (buffer : Bytes) (position : Nat) : Option Bytes :=
  if buffer.length < position + 2 then none else some ((buffer.drop position).take 2)

/-- What the header lines of a part have said so far. -/
structure PartHeaders where
  /-- The content disposition, unless there is none or it cannot be read. -/
  contentDisposition : Option ContentDisposition
  /-- The content type, unless there is none or it cannot be read. -/
  contentType : Option ContentType
  /-- The other header fields. -/
  headers : List (Str × Str)
  deriving DecidableEq, Repr

/-- What one more header line says; the last of two counts, and a line without a colon nothing. -/
def PartHeaders.readLine (read : PartHeaders) (line : Str) : PartHeaders :=
  if line.isEmpty then read
  else match splitOnce ':' line with
    | none => read
    | some (front, back) =>
      let name := trim front
      let value := trim back
      -- A value that cannot be parsed leaves the part without one.
      if eqIgnoreAsciiCase name "Content-Disposition".toList then
        { read with contentDisposition := (ContentDisposition.parse value).toOption }
      else if eqIgnoreAsciiCase name "Content-Type".toList then
        { read with contentType := (ContentType.parse value).toOption }
      else { read with headers := read.headers ++ [(name, value)] }

/-- What the header lines of a part say. -/
def PartHeaders.ofText (text : Str) : PartHeaders :=
  (Splitting.splitEvery ['\r', '\n'] text).foldl PartHeaders.readLine ⟨none, none, []⟩

/-- The part that header lines and a body make, if it can be one of a form. -/
def parsePartHeaders (headerBytes : Bytes) : Except MultipartError (Bytes → Part) :=
  match Utf8.decode headerBytes with
  | .error _ => .error .invalidHeader
  | .ok text =>
    let read := PartHeaders.ofText text
    match read.contentDisposition with
    | none => .error .missingContentDisposition
    | some disposition =>
      if disposition.dispositionType ≠ .formData then .error .invalidContentDisposition
      else if disposition.name.isNone then .error .missingName
      else .ok fun body => ⟨some disposition, read.contentType, read.headers, body⟩

/-- A parser of forms. -/
structure MultipartParser where
  /-- The delimiter in front of the first part. -/
  firstDelimiter : Bytes
  /-- The delimiter behind every part, with the line end in front of it. -/
  innerDelimiter : Bytes
  /-- The input that is held. -/
  buffer : Bytes
  /-- The position up to which the input is used up. -/
  pos : Nat
  /-- What the parser waits for. -/
  state : ParserState
  /-- The last delimiter has been read. -/
  finished : Bool
  /-- The most input that may be held without being used up. -/
  maxBufferSize : Nat
  /-- The position in front of which no delimiter has to be searched again. -/
  boundaryScanOffset : Nat
  deriving DecidableEq, Repr

namespace MultipartParser

/-- A new parser for a boundary. -/
def new (boundary : Str) : MultipartParser where
  firstDelimiter := hyphens ++ Utf8.encode boundary
  innerDelimiter := crlf ++ hyphens ++ Utf8.encode boundary
  buffer := []
  pos := 0
  state := .initial
  finished := false
  maxBufferSize := 10 * 1024 * 1024
  boundaryScanOffset := 0

/-- A new parser, unless the boundary cannot be used. -/
def tryNew (boundary : Str) : Except MultipartError MultipartParser :=
  if !isValidBoundary boundary then .error .invalidBoundary else .ok (new boundary)

/-- The parser with another limit. -/
def withMaxBufferSize (parser : MultipartParser) (maxBufferSize : Nat) : MultipartParser :=
  { parser with maxBufferSize := maxBufferSize }

/-- More input, unless too much would be held that is not used up. -/
def feed (parser : MultipartParser) (data : Bytes) : Except MultipartError Unit × MultipartParser :=
  let effective := parser.buffer.length - parser.pos
  let newSize := min (effective + data.length) usizeMax
  if parser.maxBufferSize < newSize then
    (.error (.bufferOverflow newSize parser.maxBufferSize), parser)
  else (.ok (), { parser with buffer := parser.buffer ++ data })

/-- The parser at the start of a part. -/
def enter (parser : MultipartParser) (start : Nat) : MultipartParser :=
  { parser with pos := start, boundaryScanOffset := start, state := .inPart }

/-- The parser behind the last delimiter. -/
def finish (parser : MultipartParser) : MultipartParser :=
  { parser with state := .finished, finished := true }

/-- Reading up to the first part: its start, or an answer for now. -/
def passInitial (parser : MultipartParser) :
    MultipartParser ⊕ (Except MultipartError (Option Part) × MultipartParser) :=
  let start := max parser.pos parser.boundaryScanOffset
  match findBytesFrom parser.buffer start parser.firstDelimiter with
  | none =>
    -- The delimiter may begin with the last bytes that have arrived.
    let overlap := parser.firstDelimiter.length - 1
    .inr (.error .incomplete, { parser with boundaryScanOffset := parser.buffer.length - overlap })
  | some found =>
    let waiting := { parser with boundaryScanOffset := min found parser.buffer.length }
    let afterDelim := found + parser.firstDelimiter.length
    if afterDelim + 2 ≤ parser.buffer.length then
      let padded := skipWhile isTransportPadding parser.buffer afterDelim
      match twoBytes parser.buffer padded with
      | none => .inr (.error .incomplete, waiting)
      | some head =>
        if head = crlf then .inl (parser.enter (padded + 2))
        else if head = hyphens then .inr (.ok none, parser.finish)
        else .inr (.error .invalidPart, parser)
    else .inr (.error .incomplete, waiting)

/-- The parser behind the delimiter of a part, as far as what follows it has arrived. -/
def leavePart (parser : MultipartParser) (padded : Nat) : Except MultipartError MultipartParser :=
  match twoBytes parser.buffer padded with
  | some head =>
    if head = hyphens then .ok parser.finish
    else if head = crlf then .ok { parser with pos := padded + 2 }
    else .error .invalidPart
  | none => .ok { parser with pos := padded, state := .afterInnerDelimiter }

/-- The parser without the input that is used up, once that is more than half of what is held. -/
def compact (parser : MultipartParser) : MultipartParser :=
  if parser.buffer.length / 2 < parser.pos then
    let drained := parser.pos
    { parser with
      buffer := parser.buffer.drop drained
      pos := 0
      boundaryScanOffset := parser.boundaryScanOffset - drained }
  else parser

/-- Reading a part: the part, or an error. -/
def passInPart (parser : MultipartParser) :
    Except MultipartError (Option Part) × MultipartParser :=
  match findBytesFrom parser.buffer parser.pos (crlf ++ crlf) with
  | none => (.error .incomplete, parser)
  | some headerEnd =>
    let bodyStart := headerEnd + 4
    match parsePartHeaders ((parser.buffer.drop parser.pos).take (headerEnd - parser.pos)) with
    | .error error => (.error error, parser)
    | .ok part =>
      -- The search goes on where it ended before, though never in front of the body.
      let searchStart := max bodyStart parser.boundaryScanOffset
      match findBytesFrom parser.buffer searchStart parser.innerDelimiter with
      | none =>
        -- The last bytes may be the start of a delimiter, so they are searched again.
        let overlap := parser.innerDelimiter.length - 1
        (.error .incomplete,
          { parser with boundaryScanOffset := max (parser.buffer.length - overlap) bodyStart })
      | some bodyEnd =>
        let body := (parser.buffer.drop bodyStart).take (bodyEnd - bodyStart)
        let afterDelim := bodyEnd + parser.innerDelimiter.length
        match parser.leavePart (skipWhile isTransportPadding parser.buffer afterDelim) with
        | .error error => (.error error, parser)
        | .ok left =>
          (.ok (some (part body)), compact { left with boundaryScanOffset := left.pos })

/-- Reading on behind the delimiter of a part: the start of the next one, or an answer. -/
def passAfterInnerDelimiter (parser : MultipartParser) :
    MultipartParser ⊕ (Except MultipartError (Option Part) × MultipartParser) :=
  let padded := skipWhile isTransportPadding parser.buffer parser.pos
  match twoBytes parser.buffer padded with
  -- White space that has arrived need not be passed over again.
  | none => .inr (.error .incomplete, { parser with pos := padded })
  | some head =>
    -- Two hyphens behind a delimiter close the form.
    if head = hyphens then .inr (.ok none, parser.finish)
    else if head = crlf then .inl (parser.enter (padded + 2))
    else .inr (.error .invalidPart, parser)

/-- One pass of the loop over the states. -/
def pass (parser : MultipartParser) :
    MultipartParser ⊕ (Except MultipartError (Option Part) × MultipartParser) :=
  match parser.state with
  | .initial => parser.passInitial
  | .inPart => .inr parser.passInPart
  | .afterInnerDelimiter => parser.passAfterInnerDelimiter
  | .finished => .inr (.ok none, parser)

/-- A pass that goes on has come to the start of a part, from a delimiter. -/
theorem pass_continues {parser next : MultipartParser} (passed : parser.pass = .inl next) :
    parser.state ≠ .inPart ∧ ∃ start, next = parser.enter start := by
  unfold pass at passed
  -- A part and the end are answers, so the pass has started at a delimiter.
  split at passed
  · rename_i waits
    refine ⟨by simp [waits], ?_⟩
    unfold passInitial at passed
    dsimp only at passed
    split at passed
    · cases passed
    split at passed
    · split at passed
      · cases passed
      split at passed
      · cases passed
        exact ⟨_, rfl⟩
      split at passed
      · cases passed
      · cases passed
    · cases passed
  · cases passed
  · rename_i waits
    refine ⟨by simp [waits], ?_⟩
    unfold passAfterInnerDelimiter at passed
    dsimp only at passed
    split at passed
    · cases passed
    split at passed
    · cases passed
    split at passed
    · cases passed
      exact ⟨_, rfl⟩
    · cases passed
  · cases passed

/-- The loop over the states, which comes to an end in a part at the latest. -/
def nextPartLoop :
    Iteration MultipartParser (Except MultipartError (Option Part) × MultipartParser) where
  body := pass
  size := fun parser => if parser.state = .inPart then 0 else 1
  decreases := by
    intro parser next passed
    obtain ⟨elsewhere, start, rfl⟩ := pass_continues passed
    have entered : (parser.enter start).state = .inPart := rfl
    rw [if_neg elsewhere, if_pos entered]
    exact Nat.zero_lt_one

/-- The next part, none behind the last one, or why there is none yet. -/
def nextPart (parser : MultipartParser) :
    Except MultipartError (Option Part) × MultipartParser :=
  if parser.finished then (.ok none, parser) else nextPartLoop.run parser

end MultipartParser

end Http11

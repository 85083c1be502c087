import Http11.Encoder

/-! The room that the encoder reserves before it writes a message or chunks. -/

namespace Http11

/-- The room for the line of a length that the encoder adds, with twenty digits. -/
def autoContentLengthCapacity : Nat := 38

/-- The room for a field line more. -/
def estimateField (total : Nat) (field : Str × Str) : Option Nat := do
  let total ← checkedAdd total (byteLength field.1)
  let total ← checkedAdd total (byteLength field.2)
  checkedAdd total 4

/-- The room for a request, unless it leaves the machine word. -/
def estimateRequestCapacity (request : Request) : Option Nat := do
  let total ← checkedAdd 0 (byteLength request.method)
  let total ← checkedAdd total (byteLength request.uri)
  let total ← checkedAdd total (byteLength request.version)
  -- Two spaces and a line end.
  let total ← checkedAdd total 4
  let total ← request.headers.foldlM estimateField total
  let total ← if shouldAutoEmitContentLengthForRequest request then
      checkedAdd total autoContentLengthCapacity
    else some total
  -- The empty line behind the fields.
  let total ← checkedAdd total 2
  match request.body with
  | some body => checkedAdd total body.length
  | none => some total

/-- The room for a response, unless it leaves the machine word. -/
def estimateResponseCapacity (response : Response) : Option Nat := do
  let total ← checkedAdd 0 (byteLength response.version)
  -- Three digits for the status code.
  let total ← checkedAdd total 3
  let total ← checkedAdd total (byteLength response.reasonPhrase)
  -- Two spaces and a line end.
  let total ← checkedAdd total 4
  let total ← response.headers.foldlM estimateField total
  let total ← if shouldAutoEmitContentLengthForResponse response then
      checkedAdd total autoContentLengthCapacity
    else some total
  let total ← checkedAdd total 2
  -- A body that is omitted takes no room.
  if bodyWillBeEncoded response then
    match response.body with
    | some body => checkedAdd total body.length
    | none => some total
  else some total

/-- The room for a chunk more, with sixteen digits. -/
def estimateChunk (total : Nat) (chunk : Bytes) : Option Nat := do
  let per ← checkedAdd chunk.length 20
  checkedAdd total per

/-- The room for chunks and the last chunk, unless it leaves the machine word. -/
def encodeChunksCapacity (chunks : List Bytes) : Option Nat := do
  let total ← chunks.foldlM estimateChunk 0
  checkedAdd total 5

end Http11

import Http11.Decoder.Core
import Http11.Lib.Incremental

/-! What decoding means: a machine that reads a connection line by line and byte by byte. -/

namespace Http11

/-- A message as it stood on the connection. -/
structure Message (Head : Type) where
  /-- The head. -/
  head : Head
  /-- The framing of the body. -/
  bodyKind : BodyKind
  /-- The content of the body. -/
  body : Bytes
  /-- The trailers after it. -/
  trailers : Headers
  deriving DecidableEq, Repr

/-- A reader of a connection, with the messages it has read. -/
structure Reader (Head Context : Type) where
  /-- The state that the decoders share. -/
  core : Core Context
  /-- The head and framing of the message that is being read. -/
  current : Option (Head × BodyKind) := none
  /-- The part of its body read so far. -/
  body : Bytes := []
  /-- The messages before it. -/
  done : List (Message Head) := []
  /-- The error that stopped the reader. -/
  failed : Option Error := none
  deriving DecidableEq, Repr

namespace Reader

variable {Head Context : Type}

/-- A reader between messages. -/
def ready (limits : DecoderLimits) (context : Context) (done : List (Message Head))
    (buf : Bytes) : Reader Head Context where
  core := { buf, limits, context }
  done := done

/-- The reader after an operation on its body state. -/
def afterBody {Result : Type} (reader : Reader Head Context)
    (outcome : Except Error Result × BodyState) : Reader Head Context :=
  { reader with
    core := { reader.core with toBodyState := outcome.2 }
    failed := match outcome.1 with
      | .ok _ => none
      | .error error => some error }

/-- The reader after a line of the head. -/
def afterHead (reader : Reader Head Context)
    (outcome : Except Error (Option (Head × BodyKind)) × Core Context) : Reader Head Context :=
  { reader with
    core := outcome.2
    current := match outcome.1 with
      | .ok decoded => decoded
      | .error _ => none
    failed := match outcome.1 with
      | .ok _ => none
      | .error error => some error }

/-- The reader after one byte of the body, in the phase that follows. -/
def afterByte (reader : Reader Head Context) (byte : UInt8) (rest : Bytes) (phase : DecodePhase) :
    Reader Head Context :=
  { reader with
    core := { reader.core with
      buf := rest
      phase
      bodyDecoder := { reader.core.bodyDecoder with
        bodyConsumed := reader.core.bodyDecoder.bodyConsumed + 1 } }
    body := reader.body ++ [byte] }

/-- The reader once the message that is complete counts as read. -/
def push (side : Side Head Context) (reader : Reader Head Context) : Reader Head Context :=
  { reader with
    core := reader.core.nextMessage side
    current := none
    body := []
    done := match reader.current with
      | some (head, bodyKind) =>
        reader.done ++ [⟨head, bodyKind, reader.body, reader.core.bodyDecoder.trailers⟩]
      | none => reader.done }

/-- A reader that has failed, or has read as many messages as it was asked for. -/
def halted (limit : Option Nat) (reader : Reader Head Context) : Bool :=
  reader.failed.isSome || limit.any fun count => count ≤ reader.done.length

/-- One line or one byte, or the next message after a complete one. -/
def step (side : Side Head Context) (limit : Option Nat) (reader : Reader Head Context) :
    Option (Reader Head Context) :=
  match reader.halted limit, reader.core.phase with
  | true, _ => none
  | false, .startLine | false, .headers =>
    (splitLine reader.core.buf).map fun (line, rest) =>
      reader.afterHead (reader.core.headLine side line rest)
  -- Content is read byte by byte, so that no cut makes a difference.
  | false, .bodyContentLength remaining =>
    match reader.core.buf with
    | [] => none
    | byte :: rest => some (reader.afterByte byte rest
        (if remaining = 1 then .complete else .bodyContentLength (remaining - 1)))
  | false, .bodyChunkedSize =>
    (splitLine reader.core.buf).map fun (line, rest) =>
      reader.afterBody (reader.core.toBodyState.chunkSizeLine reader.core.limits line rest)
  | false, .bodyChunkedData remaining =>
    match reader.core.buf with
    | [] => none
    | byte :: rest => some (reader.afterByte byte rest
        (if remaining = 1 then .bodyChunkedDataCrlf else .bodyChunkedData (remaining - 1)))
  | false, .bodyChunkedDataCrlf =>
    match reader.core.buf with
    | _ :: _ :: _ => some (reader.afterBody reader.core.toBodyState.chunkDataCrlf)
    | _ => none
  | false, .chunkedTrailer =>
    (splitLine reader.core.buf).map fun (line, rest) =>
      reader.afterBody (reader.core.toBodyState.trailerLine reader.core.limits line rest)
  | false, .complete => some (reader.push side)
  -- Such a body ends with the connection, not with a byte.
  | false, .bodyCloseDelimited | false, .tunnel => none

/-- More input at the end of the buffer. -/
def feed (reader : Reader Head Context) (input : Bytes) : Reader Head Context :=
  { reader with core := { reader.core with buf := reader.core.buf ++ input } }

end Reader

/-- The first line end of a buffer stays the first one when input follows. -/
theorem findLine_append {buf : Bytes} {pos : Nat} (found : findLine buf = some pos)
    (input : Bytes) : findLine (buf ++ input) = some pos := by
  fun_induction findLine buf generalizing pos with
  | case1 rest => simpa [findLine] using found
  | case2 => cases found
  | case3 byte rest notEnd ih =>
    simp only [Option.map_eq_some_iff] at found
    obtain ⟨before, foundBefore, rfl⟩ := found
    have later := ih foundBefore
    -- The byte in front is no line end with its successor, which is there already.
    cases rest with
    | nil => simp [findLine] at foundBefore
    | cons next rest =>
      simp only [List.cons_append] at later ⊢
      rw [findLine, later]
      · rfl
      · intro _ first second
        obtain ⟨rfl, rfl⟩ := List.cons.inj second
        exact notEnd _ first rfl

/-- A line that is complete stays the first one when input follows. -/
theorem splitLine_append {buf line rest : Bytes} (split : splitLine buf = some (line, rest))
    (input : Bytes) : splitLine (buf ++ input) = some (line, rest ++ input) := by
  simp only [splitLine, Option.map_eq_some_iff, Prod.mk.injEq] at split ⊢
  obtain ⟨pos, found, rfl, rfl⟩ := split
  have inside := findLine_lt found
  refine ⟨pos, findLine_append found input, ?_, ?_⟩
  · rw [List.take_append_of_le_length (by omega)]
  · rw [List.drop_append_of_le_length (by omega)]

/-- More input behind what a body operation left. -/
def fedBody {Result : Type} (outcome : Except Error Result × BodyState) (input : Bytes) :
    Except Error Result × BodyState :=
  (outcome.1, { outcome.2 with buf := outcome.2.buf ++ input })

/-- More input behind what a head operation left. -/
def fedCore {Result Context : Type} (outcome : Except Error Result × Core Context)
    (input : Bytes) : Except Error Result × Core Context :=
  (outcome.1, { outcome.2 with buf := outcome.2.buf ++ input })

namespace BodyState

/-- A chunk-size line is read alike whatever follows it. -/
theorem chunkSizeLine_feed (limits : DecoderLimits) (state : BodyState)
    (line rest input : Bytes) :
    chunkSizeLine limits { state with buf := state.buf ++ input } line (rest ++ input) =
      fedBody (chunkSizeLine limits state line rest) input := by
  unfold chunkSizeLine
  -- None of the checks looks at what is behind the line.
  cases parseChunkSize limits line with
  | error error => rfl
  | ok size =>
    dsimp only
    split
    · rfl
    · cases checkedAdd state.bodyDecoder.bodyConsumed size with
      | none => rfl
      | some newSize =>
        dsimp only
        split <;> rfl

/-- A trailer line is read alike whatever follows it. -/
theorem trailerLine_feed (limits : DecoderLimits) (state : BodyState) (line rest input : Bytes) :
    trailerLine limits { state with buf := state.buf ++ input } line (rest ++ input) =
      fedBody (trailerLine limits state line rest) input := by
  unfold trailerLine
  -- The limits are about the line and the fields, and not about the rest.
  dsimp only
  split
  · rfl
  split
  · rfl
  split
  · rfl
  cases lineText line with
  | error error => rfl
  | ok text =>
    dsimp only
    cases parseHeaderLine text with
    | error error => rfl
    | ok field =>
      dsimp only
      split
      · rfl
      split <;> rfl

/-- The line end after a chunk is read alike whatever follows it. -/
theorem chunkDataCrlf_feed (state : BodyState) (buffered : 2 ≤ state.buf.length) (input : Bytes) :
    chunkDataCrlf { state with buf := state.buf ++ input } = fedBody (chunkDataCrlf state) input := by
  obtain ⟨buf, phase, bodyDecoder⟩ := state
  match buf, buffered with
  | first :: second :: rest, _ =>
    simp only [chunkDataCrlf, List.cons_append]
    split <;> rfl

end BodyState

namespace Core

variable {Head Context : Type}

/-- A start line is read alike whatever follows it. -/
theorem readStartLine_feed (side : Side Head Context) (core : Core Context)
    (line rest input : Bytes) :
    readStartLine side { core with buf := core.buf ++ input } line (rest ++ input) =
      fedCore (readStartLine side core line rest) input := by
  unfold readStartLine
  -- The text and its checks are those of the line alone.
  cases lineText line with
  | error error => rfl
  | ok text =>
    dsimp only
    cases side.checkStartLine text with
    | error error => rfl
    | ok done => rfl

/-- The end of a head is read alike whatever follows it. -/
theorem finishHeaders_feed (side : Side Head Context) (core : Core Context)
    (rest input : Bytes) :
    finishHeaders side { core with buf := core.buf ++ input } (rest ++ input) =
      fedCore (finishHeaders side core rest) input := by
  unfold finishHeaders
  -- A head is finished by what was read before its empty line.
  cases core.startLine with
  | none => rfl
  | some startLine =>
    dsimp only
    cases side.finishHead core.limits core.context startLine core.headers with
    | error error => rfl
    | ok result => rfl

/-- A header line is read alike whatever follows it. -/
theorem readHeaderLine_feed (core : Core Context) (line rest input : Bytes) :
    readHeaderLine { core with buf := core.buf ++ input } line (rest ++ input) =
      fedCore (readHeaderLine core line rest) input := by
  unfold readHeaderLine
  -- The limits are about the line and the fields, and not about the rest.
  dsimp only
  split
  · rfl
  split
  · rfl
  cases lineText line with
  | error error => rfl
  | ok text =>
    dsimp only
    cases parseHeaderLine text with
    | error error => rfl
    | ok field => rfl

/-- A line of the head is read alike whatever follows it. -/
theorem headLine_feed (side : Side Head Context) (core : Core Context) (line rest input : Bytes) :
    headLine side { core with buf := core.buf ++ input } line (rest ++ input) =
      fedCore (headLine side core line rest) input := by
  unfold headLine
  -- Each of the three kinds of line is read alike.
  dsimp only
  split
  · rw [readStartLine_feed]; rfl
  split
  · rw [finishHeaders_feed]; rfl
  · rw [readHeaderLine_feed]; rfl

end Core

namespace Reader

variable {Head Context : Type}

/-- A step of the reader is the same with more input behind it. -/
theorem step_feed {side : Side Head Context} {limit : Option Nat} {reader next : Reader Head Context}
    (stepped : reader.step side limit = some next) (input : Bytes) :
    (reader.feed input).step side limit = some (next.feed input) := by
  have alike : (reader.feed input).halted limit = reader.halted limit := rfl
  unfold step at stepped ⊢
  rw [alike]
  cases running : reader.halted limit with
  | true =>
    rw [running] at stepped
    cases stepped
  | false =>
  rw [running] at stepped
  clear alike running
  obtain ⟨⟨⟨buf, phase, bodyDecoder⟩, startLine, headers, limits, context⟩, current, body, done,
    failed⟩ := reader
  simp only [feed] at stepped ⊢
  -- The phase is not affected by input, and each operation is read alike.
  cases phase with
  | startLine =>
    simp only [Option.map_eq_some_iff] at stepped ⊢
    obtain ⟨⟨line, rest⟩, split, rfl⟩ := stepped
    refine ⟨(line, rest ++ input), splitLine_append split input, ?_⟩
    have alike := Core.headLine_feed side ⟨⟨buf, .startLine, bodyDecoder⟩, startLine, headers,
      limits, context⟩ line rest input
    dsimp only at alike ⊢
    rw [alike]
    rfl
  | headers =>
    simp only [Option.map_eq_some_iff] at stepped ⊢
    obtain ⟨⟨line, rest⟩, split, rfl⟩ := stepped
    refine ⟨(line, rest ++ input), splitLine_append split input, ?_⟩
    have alike := Core.headLine_feed side ⟨⟨buf, .headers, bodyDecoder⟩, startLine, headers,
      limits, context⟩ line rest input
    dsimp only at alike ⊢
    rw [alike]
    rfl
  | bodyContentLength remaining =>
    cases buf with
    | nil => cases stepped
    | cons byte rest => cases stepped; rfl
  | bodyChunkedSize =>
    simp only [Option.map_eq_some_iff] at stepped ⊢
    obtain ⟨⟨line, rest⟩, split, rfl⟩ := stepped
    refine ⟨(line, rest ++ input), splitLine_append split input, ?_⟩
    have alike := BodyState.chunkSizeLine_feed limits ⟨buf, .bodyChunkedSize, bodyDecoder⟩ line rest
      input
    dsimp only at alike ⊢
    rw [alike]
    rfl
  | bodyChunkedData remaining =>
    cases buf with
    | nil => cases stepped
    | cons byte rest => cases stepped; rfl
  | bodyChunkedDataCrlf =>
    rcases buf with _ | ⟨first, _ | ⟨second, rest⟩⟩
    · cases stepped
    · cases stepped
    · cases stepped
      have alike := BodyState.chunkDataCrlf_feed
        ⟨first :: second :: rest, .bodyChunkedDataCrlf, bodyDecoder⟩ (by simp) input
      dsimp only [List.cons_append] at alike ⊢
      rw [alike]
      rfl
  | chunkedTrailer =>
    simp only [Option.map_eq_some_iff] at stepped ⊢
    obtain ⟨⟨line, rest⟩, split, rfl⟩ := stepped
    refine ⟨(line, rest ++ input), splitLine_append split input, ?_⟩
    have alike := BodyState.trailerLine_feed limits ⟨buf, .chunkedTrailer, bodyDecoder⟩ line rest
      input
    dsimp only at alike ⊢
    rw [alike]
    rfl
  | complete => cases stepped; rfl
  | bodyCloseDelimited => cases stepped
  | tunnel => cases stepped

/-- The reader as a machine that can be fed at any time and stops after a number of messages. -/
def machine (side : Side Head Context) (limit : Option Nat) :
    Incremental (Reader Head Context) UInt8 where
  step := step side limit
  feed := feed
  feed_nil := by
    intro reader
    simp [feed]
  feed_feed := by
    intro reader front back
    simp [feed, List.append_assoc]
  step_feed := fun stepped input => step_feed stepped input

end Reader

end Http11

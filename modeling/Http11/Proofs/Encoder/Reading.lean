import Http11.Proofs.Decoder.Decode
import Http11.Proofs.Encoder.Lines

/-! How a reader gets through what an encoder wrote: heads, bodies by length, and chunks. -/

namespace Http11

/-- Without limits all input that fits the machine is accepted. -/
theorem Decoder.feed_unlimited {Head Context : Type} {decoder : Decoder Head Context}
    (unlimited : decoder.limits = .unlimited) {data : Bytes}
    (fits : decoder.buf.length + data.length ≤ usizeMax) :
    decoder.feed data = (.ok (), decoder.feedUnchecked data) := by
  simp [feed, checkedAdd, fits, unlimited, DecoderLimits.unlimited, Nat.not_lt.mpr fits,
    feedUnchecked]

namespace Reader

variable {Head Context : Type} {limit : Option Nat} (limits : DecoderLimits) (context : Context)
  {done : List (Message Head)}

/-- A reader inside a head. -/
def heading (limits : DecoderLimits) (context : Context) (done : List (Message Head))
    (startLine : Str) (headers : Headers) (buf : Bytes) : Reader Head Context where
  core := { buf, phase := .headers, startLine := some startLine, headers, limits, context }
  done := done

/-- A reader behind a head, with a part of the body read. -/
def within (side : Side Head Context) (limits : DecoderLimits) (context : Context)
    (done : List (Message Head)) (head : Head) (bodyKind : BodyKind) (phase : DecodePhase)
    (body buf : Bytes) : Reader Head Context where
  core := {
    buf, phase, limits, context
    bodyDecoder := {
      bodyConsumed := body.length
      declaredTrailers := collectDeclaredTrailers (side.headersOf head) } }
  current := some (head, bodyKind)
  body := body
  done := done

/-- A reader that has not failed goes on while there is room for a message. -/
theorem running_of_going {reader : Reader Head Context} (going : Decoder.Going limit done)
    (unfailed : reader.failed = none) (same : reader.done = done) :
    reader.halted limit = false := by
  cases limit with
  | none => simp [halted, unfailed]
  | some count =>
    -- The messages read so far are fewer than were asked for.
    have room := going count rfl
    simp [halted, unfailed, same, room]

/-- A start line that passes its checks is remembered. -/
theorem reads_startLine (side : Side Head Context) (going : Decoder.Going limit done) {text : Str}
    (plain : '\r' ∉ text) (checked : side.checkStartLine text = .ok ()) (rest : Bytes) :
    (machine side limit).Reaches
      (ready limits context done (Utf8.encode text ++ crlf ++ rest))
      (heading limits context done text [] rest) := by
  have running : (ready limits context done (Utf8.encode text ++ crlf ++ rest)).halted limit =
      false := running_of_going going rfl rfl
  have stepped := step_head side running (.inl rfl) (splitLine_encode plain rest)
  -- The line is read as the text it encodes, and nothing else changes.
  have read : (ready limits context done (Utf8.encode text ++ crlf ++ rest) :
      Reader Head Context).core.headLine side (Utf8.encode text) rest =
      (.ok none, (heading limits context done text [] rest : Reader Head Context).core) := by
    simp [Core.headLine, ready, heading, Core.readStartLine, lineText_encode, checked, Except.map]
  rw [read] at stepped
  exact stepped

/-- A start line that does not pass its checks stops the reader. -/
theorem refuses_startLine (side : Side Head Context) (going : Decoder.Going limit done) {text : Str}
    (plain : '\r' ∉ text) (refused : side.checkStartLine text ≠ .ok ()) (rest : Bytes) :
    ∃ reader, reader.failed.isSome = true ∧ (machine side limit).Reaches
      (ready limits context done (Utf8.encode text ++ crlf ++ rest)) reader := by
  have running : (ready limits context done (Utf8.encode text ++ crlf ++ rest)).halted limit =
      false := running_of_going going rfl rfl
  refine ⟨_, ?_, step_head side running (.inl rfl) (splitLine_encode plain rest)⟩
  -- The only way to accept the line is excluded.
  cases checked : side.checkStartLine text with
  | ok done => exact absurd checked refused
  | error error =>
    simp [afterHead, Core.headLine, ready, Core.readStartLine, lineText_encode, checked, Except.map]

/-- The lines of fields are read as the fields, with their values trimmed. -/
theorem reads_fields (side : Side Head Context) (going : Decoder.Going limit done)
    (startLine : Str) (fields : Headers) {headers : Headers}
    (valid : ∀ field ∈ fields, sendable field)
    (short : ∀ field ∈ fields,
      (Utf8.encode (fieldText field)).length ≤ limits.maxHeaderLineSize)
    (few : headers.length + fields.length ≤ limits.maxHeadersCount) (rest : Bytes) :
    (machine side limit).Reaches
      (heading limits context done startLine headers (encodeFields fields ++ rest))
      (heading limits context done startLine (headers ++ receivedHeaders fields) rest) := by
  -- One line is one step, and the fields before it stay.
  induction fields generalizing headers with
  | nil => simpa [encodeFields, receivedHeaders] using Incremental.Reaches.refl
  | cons field fields ih =>
    have first := valid field (by simp)
    obtain ⟨present, plain, _⟩ := fieldText_plain first
    have running : (heading limits context done startLine headers
        (encodeFields (field :: fields) ++ rest)).halted limit = false :=
      running_of_going going rfl rfl
    have split : splitLine (encodeFields (field :: fields) ++ rest) =
        some (Utf8.encode (fieldText field), encodeFields fields ++ rest) := by
      rw [encodeFields_cons, List.append_assoc]
      exact splitLine_encode plain _
    have stepped := step_head side running (.inr rfl) split
    -- The line is not empty, within its limit, and not one too many.
    have read : (heading limits context done startLine headers
        (encodeFields (field :: fields) ++ rest) : Reader Head Context).core.headLine side
          (Utf8.encode (fieldText field)) (encodeFields fields ++ rest) =
        (.ok none, (heading limits context done startLine (headers ++ [receivedField field])
          (encodeFields fields ++ rest) : Reader Head Context).core) := by
      have fits := short field (by simp)
      have room : headers.length < limits.maxHeadersCount := by
        simp only [List.length_cons] at few
        omega
      simp [Core.headLine, heading, Core.readHeaderLine, present, Nat.not_lt.mpr fits,
        Nat.not_le.mpr room, lineText_encode, parseHeaderLine_fieldText first, Except.map]
    rw [read] at stepped
    -- The other fields follow from the state after this one.
    have fewer : (headers ++ [receivedField field]).length + fields.length ≤
        limits.maxHeadersCount := by
      simp only [List.length_append, List.length_cons, List.length_nil] at few ⊢
      omega
    have later := ih (fun other inside => valid other (by simp [inside]))
      (fun other inside => short other (by simp [inside])) fewer
    rw [List.append_assoc] at later
    exact Incremental.Reaches.trans stepped later

/-- The empty line after the fields ends the head, and its framing decides what follows. -/
theorem reads_headEnd (side : Side Head Context) (going : Decoder.Going limit done)
    {startLine : Str} {headers : Headers} {head : Head} {bodyKind : BodyKind}
    (finished : side.finishHead limits context startLine headers = .ok (head, bodyKind))
    (rest : Bytes) :
    (machine side limit).Reaches (heading limits context done startLine headers (crlf ++ rest))
      (within side limits context done head bodyKind (side.bodyPhase bodyKind) [] rest) := by
  have running : (heading limits context done startLine headers (crlf ++ rest)).halted limit =
      false := running_of_going going rfl rfl
  have stepped := step_head side running (.inr rfl) (splitLine_crlf [] (by simp) rest)
  -- Finishing the head is all that the empty line does.
  have read : (heading limits context done startLine headers (crlf ++ rest) :
      Reader Head Context).core.headLine side [] rest =
      (.ok (some (head, bodyKind)), (within side limits context done head bodyKind
        (side.bodyPhase bodyKind) [] rest).core) := by
    simp [Core.headLine, heading, within, Core.finishHeaders, finished, Except.map]
  rw [read] at stepped
  exact stepped

/-- A written head is read, and the reader stands before its body. -/
theorem reads_head (side : Side Head Context) (going : Decoder.Going limit done) {text : Str}
    (plain : '\r' ∉ text) (checked : side.checkStartLine text = .ok ()) {fields : Headers}
    (valid : ∀ field ∈ fields, sendable field)
    (short : ∀ field ∈ fields,
      (Utf8.encode (fieldText field)).length ≤ limits.maxHeaderLineSize)
    (few : fields.length ≤ limits.maxHeadersCount) {head : Head} {bodyKind : BodyKind}
    (finished : side.finishHead limits context text (receivedHeaders fields) =
      .ok (head, bodyKind)) (rest : Bytes) :
    (machine side limit).Reaches
      (ready limits context done
        (Utf8.encode text ++ crlf ++ (encodeFields fields ++ (crlf ++ rest))))
      (within side limits context done head bodyKind (side.bodyPhase bodyKind) [] rest) := by
  have started := reads_startLine limits context side going plain checked
    (encodeFields fields ++ (crlf ++ rest))
  have room : ([] : Headers).length + fields.length ≤ limits.maxHeadersCount := by simpa using few
  have listed := reads_fields limits context side going text fields valid short room (crlf ++ rest)
  rw [List.nil_append] at listed
  exact (started.trans listed).trans (reads_headEnd limits context side going finished rest)

/-- A complete message counts as read, and the reader is ready for the next one. -/
theorem reads_end (side : Side Head Context) (going : Decoder.Going limit done) {head : Head}
    {bodyKind : BodyKind} (body rest : Bytes) :
    (machine side limit).Reaches
      (within side limits context done head bodyKind .complete body rest)
      (ready limits (side.nextContext context) (done ++ [⟨head, bodyKind, body, []⟩]) rest) := by
  have running : (within side limits context done head bodyKind .complete body rest).halted limit =
      false := running_of_going going rfl rfl
  refine Incremental.Reaches.single ?_
  -- The step behind a complete message is the one that hands it over.
  change step side limit _ = _
  unfold step
  rw [running]
  rfl

/-- A body by its length is read byte by byte. -/
theorem reads_contentLength {side : Side Head Context} (lawful : side.Lawful)
    (going : Decoder.Going limit done) {head : Head} (body rest : Bytes) :
    (machine side limit).Reaches
      (within side limits context done head (.contentLength body.length)
        (side.bodyPhase (.contentLength body.length)) [] (body ++ rest))
      (ready limits (side.nextContext context)
        (done ++ [⟨head, .contentLength body.length, body, []⟩]) rest) := by
  rw [lawful.contentLength]
  cases size : body.length with
  | zero =>
    -- An empty body is complete at once.
    have empty : body = [] := List.length_eq_zero_iff.mp size
    subst empty
    exact reads_end limits context side going [] rest
  | succ count =>
    rw [if_pos (by omega)]
    have running : (within side limits context done head (.contentLength (count + 1))
        (.bodyContentLength (count + 1)) [] (body ++ rest)).halted limit = false :=
      running_of_going going rfl rfl
    have bytes := bytes_follow side .bodyContentLength .complete
      (by
        intro reader remaining byte rest running phase buf
        simp [step, running, phase, buf])
      count running rfl le_rfl (by simp [within, size])
    rw [if_pos rfl] at bytes
    refine bytes.trans ?_
    -- All bytes of the body are read, and what follows it is left.
    have same : (within side limits context done head (.contentLength (count + 1))
        (.bodyContentLength (count + 1)) [] (body ++ rest)).afterBytes (count + 1) .complete =
        within side limits context done head (.contentLength (count + 1)) .complete body rest := by
      simp [afterBytes, within, ← size]
    rw [same]
    exact reads_end limits context side going body rest

/-- A size within the limits leads to the data of its chunk. -/
theorem chunkSizeLine_data {limits : DecoderLimits} {state : BodyState} {line : Bytes} {size : Nat}
    (rest : Bytes) (parsed : parseChunkSize limits line = .ok size) (positive : 0 < size)
    (fits : state.bodyDecoder.bodyConsumed + size ≤ usizeMax)
    (allowed : state.bodyDecoder.bodyConsumed + size ≤ limits.maxBodySize) :
    state.chunkSizeLine limits line rest =
      (.ok (), { state with buf := rest, phase := .bodyChunkedData size }) := by
  simp [BodyState.chunkSizeLine, parsed, positive.ne', checkedAdd, fits, Nat.not_lt.mpr allowed]

/-- The line end after the data of a chunk leads to the next size line. -/
theorem reads_chunkEnd (side : Side Head Context) (going : Decoder.Going limit done) (head : Head)
    (body rest : Bytes) :
    (machine side limit).Reaches
      (within side limits context done head .chunked .bodyChunkedDataCrlf body (crlf ++ rest))
      (within side limits context done head .chunked .bodyChunkedSize body rest) := by
  have running : (within side limits context done head .chunked .bodyChunkedDataCrlf body
      (crlf ++ rest)).halted limit = false := running_of_going going rfl rfl
  refine Incremental.Reaches.single ?_
  -- Both bytes are there, and they are the line end.
  change step side limit _ = _
  unfold step
  rw [running]
  rfl

/-- A chunk with data is read, and the next size line follows. -/
theorem reads_chunk (side : Side Head Context) (going : Decoder.Going limit done) (head : Head)
    (body : Bytes) {data : Bytes} (present : data ≠ []) (rest : Bytes)
    (short : (writeHexUsize data.length).length ≤ limits.maxChunkLineSize)
    (fits : body.length + data.length ≤ usizeMax)
    (allowed : body.length + data.length ≤ limits.maxBodySize) :
    (machine side limit).Reaches
      (within side limits context done head .chunked .bodyChunkedSize body
        (writeHexUsize data.length ++ crlf ++ data ++ crlf ++ rest))
      (within side limits context done head .chunked .bodyChunkedSize (body ++ data) rest) := by
  obtain ⟨count, size⟩ : ∃ count, data.length = count + 1 :=
    Nat.exists_eq_succ_of_ne_zero (by simpa using present)
  -- The size line counts the data that follows it.
  have sized : (machine side limit).Reaches
      (within side limits context done head .chunked .bodyChunkedSize body
        (writeHexUsize data.length ++ crlf ++ (data ++ (crlf ++ rest))))
      (within side limits context done head .chunked (.bodyChunkedData (count + 1)) body
        (data ++ (crlf ++ rest))) := by
    have running : (within side limits context done head .chunked .bodyChunkedSize body
        (writeHexUsize data.length ++ crlf ++ (data ++ (crlf ++ rest)))).halted limit = false :=
      running_of_going going rfl rfl
    have split := splitLine_crlf (writeHexUsize data.length) (writeHexUsize_plain _)
      (data ++ (crlf ++ rest))
    have parsed := parseChunkSize_write limits (by omega : data.length ≤ usizeMax) short
    refine Incremental.Reaches.single ((step_chunkSize side running rfl split).trans ?_)
    change some (afterBody _ (BodyState.chunkSizeLine limits _ _ _)) = _
    rw [chunkSizeLine_data _ parsed (by omega) fits allowed, size]
    rfl
  -- The data is counted down to its last byte.
  have bytes : (machine side limit).Reaches
      (within side limits context done head .chunked (.bodyChunkedData (count + 1)) body
        (data ++ (crlf ++ rest)))
      (within side limits context done head .chunked .bodyChunkedDataCrlf (body ++ data)
        (crlf ++ rest)) := by
    have running : (within side limits context done head .chunked (.bodyChunkedData (count + 1))
        body (data ++ (crlf ++ rest))).halted limit = false := running_of_going going rfl rfl
    have counted := bytes_follow side .bodyChunkedData .bodyChunkedDataCrlf
      (by
        intro reader remaining byte rest running phase buf
        simp [step, running, phase, buf])
      count running rfl le_rfl (by simp [within, size])
    rw [if_pos rfl] at counted
    have same : (within side limits context done head .chunked (.bodyChunkedData (count + 1))
        body (data ++ (crlf ++ rest))).afterBytes (count + 1) .bodyChunkedDataCrlf =
        within side limits context done head .chunked .bodyChunkedDataCrlf (body ++ data)
          (crlf ++ rest) := by
      simp [afterBytes, within, ← size]
    rwa [same] at counted
  have ended := reads_chunkEnd limits context side going head (body ++ data) rest
  have whole := (sized.trans bytes).trans ended
  simpa only [List.append_assoc] using whole

/-- The last chunk and the empty trailer section complete the message. -/
theorem reads_lastChunk (side : Side Head Context) (going : Decoder.Going limit done) (head : Head)
    (body rest : Bytes) (short : 1 ≤ limits.maxChunkLineSize) :
    (machine side limit).Reaches
      (within side limits context done head .chunked .bodyChunkedSize body
        (Utf8.encode "0\r\n\r\n".toList ++ rest))
      (ready limits (side.nextContext context) (done ++ [⟨head, .chunked, body, []⟩]) rest) := by
  -- The size line says that no data follows.
  have sized : (machine side limit).Reaches
      (within side limits context done head .chunked .bodyChunkedSize body
        (writeHexUsize 0 ++ crlf ++ (crlf ++ rest)))
      (within side limits context done head .chunked .chunkedTrailer body (crlf ++ rest)) := by
    have running : (within side limits context done head .chunked .bodyChunkedSize body
        (writeHexUsize 0 ++ crlf ++ (crlf ++ rest))).halted limit = false :=
      running_of_going going rfl rfl
    have split := splitLine_crlf (writeHexUsize 0) (writeHexUsize_plain _) (crlf ++ rest)
    have parsed := parseChunkSize_write limits (Nat.zero_le _) short
    refine Incremental.Reaches.single ((step_chunkSize side running rfl split).trans ?_)
    simp [BodyState.chunkSizeLine, within, parsed, afterBody]
  -- The empty line after it ends the trailer section before a field was read.
  have trailed : (machine side limit).Reaches
      (within side limits context done head .chunked .chunkedTrailer body (crlf ++ rest))
      (within side limits context done head .chunked .complete body rest) := by
    have running : (within side limits context done head .chunked .chunkedTrailer body
        (crlf ++ rest)).halted limit = false := running_of_going going rfl rfl
    have split := splitLine_crlf [] (by simp) rest
    refine Incremental.Reaches.single ?_
    rw [List.nil_append] at split
    exact (step_trailer side running rfl split).trans rfl
  have whole := (sized.trans trailed).trans (reads_end limits context side going body rest)
  have bytes : Utf8.encode "0\r\n\r\n".toList ++ rest =
      writeHexUsize 0 ++ crlf ++ (crlf ++ rest) := rfl
  rwa [bytes]

/-- Chunks with data and the last chunk are read as one body. -/
theorem reads_chunks (side : Side Head Context) (going : Decoder.Going limit done) (head : Head)
    (chunks : List Bytes) (body rest : Bytes) (present : ∀ data ∈ chunks, data ≠ [])
    (short : ∀ data ∈ chunks,
      (writeHexUsize data.length).length ≤ limits.maxChunkLineSize)
    (last : 1 ≤ limits.maxChunkLineSize) (fits : body.length + chunks.flatten.length ≤ usizeMax)
    (allowed : body.length + chunks.flatten.length ≤ limits.maxBodySize) :
    (machine side limit).Reaches
      (within side limits context done head .chunked .bodyChunkedSize body
        (encodeChunks chunks ++ rest))
      (ready limits (side.nextContext context)
        (done ++ [⟨head, .chunked, body ++ chunks.flatten, []⟩]) rest) := by
  -- The first chunk leaves the same situation with a longer body and fewer chunks.
  induction chunks generalizing body with
  | nil => simpa [encodeChunks] using reads_lastChunk limits context side going head body rest last
  | cons data chunks ih =>
    simp only [List.flatten_cons, List.length_append] at fits allowed
    have first := reads_chunk limits context side going head body (present data (by simp))
      (encodeChunks chunks ++ rest) (short data (by simp)) (by omega) (by omega)
    have later := ih (body ++ data) (fun other inside => present other (by simp [inside]))
      (fun other inside => short other (by simp [inside]))
      (by simp only [List.length_append]; omega) (by simp only [List.length_append]; omega)
    have bytes : encodeChunks (data :: chunks) ++ rest = writeHexUsize data.length ++ crlf ++
        data ++ crlf ++ (encodeChunks chunks ++ rest) := by
      simp [encodeChunks]
    rw [bytes, List.flatten_cons, ← List.append_assoc body]
    exact first.trans later

end Reader

end Http11

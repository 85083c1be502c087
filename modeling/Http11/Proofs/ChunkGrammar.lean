import Http11.Proofs.Decoder.SizeLine
import Http11.Proofs.Decoder.Trailers

/-! The decoder completes what the grammar of a body in chunks generates, but for some spaces. -/

namespace Http11

/-- A text with a token and a colon in front is a text behind these. -/
theorem text_of_field {name text : Str} {content : Bytes} (token : isToken name = true)
    (same : Utf8.encode name ++ 0x3A :: content = Utf8.encode text) :
    ∃ rest, text = name ++ ':' :: rest ∧ Utf8.encode rest = content := by
  -- The token and the colon are ASCII, so they are in front of the characters as well.
  have ascii : ∀ char ∈ name ++ [':'], char.toNat < 0x80 := by
    intro char inside
    simp only [isToken, Bool.and_eq_true] at token
    rcases List.mem_append.mp inside with named | colon
    · exact (ascii_of_encode_all isTokenChar_narrow token.2 char named).1
    · rw [List.mem_singleton.mp colon]
      decide
  have colon : Utf8.encode (name ++ [':']) = Utf8.encode name ++ [0x3A] := by
    rw [Utf8.encode_append]
    rfl
  obtain ⟨rest, rfl⟩ := (Utf8.encode_prefix_iff ascii).mp
    ⟨content, show Utf8.encode (name ++ [':']) ++ content = Utf8.encode text by
      rw [← same, colon, List.append_assoc]; rfl⟩
  refine ⟨rest, by simp, ?_⟩
  rw [Utf8.encode_append, colon, List.append_assoc] at same
  exact (List.cons.inj (List.append_cancel_left same)).2.symm

/-- A generated line that is a text is what the decoder reads as a field that may stand there. -/
theorem isTrailerField_iff (headers : Headers) (line : Bytes) :
    IsTrailerField headers line ∧ IsTextLine line ↔ ∃ field, IsTrailer headers line field := by
  constructor
  · rintro ⟨⟨name, content, token, valid, rfl, announced, allowed⟩, text, same⟩
    obtain ⟨rest, rfl, rfl⟩ := text_of_field token same
    refine ⟨(name, trimOws rest), ⟨_, ?_, parseHeaderLine_parts token (List.all_eq_true.mpr valid)⟩,
      announced, allowed⟩
    rw [same]
    exact lineText_encode _
  · rintro ⟨⟨name, value⟩, ⟨text, decoded, parsed⟩, announced, allowed⟩
    obtain ⟨content, rfl, _, token, valid⟩ := parseHeaderLine_split parsed
    -- The line is the one that the text is encoded to.
    unfold lineText at decoded
    split at decoded <;> cases decoded
    rename_i read
    obtain rfl := Utf8.decode_iff.mp read
    refine ⟨⟨name, Utf8.encode content, token, List.all_eq_true.mp valid, ?_, announced, allowed⟩,
      _, rfl⟩
    rw [Utf8.encode_append]
    rfl

/-- Trailer lines are generated texts exactly when each is read as a field. -/
theorem isTrailerFields_iff {headers : Headers} {lines : List Bytes} :
    (∀ line ∈ lines, IsTrailerField headers line ∧ IsTextLine line) ↔
      ∃ fields, List.Forall₂ (IsTrailer headers) lines fields := by
  -- The lines are read one by one, each as its own field.
  induction lines with
  | nil => exact ⟨fun _ => ⟨[], .nil⟩, by simp⟩
  | cons line lines ih =>
    rw [List.forall_mem_cons, ih, isTrailerField_iff]
    constructor
    · rintro ⟨⟨field, trailer⟩, fields, trailers⟩
      exact ⟨field :: fields, .cons trailer trailers⟩
    · rintro ⟨_, _ | ⟨trailer, trailers⟩⟩
      exact ⟨⟨_, trailer⟩, _, trailers⟩

/-- A trailer line is a line, and not the empty one that ends the section. -/
theorem IsTrailerField.isTrailerLine {headers : Headers} {line : Bytes}
    (trailer : IsTrailerField headers line) : IsTrailerLine line := by
  obtain ⟨name, content, token, valid, rfl, _⟩ := trailer
  exact isTrailerLine_bytes token valid

namespace ChunkedBody

/-- A size line, with or without spaces and tabs behind its extensions. -/
def isLenient (line : Bytes) (size : Nat) : Prop := IsSizeLine line size ∨ IsPaddedSizeLine line size

/-- A chunk that the decoder reads. -/
def IsRead (chunk : Bytes × Bytes) : Prop :=
  chunk.2 ≠ [] ∧ IsLine chunk.1 ∧ parseChunkSize .unlimited chunk.1 = .ok chunk.2.length

/-- A body in chunks whose size lines the decoder reads. -/
structure Parses (body : ChunkedBody) : Prop where
  /-- The size lines of its chunks. -/
  chunks : ∀ chunk ∈ body.chunks, IsRead chunk
  /-- The size line of the last chunk. -/
  last : IsLine body.last ∧ parseChunkSize .unlimited body.last = .ok 0

/-- The first size line is split off. -/
theorem splitLine_chunk {chunk : Bytes × Bytes} (plain : IsLine chunk.1)
    (chunks : List (Bytes × Bytes)) (rest : Bytes) :
    splitLine ((chunk :: chunks).flatMap chunkBytes ++ rest) =
      some (chunk.1, chunk.2 ++ (crlf ++ (chunks.flatMap chunkBytes ++ rest))) := by
  have split := splitLine_plain plain (chunk.2 ++ (crlf ++ (chunks.flatMap chunkBytes ++ rest)))
  simpa [chunkBytes, List.append_assoc] using split

/-- What is one of some parts is no longer than all of them. -/
theorem length_le_flatMap {Part : Type} {parts : List Part} {part : Part} (inside : part ∈ parts)
    (bytes : Part → Bytes) : (bytes part).length ≤ (parts.flatMap bytes).length := by
  obtain ⟨before, after, rfl⟩ := List.append_of_mem inside
  simp only [List.flatMap_append, List.flatMap_cons, List.length_append]
  omega

/-- Of a body that fits a machine word the decoder reads the size lines that are generated. -/
theorem isGenerated_iff {headers : Headers} {body : ChunkedBody}
    (fits : body.bytes.length ≤ usizeMax) : body.IsGenerated isLenient headers ↔
      body.Parses ∧ ∀ line ∈ body.trailers, IsTrailerField headers line := by
  simp only [bytes, List.length_append] at fits
  -- Each line and the data of each chunk are within the word.
  have chunkFits : ∀ chunk ∈ body.chunks,
      chunk.1.length ≤ usizeMax ∧ chunk.2.length ≤ usizeMax := by
    intro chunk inside
    have part := length_le_flatMap inside chunkBytes
    simp only [chunkBytes, List.length_append] at part
    omega
  have size : ∀ {line : Bytes} {size : Nat}, line.length ≤ usizeMax → size ≤ usizeMax →
      (isLenient line size ↔ IsLine line ∧ parseChunkSize .unlimited line = .ok size) := by
    intro line size short small
    rw [parseChunkSize_iff short]
    exact ⟨fun isSize => ⟨isLine_of_size isSize, isSize, small⟩, fun read => read.2.1⟩
  have last := @size body.last 0 (by omega) (Nat.zero_le _)
  constructor
  · rintro ⟨chunks, lastSize, trailers⟩
    refine ⟨⟨fun chunk inside => ?_, last.mp lastSize⟩, trailers⟩
    obtain ⟨present, isSize⟩ := chunks chunk inside
    obtain ⟨short, small⟩ := chunkFits chunk inside
    exact ⟨present, (size short small).mp isSize⟩
  · rintro ⟨⟨chunks, lastRead⟩, trailers⟩
    refine ⟨fun chunk inside => ?_, last.mpr lastRead, trailers⟩
    obtain ⟨present, read⟩ := chunks chunk inside
    obtain ⟨short, small⟩ := chunkFits chunk inside
    exact ⟨present, (size short small).mpr read⟩

/-- The size lines in front of some bytes are read in one way only, and so is what follows them. -/
theorem sizeLines_unique {chunks others : List (Bytes × Bytes)} {last otherLast rest more : Bytes}
    (read : ∀ chunk ∈ chunks, IsRead chunk) (otherRead : ∀ chunk ∈ others, IsRead chunk)
    (ends : IsLine last ∧ parseChunkSize .unlimited last = .ok 0)
    (otherEnds : IsLine otherLast ∧ parseChunkSize .unlimited otherLast = .ok 0)
    (same : chunks.flatMap chunkBytes ++ (last ++ crlf ++ rest) =
      others.flatMap chunkBytes ++ (otherLast ++ crlf ++ more)) :
    chunks.map Prod.fst ++ [last] = others.map Prod.fst ++ [otherLast] ∧ rest = more := by
  have front := congrArg splitLine same
  -- The last chunk has no data, and no other chunk has none.
  have apart : ∀ {chunk : Bytes × Bytes} {line : Bytes}, IsRead chunk →
      parseChunkSize .unlimited line = .ok 0 → chunk.1 ≠ line := by
    rintro chunk line ⟨present, _, size⟩ empty rfl
    rw [empty] at size
    exact present (List.length_eq_zero_iff.mp (Except.ok.inj size).symm)
  induction chunks generalizing others with
  | nil =>
    rw [show ([] : List (Bytes × Bytes)).flatMap chunkBytes = [] from rfl, List.nil_append,
      splitLine_plain ends.1] at front
    cases others with
    | nil =>
      rw [show ([] : List (Bytes × Bytes)).flatMap chunkBytes = [] from rfl, List.nil_append,
        splitLine_plain otherEnds.1] at front
      cases front
      exact ⟨rfl, rfl⟩
    | cons chunk others =>
      have isRead := otherRead chunk List.mem_cons_self
      rw [splitLine_chunk isRead.2.1] at front
      cases front
      exact absurd rfl (apart isRead ends.2)
  | cons chunk chunks ih =>
    have isRead := read chunk List.mem_cons_self
    rw [splitLine_chunk isRead.2.1] at front
    cases others with
    | nil =>
      rw [show ([] : List (Bytes × Bytes)).flatMap chunkBytes = [] from rfl, List.nil_append,
        splitLine_plain otherEnds.1] at front
      cases front
      exact absurd rfl (apart isRead otherEnds.2)
    | cons other others =>
      have otherIsRead := otherRead other List.mem_cons_self
      rw [splitLine_chunk otherIsRead.2.1] at front
      simp only [Option.some.injEq, Prod.mk.injEq] at front
      obtain ⟨line, rests⟩ := front
      -- The same size line has the same size, so the data are of one length.
      have sizes := isRead.2.2
      rw [line, otherIsRead.2.2] at sizes
      obtain ⟨_, behind⟩ := List.append_inj rests (Except.ok.inj sizes).symm
      have later := ih (fun chunk inside => read chunk (List.mem_cons_of_mem _ inside))
        (fun chunk inside => otherRead chunk (List.mem_cons_of_mem _ inside))
        (List.append_cancel_left behind) (congrArg splitLine (List.append_cancel_left behind))
      rw [List.map_cons, List.map_cons, List.cons_append, List.cons_append, line, later.1]
      exact ⟨rfl, later.2⟩

/-- The trailer lines of the same bytes are the same ones. -/
theorem trailers_subset {headers : Headers} {body other : ChunkedBody} (parses : body.Parses)
    (otherParses : other.Parses) (trailers : ∀ line ∈ body.trailers, IsTrailerField headers line)
    (otherTrailers : ∀ line ∈ other.trailers, IsTrailerField headers line)
    (same : body.bytes = other.bytes) : body.trailers ⊆ other.trailers := by
  intro line inside
  have sections := (sizeLines_unique parses.chunks otherParses.chunks parses.last otherParses.last
    same).2
  -- The line is found where the other body has one, or its end.
  obtain ⟨before, after, split⟩ := List.append_of_mem inside
  have next := (trailers line inside).isTrailerLine
  have earlier : ∀ line ∈ before, IsTrailerLine line := fun line listed =>
    (trailers line (by rw [split]; exact List.mem_append_left _ listed)).isTrailerLine
  have alike : other.trailers.flatMap (· ++ crlf) ++ (crlf ++ []) =
      before.flatMap (· ++ crlf) ++ (line ++ crlf ++ (after.flatMap (· ++ crlf) ++ crlf)) := by
    rw [List.append_nil, ← sections, split]
    simp only [List.flatMap_append, List.flatMap_cons, List.append_assoc]
  exact trailerLines_unique (fun line listed => (otherTrailers line listed).isTrailerLine) earlier
    next alike

/-- Whole chunks are chunks that are read, one behind the other. -/
theorem chunks_iff {bytes content : Bytes} : Chunks .unlimited bytes content ↔
    ∃ chunks : List (Bytes × Bytes), (∀ chunk ∈ chunks, IsRead chunk) ∧
      bytes = chunks.flatMap chunkBytes ∧ content = chunks.flatMap Prod.snd := by
  constructor
  · intro whole
    induction whole with
    -- The chunks are collected in the order in which they were read.
    | none => exact ⟨[], by simp, rfl, rfl⟩
    | @more line data _ _ plain parsed present _ ih =>
      obtain ⟨chunks, read, rfl, rfl⟩ := ih
      refine ⟨(line, data) :: chunks, ?_, rfl, rfl⟩
      intro chunk inside
      rcases List.mem_cons.mp inside with rfl | later
      · exact ⟨present, plain, parsed⟩
      · exact read chunk later
  · rintro ⟨chunks, read, rfl, rfl⟩
    -- Each chunk that is read is put in front of those behind it.
    induction chunks with
    | nil => exact .none
    | cons chunk chunks ih =>
      obtain ⟨present, plain, parsed⟩ := read chunk List.mem_cons_self
      exact .more plain parsed present
        (ih fun other inside => read other (List.mem_cons_of_mem _ inside))

/-- A whole message is a body whose size lines are read, with trailers that may stand there. -/
theorem of_wholeOf {headers fields : Headers} {bytes content : Bytes}
    (whole : WholeOf .unlimited headers bytes content fields) :
    ∃ body : ChunkedBody, body.Parses ∧
      (∀ line ∈ body.trailers, IsTrailerField headers line ∧ IsTextLine line) ∧
      body.bytes = bytes ∧ body.content = content := by
  obtain ⟨_, lines, ⟨_, last, chunked, plain, parsed, rfl⟩, _, rfl, fields⟩ := whole
  obtain ⟨chunks, read, rfl, rfl⟩ := chunks_iff.mp chunked
  exact ⟨⟨chunks, last, lines⟩, ⟨read, plain, parsed⟩, isTrailerFields_iff.mpr ⟨_, fields⟩,
    by simp [bytes], rfl⟩

end ChunkedBody

namespace BodyState

/-- What a decoder read of its input is a body in chunks up to where it stands. -/
theorem Reads.sound {headers : Headers} {input content : Bytes} {state : BodyState}
    (reads : Reads .unlimited (chunkedStart headers input) state content) :
    ∃ taken, input = taken ++ state.buf ∧
      (state.phase ≠ .complete ∧ state.Stands .unlimited headers taken content ∨
        state.phase = .complete ∧ ∃ fields, WholeOf .unlimited headers taken content fields) := by
  induction reads with
  -- Nothing has been taken, so the decoder stands in front of the first size line.
  | start => exact ⟨[], rfl, .inl ⟨by simp [chunkedStart], rfl, .size rfl .none rfl rfl⟩⟩
  | @call state next delivered progress len _ incomplete consumed ih =>
    obtain ⟨taken, rfl, ⟨_, stands⟩ | ⟨complete, _⟩⟩ := ih
    · obtain ⟨front, buffered, place⟩ := consumeBody_delivered stands incomplete len
      rw [consumed] at buffered place
      refine ⟨taken ++ front, by rw [buffered, List.append_assoc], ?_⟩
      -- The call has completed the body, or the decoder stands further on.
      cases progress with
      | complete trailers => exact .inr ⟨place.1, trailers, place.2.2⟩
      | advanced | needData => exact .inl place
    · exact absurd complete incomplete

/-- Calls behind other calls. -/
theorem Reads.trans {limits : DecoderLimits} {start middle state : BodyState}
    {first second : Bytes} (before : Reads limits start middle first)
    (after : Reads limits middle state second) : Reads limits start state (first ++ second) := by
  induction after with
  | start => rwa [List.append_nil]
  | call len _ incomplete consumed ih =>
    rw [← List.append_assoc]
    exact .call len ih incomplete consumed

/-- A trailer section is read up to its end. -/
theorem processTrailers_lines {headers : Headers} {lines : List Bytes} {state : BodyState}
    {rest : Bytes} (phase : state.phase = .chunkedTrailer)
    (buffered : state.buf = lines.flatMap (· ++ crlf) ++ (crlf ++ rest))
    (declared : state.bodyDecoder.declaredTrailers = collectDeclaredTrailers headers)
    (trailers : ∀ line ∈ lines, IsTrailerField headers line ∧ IsTextLine line)
    (short : ∀ line ∈ lines, line.length ≤ usizeMax)
    (few : state.bodyDecoder.trailerCount + lines.length ≤ usizeMax) :
    ∃ next, processTrailers .unlimited state = (.ok true, next) ∧ next.phase = .complete ∧
      next.buf = rest := by
  -- Each pass takes one line, and the last one the empty line.
  suffices run : ∀ advanced, ∃ next,
      (trailersLoop .unlimited).run (advanced, state) = (.ok true, next) ∧
        next.phase = .complete ∧ next.buf = rest from run false
  induction lines generalizing state with
  | nil =>
    intro advanced
    have split : splitLine state.buf = some ([], rest) := by
      rw [buffered]
      exact splitLine_plain IsLine.nil rest
    exact ⟨{ state with buf := rest, phase := .complete },
      trailersLoop_accepted advanced phase split rfl, rfl, rfl⟩
  | cons line lines ih =>
    intro advanced
    obtain ⟨field, trailer⟩ :=
      (isTrailerField_iff headers line).mp (trailers line List.mem_cons_self)
    obtain ⟨present, plain⟩ := (trailers line List.mem_cons_self).1.isTrailerLine
    have split : splitLine state.buf =
        some (line, lines.flatMap (· ++ crlf) ++ (crlf ++ rest)) := by
      rw [buffered, List.flatMap_cons, List.append_assoc]
      exact splitLine_plain plain _
    rw [List.length_cons] at few
    have kept : refusesLine .unlimited state.bodyDecoder.trailerCount line = false := by
      obtain ⟨text, decoded, _⟩ := trailer.parsed
      exact refusesLine_eq_false.mpr
        ⟨short line List.mem_cons_self, show _ < usizeMax by omega, text, decoded⟩
    have accepted := trailerLine_accepts present kept declared trailer
      (lines.flatMap (· ++ crlf) ++ (crlf ++ rest))
    rcases trailerLine_cases .unlimited state line (lines.flatMap (· ++ crlf) ++ (crlf ++ rest))
      with ⟨empty, _⟩ | ⟨_, refused, _⟩ | ⟨_, _, error, failed⟩ |
        ⟨_, _, _, name, value, _, _, _, _, read⟩
    · exact absurd empty present
    · rw [kept] at refused
      cases refused
    · rw [failed] at accepted
      cases accepted
    · rw [trailersLoop_accepted advanced phase split read, if_neg (by simp [phase])]
      refine ih ?_ ?_ ?_ (fun line inside => trailers line (List.mem_cons_of_mem _ inside))
        (fun line inside => short line (List.mem_cons_of_mem _ inside)) ?_ true
      · exact phase
      · rfl
      · exact declared
      · change state.bodyDecoder.trailerCount + 1 + lines.length ≤ usizeMax
        omega

open ChunkedBody in
/-- A chunk is read by a call for its size line and another one for its data. -/
theorem reads_chunk {chunk : Bytes × Bytes} {state : BodyState} {rest : Bytes}
    (isRead : IsRead chunk) (phase : state.phase = .bodyChunkedSize)
    (buffered : state.buf = chunkBytes chunk ++ rest)
    (fits : state.bodyDecoder.bodyConsumed + chunk.2.length ≤ usizeMax) :
    Reads .unlimited state
      { buf := rest
        phase := .bodyChunkedSize
        bodyDecoder := { state.bodyDecoder with
          bodyConsumed := state.bodyDecoder.bodyConsumed + chunk.2.length } } chunk.2 := by
  obtain ⟨line, data⟩ := chunk
  obtain ⟨present, plain, parsed⟩ := isRead
  dsimp only at present plain parsed fits ⊢
  have some : data.length ≠ 0 := fun none => present (List.eq_nil_of_length_eq_zero none)
  have sum : checkedAdd state.bodyDecoder.bodyConsumed data.length =
      .some (state.bodyDecoder.bodyConsumed + data.length) := if_pos fits
  -- The size line is taken off the buffer.
  have split : splitLine state.buf = .some (line, data ++ (crlf ++ rest)) := by
    rw [buffered]
    simpa [chunkBytes, List.append_assoc] using splitLine_plain plain (data ++ (crlf ++ rest))
  have sized : chunkSizeLine .unlimited state line (data ++ (crlf ++ rest)) = (.ok (),
      { state with buf := data ++ (crlf ++ rest), phase := .bodyChunkedData data.length }) := by
    have allowed : ¬ DecoderLimits.unlimited.maxBodySize <
        state.bodyDecoder.bodyConsumed + data.length := Nat.not_lt.mpr fits
    simp only [chunkSizeLine, parsed, if_neg some, sum, if_neg allowed]
  have first : consumeBody .unlimited 0 state = (.ok .advanced,
      { state with buf := data ++ (crlf ++ rest), phase := .bodyChunkedData data.length }) := by
    simp [consumeBody, phase, processChunkedSize, split, sized]
  have shown : state.offered 0 = [] := by simp [offered]
  have middle := Reads.call 0 .start (by simp [phase]) first
  rw [shown, List.nil_append] at middle
  -- All of the data is offered, and its line end goes with it.
  have second : consumeBody .unlimited data.length
      { state with buf := data ++ (crlf ++ rest), phase := .bodyChunkedData data.length } =
        (.ok .advanced,
          { buf := rest
            phase := .bodyChunkedSize
            bodyDecoder := { state.bodyDecoder with
              bodyConsumed := state.bodyDecoder.bodyConsumed + data.length } }) := by
    have buffered : ¬ (data ++ (crlf ++ rest)).length < data.length := by
      rw [List.length_append]
      omega
    simp only [consumeBody, if_neg (Nat.lt_irrefl _), if_neg buffered, if_neg some, addConsumed,
      sum, Nat.sub_self, if_true, List.drop_left]
    rfl
  have offers : ({ state with
      buf := data ++ (crlf ++ rest)
      phase := .bodyChunkedData data.length } : BodyState).offered data.length = data := by
    simp [offered, peekBody, present]
  have last := Reads.call data.length middle (by simp) second
  rwa [offers, List.nil_append] at last

/-- There are no more lines than bytes in them. -/
theorem length_le_lines (lines : List Bytes) :
    lines.length ≤ (lines.flatMap (· ++ crlf)).length := by
  induction lines with
  | nil => simp
  | cons line lines ih =>
    have ends : 0 < crlf.length := by decide
    simp only [List.flatMap_cons, List.length_append, List.length_cons]
    omega

/-- The last chunk and the trailer section are read by one call, which completes the body. -/
theorem reads_last {headers : Headers} {last : Bytes} {lines : List Bytes} {state : BodyState}
    {rest : Bytes} (ends : IsLine last ∧ parseChunkSize .unlimited last = .ok 0)
    (trailers : ∀ line ∈ lines, IsTrailerField headers line ∧ IsTextLine line)
    (phase : state.phase = .bodyChunkedSize)
    (buffered : state.buf = last ++ crlf ++ (lines.flatMap (· ++ crlf) ++ (crlf ++ rest)))
    (declared : state.bodyDecoder.declaredTrailers = collectDeclaredTrailers headers)
    (fits : state.bodyDecoder.trailerCount + (lines.flatMap (· ++ crlf)).length ≤ usizeMax) :
    ∃ next, Reads .unlimited state next [] ∧ next.phase = .complete ∧ next.buf = rest := by
  have split : splitLine state.buf = some (last, lines.flatMap (· ++ crlf) ++ (crlf ++ rest)) := by
    rw [buffered]
    exact splitLine_plain ends.1 _
  have sized : chunkSizeLine .unlimited state last (lines.flatMap (· ++ crlf) ++ (crlf ++ rest)) =
      (.ok (), { state with
        buf := lines.flatMap (· ++ crlf) ++ (crlf ++ rest), phase := .chunkedTrailer }) := by
    simp only [chunkSizeLine, ends.2, if_true]
  -- A line is shorter than the section, and the section has no more lines than bytes.
  have short : ∀ line ∈ lines, line.length ≤ usizeMax := by
    intro line inside
    have part := ChunkedBody.length_le_flatMap inside (· ++ crlf)
    simp only [List.length_append] at part
    omega
  have few := length_le_lines lines
  obtain ⟨next, processed, complete, left⟩ : ∃ next, processTrailers .unlimited { state with
      buf := lines.flatMap (· ++ crlf) ++ (crlf ++ rest), phase := .chunkedTrailer } =
        (.ok true, next) ∧ next.phase = .complete ∧ next.buf = rest :=
    processTrailers_lines rfl rfl declared trailers short (by dsimp only; omega)
  have call : consumeBody .unlimited 0 state = takeTrailers next := by
    simp [consumeBody, phase, processChunkedSize, split, sized, processed, complete]
  have shown : state.offered 0 = [] := by simp [offered]
  have read := Reads.call 0 .start (by simp [phase]) call
  rw [shown, List.nil_append] at read
  exact ⟨_, read, complete, left⟩

open ChunkedBody in
/-- A body whose size lines are read and whose trailers may stand there is read to its end. -/
theorem reads_body {headers : Headers} {body : ChunkedBody} {state : BodyState} {rest : Bytes}
    (parses : body.Parses)
    (trailers : ∀ line ∈ body.trailers, IsTrailerField headers line ∧ IsTextLine line)
    (phase : state.phase = .bodyChunkedSize) (buffered : state.buf = body.bytes ++ rest)
    (declared : state.bodyDecoder.declaredTrailers = collectDeclaredTrailers headers)
    (fits : state.bodyDecoder.bodyConsumed + state.bodyDecoder.trailerCount + body.bytes.length ≤
      usizeMax) :
    ∃ next, Reads .unlimited state next body.content ∧ next.phase = .complete ∧
      next.buf = rest := by
  obtain ⟨chunks, last, lines⟩ := body
  obtain ⟨isRead, ends⟩ := parses
  dsimp only at isRead ends trailers
  induction chunks generalizing state with
  | nil =>
    refine reads_last ends trailers phase (by simpa [bytes] using buffered) declared ?_
    simp only [bytes, List.length_append] at fits
    omega
  | cons chunk chunks ih =>
    -- What a chunk adds to the bytes that are counted leaves the buffer with it.
    have more : bytes ⟨chunk :: chunks, last, lines⟩ =
        chunkBytes chunk ++ bytes ⟨chunks, last, lines⟩ := by
      simp [bytes]
    have room : chunk.2.length ≤ (chunkBytes chunk).length := by
      simp only [chunkBytes, List.length_append]
      omega
    rw [more, List.append_assoc] at buffered
    rw [more, List.length_append] at fits
    have first := reads_chunk (isRead chunk List.mem_cons_self) phase buffered (by omega)
    obtain ⟨next, behind, complete, left⟩ : ∃ next, Reads .unlimited
        { buf := bytes ⟨chunks, last, lines⟩ ++ rest
          phase := .bodyChunkedSize
          bodyDecoder := { state.bodyDecoder with
            bodyConsumed := state.bodyDecoder.bodyConsumed + chunk.2.length } } next
        (content ⟨chunks, last, lines⟩) ∧ next.phase = .complete ∧ next.buf = rest :=
      ih rfl declared rfl (by dsimp only; omega)
        fun other inside => isRead other (List.mem_cons_of_mem _ inside)
    exact ⟨next, first.trans behind, complete, left⟩

/--
The decoder completes what is generated, also with spaces and tabs behind extensions.

It does so where the trailer lines are texts.
-/
theorem completes_iff {headers : Headers} {front rest content : Bytes}
    (fits : (front ++ rest).length ≤ usizeMax) : Completes headers (front ++ rest) content rest ↔
      ∃ body : ChunkedBody, body.IsGenerated ChunkedBody.isLenient headers ∧
        (∀ line ∈ body.trailers, IsTextLine line) ∧ body.bytes = front ∧
          body.content = content := by
  rw [List.length_append] at fits
  constructor
  · rintro ⟨state, reads, complete, rfl⟩
    -- What was taken is the front, as the rest is what is left.
    obtain ⟨taken, same, ⟨incomplete, _⟩ | ⟨_, fields, whole⟩⟩ := reads.sound
    · exact absurd complete incomplete
    · obtain rfl := List.append_cancel_right same
      obtain ⟨body, parses, trailers, rfl, shown⟩ := ChunkedBody.of_wholeOf whole
      exact ⟨body, (ChunkedBody.isGenerated_iff (by omega)).mpr
        ⟨parses, fun line inside => (trailers line inside).1⟩,
        fun line inside => (trailers line inside).2, rfl, shown⟩
  · -- A generated body is read with the limits that are so large that they never matter.
    rintro ⟨body, generated, texts, rfl, rfl⟩
    obtain ⟨parses, trailers⟩ := (ChunkedBody.isGenerated_iff (by omega)).mp generated
    exact reads_body parses (fun line inside => ⟨trailers line inside, texts line inside⟩) rfl rfl
      rfl (by simp only [chunkedStart]; omega)

end BodyState

/-- What the grammar generates, it generates as well with spaces and tabs behind extensions. -/
theorem ChunkedBody.IsGenerated.lenient {headers : Headers} {body : ChunkedBody}
    (generated : body.IsGenerated IsSizeLine headers) : body.IsGenerated isLenient headers :=
  ⟨fun chunk inside => (generated.chunks chunk inside).imp_right .inl, .inl generated.last,
    generated.trailers⟩

/-- What the grammar generates has no spaces or tabs behind the extensions of its size lines. -/
theorem IsPaddedBody.not_isChunkedBody {headers : Headers} {bytes content : Bytes}
    (padded : IsPaddedBody headers bytes content) (fits : bytes.length ≤ usizeMax) :
    ¬ IsChunkedBody headers bytes content := by
  obtain ⟨body, generated, ⟨line, inside, size, isPadded⟩, _, rfl, _⟩ := padded
  rintro ⟨other, plain, same, _⟩
  -- The bytes are read in one way, so the line is a size line of the other body as well.
  have parses := ((ChunkedBody.isGenerated_iff fits).mp generated).1
  have otherParses := ((ChunkedBody.isGenerated_iff (by rwa [same])).mp plain.lenient).1
  have lines : body.sizeLines = other.sizeLines :=
    (ChunkedBody.sizeLines_unique parses.chunks otherParses.chunks parses.last otherParses.last
      same.symm).1
  rw [lines] at inside
  rcases List.mem_append.mp inside with earlier | last
  · obtain ⟨chunk, listed, rfl⟩ := List.mem_map.mp earlier
    exact isPadded.not_isSizeLine (plain.chunks chunk listed).2
  · rw [List.mem_singleton.mp last] at isPadded
    exact isPadded.not_isSizeLine plain.last

/-- Bytes with a trailer line that is not a text are no body whose trailer lines are texts. -/
theorem IsUntextualBody.not_texts {headers : Headers} {bytes content : Bytes}
    (untextual : IsUntextualBody headers bytes content) (fits : bytes.length ≤ usizeMax)
    {other : ChunkedBody} (generated : other.IsGenerated ChunkedBody.isLenient headers)
    (same : other.bytes = bytes) : ¬ ∀ line ∈ other.trailers, IsTextLine line := by
  obtain ⟨body, plain, ⟨line, inside, raw⟩, rfl, _⟩ := untextual
  obtain ⟨parses, trailers⟩ := (ChunkedBody.isGenerated_iff fits).mp plain.lenient
  obtain ⟨otherParses, otherTrailers⟩ :=
    (ChunkedBody.isGenerated_iff (by rwa [same])).mp generated
  -- The line is a trailer line of the other body as well.
  have listed := ChunkedBody.trailers_subset parses otherParses trailers otherTrailers same.symm
  exact fun texts => raw (texts line (listed inside))

/-- Of a body whose size lines may be padded, either one of them is or none. -/
theorem isChunkedBody_or_isPaddedBody {headers : Headers} {body : ChunkedBody}
    (generated : body.IsGenerated ChunkedBody.isLenient headers)
    (texts : ∀ line ∈ body.trailers, IsTextLine line) :
    IsChunkedBody headers body.bytes body.content ∨
      IsPaddedBody headers body.bytes body.content := by
  -- One padded size line is enough to make the body a padded one.
  by_cases padded : ∃ line ∈ body.sizeLines, ∃ size, IsPaddedSizeLine line size
  · exact .inr ⟨body, generated, padded, texts, rfl, rfl⟩
  · have plain : ∀ line ∈ body.sizeLines, ∀ size, ChunkedBody.isLenient line size →
        IsSizeLine line size := fun line inside size isSize =>
      isSize.resolve_right fun isPadded => padded ⟨line, inside, size, isPadded⟩
    refine .inl ⟨body, ⟨fun chunk inside => ?_, ?_, generated.trailers⟩, rfl, rfl⟩
    · exact (generated.chunks chunk inside).imp_right
        (plain chunk.1 (List.mem_append_left _ (List.mem_map_of_mem inside)) _)
    · exact plain body.last (List.mem_append_right _ List.mem_cons_self) 0 generated.last

/-- A body with a padded size line is completed, and not generated. -/
theorem IsPaddedBody.not_readsGrammar {headers : Headers} {front rest content : Bytes}
    (padded : IsPaddedBody headers front content) (fits : (front ++ rest).length ≤ usizeMax) :
    ¬ ReadsGrammar headers front rest content := by
  have short : front.length ≤ usizeMax := by
    rw [List.length_append] at fits
    omega
  have apart := padded.not_isChunkedBody short
  obtain ⟨body, generated, _, whole⟩ := padded
  intro same
  -- The decoder completes it, and by the grammar it would be generated.
  exact apart (same.mp ((BodyState.completes_iff fits).mpr ⟨body, generated, whole⟩))

/-- A body with a trailer line that is not a text is generated, and not completed. -/
theorem IsUntextualBody.not_readsGrammar {headers : Headers} {front rest content : Bytes}
    (untextual : IsUntextualBody headers front content)
    (fits : (front ++ rest).length ≤ usizeMax) : ¬ ReadsGrammar headers front rest content := by
  have short : front.length ≤ usizeMax := by
    rw [List.length_append] at fits
    omega
  intro same
  have generated : IsChunkedBody headers front content := by
    obtain ⟨body, plain, _, whole⟩ := untextual
    exact ⟨body, plain, whole⟩
  obtain ⟨other, lenient, texts, bytes, _⟩ :=
    (BodyState.completes_iff fits).mp (same.mpr generated)
  -- The grammar generates it, and the decoder would have to find texts in it.
  exact untextual.not_texts short lenient bytes texts

/-- The decoder completes what the grammar generates, but for padded size lines and for trailer
lines that are not texts. -/
theorem readsGrammar_iff (headers : Headers) (front rest content : Bytes)
    (fits : (front ++ rest).length ≤ usizeMax) :
    ReadsGrammar headers front rest content ↔
      ¬ IsPaddedBody headers front content ∧ ¬ IsUntextualBody headers front content := by
  constructor
  · exact fun same => ⟨fun padded => padded.not_readsGrammar fits same,
      fun untextual => untextual.not_readsGrammar fits same⟩
  · rintro ⟨plain, textual⟩
    -- Both exceptions are ruled out, one for each direction.
    rw [ReadsGrammar, BodyState.completes_iff fits]
    constructor
    · rintro ⟨body, generated, texts, rfl, rfl⟩
      exact (isChunkedBody_or_isPaddedBody generated texts).resolve_right plain
    · rintro ⟨body, generated, whole⟩
      refine ⟨body, generated.lenient, fun line inside => ?_, whole⟩
      by_contra raw
      exact textual ⟨body, generated, ⟨line, inside, raw⟩, whole⟩

/-- A body with two chunks, extensions and a trailer is completed as the grammar generates it. -/
theorem readsGrammar_extended : ReadsGrammar [("Trailer".toList, "X".toList)]
    (Utf8.encode "3 ; a=\"b\"\r\nabc\r\n1\r\nd\r\n00;q\r\nX: y\r\n\r\n".toList) [0x5A]
    [0x61, 0x62, 0x63, 0x64] := by
  refine (readsGrammar_iff _ _ _ _ (by decide)).mpr ?_
  have first : IsSizeLine (Utf8.encode "3 ; a=\"b\"".toList) 3 := by
    refine ⟨[0x33], [Utf8.encode " ; a=\"b\"".toList], ⟨by decide, by decide, by decide⟩, ?_,
      by decide⟩
    refine List.forall_mem_singleton.mpr ⟨[0x20], [0x20], [0x61], by simp [IsBws], by simp [IsBws],
      ⟨by decide, by decide⟩, .inr ⟨[], [], [0x22, 0x62, 0x22], by simp [IsBws], by simp [IsBws],
        .inr ⟨[0x62], .plain (by decide) .none, rfl⟩, by decide⟩⟩
  have second : IsSizeLine [0x31] 1 := ⟨[0x31], [], ⟨by decide, by decide, by decide⟩, by simp, rfl⟩
  have last : IsSizeLine [0x30, 0x30, 0x3B, 0x71] 0 :=
    ⟨[0x30, 0x30], [[0x3B, 0x71]], ⟨by decide, by decide, by decide⟩, List.forall_mem_singleton.mpr
      ⟨[], [], [0x71], by simp [IsBws], by simp [IsBws], ⟨by decide, by decide⟩, .inl rfl⟩, rfl⟩
  have trailer : IsTrailerField [("Trailer".toList, "X".toList)] (Utf8.encode "X: y".toList) :=
    ⟨['X'], [0x20, 0x79], by decide, by decide, by decide, by decide, by decide⟩
  -- The bytes are generated with a trailer line that is a text, and they are read in one way.
  have generated : ChunkedBody.IsGenerated IsSizeLine [("Trailer".toList, "X".toList)]
      ⟨[(Utf8.encode "3 ; a=\"b\"".toList, [0x61, 0x62, 0x63]), ([0x31], [0x64])],
        [0x30, 0x30, 0x3B, 0x71], [Utf8.encode "X: y".toList]⟩ := by
    refine ⟨?_, last, List.forall_mem_singleton.mpr trailer⟩
    exact List.forall_mem_cons.mpr ⟨⟨by decide, first⟩,
      List.forall_mem_singleton.mpr ⟨by decide, second⟩⟩
  refine ⟨fun padded => ?_, fun untextual => ?_⟩
  · exact padded.not_isChunkedBody (by decide) ⟨_, generated, by decide, by decide⟩
  · exact untextual.not_texts (by decide) generated.lenient (by decide)
      (List.forall_mem_singleton.mpr ⟨_, rfl⟩)

/-- A space behind an extension is read, though the grammar does not generate it. -/
theorem readsGrammar_padded : ¬ ReadsGrammar []
    [0x31, 0x3B, 0x61, 0x20, 0x0D, 0x0A, 0x78, 0x0D, 0x0A, 0x30, 0x0D, 0x0A, 0x0D, 0x0A] []
    [0x78] := by
  -- The extension is a name alone, and the space behind it is padding.
  have extension : IsExtension [0x3B, 0x61] :=
    ⟨[], [], [0x61], by simp [IsBws], by simp [IsBws], ⟨by simp, by decide +kernel⟩, .inl rfl⟩
  have padded : IsPaddedSizeLine [0x31, 0x3B, 0x61, 0x20] 1 :=
    ⟨[0x31], [[0x3B, 0x61]], [0x20], ⟨by simp, by decide +kernel, rfl⟩, by simpa using extension, by simp,
      by simp [IsBws], by simp, rfl⟩
  have last : IsSizeLine [0x30] 0 := ⟨[0x30], [], ⟨by simp, by decide +kernel, rfl⟩, by simp, rfl⟩
  refine IsPaddedBody.not_readsGrammar ⟨⟨[([0x31, 0x3B, 0x61, 0x20], [0x78])], [0x30], []⟩,
    ⟨?_, .inl last, by simp⟩, ⟨_, List.mem_cons_self, 1, padded⟩, by simp, rfl, rfl⟩ (by decide)
  simpa using Or.inr padded

/-- A trailer line with a byte that is no text is generated, though the decoder refuses it. -/
theorem readsGrammar_untextual : ¬ ReadsGrammar [("Trailer".toList, "X".toList)]
    [0x30, 0x0D, 0x0A, 0x58, 0x3A, 0x20, 0xFF, 0x0D, 0x0A, 0x0D, 0x0A] [] [] := by
  have last : IsSizeLine [0x30] 0 := ⟨[0x30], [], ⟨by simp, by decide +kernel, rfl⟩, by simp, rfl⟩
  have trailer : IsTrailerField [("Trailer".toList, "X".toList)] [0x58, 0x3A, 0x20, 0xFF] :=
    ⟨['X'], [0x20, 0xFF], by decide, by decide, by decide, by decide, by decide⟩
  have raw : ¬ IsTextLine [0x58, 0x3A, 0x20, 0xFF] := by
    rintro ⟨text, same⟩
    -- The byte 0xFF stands in no encoding of a text.
    have read := Utf8.decode_encode text
    rw [← same] at read
    cases read
  exact IsUntextualBody.not_readsGrammar ⟨⟨[], [0x30], [[0x58, 0x3A, 0x20, 0xFF]]⟩,
    ⟨by simp, last, List.forall_mem_singleton.mpr trailer⟩, ⟨_, List.mem_singleton.mpr rfl, raw⟩, rfl,
    rfl⟩ (by decide)

end Http11

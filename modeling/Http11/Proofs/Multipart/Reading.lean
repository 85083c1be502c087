import Http11.FormRun
import Http11.Proofs.Multipart.Scanning

/-! A parser of forms reads what the form is, however it arrives, up to a delimiter gone wrong. -/

namespace Http11

open Searching

/-- What is found from a position on is where the rest is split. -/
theorem findBytesFrom_split {buffer needle : Bytes} (present : needle ≠ []) {start : Nat} :
    Splitting.splitFirst needle (buffer.drop start) =
      (findBytesFrom buffer start needle).map fun place =>
        ((buffer.drop start).take (place - start), buffer.drop (place + needle.length)) := by
  cases found : findBytesFrom buffer start needle with
  | none =>
    -- What is split would have been found.
    rw [Option.map_none, splitFirst_none present]
    intro place first
    exact findBytesFrom_none present found (start + place) ((isFirst_drop start).mp first)
  | some place =>
    have first := (findBytesFrom_iff present).mp found
    have behind := first.behind
    have within := first.occurs.within present
    obtain ⟨rest, stands⟩ := first.occurs
    have back : rest = buffer.drop (place + needle.length) := by
      rw [← List.drop_drop, ← stands, List.drop_left]
    have width : ((buffer.drop start).take (place - start)).length = place - start := by
      rw [List.length_take, List.length_drop]
      omega
    have there : start + (place - start) = place := Nat.add_sub_cancel' behind
    have whole : buffer.drop start =
        (buffer.drop start).take (place - start) ++ (needle ++ rest) := by
      rw [stands, ← there, ← List.drop_drop, there, List.take_append_drop]
    rw [Option.map_some, splitFirst_iff present, width, isFirst_drop, there, ← back]
    exact ⟨first, whole⟩

/-- What is left behind the padding of a delimiter. -/
theorem drop_skipWhile (kind : UInt8 → Bool) (buffer : Bytes) (position : Nat) :
    buffer.drop (skipWhile kind buffer position) = (buffer.drop position).dropWhile kind := by
  -- The bytes skipped are those that the rest begins with.
  have parts := congrArg (List.drop ((buffer.drop position).takeWhile kind).length)
    (List.takeWhile_append_dropWhile (p := kind) (l := buffer.drop position))
  rw [List.drop_left] at parts
  rw [skipWhile, ← List.drop_drop]
  exact parts.symm

/-- The line of a delimiter ends alike at a position and in the rest from there on. -/
theorem lineEnd_drop (buffer : Bytes) (position : Nat) :
    lineEnd (buffer.drop position) = match ending buffer position with
      | .waiting => .waiting
      | .line start => .line (buffer.drop start)
      | .last => .last
      | .wrong => .wrong := by
  unfold lineEnd ending twoBytes
  rw [← drop_skipWhile]
  dsimp only
  generalize skipWhile isTransportPadding buffer position = padded
  by_cases short : buffer.length < padded + 2
  · -- Fewer than two bytes are left.
    rw [if_pos short]
    have few : (buffer.drop padded).length < 2 := by
      rw [List.length_drop]
      omega
    rcases left : buffer.drop padded with _ | ⟨first, _ | ⟨second, behind⟩⟩
    · rfl
    · rfl
    · rw [left] at few
      simp only [List.length_cons] at few
      omega
  · rw [if_neg short]
    have enough : 2 ≤ (buffer.drop padded).length := by
      rw [List.length_drop]
      omega
    have next : buffer.drop (padded + 2) = (buffer.drop padded).drop 2 := by rw [List.drop_drop]
    rcases left : buffer.drop padded with _ | ⟨first, _ | ⟨second, behind⟩⟩
    · rw [left] at enough
      simp at enough
    · rw [left] at enough
      simp at enough
    · -- Both sides look at the same two bytes.
      rw [left, List.drop_succ_cons, List.drop_succ_cons, List.drop_zero] at next
      rw [List.take_succ_cons, List.take_succ_cons, List.take_zero]
      dsimp only
      by_cases line : [first, second] = crlf
      · rw [if_pos line, if_pos line]
        dsimp only
        rw [next]
      · rw [if_neg line, if_neg line]
        by_cases last : [first, second] = hyphens
        · rw [if_pos last, if_pos last]
        · rw [if_neg last, if_neg last]

/-- Where the line of a delimiter has ended does not change when more follows. -/
theorem ending_wrong_append {buffer : Bytes} {position : Nat} (within : position ≤ buffer.length)
    (wrong : ending buffer position = .wrong) (more : Bytes) :
    ending (buffer ++ more) position = .wrong := by
  have ended := (@lineEnd_append (buffer.drop position) more).2.2
  rw [lineEnd_drop, wrong, ← List.drop_append_of_le_length within, lineEnd_drop] at ended
  have same := ended rfl
  -- The answer was final for the shorter buffer, so no other one is given for the longer.
  cases found : ending (buffer ++ more) position with
  | waiting => rw [found] at same; cases same
  | line start => rw [found] at same; cases same
  | last => rw [found] at same; cases same
  | wrong => rfl

namespace MultipartParser

variable {boundary : Str} {parser next : MultipartParser} {reader : FormReader}

/-- The parser with more input. -/
def extend (parser : MultipartParser) (data : Bytes) : MultipartParser :=
  { parser with buffer := parser.buffer ++ data }

/-- A parser that answers with an error from now on, whatever follows. -/
def Stuck (parser : MultipartParser) (error : MultipartError) : Prop :=
  ∀ data, (parser.extend data).nextPart = (.error error, parser.extend data)

/-- What a parser waits for is what a reader reads next. -/
def Stands (parser : MultipartParser) (reader : FormReader) : Prop :=
  match parser.state with
  | .initial => parser.finished = false ∧ reader.phase = .preamble ∧
      reader.rest = parser.buffer.drop parser.pos
  | .inPart => parser.finished = false ∧ reader.phase = .part ∧
      reader.rest = parser.buffer.drop parser.pos
  -- The parser has left some of the padding behind.
  | .afterInnerDelimiter => parser.finished = false ∧ reader.phase = .behindPart ∧
      ∃ padding : Bytes, (∀ byte ∈ padding, isTransportPadding byte = true) ∧
        reader.rest = padding ++ parser.buffer.drop parser.pos
  | .finished => parser.finished = true ∧ reader.phase = .closed

/-- A parser that has read what a reader has read. -/
structure Reads (boundary : Str) (parser : MultipartParser) (reader : FormReader) : Prop where
  /-- It looks for the first delimiter. -/
  first : parser.firstDelimiter = dashBoundary boundary
  /-- It looks for the delimiter behind a part. -/
  inner : parser.innerDelimiter = delimiter boundary
  /-- Its positions are within what it holds. -/
  scanned : parser.Scanned
  /-- It waits for what the reader reads next. -/
  stands : parser.Stands reader

/-- What is found stays where it is when more follows. -/
theorem findBytesFrom_append {buffer needle : Bytes} (present : needle ≠ []) {start place : Nat}
    (found : findBytesFrom buffer start needle = some place) (data : Bytes) :
    findBytesFrom (buffer ++ data) start needle = some place := by
  rw [findBytesFrom_iff present] at found ⊢
  exact found.append present data

section Fields

variable (parser)

/-- Compaction keeps the first delimiter. -/
@[simp] theorem compact_firstDelimiter : parser.compact.firstDelimiter = parser.firstDelimiter := by
  unfold compact
  split <;> rfl

/-- Compaction keeps the delimiter behind a part. -/
@[simp] theorem compact_innerDelimiter : parser.compact.innerDelimiter = parser.innerDelimiter := by
  unfold compact
  split <;> rfl

/-- Compaction keeps what is waited for. -/
@[simp] theorem compact_state : parser.compact.state = parser.state := by
  unfold compact
  split <;> rfl

end Fields

/-- A parser that has refused a line stays so. -/
theorem Stuck.extend {error : MultipartError} (stuck : parser.Stuck error) (data : Bytes) :
    (parser.extend data).Stuck error := by
  -- What is fed later is fed behind what was fed before.
  intro more
  have both := stuck (data ++ more)
  have same : (parser.extend data).extend more = parser.extend (data ++ more) := by
    simp only [MultipartParser.extend, List.append_assoc]
  rw [same]
  exact both

/-- A pass that answers with an error, whatever follows, leaves the parser stuck. -/
theorem stuck_of_pass {error : MultipartError} (unfinished : parser.finished = false)
    (passes : ∀ data, (parser.extend data).pass = .inr (.error error, parser.extend data)) :
    parser.Stuck error := by
  intro data
  have going : ¬ (parser.extend data).finished = true := by
    change ¬ parser.finished = true
    rw [unfinished]
    exact Bool.false_ne_true
  rw [nextPart_eq, if_neg going, passes data]

/-- A parser that has seen what a reader has refused.

At a delimiter gone wrong it may not have handed out the part in front of it.
-/
def Refuses (parser : MultipartParser) (parts : List Part) (reader : FormReader) : Prop :=
  ∃ error, reader.phase = .refused error ∧ parser.Stuck error ∧
    (reader.parts = parts ∨ error = .invalidPart ∧ reader.parts.dropLast = parts)

/-- A parser that has handed out the parts that a reader has read, as far as it goes. -/
def Traces (boundary : Str) (parser : MultipartParser) (parts : List Part) (reader : FormReader) :
    Prop :=
  parser.Reads boundary reader ∧ reader.parts = parts ∨ parser.Refuses parts reader

/-- What a call answered, as steps of a reader: a part, or what is answered where it comes to rest. -/
def Answered (boundary : Str) (reader : FormReader) :
    Except MultipartError (Option Part) × MultipartParser → Prop
  | (.ok (some part), next) => ∃ behind, (FormReader.machine boundary).Reaches reader behind ∧
      behind.parts = reader.parts ++ [part] ∧ next.Reads boundary behind
  | (answer, next) => ∃ behind, (FormReader.machine boundary).Reaches reader behind ∧
      (FormReader.machine boundary).Settled behind ∧ behind.answer = answer ∧
      next.Traces boundary reader.parts behind

/-- Nothing is read behind what was refused. -/
theorem settled_refused {error : MultipartError} (refused : reader.phase = .refused error) :
    (FormReader.machine boundary).Settled reader := by
  change reader.step boundary = none
  rw [FormReader.step, refused]

/-- Nothing is read behind the last delimiter. -/
theorem settled_closed (closed : reader.phase = .closed) :
    (FormReader.machine boundary).Settled reader := by
  change reader.step boundary = none
  rw [FormReader.step, closed]

/-- The header lines that a position ends are the same ones when more follows. -/
theorem slice_append {buffer : Bytes} (start : Nat) {stop : Nat} (within : stop ≤ buffer.length)
    (data : Bytes) :
    ((buffer ++ data).drop start).take (stop - start) = (buffer.drop start).take (stop - start) := by
  by_cases empty : stop ≤ start
  · rw [Nat.sub_eq_zero_of_le empty, List.take_zero, List.take_zero]
  · rw [List.drop_append_of_le_length (by omega), List.take_append_of_le_length]
    rw [List.length_drop]
    omega

/-- Header lines that are refused are refused at every call. -/
theorem stuck_header (unfinished : parser.finished = false) (waits : parser.state = .inPart)
    {headerEnd : Nat} {error : MultipartError}
    (ended : findBytesFrom parser.buffer parser.pos (crlf ++ crlf) = some headerEnd)
    (refused : parsePartHeaders ((parser.buffer.drop parser.pos).take (headerEnd - parser.pos)) =
      .error error) : parser.Stuck error := by
  refine stuck_of_pass unfinished fun data => ?_
  -- The same header lines end at the same place.
  have within := headerEnd_within ((findBytesFrom_iff headerEnd_present).mp ended)
  have inBuffer : headerEnd ≤ parser.buffer.length := by omega
  have lines : ((parser.extend data).buffer.drop (parser.extend data).pos).take
      (headerEnd - (parser.extend data).pos) = _ := slice_append parser.pos inBuffer data
  have header : findBytesFrom (parser.extend data).buffer (parser.extend data).pos (crlf ++ crlf) =
      some headerEnd := findBytesFrom_append headerEnd_present ended data
  have inPart : (parser.extend data).state = .inPart := waits
  rw [pass, inPart]
  unfold passInPart
  rw [header]
  dsimp only
  rw [lines, refused]

/-- A parser with more input has searched what it had searched. -/
theorem Scanned.extend (scanned : parser.Scanned) (data : Bytes) :
    (parser.extend data).Scanned := by
  refine ⟨scanned.firstPresent, scanned.innerPresent, ?_, ?_, ?_, ?_⟩
  · have pos := scanned.posWithin
    change parser.pos ≤ (parser.buffer ++ data).length
    rw [List.length_append]
    omega
  · have offset := scanned.offsetWithin
    change parser.boundaryScanOffset ≤ (parser.buffer ++ data).length
    rw [List.length_append]
    omega
  · exact fun initial => (scanned.initial initial).append data
  · intro inPart
    -- The header lines stay where they are.
    rcases scanned.inPart inPart with nothing | ⟨headerEnd, first, searched⟩
    · exact .inl nothing
    · exact .inr ⟨headerEnd, first.append headerEnd_present data, searched.append data⟩

/-- A part whose delimiter line goes wrong is refused at every call. -/
theorem stuck_line (scanned : parser.Scanned) (unfinished : parser.finished = false)
    (waits : parser.state = .inPart) {headerEnd bodyEnd : Nat} {part : Bytes → Part}
    (ended : findBytesFrom parser.buffer parser.pos (crlf ++ crlf) = some headerEnd)
    (read : parsePartHeaders ((parser.buffer.drop parser.pos).take (headerEnd - parser.pos)) =
      .ok part)
    (found : findBytesFrom parser.buffer (headerEnd + 4) parser.innerDelimiter = some bodyEnd)
    (wrong : ending parser.buffer (bodyEnd + parser.innerDelimiter.length) = .wrong) :
    parser.Stuck .invalidPart := by
  refine stuck_of_pass unfinished fun data => ?_
  have within := headerEnd_within ((findBytesFrom_iff headerEnd_present).mp ended)
  have whole := ((findBytesFrom_iff scanned.innerPresent).mp found).occurs.within scanned.innerPresent
  have inBuffer : headerEnd ≤ parser.buffer.length := by omega
  have lines : ((parser.extend data).buffer.drop (parser.extend data).pos).take
      (headerEnd - (parser.extend data).pos) = _ := slice_append parser.pos inBuffer data
  -- Both delimiters stay where they are, and so does what is wrong behind the second one.
  have header : findBytesFrom (parser.extend data).buffer (parser.extend data).pos (crlf ++ crlf) =
      some headerEnd := findBytesFrom_append headerEnd_present ended data
  have fed := scanned.extend data
  have inPart : (parser.extend data).state = .inPart := waits
  have body := fed.resume_inPart inPart header
  change findBytesFrom (parser.buffer ++ data) (max (headerEnd + 4) parser.boundaryScanOffset)
      parser.innerDelimiter =
    findBytesFrom (parser.buffer ++ data) (headerEnd + 4) parser.innerDelimiter at body
  rw [findBytesFrom_append scanned.innerPresent found data] at body
  have inner : findBytesFrom (parser.extend data).buffer
      (max (headerEnd + 4) (parser.extend data).boundaryScanOffset)
      (parser.extend data).innerDelimiter = some bodyEnd := body
  have line := (parser.extend data).leavePart_eq (bodyEnd + parser.innerDelimiter.length)
  have stillWrong := ending_wrong_append whole wrong data
  change ending (parser.extend data).buffer _ = _ at stillWrong
  rw [stillWrong] at line
  rw [pass, inPart]
  unfold passInPart
  rw [header]
  dsimp only
  rw [lines, read]
  dsimp only
  rw [inner]
  dsimp only
  rw [show (parser.extend data).innerDelimiter = parser.innerDelimiter from rfl, line]

section Leaving

variable {part : Part} {position : Nat}
  (reads : parser.Reads boundary reader) (unfinished : parser.finished = false)
  (stepped : reader.step boundary =
    some ⟨.behindPart, reader.parts ++ [part], parser.buffer.drop position⟩)

include stepped

include reads unfinished in
/-- A part is handed out before the line of its delimiter has ended. -/
theorem answered_waiting
    (kept : (compact { parser with
      pos := skipWhile isTransportPadding parser.buffer position
      state := .afterInnerDelimiter
      boundaryScanOffset := skipWhile isTransportPadding parser.buffer position }).Scanned) :
    Answered boundary reader (.ok (some part), compact { parser with
      pos := skipWhile isTransportPadding parser.buffer position
      state := .afterInnerDelimiter
      boundaryScanOffset := skipWhile isTransportPadding parser.buffer position }) := by
  refine ⟨_, .single stepped, rfl, ?_, ?_, kept, ?_⟩
  · rw [compact_firstDelimiter]
    exact reads.first
  · rw [compact_innerDelimiter]
    exact reads.inner
  · rw [Stands, compact_state]
    refine ⟨(compact_finished _).trans unfinished, rfl, ?_⟩
    rw [compact_drop]
    -- What the parser has left behind is the padding.
    refine ⟨(parser.buffer.drop position).takeWhile isTransportPadding,
      fun byte inside => List.mem_takeWhile_imp inside, ?_⟩
    dsimp only
    rw [drop_skipWhile, List.takeWhile_append_dropWhile]

include reads unfinished in
/-- A part is handed out with the parser at the start of the next one. -/
theorem answered_line (waits : parser.state = .inPart) {start : Nat}
    (line : ending parser.buffer position = .line start)
    (kept : (compact { parser with pos := start, boundaryScanOffset := start }).Scanned) :
    Answered boundary reader
      (.ok (some part), compact { parser with pos := start, boundaryScanOffset := start }) := by
  -- The reader takes the end of the line in a step of its own.
  have moved : FormReader.step boundary
      ⟨.behindPart, reader.parts ++ [part], parser.buffer.drop position⟩ =
        some ⟨.part, reader.parts ++ [part], parser.buffer.drop start⟩ := by
    rw [FormReader.step]
    dsimp only
    rw [FormReader.endLine, lineEnd_drop, line]
  -- Two steps: over the part, then over the line behind it.
  refine ⟨_, .head stepped (.single moved), rfl, ?_, ?_, kept, ?_⟩
  · rw [compact_firstDelimiter]
    exact reads.first
  · rw [compact_innerDelimiter]
    exact reads.inner
  · -- The parser stands at the start of the next part, with the same input left as the reader.
    rw [Stands, compact_state]
    dsimp only
    rw [waits]
    refine ⟨(compact_finished _).trans unfinished, rfl, ?_⟩
    rw [compact_drop]

include reads in
/-- The last part is handed out with the parser at its end. -/
theorem answered_last (line : ending parser.buffer position = .last)
    (kept : (compact { parser.finish with boundaryScanOffset := parser.finish.pos }).Scanned) :
    Answered boundary reader
      (.ok (some part), compact { parser.finish with boundaryScanOffset := parser.finish.pos }) := by
  -- Two hyphens close the form.
  have moved : FormReader.step boundary
      ⟨.behindPart, reader.parts ++ [part], parser.buffer.drop position⟩ =
        some ⟨.closed, reader.parts ++ [part], parser.buffer.drop position⟩ := by
    rw [FormReader.step]
    dsimp only
    rw [FormReader.endLine, lineEnd_drop, line]
  refine ⟨_, .head stepped (.single moved), rfl, ?_, ?_, kept, ?_⟩
  · rw [compact_firstDelimiter]
    exact reads.first
  · rw [compact_innerDelimiter]
    exact reads.inner
  · -- A finished parser asks nothing of the input.
    rw [Stands, compact_state]
    exact ⟨compact_finished _, rfl⟩

/-- A part in front of a wrong line is not handed out, now or later. -/
theorem answered_wrong (line : ending parser.buffer position = .wrong)
    (stuck : parser.Stuck .invalidPart) :
    Answered boundary reader (.error .invalidPart, parser) := by
  have moved : FormReader.step boundary
      ⟨.behindPart, reader.parts ++ [part], parser.buffer.drop position⟩ =
        some ⟨.refused .invalidPart, reader.parts ++ [part], parser.buffer.drop position⟩ := by
    rw [FormReader.step]
    dsimp only
    rw [FormReader.endLine, lineEnd_drop, line]
  -- The reader has the part already, and the parser keeps it back.
  exact ⟨_, .head stepped (.single moved), settled_refused rfl, rfl,
    .inr ⟨_, rfl, stuck, .inr ⟨rfl, List.dropLast_concat⟩⟩⟩

end Leaving

/-- Reading a part is what a reader does with it. -/
theorem passInPart_answered (reads : parser.Reads boundary reader)
    (waits : parser.state = .inPart) : Answered boundary reader parser.passInPart := by
  have kept := reads.scanned.passInPart waits
  obtain ⟨unfinished, phase, rest⟩ : parser.finished = false ∧ reader.phase = .part ∧
      reader.rest = parser.buffer.drop parser.pos := by
    have stands := reads.stands
    rw [Stands, waits] at stands
    exact stands
  have step : reader.step boundary = reader.endPart boundary := by rw [FormReader.step, phase]
  have header := @findBytesFrom_split parser.buffer (crlf ++ crlf) headerEnd_present parser.pos
  unfold passInPart at kept ⊢
  cases ended : findBytesFrom parser.buffer parser.pos (crlf ++ crlf) with
  | none =>
    -- The header lines have not arrived.
    rw [ended] at header kept
    refine ⟨reader, .refl, ?_, by rw [FormReader.answer, phase], .inl ⟨reads, rfl⟩⟩
    change reader.step boundary = none
    rw [step, FormReader.endPart, rest, header]
    rfl
  | some headerEnd =>
    rw [ended] at header kept
    rw [Option.map_some] at header
    dsimp only at kept ⊢
    cases read : parsePartHeaders ((parser.buffer.drop parser.pos).take (headerEnd - parser.pos)) with
    | error error =>
      -- Lines that are refused are refused at every call.
      have stepped : reader.step boundary = some { reader with phase := .refused error } := by
        rw [step, FormReader.endPart, rest, header]
        dsimp only
        rw [read]
      exact ⟨_, .single stepped, settled_refused rfl, rfl,
        .inr ⟨error, rfl, stuck_header unfinished waits ended read, .inl rfl⟩⟩
    | ok part =>
      rw [read] at kept
      dsimp only at kept ⊢
      rw [reads.scanned.resume_inPart waits ended] at kept ⊢
      have body := @findBytesFrom_split parser.buffer parser.innerDelimiter
        reads.scanned.innerPresent (headerEnd + 4)
      cases found : findBytesFrom parser.buffer (headerEnd + 4) parser.innerDelimiter with
      | none =>
        -- The delimiter behind the part has not arrived.
        rw [found] at body kept
        rw [reads.inner] at body
        dsimp only at kept ⊢
        refine ⟨reader, .refl, ?_, by rw [FormReader.answer, phase],
          .inl ⟨⟨reads.first, reads.inner, kept, ?_⟩, rfl⟩⟩
        · change reader.step boundary = none
          rw [step, FormReader.endPart, rest, header]
          dsimp only
          rw [read]
          dsimp only
          rw [show headerEnd + (crlf ++ crlf).length = headerEnd + 4 from rfl, body]
          rfl
        · rw [Stands]
          dsimp only
          rw [waits]
          exact ⟨unfinished, phase, rest⟩
      | some bodyEnd =>
        rw [found] at body kept
        rw [Option.map_some, reads.inner] at body
        dsimp only at kept ⊢
        rw [leavePart_eq] at kept ⊢
        -- The reader has come to the line of the delimiter behind the part.
        have stepped : reader.step boundary = some ⟨.behindPart, reader.parts ++
            [part ((parser.buffer.drop (headerEnd + 4)).take (bodyEnd - (headerEnd + 4)))],
            parser.buffer.drop (bodyEnd + parser.innerDelimiter.length)⟩ := by
          rw [step, FormReader.endPart, rest, header, reads.inner]
          dsimp only
          rw [read]
          dsimp only
          rw [show headerEnd + (crlf ++ crlf).length = headerEnd + 4 from rfl, body]
        cases line : ending parser.buffer (bodyEnd + parser.innerDelimiter.length) with
        | waiting =>
          rw [line] at kept
          have answered := answered_waiting reads unfinished stepped kept
          exact answered
        | line start =>
          rw [line] at kept
          have answered := answered_line reads unfinished stepped waits line kept
          exact answered
        | last =>
          rw [line] at kept
          have answered := answered_last reads stepped line kept
          exact answered
        | wrong =>
          exact answered_wrong stepped line
            (stuck_line reads.scanned unfinished waits ended read found line)

/-- What a pass came to, as steps of a reader: the start of a part, or an answer. -/
def Continued (boundary : Str) (reader : FormReader) :
    MultipartParser ⊕ (Except MultipartError (Option Part) × MultipartParser) → Prop
  | .inl next => ∃ behind, (FormReader.machine boundary).Reaches reader behind ∧
      behind.parts = reader.parts ∧ next.Reads boundary behind ∧ next.state = .inPart
  | .inr answered => Answered boundary reader answered

/-- Coming to the end of a delimiter line is what a reader does there. -/
theorem endLine_continued {waiting : MultipartParser} {text : Bytes} {position : Nat}
    (reads : parser.Reads boundary reader) (unread : reader.answer = .error .incomplete)
    (step : reader.step boundary = reader.endLine text)
    (same : lineEnd text = lineEnd (parser.buffer.drop position))
    (waits : waiting.Reads boundary reader)
    (refuses : ending parser.buffer position = .wrong → parser.Stuck .invalidPart)
    (unfinished : parser.finished = false) :
    Continued boundary reader (match ending parser.buffer position with
      | .waiting => .inr (.error .incomplete, waiting)
      | .line start => .inl (parser.enter start)
      | .last => .inr (.ok none, parser.finish)
      | .wrong => .inr (.error .invalidPart, parser)) := by
  rw [lineEnd_drop] at same
  rw [FormReader.endLine, same] at step
  cases line : ending parser.buffer position with
  -- Too little has arrived to tell the end of the line: no step of the reader either.
  | waiting =>
    rw [line] at step
    exact ⟨reader, .refl, step, unread, .inl ⟨waits, rfl⟩⟩
  -- A part starts behind the line.
  | line start =>
    rw [line] at step
    exact ⟨_, .single step, rfl,
      ⟨reads.first, reads.inner, reads.scanned.enter (ending_line line).2, unfinished, rfl, rfl⟩, rfl⟩
  -- The form is over.
  | last =>
    rw [line] at step
    exact ⟨_, .single step, settled_closed rfl, rfl,
      .inl ⟨⟨reads.first, reads.inner, reads.scanned.finish, rfl, rfl⟩, rfl⟩⟩
  -- Neither a line end nor two hyphens: both refuse, and the parser does so again.
  | wrong =>
    rw [line] at step
    exact ⟨_, .single step, settled_refused rfl, rfl,
      .inr ⟨.invalidPart, rfl, refuses line, .inl rfl⟩⟩

/-- Reading up to the first part is what a reader does with it. -/
theorem passInitial_continued (reads : parser.Reads boundary reader)
    (waits : parser.state = .initial) : Continued boundary reader parser.passInitial := by
  have kept := reads.scanned.passInitial waits
  obtain ⟨unfinished, phase, rest⟩ : parser.finished = false ∧ reader.phase = .preamble ∧
      reader.rest = parser.buffer.drop parser.pos := by
    have stands := reads.stands
    rw [Stands, waits] at stands
    exact stands
  have unread : reader.answer = .error .incomplete := by rw [FormReader.answer, phase]
  have split := @findBytesFrom_split parser.buffer parser.firstDelimiter
    reads.scanned.firstPresent parser.pos
  -- The parser may look from the position on up to which it has searched.
  have resumed := reads.scanned.resume_initial waits
  rw [passInitial_eq, resumed] at kept ⊢
  cases found : findBytesFrom parser.buffer parser.pos parser.firstDelimiter with
  | none =>
    rw [found, reads.first] at split
    rw [found] at kept
    refine ⟨reader, .refl, ?_, unread, .inl ⟨⟨reads.first, reads.inner, kept, ?_⟩, rfl⟩⟩
    · change reader.step boundary = none
      rw [FormReader.step, phase]
      dsimp only
      rw [rest, split]
      rfl
    · rw [Stands]
      dsimp only
      rw [waits]
      exact ⟨unfinished, phase, rest⟩
  | some place =>
    rw [found, Option.map_some, reads.first] at split
    rw [found] at kept
    dsimp only at kept ⊢
    have step : reader.step boundary = reader.endLine
        (parser.buffer.drop (place + (dashBoundary boundary).length)) := by
      rw [FormReader.step, phase]
      dsimp only
      rw [rest, split]
    refine endLine_continued reads unread step (by rw [reads.first]) ?_ ?_ unfinished
    · -- Waiting, the parser stands where it stood.
      refine ⟨reads.first, reads.inner, ?_, ?_⟩
      · have first := (findBytesFrom_iff reads.scanned.firstPresent).mp found
        exact reads.scanned.wait_initial waits (Nat.min_le_right _ _)
          ((first.searched reads.scanned.firstPresent).shrink (Nat.le_max_left _ _)
            (Nat.min_le_left _ _))
      · rw [Stands]
        dsimp only
        rw [waits]
        exact ⟨unfinished, phase, rest⟩
    · intro wrong
      refine stuck_of_pass unfinished fun data => ?_
      -- The delimiter stays where it is, and so does what is wrong behind it.
      have within := ((findBytesFrom_iff reads.scanned.firstPresent).mp found).occurs.within
        reads.scanned.firstPresent
      have again := (reads.scanned.extend data).resume_initial waits
      have still := findBytesFrom_append reads.scanned.firstPresent found data
      change findBytesFrom (parser.extend data).buffer (parser.extend data).pos
        (parser.extend data).firstDelimiter = _ at still
      have stillWrong := ending_wrong_append within wrong data
      have initial : (parser.extend data).state = .initial := waits
      rw [pass, initial]
      dsimp only
      rw [passInitial_eq, again, still]
      dsimp only
      change (match ending (parser.buffer ++ data) (place + parser.firstDelimiter.length) with
        | .waiting => _
        | .line start => _
        | .last => _
        | .wrong => _) = _
      rw [stillWrong]

/-- Reading on behind a part is what a reader does there. -/
theorem passAfterInnerDelimiter_continued (reads : parser.Reads boundary reader)
    (waits : parser.state = .afterInnerDelimiter) :
    Continued boundary reader parser.passAfterInnerDelimiter := by
  have kept := reads.scanned.passAfterInnerDelimiter waits
  obtain ⟨unfinished, phase, padding, padded, rest⟩ : parser.finished = false ∧
      reader.phase = .behindPart ∧ ∃ padding : Bytes,
        (∀ byte ∈ padding, isTransportPadding byte = true) ∧
          reader.rest = padding ++ parser.buffer.drop parser.pos := by
    have stands := reads.stands
    rw [Stands, waits] at stands
    exact stands
  have unread : reader.answer = .error .incomplete := by rw [FormReader.answer, phase]
  have step : reader.step boundary = reader.endLine reader.rest := by rw [FormReader.step, phase]
  have same : lineEnd reader.rest = lineEnd (parser.buffer.drop parser.pos) := by
    rw [rest, lineEnd_padding padded]
  rw [passAfterInnerDelimiter_eq]
  refine endLine_continued reads unread step same ?_ ?_ unfinished
  · refine ⟨reads.first, reads.inner, ?_, ?_⟩
    · refine ⟨reads.scanned.firstPresent, reads.scanned.innerPresent,
        skipWhile_le _ reads.scanned.posWithin, reads.scanned.offsetWithin, ?_, ?_⟩
      · exact fun other => (by rw [waits] at other; cases other)
      · exact fun other => (by rw [waits] at other; cases other)
    · -- More of the padding is left behind.
      rw [Stands]
      dsimp only
      rw [waits]
      refine ⟨unfinished, phase, padding ++
        (parser.buffer.drop parser.pos).takeWhile isTransportPadding, ?_, ?_⟩
      · intro byte inside
        rcases List.mem_append.mp inside with left | right
        · exact padded byte left
        · exact List.mem_takeWhile_imp right
      · rw [rest, drop_skipWhile, List.append_assoc, List.takeWhile_append_dropWhile]
  · intro wrong
    refine stuck_of_pass unfinished fun data => ?_
    have stillWrong := ending_wrong_append reads.scanned.posWithin wrong data
    have behind : (parser.extend data).state = .afterInnerDelimiter := waits
    rw [pass, behind]
    dsimp only
    rw [passAfterInnerDelimiter_eq]
    change (match ending (parser.buffer ++ data) parser.pos with
      | .waiting => _
      | .line start => _
      | .last => _
      | .wrong => _) = _
    rw [stillWrong]

/-- An answer of a reader that has come further is an answer of the reader. -/
theorem Answered.before {behind : FormReader}
    {answered : Except MultipartError (Option Part) × MultipartParser}
    (reached : (FormReader.machine boundary).Reaches reader behind)
    (parts : behind.parts = reader.parts) (later : Answered boundary behind answered) :
    Answered boundary reader answered := by
  -- Whatever is answered, the steps up to it are those in front of it and its own.
  obtain ⟨answer, next⟩ := answered
  rcases answer with error | _ | part
  · obtain ⟨last, onward, rest⟩ := later
    exact ⟨last, reached.trans onward, parts ▸ rest⟩
  · obtain ⟨last, onward, rest⟩ := later
    exact ⟨last, reached.trans onward, parts ▸ rest⟩
  · obtain ⟨last, onward, rest⟩ := later
    exact ⟨last, reached.trans onward, parts ▸ rest⟩

/-- A call for a part is what a reader does up to its next part. -/
theorem nextPart_answered (reads : parser.Reads boundary reader) :
    Answered boundary reader parser.nextPart := by
  have stands := reads.stands
  rw [nextPart_eq]
  cases waits : parser.state with
  -- No part after the last one.
  | finished =>
    rw [Stands, waits] at stands
    rw [if_pos stands.1]
    exact ⟨reader, .refl, settled_closed stands.2, by rw [FormReader.answer, stands.2],
      .inl ⟨reads, rfl⟩⟩
  -- The preamble is passed over first, and the first part in the same call.
  | initial =>
    rw [Stands, waits] at stands
    have continued := passInitial_continued reads waits
    rw [if_neg (by rw [stands.1]; exact Bool.false_ne_true), pass, waits]
    dsimp only
    cases passed : parser.passInitial with
    | inl next =>
      rw [passed] at continued
      obtain ⟨behind, reached, parts, onward, inPart⟩ := continued
      exact (passInPart_answered onward inPart).before reached parts
    | inr answer =>
      rw [passed] at continued
      exact continued
  -- The part is the reader's next step.
  | inPart =>
    rw [Stands, waits] at stands
    rw [if_neg (by rw [stands.1]; exact Bool.false_ne_true), pass, waits]
    exact passInPart_answered reads waits
  -- The last call has stopped in the line of a delimiter.
  | afterInnerDelimiter =>
    rw [Stands, waits] at stands
    have continued := passAfterInnerDelimiter_continued reads waits
    rw [if_neg (by rw [stands.1]; exact Bool.false_ne_true), pass, waits]
    dsimp only
    cases passed : parser.passAfterInnerDelimiter with
    | inl next =>
      rw [passed] at continued
      obtain ⟨behind, reached, parts, onward, inPart⟩ := continued
      exact (passInPart_answered onward inPart).before reached parts
    | inr answer =>
      rw [passed] at continued
      exact continued

/-- More input is more input for the reader. -/
theorem Reads.extend (reads : parser.Reads boundary reader) (data : Bytes) :
    (parser.extend data).Reads boundary (reader.feed data) := by
  refine ⟨reads.first, reads.inner, reads.scanned.extend data, ?_⟩
  -- In each state the same bytes are put behind both buffers.
  have stands := reads.stands
  have same : (parser.extend data).state = parser.state := rfl
  have longer : (parser.extend data).buffer.drop (parser.extend data).pos =
      parser.buffer.drop parser.pos ++ data :=
    List.drop_append_of_le_length reads.scanned.posWithin
  have fed : (reader.feed data).rest = reader.rest ++ data := rfl
  unfold Stands at stands ⊢
  rw [same, longer, fed]
  cases waits : parser.state with
  | initial =>
    rw [waits] at stands
    exact ⟨stands.1, stands.2.1, congrArg (· ++ data) stands.2.2⟩
  | inPart =>
    rw [waits] at stands
    exact ⟨stands.1, stands.2.1, congrArg (· ++ data) stands.2.2⟩
  -- The padding has been read already, so it stands before the new bytes as before.
  | afterInnerDelimiter =>
    rw [waits] at stands
    obtain ⟨unfinished, phase, padding, padded, rest⟩ := stands
    exact ⟨unfinished, phase, padding, padded, by rw [rest, List.append_assoc]⟩
  | finished =>
    rw [waits] at stands
    exact ⟨stands.1, stands.2⟩

end MultipartParser

end Http11

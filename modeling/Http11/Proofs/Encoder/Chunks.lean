import Http11.Proofs.Encoder.Requests
import Http11.Proofs.Encoder.Responses

/-! Bodies sent in chunks arrive as they were sent, however they are cut and consumed. -/

namespace Http11

/-- The chunks are in the bytes that were written for them. -/
theorem encodeChunks_length (chunks : List Bytes) :
    chunks.flatten.length + 1 ≤ (encodeChunks chunks).length ∧
      ∀ data ∈ chunks, (writeHexUsize data.length).length ≤ (encodeChunks chunks).length := by
  -- Each chunk brings its size line, its data and two line ends.
  induction chunks with
  | nil => exact ⟨by decide, by simp⟩
  | cons data chunks ih =>
    obtain ⟨whole, each⟩ := ih
    have size : (encodeChunks (data :: chunks)).length = (writeHexUsize data.length).length + 2 +
        data.length + 2 + (encodeChunks chunks).length := by
      simp [encodeChunks, crlf]
      omega
    constructor
    · simp only [List.flatten_cons, List.length_append]
      omega
    · intro other inside
      rcases List.mem_cons.mp inside with rfl | later
      · omega
      · have bounded := each other later
        omega

/-- Chunks one after the other and the empty one are the chunks of a whole body. -/
theorem encodeChunk_flatMap {chunks : List Bytes} (present : ∀ data ∈ chunks, data ≠ []) :
    chunks.flatMap encodeChunk ++ encodeChunk [] = encodeChunks chunks := by
  have same : chunks.flatMap encodeChunk =
      chunks.flatMap fun chunk => writeHexUsize chunk.length ++ crlf ++ chunk ++ crlf := by
    refine List.flatMap_congr fun data inside => ?_
    simp [encodeChunk, present data inside]
  rw [same]
  rfl

/-- The chunks before the first empty one end there, and the others are left. -/
theorem encodeChunks_append (front back : List Bytes) :
    encodeChunks (front ++ [] :: back) = encodeChunks front ++ encodeChunks back := by
  -- The size line of an empty chunk and the two line ends are the last chunk.
  have last : writeHexUsize 0 ++ crlf ++ [] ++ crlf = Utf8.encode "0\r\n\r\n".toList := by
    decide
  rw [encodeChunks, List.flatMap_append, List.flatMap_cons, List.length_nil, last]
  simp only [encodeChunks, List.append_assoc]

/-- The body decoder on its own, behind a head with some fields. -/
def bodySide (headers : Headers) : Side Unit Unit where
  checkStartLine := fun _ => .ok ()
  missingStartLine := ""
  finishHead := fun _ _ _ _ => .ok ((), .chunked)
  headersOf := fun _ => headers
  bodyPhase := ResponseDecoder.bodyPhase
  nextContext := id

/-- The body decoder on its own is a lawful side. -/
theorem bodySide_lawful (headers : Headers) : (bodySide headers).Lawful where
  contentLength := fun _ => rfl
  chunked := rfl
  closeDelimited := .inl rfl
  none := rfl
  tunnel := rfl
  bounded := by
    intro limits context startLine fields head length finished
    -- The body on its own has no head to finish.
    cases finished

/-- A chunked body that is about to be consumed, with the bytes that are buffered. -/
def chunkedBody (headers : Headers) (buf : Bytes) : StreamRun Unit Unit where
  decoder := {
    buf
    phase := .bodyChunkedSize
    bodyDecoder := { declaredTrailers := collectDeclaredTrailers headers }
    limits := .unlimited
    context := () }
  current := some ((), .chunked)

/-- A run that traces a reader between messages has its messages, and leaves what it left. -/
theorem StreamRun.Traces.ready {Head Context : Type} {side : Side Head Context}
    {limit : Option Nat} {run : StreamRun Head Context} {limits : DecoderLimits}
    {context : Context} {done : List (Message Head)} {rest : Bytes}
    (traces : run.Traces side limit (Reader.ready limits context done rest)) :
    run.failed = none ∧ run.messages = done ∧ run.decoder.remaining = rest := by
  rcases traces with follows | lasting
  · have unfailed : run.failed = none := by
      have failed := follows.failed
      simpa [Reader.ready] using failed
    obtain ⟨_, fed, _⟩ := follows.running unfailed
    have buffered := follows.buffered
    rw [fed, List.append_nil] at buffered
    exact ⟨unfailed, follows.messages, buffered.symm⟩
  · -- Between messages no body lasts.
    have phase := lasting.phase
    cases phase

/-- Before the first message, only the call that completes it adds one. -/
theorem StreamRun.pass_complete {Head Context : Type} (side : Side Head Context) (pick : Nat → Nat)
    {run : StreamRun Head Context} (fresh : run.messages = []) :
    match pass side pick (some 1) run with
    | .inl next => next.messages ≠ [] → next.decoder.phase = .complete
    | .inr result => result.messages = [] := by
  -- A body that is complete leaves its decoder so.
  have completed : ∀ (before : StreamRun Head Context) (progress : BodyProgress),
      before.messages = [] →
      (∀ trailers, progress = .complete trailers → before.decoder.phase = .complete) →
      (before.after progress).messages ≠ [] →
      (before.after progress).decoder.phase = .complete := by
    intro before progress none phase some
    cases progress with
    | complete trailers => exact phase trailers rfl
    | advanced => exact absurd none some
    | needData => exact absurd none some
  unfold pass
  rw [if_neg (by simp [fresh])]
  cases run.current with
  | none =>
    dsimp only
    rcases run.decoder.onCore (Core.decodeHeaders side) with ⟨_ | _ | decoded, decoder⟩
    · exact fresh
    · exact fresh
    · exact fun some => absurd fresh some
  | some decoded =>
    dsimp only
    cases peeked : run.decoder.peekBody with
    | some data =>
      dsimp only
      have positive : 0 < taken pick run.calls data := by simp [taken]
      rw [Decoder.consumeBody_eq _ positive]
      rcases consumed : BodyState.consumeBody run.decoder.limits (taken pick run.calls data)
        run.decoder.toBodyState with ⟨_ | progress, state⟩
      · exact fresh
      · refine completed _ progress fresh fun trailers same => ?_
        subst same
        exact BodyState.consumeBody_complete consumed
    | none =>
      dsimp only
      rw [Decoder.progress_eq]
      rcases consumed : BodyState.consumeBody run.decoder.limits 0 run.decoder.toBodyState with
        ⟨_ | progress, state⟩
      · exact fresh
      cases progress with
      | needData => exact fresh
      | advanced => exact fun some => absurd fresh some
      | complete trailers =>
        exact completed _ _ fresh fun _ _ => BodyState.consumeBody_complete consumed

/-- Consuming stops at the first message, whose decoder is complete. -/
theorem StreamRun.loop_complete {Head Context : Type} (side : Side Head Context) (pick : Nat → Nat)
    {run : StreamRun Head Context} (fresh : run.messages = [])
    (ended : ((loop side pick (some 1)).run run).messages ≠ []) :
    ((loop side pick (some 1)).run run).decoder.phase = .complete := by
  refine (loop side pick (some 1)).run_rule (motive := fun run result =>
    (run.messages ≠ [] → run.decoder.phase = .complete) → result.messages ≠ [] →
      result.decoder.phase = .complete) ?_ ?_ run (absurd fresh) ended
  · intro run result passed before ended
    change pass side pick (some 1) run = .inr result at passed
    by_cases empty : run.messages = []
    · have returned := pass_complete side pick empty
      rw [passed] at returned
      exact absurd returned ended
    · -- Enough messages were read, so the run is returned as it is.
      have count : (1 : Nat) ≤ run.messages.length := List.length_pos_of_ne_nil empty
      rw [pass, if_pos (by simpa using count)] at passed
      cases passed
      exact before empty
  · intro run next result passed ih before
    change pass side pick (some 1) run = .inl next at passed
    by_cases empty : run.messages = []
    · have continued := pass_complete side pick empty
      rw [passed] at continued
      exact ih continued
    · have count : (1 : Nat) ≤ run.messages.length := List.length_pos_of_ne_nil empty
      rw [pass, if_pos (by simpa using count)] at passed
      cases passed

/-- A body of chunks with data is consumed whole, up to whatever follows it. -/
theorem chunkedBody_consumed (headers : Headers) (pick : Nat → Nat) {chunks : List Bytes}
    (present : ∀ data ∈ chunks, data ≠ []) {rest : Bytes}
    (fits : (encodeChunks chunks ++ rest).length ≤ usizeMax) :
    let run := (StreamRun.loop (bodySide headers) pick (some 1)).run
      (chunkedBody headers (encodeChunks chunks ++ rest))
    run.failed = none ∧ run.messages = [⟨(), .chunked, chunks.flatten, []⟩] ∧
      run.decoder.phase = .complete ∧ run.decoder.remaining = rest := by
  intro run
  obtain ⟨whole, each⟩ := encodeChunks_length chunks
  rw [List.length_append] at fits
  have going : Decoder.Going (some 1) ([] : List (Message Unit)) := by simp [Decoder.Going]
  have proper : ((chunkedBody headers (encodeChunks chunks ++ rest)).view
      (bodySide headers)).Proper (bodySide headers) := by
    refine ⟨⟨⟨(), rfl⟩, rfl, rfl⟩, ?_⟩
    intro head bodyKind current
    cases current
    exact ⟨.unlimited, (), [], [], rfl⟩
  obtain ⟨reader, traces, reached, settled⟩ : ∃ reader, run.Traces (bodySide headers) (some 1)
      reader ∧ (Reader.machine (bodySide headers) (some 1)).Reaches
        ((chunkedBody headers (encodeChunks chunks ++ rest)).view (bodySide headers)) reader ∧
      (Reader.machine (bodySide headers) (some 1)).Settled reader :=
    StreamRun.loop_traces (bodySide_lawful headers) _ proper rfl rfl
  have read := Reader.reads_chunks .unlimited () (bodySide headers) going () chunks [] rest present
    (fun data inside => (each data inside).trans (by simp only [DecoderLimits.unlimited]; omega))
    (by decide) (by simp only [List.length_nil]; omega)
    (by simp only [List.length_nil, DecoderLimits.unlimited]; omega)
  -- The reader has the message it was asked for, so it stays there.
  have stopped : (Reader.machine (bodySide headers) (some 1)).Settled
      (Reader.ready .unlimited () ([] ++ [⟨(), .chunked, [] ++ chunks.flatten, []⟩]) rest) :=
    Reader.settled_of_halted rfl
  have same := reached.settled_unique settled read stopped
  subst same
  obtain ⟨unfailed, messages, remaining⟩ := traces.ready
  have complete : run.decoder.phase = .complete :=
    StreamRun.loop_complete (bodySide headers) pick rfl (by rw [messages]; simp)
  exact ⟨unfailed, messages, complete, remaining⟩

/--
A chunked body decoder inverts the encoder of chunks exactly when no chunk is empty.

An empty chunk is the last one to a receiver, so what follows it is left over.
-/
theorem chunkedBody_inverts (headers : Headers) (pick : Nat → Nat) (chunks : List Bytes)
    (rest : Bytes) (fits : (encodeChunks chunks ++ rest).length ≤ usizeMax) :
    let run := (StreamRun.loop (bodySide headers) pick (some 1)).run
      (chunkedBody headers (encodeChunks chunks ++ rest))
    (run.failed = none ∧ run.messages = [⟨(), .chunked, chunks.flatten, []⟩] ∧
        run.decoder.phase = .complete ∧ run.decoder.remaining = rest) ↔
      ∀ data ∈ chunks, data ≠ [] := by
  intro run
  constructor
  · rintro ⟨_, _, _, remaining⟩
    by_contra some
    -- The chunks up to the first empty one are consumed, and nothing behind it is.
    have empty : [] ∈ chunks := by
      push Not at some
      obtain ⟨data, inside, rfl⟩ := some
      exact inside
    obtain ⟨front, back, rfl, before⟩ := List.eq_append_cons_of_mem empty
    have present : ∀ data ∈ front, data ≠ [] := fun data inside same => before (same ▸ inside)
    have split : encodeChunks (front ++ [] :: back) ++ rest =
        encodeChunks front ++ (encodeChunks back ++ rest) := by
      rw [encodeChunks_append, List.append_assoc]
    obtain ⟨_, _, _, left⟩ := chunkedBody_consumed headers pick present
      (by rw [← split]; exact fits : (encodeChunks front ++ (encodeChunks back ++ rest)).length ≤ _)
    rw [← split] at left
    rw [show run.decoder.remaining = _ from left] at remaining
    have longer := (encodeChunks_length back).1
    have lengths := congrArg List.length remaining
    rw [List.length_append] at lengths
    omega
  · intro present
    exact chunkedBody_consumed headers pick present fits

/-- Chunks that look like framing are consumed one byte at a time. -/
theorem chunkedBody_inverts_framing :
    let run := (StreamRun.loop (bodySide []) (fun _ => 1) (some 1)).run
      (chunkedBody [] (encodeChunks [[13, 10], [48, 13, 10, 13, 10]] ++ [71]))
    run.failed = none ∧ run.messages = [⟨(), .chunked, [13, 10, 48, 13, 10, 13, 10], []⟩] ∧
      run.decoder.phase = .complete ∧ run.decoder.remaining = [71] :=
  (chunkedBody_inverts [] (fun _ => 1) [[13, 10], [48, 13, 10, 13, 10]] [71]
    (by decide)).mpr (by decide)

/-- An empty chunk ends the body, and the last chunk is left over. -/
theorem chunkedBody_empty :
    ((StreamRun.loop (bodySide []) (fun _ => 1) (some 1)).run
      (chunkedBody [] (encodeChunks [[]]))).decoder.remaining =
        Utf8.encode "0\r\n\r\n".toList := by
  decide

/-- Fields with the chunked coding alone frame a message in chunks, on either side. -/
theorem keptHeaders_chunked {headers : Headers}
    (coded : getHeaders headers "Transfer-Encoding".toList = ["chunked".toList])
    (undeclared : hasHeader headers "Content-Length".toList = false) :
    resolveBodyHeadersForRequest (keptHeaders headers none) = .ok (true, none) ∧
      resolveBodyHeadersForResponse (keptHeaders headers none) = .ok (.chunked, none) := by
  have codings : getHeaders (keptHeaders headers none) "Transfer-Encoding".toList =
      ["chunked".toList] := by
    rw [getHeaders_keptHeaders _ _ (by decide), coded]
    decide
  have validated : validateContentLengthHeaders headers = .ok none := by
    rw [validateContentLengthHeaders, hasHeader_eq_false.mp undeclared]
    rfl
  -- Without a declared length none is found.
  have length := parseContentLength_keptHeaders validated (.inl rfl) (by simp)
  rw [resolveBodyHeadersForRequest, resolveBodyHeadersForResponse,
    parseTransferEncodingForRequest_chunked codings,
    parseTransferEncodingForResponse_chunked codings, length]
  exact ⟨rfl, rfl⟩

/-- A run of a fresh decoder ends where the whole connection leads a reader. -/
theorem StreamRun.across_fresh {Head Context : Type} {side : Side Head Context}
    (lawful : side.Lawful) (pick : Nat → Nat) (context : Context) (fragments : List Bytes) :
    ∃ reader,
      (across side pick (some 1) { limits := .unlimited, context } fragments).Traces side (some 1)
        reader ∧
      (Reader.machine side (some 1)).Reaches
        (Reader.ready .unlimited context [] fragments.flatten) reader ∧
      (Reader.machine side (some 1)).Settled reader := by
  have proper : (({ limits := .unlimited, context } : Decoder Head Context).view []).Proper side :=
    Decoder.view_fresh side rfl rfl rfl rfl rfl rfl
  exact across_traces pick (some 1) lawful proper rfl rfl rfl rfl fragments

/-- A written head and its chunks are streamed as one message, however they are cut. -/
theorem StreamRun.across_chunked {Head Context : Type} {side : Side Head Context}
    (lawful : side.Lawful) (pick : Nat → Nat) (context : Context) {text : Str}
    (plain : '\r' ∉ text) (checked : side.checkStartLine text = .ok ()) {fields : Headers}
    (valid : ∀ field ∈ fields, sendable field) {head : Head}
    (finished : side.finishHead .unlimited context text (receivedHeaders fields) =
      .ok (head, .chunked))
    {chunks : List Bytes} (present : ∀ data ∈ chunks, data ≠ []) {rest : Bytes}
    {fragments : List Bytes}
    (arrived : fragments.flatten = Utf8.encode text ++ crlf ++
      (encodeFields fields ++ (crlf ++ (encodeChunks chunks ++ rest))))
    (fits : fragments.flatten.length ≤ usizeMax) :
    let run := across side pick (some 1) { limits := .unlimited, context } fragments
    run.failed = none ∧ run.messages = [⟨head, .chunked, chunks.flatten, []⟩] ∧
      run.decoder.remaining = rest := by
  intro run
  rw [arrived] at fits
  simp only [List.length_append] at fits
  obtain ⟨few, short⟩ := encodeFields_length fields
  obtain ⟨whole, each⟩ := encodeChunks_length chunks
  have going : Decoder.Going (some 1) ([] : List (Message Head)) := by simp [Decoder.Going]
  -- The head is read, and then one chunk after the other.
  have headed := Reader.reads_head .unlimited context side going plain checked valid
    (fun field inside => (short field inside).trans (by simp only [DecoderLimits.unlimited]; omega))
    (by simp only [DecoderLimits.unlimited]; omega) finished (encodeChunks chunks ++ rest)
  rw [lawful.chunked] at headed
  have body := Reader.reads_chunks .unlimited context side going head chunks [] rest present
    (fun data inside => (each data inside).trans (by simp only [DecoderLimits.unlimited]; omega))
    (by decide) (by simp only [List.length_nil]; omega)
    (by simp only [List.length_nil, DecoderLimits.unlimited]; omega)
  obtain ⟨reader, traces, reached, settled⟩ := across_fresh lawful pick context fragments
  rw [arrived] at reached
  have stopped : (Reader.machine side (some 1)).Settled (Reader.ready .unlimited
      (side.nextContext context) ([] ++ [⟨head, .chunked, [] ++ chunks.flatten, []⟩]) rest) :=
    Reader.settled_of_halted rfl
  have same := reached.settled_unique settled (headed.trans body) stopped
  subst same
  exact traces.ready

/-- A request whose head a program sends before chunks. -/
structure Request.Streamed (request : Request) (head : Bytes) : Prop where
  /-- A program has built it. -/
  built : Request.Built request
  /-- Its version has chunks. -/
  version : request.version = http11
  /-- Its target starts with a slash. -/
  origin : request.uri.head? = some '/'
  /-- Chunked is its only transfer encoding. -/
  coded : getHeaders request.headers "Transfer-Encoding".toList = ["chunked".toList]
  /-- The bytes of its head are those of the encoder. -/
  encoded : encodeRequestHeaders request = .ok head

/-- A response whose head a program sends before chunks. -/
structure Response.Streamed (response : Response) (head : Bytes) : Prop where
  /-- A program has built it. -/
  built : Response.Built response
  /-- Its version has chunks. -/
  version : response.version = http11
  /-- Its status admits a body. -/
  bodied : responseStatusHasBody response.statusCode = true
  /-- Chunked is its only transfer encoding. -/
  coded : getHeaders response.headers "Transfer-Encoding".toList = ["chunked".toList]
  /-- The bytes of its head are those of the encoder. -/
  encoded : encodeResponseHeaders response = .ok head

/-- A field with a value is there. -/
theorem hasHeader_of_values {headers : Headers} {name value : Str}
    (values : getHeaders headers name = [value]) : hasHeader headers name = true := by
  simp [hasHeader_eq, values]

namespace Request

/-- A target with a leading slash opens no tunnel. -/
theorem tunnelless_of_origin {method uri : Str} (origin : uri.head? = some '/')
    (accepted : validateRequestTargetForm method uri = .ok ()) : method ≠ "CONNECT".toList := by
  rintro rfl
  have other : uri ≠ "*".toList := by
    rintro rfl
    revert origin
    decide
  -- Both forms that such a target can be taken for exclude the method.
  unfold validateRequestTargetForm detectRequestTargetForm at accepted
  rw [if_neg other] at accepted
  by_cases absolute : containsStr "://".toList uri
  · rw [if_pos absolute] at accepted
    cases accepted
  · rw [if_neg absolute, if_pos origin] at accepted
    cases accepted

/-- What the encoder has checked about a streamed request, and the bytes it wrote. -/
theorem Streamed.ok {request : Request} {head : Bytes} (streamed : request.Streamed head) :
    request.Checked ∧ request.method ≠ "CONNECT".toList ∧ validateHostHeader request = .ok () ∧
      hasHeader request.headers "Content-Length".toList = false ∧ request.addedLength = none ∧
      head = Utf8.encode request.startText ++ crlf ++
        (encodeFields (writtenHeaders request.headers none) ++ crlf) := by
  have coded := hasHeader_of_values streamed.coded
  have encoded := streamed.encoded
  simp only [encodeRequestHeaders, checkRequest, Checked.bind_ok, Checked.reject_ok, coded,
    Bool.true_and] at encoded
  obtain ⟨_, ⟨_, fields, _, _, _, _, _, hosted, undeclared⟩, _, _, written⟩ := encoded
  have form := fields
  -- The checks of the request give the method, the host and the target.
  simp only [validateRequestFields, Checked.bind_ok] at form
  obtain ⟨_, _, _, _, _, _, _, accepted, _⟩ := form
  refine ⟨validateRequestFields_ok fields, tunnelless_of_origin streamed.origin accepted, hosted,
    undeclared, ?_, ?_⟩
  · -- A coding keeps the length from being added.
    rw [addedLength, shouldAutoEmitContentLengthForRequest, coded]
    simp
  · cases written
    rw [requestLine_eq, writtenHeaders]
    simp

/-- A decoder finishes the head of a streamed request in chunks. -/
theorem Streamed.finished {request : Request} {head : Bytes} (streamed : request.Streamed head) :
    RequestDecoder.finishHead .unlimited () request.startText
      (receivedHeaders (writtenHeaders request.headers none)) =
        .ok (request.receivedHead, .chunked) := by
  obtain ⟨checked, tunnelless, hosted, undeclared, added, _⟩ := streamed.ok
  have framed : RequestDecoder.determineBodyKind .unlimited request.version
      (keptHeaders request.headers request.addedLength) = .ok .chunked := by
    -- The version admits chunks, and no length stands beside them.
    rw [added, RequestDecoder.determineBodyKind,
      (keptHeaders_chunked streamed.coded undeclared).1, streamed.version]
    rfl
  have whole := finishHead_startText checked streamed.built.version tunnelless hosted framed
  rwa [added, ← received_writtenHeaders] at whole

end Request

namespace Response

/-- What the encoder has checked about a streamed response, and the bytes it wrote. -/
theorem Streamed.ok {response : Response} {head : Bytes} (streamed : response.Streamed head) :
    response.Checked ∧ hasHeader response.headers "Content-Length".toList = false ∧
      response.addedLength = none ∧
      head = Utf8.encode response.startText ++ crlf ++
        (encodeFields (writtenHeaders response.headers none) ++ crlf) := by
  have coded := hasHeader_of_values streamed.coded
  have encoded := streamed.encoded
  simp only [encodeResponseHeaders, checkResponse, Checked.bind_ok, Checked.reject_ok, coded,
    Bool.true_and] at encoded
  obtain ⟨_, ⟨_, fields, _, undeclared, _⟩, _, _, _, _, written⟩ := encoded
  refine ⟨validateResponseFields_ok fields, undeclared, ?_, ?_⟩
  · -- A coding keeps the length from being added.
    rw [addedLength, shouldAutoEmitContentLengthForResponse, coded]
    simp
  · cases written
    rw [statusLine_eq, writtenHeaders]
    simp

/-- A decoder finishes the head of a streamed response in chunks. -/
theorem Streamed.finished {response : Response} {head : Bytes}
    (streamed : response.Streamed head) :
    ResponseDecoder.finishHead .unlimited none response.startText
      (receivedHeaders (writtenHeaders response.headers none)) =
        .ok (response.receivedHead, .chunked) := by
  obtain ⟨checked, undeclared, added, _⟩ := streamed.ok
  obtain ⟨_, version⟩ := startText_words streamed.built.version
  have status : ResponseDecoder.statusHasBody response.statusCode = true := streamed.bodied
  have framed : ResponseDecoder.determineBodyKind .unlimited none response.startText
      (keptHeaders response.headers none) response.statusCode =
        .ok (.chunked, keptHeaders response.headers none) := by
    -- The status has a body, the version admits chunks, and no length stands beside them.
    rw [ResponseDecoder.determineBodyKind, status, version, streamed.version,
      (keptHeaders_chunked streamed.coded undeclared).2]
    rfl
  rw [received_writtenHeaders, receivedHead, added]
  exact finishHead_startText checked streamed.built.version framed

end Response

section RoundTrip

variable {head rest : Bytes} {chunks fragments : List Bytes}

/-- A message sent in chunks that arrives in fragments, before other bytes. -/
def Arrives (head : Bytes) (chunks : List Bytes) (rest : Bytes) (fragments : List Bytes) : Prop :=
  fragments.flatten = head ++ chunks.flatMap encodeChunk ++ encodeChunk [] ++ rest

/-- What a program has sent is a head and the chunks of a whole body. -/
theorem Arrives.eq (arrives : Arrives head chunks rest fragments)
    (present : ∀ data ∈ chunks, data ≠ []) {text : Str} {fields : Headers}
    (written : head = Utf8.encode text ++ crlf ++ (encodeFields fields ++ crlf)) :
    fragments.flatten = Utf8.encode text ++ crlf ++
      (encodeFields fields ++ (crlf ++ (encodeChunks chunks ++ rest))) := by
  rw [arrives, ← encodeChunk_flatMap present, written]
  simp only [List.append_assoc]

/-- A streamed request is received as it was sent exactly without brackets in its target. -/
theorem Request.Streamed.across {request : Request} (streamed : request.Streamed head)
    (present : ∀ data ∈ chunks, data ≠ []) (arrives : Arrives head chunks rest fragments)
    (fits : fragments.flatten.length ≤ usizeMax) (pick : Nat → Nat) :
    let run := StreamRun.across RequestDecoder.side pick (some 1)
      (RequestDecoder.withLimits .unlimited) fragments
    (run.failed = none ∧
        run.messages = [⟨request.receivedHead, .chunked, chunks.flatten, []⟩] ∧
        run.decoder.remaining = rest) ↔
      unbracketed request.uri := by
  intro run
  obtain ⟨checked, tunnelless, _, _, _, written⟩ := streamed.ok
  have versioned := streamed.built.version
  have plain := (startText_plain checked versioned).1
  have arrived := arrives.eq present written
  have accepts := checkStartLine_startText checked versioned streamed.origin tunnelless
  constructor
  · rintro ⟨unfailed, _⟩
    by_contra bracketed
    -- The request line stops the reader, and the run with it.
    obtain ⟨reader, traces, reached, settled⟩ :=
      StreamRun.across_fresh RequestDecoder.side_lawful pick () fragments
    rw [arrived] at reached
    obtain ⟨other, failed, refused⟩ := Reader.refuses_startLine .unlimited () RequestDecoder.side
      (by simp [Decoder.Going] : Decoder.Going (some 1) []) plain
      (fun accepted => bracketed (accepts.mp accepted)) _
    have halted : other.halted (some 1) = true := by simp [Reader.halted, failed]
    have same := reached.settled_unique settled refused (Reader.settled_of_halted halted)
    subst same
    rcases traces with follows | lasting
    · have ended := follows.failed
      rw [failed, Bool.true_or] at ended
      change run.failed.isSome = true at ended
      rw [unfailed] at ended
      cases ended
    · rw [lasting.unfailed] at failed
      cases failed
  · intro unbracketed
    exact StreamRun.across_chunked RequestDecoder.side_lawful pick () plain
      (accepts.mpr unbracketed) (writtenHeaders_sendable checked.headers none) streamed.finished
      present arrived fits

/-- A streamed response is received as it was sent. -/
theorem Response.Streamed.across {response : Response} (streamed : response.Streamed head)
    (present : ∀ data ∈ chunks, data ≠ []) (arrives : Arrives head chunks rest fragments)
    (fits : fragments.flatten.length ≤ usizeMax) (pick : Nat → Nat) :
    let run := StreamRun.across ResponseDecoder.side pick (some 1)
      (ResponseDecoder.withLimits .unlimited) fragments
    run.failed = none ∧
      run.messages = [⟨response.receivedHead, .chunked, chunks.flatten, []⟩] ∧
      run.decoder.remaining = rest := by
  obtain ⟨checked, _, _, written⟩ := streamed.ok
  have versioned := streamed.built.version
  exact StreamRun.across_chunked ResponseDecoder.side_lawful pick none
    (startText_plain checked versioned).1 (checkStartLine_startText checked versioned)
    (writtenHeaders_sendable checked.headers none) streamed.finished present
    (arrives.eq present written) fits

/--
Messages sent in chunks are received as they were sent, however they are cut and consumed.

Requests are so exactly when their target holds no brackets.
-/
theorem chunked_roundTrip (chunks : List Bytes) (rest : Bytes) (fragments : List Bytes)
    (pick : Nat → Nat) (present : ∀ data ∈ chunks, data ≠ [])
    (fits : fragments.flatten.length ≤ usizeMax) :
    (∀ request head, Request.Streamed request head → Arrives head chunks rest fragments →
      let run := StreamRun.across RequestDecoder.side pick (some 1)
        (RequestDecoder.withLimits .unlimited) fragments
      ((run.failed = none ∧
          run.messages = [⟨request.receivedHead, .chunked, chunks.flatten, []⟩] ∧
          run.decoder.remaining = rest) ↔ unbracketed request.uri)) ∧
    (∀ response head, Response.Streamed response head → Arrives head chunks rest fragments →
      let run := StreamRun.across ResponseDecoder.side pick (some 1)
        (ResponseDecoder.withLimits .unlimited) fragments
      run.failed = none ∧
        run.messages = [⟨response.receivedHead, .chunked, chunks.flatten, []⟩] ∧
        run.decoder.remaining = rest) :=
  ⟨fun _ _ streamed arrives => streamed.across present arrives fits pick,
    fun _ _ streamed arrives => streamed.across present arrives fits pick⟩

end RoundTrip

/-- A request and a response, cut in the middle of lines and consumed byte by byte. -/
theorem chunked_roundTrip_cut :
    let headers : Headers := [("Host".toList, "a".toList),
      ("Transfer-Encoding".toList, "chunked".toList)]
    let request : Request := ⟨"POST".toList, "/".toList, http11, headers, none⟩
    let response : Response := ⟨http11, 200, "OK".toList, headers, none, false⟩
    let lines := Utf8.encode "Host: a\r\nTransfer-Encoding: chunked\r\n\r\n2\r\n\r\n\r\n0".toList
    let run := StreamRun.across RequestDecoder.side (fun _ => 1) (some 1)
      (RequestDecoder.withLimits .unlimited)
      [Utf8.encode "POST / HTTP/1.1\r\n".toList ++ lines, [13, 10, 13, 10, 65]]
    let other := StreamRun.across ResponseDecoder.side (fun _ => 1) (some 1)
      (ResponseDecoder.withLimits .unlimited)
      [Utf8.encode "HTTP/1.1 200 OK\r\n".toList ++ lines, [13, 10, 13, 10, 65]]
    (run.failed = none ∧ run.messages = [⟨request.receivedHead, .chunked, [13, 10], []⟩] ∧
        run.decoder.remaining = [65]) ∧
      (other.failed = none ∧ other.messages = [⟨response.receivedHead, .chunked, [13, 10], []⟩] ∧
        other.decoder.remaining = [65]) := by
  intro headers request response lines run other
  -- Both are built field by field.
  have asked : Request.Built request := by
    have fresh : Request.Built ⟨"POST".toList, "/".toList, http11, [], none⟩ :=
      .new (by decide : Request.new "POST".toList "/".toList = .ok _)
    have hosted : Request.Built ⟨"POST".toList, "/".toList, http11, headers.take 1, none⟩ :=
      .addHeader fresh (by decide : Request.addHeader _ "Host".toList "a".toList = .ok _)
    exact .addHeader hosted (by decide :
      Request.addHeader _ "Transfer-Encoding".toList "chunked".toList = .ok _)
  have answered : Response.Built response := by
    have fresh : Response.Built ⟨http11, 200, "OK".toList, [], none, false⟩ :=
      .new (by decide : Response.new 200 "OK".toList = .ok _)
    have hosted : Response.Built ⟨http11, 200, "OK".toList, headers.take 1, none, false⟩ :=
      .addHeader fresh (by decide : Response.addHeader _ "Host".toList "a".toList = .ok _)
    exact .addHeader hosted (by decide :
      Response.addHeader _ "Transfer-Encoding".toList "chunked".toList = .ok _)
  have sent : request.Streamed (Utf8.encode
      "POST / HTTP/1.1\r\nHost: a\r\nTransfer-Encoding: chunked\r\n\r\n".toList) :=
    ⟨asked, rfl, by decide, by decide, by decide⟩
  have returned : response.Streamed (Utf8.encode
      "HTTP/1.1 200 OK\r\nHost: a\r\nTransfer-Encoding: chunked\r\n\r\n".toList) :=
    ⟨answered, rfl, by decide, by decide, by decide⟩
  constructor
  · exact ((chunked_roundTrip [[13, 10]] [65] _ (fun _ => 1) (by simp) (by decide)).1 request _ sent
      (by unfold Arrives; decide)).mpr (by decide)
  · exact (chunked_roundTrip [[13, 10]] [65] _ (fun _ => 1) (by simp) (by decide)).2 response _
      returned (by unfold Arrives; decide)

/-- The encoder takes a URI in a query for a whole one, so brackets get past it. -/
theorem chunked_roundTrip_bracketed :
    let request : Request := ⟨"POST".toList, "/?u=x:///[".toList, http11,
      [("Host".toList, "a".toList), ("Transfer-Encoding".toList, "chunked".toList)], none⟩
    let head := Utf8.encode
      "POST /?u=x:///[ HTTP/1.1\r\nHost: a\r\nTransfer-Encoding: chunked\r\n\r\n".toList
    request.Streamed head ∧
      (StreamRun.across RequestDecoder.side (fun _ => 1) (some 1)
        (RequestDecoder.withLimits .unlimited) [head ++ encodeChunk []]).failed =
          some (.invalidData "invalid query: illegal character 0x5B") := by
  intro request head
  have built : Request.Built request := by
    have fresh : Request.Built ⟨"POST".toList, "/?u=x:///[".toList, http11, [], none⟩ :=
      .new (by decide +kernel : Request.new "POST".toList "/?u=x:///[".toList = .ok _)
    have hosted : Request.Built ⟨"POST".toList, "/?u=x:///[".toList, http11,
        [("Host".toList, "a".toList)], none⟩ :=
      .addHeader fresh (by decide : Request.addHeader _ "Host".toList "a".toList = .ok _)
    exact .addHeader hosted (by decide :
      Request.addHeader _ "Transfer-Encoding".toList "chunked".toList = .ok _)
  exact ⟨⟨built, rfl, by decide +kernel, by decide +kernel, by decide +kernel⟩, by decide +kernel⟩

end Http11

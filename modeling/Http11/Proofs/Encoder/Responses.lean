import Http11.Exchange
import Http11.Proofs.Encoder.Fields
import Http11.Proofs.Encoder.Reading
import Http11.Proofs.Session

/-! Responses that were encoded are decoded again, with as much of a body as they have. -/

namespace Http11

namespace Response

/-- The text of the status line. -/
def startText (response : Response) : Str :=
  response.version ++ ' ' :: (Numerals.write 10 response.statusCode ++ ' ' :: response.reasonPhrase)

/-- The status line is its text and a line end. -/
theorem statusLine_eq (response : Response) :
    statusLine response = Utf8.encode response.startText ++ crlf := by
  have space : String.utf8EncodeChar ' ' = [0x20] := by decide
  simp [statusLine, startText, space, writeUsizeDecimal]

/-- What an encoder has checked about the parts of a status line. -/
structure Checked (response : Response) : Prop where
  /-- The status is in one of the five classes. -/
  status : isValidStatusCode response.statusCode = true
  /-- The reason phrase is well formed or absent. -/
  reason : response.reasonPhrase = [] ∨ isValidReasonPhrase response.reasonPhrase = true
  /-- The fields can be sent. -/
  headers : ∀ field ∈ response.headers, sendable field

/-- Fields that an encoder accepts have been checked. -/
theorem validateResponseFields_ok {response : Response}
    (checked : validateResponseFields response = .ok ()) : response.Checked := by
  simp only [validateResponseFields, Checked.bind_ok, Checked.reject_ok,
    Bool.not_eq_false'] at checked
  obtain ⟨_, _, _, status, _, reason, headers⟩ := checked
  refine ⟨status, ?_, validateHeaders_ok headers⟩
  -- Only a phrase that is there has to be well formed.
  cases phrase : response.reasonPhrase with
  | nil => exact .inl rfl
  | cons char rest => exact .inr (by simpa [phrase] using reason)

/-- Every response a program can build has a well-formed version. -/
theorem Built.version {response : Response} (built : Built response) :
    isValidProtocolVersion response.version = true := by
  induction built with
  -- A new response has version 1.1, any other version has been checked.
  | new made =>
    simp only [Response.new, Checked.bind_ok] at made
    obtain ⟨_, _, same⟩ := made
    cases same
    change isValidProtocolVersion http11 = true
    decide
  | withVersion made =>
    simp only [Response.withVersion, Checked.bind_ok, Checked.reject_ok,
      Bool.not_eq_false'] at made
    obtain ⟨_, valid, _, _, same⟩ := made
    cases same
    exact valid
  -- What a program changes afterwards is not the version.
  | addHeader _ added ih =>
    obtain ⟨_, _, rfl⟩ := Checked.map_ok.mp added
    exact ih
  | setHeader _ set ih =>
    obtain ⟨_, _, rfl⟩ := Checked.map_ok.mp set
    exact ih
  | setBody _ _ ih => exact ih
  | clearBody _ ih => exact ih
  | setOmitBody _ _ ih => exact ih

section StartLine

variable {response : Response} (checked : response.Checked)
  (versioned : isValidProtocolVersion response.version = true)

include versioned

/-- The words of a status line are its three parts, the last of which may have spaces. -/
theorem startText_words :
    splitn 3 ' ' response.startText =
        [response.version, Numerals.write 10 response.statusCode, response.reasonPhrase] ∧
      (response.startText.splitOn ' ').head?.getD [] = response.version := by
  have versionPlain : ' ' ∉ response.version :=
    not_mem_of_plain _ (by decide) (isValidProtocolVersion_plain versioned).2
  -- The status is digits, and the reason may have spaces as the last part.
  have statusPlain : ' ' ∉ Numerals.write 10 response.statusCode :=
    not_mem_of_plain _ (by decide) (digits_plain (write_digits _))
  constructor
  · simp [splitn, startText, splitOnce_append versionPlain, splitOnce_append statusPlain]
  · rw [startText, List.splitOn_append_cons_self_of_not_mem versionPlain]
    rfl

include checked

/-- A status line holds no line ends. -/
theorem startText_plain : '\r' ∉ response.startText ∧ '\n' ∉ response.startText := by
  have version := (isValidProtocolVersion_plain versioned).2
  have status := digits_plain (write_digits response.statusCode)
  -- The reason may be missing, and otherwise it has been checked.
  have reason : '\r' ∉ response.reasonPhrase ∧ '\n' ∉ response.reasonPhrase := by
    rcases checked.reason with absent | valid
    · simp [absent]
    · simp only [isValidReasonPhrase, Bool.and_eq_true] at valid
      exact vchars_plain valid.2
  constructor
  · simp [startText, not_mem_of_plain '\r' (by decide) version,
      not_mem_of_plain '\r' (by decide) status, reason.1]
  · simp [startText, not_mem_of_plain '\n' (by decide) version,
      not_mem_of_plain '\n' (by decide) status, reason.2]

omit versioned in
/-- The digits of a status are read back as the status. -/
theorem parseU16_status : parseU16 (Numerals.write 10 response.statusCode) =
    some response.statusCode := by
  have status := checked.status
  simp only [isValidStatusCode, Bool.and_eq_true, decide_eq_true_eq] at status
  exact Numerals.read_write (by omega) (by omega) (by simp only [u16Max]; omega)

/-- A decoder accepts the status line. -/
theorem checkStartLine_startText :
    ResponseDecoder.checkStartLine response.startText = .ok () := by
  obtain ⟨parts, _⟩ := startText_words versioned
  obtain ⟨noReturn, noFeed⟩ := startText_plain checked versioned
  have reason : (!response.reasonPhrase.isEmpty && !isValidReasonPhrase response.reasonPhrase) =
      false := by
    -- The reason may be missing, and otherwise it has been checked.
    rcases checked.reason with absent | valid
    · simp [absent]
    · simp [valid]
  rw [ResponseDecoder.checkStartLine, if_neg (by simp [noReturn, noFeed]), parts]
  simp [Checked.reject, versioned, parseU16_status checked, checked.status, reason,
    Bind.bind, Except.bind]

/-- A decoder finishes the head of a response with the parts it was made of. -/
theorem finishHead_startText {limits : DecoderLimits} {requestMethod : Option Str}
    {headers kept : Headers} {bodyKind : BodyKind}
    (determined : ResponseDecoder.determineBodyKind limits requestMethod response.startText headers
      response.statusCode = .ok (bodyKind, kept)) :
    ResponseDecoder.finishHead limits requestMethod response.startText headers =
      .ok (⟨response.version, response.statusCode, response.reasonPhrase, kept⟩, bodyKind) := by
  obtain ⟨parts, _⟩ := startText_words versioned
  simp only [ResponseDecoder.finishHead, parts, List.getElem?_cons_zero, List.getElem?_cons_succ,
    Option.getD_some, parseU16_status checked, determined]
  rfl

end StartLine

/-- The length that the encoder adds. -/
def addedLength (response : Response) : Option Nat :=
  if shouldAutoEmitContentLengthForResponse response then some (bodyLength response.body) else none

/-- The response as a receiver sees it. -/
def received (response : Response) : Response where
  version := response.version
  statusCode := response.statusCode
  reasonPhrase := response.reasonPhrase
  headers := keptHeaders response.headers response.addedLength
  body := if bodyWillBeEncoded response then response.body else none
  omitBody := false

/-- The head as a receiver sees it. -/
def receivedHead (response : Response) : ResponseHead :=
  ⟨response.version, response.statusCode, response.reasonPhrase,
    keptHeaders response.headers response.addedLength⟩

/-- The method of the request that a response without its body answers. -/
def answeredMethod (response : Response) : Option Str :=
  if response.omitBody then some "HEAD".toList else none

/-- The framing of a response without transfer encoding. -/
def framing (response : Response) : BodyKind :=
  if bodyWillBeEncoded response then .contentLength (bodyLength response.body) else .none

/-- The bytes of the body that are sent. -/
def sentBody (response : Response) : Bytes :=
  if bodyWillBeEncoded response then response.body.getD [] else []

/-- The response as a message on the connection. -/
def message (response : Response) : Message ResponseHead :=
  ⟨response.receivedHead, response.framing, response.sentBody, []⟩

/-- A response that a program sends: built, checked by the encoder, with a body. -/
structure Sent (response : Response) (wire : Bytes) : Prop where
  /-- A program has built it. -/
  built : Built response
  /-- It has no transfer encoding. -/
  uncoded : hasHeader response.headers "Transfer-Encoding".toList = false
  /-- It has a body, whether or not it is sent. -/
  bodied : response.body.isSome = true
  /-- Its bytes are those of the encoder. -/
  encoded : encodeResponse response = .ok wire

/-- A method with which a decoder frames a response as the encoder did. -/
structure Awaited (response : Response) (requestMethod : Option Str) : Prop where
  /-- The body is left out exactly for HEAD. -/
  omitted : requestMethod = some "HEAD".toList ↔ response.omitBody = true
  /-- No tunnel is opened. -/
  tunnelless : requestMethod = some "CONNECT".toList →
    ¬ (200 ≤ response.statusCode ∧ response.statusCode < 300)

/-- The method that a response without its body answers is one to await it with. -/
theorem answeredMethod_awaited (response : Response) : response.Awaited response.answeredMethod := by
  unfold answeredMethod
  cases omitted : response.omitBody with
  | true => exact ⟨by simp [omitted], fun other => absurd other (by decide)⟩
  | false => exact ⟨by simp [omitted], nofun⟩

/-- The message is the response as a receiver sees it. -/
theorem response_message {response : Response} (bodied : response.body.isSome = true) :
    Message.response response.message = response.received := by
  obtain ⟨data, body⟩ := Option.isSome_iff_exists.mp bodied
  unfold Message.response Message.content message framing received sentBody
  -- The body that is left out has no content, and any other one is it.
  cases bodyWillBeEncoded response with
  | false => rfl
  | true =>
    rw [body]
    rfl

/-- A response without its body is answered to HEAD, or has a status without one. -/
theorem Awaited.bodiless {response : Response} {requestMethod : Option Str}
    (awaited : response.Awaited requestMethod) (sending : bodyWillBeEncoded response = false) :
    (requestMethod = some "HEAD".toList ||
      !ResponseDecoder.statusHasBody response.statusCode) = true := by
  change (decide (requestMethod = some "HEAD".toList) ||
    !responseStatusHasBody response.statusCode) = true
  rw [bodyWillBeEncoded, Bool.and_eq_false_iff, Bool.not_eq_false'] at sending
  rcases sending with status | omitted
  · rw [status]
    simp
  · rw [decide_eq_true (awaited.omitted.mpr omitted)]
    simp

/-- A response with its body is answered to another method, with a status that has one. -/
theorem Awaited.bodied {response : Response} {requestMethod : Option Str}
    (awaited : response.Awaited requestMethod) (kept : response.omitBody = false)
    (status : responseStatusHasBody response.statusCode = true) :
    (requestMethod = some "HEAD".toList ||
      !ResponseDecoder.statusHasBody response.statusCode) = false := by
  have other : requestMethod ≠ some "HEAD".toList := by
    intro head
    rw [awaited.omitted.mp head] at kept
    cases kept
  have statusSame : ResponseDecoder.statusHasBody response.statusCode = true := status
  rw [decide_eq_false other, statusSame]
  rfl

/-- A response that is awaited opens no tunnel. -/
theorem Awaited.closed {response : Response} {requestMethod : Option Str}
    (awaited : response.Awaited requestMethod) : (requestMethod = some "CONNECT".toList &&
      (200 ≤ response.statusCode && response.statusCode < 300)) = false := by
  by_cases connect : requestMethod = some "CONNECT".toList
  · have outside := awaited.tunnelless connect
    simp only [connect, decide_true, Bool.true_and]
    rwa [← Bool.decide_and, decide_eq_false_iff_not]
  · rw [decide_eq_false connect, Bool.false_and]

/-- The fields of a response with its body declare its length, and no coding. -/
theorem resolveBodyHeaders_keptHeaders {response : Response}
    (uncoded : hasHeader response.headers "Transfer-Encoding".toList = false)
    (bodied : response.body.isSome = true) (sending : bodyWillBeEncoded response = true)
    (declared : checkLength response.headers response.body
      (bodyWillBeEncoded response || bodyLength response.body != 0) = .ok ())
    (fits : bodyLength response.body ≤ usizeMax) :
    parseTransferEncodingForResponse (keptHeaders response.headers response.addedLength) =
        .ok .none ∧
      parseContentLength (keptHeaders response.headers response.addedLength) =
        .ok (some (bodyLength response.body)) := by
  have both : responseStatusHasBody response.statusCode = true ∧ response.omitBody = false := by
    simpa [bodyWillBeEncoded] using sending
  obtain ⟨status, kept⟩ := both
  simp only [checkLength, Checked.bind_ok] at declared
  obtain ⟨length, validated, agreed⟩ := declared
  have present := validateContentLengthHeaders_isSome validated
  obtain ⟨data, body⟩ := Option.isSome_iff_exists.mp bodied
  -- A body without a declared length gets one.
  have added : response.addedLength =
      if length.isSome then none else some (bodyLength response.body) := by
    rw [addedLength, shouldAutoEmitContentLengthForResponse, present, uncoded, status, kept, body]
    cases length <;> cases data <;> rfl
  have length_eq : length.or response.addedLength = some (bodyLength response.body) := by
    rw [added]
    cases length with
    | none => rfl
    | some value =>
      simp only [Checked.reject_ok, sending, Bool.true_or, Bool.true_and,
        bne_eq_false_iff_eq] at agreed
      simp [agreed]
  have small : ∀ length ∈ response.addedLength, length ≤ u64Max := by
    rw [added]
    split
    · simp
    · rintro _ ⟨⟩
      exact fits
  have single : response.addedLength = none ∨ length = none := by
    rw [added]
    cases length <;> simp
  refine ⟨parseTransferEncodingForResponse_none ?_, ?_⟩
  · rw [getHeaders_keptHeaders _ _ (by decide), hasHeader_eq_false.mp uncoded]
    rfl
  · rw [← length_eq]
    exact parseContentLength_keptHeaders validated single small

/-- A decoder that knows the method frames a response as the encoder did. -/
theorem determineBodyKind_keptHeaders {response : Response} {requestMethod : Option Str}
    (awaited : response.Awaited requestMethod)
    (versioned : isValidProtocolVersion response.version = true)
    (uncoded : hasHeader response.headers "Transfer-Encoding".toList = false)
    (bodied : response.body.isSome = true)
    (declared : responseStatusHasBody response.statusCode = true →
      checkLength response.headers response.body
        (bodyWillBeEncoded response || bodyLength response.body != 0) = .ok ())
    (fits : response.sentBody.length ≤ usizeMax) :
    ResponseDecoder.determineBodyKind .unlimited requestMethod response.startText
      (keptHeaders response.headers response.addedLength) response.statusCode =
      .ok (response.framing, keptHeaders response.headers response.addedLength) := by
  obtain ⟨_, version⟩ := startText_words versioned
  unfold ResponseDecoder.determineBodyKind
  cases sending : bodyWillBeEncoded response with
  | false =>
    -- The status admits no body, or the request was one that gets none.
    rw [if_pos (awaited.bodiless sending), framing, sending]
    rfl
  | true =>
    have both : responseStatusHasBody response.statusCode = true ∧ response.omitBody = false := by
      simpa [bodyWillBeEncoded] using sending
    obtain ⟨status, kept⟩ := both
    obtain ⟨data, body⟩ := Option.isSome_iff_exists.mp bodied
    -- All of the body is sent, so what bounds the bytes sent bounds the body.
    rw [sentBody, sending, body, if_pos rfl] at fits
    replace fits : bodyLength response.body ≤ usizeMax := by rw [body]; exact fits
    obtain ⟨codings, parsed⟩ :=
      resolveBodyHeaders_keptHeaders uncoded bodied sending (declared status) fits
    have unversioned : hasHeader (keptHeaders response.headers response.addedLength)
        "Transfer-Encoding".toList = false := by
      rw [hasHeader_eq_false, getHeaders_keptHeaders _ _ (by decide),
        hasHeader_eq_false.mp uncoded]
      rfl
    -- The method is neither the one without bodies nor one that opens a tunnel.
    rw [framing, sending, awaited.bodied kept status, awaited.closed, version, unversioned,
      resolveBodyHeadersForResponse, codings, parsed]
    simp [Bind.bind, Except.bind, pure, Except.pure, DecoderLimits.unlimited,
      Nat.not_lt.mpr fits]

/-- The bytes of an encoded response: its status line, its fields, an empty line and its body. -/
theorem encodeResponse_wire {response : Response} {wire : Bytes}
    (encoded : encodeResponse response = .ok wire) :
    wire = Utf8.encode response.startText ++ crlf ++
      (encodeFields (writtenHeaders response.headers response.addedLength) ++
        (crlf ++ response.sentBody)) := by
  simp only [encodeResponse, Checked.bind_ok] at encoded
  obtain ⟨_, _, _, _, _, _, _, _, written⟩ := encoded
  cases written
  rw [encodeFields_writtenHeaders, statusLine_eq, addedLength]
  split <;> simp [sentBody]

/-- What an encoder has checked about a response that it has encoded, and the bytes it wrote. -/
theorem Sent.ok {response : Response} {wire : Bytes} (sent : response.Sent wire) :
    response.Checked ∧
      (responseStatusHasBody response.statusCode = true →
        checkLength response.headers response.body
          (bodyWillBeEncoded response || bodyLength response.body != 0) = .ok ()) ∧
      wire = Utf8.encode response.startText ++ crlf ++
        (encodeFields (writtenHeaders response.headers response.addedLength) ++
          (crlf ++ response.sentBody)) := by
  have written := encodeResponse_wire sent.encoded
  have encoded := sent.encoded
  simp only [encodeResponse, checkResponse, Checked.bind_ok] at encoded
  obtain ⟨_, ⟨_, fields, _⟩, _, _, _, _, _, declared, _⟩ := encoded
  rw [Checked.onlyIf_ok, sent.uncoded, Bool.not_false, Bool.and_true] at declared
  exact ⟨validateResponseFields_ok fields, declared, written⟩

/-- The bytes of a response hold the body that is sent and all its fields. -/
theorem Sent.bounds {response : Response} {wire : Bytes} (sent : response.Sent wire)
    (fits : wire.length ≤ usizeMax) :
    response.sentBody.length ≤ usizeMax ∧
      (writtenHeaders response.headers response.addedLength).length ≤ usizeMax ∧
      ∀ field ∈ writtenHeaders response.headers response.addedLength,
        (Utf8.encode (fieldText field)).length ≤ usizeMax := by
  obtain ⟨_, _, rfl⟩ := sent.ok
  obtain ⟨few, short⟩ :=
    encodeFields_length (writtenHeaders response.headers response.addedLength)
  -- The body and the fields are parts of what was written.
  simp only [List.length_append] at fits
  refine ⟨by omega, by omega, fun field inside => ?_⟩
  have bounded := short field inside
  omega

/-- A response is read as its message, and nothing behind it. -/
theorem Sent.reads {response : Response} {wire : Bytes} (sent : response.Sent wire)
    {requestMethod : Option Str} (awaited : response.Awaited requestMethod)
    (fits : wire.length ≤ usizeMax) {limit : Option Nat} {done : List (Message ResponseHead)}
    (going : Decoder.Going limit done) (rest : Bytes) :
    (Reader.machine ResponseDecoder.side limit).Reaches
      (Reader.ready .unlimited requestMethod done (wire ++ rest))
      (Reader.ready .unlimited none (done ++ [response.message]) rest) := by
  obtain ⟨checked, declared, bytes⟩ := sent.ok
  obtain ⟨small, few, short⟩ := sent.bounds fits
  have versioned := sent.built.version
  have started : ResponseDecoder.side.checkStartLine response.startText = .ok () :=
    checkStartLine_startText checked versioned
  have finished : ResponseDecoder.side.finishHead .unlimited requestMethod
      response.startText (receivedHeaders (writtenHeaders response.headers response.addedLength)) =
        .ok (response.receivedHead, response.framing) := by
    rw [received_writtenHeaders]
    exact finishHead_startText checked versioned
      (determineBodyKind_keptHeaders awaited versioned sent.uncoded sent.bodied declared small)
  have headed := Reader.reads_head .unlimited requestMethod ResponseDecoder.side going
    (startText_plain checked versioned).1 started (writtenHeaders_sendable checked.headers _) short
    few finished (response.sentBody ++ rest)
  have content : (Reader.machine ResponseDecoder.side limit).Reaches
      (Reader.within ResponseDecoder.side .unlimited requestMethod done
        response.receivedHead response.framing
        (ResponseDecoder.side.bodyPhase response.framing) [] (response.sentBody ++ rest))
      (Reader.ready .unlimited none (done ++ [response.message]) rest) := by
    unfold message
    cases sending : bodyWillBeEncoded response with
    | true =>
      have kind : response.framing = .contentLength response.sentBody.length := by
        rw [framing, sentBody, sending]
        cases response.body <;> rfl
      rw [kind]
      exact Reader.reads_contentLength .unlimited requestMethod
        ResponseDecoder.side_lawful going _ rest
    | false =>
      -- Nothing of the body is sent, and nothing of it is expected.
      have kind : response.framing = .none := by rw [framing, sending]; rfl
      have nothing : response.sentBody = [] := by rw [sentBody, sending]; rfl
      rw [kind, nothing]
      exact Reader.reads_end .unlimited requestMethod ResponseDecoder.side going [] rest
  rw [bytes]
  simpa only [List.append_assoc] using headed.trans content

/-- A decoder between messages returns a response that comes next, and is between messages again. -/
theorem Sent.decode {response : Response} {wire rest : Bytes} (sent : response.Sent wire)
    {requestMethod : Option Str} (awaited : response.Awaited requestMethod)
    (fits : wire.length ≤ usizeMax) {decoder : ResponseDecoder} {done : List (Message ResponseHead)}
    (start : decoder.view done = Reader.ready .unlimited requestMethod done (wire ++ rest)) :
    ∃ next, ResponseDecoder.decode decoder = (.ok (some response.received), next) ∧
      next.view (done ++ [response.message]) =
        Reader.ready .unlimited none (done ++ [response.message]) rest := by
  -- One more message is asked for, so the reader stops after it.
  have going : Decoder.Going (some (done.length + 1)) done := by simp [Decoder.Going]
  have proper : (decoder.view done).Proper ResponseDecoder.side := by
    rw [start]
    exact Reader.ready_proper _ _ _ _ _
  have decoded := ResponseDecoder.decode_follows going proper
  have read := sent.reads awaited fits going rest
  rw [← start] at read
  rcases decoded with decoded | ⟨next, lasting, reached⟩
  · obtain ⟨returned, later⟩ := Decoder.decoded_of_reaches decoded read rfl
    rw [response_message sent.bodied] at returned
    exact ⟨_, Prod.ext returned rfl, later⟩
  · -- A body up to the end of the connection would have stopped the reader before the message.
    have stopped : (Reader.machine ResponseDecoder.side (some (done.length + 1))).Settled
        (Reader.ready .unlimited none (done ++ [response.message]) rest) := by
      refine Reader.settled_of_halted (Bool.or_eq_true_iff.mpr (.inr ?_))
      simp [Reader.ready]
    have same := reached.settled_unique (Reader.settled_lasting lasting) read stopped
    have phase : next.phase = .startLine := congrArg (fun reader => reader.core.phase) same
    rw [lasting] at phase
    cases phase

/-- The decoder of an answer: fresh, and told the method when it is one that gets no body. -/
def answeredDecoder (response : Response) : ResponseDecoder :=
  if response.omitBody then
    ResponseDecoder.setRequestMethod (ResponseDecoder.withLimits .unlimited) "HEAD".toList
  else ResponseDecoder.withLimits .unlimited

/-- Such a decoder differs from a fresh one in its method only. -/
theorem answeredDecoder_eq (response : Response) :
    response.answeredDecoder = { limits := .unlimited, context := response.answeredMethod } := by
  unfold answeredDecoder answeredMethod
  split <;> rfl

/-- A response that was encoded is decoded again, and nothing behind it is touched. -/
theorem decode_encoded {response : Response} {wire rest : Bytes} (sent : response.Sent wire)
    (fits : (wire ++ rest).length ≤ usizeMax) :
    ∃ next, ResponseDecoder.decode (response.answeredDecoder.feed (wire ++ rest)).2 =
      (.ok (some response.received), next) ∧ next.remaining = rest := by
  -- The decoder that was fed is a reader between messages.
  have start : (response.answeredDecoder.feed (wire ++ rest)).2.view [] =
      Reader.ready .unlimited response.answeredMethod [] (wire ++ rest) := by
    rw [answeredDecoder_eq, Decoder.feed_unlimited rfl (by simpa using fits)]
    rfl
  obtain ⟨next, returned, later⟩ := sent.decode (answeredMethod_awaited response)
    (by simp only [List.length_append] at fits; omega) start
  exact ⟨next, returned, congrArg (fun reader => reader.core.buf) later⟩

/-- An answer to HEAD with the length of the body it leaves out, before another message. -/
theorem decode_encoded_omitted :
    let response : Response := ⟨http11, 200, "OK".toList,
      [("X".toList, "\ty z ".toList)], some [13, 10], true⟩
    let wire := Utf8.encode "HTTP/1.1 200 OK\r\nX: \ty z \r\nContent-Length: 2\r\n\r\n".toList
    response.Sent wire ∧
      ∃ next, ResponseDecoder.decode (response.answeredDecoder.feed (wire ++ [65])).2 =
        (.ok (some response.received), next) ∧ next.remaining = [65] := by
  intro response wire
  -- The response is built call by call, as a program would build it.
  have fresh : Built ⟨http11, 200, "OK".toList, [], none, false⟩ :=
    .new (by decide : Response.new 200 "OK".toList = .ok _)
  have listed : Built ⟨http11, 200, "OK".toList, [("X".toList, "\ty z ".toList)], none, false⟩ :=
    .addHeader fresh (by decide : addHeader _ "X".toList "\ty z ".toList = .ok _)
  have sent : response.Sent wire := ⟨.setOmitBody true (.setBody [13, 10] listed),
    by decide, by decide, by decide⟩
  exact ⟨sent, decode_encoded sent (by decide)⟩

/-- A response to a request of some method, with its bytes. -/
structure Replies (method : Str) (response : Response) (wire : Bytes) : Prop where
  /-- A program sends it. -/
  sent : response.Sent wire
  /-- It is framed as a decoder expects that was told the method. -/
  awaited : response.Awaited (some method)

/-- Replies one after the other are decoded when each method is told before. -/
theorem decodeReplies_replies {replies : List (Str × Response × Bytes)}
    (each : ∀ reply ∈ replies, Replies reply.1 reply.2.1 reply.2.2)
    (fits : (replies.flatMap fun reply => reply.2.2).length ≤ usizeMax)
    {decoder : ResponseDecoder} {done : List (Message ResponseHead)} {context : Option Str}
    (start : decoder.view done = Reader.ready .unlimited context done
      (replies.flatMap fun reply => reply.2.2)) :
    ∃ next, ResponseDecoder.decodeReplies decoder (replies.map Prod.fst) =
      (replies.map fun reply => .ok (some reply.2.1.received), next) ∧ next.remaining = [] := by
  -- After the first reply the decoder waits for one reply less.
  induction replies generalizing decoder done context with
  | nil => exact ⟨decoder, rfl, congrArg (fun reader => reader.core.buf) start⟩
  | cons reply replies ih =>
    obtain ⟨first, others⟩ := List.forall_mem_cons.mp each
    rw [List.flatMap_cons, List.length_append] at fits
    have told : (ResponseDecoder.setRequestMethod decoder reply.1).view done =
        Reader.ready .unlimited (some reply.1) done
          (reply.2.2 ++ replies.flatMap fun reply => reply.2.2) := by
      rw [List.flatMap_cons] at start
      exact congrArg (fun reader : Reader ResponseHead (Option Str) =>
        { reader with core := { reader.core with context := some reply.1 } }) start
    obtain ⟨next, returned, later⟩ := first.sent.decode first.awaited (by omega) told
    obtain ⟨last, others, nothing⟩ := ih others (by omega) later
    exact ⟨last, by simp [ResponseDecoder.decodeReplies, returned, others], nothing⟩

end Response

end Http11

import Http11.Proofs.Decoder.Framing
import Http11.Proofs.Encoder.Fields
import Http11.Proofs.Encoder.Reading
import Http11.Proofs.Encoder.Targets
import Http11.Proofs.Session

/-! Requests that were encoded are decoded again, unless their target holds brackets. -/

namespace Http11

namespace Request

/-- The text of the request line. -/
def startText (request : Request) : Str :=
  request.method ++ ' ' :: (request.uri ++ ' ' :: request.version)

/-- The request line is its text and a line end. -/
theorem requestLine_eq (request : Request) :
    requestLine request = Utf8.encode request.startText ++ crlf := by
  have space : String.utf8EncodeChar ' ' = [0x20] := by decide
  simp [requestLine, startText, space]

/-- What an encoder has checked about the parts of a request line. -/
structure Checked (request : Request) : Prop where
  /-- The method is a token. -/
  method : isValidMethod request.method = true
  /-- The target is well formed. -/
  target : isValidRequestTarget request.uri = true
  /-- The target is printable ASCII. -/
  ascii : ∀ byte ∈ Utf8.encode request.uri, byte ≤ 0x7E
  /-- The fields can be sent. -/
  headers : ∀ field ∈ request.headers, sendable field

/-- Fields that an encoder accepts have been checked. -/
theorem validateRequestFields_ok {request : Request}
    (checked : validateRequestFields request = .ok ()) : request.Checked := by
  simp only [validateRequestFields, Checked.bind_ok, Checked.reject_ok,
    Bool.not_eq_false'] at checked
  obtain ⟨_, method, _, target, _, ascii, _, _, _, _, headers⟩ := checked
  refine ⟨method, target, fun byte inside => ?_, validateHeaders_ok headers⟩
  have narrow := List.any_eq_false.mp ascii byte inside
  simpa using narrow

/-- Every request a program can build has a well-formed version. -/
theorem Built.version {request : Request} (built : Built request) :
    isValidProtocolVersion request.version = true := by
  -- A version is checked when it is given, and never changed.
  induction built with
  | new made =>
    simp only [Request.new, Checked.bind_ok] at made
    obtain ⟨_, _, same⟩ := made
    cases same
    change isValidProtocolVersion http11 = true
    decide
  | withVersion made =>
    simp only [Request.withVersion, Checked.bind_ok, Checked.reject_ok,
      Bool.not_eq_false'] at made
    obtain ⟨_, _, _, valid, same⟩ := made
    cases same
    exact valid
  | addHeader _ added ih =>
    obtain ⟨_, _, rfl⟩ := Checked.map_ok.mp added
    exact ih
  | setHeader _ set ih =>
    obtain ⟨_, _, rfl⟩ := Checked.map_ok.mp set
    exact ih
  | setBody _ _ ih => exact ih
  | clearBody _ ih => exact ih

section StartLine

variable {request : Request} (checked : request.Checked)
  (versioned : isValidProtocolVersion request.version = true)

include checked versioned

/-- The words of a request line are its three parts. -/
theorem startText_words :
    splitn 3 ' ' request.startText = [request.method, request.uri, request.version] ∧
      request.startText.splitOn ' ' = [request.method, request.uri, request.version] := by
  -- None of the three parts has a space in it.
  have methodPlain : ' ' ∉ request.method :=
    not_mem_of_plain _ (by decide) (isToken_plain checked.method).2
  have uriPlain : ' ' ∉ request.uri := (isValidRequestTarget_plain checked.target).2.1
  have versionPlain : ' ' ∉ request.version :=
    not_mem_of_plain _ (by decide) (isValidProtocolVersion_plain versioned).2
  constructor
  · simp [splitn, startText, splitOnce_append methodPlain, splitOnce_append uriPlain]
  · rw [startText, List.splitOn_append_cons_self_of_not_mem methodPlain,
      List.splitOn_append_cons_self_of_not_mem uriPlain, List.splitOn_eq_singleton versionPlain]

/-- A request line holds no line ends. -/
theorem startText_plain : '\r' ∉ request.startText ∧ '\n' ∉ request.startText := by
  have method := (isToken_plain checked.method).2
  have target := isValidRequestTarget_plain checked.target
  have version := (isValidProtocolVersion_plain versioned).2
  constructor
  · -- Neither line end stands in any of the three parts.
    simp [startText, not_mem_of_plain '\r' (by decide) method, target.2.2.1,
      not_mem_of_plain '\r' (by decide) version]
  · simp [startText, not_mem_of_plain '\n' (by decide) method, target.2.2.2,
      not_mem_of_plain '\n' (by decide) version]

/-- A decoder accepts the request line exactly when the target holds no brackets. -/
theorem checkStartLine_startText (origin : request.uri.head? = some '/')
    (tunnelless : request.method ≠ "CONNECT".toList) :
    RequestDecoder.checkStartLine request.startText = .ok () ↔ unbracketed request.uri := by
  obtain ⟨parts, _⟩ := startText_words checked versioned
  obtain ⟨noReturn, noFeed⟩ := startText_plain checked versioned
  have narrow : (Utf8.encode request.uri).any (fun byte => 0x80 ≤ byte) = false := by
    refine List.any_eq_false.mpr fun byte inside => ?_
    have bound := checked.ascii byte inside
    simp only [decide_eq_true_eq, UInt8.not_le]
    exact UInt8.lt_of_le_of_lt bound (by decide)
  rw [RequestDecoder.checkStartLine, if_neg (by simp [noReturn, noFeed]), parts,
    ← validateOriginForm_iff checked.target checked.ascii origin]
  simp only [Checked.bind_ok, Checked.reject_ok, checked.method, checked.target, narrow,
    versioned, Bool.not_true, parseRequestTargetForm_origin origin, Checked.map_ok]
  constructor
  · rintro ⟨_, _, _, _, _, _, form, ⟨_, valid, _⟩, _⟩
    exact valid
  · intro valid
    refine ⟨(), trivial, (), trivial, (), trivial, .origin, ⟨(), valid, rfl⟩, (), ?_, trivial⟩
    -- Every method but the one of tunnels may use this form.
    rw [validateRequestTargetForMethod, if_neg tunnelless]
    split <;> rfl

end StartLine

/-- The length that the encoder adds. -/
def addedLength (request : Request) : Option Nat :=
  if shouldAutoEmitContentLengthForRequest request then some (bodyLength request.body) else none

/-- A body is there, or a length is declared. -/
def hasContent (request : Request) : Bool :=
  request.body.isSome || hasHeader request.headers "Content-Length".toList

/-- The request as a receiver sees it. -/
def received (request : Request) : Request :=
  { request with
    headers := keptHeaders request.headers request.addedLength
    body := if request.hasContent then some (request.body.getD []) else none }

/-- The framing of a request without transfer encoding. -/
def framing (request : Request) : BodyKind :=
  if request.hasContent then .contentLength (bodyLength request.body) else .none

/-- The head as a receiver sees it. -/
def receivedHead (request : Request) : RequestHead :=
  ⟨request.method, request.uri, request.version, keptHeaders request.headers request.addedLength⟩

/-- The request as a message on the connection. -/
def message (request : Request) : Message RequestHead :=
  ⟨request.receivedHead, request.framing, request.body.getD [], []⟩

/-- The message is the request as a receiver sees it. -/
theorem request_message (request : Request) : Message.request request.message = request.received := by
  unfold Message.request Message.content message framing received
  cases request.hasContent <;> rfl

/-- A checked request of version 1.1 has a host that a decoder accepts. -/
theorem checkHost_keptHeaders {request : Request} (hosted : validateHostHeader request = .ok ())
    (version11 : request.version = http11) (added : Option Nat) :
    RequestDecoder.checkHost (keptHeaders request.headers added) = .ok () := by
  rw [← received_writtenHeaders]
  unfold validateHostHeader at hosted
  rw [if_neg (by simp [version11])] at hosted
  split at hosted
  · cases hosted
  · rename_i host single
    simp only [Checked.bind_ok, Checked.reject_ok] at hosted
    obtain ⟨_, valid, _⟩ := hosted
    have found : getHeaders (writtenHeaders request.headers added) "Host".toList = [host] := by
      rw [getHeaders_writtenHeaders _ _ (by decide), single]
    refine checkHost_received found ?_
    -- An empty host needs no check.
    cases host with
    | nil => exact .inl rfl
    | cons char host => exact .inr (by simpa using valid)
  · cases hosted

/-- A decoder frames a request without transfer encoding by the length of its body. -/
theorem determineBodyKind_keptHeaders {request : Request}
    (uncoded : hasHeader request.headers "Transfer-Encoding".toList = false)
    (declared : checkLength request.headers request.body true = .ok ())
    (fits : bodyLength request.body ≤ usizeMax) :
    RequestDecoder.determineBodyKind .unlimited request.version
      (keptHeaders request.headers request.addedLength) = .ok request.framing := by
  have codings : parseTransferEncodingForRequest
      (keptHeaders request.headers request.addedLength) = .ok false := by
    refine parseTransferEncodingForRequest_none ?_
    rw [getHeaders_keptHeaders _ _ (by decide), hasHeader_eq_false.mp uncoded]
    rfl
  simp only [checkLength, Checked.bind_ok] at declared
  obtain ⟨length, validated, agreed⟩ := declared
  have present := validateContentLengthHeaders_isSome validated
  -- The length comes from the fields, from the body, or from nowhere.
  have added : request.addedLength =
      if request.body.isSome && !length.isSome then some (bodyLength request.body) else none := by
    rw [addedLength, shouldAutoEmitContentLengthForRequest, present, uncoded, Bool.not_false,
      Bool.and_true]
  have lengths : parseContentLength (keptHeaders request.headers request.addedLength) =
      .ok (if request.hasContent then some (bodyLength request.body) else none) := by
    rw [hasContent, present]
    cases length with
    | some value =>
      simp only [Checked.reject_ok, Bool.true_and, bne_eq_false_iff_eq] at agreed
      rw [parseContentLength_keptHeaders validated (by simp [added]) (by simp [added]), agreed]
      simp
    | none =>
      have small : ∀ length ∈ request.addedLength, length ≤ u64Max := by
        rw [added]
        split
        · rintro _ ⟨⟩
          exact fits
        · simp
      rw [parseContentLength_keptHeaders validated (.inr rfl) small, added]
      simp
  unfold RequestDecoder.determineBodyKind resolveBodyHeadersForRequest framing
  rw [codings, lengths]
  cases request.hasContent with
  | false => rfl
  | true =>
    simp [Bind.bind, Except.bind, pure, Except.pure, DecoderLimits.unlimited, Nat.not_lt.mpr fits]

/-- A decoder finishes the head of a request with the parts it was made of. -/
theorem finishHead_startText {request : Request} (checked : request.Checked)
    (versioned : isValidProtocolVersion request.version = true)
    (tunnelless : request.method ≠ "CONNECT".toList)
    (hosted : validateHostHeader request = .ok ()) {limits : DecoderLimits} {bodyKind : BodyKind}
    (determined : RequestDecoder.determineBodyKind limits request.version
      (keptHeaders request.headers request.addedLength) = .ok bodyKind) :
    RequestDecoder.finishHead limits () request.startText
      (keptHeaders request.headers request.addedLength) = .ok (request.receivedHead, bodyKind) := by
  obtain ⟨parts, words⟩ := startText_words checked versioned
  have framed : RequestDecoder.requestBodyKind limits request.method request.version
      (keptHeaders request.headers request.addedLength) = .ok bodyKind := by
    rw [RequestDecoder.requestBodyKind, if_neg tunnelless, determined]
  -- The host is asked for in version 1.1 only, and then it has been checked.
  have hostChecked : Checked.onlyIf (request.version = http11)
      (RequestDecoder.checkHost (keptHeaders request.headers request.addedLength)) = .ok () :=
    Checked.onlyIf_ok.mpr fun version11 =>
      checkHost_keptHeaders hosted (of_decide_eq_true version11) _
  simp only [RequestDecoder.finishHead, parts, words, List.getElem?_cons_zero,
    List.getElem?_cons_succ, List.head?_cons, Option.getD_some, hostChecked, framed]
  rfl

/-- A request that a program sends: built, checked by the encoder, and framed by its length. -/
structure Sent (request : Request) (wire : Bytes) : Prop where
  /-- A program has built it. -/
  built : Built request
  /-- Its target starts with a slash. -/
  origin : request.uri.head? = some '/'
  /-- It opens no tunnel. -/
  tunnelless : request.method ≠ "CONNECT".toList
  /-- It has no transfer encoding. -/
  uncoded : hasHeader request.headers "Transfer-Encoding".toList = false
  /-- Its bytes are those of the encoder. -/
  encoded : encodeRequest request = .ok wire

/-- A request that an encoder has encoded and that is framed by its length. -/
structure Encoded (request : Request) (wire : Bytes) : Prop where
  /-- Its version is well formed. -/
  versioned : isValidProtocolVersion request.version = true
  /-- It opens no tunnel. -/
  tunnelless : request.method ≠ "CONNECT".toList
  /-- It has no transfer encoding. -/
  uncoded : hasHeader request.headers "Transfer-Encoding".toList = false
  /-- Its bytes are those of the encoder. -/
  encoded : encodeRequest request = .ok wire

/-- A request that a program sends is encoded. -/
theorem Sent.encodes {request : Request} {wire : Bytes} (sent : request.Sent wire) :
    request.Encoded wire :=
  ⟨sent.built.version, sent.tunnelless, sent.uncoded, sent.encoded⟩

/-- The bytes of an encoded request: its request line, its fields, an empty line and its body. -/
theorem encodeRequest_wire {request : Request} {wire : Bytes}
    (encoded : encodeRequest request = .ok wire) :
    wire = Utf8.encode request.startText ++ crlf ++
      (encodeFields (writtenHeaders request.headers request.addedLength) ++
        (crlf ++ request.body.getD [])) := by
  simp only [encodeRequest, Checked.bind_ok] at encoded
  obtain ⟨_, _, _, _, written⟩ := encoded
  cases written
  rw [encodeFields_writtenHeaders, requestLine_eq, addedLength]
  split <;> simp

/-- What an encoder has checked about a request that it has encoded, and the bytes it wrote. -/
theorem Encoded.ok {request : Request} {wire : Bytes} (encodes : request.Encoded wire) :
    request.Checked ∧ validateHostHeader request = .ok () ∧
      checkLength request.headers request.body true = .ok () ∧
      wire = Utf8.encode request.startText ++ crlf ++
        (encodeFields (writtenHeaders request.headers request.addedLength) ++
          (crlf ++ request.body.getD [])) := by
  have written := encodeRequest_wire encodes.encoded
  have encoded := encodes.encoded
  simp only [encodeRequest, checkRequest, Checked.bind_ok] at encoded
  obtain ⟨_, ⟨_, fields, _, _, _, _, _, hosted, _⟩, _, declared, _⟩ := encoded
  rw [checkDeclaredLength, Checked.onlyIf_ok, encodes.uncoded] at declared
  exact ⟨validateRequestFields_ok fields, hosted, declared rfl, written⟩

/-- The bytes of a request hold its body and all its fields. -/
theorem Encoded.bounds {request : Request} {wire : Bytes} (encodes : request.Encoded wire)
    (fits : wire.length ≤ usizeMax) :
    bodyLength request.body ≤ usizeMax ∧
      (writtenHeaders request.headers request.addedLength).length ≤ usizeMax ∧
      ∀ field ∈ writtenHeaders request.headers request.addedLength,
        (Utf8.encode (fieldText field)).length ≤ usizeMax := by
  obtain ⟨_, _, _, rfl⟩ := encodes.ok
  obtain ⟨few, short⟩ :=
    encodeFields_length (writtenHeaders request.headers request.addedLength)
  -- The body and the fields are parts of what was written.
  simp only [List.length_append] at fits
  have size : bodyLength request.body = (request.body.getD []).length := by
    cases request.body <;> rfl
  refine ⟨by omega, by omega, fun field inside => ?_⟩
  have bounded := short field inside
  omega

/-- An encoded request whose request line is accepted is read as its message. -/
theorem Encoded.reads {request : Request} {wire : Bytes} (encodes : request.Encoded wire)
    (started : RequestDecoder.side.checkStartLine request.startText = .ok ())
    (fits : wire.length ≤ usizeMax) {limit : Option Nat}
    {done : List (Message RequestHead)} (going : Decoder.Going limit done) (rest : Bytes) :
    (Reader.machine RequestDecoder.side limit).Reaches
      (Reader.ready .unlimited () done (wire ++ rest))
      (Reader.ready .unlimited () (done ++ [request.message]) rest) := by
  obtain ⟨checked, hosted, declared, bytes⟩ := encodes.ok
  obtain ⟨small, few, short⟩ := encodes.bounds fits
  have versioned := encodes.versioned
  have finished : RequestDecoder.side.finishHead .unlimited () request.startText
      (receivedHeaders (writtenHeaders request.headers request.addedLength)) =
        .ok (request.receivedHead, request.framing) := by
    rw [received_writtenHeaders]
    exact finishHead_startText checked versioned encodes.tunnelless hosted
      (determineBodyKind_keptHeaders encodes.uncoded declared small)
  -- The head comes first, and its framing counts the body.
  have headed := Reader.reads_head .unlimited () RequestDecoder.side going
    (startText_plain checked versioned).1 started (writtenHeaders_sendable checked.headers _) short
    few finished (request.body.getD [] ++ rest)
  have content : (Reader.machine RequestDecoder.side limit).Reaches
      (Reader.within RequestDecoder.side .unlimited () done request.receivedHead request.framing
        (RequestDecoder.side.bodyPhase request.framing) [] (request.body.getD [] ++ rest))
      (Reader.ready .unlimited () (done ++ [request.message]) rest) := by
    unfold message
    cases framed : request.hasContent with
    | true =>
      have kind : request.framing = .contentLength (request.body.getD []).length := by
        rw [framing, framed, if_pos rfl]
        cases request.body <;> rfl
      rw [kind]
      exact Reader.reads_contentLength .unlimited () RequestDecoder.side_lawful going _ rest
    | false =>
      -- Without content there is no body to read.
      have kind : request.framing = .none := by rw [framing, framed]; rfl
      have nothing : request.body = none := by
        simp only [hasContent, Bool.or_eq_false_iff] at framed
        simpa using framed.1
      rw [kind, nothing]
      exact Reader.reads_end .unlimited () RequestDecoder.side going [] rest
  rw [bytes]
  simpa only [List.append_assoc] using headed.trans content

/-- A request without brackets in its target is read as its message, and nothing behind it. -/
theorem Sent.reads {request : Request} {wire : Bytes} (sent : request.Sent wire)
    (plain : unbracketed request.uri) (fits : wire.length ≤ usizeMax) {limit : Option Nat}
    {done : List (Message RequestHead)} (going : Decoder.Going limit done) (rest : Bytes) :
    (Reader.machine RequestDecoder.side limit).Reaches
      (Reader.ready .unlimited () done (wire ++ rest))
      (Reader.ready .unlimited () (done ++ [request.message]) rest) :=
  sent.encodes.reads ((checkStartLine_startText sent.encodes.ok.1 sent.built.version sent.origin
    sent.tunnelless).mpr plain) fits going rest

/-- A request with brackets in its target stops the reader. -/
theorem Sent.refuses {request : Request} {wire : Bytes} (sent : request.Sent wire)
    (bracketed : ¬ unbracketed request.uri) {limit : Option Nat}
    {done : List (Message RequestHead)} (going : Decoder.Going limit done) (rest : Bytes) :
    ∃ reader, reader.failed.isSome = true ∧ (Reader.machine RequestDecoder.side limit).Reaches
      (Reader.ready .unlimited () done (wire ++ rest)) reader := by
  obtain ⟨checked, _, _, bytes⟩ := sent.encodes.ok
  have versioned := sent.built.version
  -- The start line passes its checks only if the target has no brackets.
  have refused : RequestDecoder.side.checkStartLine request.startText ≠ .ok () :=
    fun accepted => bracketed
      ((checkStartLine_startText checked versioned sent.origin sent.tunnelless).mp accepted)
  rw [bytes, List.append_assoc]
  exact Reader.refuses_startLine .unlimited () RequestDecoder.side going
    (startText_plain checked versioned).1 refused _

/-- A fresh decoder that was fed some bytes, as a reader between messages. -/
theorem view_feed {data : Bytes} (fits : data.length ≤ usizeMax) :
    ((RequestDecoder.withLimits .unlimited).feed data).2.view [] =
      Reader.ready .unlimited () [] data ∧
    (((RequestDecoder.withLimits .unlimited).feed data).2.view []).Proper RequestDecoder.side := by
  rw [Decoder.feed_unlimited rfl (by simpa [RequestDecoder.withLimits] using fits)]
  exact ⟨rfl, Decoder.view_fresh _ rfl rfl rfl rfl rfl rfl⟩

/-- Decoding what a fresh decoder was fed returns a request that is read as its message. -/
theorem Encoded.decode {request : Request} {wire : Bytes} (encodes : request.Encoded wire)
    (started : RequestDecoder.side.checkStartLine request.startText = .ok ()) {rest : Bytes}
    (fits : (wire ++ rest).length ≤ usizeMax) :
    ∃ next, RequestDecoder.decode
      ((RequestDecoder.withLimits .unlimited).feed (wire ++ rest)).2 =
        (.ok (some request.received), next) ∧ next.remaining = rest := by
  obtain ⟨start, proper⟩ := view_feed fits
  -- One message is asked for, so the reader stops after it.
  have going : Decoder.Going (some 1) ([] : List (Message RequestHead)) := by
    simp [Decoder.Going]
  have decoded := RequestDecoder.decode_follows going proper
  have read := encodes.reads started (by simp only [List.length_append] at fits; omega) going rest
  rw [← start] at read
  obtain ⟨returned, later⟩ := Decoder.decoded_of_reaches decoded read rfl
  rw [request_message] at returned
  exact ⟨_, Prod.ext returned rfl, congrArg (fun reader => reader.core.buf) later⟩

/-- Decoding what a fresh decoder was fed returns the first request exactly without brackets. -/
theorem Sent.decode {request : Request} {wire rest : Bytes} (sent : request.Sent wire)
    (fits : (wire ++ rest).length ≤ usizeMax) :
    (∃ next, RequestDecoder.decode
        ((RequestDecoder.withLimits .unlimited).feed (wire ++ rest)).2 =
          (.ok (some request.received), next) ∧ next.remaining = rest) ↔
      unbracketed request.uri := by
  constructor
  · rintro ⟨next, returned, _⟩
    obtain ⟨start, proper⟩ := view_feed fits
    -- One message is asked for, so the reader stops after it.
    have going : Decoder.Going (some 1) ([] : List (Message RequestHead)) := by
      simp [Decoder.Going]
    have decoded := RequestDecoder.decode_follows going proper
    rw [returned] at decoded
    obtain ⟨message, _, reached⟩ := decoded
    by_contra bracketed
    obtain ⟨reader, failed, refused⟩ := sent.refuses bracketed going rest
    rw [start] at reached
    -- Both ends of the run stop it, but only one of them has failed.
    have stopped : (Reader.machine RequestDecoder.side (some 1)).Settled
        (next.view ([] ++ [message])) := Reader.settled_of_halted rfl
    have halted : reader.halted (some 1) = true := by simp [Reader.halted, failed]
    have same := reached.settled_unique stopped refused (Reader.settled_of_halted halted)
    rw [← same] at failed
    cases failed
  · intro plain
    exact sent.encodes.decode ((checkStartLine_startText sent.encodes.ok.1 sent.built.version
      sent.origin sent.tunnelless).mpr plain) fits

/-- The bytes of several requests, one after the other. -/
def wires (sent : List (Request × Bytes)) : Bytes := (sent.map Prod.snd).flatten

/-- Requests without brackets are read one after the other. -/
theorem reads_all (sent : List (Request × Bytes))
    (each : ∀ pair ∈ sent, Sent pair.1 pair.2) (plain : ∀ pair ∈ sent, unbracketed pair.1.uri)
    (fits : (wires sent).length ≤ usizeMax) (done : List (Message RequestHead)) :
    (Reader.machine RequestDecoder.side none).Reaches
      (Reader.ready .unlimited () done (wires sent))
      (Reader.ready .unlimited () (done ++ sent.map fun pair => pair.1.message) []) := by
  -- The induction is on the requests, each of which leaves the reader ready for the next one.
  induction sent generalizing done with
  | nil => simpa [wires] using Incremental.Reaches.refl
  | cons pair sent ih =>
    have whole : wires (pair :: sent) = pair.2 ++ wires sent := rfl
    rw [whole, List.length_append] at fits
    have first := (each pair (by simp)).reads (plain pair (by simp)) (by omega)
      (Decoder.going_none done) (wires sent)
    have later := ih (fun other inside => each other (by simp [inside]))
      (fun other inside => plain other (by simp [inside])) (by omega) (done ++ [pair.1.message])
    rw [whole]
    simpa using first.trans later

/-- Among requests with brackets the first one stops the reader. -/
theorem refuses_some (sent : List (Request × Bytes))
    (each : ∀ pair ∈ sent, Sent pair.1 pair.2)
    (bracketed : ¬ ∀ pair ∈ sent, unbracketed pair.1.uri)
    (fits : (wires sent).length ≤ usizeMax) (done : List (Message RequestHead)) :
    ∃ reader, reader.failed.isSome = true ∧ (Reader.machine RequestDecoder.side none).Reaches
      (Reader.ready .unlimited () done (wires sent)) reader := by
  induction sent generalizing done with
  | nil => simp at bracketed
  | cons pair sent ih =>
    have whole : wires (pair :: sent) = pair.2 ++ wires sent := rfl
    rw [whole, List.length_append] at fits
    rw [whole]
    by_cases first : unbracketed pair.1.uri
    · -- The requests before it are read, so a later one is to blame.
      have later : ¬ ∀ other ∈ sent, unbracketed other.1.uri := by
        intro all
        refine bracketed fun other inside => ?_
        rcases List.mem_cons.mp inside with rfl | inSent
        · exact first
        · exact all other inSent
      obtain ⟨reader, failed, reached⟩ := ih (fun other inside => each other (by simp [inside]))
        later (by omega) (done ++ [pair.1.message])
      have read := (each pair (by simp)).reads first (by omega)
        (Decoder.going_none done) (wires sent)
      exact ⟨reader, failed, read.trans reached⟩
    · exact (each pair (by simp)).refuses first (Decoder.going_none done) (wires sent)

/-- A connection of encoded requests is decoded to all of them exactly without brackets. -/
theorem across_wires (sent : List (Request × Bytes)) (each : ∀ pair ∈ sent, Sent pair.1 pair.2)
    (fits : (wires sent).length ≤ usizeMax) :
    let run := DecodeRun.across .unlimited [wires sent]
    (run.requests = sent.map (fun pair => pair.1.received) ∧ run.failed = none ∧
        run.decoder.remaining = []) ↔
      ∀ pair ∈ sent, unbracketed pair.1.uri := by
  intro run
  obtain ⟨reader, follows, reached, settled⟩ := DecodeRun.across_follows .unlimited [wires sent]
  rw [List.flatten_singleton] at reached
  change (Reader.machine RequestDecoder.side none).Reaches
    (Reader.ready .unlimited () [] (wires sent)) reader at reached
  constructor
  · rintro ⟨_, unfailed, _⟩
    by_contra bracketed
    obtain ⟨other, failed, refused⟩ := refuses_some sent each bracketed fits []
    have halted : other.halted none = true := by simp [Reader.halted, failed]
    have same := reached.settled_unique settled refused (Reader.settled_of_halted halted)
    -- The run ends with the error of the reader.
    obtain ⟨error, found⟩ := Option.isSome_iff_exists.mp failed
    have ended := follows.failed
    rw [same, DecodeRun.outcome, found] at ended
    rw [show run.failed = some error from ended] at unfailed
    cases unfailed
  · intro plain
    have read := reads_all sent each plain fits []
    have waits : (Reader.machine RequestDecoder.side none).Settled
        (Reader.ready .unlimited () ([] ++ sent.map fun pair => pair.1.message) []) :=
      Reader.settled_head (.inl rfl) rfl
    have same := reached.settled_unique settled read waits
    subst same
    refine ⟨?_, follows.failed, ?_⟩
    · rw [show run.requests = _ from follows.requests]
      simp [Reader.ready, request_message, Function.comp_def]
    · have buffered := follows.buffered
      change [] = run.decoder.buf ++ run.unfed at buffered
      exact (List.append_eq_nil_iff.mp buffered.symm).1

/--
A request that was encoded is decoded again exactly when its target holds no brackets.

The same holds of any list of requests that follow one another.
-/
theorem roundTrip (rest : Bytes) :
    (∀ request wire, Sent request wire → (wire ++ rest).length ≤ usizeMax →
      ((∃ next, RequestDecoder.decode
          ((RequestDecoder.withLimits .unlimited).feed (wire ++ rest)).2 =
            (.ok (some request.received), next) ∧ next.remaining = rest) ↔
        unbracketed request.uri)) ∧
    (∀ sent : List (Request × Bytes), (∀ pair ∈ sent, Sent pair.1 pair.2) →
      (wires sent).length ≤ usizeMax →
      (((DecodeRun.across .unlimited [wires sent]).requests =
            sent.map (fun pair => pair.1.received) ∧
          (DecodeRun.across .unlimited [wires sent]).failed = none ∧
          (DecodeRun.across .unlimited [wires sent]).decoder.remaining = []) ↔
        ∀ pair ∈ sent, unbracketed pair.1.uri)) :=
  ⟨fun _ _ sent fits => sent.decode fits, across_wires⟩

/-- A request with a query, padded fields and a body comes back, twice in a row as well. -/
theorem roundTrip_plain :
    let request : Request := ⟨"POST".toList, "/a?b=%20".toList, http11,
      [("Host".toList, " a ".toList), ("X".toList, "\ty z ".toList)], some [13, 10]⟩
    let wire := Utf8.encode ("POST /a?b=%20 HTTP/1.1\r\nHost:  a \r\nX: \ty z \r\n" ++
      "Content-Length: 2\r\n\r\n\r\n").toList
    request.Sent wire ∧
      (∃ next, RequestDecoder.decode
          ((RequestDecoder.withLimits .unlimited).feed (wire ++ [65])).2 =
            (.ok (some request.received), next) ∧ next.remaining = [65]) ∧
      (DecodeRun.across .unlimited [wires [(request, wire), (request, wire)]]).requests =
        [request.received, request.received] := by
  intro request wire
  have fresh : Built ⟨"POST".toList, "/a?b=%20".toList, http11, [], none⟩ :=
    .new (by decide +kernel : Request.new "POST".toList "/a?b=%20".toList = .ok _)
  have hosted : Built ⟨"POST".toList, "/a?b=%20".toList, http11,
      [("Host".toList, " a ".toList)], none⟩ :=
    .addHeader fresh (by decide : addHeader _ "Host".toList " a ".toList = .ok _)
  have listed : Built ⟨"POST".toList, "/a?b=%20".toList, http11,
      [("Host".toList, " a ".toList), ("X".toList, "\ty z ".toList)], none⟩ :=
    .addHeader hosted (by decide : addHeader _ "X".toList "\ty z ".toList = .ok _)
  have sent : request.Sent wire := ⟨.setBody [13, 10] listed, by decide,
    by decide +kernel, by decide +kernel, by decide +kernel⟩
  have plain : unbracketed request.uri := by decide
  -- The request is received alone and in front of itself.
  refine ⟨sent, ((roundTrip [65]).1 request wire sent (by decide)).mpr plain, ?_⟩
  refine (((roundTrip []).2 [(request, wire), (request, wire)] ?_ (by decide +kernel)).mpr ?_).1
  · simp [sent]
  · simp [plain]

/-- A target with a URI in its query: the encoder takes it for a whole one, the decoder does not. -/
theorem roundTrip_bracketed :
    let request : Request :=
      ⟨"GET".toList, "/?u=x://[".toList, "HTTP/1.0".toList, [], none⟩
    let wire := Utf8.encode "GET /?u=x://[ HTTP/1.0\r\n\r\n".toList
    request.Sent wire ∧
      (RequestDecoder.decode ((RequestDecoder.withLimits .unlimited).feed wire).2).1 =
        .error (.invalidData "invalid query: illegal character 0x5B") := by
  intro request wire
  have built : Built request := .withVersion (by decide +kernel :
    Request.withVersion "GET".toList "/?u=x://[".toList "HTTP/1.0".toList = .ok _)
  exact ⟨⟨built, by decide +kernel, by decide +kernel, by decide +kernel, by decide +kernel⟩,
    by decide +kernel⟩

end Request

end Http11

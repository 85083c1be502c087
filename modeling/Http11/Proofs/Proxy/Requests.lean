import Http11.Proofs.Accounting
import Http11.Proofs.Forwarding
import Http11.Proofs.Streaming
import Http11.ReverseProxy
import Http11.Session

/-! What a client has asked for goes on to the upstream server, under another host. -/

namespace Http11

open Checked

/-- A field name in lower case is the same name. -/
theorem eqIgnoreAsciiCase_lower (name other : Str) :
    eqIgnoreAsciiCase name other = true ↔ toAsciiLowercase name = toAsciiLowercase other := by
  simp [eqIgnoreAsciiCase, toAsciiLowercase]

namespace ReverseProxy

/-- Fields that can be sent are copied in their order, without those left out. -/
theorem copyHeaders_eq {Whole : Type} {addHeader : Whole → Str → Str → Except EncodeError Whole}
    (make : Headers → Whole) (adds : ∀ headers field, sendable field →
      addHeader (make headers) field.1 field.2 = .ok (make (headers ++ [field])))
    (skipped : Str → Bool) {headers : Headers} (valid : ∀ field ∈ headers, sendable field)
    (before : Headers) : copyHeaders addHeader skipped headers (make before) =
      .ok (make (before ++ headers.filter fun field => !skipped field.1)) := by
  -- One field is copied or left out, and the rest follows it.
  unfold copyHeaders
  induction headers generalizing before with
  | nil => simp [pure, Except.pure]
  | cons field headers ih =>
    obtain ⟨first, others⟩ := List.forall_mem_cons.mp valid
    rw [List.foldlM_cons]
    cases skip : skipped field.1 with
    | true =>
      have later := ih others before
      simpa [skip, Bind.bind, Except.bind] using later
    | false =>
      have later := ih others (before ++ [field])
      simpa [skip, adds before field first, Bind.bind, Except.bind] using later

/-- A field that can be sent is added to a request. -/
theorem addHeader_request (request : Request) {field : Str × Str} (valid : sendable field) :
    request.addHeader field.1 field.2 =
      .ok { request with headers := request.headers ++ [field] } := by
  obtain ⟨named, valued⟩ := valid
  simp [Request.addHeader, addField, checkHeader, named, valued, Except.map]

/-- What was added to a request may stand in a field. -/
theorem addHeader_valid {request next : Request} {name value : Str}
    (added : request.addHeader name value = .ok next) : isValidFieldValue value = true := by
  by_contra invalid
  rw [Bool.not_eq_true] at invalid
  cases named : isValidHeaderName name <;>
    simp [Request.addHeader, addField, checkHeader, named, invalid, Except.map] at added

/-- The fields of a head that go on to the upstream server. -/
def requestFields (headers : Headers) : Headers :=
  headers.filter fun field => !isSkippedInRequest (connectionHeaders headers) field.1

/-- The fields of the request that goes on. -/
def upstreamHeaders (upstreamHostHeader : Str) (headers : Headers) : Headers :=
  requestFields headers ++
    [("Host".toList, upstreamHostHeader), ("Connection".toList, "keep-alive".toList)]

/-- The request that goes on, of a message that was received. -/
def onward (upstreamHostHeader : Str) (message : Message RequestHead) : Request where
  method := message.head.method
  uri := message.head.uri
  version := http11
  headers := upstreamHeaders upstreamHostHeader message.head.headers
  body := message.content

/-- No field goes on that is meant for one connection, tells the host or frames the body. -/
theorem requestFields_other {headers : Headers} {name : Str}
    (meant : isSkippedInRequest (connectionHeaders headers) name = true) :
    getHeaders (requestFields headers) name = [] := by
  -- A name in another case is left out with it.
  have same : ∀ other, eqIgnoreAsciiCase other name = true →
      isSkippedInRequest (connectionHeaders headers) other = true := by
    intro other alike
    have lower := (eqIgnoreAsciiCase_lower other name).mp alike
    have names : ∀ fixed : Str, eqIgnoreAsciiCase other fixed = eqIgnoreAsciiCase name fixed := by
      intro fixed
      rw [Bool.eq_iff_iff, eqIgnoreAsciiCase_lower, eqIgnoreAsciiCase_lower, lower]
    unfold isSkippedInRequest isHopByHopHeader at meant ⊢
    rw [names, names, lower]
    exact meant
  simp only [getHeaders, List.map_eq_nil_iff, List.filter_eq_nil_iff, requestFields, List.mem_filter,
    Bool.not_eq_true']
  rintro other ⟨_, kept⟩ alike
  rw [same other.1 alike] at kept
  cases kept

/-- The fields of a request that are left out in every case. -/
theorem isSkippedInRequest_fixed (listed : List Str) :
    isSkippedInRequest listed "Host".toList = true ∧
      isSkippedInRequest listed "Content-Length".toList = true ∧
      isSkippedInRequest listed "Transfer-Encoding".toList = true ∧
      isSkippedInRequest listed "Connection".toList = true := by
  have fixed : eqIgnoreAsciiCase "Host".toList "host".toList = true ∧
      eqIgnoreAsciiCase "Content-Length".toList "content-length".toList = true ∧
      hopByHopHeaders.contains (toAsciiLowercase "Transfer-Encoding".toList) = true ∧
      hopByHopHeaders.contains (toAsciiLowercase "Connection".toList) = true := by decide
  obtain ⟨host, length, coding, connection⟩ := fixed
  -- Two of the names are compared in place, the others stand in the list of hop-by-hop fields.
  unfold isSkippedInRequest isHopByHopHeader
  rw [host, length, coding, connection]
  simp

/-- The request that goes on names the upstream server as its host. -/
theorem upstreamHeaders_host (upstreamHostHeader : Str) (headers : Headers) :
    getHeaders (upstreamHeaders upstreamHostHeader headers) "Host".toList =
      [upstreamHostHeader] := by
  rw [upstreamHeaders, getHeaders_append, requestFields_other (isSkippedInRequest_fixed _).1,
    List.nil_append]
  have alike : eqIgnoreAsciiCase "Host".toList "Host".toList = true := by decide
  have other : eqIgnoreAsciiCase "Connection".toList "Host".toList = false := by decide
  rw [getHeaders_cons_same alike, getHeaders_cons_other other]
  rfl

/-- The request that goes on has no framing of its own. -/
theorem upstreamHeaders_unframed (upstreamHostHeader : Str) (headers : Headers) :
    hasHeader (upstreamHeaders upstreamHostHeader headers) "Transfer-Encoding".toList = false ∧
      hasHeader (upstreamHeaders upstreamHostHeader headers) "Content-Length".toList = false := by
  -- Behind the fields that are kept only two are added, and both are excluded here.
  have nothing : ∀ name : Str, isSkippedInRequest (connectionHeaders headers) name = true →
      eqIgnoreAsciiCase "Host".toList name = false →
      eqIgnoreAsciiCase "Connection".toList name = false →
      hasHeader (upstreamHeaders upstreamHostHeader headers) name = false := by
    intro name skipped noHost noConnection
    rw [hasHeader_eq, upstreamHeaders, getHeaders_append, requestFields_other skipped,
      List.nil_append, getHeaders_cons_other noHost, getHeaders_cons_other noConnection]
    rfl
  obtain ⟨_, length, coding, _⟩ := isSkippedInRequest_fixed (connectionHeaders headers)
  exact ⟨nothing _ coding (by decide) (by decide), nothing _ length (by decide) (by decide)⟩

section Onward

variable {upstreamHostHeader : Str} {message : Message RequestHead}

/-- The fields of the request that goes on can be sent. -/
theorem upstreamHeaders_sendable (valid : isValidFieldValue upstreamHostHeader = true)
    {headers : Headers} (sendables : ∀ field ∈ headers, sendable field) :
    ∀ field ∈ upstreamHeaders upstreamHostHeader headers, sendable field := by
  intro field inside
  -- Fields that are kept have been received, and the two added ones are values of their own.
  rcases List.mem_append.mp inside with kept | added
  · exact sendables field (List.mem_of_mem_filter kept)
  · have host : isValidHeaderName "Host".toList = true := by decide
    have connection : sendable ("Connection".toList, "keep-alive".toList) := ⟨by decide, by decide⟩
    rcases List.mem_pair.mp added with rfl | rfl
    · exact ⟨host, valid⟩
    · exact connection

/-- A request that was received can be built again for the upstream server. -/
theorem upstreamRequest_eq (valid : isValidFieldValue upstreamHostHeader = true)
    (made : Core.Made RequestDecoder.side (message.head, message.bodyKind))
    (closed : message.bodyKind ≠ .tunnel) :
    upstreamRequest upstreamHostHeader message.head message.bodyKind message.body =
      .ok (onward upstreamHostHeader message) := by
  obtain ⟨words, sendables, _⟩ := RequestDecoder.made_ok made
  have narrow : (Utf8.encode message.head.uri).any (fun byte => 0x80 ≤ byte) = false := by
    refine List.any_eq_false.mpr fun byte inside => ?_
    have bound := words.narrow byte inside
    simp only [decide_eq_true_eq, UInt8.not_le]
    exact bound
  have fresh : Request.new message.head.method message.head.uri =
      .ok ⟨message.head.method, message.head.uri, http11, [], none⟩ := by
    simp only [Request.new, Request.checkTarget, words.token, words.target, narrow]
    rfl
  -- The fields are copied one by one behind that.
  have copied := copyHeaders_eq
    (fun headers => (⟨message.head.method, message.head.uri, http11, headers, none⟩ : Request))
    (fun headers field valid => addHeader_request _ valid)
    (isSkippedInRequest (connectionHeaders message.head.headers)) sendables []
  have hosted : sendable ("Host".toList, upstreamHostHeader) :=
    ⟨(by decide : isValidHeaderName "Host".toList = true), valid⟩
  have kept : sendable ("Connection".toList, "keep-alive".toList) := ⟨by decide, by decide⟩
  simp only [upstreamRequest, fresh, Bind.bind, Except.bind, copied, addHeader_request _ hosted,
    addHeader_request _ kept]
  unfold onward Message.content
  cases kind : message.bodyKind with
  | tunnel => exact absurd kind closed
  | none | contentLength | chunked | closeDelimited =>
    simp [upstreamHeaders, requestFields, Request.setBody, pure, Except.pure]

/-- A request goes on under a host that may stand in a field only. -/
theorem upstreamRequest_valid {head : RequestHead} {bodyKind : BodyKind} {body : Bytes}
    {request : Request}
    (made : upstreamRequest upstreamHostHeader head bodyKind body = .ok request) :
    isValidFieldValue upstreamHostHeader = true := by
  simp only [upstreamRequest, Checked.bind_ok] at made
  obtain ⟨_, _, _, _, _, hosted, _⟩ := made
  exact addHeader_valid hosted

/-- The target of a request that goes on was told. -/
theorem onward_told (made : Core.Made RequestDecoder.side (message.head, message.bodyKind))
    (closed : message.bodyKind ≠ .tunnel) : Told message.head.method message.head.uri := by
  obtain ⟨words, _, tunnel⟩ := RequestDecoder.made_ok made
  obtain ⟨present, text⟩ := isValidRequestTarget_text words.target words.narrow
  exact ⟨present, text, fun connect => closed (tunnel.mpr connect), words.used⟩

/-- The encoder accepts the request that goes on exactly when the target admits its new host. -/
theorem onward_encodes (valid : isValidFieldValue upstreamHostHeader = true)
    (made : Core.Made RequestDecoder.side (message.head, message.bodyKind))
    (closed : message.bodyKind ≠ .tunnel)
    (filed : ¬ Misfiled message.head.method message.head.uri) :
    (∃ wire, encodeRequest (onward upstreamHostHeader message) = .ok wire) ↔
      (upstreamHostHeader = [] ∨ (Host.parse upstreamHostHeader).isOk = true) ∧
        hostAgrees message.head.uri upstreamHostHeader := by
  obtain ⟨words, sendables, tunnel⟩ := RequestDecoder.made_ok made
  have told := onward_told made closed
  obtain ⟨userless, hosted⟩ := told.rejects
  obtain ⟨uncoded, undeclared⟩ :=
    upstreamHeaders_unframed upstreamHostHeader message.head.headers
  have fields : validateRequestFields (onward upstreamHostHeader message) = .ok () := by
    have narrow : (Utf8.encode message.head.uri).any (fun byte => 0x7E < byte) = false := by
      refine List.any_eq_false.mpr fun byte inside => ?_
      simpa using told.text.ascii byte inside
    have version : isValidVersionForEncode http11 = true := by decide
    simp only [validateRequestFields, onward, Checked.bind_ok, Checked.reject_ok, words.token,
      words.target, narrow, told.accepted filed, version,
      validateHeaders_sendable (upstreamHeaders_sendable valid sendables), Bool.not_true]
    exact ⟨(), trivial, (), trivial, (), trivial, (), trivial, (), trivial, trivial⟩
  -- Without a declared length there is nothing to compare.
  have length : checkDeclaredLength (onward upstreamHostHeader message).headers
      (onward upstreamHostHeader message).body = .ok () := by
    have values : getHeaders (onward upstreamHostHeader message).headers "Content-Length".toList =
        [] := by
      have absent := hasHeader_eq (onward upstreamHostHeader message).headers "Content-Length".toList
      rw [show hasHeader (onward upstreamHostHeader message).headers _ = false from undeclared] at absent
      simpa using absent
    rw [checkDeclaredLength, Checked.onlyIf_ok, checkLength, validateContentLengthHeaders, values]
    exact fun _ => rfl
  have agrees := told.hostAgrees_iff filed upstreamHostHeader
  have host : validateHostHeader (onward upstreamHostHeader message) = .ok () ↔
      (upstreamHostHeader = [] ∨ (Host.parse upstreamHostHeader).isOk = true) ∧
        hostAgrees message.head.uri upstreamHostHeader := by
    have same : (onward upstreamHostHeader message).version = http11 := rfl
    have method : (onward upstreamHostHeader message).method = message.head.method := rfl
    have uri : (onward upstreamHostHeader message).uri = message.head.uri := rfl
    have one : getHeaders (onward upstreamHostHeader message).headers "Host".toList =
        [upstreamHostHeader] := upstreamHeaders_host _ _
    unfold validateHostHeader
    rw [if_neg (not_not.mpr same), one, method, uri, agrees]
    simp only [Checked.bind_ok, Checked.reject_ok, 
      decide_eq_false fun connect => closed (tunnel.mpr connect)]
    constructor
    · rintro ⟨_, accepted, _, authority, _, _, absent⟩
      exact ⟨by simpa [or_iff_not_imp_left] using accepted, authority, absent⟩
    · rintro ⟨accepted, authority, absent⟩
      exact ⟨(), by simpa [or_iff_not_imp_left] using accepted, (), authority, (), rfl, absent⟩
  simp only [encodeRequest, checkRequest, Checked.bind_ok, Checked.reject_ok, fields,
    show rejectHttpUserinfo (onward upstreamHostHeader message).uri = _ from userless,
    show rejectHttpEmptyHost (onward upstreamHostHeader message).uri = _ from hosted, host, length,
    show hasHeader (onward upstreamHostHeader message).headers "Transfer-Encoding".toList = _
      from uncoded]
  constructor
  · rintro ⟨_, _, ⟨_, _, _, _, _, _, _, accepted, _⟩, _⟩
    exact accepted
  · intro accepted
    exact ⟨_, (), ⟨(), trivial, (), trivial, (), trivial, (), accepted, rfl⟩, (), trivial, rfl⟩

end Onward

/-- A decoder accepts the request line of a checked request with a target that its method may use. -/
theorem checkStartLine_used {request : Request} (checked : request.Checked)
    (versioned : isValidProtocolVersion request.version = true)
    (used : ∃ form, parseRequestTargetForm request.uri = .ok form ∧
      validateRequestTargetForMethod request.method form = .ok ()) :
    RequestDecoder.checkStartLine request.startText = .ok () := by
  obtain ⟨form, parsed, allowed⟩ := used
  obtain ⟨parts, _⟩ := Request.startText_words checked versioned
  obtain ⟨noReturn, noFeed⟩ := Request.startText_plain checked versioned
  -- A target of a request has ASCII characters only.
  have narrow : (Utf8.encode request.uri).any (fun byte => 0x80 ≤ byte) = false := by
    refine List.any_eq_false.mpr fun byte inside => ?_
    have bound := checked.ascii byte inside
    simp only [decide_eq_true_eq, UInt8.not_le]
    exact UInt8.lt_of_le_of_lt bound (by decide)
  rw [RequestDecoder.checkStartLine, if_neg (by simp [noReturn, noFeed]), parts]
  simp only [Checked.bind_ok, Checked.reject_ok, checked.method, checked.target, narrow, versioned,
    Bool.not_true]
  exact ⟨(), trivial, (), trivial, (), trivial, form, parsed, (), allowed, trivial⟩

/-- A message that was received and what was written for it to the upstream server. -/
structure SentOn (upstreamHostHeader : Str) (message : Message RequestHead) (wire : Bytes) :
    Prop where
  /-- The message was made of checked lines. -/
  made : Core.Made RequestDecoder.side (message.head, message.bodyKind)
  /-- It asks for no tunnel. -/
  closed : message.bodyKind ≠ .tunnel
  /-- Its bytes are those of the encoder. -/
  encoded : encodeRequest (onward upstreamHostHeader message) = .ok wire

/-- A request that goes on is read as itself, and nothing behind it. -/
theorem SentOn.reads {upstreamHostHeader : Str} {message : Message RequestHead} {wire : Bytes}
    (sent : SentOn upstreamHostHeader message wire) (fits : wire.length ≤ usizeMax)
    (done : List (Message RequestHead)) (rest : Bytes) :
    (Reader.machine RequestDecoder.side none).Reaches
      (Reader.ready .unlimited () done (wire ++ rest))
      (Reader.ready .unlimited () (done ++ [(onward upstreamHostHeader message).message]) rest) := by
  obtain ⟨words, _, tunnel⟩ := RequestDecoder.made_ok sent.made
  have versioned : isValidProtocolVersion http11 = true := by decide
  have encodes : (onward upstreamHostHeader message).Encoded wire :=
    ⟨versioned, fun connect => sent.closed (tunnel.mpr connect), (upstreamHeaders_unframed _ _).1,
      sent.encoded⟩
  have started := checkStartLine_used encodes.ok.1 versioned words.used
  exact encodes.reads started fits (Decoder.going_none done) rest

/-- What was written to one connection for several messages. -/
def sentBytes (sent : List (Message RequestHead × Bytes)) : Bytes := (sent.map Prod.snd).flatten

/-- Requests that go on are read one after the other. -/
theorem reads_sentOn {upstreamHostHeader : Str} (sent : List (Message RequestHead × Bytes))
    (each : ∀ pair ∈ sent, SentOn upstreamHostHeader pair.1 pair.2)
    (fits : (sentBytes sent).length ≤ usizeMax) (done : List (Message RequestHead)) :
    (Reader.machine RequestDecoder.side none).Reaches
      (Reader.ready .unlimited () done (sentBytes sent))
      (Reader.ready .unlimited ()
        (done ++ sent.map fun pair => (onward upstreamHostHeader pair.1).message) []) := by
  -- The first request leaves the same situation with fewer of them.
  induction sent generalizing done with
  | nil => simpa [sentBytes] using Incremental.Reaches.refl
  | cons pair sent ih =>
    have whole : sentBytes (pair :: sent) = pair.2 ++ sentBytes sent := rfl
    rw [whole, List.length_append] at fits
    obtain ⟨first, others⟩ := List.forall_mem_cons.mp each
    have now := first.reads (by omega) done (sentBytes sent)
    have later := ih others (by omega) (done ++ [(onward upstreamHostHeader pair.1).message])
    rw [whole]
    simpa using now.trans later

/-- The upstream server receives the requests that go on, however its bytes are cut. -/
theorem across_sentOn {upstreamHostHeader : Str} (sent : List (Message RequestHead × Bytes))
    (each : ∀ pair ∈ sent, SentOn upstreamHostHeader pair.1 pair.2) (fragments : List Bytes)
    (whole : fragments.flatten = sentBytes sent) (fits : (sentBytes sent).length ≤ usizeMax) :
    let run := DecodeRun.across .unlimited fragments
    run.requests = sent.map (fun pair => (onward upstreamHostHeader pair.1).received) ∧
      run.failed = none ∧ run.decoder.remaining = [] := by
  intro run
  obtain ⟨reader, follows, reached, settled⟩ := DecodeRun.across_follows .unlimited fragments
  rw [whole] at reached
  change (Reader.machine RequestDecoder.side none).Reaches
    (Reader.ready .unlimited () [] (sentBytes sent)) reader at reached
  -- The reader gets to the end of the requests, where it waits.
  have read := reads_sentOn sent each fits []
  have waits : (Reader.machine RequestDecoder.side none).Settled (Reader.ready .unlimited ()
      ([] ++ sent.map fun pair => (onward upstreamHostHeader pair.1).message) []) :=
    Reader.settled_head (.inl rfl) rfl
  have same := reached.settled_unique settled read waits
  subst same
  refine ⟨?_, follows.failed, ?_⟩
  · rw [show run.requests = _ from follows.requests]
    simp [Reader.ready, Request.request_message, Function.comp_def]
  · have buffered := follows.buffered
    change [] = run.decoder.buf ++ run.unfed at buffered
    exact (List.append_eq_nil_iff.mp buffered.symm).1

end ReverseProxy

open ReverseProxy Decoder

namespace ProxyRequest

variable {upstreamHostHeader : Str} {run : ProxyRequest} {input : Bytes}

/-- The reader of a client, before anything has arrived. -/
def fresh : Reader RequestHead Unit := (RequestDecoder.withLimits {}).view []

/-- A run that has read a part of its input so far, inside its request. -/
structure Receiving (input : Bytes) (run : ProxyRequest) (read : Bytes) : Prop where
  /-- What was read and what waits are what has arrived. -/
  whole : input = read ++ run.waiting
  /-- The run goes on. -/
  going : run.outcome = none
  /-- The decoder is in step with a reader of what was read. -/
  inStep : InStep RequestDecoder.side (fresh.feed read) run.decoder run.current run.body
  /-- Before a head there is no body. -/
  between : run.current = none → run.body = []

/-- What goes on is the first message of the input. -/
def Forwards (upstreamHostHeader : Str) (input : Bytes) (request : Request) : Prop :=
  ∃ message reader, (Reader.machine RequestDecoder.side (some 1)).Reaches (fresh.feed input) reader ∧
    reader.done = [message] ∧ message.bodyKind ≠ .tunnel ∧
    request = onward upstreamHostHeader message

/-- How a run stands to its input. -/
def Follows (upstreamHostHeader : Str) (input : Bytes) (run : ProxyRequest) : Prop :=
  (∃ read, run.Receiving input read) ∨
    run.outcome.isSome = true ∧
      (isValidFieldValue upstreamHostHeader = true →
        ∀ error, run.outcome ≠ some (.failed (.encoder error))) ∧
      ∀ request, run.outcome = some (.forwards request) →
        Forwards upstreamHostHeader input request

/-- What a reader of a client has read was made of checked lines. -/
theorem reached_checked {read : Bytes} {reader : Reader RequestHead Unit}
    (reached : (Reader.machine RequestDecoder.side (some 1)).Reaches (fresh.feed read) reader) :
    reader.Checked RequestDecoder.side := by
  refine Reader.reaches_checked reached ⟨Core.parsed_fresh rfl rfl, ?_, ?_⟩
  · exact fun decoded current => nomatch current
  · exact fun message inside => absurd inside List.not_mem_nil

/-- A message that was read goes on. -/
theorem received_forwards (valid : isValidFieldValue upstreamHostHeader = true) {read : Bytes}
    (waiting : Bytes) {reader : Reader RequestHead Unit} {message : Message RequestHead}
    (reached : (Reader.machine RequestDecoder.side (some 1)).Reaches (fresh.feed read) reader)
    (done : reader.done = [message]) (closed : message.bodyKind ≠ .tunnel) :
    received upstreamHostHeader message.head message.bodyKind message.body =
        .forwards (onward upstreamHostHeader message) ∧
      Forwards upstreamHostHeader (read ++ waiting) (onward upstreamHostHeader message) := by
  have made := (reached_checked reached).done message (by simp [done])
  refine ⟨?_, message, reader.feed waiting, ?_, done, closed, rfl⟩
  · rw [received, if_neg closed, upstreamRequest_eq valid made closed]
  · -- What waits behind the message does not change it.
    have behind : (Reader.machine RequestDecoder.side (some 1)).Reaches
        ((fresh.feed read).feed waiting) (reader.feed waiting) := reached.feed waiting
    rwa [Reader.feed_feed] at behind

/-- Nothing follows a run that has come to something but what it has come to. -/
theorem follows_failed (failure : Failure) (other : ∀ error, failure ≠ .encoder error)
    (same : run.outcome = some (.failed failure)) : run.Follows upstreamHostHeader input := by
  -- It has come to an end that is neither a request nor an encoding error.
  refine .inr ⟨by rw [same]; rfl, ?_, ?_⟩
  · rintro _ error found
    rw [same] at found
    cases found
    exact other error rfl
  · rintro request found
    rw [same] at found
    cases found

/-- A message that was read is what the run has come to. -/
theorem follows_forwards {read waiting : Bytes} {reader : Reader RequestHead Unit}
    {message : Message RequestHead}
    (reached : (Reader.machine RequestDecoder.side (some 1)).Reaches (fresh.feed read) reader)
    (done : reader.done = [message]) (closed : message.bodyKind ≠ .tunnel)
    (same : run.outcome = some (received upstreamHostHeader message.head message.bodyKind
      message.body)) : run.Follows upstreamHostHeader (read ++ waiting) := by
  refine .inr ⟨by rw [same]; rfl, ?_, ?_⟩
  · rintro valid error found
    rw [same, (received_forwards valid waiting reached done closed).1] at found
    cases found
  · rintro request found
    rw [same] at found
    -- A host that may not stand in a field stops every request.
    have valid : isValidFieldValue upstreamHostHeader = true := by
      simp only [received, if_neg closed, Option.some.injEq] at found
      split at found
      · cases found
      · rename_i built
        exact upstreamRequest_valid built
    obtain ⟨goes, forwards⟩ := received_forwards valid waiting reached done closed
    rw [goes] at found
    cases found
    exact forwards

/-- The answer to a request for a tunnel can be sent. -/
theorem received_tunnel (upstreamHostHeader : Str) (head : RequestHead) (body : Bytes) :
    ∃ bytes, received upstreamHostHeader head .tunnel body = .rejected bytes := by
  have answer : (rejectConnect >>= encodeResponse).isOk = true := by decide +kernel
  unfold received
  rw [if_pos rfl]
  -- The answer is fixed, and evaluating it shows that it is encoded.
  cases encoded : rejectConnect >>= encodeResponse with
  | ok bytes => exact ⟨bytes, rfl⟩
  | error error =>
    rw [encoded] at answer
    cases answer

/-- What follows a head follows the reader. -/
theorem receiveBody_follows {read : Bytes} (receiving : run.Receiving input read)
    {head : RequestHead} {bodyKind : BodyKind} (current : run.current = some (head, bodyKind)) :
    (run.receiveBody upstreamHostHeader head bodyKind).Follows upstreamHostHeader input := by
  have inStep := receiving.inStep
  rw [current] at inStep
  have proper := inStep.proper RequestDecoder.side_lawful
  have notClose := RequestDecoder.not_closeDelimited proper.determined rfl
  rw [receiving.whole]
  unfold receiveBody
  by_cases tunnel : bodyKind = .tunnel
  · -- A request for a tunnel is answered at once.
    subst tunnel
    obtain ⟨bytes, answer⟩ := received_tunnel upstreamHostHeader head run.body
    rw [if_pos (by simp), answer]
    exact .inr ⟨rfl, nofun, nofun⟩
  by_cases bodiless : bodyKind = .none
  · subst bodiless
    obtain ⟨phase, empty, untrailed⟩ := Reader.complete_of_bodiless proper.consistent rfl
    have onward := inStep.reached.trans (streaming_after InStep.going phase rfl empty rfl rfl
      untrailed phase rfl)
    rw [if_pos (by simp), show run.body = [] from empty]
    exact follows_forwards onward rfl (by simp) rfl
  · rw [if_neg (by simp [tunnel, bodiless])]
    have took := inStep.takeBody RequestDecoder.side_lawful ⟨notClose, tunnel⟩
    rcases taken : run.decoder.takeBody with ⟨error | _ | trailers, decoder, pieces⟩ <;>
      rw [taken] at took
    · exact follows_failed (.decoder error) nofun rfl
    · refine .inl ⟨read, rfl, receiving.going, ?_, ?_⟩
      · dsimp only
        rw [current]
        exact took.1
      · intro between
        rw [show run.current = none from between] at current
        cases current
    · exact follows_forwards took rfl tunnel rfl

/-- What follows a read follows the reader. -/
theorem receive_follows {read : Bytes} (receiving : run.Receiving input read) :
    (run.receive upstreamHostHeader).Follows upstreamHostHeader input := by
  unfold receive
  -- A message whose head is there goes on with its body, otherwise a head is read.
  cases current : run.current with
  | some decoded => exact receiveBody_follows receiving current
  | none =>
    have inStep := receiving.inStep
    rw [current, receiving.between current] at inStep
    have headed := inStep.decodeHeaders RequestDecoder.side_lawful
    dsimp only [RequestDecoder.decodeHeaders]
    rcases decoded : run.decoder.onCore (Core.decodeHeaders RequestDecoder.side) with
      ⟨error | _ | ⟨head, bodyKind⟩, decoder⟩ <;> rw [decoded] at headed
    · -- The head is refused, awaited or there.
      exact follows_failed (.decoder error) nofun rfl
    · refine .inl ⟨read, receiving.whole, receiving.going, ?_,
        fun _ => receiving.between current⟩
      dsimp only
      rw [receiving.between current]
      exact headed.1
    · have opened : Receiving input
          { run with decoder, current := some (head, bodyKind) } read := by
        refine ⟨receiving.whole, receiving.going, ?_, nofun⟩
        dsimp only
        rw [receiving.between current]
        exact headed.1
      exact receiveBody_follows opened rfl

/-- The check for room leaves a run where it is, or gives it up. -/
theorem checkRoom_follows (follows : run.Follows upstreamHostHeader input) :
    run.checkRoom.Follows upstreamHostHeader input := by
  unfold checkRoom
  split
  · exact follows_failed (.said _) nofun rfl
  · exact follows

/-- A read keeps a run in step with its input. -/
theorem read_follows (count : Nat) (follows : run.Follows upstreamHostHeader input) :
    (run.read upstreamHostHeader count).Follows upstreamHostHeader input := by
  unfold read
  -- A run that is over, or has nothing to read, stays as it is.
  split
  · exact follows
  · rename_i idle
    simp only [Bool.or_eq_true, not_or, Bool.not_eq_true] at idle
    rcases follows with ⟨read, receiving⟩ | ⟨past, _⟩
    · have roomy := receiving.inStep.roomy
      obtain ⟨room, there⟩ := granted_le readChunk count run.decoder run.waiting
      rw [receive_eq roomy]
      dsimp only
      generalize run.decoder.granted readChunk count run.waiting = returned at room there ⊢
      -- The read is granted no more than fits into the buffer.
      have short : (run.waiting.take returned).length ≤ run.decoder.availableBuf := by
        rw [List.length_take]
        omega
      have fed := receiving.inStep.feed short
      rw [Reader.feed_feed] at fed
      have ready : Receiving input { run with
          decoder := run.decoder.feedUnchecked (run.waiting.take returned)
          waiting := run.waiting.drop returned } (read ++ run.waiting.take returned) := by
        refine ⟨?_, receiving.going, fed, receiving.between⟩
        rw [receiving.whole, List.append_assoc, List.take_append_drop]
      exact checkRoom_follows (receive_follows ready)
    · -- A run that has come to something is not read from.
      rw [past] at idle
      cases idle.1

/-- Whatever happens, a run stays in step with its input. -/
theorem happen_follows (happening : Happening)
    (follows : run.Follows upstreamHostHeader input) :
    (happen upstreamHostHeader run happening).Follows upstreamHostHeader
      (input ++ happening.input) := by
  have same : input ++ [] = input := List.append_nil input
  -- Bytes are added, some of them are read, or the connection is closed or breaks.
  cases happening with
  | arrives data =>
    rcases follows with ⟨read, receiving⟩ | ⟨past, sound, forwards⟩
    · refine .inl ⟨read, ?_, receiving.going, receiving.inStep, receiving.between⟩
      simp [happen, Happening.input, receiving.whole]
    · -- What the run has come to stays, and its reader takes the bytes as well.
      refine .inr ⟨past, sound, fun request found => ?_⟩
      obtain ⟨message, reader, reached, rest⟩ := forwards request found
      have behind : (Reader.machine RequestDecoder.side (some 1)).Reaches
          ((fresh.feed input).feed data) (reader.feed data) := reached.feed data
      rw [Reader.feed_feed] at behind
      exact ⟨message, reader.feed data, behind, rest⟩
  | reads count => exact same.symm ▸ read_follows count follows
  | closes =>
    refine same.symm ▸ ?_
    change run.close.Follows _ _
    unfold close
    -- The close is nothing new, finds nothing begun, or cuts a message short.
    split
    · exact follows
    · split
      · exact .inr ⟨rfl, nofun, nofun⟩
      · exact follows_failed (.said _) nofun rfl
  | breaks =>
    refine same.symm ▸ ?_
    -- Breaking ends a run that is going on, and leaves any other as it was.
    change Follows _ _ { run with outcome := some (run.outcome.getD (.failed .connection)) }
    rcases follows with ⟨read, receiving⟩ | ⟨past, sound, forwards⟩
    · have broken : some (run.outcome.getD (.failed .connection)) = some (.failed .connection) := by
        rw [receiving.going]
        rfl
      exact follows_failed .connection nofun broken
    · obtain ⟨outcome, found⟩ := Option.isSome_iff_exists.mp past
      rw [found] at sound forwards
      simp only [found, Option.getD_some]
      exact .inr ⟨rfl, sound, forwards⟩

/-- A client stays in step with a reader of all that it has sent. -/
theorem across_follows (upstreamHostHeader : Str) (happenings : List Happening) :
    (across upstreamHostHeader happenings).Follows upstreamHostHeader (arrived happenings) := by
  -- One happening after the other adds its bytes to the input.
  induction happenings using List.reverseRecOn with
  | nil =>
    have sound : fresh.Proper RequestDecoder.side :=
      view_fresh RequestDecoder.side rfl rfl rfl rfl rfl rfl
    have roomy : (RequestDecoder.withLimits {}).Roomy := ⟨rfl, by decide, by decide⟩
    exact .inl ⟨[], rfl, rfl, ⟨sound, roomy, .refl⟩, fun _ => rfl⟩
  | append_singleton happenings happening ih =>
    have later := happen_follows happening ih
    simpa [across, arrived] using later

/-- What was written to the upstream server for a client with which some things happened. -/
def Sends (upstreamHostHeader : Str) (happenings : List Happening) (wire : Bytes) : Prop :=
  ∃ request, (across upstreamHostHeader happenings).outcome = some (.forwards request) ∧
    encodeRequest request = .ok wire

/-- The first message that a client has sent. -/
def IsFirst (happenings : List Happening) (message : Message RequestHead) : Prop :=
  ∃ reader, (Reader.machine RequestDecoder.side (some 1)).Reaches
    (fresh.feed (arrived happenings)) reader ∧ reader.done = [message]

/-- What was written for a client was written for its first message. -/
theorem Sends.sentOn {happenings : List Happening} {wire : Bytes}
    (sends : Sends upstreamHostHeader happenings wire) :
    ∃ message, IsFirst happenings message ∧ SentOn upstreamHostHeader message wire := by
  obtain ⟨request, forwarded, encoded⟩ := sends
  -- Only a run that has come to a request has written one.
  rcases across_follows upstreamHostHeader happenings with ⟨_, receiving⟩ | ⟨_, _, forwards⟩
  · rw [receiving.going] at forwarded
    cases forwarded
  · obtain ⟨message, reader, reached, done, closed, rfl⟩ := forwards request forwarded
    have made := (reached_checked reached).done message (by simp [done])
    exact ⟨message, ⟨reader, reached, done⟩, made, closed, encoded⟩

/--
The proxy sends on what a client has asked for first, and knows when it cannot.

However the bytes arrive and are read, no request is refused while it is built for the upstream
server, and what goes on is the first message of the client with its fields for one connection
replaced. It can be encoded exactly when the target agrees with the host of the upstream server.
-/
theorem across_forwards {upstreamHostHeader : Str}
    (valid : isValidFieldValue upstreamHostHeader = true) (happenings : List Happening) :
    (∀ error, (across upstreamHostHeader happenings).outcome ≠ some (.failed (.encoder error))) ∧
      ∀ request, (across upstreamHostHeader happenings).outcome = some (.forwards request) →
        ∃ message, IsFirst happenings message ∧ request = onward upstreamHostHeader message ∧
          (¬ Misfiled message.head.method message.head.uri →
            ((∃ wire, encodeRequest request = .ok wire) ↔
              (upstreamHostHeader = [] ∨ (Host.parse upstreamHostHeader).isOk = true) ∧
                hostAgrees message.head.uri upstreamHostHeader)) := by
  -- A run that is going on has come to nothing yet.
  rcases across_follows upstreamHostHeader happenings with ⟨_, receiving⟩ | ⟨_, sound, forwards⟩
  · rw [receiving.going]
    exact ⟨nofun, nofun⟩
  · refine ⟨sound valid, fun request forwarded => ?_⟩
    obtain ⟨message, reader, reached, done, closed, rfl⟩ := forwards request forwarded
    have made := (reached_checked reached).done message (by simp [done])
    exact ⟨message, ⟨reader, reached, done⟩, rfl, onward_encodes valid made closed⟩

/-- A request whose fields and body arrive in pieces, with another request behind it. -/
def posted : List Happening :=
  [.arrives (Utf8.encode ("POST /x HTTP/1.1\r\nHost: a\r\nConnection: x-y\r\nX-Y: 1\r\n" ++
      "Content-Length: 2\r\n\r\nh").toList), .reads 50, .reads 4096,
    .arrives (Utf8.encode "iGET / HTTP/1.1\r\n".toList), .reads 4096]

/-- The request in pieces goes on. -/
theorem across_forwards_posted : isValidFieldValue "up:81".toList = true ∧
    (∀ error, (across "up:81".toList posted).outcome ≠ some (.failed (.encoder error))) ∧
      ∀ request, (across "up:81".toList posted).outcome = some (.forwards request) →
        ∃ message, IsFirst posted message ∧ request = onward "up:81".toList message ∧
          (¬ Misfiled message.head.method message.head.uri →
            ((∃ wire, encodeRequest request = .ok wire) ↔
              ("up:81".toList = [] ∨ (Host.parse "up:81".toList).isOk = true) ∧
                hostAgrees message.head.uri "up:81".toList)) := by
  have valid : isValidFieldValue "up:81".toList = true := by decide
  exact ⟨valid, across_forwards valid posted⟩

end ProxyRequest

namespace ReverseProxy

open ProxyRequest

/-- The bytes for some clients are those for their first messages. -/
theorem sentOn_of_sends {upstreamHostHeader : Str} {clients : List (List Happening × Bytes)}
    (each : ∀ client ∈ clients, Sends upstreamHostHeader client.1 client.2) :
    ∃ sent : List (Message RequestHead × Bytes),
      (∀ pair ∈ sent, SentOn upstreamHostHeader pair.1 pair.2) ∧
        List.Forall₂ (fun client pair => IsFirst client.1 pair.1 ∧ client.2 = pair.2) clients
          sent := by
  -- Each client is taken with its first message.
  induction clients with
  | nil => exact ⟨[], by simp, .nil⟩
  | cons client clients ih =>
    obtain ⟨first, others⟩ := List.forall_mem_cons.mp each
    obtain ⟨message, isFirst, sentOn⟩ := first.sentOn
    obtain ⟨sent, sentOns, firsts⟩ := ih others
    exact ⟨(message, client.2) :: sent, List.forall_mem_cons.mpr ⟨sentOn, sentOns⟩,
      .cons ⟨isFirst, rfl⟩ firsts⟩

/--
No client of the proxy can send a request in the name of another one.

The upstream server receives on one connection, however the bytes are cut, one request for each
client for which something was written to it: the first one of this client, as the proxy sends it
on. Nothing else is received, and nothing is refused.
-/
theorem upstream_receives (upstreamHostHeader : Str) (clients : List (List Happening × Bytes))
    (each : ∀ client ∈ clients, Sends upstreamHostHeader client.1 client.2)
    (fragments : List Bytes) (whole : fragments.flatten = (clients.map Prod.snd).flatten)
    (fits : fragments.flatten.length ≤ usizeMax) :
    (DecodeRun.across .unlimited fragments).failed = none ∧
      (DecodeRun.across .unlimited fragments).decoder.remaining = [] ∧
      List.Forall₂ (fun client request => ∃ message, IsFirst client.1 message ∧
        request = (onward upstreamHostHeader message).received)
        clients (DecodeRun.across .unlimited fragments).requests := by
  -- The bytes of all clients are those of their first messages, one behind the other.
  obtain ⟨sent, sentOns, firsts⟩ := sentOn_of_sends each
  have wires : clients.map Prod.snd = sent.map Prod.snd := by
    rw [← List.forall₂_eq_eq_eq, List.forall₂_map_left_iff, List.forall₂_map_right_iff]
    exact firsts.imp fun client pair first => first.2
  rw [wires] at whole
  have bounded : (sentBytes sent).length ≤ usizeMax := by
    unfold sentBytes
    rwa [← whole]
  obtain ⟨received, unfailed, empty⟩ := across_sentOn sent sentOns fragments whole bounded
  refine ⟨unfailed, empty, ?_⟩
  rw [received, List.forall₂_map_right_iff]
  exact firsts.imp fun client pair first => ⟨pair.1, first.1, rfl⟩

/-- The upstream server receives the requests of two clients, cut inside of the second one. -/
theorem upstream_receives_two :
    let first := Utf8.encode ("POST /x HTTP/1.1\r\nHost: up:81\r\nConnection: keep-alive\r\n" ++
      "Content-Length: 2\r\n\r\nhi").toList
    let second := Utf8.encode ("GET / HTTP/1.1\r\nHost: up:81\r\nConnection: keep-alive\r\n" ++
      "\r\n").toList
    let asked : List Happening :=
      [.arrives (Utf8.encode "GET / HTTP/1.1\r\nHost: b\r\nTE: c\r\n\r\n".toList), .reads 4096]
    let clients := [(posted, first), (asked, second)]
    let fragments := [first ++ second.take 9, second.drop 9]
    (DecodeRun.across .unlimited fragments).failed = none ∧
      (DecodeRun.across .unlimited fragments).decoder.remaining = [] ∧
      List.Forall₂ (fun client request => ∃ message, IsFirst client.1 message ∧
        request = (onward "up:81".toList message).received)
        clients (DecodeRun.across .unlimited fragments).requests := by
  intro first second asked clients fragments
  have sendsFirst : Sends "up:81".toList posted first :=
    ⟨⟨"POST".toList, "/x".toList, http11,
      [("Host".toList, "up:81".toList), ("Connection".toList, "keep-alive".toList)],
      some [104, 105]⟩, by decide +kernel, by decide +kernel⟩
  have sendsSecond : Sends "up:81".toList asked second :=
    ⟨⟨"GET".toList, "/".toList, http11,
      [("Host".toList, "up:81".toList), ("Connection".toList, "keep-alive".toList)], none⟩,
      by decide +kernel, by decide +kernel⟩
  have whole : fragments.flatten = (clients.map Prod.snd).flatten := by decide +kernel
  have fits : fragments.flatten.length ≤ usizeMax := by decide +kernel
  refine upstream_receives "up:81".toList clients ?_ fragments whole fits
  intro client inside
  rcases List.mem_pair.mp inside with rfl | rfl
  · exact sendsFirst
  · exact sendsSecond

end ReverseProxy

end Http11

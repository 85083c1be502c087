import Http11.Proofs.Decoder.Accepted
import Http11.Proofs.Decoder.FieldLine
import Http11.Proofs.Decoder.Heads
import Http11.Proofs.Validate

/-! A transfer encoding decides how a body is framed, or its head is refused. -/

namespace Http11

/-- A field of a given name is missing when there are no values of it. -/
theorem hasHeader_eq_false {headers : Headers} {name : Str} :
    hasHeader headers name = false ↔ getHeaders headers name = [] := by
  simp [hasHeader, getHeaders]

/-- A chunked coding is accepted as the first one only. -/
theorem checkCoding_true {chunkedCount : Nat} {token : Str}
    (checked : checkCoding chunkedCount token = .ok true) : chunkedCount = 0 := by
  unfold checkCoding at checked
  split at checked
  · cases checked
  -- Of the valid codings only chunked is accepted, without parameters and once.
  split at checked
  · split at checked
    · cases checked
    split at checked
    · cases checked
    · omega
  · cases checked

/-- The codings of a request that was accepted, where there are any, are the chunked one. -/
theorem parseTransferEncodingForRequest_present {headers : Headers} {chunked : Bool}
    (present : fieldElements headers "Transfer-Encoding".toList ≠ [])
    (parsed : parseTransferEncodingForRequest headers = .ok chunked) : chunked = true := by
  simp only [parseTransferEncodingForRequest, Checked.bind_ok] at parsed
  obtain ⟨chunkedCount, folded, counted⟩ := parsed
  -- A step starts from no chunked coding and leaves one, so there is one step only.
  have step : ∀ count next token,
      (do if ← checkCoding count token then pure (count + 1)
          else .error (.invalidData "invalid Transfer-Encoding: unsupported coding") :
        Except Error Nat) = .ok next → count = 0 ∧ next = 1 := by
    intro count next token stepped
    simp only [Checked.bind_ok] at stepped
    obtain ⟨isChunked, checked, added⟩ := stepped
    cases isChunked with
    | false => cases added
    | true =>
      cases checkCoding_true checked
      cases added
      exact ⟨rfl, rfl⟩
  have once : chunkedCount = 1 := by
    refine Checked.foldlM_establishes (motive := (· = 1)) present ?_ ?_ folded
    · intro next token stepped
      exact (step _ _ _ stepped).2
    · intro count next token _ stepped
      exact (step _ _ _ stepped).2
  cases counted
  simp [once]

/-- The codings of a response that was accepted, where there are any, decide its framing. -/
theorem parseTransferEncodingForResponse_present {headers : Headers}
    {result : TransferEncodingResult}
    (present : fieldElements headers "Transfer-Encoding".toList ≠ [])
    (parsed : parseTransferEncodingForResponse headers = .ok result) : result ≠ .none := by
  simp only [parseTransferEncodingForResponse, Checked.bind_ok] at parsed
  obtain ⟨⟨allTokens, chunkedCount⟩, folded, decided⟩ := parsed
  have collected : allTokens ≠ [] := by
    -- Each coding is added to those collected, so any coding at all makes the list filled.
    refine Checked.foldlM_establishes (motive := fun state => state.1 ≠ []) present ?_ ?_ folded
    · intro next token stepped
      simp only [Checked.bind_ok] at stepped
      obtain ⟨isChunked, _, added⟩ := stepped
      cases added
      simp
    · rintro ⟨tokens, count⟩ next token _ stepped
      simp only [Checked.bind_ok] at stepped
      obtain ⟨isChunked, _, added⟩ := stepped
      cases added
      simp
  dsimp only at decided
  rw [if_neg (by simpa using collected)] at decided
  -- With codings collected only the other two results are left.
  split at decided <;> cases decided <;> simp

/-- Without a length there is no field that would declare one. -/
theorem parseContentLength_none {headers : Headers} (parsed : parseContentLength headers = .ok none) :
    hasHeader headers "Content-Length".toList = false := by
  rw [hasHeader_eq_false]
  by_contra present
  have declared : (none : Option Nat) ≠ none := by
    -- The first length found is kept, so any field at all leaves a length.
    refine Checked.foldlM_establishes (motive := (· ≠ none)) present ?_ ?_ parsed
    · intro next raw stepped
      simp only [Checked.bind_ok] at stepped
      obtain ⟨value, _, added⟩ := stepped
      cases added
      simp
    · intro state next raw _ stepped
      simp only [Checked.bind_ok] at stepped
      obtain ⟨value, _, added⟩ := stepped
      cases state with
      -- A further length must agree with the first, and is kept.
      | none => cases added; simp
      | some prev =>
        dsimp only at added
        split at added <;> cases added
        simp
  exact declared rfl

namespace RequestDecoder

/-- What a request line is checked for: three words, and a target that the method may use. -/
structure Words (method uri version : Str) : Prop where
  /-- The method is a token. -/
  token : isValidMethod method = true
  /-- The target is well formed. -/
  target : isValidRequestTarget uri = true
  /-- The target is ASCII. -/
  narrow : ∀ byte ∈ Utf8.encode uri, byte < 0x80
  /-- The target has a form that the method may use. -/
  used : ∃ form, parseRequestTargetForm uri = .ok form ∧
    validateRequestTargetForMethod method form = .ok ()
  /-- The version is well formed. -/
  versioned : isValidProtocolVersion version = true

/-- A checked request line is a method, a target and a version, each without a space. -/
theorem checkStartLine_ok {line : Str} (checked : checkStartLine line = .ok ()) :
    ∃ method uri version, Words method uri version ∧
      line = method ++ ' ' :: (uri ++ ' ' :: version) ∧
      splitn 3 ' ' line = [method, uri, version] ∧
      line.splitOn ' ' = [method, uri, version] := by
  unfold checkStartLine at checked
  split at checked
  · cases checked
  split at checked
  · rename_i method uri version parts
    simp only [Checked.bind_ok, Checked.reject_ok, Bool.not_eq_false'] at checked
    obtain ⟨_, methodValid, _, uriValid, _, narrow, form, parsed, _, used, versionValid⟩ := checked
    refine ⟨method, uri, version,
      ⟨methodValid, uriValid, by simpa using narrow, ⟨form, parsed, used⟩, versionValid⟩, ?_⟩
    -- The version has no space, so the line has exactly the two the parts stand around.
    have versionPlain : ' ' ∉ version :=
      not_mem_of_plain _ (by decide) (isValidProtocolVersion_plain versionValid).2
    simp only [splitn] at parts ⊢
    cases first : splitOnce ' ' line with
    | none => simp [first] at parts
    | some pair =>
      obtain ⟨front, back⟩ := pair
      obtain ⟨rfl, frontPlain⟩ := splitOnce_some first
      cases second : splitOnce ' ' back with
      | none => simp [first, second] at parts
      | some pair =>
        obtain ⟨middle, last⟩ := pair
        obtain ⟨rfl, middlePlain⟩ := splitOnce_some second
        simp only [first, second, List.cons.injEq, and_true] at parts
        obtain ⟨rfl, rfl, rfl⟩ := parts
        refine ⟨rfl, by simp only [second], ?_⟩
        rw [List.splitOn_append_cons_self_of_not_mem frontPlain,
          List.splitOn_append_cons_self_of_not_mem middlePlain,
          List.splitOn_eq_singleton versionPlain]
  · cases checked

/-- What the lines of a head say that was made of them: its words, its fields, and its tunnel. -/
theorem made_ok {head : RequestHead} {bodyKind : BodyKind} (made : Core.Made side (head, bodyKind)) :
    Words head.method head.uri head.version ∧ (∀ field ∈ head.headers, sendable field) ∧
      (bodyKind = .tunnel ↔ head.method = "CONNECT".toList) := by
  obtain ⟨limits, _, startLine, headers, lines, finished⟩ := made
  obtain ⟨method, uri, version, words, _, parts, split⟩ := checkStartLine_ok lines.checked
  obtain ⟨_, framed, rfl⟩ := finishHead_ok finished
  simp only [parts, split, List.getElem?_cons_zero, List.getElem?_cons_succ, List.head?_cons,
    Option.getD_some] at framed ⊢
  refine ⟨words, ?_, fun tunnel => ?_, fun connect => ?_⟩
  · intro field inside
    obtain ⟨text, parsed⟩ := lines.listed field inside
    exact (parseHeaderLine_ok parsed).1
  · -- No other method is framed as a tunnel.
    rcases framed with ⟨connect, _⟩ | ⟨_, determined⟩
    · exact connect
    · obtain ⟨_, _, _, _, kinds⟩ := determineBodyKind_ok determined
      rcases kinds with ⟨_, _, _, kind⟩ | ⟨_, _, _, _, kind⟩ | ⟨_, _, kind⟩ <;>
        cases tunnel.symm.trans kind
  · exact (framed.resolve_right fun other => other.1 connect).2

/-- The codings of a request frame it in chunks, or its head is refused. -/
theorem finishHead_coded {limits : DecoderLimits} {startLine : Str} {headers : Headers}
    {head : RequestHead} {bodyKind : BodyKind} (checked : checkStartLine startLine = .ok ())
    (finished : finishHead limits () startLine headers = .ok (head, bodyKind))
    (tunnelless : head.method ≠ "CONNECT".toList)
    (coded : fieldElements head.headers "Transfer-Encoding".toList ≠ []) :
    head.version = http11 ∧ hasHeader head.headers "Content-Length".toList = false ∧
      bodyKind = .chunked := by
  obtain ⟨method, uri, version, _, _, parts, words⟩ := checkStartLine_ok checked
  obtain ⟨_, framed, rfl⟩ := finishHead_ok finished
  simp only [parts, words, List.getElem?_cons_zero, List.getElem?_cons_succ, List.head?_cons,
    Option.getD_some] at framed tunnelless coded ⊢
  -- CONNECT is left out, and with a coding the body can only be chunked.
  rcases framed with ⟨connect, _⟩ | ⟨_, determined⟩
  · exact absurd connect tunnelless
  obtain ⟨chunked, contentLength, codings, lengths, kinds⟩ := determineBodyKind_ok determined
  cases parseTransferEncodingForRequest_present coded codings
  -- Where chunks frame the body, the version and the missing length have been checked.
  rcases kinds with ⟨_, rfl, version11, kind⟩ | ⟨other, _⟩ | ⟨other, _⟩
  · exact ⟨version11, parseContentLength_none lengths, kind⟩
  · cases other
  · cases other

end RequestDecoder

namespace ResponseDecoder

/-- The method that the next head is read for: none once a message is complete. -/
def answeredMethod (decoder : ResponseDecoder) : Option Str :=
  if decoder.phase = .complete then none else decoder.context

/-- A head is framed for the method that is answered. -/
theorem decodeHeaders_answered {decoder : ResponseDecoder} {head : ResponseHead}
    {bodyKind : BodyKind} (read : (decodeHeaders decoder).1 = .ok (some (head, bodyKind))) :
    ∃ startLine headers, finishHead decoder.limits (answeredMethod decoder) startLine headers =
      .ok (head, bodyKind) :=
  -- A complete message forgets the method that it answered.
  Core.decodeHeaders_finished read

/-- The codings of a response decide its framing, or its head is refused. -/
theorem finishHead_coded {limits : DecoderLimits} {requestMethod : Option Str} {startLine : Str}
    {headers : Headers} {head : ResponseHead} {bodyKind : BodyKind}
    (finished : finishHead limits requestMethod startLine headers = .ok (head, bodyKind))
    (bodied : ¬ (requestMethod = some "HEAD".toList ∨ statusHasBody head.statusCode = false))
    (tunnelless : ¬ (requestMethod = some "CONNECT".toList ∧ 200 ≤ head.statusCode ∧
      head.statusCode < 300))
    (coded : fieldElements head.headers "Transfer-Encoding".toList ≠ []) :
    head.version = http11 ∧ hasHeader head.headers "Content-Length".toList = false ∧
      (bodyKind = .chunked ∨ bodyKind = .closeDelimited) := by
  obtain ⟨statusCode, kept, _, determined, rfl⟩ := finishHead_ok finished
  dsimp only at bodied tunnelless coded ⊢
  -- Neither the method nor the status decides, so the codings do.
  rcases determineBodyKind_ok determined with ⟨bodiless, _⟩ |
    ⟨_, _, connect, lower, upper, _⟩ |
    ⟨_, _, _, versioned, rfl, result, contentLength, codings, lengths, kinds⟩
  · exact absurd bodiless bodied
  · exact absurd ⟨connect, lower, upper⟩ tunnelless
  have decisive := parseTransferEncodingForResponse_present coded codings
  -- A coding that is found stands in a field of this name.
  have present : hasHeader kept "Transfer-Encoding".toList ≠ false := by
    intro missing
    rw [hasHeader_eq_false] at missing
    simp only [fieldElements, missing] at coded
    exact coded rfl
  -- With such a field every version but 1.1 is refused.
  have version11 : (splitn 3 ' ' startLine)[0]?.getD [] = http11 := by
    rw [(splitn_head 1 ' ' startLine).1]
    exact versioned.resolve_right present
  -- Chunked as the last coding or not, the length is missing; without codings nothing is left.
  rcases kinds with ⟨_, rfl, kind⟩ | ⟨_, rfl, kind⟩ | ⟨none, _⟩ | ⟨none, _⟩
  · exact ⟨version11, parseContentLength_none lengths, .inl kind⟩
  · exact ⟨version11, parseContentLength_none lengths, .inr kind⟩
  · exact absurd none decisive
  · exact absurd none decisive

end ResponseDecoder

/-- A head that was read never ignores the codings it names. -/
theorem decodeHeaders_coded :
    (∀ decoder head bodyKind, RequestDecoder.Reachable decoder →
      (RequestDecoder.decodeHeaders decoder).1 = .ok (some (head, bodyKind)) →
      head.method ≠ "CONNECT".toList →
      fieldElements head.headers "Transfer-Encoding".toList ≠ [] →
      head.version = http11 ∧ hasHeader head.headers "Content-Length".toList = false ∧
        bodyKind = .chunked) ∧
    (∀ decoder head bodyKind,
      (ResponseDecoder.decodeHeaders decoder).1 = .ok (some (head, bodyKind)) →
      ¬ (ResponseDecoder.answeredMethod decoder = some "HEAD".toList ∨
        ResponseDecoder.statusHasBody head.statusCode = false) →
      ¬ (ResponseDecoder.answeredMethod decoder = some "CONNECT".toList ∧
        200 ≤ head.statusCode ∧ head.statusCode < 300) →
      fieldElements head.headers "Transfer-Encoding".toList ≠ [] →
      head.version = http11 ∧ hasHeader head.headers "Content-Length".toList = false ∧
        (bodyKind = .chunked ∨ bodyKind = .closeDelimited)) := by
  constructor
  · -- The head was made from lines that had been checked when they were read.
    intro decoder head bodyKind reachable read tunnelless coded
    have made := Core.decodeHeaders_made (RequestDecoder.reachable_accepts reachable).parsed
      (Prod.ext (show _ = Except.ok (some (head, bodyKind)) from read) rfl)
    obtain ⟨_, _, startLine, headers, lines, finished⟩ := made
    exact RequestDecoder.finishHead_coded lines.checked finished tunnelless coded
  · -- An answered head was framed with the method the decoder was told.
    intro decoder head bodyKind read bodied tunnelless coded
    obtain ⟨startLine, headers, finished⟩ := ResponseDecoder.decodeHeaders_answered read
    exact ResponseDecoder.finishHead_coded finished bodied tunnelless coded

/-- A chunked request and a response with another coding, each framed by its codings. -/
theorem decodeHeaders_coded_both :
    (∃ head, (RequestDecoder.decodeHeaders ((RequestDecoder.withLimits {}).feedUnchecked
        (Utf8.encode ("POST / HTTP/1.1\r\nHost: a\r\n" ++
          "Transfer-Encoding: , chunked\r\n\r\n").toList))).1 = .ok (some (head, .chunked)) ∧
      head.version = http11 ∧ hasHeader head.headers "Content-Length".toList = false) ∧
    (∃ head bodyKind, (ResponseDecoder.decodeHeaders ((ResponseDecoder.withLimits {}).feedUnchecked
        (Utf8.encode "HTTP/1.1 200 OK\r\nTransfer-Encoding: gzip\r\n\r\n".toList))).1 =
        .ok (some (head, bodyKind)) ∧ head.version = http11 ∧
      (bodyKind = .chunked ∨ bodyKind = .closeDelimited)) := by
  refine ⟨⟨⟨"POST".toList, "/".toList, http11, [("Host".toList, "a".toList),
    ("Transfer-Encoding".toList, ", chunked".toList)]⟩, by decide +kernel, ?_⟩,
    ⟨⟨http11, 200, "OK".toList, [("Transfer-Encoding".toList, "gzip".toList)]⟩, .closeDelimited,
      by decide, ?_⟩⟩
  · have framed := decodeHeaders_coded.1 ((RequestDecoder.withLimits {}).feedUnchecked
        (Utf8.encode ("POST / HTTP/1.1\r\nHost: a\r\n" ++
          "Transfer-Encoding: , chunked\r\n\r\n").toList))
      ⟨"POST".toList, "/".toList, http11, [("Host".toList, "a".toList),
        ("Transfer-Encoding".toList, ", chunked".toList)]⟩ .chunked
      (.feedUnchecked _ (.withLimits _)) (by decide +kernel) (by decide) (by decide +kernel)
    exact ⟨framed.1, framed.2.1⟩
  · have framed := decodeHeaders_coded.2 ((ResponseDecoder.withLimits {}).feedUnchecked
        (Utf8.encode "HTTP/1.1 200 OK\r\nTransfer-Encoding: gzip\r\n\r\n".toList))
      ⟨http11, 200, "OK".toList, [("Transfer-Encoding".toList, "gzip".toList)]⟩ .closeDelimited
      (by decide) (by decide) (by decide) (by decide)
    exact ⟨framed.1, framed.2.2⟩

/-- A coding list without elements is ignored, and a length beside it frames the body. -/
theorem decodeHeaders_no_coding :
    ∃ decoder head, RequestDecoder.Reachable decoder ∧
      (RequestDecoder.decodeHeaders decoder).1 = .ok (some (head, .contentLength 5)) ∧
      head.method ≠ "CONNECT".toList ∧
      hasHeader head.headers "Transfer-Encoding".toList = true ∧
      hasHeader head.headers "Content-Length".toList = true := by
  refine ⟨(RequestDecoder.withLimits {}).feedUnchecked (Utf8.encode
      ("POST / HTTP/1.1\r\nHost: a\r\nTransfer-Encoding: \r\n" ++
        "Content-Length: 5\r\n\r\n").toList),
    ⟨"POST".toList, "/".toList, http11, [("Host".toList, "a".toList),
      ("Transfer-Encoding".toList, []), ("Content-Length".toList, "5".toList)]⟩,
    .feedUnchecked _ (.withLimits _), ?_⟩
  decide +kernel

end Http11

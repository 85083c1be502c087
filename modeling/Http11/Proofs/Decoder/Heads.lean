import Http11.Decoder.Request
import Http11.Decoder.Response
import Http11.Lib.Checked

/-! What an accepted head says about its fields and its framing. -/

namespace Http11

namespace RequestDecoder

/-- The framing of a request that was accepted. -/
theorem determineBodyKind_ok {limits : DecoderLimits} {version : Str} {headers : Headers}
    {bodyKind : BodyKind} (determined : determineBodyKind limits version headers = .ok bodyKind) :
    ∃ chunked contentLength,
      parseTransferEncodingForRequest headers = .ok chunked ∧
      parseContentLength headers = .ok contentLength ∧
      ((chunked = true ∧ contentLength = none ∧ version = http11 ∧ bodyKind = .chunked) ∨
        (chunked = false ∧ ∃ length, contentLength = some length ∧ length ≤ limits.maxBodySize ∧
          bodyKind = .contentLength length) ∨
        (chunked = false ∧ contentLength = none ∧ bodyKind = .none)) := by
  simp only [determineBodyKind, resolveBodyHeadersForRequest, Checked.bind_ok] at determined
  obtain ⟨⟨chunked, contentLength⟩, ⟨resolved, parsedTe, length, parsedCl, agreed⟩, framed⟩ :=
    determined
  split at agreed
  · cases agreed
  rename_i single
  cases agreed
  refine ⟨chunked, contentLength, parsedTe, parsedCl, ?_⟩
  -- Both framings together were refused, so one of the three cases is left.
  cases chunked with
  | true =>
    simp only [Bool.true_and, Option.isSome_iff_ne_none, ne_eq, not_not] at single
    simp only [if_true] at framed
    -- Chunks need the right version.
    split at framed
    · cases framed
    · rename_i version11
      cases framed
      exact .inl ⟨rfl, single, by simpa using version11, rfl⟩
  | false =>
    simp only [Bool.false_eq_true, if_false] at framed
    cases contentLength with
    | none =>
      cases framed
      exact .inr (.inr ⟨rfl, rfl, rfl⟩)
    | some length =>
      simp only at framed
      -- A length that is too large was refused.
      split at framed
      · cases framed
      · cases framed
        exact .inr (.inl ⟨rfl, length, rfl, by omega, rfl⟩)

/-- The head of a request that was accepted. -/
theorem finishHead_ok {limits : DecoderLimits} {startLine : Str} {headers : Headers}
    {head : RequestHead} {bodyKind : BodyKind}
    (finished : finishHead limits () startLine headers = .ok (head, bodyKind)) :
    ((startLine.splitOn ' ')[2]?.getD [] = http11 → checkHost headers = .ok ()) ∧
      ((startLine.splitOn ' ').head?.getD [] = "CONNECT".toList ∧ bodyKind = .tunnel ∨
        (startLine.splitOn ' ').head?.getD [] ≠ "CONNECT".toList ∧
          determineBodyKind limits ((startLine.splitOn ' ')[2]?.getD []) headers = .ok bodyKind) ∧
      head = ⟨(splitn 3 ' ' startLine)[0]?.getD [], (splitn 3 ' ' startLine)[1]?.getD [],
        (splitn 3 ' ' startLine)[2]?.getD [], headers⟩ := by
  simp only [finishHead, Checked.bind_ok, Checked.onlyIf_ok, decide_eq_true_eq] at finished
  obtain ⟨_, hosted, kind, framed, built⟩ := finished
  cases built
  refine ⟨hosted, ?_, rfl⟩
  unfold requestBodyKind at framed
  -- CONNECT opens a tunnel; any other method is framed by its fields.
  split at framed
  · rename_i connect
    cases framed
    exact .inl ⟨connect, rfl⟩
  · rename_i other
    exact .inr ⟨other, framed⟩

end RequestDecoder

namespace ResponseDecoder

/-- The framing of a response that was accepted. -/
theorem determineBodyKind_ok {limits : DecoderLimits} {requestMethod : Option Str}
    {startLine : Str} {headers kept : Headers} {statusCode : Nat} {bodyKind : BodyKind}
    (determined : determineBodyKind limits requestMethod startLine headers statusCode =
      .ok (bodyKind, kept)) :
    ((requestMethod = some "HEAD".toList ∨ statusHasBody statusCode = false) ∧ bodyKind = .none ∧
      kept = headers) ∨
    (requestMethod ≠ some "HEAD".toList ∧ statusHasBody statusCode = true ∧
      requestMethod = some "CONNECT".toList ∧ 200 ≤ statusCode ∧ statusCode < 300 ∧
      bodyKind = .tunnel ∧ kept = headers.filter fun field => !isFramingField field) ∨
    (requestMethod ≠ some "HEAD".toList ∧ statusHasBody statusCode = true ∧
      ¬ (requestMethod = some "CONNECT".toList ∧ 200 ≤ statusCode ∧ statusCode < 300) ∧
      ((startLine.splitOn ' ').head?.getD [] = http11 ∨
        hasHeader headers "Transfer-Encoding".toList = false) ∧
      kept = headers ∧ ∃ result contentLength,
        parseTransferEncodingForResponse headers = .ok result ∧
        parseContentLength headers = .ok contentLength ∧
        ((result = .chunked ∧ contentLength = none ∧ bodyKind = .chunked) ∨
          (result = .other ∧ contentLength = none ∧ bodyKind = .closeDelimited) ∨
          (result = .none ∧ ∃ length, contentLength = some length ∧ length ≤ limits.maxBodySize ∧
            bodyKind = .contentLength length) ∨
          (result = .none ∧ contentLength = none ∧ bodyKind = .closeDelimited))) := by
  unfold determineBodyKind at determined
  split at determined
  · -- No body to a HEAD, and none with some statuses.
    rename_i bodiless
    cases determined
    simp only [Bool.or_eq_true, decide_eq_true_eq, Bool.not_eq_true'] at bodiless
    exact .inl ⟨bodiless, rfl, rfl⟩
  rename_i bodied
  simp only [Bool.or_eq_true, decide_eq_true_eq, Bool.not_eq_true', not_or,
    Bool.not_eq_false] at bodied
  split at determined
  · -- A successful answer to CONNECT opens a tunnel, without fields of framing.
    rename_i connected
    cases determined
    simp only [Bool.and_eq_true, decide_eq_true_eq] at connected
    exact .inr (.inl ⟨bodied.1, bodied.2, connected.1, connected.2.1, connected.2.2, rfl, rfl⟩)
  rename_i unconnected
  simp only [Bool.and_eq_true, decide_eq_true_eq] at unconnected
  right; right
  dsimp only at determined
  split at determined
  · cases determined
  -- An older version may not code its body.
  rename_i versioned
  simp only [Checked.bind_ok, resolveBodyHeadersForResponse] at determined
  obtain ⟨⟨result, contentLength⟩, ⟨coding, parsedTe, length, parsedCl, agreed⟩, framed⟩ := determined
  refine ⟨bodied.1, bodied.2, unconnected, ?_, ?_⟩
  · by_cases version : (startLine.splitOn ' ').head?.getD [] = http11
    · exact .inl version
    · right
      simpa [version] using versioned
  -- Both framings together were refused; the coding decides before the length.
  split at agreed
  · cases agreed
  rename_i single
  split at agreed
  · rename_i coded
    cases agreed
    simp only [coded, ne_eq, not_false_eq_true, decide_true, Bool.true_and,
      Option.isSome_iff_ne_none, not_not] at single
    subst single
    -- Chunked, or some other coding, which lasts until the close.
    cases result with
    | none => exact absurd rfl coded
    | chunked =>
      cases framed
      exact ⟨rfl, .chunked, none, parsedTe, parsedCl, .inl ⟨rfl, rfl, rfl⟩⟩
    | other =>
      cases framed
      exact ⟨rfl, .other, none, parsedTe, parsedCl, .inr (.inl ⟨rfl, rfl, rfl⟩)⟩
  · rename_i uncoded
    cases agreed
    simp only [ne_eq, not_not] at uncoded
    subst uncoded
    simp only at framed
    -- Neither a coding nor a length: until the close.
    cases contentLength with
    | none =>
      cases framed
      exact ⟨rfl, .none, none, parsedTe, parsedCl, .inr (.inr (.inr ⟨rfl, rfl, rfl⟩))⟩
    | some length =>
      simp only at framed
      split at framed
      · cases framed
      · cases framed
        exact ⟨rfl, .none, some length, parsedTe, parsedCl,
          .inr (.inr (.inl ⟨rfl, length, rfl, by omega, rfl⟩))⟩

/-- The head of a response that was accepted. -/
theorem finishHead_ok {limits : DecoderLimits} {requestMethod : Option Str} {startLine : Str}
    {headers : Headers} {head : ResponseHead} {bodyKind : BodyKind}
    (finished : finishHead limits requestMethod startLine headers = .ok (head, bodyKind)) :
    ∃ statusCode kept, parseU16 ((splitn 3 ' ' startLine)[1]?.getD []) = some statusCode ∧
      determineBodyKind limits requestMethod startLine headers statusCode = .ok (bodyKind, kept) ∧
      head = ⟨(splitn 3 ' ' startLine)[0]?.getD [], statusCode,
        (splitn 3 ' ' startLine)[2]?.getD [], kept⟩ := by
  simp only [finishHead] at finished
  -- Without a number for its status the line is refused.
  split at finished
  · cases finished
  · rename_i statusCode parsed
    simp only [Checked.bind_ok] at finished
    obtain ⟨⟨kind, kept⟩, determined, built⟩ := finished
    cases built
    exact ⟨statusCode, kept, parsed, determined, rfl⟩

end ResponseDecoder

end Http11

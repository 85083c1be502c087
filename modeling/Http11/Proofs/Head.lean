import Http11.Message
import Http11.Proofs.Decoder.Framing

/-! What heads tell of their framing is how the decoders frame their bodies. -/

namespace Http11

/-- The elements of a list are trimmed, so that trimming them again changes nothing. -/
theorem trimOws_fieldElement {headers : Headers} {name element : Str}
    (listed : element ∈ fieldElements headers name) : trimOws element = element := by
  simp only [fieldElements, List.mem_flatMap, listElements, List.mem_filter, List.mem_map] at listed
  obtain ⟨_, _, ⟨part, _, rfl⟩, _⟩ := listed
  exact trimOws_trimOws part

/-- A chunked coding has no parameters, so that the whole element is compared. -/
theorem checkCoding_ok {chunkedCount : Nat} {token : Str} {chunked : Bool}
    (trimmed : trimOws token = token) (checked : checkCoding chunkedCount token = .ok chunked) :
    chunked = eqIgnoreAsciiCase token "chunked".toList ∧
      eqIgnoreAsciiCase (baseCoding token) "chunked".toList =
        eqIgnoreAsciiCase token "chunked".toList := by
  -- Without a semicolon the coding is the whole element.
  have whole : ';' ∉ token → baseCoding token = token := by
    intro plain
    rw [baseCoding, List.splitOn_eq_singleton plain]
    exact trimmed
  unfold checkCoding at checked
  split at checked
  · cases checked
  split at checked
  · rename_i same
    split at checked
    · cases checked
    rename_i plain
    split at checked
    · cases checked
    cases checked
    rw [whole (by simpa using plain)] at same ⊢
    exact ⟨same.symm, rfl⟩
  · rename_i other
    cases checked
    rw [Bool.not_eq_true] at other
    -- An element that is chunked as a whole has no semicolon either.
    have unequal : eqIgnoreAsciiCase token "chunked".toList = false := by
      by_contra equal
      rw [Bool.not_eq_false, eqIgnoreAsciiCase, beq_iff_eq] at equal
      have plain : ';' ∉ token := by
        intro inside
        have lowered : ';'.toLower ∈ token.map Char.toLower := List.mem_map_of_mem inside
        rw [equal] at lowered
        revert lowered
        decide
      rw [whole plain, eqIgnoreAsciiCase, equal] at other
      revert other
      decide
    exact ⟨unequal.symm, other.trans unequal.symm⟩

/-- The codings of a request end in the chunked one when they frame its body. -/
theorem parseTransferEncodingForRequest_last {headers : Headers} {chunked : Bool}
    (parsed : parseTransferEncodingForRequest headers = .ok chunked) :
    chunked = (fieldElements headers "Transfer-Encoding".toList).getLast?.any
      fun token => eqIgnoreAsciiCase token "chunked".toList := by
  have trimmed : ∀ token ∈ fieldElements headers "Transfer-Encoding".toList,
      trimOws token = token := fun _ listed => trimOws_fieldElement listed
  simp only [parseTransferEncodingForRequest, Checked.bind_ok] at parsed
  obtain ⟨count, folded, counted⟩ := parsed
  cases counted
  -- Only the last step matters: it is taken from no chunked coding, and leaves one.
  cases tokens : fieldElements headers "Transfer-Encoding".toList using List.reverseRecOn with
  | nil =>
    rw [tokens] at folded
    cases folded
    rfl
  | append_singleton front token _ =>
    rw [tokens, List.foldlM_append, Checked.bind_ok] at folded
    obtain ⟨before, _, last⟩ := folded
    simp only [List.foldlM_cons, List.foldlM_nil, Checked.bind_ok] at last
    obtain ⟨next, ⟨isChunked, checked, added⟩, same⟩ := last
    cases same
    have listed : token ∈ fieldElements headers "Transfer-Encoding".toList := by
      rw [tokens]
      exact List.mem_concat_self
    have compared := (checkCoding_ok (trimmed token listed) checked).1
    rw [List.getLast?_append_of_ne_nil _ (by simp), List.getLast?_singleton, Option.any_some,
      ← compared]
    cases isChunked with
    | false => cases added
    | true =>
      cases checkCoding_true checked
      cases added
      rfl

/-- The codings of a response end in the chunked one when they frame its body in chunks. -/
theorem parseTransferEncodingForResponse_last {headers : Headers}
    {result : TransferEncodingResult}
    (parsed : parseTransferEncodingForResponse headers = .ok result) :
    result = .chunked ↔ ((fieldElements headers "Transfer-Encoding".toList).getLast?.any
      fun token => eqIgnoreAsciiCase token "chunked".toList) = true := by
  have trimmed : ∀ token ∈ fieldElements headers "Transfer-Encoding".toList,
      trimOws token = token := fun _ listed => trimOws_fieldElement listed
  simp only [parseTransferEncodingForResponse, Checked.bind_ok] at parsed
  obtain ⟨⟨allTokens, count⟩, folded, decided⟩ := parsed
  dsimp only at decided
  cases tokens : fieldElements headers "Transfer-Encoding".toList using List.reverseRecOn with
  | nil =>
    rw [tokens] at folded
    cases folded
    cases decided
    simp
  | append_singleton front token _ =>
    rw [tokens, List.foldlM_append, Checked.bind_ok] at folded
    obtain ⟨⟨before, _⟩, _, last⟩ := folded
    simp only [List.foldlM_cons, List.foldlM_nil, Checked.bind_ok] at last
    obtain ⟨next, ⟨isChunked, checked, added⟩, same⟩ := last
    cases added
    cases same
    have listed : token ∈ fieldElements headers "Transfer-Encoding".toList := by
      rw [tokens]
      exact List.mem_concat_self
    have compared := (checkCoding_ok (trimmed token listed) checked).2
    -- The coding is remembered in lower case and compared as such.
    have lowered : toAsciiLowercase (baseCoding token) = "chunked".toList ↔
        eqIgnoreAsciiCase (baseCoding token) "chunked".toList = true := by
      rw [eqIgnoreAsciiCase, beq_iff_eq,
        show ("chunked".toList).map Char.toLower = "chunked".toList by decide]
      exact Iff.rfl
    rw [if_neg (by simp)] at decided
    simp only [List.getLast?_append, List.getLast?_singleton, Option.some_or, Option.some.injEq,
      lowered, compared, Option.any_some] at decided ⊢
    split at decided <;> rename_i chunked <;> cases decided
    · exact iff_of_true rfl chunked
    · exact iff_of_false (by simp) chunked

namespace HttpHead

/-- The last coding of a value, or the one before it where the value lists none. -/
theorem lastCoding_eq (value : Str) (last : Option Str) :
    lastCoding value last = (listElements value).getLast?.or last := by
  unfold lastCoding listElements
  induction value.splitOn ',' generalizing last with
  | nil => simp
  | cons token tokens ih =>
    rw [List.foldl_cons, ih]
    -- An empty element leaves the coding as it was.
    by_cases empty : (trimOws token).isEmpty = true
    · simp [empty]
    · rw [if_neg empty, List.map_cons, List.filter_cons_of_pos (by simpa using empty),
        List.getLast?_cons]
      cases (List.filter _ (tokens.map trimOws)).getLast? <;> rfl

/-- Field by field, the last element of all fields of a name is found. -/
theorem foldl_lastCoding (headers : Headers) (name : Str) (last : Option Str) :
    headers.foldl (fun last (field, value) =>
      if !eqIgnoreAsciiCase field name then last else lastCoding value last) last =
      (fieldElements headers name).getLast?.or last := by
  induction headers generalizing last with
  | nil => simp [fieldElements, getHeaders]
  | cons field headers ih =>
    rw [List.foldl_cons, ih]
    -- Fields of another name change nothing.
    by_cases named : eqIgnoreAsciiCase field.1 name = true
    · have taken : (field :: headers).filter (fun field => eqIgnoreAsciiCase field.1 name) =
          field :: headers.filter (fun field => eqIgnoreAsciiCase field.1 name) :=
        List.filter_cons_of_pos named
      simp only [named, Bool.not_true, Bool.false_eq_true, if_false, lastCoding_eq]
      simp only [fieldElements, getHeaders, taken, List.map_cons, List.flatMap_cons,
        List.getLast?_append, Option.or_assoc]
    · simp only [Bool.not_eq_true] at named
      simp [fieldElements, getHeaders, named]

/-- The accessor looks at the last element of all fields together. -/
theorem isChunked_eq (headers : Headers) :
    isChunked headers = (fieldElements headers "Transfer-Encoding".toList).getLast?.any
      fun token => eqIgnoreAsciiCase token "chunked".toList := by
  rw [isChunked, foldl_lastCoding, Option.or_none]

end HttpHead

open HttpHead

/-- How the body of a message was framed is what its head tells. -/
theorem framing_told :
    (∀ decoder head bodyKind,
      (RequestDecoder.decodeHeaders decoder).1 = .ok (some (head, bodyKind)) →
      head.method ≠ "CONNECT".toList →
      (bodyKind = .chunked ↔ isChunked head.headers = true) ∧
      (∀ length, bodyKind = .contentLength length ↔
        contentLength head.headers = .ok (some length)) ∧
      (bodyKind = .none ↔ isChunked head.headers = false ∧
        ∀ length, contentLength head.headers ≠ .ok (some length))) ∧
    (∀ decoder head bodyKind,
      (ResponseDecoder.decodeHeaders decoder).1 = .ok (some (head, bodyKind)) →
      ¬ (ResponseDecoder.answeredMethod decoder = some "HEAD".toList ∨
        ResponseDecoder.statusHasBody head.statusCode = false) →
      ¬ (ResponseDecoder.answeredMethod decoder = some "CONNECT".toList ∧
        200 ≤ head.statusCode ∧ head.statusCode < 300) →
      (bodyKind = .chunked ↔ isChunked head.headers = true) ∧
      (∀ length, bodyKind = .contentLength length ↔
        contentLength head.headers = .ok (some length)) ∧
      (bodyKind = .closeDelimited ↔ isChunked head.headers = false ∧
        ∀ length, contentLength head.headers ≠ .ok (some length))) := by
  constructor
  · intro decoder head bodyKind read tunnelless
    obtain ⟨startLine, headers, finished⟩ := Core.decodeHeaders_finished read
    obtain ⟨_, framed, rfl⟩ := RequestDecoder.finishHead_ok finished
    rw [(splitn_head 1 ' ' startLine).1] at tunnelless
    -- A request without CONNECT is framed by its fields.
    obtain ⟨_, determined⟩ := framed.resolve_left fun connect => tunnelless connect.1
    obtain ⟨chunked, declared, codings, lengths, kinds⟩ :=
      RequestDecoder.determineBodyKind_ok determined
    -- The parser of codings remembers whether the last one was chunked.
    have told := parseTransferEncodingForRequest_last codings
    rw [← isChunked_eq] at told
    simp only [contentLength, lengths, ← told]
    -- Three ways to be framed, in the order of the source.
    rcases kinds with ⟨rfl, rfl, _, rfl⟩ | ⟨rfl, length, rfl, _, rfl⟩ | ⟨rfl, rfl, rfl⟩
    · simp
    · simp
    · simp
  · intro decoder head bodyKind read bodied tunnelless
    obtain ⟨startLine, headers, finished⟩ := ResponseDecoder.decodeHeaders_answered read
    obtain ⟨statusCode, kept, _, determined, rfl⟩ := ResponseDecoder.finishHead_ok finished
    dsimp only at bodied tunnelless ⊢
    -- A response without body is no case here, and neither is a tunnel.
    rcases ResponseDecoder.determineBodyKind_ok determined with ⟨bodiless, _⟩ |
      ⟨_, _, connect, lower, upper, _⟩ |
      ⟨_, _, _, _, rfl, result, declared, codings, lengths, kinds⟩
    · exact absurd bodiless bodied
    · exact absurd ⟨connect, lower, upper⟩ tunnelless
    have told := parseTransferEncodingForResponse_last codings
    rw [← isChunked_eq] at told
    rw [← Bool.not_eq_true, ← told]
    simp only [contentLength, lengths]
    -- Four ways are left: by chunks, by the close, by the length, or again by the close.
    rcases kinds with ⟨rfl, rfl, rfl⟩ | ⟨rfl, rfl, rfl⟩ | ⟨rfl, length, rfl, _, rfl⟩ |
      ⟨rfl, rfl, rfl⟩
    · simp
    · simp
    · simp
    · simp

/-- A request in chunks, and a response whose two coding fields end in the chunked one. -/
theorem framing_told_both :
    (∃ head, (RequestDecoder.decodeHeaders ((RequestDecoder.withLimits {}).feedUnchecked
        (Utf8.encode ("POST / HTTP/1.1\r\nHost: a\r\n" ++
          "Transfer-Encoding: Chunked ,\r\n\r\n").toList))).1 = .ok (some (head, .chunked)) ∧
      isChunked head.headers = true) ∧
    (∃ head, (ResponseDecoder.decodeHeaders ((ResponseDecoder.withLimits {}).feedUnchecked
        (Utf8.encode ("HTTP/1.1 200 OK\r\nTransfer-Encoding: gzip;q=1\r\n" ++
          "transfer-encoding: ,\tCHUNKED\r\n\r\n").toList))).1 = .ok (some (head, .chunked)) ∧
      isChunked head.headers = true) := by
  -- The chunked coding is found in any case, and with white space around it.
  refine ⟨⟨⟨"POST".toList, "/".toList, http11, [("Host".toList, "a".toList),
    ("Transfer-Encoding".toList, "Chunked ,".toList)]⟩, by decide +kernel, ?_⟩,
    ⟨⟨http11, 200, "OK".toList, [("Transfer-Encoding".toList, "gzip;q=1".toList),
      ("transfer-encoding".toList, ",\tCHUNKED".toList)]⟩, by decide +kernel, ?_⟩⟩
  · exact (framing_told.1 ((RequestDecoder.withLimits {}).feedUnchecked
      (Utf8.encode ("POST / HTTP/1.1\r\nHost: a\r\n" ++
        "Transfer-Encoding: Chunked ,\r\n\r\n").toList)) _ _ (by decide +kernel)
      (by decide)).1.mp rfl
  · exact (framing_told.2 ((ResponseDecoder.withLimits {}).feedUnchecked
      (Utf8.encode ("HTTP/1.1 200 OK\r\nTransfer-Encoding: gzip;q=1\r\n" ++
        "transfer-encoding: ,\tCHUNKED\r\n\r\n").toList)) _ .chunked (by decide +kernel)
      (by decide) (by decide)).1.mp rfl

end Http11

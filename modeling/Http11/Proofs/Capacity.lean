import Http11.Capacity
import Http11.Proofs.Encoder.Responses

/-! The room that is reserved for a message or for chunks is enough, and hardly more. -/

namespace Http11

/-- A field line is estimated at its exact length. -/
theorem estimateField_some {total sum : Nat} {field : Str × Str}
    (counted : estimateField total field = some sum) :
    sum = total + (byteLength field.1 + byteLength field.2 + 4) := by
  simp only [estimateField, Option.bind_eq_bind, Option.bind_eq_some_iff,
    checkedAdd_iff] at counted
  obtain ⟨named, ⟨_, rfl⟩, valued, ⟨_, rfl⟩, _, rfl⟩ := counted
  omega

/-- All field lines are estimated at their exact length. -/
theorem estimateField_foldlM {headers : Headers} {total sum : Nat}
    (counted : headers.foldlM estimateField total = some sum) :
    sum = total + (encodeFields headers).length := by
  induction headers generalizing total with
  | nil =>
    cases counted
    simp [encodeFields]
  | cons field headers ih =>
    simp only [List.foldlM_cons, Option.bind_eq_bind, Option.bind_eq_some_iff] at counted
    obtain ⟨next, first, rest⟩ := counted
    -- The first line adds its own length, and the others are counted from there.
    have added := estimateField_some first
    have others := ih rest
    have colon : (Utf8.encode ": ".toList).length = 2 := by decide
    have ended : crlf.length = 2 := rfl
    have line : (encodeFields (field :: headers)).length =
        byteLength field.1 + byteLength field.2 + 4 + (encodeFields headers).length := by
      simp only [encodeFields, List.flatMap_cons, List.length_append, colon, ended, byteLength]
      omega
    omega

/-- Digits take one byte each. -/
theorem length_writeUsizeDecimal (value : Nat) :
    (writeUsizeDecimal value).length = (Numerals.write 10 value).length := by
  refine Utf8.length_encode_ascii ?_
  refine Numerals.forall_mem_write (by omega) (fun digit small => ?_) value
  exact (Numerals.digitChar_plain (by omega)).2

/-- The line of an added length takes at most the room reserved for it, and misses less than twenty
bytes of it. -/
theorem contentLengthLine_length {length : Nat} (fits : length ≤ usizeMax) :
    (contentLengthLine length).length ≤ autoContentLengthCapacity ∧
      autoContentLengthCapacity - (contentLengthLine length).length < 20 := by
  have name : (Utf8.encode "Content-Length: ".toList).length = 16 := by decide
  have ended : crlf.length = 2 := rfl
  -- A machine word has between one and twenty digits.
  have most : (Numerals.write 10 length).length ≤ 20 :=
    Numerals.write_length_le (by omega) (by omega) (by unfold usizeMax at fits; omega)
  have least : 0 < (Numerals.write 10 length).length :=
    List.length_pos_of_ne_nil (Numerals.write_ne_nil (by omega) length)
  simp only [contentLengthLine, List.length_append, name, ended, length_writeUsizeDecimal,
    autoContentLengthCapacity]
  omega

/-- The request line takes its three parts, two spaces and a line end. -/
theorem requestLine_length (request : Request) :
    (requestLine request).length =
      byteLength request.method + byteLength request.uri + byteLength request.version + 4 := by
  have ended : crlf.length = 2 := rfl
  simp only [requestLine, List.length_append, List.length_cons, List.length_nil, ended, byteLength]
  omega

/-- The status line takes its parts, with three digits for a valid status. -/
theorem statusLine_length {response : Response}
    (valid : isValidStatusCode response.statusCode = true) :
    (statusLine response).length =
      byteLength response.version + 3 + byteLength response.reasonPhrase + 4 := by
  simp only [isValidStatusCode, Bool.and_eq_true, decide_eq_true_eq] at valid
  have ended : crlf.length = 2 := rfl
  -- A number from a hundred on and below a thousand has three digits.
  have most : (Numerals.write 10 response.statusCode).length ≤ 3 :=
    Numerals.write_length_le (by omega) (by omega) (by omega)
  have least : 2 < (Numerals.write 10 response.statusCode).length :=
    Numerals.lt_write_length (by omega) (by omega)
  simp only [statusLine, List.length_append, List.length_cons, List.length_nil, ended,
    length_writeUsizeDecimal, byteLength]
  omega

/-- Counting goes on behind the room for the line of a length, where one is added. -/
theorem addedLine_some {total sum : Nat} {auto : Bool} {next : Nat → Option Nat}
    (counted : (if auto = true then (checkedAdd total autoContentLengthCapacity).bind next
      else (some total).bind next) = some sum) :
    next (total + if auto then autoContentLengthCapacity else 0) = some sum := by
  cases auto with
  | true =>
    -- The line is added if it fits into the machine word.
    obtain ⟨added, fits, rest⟩ := Option.bind_eq_some_iff.mp counted
    rw [checkedAdd_iff] at fits
    rw [fits.2] at rest
    exact rest
  | false => exact counted

/-- An added line misses less than twenty bytes of its room. -/
theorem addedLine_length (auto : Bool) {length : Nat} (fits : auto = true → length ≤ usizeMax) :
    (if auto then contentLengthLine length else []).length ≤
        (if auto then autoContentLengthCapacity else 0) ∧
      (if auto then autoContentLengthCapacity else 0) -
        (if auto then contentLengthLine length else []).length < 20 := by
  cases auto with
  | true => exact contentLengthLine_length (fits rfl)
  | false => exact ⟨Nat.le_refl 0, Nat.zero_lt_succ 19⟩

/-- A body is counted with its length, and the count stays in the machine word. -/
theorem countedBody_some {total sum : Nat} {body : Option Bytes}
    (counted : (match body with
      | some body => checkedAdd total body.length
      | none => some total) = some sum) :
    sum = total + bodyLength body ∧ bodyLength body ≤ usizeMax := by
  cases body with
  -- A body is added if it fits into the machine word.
  | some body =>
    obtain ⟨fits, rfl⟩ := checkedAdd_iff.mp counted
    exact ⟨rfl, by simp only [bodyLength, Option.map_some, Option.getD_some]; omega⟩
  | none =>
    cases counted
    exact ⟨rfl, Nat.zero_le _⟩

/-- The length of the bytes of a body that may be absent. -/
theorem length_getD_body (body : Option Bytes) : (body.getD []).length = bodyLength body := by
  cases body <;> rfl

/-- The room for a request is that of its lines and its body. -/
theorem estimateRequestCapacity_some {request : Request} {capacity : Nat}
    (estimated : estimateRequestCapacity request = some capacity) :
    capacity = (requestLine request).length + (encodeFields request.headers).length +
        (if shouldAutoEmitContentLengthForRequest request then autoContentLengthCapacity else 0) +
        2 + bodyLength request.body ∧
      bodyLength request.body ≤ usizeMax := by
  -- Each sum that was checked is one of the terms.
  simp only [estimateRequestCapacity, Option.bind_eq_bind, Option.bind_eq_some_iff] at estimated
  obtain ⟨method, counted, target, counted', version, counted'', line, ended, fields, folded,
    rest⟩ := estimated
  obtain ⟨head, closed, body⟩ := Option.bind_eq_some_iff.mp (addedLine_some rest)
  rw [checkedAdd_iff] at counted counted' counted'' ended closed
  have fieldsCounted := estimateField_foldlM folded
  obtain ⟨bodyCounted, fits⟩ := countedBody_some body
  -- The request line is made of the three texts, two spaces and its end.
  have start := requestLine_length request
  exact ⟨by omega, fits⟩

/-- The room for a response is that of its lines and the body that is sent. -/
theorem estimateResponseCapacity_some {response : Response} {capacity : Nat}
    (valid : isValidStatusCode response.statusCode = true)
    (estimated : estimateResponseCapacity response = some capacity) :
    capacity = (statusLine response).length + (encodeFields response.headers).length +
      (if shouldAutoEmitContentLengthForResponse response then autoContentLengthCapacity else 0) +
      2 + (if bodyWillBeEncoded response then response.body.getD [] else []).length := by
  simp only [estimateResponseCapacity, Option.bind_eq_bind, Option.bind_eq_some_iff] at estimated
  obtain ⟨version, counted, status, counted', reason, counted'', line, ended, fields, folded,
    rest⟩ := estimated
  obtain ⟨head, closed, body⟩ := Option.bind_eq_some_iff.mp (addedLine_some rest)
  rw [checkedAdd_iff] at counted counted' counted'' ended closed
  have fieldsCounted := estimateField_foldlM folded
  have start := statusLine_length valid
  -- The body counts exactly when it is written.
  have bodyCounted : capacity =
      head + (if bodyWillBeEncoded response then response.body.getD [] else []).length := by
    by_cases sent : bodyWillBeEncoded response = true
    · rw [if_pos sent] at body
      rw [if_pos sent, length_getD_body]
      exact (countedBody_some body).1
    · rw [if_neg sent] at body
      cases body
      rw [if_neg sent]
      rfl
  omega

/-- A chunk is estimated at its bytes, two line ends and sixteen digits. -/
theorem estimateChunk_some {total sum : Nat} {chunk : Bytes}
    (counted : estimateChunk total chunk = some sum) :
    sum = total + (chunk.length + 20) ∧ chunk.length < 16 ^ 16 := by
  simp only [estimateChunk, Option.bind_eq_bind, Option.bind_eq_some_iff, checkedAdd_iff] at counted
  obtain ⟨per, ⟨fits, rfl⟩, _, rfl⟩ := counted
  refine ⟨rfl, ?_⟩
  unfold usizeMax at fits
  omega

/-- A chunk that was estimated is written within its room. -/
theorem chunk_length {chunk : Bytes} (small : chunk.length < 16 ^ 16) :
    (writeHexUsize chunk.length ++ crlf ++ chunk ++ crlf).length ≤ chunk.length + 20 := by
  have ended : crlf.length = 2 := rfl
  -- A length of 64 bits has at most sixteen hexadecimal digits.
  have digits : (Numerals.write 16 chunk.length).length ≤ 16 :=
    Numerals.write_length_le (by omega) (by omega) small
  have written : (writeHexUsize chunk.length).length = (Numerals.write 16 chunk.length).length := by
    refine Utf8.length_encode_ascii ?_
    refine Numerals.forall_mem_write (by omega) (fun digit small => ?_) chunk.length
    exact (Numerals.digitChar_plain (by omega)).2
  simp only [List.length_append, ended, written]
  omega

/-- Chunks that were estimated are written within the room of all. -/
theorem estimateChunk_foldlM {chunks : List Bytes} {total sum : Nat}
    (counted : chunks.foldlM estimateChunk total = some sum) :
    total + (chunks.flatMap fun chunk =>
      writeHexUsize chunk.length ++ crlf ++ chunk ++ crlf).length ≤ sum := by
  induction chunks generalizing total with
  | nil =>
    cases counted
    exact Nat.le_refl _
  | cons chunk chunks ih =>
    simp only [List.foldlM_cons, Option.bind_eq_bind, Option.bind_eq_some_iff] at counted
    obtain ⟨next, first, rest⟩ := counted
    obtain ⟨added, small⟩ := estimateChunk_some first
    -- The estimate has twenty bytes for the framing of each chunk.
    have own := chunk_length small
    have others := ih rest
    rw [List.flatMap_cons, List.length_append]
    omega

/-- The room estimated for a message or for chunks holds what is encoded, and for a message it is
less than the twenty digits of a length more. The length of a body in memory is a machine word. -/
theorem capacity_holds :
    (∀ request bytes capacity, encodeRequest request = .ok bytes →
      estimateRequestCapacity request = some capacity →
        bytes.length ≤ capacity ∧ capacity - bytes.length < 20) ∧
    (∀ response bytes capacity, bodyLength response.body ≤ usizeMax →
      encodeResponse response = .ok bytes → estimateResponseCapacity response = some capacity →
        bytes.length ≤ capacity ∧ capacity - bytes.length < 20) ∧
    ∀ chunks, encodeChunksCapacity chunks = none ∨
      ∃ capacity, encodeChunksCapacity chunks = some capacity ∧
        (encodeChunks chunks).length ≤ capacity := by
  have ended : crlf.length = 2 := rfl
  refine ⟨?_, ?_, ?_⟩
  · intro request bytes capacity encoded estimated
    simp only [encodeRequest, Checked.bind_ok] at encoded
    obtain ⟨_, _, _, _, written⟩ := encoded
    cases written
    obtain ⟨total, fits⟩ := estimateRequestCapacity_some estimated
    obtain ⟨most, least⟩ := addedLine_length (shouldAutoEmitContentLengthForRequest request)
      fun _ => fits
    have body := length_getD_body request.body
    simp only [List.length_append, ended]
    omega
  · intro response bytes capacity fits encoded estimated
    simp only [encodeResponse, checkResponse, Checked.bind_ok] at encoded
    obtain ⟨_, ⟨_, fields, _⟩, _, _, _, _, _, _, written⟩ := encoded
    cases written
    -- The status was checked, so that it has the three digits it is estimated at.
    have total := estimateResponseCapacity_some (Response.validateResponseFields_ok fields).status
      estimated
    obtain ⟨most, least⟩ := addedLine_length (shouldAutoEmitContentLengthForResponse response)
      fun _ => fits
    simp only [List.length_append, ended]
    omega
  · intro chunks
    cases estimated : encodeChunksCapacity chunks with
    | none => exact .inl rfl
    | some capacity =>
      simp only [encodeChunksCapacity, Option.bind_eq_bind, Option.bind_eq_some_iff,
        checkedAdd_iff] at estimated
      obtain ⟨total, counted, _, rfl⟩ := estimated
      have room := estimateChunk_foldlM counted
      have last : (Utf8.encode "0\r\n\r\n".toList).length = 5 := by decide
      refine .inr ⟨_, rfl, ?_⟩
      rw [encodeChunks, List.length_append, last]
      omega

/-- A request with a body of two bytes, and a response without its body of three: the room misses
nineteen bytes, since their length has one digit of twenty. -/
theorem capacity_holds_short :
    let request : Request :=
      ⟨"POST".toList, "/".toList, http11, [("Host".toList, "a".toList)], some [1, 2]⟩
    let response : Response :=
      ⟨http11, 200, "OK".toList, [("X".toList, "y".toList)], some [1, 2, 3], true⟩
    (∃ bytes, encodeRequest request = .ok bytes ∧ estimateRequestCapacity request = some 68 ∧
      bytes.length = 49 ∧ 68 - bytes.length < 20) ∧
    (∃ bytes, encodeResponse response = .ok bytes ∧ estimateResponseCapacity response = some 63 ∧
      bytes.length = 44 ∧ 63 - bytes.length < 20) := by
  intro request response
  have posted : encodeRequest request = .ok (Utf8.encode
      "POST / HTTP/1.1\r\nHost: a\r\nContent-Length: 2\r\n\r\n".toList ++ [1, 2]) := by
    decide +kernel
  have answered : encodeResponse response = .ok (Utf8.encode
      "HTTP/1.1 200 OK\r\nX: y\r\nContent-Length: 3\r\n\r\n".toList) := by decide
  have room : estimateRequestCapacity request = some 68 := by decide
  have kept : estimateResponseCapacity response = some 63 := by decide
  exact ⟨⟨_, posted, room, by decide, (capacity_holds.1 _ _ _ posted room).2⟩,
    ⟨_, answered, kept, by decide, (capacity_holds.2.1 _ _ _ (by decide) answered kept).2⟩⟩

end Http11

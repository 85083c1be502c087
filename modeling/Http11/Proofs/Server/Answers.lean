import Http11.Proofs.Accounting
import Http11.Proofs.Building
import Http11.Proofs.Encoder.Accepts
import Http11.Proofs.Encoder.HeadOnly
import Http11.Proofs.Encoder.Responses
import Http11.Proofs.Server.Alike

/-! The server has an answer to everything that it reads, and writes nothing but answers. -/

namespace Http11

/-- Text of printable ASCII characters is a value of fields. -/
theorem isValidFieldValue_printable {text : Str}
    (printable : ∀ char ∈ text, 0x20 ≤ char.toNat ∧ char.toNat ≤ 0x7E) :
    isValidFieldValue text = true := by
  refine List.all_eq_true.mpr fun byte inside => ?_
  obtain ⟨char, member, inChar⟩ := Utf8.mem_encode.mp inside
  obtain ⟨low, high⟩ := printable char member
  rw [Utf8.encodeChar_ascii (by omega), List.mem_singleton] at inChar
  subst inChar
  have bounded : char.toNat < 256 := by omega
  -- The remaining bytes are few enough to be checked one by one.
  generalize char.toNat = code at low high bounded
  revert code
  decide +kernel

/-- Every change of a response by its fields keeps what was built. -/
theorem Response.foldlM_header {fields : Headers} (valid : ∀ field ∈ fields, sendable field)
    (response : Response) (reachable : Response.Reachable response) :
    fields.foldlM (fun (response : Response) (field : Str × Str) =>
        response.header field.1 field.2) response =
      .ok { response with headers := response.headers ++ fields } ∧
    Response.Reachable { response with headers := response.headers ++ fields } := by
  -- Each field is checked on its own and appended to those before it.
  induction fields generalizing response with
  | nil =>
    rw [List.append_nil]
    exact ⟨rfl, reachable⟩
  | cons field fields ih =>
    obtain ⟨named, valued⟩ := valid field (by simp)
    have added : response.header field.1 field.2 =
        .ok { response with headers := response.headers ++ [field] } := by
      simp [Response.header, Response.mutate, pushHeader, named, valued]
    obtain ⟨onward, later⟩ := ih (fun other inside => valid other (by simp [inside])) _
      (.header reachable added)
    rw [List.append_assoc] at onward later
    rw [List.foldlM_cons, added]
    exact ⟨onward, later⟩

/-- A response that a program has built, framed by the length of its body and nothing else. -/
structure Response.Sized (response : Response) : Prop where
  /-- A program has built it. -/
  reachable : Response.Reachable response
  /-- Its status admits a body. -/
  status : responseStatusHasBody response.statusCode = true ∧ response.statusCode ≠ 205
  /-- It has no transfer encoding. -/
  uncoded : getHeaders response.headers "Transfer-Encoding".toList = []
  /-- It declares the length of its body. -/
  declared : getHeaders response.headers "Content-Length".toList =
    [Numerals.write 10 (bodyLength response.body)]
  /-- That length is a number of the protocol. -/
  small : bodyLength response.body ≤ u64Max

namespace Response

/-- The response with an empty body where it has none. -/
def bodied (response : Response) : Response :=
  { response with body := some (response.body.getD []) }

/-- A body that is empty or missing has the same length. -/
theorem bodyLength_bodied (response : Response) :
    bodyLength response.bodied.body = bodyLength response.body := by
  unfold bodied
  cases response.body <;> rfl

/-- A sized response is encoded, and is one that a client receives. -/
theorem Sized.sent {response : Response} (sized : response.Sized) :
    ∃ wire, encodeResponse response = .ok wire ∧ response.bodied.Sent wire := by
  have checked := sized.reachable.built.checked
  have uncoded : hasHeader response.headers "Transfer-Encoding".toList = false :=
    hasHeader_eq_false.mpr sized.uncoded
  have declared : hasHeader response.headers "Content-Length".toList = true := by
    rw [hasHeader_eq, sized.declared]
    rfl
  obtain ⟨hasBody, notReset⟩ := sized.status
  -- The length that is declared is read as that of the body.
  have digits := write_digits (bodyLength response.body)
  have read : validateContentLengthHeaders response.headers =
      .ok (some (bodyLength response.body)) := by
    have number : parseU64 (Numerals.write 10 (bodyLength response.body)) =
        some (bodyLength response.body) :=
      Numerals.read_write (by decide) (by decide) sized.small
    have present : (Numerals.write 10 (bodyLength response.body)).isEmpty = false := by
      simpa using Numerals.write_ne_nil (by decide) (bodyLength response.body)
    rw [validateContentLengthHeaders, sized.declared, List.foldlM_cons, checkLengthField,
      trimOws_plain (digits_plain digits), digits, present, number]
    rfl
  have fields : validateResponseFields response = .ok () := by
    simp only [validateResponseFields, Checked.bind_ok, Checked.reject_ok, checked.status,
      isValidVersionForEncode_of_protocol sized.reachable.built.version,
      validateHeaders_sendable checked.headers]
    refine ⟨(), rfl, (), rfl, (), ?_, trivial⟩
    rcases checked.reason with absent | valid
    · simp [absent]
    · simp [valid]
  have bodiless : ((100 ≤ response.statusCode && response.statusCode < 200) ||
      response.statusCode == 204) = false := by
    unfold responseStatusHasBody at hasBody
    simp only [Bool.not_eq_true', Bool.or_eq_false_iff] at hasBody ⊢
    exact hasBody.1
  have wire_eq : ∀ body, bodyLength body = bodyLength response.body →
      encodeResponse { response with body } = .ok (statusLine response ++
        encodeFields response.headers ++ [] ++ crlf ++
        (if bodyWillBeEncoded response then body.getD [] else [])) := by
    intro body same
    have lengths : checkLength response.headers body
        (bodyWillBeEncoded { response with body } || bodyLength body != 0) = .ok () :=
      checkLength_ok.mpr ⟨_, read, fun _ declared found => by cases found; exact same.symm⟩
    have added : shouldAutoEmitContentLengthForResponse { response with body } = false := by
      simp only [shouldAutoEmitContentLengthForResponse, declared, Bool.not_true, Bool.and_false,
        Bool.false_and]
    have fieldsToo : validateResponseFields { response with body } = .ok () := fields
    have statusLineToo : statusLine { response with body } = statusLine response := rfl
    simp only [encodeResponse, checkResponse, checkResetFields, fieldsToo, uncoded, declared, bodiless,
      hasBody, decide_eq_false notReset, lengths, added, statusLineToo]
    rfl
  refine ⟨_, wire_eq response.body rfl, sized.reachable.built.setBody _, uncoded, rfl, ?_⟩
  have empty := wire_eq (some (response.body.getD [])) (bodyLength_bodied response)
  rwa [Option.getD_some] at empty

end Response

namespace Server

/-- The date of an instant is printable. -/
theorem formatHttpDate_printable (timestamp : Nat) :
    ∀ char ∈ formatHttpDate timestamp, 0x20 ≤ char.toNat ∧ char.toNat ≤ 0x7E := by
  -- Its words come from tables, and all else is made of digits and marks.
  have table : ∀ names : List Str, (∀ name ∈ names, ∀ char ∈ name, 0x20 ≤ char.toNat ∧
      char.toNat ≤ 0x7E) → ∀ index : Nat, ∀ char ∈ names[index]?.getD [],
        0x20 ≤ char.toNat ∧ char.toNat ≤ 0x7E := by
    intro names each index char inside
    cases found : names[index]? with
    | none => simp [found] at inside
    | some name =>
      rw [found] at inside
      exact each name (List.mem_of_getElem? found) char inside
  have days := table dayNames (by decide +kernel)
  have months := table monthNames (by decide +kernel)
  have number : ∀ width value, ∀ char ∈ Numerals.writePadded 10 width value,
      0x20 ≤ char.toNat ∧ char.toNat ≤ 0x7E := fun width value =>
    Numerals.forall_mem_writePadded (by decide) (by decide) width value
  have year : ∀ value, ∀ char ∈ Numerals.write 10 value,
      0x20 ≤ char.toNat ∧ char.toNat ≤ 0x7E := fun value =>
    Numerals.forall_mem_write (by decide) (by decide) value
  have comma : ∀ char ∈ ", ".toList, 0x20 ≤ char.toNat ∧ char.toNat ≤ 0x7E := by decide
  have zone : ∀ char ∈ " GMT".toList, 0x20 ≤ char.toNat ∧ char.toNat ≤ 0x7E := by decide
  have space : 0x20 ≤ ' '.toNat ∧ ' '.toNat ≤ 0x7E := by decide
  have colon : 0x20 ≤ ':'.toNat ∧ ':'.toNat ≤ 0x7E := by decide
  unfold formatHttpDate
  simp only [List.forall_mem_append, List.forall_mem_cons]
  exact ⟨⟨⟨days _, comma⟩, number _ _⟩, space, months _, space, year _, space, number _ _, colon,
    number _ _, colon, number _ _, zone⟩

/-- The fields of a page. -/
def pageFields (date contentType : Str) (length : Nat) (coding : Option Str) : Headers :=
  [("Date".toList, date), ("Content-Type".toList, contentType), lengthField length,
    ("Server".toList, "shiguredo_http11/0.1.0".toList), ("Vary".toList, "Accept-Encoding".toList)] ++
    (coding.map fun coding => ("Content-Encoding".toList, coding)).toList

/-- A page is built of its fields and its body. -/
theorem buildCompressedResponse_eq (surroundings : Surroundings) (status : StatusCode)
    (contentType date : Str) (body : Bytes) (isHead : Bool) (encoding : Option Str) :
    buildCompressedResponse surroundings status contentType body date isHead encoding =
      do
        let response ← Response.withStatus status
        let response ← (pageFields date contentType (codedBody surroundings body encoding).1.length
          (codedBody surroundings body encoding).2).foldlM
          (fun (response : Response) (field : Str × Str) => response.header field.1 field.2) response
        return (response.setBody (codedBody surroundings body encoding).1).setOmitBody isHead := by
  unfold buildCompressedResponse pageFields lengthField
  -- The names are not to be looked into.
  generalize "Date".toList = date_, "Content-Type".toList = type_, "Content-Length".toList = length_,
    "Server".toList = server_, "shiguredo_http11/0.1.0".toList = product_, "Vary".toList = vary_,
    "Accept-Encoding".toList = accept_, "Content-Encoding".toList = coding_
  rcases codedBody surroundings body encoding with ⟨final, _ | coding⟩ <;>
    simp only [Option.map_none, Option.map_some, Option.toList_none, Option.toList_some,
      List.append_nil, List.cons_append, List.nil_append, List.foldlM_cons, List.foldlM_nil,
      bind_assoc, pure_bind]

/-- The fields of a page declare the length of its body and no coding of the transfer. -/
theorem pageFields_framing (date contentType : Str) (length : Nat) (coding : Option Str) :
    getHeaders (pageFields date contentType length coding) "Transfer-Encoding".toList = [] ∧
      getHeaders (pageFields date contentType length coding) "Content-Length".toList =
        [Numerals.write 10 length] := by
  cases coding <;> exact ⟨rfl, rfl⟩

/-- The codings are named by values of fields, and no coding makes a body longer. -/
theorem codedBody_bounds (surroundings : Surroundings) (body : Bytes) (encoding : Option Str) :
    (codedBody surroundings body encoding).1.length ≤ body.length ∧
      ∀ coding ∈ (codedBody surroundings body encoding).2, isValidFieldValue coding = true := by
  have named : ∀ encoding, isValidFieldValue (encodingHeader encoding) = true := by
    intro encoding
    unfold encodingHeader
    -- Each of the four names is a value of fields.
    split
    · decide
    · split
      · decide
      · split <;> decide
  unfold codedBody
  -- The body goes out as it is, unless its coded form is shorter.
  split
  · exact ⟨le_rfl, by simp⟩
  · split
    · exact ⟨le_rfl, by simp⟩
    · split
      · rename_i shorter
        refine ⟨shorter.le, ?_⟩
        rintro coding ⟨⟩
        exact named _
      · exact ⟨le_rfl, by simp⟩

variable {surroundings : Surroundings}

/-- Every page is a sized response, whose body is kept back for HEAD. -/
theorem buildCompressedResponse_sized {status : StatusCode}
    (admits : responseStatusHasBody status.code = true ∧ status.code ≠ 205) {contentType : Str}
    (typed : isValidFieldValue contentType = true) {body : Bytes} (small : body.length ≤ u64Max)
    (timestamp : Nat) (isHead : Bool) (encoding : Option Str) :
    ∃ response, buildCompressedResponse surroundings status contentType body
        (formatHttpDate timestamp) isHead encoding = .ok response ∧
      response.Sized ∧ response.omitBody = isHead := by
  obtain ⟨shorter, named⟩ := codedBody_bounds surroundings body encoding
  have dated := isValidFieldValue_printable (formatHttpDate_printable timestamp)
  -- A fresh response has the status and nothing else.
  obtain ⟨fresh, made⟩ := Response.withStatus_ok status
  have parts : fresh.headers = [] ∧ fresh.statusCode = status.code := by
    simp only [Response.withStatus, Response.withVersion, Checked.bind_ok] at made
    obtain ⟨_, _, _, _, same⟩ := made
    cases same
    exact ⟨rfl, rfl⟩
  rw [buildCompressedResponse_eq, made]
  rcases coded : codedBody surroundings body encoding with ⟨final, coding⟩
  rw [coded] at shorter named
  have valid : ∀ field ∈ pageFields (formatHttpDate timestamp) contentType final.length coding,
      sendable field := by
    intro field inside
    simp only [pageFields, List.mem_append, List.mem_cons, List.not_mem_nil, or_false,
      Option.mem_toList, Option.map_eq_some_iff] at inside
    -- All fields but the last are there in every page, and each of them can be sent.
    rcases inside with (rfl | rfl | rfl | rfl | rfl) | ⟨coding, found, rfl⟩
    · exact ⟨show isValidHeaderName "Date".toList = true by decide, dated⟩
    · exact ⟨show isValidHeaderName "Content-Type".toList = true by decide, typed⟩
    · exact (lengthField_sendable _).1
    · exact ⟨by decide, by decide⟩
    · exact ⟨by decide, by decide⟩
    · exact ⟨show isValidHeaderName "Content-Encoding".toList = true by decide, named coding found⟩
  obtain ⟨filled, reachable⟩ := Response.foldlM_header valid fresh (.withStatus made)
  obtain ⟨uncoded, declared⟩ :=
    pageFields_framing (formatHttpDate timestamp) contentType final.length coding
  refine ⟨_, by simp only [filled, Except.bind, Bind.bind]; rfl,
    ⟨.omitBody isHead (.body final reachable), ?_, ?_, ?_, ?_⟩, rfl⟩
  · -- The status, the codings, the length and the size are what a sized response needs.
    simpa [Response.setBody, Response.setOmitBody, parts.2] using admits
  · simpa only [Response.setBody, Response.setOmitBody, parts.1, List.nil_append] using uncoded
  · have same : bodyLength (some final) = final.length := rfl
    simpa only [Response.setBody, Response.setOmitBody, parts.1, List.nil_append, same] using declared
  · exact Nat.le_trans shorter small

/-- Another field keeps a response sized. -/
theorem header_sized {response : Response} (sized : response.Sized) {name value : Str}
    (valid : sendable (name, value)) (unframing :
      eqIgnoreAsciiCase name "Transfer-Encoding".toList = false ∧
        eqIgnoreAsciiCase name "Content-Length".toList = false) :
    ∃ next, response.header name value = .ok next ∧ next.Sized ∧
      next.omitBody = response.omitBody ∧ next.body = response.body ∧
      next.statusCode = response.statusCode := by
  obtain ⟨named, valued⟩ := valid
  have added : response.header name value =
      .ok { response with headers := response.headers ++ [(name, value)] } := by
    -- A field that can be sent is appended, and nothing else changes.
    simp [Response.header, Response.mutate, pushHeader, named, valued]
  refine ⟨_, added, ⟨.header sized.reachable added, sized.status, ?_, ?_, sized.small⟩, rfl, rfl, rfl⟩
  · -- The field has another name than the two that frame the response.
    rw [getHeaders_append, sized.uncoded, getHeaders_cons_other unframing.1]
    rfl
  · rw [getHeaders_append, sized.declared, getHeaders_cons_other unframing.2]
    rfl

/-- A response of some fields that declare the length zero is sized. -/
theorem emptyResponse_sized (status : StatusCode)
    (admits : responseStatusHasBody status.code = true ∧ status.code ≠ 205) (fields : Headers)
    (valid : ∀ field ∈ fields, sendable field)
    (uncoded : getHeaders fields "Transfer-Encoding".toList = [])
    (declared : getHeaders fields "Content-Length".toList = ["0".toList]) (omitted : Bool) :
    ∃ response, (do
        let response ← Response.withStatus status
        let response ← fields.foldlM
          (fun (response : Response) (field : Str × Str) => response.header field.1 field.2) response
        return response.setOmitBody omitted) = .ok response ∧
      response.Sized ∧ response.omitBody = omitted ∧ response.statusCode = status.code := by
  -- A fresh response has the status and nothing else.
  obtain ⟨fresh, made⟩ := Response.withStatus_ok status
  have parts : fresh.headers = [] ∧ fresh.statusCode = status.code ∧ fresh.body = none := by
    simp only [Response.withStatus, Response.withVersion, Checked.bind_ok] at made
    obtain ⟨_, _, _, _, same⟩ := made
    cases same
    exact ⟨rfl, rfl, rfl⟩
  obtain ⟨filled, reachable⟩ := Response.foldlM_header valid fresh (.withStatus made)
  have zero : Numerals.write 10 0 = "0".toList := rfl
  refine ⟨_, by simp only [made, filled, Except.bind, Bind.bind]; rfl,
    ⟨.omitBody omitted reachable, ?_, ?_, ?_, ?_⟩, rfl, parts.2.1⟩
  · -- The status, the codings, the length and the size are what a sized response needs.
    simpa [Response.setOmitBody, parts.2.1] using admits
  · simpa only [Response.setOmitBody, parts.1, List.nil_append] using uncoded
  · have nothing : bodyLength none = 0 := rfl
    simpa only [Response.setOmitBody, parts.1, List.nil_append, parts.2.2, nothing, zero]
      using declared
  · simp [Response.setOmitBody, parts.2.2, bodyLength]

/-- The answer to a request for a tunnel is sized and opens no tunnel. -/
theorem rejectTunnel_sized : ∃ response, rejectTunnel = .ok response ∧ response.Sized ∧
    response.omitBody = false ∧ response.statusCode = 501 := by
  obtain ⟨response, made, sized, kept, refused⟩ := emptyResponse_sized .notImplemented (by decide)
    [("Content-Length".toList, "0".toList), ("Connection".toList, "close".toList)]
    (by unfold sendable; decide) (by decide) (by decide) false
  refine ⟨response, ?_, sized, kept, refused⟩
  rw [← made]
  rfl

/-- The page about a request is not much longer than the request. -/
theorem byteLength_echoPage (request : Request) (named : ∀ field ∈ request.headers, field.1 ≠ []) :
    byteLength (echoPage request) ≤ 6 * request.weight + 100 := by
  -- Every field has a name, so that there are no more fields than bytes in them.
  have fields : ∀ headers : Headers, (∀ field ∈ headers, field.1 ≠ []) →
      byteLength (headers.flatMap fun field =>
        "  ".toList ++ field.1 ++ ": ".toList ++ field.2 ++ "\n".toList) ≤ 6 * fieldsWeight headers := by
    intro headers named
    induction headers with
    | nil => exact Nat.zero_le _
    | cons field headers ih =>
      have rest := ih fun other inside => named other (by simp [inside])
      have present := length_le_byteLength field.1
      have filled := List.length_pos_of_ne_nil (named field (by simp))
      have spaces : byteLength "  ".toList = 2 ∧ byteLength ": ".toList = 2 ∧
          byteLength "\n".toList = 1 := by decide
      have split : fieldsWeight (field :: headers) =
          byteLength field.1 + byteLength field.2 + fieldsWeight headers := by
        simp [fieldsWeight]
      rw [List.flatMap_cons, split]
      simp only [byteLength_append, spaces]
      omega
  have whole : ∀ list text : Str, byteLength list ≤ 6 * fieldsWeight request.headers →
      byteLength text ≤ 2 * (request.body.getD []).length + 60 →
      byteLength ("Method: ".toList ++ request.method ++ "\nURI: ".toList ++ request.uri ++
        "\nVersion: ".toList ++ request.version ++ "\n\nHeaders:\n".toList ++ list ++ text) ≤
          6 * request.weight + 100 := by
    intro list text listed told
    have marks : byteLength "Method: ".toList = 8 ∧ byteLength "\nURI: ".toList = 6 ∧
        byteLength "\nVersion: ".toList = 10 ∧ byteLength "\n\nHeaders:\n".toList = 11 := by decide
    simp only [byteLength_append, marks, Request.weight]
    omega
  refine whole _ _ (fields request.headers named) ?_
  split
  · exact Nat.zero_le _
  · exact Nat.zero_le _
  · rename_i body _ same
    rw [same]
    have digits : byteLength (Numerals.write 10 body.length) ≤ body.length + 1 := by
      have least : body.length < 10 ^ (body.length + 1) :=
        (Nat.lt_pow_self (by decide)).trans (Nat.pow_lt_pow_right (by decide) (by omega))
      have short := Numerals.write_length_le (by decide) (Nat.succ_pos _) least
      rwa [byteLength, Utf8.length_encode_ascii
        (Numerals.forall_mem_write (by decide) (by decide) body.length)]
    have marks : byteLength "\nBody (".toList = 7 ∧ byteLength " bytes):\n".toList = 9 := by decide
    rw [byteLength_append, byteLength_append, byteLength_append, marks.1, marks.2, Option.getD_some]
    split
    · rename_i text read
      have told : byteLength text = body.length := by rw [byteLength, ← Utf8.decode_iff.mp read]
      omega
    · have mark : byteLength "[binary data]".toList = 13 := by decide
      omega

/-- The page about a request is left out for HEAD, with the length zero. -/
theorem echoHead_sized (timestamp : Nat) : ∃ response, (do
      let response ← Response.withStatus .ok
      let response ← response.header "Date".toList (formatHttpDate timestamp)
      let response ← response.header "Content-Type".toList "text/plain; charset=utf-8".toList
      let response ← response.header "Content-Length".toList "0".toList
      let response ← response.header "Server".toList "shiguredo_http11/0.1.0".toList
      pure (response.setOmitBody true)) = .ok response ∧
    response.Sized ∧ response.omitBody = true := by
  have dated := isValidFieldValue_printable (formatHttpDate_printable timestamp)
  obtain ⟨response, made, sized, omitted, _⟩ := emptyResponse_sized .ok (by decide)
    [("Date".toList, formatHttpDate timestamp),
      ("Content-Type".toList, "text/plain; charset=utf-8".toList),
      ("Content-Length".toList, "0".toList),
      ("Server".toList, "shiguredo_http11/0.1.0".toList)]
    (by
      simp only [List.forall_mem_cons, sendable]
      exact ⟨⟨by decide, dated⟩, by decide, by decide, by decide, by simp⟩) rfl rfl true
  -- The fields are added one by one in the source, and all at once here.
  refine ⟨response, ?_, sized, omitted⟩
  rw [← made]
  simp only [List.foldlM_cons, List.foldlM_nil, bind_assoc, pure_bind]

/-- The end of a connection is announced by a field of its own. -/
theorem addConnectionHeaders_sized {response : Response} (sized : response.Sized)
    (shouldKeepAlive : Bool) : ∃ next, addConnectionHeaders response shouldKeepAlive = .ok next ∧
      next.Sized ∧ next.omitBody = response.omitBody := by
  unfold addConnectionHeaders
  -- A connection that is kept has no such field.
  cases shouldKeepAlive with
  | true => exact ⟨response, rfl, sized, rfl⟩
  | false =>
    have valid : sendable ("Connection".toList, "close".toList) := ⟨by decide, by decide⟩
    obtain ⟨next, added, later, omitted, _⟩ := header_sized sized valid ⟨by decide, by decide⟩
    exact ⟨next, added, later, omitted⟩

/-- The page of the root is short. -/
theorem welcomePage_short : (Utf8.encode welcomePage).length ≤ u64Max := by
  unfold welcomePage
  -- It is checked line by line.
  simp only [String.toList_append, Utf8.encode_append, List.length_append]
  refine Nat.le_trans (Nat.add_le_add (Nat.add_le_add (Nat.add_le_add (Nat.add_le_add ?_ ?_) ?_)
    ?_) ?_) (show 100 + 100 + 100 + 100 + 100 ≤ u64Max by decide)
  all_goals decide +kernel

/-- The pages that do not depend on a request are short. -/
theorem pages_short {now : Nat} (clock : now ≤ u64Max) :
    (Utf8.encode welcomePage).length ≤ u64Max ∧ (Utf8.encode (infoPage now)).length ≤ u64Max ∧
      (Utf8.encode "404 Not Found\n".toList).length ≤ u64Max := by
  refine ⟨welcomePage_short, ?_, by decide +kernel⟩
  -- A number of the clock has at most twenty digits.
  have least : now < 10 ^ 20 := clock.trans_lt (by decide)
  have digits := Numerals.write_length_le (by decide) (by decide) least
  have whole : (Utf8.encode (Numerals.write 10 now)).length = (Numerals.write 10 now).length :=
    Utf8.length_encode_ascii (Numerals.forall_mem_write (by decide) (by decide) now)
  have parts : ∀ front back : Str, (Utf8.encode front).length ≤ 100 → (Utf8.encode back).length ≤ 1 →
      (Utf8.encode (front ++ Numerals.write 10 now ++ back)).length ≤ u64Max := by
    intro front back short least
    simp only [Utf8.encode_append, List.length_append, whole]
    have enough : 121 ≤ u64Max := by decide
    omega
  exact parts _ _ (by decide +kernel) (by decide +kernel)

/-- The server has a response to every request of a reasonable size. -/
theorem buildResponse_sized (surroundings : Surroundings) {now : Nat} (clock : now ≤ u64Max)
    {request : Request}
    (named : ∀ field ∈ request.headers, field.1 ≠ [])
    (small : 6 * request.weight + 100 ≤ u64Max) (shouldKeepAlive : Bool) :
    ∃ response, buildResponse surroundings now request shouldKeepAlive = .ok response ∧
      response.Sized ∧ response.omitBody = eqIgnoreAsciiCase request.method "HEAD".toList := by
  obtain ⟨welcome, info, missing⟩ := pages_short clock
  have echo := (byteLength_echoPage request named).trans small
  -- Every page gets the field for the connection at its end.
  have finish : ∀ page : Except EncodeError Response, (∃ response, page = .ok response ∧
      response.Sized ∧ response.omitBody = eqIgnoreAsciiCase request.method "HEAD".toList) →
      ∃ response, (page >>= fun response => addConnectionHeaders response shouldKeepAlive) =
        .ok response ∧ response.Sized ∧
          response.omitBody = eqIgnoreAsciiCase request.method "HEAD".toList := by
    rintro page ⟨response, rfl, sized, omitted⟩
    obtain ⟨next, added, later, same⟩ := addConnectionHeaders_sized sized shouldKeepAlive
    exact ⟨next, added, later, same.trans omitted⟩
  unfold buildResponse
  dsimp only
  -- The three pages have their own paths, and every other path is not found.
  by_cases root : request.uri = "/".toList
  · rw [if_pos root]
    exact finish _ (buildCompressedResponse_sized (by decide) (by decide) welcome _ _ _)
  rw [if_neg root]
  by_cases about : request.uri = "/info".toList
  · rw [if_pos about]
    exact finish _ (buildCompressedResponse_sized (by decide) (by decide) info _ _ _)
  rw [if_neg about]
  by_cases asked : request.uri = "/echo".toList
  · rw [if_pos asked]
    -- The page about a request is left out for HEAD, and otherwise coded like the others.
    cases head : eqIgnoreAsciiCase request.method "HEAD".toList with
    | false =>
      rw [if_neg (by simp), ← head]
      exact finish _ (buildCompressedResponse_sized (by decide) (by decide) echo _ _ _)
    | true =>
      obtain ⟨response, made, sized, omitted⟩ := echoHead_sized now
      obtain ⟨next, added, later, same⟩ := finish _ ⟨response, made, sized, omitted.trans head.symm⟩
      refine ⟨next, ?_, later, same.trans head⟩
      rw [if_pos rfl, ← added]
      simp only [bind_assoc]
  · rw [if_neg asked]
    exact finish _ (buildCompressedResponse_sized (by decide) (by decide) missing _ _ _)

/-- A head that was read is built again as it was. -/
theorem rebuild_made {head : RequestHead} {bodyKind : BodyKind}
    (made : Core.Made RequestDecoder.side (head, bodyKind)) (body : Option Bytes) :
    rebuild head body = .ok (Request.fromRawParts head body) ∧
      ∀ field ∈ head.headers, field.1 ≠ [] := by
  obtain ⟨method, uri, version, headers⟩ := head
  obtain ⟨words, fields, _⟩ := RequestDecoder.made_ok made
  have narrow : (Utf8.encode uri).any (fun byte => 0x80 ≤ byte) = false := by
    refine List.any_eq_false.mpr fun byte inside => ?_
    have bound := words.narrow byte inside
    simp only [decide_eq_true_eq, UInt8.not_le]
    exact bound
  have fresh : Request.withVersion method uri version = .ok ⟨method, uri, version, [], none⟩ := by
    simp only [Request.withVersion, Request.checkTarget, words.token, words.target, narrow,
      words.versioned]
    rfl
  -- The fields are added one by one, in their order.
  have listed : ∀ (more : Headers) (request : Request), (∀ field ∈ more, sendable field) →
      more.foldlM (fun (request : Request) (field : Str × Str) =>
        request.addHeader field.1 field.2) request =
        .ok { request with headers := request.headers ++ more } := by
    intro more
    induction more with
    | nil =>
      intro request _
      rw [List.append_nil]
      rfl
    | cons field more ih =>
      intro request each
      obtain ⟨named, valued⟩ := each field (by simp)
      have added : request.addHeader field.1 field.2 =
          .ok { request with headers := request.headers ++ [field] } := by
        simp [Request.addHeader, addField, checkHeader, named, valued, Except.map]
      have onward := ih { request with headers := request.headers ++ [field] }
        fun other inside => each other (by simp [inside])
      rw [List.append_assoc] at onward
      rw [List.foldlM_cons, added]
      exact onward
  refine ⟨?_, fun field inside absent => ?_⟩
  · simp only [rebuild, fresh, Except.bind, Bind.bind, listed headers _ fields]
    cases body <;> rfl
  · have token := (fields field inside).1
    rw [absent] at token
    cases token

/-- The requests that the server can answer: those that were made of checked lines and are small. -/
structure Answerable (message : Message RequestHead) : Prop where
  /-- The head was made of checked lines. -/
  made : Core.Made RequestDecoder.side (message.head, message.bodyKind)
  /-- The page about it has a length that is a number of the protocol. -/
  small : 6 * message.weight RequestHead.weight + 100 ≤ u64Max

/-- A response to a message, and its bytes. -/
structure Answers (surroundings : Surroundings) (count : Nat) (message : Message RequestHead)
    (answer : Response × Bytes) : Prop where
  /-- It is the one to give. -/
  given : answerTo surroundings count message = .ok answer.1
  /-- Its bytes are those of the encoder. -/
  encoded : encodeResponse answer.1 = .ok answer.2

/-- The response to a request that the server can answer is sized, and framed for its method. -/
theorem answerTo_sized (clock : ∀ count, surroundings.now count ≤ u64Max)
    {message : Message RequestHead} (answerable : Answerable message) (count : Nat) :
    ∃ response, answerTo surroundings count message = .ok response ∧ response.Sized ∧
      response.omitBody = eqIgnoreAsciiCase message.head.method "HEAD".toList ∧
      (message.head.method = "CONNECT".toList → response.statusCode = 501) := by
  obtain ⟨_, _, tunnels⟩ := RequestDecoder.made_ok answerable.made
  by_cases tunnel : message.bodyKind = .tunnel
  · -- A tunnel is refused, and the refusal keeps nothing back.
    obtain ⟨response, made, sized, kept, refused⟩ := rejectTunnel_sized
    rw [answerTo, if_pos tunnel]
    refine ⟨response, made, sized, ?_, fun _ => refused⟩
    rw [kept, tunnels.mp tunnel]
    decide
  · -- Any other request is built again before it is answered.
    obtain ⟨rebuilt, named⟩ := rebuild_made answerable.made message.content
    have weight := message.weight_request
    have small : 6 * message.request.weight + 100 ≤ u64Max := by
      have small := answerable.small
      omega
    obtain ⟨response, built, sized, omitted⟩ := buildResponse_sized surroundings
      (clock (count + 1)) named small (staysOpen count message)
    rw [answerTo, if_neg tunnel, rebuilt]
    exact ⟨response, built, sized, omitted, fun connect => absurd (tunnels.mpr connect) tunnel⟩

/-- An answer is what a client awaits that tells the method of its request. -/
theorem Answers.replies (clock : ∀ count, surroundings.now count ≤ u64Max) {count : Nat}
    {message : Message RequestHead} {answer : Response × Bytes}
    (answers : Answers surroundings count message answer) (answerable : Answerable message)
    (exactly : ExactMethod message) :
    Response.Replies message.head.method answer.1.bodied answer.2 := by
  obtain ⟨response, made, sized, omitted, refused⟩ := answerTo_sized clock answerable count
  obtain ⟨wire, encoded, sent⟩ := sized.sent
  cases made.symm.trans answers.given
  cases encoded.symm.trans answers.encoded
  refine ⟨sent, ⟨?_, fun connect success => ?_⟩⟩
  · -- The server keeps the body back for all variants of HEAD, the client knows only one.
    rw [Option.some.injEq, show answer.1.bodied.omitBody = answer.1.omitBody from rfl, omitted]
    exact ⟨fun head => by rw [head]; decide, exactly⟩
  · have status : answer.1.bodied.statusCode = 501 := refused (Option.some.inj connect)
    omega

/-- Every request that the server can answer is answered, and counted unless it asks for a tunnel. -/
theorem serveRequest_answers (clock : ∀ count, surroundings.now count ≤ u64Max)
    {message : Message RequestHead} (answerable : Answerable message) {state : ConnectionState}
    (most : state.maxRequests = ({} : ConnectionState).maxRequests) :
    ∃ answer, Answers surroundings state.requestCount message answer ∧
      ∃ next : ConnectionState,
        serveRequest surroundings state message.head message.bodyKind message.content =
        (.ok (staysOpen state.requestCount message), next.write answer.2) ∧
        next.maxRequests = state.maxRequests ∧ next.written = state.written ∧
        (message.bodyKind ≠ .tunnel → next.requestCount = state.requestCount + 1) := by
  obtain ⟨response, given, sized, _⟩ := answerTo_sized clock answerable state.requestCount
  obtain ⟨wire, encoded, _⟩ := sized.sent
  have answered : answerTo surroundings state.requestCount message >>= encodeResponse =
      .ok wire := by
    rw [given]
    exact encoded
  refine ⟨(response, wire), ⟨given, encoded⟩, ?_⟩
  -- A tunnel is answered without being counted.
  by_cases tunnel : message.bodyKind = .tunnel
  · rw [answerTo, if_pos tunnel] at answered
    exact ⟨state, by simp [serveRequest, tunnel, answered, staysOpen], rfl, rfl,
      fun other => absurd tunnel other⟩
  · obtain ⟨rebuilt, _⟩ := rebuild_made answerable.made message.content
    -- The connection goes on if the request allows it and is not the last one.
    have open_ : (HttpHead.isKeepAlive message.head.version message.head.headers &&
        decide (state.requestCount + 1 < state.maxRequests)) =
          staysOpen state.requestCount message := by
      rw [most]
      simp [staysOpen, tunnel]
    refine ⟨{ state with requestCount := state.requestCount + 1 }, ?_, rfl, rfl, fun _ => rfl⟩
    rw [answerTo, if_neg tunnel, rebuilt] at answered
    simp only [serveRequest, if_neg tunnel, rebuilt, Request.fromRawParts, open_]
    simp only [Bind.bind, Except.bind, Request.fromRawParts] at answered ⊢
    rw [answered]

/-- Answers to the first messages of some, the first one to the first message and so on. -/
structure Serves (surroundings : Surroundings) (messages : List (Message RequestHead))
    (answers : List (Response × Bytes)) : Prop where
  /-- There is no answer without a message. -/
  few : answers.length ≤ messages.length
  /-- Each answers the message in its place. -/
  each : ∀ index message answer, messages[index]? = some message →
    answers[index]? = some answer → Answers surroundings index message answer
  /-- Messages after which the connection stays open are the only ones before another one. -/
  kept : ∀ index message, messages[index]? = some message → index + 1 < answers.length →
    staysOpen index message = true

/-- What answers have come to: they were counted and written, and no answer has failed. -/
structure Served (surroundings : Surroundings) (messages : List (Message RequestHead))
    (answers : List (Response × Bytes)) (standing : Standing) : Prop where
  /-- They are answers to the messages. -/
  serves : Serves surroundings messages answers
  /-- They were written one after the other. -/
  written : standing.1.written = (answers.map Prod.snd).flatten
  /-- The connection goes on or was closed with an answer. -/
  ending : standing.2 = none ∨ standing.2 = some .served
  /-- While it goes on, all messages were answered and counted, and left the connection open. -/
  going : standing.2 = none → answers.length = messages.length ∧
    standing.1.requestCount = messages.length ∧
    standing.1.maxRequests = ({} : ConnectionState).maxRequests ∧
    ∀ index message, messages[index]? = some message → staysOpen index message = true
  /-- The last answer has closed it otherwise. -/
  closed : standing.2 = some .served → ∃ index message, messages[index]? = some message ∧
    answers.length = index + 1 ∧ staysOpen index message = false

/-- More messages leave the answers to the first ones as they are. -/
theorem Serves.more {messages : List (Message RequestHead)} {answers : List (Response × Bytes)}
    (serves : Serves surroundings messages answers) (more : List (Message RequestHead)) :
    Serves surroundings (messages ++ more) answers := by
  have inside : ∀ index message, index < answers.length →
      (messages ++ more)[index]? = some message → messages[index]? = some message := by
    intro index message before found
    have few := serves.few
    rwa [List.getElem?_append_left (by omega)] at found
  refine ⟨by rw [List.length_append]; exact serves.few.trans (Nat.le_add_right _ _), ?_, ?_⟩
  · -- The answers so far are to messages so far, which come first in the longer list too.
    intro index message answer found given
    have before := (List.getElem?_eq_some_iff.mp given).1
    exact serves.each index message answer (inside index message before found) given
  · intro index message found before
    exact serves.kept index message (inside index message (by omega) found) before

/-- An item of a list that was lengthened is one of those before, or the last one. -/
theorem getElem?_concat {Item : Type} {items : List Item} {last item : Item} {index : Nat}
    (found : (items ++ [last])[index]? = some item) :
    items[index]? = some item ∧ index < items.length ∨ index = items.length ∧ item = last := by
  -- The index lies within the items before, at the last one, or behind it.
  rcases Nat.lt_trichotomy index items.length with before | same | behind
  · rw [List.getElem?_append_left before] at found
    exact .inl ⟨found, before⟩
  · subst same
    simp only [List.getElem?_concat_length, Option.some.injEq] at found
    exact .inr ⟨rfl, found.symm⟩
  · rw [List.getElem?_eq_none (by simp; omega)] at found
    cases found

/-- One more message is answered where all before it were. -/
theorem Served.step (clock : ∀ count, surroundings.now count ≤ u64Max)
    {messages : List (Message RequestHead)} {answers : List (Response × Bytes)} {standing : Standing}
    (served : Served surroundings messages answers standing) {message : Message RequestHead}
    (answerable : Answerable message) : ∃ more, Served surroundings (messages ++ [message])
      (answers ++ more) (serveMessage surroundings standing message) := by
  obtain ⟨state, ending⟩ := standing
  rcases served.ending with rfl | rfl
  · obtain ⟨all, counted, most, open_⟩ := served.going rfl
    obtain ⟨answer, answered, next, did, limit, written, counts⟩ :=
      serveRequest_answers clock answerable most
    refine ⟨[answer], ?_⟩
    have stands : serveMessage surroundings (state, none) message =
        (next.write answer.2, endingOf (.ok (staysOpen state.requestCount message))) := by
      simp only [serveMessage, did]
    rw [stands]
    have serves : Serves surroundings (messages ++ [message]) (answers ++ [answer]) := by
      refine ⟨by simp [all], ?_, ?_⟩
      · intro index other given found place
        rcases getElem?_concat found with ⟨earlier, before⟩ | ⟨rfl, rfl⟩
        · rw [List.getElem?_append_left (by omega)] at place
          exact served.serves.each index other given earlier place
        · rw [← all, List.getElem?_concat_length] at place
          cases place
          rw [← counted]
          exact answered
      · intro index other found before
        rcases getElem?_concat found with ⟨earlier, _⟩ | ⟨rfl, _⟩
        · exact open_ index other earlier
        · simp [all] at before
    have wrote : (next.write answer.2).written = ((answers ++ [answer]).map Prod.snd).flatten := by
      have before : state.written = (answers.map Prod.snd).flatten := served.written
      simp [ConnectionState.write, written, before]
    cases stays : staysOpen state.requestCount message with
    | true =>
      have notTunnel : message.bodyKind ≠ .tunnel := by
        rintro tunnel
        simp [staysOpen, tunnel] at stays
      refine ⟨serves, wrote, .inl rfl, fun _ => ⟨by simp [all], ?_, limit.trans most, ?_⟩,
        nofun⟩
      · have last := counts notTunnel
        dsimp only at last counted
        simp only [ConnectionState.write, last, counted, List.length_append, List.length_singleton]
      · intro index other found
        rcases getElem?_concat found with ⟨earlier, _⟩ | ⟨rfl, rfl⟩
        · exact open_ index other earlier
        · rw [← counted]
          exact stays
    | false =>
      refine ⟨serves, wrote, .inr rfl, nofun, fun _ =>
        ⟨messages.length, message, by simp, by simp [all], ?_⟩⟩
      rw [← counted]
      exact stays
  · -- The connection is closed already.
    refine ⟨[], ?_⟩
    rw [List.append_nil]
    obtain ⟨index, last, found, count, closes⟩ := served.closed rfl
    refine ⟨served.serves.more [message], served.written, .inr rfl, nofun,
      fun _ => ⟨index, last, ?_, count, closes⟩⟩
    rw [List.getElem?_append_left (List.getElem?_eq_some_iff.mp found).1]
    exact found

/-- Messages that can be answered are, up to the first one that closes the connection. -/
theorem serveAll_served (clock : ∀ count, surroundings.now count ≤ u64Max)
    {messages : List (Message RequestHead)} (each : ∀ message ∈ messages, Answerable message) :
    ∃ answers, Served surroundings messages answers (serveAll surroundings messages) := by
  -- The induction is on the messages, the last one taken off.
  induction messages using List.reverseRecOn with
  | nil =>
    exact ⟨[], ⟨by simp, by simp, by simp⟩, rfl, .inl rfl, fun _ => ⟨rfl, rfl, rfl, by simp⟩,
      nofun⟩
  | append_singleton messages message ih =>
    obtain ⟨answers, served⟩ := ih fun other inside => each other (by simp [inside])
    obtain ⟨more, later⟩ := served.step clock (each message (by simp))
    rw [serveAll_append]
    exact ⟨answers ++ more, later⟩

/-- No connection is kept for more than the most requests. -/
theorem Serves.length_le {messages : List (Message RequestHead)} {answers : List (Response × Bytes)}
    (serves : Serves surroundings messages answers) :
    answers.length ≤ ({} : ConnectionState).maxRequests := by
  by_contra many
  have most : ({} : ConnectionState).maxRequests = 1000 := rfl
  rw [most, Nat.not_le] at many
  -- The message before the last one would have closed the connection.
  have inside : answers.length - 2 < messages.length := by
    have few := serves.few
    omega
  have stays := serves.kept _ _ (List.getElem?_eq_getElem inside) (by omega)
  simp only [staysOpen, Bool.and_eq_true, decide_eq_true_eq] at stays
  omega

/-- A client that tells the methods of the requests reads their answers, and has nothing left. -/
theorem Serves.read (clock : ∀ count, surroundings.now count ≤ u64Max)
    {messages : List (Message RequestHead)} {answers : List (Response × Bytes)}
    (serves : Serves surroundings messages answers)
    (each : ∀ message ∈ messages, Answerable message)
    (exactly : ∀ message ∈ messages.take answers.length, ExactMethod message)
    (fits : (answers.map Prod.snd).flatten.length ≤ usizeMax) :
    ∃ last, clientReads (messages.take answers.length) (answers.map Prod.snd).flatten =
      (answers.map fun answer => .ok (some answer.1.bodied.received), last) ∧
        last.remaining = [] := by
  -- Every request stands beside its answer.
  let pairs := (messages.take answers.length).zip answers
  have count : (messages.take answers.length).length = answers.length := by
    rw [List.length_take, Nat.min_eq_left serves.few]
  have requests : pairs.map Prod.fst = messages.take answers.length :=
    List.map_fst_zip count.le
  have answered : pairs.map Prod.snd = answers := List.map_snd_zip count.ge
  let replies := pairs.map fun pair => (pair.1.head.method, pair.2.1.bodied, pair.2.2)
  have replied : ∀ reply ∈ replies, Response.Replies reply.1 reply.2.1 reply.2.2 := by
    intro reply inside
    obtain ⟨⟨message, answer⟩, member, rfl⟩ := List.mem_map.mp inside
    obtain ⟨index, found⟩ := List.getElem?_of_mem member
    obtain ⟨asked, given⟩ := List.getElem?_zip_eq_some.mp found
    have taken := List.mem_of_getElem? asked
    have before : index < answers.length := (List.getElem?_eq_some_iff.mp given).1
    rw [List.getElem?_take_of_lt before] at asked
    exact (serves.each index message answer asked given).replies clock
      (each _ (List.mem_of_mem_take taken)) (exactly _ taken)
  have wires : (replies.flatMap fun reply => reply.2.2) = (answers.map Prod.snd).flatten := by
    conv_rhs => rw [← answered]
    simp [replies, List.flatMap_def, Function.comp_def]
  have methods : replies.map Prod.fst =
      (messages.take answers.length).map fun message => message.head.method := by
    rw [← requests]
    simp [replies, Function.comp_def]
  have received : (replies.map fun reply => (.ok (some reply.2.1.received) :
      Except Error (Option Response))) =
      answers.map fun answer => .ok (some answer.1.bodied.received) := by
    conv_rhs => rw [← answered]
    simp [replies, Function.comp_def]
  -- A fresh decoder that was fed all of it is between messages.
  have start : ((ResponseDecoder.withLimits .unlimited).feed (answers.map Prod.snd).flatten).2.view
      [] = Reader.ready .unlimited none [] (replies.flatMap fun reply => reply.2.2) := by
    rw [wires, Decoder.feed_unlimited rfl (by simpa [ResponseDecoder.withLimits] using fits)]
    rfl
  have decoded := Response.decodeReplies_replies replied (by rw [wires]; exact fits) start
  rwa [methods, received] at decoded

/-- What a connection has to show for everything that was heard on it. -/
structure Shows (surroundings : Surroundings) (reader : Reader RequestHead Unit)
    (answers : List (Response × Bytes)) (standing : Standing) : Prop where
  /-- What was heard was answered. -/
  serves : Serves surroundings (heard reader) answers
  /-- The answers were written, and nothing else. -/
  written : standing.1.written = (answers.map Prod.snd).flatten
  /-- No answer has failed. -/
  sound : ∀ error, standing.2 ≠ some (.failed (.encoder error))
  /-- All messages that were read were answered, unless the connection was closed with an answer. -/
  all : standing.2 ≠ some .served → answers.length = reader.done.length
  /-- The last answer has closed it otherwise. -/
  closed : standing.2 = some .served → ∃ index message, (heard reader)[index]? = some message ∧
    answers.length = index + 1 ∧ staysOpen index message = false

variable {reader : Reader RequestHead Unit} {answers : List (Response × Bytes)}
  {state : ConnectionState}

/-- Where all messages were answered, the connection may wait or end without an answer. -/
theorem Served.shows (served : Served surroundings reader.done answers (state, none))
    {ending : Option Ending} (other : ending ≠ some .served)
    (sound : ∀ error, ending ≠ some (.failed (.encoder error))) :
    Shows surroundings reader answers (state, ending) where
  serves := served.serves.more _
  written := served.written
  sound := sound
  all := fun _ => (served.going rfl).1
  closed := fun closed => absurd closed other

/-- Where an answer has closed the connection, what was heard behind its message is not answered. -/
theorem Served.shows_closed {messages more : List (Message RequestHead)}
    (served : Served surroundings messages answers (state, some .served))
    (whole : heard reader = messages ++ more) :
    Shows surroundings reader answers (state, some .served) where
  serves := by
    rw [whole]
    exact served.serves.more more
  written := served.written
  sound := nofun
  all := fun other => absurd rfl other
  closed := fun _ => by
    -- The message whose answer closed the connection is one of those heard first.
    obtain ⟨index, message, found, count, closes⟩ := served.closed rfl
    refine ⟨index, message, ?_, count, closes⟩
    rw [whole, List.getElem?_append_left (List.getElem?_eq_some_iff.mp found).1]
    exact found

/-- What a reader comes to is shown for what it has heard. -/
theorem outcome_shows (clock : ∀ count, surroundings.now count ≤ u64Max)
    (consistent : reader.failed = none → reader.Consistent)
    (each : ∀ message ∈ heard reader, Answerable message) :
    ∃ answers, Shows surroundings reader answers (outcome surroundings reader) := by
  have doneEach : ∀ message ∈ reader.done, Answerable message :=
    fun message inside => each message (List.mem_append_left _ inside)
  obtain ⟨answers, served⟩ := serveAll_served clock doneEach
  unfold outcome
  rcases standing : serveAll surroundings reader.done with ⟨state, _ | ending⟩ <;>
    rw [standing] at served
  · dsimp only
    split
    · exact ⟨answers, served.shows nofun nofun⟩
    · rename_i head bodyKind unfailed tunnel current
      -- The request for a tunnel is one more message.
      have sound := consistent unfailed
      unfold Reader.Consistent at sound
      rw [tunnel] at sound
      obtain ⟨⟨_, opened⟩, _⟩ := sound
      rw [current] at opened
      cases opened
      have whole : heard reader = reader.done ++ [⟨head, .tunnel, [], []⟩] := by
        simp [heard, tunnel, current]
      obtain ⟨more, later⟩ := served.step clock (each ⟨head, .tunnel, [], []⟩ (by simp [whole]))
      have closes : endingOf (serveRequest surroundings state head .tunnel none).1 =
          some .served := by
        rcases later.ending with going | closed
        · obtain ⟨ending, ended⟩ :=
            ServerRun.serveRequest_tunnel surroundings state head none
          exact absurd (going.symm.trans ended) nofun
        · exact closed
      have stands : serveMessage surroundings (state, none) ⟨head, .tunnel, [], []⟩ =
          ((serveRequest surroundings state head .tunnel none).2, some .served) := by
        rw [← closes]
        rfl
      rw [stands] at later
      rw [closes]
      exact ⟨answers ++ more, later.shows_closed (whole.trans (List.append_nil _).symm)⟩
    · refine ⟨answers, served.shows ?_ ?_⟩ <;> split <;> nofun
  · rcases served.ending with going | closed
    · cases going
    · cases closed
      exact ⟨answers, served.shows_closed rfl⟩

end Server

open Server Decoder

namespace ServerRun

variable {surroundings : Surroundings} {run : ServerRun} {reader : Reader RequestHead Unit}

/-- A run shows what was heard. -/
theorem Follows.shows (follow : run.Follows surroundings reader)
    (clock : ∀ count, surroundings.now count ≤ u64Max)
    (consistent : reader.failed = none → reader.Consistent)
    (each : ∀ message ∈ heard reader, Answerable message) :
    ∃ answers, Shows surroundings reader answers (run.connection, run.ending) := by
  -- Without an error nothing but the messages that are done has been answered.
  have waits : serveAll surroundings reader.done = (run.connection, none) →
      run.ending = none ∨ run.ending = some .left →
      ∃ answers, Shows surroundings reader answers (run.connection, run.ending) := by
    intro standing ending
    obtain ⟨answers, served⟩ := serveAll_served clock
      fun message inside => each message (List.mem_append_left _ inside)
    rw [standing] at served
    refine ⟨answers, served.shows ?_ ?_⟩ <;> rcases ending with same | same <;> rw [same] <;> nofun
  rw [Follows] at follow
  cases ended : run.ending with
  | none =>
    rw [ended] at follow
    obtain ⟨done, receiving, _, _, rfl⟩ := follow
    exact ended ▸ waits receiving.served (.inl ended)
  | some ending =>
    rw [ended] at follow
    -- The client has left, or the end that was shown stays the end.
    rcases follow with ⟨rfl, standing⟩ | ⟨_, stands⟩
    · exact ended ▸ waits standing (.inr ended)
    · rw [← stands]
      exact outcome_shows clock consistent each

end ServerRun

end Http11

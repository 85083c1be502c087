import Http11.Building
import Http11.Proofs.Encoder.Accepts
import Http11.Proofs.Encoder.Requests
import Http11.Proofs.Encoder.Responses

/-! Whatever a program builds, what it puts into a message stays in its own line of the head. -/

namespace Http11

/-- A field that can be sent is added, and another one changes nothing. -/
theorem pushHeader_cases (headers : Headers) (name value : Str) :
    (¬ sendable (name, value) ∧
      ∃ error, pushHeader headers name value = (.error error, headers)) ∨
    (sendable (name, value) ∧
      pushHeader headers name value = (.ok (), headers ++ [(name, value)]) ∧
      addField headers name value = .ok (headers ++ [(name, value)])) := by
  unfold pushHeader addField checkHeader sendable
  -- The name is checked first, and the value only behind a name that is well formed.
  cases isValidHeaderName name with
  | false => exact .inl ⟨by simp, _, rfl⟩
  | true =>
    cases isValidFieldValue value with
    | false => exact .inl ⟨by simp, _, rfl⟩
    | true => exact .inr ⟨⟨rfl, rfl⟩, rfl, rfl⟩

/-- A field that can be sent takes the place of all of its name, and another one of none. -/
theorem replaceHeader_cases (headers : Headers) (name value : Str) :
    let replaced := headers.filter (fun field => !eqIgnoreAsciiCase field.1 name) ++ [(name, value)]
    (¬ sendable (name, value) ∧
      ∃ error, replaceHeader headers name value = (.error error, headers)) ∨
    (sendable (name, value) ∧ replaceHeader headers name value = (.ok (), replaced) ∧
      setField headers name value = .ok replaced) := by
  unfold replaceHeader setField checkHeader sendable
  -- Nothing is dropped before both checks have passed.
  cases isValidHeaderName name with
  | false => exact .inl ⟨by simp, _, rfl⟩
  | true =>
    cases isValidFieldValue value with
    | false => exact .inl ⟨by simp, _, rfl⟩
    | true => exact .inr ⟨⟨rfl, rfl⟩, rfl, rfl⟩

/-- What a change makes of the fields and the body of a message. -/
def Mutation.effect (headers : Headers) (body : Option Bytes) : Mutation → Headers × Option Bytes
  | .addHeader name value => (headers ++ [(name, value)], body)
  | .setHeader name value =>
    (headers.filter (fun field => !eqIgnoreAsciiCase field.1 name) ++ [(name, value)], body)
  | .setBody content => (headers, some content)
  | .clearBody => (headers, none)

/-- A change whose field, where it has one, can be sent. -/
def Mutation.IsSendable : Mutation → Prop
  | .addHeader name value | .setHeader name value => sendable (name, value)
  | .setBody _ | .clearBody => True

/-- A kind of messages that are changed in place, by their fields and their body only. -/
structure Mutable (Whole : Type) where
  /-- A change. -/
  mutate : Whole → Mutation → Except EncodeError Unit × Whole
  /-- The fields. -/
  headers : Whole → Headers
  /-- The body. -/
  body : Whole → Option Bytes
  /-- The message with other fields and another body. -/
  put : Whole → Headers × Option Bytes → Whole
  /-- A message that a program can build of values. -/
  Built : Whole → Prop
  /-- A message is made of its fields, its body and the rest. -/
  put_same : ∀ whole, put whole (headers whole, body whole) = whole
  /-- Adding a field changes the fields only. -/
  adds : ∀ whole name value, mutate whole (.addHeader name value) =
    ((pushHeader (headers whole) name value).1,
      put whole ((pushHeader (headers whole) name value).2, body whole))
  /-- Replacing a field changes the fields only. -/
  sets : ∀ whole name value, mutate whole (.setHeader name value) =
    ((replaceHeader (headers whole) name value).1,
      put whole ((replaceHeader (headers whole) name value).2, body whole))
  /-- Giving a body changes nothing else. -/
  gives : ∀ whole content, mutate whole (.setBody content) =
    (.ok (), put whole (headers whole, some content))
  /-- Taking the body away changes nothing else. -/
  clears : ∀ whole, mutate whole .clearBody = (.ok (), put whole (headers whole, none))
  /-- What was added could be built. -/
  built_adds : ∀ {whole name value fields}, Built whole →
    addField (headers whole) name value = .ok fields → Built (put whole (fields, body whole))
  /-- What was replaced could be built. -/
  built_sets : ∀ {whole name value fields}, Built whole →
    setField (headers whole) name value = .ok fields → Built (put whole (fields, body whole))
  /-- Any body could be built. -/
  built_bodies : ∀ {whole} content, Built whole → Built (put whole (headers whole, content))

namespace Mutable

variable {Whole : Type} (kind : Mutable Whole)

/-- A change does all that it says when its field can be sent, and otherwise nothing. -/
theorem mutate_cases (whole : Whole) (mutation : Mutation) :
    let next := kind.put whole (mutation.effect (kind.headers whole) (kind.body whole))
    (¬ mutation.IsSendable ∧ ∃ error, kind.mutate whole mutation = (.error error, whole)) ∨
    (mutation.IsSendable ∧ kind.mutate whole mutation = (.ok (), next) ∧
      (kind.Built whole → kind.Built next)) := by
  cases mutation with
  | addHeader name value =>
    rw [kind.adds]
    rcases pushHeader_cases (kind.headers whole) name value with
      ⟨refused, error, same⟩ | ⟨valid, same, added⟩ <;> rw [same]
    · exact .inl ⟨refused, error, by rw [kind.put_same]⟩
    · exact .inr ⟨valid, rfl, fun built => kind.built_adds built added⟩
  | setHeader name value =>
    rw [kind.sets]
    rcases replaceHeader_cases (kind.headers whole) name value with
      ⟨refused, error, same⟩ | ⟨valid, same, set⟩ <;> rw [same]
    · exact .inl ⟨refused, error, by rw [kind.put_same]⟩
    · exact .inr ⟨valid, rfl, fun built => kind.built_sets built set⟩
  | setBody content =>
    -- No body is ever refused.
    exact .inr ⟨trivial, kind.gives whole content, kind.built_bodies (some content)⟩
  | clearBody => exact .inr ⟨trivial, kind.clears whole, kind.built_bodies none⟩

/-- A change that failed has changed nothing. -/
theorem mutate_failed {whole next : Whole} {mutation : Mutation} {error : EncodeError}
    (failed : kind.mutate whole mutation = (.error error, next)) : next = whole := by
  rcases kind.mutate_cases whole mutation with ⟨_, _, same⟩ | ⟨_, same, _⟩ <;>
    rw [failed] at same <;> cases same
  rfl

/-- A change succeeds exactly with a field that can be sent, and has then done all that it says. -/
theorem mutate_ok {whole next : Whole} {mutation : Mutation} :
    kind.mutate whole mutation = (.ok (), next) ↔ mutation.IsSendable ∧
      next = kind.put whole (mutation.effect (kind.headers whole) (kind.body whole)) := by
  rcases kind.mutate_cases whole mutation with ⟨refused, error, same⟩ | ⟨valid, same, _⟩ <;>
    rw [same]
  · -- A field that cannot be sent is refused, and otherwise the change is done.
    exact ⟨fun other => (by cases other), fun other => absurd other.1 refused⟩
  · constructor
    · rintro ⟨⟩
      exact ⟨valid, rfl⟩
    · rintro ⟨_, rfl⟩
      rfl

/-- Whatever change is made of a message that could be built, its outcome could be built. -/
theorem mutate_built {whole : Whole} (built : kind.Built whole) (mutation : Mutation) :
    kind.Built (kind.mutate whole mutation).2 := by
  rcases kind.mutate_cases whole mutation with ⟨_, _, same⟩ | ⟨_, same, builds⟩ <;> rw [same]
  · exact built
  · exact builds built

end Mutable

/-- A field that is checked can be sent. -/
theorem checkHeader_ok {name value : Str} {field : Str × Str}
    (checked : checkHeader name value = .ok field) : sendable field := by
  unfold checkHeader at checked
  -- The name is checked first, and then the value.
  split at checked
  · cases checked
  rename_i named
  split at checked
  · cases checked
  rename_i valued
  cases checked
  exact ⟨by simpa using named, by simpa using valued⟩

/-- Adding a field keeps all fields sendable. -/
theorem addField_sendable {headers next : Headers} {name value : Str}
    (sendables : ∀ field ∈ headers, sendable field)
    (added : addField headers name value = .ok next) : ∀ field ∈ next, sendable field := by
  obtain ⟨field, checked, rfl⟩ := Checked.map_ok.mp added
  intro other inside
  rcases List.mem_append.mp inside with before | last
  · exact sendables other before
  · rw [List.mem_singleton.mp last]
    exact checkHeader_ok checked

/-- Replacing fields keeps all fields sendable. -/
theorem setField_sendable {headers next : Headers} {name value : Str}
    (sendables : ∀ field ∈ headers, sendable field)
    (set : setField headers name value = .ok next) : ∀ field ∈ next, sendable field := by
  obtain ⟨field, checked, rfl⟩ := Checked.map_ok.mp set
  intro other inside
  rcases List.mem_append.mp inside with before | last
  · exact sendables other (List.mem_of_mem_filter before)
  · rw [List.mem_singleton.mp last]
    exact checkHeader_ok checked

/-- The line of a field is the encoding of its text. -/
theorem encode_fieldText (field : Str × Str) : Utf8.encode (fieldText field) = fieldLine field := by
  simp [fieldText, fieldLine]

/-- The field that an encoder adds has the line that it writes. -/
theorem fieldLine_lengthField (length : Nat) :
    fieldLine (lengthField length) = lengthLine length := by
  have label : Utf8.encode "Content-Length: ".toList =
      Utf8.encode "Content-Length".toList ++ Utf8.encode ": ".toList := by decide +kernel
  rw [fieldLine, lengthLine, label]
  rfl

/-- Fields are written line by line. -/
theorem encodeFields_lines (headers : Headers) :
    encodeFields headers = (headers.map fieldLine).flatMap (· ++ crlf) := by
  induction headers with
  | nil => rfl
  | cons field headers ih =>
    rw [encodeFields_cons, ih, encode_fieldText, List.map_cons, List.flatMap_cons]

/-- The encoding of a text without line ends is a line. -/
theorem encode_line {text : Str} (present : text ≠ []) (plain : '\r' ∉ text) :
    Utf8.encode text ≠ [] ∧ 13 ∉ Utf8.encode text := by
  refine ⟨fun empty => present ?_, fun inside => plain ?_⟩
  · -- A character is encoded as at least one byte, and a line end only as itself.
    cases text with
    | nil => rfl
    | cons char text =>
      rw [Utf8.encode_cons, List.append_eq_nil_iff] at empty
      exact absurd empty.1 (Utf8.encodeChar_ne_nil char)
  · exact (Utf8.mem_encode_ascii (by decide)).mp inside

/-- Lines that hold something and no line end are read back as they were written. -/
theorem headLines_lines {lines : List Bytes} (present : lines ≠ [])
    (plain : ∀ line ∈ lines, line ≠ [] ∧ 13 ∉ line) (rest : Bytes) :
    headLines (lines.flatMap (· ++ crlf) ++ (crlf ++ rest)) = some (lines, rest) := by
  -- The first empty line is the one behind all these lines.
  have first : Splitting.splitFirst (crlf ++ crlf) (lines.flatMap (· ++ crlf) ++ (crlf ++ rest)) =
      some (crlf.intercalate lines, rest) :=
    Splitting.splitFirst_lines (by decide) present plain rest
  have every : Splitting.splitEvery crlf (crlf.intercalate lines) = lines :=
    Splitting.splitEvery_intercalate present fun line inside => (plain line inside).2
  rw [headLines, first, Option.map_some]
  exact congrArg (fun lines => some (lines, rest)) every

/-- The head of a message with plain lines is read back line by line. -/
theorem headLines_written {startText : Str} {headers : Headers} (present : startText ≠ [])
    (plain : '\r' ∉ startText) (sendables : ∀ field ∈ headers, sendable field)
    (added : Option Nat) (body : Bytes) :
    headLines (Utf8.encode startText ++ crlf ++
        (encodeFields (writtenHeaders headers added) ++ (crlf ++ body))) =
      some (Utf8.encode startText :: (headers.map fieldLine ++ (added.map lengthLine).toList),
        body) := by
  have lines : ∀ line ∈ Utf8.encode startText :: (writtenHeaders headers added).map fieldLine,
      line ≠ [] ∧ 13 ∉ line := by
    refine List.forall_mem_cons.mpr ⟨encode_line present plain, fun line inside => ?_⟩
    obtain ⟨field, own, rfl⟩ := List.mem_map.mp inside
    -- A field that can be sent has neither an empty line nor a line end in it.
    obtain ⟨filled, noReturn, _⟩ :=
      fieldText_plain (writtenHeaders_sendable sendables added field own)
    rw [← encode_fieldText]
    exact encode_line filled noReturn
  have written : (writtenHeaders headers added).map fieldLine =
      headers.map fieldLine ++ (added.map lengthLine).toList := by
    rw [writtenHeaders, List.map_append]
    cases added with
    | none => rfl
    | some length => simp [fieldLine_lengthField]
  have read := headLines_lines (by simp) lines body
  rw [List.flatMap_cons, ← encodeFields_lines, written] at read
  simpa only [List.append_assoc] using read

namespace Request

/-- A new request has a method and a target that a sender may use. -/
theorem checkTarget_ok {method uri : Str} (checked : checkTarget method uri = .ok ()) :
    isValidMethod method = true ∧ isValidRequestTarget uri = true ∧
      ∀ byte ∈ Utf8.encode uri, byte ≤ 0x7E := by
  unfold checkTarget at checked
  -- The three checks come in the order of the source.
  split at checked
  · cases checked
  rename_i token
  split at checked
  · cases checked
  rename_i valid
  split at checked
  · cases checked
  rename_i narrow
  rw [Bool.not_eq_true', Bool.not_eq_false] at token valid
  exact ⟨token, valid, (isValidRequestTarget_text valid (by simpa using narrow)).2.ascii⟩

/-- Every request that a program can build has checked parts. -/
theorem Built.checked {request : Request} (built : Built request) : request.Checked := by
  induction built with
  -- A new request has checked words and no fields.
  | new made =>
    simp only [Request.new, Checked.bind_ok] at made
    obtain ⟨_, target, same⟩ := made
    cases same
    obtain ⟨token, valid, narrow⟩ := checkTarget_ok target
    exact ⟨token, valid, narrow, by simp⟩
  | withVersion made =>
    simp only [Request.withVersion, Checked.bind_ok] at made
    obtain ⟨_, target, _, _, same⟩ := made
    cases same
    obtain ⟨token, valid, narrow⟩ := checkTarget_ok target
    exact ⟨token, valid, narrow, by simp⟩
  -- A field is checked when it is added or set, and the other parts stay.
  | addHeader _ added ih =>
    obtain ⟨headers, fields, rfl⟩ := Checked.map_ok.mp added
    exact ⟨ih.method, ih.target, ih.ascii, addField_sendable ih.headers fields⟩
  | setHeader _ set ih =>
    obtain ⟨headers, fields, rfl⟩ := Checked.map_ok.mp set
    exact ⟨ih.method, ih.target, ih.ascii, setField_sendable ih.headers fields⟩
  | setBody _ _ ih => exact ⟨ih.method, ih.target, ih.ascii, ih.headers⟩
  | clearBody _ ih => exact ⟨ih.method, ih.target, ih.ascii, ih.headers⟩

/-- Any body or none can be built into a request. -/
theorem Built.withBody {request : Request} (body : Option Bytes) (built : Built request) :
    Built { request with body } := by
  cases body with
  | none => exact built.clearBody
  | some content => exact built.setBody content

/-- How requests are changed in place. -/
def mutable : Mutable Request where
  mutate := mutate
  headers := headers
  body := body
  put := fun request (headers, body) => { request with headers, body }
  Built := Built
  put_same := fun _ => rfl
  adds := fun _ _ _ => rfl
  sets := fun _ _ _ => rfl
  gives := fun _ _ => rfl
  clears := fun _ => rfl
  built_adds := fun built added => built.addHeader (by rw [Request.addHeader, added]; rfl)
  built_sets := fun built set => built.setHeader (by rw [Request.setHeader, set]; rfl)
  built_bodies := Built.withBody

/-- Whatever a program calls, it comes to a request that it could have built. -/
theorem Reachable.built {request : Request} (reachable : Reachable request) : Built request := by
  induction reachable with
  | new made => exact .new made
  | withVersion made => exact .withVersion made
  -- Adding a field in the builder is the change of that name, whose error is passed on.
  | @header request next name value _ added ih =>
    have built := mutable.mutate_built ih (.addHeader name value)
    unfold Request.header at added
    split at added
    · rename_i same
      cases added
      change Built (request.mutate (.addHeader name value)).2 at built
      rwa [same] at built
    · cases added
  | body body _ ih => exact ih.setBody body
  | withoutBody _ ih => exact ih.clearBody
  | mutate mutation _ ih => exact mutable.mutate_built ih mutation

/-- What a program has built is encoded line by line. -/
theorem Reachable.lines {request : Request} (reachable : Reachable request) {wire : Bytes}
    (encoded : encodeRequest request = .ok wire) :
    headLines wire = some (Utf8.encode request.startText ::
      (request.headers.map fieldLine ++ (request.addedLength.map lengthLine).toList),
        request.body.getD []) := by
  have built := reachable.built
  have checked := built.checked
  obtain ⟨plain, _⟩ := startText_plain checked built.version
  rw [encodeRequest_wire encoded]
  exact headLines_written (by simp [startText]) plain checked.headers _ _

end Request

namespace Response

/-- A registered status passes every check, so that a response with it is always there. -/
theorem withStatus_ok (status : StatusCode) : ∃ response, withStatus status = .ok response := by
  have each : ∀ entry ∈ registeredStatuses,
      checkStatus entry.1 entry.2.toList = .ok () := by decide +kernel
  have checked := each _ status.registered
  have versioned : isValidProtocolVersion http11 = true := by decide +kernel
  exact ⟨_, by rw [withStatus, withVersion, versioned, checked]; rfl⟩

/-- A status that was checked is well formed. -/
theorem checkStatus_ok {statusCode : Nat} {reasonPhrase : Str}
    (checked : checkStatus statusCode reasonPhrase = .ok ()) :
    isValidStatusCode statusCode = true ∧ isValidReasonPhrase reasonPhrase = true := by
  unfold checkStatus at checked
  -- The status is checked first, and then the reason.
  split at checked
  · cases checked
  rename_i status
  split at checked
  · cases checked
  rename_i reason
  exact ⟨by simpa using status, by simpa using reason⟩

/-- Every response that a program can build has checked parts. -/
theorem Built.checked {response : Response} (built : Built response) : response.Checked := by
  induction built with
  -- A new response has a checked status and no fields.
  | new made =>
    simp only [Response.new, Checked.bind_ok] at made
    obtain ⟨_, checked, same⟩ := made
    cases same
    obtain ⟨status, reason⟩ := checkStatus_ok checked
    exact ⟨status, .inr reason, by simp⟩
  | withVersion made =>
    simp only [Response.withVersion, Checked.bind_ok] at made
    obtain ⟨_, _, _, checked, same⟩ := made
    cases same
    obtain ⟨status, reason⟩ := checkStatus_ok checked
    exact ⟨status, .inr reason, by simp⟩
  -- A field is checked when it is added or set, and the other parts stay.
  | addHeader _ added ih =>
    obtain ⟨headers, fields, rfl⟩ := Checked.map_ok.mp added
    exact ⟨ih.status, ih.reason, addField_sendable ih.headers fields⟩
  | setHeader _ set ih =>
    obtain ⟨headers, fields, rfl⟩ := Checked.map_ok.mp set
    exact ⟨ih.status, ih.reason, setField_sendable ih.headers fields⟩
  | setBody _ _ ih => exact ⟨ih.status, ih.reason, ih.headers⟩
  | clearBody _ ih => exact ⟨ih.status, ih.reason, ih.headers⟩
  | setOmitBody _ _ ih => exact ⟨ih.status, ih.reason, ih.headers⟩

/-- Any body or none can be built into a response. -/
theorem Built.withBody {response : Response} (body : Option Bytes) (built : Built response) :
    Built { response with body } := by
  cases body with
  | none => exact built.clearBody
  | some content => exact built.setBody content

/-- How responses are changed in place. -/
def mutable : Mutable Response where
  mutate := mutate
  headers := headers
  body := body
  put := fun response (headers, body) => { response with headers, body }
  Built := Built
  put_same := fun _ => rfl
  adds := fun _ _ _ => rfl
  sets := fun _ _ _ => rfl
  gives := fun _ _ => rfl
  clears := fun _ => rfl
  built_adds := fun built added => built.addHeader (by rw [Response.addHeader, added]; rfl)
  built_sets := fun built set => built.setHeader (by rw [Response.setHeader, set]; rfl)
  built_bodies := Built.withBody

/-- Whatever a program calls, it comes to a response that it could have built. -/
theorem Reachable.built {response : Response} (reachable : Reachable response) : Built response := by
  induction reachable with
  | new made => exact .new made
  | withStatus made => exact .withVersion made
  | withVersion made => exact .withVersion made
  -- Adding a field in the builder is the change of that name, whose error is passed on.
  | @header response next name value _ added ih =>
    have built := mutable.mutate_built ih (.addHeader name value)
    unfold Response.header at added
    split at added
    · rename_i same
      cases added
      change Built (response.mutate (.addHeader name value)).2 at built
      rwa [same] at built
    · cases added
  | body body _ ih => exact ih.setBody body
  | withoutBody _ ih => exact ih.clearBody
  | omitBody omit_ _ ih => exact ih.setOmitBody omit_
  | mutate mutation _ ih => exact mutable.mutate_built ih mutation

/-- What a program has built is encoded line by line. -/
theorem Reachable.lines {response : Response} (reachable : Reachable response) {wire : Bytes}
    (encoded : encodeResponse response = .ok wire) :
    headLines wire = some (Utf8.encode response.startText ::
      (response.headers.map fieldLine ++ (response.addedLength.map lengthLine).toList),
        response.sentBody) := by
  have built := reachable.built
  have checked := built.checked
  obtain ⟨plain, _⟩ := startText_plain checked built.version
  rw [encodeResponse_wire encoded]
  exact headLines_written (by simp [startText]) plain checked.headers _ _

end Response

/--
A change in place succeeds exactly with a field that can be sent, if it has one.

It then leaves all fields as they were but for those it replaces, with its own at the end.
-/
theorem mutated (mutation : Mutation) :
    (∀ request next : Request, request.mutate mutation = (.ok (), next) ↔ mutation.IsSendable ∧
      next = { request with
        headers := (mutation.effect request.headers request.body).1
        body := (mutation.effect request.headers request.body).2 }) ∧
    (∀ response next : Response, response.mutate mutation = (.ok (), next) ↔ mutation.IsSendable ∧
      next = { response with
        headers := (mutation.effect response.headers response.body).1
        body := (mutation.effect response.headers response.body).2 }) :=
  ⟨fun _ _ => Request.mutable.mutate_ok, fun _ _ => Response.mutable.mutate_ok⟩

/--
Whatever a program builds, a change that fails changes nothing, and what is encoded has the lines
of its start line and of its fields in their order, and of one length at most.
-/
theorem uninjected :
    (∀ request, Request.Reachable request →
      (∀ mutation error next, request.mutate mutation = (.error error, next) → next = request) ∧
      ∀ wire, encodeRequest request = .ok wire →
        headLines wire = some (Utf8.encode request.startText ::
          (request.headers.map fieldLine ++ (request.addedLength.map lengthLine).toList),
            request.body.getD [])) ∧
    (∀ response, Response.Reachable response →
      (∀ mutation error next, response.mutate mutation = (.error error, next) →
        next = response) ∧
      ∀ wire, encodeResponse response = .ok wire →
        headLines wire = some (Utf8.encode response.startText ::
          (response.headers.map fieldLine ++ (response.addedLength.map lengthLine).toList),
            response.sentBody)) := by
  -- A failed change leaves the message, and what is encoded is split in its own lines.
  constructor
  · intro request reachable
    exact ⟨fun _ _ _ failed => Request.mutable.mutate_failed failed,
      fun _ encoded => reachable.lines encoded⟩
  · intro response reachable
    exact ⟨fun _ _ _ failed => Response.mutable.mutate_failed failed,
      fun _ encoded => reachable.lines encoded⟩

/-- A field with a line end is refused, and a body with an empty line stays behind the head. -/
theorem uninjected_refused :
    let hosted : Request := ⟨"PUT".toList, "/".toList, http11, [("Host".toList, [])], none⟩
    let injection : Mutation := .setHeader "Host".toList "a\r\nX: b".toList
    (hosted.mutate injection).2 = hosted ∧
      headLines (Utf8.encode "PUT / HTTP/1.1\r\nHost: \r\n\r\n".toList) =
        some ([Utf8.encode "PUT / HTTP/1.1".toList, Utf8.encode "Host: ".toList], []) ∧
      headLines (Utf8.encode
          "HTTP/1.1 404 Not Found\r\nX: é\r\nContent-Length: 4\r\n\r\n".toList) =
        some ([Utf8.encode "HTTP/1.1 404 Not Found".toList, Utf8.encode "X: é".toList,
          Utf8.encode "Content-Length: 4".toList], []) := by
  intro hosted injection
  have fresh : Request.Reachable ⟨"PUT".toList, "/".toList, http11, [], none⟩ :=
    .new (by decide +kernel : Request.new "PUT".toList "/".toList = .ok _)
  have reached : Request.Reachable hosted :=
    .header fresh (by decide +kernel : Request.header _ "Host".toList [] = .ok hosted)
  have missing : Response.Reachable ⟨http11, 404, "Not Found".toList, [], none, false⟩ :=
    .withStatus (by decide +kernel : Response.withStatus .notFound = .ok _)
  have fielded : Response.Reachable
      ⟨http11, 404, "Not Found".toList, [("X".toList, "é".toList)], none, false⟩ :=
    .header missing (by decide +kernel : Response.header _ "X".toList "é".toList = .ok _)
  have answered : Response.Reachable ⟨http11, 404, "Not Found".toList, [("X".toList, "é".toList)],
      some [13, 10, 13, 10], true⟩ := .omitBody true (.body [13, 10, 13, 10] fielded)
  obtain ⟨unchanged, lines⟩ := uninjected.1 hosted reached
  refine ⟨?_, (lines _ (by decide +kernel)).trans (by decide +kernel),
    ((uninjected.2 _ answered).2 _ (by decide +kernel)).trans (by decide +kernel)⟩
  have failed : (hosted.mutate injection).1 =
      .error (.invalidHeaderValue "Host".toList "a\r\nX: b".toList) := by decide +kernel
  exact unchanged injection _ _ (Prod.ext failed rfl)

end Http11

import Http11.Decoder.Request
import Http11.Proofs.Decoder.Framing
import Http11.Proofs.Encoder.Lines

/-! Fields that pass the checks of an encoder pass those of a decoder, with the same meaning. -/

namespace Http11

/-- Trimming values leaves the names of fields, so the same ones are found. -/
theorem getHeaders_received (headers : Headers) (name : Str) :
    getHeaders (receivedHeaders headers) name = (getHeaders headers name).map trimOws := by
  simp [getHeaders, receivedHeaders, List.filter_map, Function.comp_def, receivedField]

/-- Fields of one list come before those of the other. -/
theorem getHeaders_append (front back : Headers) (name : Str) :
    getHeaders (front ++ back) name = getHeaders front name ++ getHeaders back name := by
  simp [getHeaders]

/-- A field of the name in front comes first. -/
theorem getHeaders_cons_same {field : Str × Str} {name : Str}
    (named : eqIgnoreAsciiCase field.1 name = true) (headers : Headers) :
    getHeaders (field :: headers) name = field.2 :: getHeaders headers name := by
  simp only [getHeaders, List.filter_cons, if_pos named, List.map_cons]

/-- A field of another name in front makes no difference. -/
theorem getHeaders_cons_other {field : Str × Str} {name : Str}
    (named : eqIgnoreAsciiCase field.1 name = false) (headers : Headers) :
    getHeaders (field :: headers) name = getHeaders headers name := by
  simp only [getHeaders, List.filter_cons, named, Bool.false_eq_true, if_false]

/-- A field is there when there is a value of it. -/
theorem hasHeader_eq (headers : Headers) (name : Str) :
    hasHeader headers name = !(getHeaders headers name).isEmpty := by
  -- Both go through the fields, and the first one of the name decides.
  induction headers with
  | nil => rfl
  | cons field headers ih =>
    by_cases same : eqIgnoreAsciiCase field.1 name = true
    · simp [hasHeader, getHeaders, same]
    · simp only [hasHeader, getHeaders] at ih
      simp [hasHeader, getHeaders, same, ih]

/-- Without a transfer encoding a request has no chunks. -/
theorem parseTransferEncodingForRequest_none {headers : Headers}
    (uncoded : getHeaders headers "Transfer-Encoding".toList = []) :
    parseTransferEncodingForRequest headers = .ok false := by
  rw [parseTransferEncodingForRequest, fieldElements, uncoded]
  rfl

/-- With the chunked coding alone a request has chunks. -/
theorem parseTransferEncodingForRequest_chunked {headers : Headers}
    (coded : getHeaders headers "Transfer-Encoding".toList = ["chunked".toList]) :
    parseTransferEncodingForRequest headers = .ok true := by
  rw [parseTransferEncodingForRequest, fieldElements, coded]
  decide

/-- Without a transfer encoding a response is framed by other fields. -/
theorem parseTransferEncodingForResponse_none {headers : Headers}
    (uncoded : getHeaders headers "Transfer-Encoding".toList = []) :
    parseTransferEncodingForResponse headers = .ok .none := by
  rw [parseTransferEncodingForResponse, fieldElements, uncoded]
  rfl

/-- With the chunked coding alone a response has chunks. -/
theorem parseTransferEncodingForResponse_chunked {headers : Headers}
    (coded : getHeaders headers "Transfer-Encoding".toList = ["chunked".toList]) :
    parseTransferEncodingForResponse headers = .ok .chunked := by
  rw [parseTransferEncodingForResponse, fieldElements, coded]
  decide

/-- Digits are one element of a list. -/
theorem listElements_digits {text : Str} (present : text ≠ [])
    (digits : (Utf8.encode text).all isAsciiDigit = true) : listElements text = [text] := by
  have plain := digits_plain digits
  have commaless : ',' ∉ text := not_mem_of_plain _ (by decide) plain
  simp [listElements, List.splitOn_eq_singleton commaless, trimOws_plain plain, present]

/-- A length is the only one of its list. -/
theorem parseContentLengthValue_digits {text : Str} {length : Nat} (present : text ≠ [])
    (digits : (Utf8.encode text).all isAsciiDigit = true) (parsed : parseU64 text = some length) :
    parseContentLengthValue text = .ok length := by
  simp [parseContentLengthValue, listElements_digits present digits, checkContentLength,
    (all_isDigit text).symm.trans digits, parsed, Bind.bind, Except.bind, pure, Except.pure]

/-- What one field value adds to the length the fields before it agree on. -/
def addContentLength (value : Option Nat) (raw : Str) : Except Error (Option Nat) := do
  let parsed ← parseContentLengthValue raw
  match value with
  | some prev =>
    if prev ≠ parsed then .error (.invalidData "invalid Content-Length: mismatched values")
    else pure (some prev)
  | none => pure (some parsed)

/-- The length of a message is added up over its fields. -/
theorem parseContentLength_eq (headers : Headers) : parseContentLength headers =
    (getHeaders headers "Content-Length".toList).foldlM addContentLength none := rfl

/-- A length that an encoder accepts is read alike once it is trimmed. -/
theorem addContentLength_trimOws {state next : Option Nat} {value : Str}
    (checked : checkLengthField state value = .ok next) :
    addContentLength state (trimOws value) = .ok next := by
  simp only [checkLengthField] at checked
  split at checked
  · cases checked
  rename_i wellFormed
  simp only [Bool.or_eq_true, List.isEmpty_iff, Bool.not_eq_true', not_or,
    Bool.not_eq_false] at wellFormed
  obtain ⟨present, digits⟩ := wellFormed
  cases parsed : parseU64 (trimOws value) with
  | none => simp [parsed] at checked
  | some length =>
    have read := parseContentLengthValue_digits present digits parsed
    simp only [parsed] at checked
    -- Both agree with the length before, or both take this one.
    cases state with
    | none =>
      cases checked
      simp [addContentLength, read, Bind.bind, Except.bind, pure, Except.pure]
    | some prev =>
      dsimp only at checked
      split at checked
      · cases checked
      · rename_i agreed
        cases checked
        simp only [ne_eq, not_not] at agreed
        simp [addContentLength, read, agreed, Bind.bind, Except.bind, pure, Except.pure]

/-- The length an encoder reads from its fields is the one a decoder reads. -/
theorem parseContentLength_received {headers : Headers} {length : Option Nat}
    (checked : validateContentLengthHeaders headers = .ok length) :
    parseContentLength (receivedHeaders headers) = .ok length := by
  rw [parseContentLength_eq, getHeaders_received]
  unfold validateContentLengthHeaders at checked
  -- The fields are folded in the same order, each with the same effect.
  generalize getHeaders headers "Content-Length".toList = values at checked
  generalize (none : Option Nat) = state at checked ⊢
  induction values generalizing state with
  | nil =>
    cases checked
    rfl
  | cons value values ih =>
    rw [List.foldlM_cons, Checked.bind_ok] at checked
    obtain ⟨next, first, rest⟩ := checked
    rw [List.map_cons, List.foldlM_cons, Checked.bind_ok]
    exact ⟨next, addContentLength_trimOws first, ih next rest⟩

/-- A length is agreed on exactly when it is declared. -/
theorem validateContentLengthHeaders_isSome {headers : Headers} {length : Option Nat}
    (checked : validateContentLengthHeaders headers = .ok length) :
    hasHeader headers "Content-Length".toList = length.isSome := by
  rw [hasHeader_eq]
  unfold validateContentLengthHeaders at checked
  have step : ∀ state next value, checkLengthField state value = .ok next →
      next.isSome = true := by
    intro state next value stepped
    simp only [checkLengthField] at stepped
    split at stepped
    · cases stepped
    split at stepped
    · cases stepped
    split at stepped
    · cases stepped
      rfl
    · split at stepped <;> cases stepped
      rfl
  by_cases present : getHeaders headers "Content-Length".toList = []
  · rw [present] at checked ⊢
    cases checked
    rfl
  · -- The first field sets a length, and the others keep one.
    have declared : length.isSome = true :=
      Checked.foldlM_establishes (motive := fun state => Option.isSome state = true) present
        (fun next value => step none next value) (fun state next value _ => step state next value)
        checked
    rw [declared, List.isEmpty_eq_false_iff.mpr present]
    rfl

/-- The length that an encoder adds. -/
def lengthField (length : Nat) : Str × Str := ("Content-Length".toList, Numerals.write 10 length)

/-- The field an encoder adds is a length. -/
theorem lengthField_name (length : Nat) :
    eqIgnoreAsciiCase (lengthField length).1 "Content-Length".toList = true := by
  change eqIgnoreAsciiCase "Content-Length".toList "Content-Length".toList = true
  decide

/-- The digits of a length are digits. -/
theorem write_digits (length : Nat) :
    (Utf8.encode (Numerals.write 10 length)).all isAsciiDigit = true := by
  refine List.all_eq_true.mpr fun byte inside => ?_
  obtain ⟨char, member, inChar⟩ := Utf8.mem_encode.mp inside
  obtain ⟨value, small, rfl⟩ := Numerals.forall_mem_write
    (motive := fun char => ∃ value < 10, char = Numerals.digitChar value) (by omega)
    (fun value small => ⟨value, small, rfl⟩) length char member
  rw [Utf8.encodeChar_ascii (Numerals.digitChar_plain (by omega)).2, List.mem_singleton] at inChar
  subst inChar
  clear member inside
  -- The ten digits are checked one by one.
  revert value
  decide

/-- The field that an encoder adds can be sent, and is kept as it is. -/
theorem lengthField_sendable (length : Nat) :
    sendable (lengthField length) ∧ receivedField (lengthField length) = lengthField length := by
  have digits := write_digits length
  refine ⟨⟨?_, ?_⟩, ?_⟩
  · change isValidHeaderName "Content-Length".toList = true
    decide
  · -- Digits are allowed in any value.
    refine List.all_eq_true.mpr fun byte inside => ?_
    have digit := List.all_eq_true.mp digits byte inside
    revert digit
    exact forall_byte (motive := fun byte => isAsciiDigit byte = true →
      isValidFieldVchar byte = true) (by decide +kernel) byte
  · exact Prod.ext rfl (trimOws_plain (digits_plain digits))

/-- The line of a length that an encoder adds is that of its field. -/
theorem contentLengthLine_eq (length : Nat) :
    contentLengthLine length = encodeFields [lengthField length] := by
  have label : Utf8.encode "Content-Length: ".toList =
      Utf8.encode "Content-Length".toList ++ Utf8.encode ": ".toList := by decide
  rw [contentLengthLine, label, encodeFields, List.flatMap_singleton]
  rfl

/-- The field that an encoder adds is no other one. -/
theorem getHeaders_lengthField (length : Nat) {name : Str}
    (other : eqIgnoreAsciiCase "Content-Length".toList name = false) :
    getHeaders [lengthField length] name = [] := by
  have different : eqIgnoreAsciiCase (lengthField length).1 name = false := other
  simp [getHeaders, different]

/-- The field that an encoder adds is read as the length it was made of. -/
theorem parseContentLength_added {headers : Headers} {length : Nat}
    (undeclared : getHeaders headers "Content-Length".toList = []) (fits : length ≤ u64Max) :
    parseContentLength (headers ++ [lengthField length]) = .ok (some length) := by
  have own : getHeaders [lengthField length] "Content-Length".toList =
      [Numerals.write 10 length] := by
    simp only [getHeaders, List.filter_cons, lengthField_name, if_true, List.filter_nil,
      List.map_cons, List.map_nil]
    rfl
  have read : parseU64 (Numerals.write 10 length) = some length :=
    Numerals.read_write (by omega) (by omega) fits
  -- No other length is declared, so the added one is the only field of it.
  rw [parseContentLength_eq, getHeaders_append, undeclared, own, List.nil_append,
    List.foldlM_cons, addContentLength, parseContentLengthValue_digits
      (Numerals.write_ne_nil (by omega) length) (write_digits length) read]
  rfl

/-- The fields that are written, with a length the encoder adds at the end. -/
def writtenHeaders (headers : Headers) (added : Option Nat) : Headers :=
  headers ++ (added.map lengthField).toList

/-- The fields as a receiver keeps them: trimmed, with the length the encoder adds at the end. -/
def keptHeaders (headers : Headers) (added : Option Nat) : Headers :=
  receivedHeaders headers ++ (added.map lengthField).toList

/-- The written fields are kept trimmed. -/
theorem received_writtenHeaders (headers : Headers) (added : Option Nat) :
    receivedHeaders (writtenHeaders headers added) = keptHeaders headers added := by
  unfold writtenHeaders keptHeaders
  rw [receivedHeaders, List.map_append]
  -- The added length has no spaces to trim.
  cases added with
  | none => rfl
  | some length =>
    rw [Option.map_some, Option.toList_some, List.map_cons, List.map_nil,
      (lengthField_sendable _).2]
    rfl

/-- The field that is added is looked for under its own name only. -/
theorem getHeaders_writtenHeaders (headers : Headers) (added : Option Nat) {name : Str}
    (other : eqIgnoreAsciiCase "Content-Length".toList name = false) :
    getHeaders (writtenHeaders headers added) name = getHeaders headers name := by
  unfold writtenHeaders
  rw [getHeaders_append]
  cases added with
  | none => exact List.append_nil _
  | some length =>
    rw [Option.map_some, Option.toList_some, getHeaders_lengthField _ other, List.append_nil]

/-- Other fields are kept trimmed, and none is added. -/
theorem getHeaders_keptHeaders (headers : Headers) (added : Option Nat) {name : Str}
    (other : eqIgnoreAsciiCase "Content-Length".toList name = false) :
    getHeaders (keptHeaders headers added) name = (getHeaders headers name).map trimOws := by
  rw [← received_writtenHeaders, getHeaders_received, getHeaders_writtenHeaders _ _ other]

/-- The written fields can be sent. -/
theorem writtenHeaders_sendable {headers : Headers}
    (sendables : ∀ field ∈ headers, sendable field) (added : Option Nat) :
    ∀ field ∈ writtenHeaders headers added, sendable field := by
  intro field inside
  unfold writtenHeaders at inside
  -- The own fields can be sent, and so can a length that is added.
  rcases List.mem_append.mp inside with own | further
  · exact sendables field own
  · cases added with
    | none => cases further
    | some length =>
      rw [Option.map_some, Option.toList_some, List.mem_singleton] at further
      rw [further]
      exact (lengthField_sendable _).1

/-- The line of a length that the encoder adds follows the lines of the fields. -/
theorem encodeFields_writtenHeaders (headers : Headers) (added : Option Nat) :
    encodeFields (writtenHeaders headers added) =
      encodeFields headers ++ (added.map contentLengthLine).getD [] := by
  unfold writtenHeaders
  -- Without an added length nothing follows the fields.
  cases added with
  | none => simp [encodeFields]
  | some length =>
    rw [Option.map_some, Option.toList_some, Option.map_some, Option.getD_some,
      contentLengthLine_eq]
    simp [encodeFields]

/-- The length of a message is the one its fields declare, or the one that was added. -/
theorem parseContentLength_keptHeaders {headers : Headers} {declared added : Option Nat}
    (validated : validateContentLengthHeaders headers = .ok declared)
    (single : added = none ∨ declared = none) (fits : ∀ length ∈ added, length ≤ u64Max) :
    parseContentLength (keptHeaders headers added) = .ok (declared.or added) := by
  unfold keptHeaders
  cases added with
  | none => simp [parseContentLength_received validated]
  | some length =>
    -- A length is only added where none was declared.
    have none : declared = none := single.resolve_left (by simp)
    subst none
    have present := validateContentLengthHeaders_isSome validated
    have undeclared : getHeaders (receivedHeaders headers) "Content-Length".toList = [] := by
      rw [getHeaders_received, hasHeader_eq_false.mp present]
      rfl
    simpa using parseContentLength_added undeclared (fits length rfl)

/-- A host that an encoder accepts is accepted once it is trimmed. -/
theorem checkHost_received {headers : Headers} {host : Str}
    (single : getHeaders headers "Host".toList = [host])
    (valid : host.isEmpty = true ∨ (Host.parse host).isOk = true) :
    RequestDecoder.checkHost (receivedHeaders headers) = .ok () := by
  have trimmed : Host.parse (trimOws host) = Host.parse host := by
    simp only [Host.parse, trimOws_trimOws]
  rw [RequestDecoder.checkHost, getHeaders_received, single]
  rcases valid with empty | parsed
  · -- An empty host stays empty.
    cases List.isEmpty_iff.mp empty
    rfl
  · simp [trimmed, parsed]

/-- No field is longer than all of them together, and there are no more fields than bytes. -/
theorem encodeFields_length (headers : Headers) :
    headers.length ≤ (encodeFields headers).length ∧
      ∀ field ∈ headers,
        (Utf8.encode (fieldText field)).length ≤ (encodeFields headers).length := by
  -- Each line is longer than nothing, and the lines follow one another.
  induction headers with
  | nil => simp
  | cons field headers ih =>
    rw [encodeFields_cons]
    simp only [List.length_cons, List.length_append, crlf]
    refine ⟨by omega, fun other inside => ?_⟩
    rcases List.mem_cons.mp inside with rfl | later
    · omega
    · have bounded := ih.2 other later
      omega

end Http11

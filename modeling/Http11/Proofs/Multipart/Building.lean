import Http11.FormBuilder
import Http11.Lib.Lines
import Http11.Proofs.ContentType
import Http11.Proofs.DispositionDisplay
import Http11.Proofs.Multipart.Grammar

/-! Forms that are built are read as their parts, however the bytes arrive. -/

namespace Http11

/-- A line end, as characters. -/
def lineBreak : Str := ['\r', '\n']

/-- The bytes of a line end. -/
theorem encode_lineBreak : Utf8.encode lineBreak = crlf := by decide

/-- A text without a line end in it. -/
def IsUnbroken (text : Str) : Prop := ¬ lineBreak <:+: text

/-- A line feed is no carriage return. -/
theorem crlf_single : (13 : UInt8) ∉ ([10] : Bytes) := by decide

/-- A text without a line end has none in its bytes. -/
theorem IsUnbroken.encoded {text : Str} (line : IsUnbroken text) : ¬ crlf <:+: Utf8.encode text := by
  rw [← encode_lineBreak, Utf8.encode_infix_iff (by decide)]
  exact line

/-- The bytes of lines that are joined. -/
theorem encode_intercalate (separator : Str) (lines : List Str) :
    Utf8.encode (separator.intercalate lines) =
      (Utf8.encode separator).intercalate (lines.map Utf8.encode) := by
  induction lines with
  | nil => rfl
  | cons line lines ih =>
    -- Only between two lines there is a separator.
    cases lines with
    | nil => simp only [List.intercalate_singleton, List.map_cons, List.map_nil]
    | cons next lines =>
      rw [List.map_cons, List.map_cons, List.intercalate_cons_cons, List.intercalate_cons_cons,
        Utf8.encode_append, Utf8.encode_append, ih, List.map_cons]

namespace Part

variable {part : Part}

/-- The header line of a content disposition. -/
def dispositionLine (disposition : ContentDisposition) : Str :=
  "Content-Disposition".toList ++ ": ".toList ++ disposition.display

/-- The header line of a content type. -/
def typeLine (type : ContentType) : Str :=
  "Content-Type".toList ++ ": ".toList ++ type.display

/-- The line of another header field. -/
def fieldLine (field : Str × Str) : Str := field.1 ++ ": ".toList ++ field.2

/-- The header lines of a part. -/
def lines (part : Part) : List Str :=
  part.contentDisposition.toList.map dispositionLine ++
    (part.contentType.toList.map typeLine ++ part.headers.map fieldLine)

/-- A header field that is kept as it is. -/
structure IsKept (field : Str × Str) : Prop where
  /-- The name ends at the colon. -/
  named : ':' ∉ field.1
  /-- The name has no white space around it. -/
  nameTrimmed : Trimming.IsTrimmed isWhitespace field.1
  /-- The value has no white space around it. -/
  valueTrimmed : Trimming.IsTrimmed isWhitespace field.2
  /-- The field is no content disposition. -/
  noDisposition : eqIgnoreAsciiCase field.1 "Content-Disposition".toList = false
  /-- The field is no content type. -/
  noType : eqIgnoreAsciiCase field.1 "Content-Type".toList = false

/-- A part that is read again from its header lines. -/
structure IsWritable (part : Part) : Prop where
  /-- It has the disposition of a part of a form, with a name, that is parsed again. -/
  disposition : ∃ disposition, part.contentDisposition = some disposition ∧
    disposition.dispositionType = .formData ∧ disposition.name.isSome = true ∧
    ContentDisposition.parse disposition.display = .ok disposition
  /-- Its content type is parsed again. -/
  type : ∀ type, part.contentType = some type → ContentType.parse type.display = .ok type
  /-- Its other header fields are kept. -/
  fields : ∀ field ∈ part.headers, IsKept field
  /-- No line end stands in a header line. -/
  plain : ∀ line ∈ part.lines, IsUnbroken line

/-- A header line with a colon in it is not empty. -/
theorem lines_filled : ∀ line ∈ part.lines, line ≠ [] := by
  intro line inside
  -- Every kind of line has its name or its colon in it.
  rcases List.mem_append.mp inside with disposition | inside
  · obtain ⟨_, _, rfl⟩ := List.mem_map.mp disposition
    exact List.cons_ne_nil _ _
  rcases List.mem_append.mp inside with type | field
  · obtain ⟨_, _, rfl⟩ := List.mem_map.mp type
    exact List.cons_ne_nil _ _
  · obtain ⟨_, _, rfl⟩ := List.mem_map.mp field
    exact List.append_ne_nil_of_left_ne_nil (List.append_ne_nil_of_right_ne_nil _ (by decide)) _

/-- A line with a colon says its name and what stands behind the colon. -/
theorem readLine_named {name : Str} (plain : ':' ∉ name)
    (trimmed : Trimming.IsTrimmed isWhitespace name) (value : Str) (read : PartHeaders) :
    read.readLine (name ++ ": ".toList ++ value) =
      if eqIgnoreAsciiCase name "Content-Disposition".toList then
        { read with contentDisposition := (ContentDisposition.parse (trim (' ' :: value))).toOption }
      else if eqIgnoreAsciiCase name "Content-Type".toList then
        { read with contentType := (ContentType.parse (trim (' ' :: value))).toOption }
      else { read with headers := read.headers ++ [(name, trim (' ' :: value))] } := by
  have line : name ++ ": ".toList ++ value = name ++ ':' :: (' ' :: value) := by simp
  have filled : (name ++ ':' :: (' ' :: value)).isEmpty = false := by
    rw [List.isEmpty_eq_false_iff]
    exact List.append_ne_nil_of_right_ne_nil _ (List.cons_ne_nil _ _)
  have same : trim name = name := trimmed.trim_eq
  -- The line is split at its first colon, and the name has nothing to trim.
  rw [line, PartHeaders.readLine, filled, if_neg Bool.false_ne_true, splitOnce_append plain]
  dsimp only
  rw [same]

/-- Trimming twice is trimming once, also behind a space. -/
theorem trim_again (text : Str) : trim (trim (' ' :: text)) = trim text := by
  have once : trim (' ' :: text) = trim text := by
    simp [trim, isWhitespace]
  obtain ⟨_, _, _, _, trimmed, _⟩ := Trimming.trim_spec isWhitespace text
  have twice : trim (trim text) = trim text := trimmed.trim_eq
  rw [once, twice]

/-- What a content disposition is parsed as does not depend on a space in front. -/
theorem parse_disposition_trim (text : Str) :
    ContentDisposition.parse (trim (' ' :: text)) = ContentDisposition.parse text := by
  rw [ContentDisposition.parse, ContentDisposition.parse, trim_again]

/-- What a content type is parsed as does not depend on a space in front. -/
theorem parse_type_trim (text : Str) :
    ContentType.parse (trim (' ' :: text)) = ContentType.parse text := by
  rw [ContentType.parse, ContentType.parse, trim_again]

/-- Fields that are kept are read one behind the other. -/
theorem readLines_fields {fields : List (Str × Str)} (kept : ∀ field ∈ fields, IsKept field)
    (read : PartHeaders) : (fields.map fieldLine).foldl PartHeaders.readLine read =
      { read with headers := read.headers ++ fields } := by
  induction fields generalizing read with
  | nil => rw [List.map_nil, List.foldl_nil, List.append_nil]
  | cons field fields ih =>
    obtain ⟨here, later⟩ := List.forall_mem_cons.mp kept
    rw [List.map_cons, List.foldl_cons, fieldLine, readLine_named here.named here.nameTrimmed,
      -- The name is neither of the two that are read apart.
      here.noDisposition, here.noType, if_neg Bool.false_ne_true, if_neg Bool.false_ne_true,
      (trimmed_space here.valueTrimmed).2, ih later]
    simp

/-- The names of the two fields that are read apart. -/
theorem names_plain : (':' ∉ "Content-Disposition".toList ∧ ':' ∉ "Content-Type".toList) ∧
    Trimming.IsTrimmed isWhitespace "Content-Disposition".toList ∧
      Trimming.IsTrimmed isWhitespace "Content-Type".toList := by
  refine ⟨by decide, ?_, ?_⟩
  · exact (isToken_trimmed (by decide)).2
  · exact (isToken_trimmed (by decide)).2

/-- The line of a content disposition says which one the part has. -/
theorem readLine_disposition {disposition : ContentDisposition}
    (parsed : ContentDisposition.parse disposition.display = .ok disposition)
    (read : PartHeaders) : read.readLine (dispositionLine disposition) =
      { read with contentDisposition := some disposition } := by
  have same : eqIgnoreAsciiCase "Content-Disposition".toList "Content-Disposition".toList =
      true := by decide
  have line := readLine_named names_plain.1.1 names_plain.2.1 disposition.display read
  rw [if_pos same, parse_disposition_trim, parsed] at line
  exact line

/-- The line of a content type says which one the part has. -/
theorem readLine_type {type : ContentType} (parsed : ContentType.parse type.display = .ok type)
    (read : PartHeaders) : read.readLine (typeLine type) =
      { read with contentType := some type } := by
  have other : eqIgnoreAsciiCase "Content-Type".toList "Content-Disposition".toList = false := by
    decide
  have same : eqIgnoreAsciiCase "Content-Type".toList "Content-Type".toList = true := by decide
  have line := readLine_named names_plain.1.2 names_plain.2.2 type.display read
  rw [other, if_neg Bool.false_ne_true, if_pos same, parse_type_trim, parsed] at line
  exact line

/-- The header lines of a part say what the part has. -/
theorem readLines (writable : part.IsWritable) :
    part.lines.foldl PartHeaders.readLine ⟨none, none, []⟩ =
      ⟨part.contentDisposition, part.contentType, part.headers⟩ := by
  obtain ⟨disposition, given, _, _, parsed⟩ := writable.disposition
  have typed := writable.type
  -- The disposition comes first, then the type if there is one, and the other fields behind them.
  rw [lines, given, List.foldl_append, List.foldl_append, Option.toList_some, List.map_singleton,
    List.foldl_cons, List.foldl_nil, readLine_disposition parsed]
  cases given : part.contentType with
  | none =>
    rw [Option.toList_none, List.map_nil, List.foldl_nil, readLines_fields writable.fields,
      List.nil_append]
  | some type =>
    rw [Option.toList_some, List.map_singleton, List.foldl_cons, List.foldl_nil,
      readLine_type (typed type given), readLines_fields writable.fields, List.nil_append]

/-- The bytes of the header lines are read as the part, with any content. -/
theorem parsePartHeaders_lines (writable : part.IsWritable) :
    parsePartHeaders (crlf.intercalate (part.lines.map Utf8.encode)) =
      .ok fun body => { part with body := body } := by
  obtain ⟨disposition, given, form, named, _⟩ := writable.disposition
  have filled : part.lines ≠ [] := by
    rw [lines, given]
    exact List.cons_ne_nil _ _
  have text : PartHeaders.ofText (lineBreak.intercalate part.lines) =
      ⟨some disposition, part.contentType, part.headers⟩ := by
    rw [PartHeaders.ofText]
    -- The lines are split where they were joined, and each of them says what it was written for.
    change (Splitting.splitEvery ('\r' :: ['\n']) (('\r' :: ['\n']).intercalate part.lines)).foldl
      PartHeaders.readLine _ = _
    rw [Searching.splitEvery_lines (by decide) filled writable.plain, readLines writable, given]
  -- A part of a form has a name.
  have nameless : ¬ disposition.name.isNone = true := by
    rw [Option.isNone_iff_eq_none]
    intro none
    rw [none] at named
    cases named
  rw [← encode_lineBreak, ← encode_intercalate, parsePartHeaders, Utf8.decode_encode]
  dsimp only
  rw [text]
  dsimp only
  rw [if_neg (not_not.mpr form), if_neg nameless, given]

/-- The header lines, an empty line and the content of a part. -/
def text (part : Part) : Bytes :=
  (part.lines.map Utf8.encode).flatMap (· ++ crlf) ++ (crlf ++ part.body)

/-- A written part is the part, up to the first delimiter behind it. -/
theorem isPart_text {boundary : Str} (writable : part.IsWritable)
    (clear : Searching.Clear (delimiter boundary) part.body) (behind : Bytes) :
    IsPart boundary (part.text ++ (delimiter boundary ++ behind)) part behind := by
  obtain ⟨disposition, given, _⟩ := writable.disposition
  have filled : part.lines.map Utf8.encode ≠ [] := by
    rw [lines, given]
    exact List.cons_ne_nil _ _
  have plain : ∀ line ∈ part.lines.map Utf8.encode, line ≠ [] ∧ ¬ crlf <:+: line := by
    intro line inside
    obtain ⟨text, listed, rfl⟩ := List.mem_map.mp inside
    exact ⟨fun none => lines_filled text listed (Utf8.encode_eq_nil.mp none),
      (writable.plain text listed).encoded⟩
  -- The header lines end at the first empty line.
  have split := Searching.splitFirst_blank crlf_single filled plain
    (part.body ++ (delimiter boundary ++ behind))
  obtain ⟨first, whole⟩ := (Searching.splitFirst_iff_clear FormReader.headerEnd_present).mp split
  refine ⟨_, _, part.body, first, parsePartHeaders_lines writable, rfl, clear, ?_⟩
  rw [text, List.append_assoc, List.append_assoc]
  exact whole

end Part

namespace MultipartBuilder

/-- What stands behind the first boundary of a form that is built. -/
def behind (boundary : Str) : List Part → Bytes
  | [] => hyphens ++ crlf
  | part :: parts => crlf ++ (part.text ++ (delimiter boundary ++ behind boundary parts))

/-- A part is written as a delimiter, its header lines and its content. -/
theorem buildPart_eq (boundary : Str) (part : Part) :
    buildPart boundary part = dashBoundary boundary ++ (crlf ++ (part.text ++ crlf)) := by
  have disposition : Utf8.encode "Content-Disposition: ".toList =
      Utf8.encode "Content-Disposition".toList ++ Utf8.encode ": ".toList := by decide
  have type : Utf8.encode "Content-Type: ".toList =
      Utf8.encode "Content-Type".toList ++ Utf8.encode ": ".toList := by decide
  unfold buildPart Part.text Part.lines dashBoundary Part.dispositionLine Part.typeLine Part.fieldLine
  rw [disposition, type]
  -- The names are as good as any other ones.
  generalize "Content-Disposition".toList = dispositionName
  generalize "Content-Type".toList = typeName
  generalize ": ".toList = colon
  have fields : ∀ line : Str × Str → Bytes,
      (∀ field, line field =
        Utf8.encode field.1 ++ Utf8.encode colon ++ Utf8.encode field.2 ++ crlf) →
      part.headers.flatMap line =
        ((part.headers.map fun field => field.1 ++ colon ++ field.2).map Utf8.encode).flatMap
          (· ++ crlf) := by
    intro line written
    rw [List.map_map, List.flatMap_map]
    exact List.flatMap_congr fun field _ => by simp [written field]
  rw [fields _ fun field => rfl]
  cases part.contentDisposition <;> cases part.contentType <;> simp

/-- A form is written as its first boundary and what stands behind it. -/
theorem build_eq (builder : MultipartBuilder) :
    builder.build = dashBoundary builder.boundary ++ behind builder.boundary builder.parts := by
  obtain ⟨boundary, parts⟩ := builder
  rw [build]
  dsimp only
  induction parts with
  | nil =>
    rw [List.flatMap_nil, List.nil_append, behind, dashBoundary, List.append_assoc]
  | cons part parts ih =>
    -- The line end behind a part belongs to the delimiter.
    rw [List.flatMap_cons, List.append_assoc, ih, buildPart_eq, behind, delimiter, dashBoundary]
    simp only [List.append_assoc]

/-- What stands behind the first boundary are the parts, if no content has a delimiter in it. -/
theorem isFormRest_behind {boundary : Str} {parts : List Part}
    (writable : ∀ part ∈ parts, part.IsWritable)
    (clear : ∀ part ∈ parts, Searching.Clear (delimiter boundary) part.body) :
    IsFormRest boundary (behind boundary parts) parts := by
  have none : IsTransportPadding [] := List.forall_mem_nil _
  induction parts with
  | nil => exact .last none
  | cons part parts ih =>
    obtain ⟨here, later⟩ := List.forall_mem_cons.mp writable
    obtain ⟨hereClear, laterClear⟩ := List.forall_mem_cons.mp clear
    exact .part none (Part.isPart_text here hereClear _) (ih later laterClear)

end MultipartBuilder

/-- A part has the content that it is made of. -/
theorem Part.body_made {header body : Bytes} {make : Bytes → Part}
    (read : parsePartHeaders header = .ok make) : (make body).body = body := by
  unfold parsePartHeaders at read
  split at read
  · cases read
  dsimp only at read
  split at read
  · cases read
  split at read
  · cases read
  split at read
  · cases read
  cases read
  rfl

/-- The parts of a form have no delimiter in their contents. -/
theorem IsFormRest.clear {boundary : Str} {text : Bytes} {parts : List Part}
    (rest : IsFormRest boundary text parts) :
    ∀ part ∈ parts, Searching.Clear (delimiter boundary) part.body := by
  induction rest with
  | last => exact List.forall_mem_nil _
  | part padded content rest ih =>
    refine List.forall_mem_cons.mpr ⟨?_, ih⟩
    obtain ⟨header, make, body, _, read, rfl, clear, _⟩ := content.found
    rw [Part.body_made read]
    exact clear

namespace MultipartBuilder

/--
A form that is built is read as its parts, however the bytes arrive, exactly when no content has
a delimiter in it.
-/
theorem build_reads (builder : MultipartBuilder) (maxBufferSize : Nat) (fragments : List Bytes)
    (writable : ∀ part ∈ builder.parts, part.IsWritable)
    (whole : fragments.flatten = builder.build)
    (accepted : (FormRun.across builder.boundary maxBufferSize fragments).overflowed = false) :
    (FormRun.across builder.boundary maxBufferSize fragments).answer = .ok none ∧
        (FormRun.across builder.boundary maxBufferSize fragments).parts = builder.parts ↔
      ∀ part ∈ builder.parts, Searching.Clear (delimiter builder.boundary) part.body := by
  rw [FormRun.across_isForm builder.boundary maxBufferSize fragments builder.parts accepted, whole,
    build_eq]
  constructor
  · rintro ⟨_, _, _, _, rest⟩
    exact rest.clear
  · intro clear
    exact ⟨[], _, fun _ low => absurd low (Nat.not_lt_zero _), rfl,
      isFormRest_behind writable clear⟩

end MultipartBuilder

end Http11

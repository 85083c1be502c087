import Http11.Proofs.Multipart.Rebuilding

/-! Forms that are built reach their receiver: their type, their boundary and all their parts. -/

namespace Http11

namespace MultipartParser

variable {parser : MultipartParser}

/-- A parser that holds no more input than another one, with the same limit. -/
def Holds (parser next : MultipartParser) : Prop :=
  next.unread ≤ parser.unread ∧ next.maxBufferSize = parser.maxBufferSize

/-- A parser holds as much as it holds. -/
theorem Holds.refl (parser : MultipartParser) : parser.Holds parser := ⟨Nat.le_refl _, rfl⟩

/-- Compaction leaves what is held and the limit. -/
theorem holds_compact {next : MultipartParser} (holds : parser.Holds next) :
    parser.Holds next.compact := by
  have limit : next.compact.maxBufferSize = next.maxBufferSize := by
    unfold compact
    split <;> rfl
  exact ⟨(compact_unread next).symm ▸ holds.1, limit.trans holds.2⟩

/-- A parser further on in its input holds less of it. -/
theorem holds_forward {next : MultipartParser} (buffer : next.buffer = parser.buffer)
    (limit : next.maxBufferSize = parser.maxBufferSize) (forward : parser.pos ≤ next.pos) :
    parser.Holds next := by
  refine ⟨?_, limit⟩
  rw [unread, unread, buffer]
  omega

/-- Reading a part holds no more input than before. -/
theorem passInPart_holds : parser.Holds parser.passInPart.2 := by
  unfold passInPart
  cases ended : findBytesFrom parser.buffer parser.pos (crlf ++ crlf) with
  | none => exact .refl _
  | some headerEnd =>
    have header := le_of_findBytesFrom ended
    dsimp only
    cases parsePartHeaders ((parser.buffer.drop parser.pos).take (headerEnd - parser.pos)) with
    | error error => exact .refl _
    | ok part =>
      dsimp only
      cases found : findBytesFrom parser.buffer (max (headerEnd + 4) parser.boundaryScanOffset)
          parser.innerDelimiter with
      | none => exact holds_forward rfl rfl (Nat.le_refl _)
      | some bodyEnd =>
        have body := le_of_findBytesFrom found
        dsimp only
        rw [leavePart_eq]
        -- Wherever the parser goes on, that is behind where it was.
        cases line : ending parser.buffer (bodyEnd + parser.innerDelimiter.length) with
        | waiting =>
          have forward : bodyEnd + parser.innerDelimiter.length ≤ skipWhile isTransportPadding
              parser.buffer (bodyEnd + parser.innerDelimiter.length) := Nat.le_add_right _ _
          exact holds_compact (holds_forward rfl rfl (by dsimp only; omega))
        | line start =>
          have forward := (ending_line line).1
          exact holds_compact (holds_forward rfl rfl (by dsimp only; omega))
        | last => exact holds_compact (holds_forward rfl rfl (Nat.le_refl _))
        | wrong => exact .refl _

/-- A part that is entered leaves no more input than there was. -/
theorem enter_holds {position start : Nat} (behind : parser.pos ≤ position)
    (line : ending parser.buffer position = .line start) :
    parser.Holds (parser.enter start).passInPart.2 := by
  have forward := (ending_line line).1
  have entered : parser.Holds (parser.enter start) := by
    -- The part starts behind the delimiter, so what is unread gets shorter.
    refine holds_forward rfl rfl ?_
    change parser.pos ≤ start
    omega
  have inPart := (parser.enter start).passInPart_holds
  exact ⟨Nat.le_trans inPart.1 entered.1, inPart.2.trans entered.2⟩

/-- A call holds no more input than before. -/
theorem nextPart_holds : parser.Holds parser.nextPart.2 := by
  rw [nextPart_eq]
  split
  · exact .refl _
  unfold pass
  -- In each state the position moves forward or stays, and nothing is added.
  cases waits : parser.state with
  | initial =>
    dsimp only
    rw [passInitial_eq]
    cases found : findBytesFrom parser.buffer (max parser.pos parser.boundaryScanOffset)
        parser.firstDelimiter with
    | none => exact holds_forward rfl rfl (Nat.le_refl _)
    | some place =>
      have forward := le_of_findBytesFrom found
      dsimp only
      -- Waiting and the end leave the position, or move it past the delimiter.
      cases line : ending parser.buffer (place + parser.firstDelimiter.length) with
      | waiting => exact holds_forward rfl rfl (Nat.le_refl _)
      | line start => exact enter_holds (by omega) line
      | last => exact holds_forward rfl rfl (Nat.le_refl _)
      | wrong => exact .refl _
  | inPart => exact passInPart_holds
  | afterInnerDelimiter =>
    dsimp only
    rw [passAfterInnerDelimiter_eq]
    cases line : ending parser.buffer parser.pos with
    | waiting => exact holds_forward rfl rfl (Nat.le_add_right _ _)
    | line start => exact enter_holds (Nat.le_refl _) line
    | last => exact holds_forward rfl rfl (Nat.le_refl _)
    | wrong => exact .refl _
  | finished => exact .refl _

end MultipartParser

namespace FormRun

/-- What a run holds after so much input: no more than that, unless something was refused. -/
def Bounded (run : FormRun) (size maxBufferSize : Nat) : Prop :=
  run.parser.unread ≤ size ∧ run.parser.maxBufferSize = maxBufferSize ∧ run.overflowed = false

/-- Taking parts holds no more. -/
theorem Bounded.drain {run : FormRun} {size maxBufferSize : Nat}
    (bounded : run.Bounded size maxBufferSize) : run.drain.Bounded size maxBufferSize := by
  have called : ∀ {run : FormRun} {answer : Except MultipartError (Option Part)}
      {next : MultipartParser}, run.Bounded size maxBufferSize →
        run.parser.nextPart = (answer, next) →
          next.unread ≤ size ∧ next.maxBufferSize = maxBufferSize := by
    intro run answer next bounded found
    have holds := run.parser.nextPart_holds
    rw [found] at holds
    exact ⟨Nat.le_trans holds.1 bounded.1, holds.2.trans bounded.2.1⟩
  -- The run rule takes one call of the parser to the whole loop.
  refine drainLoop.run_rule (motive := fun run result => run.Bounded size maxBufferSize →
    result.Bounded size maxBufferSize) ?_ ?_ run bounded
  · intro run result taken bounded
    change run.take = .inr result at taken
    unfold take at taken
    split at taken
    · cases taken
    · rename_i answer next _ found
      cases taken
      obtain ⟨held, limit⟩ := called bounded found
      exact ⟨held, limit, bounded.2.2⟩
  · intro run next result taken ih bounded
    change run.take = .inl next at taken
    unfold take at taken
    split at taken
    · rename_i part parser found
      cases taken
      obtain ⟨held, limit⟩ := called bounded found
      exact ih ⟨held, limit, bounded.2.2⟩
    · cases taken

/-- A form no longer than the limit is not refused. -/
theorem across_accepts (boundary : Str) {maxBufferSize : Nat} {fragments : List Bytes}
    (short : fragments.flatten.length ≤ maxBufferSize) :
    (across boundary maxBufferSize fragments).overflowed = false := by
  -- After each fragment no more is held than has arrived.
  have held : ∀ (fragments : List Bytes) (run : FormRun) (size : Nat),
      run.Bounded size maxBufferSize → size + fragments.flatten.length ≤ maxBufferSize →
        ((fragments.foldl (fun run data => drain (give run data)) run)).overflowed = false := by
    intro fragments
    induction fragments with
    | nil => exact fun run size bounded _ => bounded.2.2
    | cons data fragments ih =>
      intro run size bounded room
      rw [List.flatten_cons, List.length_append] at room
      refine ih _ (size + data.length) (Bounded.drain ?_) (by omega)
      obtain ⟨held, limit, unbroken⟩ := bounded
      unfold give MultipartParser.feed
      rw [MultipartParser.unread] at held
      dsimp only
      rw [if_neg (by omega)]
      refine ⟨?_, limit, unbroken⟩
      change (run.parser.buffer ++ data).length - run.parser.pos ≤ size + data.length
      rw [List.length_append]
      omega
  exact held fragments (fresh boundary maxBufferSize) 0 ⟨Nat.le_refl _, rfl, rfl⟩ (by omega)

end FormRun

namespace ContentDisposition

/-- A disposition with spaces in place of the control characters of its names. -/
def spaced (disposition : ContentDisposition) : ContentDisposition :=
  { disposition with
    name := disposition.name.map spaceControls
    filename := disposition.filename.map spaceControls }

/-- A disposition is written alike with spaces in place of control characters. -/
theorem display_spaced (disposition : ContentDisposition) :
    disposition.spaced.display = disposition.display := by
  obtain ⟨type, filename, filenameExt, name, parameters⟩ := disposition
  unfold spaced display
  cases name <;> cases filename <;> simp [displayParam, escapeQuotes_spaced]

end ContentDisposition

namespace Part

/-- A part with spaces in place of the control characters of its names. -/
def spaced (part : Part) : Part :=
  { part with contentDisposition := part.contentDisposition.map ContentDisposition.spaced }

/-- Parts built of any names, with content types that were parsed or were built of tokens. -/
inductive IsBuilt : Part → Prop where
  /-- One with a name. -/
  | new (name : Str) : IsBuilt (new name)
  /-- One of a file. -/
  | file (name filename contentType : Str) : IsBuilt (file name filename contentType)
  /-- One with a content. -/
  | withBody {part : Part} (built : IsBuilt part) (body : Bytes) : IsBuilt (part.withBody body)
  /-- One with a content type that was parsed or was built of tokens. -/
  | withContentType {part : Part} (built : IsBuilt part) {type : ContentType}
    (origin : (∃ input, ContentType.parse input = .ok type) ∨ type.IsBuilt) :
    IsBuilt (part.withContentType type)

/-- A part that is built has a name, maybe a file name, and maybe a content type. -/
theorem IsBuilt.shape {part : Part} (built : part.IsBuilt) :
    (∃ name filename, part.contentDisposition = some ⟨.formData, filename, none, some name, []⟩) ∧
      (∀ type, part.contentType = some type → type.IsStored) ∧ part.headers = [] := by
  induction built with
  | new name => exact ⟨⟨name, none, rfl⟩, fun _ none => (by cases none), rfl⟩
  -- The type comes from the given text, which is parsed.
  | file name filename contentType =>
    refine ⟨⟨name, some filename, rfl⟩, fun type same => ?_, rfl⟩
    change (ContentType.parse contentType).toOption = some type at same
    cases parsed : ContentType.parse contentType with
    | error error =>
      rw [parsed] at same
      cases same
    | ok found =>
      rw [parsed] at same
      cases same
      exact ContentType.parse_stored parsed
  | withBody built body ih => exact ih
  | withContentType built origin ih =>
    refine ⟨ih.1, fun type same => ?_, ih.2.2⟩
    cases same
    -- A type that is set was parsed or built, and both are stored.
    rcases origin with ⟨input, parsed⟩ | built
    · exact ContentType.parse_stored parsed
    · exact built.stored

/-- With spaces in place of control characters, a part that is built may be written. -/
theorem IsBuilt.writable {part : Part} (built : part.IsBuilt) : part.spaced.IsWritable := by
  obtain ⟨⟨name, filename, given⟩, types, fields⟩ := built.shape
  have disposition : part.spaced.contentDisposition =
      some (ContentDisposition.spaced ⟨.formData, filename, none, some name, []⟩) := by
    rw [spaced, given]
    rfl
  -- The names may stand between quotes now.
  have stored : (ContentDisposition.spaced ⟨.formData, filename, none, some name, []⟩).IsStored := by
    refine ContentDisposition.isStored_fields DispositionType.isStored_formData rfl ?_ ?_
    · intro value same
      cases same
      exact isQuotable_spaced name
    · intro value same
      obtain ⟨before, _, rfl⟩ := Option.map_eq_some_iff.mp same
      exact isQuotable_spaced before
  refine isWritable_of_stored disposition rfl rfl ⟨?_, types, ?_⟩
  · intro other same
    rw [disposition] at same
    cases same
    exact ⟨stored, ContentDisposition.isUnbroken_display stored (List.forall_mem_nil _)⟩
  · change ∀ field ∈ part.headers, _
    rw [fields]
    exact List.forall_mem_nil _

/-- A part is written alike with spaces in place of control characters. -/
theorem buildPart_spaced (boundary : Str) (part : Part) :
    MultipartBuilder.buildPart boundary part.spaced = MultipartBuilder.buildPart boundary part := by
  obtain ⟨disposition, type, headers, body⟩ := part
  unfold MultipartBuilder.buildPart spaced
  -- Only the disposition has texts whose control characters matter.
  cases disposition with
  | none => rfl
  | some disposition =>
    dsimp only [Option.map_some]
    rw [ContentDisposition.display_spaced]

end Part

namespace MultipartBuilder

/--
A form of parts with any names at all, of which no fragment is refused, is read as these parts, with
spaces in place of the control characters of the names, exactly when no content has a delimiter in
it.
-/
theorem built_reads (builder : MultipartBuilder) (maxBufferSize : Nat) (fragments : List Bytes)
    (built : ∀ part ∈ builder.parts, part.IsBuilt) (whole : fragments.flatten = builder.build)
    (accepted : (FormRun.across builder.boundary maxBufferSize fragments).overflowed = false) :
    (FormRun.across builder.boundary maxBufferSize fragments).answer = .ok none ∧
        (FormRun.across builder.boundary maxBufferSize fragments).parts =
          builder.parts.map Part.spaced ↔
      ∀ part ∈ builder.parts, Searching.Clear (delimiter builder.boundary) part.body := by
  -- Written with spaces, the parts are the same bytes.
  have same : build ⟨builder.boundary, builder.parts.map Part.spaced⟩ = builder.build := by
    unfold build
    rw [List.flatMap_map]
    exact congrArg (· ++ _) (List.flatMap_congr fun part _ => Part.buildPart_spaced _ part)
  have read := build_reads ⟨builder.boundary, builder.parts.map Part.spaced⟩ maxBufferSize fragments
    (List.forall_mem_map.mpr fun part inside => (built part inside).writable)
    (whole.trans same.symm) accepted
  rw [List.forall_mem_map] at read
  exact read

/-- A name with a line end in it is read with spaces in its place. -/
theorem built_reads_spaced :
    let builder := ((withBoundary ['b']).textField ['a', '\r', '\n', '"'] ['x']).fileField ['c']
      ['f'] "text/plain".toList [13, 10]
    let fragments := [builder.build.take 20, builder.build.drop 20]
    (FormRun.across ['b'] 300 fragments).answer = .ok none ∧
        (FormRun.across ['b'] 300 fragments).parts = builder.parts.map Part.spaced ↔
      ∀ part ∈ builder.parts, Searching.Clear (delimiter ['b']) part.body := by
  intro builder fragments
  have built : ∀ part ∈ builder.parts, part.IsBuilt := List.forall_mem_cons.mpr
    ⟨.withBody (.new _) _, List.forall_mem_singleton.mpr (.withBody (.file _ _ _) _)⟩
  exact built_reads builder 300 fragments built (by decide +kernel) (by decide +kernel)

example : isValidBoundary ['a', ' ', 'b'] = true ∧ isValidBoundary ['a', ' '] = false := by
  decide +kernel

/-- The characters of a boundary that can be used stand for themselves between quotes. -/
theorem boundary_plain {boundary : Str} (usable : isValidBoundary boundary = true) :
    boundary ≠ [] ∧ ∀ char ∈ boundary,
      isQuotedPairChar char = true ∧ (char == '"' || char == '\\') = false := by
  unfold isValidBoundary at usable
  dsimp only at usable
  simp only [Bool.and_eq_true, Bool.not_eq_true', List.isEmpty_eq_false_iff, List.all_eq_true] at usable
  obtain ⟨⟨⟨filled, _⟩, valid⟩, _⟩ := usable
  refine ⟨fun none => filled (by rw [none]; rfl), fun char inside => ?_⟩
  have bytes : ∀ byte ∈ String.utf8EncodeChar char, isValidBoundaryChar byte = true :=
    fun byte member => valid byte (Utf8.mem_encode.mpr ⟨char, inside, member⟩)
  by_cases ascii : char.toNat < 0x80
  · rw [Utf8.encodeChar_ascii ascii, List.forall_mem_singleton] at bytes
    revert bytes
    exact forall_ascii (motive := fun char => isValidBoundaryChar (UInt8.ofNat char.toNat) = true →
      isQuotedPairChar char = true ∧ (char == '"' || char == '\\') = false) (by decide +kernel) ascii
  · -- The bytes of a wider character may not stand in a boundary.
    exfalso
    obtain ⟨byte, others, shown⟩ := List.exists_cons_of_ne_nil (Utf8.encodeChar_ne_nil char)
    have member : byte ∈ String.utf8EncodeChar char := by
      rw [shown]
      exact List.mem_cons_self
    have high := Utf8.le_of_mem_encodeChar (Nat.not_lt.mp ascii) member
    have allowed := bytes byte member
    have small : ∀ value < 256, isValidBoundaryChar (UInt8.ofNat value) = true → value < 0x80 := by
      decide +kernel
    have low := small byte.toNat byte.toNat_lt (by rw [UInt8.ofNat_toNat]; exact allowed)
    omega

/-- A text without quotes, backslashes and control characters is escaped as it is. -/
theorem escapeQuotes_kept {text : Str} (plain : ∀ char ∈ text,
    isQuotedPairChar char = true ∧ (char == '"' || char == '\\') = false) :
    escapeQuotes text = text := by
  induction text with
  | nil => rfl
  | cons char text ih =>
    obtain ⟨⟨allowed, plainChar⟩, later⟩ := List.forall_mem_cons.mp plain
    rw [escapeQuotes, allowed, plainChar, ih later]
    rfl

/-- The content type of a form with a boundary that can be used is parsed as that of the form. -/
theorem contentType_parsed {builder : MultipartBuilder}
    (usable : isValidBoundary builder.boundary = true) :
    ContentType.parse builder.contentType = .ok
      ⟨"multipart".toList, "form-data".toList, [("boundary".toList, builder.boundary)]⟩ := by
  obtain ⟨filled, plain⟩ := boundary_plain usable
  have quotable : IsQuotable builder.boundary := fun char inside => (plain char inside).1
  have stored : ContentType.IsStored
      ⟨"multipart".toList, "form-data".toList, [("boundary".toList, builder.boundary)]⟩ := by
    have names : ∀ name ∈ ["multipart".toList, "form-data".toList, "boundary".toList],
        isToken name = true ∧ toAsciiLowercase name = name := by decide +kernel
    have named := names "boundary".toList (by simp)
    exact ⟨names _ (by simp), names _ (by simp),
      List.forall_mem_singleton.mpr ⟨named.1, named.2, quotable⟩⟩
  rw [← ContentType.parse_display stored]
  congr 1
  have present : builder.boundary.isEmpty = false := List.isEmpty_eq_false_iff.mpr filled
  -- The boundary is written between quotes in either case that asks for them.
  have written : formatValue builder.boundary =
      if (Utf8.encode builder.boundary).all isTokenChar then builder.boundary
      else '"' :: (builder.boundary ++ ['"']) := by
    unfold formatValue needsQuoting
    rw [present, Bool.false_or, ← List.not_all_eq_any_not, escapeQuotes_kept plain]
    cases (Utf8.encode builder.boundary).all isTokenChar <;> rfl
  unfold contentType ContentType.display ContentType.displayParameters
  rw [List.flatMap_singleton]
  dsimp only
  rw [written]
  by_cases token : (Utf8.encode builder.boundary).all isTokenChar = true
  · rw [if_pos token, if_pos token]
    rfl
  · rw [if_neg token, if_neg token]
    simp

/--
A form that is built reaches the receiver that reads its content type: the type names the boundary,
and with it the receiver gets all parts, however the bytes arrive.
-/
theorem upload_survives (builder : MultipartBuilder) (maxBufferSize : Nat) (fragments : List Bytes)
    (usable : isValidBoundary builder.boundary = true)
    (built : ∀ part ∈ builder.parts, part.IsBuilt)
    (clear : ∀ part ∈ builder.parts, Searching.Clear (delimiter builder.boundary) part.body)
    (whole : fragments.flatten = builder.build) (short : builder.build.length ≤ maxBufferSize) :
    ∃ type boundary, ContentType.parse builder.contentType = .ok type ∧ type.isFormData = true ∧
      type.boundary = some boundary ∧
      MultipartParser.tryNew boundary = .ok (MultipartParser.new boundary) ∧
      (FormRun.across boundary maxBufferSize fragments).answer = .ok none ∧
      (FormRun.across boundary maxBufferSize fragments).parts = builder.parts.map Part.spaced := by
  refine ⟨_, builder.boundary, contentType_parsed usable, by simp [ContentType.isFormData], ?_, ?_, ?_⟩
  · unfold ContentType.boundary ContentType.parameter
    have named : toAsciiLowercase "boundary".toList = "boundary".toList := by decide
    dsimp only
    rw [named, List.find?_cons_of_pos (by simp)]
    rfl
  · rw [MultipartParser.tryNew, usable]
    rfl
  · -- The whole upload fits into the buffer, so no fragment is refused.
    have fits : fragments.flatten.length ≤ maxBufferSize := by rwa [whole]
    have accepted := FormRun.across_accepts builder.boundary fits
    exact (built_reads builder maxBufferSize fragments built whole accepted).mpr clear

/-- A form with a boundary that has to stand between quotes reaches its receiver. -/
theorem upload_survives_quoted :
    let builder := ((withBoundary ['b', ' ', 'c']).fileField ['a'] ['f'] "text/plain".toList
      [13, 10]).textField ['n'] ['v']
    ∃ type boundary, ContentType.parse builder.contentType = .ok type ∧ type.isFormData = true ∧
      type.boundary = some boundary ∧
      MultipartParser.tryNew boundary = .ok (MultipartParser.new boundary) ∧
      (FormRun.across boundary 300 [builder.build]).answer = .ok none ∧
      (FormRun.across boundary 300 [builder.build]).parts = builder.parts.map Part.spaced := by
  intro builder
  have built : ∀ part ∈ builder.parts, part.IsBuilt := List.forall_mem_cons.mpr
    ⟨.withBody (.file _ _ _) _, List.forall_mem_singleton.mpr (.withBody (.new _) _)⟩
  exact upload_survives builder 300 _ (by decide +kernel) built (by decide +kernel)
    List.flatten_singleton (by decide +kernel)

end MultipartBuilder

end Http11

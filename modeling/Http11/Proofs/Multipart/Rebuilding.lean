import Http11.Proofs.Multipart.Building

/-! Parts of forms may be written: those that were built of any names, and those that were read. -/

namespace Http11

/-- A text is without a line end if no line feed stands behind a carriage return. -/
theorem isUnbroken_iff {text : Str} : IsUnbroken text ↔
    text.IsChain fun first second => ¬ (first = '\r' ∧ second = '\n') := by
  rw [List.isChain_iff_forall_rel_of_append_cons_cons]
  constructor
  · -- A line end somewhere gives two such neighbours.
    rintro unbroken first second front back rfl ⟨rfl, rfl⟩
    exact unbroken ⟨front, back, by simp [lineBreak]⟩
  · -- Two such neighbours are a line end.
    rintro apart ⟨front, back, rfl⟩
    have whole : front ++ lineBreak ++ back = front ++ '\r' :: '\n' :: back := by
      rw [List.append_assoc]
      rfl
    exact apart whole ⟨rfl, rfl⟩

/-- A text without carriage returns has no line end. -/
theorem isUnbroken_of_plain {text : Str} (plain : '\r' ∉ text) : IsUnbroken text :=
  fun inside => plain (inside.subset List.mem_cons_self)

/-- What stands in a text without a line end has none. -/
theorem IsUnbroken.part {inner text : Str} (unbroken : IsUnbroken text) (inside : inner <:+: text) :
    IsUnbroken inner := fun broken => unbroken (broken.trans inside)

/-- Two texts with another character between them are without a line end if both are. -/
theorem IsUnbroken.join {front back : Str} {char : Char} (first : IsUnbroken front)
    (second : IsUnbroken back) (plain : char ≠ '\r' ∧ char ≠ '\n') :
    IsUnbroken (front ++ char :: back) := by
  rw [isUnbroken_iff] at first second ⊢
  rw [List.isChain_split]
  constructor
  · -- The character between is no line feed, so nothing is broken before it.
    refine first.append (List.isChain_singleton char) fun last _ next inside => ?_
    cases inside
    exact fun broken => plain.2 broken.2
  · -- It is no carriage return either, so nothing is broken behind it.
    refine List.isChain_cons.mpr ⟨fun next _ broken => plain.1 broken.1, second⟩

/-- Letters in lower case leave the line ends where they are. -/
theorem IsUnbroken.lowercase {text : Str} (unbroken : IsUnbroken text) :
    IsUnbroken (toAsciiLowercase text) := by
  rw [isUnbroken_iff] at unbroken ⊢
  rw [toAsciiLowercase, List.isChain_map]
  -- No letter becomes a carriage return or a line feed.
  refine unbroken.imp fun first second apart broken => apart ⟨?_, ?_⟩
  · exact toLower_unlettered broken.1 (by decide)
  · exact toLower_unlettered broken.2 (by decide)

/-- Texts that are joined with semicolons and spaces are without a line end if each of them is. -/
theorem isUnbroken_intercalate {texts : List Str} (unbroken : ∀ text ∈ texts, IsUnbroken text) :
    IsUnbroken ([';', ' '].intercalate texts) := by
  induction texts with
  | nil => exact isUnbroken_of_plain (List.not_mem_nil)
  -- Neither the semicolon nor the space is part of a line end.
  | cons text texts ih =>
    obtain ⟨here, later⟩ := List.forall_mem_cons.mp unbroken
    cases texts with
    | nil =>
      rw [List.intercalate_singleton]
      exact here
    | cons next texts =>
      rw [List.intercalate_cons_cons, List.append_assoc]
      have empty : IsUnbroken [] := isUnbroken_of_plain List.not_mem_nil
      exact here.join (empty.join (ih later) (by decide)) (by decide)

/-- An escaped text has no carriage returns. -/
theorem escapeQuotes_plain (text : Str) : '\r' ∉ escapeQuotes text := by
  induction text with
  | nil => exact List.not_mem_nil
  | cons char text ih =>
    rw [escapeQuotes]
    by_cases control : (!isQuotedPairChar char) = true
    · rw [if_pos control]
      simp [ih]
    · rw [if_neg control]
      -- A carriage return would have been a control character.
      have other : '\r' ≠ char := by
        rintro rfl
        exact control (by decide)
      by_cases special : (char == '"' || char == '\\') = true
      · rw [if_pos special]
        simp [other, ih]
      · rw [if_neg special]
        simp [other, ih]

/-- A text is escaped alike with spaces in place of its control characters. -/
theorem escapeQuotes_spaced (text : Str) : escapeQuotes (spaceControls text) = escapeQuotes text := by
  induction text with
  | nil => rfl
  | cons char text ih =>
    rw [spaceControls] at ih
    rw [spaceControls, List.map_cons, escapeQuotes, escapeQuotes, ih]
    -- A control character is dropped as the space is kept: both are quoted alike.
    by_cases control : isControl char = true
    · have space : (!isQuotedPairChar ' ') = false := by decide
      have quoted : (!isQuotedPairChar char) = true := by rw [isQuotedPairChar_eq, control]; rfl
      rw [if_pos control, space, if_pos quoted, if_neg Bool.false_ne_true, if_neg (by decide)]
    · rw [if_neg control]

/-- With spaces in place of its control characters a text may stand between quotes. -/
theorem isQuotable_spaced (text : Str) : IsQuotable (spaceControls text) := by
  intro char inside
  obtain ⟨other, _, rfl⟩ := List.mem_map.mp inside
  -- Only control characters may not be quoted, and none is left.
  by_cases control : isControl other = true
  · rw [if_pos control]
    decide
  · rw [if_neg control, isQuotedPairChar_eq, Bool.eq_false_iff.mpr control]
    rfl

namespace ContentDisposition

variable {disposition : ContentDisposition}

/-- The header of what is stored is one line if the names of its parameters are. -/
theorem isUnbroken_display (stored : disposition.IsStored)
    (named : ∀ param ∈ disposition.parameters, IsUnbroken param.1) :
    IsUnbroken disposition.display := by
  have quoted : ∀ {key : Str} (value : Str), IsUnbroken key →
      IsUnbroken (entryText (key, quotedText value)) := by
    intro key value unbroken
    refine unbroken.join (isUnbroken_of_plain ?_) (by decide)
    have plain := escapeQuotes_plain value
    simp [quotedText, plain]
  have key : ∀ key ∈ ["name".toList, "filename".toList, "filename*".toList], IsUnbroken key :=
    fun key inside => isUnbroken_of_plain (by revert key; decide)
  rw [display_eq]
  refine isUnbroken_intercalate (List.forall_mem_cons.mpr ⟨?_, ?_⟩)
  · exact isUnbroken_of_plain (not_mem_token stored.type.token (by decide))
  -- The fields are written one behind the other.
  rw [entries, List.map_append, fields]
  refine List.forall_mem_append.mpr ⟨?_, ?_⟩
  · rw [List.forall_mem_map]
    refine List.forall_mem_append.mpr ⟨forall_mem_field fun value _ => ?_,
      List.forall_mem_append.mpr ⟨forall_mem_field fun value _ => ?_,
        forall_mem_field fun value _ => ?_⟩⟩
    · exact quoted value (key _ (by simp))
    · exact quoted value (key _ (by simp))
    · refine (key "filename*".toList (by simp)).join (isUnbroken_of_plain fun inside => ?_) (by decide)
      have dark := (encoded_plain value '\r' inside).1
      revert dark
      decide
  · rw [List.map_map, List.forall_mem_map]
    exact fun param inside => quoted param.2 (named param inside)

/-- The parts of a header stand in it. -/
theorem splitParamsFrom_infix {parts : List Str} {current input : Str} {inQuotes escapeNext : Bool} :
    ∀ part ∈ splitParamsFrom parts current inQuotes escapeNext input,
      part ∈ parts ∨ part <:+: current ++ input := by
  induction input generalizing parts current inQuotes escapeNext with
  | nil =>
    intro part inside
    rw [splitParamsFrom] at inside
    split at inside
    · exact .inl inside
    · rcases List.mem_append.mp inside with before | last
      · exact .inl before
      · rw [List.mem_singleton.mp last, List.append_nil]
        exact .inr (List.infix_refl current)
  | cons char input ih =>
    -- A character is taken into the current part, or starts a new one.
    have taken : ∀ {inQuotes escapeNext : Bool}, ∀ part ∈ splitParamsFrom parts (current ++ [char])
        inQuotes escapeNext input, part ∈ parts ∨ part <:+: current ++ char :: input := by
      intro inQuotes escapeNext part inside
      have found := ih part inside
      rwa [List.append_assoc] at found
    intro part inside
    rw [splitParamsFrom] at inside
    split at inside
    · exact taken part inside
    split at inside
    · exact taken part inside
    split at inside
    · exact taken part inside
    split at inside
    · rcases ih part inside with before | later
      · rcases List.mem_append.mp before with before | last
        · exact .inl before
        · rw [List.mem_singleton.mp last]
          exact .inr (List.prefix_append _ _).isInfix
      · refine .inr (later.trans ?_)
        exact ⟨current ++ [char], [], by simp⟩
    · exact taken part inside

/-- The names of the parameters of a header in one line are in one line. -/
theorem parse_named {input : Str} (parsed : parse input = .ok disposition)
    (unbroken : IsUnbroken input) : ∀ param ∈ disposition.parameters, IsUnbroken param.1 := by
  have trimmed : ∀ text : Str, trim text <:+: text := fun text =>
    (List.rdropWhile_prefix _ _).isInfix.trans (List.dropWhile_suffix _).isInfix
  -- One part after the other, only its own name is added.
  have folded : ∀ (parts : List Str), (∀ part ∈ parts, IsUnbroken part) →
      ∀ (before after : ContentDisposition) (seen names : List Str),
        (∀ param ∈ before.parameters, IsUnbroken param.1) →
        parts.foldlM parsePart (before, seen) = .ok (after, names) →
          ∀ param ∈ after.parameters, IsUnbroken param.1 := by
    intro parts
    induction parts with
    | nil =>
      intro _ before after seen names named read
      cases read
      exact named
    | cons part parts ih =>
      intro lines before after seen names named read
      obtain ⟨here, later⟩ := List.forall_mem_cons.mp lines
      rw [List.foldlM_cons] at read
      cases one : parsePart (before, seen) part with
      | error error => simp [one, bind, Except.bind] at read
      | ok next =>
        obtain ⟨next, among⟩ := next
        simp only [one, bind, Except.bind] at read
        refine ih later next after among names ?_ read
        rcases parsePart_cases one with ⟨rfl, _⟩ | ⟨front, back, whole, _, _, _, set, _⟩
        · exact named
        · have key : IsUnbroken (toAsciiLowercase (trim front)) := by
            refine (here.part ((trimmed front).trans ?_)).lowercase
            refine List.IsInfix.trans ?_ (trimmed part)
            rw [whole]
            exact (List.prefix_append _ _).isInfix
          rcases setParam_cases set with ⟨_, _, _, rfl⟩ | ⟨_, _, rfl⟩ | ⟨_, _, _, rfl⟩ |
            ⟨_, value, _, rfl⟩
          · exact named
          · exact named
          · exact named
          · exact List.forall_mem_append.mpr ⟨named, List.forall_mem_singleton.mpr key⟩
  unfold parse at parsed
  dsimp only at parsed
  split at parsed
  · cases parsed
  split at parsed
  · cases parsed
  rename_i typeStr parts whole
  split at parsed
  · cases parsed
  rename_i type typed
  have lines : ∀ part ∈ splitParams (trim input), IsUnbroken part := by
    intro part inside
    rcases splitParamsFrom_infix part inside with nothing | within
    · cases nothing
    · exact unbroken.part (within.trans (trimmed input))
  rw [whole] at lines
  cases read : parts.foldlM parsePart (new type, []) with
  | error error => simp [read, Except.map] at parsed
  | ok state =>
    simp only [read, Except.map, Except.ok.injEq] at parsed
    subst parsed
    exact folded parts (List.forall_mem_cons.mp lines).2 _ _ [] state.2 (List.forall_mem_nil _) read

end ContentDisposition

/-- The header of a stored content type is one line. -/
theorem ContentType.isUnbroken_display {type : ContentType} (stored : type.IsStored) :
    IsUnbroken type.display := by
  have token : ∀ {text : Str}, isToken text = true → '\r' ∉ text :=
    fun token => not_mem_token token (by decide)
  refine isUnbroken_of_plain fun inside => ?_
  rw [ContentType.display] at inside
  rcases List.mem_append.mp inside with media | params
  · rcases List.mem_append.mp media with first | second
    · exact token stored.mediaType.1 first
    · rcases List.mem_cons.mp second with slash | subtype
      · cases slash
      · exact token stored.subtype.1 subtype
  · obtain ⟨⟨name, value⟩, member, shown⟩ := List.mem_flatMap.mp params
    have kept := stored.parameters _ member
    have named : '\r' ∉ name := token kept.token
    -- A value is a token or stands escaped between quotes.
    have valued : '\r' ∉ formatValue value := by
      have written := formatValue_written kept.quotable
      have plain := escapeQuotes_plain value
      unfold formatValue
      split
      · simp [plain]
      · intro inside
        have allowed := kept.quotable _ inside
        revert allowed
        decide
    simp [named, valued] at shown

/-- A name and a value in one line each are one line. -/
theorem isUnbroken_field {name value : Str} (first : IsUnbroken name) (second : IsUnbroken value) :
    IsUnbroken (name ++ ": ".toList ++ value) := by
  have behind : IsUnbroken ([] ++ ' ' :: value) :=
    IsUnbroken.join (isUnbroken_of_plain List.not_mem_nil) second (by decide)
  have whole : IsUnbroken (name ++ ':' :: ([] ++ ' ' :: value)) := first.join behind (by decide)
  simpa using whole

/-- What header lines in one line each have said so far may be written. -/
structure PartHeaders.IsStored (read : PartHeaders) : Prop where
  /-- The disposition may be stored, and is one line. -/
  disposition : ∀ disposition, read.contentDisposition = some disposition →
    disposition.IsStored ∧ IsUnbroken disposition.display
  /-- The content type may be stored. -/
  type : ∀ type, read.contentType = some type → type.IsStored
  /-- The other fields are kept, and are one line each. -/
  fields : ∀ field ∈ read.headers, Part.IsKept field ∧ IsUnbroken (Part.fieldLine field)

/-- One more header line may be written. -/
theorem PartHeaders.IsStored.readLine {read : PartHeaders} (stored : read.IsStored) {line : Str}
    (unbroken : IsUnbroken line) : (read.readLine line).IsStored := by
  have trimmed : ∀ text : Str, trim text <:+: text := fun text =>
    (List.rdropWhile_prefix _ _).isInfix.trans (List.dropWhile_suffix _).isInfix
  unfold PartHeaders.readLine
  split
  · exact stored
  split
  · exact stored
  rename_i front back split
  obtain ⟨whole, plain⟩ := splitOnce_some split
  have name : trim front <:+: line := by
    rw [whole]
    exact (trimmed front).trans (List.prefix_append _ _).isInfix
  have value : trim back <:+: line := by
    rw [whole]
    exact (trimmed back).trans ⟨front ++ [':'], [], by simp⟩
  dsimp only
  split
  · -- The disposition takes the place of an earlier one.
    refine ⟨fun disposition same => ?_, stored.type, stored.fields⟩
    cases parsed : ContentDisposition.parse (trim back) with
    | error error =>
      rw [parsed] at same
      cases same
    | ok found =>
      rw [parsed] at same
      cases same
      have kept := ContentDisposition.parse_stored parsed
      exact ⟨kept, ContentDisposition.isUnbroken_display kept
        (ContentDisposition.parse_named parsed (unbroken.part value))⟩
  · rename_i noDisposition
    split
    · refine ⟨stored.disposition, fun type same => ?_, stored.fields⟩
      cases parsed : ContentType.parse (trim back) with
      | error error =>
        rw [parsed] at same
        cases same
      | ok found =>
        rw [parsed] at same
        cases same
        exact ContentType.parse_stored parsed
    · rename_i noType
      refine ⟨stored.disposition, stored.type, List.forall_mem_append.mpr ⟨stored.fields,
        List.forall_mem_singleton.mpr ⟨⟨?_, ?_, ?_, ?_, ?_⟩, ?_⟩⟩⟩
      · exact fun colon => plain ((trimmed front).subset colon)
      · obtain ⟨_, _, _, _, inner, _⟩ := Trimming.trim_spec isWhitespace front
        exact inner
      · obtain ⟨_, _, _, _, inner, _⟩ := Trimming.trim_spec isWhitespace back
        exact inner
      · exact Bool.eq_false_iff.mpr noDisposition
      · exact Bool.eq_false_iff.mpr noType
      · exact isUnbroken_field (unbroken.part name) (unbroken.part value)

namespace Part

/-- A part with what may be stored is written in lines. -/
theorem isWritable_of_stored {part : Part} {disposition : ContentDisposition}
    (given : part.contentDisposition = some disposition) (form : disposition.dispositionType = .formData)
    (named : disposition.name.isSome = true)
    (stored : (⟨part.contentDisposition, part.contentType, part.headers⟩ : PartHeaders).IsStored) :
    part.IsWritable := by
  -- The three kinds of lines are unbroken for three reasons.
  obtain ⟨kept, line⟩ := stored.disposition disposition given
  refine ⟨⟨disposition, given, form, named, ContentDisposition.parse_display kept⟩,
    fun type same => ContentType.parse_display (stored.type type same),
    fun field inside => (stored.fields field inside).1, ?_⟩
  have names : IsUnbroken "Content-Disposition".toList ∧ IsUnbroken "Content-Type".toList :=
    ⟨isUnbroken_of_plain (by decide), isUnbroken_of_plain (by decide)⟩
  unfold lines
  refine List.forall_mem_append.mpr ⟨?_, List.forall_mem_append.mpr ⟨?_, ?_⟩⟩
  · -- The disposition has kept its line.
    rw [given, Option.toList_some, List.map_singleton]
    exact List.forall_mem_singleton.mpr (isUnbroken_field names.1 line)
  · -- A content type never writes a line end.
    rw [List.forall_mem_map]
    intro type inside
    exact isUnbroken_field names.2
      (ContentType.isUnbroken_display (stored.type type (Option.mem_toList.mp inside)))
  · -- Other fields were stored as values without one.
    rw [List.forall_mem_map]
    exact fun field inside => (stored.fields field inside).2

/-- A part that was read may be written. -/
theorem isWritable_of_read {header : Bytes} {make : Bytes → Part}
    (read : parsePartHeaders header = .ok make) (body : Bytes) : (make body).IsWritable := by
  unfold parsePartHeaders at read
  split at read
  · cases read
  rename_i text decoded
  dsimp only at read
  have lines : (PartHeaders.ofText text).IsStored := by
    rw [PartHeaders.ofText]
    have single : '\r' ∉ ['\n'] := by decide
    have unbroken := (Searching.splitEvery_spec single text).2.1
    generalize Splitting.splitEvery ['\r', '\n'] text = lines at unbroken
    -- One line after the other is taken up.
    have folded : ∀ (lines : List Str) (before : PartHeaders), before.IsStored →
        (∀ line ∈ lines, IsUnbroken line) → (lines.foldl PartHeaders.readLine before).IsStored := by
      intro lines
      induction lines with
      | nil => exact fun before stored _ => stored
      | cons line lines ih =>
        intro before stored unbroken
        obtain ⟨here, later⟩ := List.forall_mem_cons.mp unbroken
        exact ih _ (stored.readLine here) later
    exact folded lines _ ⟨fun _ none => (by cases none), fun _ none => (by cases none),
      List.forall_mem_nil _⟩ unbroken
  split at read
  · cases read
  rename_i disposition given
  split at read
  · cases read
  rename_i form
  split at read
  · cases read
  rename_i named
  cases read
  rw [not_not] at form
  refine isWritable_of_stored rfl form ?_ (given ▸ lines)
  rw [Option.isNone_iff_eq_none] at named
  exact Option.isSome_iff_ne_none.mpr named

end Part

namespace FormReader

/-- Every part that is read may be written again, with the same boundary. -/
theorem read_written (boundary : Str) (input : Bytes) : ∀ part ∈ (read boundary input).parts,
    part.IsWritable ∧ Searching.Clear (delimiter boundary) part.body := by
  refine (read_reached boundary input).1.preserves (motive := fun reader => ∀ part ∈ reader.parts,
    part.IsWritable ∧ Searching.Clear (delimiter boundary) part.body) ?_ (List.forall_mem_nil _)
  intro reader next written stepped
  change reader.step boundary = some next at stepped
  have line : ∀ text, reader.endLine text = some next → ∀ part ∈ next.parts,
      part.IsWritable ∧ Searching.Clear (delimiter boundary) part.body := by
    intro text ended
    unfold endLine at ended
    cases found : lineEnd text <;> rw [found] at ended <;> cases ended <;> exact written
  unfold step at stepped
  cases reads : reader.phase with
  | preamble =>
    rw [reads] at stepped
    dsimp only at stepped
    split at stepped
    · cases stepped
    · exact line _ stepped
  | part =>
    rw [reads] at stepped
    dsimp only at stepped
    unfold endPart at stepped
    split at stepped
    · cases stepped
    rename_i header text _
    split at stepped
    · cases stepped
      exact written
    rename_i make parsed
    split at stepped
    · cases stepped
    rename_i body behind found
    cases stepped
    -- Only this step hands out one more part.
    refine List.forall_mem_append.mpr ⟨written, List.forall_mem_singleton.mpr
      ⟨Part.isWritable_of_read parsed body, ?_⟩⟩
    have clear := ((Searching.splitFirst_iff_clear (delimiter_present boundary)).mp found).1
    rw [Part.body_made parsed]
    exact clear
  | behindPart =>
    rw [reads] at stepped
    exact line _ stepped
  | closed =>
    rw [reads] at stepped
    cases stepped
  | refused error =>
    rw [reads] at stepped
    cases stepped

end FormReader

namespace MultipartBuilder

/--
What was read of a form, and be it of one that broke off, is read again when it is written with
the same boundary, however the bytes arrive.
-/
theorem rebuilt_reads (boundary : Str) (maxBufferSize againSize : Nat)
    (fragments again : List Bytes)
    (accepted : (FormRun.across boundary maxBufferSize fragments).overflowed = false)
    (whole : again.flatten =
      build ⟨boundary, (FormRun.across boundary maxBufferSize fragments).parts⟩)
    (acceptedAgain : (FormRun.across boundary againSize again).overflowed = false) :
    (FormRun.across boundary againSize again).answer = .ok none ∧
      (FormRun.across boundary againSize again).parts =
        (FormRun.across boundary maxBufferSize fragments).parts := by
  have written : ∀ part ∈ (FormRun.across boundary maxBufferSize fragments).parts,
      part.IsWritable ∧ Searching.Clear (delimiter boundary) part.body := by
    have read := FormReader.read_written boundary fragments.flatten
    rcases (FormRun.across_reads boundary maxBufferSize fragments accepted).2 with same | ⟨_, same⟩
    · rw [same]
      exact read
    · -- At a delimiter gone wrong the last part may be missing.
      rw [same]
      exact fun part inside => read part (List.dropLast_subset _ inside)
  exact (build_reads ⟨boundary, _⟩ againSize again (fun part inside => (written part inside).1) whole
    acceptedAgain).mpr fun part inside => (written part inside).2

/-- A part with a field of its own, of a form that broke off behind it, is written and read again. -/
theorem rebuilt_reads_broken :
    let fragments := [Utf8.encode "--b\r\nX: y\r\nContent-Disposition: form-data; name=a\r\n".toList,
      Utf8.encode "\r\nx\r\n--b ".toList]
    let again := [build ⟨['b'], (FormRun.across ['b'] 99 fragments).parts⟩]
    (FormRun.across ['b'] 99 again).answer = .ok none ∧
      (FormRun.across ['b'] 99 again).parts = (FormRun.across ['b'] 99 fragments).parts :=
  rebuilt_reads ['b'] 99 99 _ _ (by decide +kernel) List.flatten_singleton (by decide +kernel)

end MultipartBuilder

end Http11

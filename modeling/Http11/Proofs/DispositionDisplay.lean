import Http11.Proofs.Disposition

/-! The headers of content dispositions are parsed to the same content dispositions again. -/

namespace Http11

namespace DispositionType

/-- A type that its name stands for. -/
structure IsStored (type : DispositionType) : Prop where
  /-- The name is a token. -/
  token : isToken type.display = true
  /-- The name is read as the type. -/
  read : fromStr type.display = .ok type

/-- Content to show may be stored. -/
theorem isStored_inline : inline.IsStored where
  token := by decide
  read := by decide

/-- Content to keep may be stored. -/
theorem isStored_attachment : attachment.IsStored where
  token := by decide
  read := by decide

/-- A part of a form may be stored. -/
theorem isStored_formData : formData.IsStored where
  token := by decide
  read := by decide

/-- A token with no meaning of its own may be stored in lower case. -/
theorem isStored_unknown {name : Str} (token : isToken name = true)
    (other : ¬ (toAsciiLowercase name == "inline".toList) = true ∧
      ¬ (toAsciiLowercase name == "attachment".toList) = true ∧
      ¬ (toAsciiLowercase name == "form-data".toList) = true) :
    (unknown (toAsciiLowercase name)).IsStored where
  token := isToken_lowercase token
  read := by
    have lower := isToken_lowercase token
    -- A name in lower case is none of the three as it was none before.
    have same := toAsciiLowercase_idempotent name
    generalize toAsciiLowercase name = text at other lower same
    change fromStr text = _
    rw [fromStr, same, if_neg other.1, if_neg other.2.1, if_neg other.2.2, isValidToken, if_pos lower]

/-- Every type that is read may be stored. -/
theorem fromStr_stored {name : Str} {type : DispositionType} (parsed : fromStr name = .ok type) :
    type.IsStored := by
  rw [fromStr] at parsed
  -- Three names are known, in any case of letters.
  by_cases inline : (toAsciiLowercase name == "inline".toList) = true
  · rw [if_pos inline] at parsed
    cases parsed
    exact isStored_inline
  rw [if_neg inline] at parsed
  by_cases attachment : (toAsciiLowercase name == "attachment".toList) = true
  · rw [if_pos attachment] at parsed
    cases parsed
    exact isStored_attachment
  rw [if_neg attachment] at parsed
  by_cases formData : (toAsciiLowercase name == "form-data".toList) = true
  · rw [if_pos formData] at parsed
    cases parsed
    exact isStored_formData
  rw [if_neg formData] at parsed
  -- Any other token is stored as it was read.
  by_cases token : isValidToken name = true
  · rw [if_pos token] at parsed
    cases parsed
    exact isStored_unknown token ⟨inline, attachment, formData⟩
  · rw [if_neg token] at parsed
    cases parsed

end DispositionType

namespace ContentDisposition

/-- What is stored of a header. -/
structure IsStored (disposition : ContentDisposition) : Prop where
  /-- The type is that of its name. -/
  type : disposition.dispositionType.IsStored
  /-- The fields could be read from parts. -/
  read : IsRead disposition disposition.keys
  /-- The parameters are found again where they are written as a list. -/
  parts : disposition.parameters = [] ∨
    (quoting ';').AreParts (disposition.parameters.map paramText)

/-- The names that were seen may be taken in the order of the fields. -/
theorem IsRead.keys {disposition : ContentDisposition} {seen : List Str}
    (read : IsRead disposition seen) : IsRead disposition disposition.keys where
  names := List.Perm.refl _
  distinct := read.names.nodup_iff.mp read.distinct
  few := read.names.length_eq ▸ read.few
  name := read.name
  filename := read.filename
  parameters := read.parameters

/-- All parts of a header leave what is read in order, and the parameters are parts again. -/
theorem parseParts_read {parts : List Str} (are : (quoting ';').AreParts parts)
    {disposition result : ContentDisposition} {seen names : List Str}
    (read : IsRead disposition seen)
    (closed : ∀ text ∈ disposition.parameters.map paramText, (quoting ';').IsClosed text)
    (parsed : parts.foldlM parsePart (disposition, seen) = .ok (result, names)) :
    IsRead result names ∧ result.dispositionType = disposition.dispositionType ∧
      (result.parameters = [] ∨ (quoting ';').AreParts (result.parameters.map paramText)) := by
  -- Induction over the parts: only the last one may leave a quote open.
  induction are generalizing disposition seen with
  | @last part whole =>
    rw [List.foldlM_cons] at parsed
    cases one : parsePart (disposition, seen) part with
    | error error => simp [one, bind, Except.bind] at parsed
    | ok next =>
      simp only [one, bind, Except.bind, List.foldlM_nil, pure, Except.pure, Except.ok.injEq] at parsed
      subst parsed
      obtain ⟨after, type, added, more, adds⟩ := parsePart_read read one
      refine ⟨after, type, ?_⟩
      rcases adds with rfl | ⟨param, rfl, run, kept⟩
      · rw [more, List.append_nil]
        rcases List.eq_nil_or_concat' disposition.parameters with none | ⟨front, last, some⟩
        · exact .inl none
        · exact .inr (Cutting.areParts_of_closed (by simp [some]) closed)
      · rw [more, List.map_append]
        exact .inr (Cutting.areParts_append closed (.last (kept whole)))
  | @more part others here parts ih =>
    rw [List.foldlM_cons] at parsed
    cases one : parsePart (disposition, seen) part with
    | error error => simp [one, bind, Except.bind] at parsed
    | ok next =>
      obtain ⟨next, among⟩ := next
      simp only [one, bind, Except.bind] at parsed
      obtain ⟨after, type, added, more, adds⟩ := parsePart_read read one
      have still : ∀ text ∈ next.parameters.map paramText, (quoting ';').IsClosed text := by
        rcases adds with rfl | ⟨param, rfl, run, kept⟩
        · rw [more, List.append_nil]
          exact closed
        · rw [more, List.map_append]
          refine List.forall_mem_append.mpr ⟨closed, List.forall_mem_singleton.mpr ?_⟩
          exact ⟨kept here.1, run.trans here.2⟩
      obtain ⟨last, same, found⟩ := ih after still parsed
      exact ⟨last, same.trans type, found⟩

/-- What is parsed may be stored. -/
theorem parse_stored {input : Str} {disposition : ContentDisposition}
    (parsed : parse input = .ok disposition) : disposition.IsStored := by
  unfold parse at parsed
  dsimp only at parsed
  split at parsed
  · cases parsed
  split at parsed
  · cases parsed
  rename_i typeStr parts whole
  split at parsed
  · cases parsed
  rename_i type typed
  cases folded : parts.foldlM parsePart (new type, []) with
  | error error => simp [folded, Except.map] at parsed
  | ok state =>
    obtain ⟨result, names⟩ := state
    simp only [folded, Except.map, Except.ok.injEq] at parsed
    subst parsed
    -- Nothing is set in the beginning.
    have start : IsRead (new type) [] := by
      refine ⟨List.Perm.refl _, List.nodup_nil, Nat.zero_le _, ?_, ?_, List.forall_mem_nil _⟩
      · intro value same
        cases same
      · intro value same
        cases same
    have are : (quoting ';').AreParts (splitParams (trim input)) :=
      splitParams_areParts (by simp [whole])
    rw [whole] at are
    cases are with
    | last =>
      cases folded
      exact ⟨DispositionType.fromStr_stored typed, start.keys, .inl rfl⟩
    | more closed others =>
      obtain ⟨read, same, found⟩ := parseParts_read others start (List.forall_mem_nil _) folded
      refine ⟨?_, read.keys, found⟩
      rw [same]
      exact DispositionType.fromStr_stored typed

/-- The three fields as they are written: their names and their values. -/
def fields (disposition : ContentDisposition) : List (Str × Str) :=
  (disposition.name.map fun name => ("name".toList, quotedText name)).toList ++
    ((disposition.filename.map fun name => ("filename".toList, quotedText name)).toList ++
    (disposition.filenameExt.map fun name =>
      ("filename*".toList, "UTF-8''".toList ++ encodeExtValue name)).toList)

/-- All fields as they are written. -/
def entries (disposition : ContentDisposition) : List (Str × Str) :=
  disposition.fields ++ disposition.parameters.map fun param => (param.1, quotedText param.2)

/-- A field behind its name. -/
def entryText (entry : Str × Str) : Str := entry.1 ++ '=' :: entry.2

/-- The names of the written fields. -/
theorem entries_keys (disposition : ContentDisposition) :
    disposition.entries.map Prod.fst = disposition.keys := by
  obtain ⟨type, filename, filenameExt, name, parameters⟩ := disposition
  cases name <;> cases filename <;> cases filenameExt <;> simp [entries, fields, keys]

/-- A header is the list of its type and its fields. -/
theorem display_eq (disposition : ContentDisposition) : disposition.display =
    [';', ' '].intercalate
      (disposition.dispositionType.display :: disposition.entries.map entryText) := by
  obtain ⟨type, filename, filenameExt, name, parameters⟩ := disposition
  rw [intercalate_cons_flatMap, display]
  -- Every field has a semicolon and a space in front.
  have shown : displayParam = fun param =>
      ';' :: ' ' :: (param.1 ++ '=' :: '"' :: (escapeQuotes param.2 ++ ['"'])) := rfl
  cases name <;> cases filename <;> cases filenameExt <;>
    simp [entries, fields, entryText, shown, quotedText, List.flatMap_map]

/-- A field that is read as it is written. -/
structure IsEntry (entry : Str × Str) : Prop where
  /-- The name is in lower case. -/
  lower : toAsciiLowercase entry.1 = entry.1
  /-- There is no white space around the name. -/
  trimmed : Trimming.IsTrimmed isWhitespace entry.1
  /-- There is no equals sign in the name. -/
  signless : '=' ∉ entry.1
  /-- There is a value. -/
  filled : entry.2 ≠ []
  /-- There is no white space around the value. -/
  ends : Trimming.IsTrimmed isWhitespace entry.2

/-- A field is set where its part stands behind a space. -/
theorem parsePart_entry {disposition next : ContentDisposition} {seen : List Str} {entry : Str × Str}
    (reads : IsEntry entry) (unseen : entry.1 ∉ seen) (few : seen.length < maxParams)
    (set : disposition.setParam entry.1 entry.2 = .ok next) :
    parsePart (disposition, seen) (' ' :: entryText entry) = .ok (next, seen ++ [entry.1]) := by
  -- The space in front is trimmed off, and nothing else.
  have whole : trim (' ' :: entryText entry) = entry.1 ++ '=' :: entry.2 :=
    (trimmed_space (isTrimmed_signed reads.trimmed reads.filled reads.ends)).2
  have name : trim entry.1 = entry.1 := reads.trimmed.trim_eq
  have value : trim entry.2 = entry.2 := reads.ends.trim_eq
  rw [parsePart, whole]
  dsimp only
  -- The part is no repetition, and there is room for it.
  rw [if_neg (by simp), splitOnce_append reads.signless]
  dsimp only
  rw [name, value, reads.lower, if_neg (by simpa using unseen), if_neg (by omega), set]
  rfl

/-- All fields are set that are written one behind the other. -/
theorem parseParts_entries {entries : List (Str × Str)}
    (each : ∀ entry ∈ entries, IsEntry entry)
    {disposition result : ContentDisposition} {seen : List Str}
    (distinct : (seen ++ entries.map Prod.fst).Nodup)
    (few : (seen ++ entries.map Prod.fst).length ≤ maxParams)
    (set : entries.foldlM (fun disposition entry => disposition.setParam entry.1 entry.2) disposition =
      .ok result) :
    (entries.map fun entry => ' ' :: entryText entry).foldlM parsePart (disposition, seen) =
      .ok (result, seen ++ entries.map Prod.fst) := by
  induction entries generalizing disposition seen with
  | nil =>
    cases set
    rw [List.map_nil, List.map_nil, List.append_nil]
    rfl
  | cons entry others ih =>
    obtain ⟨here, behind⟩ := List.forall_mem_cons.mp each
    rw [List.foldlM_cons] at set
    cases one : disposition.setParam entry.1 entry.2 with
    | error error => simp [one, bind, Except.bind] at set
    | ok next =>
      simp only [one, bind, Except.bind] at set
      rw [List.map_cons, ← List.singleton_append, ← List.append_assoc] at distinct few
      -- The name of the first field is among those that were seen by the others.
      have unseen : entry.1 ∉ seen := by
        intro inside
        have front := (List.nodup_append.mp distinct).1
        exact (List.nodup_append.mp front).2.2 _ inside _ (List.mem_singleton_self _) rfl
      have allowed : seen.length < maxParams := by
        simp only [List.length_append, List.length_singleton] at few
        omega
      have read := parsePart_entry here unseen allowed one
      have others := ih behind distinct few set
      rw [List.map_cons, List.foldlM_cons, read]
      dsimp only [bind, Except.bind]
      rw [others, List.map_cons, List.append_assoc]
      rfl

/-- The parameters are set one behind the other. -/
theorem setParams {disposition : ContentDisposition} {params : List (Str × Str)}
    (each : ∀ param ∈ params, IsKey param.1 ∧ IsQuotable param.2) :
    (params.map fun param => (param.1, quotedText param.2)).foldlM
        (fun disposition entry => disposition.setParam entry.1 entry.2) disposition =
      .ok { disposition with parameters := disposition.parameters ++ params } := by
  induction params generalizing disposition with
  | nil =>
    rw [List.append_nil]
    rfl
  | cons param others ih =>
    obtain ⟨⟨key, quotable⟩, behind⟩ := List.forall_mem_cons.mp each
    -- Its key is none of the three that have fields of their own.
    obtain ⟨notFilename, notExt, notName⟩ := key.other
    rw [List.map_cons, List.foldlM_cons, setParam, if_neg notFilename, if_neg notExt, if_neg notName,
      parseParamValue_quoted quotable]
    dsimp only [Except.map, bind, Except.bind]
    rw [ih behind]
    simp

/-- The name is set by its value between quotes. -/
theorem setName (disposition : ContentDisposition) {value : Str} (quotable : IsQuotable value) :
    disposition.setParam "name".toList (quotedText value) = .ok (disposition.withName value) := by
  rw [setParam, if_neg (by decide), if_neg (by decide), if_pos rfl, parseParamValue_quoted quotable]
  rfl

/-- The file name is set by its value between quotes. -/
theorem setFilename (disposition : ContentDisposition) {value : Str} (quotable : IsQuotable value) :
    disposition.setParam "filename".toList (quotedText value) =
      .ok (disposition.withFilename value) := by
  rw [setParam, if_pos rfl, parseParamValue_quoted quotable]
  rfl

/-- The encoded file name is set by its value behind the charset. -/
theorem setFilenameExt (disposition : ContentDisposition) (value : Str) :
    disposition.setParam "filename*".toList ("UTF-8''".toList ++ encodeExtValue value) =
      .ok (disposition.withFilenameExt value) := by
  rw [setParam, if_neg (by decide), if_pos rfl, parseExtValue_encode]
  rfl

/-- A field is set by its own part if it is there. -/
theorem setField {key : Str} {write : Str → Str} {update : ContentDisposition → Str → ContentDisposition}
    {field : Option Str} (each : ∀ disposition value, field = some value →
      setParam disposition key (write value) = .ok (update disposition value))
    (disposition : ContentDisposition) :
    (field.map fun value => (key, write value)).toList.foldlM
        (fun disposition entry => disposition.setParam entry.1 entry.2) disposition =
      .ok (field.elim disposition (update disposition)) := by
  cases field with
  | none => rfl
  | some value =>
    simp only [Option.map_some, Option.toList_some, List.foldlM_cons, List.foldlM_nil]
    rw [each disposition value rfl]
    rfl

/-- The fields that are written set the fields. -/
theorem setEntries {disposition : ContentDisposition} {seen : List Str}
    (read : IsRead disposition seen) :
    disposition.entries.foldlM (fun disposition entry => disposition.setParam entry.1 entry.2)
      (new disposition.dispositionType) = .ok disposition := by
  obtain ⟨type, filename, filenameExt, name, parameters⟩ := disposition
  have named := setField fun disposition value same =>
    setName disposition (read.name value same)
  have filenamed := setField fun disposition value same =>
    setFilename disposition (read.filename value same)
  have encoded := setField fun disposition value (_ : filenameExt = some value) =>
    setFilenameExt disposition value
  rw [entries, fields, List.append_assoc, List.append_assoc, List.foldlM_append, named]
  dsimp only [bind, Except.bind]
  rw [List.foldlM_append, filenamed]
  dsimp only [bind, Except.bind]
  rw [List.foldlM_append, encoded]
  dsimp only [bind, Except.bind]
  rw [setParams read.parameters]
  -- What was set is what is there.
  cases name <;> cases filename <;> cases filenameExt <;> rfl

/-- A text between quotes is a written value. -/
theorem quotedText_written {value : Str} (quotable : IsQuotable value) :
    IsParamValue (quotedText value) value := by
  have quoted := isQuoted_escape value
  rw [quotable.spaceControls] at quoted
  exact .quoted quoted

/-- A field with its value between quotes is read as it is written. -/
theorem isEntry_quoted {key value : Str} (lower : toAsciiLowercase key = key)
    (trimmed : Trimming.IsTrimmed isWhitespace key) (signless : '=' ∉ key)
    (quotable : IsQuotable value) : IsEntry (key, quotedText value) where
  lower := lower
  trimmed := trimmed
  signless := signless
  filled := List.cons_ne_nil _ _
  ends := (quotedText_written quotable).trimmed.2

/-- The encoded file name has no white space in it, and nothing with a meaning in lists. -/
theorem encoded_plain (value : Str) : ∀ char ∈ "UTF-8''".toList ++ encodeExtValue value,
    isWhitespace char = false ∧ char ≠ '"' ∧ char ≠ '\\' ∧ char ≠ ';' :=
  List.forall_mem_append.mpr ⟨by decide +kernel, (encodeExtValue_written false value).plain_chars⟩

/-- Fields that are there at most once are in order if each of them is. -/
theorem forall_mem_field {Item : Type} {good : Item → Prop} {field : Option Str} {write : Str → Item}
    (each : ∀ value, field = some value → good (write value)) :
    ∀ item ∈ (field.map write).toList, good item := by
  cases field with
  | none => exact List.forall_mem_nil _
  | some value => exact List.forall_mem_singleton.mpr (each value rfl)

/-- The fields are read as they are written. -/
theorem IsRead.entries {disposition : ContentDisposition} {seen : List Str}
    (read : IsRead disposition seen) : ∀ entry ∈ disposition.entries, IsEntry entry := by
  have dark : ∀ text : Str, (∀ char ∈ text, isWhitespace char = false) →
      Trimming.IsTrimmed isWhitespace text := fun _ none => Trimming.isTrimmed_of_none none
  have key : ∀ key ∈ ["name".toList, "filename".toList, "filename*".toList],
      toAsciiLowercase key = key ∧ (∀ char ∈ key, isWhitespace char = false) ∧ '=' ∉ key := by
    decide +kernel
  -- Three optional fields first, then the other parameters.
  refine List.forall_mem_append.mpr ⟨List.forall_mem_append.mpr ⟨forall_mem_field ?_,
    List.forall_mem_append.mpr ⟨forall_mem_field ?_, forall_mem_field ?_⟩⟩, ?_⟩
  · -- The name is written between quotes.
    intro value same
    obtain ⟨lower, plain, signless⟩ := key "name".toList (by simp)
    exact isEntry_quoted lower (dark _ plain) signless (read.name value same)
  · -- The file name is written between quotes.
    intro value same
    obtain ⟨lower, plain, signless⟩ := key "filename".toList (by simp)
    exact isEntry_quoted lower (dark _ plain) signless (read.filename value same)
  · -- The extended name is written encoded, which leaves no white space.
    intro value _
    obtain ⟨lower, plain, signless⟩ := key "filename*".toList (by simp)
    exact ⟨lower, dark _ plain, signless, by simp,
      dark _ fun char inside => (encoded_plain value char inside).1⟩
  · intro entry inside
    obtain ⟨param, member, rfl⟩ := List.mem_map.mp inside
    obtain ⟨key, quotable⟩ := read.parameters param member
    exact isEntry_quoted key.lower key.trimmed key.signless quotable

/-- A field behind a name without a meaning in lists is closed if its value is. -/
theorem entryText_closed {key shown : Str}
    (plain : ∀ char ∈ key ++ ['='], char ≠ '"' ∧ char ≠ '\\' ∧ char ≠ ';')
    (closed : (quoting ';').IsClosed shown) : (quoting ';').IsClosed (entryText (key, shown)) := by
  have whole := (isNeutral_of_plain plain).closed.append closed
  rwa [List.append_assoc, List.singleton_append] at whole

/-- The three fields are closed, so that only the parameters matter. -/
theorem IsRead.fields_closed {disposition : ContentDisposition} {seen : List Str}
    (read : IsRead disposition seen) :
    ∀ entry ∈ disposition.fields, (quoting ';').IsClosed (entryText entry) := by
  -- The encoding of the extended name has no quotation mark, the other two are quoted.
  refine List.forall_mem_append.mpr ⟨forall_mem_field ?_,
    List.forall_mem_append.mpr ⟨forall_mem_field ?_, forall_mem_field ?_⟩⟩
  · intro value same
    refine entryText_closed (by decide +kernel) ?_
    exact (quotedText_written (read.name value same)).closed isListDelimiter_semicolon
  · intro value same
    refine entryText_closed (by decide +kernel) ?_
    exact (quotedText_written (read.filename value same)).closed isListDelimiter_semicolon
  · intro value _
    refine entryText_closed (by decide +kernel) ?_
    exact (isNeutral_of_plain fun char inside => (encoded_plain value char inside).2).closed

/-- The type and the fields of what is stored are the parts of a list. -/
theorem IsStored.areParts {disposition : ContentDisposition} (stored : disposition.IsStored) :
    (quoting ';').AreParts
      (disposition.dispositionType.display :: disposition.entries.map entryText) := by
  have typed : (quoting ';').IsClosed disposition.dispositionType.display :=
    (isNeutral_of_tchars isListDelimiter_semicolon ((isToken_iff _).mp stored.type.token).2).closed
  have front : ∀ text ∈ disposition.dispositionType.display :: disposition.fields.map entryText,
      (quoting ';').IsClosed text :=
    List.forall_mem_cons.mpr ⟨typed, List.forall_mem_map.mpr stored.read.fields_closed⟩
  have shown : disposition.dispositionType.display :: disposition.entries.map entryText =
      (disposition.dispositionType.display :: disposition.fields.map entryText) ++
        disposition.parameters.map paramText := by
    rw [entries, List.map_append, List.map_map]
    rfl
  rw [shown]
  -- A parameter may be open only as the last part, so the order matters.
  rcases stored.parts with none | parts
  · rw [none, List.map_nil, List.append_nil]
    exact Cutting.areParts_of_closed (List.cons_ne_nil _ _) front
  · exact Cutting.areParts_append front parts

/-- What is stored is parsed again from its header. -/
theorem parse_display {disposition : ContentDisposition} (stored : disposition.IsStored) :
    parse disposition.display = .ok disposition := by
  obtain ⟨filled, typed⟩ := isToken_trimmed stored.type.token
  have each := stored.read.entries
  have parts := stored.areParts
  have texts : ∀ text ∈ disposition.dispositionType.display :: disposition.entries.map entryText,
      text ≠ [] ∧ Trimming.IsTrimmed isWhitespace text := by
    refine List.forall_mem_cons.mpr ⟨⟨filled, typed⟩, List.forall_mem_map.mpr fun entry inside => ?_⟩
    have reads := each entry inside
    exact ⟨by simp [entryText], isTrimmed_signed reads.trimmed reads.filled reads.ends⟩
  obtain ⟨trimmed, present⟩ := Trimming.isTrimmed_intercalate [';', ' '] texts
  have same : trim disposition.display = disposition.display := by
    rw [display_eq]
    exact trimmed.trim_eq
  have nonempty : disposition.display.isEmpty = false := by
    rw [List.isEmpty_eq_false_iff, display_eq]
    exact present (List.cons_ne_nil _ _)
  have split : splitParams disposition.display = disposition.dispositionType.display ::
      disposition.entries.map fun entry => ' ' :: entryText entry := by
    rw [display_eq, splitParams_join parts fun text inside => (texts text inside).1, Cutting.padded,
      List.map_map]
    rfl
  -- The fields are set in the order in which they are written.
  have distinct : ([] ++ disposition.entries.map Prod.fst).Nodup := by
    rw [entries_keys]
    exact stored.read.distinct
  have few : ([] ++ disposition.entries.map Prod.fst).length ≤ maxParams := by
    rw [entries_keys]
    exact stored.read.few
  have set := parseParts_entries each distinct few (setEntries stored.read)
  have typeName : trim disposition.dispositionType.display = disposition.dispositionType.display :=
    typed.trim_eq
  rw [parse, same, nonempty, split, if_neg Bool.false_ne_true]
  dsimp only
  rw [typeName, stored.type.read]
  dsimp only
  rw [set]
  rfl

/-- Content dispositions that are built of values without control characters. -/
inductive IsBuilt : ContentDisposition → Prop where
  /-- One of content to show. -/
  | inline : IsBuilt (new .inline)
  /-- One of content to keep. -/
  | attachment : IsBuilt (new .attachment)
  /-- One of a part of a form. -/
  | formData : IsBuilt (new .formData)
  /-- One with a name. -/
  | withName {disposition : ContentDisposition} {name : Str} (built : IsBuilt disposition)
    (plain : ∀ char ∈ name, isControl char = false) : IsBuilt (disposition.withName name)
  /-- One with a file name. -/
  | withFilename {disposition : ContentDisposition} {filename : Str} (built : IsBuilt disposition)
    (plain : ∀ char ∈ filename, isControl char = false) : IsBuilt (disposition.withFilename filename)
  /-- One with a file name of any characters. -/
  | withFilenameExt {disposition : ContentDisposition} {filename : Str}
    (built : IsBuilt disposition) : IsBuilt (disposition.withFilenameExt filename)

/-- Built content dispositions may be stored. -/
theorem IsBuilt.stored {disposition : ContentDisposition} (built : IsBuilt disposition) :
    disposition.dispositionType.IsStored ∧ disposition.parameters = [] ∧
      (∀ value, disposition.name = some value → IsQuotable value) ∧
      ∀ value, disposition.filename = some value → IsQuotable value := by
  -- A text without control characters may be quoted.
  have quotable : ∀ text : Str, (∀ char ∈ text, isControl char = false) → IsQuotable text := by
    intro text plain char inside
    rw [isQuotedPairChar_eq, plain char inside]
    rfl
  induction built with
  | inline =>
    exact ⟨DispositionType.isStored_inline, rfl, fun _ same => (by cases same),
      fun _ same => (by cases same)⟩
  | attachment =>
    exact ⟨DispositionType.isStored_attachment, rfl, fun _ same => (by cases same),
      fun _ same => (by cases same)⟩
  | formData =>
    exact ⟨DispositionType.isStored_formData, rfl, fun _ same => (by cases same),
      fun _ same => (by cases same)⟩
  -- Each step sets one field to a value without control characters.
  | withName built plain ih =>
    refine ⟨ih.1, ih.2.1, fun value same => ?_, ih.2.2.2⟩
    cases same
    exact quotable _ plain
  | withFilename built plain ih =>
    refine ⟨ih.1, ih.2.1, ih.2.2.1, fun value same => ?_⟩
    cases same
    exact quotable _ plain
  | withFilenameExt built ih => exact ih

/-- Without other parameters the names of the fields are distinct, and there are few of them. -/
theorem isStored_fields {disposition : ContentDisposition}
    (type : disposition.dispositionType.IsStored) (none : disposition.parameters = [])
    (name : ∀ value, disposition.name = some value → IsQuotable value)
    (filename : ∀ value, disposition.filename = some value → IsQuotable value) :
    disposition.IsStored := by
  -- Each of the three names is there at most once.
  have names : ∀ (type : DispositionType) (filename filenameExt name : Option Str),
      (keys ⟨type, filename, filenameExt, name, []⟩).Nodup ∧
        (keys ⟨type, filename, filenameExt, name, []⟩).length ≤ maxParams := by
    intro type filename filenameExt name
    cases name <;> cases filename <;> cases filenameExt <;> simp [keys, maxParams]
  have fields := names disposition.dispositionType disposition.filename disposition.filenameExt
    disposition.name
  rw [← none] at fields
  exact ⟨type, ⟨List.Perm.refl _, fields.1, fields.2, name, filename, by simp [none]⟩, .inl none⟩

/-- Content dispositions that were parsed or built are parsed again from their headers. -/
theorem disposition_survives {disposition : ContentDisposition}
    (origin : (∃ input, parse input = .ok disposition) ∨ IsBuilt disposition) :
    parse disposition.display = .ok disposition := by
  refine parse_display ?_
  rcases origin with ⟨input, parsed⟩ | built
  · exact parse_stored parsed
  · obtain ⟨type, none, name, filename⟩ := built.stored
    exact isStored_fields type none name filename

/-- A name with a quote and a semicolon in it survives behind the file name. -/
theorem disposition_survives_quoted :
    parse (display ⟨.unknown ['x'], some ['a', '"'], none, none, [(['p', '"', ';', '"'], [])]⟩) =
      .ok ⟨.unknown ['x'], some ['a', '"'], none, none, [(['p', '"', ';', '"'], [])]⟩ :=
  disposition_survives (.inl ⟨"X; P\";\"=\"\"; FileName=\"a\\\"\"".toList, by decide +kernel⟩)

end ContentDisposition

end Http11

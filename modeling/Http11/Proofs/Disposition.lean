import Http11.Proofs.ContentType
import Http11.Proofs.ExtValue

/-! Content dispositions are the same when they are parsed again. -/

namespace Http11

/-- Parts without the last one if that is empty. -/
def dropEmpty (parts : List Str) : List Str :=
  if parts.getLast? = some [] then parts.dropLast else parts

/-- A part in front of others is kept. -/
theorem dropEmpty_cons (part : Str) {others : List Str} (present : others ≠ []) :
    dropEmpty (part :: others) = part :: dropEmpty others := by
  unfold dropEmpty
  rw [List.getLast?_cons_of_ne_nil present, List.dropLast_cons_of_ne_nil present]
  split <;> rfl

/-- Nothing in front of the first part changes nothing. -/
theorem modifyHead_nil_append (parts : List Str) : parts.modifyHead ([] ++ ·) = parts := by
  cases parts <;> rfl

/-- Headers are cut by the scanner of quoted lists. -/
theorem splitParams_eq (input : Str) : splitParams input = dropEmpty ((quoting ';').cut input) := by
  -- The generalization is to every state of the scanner and to what was read of a part.
  have general : ∀ parts current inQuotes escapeNext,
      splitParamsFrom parts current inQuotes escapeNext input =
        parts ++ dropEmpty (((quoting ';').cutFrom (inQuotes, escapeNext) input).modifyHead
          (current ++ ·)) := by
    induction input with
    | nil =>
      intro parts current inQuotes escapeNext
      rw [splitParamsFrom, Cutting.cutFrom, List.modifyHead_cons, List.append_nil]
      by_cases empty : current = []
      · simp [empty, dropEmpty]
      · simp [empty, dropEmpty]
    | cons char rest ih =>
      intro parts current inQuotes escapeNext
      -- A character that is no cut belongs to the part.
      have passed : ∀ state, (quoting ';').step (inQuotes, escapeNext) char = state →
          (quoting ';').cuts (inQuotes, escapeNext) char = false →
          splitParamsFrom parts (current ++ [char]) state.1 state.2 rest =
            parts ++ dropEmpty (((quoting ';').cutFrom (inQuotes, escapeNext)
              (char :: rest)).modifyHead (current ++ ·)) := by
        intro state step whole
        rw [ih, Cutting.cutFrom, step, if_neg (by simp [whole]), List.modifyHead_modifyHead]
        congr 3
        funext part
        simp
      rw [splitParamsFrom]
      by_cases behind : escapeNext = true
      · subst behind
        rw [if_pos rfl]
        exact passed _ rfl (by simp [quoting_cuts])
      · rw [if_neg behind]
        rw [Bool.not_eq_true] at behind
        subst behind
        by_cases escape : (char == '\\' && inQuotes) = true
        · rw [if_pos escape]
          rw [Bool.and_eq_true, beq_iff_eq] at escape
          obtain ⟨rfl, rfl⟩ := escape
          exact passed _ rfl (by simp [quoting_cuts])
        · rw [if_neg escape]
          by_cases quote : (char == '"') = true
          · rw [if_pos quote]
            rw [beq_iff_eq] at quote
            subst quote
            exact passed _ (quoting_quote inQuotes) (by simp [quoting_cuts])
          · rw [if_neg quote]
            have still : (quoting ';').step (inQuotes, false) char = (inQuotes, false) := by
              simp only [quoting, Bool.false_eq_true, if_false, if_neg escape, if_neg quote]
            by_cases here : (char == ';' && !inQuotes) = true
            · -- A cut ends the part.
              rw [if_pos here, ih]
              rw [Bool.and_eq_true, Bool.not_eq_true'] at here
              obtain ⟨semicolon, outside⟩ := here
              subst outside
              have cut : (quoting ';').cuts (false, false) char = true := by
                simp [quoting_cuts, semicolon]
              have present : (quoting ';').cutFrom (false, false) rest ≠ [] := by
                have fits : (quoting ';').Fits (false, false) _ :=
                  Cutting.cutFrom_fits (false, false) rest
                obtain ⟨first, others, same, _⟩ := fits
                rw [same]
                exact List.cons_ne_nil _ _
              rw [Cutting.cutFrom, if_pos cut, List.modifyHead_cons, List.append_nil,
                modifyHead_nil_append, List.append_assoc]
              change parts ++ ([current] ++ _) = parts ++ dropEmpty (current ::
                (quoting ';').cutFrom (false, false) rest)
              rw [dropEmpty_cons current present]
              rfl
            · rw [if_neg here]
              refine passed _ still ?_
              rw [quoting_cuts]
              cases inQuotes <;> simp_all
  have whole := general [] [] false false
  rw [splitParams, whole, List.nil_append, modifyHead_nil_append]
  rfl

/-- The parts of a header are parts of a list. -/
theorem splitParams_areParts {input : Str} (present : splitParams input ≠ []) :
    (quoting ';').AreParts (splitParams input) := by
  have parts : (quoting ';').AreParts ((quoting ';').cut input) := Cutting.cut_areParts input
  rw [splitParams_eq] at present ⊢
  unfold dropEmpty at present ⊢
  split at present
  · rename_i last
    rw [if_pos last]
    -- All parts in front of the last one are closed.
    exact parts.dropLast present
  · rename_i last
    rw [if_neg last]
    exact parts

/-- Parts that are joined with semicolons and spaces are found again behind the spaces. -/
theorem splitParams_join {parts : List Str} (are : (quoting ';').AreParts parts)
    (filled : ∀ part ∈ parts, part ≠ []) :
    splitParams ([';', ' '].intercalate parts) = Cutting.padded ' ' parts := by
  have cut := splitWithQuotes_join isListDelimiter_semicolon are
  rw [splitWithQuotes_eq isListDelimiter_semicolon] at cut
  rw [splitParams_eq, cut, dropEmpty, if_neg]
  -- No part is empty, with a space in front or without.
  intro last
  have inside := List.mem_of_getLast? last
  cases parts with
  | nil => cases inside
  | cons first others =>
    rcases List.mem_cons.mp inside with same | behind
    · exact filled first List.mem_cons_self same.symm
    · obtain ⟨part, _, same⟩ := List.mem_map.mp behind
      cases same

namespace ContentDisposition

/-- A text between quotes is read exactly as the grammar has it. -/
theorem parseQuotedString_iff {text value : Str} :
    parseQuotedString text = .ok value ↔ IsQuoted text value := by
  constructor
  · -- Along the branches of the parser.
    intro parsed
    fun_induction parseQuotedString text generalizing value with
    | case1 =>
      cases parsed
      exact .none
    -- A pair is escaped only where the source allows its character.
    | case2 | case3 | case5 => cases parsed
    | case4 char escape next rest allowed ih =>
      cases read : parseQuotedString rest with
      | error error => simp [read, Except.map] at parsed
      | ok more =>
        simp only [read, Except.map, Except.ok.injEq] at parsed
        rw [← parsed, beq_iff_eq.mp escape]
        exact .pair (by simpa using allowed) (ih read)
    -- A character that stands for itself passes the same check.
    | case6 char rest other allowed ih =>
      cases read : parseQuotedString rest with
      | error error => simp [read, Except.map] at parsed
      | ok more =>
        simp only [read, Except.map, Except.ok.injEq] at parsed
        rw [← parsed]
        exact .plain (by simpa using allowed) (ih read)
  · intro quoted
    -- Along the grammar.
    induction quoted with
    | none => rfl
    | @plain char text value plain more ih =>
      -- A backslash would begin a pair.
      have escape : ¬ (char == '\\') = true := by
        intro same
        rw [beq_iff_eq.mp same] at plain
        exact absurd plain (by decide)
      rw [parseQuotedString.eq_def]
      dsimp only
      rw [if_neg escape, if_neg (by simp [plain]), ih]
      rfl
    | @pair char text value allowed more ih =>
      rw [parseQuotedString.eq_def]
      dsimp only
      rw [if_pos (by decide), if_neg (by simp [allowed]), ih]
      rfl

/-- A value is a written one with white space around it. -/
theorem parseParamValue_ok {value read : Str} (parsed : parseParamValue value = .ok read) :
    IsParamValue (trim value) read := by
  unfold parseParamValue at parsed
  dsimp only at parsed
  generalize trim value = shown at parsed ⊢
  split at parsed
  · rename_i opening
    split at parsed
    · rename_i closing
      rw [Bool.and_eq_true, decide_eq_true_eq, decide_eq_true_eq] at closing
      obtain ⟨char, rest, rfl⟩ : ∃ char rest, shown = char :: rest := by
        cases shown with
        | nil => cases opening
        | cons char rest => exact ⟨char, rest, rfl⟩
      rw [List.head?_cons, Option.some.injEq] at opening
      subst opening
      -- There is another quote behind the first one.
      have present : rest ≠ [] := by
        intro none
        rw [none] at closing
        exact absurd closing.2 (by decide)
      rw [List.getLast?_cons_of_ne_nil present] at closing
      have last : rest = rest.dropLast ++ ['"'] := by
        have ending := List.dropLast_append_getLast? '"' closing.1
        exact ending.symm
      have quoted := parseQuotedString_iff.mp parsed
      rw [last]
      exact .quoted quoted
    · cases parsed
  · split at parsed
    · cases parsed
    · rename_i token
      cases parsed
      exact .token (by simpa [isValidToken] using token)

/-- A text between quotes is read as itself. -/
theorem parseParamValue_quoted {value : Str} (quotable : IsQuotable value) :
    parseParamValue (quotedText value) = .ok value := by
  -- A text without control characters is escaped as it is.
  have quoted := isQuoted_escape value
  rw [quotable.spaceControls] at quoted
  have same : trim (quotedText value) = quotedText value := (IsParamValue.quoted quoted).trimmed.2.trim_eq
  -- The source looks at both ends and at the length before it reads.
  have first : (quotedText value).head? = some '"' := rfl
  have last : (quotedText value).getLast? = some '"' := by
    rw [quotedText, ← List.cons_append, List.getLast?_concat]
  have inner : (quotedText value).tail.dropLast = escapeQuotes value := by simp [quotedText]
  have long : 2 ≤ byteLength (quotedText value) := by
    simp only [quotedText, byteLength, Utf8.encode_cons, Utf8.encode_append, List.length_append]
    have one : (String.utf8EncodeChar '"').length = 1 := rfl
    rw [one]
    omega
  have read : parseQuotedString (escapeQuotes value) = .ok value := parseQuotedString_iff.mpr quoted
  -- What stands between the quotation marks is the escaped text.
  unfold parseParamValue
  rw [same]
  dsimp only
  rw [if_pos first, last, inner, read]
  simp [long]

/-- The names that the fields are written under. -/
def keys (disposition : ContentDisposition) : List Str :=
  (disposition.name.map fun _ => "name".toList).toList ++
    ((disposition.filename.map fun _ => "filename".toList).toList ++
    ((disposition.filenameExt.map fun _ => "filename*".toList).toList ++
    disposition.parameters.map Prod.fst))

/-- A name that a parameter other than the three with a field of their own is stored under. -/
structure IsKey (key : Str) : Prop where
  /-- It is in lower case. -/
  lower : toAsciiLowercase key = key
  /-- There is no white space around it. -/
  trimmed : Trimming.IsTrimmed isWhitespace key
  /-- There is no equals sign in it. -/
  signless : '=' ∉ key
  /-- It is none of the three names. -/
  other : key ≠ "filename".toList ∧ key ≠ "filename*".toList ∧ key ≠ "name".toList

/-- A parameter as it is written. -/
def paramText (param : Str × Str) : Str := param.1 ++ '=' :: quotedText param.2

/-- What all parts but the last one of a header make of a disposition. -/
structure IsRead (disposition : ContentDisposition) (seen : List Str) : Prop where
  /-- The names that were seen are those of the fields. -/
  names : seen.Perm disposition.keys
  /-- No name was seen twice. -/
  distinct : seen.Nodup
  /-- There are not too many. -/
  few : seen.length ≤ maxParams
  /-- The name has no control characters. -/
  name : ∀ value, disposition.name = some value → IsQuotable value
  /-- The file name has no control characters. -/
  filename : ∀ value, disposition.filename = some value → IsQuotable value
  /-- The others have names of their own and values without control characters. -/
  parameters : ∀ param ∈ disposition.parameters, IsKey param.1 ∧ IsQuotable param.2

/-- What one part makes of a disposition: nothing, or one more field. -/
theorem parsePart_cases {disposition next : ContentDisposition} {seen names : List Str} {part : Str}
    (parsed : parsePart (disposition, seen) part = .ok (next, names)) :
    (next = disposition ∧ names = seen) ∨
      ∃ front back, trim part = front ++ '=' :: back ∧ '=' ∉ front ∧
        toAsciiLowercase (trim front) ∉ seen ∧ seen.length < maxParams ∧
        disposition.setParam (toAsciiLowercase (trim front)) (trim back) = .ok next ∧
        names = seen ++ [toAsciiLowercase (trim front)] := by
  unfold parsePart at parsed
  dsimp only at parsed
  -- An empty part and a part without a sign change nothing.
  split at parsed
  · cases parsed
    exact .inl ⟨rfl, rfl⟩
  split at parsed
  · cases parsed
    exact .inl ⟨rfl, rfl⟩
  rename_i front back split
  split at parsed
  · cases parsed
  -- A name that was seen is refused, and so is a part too many.
  rename_i unseen
  split at parsed
  · cases parsed
  rename_i few
  cases set : disposition.setParam (toAsciiLowercase (trim front)) (trim back) with
  | error error => simp [set, Except.map] at parsed
  | ok result =>
    simp only [set, Except.map, Except.ok.injEq, Prod.mk.injEq] at parsed
    obtain ⟨rfl, rfl⟩ := parsed
    obtain ⟨whole, plain⟩ := splitOnce_some split
    refine .inr ⟨front, back, whole, plain, ?_, by omega, set, rfl⟩
    simpa using unseen

/-- What a field is set to: one of the three with a value of its own kind, or one more parameter. -/
theorem setParam_cases {disposition next : ContentDisposition} {key value : Str}
    (set : disposition.setParam key value = .ok next) :
    (key = "filename".toList ∧ ∃ read, IsParamValue (trim value) read ∧
        next = disposition.withFilename read) ∨
      (key = "filename*".toList ∧ ∃ read, next = disposition.withFilenameExt read) ∨
      (key = "name".toList ∧ ∃ read, IsParamValue (trim value) read ∧
        next = disposition.withName read) ∨
      ((key ≠ "filename".toList ∧ key ≠ "filename*".toList ∧ key ≠ "name".toList) ∧
        ∃ read, IsParamValue (trim value) read ∧
          next = { disposition with parameters := disposition.parameters ++ [(key, read)] }) := by
  unfold setParam at set
  -- The file name is a value between quotes or a token.
  split at set
  · rename_i named
    cases parsed : parseParamValue value with
    | error error => simp [parsed, Except.map] at set
    | ok read =>
      simp only [parsed, Except.map, Except.ok.injEq] at set
      exact .inl ⟨named, read, parseParamValue_ok parsed, set.symm⟩
  rename_i notFilename
  -- The extended file name has a grammar of its own.
  split at set
  · rename_i named
    cases parsed : parseExtValue value with
    | error error => simp [parsed, Except.map] at set
    | ok read =>
      simp only [parsed, Except.map, Except.ok.injEq] at set
      exact .inr (.inl ⟨named, read, set.symm⟩)
  rename_i notExt
  -- The name is a value like the file name.
  split at set
  · rename_i named
    cases parsed : parseParamValue value with
    | error error => simp [parsed, Except.map] at set
    | ok read =>
      simp only [parsed, Except.map, Except.ok.injEq] at set
      exact .inr (.inr (.inl ⟨named, read, parseParamValue_ok parsed, set.symm⟩))
  rename_i notName
  -- Any other parameter is stored behind the others.
  cases parsed : parseParamValue value with
  | error error => simp [parsed, Except.map] at set
  | ok read =>
    simp only [parsed, Except.map, Except.ok.injEq] at set
    exact .inr (.inr (.inr ⟨⟨notFilename, notExt, notName⟩, read, parseParamValue_ok parsed, set.symm⟩))

/-- A field that is set has its name among those that were seen. -/
theorem keys_withFilename {disposition : ContentDisposition} {read : Str}
    (unseen : "filename".toList ∉ disposition.keys) :
    (disposition.keys ++ ["filename".toList]).Perm (disposition.withFilename read).keys := by
  obtain ⟨type, filename, filenameExt, name, parameters⟩ := disposition
  cases filename with
  -- It would have been seen already.
  | some old => simp [keys] at unseen
  | none =>
    simp only [keys, withFilename, Option.map_none, Option.toList_none, List.nil_append,
      Option.map_some, Option.toList_some, List.append_assoc]
    refine List.Perm.append_left _ ?_
    rw [← List.append_assoc]
    exact List.perm_append_comm

/-- The encoded file name is seen once it is set. -/
theorem keys_withFilenameExt {disposition : ContentDisposition} {read : Str}
    (unseen : "filename*".toList ∉ disposition.keys) :
    (disposition.keys ++ ["filename*".toList]).Perm (disposition.withFilenameExt read).keys := by
  obtain ⟨type, filename, filenameExt, name, parameters⟩ := disposition
  cases filenameExt with
  -- It would have been seen already.
  | some old => simp [keys] at unseen
  | none =>
    simp only [keys, withFilenameExt, Option.map_none, Option.toList_none, List.nil_append,
      Option.map_some, Option.toList_some, List.append_assoc]
    exact List.Perm.append_left _ (List.Perm.append_left _ List.perm_append_comm)

/-- The name is seen once it is set. -/
theorem keys_withName {disposition : ContentDisposition} {read : Str}
    (unseen : "name".toList ∉ disposition.keys) :
    (disposition.keys ++ ["name".toList]).Perm (disposition.withName read).keys := by
  obtain ⟨type, filename, filenameExt, name, parameters⟩ := disposition
  cases name with
  -- It would have been seen already.
  | some old => simp [keys] at unseen
  | none =>
    simp only [keys, withName, Option.map_none, Option.toList_none, List.nil_append,
      Option.map_some, Option.toList_some]
    exact List.perm_append_comm

/-- What a part adds to the parameters is scanned as the part is. -/
def AddsTo (part : Str) (added : List (Str × Str)) : Prop :=
  added = [] ∨ ∃ param, added = [param] ∧
    (quoting ';').run (quoting ';').start (paramText param) =
      (quoting ';').run (quoting ';').start part ∧
    ((quoting ';').IsWhole (quoting ';').start part →
      (quoting ';').IsWhole (quoting ';').start (paramText param))

/-- The name of a parameter is stored in lower case without white space around it. -/
theorem isKey_lowercase {name : Str} (trimmed : Trimming.IsTrimmed isWhitespace name)
    (signless : '=' ∉ name) (other : toAsciiLowercase name ≠ "filename".toList ∧
      toAsciiLowercase name ≠ "filename*".toList ∧ toAsciiLowercase name ≠ "name".toList) :
    IsKey (toAsciiLowercase name) where
  lower := toAsciiLowercase_idempotent name
  trimmed := isTrimmed_lowercase isWhitespace (toLower_same isWhitespace (by decide)) trimmed
  signless := by
    intro inside
    obtain ⟨char, member, same⟩ := List.mem_map.mp inside
    -- An equals sign has no other case, so it would stand in the name itself.
    rw [toLower_unlettered same (by decide)] at member
    exact signless member
  other := other

/-- One more part leaves what is read in order. -/
theorem parsePart_read {disposition next : ContentDisposition} {seen names : List Str} {part : Str}
    (read : IsRead disposition seen) (parsed : parsePart (disposition, seen) part = .ok (next, names)) :
    IsRead next names ∧ next.dispositionType = disposition.dispositionType ∧
      ∃ added, next.parameters = disposition.parameters ++ added ∧ AddsTo part added := by
  rcases parsePart_cases parsed with ⟨rfl, rfl⟩ | ⟨front, back, whole, plain, unseen, few, set, rfl⟩
  · exact ⟨read, rfl, [], (List.append_nil _).symm, .inl rfl⟩
  -- One more name was seen.
  generalize key_eq : toAsciiLowercase (trim front) = key at unseen set
  have distinct : (seen ++ [key]).Nodup := by
    rw [List.nodup_append]
    refine ⟨read.distinct, by simp, fun first inside second single => ?_⟩
    rw [List.mem_singleton.mp single]
    exact fun same => unseen (same ▸ inside)
  have allowed : (seen ++ [key]).length ≤ maxParams := by
    rw [List.length_append]
    exact few
  have outside : key ∉ disposition.keys := fun inside => unseen (read.names.mem_iff.mpr inside)
  have names : (seen ++ [key]).Perm (disposition.keys ++ [key]) := read.names.append_right _
  rcases setParam_cases set with ⟨named, value, written, rfl⟩ | ⟨named, value, rfl⟩ |
    ⟨named, value, written, rfl⟩ | ⟨other, value, written, rfl⟩
  · rw [named] at outside names distinct allowed ⊢
    refine ⟨⟨names.trans (keys_withFilename outside), distinct, allowed, read.name, ?_,
      read.parameters⟩, rfl, [], (List.append_nil _).symm, .inl rfl⟩
    intro found same
    cases same
    exact written.quotable
  · rw [named] at outside names distinct allowed ⊢
    exact ⟨⟨names.trans (keys_withFilenameExt outside), distinct, allowed, read.name, read.filename,
      read.parameters⟩, rfl, [], (List.append_nil _).symm, .inl rfl⟩
  · rw [named] at outside names distinct allowed ⊢
    refine ⟨⟨names.trans (keys_withName outside), distinct, allowed, ?_, read.filename,
      read.parameters⟩, rfl, [], (List.append_nil _).symm, .inl rfl⟩
    intro found same
    cases same
    exact written.quotable
  · -- A parameter of its own, which is scanned with its value between quotes as it was found.
    obtain ⟨before, after, opening, closing, _, trimmed⟩ := trim_spec part
    obtain ⟨left, right, start, ending, dark, named⟩ := trim_spec front
    obtain ⟨gap, last, inner, final, _, valued⟩ := trim_spec back
    obtain ⟨first, second, outer, further, _, again⟩ := trim_spec (trim back)
    have quoted := isQuoted_escape value
    rw [written.quotable.spaceControls] at quoted
    have found : IsListParam part (trim front) value := by
      refine ⟨before ++ left, right, gap ++ first, trim (trim back), second ++ (last ++ after),
        List.forall_mem_append.mpr ⟨opening, start⟩, ending, List.forall_mem_append.mpr ⟨inner, outer⟩,
        List.forall_mem_append.mpr ⟨further, List.forall_mem_append.mpr ⟨final, closing⟩⟩, written, ?_⟩
      rw [trimmed, whole]
      conv_lhs => rw [named, valued, again]
      simp
    have scanned := found.scanned isListDelimiter_semicolon (.quoted quoted)
    rw [key_eq] at scanned
    refine ⟨⟨?_, distinct, allowed, read.name, read.filename, ?_⟩, rfl, [(key, value)], rfl,
      .inr ⟨(key, value), rfl, scanned⟩⟩
    · refine names.trans (List.Perm.of_eq ?_)
      simp [keys]
    · refine List.forall_mem_append.mpr ⟨read.parameters, List.forall_mem_singleton.mpr ⟨?_,
        written.quotable⟩⟩
      rw [← key_eq] at other ⊢
      refine isKey_lowercase dark (fun inside => plain ?_) other
      rw [named]
      simp [inside]

end ContentDisposition

/-- A list of texts between quotes is cut at the delimiters that join them and nowhere else. -/
theorem splitWithQuotes_quoted {delimiter : Char} (delimits : IsListDelimiter delimiter)
    {values : List Str} (present : values ≠ []) :
    splitWithQuotes ([delimiter].intercalate (values.map quotedText)) delimiter =
      values.map quotedText := by
  -- A text between quotes leaves the scanner outside of them, whatever stands inside.
  have closed : ∀ part ∈ values.map quotedText, (quoting delimiter).IsClosed part := by
    refine List.forall_mem_map.mpr fun value _ => ?_
    exact (IsParamValue.quoted (isQuoted_escape value)).closed delimits
  have are := Cutting.areParts_of_closed (by simpa using present) closed
  rw [splitWithQuotes_eq delimits]
  exact are.cut_intercalate (beq_self_eq_true delimiter)

/-- What is escaped for the inside of quotes is read as it was but for its control characters, by
the reader of headers behind the opening quote and by the reader of dispositions between the quotes,
and a list of such texts is cut into them again. -/
theorem escapes_inverted :
    (∀ value rest, Validate.parseQuotedString (escapeQuotes value ++ '"' :: rest) =
      .ok (spaceControls value, rest)) ∧
    (∀ value, ContentDisposition.parseQuotedString (escapeQuotes value) =
      .ok (spaceControls value)) ∧
    ∀ delimiter, delimiter = ',' ∨ delimiter = ';' → ∀ values : List Str, values ≠ [] →
      splitWithQuotes ([delimiter].intercalate (values.map quotedText)) delimiter =
        values.map quotedText := by
  refine ⟨fun value rest => ?_, fun value => ?_, fun delimiter either values present => ?_⟩
  · exact Validate.parseQuotedString_iff.mpr ⟨_, isQuoted_escape value, rfl⟩
  · exact ContentDisposition.parseQuotedString_iff.mpr (isQuoted_escape value)
  · rcases either with rfl | rfl
    · exact splitWithQuotes_quoted isListDelimiter_comma present
    · exact splitWithQuotes_quoted isListDelimiter_semicolon present

/-- A backslash, a quote, a delimiter and a line feed, and a second text that is empty. -/
theorem escapes_inverted_mixed :
    Validate.parseQuotedString (escapeQuotes ['\\', '"', ',', '\n'] ++ ['"', ';']) =
      .ok (['\\', '"', ',', ' '], [';']) ∧
    splitWithQuotes ([','].intercalate [quotedText ['\\', '"', ',', '\n'], quotedText []]) ',' =
      [quotedText ['\\', '"', ',', '\n'], quotedText []] := by
  obtain ⟨read, _, cut⟩ := escapes_inverted
  exact ⟨read _ [';'], cut ',' (.inl rfl) [['\\', '"', ',', '\n'], []] (List.cons_ne_nil _ _)⟩

end Http11

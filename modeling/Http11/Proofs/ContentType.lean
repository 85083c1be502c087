import Http11.ContentGrammar
import Http11.Proofs.Quoting

/-! Content types are the same when they are parsed again. -/

namespace Http11

/-- Around a trimmed text stood white space. -/
theorem trim_spec (text : Str) : ∃ before after, IsWhite before ∧ IsWhite after ∧
    Trimming.IsTrimmed isWhitespace (trim text) ∧ text = before ++ (trim text ++ after) :=
  Trimming.trim_spec isWhitespace text

/-- White space is a gap. -/
theorem IsWhite.gap {text : Str} (white : IsWhite text) : IsGap text := fun char inside =>
  .inl (white char inside)

/-- Gaps are one gap behind each other. -/
theorem IsGap.append {front back : Str} (first : IsGap front) (second : IsGap back) :
    IsGap (front ++ back) := List.forall_mem_append.mpr ⟨first, second⟩

/-- A gap in front of parameters makes no difference. -/
theorem IsParameters.gap {gap text : Str} {params : List (Str × Str)} (front : IsGap gap)
    (parameters : IsParameters text params) : IsParameters (gap ++ text) params := by
  cases parameters with
  | done behind => exact .done (front.append behind)
  | param between param more =>
    rw [← List.append_assoc]
    exact .param (front.append between) param more

/-- White space behind parameters makes no difference. -/
theorem IsParameters.white {text white : Str} {params : List (Str × Str)}
    (parameters : IsParameters text params) (back : IsWhite white) :
    IsParameters (text ++ white) params := by
  induction parameters with
  | done gap => exact .done (gap.append back.gap)
  | param between param more ih =>
    rw [List.append_assoc, List.append_assoc]
    exact .param between param ih

namespace ContentType

/-- A value is a written one in front of what follows it. -/
theorem parseValue_ok {rest value remaining : Str} (parsed : parseValue rest = .ok (value, remaining)) :
    ∃ shown, IsParamValue shown value ∧ rest = shown ++ remaining := by
  unfold parseValue at parsed
  -- A quotation mark opens a quoted string, and anything else is a token.
  split at parsed
  · rename_i after found
    obtain rfl := stripPrefix_one.mp found
    cases read : Validate.parseQuotedString after with
    | error error => simp [read] at parsed
    | ok pair =>
      simp only [read, Except.ok.injEq] at parsed
      subst parsed
      obtain ⟨text, quoted, rfl⟩ := Validate.parseQuotedString_iff.mp read
      exact ⟨'"' :: (text ++ ['"']), .quoted quoted, by simp⟩
  · unfold parseTokenValue at parsed
    dsimp only at parsed
    split at parsed
    · cases parsed
    · rename_i token
      cases parsed
      exact ⟨_, .token (by simpa [isValidToken] using token), List.takeWhile_append_dropWhile.symm⟩

/-- What semicolons are skipped in front of stood behind a gap. -/
theorem skipSemicolons_spec (text : Str) : ∃ gap after, IsGap gap ∧ IsWhite after ∧
    text = gap ++ (skipSemicolons text ++ after) := by
  obtain ⟨before, after, front, back, _, same⟩ := trim_spec (text.dropWhile (· == ';'))
  refine ⟨text.takeWhile (· == ';') ++ before, after, ?_, back, ?_⟩
  · -- The semicolons that were skipped are part of the gap, and so is the white space.
    refine IsGap.append (fun char inside => .inr ?_) front.gap
    have taken := List.mem_takeWhile_imp inside
    exact beq_iff_eq.mp taken
  · rw [List.append_assoc]
    conv_lhs => rw [← List.takeWhile_append_dropWhile (p := (· == ';')) (l := text), same]
    rfl

/-- What the loop adds to the parameters is written in what is left. -/
theorem parseParametersLoop_ok (rest : Str) (parameters result : List (Str × Str))
    (parsed : parseParametersLoop.run (rest, parameters) = .ok result) :
    ∃ more, result = parameters ++ more ∧ IsParameters rest more := by
  refine parseParametersLoop.run_rule (motive := fun state out => ∀ result, out = .ok result →
    ∃ more, result = state.2 ++ more ∧ IsParameters state.1 more) ?_ ?_ (rest, parameters) result parsed
  · -- The last pass: only the end of the text is accepted by it.
    intro state out returned result same
    obtain ⟨rest, parameters⟩ := state
    subst same
    change parseParametersPass rest parameters = _ at returned
    unfold parseParametersPass at returned
    dsimp only at returned
    obtain ⟨gap, after, front, back, whole⟩ := skipSemicolons_spec rest
    split at returned
    · -- There is nothing left.
      rename_i empty
      cases returned
      have none : rest = [] := by simpa using empty
      exact ⟨[], (List.append_nil _).symm, by rw [none]; exact .done (List.forall_mem_nil _)⟩
    split at returned
    · -- There is nothing but a gap left.
      rename_i empty
      cases returned
      have none : skipSemicolons rest = [] := by simpa using empty
      rw [none] at whole
      refine ⟨[], (List.append_nil _).symm, ?_⟩
      rw [whole]
      exact .done (front.append back.gap)
    split at returned
    · cases returned
    split at returned
    · cases returned
    split at returned
    · cases returned
    · cases returned
  · -- A pass that goes on has read one parameter.
    intro state next out passed ih result same
    obtain ⟨rest, parameters⟩ := state
    change parseParametersPass rest parameters = _ at passed
    unfold parseParametersPass at passed
    dsimp only at passed
    obtain ⟨gap, after, front, back, whole⟩ := skipSemicolons_spec rest
    split at passed
    · cases passed
    split at passed
    · cases passed
    split at passed
    · cases passed
    rename_i before behind split
    split at passed
    · cases passed
    rename_i valid
    split at passed
    · cases passed
    rename_i value remaining read
    cases passed
    -- A parameter was read, and the others are in what the value left.
    obtain ⟨more, whole_result, others⟩ := ih result same
    obtain ⟨parts, _⟩ := splitOnce_some split
    obtain ⟨shown, written, shape⟩ := parseValue_ok read
    obtain ⟨left, right, outer, inner, _, named⟩ := trim_spec before
    obtain ⟨opening, closing, start, ending, _, valued⟩ := trim_spec behind
    obtain ⟨skipped, last, gapped, final, remained⟩ := skipSemicolons_spec remaining
    refine ⟨(toAsciiLowercase (trim before), value) :: more, by simp [whole_result], ?_⟩
    have token : isToken (trim before) = true := by
      simp only [Bool.or_eq_true, not_or, isValidToken] at valid
      simpa using valid.2
    have param : IsContentParam (trim before ++ (right ++ '=' :: (opening ++ shown)))
        (trim before) _ := ⟨token, right, opening, shown, inner, start, written, rfl⟩
    have tail : IsParameters (remaining ++ (closing ++ after)) more := by
      rw [remained, List.append_assoc, List.append_assoc]
      exact .gap gapped (others.white
        (List.forall_mem_append.mpr ⟨final, List.forall_mem_append.mpr ⟨ending, back⟩⟩))
    have joined := IsParameters.param (front.append outer.gap) param tail
    have text : rest = gap ++ left ++ (trim before ++ (right ++ '=' :: (opening ++ shown)) ++
        (remaining ++ (closing ++ after))) := by
      rw [whole, parts]
      conv_lhs => rw [named, valued, shape]
      simp
    rw [text]
    exact joined

/-- The type and the subtype are written around a slash. -/
theorem parseMediaType_ok {text mediaType subtype : Str}
    (parsed : parseMediaType text = .ok (mediaType, subtype)) : IsMediaType text mediaType subtype := by
  unfold parseMediaType at parsed
  dsimp only at parsed
  -- White space is trimmed off around the whole and around both names.
  obtain ⟨before, after, front, back, _, whole⟩ := trim_spec text
  split at parsed
  · cases parsed
  split at parsed
  · cases parsed
  rename_i first second split
  split at parsed
  · cases parsed
  split at parsed
  · cases parsed
  rename_i valid
  cases parsed
  obtain ⟨parts, _⟩ := splitOnce_some split
  obtain ⟨outer, left, opening, closing, _, typed⟩ := trim_spec first
  obtain ⟨right, last, start, ending, _, subtyped⟩ := trim_spec second
  -- Both names passed the check of the source.
  have tokens : isToken (trim first) = true ∧ isToken (trim second) = true := by
    simpa [isValidToken] using valid
  refine ⟨before ++ outer, left, right, last ++ after, List.forall_mem_append.mpr ⟨front, opening⟩,
    closing, start, List.forall_mem_append.mpr ⟨ending, back⟩, tokens.1, tokens.2, ?_⟩
  rw [whole, parts]
  conv_lhs => rw [typed, subtyped]
  simp

/-- White space around a media type makes no difference. -/
theorem isMediaType_framed {before text after mediaType subtype : Str} (front : IsWhite before)
    (back : IsWhite after) (media : IsMediaType text mediaType subtype) :
    IsMediaType (before ++ (text ++ after)) mediaType subtype := by
  obtain ⟨outer, left, right, last, opening, closing, start, ending, typed, subtyped, rfl⟩ := media
  exact ⟨before ++ outer, left, right, last ++ after, List.forall_mem_append.mpr ⟨front, opening⟩,
    closing, start, List.forall_mem_append.mpr ⟨ending, back⟩, typed, subtyped, by simp⟩

/-- Parameters are written in the text that they are parsed from. -/
theorem parseParameters_ok {text : Str} {parameters : List (Str × Str)}
    (parsed : parseParameters text = .ok parameters) : IsParameters text parameters := by
  obtain ⟨more, rfl, written⟩ := parseParametersLoop_ok _ _ _ parsed
  obtain ⟨before, after, front, back, _, whole⟩ := trim_spec text
  rw [whole]
  exact .gap front.gap (written.white back)

/-- What follows the type, from its semicolon on, and the parameters in it. -/
inductive IsTail : Str → List (Str × Str) → Prop where
  /-- Nothing. -/
  | none : IsTail [] []
  /-- Parameters behind a semicolon. -/
  | some {back : Str} {parameters : List (Str × Str)} (written : IsParameters back parameters) :
    IsTail (';' :: back) parameters

/-- A content type is parsed from a type, a subtype and what follows them. -/
theorem parse_ok {input : Str} {contentType : ContentType} (parsed : parse input = .ok contentType) :
    ∃ front back mediaType subtype, IsMediaType front mediaType subtype ∧
      contentType.mediaType = toAsciiLowercase mediaType ∧
      contentType.subtype = toAsciiLowercase subtype ∧
      IsTail back contentType.parameters ∧ input = front ++ back := by
  unfold parse at parsed
  dsimp only at parsed
  split at parsed
  · cases parsed
  obtain ⟨before, after, opening, closing, _, whole⟩ := trim_spec input
  cases media : parseMediaType (splitAtSemicolon (trim input)).1 with
  | error error => simp [media] at parsed
  | ok types =>
    obtain ⟨mediaType, subtype⟩ := types
    cases read : parseParameters (splitAtSemicolon (trim input)).2 with
    | error error => simp [media, read] at parsed
    | ok parameters =>
      simp only [media, read, Except.ok.injEq] at parsed
      subst parsed
      have typed := parseMediaType_ok media
      have written := parseParameters_ok read
      cases split : splitOnce ';' (trim input) with
      | none =>
        -- Nothing follows the subtype.
        have parts : splitAtSemicolon (trim input) = (trim (trim input), []) := by
          rw [splitAtSemicolon, split]
        rw [parts] at typed read
        have none : parameters = [] := by
          have empty : parseParameters [] = .ok [] := parseParametersLoop.run_of_return rfl
          rw [empty, Except.ok.injEq] at read
          exact read.symm
        obtain ⟨outer, last, front, back, _, same⟩ := trim_spec (trim input)
        have framed := isMediaType_framed front back typed
        rw [← same] at framed
        refine ⟨input, [], mediaType, subtype, ?_, rfl, rfl, ?_, (List.append_nil _).symm⟩
        · rw [whole]
          exact isMediaType_framed opening closing framed
        · rw [none]
          exact .none
      | some pair =>
        obtain ⟨first, second⟩ := pair
        have parts : splitAtSemicolon (trim input) = (trim first, trim second) := by
          rw [splitAtSemicolon, split]
        rw [parts] at typed written
        obtain ⟨shape, _⟩ := splitOnce_some split
        obtain ⟨outer, last, front, back, _, same⟩ := trim_spec first
        obtain ⟨inner, rest, start, ending, _, tail⟩ := trim_spec second
        have framed := isMediaType_framed front back typed
        rw [← same] at framed
        have behind := (written.white ending).gap start.gap
        rw [← tail] at behind
        refine ⟨before ++ first, ';' :: (second ++ after), mediaType, subtype, ?_, rfl, rfl,
          .some (behind.white closing), ?_⟩
        · have front := isMediaType_framed opening (List.forall_mem_nil _) framed
          rwa [List.append_nil] at front
        · rw [whole, shape]
          simp

/-- A content type as it comes out of the parser. -/
structure IsStored (contentType : ContentType) : Prop where
  /-- The type is a token in lower case. -/
  mediaType : isToken contentType.mediaType = true ∧
    toAsciiLowercase contentType.mediaType = contentType.mediaType
  /-- The subtype is a token in lower case. -/
  subtype : isToken contentType.subtype = true ∧
    toAsciiLowercase contentType.subtype = contentType.subtype
  /-- The parameters have tokens in lower case and values without control characters. -/
  parameters : ∀ param ∈ contentType.parameters, Http11.IsStored param

/-- A parameter is stored with a token for its name and a value without control characters. -/
theorem isStored_param {name value : Str} (token : isToken name = true) (quotable : IsQuotable value) :
    Http11.IsStored (toAsciiLowercase name, value) :=
  ⟨isToken_lowercase token, toAsciiLowercase_idempotent name, quotable⟩

/-- Written parameters may be stored. -/
theorem isStored_params {text : Str} {params : List (Str × Str)} (written : IsParameters text params) :
    ∀ param ∈ params, Http11.IsStored param := by
  induction written with
  | done => exact List.forall_mem_nil _
  | param between param more ih =>
    obtain ⟨_, _, shown, _, _, value, _⟩ := param.written
    exact List.forall_mem_cons.mpr ⟨isStored_param param.token value.quotable, ih⟩

/-- Headers are parsed to content types that may be stored. -/
theorem parse_stored {input : Str} {contentType : ContentType}
    (parsed : parse input = .ok contentType) : contentType.IsStored := by
  obtain ⟨front, back, mediaType, subtype, media, typed, subtyped, tail, _⟩ := parse_ok parsed
  obtain ⟨_, _, _, _, _, _, _, _, first, second, _⟩ := media
  obtain ⟨_, _, parameters⟩ := contentType
  dsimp only at typed subtyped tail
  -- Type and subtype are stored in lower case.
  subst typed
  subst subtyped
  refine ⟨⟨isToken_lowercase first, toAsciiLowercase_idempotent _⟩,
    ⟨isToken_lowercase second, toAsciiLowercase_idempotent _⟩, ?_⟩
  · cases tail with
    -- With parameters each of them was written, so it may be stored.
    | none => exact List.forall_mem_nil _
    | some written => exact isStored_params written

/-- Values are read up to what follows them, if that is nothing or a semicolon. -/
theorem parseValue_written {shown value tail : Str} (written : IsParamValue shown value)
    (ends : tail = [] ∨ ∃ rest, tail = ';' :: rest) :
    parseValue (shown ++ tail) = .ok (value, tail) := by
  cases written with
  | token token =>
    obtain ⟨filled, tchars⟩ := (isToken_iff _).mp token
    have all : ∀ char ∈ shown, (!endsToken char) = true := by
      intro char inside
      have tchar := tchars char inside
      have semicolon : char ≠ ';' := fun same => by
        rw [same] at tchar
        revert tchar
        decide
      simp [endsToken, semicolon, (isTchar_visible tchar).2]
    have stops : Stops (fun char => !endsToken char) tail := by
      rcases ends with rfl | ⟨rest, rfl⟩
      · rfl
      · exact stops_cons rfl
    obtain ⟨char, others, rfl⟩ := List.exists_cons_of_ne_nil filled
    -- A token does not begin with a quote.
    have plain := (isTchar_plain (tchars char List.mem_cons_self)).2.2.2.2
    have none : stripPrefix ['"'] (char :: others ++ tail) = none := by
      simp [stripPrefix, plain.symm]
    rw [parseValue, none]
    dsimp only
    rw [parseTokenValue, stops.takeWhile all, stops.dropWhile all]
    simp [isValidToken, token]
  | @quoted text _ quoted =>
    have read : Validate.parseQuotedString (text ++ '"' :: tail) = .ok (value, tail) :=
      Validate.parseQuotedString_iff.mpr ⟨text, quoted, rfl⟩
    have shape : '"' :: (text ++ ['"']) ++ tail = '"' :: (text ++ '"' :: tail) := by simp
    rw [parseValue, shape, stripPrefix_one.mpr rfl]
    dsimp only
    rw [read]

/-- The parameters as they are written without the first semicolon. -/
def displayBehind : List (Str × Str) → Str
  | [] => []
  | (name, value) :: others => name ++ ('=' :: formatValue value ++ displayParameters others)

/-- Every parameter is introduced by a semicolon and a space. -/
theorem displayParameters_eq (parameters : List (Str × Str)) : displayParameters parameters =
    match parameters with
      | [] => []
      | _ :: _ => ';' :: ' ' :: displayBehind parameters := by
  cases parameters with
  | nil => rfl
  | cons param others => simp [displayParameters, displayBehind]

/-- A written value and the parameters behind it have no white space around them. -/
theorem behindName_trimmed {shown value : Str} (written : IsParamValue shown value)
    {parameters : List (Str × Str)} (stored : ∀ param ∈ parameters, Http11.IsStored param) :
    shown ++ displayParameters parameters ≠ [] ∧
      Trimming.IsTrimmed isWhitespace (shown ++ displayParameters parameters) := by
  obtain ⟨filled, trimmed⟩ := written.trimmed
  refine ⟨List.append_ne_nil_of_left_ne_nil filled _, ?_⟩
  induction parameters generalizing shown value with
  | nil =>
    rw [displayParameters_eq, List.append_nil]
    exact trimmed
  | cons param others ih =>
    obtain ⟨here, behind⟩ := List.forall_mem_cons.mp stored
    obtain ⟨name, second⟩ := param
    have value := formatValue_written here.quotable
    -- The text ends as the last of its values does.
    have last := ih value behind value.trimmed.1 value.trimmed.2
    rw [displayParameters_eq, displayBehind]
    have whole := Trimming.isTrimmed_append (';' :: ' ' :: (name ++ ['='])) filled
      (List.append_ne_nil_of_left_ne_nil value.trimmed.1 _) trimmed last
    simpa using whole

/-- Written parameters have no white space around them. -/
theorem displayBehind_trimmed {parameters : List (Str × Str)}
    (stored : ∀ param ∈ parameters, Http11.IsStored param) :
    Trimming.IsTrimmed isWhitespace (displayBehind parameters) := by
  cases parameters with
  | nil => exact Trimming.isTrimmed_nil
  | cons param others =>
    -- The first name starts with a character of a token, and the last value ends dark.
    obtain ⟨here, behind⟩ := List.forall_mem_cons.mp stored
    obtain ⟨filled, trimmed⟩ := isToken_trimmed here.token
    obtain ⟨present, last⟩ := behindName_trimmed (formatValue_written here.quotable) behind
    exact Trimming.isTrimmed_append ['='] filled present trimmed last

/-- Semicolons are skipped in front of written parameters. -/
theorem skipSemicolons_display {parameters : List (Str × Str)}
    (stored : ∀ param ∈ parameters, Http11.IsStored param) :
    skipSemicolons (displayParameters parameters) = displayBehind parameters := by
  rw [displayParameters_eq, skipSemicolons]
  cases parameters with
  | nil => rfl
  | cons param others => exact (trimmed_space (displayBehind_trimmed stored)).2

/-- Written parameters are read one after the other. -/
theorem parseParametersLoop_display {parameters : List (Str × Str)}
    (stored : ∀ param ∈ parameters, Http11.IsStored param) (read : List (Str × Str)) :
    parseParametersLoop.run (displayBehind parameters, read) = .ok (read ++ parameters) := by
  induction parameters generalizing read with
  | nil =>
    rw [List.append_nil]
    exact parseParametersLoop.run_of_return rfl
  | cons param others ih =>
    obtain ⟨here, behind⟩ := List.forall_mem_cons.mp stored
    obtain ⟨name, value⟩ := param
    have token : isToken name = true := here.token
    have lower : toAsciiLowercase name = name := here.lower
    obtain ⟨filled, trimmed⟩ := isToken_trimmed token
    have written := formatValue_written here.quotable
    have whole := displayBehind_trimmed stored
    have present : displayBehind ((name, value) :: others) ≠ [] :=
      List.append_ne_nil_of_left_ne_nil filled _
    -- There are no semicolons in front of the name.
    have kept : skipSemicolons (displayBehind ((name, value) :: others)) =
        displayBehind ((name, value) :: others) := by
      obtain ⟨char, rest, rfl⟩ := List.exists_cons_of_ne_nil filled
      have tchar := ((isToken_iff _).mp token).2 char List.mem_cons_self
      have semicolon : ¬ (char == ';') = true := fun same => by
        rw [beq_iff_eq.mp same] at tchar
        revert tchar
        decide
      have dropped : (displayBehind ((char :: rest, value) :: others)).dropWhile (· == ';') =
          displayBehind ((char :: rest, value) :: others) := List.dropWhile_cons_of_neg semicolon
      rw [skipSemicolons, dropped]
      exact whole.trim_eq
    have split : splitOnce '=' (displayBehind ((name, value) :: others)) =
        some (name, formatValue value ++ displayParameters others) :=
      splitOnce_append (not_mem_token token (by decide)) _
    have behind_trimmed : trim (formatValue value ++ displayParameters others) =
        formatValue value ++ displayParameters others :=
      (behindName_trimmed written behind).2.trim_eq
    have valued : parseValue (formatValue value ++ displayParameters others) =
        .ok (value, displayParameters others) := by
      refine parseValue_written written ?_
      rw [displayParameters_eq]
      cases others with
      | nil => exact .inl rfl
      | cons => exact .inr ⟨_, rfl⟩
    have pass : parseParametersLoop.body (displayBehind ((name, value) :: others), read) =
        .inl (displayBehind others, read ++ [(name, value)]) := by
      change parseParametersPass _ _ = _
      unfold parseParametersPass
      rw [kept, if_neg (by simpa using present), if_neg (by simpa using present), split]
      dsimp only
      have same : trim name = name := trimmed.trim_eq
      rw [same, if_neg (by simp [filled, isValidToken, token]), behind_trimmed, valued]
      dsimp only
      rw [skipSemicolons_display behind, lower]
    rw [parseParametersLoop.run_of_continue pass, ih behind]
    simp

/-- The header of a stored content type is parsed as it. -/
theorem parse_display {contentType : ContentType} (stored : contentType.IsStored) :
    parse contentType.display = .ok contentType := by
  obtain ⟨mediaType, subtype, parameters⟩ := contentType
  obtain ⟨typed, lowerType⟩ : isToken mediaType = true ∧ toAsciiLowercase mediaType = mediaType :=
    stored.mediaType
  obtain ⟨subtyped, lowerSubtype⟩ : isToken subtype = true ∧ toAsciiLowercase subtype = subtype :=
    stored.subtype
  have params : ∀ param ∈ parameters, Http11.IsStored param := stored.parameters
  obtain ⟨filled, trimmed⟩ := isToken_trimmed typed
  obtain ⟨present, behind⟩ := behindName_trimmed (IsParamValue.token subtyped) params
  have whole : trim (display ⟨mediaType, subtype, parameters⟩) =
      display ⟨mediaType, subtype, parameters⟩ := by
    have trimmed := Trimming.isTrimmed_append ['/'] filled present trimmed behind
    rw [display, List.append_assoc]
    exact trimmed.trim_eq
  -- The media type ends at the first semicolon.
  have slashed : Trimming.IsTrimmed isWhitespace (mediaType ++ '/' :: subtype) := by
    obtain ⟨nonempty, last⟩ := isToken_trimmed subtyped
    exact Trimming.isTrimmed_append ['/'] filled nonempty trimmed last
  have plain : ';' ∉ mediaType ++ '/' :: subtype := by
    have first : ';' ∉ mediaType := not_mem_token typed (by decide)
    have second : ';' ∉ subtype := not_mem_token subtyped (by decide)
    simp [first, second]
  have parts : splitAtSemicolon (display ⟨mediaType, subtype, parameters⟩) =
      (mediaType ++ '/' :: subtype, displayBehind parameters) := by
    have same : trim (mediaType ++ '/' :: subtype) = mediaType ++ '/' :: subtype := slashed.trim_eq
    rw [display, displayParameters_eq, splitAtSemicolon]
    cases parameters with
    | nil =>
      dsimp only
      rw [List.append_nil, splitOnce_none plain, same]
      rfl
    | cons param others =>
      dsimp only
      rw [splitOnce_append plain]
      dsimp only
      rw [same, (trimmed_space (displayBehind_trimmed params)).2]
  have media : parseMediaType (mediaType ++ '/' :: subtype) = .ok (mediaType, subtype) := by
    have same : trim (mediaType ++ '/' :: subtype) = mediaType ++ '/' :: subtype := slashed.trim_eq
    have slash : '/' ∉ mediaType := not_mem_token typed (by decide)
    have first : trim mediaType = mediaType := trimmed.trim_eq
    have second : trim subtype = subtype := (isToken_trimmed subtyped).2.trim_eq
    unfold parseMediaType
    rw [same]
    dsimp only
    rw [splitOnce_append slash, if_neg (by simp)]
    dsimp only
    rw [first, second, if_neg (by simp [filled, (isToken_trimmed subtyped).1]),
      if_neg (by simp [isValidToken, typed, subtyped])]
  have read : parseParameters (displayBehind parameters) = .ok parameters := by
    have same : trim (displayBehind parameters) = displayBehind parameters :=
      (displayBehind_trimmed params).trim_eq
    rw [parseParameters, same, parseParametersLoop_display params]
    rfl
  have nonempty : (display ⟨mediaType, subtype, parameters⟩).isEmpty = false := by
    simp [display, filled]
  rw [parse, whole]
  dsimp only
  rw [nonempty, parts]
  dsimp only
  rw [media]
  dsimp only
  rw [read, lowerType, lowerSubtype]
  rfl

/-- Content types that are built of tokens and of values without control characters. -/
inductive IsBuilt : ContentType → Prop where
  /-- One without parameters. -/
  | new {mediaType subtype : Str} (typed : isToken mediaType = true)
    (subtyped : isToken subtype = true) : IsBuilt (new mediaType subtype)
  /-- One with one more parameter. -/
  | withParameter {contentType : ContentType} {name value : Str} (built : IsBuilt contentType)
    (token : isToken name = true) (plain : ∀ char ∈ value, isControl char = false) :
    IsBuilt (contentType.withParameter name value)

/-- Built content types may be stored. -/
theorem IsBuilt.stored {contentType : ContentType} (built : IsBuilt contentType) :
    contentType.IsStored := by
  induction built with
  | new typed subtyped =>
    -- A new content type has no parameters.
    exact ⟨⟨isToken_lowercase typed, toAsciiLowercase_idempotent _⟩,
      ⟨isToken_lowercase subtyped, toAsciiLowercase_idempotent _⟩, List.forall_mem_nil _⟩
  | withParameter built token plain ih =>
    -- A parameter is put behind the others, with a value without control characters.
    refine ⟨ih.mediaType, ih.subtype, List.forall_mem_append.mpr ⟨ih.parameters, ?_⟩⟩
    have quotable : IsQuotable _ := fun char inside => by
      rw [isQuotedPairChar_eq, plain char inside]
      rfl
    exact List.forall_mem_singleton.mpr (isStored_param token quotable)

/-- Content types that were parsed or built are parsed again from their headers. -/
theorem contentType_survives {contentType : ContentType}
    (origin : (∃ input, parse input = .ok contentType) ∨ IsBuilt contentType) :
    parse contentType.display = .ok contentType := by
  refine parse_display ?_
  rcases origin with ⟨input, parsed⟩ | built
  · exact parse_stored parsed
  · exact built.stored

/-- A repeated parameter, an empty value and one with delimiters survive. -/
theorem contentType_survives_repeated :
    parse (display ⟨['t'], ['x'], [(['a'], [' ', '"', ';', '\\']), (['a'], [])]⟩) =
      .ok ⟨['t'], ['x'], [(['a'], [' ', '"', ';', '\\']), (['a'], [])]⟩ :=
  contentType_survives (.inl ⟨"T/x;;A=\" \\\";\\\\\" a=\"\"".toList, by decide⟩)

end ContentType
end Http11

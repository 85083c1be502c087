import Http11.AuthHeaders
import Http11.Proofs.AuthGrammar

/-! Headers that were parsed are parsed again when they are written. -/

namespace Http11

/-- A control character, unless it is a tab. -/
def isControl (char : Char) : Bool := (char.toNat ≤ 0x1F || char.toNat == 0x7F) && char != '\t'

/-- A text with spaces in place of its control characters. -/
def spaceControls (text : Str) : Str := text.map fun char => if isControl char then ' ' else char

/-- Only control characters cannot be escaped. -/
theorem isQuotedPairChar_eq (char : Char) : isQuotedPairChar char = !isControl char := by
  by_cases ascii : char.toNat < 0x80
  · exact forall_ascii (motive := fun char => isQuotedPairChar char = !isControl char)
      (by decide) ascii
  · -- From 0x80 on no character is a control character, and all of them may be escaped.
    have high : 0x80 ≤ char.toNat := by omega
    have above : ¬ char.toNat ≤ 0x1F := by omega
    have other : ¬ char.toNat = 0x7F := by omega
    simp [isQuotedPairChar, isControl, high, above, other]

/-- A character that may be escaped and needs not to be. -/
theorem isQdtextChar_of {char : Char} (allowed : isQuotedPairChar char = true)
    (plain : ¬ (char == '"' || char == '\\') = true) : isQdtextChar char = true := by
  by_cases ascii : char.toNat < 0x80
  · revert allowed plain
    exact forall_ascii (motive := fun char => isQuotedPairChar char = true →
      ¬ (char == '"' || char == '\\') = true → isQdtextChar char = true) (by decide) ascii
  · have high : 0x80 ≤ char.toNat := by omega
    simp [isQdtextChar, high]

/-- An escaped text stands for itself without control characters. -/
theorem isQuoted_escape (text : Str) : IsQuoted (escapeQuotes text) (spaceControls text) := by
  induction text with
  | nil => exact .none
  | cons char rest ih =>
    rw [escapeQuotes, spaceControls, List.map_cons, isQuotedPairChar_eq, Bool.not_not]
    by_cases control : isControl char = true
    · -- Its place is taken by a space.
      rw [if_pos control, if_pos control]
      exact .plain (by decide) ih
    · rw [if_neg control, if_neg control]
      have allowed : isQuotedPairChar char = true := by simp [isQuotedPairChar_eq, control]
      by_cases special : (char == '"' || char == '\\') = true
      · rw [if_pos special]
        exact .pair allowed ih
      · rw [if_neg special]
        exact .plain (isQdtextChar_of allowed special) ih

/-- A text of which all characters may stand between quotes. -/
def IsQuotable (text : Str) : Prop := ∀ char ∈ text, isQuotedPairChar char = true

/-- A text that may stand between quotes has no control characters. -/
theorem IsQuotable.spaceControls {text : Str} (quotable : IsQuotable text) :
    spaceControls text = text := by
  -- Only control characters are replaced.
  have kept : ∀ char ∈ text, (if isControl char then ' ' else char) = char := by
    intro char inside
    have allowed := quotable char inside
    rw [isQuotedPairChar_eq, Bool.not_eq_true'] at allowed
    rw [allowed]
    rfl
  rw [Http11.spaceControls, List.map_congr_left kept, List.map_id']

/-- The characters that a quoted text stands for may stand between quotes. -/
theorem IsQuoted.quotable {text value : Str} (quoted : IsQuoted text value) : IsQuotable value := by
  -- Every rule for a character asks for one that is no control character.
  have plainOf : ∀ char, isQdtextChar char = true → isQuotedPairChar char = true := by
    intro char plain
    by_cases ascii : char.toNat < 0x80
    · revert plain
      exact forall_ascii (motive := fun char => isQdtextChar char = true →
        isQuotedPairChar char = true) (by decide) ascii
    · have high : 0x80 ≤ char.toNat := by omega
      simp [isQuotedPairChar, high]
  induction quoted with
  | none => exact List.forall_mem_nil _
  | plain plain more ih => exact List.forall_mem_cons.mpr ⟨plainOf _ plain, ih⟩
  | pair quotable more ih => exact List.forall_mem_cons.mpr ⟨quotable, ih⟩

/-- Characters of tokens may stand between quotes, and are no white space of any kind. -/
theorem isTchar_visible {char : Char} (tchar : isTchar char = true) :
    isQuotedPairChar char = true ∧ isWhitespace char = false := by
  have ascii := isTchar_ascii tchar
  rw [isTchar, ofKind_ascii _ ascii] at tchar
  revert tchar
  exact forall_ascii (motive := fun char => isTokenChar (UInt8.ofNat char.toNat) = true →
    isQuotedPairChar char = true ∧ isWhitespace char = false) (by decide) ascii

/-- Characters of tokens are so in lower case, which does not change them again. -/
theorem isTchar_toLower {char : Char} (tchar : isTchar char = true) :
    isTchar char.toLower = true ∧ char.toLower.toLower = char.toLower := by
  have ascii := isTchar_ascii tchar
  revert tchar
  exact forall_ascii (motive := fun char => isTchar char = true →
    isTchar char.toLower = true ∧ char.toLower.toLower = char.toLower) (by decide +kernel) ascii

/-- A written value may stand between quotes. -/
theorem IsParamValue.quotable {shown value : Str} (written : IsParamValue shown value) :
    IsQuotable value := by
  cases written with
  | token token =>
    intro char inside
    exact (isTchar_visible (((isToken_iff _).mp token).2 char inside)).1
  | quoted quoted => exact quoted.quotable

/-- A parameter as a list of them holds it. -/
structure IsStored (param : Str × Str) : Prop where
  /-- The name is a token. -/
  token : isToken param.1 = true
  /-- The name is in lower case. -/
  lower : toAsciiLowercase param.1 = param.1
  /-- The value may stand between quotes. -/
  quotable : IsQuotable param.2

/-- A written parameter is stored with its name in lower case. -/
theorem IsAuthParam.stored {text name value : Str} (param : IsAuthParam text name value) :
    IsStored (toAsciiLowercase name, value) := by
  obtain ⟨_, _, shown, _, _, written, _⟩ := param.written
  obtain ⟨filled, tchars⟩ := (isToken_iff _).mp param.token
  refine ⟨(isToken_iff _).mpr ⟨?_, ?_⟩, ?_, written.quotable⟩
  · simpa [toAsciiLowercase] using filled
  · intro char inside
    obtain ⟨upper, member, rfl⟩ := List.mem_map.mp inside
    exact (isTchar_toLower (tchars upper member)).1
  · -- The name is stored in lower case, so lowering it again changes nothing.
    simp only [toAsciiLowercase, List.map_map]
    exact List.map_congr_left fun char inside => (isTchar_toLower (tchars char inside)).2

/-- All parameters of a list are stored. -/
theorem IsParamList.stored {text : Str} {params : AuthParams} (list : IsParamList text params) :
    ∀ param ∈ lowered params, IsStored param := by
  have single : ∀ {text params}, IsElement text params →
      ∀ param ∈ lowered params, IsStored param := by
    intro text params element
    cases element with
    | empty => exact List.forall_mem_nil _
    | param front back param => exact List.forall_mem_singleton.mpr param.stored
  -- Each element adds what it was read to, and each of those is stored.
  induction list with
  | last element => exact single element
  | more element others ih =>
    rw [lowered, List.map_append]
    exact List.forall_mem_append.mpr ⟨single element, ih⟩

/-- Parameters that some list was parsed to. -/
structure Parsed (params : AuthParams) : Prop where
  /-- There are some. -/
  filled : params ≠ []
  /-- They are allowed together. -/
  together : Together params
  /-- Each of them is stored. -/
  stored : ∀ param ∈ params, IsStored param

/-- What is parsed has been stored. -/
theorem parsed_of {input : Str} {params : AuthParams}
    (read : parseAuthParams input = some (.ok params)) : Parsed params := by
  obtain ⟨parsed, found, completes⟩ := parseAuthParams_completes input
  rw [found, Option.some.injEq] at read
  obtain ⟨new, list, filled, together, rfl⟩ := (completes params).mp read
  exact ⟨filled, together, list.stored⟩

/-- A value between quotes is read without its control characters. -/
theorem quotedParam_written {name : Str} (token : isToken name = true) (value : Str) :
    IsAuthParam (quotedParam name value) name (spaceControls value) where
  token := token
  written := by
    refine ⟨[], [], '"' :: (escapeQuotes value ++ ['"']), List.forall_mem_nil _,
      List.forall_mem_nil _, .quoted (isQuoted_escape value), ?_⟩
    rw [quotedParam]
    simp

/-- A stored parameter is written with its own name and value. -/
theorem formatAuthParam_written {name value : Str} (stored : IsStored (name, value)) :
    IsAuthParam (formatAuthParam name value) name value := by
  rw [formatAuthParam]
  by_cases quoting : needsQuoting value = true
  · rw [if_pos quoting]
    have written := quotedParam_written stored.token value
    rwa [stored.quotable.spaceControls] at written
  · -- A value that needs no quotes is a token.
    rw [if_neg quoting]
    have token : isToken value = true := by
      rw [needsQuoting, Bool.not_eq_true, Bool.or_eq_false_iff] at quoting
      rw [isToken]
      simpa using quoting
    refine ⟨stored.token, [], [], value, List.forall_mem_nil _, List.forall_mem_nil _,
      .token token, ?_⟩
    simp

/-- Elements may have a space in front. -/
theorem IsElement.spaced {text : Str} {params : AuthParams} (element : IsElement text params) :
    IsElement (' ' :: text) params := by
  cases element with
  | empty ows => exact .empty (List.forall_mem_cons.mpr ⟨rfl, ows⟩)
  | @param before _ _ _ _ front back param =>
    have spaced : IsOwsText (' ' :: before) := List.forall_mem_cons.mpr ⟨rfl, front⟩
    exact .param spaced back param

/-- Lists may have a space in front. -/
theorem IsParamList.spaced {text : Str} {params : AuthParams} (list : IsParamList text params) :
    IsParamList (' ' :: text) params := by
  cases list with
  | last element => exact .last element.spaced
  | more element others => exact .more element.spaced others

/-- Written parameters with commas and spaces between them are a list. -/
theorem isParamList_join {written : List (Str × Str × Str)} (filled : written ≠ [])
    (params : ∀ param ∈ written, IsAuthParam param.1 param.2.1 param.2.2) :
    IsParamList (", ".toList.intercalate (written.map Prod.fst)) (written.map Prod.snd) := by
  -- The induction is on the written parameters; the last one has no comma behind it.
  induction written with
  | nil => exact absurd rfl filled
  | cons first rest ih =>
    obtain ⟨one, others⟩ := List.forall_mem_cons.mp params
    have element : IsElement first.1 [first.2] := by
      have alone := IsElement.param (List.forall_mem_nil _) (List.forall_mem_nil _) one
      rwa [List.nil_append, List.append_nil] at alone
    cases rest with
    | nil =>
      rw [List.map_singleton, List.intercalate_singleton]
      exact .last element
    | cons second rest =>
      have behind := (ih (by simp) others).spaced
      rw [List.map_cons, List.map_cons, List.intercalate_cons_cons]
      rw [List.map_cons] at behind
      have whole := IsParamList.more element behind
      simpa using whole

/-- A written list is parsed to its parameters in lower case. -/
theorem parseAuthParams_of {input : Str} {params : AuthParams} (list : IsParamList input params)
    (filled : lowered params ≠ []) (together : Together (lowered params)) :
    parseAuthParams input = some (.ok (lowered params)) := by
  obtain ⟨parsed, found, completes⟩ := parseAuthParams_completes input
  rw [found, (completes (lowered params)).mpr ⟨params, list, filled, together, rfl⟩]

/-- Parameters together with how each of them is written. -/
def formatted (params : AuthParams) : List (Str × Str × Str) :=
  params.map fun (name, value) => (formatAuthParam name value, name, value)

/-- With parameters there is something written. -/
theorem formatted_ne_nil {params : AuthParams} (filled : params ≠ []) : formatted params ≠ [] := by
  simpa [formatted] using filled

/-- What is written for parsed parameters is in the grammar. -/
theorem formatted_written {params : AuthParams} (parsed : Parsed params) :
    ∀ param ∈ formatted params, IsAuthParam param.1 param.2.1 param.2.2 := by
  intro written inside
  obtain ⟨param, member, rfl⟩ := List.mem_map.mp inside
  exact formatAuthParam_written (parsed.stored param member)

/-- Parsed parameters are parsed again when they are written. -/
theorem parseAuthParams_format {params : AuthParams} (parsed : Parsed params) :
    parseAuthParams (formatAuthParams params) = some (.ok params) := by
  -- The names were stored in lower case already.
  have kept : lowered params = params := by
    rw [lowered]
    have each : ∀ param ∈ params, (toAsciiLowercase param.1, param.2) = param := by
      intro param inside
      rw [(parsed.stored param inside).lower]
    rw [List.map_congr_left each, List.map_id']
  have list : IsParamList (formatAuthParams params) params := by
    have joined := isParamList_join (formatted_ne_nil parsed.filled) (formatted_written parsed)
    simpa [formatted, formatAuthParams, List.map_map, Function.comp_def] using joined
  have read := parseAuthParams_of list (by rw [kept]; exact parsed.filled)
    (by rw [kept]; exact parsed.together)
  rwa [kept] at read

/-- A token starts and ends dark. -/
theorem token_dark {text : Str} (token : isToken text = true) :
    StartsDark text ∧ EndsDark text := by
  obtain ⟨filled, tchars⟩ := (isToken_iff _).mp token
  exact dark_of_all filled fun char inside => (isTchar_visible (tchars char inside)).2

/-- A written parameter starts and ends dark. -/
theorem IsAuthParam.dark {text name value : Str} (param : IsAuthParam text name value) :
    StartsDark text ∧ EndsDark text := by
  have starts := (token_dark param.token).1
  obtain ⟨left, right, shown, _, _, written, rfl⟩ := param.written
  have ends : EndsDark shown := by
    -- A token ends with one of its characters, a quoted string with its quotation mark.
    cases written with
    | token token => exact (token_dark token).2
    | @quoted inner _ quoted => exact ⟨'"' :: inner, '"', rfl, by decide⟩
  rw [List.append_assoc]
  refine ⟨starts.append _, ?_⟩
  have whole := ends.append (name ++ left ++ '=' :: right)
  simpa using whole

/-- Texts that start and end dark do so together. -/
theorem join_dark {separator : Str} {texts : List Str} (filled : texts ≠ [])
    (dark : ∀ text ∈ texts, StartsDark text ∧ EndsDark text) :
    StartsDark (separator.intercalate texts) ∧ EndsDark (separator.intercalate texts) := by
  -- The join starts with the first text and ends with the last, whatever stands between.
  induction texts with
  | nil => exact absurd rfl filled
  | cons first rest ih =>
    obtain ⟨one, others⟩ := List.forall_mem_cons.mp dark
    cases rest with
    | nil =>
      rw [List.intercalate_singleton]
      exact one
    | cons second rest =>
      have behind := ih (by simp) others
      rw [List.intercalate_cons_cons]
      refine ⟨?_, behind.2.append _⟩
      rw [List.append_assoc]
      exact one.1.append _

/-- Written parameters start and end dark. -/
theorem formatAuthParams_dark {params : AuthParams} (parsed : Parsed params) :
    StartsDark (formatAuthParams params) ∧ EndsDark (formatAuthParams params) := by
  refine join_dark (by simpa using parsed.filled) fun text inside => ?_
  obtain ⟨param, member, rfl⟩ := List.mem_map.mp inside
  exact (formatAuthParam_written (parsed.stored param member)).dark

/-- A text that starts dark is not empty. -/
theorem StartsDark.isEmpty {text : Str} (dark : StartsDark text) : text.isEmpty = false := by
  obtain ⟨char, rest, rfl, _⟩ := dark
  rfl

/-- What stands behind a scheme and a space. -/
theorem header_eq {spaced scheme : Str} (same : spaced = scheme ++ [' ']) (rest : Str) :
    spaced ++ rest = scheme ++ ' ' :: rest := by
  rw [same, List.append_assoc]
  rfl

/-- A scheme, a space and what stands behind them are not trimmed. -/
theorem header_trimmed {scheme rest : Str} (starts : StartsDark scheme) (ends : EndsDark rest) :
    trim (scheme ++ ' ' :: rest) = scheme ++ ' ' :: rest := by
  have whole := ends.append (scheme ++ [' '])
  rw [List.append_assoc] at whole
  exact (starts.append _).trim whole

/-- Behind a scheme as it is written the rest is found. -/
theorem stripScheme_header {scheme rest : Str} (starts : StartsDark scheme)
    (dark : StartsDark rest) : stripScheme (scheme ++ ' ' :: rest) scheme = some rest :=
  stripScheme_append starts (by rw [eqIgnoreAsciiCase, beq_self_eq_true]) rfl dark

/-- No scheme is found where another one of its length stands. -/
theorem stripScheme_other {front rest scheme : Str} (starts : StartsDark front)
    (length : byteLength front = byteLength scheme)
    (other : eqIgnoreAsciiCase front scheme = false) :
    stripScheme (front ++ rest) scheme = none := by
  rw [stripScheme, (starts.append rest).trimStart]
  by_cases short : byteLength (front ++ rest) ≤ byteLength scheme
  · exact if_pos short
  · rw [if_neg short, ← length, splitAtByte_append]
    simp [other]

/-- A header is parsed as the parameters behind its scheme. -/
theorem parseWithParams_header {scheme list : Str} {params : AuthParams}
    {otherScheme : AuthError} {ofParams : AuthParams → Except AuthError α}
    (starts : StartsDark scheme) (dark : StartsDark list ∧ EndsDark list)
    (read : parseAuthParams list = some (.ok params)) :
    parseWithParams (scheme ++ ' ' :: list) scheme otherScheme ofParams =
      some (ofParams params) := by
  have rest : schemeParams (scheme ++ ' ' :: list) scheme otherScheme = .ok list := by
    simp only [schemeParams, header_trimmed starts dark.2, (starts.append _).isEmpty,
      stripScheme_header starts dark.1, dark.1.isEmpty, Bool.false_eq_true, if_false]
  simp only [parseWithParams, rest, read]
  rfl

/-- What a header is parsed to comes from parsed parameters. -/
theorem parseWithParams_parsed {input scheme : Str} {otherScheme : AuthError}
    {ofParams : AuthParams → Except AuthError α} {result : α}
    (read : parseWithParams input scheme otherScheme ofParams = some (.ok result)) :
    ∃ params, Parsed params ∧ ofParams params = .ok result := by
  unfold parseWithParams at read
  split at read
  · cases read
  rename_i list _
  -- Only a header of this scheme whose parameters are read gets to them.
  cases found : parseAuthParams list with
  | none => simp [found] at read
  | some outcome =>
    cases outcome with
    | error error => simp [found, Except.bind] at read
    | ok params =>
      rw [found, Option.map_some, Option.some.injEq] at read
      exact ⟨params, parsed_of found, read⟩

/-- A header written for parsed parameters is parsed to them again. -/
theorem parseWithParams_format {scheme : Str} {params : AuthParams} {otherScheme : AuthError}
    {ofParams : AuthParams → Except AuthError α} (starts : StartsDark scheme)
    (parsed : Parsed params) :
    parseWithParams (scheme ++ ' ' :: formatAuthParams params) scheme otherScheme ofParams =
      some (ofParams params) :=
  parseWithParams_header starts (formatAuthParams_dark parsed) (parseAuthParams_format parsed)

section Schemes

variable {list : Str} (dark : StartsDark list ∧ EndsDark list)
  {basic digest bearer : Option (Except AuthError α)}

include dark

/-- A header of the Basic scheme is parsed as such. -/
theorem parseScheme_basic :
    parseScheme ("Basic".toList ++ ' ' :: list) basic digest bearer = basic := by
  have starts : StartsDark "Basic".toList := ⟨'B', _, rfl, rfl⟩
  simp only [parseScheme, header_trimmed starts dark.2, (starts.append _).isEmpty,
    stripScheme_header starts dark.1, Option.isSome_some, Bool.false_eq_true, if_false, if_true]

/-- A header of the Digest scheme is parsed as such. -/
theorem parseScheme_digest :
    parseScheme ("Digest".toList ++ ' ' :: list) basic digest bearer = digest := by
  have starts : StartsDark "Digest".toList := ⟨'D', _, rfl, rfl⟩
  have other : stripScheme ("Digest".toList ++ ' ' :: list) "Basic".toList = none :=
    @stripScheme_other "Diges".toList ('t' :: ' ' :: list) _ ⟨'D', _, rfl, rfl⟩ rfl rfl
  simp only [parseScheme, header_trimmed starts dark.2, (starts.append _).isEmpty, other,
    stripScheme_header starts dark.1, Option.isSome_some, Option.isSome_none,
    Bool.false_eq_true, if_false, if_true]

/-- A header of the Bearer scheme is parsed as such. -/
theorem parseScheme_bearer :
    parseScheme ("Bearer".toList ++ ' ' :: list) basic digest bearer = bearer := by
  have starts : StartsDark "Bearer".toList := ⟨'B', _, rfl, rfl⟩
  -- The two other schemes are tried first and do not match.
  have other : stripScheme ("Bearer".toList ++ ' ' :: list) "Basic".toList = none :=
    @stripScheme_other "Beare".toList ('r' :: ' ' :: list) _ ⟨'B', _, rfl, rfl⟩ rfl rfl
  have another : stripScheme ("Bearer".toList ++ ' ' :: list) "Digest".toList = none :=
    stripScheme_other starts rfl rfl
  simp only [parseScheme, header_trimmed starts dark.2, (starts.append _).isEmpty, other, another,
    stripScheme_header starts dark.1, Option.isSome_some, Option.isSome_none,
    Bool.false_eq_true, if_false, if_true]

end Schemes

/-- Credentials of the Digest scheme keep the parameters they come from. -/
theorem DigestAuth.ofParams_params {params : AuthParams} {auth : DigestAuth}
    (read : DigestAuth.ofParams params = .ok auth) : auth.params = params := by
  unfold DigestAuth.ofParams at read
  dsimp only at read
  -- Every missing parameter is an error, and the value keeps the list it was read from.
  split at read
  · cases read
  split at read
  · cases read
  split at read
  · cases read
  split at read
  · cases read
  · cases read
    rfl

/-- A challenge of the Digest scheme keeps the parameters it comes from. -/
theorem DigestChallenge.ofParams_params {params : AuthParams} {auth : DigestChallenge}
    (read : DigestChallenge.ofParams params = .ok auth) : auth.params = params := by
  unfold DigestChallenge.ofParams at read
  split at read
  · cases read
  · cases read
    rfl

/-- Credentials of the Digest scheme are parsed again, alone and among all schemes. -/
theorem DigestAuth.survives {input : Str} {auth : DigestAuth}
    (read : DigestAuth.parse input = some (.ok auth)) :
    DigestAuth.parse auth.toHeaderValue = some (.ok auth) ∧
      Authorization.parse auth.toHeaderValue = some (.ok (.digest auth)) := by
  obtain ⟨params, parsed, made⟩ := parseWithParams_parsed read
  have starts : StartsDark "Digest".toList := ⟨'D', _, rfl, rfl⟩
  have dark := formatAuthParams_dark parsed
  obtain rfl := DigestAuth.ofParams_params made
  have header : auth.toHeaderValue = "Digest".toList ++ ' ' :: formatAuthParams auth.params :=
    @header_eq "Digest ".toList "Digest".toList rfl _
  -- The written header has the scheme in front and the parameters behind one space.
  have again : DigestAuth.parse auth.toHeaderValue = some (.ok auth) := by
    rw [header, DigestAuth.parse, parseWithParams_format starts parsed, made]
  refine ⟨again, ?_⟩
  rw [header] at again ⊢
  rw [Authorization.parse, parseScheme_digest dark, header_trimmed starts dark.2, again]
  rfl

/-- A challenge of the Digest scheme is parsed again, alone and among all schemes. -/
theorem DigestChallenge.survives {input : Str} {auth : DigestChallenge}
    (read : DigestChallenge.parse input = some (.ok auth)) :
    DigestChallenge.parse auth.toHeaderValue = some (.ok auth) ∧
      AuthChallenge.parse auth.toHeaderValue = some (.ok (.digest auth)) := by
  obtain ⟨params, parsed, made⟩ := parseWithParams_parsed read
  have starts : StartsDark "Digest".toList := ⟨'D', _, rfl, rfl⟩
  have dark := formatAuthParams_dark parsed
  obtain rfl := DigestChallenge.ofParams_params made
  have header : auth.toHeaderValue = "Digest".toList ++ ' ' :: formatAuthParams auth.params :=
    @header_eq "Digest ".toList "Digest".toList rfl _
  -- The written challenge has the scheme in front and the parameters behind one space.
  have again : DigestChallenge.parse auth.toHeaderValue = some (.ok auth) := by
    rw [header, DigestChallenge.parse, parseWithParams_format starts parsed, made]
  refine ⟨again, ?_⟩
  rw [header] at again ⊢
  rw [AuthChallenge.parse, parseScheme_digest dark, header_trimmed starts dark.2, again]
  rfl

/-- A challenge of the Bearer scheme is parsed again, alone and among all schemes. -/
theorem BearerChallenge.survives {input : Str} {auth : BearerChallenge}
    (read : BearerChallenge.parse input = some (.ok auth)) :
    BearerChallenge.parse auth.toHeaderValue = some (.ok auth) ∧
      AuthChallenge.parse auth.toHeaderValue = some (.ok (.bearer auth)) := by
  obtain ⟨params, parsed, made⟩ := parseWithParams_parsed read
  cases made
  have starts : StartsDark "Bearer".toList := ⟨'B', _, rfl, rfl⟩
  have dark := formatAuthParams_dark parsed
  have header : BearerChallenge.toHeaderValue { params } =
      "Bearer".toList ++ ' ' :: formatAuthParams params :=
    @header_eq "Bearer ".toList "Bearer".toList rfl _
  -- No parameter is asked for, so reading the list again is all there is to do.
  have again : BearerChallenge.parse (BearerChallenge.toHeaderValue { params }) =
      some (.ok { params }) := by
    rw [header, BearerChallenge.parse, parseWithParams_format starts parsed]
  refine ⟨again, ?_⟩
  rw [header] at again ⊢
  rw [AuthChallenge.parse, parseScheme_bearer dark, header_trimmed starts dark.2, again]
  rfl

/-- No byte of a token of 68 characters belongs to a character past ASCII. -/
theorem isToken68Char_narrow : IsNarrow isToken68Char false :=
  forall_byte (by decide +kernel)

/-- A token of 68 characters starts and ends dark. -/
theorem token68_dark {text : Str} (token : isToken68 text = true) :
    StartsDark text ∧ EndsDark text := by
  unfold isToken68 at token
  split at token
  · cases token
  rename_i filled
  dsimp only at token
  rw [Bool.and_eq_true, encode_all, List.all_eq_true] at token
  have visible : ∀ char, ofKind isToken68Char char = true → isWhitespace char = false := by
    intro char kind
    have ascii : char.toNat < 0x80 := by
      by_contra high
      rw [isToken68Char_narrow.ofKind (by omega)] at kind
      cases kind
    rw [ofKind_ascii _ ascii] at kind
    revert kind
    exact forall_ascii (motive := fun char => isToken68Char (UInt8.ofNat char.toNat) = true →
      isWhitespace char = false) (by decide) ascii
  refine dark_of_all (by simpa using filled) fun char inside => ?_
  have parts : char ∈ text.rdropWhile (fun char => char == '=') ∨
      char ∈ text.rtakeWhile fun char => char == '=' := by
    rwa [← List.mem_append, List.rdropWhile_append_rtakeWhile]
  rcases parts with front | back
  · exact visible char (token.2 char front)
  · -- The padding is visible, too.
    have pad := List.mem_rtakeWhile_imp back
    rw [beq_iff_eq] at pad
    rw [pad]
    decide

/-- Credentials of the Bearer scheme are parsed again, alone and among all schemes. -/
theorem BearerToken.survives {input : Str} {auth : BearerToken}
    (read : BearerToken.parse input = .ok auth) :
    BearerToken.parse auth.toHeaderValue = .ok auth ∧
      Authorization.parse auth.toHeaderValue = some (.ok (.bearer auth)) := by
  have token : isToken68 auth.token = true := by
    -- A token is only taken as one in token68 form, whatever stands around it.
    unfold BearerToken.parse at read
    dsimp only at read
    split at read
    · cases read
    split at read
    · cases read
    split at read
    · cases read
    split at read
    · cases read
    · rename_i token
      cases read
      simpa using token
  have starts : StartsDark "Bearer".toList := ⟨'B', _, rfl, rfl⟩
  have dark := token68_dark token
  have header : auth.toHeaderValue = "Bearer".toList ++ ' ' :: auth.token :=
    @header_eq "Bearer ".toList "Bearer".toList rfl _
  -- The six bytes in front of the space are the name of the scheme.
  have scheme : BearerToken.isBearerScheme ("Bearer".toList ++ ' ' :: auth.token) = true := by
    have split := splitAtByte_append "Bearer".toList (' ' :: auth.token)
    rw [show byteLength "Bearer".toList = 6 from rfl] at split
    rw [BearerToken.isBearerScheme, split]
    rfl
  have again : BearerToken.parse auth.toHeaderValue = .ok auth := by
    simp only [header, BearerToken.parse, header_trimmed starts dark.2, (starts.append _).isEmpty,
      scheme, stripScheme_header starts dark.1, Option.getD_some, dark.1.isEmpty, token,
      Bool.not_true, Bool.false_eq_true, if_false]
  refine ⟨again, ?_⟩
  rw [header] at again ⊢
  rw [Authorization.parse, parseScheme_bearer dark, header_trimmed starts dark.2, again]
  rfl

namespace WwwAuthenticate

/-- A challenge whose charset, if it has one, is the only one that is allowed. -/
def IsAllowed (auth : WwwAuthenticate) : Prop :=
  ∀ charset, auth.charset = some charset →
    eqIgnoreAsciiCase charset "UTF-8".toList = true ∧ IsQuotable charset

/-- The parameters of a challenge, as they are written and as they are read. -/
def written (auth : WwwAuthenticate) : List (Str × Str × Str) :=
  (quotedParam "realm".toList auth.realm, "realm".toList, spaceControls auth.realm) ::
    (auth.charset.toList.map fun charset =>
      (quotedParam "charset".toList charset, "charset".toList, spaceControls charset))

/-- All of the parameters are in the grammar. -/
theorem written_params (auth : WwwAuthenticate) :
    ∀ param ∈ auth.written, IsAuthParam param.1 param.2.1 param.2.2 := by
  intro param inside
  rcases List.mem_cons.mp inside with rfl | other
  · exact quotedParam_written (by decide) auth.realm
  · obtain ⟨charset, _, rfl⟩ := List.mem_map.mp other
    exact quotedParam_written (by decide) charset

/-- What is written starts and ends dark. -/
theorem written_dark (auth : WwwAuthenticate) :
    StartsDark (", ".toList.intercalate (auth.written.map Prod.fst)) ∧
      EndsDark (", ".toList.intercalate (auth.written.map Prod.fst)) := by
  refine join_dark (by simp [written]) fun text inside => ?_
  obtain ⟨param, member, rfl⟩ := List.mem_map.mp inside
  exact (auth.written_params param member).dark

/-- The header of a challenge is its scheme and its parameters. -/
theorem toHeaderValue_eq (auth : WwwAuthenticate) : auth.toHeaderValue =
    "Basic".toList ++ ' ' :: ", ".toList.intercalate (auth.written.map Prod.fst) := by
  obtain ⟨realm, charset⟩ := auth
  -- Both texts in quotes are split where a parameter starts, as the list is joined.
  have front : "Basic realm=\"".toList =
      "Basic".toList ++ ' ' :: ("realm".toList ++ "=\"".toList) := by decide
  have next : ", charset=\"".toList =
      ", ".toList ++ ("charset".toList ++ "=\"".toList) := by decide
  unfold toHeaderValue written quotedParam
  rw [front, next]
  generalize "Basic".toList = scheme
  generalize "realm".toList = realmName
  generalize "charset".toList = charsetName
  generalize ", ".toList = comma
  generalize "=\"".toList = opening
  generalize "\"".toList = quote
  cases charset with
  | none => simp
  | some charset => simp

/-- A challenge is read back as it is written, with spaces for the control characters in its
realm. -/
theorem parse_toHeaderValue {auth : WwwAuthenticate} (allowed : auth.IsAllowed) :
    parse auth.toHeaderValue = some (.ok { auth with realm := spaceControls auth.realm }) := by
  have starts : StartsDark "Basic".toList := ⟨'B', _, rfl, rfl⟩
  have filled : auth.written ≠ [] := by simp [written]
  have list := isParamList_join filled auth.written_params
  have read : parseAuthParams (", ".toList.intercalate (auth.written.map Prod.fst)) =
      some (.ok (auth.written.map Prod.snd)) := by
    have kept : lowered (auth.written.map Prod.snd) = auth.written.map Prod.snd := by
      obtain ⟨realm, charset⟩ := auth
      cases charset <;> rfl
    have together : Together (lowered (auth.written.map Prod.snd)) := by
      rw [kept]
      obtain ⟨realm, charset⟩ := auth
      cases charset with
      | none => exact ⟨by simp [written], by simp [written]⟩
      | some charset => exact ⟨by simp [written], by simp [written]⟩
    have parsed := parseAuthParams_of list (by simp [written, lowered]) together
    rwa [kept] at parsed
  rw [toHeaderValue_eq, parse, parseWithParams_header starts auth.written_dark read]
  obtain ⟨realm, charset⟩ := auth
  cases charset with
  | none => rfl
  | some charset =>
    obtain ⟨same, quotable⟩ := allowed charset rfl
    -- The charset is checked again, and it is the one that was checked before.
    have realmRead : readParam (none, none) ("realm".toList, spaceControls realm) =
        .ok (some (spaceControls realm), none) := rfl
    have charsetRead : readParam (some (spaceControls realm), none) ("charset".toList, charset) =
        .ok (some (spaceControls realm), some charset) := by
      rw [readParam, if_neg (by decide), if_pos rfl, same]
      rfl
    simp only [ofParams, written, Option.toList_some, List.map_cons, List.map_nil,
      quotable.spaceControls, List.foldlM_cons, List.foldlM_nil, realmRead, charsetRead, bind,
      Except.bind, pure, Except.pure]

/-- What was read of parameters so far may stand between quotes. -/
def IsRead (state : Option Str × Option Str) : Prop :=
  (∀ realm, state.1 = some realm → IsQuotable realm) ∧
    ∀ charset, state.2 = some charset →
      eqIgnoreAsciiCase charset "UTF-8".toList = true ∧ IsQuotable charset

/-- One more parameter keeps what was read so. -/
theorem readParam_isRead {state next : Option Str × Option Str} {param : Str × Str}
    (before : IsRead state) (stored : IsStored param)
    (read : readParam state param = .ok next) : IsRead next := by
  obtain ⟨realm, charset⟩ := state
  obtain ⟨key, value⟩ := param
  rw [readParam] at read
  -- Only the realm and the charset are kept, and the charset only as UTF-8.
  by_cases isRealm : key = "realm".toList
  · rw [if_pos isRealm, Except.ok.injEq] at read
    subst read
    refine ⟨fun _ same => ?_, before.2⟩
    cases same
    exact stored.quotable
  rw [if_neg isRealm] at read
  by_cases isCharset : key = "charset".toList
  · rw [if_pos isCharset] at read
    by_cases other : (!eqIgnoreAsciiCase value "UTF-8".toList) = true
    · rw [if_pos other] at read
      cases read
    · rw [if_neg other, Except.ok.injEq] at read
      subst read
      refine ⟨before.1, fun _ same => ?_⟩
      cases same
      exact ⟨by simpa using other, stored.quotable⟩
  · rw [if_neg isCharset, Except.ok.injEq] at read
    subst read
    exact before

/-- All parameters keep what was read so. -/
theorem foldlM_isRead {params : AuthParams} {state last : Option Str × Option Str}
    (before : IsRead state) (stored : ∀ param ∈ params, IsStored param)
    (read : params.foldlM readParam state = .ok last) : IsRead last := by
  -- The fold stops at the first parameter refused, so all before it were read.
  induction params generalizing state with
  | nil =>
    cases read
    exact before
  | cons param rest ih =>
    obtain ⟨one, others⟩ := List.forall_mem_cons.mp stored
    rw [List.foldlM_cons] at read
    cases step : readParam state param with
    | error error =>
      rw [step] at read
      cases read
    | ok next =>
      rw [step] at read
      exact ih (readParam_isRead before one step) others read

/-- A challenge of the Basic scheme is parsed again, alone and among all schemes. -/
theorem survives {input : Str} {auth : WwwAuthenticate} (read : parse input = some (.ok auth)) :
    parse auth.toHeaderValue = some (.ok auth) ∧
      AuthChallenge.parse auth.toHeaderValue = some (.ok (.basic auth)) := by
  obtain ⟨params, parsed, made⟩ := parseWithParams_parsed read
  unfold ofParams at made
  split at made
  · cases made
  · cases made
  rename_i realm charset folded
  cases made
  -- Before the first parameter neither of the two is known.
  have start : IsRead (none, none) :=
    ⟨fun _ same => (by cases same), fun _ same => (by cases same)⟩
  obtain ⟨plain, allowed⟩ := foldlM_isRead start parsed.stored folded
  have again := @parse_toHeaderValue { realm, charset } allowed
  simp only [(plain realm rfl).spaceControls] at again
  refine ⟨again, ?_⟩
  have starts : StartsDark "Basic".toList := ⟨'B', _, rfl, rfl⟩
  have dark := written_dark { realm, charset }
  rw [toHeaderValue_eq] at again ⊢
  rw [AuthChallenge.parse, parseScheme_basic dark, header_trimmed starts dark.2, again]
  rfl

end WwwAuthenticate

/-- Headers of all schemes that were parsed are parsed again when they are written, alone and
among all schemes, and a realm is read back with spaces for its control characters. -/
theorem headers_survive :
    (∀ input auth, DigestAuth.parse input = some (.ok auth) →
      DigestAuth.parse auth.toHeaderValue = some (.ok auth) ∧
        Authorization.parse auth.toHeaderValue = some (.ok (.digest auth))) ∧
    (∀ input auth, DigestChallenge.parse input = some (.ok auth) →
      DigestChallenge.parse auth.toHeaderValue = some (.ok auth) ∧
        AuthChallenge.parse auth.toHeaderValue = some (.ok (.digest auth))) ∧
    (∀ input auth, BearerChallenge.parse input = some (.ok auth) →
      BearerChallenge.parse auth.toHeaderValue = some (.ok auth) ∧
        AuthChallenge.parse auth.toHeaderValue = some (.ok (.bearer auth))) ∧
    (∀ input auth, BearerToken.parse input = .ok auth →
      BearerToken.parse auth.toHeaderValue = .ok auth ∧
        Authorization.parse auth.toHeaderValue = some (.ok (.bearer auth))) ∧
    (∀ input auth, WwwAuthenticate.parse input = some (.ok auth) →
      WwwAuthenticate.parse auth.toHeaderValue = some (.ok auth) ∧
        AuthChallenge.parse auth.toHeaderValue = some (.ok (.basic auth))) ∧
    ∀ realm, WwwAuthenticate.parse (WwwAuthenticate.basic realm).toHeaderValue =
      some (.ok { realm := spaceControls realm, charset := none }) := by
  refine ⟨fun _ _ => DigestAuth.survives, fun _ _ => DigestChallenge.survives,
    fun _ _ => BearerChallenge.survives, fun _ _ => BearerToken.survives,
    fun _ _ => WwwAuthenticate.survives, fun realm => ?_⟩
  -- Without a charset there is nothing that could be refused.
  exact WwwAuthenticate.parse_toHeaderValue fun _ same => by cases same

/-- A challenge with quotes, an escaped character and a comma in its realm. -/
theorem headers_survive_quoted :
    let auth : DigestChallenge :=
      ⟨[("realm".toList, "a\"b, c".toList), ("nonce".toList, "n=".toList)]⟩
    auth.toHeaderValue = "Digest realm=\"a\\\"b, c\", nonce=\"n=\"".toList ∧
      DigestChallenge.parse auth.toHeaderValue = some (.ok auth) ∧
      AuthChallenge.parse auth.toHeaderValue = some (.ok (.digest auth)) := by
  intro auth
  -- The input differs from what is written in case, escapes, commas and spaces.
  have parsed : DigestChallenge.parse
      "dIgest Realm=\"\\a\\\"b, c\" ,, nonce = \"n=\" ,".toList = some (.ok auth) := by
    decide +kernel
  exact ⟨by decide, headers_survive.2.1 _ _ parsed⟩

end Http11

import Http11.Proofs.Accept

/-! The media ranges of a header are found again, unless a weight is lost in an open quote. -/

namespace Http11

namespace Accept

/-- Delimiters leave the scanner in its first state. -/
theorem quoting_still {delimiter : Char} (delimits : IsListDelimiter delimiter) (item : Char)
    (found : (quoting delimiter).isDelimiter item = true) :
    (quoting delimiter).step (quoting delimiter).start item = (quoting delimiter).start := by
  have same : item = delimiter := by simpa [quoting] using found
  rw [same]
  exact quoting_plain false delimits.quote delimits.escape

/-- A media range as it comes out of a text that ends inside of quotes or outside of them. -/
structure IsStoredRange (inQuotes : Bool) (item : MediaRange) : Prop where
  /-- The type. -/
  mediaType : IsStoredType item.mediaType
  /-- The subtype. -/
  subtype : IsStoredType item.subtype
  /-- All types have all subtypes. -/
  stars : item.mediaType = ['*'] → item.subtype = ['*']
  /-- The parameters. -/
  parameters : ∀ param ∈ item.parameters, IsStoredParam param
  /-- Only the last parameter may be open. -/
  leaves : Leaves inQuotes item.parameters

/-- Elements are read as media ranges that may be stored. -/
theorem parseMediaRangeItem_stored {input : Str} {item : MediaRange}
    (whole : (quoting ',').IsWhole (false, false) input)
    (parsed : parseMediaRangeItem input = .ok item) :
    IsStoredRange (endsInQuotes input) item := by
  obtain ⟨front, last, cut, closed, ending, run⟩ :=
    Cutting.cut_ends (quoting_still isListDelimiter_semicolon) input
  have commas : ∀ part ∈ (quoting ';').cut input, (quoting ',').IsWhole (false, false) part :=
    Cutting.cut_whole (quoting ',') (quoting_still isListDelimiter_semicolon) rfl rfl whole
  have ends : endsInQuotes last = endsInQuotes input := congrArg Prod.fst run
  rw [cut] at commas
  obtain ⟨frontCommas, lastCommas⟩ := List.forall_mem_append.mp commas
  have lastWhole : IsWholeText last := ⟨lastCommas last (by simp), ending⟩
  have frontClosed : ∀ part ∈ front, IsClosedText part := fun part inside =>
    ⟨⟨frontCommas part inside, (closed part inside).1⟩, congrArg Prod.fst (closed part inside).2⟩
  unfold parseMediaRangeItem at parsed
  dsimp only at parsed
  rw [splitWithQuotes_eq isListDelimiter_semicolon, cut] at parsed
  split at parsed
  · cases parsed
  rename_i mediaType subtype range
  obtain ⟨typed, subtyped, stars, plain⟩ := parseMediaRange_ok range
  cases folded : (front ++ [last]).tail.foldlM parseParam ([], none) with
  | error error => simp [folded, Except.map] at parsed
  | ok result =>
    simp only [folded, Except.map, Except.ok.injEq] at parsed
    subst parsed
    rw [← ends]
    cases front with
    | nil =>
      -- Without parameters the media range is all there is, and it has no quotes in it.
      cases folded
      have outside : endsInQuotes last = false := by
        obtain ⟨before, after, opening, closing, _, same⟩ := Trimming.trim_spec isWhitespace last
        rw [endsInQuotes, (framed_scanned isListDelimiter_comma opening closing same).2]
        exact congrArg Prod.fst (quoting_run false plain)
      rw [outside]
      exact ⟨typed, subtyped, stars, List.forall_mem_nil _, .closed (List.forall_mem_nil _)⟩
    | cons media others =>
      obtain ⟨stored, leaves⟩ := parseParams_leaves (List.forall_mem_nil _) (List.forall_mem_nil _)
        (List.forall_mem_cons.mp frontClosed).2 lastWhole folded
      exact ⟨typed, subtyped, stars, stored, leaves⟩

/-- The media range in front of the parameters. -/
def mediaText (item : MediaRange) : Str := item.mediaType ++ '/' :: item.subtype

/-- The weight of a media range as it is written, if it is. -/
def weightTexts (item : MediaRange) : List Str :=
  if item.q.value < 1000 then [['q', '='] ++ item.q.display] else []

/-- The parts in which a media range is written. -/
def texts (item : MediaRange) : List Str :=
  mediaText item :: (item.parameters.map paramText ++ weightTexts item)

/-- A media range is written as a list of its parts. -/
theorem display_eq (item : MediaRange) : item.display = [';', ' '].intercalate (texts item) := by
  -- Every parameter has a semicolon and a space in front, however its value is written.
  have shown : ∀ param, MediaRange.displayParam param = ';' :: ' ' :: paramText param := by
    intro param
    rw [MediaRange.displayParam, paramText, formatValue]
    split <;> simp
  rw [texts, intercalate_cons_flatMap, MediaRange.display, mediaText, weightTexts, funext shown]
  split <;> simp [List.flatMap_map]

/-- The media range in front is closed. -/
theorem mediaText_closed {inQuotes : Bool} {item : MediaRange} (stored : IsStoredRange inQuotes item) :
    IsClosedText (mediaText item) ∧ mediaText item ≠ [] ∧
      Trimming.IsTrimmed isWhitespace (mediaText item) := by
  have token : ∀ text : Str, isToken text = true →
      ∀ char ∈ text, char ≠ '"' ∧ char ≠ '\\' ∧ char ≠ ',' ∧ char ≠ ';' := by
    intro text valid char inside
    -- Each of these characters is none of a token.
    have differs : ∀ other, isTchar other = false → char ≠ other :=
      fun other refused same => not_mem_token valid refused (same ▸ inside)
    exact ⟨differs _ (by decide), differs _ (by decide),
      differs _ (by decide), differs _ (by decide)⟩
  obtain ⟨filled, trimmed⟩ := isToken_trimmed stored.subtype.token
  refine ⟨isClosedText_of_plain ?_, by simp [mediaText],
    (isToken_trimmed stored.mediaType.token).2.behind (by decide) filled trimmed⟩
  exact List.forall_mem_append.mpr ⟨token _ stored.mediaType.token,
    List.forall_mem_cons.mpr ⟨by decide, token _ stored.subtype.token⟩⟩

/-- The weight is closed. -/
theorem weightText_closed (q : QValue) : IsClosedText (['q', '='] ++ q.display) ∧
    Trimming.IsTrimmed isOws (['q', '='] ++ q.display) := by
  have token := q.parse_display.2
  obtain ⟨filled, trimmed⟩ := isToken_trimmed token
  refine ⟨isClosedText_of_plain (List.forall_mem_append.mpr ⟨by decide, ?_⟩), ?_⟩
  · -- The weight is made of characters of tokens.
    intro char inside
    have differs : ∀ other, isTchar other = false → char ≠ other :=
      fun other refused same => not_mem_token token refused (same ▸ inside)
    exact ⟨differs _ (by decide), differs _ (by decide),
      differs _ (by decide), differs _ (by decide)⟩
  · have name : Trimming.IsTrimmed isOws ['q'] := Trimming.isTrimmed_of_none (by decide)
    exact name.behind (by decide) filled (trimmed.mono fun _ => isWhitespace_of_ows)

/-- A parameter is written without spaces and tabs around it. -/
theorem paramText_trimmed {param : Str × Str} (stored : IsStoredParam param) :
    paramText param ≠ [] ∧ Trimming.IsTrimmed isOws (paramText param) := by
  obtain ⟨filled, trimmed⟩ := (formatValue_written stored.quotable).trimmed
  exact ⟨by simp [paramText],
    stored.trimmed.behind (by decide) filled (trimmed.mono fun _ => isWhitespace_of_ows)⟩

/-- A written parameter is read behind a space. -/
theorem parseParam_text {param : Str × Str} (stored : IsStoredParam param)
    (params : List (Str × Str)) (weight : Option QValue) :
    parseParam (params, weight) (' ' :: paramText param) = .ok (params ++ [param], weight) := by
  have whole : trimOws (' ' :: paramText param) = param.1 ++ '=' :: formatValue param.2 :=
    (paramText_trimmed stored).2.trim_cons (by decide)
  have name : trimOws param.1 = param.1 := stored.trimmed.trim_eq
  rw [parseParam, whole]
  dsimp only
  -- The first equals sign is the one behind the name.
  rw [if_neg (by simp), splitOnce_append stored.signless]
  dsimp only
  rw [parseParamValue_written (formatValue_written stored.quotable)]
  dsimp only
  rw [name, stored.lower, if_neg stored.other]

/-- All written parameters are read. -/
theorem parseParams_texts {params : List (Str × Str)} (stored : ∀ param ∈ params, IsStoredParam param)
    (before : List (Str × Str)) :
    (params.map fun param => ' ' :: paramText param).foldlM parseParam (before, none) =
      .ok (before ++ params, none) := by
  induction params generalizing before with
  | nil =>
    rw [List.append_nil]
    rfl
  -- Each parameter is put behind those that were read before.
  | cons param others ih =>
    obtain ⟨here, behind⟩ := List.forall_mem_cons.mp stored
    refine foldlM_cons_ok.mpr ⟨_, parseParam_text here before none, ?_⟩
    rw [ih behind, List.append_assoc]
    rfl

/-- A written weight is read behind a space. -/
theorem parseParam_weight (q : QValue) (params : List (Str × Str)) :
    parseParam (params, none) (' ' :: (['q', '='] ++ q.display)) = .ok (params, some q) := by
  obtain ⟨read, token⟩ := q.parse_display
  have whole : trimOws (' ' :: (['q', '='] ++ q.display)) = ['q'] ++ '=' :: q.display :=
    (weightText_closed q).2.trim_cons (by decide)
  rw [parseParam, whole]
  dsimp only
  rw [if_neg (by simp), splitOnce_append (by decide)]
  dsimp only
  -- The name tells a weight from a parameter, and no weight was read before it.
  rw [parseParamValue_written (.token token)]
  dsimp only
  rw [if_pos (by decide), if_neg (by simp), read]
  rfl

/-- A written media range is read. -/
theorem parseMediaRange_text {inQuotes : Bool} {item : MediaRange}
    (stored : IsStoredRange inQuotes item) :
    parseMediaRange (mediaText item) = .ok (item.mediaType, item.subtype) := by
  obtain ⟨_, filled, dark⟩ := mediaText_closed stored
  have same : trimOws (mediaText item) = item.mediaType ++ '/' :: item.subtype :=
    (dark.mono fun _ => isWhitespace_of_ows).trim_eq
  have first : trimOws item.mediaType = item.mediaType :=
    ((isToken_trimmed stored.mediaType.token).2.mono fun _ => isWhitespace_of_ows).trim_eq
  have second : trimOws item.subtype = item.subtype :=
    ((isToken_trimmed stored.subtype.token).2.mono fun _ => isWhitespace_of_ows).trim_eq
  have slash : '/' ∉ item.mediaType := not_mem_token stored.mediaType.token (by decide)
  rw [parseMediaRange, same]
  dsimp only
  by_cases stars : item.mediaType ++ '/' :: item.subtype = "*/*".toList
  · -- Two stars are taken as a whole.
    have split := splitOnce_append slash item.subtype
    rw [stars] at split
    have parts : splitOnce '/' "*/*".toList = some (['*'], ['*']) := by decide
    rw [parts, Option.some.injEq, Prod.mk.injEq] at split
    rw [if_pos stars, ← split.1, ← split.2]
  · rw [if_neg stars, splitOnce_append slash]
    dsimp only
    rw [first, second]
    by_cases all : item.mediaType = ['*']
    · rw [if_pos all, if_neg (by simp [stored.stars all]), all, stored.stars all]
    · rw [if_neg all]
      by_cases any : item.subtype = ['*']
      · rw [if_pos any, if_neg (by simp [isValidToken, stored.mediaType.token]),
          stored.mediaType.lower, any]
      · rw [if_neg any, if_neg (by simp [isValidToken, stored.mediaType.token, stored.subtype.token]),
          stored.mediaType.lower, stored.subtype.lower]

/-- A media range is read again where its parts are found again. -/
theorem parseMediaRangeItem_display {inQuotes : Bool} {item : MediaRange}
    (stored : IsStoredRange inQuotes item) (parts : (quoting ';').AreParts (texts item)) :
    parseMediaRangeItem item.display = .ok item := by
  obtain ⟨_, filled, dark⟩ := mediaText_closed stored
  have media : trim (mediaText item) = mediaText item := dark.trim_eq
  have weight : ((weightTexts item).map (' ' :: ·)).foldlM parseParam (item.parameters, none) =
      .ok (item.parameters, if item.q.value < 1000 then some item.q else none) := by
    rw [weightTexts]
    split
    · exact foldlM_cons_ok.mpr ⟨_, parseParam_weight item.q item.parameters, rfl⟩
    · rfl
  have params := parseParams_texts stored.parameters []
  have fold : ((item.parameters.map paramText ++ weightTexts item).map (' ' :: ·)).foldlM parseParam
      ([], none) = .ok (item.parameters, if item.q.value < 1000 then some item.q else none) := by
    rw [List.map_append, List.map_map, List.foldlM_append]
    change ((item.parameters.map fun param => ' ' :: paramText param).foldlM parseParam
      ([], none) >>= _) = _
    rw [params, List.nil_append]
    exact weight
  rw [parseMediaRangeItem, display_eq, splitWithQuotes_join isListDelimiter_semicolon parts, texts,
    Cutting.padded]
  dsimp only [List.headD_cons, List.tail_cons]
  rw [media, parseMediaRange_text stored]
  dsimp only
  rw [fold]
  -- A weight that is not written is one.
  have shown : (if item.q.value < 1000 then some item.q else none).getD .default = item.q := by
    split
    · rfl
    · rename_i full
      exact (QValue.eq_default full).symm
  rw [Except.map]
  dsimp only
  rw [shown]

/-- Closed texts behind semicolons and spaces are closed for commas. -/
theorem behind_closed {texts : List Str} (closed : ∀ text ∈ texts, IsClosedText text) :
    (quoting ',').IsClosed (texts.flatMap ([';', ' '] ++ ·)) := by
  induction texts with
  | nil => exact ⟨trivial, rfl⟩
  | cons text others ih =>
    obtain ⟨here, behind⟩ := List.forall_mem_cons.mp closed
    -- The separator itself leaves the scanner where it was.
    have separator : (quoting ',').IsClosed [';', ' '] := (isNeutral_of_plain (by decide)).closed
    rw [List.flatMap_cons]
    exact (separator.append here.closed.1).append (ih behind)

/-- The texts of closed parameters are closed. -/
theorem paramTexts_closed {params : List (Str × Str)}
    (closed : ∀ param ∈ params, IsClosedText (paramText param)) :
    ∀ text ∈ params.map paramText, IsClosedText text := List.forall_mem_map.mpr closed

/-- The weight is closed where it is written. -/
theorem weightTexts_closed (item : MediaRange) : ∀ text ∈ weightTexts item, IsClosedText text := by
  rw [weightTexts]
  split
  · exact List.forall_mem_singleton.mpr (weightText_closed item.q).1
  · exact List.forall_mem_nil _

/-- A weight behind an open parameter has no comma, no quote and no backslash in it. -/
theorem weightBehind_plain (item : MediaRange) :
    ∀ char ∈ (weightTexts item).flatMap ([';', ' '] ++ ·), char ≠ '"' ∧ char ≠ '\\' ∧ char ≠ ',' := by
  rw [weightTexts]
  -- A weight of one is not written at all.
  split
  · rw [List.flatMap_singleton]
    refine List.forall_mem_append.mpr ⟨by decide, List.forall_mem_append.mpr ⟨by decide, ?_⟩⟩
    intro char inside
    have differs : ∀ other, isTchar other = false → char ≠ other :=
      fun other refused same => not_mem_token item.q.parse_display.2 refused (same ▸ inside)
    exact ⟨differs _ (by decide), differs _ (by decide), differs _ (by decide)⟩
  · exact List.forall_mem_nil _

/-- Behind an open parameter the scanner is inside of quotes, and not behind a backslash. -/
theorem run_of_inside {param : Str × Str} (quotable : IsQuotable param.2)
    (inside : endsInQuotes (paramText param) = true) (delimiter : Char) :
    (quoting delimiter).run (false, false) (paramText param) = (true, false) := by
  have same : (quoting ',').run (false, false) (paramText param) =
      (quoting delimiter).run (false, false) (paramText param) := rfl
  rw [endsInQuotes] at inside
  rw [← same]
  -- The value is like one between quotes, wherever its name ends.
  rw [paramText, Cutting.run_append] at inside ⊢
  generalize (quoting ',').run (false, false) param.1 = state at inside ⊢
  obtain ⟨inQuote, escaped⟩ := state
  have value : (quoting ',').run (inQuote, escaped) ('=' :: formatValue param.2) =
      (quoting ',').run (inQuote, false) (formatValue param.2) := by
    rw [Cutting.run, List.foldl_cons, quoting_sign]
    rfl
  obtain ⟨after, run, _⟩ := (formatValue_written quotable).alike isListDelimiter_comma inQuote
  rw [value, run] at inside ⊢
  rw [show after = true from inside]

/-- A media range is written without a comma to cut at, and closed if none of its quotes is open. -/
theorem display_scanned {inQuotes : Bool} {item : MediaRange} (stored : IsStoredRange inQuotes item) :
    (quoting ',').IsWhole (false, false) item.display ∧
      (inQuotes = false → (quoting ',').IsClosed item.display) := by
  have media := (mediaText_closed stored).1.closed.1
  obtain ⟨mediaType, subtype, parameters, q⟩ := item
  rw [display_eq, texts, intercalate_cons_flatMap, List.flatMap_append]
  have leaves : Leaves inQuotes parameters := stored.leaves
  cases leaves with
  | closed all =>
    have closed := media.append ((behind_closed (paramTexts_closed all)).append
      (behind_closed (weightTexts_closed ⟨mediaType, subtype, parameters, q⟩)))
    exact ⟨closed.1, fun _ => closed⟩
  | @opened params param all whole inside =>
    refine ⟨?_, fun outside => by cases outside⟩
    have front := media.append (behind_closed (paramTexts_closed all))
    have plain := weightBehind_plain ⟨mediaType, subtype, params ++ [param], q⟩
    have separator : (quoting ',').IsClosed [';', ' '] := (isNeutral_of_plain (by decide)).closed
    -- Whatever the last parameter leaves open, the weight behind it is whole.
    have last := isNeutral_of_plain plain true
    have ends := run_of_inside (stored.parameters param (by simp)).quotable inside ','
    dsimp only
    rw [List.map_append, List.map_singleton, List.flatMap_append, List.flatMap_singleton,
      List.append_assoc, ← List.append_assoc, Cutting.isWhole_append]
    refine ⟨front.1, Eq.mpr (congrArg (fun state => (quoting ',').IsWhole state _) front.2) ?_⟩
    rw [Cutting.isWhole_append, Cutting.isWhole_append]
    refine ⟨⟨separator.1, ?_⟩, ?_⟩
    · refine Eq.mpr (congrArg (fun state => (quoting ',').IsWhole state _) separator.2) ?_
      exact whole.commas
    · rw [Cutting.run_append, separator.2]
      change (quoting ',').IsWhole ((quoting ',').run (false, false) (paramText param)) _
      rw [ends]
      exact last.2

/-- The parts of a media range are found again, unless its weight stands behind an open quote. -/
theorem texts_areParts {inQuotes : Bool} {item : MediaRange} (stored : IsStoredRange inQuotes item)
    (kept : inQuotes = false ∨ ¬ item.q.value < 1000) : (quoting ';').AreParts (texts item) := by
  have media := (mediaText_closed stored).1.closed.2
  obtain ⟨mediaType, subtype, parameters, q⟩ := item
  have leaves : Leaves inQuotes parameters := stored.leaves
  rw [texts]
  cases leaves with
  | closed all =>
    refine Cutting.areParts_of_closed (List.cons_ne_nil _ _) (List.forall_mem_cons.mpr ⟨media, ?_⟩)
    refine List.forall_mem_append.mpr ⟨fun text inside => ?_, fun text inside => ?_⟩
    · exact (paramTexts_closed all text inside).closed.2
    · exact (weightTexts_closed _ text inside).closed.2
  | @opened params param all whole inside =>
    have full := kept.resolve_left (by simp)
    have none : weightTexts ⟨mediaType, subtype, params ++ [param], q⟩ = [] := if_neg full
    -- The open parameter is the last part.
    rw [none, List.append_nil]
    dsimp only
    rw [List.map_append, ← List.cons_append]
    refine Cutting.areParts_append (List.forall_mem_cons.mpr ⟨media, fun text inside => ?_⟩)
      (.last whole.semicolons)
    exact (paramTexts_closed all text inside).closed.2

/-- A written parameter is refused with something behind its value. -/
theorem parseParam_behind {param : Str × Str} (stored : IsStoredParam param) {more : Str}
    (ends : Trimming.IsTrimmed isOws (';' :: more)) {params : List (Str × Str)}
    {weight : Option QValue} {next : List (Str × Str) × Option QValue} :
    parseParam (params, weight) (' ' :: (paramText param ++ ';' :: more)) ≠ .ok next := by
  intro parsed
  obtain ⟨filled, dark⟩ := paramText_trimmed stored
  have framed := Trimming.isTrimmed_append [] filled (List.cons_ne_nil _ _) dark ends
  have whole : trimOws (' ' :: (paramText param ++ ';' :: more)) =
      param.1 ++ '=' :: (formatValue param.2 ++ ';' :: more) := by
    have trimmed := framed.trim_cons (by decide : isOws ' ' = true)
    rw [List.nil_append] at trimmed
    rw [trimOws]
    refine trimmed.trans ?_
    rw [paramText, List.append_assoc]
    rfl
  -- The part is not blank, so it would have to be a parameter with a value.
  rcases parseParam_cases parsed with ⟨blank, _⟩ | ⟨front, back, value, split, read, _⟩
  · rw [whole] at blank
    simp at blank
  · rw [whole, splitOnce_append stored.signless, Option.some.injEq, Prod.mk.injEq] at split
    rw [← split.2] at read
    exact parseParamValue_behind (formatValue_written stored.quotable) ends value read

/-- A weight behind an open quote is taken for a part of the value in front of it. -/
theorem parseMediaRangeItem_lost {item : MediaRange} (stored : IsStoredRange true item)
    (low : item.q.value < 1000) (result : MediaRange) :
    parseMediaRangeItem item.display ≠ .ok result := by
  intro parsed
  have media := (mediaText_closed stored).1.closed.2
  obtain ⟨mediaType, subtype, parameters, q⟩ := item
  have leaves : Leaves true parameters := stored.leaves
  cases leaves with
  | @opened params param all whole inside =>
    have here : IsStoredParam param := stored.parameters param (by simp)
    have weight : weightTexts ⟨mediaType, subtype, params ++ [param], q⟩ =
        [['q', '='] ++ q.display] := if_pos low
    have plain := weightBehind_plain ⟨mediaType, subtype, params ++ [param], q⟩
    rw [weight, List.flatMap_singleton] at plain
    -- The last parameter and the weight are one part.
    generalize tail_eq : [';', ' '] ++ (['q', '='] ++ q.display) = tail at plain
    have shown : MediaRange.display ⟨mediaType, subtype, params ++ [param], q⟩ =
        [';', ' '].intercalate (mediaText ⟨mediaType, subtype, params ++ [param], q⟩ ::
          (params.map paramText ++ [paramText param ++ tail])) := by
      rw [display_eq, texts, intercalate_cons_flatMap, intercalate_cons_flatMap, weight, ← tail_eq]
      simp
    have parts : (quoting ';').AreParts (mediaText ⟨mediaType, subtype, params ++ [param], q⟩ ::
        (params.map paramText ++ [paramText param ++ tail])) := by
      rw [← List.cons_append]
      refine Cutting.areParts_append (List.forall_mem_cons.mpr ⟨media, fun text inside => ?_⟩)
        (.last ?_)
      · exact (paramTexts_closed all text inside).closed.2
      · change (quoting ';').IsWhole (false, false) _
        rw [Cutting.isWhole_append, run_of_inside here.quotable inside]
        exact ⟨whole.semicolons, quoting_inside fun char member =>
          ⟨(plain char member).1, (plain char member).2.1⟩⟩
    rw [parseMediaRangeItem, shown, splitWithQuotes_join isListDelimiter_semicolon parts,
      Cutting.padded] at parsed
    dsimp only [List.headD_cons, List.tail_cons] at parsed
    split at parsed
    · cases parsed
    rw [List.map_append, List.map_singleton] at parsed
    cases folded : List.foldlM parseParam ([], none)
        ((params.map paramText).map (' ' :: ·) ++ [' ' :: (paramText param ++ tail)]) with
    | error error =>
      rw [folded] at parsed
      cases parsed
    | ok read =>
      obtain ⟨⟨before, seen⟩, next, one⟩ := foldlM_mem_ok folded
        (' ' :: (paramText param ++ tail)) (by simp)
      rw [← tail_eq] at one
      have ends : Trimming.IsTrimmed isOws ([';'] ++ ([' '] ++ (['q', '='] ++ q.display))) :=
        Trimming.isTrimmed_append _ (List.cons_ne_nil _ _) (by simp)
          (Trimming.isTrimmed_of_none (by decide)) (weightText_closed q).2
      exact parseParam_behind here ends one

/-- Whether a part of an element is a weight below one. -/
def isLowWeight (part : Str) : Bool :=
  match splitOnce '=' (trimOws part) with
  | none => false
  | some (front, back) => toAsciiLowercase (trimOws front) == ['q'] &&
    match parseParamValue back with
    | .error _ => false
    | .ok value => match QValue.parse value with
      | .error _ => false
      | .ok q => decide (q.value < 1000)

/-- Whether a header ends inside of quotes in an element with a weight below one. -/
def losesWeight (input : Str) : Bool :=
  let input := trimOws input
  let element := trimOws ((splitWithQuotes input ',').getLastD [])
  endsInQuotes input && (splitWithQuotes element ';').tail.any isLowWeight

/-- The weight is below one behind a part if it was before, or if the part is such a weight. -/
theorem parseParam_low {params : List (Str × Str)} {weight : Option QValue} {part : Str}
    {next : List (Str × Str) × Option QValue} (parsed : parseParam (params, weight) part = .ok next) :
    (next.2.getD .default).value < 1000 ↔
      (weight.getD .default).value < 1000 ∨ isLowWeight part = true := by
  have one : ¬ QValue.default.value < 1000 := Nat.lt_irrefl 1000
  -- A blank part says nothing about the weight, and any other part is read.
  rcases parseParam_cases parsed with ⟨blank, rfl⟩ | ⟨front, back, value, split, read, said⟩
  · have none : isLowWeight part = false := by
      rw [isLowWeight, blank]
      rfl
    simp [none]
  · -- Only the parameter with the name of the weight sets it.
    rcases said with ⟨named, rfl, q, weighed, rfl⟩ | ⟨other, rfl⟩
    · simp [isLowWeight, split, read, weighed, named, one]
    · simp [isLowWeight, split, other]

/-- The weight of a media range is below one exactly if one of its parts is such a weight. -/
theorem parseParams_low {parts : List Str} {params : List (Str × Str)} {weight : Option QValue}
    {result : List (Str × Str) × Option QValue}
    (parsed : parts.foldlM parseParam (params, weight) = .ok result) :
    (result.2.getD .default).value < 1000 ↔
      (weight.getD .default).value < 1000 ∨ parts.any isLowWeight = true := by
  induction parts generalizing params weight with
  | nil =>
    cases parsed
    simp
  | cons part others ih =>
    -- The first part sets the weight that the others start from.
    obtain ⟨⟨params, weight⟩, one, behind⟩ := foldlM_cons_ok.mp parsed
    rw [ih behind, parseParam_low one, List.any_cons, Bool.or_eq_true, or_assoc]

/-- The weight of an element is below one exactly if one of its parts is such a weight. -/
theorem parseMediaRangeItem_low {input : Str} {item : MediaRange}
    (parsed : parseMediaRangeItem input = .ok item) :
    item.q.value < 1000 ↔ (splitWithQuotes input ';').tail.any isLowWeight = true := by
  unfold parseMediaRangeItem at parsed
  dsimp only at parsed
  split at parsed
  · cases parsed
  cases folded : (splitWithQuotes input ';').tail.foldlM parseParam ([], none) with
  | error error => simp [folded, Except.map] at parsed
  | ok result =>
    simp only [folded, Except.map, Except.ok.injEq] at parsed
    subst parsed
    -- Without a weight it is one, which is not below one.
    have one : ¬ QValue.default.value < 1000 := Nat.lt_irrefl 1000
    have low := parseParams_low folded
    rw [Option.getD_none] at low
    simpa [one] using low

/-- The media ranges of a header that may end inside of quotes. -/
inductive IsStoredList : Bool → List MediaRange → Prop where
  /-- Outside of quotes. -/
  | closed {items : List MediaRange} (all : ∀ item ∈ items, IsStoredRange false item) :
    IsStoredList false items
  /-- Inside of quotes. -/
  | opened {items : List MediaRange} {item : MediaRange}
    (all : ∀ item ∈ items, IsStoredRange false item) (last : IsStoredRange true item) :
    IsStoredList true (items ++ [item])

/-- The elements of a header are stored media ranges, and the last part is the last of them if the
header ends inside of quotes. -/
theorem parse_stored {input : Str} {accept : Accept} (parsed : parse input = .ok accept) :
    IsStoredList (endsInQuotes (trimOws input)) accept.items ∧
      (endsInQuotes (trimOws input) = true → ∃ items item, accept.items = items ++ [item] ∧
        parseMediaRangeItem (trimOws ((splitWithQuotes (trimOws input) ',').getLastD [])) =
          .ok item) := by
  unfold parse at parsed
  dsimp only at parsed
  generalize trimOws input = text at parsed ⊢
  split at parsed
  · rename_i empty
    cases parsed
    rw [List.isEmpty_iff.mp empty]
    exact ⟨.closed (List.forall_mem_nil _), fun inside => by cases inside⟩
  obtain ⟨front, last, cut, closed, whole, run⟩ :=
    Cutting.cut_ends (quoting_still isListDelimiter_comma) text
  have ends : endsInQuotes last = endsInQuotes text := congrArg Prod.fst run
  -- Trimming a part neither cuts it nor changes where it ends.
  have trimmed : ∀ part, (quoting ',').IsWhole (false, false) part →
      (quoting ',').IsWhole (false, false) (trimOws part) ∧
        endsInQuotes (trimOws part) = endsInQuotes part := by
    intro part whole
    obtain ⟨before, after, opening, closing, _, same⟩ := trimOws_spec part
    have scanned := framed_scanned isListDelimiter_comma
      (fun char inside => isWhitespace_of_ows (opening char inside))
      (fun char inside => isWhitespace_of_ows (closing char inside)) same
    exact ⟨scanned.1 whole, scanned.2.symm⟩
  rw [splitWithQuotes_eq isListDelimiter_comma, cut] at parsed ⊢
  cases elements : parseElements trimOws parseMediaRangeItem (front ++ [last]) with
  | error error => simp [elements] at parsed
  | ok items =>
    simp only [elements, Except.ok.injEq] at parsed
    subst parsed
    dsimp only
    have pairs := parseElements_iff.mp elements
    rw [List.map_append, List.filter_append] at pairs
    obtain ⟨left, right, rfl, others, final⟩ := forall₂_append_left pairs
    have outer : ∀ item ∈ left, IsStoredRange false item := by
      intro item inside
      obtain ⟨part, member, read⟩ := mem_of_forall₂ others item inside
      obtain ⟨raw, found, rfl⟩ := List.mem_map.mp (List.mem_of_mem_filter member)
      obtain ⟨kept, ended⟩ := trimmed raw (closed raw found).1
      have stored := parseMediaRangeItem_stored kept read
      have outside : endsInQuotes raw = false := congrArg Prod.fst (closed raw found).2
      rwa [ended, outside] at stored
    have lastKept := trimmed last whole
    rw [← ends, ← lastKept.2, List.getLastD_concat]
    by_cases blank : trimOws last = []
    · -- The last part is empty, so that nothing is open.
      rw [List.map_singleton, blank] at final
      cases final
      rw [blank, List.append_nil]
      exact ⟨.closed outer, fun inside => by cases inside⟩
    · have single : ([last].map trimOws).filter (fun part => !part.isEmpty) = [trimOws last] := by
        simp [blank]
      rw [single] at final
      cases final with
      | @cons _ item _ _ read none =>
        cases none
        have stored := parseMediaRangeItem_stored lastKept.1 read
        refine ⟨?_, fun _ => ⟨left, item, rfl, read⟩⟩
        cases inside : endsInQuotes (trimOws last) with
        | false =>
          rw [inside] at stored
          exact .closed (List.forall_mem_append.mpr ⟨outer, List.forall_mem_singleton.mpr stored⟩)
        | true =>
          rw [inside] at stored
          exact .opened outer stored

/-- A media range is written without spaces and tabs around it. -/
theorem display_trimmed {inQuotes : Bool} {item : MediaRange} (stored : IsStoredRange inQuotes item) :
    item.display ≠ [] ∧ Trimming.IsTrimmed isOws item.display := by
  obtain ⟨_, filled, dark⟩ := mediaText_closed stored
  have each : ∀ text ∈ texts item, text ≠ [] ∧ Trimming.IsTrimmed isOws text := by
    refine List.forall_mem_cons.mpr ⟨⟨filled, dark.mono fun _ => isWhitespace_of_ows⟩,
      List.forall_mem_append.mpr ⟨List.forall_mem_map.mpr fun param inside =>
        paramText_trimmed (stored.parameters param inside), ?_⟩⟩
    rw [weightTexts]
    -- A weight of one is not written at all.
    split
    · exact List.forall_mem_singleton.mpr ⟨by simp, (weightText_closed item.q).2⟩
    · exact List.forall_mem_nil _
  obtain ⟨trimmed, present⟩ := Trimming.isTrimmed_intercalate [';', ' '] each
  rw [display_eq]
  exact ⟨present (List.cons_ne_nil _ _), trimmed⟩

/-- The media ranges of a header are written as its parts, with nothing to trim. -/
theorem IsStoredList.parts {inQuotes : Bool} {items : List MediaRange}
    (stored : IsStoredList inQuotes items) :
    (items.map MediaRange.display = [] ∨ (quoting ',').AreParts (items.map MediaRange.display)) ∧
      ∀ text ∈ items.map MediaRange.display, text ≠ [] ∧ Trimming.IsTrimmed isOws text := by
  cases stored with
  | closed all =>
    refine ⟨?_, List.forall_mem_map.mpr fun item inside => display_trimmed (all item inside)⟩
    -- Without media ranges nothing is written.
    rcases (items.map MediaRange.display).eq_nil_or_concat' with none | ⟨_, _, some⟩
    · exact .inl none
    · exact .inr (Cutting.areParts_of_closed (by simp [some])
        (List.forall_mem_map.mpr fun item inside => (display_scanned (all item inside)).2 rfl))
  | opened all last =>
    rw [List.map_append, List.map_singleton]
    -- Only the last media range may leave a quote open.
    refine ⟨.inr (Cutting.areParts_append (List.forall_mem_map.mpr fun item inside =>
      (display_scanned (all item inside)).2 rfl) (.last (display_scanned last).1)), ?_⟩
    exact List.forall_mem_append.mpr ⟨List.forall_mem_map.mpr fun item inside =>
      display_trimmed (all item inside), List.forall_mem_singleton.mpr (display_trimmed last)⟩

/-- A header is parsed again exactly if its media ranges are. -/
theorem parse_display_iff {inQuotes : Bool} {items : List MediaRange}
    (stored : IsStoredList inQuotes items) :
    parse (display ⟨items⟩) = .ok ⟨items⟩ ↔
      ∀ item ∈ items, parseMediaRangeItem item.display = .ok item := by
  obtain ⟨parts, each⟩ := stored.parts
  obtain ⟨trimmed, present⟩ := Trimming.isTrimmed_intercalate [',', ' '] each
  have same : trimOws (display ⟨items⟩) = display ⟨items⟩ := trimmed.trim_eq
  have texts : ∀ text ∈ items.map MediaRange.display,
      trimOws text = text ∧ trimOws (' ' :: text) = text := fun text inside =>
    ⟨(each text inside).2.trim_eq, (each text inside).2.trim_cons (by decide)⟩
  have elements : parseElements trimOws parseMediaRangeItem
      (splitWithQuotes ([',', ' '].intercalate (items.map MediaRange.display)) ',') = .ok items ↔ _ :=
    parseElements_join isListDelimiter_comma rfl parts (fun text inside => (each text inside).1) texts
  rw [List.forall₂_map_left_iff, List.forall₂_same] at elements
  rw [← elements, parse, same]
  by_cases empty : items = []
  · -- The empty list is written as nothing.
    subst empty
    exact iff_of_true rfl rfl
  · have filled : (display ⟨items⟩).isEmpty = false :=
      List.isEmpty_eq_false_iff.mpr (present (by simpa using empty))
    rw [filled, if_neg Bool.false_ne_true]
    change _ ↔ parseElements trimOws parseMediaRangeItem (splitWithQuotes (display ⟨items⟩) ',') = _
    cases parseElements trimOws parseMediaRangeItem (splitWithQuotes (display ⟨items⟩) ',') with
    | error error => simp
    | ok found => simp

/-- Media ranges are parsed again from their header exactly if no weight is lost in an open quote. -/
theorem accept_survives {input : Str} {accept : Accept} (parsed : parse input = .ok accept) :
    parse accept.display = .ok accept ↔ losesWeight input = false := by
  obtain ⟨stored, found⟩ := parse_stored parsed
  obtain ⟨items⟩ := accept
  rw [parse_display_iff stored, losesWeight]
  dsimp only
  generalize endsInQuotes (trimOws input) = inQuotes at stored found
  cases stored with
  | closed all =>
    refine iff_of_true (fun item inside => ?_) rfl
    exact parseMediaRangeItem_display (all item inside) (texts_areParts (all item inside) (.inl rfl))
  | @opened items item all last =>
    -- The last media range is that of the last part.
    obtain ⟨others, final, same, read⟩ := found rfl
    have both := List.append_inj' same rfl
    rw [List.singleton_inj] at both
    rw [← both.2] at read
    have low := parseMediaRangeItem_low read
    rw [Bool.true_and, ← Bool.not_eq_true, ← low]
    constructor
    · intro again weight
      exact parseMediaRangeItem_lost last weight item (again item (by simp))
    · intro full
      refine List.forall_mem_append.mpr ⟨fun other inside => ?_, List.forall_mem_singleton.mpr ?_⟩
      · exact parseMediaRangeItem_display (all other inside)
          (texts_areParts (all other inside) (.inl rfl))
      · exact parseMediaRangeItem_display last (texts_areParts last (.inr full))

/-- A quote in a name does not matter in front of the weight of another element. -/
theorem accept_survives_quoted :
    parse (display ⟨[⟨['t'], ['*'], [], ⟨500, by decide⟩⟩, ⟨['a'], ['b'], [(['c', '"'], ['d'])],
      .default⟩]⟩) = .ok ⟨[⟨['t'], ['*'], [], ⟨500, by decide⟩⟩,
      ⟨['a'], ['b'], [(['c', '"'], ['d'])], .default⟩]⟩ :=
  (accept_survives (show parse "T/*; q=0.5, a/b;C\"=d".toList = _ by decide)).mpr (by decide)

/-- A weight is lost in front of a name with a quote in it. -/
theorem weight_lost : ¬ ∀ input accept, parse input = .ok accept →
    parse accept.display = .ok accept := by
  intro survives
  have parsed : parse "text/html;q=0.5;a\"b=c".toList = .ok ⟨[⟨"text".toList, "html".toList,
      [(['a', '"', 'b'], ['c'])], ⟨500, by decide⟩⟩]⟩ := by decide
  exact absurd (survives _ _ parsed) (by decide)

end Accept

end Http11

import Mathlib.Tactic.FinCases
import Http11.Accept
import Http11.Proofs.Quoting

/-! What is found in the elements of a list of media ranges, and what of it is found again. -/

namespace Http11

/-- Weights are read as they are written, and they are written as tokens. -/
theorem QValue.parse_display (q : QValue) : parse q.display = .ok q ∧ isToken q.display = true := by
  -- The weights are checked by hundreds.
  have checked : ∀ hundreds : Fin 11, ∀ rest : Fin 100,
      ∀ atMost : hundreds.val * 100 + rest.val ≤ 1000,
        parse (display ⟨hundreds.val * 100 + rest.val, atMost⟩) =
            .ok ⟨hundreds.val * 100 + rest.val, atMost⟩ ∧
          isToken (display ⟨hundreds.val * 100 + rest.val, atMost⟩) = true := by
    intro hundreds
    fin_cases hundreds <;> decide +kernel
  obtain ⟨value, atMost⟩ := q
  have split : value = value / 100 * 100 + value % 100 := by omega
  have found := checked ⟨value / 100, by omega⟩ ⟨value % 100, by omega⟩
    (show value / 100 * 100 + value % 100 ≤ 1000 by omega)
  simpa only [← split] using found

example : QValue.display ⟨250, by decide⟩ = "0.25".toList := by decide +kernel

/-- A weight that is not below one is one. -/
theorem QValue.eq_default {q : QValue} (full : ¬ q.value < 1000) : q = default := by
  obtain ⟨value, atMost⟩ := q
  have same : value = 1000 := Nat.le_antisymm atMost (Nat.le_of_not_lt full)
  subst same
  rfl

/-- A text without quotes and backslashes does not change sides. -/
theorem quoting_run {delimiter : Char} {text : Str} (inQuote : Bool)
    (plain : ∀ char ∈ text, char ≠ '"' ∧ char ≠ '\\') :
    (quoting delimiter).run (inQuote, false) text = (inQuote, false) := by
  induction text with
  | nil => rfl
  | cons char rest ih =>
    obtain ⟨⟨quote, escape⟩, more⟩ := List.forall_mem_cons.mp plain
    rw [Cutting.run, List.foldl_cons, quoting_plain inQuote quote escape]
    exact ih more

/-- Inside of quotes a text without quotes and backslashes is whole. -/
theorem quoting_inside {delimiter : Char} {text : Str}
    (plain : ∀ char ∈ text, char ≠ '"' ∧ char ≠ '\\') :
    (quoting delimiter).IsWhole (true, false) text := by
  induction text with
  | nil => exact trivial
  | cons char rest ih =>
    obtain ⟨⟨quote, escape⟩, more⟩ := List.forall_mem_cons.mp plain
    rw [Cutting.IsWhole, quoting_plain true quote escape, quoting_cuts]
    exact ⟨rfl, ih more⟩

/-- The scanner is behind a backslash inside of quotes only. -/
theorem quoting_outside {delimiter : Char} (text : Str) {state : Bool × Bool}
    (holds : state.1 = false → state.2 = false) :
    ((quoting delimiter).run state text).1 = false →
      ((quoting delimiter).run state text).2 = false := by
  induction text generalizing state with
  | nil => exact holds
  | cons char rest ih =>
    refine ih ?_
    obtain ⟨inQuote, escaped⟩ := state
    -- Behind a backslash the scanner is in quotes, and only quotes can be left with one pending.
    cases escaped with
    | true => exact fun _ => rfl
    | false =>
      by_cases quote : char = '"'
      · rw [quote, quoting_quote]
        exact fun _ => rfl
      · by_cases escape : char = '\\'
        · rw [escape, quoting_escape]
          exact id
        · rw [quoting_plain inQuote quote escape]
          exact holds

/-- White space around a text does not matter to where the scanner ends. -/
theorem framed_scanned {delimiter : Char} (delimits : IsListDelimiter delimiter)
    {before text after part : Str} (front : ∀ char ∈ before, isWhitespace char = true)
    (back : ∀ char ∈ after, isWhitespace char = true) (same : part = before ++ (text ++ after)) :
    ((quoting delimiter).IsWhole (false, false) part →
        (quoting delimiter).IsWhole (false, false) text) ∧
      ((quoting delimiter).run (false, false) part).1 =
        ((quoting delimiter).run (false, false) text).1 := by
  -- The white space in front does not move the scanner at all.
  have start := isNeutral_of_white delimits front false
  rw [same, Cutting.isWhole_append, Cutting.run_append, start.1, Cutting.isWhole_append,
    Cutting.run_append]
  refine ⟨fun whole => whole.2.1, ?_⟩
  generalize (quoting delimiter).run (false, false) text = state
  obtain ⟨inQuote, escaped⟩ := state
  -- The white space behind it may only use up a backslash.
  rcases (quoting_white delimits back inQuote escaped).2 with same | used
  · rw [same]
  · rw [used]

/-- Whether the scanner of lists ends a text inside of quotes. -/
def endsInQuotes (text : Str) : Bool := ((quoting ',').run (false, false) text).1

/-- A text that neither commas nor semicolons cut. -/
structure IsWholeText (text : Str) : Prop where
  /-- No comma in it stands outside of quotes. -/
  commas : (quoting ',').IsWhole (false, false) text
  /-- No semicolon in it stands outside of quotes. -/
  semicolons : (quoting ';').IsWhole (false, false) text

/-- A whole text behind which the scanner is outside of quotes. -/
structure IsClosedText (text : Str) : Prop extends IsWholeText text where
  /-- The scanner is outside of quotes. -/
  outside : endsInQuotes text = false

/-- Behind a text that ends outside of quotes the scanner is in its first state. -/
theorem run_of_outside {text : Str} (outside : endsInQuotes text = false) (delimiter : Char) :
    (quoting delimiter).run (false, false) text = (false, false) :=
  Prod.ext outside (quoting_outside text (fun _ => rfl) outside)

/-- A closed text is closed for both delimiters. -/
theorem IsClosedText.closed {text : Str} (closed : IsClosedText text) :
    (quoting ',').IsClosed text ∧ (quoting ';').IsClosed text :=
  ⟨⟨closed.commas, run_of_outside closed.outside ','⟩,
    ⟨closed.semicolons, run_of_outside closed.outside ';'⟩⟩

/-- Characters without a meaning in lists are closed. -/
theorem isClosedText_of_plain {text : Str}
    (plain : ∀ char ∈ text, char ≠ '"' ∧ char ≠ '\\' ∧ char ≠ ',' ∧ char ≠ ';') :
    IsClosedText text where
  commas := (isNeutral_of_plain (fun char inside =>
    ⟨(plain char inside).1, (plain char inside).2.1, (plain char inside).2.2.1⟩) false).2
  semicolons := (isNeutral_of_plain (fun char inside =>
    ⟨(plain char inside).1, (plain char inside).2.1, (plain char inside).2.2.2⟩) false).2
  outside := by
    rw [endsInQuotes, quoting_run false fun char inside =>
      ⟨(plain char inside).1, (plain char inside).2.1⟩]

namespace Accept

/-- A parameter as it is written. -/
def paramText (param : Str × Str) : Str := param.1 ++ '=' :: formatValue param.2

/-- A parameter as it is stored. -/
structure IsStoredParam (param : Str × Str) : Prop where
  /-- The name is in lower case. -/
  lower : toAsciiLowercase param.1 = param.1
  /-- There are no spaces and tabs around the name. -/
  trimmed : Trimming.IsTrimmed isOws param.1
  /-- There is no equals sign in the name. -/
  signless : '=' ∉ param.1
  /-- The name is not that of the weight. -/
  other : param.1 ≠ ['q']
  /-- The value has no control characters. -/
  quotable : IsQuotable param.2

/-- A value is a written one with spaces and tabs around it. -/
theorem parseParamValue_ok {input value : Str} (parsed : parseParamValue input = .ok value) :
    ∃ shown before after, (∀ char ∈ before, isOws char = true) ∧
      (∀ char ∈ after, isOws char = true) ∧ IsParamValue shown value ∧
      input = before ++ (shown ++ after) := by
  obtain ⟨before, after, front, back, _, same⟩ := trimOws_spec input
  unfold parseParamValue at parsed
  dsimp only at parsed
  generalize trimOws input = text at parsed same
  split at parsed
  · rename_i rest opening
    cases read : Validate.parseQuotedString rest with
    | error error => simp [read] at parsed
    | ok pair =>
      obtain ⟨found, remaining⟩ := pair
      rw [read] at parsed
      dsimp only at parsed
      split at parsed
      · cases parsed
      rename_i blank
      cases parsed
      obtain ⟨inner, quoted, rfl⟩ := Validate.parseQuotedString_iff.mp read
      -- Behind the closing quote there are only spaces and tabs.
      obtain ⟨left, right, ows, more, _, remains⟩ := trimOws_spec remaining
      rw [Bool.not_eq_true, Bool.not_eq_false', List.isEmpty_iff] at blank
      rw [blank, List.nil_append] at remains
      have whole : text = '"' :: (inner ++ '"' :: remaining) := by
        unfold stripPrefix at opening
        split at opening
        · rename_i starts
          obtain ⟨behind, rfl⟩ := List.isPrefixOf_iff_prefix.mp starts
          simpa using opening
        · cases opening
      refine ⟨'"' :: (inner ++ ['"']), before, left ++ (right ++ after), front, ?_, .quoted quoted, ?_⟩
      · exact List.forall_mem_append.mpr ⟨ows, List.forall_mem_append.mpr ⟨more, back⟩⟩
      · rw [same, whole, remains]
        simp
  · split at parsed
    · cases parsed
    · rename_i token
      cases parsed
      exact ⟨_, before, after, front, back, .token (by simpa [isValidToken] using token), same⟩

/-- A written value is parsed. -/
theorem parseParamValue_written {shown value : Str} (written : IsParamValue shown value) :
    parseParamValue shown = .ok value := by
  obtain ⟨filled, trimmed⟩ := written.trimmed
  have same : trimOws shown = shown :=
    (trimmed.mono fun _ => isWhitespace_of_ows).trim_eq
  unfold parseParamValue
  rw [same]
  dsimp only
  cases written with
  | token token =>
    -- A token does not begin with a quote.
    obtain ⟨_, tchars⟩ := (isToken_iff _).mp token
    obtain ⟨char, others, rfl⟩ := List.exists_cons_of_ne_nil filled
    have plain := (isTchar_plain (tchars char List.mem_cons_self)).2.2.2.2
    have none : stripPrefix ['"'] (char :: others) = none := by
      simp [stripPrefix, plain.symm]
    rw [none]
    simp [isValidToken, token]
  | @quoted text _ quoted =>
    have found : stripPrefix ['"'] ('"' :: (text ++ ['"'])) = some (text ++ ['"']) := by
      simp [stripPrefix]
    have read : Validate.parseQuotedString (text ++ ['"']) = .ok (value, []) :=
      Validate.parseQuotedString_iff.mpr ⟨text, quoted, rfl⟩
    rw [found]
    dsimp only
    rw [read]
    rfl

/-- Nothing may stand behind a written value. -/
theorem parseParamValue_behind {shown value : Str} (written : IsParamValue shown value)
    {more : Str} (ends : Trimming.IsTrimmed isOws (';' :: more)) (result : Str) :
    parseParamValue (shown ++ ';' :: more) ≠ .ok result := by
  obtain ⟨filled, trimmed⟩ := written.trimmed
  have dark := trimmed.mono fun _ => isWhitespace_of_ows
  have whole : trimOws (shown ++ ';' :: more) = shown ++ ';' :: more := by
    have framed := Trimming.isTrimmed_append [] filled (List.cons_ne_nil _ _) dark ends
    rw [List.nil_append] at framed
    exact framed.trim_eq
  have behind : trimOws (';' :: more) = ';' :: more := ends.trim_eq
  unfold parseParamValue
  rw [whole]
  dsimp only
  cases written with
  | token token =>
    obtain ⟨_, tchars⟩ := (isToken_iff _).mp token
    obtain ⟨char, others, rfl⟩ := List.exists_cons_of_ne_nil filled
    have plain := (isTchar_plain (tchars char List.mem_cons_self)).2.2.2.2
    have none : stripPrefix ['"'] (char :: others ++ ';' :: more) = none := by
      simp [stripPrefix, plain.symm]
    -- No token has a semicolon in it.
    have refused : ¬ isToken (char :: others ++ ';' :: more) = true := fun valid =>
      not_mem_token valid (by decide : isTchar ';' = false) (by simp)
    rw [none]
    dsimp only
    rw [if_pos (by simpa [isValidToken] using refused)]
    exact fun same => by cases same
  | @quoted text _ quoted =>
    have found : stripPrefix ['"'] ('"' :: (text ++ ['"']) ++ ';' :: more) =
        some (text ++ '"' :: ';' :: more) := by
      simp [stripPrefix]
    have read : Validate.parseQuotedString (text ++ '"' :: ';' :: more) = .ok (value, ';' :: more) :=
      Validate.parseQuotedString_iff.mpr ⟨text, quoted, rfl⟩
    rw [found]
    dsimp only
    rw [read]
    dsimp only
    rw [behind]
    exact fun same => by cases same

/-- What one part says: nothing, the weight, or one more parameter. -/
theorem parseParam_cases {params : List (Str × Str)} {weight : Option QValue} {part : Str}
    {next : List (Str × Str) × Option QValue}
    (parsed : parseParam (params, weight) part = .ok next) :
    (trimOws part = [] ∧ next = (params, weight)) ∨
      ∃ front back value, splitOnce '=' (trimOws part) = some (front, back) ∧
        parseParamValue back = .ok value ∧
        ((toAsciiLowercase (trimOws front) = ['q'] ∧ weight = none ∧
            ∃ q, QValue.parse value = .ok q ∧ next = (params, some q)) ∨
          (toAsciiLowercase (trimOws front) ≠ ['q'] ∧
            next = (params ++ [(toAsciiLowercase (trimOws front), value)], weight))) := by
  unfold parseParam at parsed
  dsimp only at parsed
  split at parsed
  · -- A blank part says nothing.
    rename_i blank
    cases parsed
    exact .inl ⟨by simpa using blank, rfl⟩
  split at parsed
  · cases parsed
  rename_i front back split
  -- Without a value that can be read the part is refused.
  cases read : parseParamValue back with
  | error error => simp [read] at parsed
  | ok value =>
    rw [read] at parsed
    dsimp only at parsed
    refine .inr ⟨front, back, value, split, read, ?_⟩
    by_cases named : toAsciiLowercase (trimOws front) = ['q']
    · rw [if_pos named] at parsed
      -- A second weight is refused.
      cases weight with
      | some seen => cases parsed
      | none =>
        rw [if_neg (by simp)] at parsed
        cases weighed : QValue.parse value with
        | error error => simp [weighed, Except.map] at parsed
        | ok q =>
          simp only [weighed, Except.map, Except.ok.injEq] at parsed
          exact .inl ⟨named, rfl, q, rfl, parsed.symm⟩
    · rw [if_neg named, Except.ok.injEq] at parsed
      exact .inr ⟨named, parsed.symm⟩

/-- A part with an equals sign in it is a name and a value with spaces and tabs around them. -/
theorem isListParam_of_split {part front back value : Str}
    (split : splitOnce '=' (trimOws part) = some (front, back))
    (read : parseParamValue back = .ok value) : IsListParam part (trimOws front) value := by
  obtain ⟨before, after, opening, closing, _, outer⟩ := trimOws_spec part
  obtain ⟨start, left, first, second, _, named⟩ := trimOws_spec front
  obtain ⟨shown, right, last, third, fourth, written, valued⟩ := parseParamValue_ok read
  obtain ⟨whole, _⟩ := splitOnce_some split
  -- The part is trimmed, and so is the name in front of its equals sign.
  have white : ∀ {text : Str}, (∀ char ∈ text, isOws char = true) →
      ∀ char ∈ text, isWhitespace char = true := fun ows char inside =>
    isWhitespace_of_ows (ows char inside)
  refine ⟨before ++ start, left, right, shown, last ++ after,
    List.forall_mem_append.mpr ⟨white opening, white first⟩, white second, white third,
    List.forall_mem_append.mpr ⟨white fourth, white closing⟩, written, ?_⟩
  rw [outer, whole]
  conv_lhs => rw [named, valued]
  simp

/-- What is left of a text in which a list ends: parameters that are closed, but for the last one
if the text ends inside of quotes. -/
inductive Leaves : Bool → List (Str × Str) → Prop where
  /-- Outside of quotes. -/
  | closed {params : List (Str × Str)}
    (all : ∀ param ∈ params, IsClosedText (paramText param)) : Leaves false params
  /-- Inside of quotes. -/
  | opened {params : List (Str × Str)} {param : Str × Str}
    (all : ∀ param ∈ params, IsClosedText (paramText param))
    (whole : IsWholeText (paramText param)) (inside : endsInQuotes (paramText param) = true) :
    Leaves true (params ++ [param])

/-- A parameter that is found in a whole part is written as a whole text that ends as the part. -/
theorem paramText_scanned {part name value : Str} (param : IsListParam part name value)
    (quotable : IsQuotable value) (whole : IsWholeText part) :
    IsWholeText (paramText (toAsciiLowercase name, value)) ∧
      endsInQuotes (paramText (toAsciiLowercase name, value)) = endsInQuotes part := by
  have written := formatValue_written quotable
  obtain ⟨run, commas⟩ := param.scanned isListDelimiter_comma written
  obtain ⟨_, semicolons⟩ := param.scanned isListDelimiter_semicolon written
  exact ⟨⟨commas whole.commas, semicolons whole.semicolons⟩, congrArg Prod.fst run⟩

/-- A weight ends outside of quotes. -/
theorem weight_outside {part name value : Str} (param : IsListParam part name value)
    (quotable : IsQuotable value) (weight : toAsciiLowercase name = ['q']) :
    endsInQuotes part = false := by
  obtain ⟨run, _⟩ := param.scanned isListDelimiter_comma (formatValue_written quotable)
  have closed := (formatValue_written quotable).closed isListDelimiter_comma
  -- The name and the equals sign leave the scanner where it was, and so does the value.
  have front : (quoting ',').IsClosed ['q', '='] := (isNeutral_of_plain (by decide +kernel)).closed
  rw [weight] at run
  have whole : (quoting ',').run (false, false) (['q', '='] ++ formatValue value) = (false, false) :=
    (front.append closed).2
  rw [endsInQuotes, ← run]
  exact congrArg Prod.fst whole

/-- The name of a parameter is stored in lower case. -/
theorem isStoredParam_lowercase {front back value : Str} {text : Str}
    (split : splitOnce '=' text = some (front, back)) (quotable : IsQuotable value)
    (other : toAsciiLowercase (trimOws front) ≠ ['q']) :
    IsStoredParam (toAsciiLowercase (trimOws front), value) where
  lower := toAsciiLowercase_idempotent _
  trimmed := by
    -- Lowering a trimmed name leaves it trimmed.
    obtain ⟨_, _, _, _, trimmed, _⟩ := trimOws_spec front
    exact isTrimmed_lowercase isOws (toLower_same isOws (by decide)) trimmed
  signless := by
    intro inside
    -- An equals sign has no lower case, so it would have been in front of the first one.
    obtain ⟨char, member, same⟩ := List.mem_map.mp inside
    rw [toLower_unlettered same (by decide)] at member
    obtain ⟨before, after, _, _, _, named⟩ := trimOws_spec front
    refine (splitOnce_some split).2 ?_
    rw [named]
    simp [member]
  other := other
  quotable := quotable

/-- One more part of a list leaves the parameters in order. -/
theorem parseParam_leaves {params : List (Str × Str)} {weight : Option QValue} {part : Str}
    {next : List (Str × Str) × Option QValue} (stored : ∀ param ∈ params, IsStoredParam param)
    (closed : ∀ param ∈ params, IsClosedText (paramText param)) (whole : IsWholeText part)
    (parsed : parseParam (params, weight) part = .ok next) :
    (∀ param ∈ next.1, IsStoredParam param) ∧ Leaves (endsInQuotes part) next.1 := by
  rcases parseParam_cases parsed with ⟨blank, rfl⟩ | ⟨front, back, value, split, read, said⟩
  · -- A part of nothing but spaces and tabs ends where it starts.
    obtain ⟨before, after, opening, closing, _, same⟩ := trimOws_spec part
    rw [blank, List.nil_append] at same
    have white : ∀ char ∈ part, isWhitespace char = true := by
      rw [same]
      exact fun char inside => isWhitespace_of_ows
        (List.forall_mem_append.mpr ⟨opening, closing⟩ char inside)
    have outside : endsInQuotes part = false :=
      congrArg Prod.fst (isNeutral_of_white isListDelimiter_comma white false).1
    rw [outside]
    exact ⟨stored, .closed closed⟩
  · have param := isListParam_of_split split read
    have quotable : IsQuotable value := by
      obtain ⟨_, _, _, _, _, written, _⟩ := parseParamValue_ok read
      exact written.quotable
    rcases said with ⟨named, _, q, _, rfl⟩ | ⟨other, rfl⟩
    · rw [weight_outside param quotable named]
      exact ⟨stored, .closed closed⟩
    · obtain ⟨text, ends⟩ := paramText_scanned param quotable whole
      refine ⟨List.forall_mem_append.mpr ⟨stored, List.forall_mem_singleton.mpr
        (isStoredParam_lowercase split quotable other)⟩, ?_⟩
      rw [← ends]
      cases inside : endsInQuotes (paramText (toAsciiLowercase (trimOws front), value)) with
      | false =>
        exact .closed (List.forall_mem_append.mpr ⟨closed, List.forall_mem_singleton.mpr
          ⟨text, inside⟩⟩)
      | true => exact .opened closed text inside

/-- All parts of a list leave the parameters in order, and open only where the last one is open. -/
theorem parseParams_leaves {front : List Str} {last : Str} {params : List (Str × Str)}
    {weight : Option QValue} {result : List (Str × Str) × Option QValue}
    (stored : ∀ param ∈ params, IsStoredParam param)
    (closed : ∀ param ∈ params, IsClosedText (paramText param))
    (closedParts : ∀ part ∈ front, IsClosedText part) (whole : IsWholeText last)
    (parsed : (front ++ [last]).foldlM parseParam (params, weight) = .ok result) :
    (∀ param ∈ result.1, IsStoredParam param) ∧ Leaves (endsInQuotes last) result.1 := by
  -- Every part but the last ends outside of quotes, so all parameters before are closed.
  induction front generalizing params weight with
  | nil =>
    obtain ⟨next, one, none⟩ := foldlM_cons_ok.mp parsed
    cases none
    exact parseParam_leaves stored closed whole one
  | cons part others ih =>
    obtain ⟨⟨params, weight⟩, one, behind⟩ := foldlM_cons_ok.mp parsed
    obtain ⟨here, more⟩ := List.forall_mem_cons.mp closedParts
    obtain ⟨kept, leaves⟩ := parseParam_leaves stored closed here.toIsWholeText one
    rw [here.outside] at leaves
    cases leaves with
    | closed all => exact ih kept all more behind

/-- A type or a subtype as it is stored. -/
structure IsStoredType (text : Str) : Prop where
  /-- It is a token, which a star is as well. -/
  token : isToken text = true
  /-- It is in lower case. -/
  lower : toAsciiLowercase text = text

/-- A token is stored in lower case. -/
theorem isStoredType_lowercase {text : Str} (token : isToken text = true) :
    IsStoredType (toAsciiLowercase text) := ⟨isToken_lowercase token, toAsciiLowercase_idempotent _⟩

/-- A star is stored as it is. -/
theorem isStoredType_star : IsStoredType ['*'] := ⟨by decide, by decide⟩

/-- Only a star is a star in lower case. -/
theorem eq_star_of_lowercase {text : Str} (lowered : toAsciiLowercase text = ['*']) :
    text = ['*'] := by
  obtain ⟨char, others, rfl, same, none⟩ := List.map_eq_cons_iff.mp lowered
  rw [List.map_eq_nil_iff.mp none, toLower_unlettered same (by decide)]

/-- Spaces and tabs are neither quotes nor backslashes. -/
theorem unquoted_of_ows {char : Char} (ows : isOws char = true) : char ≠ '"' ∧ char ≠ '\\' := by
  rw [isOws, Bool.or_eq_true, beq_iff_eq, beq_iff_eq] at ows
  rcases ows with rfl | rfl <;> decide

/-- Neither spaces and tabs nor tokens have a quote or a backslash in them. -/
theorem unquoted_of_trimmed {text : Str} (token : isToken (trimOws text) = true) :
    ∀ char ∈ text, char ≠ '"' ∧ char ≠ '\\' := by
  obtain ⟨before, after, front, back, _, same⟩ := trimOws_spec text
  have differs : ∀ other, isTchar other = false → ∀ char ∈ trimOws text, char ≠ other :=
    fun other refused char inside same => not_mem_token token refused (same ▸ inside)
  intro char inside
  rw [same] at inside
  -- Spaces and tabs around the token are neither quotes nor backslashes.
  rcases List.mem_append.mp inside with opening | behind
  · exact unquoted_of_ows (front char opening)
  · rcases List.mem_append.mp behind with middle | closing
    · exact ⟨differs '"' (by decide) char middle,
        differs '\\' (by decide) char middle⟩
    · exact unquoted_of_ows (back char closing)

/-- A media range is a type and a subtype, without quotes and backslashes around them. -/
theorem parseMediaRange_ok {input mediaType subtype : Str}
    (parsed : parseMediaRange input = .ok (mediaType, subtype)) :
    IsStoredType mediaType ∧ IsStoredType subtype ∧ (mediaType = ['*'] → subtype = ['*']) ∧
      ∀ char ∈ input, char ≠ '"' ∧ char ≠ '\\' := by
  have star : isToken ['*'] = true := by decide
  -- What is around the slash may not have quotes in it, and the slash is none.
  have plain : ∀ front back, splitOnce '/' (trimOws input) = some (front, back) →
      isToken (trimOws front) = true → isToken (trimOws back) = true →
      ∀ char ∈ input, char ≠ '"' ∧ char ≠ '\\' := by
    intro front back split first second char inside
    obtain ⟨before, after, opening, closing, _, same⟩ := trimOws_spec input
    rw [same, (splitOnce_some split).1] at inside
    rcases List.mem_append.mp inside with start | behind
    · exact unquoted_of_ows (opening char start)
    · rcases List.mem_append.mp behind with middle | ending
      · rcases List.mem_append.mp middle with left | right
        · exact unquoted_of_trimmed first char left
        · rcases List.mem_cons.mp right with rfl | right
          · decide
          · exact unquoted_of_trimmed second char right
      · exact unquoted_of_ows (closing char ending)
  unfold parseMediaRange at parsed
  dsimp only at parsed
  split at parsed
  · rename_i stars
    cases parsed
    refine ⟨isStoredType_star, isStoredType_star, fun _ => rfl, ?_⟩
    have split : splitOnce '/' (trimOws input) = some (['*'], ['*']) := by
      rw [stars]
      decide
    exact plain _ _ split star star
  split at parsed
  · cases parsed
  rename_i front back split
  split at parsed
  · rename_i first
    split at parsed
    · cases parsed
    · rename_i second
      rw [ne_eq, not_not] at second
      cases parsed
      exact ⟨isStoredType_star, isStoredType_star, fun _ => rfl,
        plain _ _ split (first ▸ star) (second ▸ star)⟩
  rename_i typed
  split at parsed
  · rename_i second
    split at parsed
    · cases parsed
    · rename_i first
      have token : isToken (trimOws front) = true := by simpa [isValidToken] using first
      cases parsed
      exact ⟨isStoredType_lowercase token, isStoredType_star, fun _ => rfl,
        plain _ _ split token (second ▸ star)⟩
  split at parsed
  · cases parsed
  rename_i tokens
  have both : isToken (trimOws front) = true ∧ isToken (trimOws back) = true := by
    simpa [isValidToken] using tokens
  cases parsed
  refine ⟨isStoredType_lowercase both.1, isStoredType_lowercase both.2, fun lowered => ?_,
    plain _ _ split both.1 both.2⟩
  -- Only a star is a star in lower case.
  exact absurd (eq_star_of_lowercase lowered) typed

end Accept

end Http11

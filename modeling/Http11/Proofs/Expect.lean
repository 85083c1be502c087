import Http11.Expect
import Http11.Proofs.Quoting

/-! Expectations are the same when they are parsed again. -/

namespace Http11

/-- An expectation as it comes out of the parser. -/
structure Expectation.IsStored (item : Expectation) : Prop where
  /-- Its name is a token. -/
  token : isToken item.token = true
  /-- Its name is in lower case. -/
  lower : toAsciiLowercase item.token = item.token
  /-- Its value has no control characters. -/
  quotable : ∀ value, item.value = some value → IsQuotable value

namespace Expect

/-- A value is a written one with white space around it. -/
theorem parseValue_ok {input value : Str} (parsed : parseValue input = .ok value) :
    IsQuotable value := by
  unfold parseValue at parsed
  dsimp only at parsed
  split at parsed
  · cases parsed
  · split at parsed
    · rename_i rest _
      -- A quoted string was read to its end.
      cases read : Validate.parseQuotedString rest with
      | error error => simp [read] at parsed
      | ok pair =>
        obtain ⟨found, remaining⟩ := pair
        obtain ⟨text, quoted, _⟩ := Validate.parseQuotedString_iff.mp read
        rw [read] at parsed
        dsimp only at parsed
        split at parsed
        · cases parsed
        · cases parsed
          exact quoted.quotable
    · -- Anything else has to be a token.
      split at parsed
      · cases parsed
      · rename_i token
        cases parsed
        exact (IsParamValue.token (by simpa [isValidToken] using token)).quotable

/-- A written value is parsed. -/
theorem parseValue_written {shown value : Str} (written : IsParamValue shown value) :
    parseValue shown = .ok value := by
  obtain ⟨filled, trimmed⟩ := written.trimmed
  have same : trim shown = shown := trimmed.trim_eq
  unfold parseValue
  dsimp only
  rw [same, if_neg (by simpa using filled)]
  cases written with
  | token token =>
    -- A token does not begin with a quote.
    obtain ⟨_, tchars⟩ := (isToken_iff _).mp token
    obtain ⟨char, others, rfl⟩ := List.exists_cons_of_ne_nil filled
    have plain := (isTchar_plain (tchars char List.mem_cons_self)).2.2.2.2
    have none : stripPrefix ['"'] (char :: others) = none := by
      simp [stripPrefix, plain.symm]
    rw [none]
    simp [isValidToken, token]
  | @quoted text _ quoted =>
    have found : stripPrefix ['"'] ('"' :: (text ++ ['"'])) = some (text ++ ['"']) := by
      simp [stripPrefix]
    have read : Validate.parseQuotedString (text ++ ['"']) = .ok (value, []) :=
      Validate.parseQuotedString_iff.mpr ⟨text, quoted, rfl⟩
    rw [found]
    dsimp only
    rw [read]
    rfl

/-- The value of an element has no control characters. -/
theorem parseParts_quotable {part token value : Str}
    (parsed : parseParts part = .ok (token, some value)) : IsQuotable value := by
  unfold parseParts at parsed
  split at parsed
  · rename_i after _
    dsimp only at parsed
    -- A value is read only behind a name that is there.
    split at parsed
    · cases parsed
    · cases read : parseValue after with
      | error error => simp [read] at parsed
      | ok found =>
        simp only [read, Except.ok.injEq, Prod.mk.injEq, Option.some.injEq] at parsed
        rw [← parsed.2]
        exact parseValue_ok read
  · cases parsed

/-- Elements are parsed to expectations that may be stored. -/
theorem parseItem_stored {part : Str} {item : Expectation} (parsed : parseItem part = .ok item) :
    item.IsStored := by
  unfold parseItem at parsed
  cases parts : parseParts part with
  | error error => simp [parts] at parsed
  | ok pair =>
    obtain ⟨token, value⟩ := pair
    simp only [parts] at parsed
    split at parsed
    · cases parsed
    · rename_i valid
      cases parsed
      have token : isToken token = true := by simpa [isValidToken] using valid
      -- The name is stored in lower case, the value as it was read.
      refine ⟨isToken_lowercase token, toAsciiLowercase_idempotent _, ?_⟩
      intro found same
      subst same
      exact parseParts_quotable parts

/-- What is printed of a stored expectation is parsed as it. -/
theorem parseItem_display {item : Expectation} (stored : item.IsStored) :
    parseItem item.display = .ok item := by
  obtain ⟨token, value⟩ := item
  have plain : '=' ∉ token := not_mem_token stored.token (by decide)
  have valid : isToken token = true := stored.token
  have lower : toAsciiLowercase token = token := stored.lower
  have parts : parseParts (Expectation.display ⟨token, value⟩) = .ok (token, value) := by
    cases value with
    -- Without a value there is no equals sign to split at.
    | none =>
      rw [Expectation.display, parseParts, splitOnce_none plain]
    -- The first equals sign is the one written, since a token has none.
    | some value =>
      obtain ⟨filled, trimmed⟩ := isToken_trimmed valid
      have same : trim token = token := trimmed.trim_eq
      have quotable := stored.quotable value rfl
      rw [Expectation.display, parseParts, splitOnce_append plain]
      dsimp only
      rw [same, if_neg (by simpa using filled),
        parseValue_written (formatValue_written quotable)]
  rw [parseItem, parts]
  simp [isValidToken, valid, lower]

/-- What is printed of a stored expectation is one part of a list, with nothing to trim. -/
theorem display_part {item : Expectation} (stored : item.IsStored) :
    (quoting ',').IsClosed item.display ∧ item.display ≠ [] ∧
      Trimming.IsTrimmed isWhitespace item.display := by
  obtain ⟨token, value⟩ := item
  have valid : isToken token = true := stored.token
  obtain ⟨filled, trimmed⟩ := isToken_trimmed valid
  have closed : (quoting ',').IsClosed token :=
    (isNeutral_of_tchars isListDelimiter_comma ((isToken_iff _).mp valid).2).closed
  cases value with
  -- A token closes every quoted string, since it opens none.
  | none => exact ⟨closed, filled, trimmed⟩
  | some value =>
    -- Behind the sign the value is a token or one quoted string.
    have written := formatValue_written (stored.quotable value rfl)
    have sign : (quoting ',').IsClosed ['='] :=
      (isNeutral_of_plain (by simp)).closed
    refine ⟨closed.append (sign.append (written.closed isListDelimiter_comma)), ?_,
      isTrimmed_param trimmed written⟩
    simp [Expectation.display]

/-- Headers are parsed to expectations that may be stored. -/
theorem parse_stored {input : Str} {expect : Expect} (parsed : parse input = .ok expect) :
    ∀ item ∈ expect.items, item.IsStored := by
  unfold parse at parsed
  cases read : parseElements trim parseItem (splitWithQuotes (trim input) ',') with
  | error error => simp [read] at parsed
  | ok items =>
    simp only [read, Except.ok.injEq] at parsed
    subst parsed
    exact forall_of_parseElements read fun _ _ => parseItem_stored

/-- The header of stored expectations is parsed as them. -/
theorem parse_display {expect : Expect} (stored : ∀ item ∈ expect.items, item.IsStored) :
    parse expect.display = .ok expect := by
  obtain ⟨items⟩ := expect
  -- Each element is one part of the list, with nothing to trim.
  have parts : ∀ text ∈ items.map Expectation.display, (quoting ',').IsClosed text ∧ text ≠ [] ∧
      Trimming.IsTrimmed isWhitespace text := by
    intro text inside
    obtain ⟨item, member, rfl⟩ := List.mem_map.mp inside
    exact display_part (stored item member)
  have whole := (Trimming.isTrimmed_intercalate [',', ' '] fun text inside => (parts text inside).2).1
  have same : trim (display ⟨items⟩) = display ⟨items⟩ := whole.trim_eq
  -- So the list is split where it was joined.
  have read : parseElements trim parseItem (splitWithQuotes (display ⟨items⟩) ',') = .ok items := by
    refine (parseElements_join isListDelimiter_comma rfl ?_ (fun text inside => (parts text inside).2.1)
      (fun text inside => trimmed_space (parts text inside).2.2)).mpr ?_
    · rcases (items.map Expectation.display).eq_nil_or_concat' with none | ⟨_, _, some⟩
      · exact .inl none
      · exact .inr (Cutting.areParts_of_closed (by simp [some]) fun text inside => (parts text inside).1)
    · exact List.forall₂_map_left_iff.mpr (List.forall₂_same.mpr fun item member =>
        parseItem_display (stored item member))
  rw [parse, same, read]

end Expect

end Http11

import Mathlib.Data.List.Forall2
import Http11.Lib.Cutting
import Http11.Lib.Trimming
import Http11.Proofs.AuthHeaders
import Http11.Proofs.Lowering
import Http11.Quoting

/-! Quoted strings have one value, and lists are cut the same way however their values are written. -/

namespace Http11

namespace Validate

/-- A quoted string is read from some character on exactly as the grammar has it. -/
theorem parseQuotedStringFrom_iff {input result value rest : Str} :
    parseQuotedStringFrom result false input = .ok (value, rest) ↔
      ∃ text more, IsQuoted text more ∧ value = result ++ more ∧ input = text ++ '"' :: rest := by
  constructor
  · intro parsed
    -- The induction is on the length: an escaped character is read together with its backslash.
    induction length : input.length using Nat.strongRecOn generalizing input result with
    | ind size ih =>
      subst length
      cases input with
      | nil => cases parsed
      | cons char behind =>
        rw [parseQuotedStringFrom, if_neg Bool.false_ne_true] at parsed
        by_cases escape : (char == '\\') = true
        · rw [if_pos escape] at parsed
          cases behind with
          | nil => cases parsed
          | cons next behind =>
            rw [parseQuotedStringFrom, if_pos rfl] at parsed
            by_cases refused : (!isQuotedPairChar next) = true
            · rw [if_pos refused] at parsed
              cases parsed
            · rw [if_neg refused] at parsed
              obtain ⟨text, more, quoted, rfl, rfl⟩ :=
                ih _ (by simp only [List.length_cons]; omega) parsed rfl
              refine ⟨'\\' :: next :: text, next :: more, .pair (by simpa using refused) quoted, ?_, ?_⟩
              · simp
              · rw [beq_iff_eq.mp escape]
                rfl
        · rw [if_neg escape] at parsed
          by_cases quote : (char == '"') = true
          · rw [if_pos quote] at parsed
            cases parsed
            exact ⟨[], [], .none, (List.append_nil _).symm, by rw [beq_iff_eq.mp quote]; rfl⟩
          · rw [if_neg quote] at parsed
            by_cases refused : (!isQdtextChar char) = true
            · rw [if_pos refused] at parsed
              cases parsed
            · rw [if_neg refused] at parsed
              obtain ⟨text, more, quoted, rfl, rfl⟩ := ih _ (by simp) parsed rfl
              exact ⟨char :: text, char :: more, .plain (by simpa using refused) quoted, by simp, rfl⟩
  · intro generated
    obtain ⟨text, more, quoted, rfl, rfl⟩ := generated
    -- The reader takes one step for each rule, or two for a character behind a backslash.
    induction quoted generalizing result with
    | none =>
      rw [List.nil_append, parseQuotedStringFrom, if_neg Bool.false_ne_true, if_neg (by decide),
        if_pos (by decide), List.append_nil]
    | @plain char text value plain more ih =>
      have escape : ¬ (char == '\\') = true := by
        intro same
        rw [beq_iff_eq.mp same] at plain
        exact absurd plain (by decide)
      have quote : ¬ (char == '"') = true := by
        intro same
        rw [beq_iff_eq.mp same] at plain
        exact absurd plain (by decide)
      rw [List.cons_append, parseQuotedStringFrom, if_neg Bool.false_ne_true, if_neg escape,
        if_neg quote, if_neg (by simp [plain]), ih]
      simp
    | @pair char text value quotable more ih =>
      rw [List.cons_append, List.cons_append, parseQuotedStringFrom, if_neg Bool.false_ne_true,
        if_pos (by decide), parseQuotedStringFrom, if_pos rfl, if_neg (by simp [quotable]), ih]
      simp

/-- A quoted string is read exactly as the grammar has it. -/
theorem parseQuotedString_iff {input value rest : Str} :
    parseQuotedString input = .ok (value, rest) ↔
      ∃ text, IsQuoted text value ∧ input = text ++ '"' :: rest := by
  rw [parseQuotedString, parseQuotedStringFrom_iff]
  -- The parser starts with an empty value, so what it has read is the whole value.
  constructor
  · intro found
    obtain ⟨text, more, quoted, rfl, same⟩ := found
    exact ⟨text, quoted, same⟩
  · intro found
    obtain ⟨text, quoted, same⟩ := found
    exact ⟨text, value, quoted, rfl, same⟩

end Validate

/-- The scanner of quoted lists: whether it is inside of quotes, and behind a backslash there. -/
def quoting (delimiter : Char) : Cutting (Bool × Bool) Char where
  start := (false, false)
  step := fun (inQuote, escaped) char =>
    if escaped then (inQuote, false)
    else if char == '\\' && inQuote then (inQuote, true)
    else if char == '"' then (!inQuote, false)
    else (inQuote, false)
  isDelimiter := fun char => char == delimiter

/-- A character that may delimit the parts of a list. -/
structure IsListDelimiter (delimiter : Char) : Prop where
  /-- It is no quote. -/
  quote : delimiter ≠ '"'
  /-- It is no backslash. -/
  escape : delimiter ≠ '\\'
  /-- It is no equals sign. -/
  sign : delimiter ≠ '='
  /-- It is no character of tokens. -/
  tchar : isTchar delimiter = false
  /-- It is no white space. -/
  dark : isWhitespace delimiter = false
  /-- It has no lower case. -/
  cased : ∀ char : Char, (char.toLower == delimiter) = (char == delimiter)

/-- Commas delimit. -/
theorem isListDelimiter_comma : IsListDelimiter ',' where
  quote := by decide
  escape := by decide
  sign := by decide
  tchar := by decide
  dark := by decide
  cased := toLower_same (· == ',') (by decide)

/-- Semicolons delimit. -/
theorem isListDelimiter_semicolon : IsListDelimiter ';' where
  quote := by decide
  escape := by decide
  sign := by decide
  tchar := by decide
  dark := by decide
  cased := toLower_same (· == ';') (by decide)

/-- A text without control characters is written as a token or between quotes. -/
theorem formatValue_written {value : Str} (quotable : IsQuotable value) :
    IsParamValue (formatValue value) value := by
  unfold formatValue
  -- What is no token, or empty, is written between quotes.
  by_cases quoting : needsQuoting value = true
  · rw [if_pos quoting]
    have quoted := isQuoted_escape value
    rw [quotable.spaceControls] at quoted
    exact .quoted quoted
  · rw [if_neg quoting]
    refine .token ?_
    rw [needsQuoting, Bool.not_eq_true, Bool.or_eq_false_iff] at quoting
    rw [isToken]
    simpa using quoting

/-- A token is one in lower case. -/
theorem isToken_lowercase {text : Str} (token : isToken text = true) :
    isToken (toAsciiLowercase text) = true := by
  obtain ⟨filled, tchars⟩ := (isToken_iff _).mp token
  refine (isToken_iff _).mpr ⟨by simpa [toAsciiLowercase] using filled, fun char inside => ?_⟩
  obtain ⟨upper, member, rfl⟩ := List.mem_map.mp inside
  exact (isTchar_toLower (tchars upper member)).1

/-- A token has no characters but those of tokens. -/
theorem not_mem_token {token : Str} (valid : isToken token = true) {other : Char}
    (refused : isTchar other = false) : other ∉ token := by
  intro inside
  rw [((isToken_iff _).mp valid).2 other inside] at refused
  cases refused

/-- A token has no white space around it. -/
theorem isToken_trimmed {text : Str} (token : isToken text = true) :
    text ≠ [] ∧ Trimming.IsTrimmed isWhitespace text := by
  obtain ⟨filled, tchars⟩ := (isToken_iff _).mp token
  exact ⟨filled, Trimming.isTrimmed_of_none fun char inside =>
    (isTchar_visible (tchars char inside)).2⟩

/-- A written value has no white space around it. -/
theorem IsParamValue.trimmed {shown value : Str} (written : IsParamValue shown value) :
    shown ≠ [] ∧ Trimming.IsTrimmed isWhitespace shown := by
  cases written with
  | token token => exact isToken_trimmed token
  | @quoted text _ quoted =>
    -- There are quotes at both ends.
    have quote : Trimming.IsTrimmed isWhitespace ['"'] :=
      Trimming.isTrimmed_of_none (by simp; decide)
    exact ⟨List.cons_ne_nil _ _,
      Trimming.isTrimmed_append text (List.cons_ne_nil _ _) (List.cons_ne_nil _ _) quote quote⟩

/-- Digits are neither white space nor commas nor quotes. -/
theorem isDigits_plain {text : Str} (digits : IsDigits text) : text ≠ [] ∧
    Trimming.IsTrimmed isWhitespace text ∧ ',' ∉ text ∧ '"' ∉ text := by
  have all : (Utf8.encode text).all isAsciiDigit = true := by
    rw [all_isDigit, List.all_eq_true]
    exact digits.2
  -- Digits are plain, and none of the separators is a digit.
  have plain := digits_plain all
  simp only [isSeparator, Bool.or_eq_false_iff, beq_eq_false_iff_ne] at plain
  exact ⟨digits.1, Trimming.isTrimmed_of_none fun char inside => (plain char inside).1.1.1,
    fun inside => (plain ',' inside).1.2 rfl, fun inside => absurd (digits.2 '"' inside) (by decide)⟩

/-- Spaces and tabs are white space. -/
theorem isWhitespace_of_ows {char : Char} (ows : isOws char = true) : isWhitespace char = true := by
  rw [isOws, Bool.or_eq_true, beq_iff_eq, beq_iff_eq] at ows
  rcases ows with rfl | rfl <;> decide

/-- Around a text without spaces and tabs at its ends stood spaces and tabs. -/
theorem trimOws_spec (text : Str) : ∃ before after, (∀ char ∈ before, isOws char = true) ∧
    (∀ char ∈ after, isOws char = true) ∧ Trimming.IsTrimmed isOws (trimOws text) ∧
    text = before ++ (trimOws text ++ after) := Trimming.trim_spec isOws text

/-- A space in front is all that is trimmed of a text without white space around it. -/
theorem trimmed_space {text : Str} (trimmed : Trimming.IsTrimmed isWhitespace text) :
    trim text = text ∧ trim (' ' :: text) = text := ⟨trimmed.trim_eq, trimmed.trim_cons (by decide)⟩

/-- A name and what stands behind its equals sign have no white space around them. -/
theorem isTrimmed_signed {name shown : Str} (trimmed : Trimming.IsTrimmed isWhitespace name)
    (filled : shown ≠ []) (ends : Trimming.IsTrimmed isWhitespace shown) :
    Trimming.IsTrimmed isWhitespace (name ++ '=' :: shown) := trimmed.behind (by decide) filled ends

/-- A name and a written value have no white space around them. -/
theorem isTrimmed_param {name shown value : Str} (trimmed : Trimming.IsTrimmed isWhitespace name)
    (written : IsParamValue shown value) :
    Trimming.IsTrimmed isWhitespace (name ++ '=' :: shown) :=
  isTrimmed_signed trimmed written.trimmed.1 written.trimmed.2

section Scanner

variable {delimiter : Char}

/-- The scanner is in its first state outside of quotes. -/
theorem quoting_cuts (inQuote escaped : Bool) (char : Char) :
    (quoting delimiter).cuts (inQuote, escaped) char =
      (!inQuote && !escaped && char == delimiter) := by
  cases inQuote <;> cases escaped <;> rfl

/-- Behind a backslash any character is passed. -/
theorem quoting_escaped (inQuote : Bool) (char : Char) :
    (quoting delimiter).step (inQuote, true) char = (inQuote, false) := rfl

/-- A quote changes sides. -/
theorem quoting_quote (inQuote : Bool) :
    (quoting delimiter).step (inQuote, false) '"' = (!inQuote, false) := by
  cases inQuote <;> rfl

/-- A backslash counts inside of quotes only. -/
theorem quoting_escape (inQuote : Bool) :
    (quoting delimiter).step (inQuote, false) '\\' = (inQuote, inQuote) := by
  cases inQuote <;> rfl

/-- Other characters change nothing. -/
theorem quoting_plain (inQuote : Bool) {char : Char} (quote : char ≠ '"') (escape : char ≠ '\\') :
    (quoting delimiter).step (inQuote, false) char = (inQuote, false) := by
  simp [quoting, quote, escape]

/-- Lists are cut by the scanner of quoted lists. -/
theorem splitWithQuotes_eq (delimits : IsListDelimiter delimiter) (input : Str) :
    splitWithQuotes input delimiter = (quoting delimiter).cut input := by
  -- The generalization is to every state of the scanner.
  have general : ∀ inQuote escaped, splitWithQuotesFrom delimiter inQuote escaped input =
      (quoting delimiter).cutFrom (inQuote, escaped) input := by
    induction input with
    | nil => exact fun _ _ => rfl
    | cons char rest ih =>
      intro inQuote escaped
      rw [splitWithQuotesFrom, Cutting.cutFrom, quoting_cuts]
      simp only [ih]
      cases escaped with
      | true => cases inQuote <;> rfl
      | false =>
        -- The branches of the loop are those of the scanner.
        by_cases quote : char = '"'
        · subst quote
          rw [quoting_quote]
          simp [delimits.quote.symm]
        · by_cases escape : char = '\\'
          · subst escape
            rw [quoting_escape]
            cases inQuote <;> simp [delimits.escape.symm]
          · rw [quoting_plain inQuote quote escape]
            cases inQuote <;> simp [quote, escape, quoting]
  exact general false false

/-- A text behind which the scanner stands as before, without a cut in it. -/
def IsNeutral (delimiter : Char) (text : Str) : Prop :=
  ∀ inQuote, (quoting delimiter).run (inQuote, false) text = (inQuote, false) ∧
    (quoting delimiter).IsWhole (inQuote, false) text

/-- Characters without a meaning for the scanner are neutral. -/
theorem isNeutral_of_plain {text : Str}
    (plain : ∀ char ∈ text, char ≠ '"' ∧ char ≠ '\\' ∧ char ≠ delimiter) :
    IsNeutral delimiter text := by
  -- No character of the text moves the scanner, wherever it stands.
  intro inQuote
  induction text with
  | nil => exact ⟨rfl, trivial⟩
  | cons char rest ih =>
    obtain ⟨⟨quote, escape, other⟩, more⟩ := List.forall_mem_cons.mp plain
    obtain ⟨run, whole⟩ := ih more
    rw [Cutting.IsWhole, quoting_cuts, Cutting.run, List.foldl_cons,
      quoting_plain inQuote quote escape]
    exact ⟨run, by simp [other], whole⟩

/-- Tokens are neutral. -/
theorem isNeutral_of_tchars (delimits : IsListDelimiter delimiter) {text : Str}
    (tchars : ∀ char ∈ text, isTchar char = true) : IsNeutral delimiter text := by
  refine isNeutral_of_plain fun char inside => ⟨?_, ?_, ?_⟩
  · exact (isTchar_plain (tchars char inside)).2.2.2.2
  · -- Neither the backslash nor the delimiter is a token character.
    intro same
    have tchar := tchars char inside
    rw [same] at tchar
    revert tchar
    decide
  · intro same
    have tchar := tchars char inside
    rw [same, delimits.tchar] at tchar
    cases tchar

/-- White space is neutral. -/
theorem isNeutral_of_white (delimits : IsListDelimiter delimiter) {text : Str}
    (white : ∀ char ∈ text, isWhitespace char = true) : IsNeutral delimiter text := by
  -- No white space has a meaning for the scanner.
  have differs : ∀ other, isWhitespace other = false → ∀ char ∈ text, char ≠ other := by
    intro other dark char inside same
    have found := white char inside
    rw [same, dark] at found
    cases found
  exact isNeutral_of_plain fun char inside => ⟨differs '"' (by decide) char inside,
    differs '\\' (by decide) char inside, differs delimiter delimits.dark char inside⟩

/-- Two texts that have the same effect on the scanner, from outside of quotes and from inside. -/
def ScansAlike (delimiter : Char) (first second : Str) : Prop :=
  ∀ inQuote, ∃ after, (quoting delimiter).run (inQuote, false) first = (after, false) ∧
    (quoting delimiter).run (inQuote, false) second = (after, false) ∧
    ((quoting delimiter).IsWhole (inQuote, false) first ↔
      (quoting delimiter).IsWhole (inQuote, false) second)

/-- Neutral texts are alike. -/
theorem IsNeutral.alike {first second : Str} (left : IsNeutral delimiter first)
    (right : IsNeutral delimiter second) : ScansAlike delimiter first second := fun inQuote =>
  ⟨inQuote, (left inQuote).1, (right inQuote).1, iff_of_true (left inQuote).2 (right inQuote).2⟩

/-- Being alike goes both ways. -/
theorem ScansAlike.symm {first second : Str} (alike : ScansAlike delimiter first second) :
    ScansAlike delimiter second first := by
  intro inQuote
  obtain ⟨after, left, right, same⟩ := alike inQuote
  exact ⟨after, right, left, same.symm⟩

/-- Texts that are alike to one in between are alike. -/
theorem ScansAlike.trans {first second third : Str} (alike : ScansAlike delimiter first second)
    (others : ScansAlike delimiter second third) : ScansAlike delimiter first third := by
  intro inQuote
  obtain ⟨after, left, middle, same⟩ := alike inQuote
  obtain ⟨last, again, right, more⟩ := others inQuote
  -- The text in between has one effect.
  have joined : (after, false) = (last, false) := middle.symm.trans again
  cases joined
  exact ⟨after, left, right, same.trans more⟩

/-- Texts are alike if their parts are. -/
theorem ScansAlike.append {first second left right : Str} (alike : ScansAlike delimiter first second)
    (behind : ScansAlike delimiter left right) :
    ScansAlike delimiter (first ++ left) (second ++ right) := by
  intro inQuote
  -- The first parts leave the scanner in one state, from which the others go on alike.
  obtain ⟨after, before, also, same⟩ := alike inQuote
  obtain ⟨last, run, others, more⟩ := behind after
  refine ⟨last, ?_, ?_, ?_⟩
  · rw [Cutting.run_append, before, run]
  · rw [Cutting.run_append, also, others]
  · rw [Cutting.isWhole_append, Cutting.isWhole_append, before, also, same, more]

/-- A character behind a backslash does not leave the scanner behind one. -/
theorem alike_pair (char : Char) : ScansAlike delimiter ['\\', char] ['\\', char] := by
  intro inQuote
  cases inQuote with
  | true => exact ⟨true, rfl, rfl, Iff.rfl⟩
  | false =>
    -- Outside of quotes the backslash is a character like others.
    by_cases quote : char = '"'
    · rw [quote]
      exact ⟨true, rfl, rfl, Iff.rfl⟩
    · have step : (quoting delimiter).run (false, false) ['\\', char] = (false, false) := by
        by_cases escape : char = '\\'
        · rw [escape]
          rfl
        · exact quoting_plain false quote escape
      exact ⟨false, step, step, Iff.rfl⟩

/-- A backslash in front of a character that does not need one makes no difference. -/
theorem alike_escape (delimits : IsListDelimiter delimiter) {char : Char} (quote : char ≠ '"')
    (escape : char ≠ '\\') : ScansAlike delimiter ['\\', char] [char] := by
  intro inQuote
  have plain : (quoting delimiter).step (inQuote, false) char = (inQuote, false) :=
    quoting_plain inQuote quote escape
  refine ⟨inQuote, ?_, plain, ?_⟩
  · -- Between quotes the backslash hides the character, outside of them it means nothing.
    cases inQuote with
    | true => rfl
    | false => exact plain
  · cases inQuote with
    | true => simp [Cutting.IsWhole, quoting_cuts, quoting_escape]
    | false =>
      have other := delimits.escape.symm
      simp [Cutting.IsWhole, quoting_cuts, quoting_escape, other]

/-- However a text is quoted, it is like the text with only the necessary escapes. -/
theorem IsQuoted.alike (delimits : IsListDelimiter delimiter) {text value : Str}
    (quoted : IsQuoted text value) : ScansAlike delimiter text (escapeQuotes value) := by
  -- The induction is on how the text is quoted.
  induction quoted with
  | none => exact IsNeutral.alike (fun _ => ⟨rfl, trivial⟩) fun _ => ⟨rfl, trivial⟩
  | @plain char text value plain more ih =>
    have allowed : isQuotedPairChar char = true :=
      -- A plain character is neither a quote nor a backslash.
      (IsQuoted.plain plain more).quotable char List.mem_cons_self
    have quote : char ≠ '"' := fun same => by
      rw [same] at plain
      exact absurd plain (by decide)
    have escape : char ≠ '\\' := fun same => by
      rw [same] at plain
      exact absurd plain (by decide)
    rw [escapeQuotes, if_neg (by simp [allowed]), if_neg (by simp [quote, escape])]
    have single : ScansAlike delimiter [char] [char] :=
      (alike_escape delimits quote escape).symm.trans (alike_escape delimits quote escape)
    exact single.append ih
  | @pair char text value allowed more ih =>
    rw [escapeQuotes, if_neg (by simp [allowed])]
    -- Only these two keep their backslash when the value is written.
    by_cases special : (char == '"' || char == '\\') = true
    · rw [if_pos special]
      exact (alike_pair char).append ih
    · rw [if_neg special]
      have plain : char ≠ '"' ∧ char ≠ '\\' := by simpa using special
      exact (alike_escape delimits plain.1 plain.2).append ih

/-- A text between quotes. -/
def quotedText (value : Str) : Str := '"' :: (escapeQuotes value ++ ['"'])

/-- Quotes around texts that are alike leave them alike. -/
theorem ScansAlike.quote {first second : Str} (alike : ScansAlike delimiter first second) :
    ScansAlike delimiter ('"' :: (first ++ ['"'])) ('"' :: (second ++ ['"'])) := by
  -- A quote has the same effect on both sides.
  have single : ScansAlike delimiter ['"'] ['"'] := by
    intro inQuote
    exact ⟨!inQuote, quoting_quote inQuote, quoting_quote inQuote, Iff.rfl⟩
  exact single.append (alike.append single)

/-- Tokens need no escapes. -/
theorem escapeQuotes_tchars {text : Str} (tchars : ∀ char ∈ text, isTchar char = true) :
    escapeQuotes text = text := by
  -- No token character is a quote or a backslash.
  induction text with
  | nil => rfl
  | cons char rest ih =>
    obtain ⟨tchar, more⟩ := List.forall_mem_cons.mp tchars
    have quote := (isTchar_plain tchar).2.2.2.2
    have escape : char ≠ '\\' := fun same => by
      rw [same] at tchar
      revert tchar
      decide
    rw [escapeQuotes, if_neg (by simp [(isTchar_visible tchar).1]),
      if_neg (by simp [quote, escape]), ih more]

/-- However a value is written, it is like the value between quotes. -/
theorem IsParamValue.alike (delimits : IsListDelimiter delimiter) {shown value : Str}
    (written : IsParamValue shown value) : ScansAlike delimiter shown (quotedText value) := by
  cases written with
  | token token =>
    have tchars := ((isToken_iff _).mp token).2
    have neutral := isNeutral_of_tchars delimits tchars
    rw [quotedText, escapeQuotes_tchars tchars]
    -- The two quotes around a token cancel.
    refine neutral.alike fun inQuote => ⟨?_, ?_⟩
    · rw [Cutting.run, List.foldl_cons, quoting_quote, ← Cutting.run, Cutting.run_append,
        (neutral _).1]
      exact (quoting_quote _).trans (by rw [Bool.not_not])
    · rw [Cutting.IsWhole, quoting_quote, Cutting.isWhole_append, (neutral _).1, quoting_cuts]
      refine ⟨by simp [delimits.quote.symm], (neutral _).2, ?_, trivial⟩
      rw [quoting_cuts]
      simp [delimits.quote.symm]
  | quoted quoted => exact (quoted.alike delimits).quote

/-- Neutral texts are closed. -/
theorem IsNeutral.closed {text : Str} (neutral : IsNeutral delimiter text) :
    (quoting delimiter).IsClosed text := ⟨(neutral false).2, (neutral false).1⟩

/-- The inside of a quoted string stays inside. -/
theorem IsQuoted.inside {text value : Str} (quoted : IsQuoted text value) :
    (quoting delimiter).run (true, false) text = (true, false) ∧
      (quoting delimiter).IsWhole (true, false) text := by
  induction quoted with
  | none => exact ⟨rfl, trivial⟩
  | @plain char text value plain more ih =>
    have quote : char ≠ '"' := fun same => by
      rw [same] at plain
      exact absurd plain (by decide)
    have escape : char ≠ '\\' := fun same => by
      rw [same] at plain
      exact absurd plain (by decide)
    rw [Cutting.IsWhole, Cutting.run, List.foldl_cons, quoting_plain true quote escape, quoting_cuts]
    exact ⟨ih.1, rfl, ih.2⟩
  | @pair char text value allowed more ih =>
    -- The backslash and the character behind it are passed together.
    rw [Cutting.IsWhole, Cutting.IsWhole, Cutting.run, List.foldl_cons, List.foldl_cons,
      quoting_escape, quoting_escaped, quoting_cuts, quoting_cuts]
    exact ⟨ih.1, rfl, rfl, ih.2⟩

/-- A written value is closed. -/
theorem IsParamValue.closed (delimits : IsListDelimiter delimiter) {shown value : Str}
    (written : IsParamValue shown value) : (quoting delimiter).IsClosed shown := by
  -- A token never opens a quote, and a quoted text closes the one it opens.
  cases written with
  | token token => exact (isNeutral_of_tchars delimits ((isToken_iff _).mp token).2).closed
  | @quoted text _ quoted =>
    obtain ⟨run, whole⟩ : (quoting delimiter).run (true, false) text = (true, false) ∧
        (quoting delimiter).IsWhole (true, false) text := quoted.inside
    have opened : (quoting delimiter).cuts (false, false) '"' = false := by
      simp [quoting_cuts, delimits.quote.symm]
    refine ⟨⟨opened, ?_⟩, ?_⟩
    · change (quoting delimiter).IsWhole (true, false) (text ++ ['"'])
      rw [Cutting.isWhole_append, run]
      exact ⟨whole, quoting_cuts _ _ _, trivial⟩
    · change (quoting delimiter).run (true, false) (text ++ ['"']) = (false, false)
      rw [Cutting.run_append, run]
      rfl

/-- The scanner does not tell letters from their lower case. -/
theorem quoting_toLower (delimits : IsListDelimiter delimiter) (state : Bool × Bool) (char : Char) :
    (quoting delimiter).step state char.toLower = (quoting delimiter).step state char ∧
      (quoting delimiter).cuts state char.toLower = (quoting delimiter).cuts state char := by
  -- Letters in either case are none of the characters the scanner looks for.
  have quote : (char.toLower == '"') = (char == '"') := toLower_same (· == '"') (by decide) char
  have escape : (char.toLower == '\\') = (char == '\\') :=
    toLower_same (· == '\\') (by decide) char
  obtain ⟨inQuote, escaped⟩ := state
  refine ⟨?_, ?_⟩
  · simp only [quoting, quote, escape]
  · rw [quoting_cuts, quoting_cuts, delimits.cased]

/-- A text is scanned as it is in lower case. -/
theorem quoting_lowercase (delimits : IsListDelimiter delimiter) (state : Bool × Bool) (text : Str) :
    (quoting delimiter).run state (toAsciiLowercase text) = (quoting delimiter).run state text ∧
      ((quoting delimiter).IsWhole state (toAsciiLowercase text) ↔
        (quoting delimiter).IsWhole state text) := by
  induction text generalizing state with
  -- The text is lowered one character at a time, and none of them moves the scanner differently.
  | nil => exact ⟨rfl, Iff.rfl⟩
  | cons char rest ih =>
    obtain ⟨step, cuts⟩ := quoting_toLower delimits state char
    obtain ⟨run, whole⟩ := ih ((quoting delimiter).step state char)
    rw [toAsciiLowercase, List.map_cons, ← toAsciiLowercase, Cutting.IsWhole, Cutting.IsWhole,
      Cutting.run, Cutting.run, List.foldl_cons, List.foldl_cons, step, cuts]
    exact ⟨run, and_congr_right fun _ => whole⟩

/-- White space only uses up a backslash in front of it. -/
theorem quoting_white (delimits : IsListDelimiter delimiter) {text : Str}
    (white : ∀ char ∈ text, isWhitespace char = true) (inQuote escaped : Bool) :
    (quoting delimiter).IsWhole (inQuote, escaped) text ∧
      ((quoting delimiter).run (inQuote, escaped) text = (inQuote, escaped) ∨
        (quoting delimiter).run (inQuote, escaped) text = (inQuote, false)) := by
  cases escaped with
  | false =>
    obtain ⟨run, whole⟩ := isNeutral_of_white delimits white inQuote
    exact ⟨whole, .inl run⟩
  | true =>
    cases text with
    | nil => exact ⟨trivial, .inl rfl⟩
    | cons char rest =>
      -- The first character is behind the backslash, the others are neutral.
      obtain ⟨run, whole⟩ := isNeutral_of_white delimits (List.forall_mem_cons.mp white).2 inQuote
      exact ⟨⟨by simp [quoting_cuts], whole⟩, .inr run⟩

/-- An equals sign uses up a backslash in front of it. -/
theorem quoting_sign (inQuote escaped : Bool) :
    (quoting delimiter).step (inQuote, escaped) '=' = (inQuote, false) := by
  cases escaped with
  | true => rfl
  | false => exact quoting_plain inQuote (by decide) (by decide)

/-- A parameter as it is found in a list: a name and a value around an equals sign. -/
def IsListParam (text name value : Str) : Prop :=
  ∃ before left right shown after, (∀ char ∈ before, isWhitespace char = true) ∧
    (∀ char ∈ left, isWhitespace char = true) ∧ (∀ char ∈ right, isWhitespace char = true) ∧
    (∀ char ∈ after, isWhitespace char = true) ∧ IsParamValue shown value ∧
    text = before ++ (name ++ (left ++ '=' :: (right ++ (shown ++ after))))

/-- However a parameter is found in a list, it has the effect of its value right behind its name. -/
theorem IsListParam.scanned (delimits : IsListDelimiter delimiter) {text name value shown : Str}
    (param : IsListParam text name value) (written : IsParamValue shown value) :
    (quoting delimiter).run (false, false) (toAsciiLowercase name ++ '=' :: shown) =
        (quoting delimiter).run (false, false) text ∧
      ((quoting delimiter).IsWhole (false, false) text →
        (quoting delimiter).IsWhole (false, false) (toAsciiLowercase name ++ '=' :: shown)) := by
  obtain ⟨before, left, right, found, after, front, middle, behind, back, value, rfl⟩ := param
  obtain ⟨lower, kept⟩ := quoting_lowercase delimits (false, false) name
  -- Where the name ends does not matter behind the equals sign.
  generalize named : (quoting delimiter).run (false, false) name = state
  obtain ⟨inQuote, escaped⟩ := state
  obtain ⟨_, between⟩ := quoting_white delimits middle inQuote escaped
  have sign : ∃ used, (quoting delimiter).run (inQuote, escaped) left = (inQuote, used) := by
    rcases between with kept | used
    · exact ⟨escaped, kept⟩
    · exact ⟨false, used⟩
  obtain ⟨used, passed⟩ := sign
  -- The value has the same effect however it is written, and white space has none.
  obtain ⟨last, one, other, same⟩ := (written.alike delimits).trans (value.alike delimits).symm inQuote
  have start := isNeutral_of_white delimits front false
  have gap := isNeutral_of_white delimits behind inQuote
  have ending := isNeutral_of_white delimits back last
  constructor
  · rw [Cutting.run_append, lower, named, Cutting.run_append, start.1, Cutting.run_append, named,
      Cutting.run_append, passed]
    change (quoting delimiter).run ((quoting delimiter).step (inQuote, escaped) '=') shown =
      (quoting delimiter).run ((quoting delimiter).step (inQuote, used) '=') (right ++ (found ++ after))
    rw [quoting_sign, quoting_sign, one, Cutting.run_append, gap.1, Cutting.run_append, other, ending.1]
  · intro whole
    rw [Cutting.isWhole_append, start.1, Cutting.isWhole_append, named, Cutting.isWhole_append,
      passed, Cutting.IsWhole, quoting_sign, Cutting.isWhole_append, gap.1,
      Cutting.isWhole_append] at whole
    obtain ⟨_, name, _, _, _, value, _⟩ := whole
    rw [Cutting.isWhole_append, lower, named, Cutting.IsWhole, quoting_sign, quoting_cuts]
    exact ⟨kept.mpr name, by simp [delimits.sign.symm], same.mpr value⟩

/-- Parts that are joined with delimiters and spaces are found again behind the spaces. -/
theorem splitWithQuotes_join (delimits : IsListDelimiter delimiter) {parts : List Str}
    (are : (quoting delimiter).AreParts parts) :
    splitWithQuotes ([delimiter, ' '].intercalate parts) delimiter = Cutting.padded ' ' parts := by
  rw [splitWithQuotes_eq delimits]
  refine are.cut_padded (beq_self_eq_true delimiter) rfl ?_
  -- The space behind a delimiter is no delimiter itself.
  have other : ' ' ≠ delimiter := fun same => by
    have dark := delimits.dark
    rw [← same] at dark
    revert dark
    decide
  exact beq_eq_false_iff_ne.mpr other

end Scanner

/-- A list of parts is its first part and each other part behind a separator. -/
theorem intercalate_cons_flatMap {Item : Type} (separator first : List Item)
    (others : List (List Item)) : separator.intercalate (first :: others) =
      first ++ others.flatMap (separator ++ ·) := by
  induction others generalizing first with
  | nil => simp
  | cons second others ih =>
    rw [List.intercalate_cons_cons, ih, List.flatMap_cons]
    simp

/-- A fold over a list is its first step and the fold over the rest. -/
theorem foldlM_cons_ok {Failure State Item : Type} {step : State → Item → Except Failure State}
    {state result : State} {item : Item} {rest : List Item} :
    (item :: rest).foldlM step state = .ok result ↔
      ∃ next, step state item = .ok next ∧ rest.foldlM step next = .ok result := by
  rw [List.foldlM_cons]
  -- The fold stops where its first step fails.
  cases one : step state item with
  | error error =>
    constructor
    · exact fun same => by cases same
    · exact fun found => by cases found.choose_spec.1
  | ok next =>
    constructor
    · exact fun behind => ⟨next, rfl, behind⟩
    · intro found
      obtain ⟨_, same, behind⟩ := found
      cases same
      exact behind

/-- Every item of a list that is folded is one that some step accepts. -/
theorem foldlM_mem_ok {Failure State Item : Type} {step : State → Item → Except Failure State}
    {state result : State} {items : List Item} (folded : items.foldlM step state = .ok result) :
    ∀ item ∈ items, ∃ before after, step before item = .ok after := by
  induction items generalizing state with
  | nil => exact List.forall_mem_nil _
  | cons item rest ih =>
    obtain ⟨next, one, behind⟩ := foldlM_cons_ok.mp folded
    exact List.forall_mem_cons.mpr ⟨⟨state, next, one⟩, ih behind⟩

/-- The last of the values that are said counts, or else the one before them. -/
theorem getLast?_said {Item Value : Type} (said : Item → Option Value) (part : Item)
    (parts : List Item) (before : Option Value) :
    (parts.filterMap said).getLast?.or ((said part).or before) =
      ((part :: parts).filterMap said).getLast?.or before := by
  cases here : said part with
  | none => rw [List.filterMap_cons_none here, Option.none_or]
  | some value =>
    rw [List.filterMap_cons_some here, List.getLast?_cons]
    cases (parts.filterMap said).getLast? <;> rfl

/-- What stands in pairs with a joined list is joined of what stands in pairs with its parts. -/
theorem forall₂_append_left {First Second : Type} {relation : First → Second → Prop}
    {front back : List First} {items : List Second}
    (pairs : List.Forall₂ relation (front ++ back) items) :
    ∃ left right, items = left ++ right ∧ List.Forall₂ relation front left ∧
      List.Forall₂ relation back right := by
  -- The first list is taken off item by item.
  induction front generalizing items with
  | nil => exact ⟨[], items, rfl, .nil, pairs⟩
  | cons first others ih =>
    cases pairs with
    | cons here behind =>
      obtain ⟨left, right, rfl, more, last⟩ := ih behind
      exact ⟨_, right, rfl, .cons here more, last⟩

/-- Every item that stands in pairs with others stands in one with some of them. -/
theorem mem_of_forall₂ {First Second : Type} {relation : First → Second → Prop} {firsts : List First}
    {seconds : List Second} (pairs : List.Forall₂ relation firsts seconds) :
    ∀ second ∈ seconds, ∃ first ∈ firsts, relation first second := by
  induction pairs with
  | nil => exact List.forall_mem_nil _
  | cons here behind ih =>
    refine List.forall_mem_cons.mpr ⟨⟨_, List.mem_cons_self, here⟩, fun second inside => ?_⟩
    obtain ⟨first, member, related⟩ := ih second inside
    exact ⟨first, List.mem_cons_of_mem _ member, related⟩

/-- A name without items of some kind around it has none in lower case. -/
theorem isTrimmed_lowercase (kind : Char → Bool)
    (cased : ∀ char, kind char.toLower = kind char) {text : Str}
    (trimmed : Trimming.IsTrimmed kind text) : Trimming.IsTrimmed kind (toAsciiLowercase text) where
  starts := by
    intro char rest same
    -- Lowering keeps the length, so the first and the last character come from their own.
    obtain ⟨first, others, rfl, rfl, _⟩ := List.map_eq_cons_iff.mp same
    rw [cased]
    exact trimmed.starts first others rfl
  ends := by
    intro rest char same
    obtain ⟨others, last, rfl, _, ending⟩ := List.map_eq_append_iff.mp same
    obtain ⟨final, none, rfl, rfl, nothing⟩ := List.map_eq_cons_iff.mp ending
    rw [List.map_eq_nil_iff] at nothing
    rw [cased]
    exact trimmed.ends others final (by rw [nothing])

section Elements

variable {Failure Element : Type} {trimming : Str → Str}
  {parseElement : Str → Except Failure Element}

/-- Elements are what the trimmed parts that are not empty are parsed as. -/
theorem parseElements_iff {parts : List Str} {elements : List Element} :
    parseElements trimming parseElement parts = .ok elements ↔
      List.Forall₂ (fun part element => parseElement part = .ok element)
        ((parts.map trimming).filter fun part => !part.isEmpty) elements := by
  induction parts generalizing elements with
  | nil =>
    rw [parseElements]
    constructor
    · intro same
      cases same
      exact .nil
    · intro parsed
      cases parsed
      rfl
  | cons part rest ih =>
    rw [parseElements, List.map_cons]
    -- An empty part is skipped, any other one is parsed.
    by_cases empty : (trimming part).isEmpty = true
    · rw [if_pos empty, List.filter_cons_of_neg (by simp [empty])]
      exact ih
    · rw [if_neg empty, List.filter_cons_of_pos (by simp [empty])]
      constructor
      · intro parsed
        -- All elements must be read, so none of the parts may fail.
        cases here : parseElement (trimming part) with
        | error error => simp [here] at parsed
        | ok element =>
          cases behind : parseElements trimming parseElement rest with
          | error error => simp [here, behind] at parsed
          | ok others =>
            simp only [here, behind, Except.ok.injEq] at parsed
            subst parsed
            exact .cons here (ih.mp behind)
      · intro parsed
        cases parsed with
        | cons here behind => rw [here, ih.mpr behind]

/-- Elements are parsed again where they stand behind commas and spaces, and nothing else is. -/
theorem parseElements_padded {printed : List Str} {elements : List Element}
    (filled : ∀ text ∈ printed, text ≠ [])
    (trimmed : ∀ text ∈ printed, trimming text = text ∧ trimming (' ' :: text) = text) :
    parseElements trimming parseElement (Cutting.padded ' ' printed) = .ok elements ↔
      List.Forall₂ (fun text element => parseElement text = .ok element) printed elements := by
  have same : (Cutting.padded ' ' printed).map trimming = printed := by
    -- Only the parts behind the first one have a space in front.
    cases printed with
    | nil => rfl
    | cons first others =>
      rw [Cutting.padded, List.map_cons, (trimmed first List.mem_cons_self).1, List.map_map]
      congr 1
      conv_rhs => rw [← List.map_id others]
      exact List.map_congr_left fun text inside => (trimmed text (List.mem_cons_of_mem _ inside)).2
  rw [parseElements_iff, same, List.filter_eq_self.mpr]
  intro text inside
  simpa using filled text inside

/-- Elements are parsed again where their texts are joined to a list, and nothing else is. -/
theorem parseElements_join {delimiter : Char} (delimits : IsListDelimiter delimiter)
    {printed : List Str} {elements : List Element} (empty : trimming [] = [])
    (are : printed = [] ∨ (quoting delimiter).AreParts printed)
    (filled : ∀ text ∈ printed, text ≠ [])
    (trimmed : ∀ text ∈ printed, trimming text = text ∧ trimming (' ' :: text) = text) :
    parseElements trimming parseElement
        (splitWithQuotes ([delimiter, ' '].intercalate printed) delimiter) = .ok elements ↔
      List.Forall₂ (fun text element => parseElement text = .ok element) printed elements := by
  rcases are with rfl | parts
  · -- The empty list has one part, which is empty.
    change parseElements trimming parseElement [[]] = .ok elements ↔ _
    rw [parseElements_iff, List.map_singleton, empty]
    rfl
  · rw [splitWithQuotes_join delimits parts]
    exact parseElements_padded filled trimmed

/-- Every element comes from some part. -/
theorem forall_of_parseElements {parts : List Str} {elements : List Element}
    (parsed : parseElements trimming parseElement parts = .ok elements) {good : Element → Prop}
    (each : ∀ part element, parseElement part = .ok element → good element) :
    ∀ element ∈ elements, good element := by
  intro element inside
  obtain ⟨part, _, read⟩ := mem_of_forall₂ (parseElements_iff.mp parsed) element inside
  exact each part element read

end Elements

end Http11

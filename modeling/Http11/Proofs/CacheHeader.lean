import Http11.Proofs.Cache
import Mathlib.Data.List.Nodup

/-! When a header of caches is read as the directives that it is made of. -/

namespace Http11

/-- The lower case of tokens is that of ASCII. -/
theorem toLowercase_token {name : Str} (token : isToken name = true) :
    toLowercase name = toAsciiLowercase name := by
  have lower : ∀ char ∈ name, lowercaseChar char = [char.toLower] := by
    intro char inside
    have ascii := isTchar_ascii (((isToken_iff _).mp token).2 char inside)
    -- Below 128 the tables of lower case have only the letters of ASCII.
    rw [lowercaseChar, if_neg (by omega), if_neg (by omega)]
  clear token
  unfold toLowercase toAsciiLowercase
  induction name with
  | nil => rfl
  | cons char name ih =>
    obtain ⟨here, others⟩ := List.forall_mem_cons.mp lower
    rw [List.flatMap_cons, here, ih others, List.map_cons, List.singleton_append]

/-- Joined texts are split where each of them is. -/
theorem splitOn_join {texts : List Str} (present : texts ≠ []) :
    ([','].intercalate texts).splitOn ',' = texts.flatMap (List.splitOn ',') := by
  induction texts with
  | nil => exact absurd rfl present
  | cons text texts ih =>
    cases texts with
    | nil => simp
    -- The first comma is the one that joins, as far as the first text goes.
    | cons second texts =>
      rw [List.intercalate_cons_cons, List.append_assoc, List.singleton_append,
        List.splitOn_append_cons_self, ih (List.cons_ne_nil _ _)]
      rfl

/-- The parts of a text are the same with spaces or tabs around it, apart from white space. -/
theorem splitOn_padded {directive : Directive} {part : Str} (padded : directive.IsPadded part) :
    (part.splitOn ',').map trim = (directive.text.splitOn ',').map trim := by
  obtain ⟨before, after, front, back, rfl⟩ := padded
  have white : ∀ text : Str, ((trim text).splitOn ',').map trim = (text.splitOn ',').map trim :=
    fun text => Separating.map_trim_splitOn (by decide : isWhitespace ',' = false) text
  -- The space and the tab of a list are white space of the source too.
  have around : trim (before ++ (directive.text ++ after)) = trim directive.text :=
    Separating.trim_around (fun char inside => isWhitespace_of_ows (front char inside))
      (fun char inside => isWhitespace_of_ows (back char inside)) directive.text
  rw [← white, around, white]

/-- The parts of a header. -/
def partsOf (directives : List Directive) : List Str :=
  directives.flatMap fun directive => directive.text.splitOn ','

/-- The parts of padded directives are those of the directives, apart from white space. -/
theorem partsOf_padded {directives : List Directive} {parts : List Str}
    (padded : List.Forall₂ Directive.IsPadded directives parts) :
    (parts.flatMap (List.splitOn ',')).map trim = (partsOf directives).map trim := by
  induction padded with
  | nil => rfl
  | cons first others ih =>
    rw [List.flatMap_cons, List.map_append, splitOn_padded first, ih, partsOf, partsOf,
      List.flatMap_cons, List.map_append]

/-- Directives are read from a header as they are read without white space around them. -/
theorem parse_directives {directives : List Directive} {text : Str}
    (header : IsCacheHeader directives text) : CacheControl.parse text =
      (partsOf directives).foldlM CacheControl.parseDirective CacheControl.new := by
  obtain ⟨parts, padded, rfl⟩ := header
  rw [CacheControl.parse_parts]
  -- The empty header has no parts and no directives.
  by_cases present : parts = []
  · subst present
    cases padded
    rfl
  · rw [splitOn_join present, partsOf_padded padded, CacheControl.foldlM_trim]

/-- A text without quotes stays as it is. -/
theorem stripQuotes_plain {text : Str} (plain : '"' ∉ text) : stripQuotes text = .ok text := by
  unfold stripQuotes
  split
  · exact absurd List.mem_cons_self plain
  · rw [if_neg fun last => plain (List.mem_of_getLast? last)]

namespace IsDirective

variable {directive : Directive}

/-- The name of a directive is a token. -/
theorem token (valid : IsDirective directive) : isToken directive.name = true := by
  cases valid with
  | flag token => exact token
  | seconds token => exact token
  | qualified token => exact token
  | unknown token => exact token

/-- A directive of seconds gives a number of them. -/
theorem argument_of_age (valid : IsDirective directive) {age : CacheAge}
    (named : directive.IsNamed age.name) :
    ∃ digits, directive.argument = some digits ∧ IsDigits digits := by
  cases valid with
  | flag _ flag same => exact absurd (same.symm.trans named) (flag.name_ne age)
  | seconds _ _ _ digits => exact ⟨_, rfl, digits⟩
  | qualified _ flag same => exact absurd (same.symm.trans named) (flag.name_ne age)
  | unknown _ _ noAge => exact absurd named (noAge age)

/-- A flag has an argument only if it may have one. -/
theorem argument_of_flag (valid : IsDirective directive) {flag : CacheFlag}
    (named : directive.IsNamed flag.name) (argument : directive.argument ≠ none) :
    flag.isQualified = true := by
  -- Only the third kind of directive has an argument and the name of a flag.
  cases valid with
  | flag => exact absurd rfl argument
  | seconds _ age same => exact absurd (named.symm.trans same) (flag.name_ne age)
  | qualified _ other same may =>
    rw [CacheFlag.name_injective (named.symm.trans same)]
    exact may
  | unknown _ noFlag => exact absurd named (noFlag flag)

/-- A directive is cut into a first part, which is its name and what stands up to a comma, and what
stands behind commas in its argument. -/
theorem first_part (valid : IsDirective directive) : ∃ first,
    directive.text.splitOn ',' = first :: (directive.text.splitOn ',').tail ∧
    (∀ flag, asksFlag flag first = true ↔ directive.IsNamed flag.name) ∧
    (∀ age : CacheAge, ¬ directive.IsNamed age.name → asksSeconds age first = none) ∧
    ∀ age : CacheAge, directive.IsNamed age.name →
      asksSeconds age first = directive.argument.map deltaSeconds ∧
        (directive.text.splitOn ',').tail = [] := by
  have token := valid.token
  have lower : toLowercase directive.name = toAsciiLowercase directive.name := toLowercase_token token
  obtain ⟨filled, trimmed⟩ := isToken_trimmed token
  have comma : ',' ∉ directive.name := not_mem_token token (by decide)
  have sign : '=' ∉ directive.name := not_mem_token token (by decide)
  have same : trim directive.name = directive.name := trimmed.trim_eq
  cases given : directive.argument with
  | none =>
    have text : directive.text = directive.name := by rw [Directive.text, given]
    have single : directive.text.splitOn ',' = [directive.name] := by
      rw [text, List.splitOn_eq_singleton comma]
    have noAge : ∀ age : CacheAge, ¬ directive.IsNamed age.name := by
      intro age named
      obtain ⟨digits, argument, _⟩ := valid.argument_of_age named
      rw [given] at argument
      cases argument
    refine ⟨directive.name, by rw [single]; rfl, fun flag => ?_, fun age _ => ?_, fun age named =>
      absurd named (noAge age)⟩
    · rw [asksFlag, same, splitOnce_none sign]
      dsimp only
      rw [lower, decide_eq_true_eq]
      rfl
    · rw [asksSeconds, same, splitOnce_none sign]
      dsimp only
      rw [lower, if_neg fun both => noAge age both.2]
  | some argument =>
    have text : directive.text = directive.name ++ '=' :: argument := by rw [Directive.text, given]
    obtain ⟨front, rest, split⟩ := List.exists_cons_of_ne_nil (List.splitOn_ne_nil ',' argument)
    have parts : directive.text.splitOn ',' = (directive.name ++ '=' :: front) :: rest := by
      have plain : ',' ∉ directive.name ++ ['='] := by simp [comma]
      have whole : directive.text = (directive.name ++ ['=']) ++ argument := by rw [text]; simp
      rw [whole, Separating.splitOn_append plain, split, List.modifyHead_cons]
      simp
    -- Trimming does not reach the name and its equals sign.
    have dark : Trimming.IsTrimmed isWhitespace (directive.name ++ ['=']) :=
      Trimming.isTrimmed_append [] filled (List.cons_ne_nil _ _) trimmed
        (Trimming.isTrimmed_of_none (by decide +kernel))
    obtain ⟨value, kept⟩ := dark.trim_append (by simp) [] (List.forall_mem_nil _) front
    have cut : trim (directive.name ++ '=' :: front) = directive.name ++ '=' :: value := by
      have whole := kept
      simp only [List.append_assoc, List.singleton_append, List.nil_append] at whole
      exact whole
    refine ⟨directive.name ++ '=' :: front, by rw [parts]; rfl, fun flag => ?_, fun age other => ?_,
      fun age named => ?_⟩
    · rw [asksFlag, cut, splitOnce_append sign]
      dsimp only
      rw [same, lower, Bool.and_eq_true, decide_eq_true_eq]
      exact and_iff_left_of_imp fun named => valid.argument_of_flag named (by simp [given])
    · rw [asksSeconds, cut, splitOnce_append sign]
      dsimp only
      rw [same, lower]
      exact if_neg other
    · obtain ⟨digits, argument, number⟩ := valid.argument_of_age named
      rw [given, Option.some.injEq] at argument
      subst argument
      obtain ⟨_, white, separator, quote⟩ := isDigits_plain number
      have whole : trim (directive.name ++ '=' :: argument) = directive.name ++ '=' :: argument :=
        (isTrimmed_signed trimmed number.1 white).trim_eq
      have single : argument.splitOn ',' = [argument] := List.splitOn_eq_singleton separator
      rw [single] at split
      obtain ⟨rfl, rfl⟩ := List.cons.inj split
      have alone : trim argument = argument := white.trim_eq
      refine ⟨?_, by rw [parts, List.tail_cons]⟩
      rw [asksSeconds, whole, splitOnce_append sign]
      dsimp only
      rw [same, lower, alone, stripQuotes_plain quote]
      exact if_pos named

end IsDirective

section Lists

variable {directives : List Directive}

/-- A part is a first part or one behind a comma. -/
theorem mem_partsOf (valid : ∀ directive ∈ directives, IsDirective directive) (flag : CacheFlag) :
    (partsOf directives).any (asksFlag flag) = true ↔
      (∃ directive ∈ directives, directive.IsNamed flag.name) ∨
        ∃ part ∈ hiddenParts directives, asksFlag flag part = true := by
  rw [List.any_eq_true]
  constructor
  · intro ⟨part, inside, asked⟩
    obtain ⟨directive, member, found⟩ := List.mem_flatMap.mp inside
    obtain ⟨first, split, flags, _⟩ := (valid directive member).first_part
    rw [split, List.mem_cons] at found
    -- The first part carries the name, any other is hidden in a quoted argument.
    rcases found with rfl | behind
    · exact .inl ⟨directive, member, (flags flag).mp asked⟩
    · exact .inr ⟨part, List.mem_flatMap.mpr ⟨directive, member, behind⟩, asked⟩
  · -- Conversely the part of a directive is its first, or one of the hidden.
    rintro (⟨directive, member, named⟩ | ⟨part, inside, asked⟩)
    · obtain ⟨first, split, flags, _⟩ := (valid directive member).first_part
      refine ⟨first, List.mem_flatMap.mpr ⟨directive, member, ?_⟩, (flags flag).mpr named⟩
      rw [split]
      exact List.mem_cons_self
    · obtain ⟨directive, member, behind⟩ := List.mem_flatMap.mp inside
      exact ⟨part, List.mem_flatMap.mpr ⟨directive, member, List.mem_of_mem_tail behind⟩, asked⟩

/-- Nothing but hidden parts asks for seconds of a directive that is not there. -/
theorem filterMap_hidden (valid : ∀ directive ∈ directives, IsDirective directive) {age : CacheAge}
    (other : ∀ directive ∈ directives, ¬ directive.IsNamed age.name) :
    (partsOf directives).filterMap (asksSeconds age) =
      (hiddenParts directives).filterMap (asksSeconds age) := by
  induction directives with
  | nil => rfl
  | cons directive directives ih =>
    obtain ⟨here, others⟩ := List.forall_mem_cons.mp valid
    obtain ⟨unnamed, rest⟩ := List.forall_mem_cons.mp other
    obtain ⟨first, split, _, silent, _⟩ := here.first_part
    have behind := ih others rest
    rw [partsOf, hiddenParts] at behind ⊢
    rw [List.flatMap_cons, List.flatMap_cons, List.filterMap_append, List.filterMap_append, behind]
    refine congrArg (· ++ _) ?_
    -- The name is not that of the seconds, so the first part is silent.
    conv_lhs => rw [split]
    rw [List.filterMap_cons_none (silent age unnamed)]

/-- The seconds of a directive are asked for last, unless a hidden part behind it asks for some. -/
theorem getLast?_parts {front back : List Directive} {directive : Directive}
    (are : AreDirectives (front ++ directive :: back)) {age : CacheAge}
    (named : directive.IsNamed age.name) :
    ((partsOf (front ++ directive :: back)).filterMap (asksSeconds age)).getLast? =
      (((hiddenParts back).filterMap (asksSeconds age)).getLast?).or
        (directive.argument.map deltaSeconds) := by
  have distinct := are.distinct
  -- A name comes once, so no directive behind this one has it.
  rw [List.map_append, List.map_cons, List.nodup_middle, List.nodup_cons] at distinct
  have other : ∀ later ∈ back, ¬ later.IsNamed age.name := by
    intro later inside same
    refine distinct.1 (List.mem_append_right _ ?_)
    exact List.mem_map.mpr ⟨later, inside, same.trans named.symm⟩
  have valid : ∀ later ∈ back, IsDirective later := fun later inside =>
    are.valid later (List.mem_append_right _ (List.mem_cons_of_mem _ inside))
  have here : IsDirective directive := are.valid directive (by simp)
  -- The directive of seconds is one part, with nothing hidden behind it.
  obtain ⟨first, split, _, _, seconds⟩ := here.first_part
  obtain ⟨asked, alone⟩ := seconds age named
  obtain ⟨digits, argument, _⟩ := here.argument_of_age named
  have given : asksSeconds age first = some (deltaSeconds digits) := by rw [asked, argument]; rfl
  -- Behind it, only hidden parts can ask for the seconds again.
  have behind := filterMap_hidden valid other
  rw [partsOf] at behind ⊢
  rw [List.flatMap_append, List.flatMap_cons, List.filterMap_append, List.filterMap_append, behind,
    split, alone, List.filterMap_cons_some given, List.filterMap_nil, List.getLast?_append,
    List.getLast?_append, List.getLast?_singleton, argument, Option.map_some]
  cases ((hiddenParts back).filterMap (asksSeconds age)).getLast? <;> rfl

end Lists

/-- A header is read as the directives that it is made of exactly when the parts between commas in
their arguments change nothing. -/
theorem directives_read {directives : List Directive} {text : Str} (are : AreDirectives directives)
    (header : IsCacheHeader directives text) :
    (∃ cc, CacheControl.parse text = .ok cc ∧ Reflects cc directives) ↔ IsUnmixed directives := by
  rw [parse_directives header]
  have flagsNew : ∀ flag : CacheFlag, CacheControl.new.flag flag = false := by
    intro flag
    cases flag <;> rfl
  have secondsNew : ∀ age : CacheAge, CacheControl.new.seconds age = none := by
    intro age
    cases age <;> rfl
  -- No two directives are named alike.
  have same : ∀ one ∈ directives, ∀ other ∈ directives, ∀ name : Str, one.IsNamed name →
      other.IsNamed name → one = other := fun one member other inside name first second =>
    List.inj_on_of_nodup_map are.distinct member inside (first.trans second.symm)
  constructor
  · intro ⟨cc, parsed, reflects⟩
    -- What the parser has set is what the parts ask for, the hidden ones included.
    obtain ⟨accepted, all⟩ := CacheControl.foldlM_asks parsed
    have seconds : ∀ age, cc.seconds age =
        ((partsOf directives).filterMap (asksSeconds age)).getLast? := by
      intro age
      rw [all.seconds, secondsNew, Option.or_none]
    refine ⟨fun directive member part inside => ?_, fun part inside flag asked => ?_,
      fun part inside age asked => ?_, fun front directive back age split named number last => ?_⟩
    · exact accepted part (List.mem_flatMap.mpr ⟨directive, member, inside⟩)
    · -- A hidden part that asks for a flag needs a directive of that flag.
      refine (reflects.flags flag).mp ?_
      rw [all.flags, (mem_partsOf are.valid flag).mpr (.inr ⟨part, inside, asked⟩), Bool.true_or]
    · -- One that asks for seconds needs a directive of these.
      obtain ⟨number, found⟩ := Option.ne_none_iff_exists'.mp asked
      obtain ⟨directive, member, behind⟩ := List.mem_flatMap.mp inside
      have whole : part ∈ partsOf directives :=
        List.mem_flatMap.mpr ⟨directive, member, List.mem_of_mem_tail behind⟩
      have filled := List.ne_nil_of_mem (List.mem_filterMap.mpr ⟨part, whole, found⟩)
      have last := seconds age
      rw [List.getLast?_eq_some_getLast filled] at last
      obtain ⟨other, listed, named, _⟩ := (reflects.seconds age _).mp last
      exact ⟨other, listed, named⟩
    · -- A hidden part behind the directive would have the last word.
      subst split
      have set := seconds age
      rw [getLast?_parts are named, last, Option.some_or] at set
      obtain ⟨other, listed, also, given⟩ := (reflects.seconds age number).mp set
      rw [same directive (by simp) other listed _ named also]
      exact given
  · -- Hidden parts that change nothing leave the directives with their flags and seconds.
    intro unmixed
    have accepted : ∀ part ∈ partsOf directives, IsAccepted part := by
      intro part inside
      obtain ⟨directive, member, found⟩ := List.mem_flatMap.mp inside
      exact unmixed.accepted directive member part found
    obtain ⟨cc, parsed⟩ := CacheControl.foldlM_defined accepted CacheControl.new
    obtain ⟨_, all⟩ := CacheControl.foldlM_asks parsed
    refine ⟨cc, parsed, fun flag => ?_, fun age number => ?_⟩
    · rw [all.flags, flagsNew, Bool.or_false, mem_partsOf are.valid]
      exact or_iff_left_of_imp fun ⟨part, inside, asked⟩ => unmixed.flags part inside flag asked
    · rw [all.seconds, secondsNew, Option.or_none]
      by_cases there : ∃ directive ∈ directives, directive.IsNamed age.name
      · obtain ⟨directive, member, named⟩ := there
        obtain ⟨front, back, split⟩ := List.append_of_mem member
        have last := unmixed.last front directive back age split named
        -- The last of the seconds that are asked for is that of the directive.
        have set : ((partsOf directives).filterMap (asksSeconds age)).getLast? =
            directive.argument.map deltaSeconds := by
          subst split
          rw [getLast?_parts are named]
          cases hidden : ((hiddenParts back).filterMap (asksSeconds age)).getLast? with
          | none => exact Option.none_or
          | some other => exact (last other hidden).symm
        rw [set]
        constructor
        · intro given
          exact ⟨directive, member, named, given⟩
        · intro ⟨other, listed, also, given⟩
          rw [same directive member other listed _ named also]
          exact given
      · have other : ∀ directive ∈ directives, ¬ directive.IsNamed age.name :=
          fun directive member named => there ⟨directive, member, named⟩
        have none : (hiddenParts directives).filterMap (asksSeconds age) = [] := by
          rw [List.filterMap_eq_nil_iff]
          intro part inside
          by_contra asked
          exact there (unmixed.seconds part inside age asked)
        rw [filterMap_hidden are.valid other, none]
        exact ⟨fun found => (by cases found), fun ⟨directive, member, named, _⟩ =>
          absurd named (other directive member)⟩

/-- A header with seconds and a quoted string in it. -/
theorem directives_read_quoted :
    (∃ cc, CacheControl.parse "max-age=5, private=\"a\"".toList = .ok cc ∧
      Reflects cc [⟨"max-age".toList, some "5".toList⟩, ⟨"private".toList, some "\"a\"".toList⟩]) ↔
    IsUnmixed [⟨"max-age".toList, some "5".toList⟩, ⟨"private".toList, some "\"a\"".toList⟩] := by
  have quoted : IsQuoted ['a'] ['a'] := .plain (by decide) .none
  have seconds : IsDirective ⟨"max-age".toList, some "5".toList⟩ :=
    .seconds (by decide) .maxAge (by decide) ⟨by decide, by decide +kernel⟩
  have qualified : IsDirective ⟨"private".toList, some "\"a\"".toList⟩ :=
    .qualified (by decide) .isPrivate (by decide) rfl quoted
  refine directives_read ⟨List.forall_mem_cons.mpr ⟨seconds, List.forall_mem_singleton.mpr qualified⟩,
    by decide⟩ ⟨["max-age=5".toList, " private=\"a\"".toList], ?_, by decide⟩
  refine .cons ⟨[], [], List.forall_mem_nil _, List.forall_mem_nil _, by decide⟩ (.cons
    ⟨[' '], [], List.forall_mem_singleton.mpr (by decide), List.forall_mem_nil _, by decide⟩ .nil)

/-- Fields in a quoted string with a comma between them are refused. -/
theorem qualified_refused : ¬ ∀ (directives : List Directive) (text : Str), AreDirectives directives →
    IsCacheHeader directives text →
      ∃ cc, CacheControl.parse text = .ok cc ∧ Reflects cc directives := by
  intro accepts
  have quoted : IsQuoted "a, b".toList "a, b".toList :=
    .plain (by decide) (.plain (by decide) (.plain (by decide) (.plain (by decide) .none)))
  have qualified : IsDirective ⟨"private".toList, some "\"a, b\"".toList⟩ :=
    .qualified (by decide) .isPrivate (by decide) rfl quoted
  obtain ⟨cc, parsed, _⟩ := accepts [⟨"private".toList, some "\"a, b\"".toList⟩]
    "private=\"a, b\"".toList ⟨List.forall_mem_singleton.mpr qualified, by decide⟩
    ⟨["private=\"a, b\"".toList], .cons ⟨[], [], List.forall_mem_nil _, List.forall_mem_nil _,
      by decide⟩ .nil, by decide⟩
  have refused : CacheControl.parse "private=\"a, b\"".toList = .error .invalidFormat := by
    decide
  cases parsed.symm.trans refused

end Http11

import Http11.Proofs.ContentType

/-! Parameters of content types are accepted without the semicolons that should separate them. -/

namespace Http11

/-- Text without quotes is outside of quoted strings. -/
theorem unquoted_plain {plain : Str} (quoteless : '"' ∉ plain) (rest : Str) :
    unquoted (plain ++ rest) = plain ++ unquoted rest := by
  induction plain with
  | nil => rfl
  | cons char plain ih =>
    -- The first character is no quotation mark, so it stays outside.
    rw [List.mem_cons, not_or] at quoteless
    have kept := ih quoteless.2
    unfold unquoted at kept ⊢
    rw [List.cons_append, unquotedFrom.eq_def]
    dsimp only
    rw [if_neg (Ne.symm quoteless.1), kept]
    rfl

/-- The inside of a quoted string is left out with its closing quote. -/
theorem unquotedFrom_quoted {text value : Str} (quoted : IsQuoted text value) (rest : Str) :
    unquotedFrom true (text ++ '"' :: rest) = unquoted rest := by
  induction quoted with
  | none =>
    rw [List.nil_append, unquotedFrom.eq_def]
    rfl
  | @plain char text value plain more ih =>
    have quote : char ≠ '"' := fun same => by
      rw [same] at plain
      exact absurd plain (by decide)
    have escape : char ≠ '\\' := fun same => by
      rw [same] at plain
      exact absurd plain (by decide)
    rw [List.cons_append, unquotedFrom.eq_def]
    dsimp only
    rw [if_neg quote, if_neg escape, ih]
  | @pair char text value allowed more ih =>
    -- The character behind the backslash is left out whatever it is.
    rw [List.cons_append, List.cons_append, unquotedFrom.eq_def]
    dsimp only
    rw [if_neg (by decide), if_pos rfl, ih]

/-- A text in which neither parameters nor semicolons are counted. -/
def IsUncounted (text : Str) : Prop := '"' ∉ text ∧ '=' ∉ text ∧ ';' ∉ text

/-- Tokens have nothing to count. -/
theorem isUncounted_token {text : Str} (token : isToken text = true) : IsUncounted text :=
  ⟨not_mem_token token (by decide +kernel), not_mem_token token (by decide +kernel),
    not_mem_token token (by decide +kernel)⟩

/-- White space has nothing to count. -/
theorem isUncounted_white {text : Str} (white : IsWhite text) : IsUncounted text := by
  have differs : ∀ other, isWhitespace other = false → other ∉ text := by
    intro other dark inside
    have found := white other inside
    rw [dark] at found
    cases found
  exact ⟨differs '"' (by decide), differs '=' (by decide), differs ';' (by decide)⟩

/-- Texts with nothing to count have nothing to count together. -/
theorem IsUncounted.append {front back : Str} (first : IsUncounted front) (second : IsUncounted back) :
    IsUncounted (front ++ back) := by
  simp only [IsUncounted, List.mem_append, not_or]
  exact ⟨⟨first.1, second.1⟩, ⟨first.2.1, second.2.1⟩, ⟨first.2.2, second.2.2⟩⟩

/-- A written value has nothing to count outside of its quotes. -/
theorem IsParamValue.unquoted {shown value : Str} (written : IsParamValue shown value) :
    ∃ outside, IsUncounted outside ∧ ∀ rest, unquoted (shown ++ rest) = outside ++ unquoted rest := by
  cases written with
  | token token =>
    -- A token is outside of quotes as a whole.
    have uncounted := isUncounted_token token
    exact ⟨shown, uncounted, unquoted_plain uncounted.1⟩
  | @quoted text _ quoted =>
    -- A quoted string leaves nothing outside.
    refine ⟨[], ⟨by simp, by simp, by simp⟩, fun rest => ?_⟩
    have inner := unquotedFrom_quoted quoted rest
    have shape : '"' :: (text ++ ['"']) ++ rest = '"' :: (text ++ '"' :: rest) := by simp
    rw [shape, Http11.unquoted, unquotedFrom.eq_def]
    dsimp only
    rw [if_pos rfl, inner]
    rfl

/-- A written parameter has one equals sign outside of quotes, and no semicolon. -/
theorem IsContentParam.unquoted {text name value : Str} (param : IsContentParam text name value) :
    ∃ front back, IsUncounted front ∧ IsUncounted back ∧
      ∀ rest, unquoted (text ++ rest) = front ++ '=' :: (back ++ unquoted rest) := by
  obtain ⟨left, right, shown, before, behind, written, rfl⟩ := param.written
  obtain ⟨outside, uncounted, valued⟩ := written.unquoted
  have front := (isUncounted_token param.token).append (isUncounted_white before)
  -- The sign itself stands outside of quotes.
  have sign : '"' ∉ '=' :: right := by
    rw [List.mem_cons, not_or]
    exact ⟨by decide, (isUncounted_white behind).1⟩
  refine ⟨name ++ left, right ++ outside, front, (isUncounted_white behind).append uncounted, ?_⟩
  intro rest
  have shape : name ++ (left ++ '=' :: (right ++ shown)) ++ rest =
      (name ++ left) ++ (('=' :: right) ++ (shown ++ rest)) := by simp
  rw [shape, unquoted_plain front.1, unquoted_plain sign, valued]
  simp

/-- A gap is outside of quotes and has no equals sign. -/
theorem IsGap.unquoted {gap : Str} (isGap : IsGap gap) : '=' ∉ gap ∧
    ∀ rest, unquoted (gap ++ rest) = gap ++ unquoted rest := by
  -- Only white space and semicolons stand in a gap.
  have differs : ∀ other, isWhitespace other = false → other ≠ ';' → other ∉ gap := by
    intro other dark plain inside
    rcases isGap other inside with white | semicolon
    · rw [dark] at white
      cases white
    · exact plain semicolon
  exact ⟨differs '=' (by decide) (by decide), unquoted_plain (differs '"' (by decide) (by decide))⟩

/-- A media type has nothing to count. -/
theorem isUncounted_media {text mediaType subtype : Str} (media : IsMediaType text mediaType subtype) :
    IsUncounted text := by
  obtain ⟨before, left, right, after, front, inner, outer, back, typed, subtyped, rfl⟩ := media
  have slash : IsUncounted ['/'] := ⟨by decide, by decide, by decide⟩
  exact (isUncounted_white front).append ((isUncounted_token typed).append
    ((isUncounted_white inner).append (slash.append ((isUncounted_white outer).append
      ((isUncounted_token subtyped).append (isUncounted_white back))))))

/-- There are as many parameters as equals signs outside of quotes. -/
theorem IsParameters.count {text : Str} {params : List (Str × Str)} (written : IsParameters text params) :
    (unquoted text).count '=' = params.length := by
  induction written with
  | @done text gap =>
    -- Without parameters there is no sign.
    obtain ⟨signless, kept⟩ := gap.unquoted
    have whole := kept []
    rw [List.append_nil] at whole
    rw [whole, List.count_append, List.count_eq_zero_of_not_mem signless]
    rfl
  | param between param more ih =>
    -- One sign for this parameter, the others by the hypothesis.
    obtain ⟨signless, kept⟩ := between.unquoted
    obtain ⟨front, back, first, second, shown⟩ := param.unquoted
    rw [kept, shown, List.count_append, List.count_append, List.count_cons_self, List.count_append,
      List.count_eq_zero_of_not_mem signless, List.count_eq_zero_of_not_mem first.2.1,
      List.count_eq_zero_of_not_mem second.2.1, ih, List.length_cons]
    omega

/-- At most some equals signs up to the first semicolon, and at most one behind each. -/
def AtMost : Nat → Str → Prop
  | _, [] => True
  | allowed, char :: rest =>
    if char = ';' then AtMost 1 rest
    else if char = '=' then 0 < allowed ∧ AtMost (allowed - 1) rest
    else AtMost allowed rest

/-- The parts between semicolons have at most one equals sign each. -/
theorem atMost_iff (allowed : Nat) (text : Str) : AtMost allowed text ↔
    ∃ first others, text.splitOn ';' = first :: others ∧ first.count '=' ≤ allowed ∧
      ∀ piece ∈ others, piece.count '=' ≤ 1 := by
  induction text generalizing allowed with
  | nil => exact ⟨fun _ => ⟨[], [], rfl, Nat.zero_le _, List.forall_mem_nil _⟩, fun _ => trivial⟩
  | cons char rest ih =>
    rw [AtMost]
    by_cases semicolon : char = ';'
    · -- A new part begins.
      have behind : (char :: rest).splitOn ';' = [] :: rest.splitOn ';' := by
        rw [List.splitOn_cons_eq_if_modifyHead, semicolon]
        rfl
      rw [if_pos semicolon, behind, ih]
      constructor
      · intro found
        obtain ⟨first, others, same, few, each⟩ := found
        exact ⟨[], _, rfl, Nat.zero_le _, by rw [same]; exact List.forall_mem_cons.mpr ⟨few, each⟩⟩
      · intro found
        obtain ⟨first, others, same, few, each⟩ := found
        obtain ⟨head, tail, split⟩ := List.exists_cons_of_ne_nil (List.splitOn_ne_nil ';' rest)
        rw [List.cons.injEq] at same
        rw [← same.2, split] at each
        obtain ⟨here, behind⟩ := List.forall_mem_cons.mp each
        exact ⟨head, tail, split, here, behind⟩
    · have behind : (char :: rest).splitOn ';' = (rest.splitOn ';').modifyHead (char :: ·) := by
        rw [List.splitOn_cons_eq_if_modifyHead]
        simp [semicolon]
      rw [if_neg semicolon, behind]
      obtain ⟨head, tail, split⟩ := List.exists_cons_of_ne_nil (List.splitOn_ne_nil ';' rest)
      have heads : ∀ first others, (rest.splitOn ';').modifyHead (char :: ·) = first :: others ↔
          first = char :: head ∧ others = tail := by
        intro first others
        rw [split, List.modifyHead_cons, List.cons.injEq, eq_comm, @eq_comm _ tail]
      have single : ∀ count, AtMost count rest ↔ head.count '=' ≤ count ∧
          ∀ piece ∈ tail, piece.count '=' ≤ 1 := by
        intro count
        rw [ih, split]
        constructor
        · intro found
          obtain ⟨first, others, same, few, each⟩ := found
          cases same
          exact ⟨few, each⟩
        · intro found
          exact ⟨head, tail, rfl, found⟩
      simp only [heads]
      by_cases sign : char = '='
      · rw [if_pos sign, single]
        constructor
        · intro found
          refine ⟨_, _, ⟨rfl, rfl⟩, ?_, found.2.2⟩
          rw [sign, List.count_cons_self]
          omega
        · intro found
          obtain ⟨first, others, ⟨rfl, rfl⟩, few, each⟩ := found
          rw [sign, List.count_cons_self] at few
          exact ⟨by omega, by omega, each⟩
      · rw [if_neg sign, single]
        constructor
        · intro found
          refine ⟨_, _, ⟨rfl, rfl⟩, ?_, found.2⟩
          rw [List.count_cons_of_ne sign]
          exact found.1
        · intro found
          obtain ⟨first, others, ⟨rfl, rfl⟩, few, each⟩ := found
          rw [List.count_cons_of_ne sign] at few
          exact ⟨few, each⟩

/-- Every part between semicolons has at most one equals sign. -/
theorem atMost_one (text : Str) :
    AtMost 1 text ↔ ∀ piece ∈ text.splitOn ';', piece.count '=' ≤ 1 := by
  rw [atMost_iff]
  -- A text always splits into one part and the others.
  obtain ⟨head, tail, split⟩ := List.exists_cons_of_ne_nil (List.splitOn_ne_nil ';' text)
  rw [split, List.forall_mem_cons]
  constructor
  · intro found
    obtain ⟨first, others, same, few, each⟩ := found
    cases same
    exact ⟨few, each⟩
  · intro found
    exact ⟨head, tail, rfl, found⟩

/-- More equals signs may be allowed. -/
theorem AtMost.mono {allowed more : Nat} {text : Str} (few : AtMost allowed text)
    (wider : allowed ≤ more) : AtMost more text := by
  obtain ⟨first, others, split, count, each⟩ := (atMost_iff _ _).mp few
  exact (atMost_iff _ _).mpr ⟨first, others, split, Nat.le_trans count wider, each⟩

/-- What is not counted makes no difference. -/
theorem atMost_uncounted {plain : Str} (signless : '=' ∉ plain) (unsplit : ';' ∉ plain)
    (allowed : Nat) (rest : Str) : AtMost allowed (plain ++ rest) ↔ AtMost allowed rest := by
  induction plain with
  | nil => exact Iff.rfl
  | cons char plain ih =>
    rw [List.mem_cons, not_or] at signless unsplit
    rw [List.cons_append, AtMost, if_neg (Ne.symm unsplit.1), if_neg (Ne.symm signless.1)]
    exact ih signless.2 unsplit.2

/-- Behind a semicolon one equals sign is allowed. -/
theorem atMost_semicolon {gap : Str} (signless : '=' ∉ gap) (inside : ';' ∈ gap)
    (allowed : Nat) (rest : Str) : AtMost allowed (gap ++ rest) ↔ AtMost 1 rest := by
  obtain ⟨front, back, rfl, plain⟩ := List.eq_append_cons_of_mem inside
  rw [List.mem_append, List.mem_cons, not_or, not_or] at signless
  rw [List.append_assoc, atMost_uncounted signless.1 plain, List.cons_append, AtMost, if_pos rfl]
  -- What is behind the first semicolon may have others.
  clear inside
  induction back with
  | nil => exact Iff.rfl
  | cons char back ih =>
    obtain ⟨first, _, others⟩ := signless
    rw [List.mem_cons, not_or] at others
    rw [List.cons_append, AtMost, if_neg (Ne.symm others.1)]
    have behind := ih ⟨first, by decide, others.2⟩
    by_cases semicolon : char = ';'
    · rw [if_pos semicolon, behind]
    · rw [if_neg semicolon, behind]

/-- A gap with a semicolon has white space in front of its first one. -/
theorem IsGap.first {gap : Str} (isGap : IsGap gap) (inside : ';' ∈ gap) :
    ∃ white rest, IsWhite white ∧ IsGap rest ∧ gap = white ++ ';' :: rest := by
  obtain ⟨white, rest, rfl, plain⟩ := List.eq_append_cons_of_mem inside
  obtain ⟨front, back⟩ := List.forall_mem_append.mp isGap
  refine ⟨white, rest, fun char member => ?_, (List.forall_mem_cons.mp back).2, rfl⟩
  exact (front char member).resolve_right fun same => plain (same ▸ member)

/-- Behind a semicolon a gap may stand in front of what may follow one. -/
theorem isParameterList_gap {text gap : Str} {params : List (Str × Str)}
    (follows : ∀ before after, IsWhite before → IsWhite after →
      IsParameterList (before ++ ';' :: (after ++ text)) params) (isGap : IsGap gap) :
    ∀ before after, IsWhite before → IsWhite after →
      IsParameterList (before ++ ';' :: (after ++ (gap ++ text))) params := by
  induction gap with
  | nil => exact follows
  | cons char gap ih =>
    intro before after front back
    obtain ⟨here, behind⟩ := List.forall_mem_cons.mp isGap
    rcases here with white | semicolon
    · -- White space belongs to what stands behind the semicolon.
      have single : IsWhite [char] := List.forall_mem_singleton.mpr white
      have longer := ih behind before (after ++ [char]) front (List.forall_mem_append.mpr ⟨back, single⟩)
      simpa using longer
    · -- Another semicolon leaves the one before without a parameter.
      rw [semicolon]
      exact .none front (ih behind after [] back (List.forall_mem_nil _))

/-- Parameters are introduced by semicolons if no two equals signs are without one between. -/
theorem IsParameters.separated {text : Str} {params : List (Str × Str)}
    (written : IsParameters text params) :
    (AtMost 1 (unquoted text) → IsParameterList (';' :: text) params) ∧
      (AtMost 0 (unquoted text) → IsParameterList text params) := by
  -- The induction is on the parameters: behind each of them no other one is allowed.
  induction written with
  | @done text gap =>
    have follows : ∀ before after, IsWhite before → IsWhite after →
        IsParameterList (before ++ ';' :: (after ++ [])) [] := fun before after front back =>
      .none front (.done (by rwa [List.append_nil]))
    constructor
    · intro _
      have listed := isParameterList_gap follows gap [] [] (List.forall_mem_nil _) (List.forall_mem_nil _)
      simpa using listed
    · intro _
      by_cases inside : ';' ∈ text
      · obtain ⟨white, rest, front, back, rfl⟩ := gap.first inside
        have listed := isParameterList_gap follows back white [] front (List.forall_mem_nil _)
        simpa using listed
      · exact .done fun char member => (gap char member).resolve_right fun same => inside (same ▸ member)
  | @param gap text rest name value others between param more ih =>
    obtain ⟨signless, kept⟩ := between.unquoted
    obtain ⟨front, back, first, second, shown⟩ := param.unquoted
    -- The equals sign of the parameter uses up what is allowed behind the gap.
    have behind : ∀ allowed, AtMost allowed (unquoted (text ++ rest)) →
        0 < allowed ∧ AtMost (allowed - 1) (unquoted rest) := by
      intro allowed few
      rw [shown, atMost_uncounted first.2.1 first.2.2, AtMost, if_neg (by decide), if_pos rfl,
        atMost_uncounted second.2.1 second.2.2] at few
      exact few
    have follows : AtMost 1 (unquoted (text ++ rest)) → ∀ before after, IsWhite before → IsWhite after →
        IsParameterList (before ++ ';' :: (after ++ (text ++ rest)))
          ((toAsciiLowercase name, value) :: others) := fun few before after front back =>
      .param front back param (ih.2 (behind 1 few).2)
    constructor
    · intro few
      rw [kept] at few
      -- One is allowed behind the gap as well, whether it has a semicolon or not.
      have one : AtMost 1 (unquoted (text ++ rest)) := by
        by_cases inside : ';' ∈ gap
        · exact (atMost_semicolon signless inside 1 _).mp few
        · exact (atMost_uncounted signless inside 1 _).mp few
      have listed := isParameterList_gap (follows one) between [] [] (List.forall_mem_nil _)
        (List.forall_mem_nil _)
      simpa using listed
    · intro few
      rw [kept] at few
      by_cases inside : ';' ∈ gap
      · have one := (atMost_semicolon signless inside 0 _).mp few
        obtain ⟨white, last, front, back, rfl⟩ := between.first inside
        have listed := isParameterList_gap (follows one) back white [] front (List.forall_mem_nil _)
        simpa using listed
      · -- Without a semicolon the parameter would not be allowed.
        have none := behind 0 ((atMost_uncounted signless inside 0 _).mp few)
        exact absurd none.1 (Nat.lt_irrefl 0)

/-- Parameters that are introduced by semicolons have no two equals signs without one between. -/
theorem IsParameterList.atMost {text : Str} {params : List (Str × Str)}
    (listed : IsParameterList text params) : AtMost 0 (unquoted text) := by
  -- What stands in front of a semicolon is not counted, and behind it one is allowed.
  have behind : ∀ before rest : Str, IsWhite before → AtMost 1 (unquoted rest) →
      AtMost 0 (unquoted (before ++ ';' :: rest)) := by
    intro before rest white few
    have plain := isUncounted_white white
    have semicolon : '"' ∉ [';'] := by decide
    have shape : before ++ ';' :: rest = before ++ ([';'] ++ rest) := rfl
    rw [shape, unquoted_plain plain.1, unquoted_plain semicolon, atMost_uncounted plain.2.1 plain.2.2]
    exact few
  induction listed with
  | @done text white =>
    have plain := isUncounted_white white
    have whole := unquoted_plain plain.1 []
    rw [List.append_nil] at whole
    rw [whole, atMost_uncounted plain.2.1 plain.2.2]
    trivial
  | none front more ih => exact behind _ _ front (ih.mono (Nat.zero_le _))
  | @param before after text rest name value others front back param more ih =>
    refine behind _ _ front ?_
    have plain := isUncounted_white back
    obtain ⟨left, right, first, second, shown⟩ := param.unquoted
    rw [unquoted_plain plain.1, atMost_uncounted plain.2.1 plain.2.2, shown,
      atMost_uncounted first.2.1 first.2.2, AtMost, if_neg (by decide), if_pos rfl,
      atMost_uncounted second.2.1 second.2.2]
    exact ⟨Nat.one_pos, ih⟩

namespace ContentType

/-- Each accepted parameter has a semicolon of its own exactly if no two equals signs outside of
quoted strings stand without one between them, and there are enough of them if there are as many
as equals signs. -/
theorem parameters_separated {input : Str} {contentType : ContentType}
    (parsed : parse input = .ok contentType) :
    (contentType.parameters.length ≤ (unquoted input).count ';' ↔
        (unquoted input).count '=' ≤ (unquoted input).count ';') ∧
      (IsContentType input contentType ↔
        ∀ piece ∈ (unquoted input).splitOn ';', piece.count '=' ≤ 1) := by
  obtain ⟨front, back, mediaType, subtype, media, typed, subtyped, tail, rfl⟩ := parse_ok parsed
  have plain := isUncounted_media media
  have signs : (unquoted (front ++ back)).count '=' = contentType.parameters.length := by
    rw [unquoted_plain plain.1, List.count_append, List.count_eq_zero_of_not_mem plain.2.1,
      Nat.zero_add]
    generalize contentType.parameters = parameters at tail
    cases tail with
    | none => rfl
    | @some back parameters written =>
      have semicolon : '"' ∉ [';'] := by decide
      have shape : unquoted (';' :: back) = ';' :: unquoted back := unquoted_plain semicolon back
      rw [shape, List.count_cons_of_ne (by decide), written.count]
  refine ⟨by rw [signs], ?_⟩
  rw [← atMost_one]
  constructor
  · intro listed
    -- The media type is not counted, wherever it ends.
    obtain ⟨first, second, _, _, typed, _, _, list, same⟩ := listed
    have uncounted := isUncounted_media typed
    rw [same, unquoted_plain uncounted.1, atMost_uncounted uncounted.2.1 uncounted.2.2]
    exact list.atMost.mono (Nat.zero_le _)
  · intro few
    refine ⟨front, back, mediaType, subtype, media, typed, subtyped, ?_, rfl⟩
    rw [unquoted_plain plain.1, atMost_uncounted plain.2.1 plain.2.2] at few
    generalize contentType.parameters = parameters at tail
    cases tail with
    | none => exact .done (List.forall_mem_nil _)
    | @some back parameters written =>
      have semicolon : '"' ∉ [';'] := by decide
      have shape : unquoted (';' :: back) = ';' :: unquoted back := unquoted_plain semicolon back
      rw [shape, AtMost, if_pos rfl] at few
      exact written.separated.1 few

/-- Two parameters behind one semicolon are accepted as two. -/
theorem parameters_separated_unseparated :
    (¬ 2 ≤ (unquoted "t/x; a=\"b\"c=d".toList).count ';') ∧
      ¬ IsContentType "t/x; a=\"b\"c=d".toList ⟨['t'], ['x'], [(['a'], ['b']), (['c'], ['d'])]⟩ := by
  have parsed : parse "t/x; a=\"b\"c=d".toList =
      .ok ⟨['t'], ['x'], [(['a'], ['b']), (['c'], ['d'])]⟩ := by decide +kernel
  have both := parameters_separated parsed
  refine ⟨fun enough => absurd (both.1.mp enough) (by decide +kernel), fun listed => ?_⟩
  exact absurd (both.2.mp listed) (by decide +kernel)

/-- Not every accepted parameter has a semicolon. -/
theorem unseparated_accepted : ¬ ∀ input contentType, parse input = .ok contentType →
    contentType.parameters.length ≤ (unquoted input).count ';' := by
  intro enough
  have few := enough "t/x; a=\"b\"c=d".toList
    ⟨['t'], ['x'], [(['a'], ['b']), (['c'], ['d'])]⟩ (by decide +kernel)
  exact absurd few (by decide +kernel)

end ContentType

end Http11

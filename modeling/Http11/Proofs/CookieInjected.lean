import Http11.Proofs.CookieAttributes

/-! When the domain and the path of a cookie add no other attributes to its header. -/

namespace Http11

namespace SetCookie

/-- An attribute has no value of a name exactly when it has no equals sign or another name. -/
theorem valueOf_none {name part : Str} :
    valueOf name part = none ↔ ('=' ∈ part → ¬ IsNamed name part) := by
  rw [Option.eq_none_iff_forall_ne_some]
  constructor
  · intro none inside named
    -- With an equals sign and the name there would be a value.
    exact none _ (valueOf_iff.mpr ⟨inside, named, rfl⟩)
  · intro other value said
    obtain ⟨inside, named, _⟩ := valueOf_iff.mp said
    exact other inside named

/-- A part adds nothing but a domain or a path if it sets no other field. -/
theorem isHarmless_iff {referenceYear : UInt16} {part : Str} : IsHarmless referenceYear part ↔
    isBare "secure".toList part = false ∧ isBare "httponly".toList part = false ∧
      valueOf "samesite".toList part = none ∧ saidExpires referenceYear part = none ∧
      saidMaxAge part = none := by
  -- Each of the fields is said only by an attribute of its name.
  have bare : ∀ name, isBare name part = false ↔ ('=' ∉ part → ¬ IsNamed name part) := by
    intro name
    rw [← Bool.not_eq_true, isBare_iff, not_and]
  have expires : saidExpires referenceYear part = none ↔ ('=' ∈ part →
      IsNamed "expires".toList part →
      ∀ date, parseExpires (attributeValue part) referenceYear ≠ .ok date) := by
    rw [saidExpires, Option.bind_eq_none_iff]
    -- A date that cannot be read says nothing.
    have unread : ∀ value, (parseExpires value referenceYear).toOption = none ↔
        ∀ date, parseExpires value referenceYear ≠ .ok date := by
      intro value
      cases parseExpires value referenceYear with
      | ok date => exact ⟨fun none => (by cases none), fun other => absurd rfl (other date)⟩
      | error error => exact ⟨fun _ _ same => (by cases same), fun _ => rfl⟩
    constructor
    · intro silent inside named
      exact (unread _).mp (silent _ (valueOf_iff.mpr ⟨inside, named, rfl⟩))
    · intro silent value said
      obtain ⟨inside, named, rfl⟩ := valueOf_iff.mp said
      exact (unread _).mpr (silent inside named)
  -- Neither do seconds that cannot be read.
  have maxAge : saidMaxAge part = none ↔ ('=' ∈ part → IsNamed "max-age".toList part →
      parseMaxAge (attributeValue part) = none) := by
    rw [saidMaxAge, Option.bind_eq_none_iff]
    constructor
    · intro silent inside named
      exact silent _ (valueOf_iff.mpr ⟨inside, named, rfl⟩)
    · intro silent value said
      obtain ⟨inside, named, rfl⟩ := valueOf_iff.mp said
      exact silent inside named
  rw [bare, bare, valueOf_none, expires, maxAge]
  constructor
  · intro holds
    exact ⟨fun plain => (holds.flags plain).1, fun plain => (holds.flags plain).2, holds.sameSite,
      holds.expires, holds.maxAge⟩
  · intro holds
    obtain ⟨secure, httpOnly, sites, date, age⟩ := holds
    exact ⟨fun plain => ⟨secure plain, httpOnly plain⟩, sites, date, age⟩

/-- A part leaves a cookie unset exactly when it is harmless and the cookie was unset. -/
theorem parseAttribute_unset (cookie : SetCookie) (part : Str) (referenceYear : UInt16) :
    (∃ next, parseAttribute referenceYear cookie part = .ok next ∧ IsUnset next) ↔
      IsUnset cookie ∧ IsHarmless referenceYear (trimOws part) := by
  rw [isHarmless_iff]
  constructor
  · intro ⟨next, parsed, unset⟩
    have sets := parseAttribute_sets parsed
    -- A field that is unset now was unset before and was not set by the part.
    obtain ⟨bare, secure⟩ := Bool.or_eq_false_iff.mp (sets.secure.symm.trans unset.secure)
    obtain ⟨hidden, httpOnly⟩ := Bool.or_eq_false_iff.mp (sets.httpOnly.symm.trans unset.httpOnly)
    obtain ⟨sites, sameSite⟩ := Option.or_eq_none_iff.mp (sets.sameSite.symm.trans unset.sameSite)
    obtain ⟨date, expires⟩ := Option.or_eq_none_iff.mp (sets.expires.symm.trans unset.expires)
    obtain ⟨age, maxAge⟩ := Option.or_eq_none_iff.mp (sets.maxAge.symm.trans unset.maxAge)
    exact ⟨⟨secure, httpOnly, sameSite, expires, maxAge⟩, bare, hidden,
      parseAttribute_known parsed sites, date, age⟩
  · intro ⟨unset, bare, hidden, sites, date, age⟩
    -- A part that says nothing is not refused either.
    obtain ⟨next, parsed⟩ := parseAttribute_defined cookie referenceYear sites
    have sets := parseAttribute_sets parsed
    refine ⟨next, parsed, ?_, ?_, ?_, ?_, ?_⟩
    · rw [sets.secure, bare, unset.secure, Bool.or_self]
    · rw [sets.httpOnly, hidden, unset.httpOnly, Bool.or_self]
    · rw [sets.sameSite, (said_nothing (trimOws part) referenceYear).2.2 sites, unset.sameSite,
        Option.or_none]
    · rw [sets.expires, date, unset.expires, Option.or_none]
    · rw [sets.maxAge, age, unset.maxAge, Option.or_none]

/-- Parts leave a cookie unset exactly when each of them is harmless and the cookie was unset. -/
theorem foldlM_unset (parts : List Str) (cookie : SetCookie) (referenceYear : UInt16) :
    (∃ last, parts.foldlM (parseAttribute referenceYear) cookie = .ok last ∧ IsUnset last) ↔
      IsUnset cookie ∧ ∀ part ∈ parts, IsHarmless referenceYear (trimOws part) := by
  -- The cookie changes with every part.
  induction parts generalizing cookie with
  | nil =>
    constructor
    · intro ⟨last, parsed, unset⟩
      cases parsed
      exact ⟨unset, List.forall_mem_nil _⟩
    · intro ⟨unset, _⟩
      exact ⟨cookie, rfl, unset⟩
  | cons part parts ih =>
    rw [List.forall_mem_cons]
    constructor
    · intro ⟨last, parsed, unset⟩
      obtain ⟨next, one, behind⟩ := foldlM_cons_ok.mp parsed
      obtain ⟨between, others⟩ := (ih next).mp ⟨last, behind, unset⟩
      obtain ⟨before, here⟩ := (parseAttribute_unset cookie part referenceYear).mp ⟨next, one, between⟩
      exact ⟨before, here, others⟩
    · intro ⟨before, here, others⟩
      obtain ⟨next, one, between⟩ := (parseAttribute_unset cookie part referenceYear).mpr ⟨before, here⟩
      obtain ⟨last, behind, unset⟩ := (ih next).mpr ⟨between, others⟩
      exact ⟨last, foldlM_cons_ok.mpr ⟨next, one, behind⟩, unset⟩

/-- A labelled part is harmless if its label has no meaning but that of a domain or a path. -/
theorem isHarmless_labelled (label : Str) (inside : label ∈ ["Domain".toList, "Path".toList])
    (value : Str) (referenceYear : UInt16) :
    IsHarmless referenceYear (trimOws (' ' :: (label ++ '=' :: value))) := by
  have plain : ∀ label ∈ ["Domain".toList, "Path".toList], (label ++ ['=']) ≠ [] ∧
      (∀ char ∈ label ++ ['='], isOws char = false) ∧ '=' ∉ label ∧
      ∀ name ∈ ["samesite".toList, "expires".toList, "max-age".toList],
        toAsciiLowercase (trim label) ≠ name := by
    decide +kernel
  obtain ⟨filled, dark, sign, others⟩ := plain label inside
  -- Trimming does not reach the label and its equals sign.
  obtain ⟨rest, same⟩ := (Trimming.isTrimmed_of_none dark).trim_append filled [' ']
    (List.forall_mem_singleton.mpr (by decide)) value
  have trimmed : trimOws (' ' :: (label ++ '=' :: value)) = label ++ '=' :: rest := by
    have whole := same
    simp only [List.append_assoc, List.singleton_append] at whole
    exact whole
  rw [trimmed]
  have present : '=' ∈ label ++ '=' :: rest := by simp
  have named : ∀ name ∈ ["samesite".toList, "expires".toList, "max-age".toList],
      ¬ IsNamed name (label ++ '=' :: rest) := by
    intro name known
    unfold IsNamed
    rw [attributeName, splitOnce_append sign]
    exact others name known
  exact ⟨fun plain => absurd present plain, fun _ => named _ (by decide),
    fun _ same => absurd same (named _ (by decide)), fun _ same => absurd same (named _ (by decide))⟩

/-- Text in front without a semicolon belongs to the first part of a value. -/
theorem splitOn_labelled (front : Str) (plain : ';' ∉ front) (value : Str) :
    ∃ first, (front ++ value).splitOn ';' = (front ++ first) :: (value.splitOn ';').tail := by
  obtain ⟨first, rest, same⟩ := List.exists_cons_of_ne_nil (List.splitOn_ne_nil ';' value)
  refine ⟨first, ?_⟩
  rw [Separating.splitOn_append plain, same]
  rfl

/-- The parts of a cookie with a domain and a path. -/
theorem splitOn_display (pair : Cookie) (domain path : Str) :
    ∃ front back, (((ofCookie pair).withDomain domain).withPath path).display.splitOn ';' =
      pair.display :: ((' ' :: ("Domain".toList ++ '=' :: front)) :: (domain.splitOn ';').tail ++
        (' ' :: ("Path".toList ++ '=' :: back)) :: (path.splitOn ';').tail) := by
  -- Only the domain and the path are written.
  have shown : (((ofCookie pair).withDomain domain).withPath path).display =
      pair.display ++ ';' :: (" Domain=".toList ++ domain ++ ';' :: (" Path=".toList ++ path)) := by
    have same : (((ofCookie pair).withDomain domain).withPath path).display =
        pair.display ++ ([] ++ ([] ++ (("; Domain=".toList ++ domain) ++
          (("; Path=".toList ++ path) ++ ([] ++ ([] ++ [])))))) := rfl
    rw [same]
    simp
  -- The name of each stands in front of the first semicolon of its value.
  obtain ⟨front, first⟩ := splitOn_labelled " Domain=".toList (by decide) domain
  obtain ⟨back, last⟩ := splitOn_labelled " Path=".toList (by decide) path
  refine ⟨front, back, ?_⟩
  rw [shown, List.splitOn_append_cons_self_of_not_mem pair.display_plain.2.2,
    List.splitOn_append_cons_self, first, last]
  rfl

/-- What is parsed of a cookie with a domain and a path. -/
theorem parse_display_with (pair : Cookie) (domain path : Str) (referenceYear : UInt16) :
    ∃ parts : List Str, parts.map trimOws =
        attributes (((ofCookie pair).withDomain domain).withPath path).display ∧
      parse (((ofCookie pair).withDomain domain).withPath path).display referenceYear =
        parts.foldlM (parseAttribute referenceYear) (ofCookie pair) := by
  obtain ⟨front, back, split⟩ := splitOn_display pair domain path
  generalize text : (((ofCookie pair).withDomain domain).withPath path).display = input at split
  obtain ⟨filled, trimmed, _⟩ := pair.display_plain
  have ows : Trimming.IsTrimmed isOws pair.display := trimmed.mono fun _ => isWhitespace_of_ows
  have same := Separating.map_trim_splitOn (by decide : isOws ';' = false) input
  change ((trimOws input).splitOn ';').map trimOws = (input.splitOn ';').map trimOws at same
  obtain ⟨first, parts, pieces⟩ := List.exists_cons_of_ne_nil (List.splitOn_ne_nil ';' (trimOws input))
  have head : trimOws first = pair.display := by
    rw [pieces, split, List.map_cons, List.map_cons] at same
    exact (List.cons.inj same).1.trans ows.trim_eq
  -- The pair is in front, so there is something.
  have present : ¬ (trimOws input).isEmpty = true := by
    intro empty
    rw [List.isEmpty_iff.mp empty, List.splitOn_nil] at pieces
    rw [← (List.cons.inj pieces).1] at head
    exact filled head.symm
  refine ⟨parts, attributes_trimmed pieces, ?_⟩
  rw [parse, if_neg present, pieces]
  dsimp only
  rw [head, pair.parseCookiePair_display]

/-- A cookie of a name and a value with a domain and a path has no other attributes exactly when the
parts behind semicolons in the domain and in the path are harmless. -/
theorem injection_free {name value : Str} {base : SetCookie} (made : new name value = .ok base)
    (domain path : Str) (referenceYear : UInt16) :
    IsUninjected name value ((base.withDomain domain).withPath path).display referenceYear ↔
      ∀ part ∈ (domain.splitOn ';').tail ++ (path.splitOn ';').tail,
        IsHarmless referenceYear (trimOws part) := by
  have stored : ∃ pair : Cookie, base = ofCookie pair ∧ pair.name = name ∧ pair.value = value := by
    unfold new Cookie.new at made
    split at made
    · cases made
    split at made
    · split at made
      · cases made
        exact ⟨_, rfl, rfl, rfl⟩
      · cases made
    · cases made
  obtain ⟨pair, rfl, rfl, rfl⟩ := stored
  obtain ⟨parts, same, parsed⟩ := parse_display_with pair domain path referenceYear
  obtain ⟨front, back, split⟩ := splitOn_display pair domain path
  have unset : IsUnset (ofCookie pair) := ⟨rfl, rfl, rfl, rfl, rfl⟩
  have clean := foldlM_unset parts (ofCookie pair) referenceYear
  have uninjected : IsUninjected pair.name pair.value
      (((ofCookie pair).withDomain domain).withPath path).display referenceYear ↔
      ∀ part ∈ parts.map trimOws, IsHarmless referenceYear part := by
    rw [List.forall_mem_map]
    refine Iff.trans ?_ (clean.trans (and_iff_right unset))
    rw [IsUninjected, parsed]
    constructor
    · intro read
      obtain ⟨last, folded, _, _, holds⟩ := read
      exact ⟨last, folded, holds⟩
    · intro read
      obtain ⟨last, folded, holds⟩ := read
      have kept := (foldlM_sets folded).pair
      exact ⟨last, folded, congrArg Cookie.name kept, congrArg Cookie.value kept, holds⟩
  rw [uninjected, same, attributes, split, List.tail_cons, List.forall_mem_map, List.cons_append,
    List.forall_mem_cons, List.forall_mem_append, List.forall_mem_cons, List.forall_mem_append]
  -- The parts with the labels are harmless.
  have first := isHarmless_labelled "Domain".toList (by decide) front referenceYear
  have last := isHarmless_labelled "Path".toList (by decide) back referenceYear
  constructor
  · intro each
    obtain ⟨_, behind, _, after⟩ := each
    exact ⟨behind, after⟩
  · intro each
    exact ⟨first, each.1, last, each.2⟩

/-- A path with a semicolon in it whose parts are harmless. -/
theorem injection_free_unknown : ∃ base, new "a".toList "b".toList = .ok base ∧
    (IsUninjected "a".toList "b".toList
        ((base.withDomain "x".toList).withPath "/; Secure=1".toList).display 2024 ↔
      ∀ part ∈ (List.splitOn ';' "x".toList).tail ++ (List.splitOn ';' "/; Secure=1".toList).tail,
        IsHarmless 2024 (trimOws part)) := by
  have made : new "a".toList "b".toList =
      .ok (ofCookie ⟨"a".toList, "b".toList, by decide, by decide⟩) := by
    decide
  exact ⟨_, made, injection_free made _ _ _⟩

/-- A domain with a semicolon in it makes a cookie secure. -/
theorem flag_injected : ¬ ∀ (name value : Str) (base : SetCookie), new name value = .ok base →
    ∀ (domain path : Str) (year : UInt16),
      IsUninjected name value ((base.withDomain domain).withPath path).display year := by
  intro safe
  have made : new "a".toList "b".toList =
      .ok (ofCookie ⟨"a".toList, "b".toList, by decide, by decide⟩) := by
    decide
  -- The semicolon of the domain ends the attribute.
  obtain ⟨cookie, parsed, _, _, unset⟩ := safe _ _ _ made "x; Secure".toList "/".toList 2024
  have read : (parse (((ofCookie ⟨"a".toList, "b".toList, by decide, by decide⟩).withDomain
      "x; Secure".toList).withPath "/".toList).display 2024).map (·.secure) = .ok true := by
    decide
  -- The second part of the domain was read as a flag.
  rw [parsed] at read
  cases unset.secure.symm.trans (Except.ok.inj read)

end SetCookie

end Http11

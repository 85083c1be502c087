import Http11.CookieAttributes
import Http11.Proofs.Cookie

/-! What each attribute sets of a cookie, and what all of them set together. -/

namespace Http11

namespace SetCookie

/-- The value of an attribute if it has some name and an equals sign. -/
def valueOf (name part : Str) : Option Str :=
  match splitOnce '=' part with
  | some (front, back) => if toAsciiLowercase (trim front) = name then some (trim back) else none
  | none => none

/-- An attribute has some name and no equals sign. -/
def isBare (name part : Str) : Bool :=
  (splitOnce '=' part).isNone && toAsciiLowercase part == name

/-- The date that an attribute sets. -/
def saidExpires (referenceYear : UInt16) (part : Str) : Option HttpDate :=
  (valueOf "expires".toList part).bind fun value => (parseExpires value referenceYear).toOption

/-- The seconds that an attribute sets. -/
def saidMaxAge (part : Str) : Option Int :=
  (valueOf "max-age".toList part).bind parseMaxAge

/-- The sites that an attribute sets. -/
def saidSameSite (part : Str) : Option SameSite :=
  (valueOf "samesite".toList part).bind fun value => (SameSite.fromStr value).toOption

/-- An attribute is bare if it has a name and no equals sign. -/
theorem isBare_iff {name part : Str} : isBare name part = true ↔ '=' ∉ part ∧ IsNamed name part := by
  rw [isBare, IsNamed, attributeName, Bool.and_eq_true, Option.isNone_iff_eq_none, beq_iff_eq]
  constructor
  · -- Without a sign the name is the whole part.
    intro ⟨split, named⟩
    rw [split]
    exact ⟨not_mem_of_splitOnce split, named⟩
  · intro ⟨plain, named⟩
    rw [splitOnce_none plain] at named ⊢
    exact ⟨rfl, named⟩

/-- The value of an attribute is what stands behind its equals sign. -/
theorem valueOf_iff {name part value : Str} : valueOf name part = some value ↔
    '=' ∈ part ∧ IsNamed name part ∧ attributeValue part = value := by
  unfold IsNamed
  rw [valueOf, attributeName, attributeValue]
  cases split : splitOnce '=' part with
  | none => simp [not_mem_of_splitOnce split]
  | some pair =>
    -- A value stands behind a sign, so there is one.
    have inside : '=' ∈ part := by
      rw [(splitOnce_some split).1]
      simp
    simp [inside]

/-- What an attribute sets, and what it leaves as it is. -/
structure Sets (referenceYear : UInt16) (part : Str) (cookie next : SetCookie) : Prop where
  /-- The name and the value stay. -/
  pair : next.toCookie = cookie.toCookie
  /-- The date. -/
  expires : next.expires = (saidExpires referenceYear part).or cookie.expires
  /-- The seconds. -/
  maxAge : next.maxAge = (saidMaxAge part).or cookie.maxAge
  /-- The first flag. -/
  secure : next.secure = (isBare "secure".toList part || cookie.secure)
  /-- The second flag. -/
  httpOnly : next.httpOnly = (isBare "httponly".toList part || cookie.httpOnly)
  /-- The sites. -/
  sameSite : next.sameSite = (saidSameSite part).or cookie.sameSite

/-- An attribute without these names sets none of these fields. -/
theorem said_nothing (part : Str) (referenceYear : UInt16) :
    (valueOf "expires".toList part = none → saidExpires referenceYear part = none) ∧
    (valueOf "max-age".toList part = none → saidMaxAge part = none) ∧
    (valueOf "samesite".toList part = none → saidSameSite part = none) := by
  refine ⟨fun silent => ?_, fun silent => ?_, fun silent => ?_⟩
  · rw [saidExpires, silent, Option.bind_none]
  · rw [saidMaxAge, silent, Option.bind_none]
  · rw [saidSameSite, silent, Option.bind_none]

/-- What an attribute sets if it has no flag for a name: what is known to be said. -/
theorem sets_said {cookie : SetCookie} {part : Str} {referenceYear : UInt16}
    {date : Option HttpDate} {age : Option Int} {sites : Option SameSite}
    (bare : ∀ name, isBare name part = false) (expires : saidExpires referenceYear part = date)
    (maxAge : saidMaxAge part = age) (sameSite : saidSameSite part = sites)
    (domain path : Option Str) :
    Sets referenceYear part cookie { cookie with
      expires := date.or cookie.expires, maxAge := age.or cookie.maxAge, domain, path,
      sameSite := sites.or cookie.sameSite } where
  pair := rfl
  expires := by rw [expires]
  maxAge := by rw [maxAge]
  secure := by rw [bare, Bool.false_or]
  httpOnly := by rw [bare, Bool.false_or]
  sameSite := by rw [sameSite]

/-- An attribute of sites is one of sites or refused. -/
theorem setAttribute_sites (cookie : SetCookie) {attrName : Str} (attrValue : Str)
    (referenceYear : UInt16) (named : toAsciiLowercase attrName = "samesite".toList) :
    cookie.setAttribute attrName attrValue referenceYear =
      (SameSite.fromStr attrValue).map fun sameSite => { cookie with sameSite := some sameSite } := by
  rw [setAttribute, named, if_neg (by decide), if_neg (by decide), if_neg (by decide),
    if_neg fun both => absurd both.1 (by decide), if_pos rfl]

/-- An attribute with an equals sign sets what its name and its value say. -/
theorem setAttribute_sets {cookie next : SetCookie} {part front back : Str} {referenceYear : UInt16}
    (split : splitOnce '=' part = some (front, back))
    (set : cookie.setAttribute (trim front) (trim back) referenceYear = .ok next) :
    Sets referenceYear part cookie next := by
  have bare : ∀ name, isBare name part = false := by simp [isBare, split]
  have valued : ∀ name, valueOf name part =
      if toAsciiLowercase (trim front) = name then some (trim back) else none := by
    simp [valueOf, split]
  unfold setAttribute at set
  dsimp only at set
  generalize toAsciiLowercase (trim front) = lower at set valued
  have silent : ∀ name, lower ≠ name → valueOf name part = none := fun name other => by
    rw [valued, if_neg other]
  obtain ⟨noExpires, noMaxAge, noSameSite⟩ := said_nothing part referenceYear
  -- The cases are those of the names, of which the part has one.
  -- A date that cannot be read is passed over.
  by_cases expires : lower = "expires".toList
  · have said := (valued lower).trans (if_pos rfl)
    rw [if_pos expires] at set
    subst expires
    have age := noMaxAge (silent _ (by decide))
    have sites := noSameSite (silent _ (by decide))
    cases read : parseExpires (trim back) referenceYear with
    | ok date =>
      rw [read] at set
      cases set
      have date : saidExpires referenceYear part = some date := by
        rw [saidExpires, said, Option.bind_some, read]
        rfl
      exact sets_said bare date age sites cookie.domain cookie.path
    | error error =>
      rw [read] at set
      cases set
      have date : saidExpires referenceYear part = none := by
        rw [saidExpires, said, Option.bind_some, read]
        rfl
      exact sets_said bare date age sites cookie.domain cookie.path
  rw [if_neg expires] at set
  have date := noExpires (silent _ expires)
  -- So is a number of seconds that cannot be read.
  by_cases maxAge : lower = "max-age".toList
  · have said := (valued lower).trans (if_pos rfl)
    rw [if_pos maxAge] at set
    subst maxAge
    have sites := noSameSite (silent _ (by decide))
    cases read : parseMaxAge (trim back) with
    | some age =>
      rw [read] at set
      cases set
      have age : saidMaxAge part = some age := by rw [saidMaxAge, said, Option.bind_some, read]
      exact sets_said bare date age sites cookie.domain cookie.path
    | none =>
      rw [read] at set
      cases set
      have age : saidMaxAge part = none := by rw [saidMaxAge, said, Option.bind_some, read]
      exact sets_said bare date age sites cookie.domain cookie.path
  rw [if_neg maxAge] at set
  have age := noMaxAge (silent _ maxAge)
  -- An unknown site refuses the whole header.
  by_cases sameSite : lower = "samesite".toList
  · have said := (valued lower).trans (if_pos rfl)
    subst sameSite
    rw [if_neg (by decide), if_neg fun both => absurd both.1 (by decide), if_pos rfl] at set
    cases read : SameSite.fromStr (trim back) with
    | ok sites =>
      rw [read] at set
      cases set
      have sites : saidSameSite part = some sites := by
        rw [saidSameSite, said, Option.bind_some, read]
        rfl
      exact sets_said bare date age sites cookie.domain cookie.path
    | error error =>
      rw [read] at set
      cases set
  have sites := noSameSite (silent _ sameSite)
  -- What is left sets the domain or the path at most.
  split at set
  · split at set
    · rename_i domain _
      cases set
      exact sets_said bare date age sites (some domain) cookie.path
    · cases set
      exact sets_said bare date age sites cookie.domain cookie.path
  split at set
  · cases set
    exact sets_said bare date age sites cookie.domain (some (trim back))
  · cases set
    exact sets_said bare date age sites cookie.domain cookie.path

/-- An attribute without an equals sign sets a flag at most. -/
theorem setFlag_sets (cookie : SetCookie) {part : Str} (referenceYear : UInt16)
    (split : splitOnce '=' part = none) : Sets referenceYear part cookie (cookie.setFlag part) := by
  -- Without a sign there is no value of any name.
  have silent : ∀ name, valueOf name part = none := by simp [valueOf, split]
  obtain ⟨noExpires, noMaxAge, noSameSite⟩ := said_nothing part referenceYear
  have bare : ∀ name, isBare name part = (toAsciiLowercase part == name) := by simp [isBare, split]
  -- The two names are different, so at most one flag is raised.
  have kept : (cookie.setFlag part).toCookie = cookie.toCookie ∧
      (cookie.setFlag part).expires = cookie.expires ∧ (cookie.setFlag part).maxAge = cookie.maxAge ∧
      (cookie.setFlag part).sameSite = cookie.sameSite ∧
      (cookie.setFlag part).secure = ((toAsciiLowercase part == "secure".toList) || cookie.secure) ∧
      (cookie.setFlag part).httpOnly =
        ((toAsciiLowercase part == "httponly".toList) || cookie.httpOnly) := by
    unfold setFlag
    dsimp only
    generalize toAsciiLowercase part = lower
    by_cases secure : lower = "secure".toList
    · have other : ("secure".toList == "httponly".toList) = false := by decide
      rw [if_pos secure, secure, other]
      exact ⟨rfl, rfl, rfl, rfl, rfl, rfl⟩
    rw [if_neg secure, beq_eq_false_iff_ne.mpr secure]
    by_cases httpOnly : lower = "httponly".toList
    · rw [if_pos httpOnly, httpOnly]
      exact ⟨rfl, rfl, rfl, rfl, rfl, rfl⟩
    · rw [if_neg httpOnly, beq_eq_false_iff_ne.mpr httpOnly]
      exact ⟨rfl, rfl, rfl, rfl, rfl, rfl⟩
  obtain ⟨pair, expires, maxAge, sameSite, secure, httpOnly⟩ := kept
  -- The fields that were kept were not said anything of.
  refine ⟨pair, ?_, ?_, ?_, ?_, ?_⟩
  · rw [expires, noExpires (silent _), Option.none_or]
  · rw [maxAge, noMaxAge (silent _), Option.none_or]
  · rw [secure, bare]
  · rw [httpOnly, bare]
  · rw [sameSite, noSameSite (silent _), Option.none_or]

/-- A part sets what is said without white space around it. -/
theorem parseAttribute_sets {cookie next : SetCookie} {part : Str} {referenceYear : UInt16}
    (parsed : parseAttribute referenceYear cookie part = .ok next) :
    Sets referenceYear (trimOws part) cookie next := by
  unfold parseAttribute at parsed
  dsimp only at parsed
  generalize trimOws part = part at parsed
  split at parsed
  · rename_i empty
    rw [List.isEmpty_iff] at empty
    cases parsed
    rw [empty]
    -- Nothing is no flag.
    exact setFlag_sets cookie referenceYear rfl
  split at parsed
  · rename_i split
    exact setAttribute_sets split parsed
  · rename_i split
    cases parsed
    exact setFlag_sets cookie referenceYear split

/-- A part that names no sites is not refused. -/
theorem parseAttribute_defined (cookie : SetCookie) {part : Str} (referenceYear : UInt16)
    (silent : valueOf "samesite".toList (trimOws part) = none) :
    ∃ next, parseAttribute referenceYear cookie part = .ok next := by
  unfold parseAttribute
  dsimp only
  generalize trimOws part = part at silent
  split
  · exact ⟨_, rfl⟩
  split
  · rename_i front back split
    have other : toAsciiLowercase (trim front) ≠ "samesite".toList := by
      intro named
      rw [valueOf, split] at silent
      dsimp only at silent
      rw [if_pos named] at silent
      cases silent
    unfold setAttribute
    dsimp only
    -- Nothing but sites is refused.
    repeat' split
    all_goals exact ⟨_, rfl⟩
  · exact ⟨_, rfl⟩

/-- The sites that a part names are sites. -/
theorem parseAttribute_known {cookie next : SetCookie} {part : Str} {referenceYear : UInt16}
    (parsed : parseAttribute referenceYear cookie part = .ok next)
    (silent : saidSameSite (trimOws part) = none) :
    valueOf "samesite".toList (trimOws part) = none := by
  unfold parseAttribute at parsed
  dsimp only at parsed
  generalize trimOws part = part at parsed silent
  rw [saidSameSite] at silent
  cases said : valueOf "samesite".toList part with
  | none => rfl
  | some value =>
    rw [said, Option.bind_some] at silent
    rw [valueOf] at said
    split at said
    · rename_i front back split
      split at said
      · rename_i named
        cases said
        rw [if_neg, split] at parsed
        · dsimp only at parsed
          rw [setAttribute_sites _ _ _ named] at parsed
          cases read : SameSite.fromStr (trim back) with
          | ok sites =>
            rw [read] at silent
            cases silent
          | error error =>
            rw [read] at parsed
            cases parsed
        · -- There is an equals sign in the part.
          intro empty
          rw [List.isEmpty_iff.mp empty] at split
          cases split
      · cases said
    · cases said

/-- What attributes set together, of which the last one that says something about a field counts. -/
structure SetsAll (referenceYear : UInt16) (parts : List Str) (cookie last : SetCookie) : Prop where
  /-- The name and the value stay. -/
  pair : last.toCookie = cookie.toCookie
  /-- The date. -/
  expires : last.expires = (parts.filterMap (saidExpires referenceYear)).getLast?.or cookie.expires
  /-- The seconds. -/
  maxAge : last.maxAge = (parts.filterMap saidMaxAge).getLast?.or cookie.maxAge
  /-- The first flag. -/
  secure : last.secure = (parts.any (isBare "secure".toList) || cookie.secure)
  /-- The second flag. -/
  httpOnly : last.httpOnly = (parts.any (isBare "httponly".toList) || cookie.httpOnly)
  /-- The sites. -/
  sameSite : last.sameSite = (parts.filterMap saidSameSite).getLast?.or cookie.sameSite

/-- Parts set together what each of them sets. -/
theorem foldlM_sets {parts : List Str} {cookie last : SetCookie} {referenceYear : UInt16}
    (parsed : parts.foldlM (parseAttribute referenceYear) cookie = .ok last) :
    SetsAll referenceYear (parts.map trimOws) cookie last := by
  -- The cookie changes with every part.
  induction parts generalizing cookie with
  | nil =>
    cases parsed
    exact ⟨rfl, rfl, rfl, rfl, rfl, rfl⟩
  | cons part parts ih =>
    obtain ⟨next, one, behind⟩ := foldlM_cons_ok.mp parsed
    have sets := parseAttribute_sets one
    have all := ih behind
    rw [List.map_cons]
    refine ⟨all.pair.trans sets.pair, ?_, ?_, ?_, ?_, ?_⟩
    · rw [all.expires, sets.expires, getLast?_said]
    · rw [all.maxAge, sets.maxAge, getLast?_said]
    · rw [all.secure, sets.secure, List.any_cons, Bool.or_left_comm, Bool.or_assoc]
    · rw [all.httpOnly, sets.httpOnly, List.any_cons, Bool.or_left_comm, Bool.or_assoc]
    · rw [all.sameSite, sets.sameSite, getLast?_said]

/-- The attributes of a header are the parts of it that are parsed, each trimmed. -/
theorem attributes_trimmed {input first : Str} {parts : List Str}
    (split : (trimOws input).splitOn ';' = first :: parts) :
    parts.map trimOws = attributes input := by
  have same := Separating.map_trim_splitOn (by decide : isOws ';' = false) input
  change ((trimOws input).splitOn ';').map trimOws = _ at same
  rw [split, List.map_cons] at same
  have tails := congrArg List.tail same
  rw [List.tail_cons, ← List.map_tail] at tails
  exact tails

/-- A header sets what its attributes set together, on a cookie without attributes. -/
theorem parse_sets {input : Str} {referenceYear : UInt16} {cookie : SetCookie}
    (parsed : parse input referenceYear = .ok cookie) :
    ∃ pair, SetsAll referenceYear (attributes input) (ofCookie pair) cookie := by
  -- The first part is the pair, all others are attributes.
  unfold parse at parsed
  dsimp only at parsed
  split at parsed
  · cases parsed
  split at parsed
  · cases parsed
  rename_i first parts split
  split at parsed
  · cases parsed
  rename_i pair read
  -- Trimming the first part changes no attribute.
  rw [← attributes_trimmed split]
  exact ⟨pair, foldlM_sets parsed⟩

end SetCookie

end Http11

import Http11.Proofs.Cookie

/-! Cookies that are set are the same when they are parsed again, in whatever year. -/

namespace Http11

namespace SetCookie

/-- A written number is one of digits, the first of which is no minus sign. -/
theorem write_digits (value : Nat) : ∃ first rest, Numerals.write 10 value = first :: rest ∧
    first ≠ '-' ∧ first.isDigit = true ∧ rest.all Char.isDigit = true := by
  obtain ⟨⟨present, digits⟩, _⟩ := isDigits_write value
  obtain ⟨first, rest, same⟩ := List.exists_cons_of_ne_nil present
  rw [same] at digits
  obtain ⟨digit, behind⟩ := List.forall_mem_cons.mp digits
  refine ⟨first, rest, same, ?_, digit, List.all_eq_true.mpr behind⟩
  -- A sign is no digit.
  intro minus
  rw [minus] at digit
  exact absurd digit (by decide)

/-- The seconds that a header may hold. -/
def IsMaxAge (age : Int) : Prop := 0 ≤ age ∧ age ≤ 2 ^ 63 - 1

/-- The seconds of a header are within their bounds. -/
theorem parseMaxAge_bounds {value : Str} {age : Int} (parsed : parseMaxAge value = some age) :
    IsMaxAge age := by
  -- A number of 64 bits, with a sign or without one.
  have bounds : ∀ number, parseI64 value = some number → number ≤ 2 ^ 63 - 1 := by
    intro number read
    unfold parseI64 at read
    split at read
    · split at read
      · cases read
      · obtain ⟨natural, _, rfl⟩ := Option.map_eq_some_iff.mp read
        have : (0 : Int) ≤ Int.ofNat natural := Int.natCast_nonneg natural
        omega
    · obtain ⟨natural, found, rfl⟩ := Option.map_eq_some_iff.mp read
      have within := Numerals.read_le found
      have : Int.ofNat natural ≤ 2 ^ 63 - 1 := by
        rw [Int.ofNat_eq_natCast]
        omega
      exact this
  unfold parseMaxAge at parsed
  split at parsed
  · cases parsed
  · split at parsed
    · obtain ⟨number, read, rfl⟩ := Option.map_eq_some_iff.mp parsed
      have within := bounds number read
      split
      · -- Zero and what is below it expire at once.
        exact ⟨Int.le_refl 0, by decide⟩
      · exact ⟨by omega, within⟩
    · cases parsed

/-- The seconds are read as they are written. -/
theorem parseMaxAge_display {age : Int} (bounds : IsMaxAge age) :
    parseMaxAge (displayInt age) = some age ∧ displayInt age ≠ [] ∧
      ∀ char ∈ displayInt age, char.isDigit = true := by
  obtain ⟨positive, within⟩ := bounds
  -- What is written has no sign, so it is read as a number of digits.
  have shown : displayInt age = Numerals.write 10 age.natAbs := if_neg (by omega)
  obtain ⟨first, rest, same, plain, digit, digits⟩ := write_digits age.natAbs
  have read : Numerals.read 10 (2 ^ 63 - 1) (Numerals.write 10 age.natAbs) = some age.natAbs :=
    Numerals.read_write (by decide) (by decide) (by omega)
  have number : parseI64 (displayInt age) = some age := by
    rw [shown, same]
    unfold parseI64
    -- The first digit is no minus sign.
    split
    · rename_i _ signed
      exact absurd (List.cons.inj signed).1 plain
    · rw [← same, read, Option.map_some]
      exact congrArg some (Int.natAbs_of_nonneg positive)
  refine ⟨?_, by rw [shown, same]; exact List.cons_ne_nil _ _, ?_⟩
  · rw [shown, same] at number ⊢
    simp only [parseMaxAge, digit, digits, number, Bool.true_or, Bool.and_self, if_true,
      Option.map_some]
    rw [if_neg (by omega)]
  · rw [shown, same]
    exact List.forall_mem_cons.mpr ⟨digit, List.all_eq_true.mp digits⟩

/-- A character of domains. -/
def isDomainChar (char : Char) : Bool :=
  ofKind (fun byte => isAsciiAlphanumeric byte || byte == 0x2D || byte == 0x2E) char

/-- The domain of a header is stored in lower case without a dot in front. -/
theorem parseDomain_stored {value domain : Str} (parsed : parseDomain value = some domain) :
    parseDomain domain = some domain ∧ domain ≠ [] ∧
      ∀ char ∈ domain, isWhitespace char = false ∧ char ≠ ';' := by
  unfold parseDomain at parsed
  dsimp only at parsed
  generalize (stripPrefix ['.'] value).getD value = text at parsed
  split at parsed
  · cases parsed
  rename_i accepted
  simp only [Bool.or_eq_true, not_or, List.isEmpty_iff, decide_eq_true_eq, Bool.not_eq_true',
    Bool.not_eq_false] at accepted
  obtain ⟨⟨filled, dot⟩, valid⟩ := accepted
  rw [Option.some.injEq] at parsed
  obtain ⟨first, rest, rfl⟩ := List.exists_cons_of_ne_nil filled
  rw [List.head?_cons, Option.some.injEq] at dot
  -- Lower case changes no character to a dot or to one that is none of domains.
  have cased : ∀ char : Char, isDomainChar char.toLower = isDomainChar char :=
    toLower_same isDomainChar (by decide)
  have dotted : (first.toLower == '.') = (first == '.') :=
    toLower_same (· == '.') (by decide) first
  have each : ∀ char ∈ first :: rest, isDomainChar char = true := by
    rw [isValidDomainValue, encode_all, List.all_eq_true] at valid
    exact valid
  have lower : ∀ char ∈ toAsciiLowercase (first :: rest), isDomainChar char = true := by
    refine List.forall_mem_map.mpr fun char inside => ?_
    rw [cased]
    exact each char inside
  have again : isValidDomainValue (toAsciiLowercase (first :: rest)) = true := by
    rw [isValidDomainValue, encode_all, List.all_eq_true]
    exact lower
  subst parsed
  refine ⟨?_, by simp [toAsciiLowercase], ?_⟩
  · have other : first.toLower ≠ '.' := by
      rw [← beq_eq_false_iff_ne, dotted, beq_eq_false_iff_ne]
      exact dot
    have kept : stripPrefix ['.'] (toAsciiLowercase (first :: rest)) = none := by
      simp [stripPrefix, toAsciiLowercase, Ne.symm other]
    have accepted : ¬ ((toAsciiLowercase (first :: rest)).isEmpty ||
        (toAsciiLowercase (first :: rest)).head? = some '.' ||
        !isValidDomainValue (toAsciiLowercase (first :: rest))) = true := by
      rw [again]
      simp [toAsciiLowercase, other]
    rw [parseDomain, kept, Option.getD_none, if_neg accepted, toAsciiLowercase_idempotent]
  · have narrow : IsNarrow (fun byte => isAsciiAlphanumeric byte || byte == 0x2D || byte == 0x2E) false :=
      forall_byte (by decide +kernel)
    intro char inside
    obtain ⟨ascii, kept⟩ := ascii_of_all narrow again char inside
    revert kept
    exact forall_ascii (motive := fun char => (isAsciiAlphanumeric (UInt8.ofNat char.toNat) ||
      UInt8.ofNat char.toNat == 0x2D || UInt8.ofNat char.toNat == 0x2E) = true →
      isWhitespace char = false ∧ char ≠ ';') (by decide) ascii

/-- What is stored of a header. -/
structure IsStored (cookie : SetCookie) : Prop where
  /-- The seconds are within their bounds. -/
  maxAge : ∀ age, cookie.maxAge = some age → IsMaxAge age
  /-- The domain is read as it is. -/
  domain : ∀ domain, cookie.domain = some domain → parseDomain domain = some domain ∧ domain ≠ [] ∧
    ∀ char ∈ domain, isWhitespace char = false ∧ char ≠ ';'
  /-- The path starts with a slash, without white space around it and without semicolons. -/
  path : ∀ path, cookie.path = some path → path.head? = some '/' ∧
    Trimming.IsTrimmed isWhitespace path ∧ ';' ∉ path

/-- An attribute is stored that has no semicolons in it. -/
theorem setAttribute_stored {cookie next : SetCookie} {attrName attrValue : Str}
    {referenceYear : UInt16} (stored : cookie.IsStored)
    (trimmed : Trimming.IsTrimmed isWhitespace attrValue) (plain : ';' ∉ attrValue)
    (set : cookie.setAttribute attrName attrValue referenceYear = .ok next) : next.IsStored := by
  unfold setAttribute at set
  dsimp only at set
  split at set
  · -- One branch for each name that the source knows.
    split at set <;> cases set
    · exact ⟨stored.maxAge, stored.domain, stored.path⟩
    · exact stored
  split at set
  · split at set <;> cases set
    · -- A number of seconds that was read is within its bounds.
      rename_i age read
      refine ⟨fun found same => ?_, stored.domain, stored.path⟩
      cases same
      exact parseMaxAge_bounds read
    · exact stored
  split at set
  · split at set <;> cases set
    · -- A domain was checked, and put into lower case.
      rename_i domain read
      refine ⟨stored.maxAge, fun found same => ?_, stored.path⟩
      cases same
      exact parseDomain_stored read
    · exact stored
  split at set
  · rename_i _ path
    -- A path is stored as it stands, if it begins with a slash.
    cases set
    refine ⟨stored.maxAge, stored.domain, fun found same => ?_⟩
    cases same
    exact ⟨path.2, trimmed, plain⟩
  split at set
  · -- An unknown value of this attribute refuses the header.
    cases sites : SameSite.fromStr attrValue with
    | error error => simp [sites, Except.map] at set
    | ok sameSite =>
      simp only [sites, Except.map, Except.ok.injEq] at set
      rw [← set]
      exact ⟨stored.maxAge, stored.domain, stored.path⟩
  · cases set
    exact stored

/-- A part is stored that has no semicolons in it. -/
theorem parseAttribute_stored {cookie next : SetCookie} {part : Str} {referenceYear : UInt16}
    (stored : cookie.IsStored) (plain : ';' ∉ part)
    (parsed : parseAttribute referenceYear cookie part = .ok next) : next.IsStored := by
  unfold parseAttribute at parsed
  dsimp only at parsed
  split at parsed
  · cases parsed
    exact stored
  split at parsed
  · rename_i front back split
    obtain ⟨left, right, _, _, trimmed, valued⟩ := Trimming.trim_spec isWhitespace back
    refine setAttribute_stored stored trimmed ?_ parsed
    -- The value is a piece of the part.
    obtain ⟨before, after, _, _, _, same⟩ := trimOws_spec part
    intro inside
    refine plain ?_
    rw [same, (splitOnce_some split).1, valued]
    simp [inside]
  · cases parsed
    unfold setFlag
    dsimp only
    split
    · exact ⟨stored.maxAge, stored.domain, stored.path⟩
    · split
      · exact ⟨stored.maxAge, stored.domain, stored.path⟩
      · exact stored

/-- What is parsed may be stored. -/
theorem parse_stored {input : Str} {referenceYear : UInt16} {cookie : SetCookie}
    (parsed : parse input referenceYear = .ok cookie) : cookie.IsStored := by
  unfold parse at parsed
  dsimp only at parsed
  split at parsed
  · cases parsed
  split at parsed
  · cases parsed
  rename_i first parts split
  split at parsed
  · cases parsed
  rename_i pair read
  have plain : ∀ part ∈ parts, ';' ∉ part := fun part inside =>
    Separating.not_mem_of_mem_splitOn (split ▸ List.mem_cons_of_mem _ inside)
  have start : (ofCookie pair).IsStored :=
    ⟨fun _ same => (by cases same), fun _ same => (by cases same), fun _ same => (by cases same)⟩
  clear split
  -- Every part keeps what is stored in order.
  generalize ofCookie pair = state at parsed start
  induction parts generalizing state with
  | nil =>
    cases parsed
    exact start
  | cons part others ih =>
    obtain ⟨next, one, behind⟩ := foldlM_cons_ok.mp parsed
    obtain ⟨here, more⟩ := List.forall_mem_cons.mp plain
    exact ih more next behind (parseAttribute_stored start here one)

/-- The attributes as they are written. -/
def texts (cookie : SetCookie) : List Str :=
  (cookie.expires.map fun date => "Expires".toList ++ '=' :: date.display).toList ++
    ((cookie.maxAge.map fun age => "Max-Age".toList ++ '=' :: displayInt age).toList ++
    ((cookie.domain.map fun domain => "Domain".toList ++ '=' :: domain).toList ++
    ((cookie.path.map fun path => "Path".toList ++ '=' :: path).toList ++
    ((if cookie.secure then ["Secure".toList] else []) ++
    ((if cookie.httpOnly then ["HttpOnly".toList] else []) ++
    (cookie.sameSite.map fun sameSite => "SameSite".toList ++ '=' :: sameSite.display).toList)))))

/-- A field has a semicolon and a space in front if it is there. -/
theorem shown_field {Field : Type} (field : Option Field) (label : Str) (write : Field → Str) :
    (field.map fun value => ';' :: ' ' :: label ++ write value).getD [] =
      (field.map fun value => label ++ write value).toList.flatMap ([';', ' '] ++ ·) := by
  cases field with
  | none => rfl
  | some value => simp

/-- A flag has a semicolon and a space in front if it is there. -/
theorem shown_flag (flag : Bool) (label : Str) :
    (if flag then ';' :: ' ' :: label else []) =
      (if flag then [label] else ([] : List Str)).flatMap ([';', ' '] ++ ·) := by
  cases flag with
  | false => rfl
  | true => simp

/-- A header is the list of its pair and its attributes. -/
theorem display_eq (cookie : SetCookie) : cookie.display =
    [';', ' '].intercalate (cookie.toCookie.display :: cookie.texts) := by
  rw [intercalate_cons_flatMap, texts]
  -- Each field and each flag is written behind a semicolon and a space, if at all.
  simp only [List.flatMap_append]
  have expires := shown_field cookie.expires "Expires=".toList HttpDate.display
  have maxAge := shown_field cookie.maxAge "Max-Age=".toList displayInt
  have domain := shown_field cookie.domain "Domain=".toList id
  have path := shown_field cookie.path "Path=".toList id
  have secure := shown_flag cookie.secure "Secure".toList
  have httpOnly := shown_flag cookie.httpOnly "HttpOnly".toList
  have sameSite := shown_field cookie.sameSite "SameSite=".toList SameSite.display
  exact congrArg₂ _ rfl (congrArg₂ _ expires (congrArg₂ _ maxAge (congrArg₂ _ domain
    (congrArg₂ _ path (congrArg₂ _ secure (congrArg₂ _ httpOnly sameSite))))))

/-- A part with an equals sign is an attribute with a value. -/
theorem parseAttribute_valued {cookie : SetCookie} {attrName value : Str} {referenceYear : UInt16}
    (trimmed : Trimming.IsTrimmed isWhitespace attrName) (plain : '=' ∉ attrName)
    (present : value ≠ []) (dark : Trimming.IsTrimmed isWhitespace value) :
    parseAttribute referenceYear cookie (' ' :: (attrName ++ '=' :: value)) =
      cookie.setAttribute attrName value referenceYear := by
  have whole : Trimming.IsTrimmed isWhitespace (attrName ++ '=' :: value) :=
    trimmed.behind (by decide) present dark
  -- The space in front is trimmed off.
  have same : trimOws (' ' :: (attrName ++ '=' :: value)) = attrName ++ '=' :: value :=
    (whole.mono fun _ => isWhitespace_of_ows).trim_cons (by decide)
  have front : trim attrName = attrName := trimmed.trim_eq
  have back : trim value = value := dark.trim_eq
  -- The first equals sign is the one behind the name.
  rw [parseAttribute, same, if_neg (by simp), splitOnce_append plain]
  dsimp only
  rw [front, back]

/-- The date of an attribute is read as it is written. -/
theorem setAttribute_expires (cookie : SetCookie) (date : HttpDate) (referenceYear : UInt16) :
    cookie.setAttribute "Expires".toList date.display referenceYear =
      .ok { cookie with expires := some date } := by
  have read : parseExpires date.display referenceYear = .ok date := by
    rw [parseExpires, date.parse_display]
  rw [setAttribute, if_pos (by decide), read]

/-- The seconds of an attribute are read as they are written. -/
theorem setAttribute_maxAge (cookie : SetCookie) {age : Int} (bounds : IsMaxAge age)
    (referenceYear : UInt16) : cookie.setAttribute "Max-Age".toList (displayInt age) referenceYear =
      .ok { cookie with maxAge := some age } := by
  rw [setAttribute, if_neg (by decide), if_pos (by decide), (parseMaxAge_display bounds).1]

/-- The domain of an attribute is read as it is stored. -/
theorem setAttribute_domain (cookie : SetCookie) {domain : Str}
    (read : parseDomain domain = some domain) (referenceYear : UInt16) :
    cookie.setAttribute "Domain".toList domain referenceYear =
      .ok { cookie with domain := some domain } := by
  rw [setAttribute, if_neg (by decide), if_neg (by decide), if_pos (by decide), read]

/-- The path of an attribute is read as it is stored. -/
theorem setAttribute_path (cookie : SetCookie) {path : Str} (slash : path.head? = some '/')
    (referenceYear : UInt16) : cookie.setAttribute "Path".toList path referenceYear =
      .ok { cookie with path := some path } := by
  rw [setAttribute, if_neg (by decide), if_neg (by decide), if_neg (by decide),
    if_pos ⟨by decide, slash⟩]

/-- The sites of an attribute are read as they are written. -/
theorem setAttribute_sameSite (cookie : SetCookie) (sameSite : SameSite) (referenceYear : UInt16) :
    cookie.setAttribute "SameSite".toList sameSite.display referenceYear =
      .ok { cookie with sameSite := some sameSite } := by
  have read : SameSite.fromStr sameSite.display = .ok sameSite := by cases sameSite <;> decide
  have other : ¬ (toAsciiLowercase "SameSite".toList = "path".toList ∧
      sameSite.display.head? = some '/') := fun both => absurd both.1 (by decide)
  rw [setAttribute, if_neg (by decide), if_neg (by decide), if_neg (by decide), if_neg other,
    if_pos (by decide), read]
  rfl

/-- The flags are read as they are written. -/
theorem parseAttribute_flag (cookie : SetCookie) (referenceYear : UInt16) :
    parseAttribute referenceYear cookie (' ' :: "Secure".toList) = .ok { cookie with secure := true } ∧
    parseAttribute referenceYear cookie (' ' :: "HttpOnly".toList) =
      .ok { cookie with httpOnly := true } := by
  -- Both are without an equals sign, so they are taken as flags.
  have secure : trimOws (' ' :: "Secure".toList) = "Secure".toList ∧
      splitOnce '=' "Secure".toList = none := by decide
  have httpOnly : trimOws (' ' :: "HttpOnly".toList) = "HttpOnly".toList ∧
      splitOnce '=' "HttpOnly".toList = none := by decide
  constructor
  · rw [parseAttribute, secure.1, if_neg (by decide), secure.2]
    dsimp only
    rw [setFlag, if_pos (by decide)]
  · rw [parseAttribute, httpOnly.1, if_neg (by decide), httpOnly.2]
    dsimp only
    rw [setFlag, if_neg (by decide), if_pos (by decide)]

/-- A field that is there is set by the part that it is written as. -/
theorem fold_field {Field : Type} (put : Option Field → SetCookie) {field : Option Field}
    {text : Field → Str} {referenceYear : UInt16}
    (set : ∀ value, field = some value →
      parseAttribute referenceYear (put none) (' ' :: text value) = .ok (put (some value))) :
    ((field.map text).toList.map (' ' :: ·)).foldlM (parseAttribute referenceYear) (put none) =
      .ok (put field) := by
  cases field with
  | none => rfl
  | some value => exact foldlM_cons_ok.mpr ⟨put (some value), set value rfl, rfl⟩

/-- A flag is set by the part that it is written as. -/
theorem fold_flag (put : Bool → SetCookie) {flag : Bool} {label : Str} {referenceYear : UInt16}
    (set : parseAttribute referenceYear (put false) (' ' :: label) = .ok (put true)) :
    ((if flag then [label] else []).map (' ' :: ·)).foldlM (parseAttribute referenceYear)
      (put false) = .ok (put flag) := by
  cases flag with
  | false => rfl
  | true => exact foldlM_cons_ok.mpr ⟨put true, set, rfl⟩

/-- Parts in front of other parts are read first. -/
theorem fold_append {first second : List Str} {start next last : SetCookie} {referenceYear : UInt16}
    (one : (first.map (' ' :: ·)).foldlM (parseAttribute referenceYear) start = .ok next)
    (other : (second.map (' ' :: ·)).foldlM (parseAttribute referenceYear) next = .ok last) :
    ((first ++ second).map (' ' :: ·)).foldlM (parseAttribute referenceYear) start = .ok last := by
  rw [List.map_append, List.foldlM_append, one]
  exact other

/-- Labels are names of attributes. -/
theorem labels_plain : ∀ label ∈ ["Expires".toList, "Max-Age".toList, "Domain".toList, "Path".toList,
    "SameSite".toList], label ≠ [] ∧ (∀ char ∈ label, isWhitespace char = false) ∧ '=' ∉ label ∧
      ';' ∉ label := by
  decide +kernel

/-- A labelled part is an attribute with a value. -/
theorem parseAttribute_labelled (cookie : SetCookie) {label value : Str} (referenceYear : UInt16)
    (inside : label ∈ ["Expires".toList, "Max-Age".toList, "Domain".toList, "Path".toList,
      "SameSite".toList]) (present : value ≠ []) (dark : Trimming.IsTrimmed isWhitespace value) :
    parseAttribute referenceYear cookie (' ' :: (label ++ '=' :: value)) =
      cookie.setAttribute label value referenceYear := by
  obtain ⟨filled, white, sign, _⟩ := labels_plain label inside
  exact parseAttribute_valued (Trimming.isTrimmed_of_none white) sign present dark

/-- Seconds are written without white space and semicolons. -/
theorem displayInt_plain {age : Int} (bounds : IsMaxAge age) :
    Trimming.IsTrimmed isWhitespace (displayInt age) ∧ ';' ∉ displayInt age := by
  -- Digits are neither.
  have digits : (displayInt age).all Char.isDigit = true :=
    List.all_eq_true.mpr (parseMaxAge_display bounds).2.2
  rw [← all_isDigit] at digits
  have plain := digits_plain digits
  simp only [isSeparator, Bool.or_eq_false_iff, beq_eq_false_iff_ne] at plain
  exact ⟨Trimming.isTrimmed_of_none fun char inside => (plain char inside).1.1.1,
    fun inside => (plain ';' inside).2 rfl⟩

/-- A path is not empty. -/
theorem path_filled {path : Str} (slash : path.head? = some '/') : path ≠ [] := by
  intro empty
  rw [empty] at slash
  cases slash

/-- Sites are written without white space and semicolons. -/
theorem sameSite_plain (sameSite : SameSite) : sameSite.display ≠ [] ∧
    Trimming.IsTrimmed isWhitespace sameSite.display ∧ ';' ∉ sameSite.display := by
  have plain : sameSite.display ≠ [] ∧ (∀ char ∈ sameSite.display, isWhitespace char = false) ∧
      ';' ∉ sameSite.display := by
    cases sameSite <;> decide +kernel
  exact ⟨plain.1, Trimming.isTrimmed_of_none plain.2.1, plain.2.2⟩

/-- The attributes are read as they are written. -/
theorem texts_fold {cookie : SetCookie} (stored : cookie.IsStored) (referenceYear : UInt16) :
    (cookie.texts.map (' ' :: ·)).foldlM (parseAttribute referenceYear)
      (ofCookie cookie.toCookie) = .ok cookie := by
  obtain ⟨pair, expires, maxAge, domain, path, secure, httpOnly, sameSite⟩ := cookie
  -- Each attribute sets its field and keeps the fields that are set before it.
  refine fold_append (fold_field (fun field => ⟨pair, field, none, none, none, false, false, none⟩)
    fun date same => ?_) ?_
  · rw [parseAttribute_labelled _ _ (by decide) date.display_plain.2.2 date.display_plain.1]
    exact setAttribute_expires _ _ _
  refine fold_append (fold_field (fun field => ⟨pair, expires, field, none, none, false, false, none⟩)
    fun age same => ?_) ?_
  · have bounds := stored.maxAge age same
    rw [parseAttribute_labelled _ _ (by decide) (parseMaxAge_display bounds).2.1
      (displayInt_plain bounds).1]
    exact setAttribute_maxAge _ bounds _
  refine fold_append (fold_field (fun field => ⟨pair, expires, maxAge, field, none, false, false, none⟩)
    fun domain same => ?_) ?_
  · obtain ⟨read, filled, plain⟩ := stored.domain domain same
    rw [parseAttribute_labelled _ _ (by decide) filled
      (Trimming.isTrimmed_of_none fun char inside => (plain char inside).1)]
    exact setAttribute_domain _ read _
  refine fold_append (fold_field
    (fun field => ⟨pair, expires, maxAge, domain, field, false, false, none⟩) fun path same => ?_) ?_
  · obtain ⟨slash, trimmed, _⟩ := stored.path path same
    rw [parseAttribute_labelled _ _ (by decide) (path_filled slash) trimmed]
    exact setAttribute_path _ slash _
  refine fold_append (fold_flag
    (fun flag => ⟨pair, expires, maxAge, domain, path, flag, false, none⟩) ?_) ?_
  · exact (parseAttribute_flag _ _).1
  refine fold_append (fold_flag
    (fun flag => ⟨pair, expires, maxAge, domain, path, secure, flag, none⟩) ?_) ?_
  · exact (parseAttribute_flag _ _).2
  refine fold_field (fun field => ⟨pair, expires, maxAge, domain, path, secure, httpOnly, field⟩)
    fun sites same => ?_
  obtain ⟨filled, trimmed, _⟩ := sameSite_plain sites
  rw [parseAttribute_labelled _ _ (by decide) filled trimmed]
  exact setAttribute_sameSite _ _ _

/-- The attributes are written without white space around them and without semicolons. -/
theorem texts_plain {cookie : SetCookie} (stored : cookie.IsStored) :
    ∀ text ∈ cookie.texts, text ≠ [] ∧ Trimming.IsTrimmed isWhitespace text ∧ ';' ∉ text := by
  -- A labelled text is plain if what is behind its label is.
  have labelled : ∀ label ∈ ["Expires".toList, "Max-Age".toList, "Domain".toList, "Path".toList,
      "SameSite".toList], ∀ value : Str, value ≠ [] → Trimming.IsTrimmed isWhitespace value →
      ';' ∉ value → (label ++ '=' :: value) ≠ [] ∧
        Trimming.IsTrimmed isWhitespace (label ++ '=' :: value) ∧ ';' ∉ label ++ '=' :: value := by
    intro label inside value present dark plain
    obtain ⟨filled, white, _, semicolon⟩ := labels_plain label inside
    exact ⟨by simp, (Trimming.isTrimmed_of_none white).behind (by decide) present dark,
      by simp [semicolon, plain]⟩
  have flag : ∀ label ∈ ["Secure".toList, "HttpOnly".toList], label ≠ [] ∧
      (∀ char ∈ label, isWhitespace char = false) ∧ ';' ∉ label := by
    decide +kernel
  intro text inside
  simp only [texts, List.mem_append, Option.mem_toList, Option.map_eq_some_iff] at inside
  rcases inside with ⟨date, _, rfl⟩ | ⟨age, same, rfl⟩ | ⟨domain, same, rfl⟩ | ⟨path, same, rfl⟩ |
    secure | httpOnly | ⟨sites, _, rfl⟩
  · obtain ⟨trimmed, plain, present⟩ := date.display_plain
    exact labelled _ (by decide) _ present trimmed plain
  · have bounds := stored.maxAge age same
    exact labelled _ (by decide) _ (parseMaxAge_display bounds).2.1 (displayInt_plain bounds).1
      (displayInt_plain bounds).2
  · obtain ⟨_, filled, plain⟩ := stored.domain domain same
    exact labelled _ (by decide) _ filled
      (Trimming.isTrimmed_of_none fun char inside => (plain char inside).1)
      fun inside => (plain ';' inside).2 rfl
  · obtain ⟨slash, trimmed, plain⟩ := stored.path path same
    exact labelled _ (by decide) _ (path_filled slash) trimmed plain
  · split at secure
    · obtain ⟨filled, white, plain⟩ := flag text (by simp [List.mem_singleton.mp secure])
      exact ⟨filled, Trimming.isTrimmed_of_none white, plain⟩
    · cases secure
  · split at httpOnly
    · obtain ⟨filled, white, plain⟩ := flag text (by simp [List.mem_singleton.mp httpOnly])
      exact ⟨filled, Trimming.isTrimmed_of_none white, plain⟩
    · cases httpOnly
  · obtain ⟨filled, trimmed, plain⟩ := sameSite_plain sites
    exact labelled _ (by decide) _ filled trimmed plain

/-- What may be stored is parsed again, in whatever year. -/
theorem parse_display {cookie : SetCookie} (stored : cookie.IsStored) (referenceYear : UInt16) :
    parse cookie.display referenceYear = .ok cookie := by
  obtain ⟨filled, trimmed, plain⟩ := cookie.toCookie.display_plain
  -- The pair and the attributes have no semicolon and nothing to trim.
  have each : ∀ text ∈ cookie.toCookie.display :: cookie.texts, text ≠ [] ∧
      Trimming.IsTrimmed isWhitespace text ∧ ';' ∉ text :=
    List.forall_mem_cons.mpr ⟨⟨filled, trimmed, plain⟩, texts_plain stored⟩
  have ows : ∀ text ∈ cookie.toCookie.display :: cookie.texts, text ≠ [] ∧
      Trimming.IsTrimmed isOws text := fun text inside =>
    ⟨(each text inside).1, (each text inside).2.1.mono fun _ => isWhitespace_of_ows⟩
  obtain ⟨whole, present⟩ := Trimming.isTrimmed_intercalate [';', ' '] ows
  rw [← display_eq] at whole present
  have same : trimOws cookie.display = cookie.display := whole.trim_eq
  have pair : trimOws cookie.toCookie.display = cookie.toCookie.display :=
    (trimmed.mono fun _ => isWhitespace_of_ows).trim_eq
  -- So the header is split again into them, each behind its space.
  have split : cookie.display.splitOn ';' =
      Cutting.padded ' ' (cookie.toCookie.display :: cookie.texts) := by
    rw [display_eq]
    exact Separating.splitOn_padded (fun text inside => (each text inside).2.2) (List.cons_ne_nil _ _)
      (by decide)
  rw [parse, same, if_neg (by simpa using present (List.cons_ne_nil _ _)), split, Cutting.padded]
  dsimp only
  rw [pair, Cookie.parseCookiePair_display]
  exact texts_fold stored referenceYear

end SetCookie

/-- Cookies that are joined to a header are parsed from it as long as there are any, and a cookie
that is set is parsed again in whatever year. -/
theorem cookies_setCookies_survive :
    (∀ cookies : List Cookie, cookies ≠ [] →
      Cookie.parse ("; ".toList.intercalate (cookies.map Cookie.display)) = .ok cookies) ∧
    ∀ (input : Str) (year : UInt16) (cookie : SetCookie), SetCookie.parse input year = .ok cookie →
      ∀ other : UInt16, SetCookie.parse cookie.display other = .ok cookie :=
  ⟨fun _ present => Cookie.cookies_survive present, fun _ _ _ parsed other =>
    SetCookie.parse_display (SetCookie.parse_stored parsed) other⟩

/-- A cookie with seconds below zero and a dotted domain is parsed again, also beside another one. -/
theorem cookies_setCookies_survive_dotted : ∃ cookie other,
    SetCookie.parse "a=b; Max-Age=-5; Domain=.A.B; Secure".toList 2024 = .ok cookie ∧
    SetCookie.parse cookie.display 1999 = .ok cookie ∧
    Cookie.parse ("; ".toList.intercalate ([other, cookie.toCookie, other].map Cookie.display)) =
      .ok [other, cookie.toCookie, other] := by
  have accepted : ∃ cookie,
      SetCookie.parse "a=b; Max-Age=-5; Domain=.A.B; Secure".toList 2024 = .ok cookie :=
    ⟨⟨⟨"a".toList, "b".toList, by decide, by decide⟩, none, some 0, some "a.b".toList, none, true,
      false, none⟩, by decide⟩
  obtain ⟨cookie, parsed⟩ := accepted
  exact ⟨cookie, ⟨"c".toList, "d=e".toList, by decide, by decide⟩, parsed,
    cookies_setCookies_survive.2 _ _ _ parsed 1999,
    cookies_setCookies_survive.1 _ (List.cons_ne_nil _ _)⟩

/-- No cookies are not parsed from the header that they are joined to. -/
theorem no_cookies_lost : ¬ ∀ cookies : List Cookie,
    Cookie.parse ("; ".toList.intercalate (cookies.map Cookie.display)) = .ok cookies := by
  intro survive
  have lost : Cookie.parse ("; ".toList.intercalate (([] : List Cookie).map Cookie.display)) =
      .error .empty := by decide
  cases lost.symm.trans (survive [])

end Http11

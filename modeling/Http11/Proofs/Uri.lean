import Http11.Proofs.Authority
import Http11.Uri

/-! A target that is a whole URI is parsed when its authority, if it has one, is one. -/

namespace Http11

namespace Uri

/-- Encoded texts are checked byte by byte. -/
theorem validateEncoded_iff {failure : UriError} {allowed : UInt8 → Bool}
    (noPercent : allowed 0x25 = false) (bytes : Bytes) :
    validateEncoded failure allowed bytes = .ok () ↔ IsEncoded allowed bytes := by
  constructor
  · intro checked
    -- Checking follows the bytes: an allowed one, a percent sign with its digits, or the end.
    fun_induction validateEncoded failure allowed bytes with
    | case1 => exact .empty
    | case2 byte rest kept ih => exact .plain kept (ih checked)
    | case3 => cases checked
    | case4 byte other percent high low rest digits ih =>
      simp only [Bool.or_eq_true, Bool.not_eq_true', not_or, Bool.not_eq_false] at digits
      rw [beq_iff_eq.mp percent]
      exact .percent digits (ih checked)
    | case5 => cases checked
    | case6 => cases checked
  · intro encoded
    -- No percent sign is allowed by itself, so every other byte is checked as such.
    induction encoded with
    | empty => rfl
    | plain kept _ ih =>
      unfold validateEncoded
      rw [if_pos kept]
      exact ih
    | percent digits _ ih =>
      rw [validateEncoded, if_neg (by simp [noPercent]), if_pos (by decide)]
      simp only [digits, Bool.not_true, Bool.or_self, Bool.false_eq_true, if_false]
      exact ih

/-- An address in a future format is checked when its first letter was. -/
theorem validateIpvFuture_iff {literal : Str} {version : UInt8} {rest : Bytes}
    (bytes : Utf8.encode literal = version :: rest) (isVersion : isOneOf "vV" version = true) :
    validateIpvFuture literal = .ok () ↔ IsIpvFuture (Utf8.encode literal) := by
  have digit : ∀ byte, isAsciiHexdigit byte = true → (byte != 0x2E) = true :=
    forall_byte (by decide +kernel)
  have letter : ∀ byte, isOneOf "vV" byte = true → (byte != 0x2E) = true :=
    forall_byte (by decide +kernel)
  have whole := List.takeWhile_append_dropWhile (p := (· != 0x2E)) (l := Utf8.encode literal)
  unfold validateIpvFuture
  constructor
  · intro checked
    dsimp only at checked
    -- Without a dot the address is refused.
    cases behind : (Utf8.encode literal).dropWhile (· != 0x2E) with
    | nil => simp [behind] at checked
    | cons dot address =>
      have isDot : dot = 0x2E := by
        have stopped := List.head?_dropWhile_not (· != 0x2E) (Utf8.encode literal)
        simpa [behind] using stopped
      rw [behind] at whole checked
      dsimp only at checked
      generalize (Utf8.encode literal).takeWhile (· != 0x2E) = front at whole checked
      split at checked
      · cases checked
      rename_i long
      split at checked
      · cases checked
      rename_i hex
      split at checked
      · cases checked
      rename_i present
      split at checked
      · cases checked
      rename_i plain
      -- The front has the letter and at least one digit.
      cases front with
      | nil => simp at long
      | cons first digits =>
        rw [bytes, List.cons_append, List.cons.injEq] at whole
        obtain ⟨rfl, same⟩ := whole
        refine ⟨first, digits, address, isVersion, ⟨?_, by simpa using hex⟩,
          ⟨by simpa using present, by simpa using plain⟩, by rw [bytes, ← same, isDot]⟩
        rintro rfl
        simp at long
  · rintro ⟨first, digits, address, isFirst, ⟨present, hex⟩, ⟨there, plain⟩, same⟩
    -- The first dot is the one behind the digits.
    have front : ∀ byte ∈ first :: digits, (byte != 0x2E) = true := by
      intro byte inside
      rcases List.mem_cons.mp inside with rfl | inside
      · exact letter _ isFirst
      · exact digit byte (hex byte inside)
    have split : Utf8.encode literal = (first :: digits) ++ 0x2E :: address := by simpa using same
    have dropped : (Utf8.encode literal).dropWhile (· != 0x2E) = 0x2E :: address := by
      rw [split, List.dropWhile_append_of_pos front, List.dropWhile_cons, if_neg (by decide)]
    have taken : (Utf8.encode literal).takeWhile (· != 0x2E) = first :: digits := by
      rw [split, List.takeWhile_append_of_pos front, List.takeWhile_cons, if_neg (by decide),
        List.append_nil]
    have long := List.length_pos_of_ne_nil present
    dsimp only
    rw [dropped]
    dsimp only
    rw [taken, if_neg (by simp only [List.length_cons]; omega), if_neg (by simpa using hex),
      if_neg (by simpa using there), if_neg (by simpa using plain)]

/-- An address between brackets is in one of the two formats. -/
theorem validateIpLiteral_iff (literal : Str) :
    validateIpLiteral literal = .ok () ↔
      isIpv6Addr literal = true ∨ IsIpvFuture (Utf8.encode literal) := by
  have letter : ∀ version : Char, version = 'v' ∨ version = 'V' → ∀ rest : Str,
      validateIpLiteral (version :: rest) = .ok () ↔ isIpv6Addr (version :: rest) = true ∨
        IsIpvFuture (Utf8.encode (version :: rest)) := by
    intro version isVersion rest
    have future : ¬ isIpv6Addr (version :: rest) = true := fun address =>
      absurd (isIpv6Addr_chars address version List.mem_cons_self)
        (by rcases isVersion with rfl | rfl <;> decide)
    rw [or_iff_right future, validateIpLiteral, if_neg (by simp)]
    rcases isVersion with rfl | rfl
    · rw [if_pos (by simp)]
      exact validateIpvFuture_iff (by rw [Utf8.encode_cons]; rfl) (by decide)
    · rw [if_pos (by simp)]
      exact validateIpvFuture_iff (by rw [Utf8.encode_cons]; rfl) (by decide)
  cases literal with
  | nil =>
    refine iff_of_false (by simp [validateIpLiteral]) ?_
    rintro (address | ⟨_, _, _, _, _, _, same⟩)
    · exact absurd address (by decide)
    · cases same
  | cons first rest =>
    by_cases isVersion : first = 'v' ∨ first = 'V'
    · exact letter first isVersion rest
    · -- Any other first letter is not that of a version.
      have version : ∀ byte, isOneOf "vV" byte = true → byte = 0x76 ∨ byte = 0x56 :=
        forall_byte (by decide +kernel)
      have future : ¬ IsIpvFuture (Utf8.encode (first :: rest)) := by
        rintro ⟨letter, _, _, isLetter, _, _, same⟩
        refine isVersion ?_
        rcases version letter isLetter with rfl | rfl
        · exact .inl (by rw [Utf8.head_of_encode same (by decide)]; rfl)
        · exact .inr (by rw [Utf8.head_of_encode same (by decide)]; rfl)
      rw [or_iff_left future, validateIpLiteral, if_neg (by simp),
        if_neg (by simpa using isVersion)]
      cases isIpv6Addr (first :: rest) <;> simp

/-- A host without brackets is a registered name. -/
theorem validateHost_iff {host : Str} (unbracketed : host.head? ≠ some '[') :
    validateHost host = .ok () ↔ IsRegName (Utf8.encode host) := by
  have named : validateRegName host = .ok () ↔ IsRegName (Utf8.encode host) :=
    validateEncoded_iff (by decide) _
  unfold validateHost
  -- An empty host, a name without brackets and a dotted address are all names.
  split
  · rename_i empty
    rw [List.isEmpty_iff.mp empty]
    exact iff_of_true rfl .empty
  rw [if_neg (by simpa using unbracketed)]
  split
  · rename_i address
    exact iff_of_true rfl (isIpv4Addr_regName address)
  · exact named

/-- A number of sixteen bits is read from digits, behind a plus sign or not. -/
theorem parseU16_iff (port : Str) : (∃ number, parseU16 port = some number) ↔ IsSignedPort port := by
  constructor
  · -- The sign in front, if there is one, is not part of the port.
    rintro ⟨number, read⟩
    obtain ⟨digits, signed, present, decimal, rfl, small⟩ :=
      (Numerals.read_iff (by decide)).mp read
    exact ⟨digits, ⟨⟨present, (areDigits_iff digits).mp decimal⟩, small⟩, signed⟩
  · rintro ⟨digits, isPort, signed⟩
    exact ⟨_, (Numerals.read_iff (by decide)).mpr ⟨digits, signed, isPort.1.1,
      (areDigits_iff digits).mpr isPort.1.2, rfl, isPort.2⟩⟩

/-- No separator stands in a port, with or without its plus sign. -/
theorem signedPort_not_mem {port : Str} (isPort : IsSignedPort port) {char : Char}
    (separator : char.isDigit = false) (unsigned : char ≠ '+') : char ∉ port := by
  obtain ⟨digits, isDigits, rfl | rfl⟩ := isPort
  · exact isDigits.not_mem separator
  · simp [unsigned, isDigits.not_mem separator]

/-- A host in brackets is read by its grammar, with the port behind it. -/
theorem parseHostPart_bracketed_iff {authority hostPart : Str}
    (bracket : hostPart.head? = some '[') :
    (∃ result, parseHostPart authority hostPart = .ok result) ↔ IsNamedHost hostPart := by
  unfold parseHostPart
  -- An address stands in the brackets, since no name starts with one.
  rw [if_pos (by simpa using bracket)]
  constructor
  · rintro ⟨result, parsed⟩
    cases split : splitOnce ']' hostPart with
    | none => simp [split] at parsed
    | some parts =>
      obtain ⟨front, afterBracket⟩ := parts
      obtain ⟨rfl, plain⟩ := splitOnce_some split
      simp only [split, Checked.bind_ok] at parsed
      obtain ⟨_, valid, parsed⟩ := parsed
      have address := (validateIpLiteral_iff _).mp valid
      have opened : front = '[' :: front.drop 1 := by
        cases front with
        | nil => cases bracket
        | cons first inner =>
          cases bracket
          rfl
      refine .inr ⟨front ++ [']'], ⟨front.drop 1, ?_, address⟩, ?_⟩
      · rw [← List.cons_append, ← opened]
      · split at parsed
        · exact .inl rfl
        · rename_i port
          cases number : parseU16 port with
          | none => simp [number] at parsed
          | some value => exact .inr ⟨port, (parseU16_iff port).mp ⟨value, number⟩, by simp⟩
        · cases parsed
  · rintro (⟨name, isName, whole⟩ | ⟨_, ⟨inner, rfl, address⟩, whole⟩)
    · have first : '[' ∉ name := isName.not_mem (by decide) (by decide)
      cases name with
      | nil => rcases whole with rfl | rfl | ⟨_, _, rfl⟩ <;> cases bracket
      | cons char name =>
        rcases whole with rfl | rfl | ⟨_, _, rfl⟩ <;> cases bracket <;>
          exact absurd List.mem_cons_self first
    · have plain : ']' ∉ '[' :: inner := by
        have inside : ']' ∉ inner :=
          not_mem_address address (by decide) (by decide) (by decide)
        simp [inside]
      have valid := (validateIpLiteral_iff inner).mpr address
      have split : ∀ behind, splitOnce ']' ('[' :: (inner ++ ']' :: behind)) =
          some ('[' :: inner, behind) := splitOnce_append plain
      rcases whole with rfl | ⟨port, isPort, rfl⟩
      · rw [split]
        simp [Checked.bind_ok, valid]
      · obtain ⟨number, read⟩ := (parseU16_iff port).mpr isPort
        rw [List.cons_append, List.append_assoc, List.singleton_append, split]
        simp [Checked.bind_ok, valid, read]

/-- A host without brackets is read by its grammar, with the port behind it. -/
theorem parseHostPart_unbracketed_iff {authority hostPart : Str}
    (bracket : ¬ hostPart.head? = some '[') :
    (∃ result, parseHostPart authority hostPart = .ok result) ↔ IsNamedHost hostPart := by
  unfold parseHostPart
  rw [if_neg (by simpa using bracket)]
  -- The name in front of a port begins as the whole does.
  have unbracketed : ∀ host behind : Str, hostPart = host ++ behind →
      host.head? ≠ some '[' := by
    rintro host behind rfl first
    cases host with
    | nil => cases first
    | cons char host =>
      cases first
      exact bracket rfl
  constructor
  · -- The port stands behind the last colon, and may be empty.
    rintro ⟨result, parsed⟩
    cases split : rsplitOnce ':' hostPart with
    | none =>
      simp only [split, Checked.bind_ok] at parsed
      obtain ⟨_, valid, _⟩ := parsed
      exact .inl ⟨hostPart, (validateHost_iff (unbracketed _ [] (by simp))).mp valid, .inl rfl⟩
    | some parts =>
      obtain ⟨host, port⟩ := parts
      obtain ⟨whole, _⟩ := rsplitOnce_some split
      simp only [split, Checked.bind_ok] at parsed
      obtain ⟨_, valid, parsed⟩ := parsed
      refine .inl ⟨host, (validateHost_iff (unbracketed _ _ whole)).mp valid, .inr ?_⟩
      split at parsed
      · rename_i empty
        rw [List.isEmpty_iff.mp empty] at whole
        exact .inl whole
      · cases number : parseU16 port with
        | none => simp [number] at parsed
        | some value => exact .inr ⟨port, (parseU16_iff port).mp ⟨value, number⟩, whole⟩
  · -- A name has no colon, so the last one is that of the port.
    rintro (⟨name, isName, whole⟩ | ⟨_, ⟨inner, rfl, _⟩, whole⟩)
    · have colonless : ':' ∉ name := isName.not_mem (by decide) (by decide)
      rcases whole with rfl | rfl | ⟨port, isPort, rfl⟩
      · have valid := (validateHost_iff (unbracketed _ [] (by simp))).mpr isName
        rw [rsplitOnce_none colonless]
        simp [Checked.bind_ok, valid, pure, Except.pure]
      · have valid := (validateHost_iff (unbracketed _ _ rfl)).mpr isName
        rw [rsplitOnce_append (by simp)]
        simp [Checked.bind_ok, valid]
      · have valid := (validateHost_iff (unbracketed _ _ rfl)).mpr isName
        obtain ⟨number, read⟩ := (parseU16_iff port).mpr isPort
        rw [rsplitOnce_append (signedPort_not_mem isPort (by decide) (by decide))]
        have present : port ≠ [] := by
          obtain ⟨digits, isDigits, rfl | rfl⟩ := isPort
          · exact isDigits.1.1
          · simp
        simp [Checked.bind_ok, valid, read, present]
    · -- An address would begin with a bracket.
      rcases whole with rfl | ⟨_, _, rfl⟩ <;> exact absurd rfl bracket

/-- A host is read by its grammar, with the port behind it. -/
theorem parseHostPart_iff (authority hostPart : Str) :
    (∃ result, parseHostPart authority hostPart = .ok result) ↔ IsNamedHost hostPart := by
  by_cases bracket : hostPart.head? = some '['
  · exact parseHostPart_bracketed_iff bracket
  · exact parseHostPart_unbracketed_iff bracket

/-- The sign behind a user stands in no host. -/
theorem namedHost_userless {named : Str} (isNamed : IsNamedHost named) : '@' ∉ named := by
  have port : ∀ port, IsSignedPort port → '@' ∉ port := fun _ isPort =>
    signedPort_not_mem isPort (by decide) (by decide)
  -- The host is a name or an address, each of them with a port or without.
  rcases isNamed with ⟨name, isName, whole⟩ | ⟨address, isAddress, whole⟩
  · have inName : '@' ∉ name := isName.not_mem (by decide) (by decide)
    rcases whole with rfl | rfl | ⟨digits, isPort, rfl⟩
    · exact inName
    · simp [inName]
    · simp [inName, port digits isPort]
  · have inAddress : '@' ∉ address := IsUriHost.not_mem (.inr isAddress) (by decide)
      (by decide) (by decide) (by decide) (by decide)
    rcases whole with rfl | ⟨digits, isPort, rfl⟩
    · exact inAddress
    · simp [inAddress, port digits isPort]

/-- An authority is read by its grammar. -/
theorem parseAuthority_iff (authority : Str) :
    (∃ result, parseAuthority authority = .ok result) ↔ IsUriAuthority authority := by
  have info : ∀ userinfo, validateUserinfo userinfo = .ok () ↔
      IsEncoded isUserByte (Utf8.encode userinfo) :=
    fun userinfo => validateEncoded_iff (by decide) _
  unfold parseAuthority
  split
  · -- Nothing is a name without a user.
    rename_i empty
    rw [List.isEmpty_iff.mp empty]
    exact iff_of_true ⟨_, rfl⟩ ⟨[], [], .inl rfl, .inl ⟨[], .empty, .inl rfl⟩, rfl⟩
  simp only [Checked.bind_ok]
  constructor
  · rintro ⟨result, hostPart, split, parsed⟩
    have named := (parseHostPart_iff authority hostPart).mp ⟨result, parsed⟩
    unfold splitUserinfo at split
    cases user : rsplitOnce '@' authority with
    | none =>
      simp only [user] at split
      cases split
      exact ⟨[], authority, .inl rfl, named, rfl⟩
    | some parts =>
      obtain ⟨userinfo, host⟩ := parts
      simp only [user, Checked.map_ok] at split
      obtain ⟨_, valid, rfl⟩ := split
      exact ⟨userinfo ++ ['@'], host, .inr ⟨userinfo, (info userinfo).mp valid, rfl⟩, named,
        by simpa using (rsplitOnce_some user).1⟩
  · rintro ⟨user, named, isUser, isNamed, rfl⟩
    obtain ⟨result, parsed⟩ := (parseHostPart_iff (user ++ named) named).mpr isNamed
    refine ⟨result, named, ?_, parsed⟩
    unfold splitUserinfo
    rcases isUser with rfl | ⟨userinfo, encoded, rfl⟩
    · rw [List.nil_append, rsplitOnce_none (namedHost_userless isNamed)]
    · rw [List.append_assoc, List.singleton_append, rsplitOnce_append (namedHost_userless isNamed)]
      simp [(info userinfo).mpr encoded, Except.map]

/-- A scheme is found before the first colon. -/
theorem findSchemeEnd_scheme {scheme : Str} (chars : ∀ char ∈ scheme,
    (char.isAlphanum || "+-.".toList.contains char) = true) (plain : ':' ∉ scheme) (rest : Str)
    (index : Nat) (positive : 0 < index + scheme.length) :
    findSchemeEnd index (scheme ++ ':' :: rest) = some (index + scheme.length) := by
  induction scheme generalizing index with
  -- The colon is found behind the characters, none of which is one.
  | nil => simp [findSchemeEnd, show 0 < index from positive]
  | cons char scheme ih =>
    rw [List.forall_mem_cons] at chars
    simp only [List.mem_cons, not_or] at plain
    rw [List.cons_append, findSchemeEnd, if_neg (Ne.symm plain.1), if_neg (by rw [chars.1]; decide),
      ih chars.2 plain.2 _ (by omega), List.length_cons]
    congr 1
    omega

/-- Where no fragment is, two ways to find the end of a part agree. -/
theorem takeWhile_fragmentless {text : Str} (plain : '#' ∉ text) (goesOn : Char → Bool) :
    text.takeWhile (fun char => goesOn char && char != '#') = text.takeWhile goesOn := by
  induction text with
  | nil => rfl
  | cons char text ih =>
    simp only [List.mem_cons, not_or] at plain
    have other : (char != '#') = true := by simpa using Ne.symm plain.1
    simp only [List.takeWhile_cons, other, Bool.and_true, ih plain.2]

/-- Where no fragment is, a path and its query are split as the decoder splits them. -/
theorem splitPart_query {text : Str} (plain : '#' ∉ text) :
    text.takeWhile (fun char => char != '?' && char != '#') = (splitQuery text).1 ∧
      splitPart '?' (text.drop (text.takeWhile fun char => char != '?' && char != '#').length) =
        ((splitQuery text).2, []) := by
  rw [takeWhile_fragmentless plain]
  unfold splitQuery
  -- The first question mark opens the query, which goes on to the end without a number sign.
  cases split : splitOnce '?' text with
  | none =>
    have all : text.takeWhile (· != '?') = text :=
      List.takeWhile_eq_self_iff.mpr fun char inside => by
        rw [bne_iff_ne]
        rintro rfl
        exact not_mem_of_splitOnce split inside
    rw [all, List.drop_length]
    exact ⟨rfl, rfl⟩
  | some parts =>
    obtain ⟨path, query⟩ := parts
    obtain ⟨rfl, first⟩ := splitOnce_some split
    have front : ∀ char ∈ path, (char != '?') = true := by
      intro char inside
      rw [bne_iff_ne]
      rintro rfl
      exact first inside
    have taken : (path ++ '?' :: query).takeWhile (· != '?') = path := by
      rw [List.takeWhile_append_of_pos front, List.takeWhile_cons, if_neg (by decide),
        List.append_nil]
    -- A query without a number sign is taken as a whole.
    have behind : query.takeWhile (· != '#') = query :=
      List.takeWhile_eq_self_iff.mpr fun char inside => by
        rw [bne_iff_ne]
        rintro rfl
        exact plain (by simp [inside])
    rw [taken, List.drop_left, splitPart, if_pos rfl, behind]
    exact ⟨rfl, by simp⟩

/-- What the decoder accepts of a part, the parser accepts of it. -/
theorem validateParts_of_chars {incomplete invalid illegal : String}
    (failure : UInt8 → UriError) {allowed : UInt8 → Bool} {bytes : Bytes}
    (checked : validateChars incomplete invalid illegal allowed bytes = .ok ()) :
    validatePercentEncoding bytes = .ok () ∧ validateParts failure allowed bytes = .ok () := by
  -- Both check the same bytes in the same order, and the decoder allows fewer.
  fun_induction validateChars incomplete invalid illegal allowed bytes with
  | case1 => exact ⟨rfl, rfl⟩
  | case2 => cases checked
  | case3 byte percent high low rest digits ih =>
    rw [validatePercentEncoding, validateParts, if_pos percent, if_pos percent]
    simp only [digits]
    exact ih checked
  | case4 => cases checked
  | case5 byte rest noPercent allowedByte ih =>
    unfold validatePercentEncoding validateParts
    rw [if_neg noPercent, if_neg noPercent, if_pos allowedByte]
    exact ih checked
  | case6 => cases checked

end Uri

/-- A target that is taken for a whole URI was checked as one. -/
theorem parseRequestTargetForm_absolute {target : Str}
    (form : parseRequestTargetForm target = .ok .absolute) :
    validateAbsoluteForm target = .ok .absolute := by
  simp only [parseRequestTargetForm] at form
  -- The other forms are tried first, and each of them answers with its own form.
  split at form
  · cases form
  split at form
  · cases form
  split at form
  · rw [Checked.map_ok] at form
    obtain ⟨_, _, same⟩ := form
    cases same
  split at form
  · exact form
  split at form
  · cases form
  split at form
  · exact form
  · cases form

/-- A whole URI as the decoder has checked it. -/
structure IsCheckedUri (target scheme rest : Str) : Prop where
  /-- The scheme stands before the first colon. -/
  split : splitOnce ':' target = some (scheme, rest)
  /-- It starts with a letter. -/
  alpha : scheme.head?.any Char.isAlpha = true
  /-- Its other characters are those of schemes. -/
  chars : ((scheme.drop 1).all fun char => char.isAlphanum || "+-.".toList.contains char) = true
  /-- There is no fragment. -/
  fragmentless : '#' ∉ target
  /-- The parts behind the scheme have allowed characters. -/
  parts : validateAbsoluteUriParts rest = .ok ()
  /-- An http URI names a host. -/
  named : isHttpScheme scheme = true → ∃ afterSlashes,
    stripPrefix "//".toList rest = some afterSlashes ∧ namesHost (authorityOf afterSlashes) = true

/-- What the decoder has checked of a whole URI. -/
theorem validateAbsoluteForm_ok {target : Str}
    (checked : validateAbsoluteForm target = .ok .absolute) :
    ∃ scheme rest, IsCheckedUri target scheme rest := by
  unfold validateAbsoluteForm at checked
  cases split : splitOnce ':' target with
  | none => simp [detectScheme_colonless split] at checked
  | some parts =>
    obtain ⟨scheme, rest⟩ := parts
    obtain ⟨whole, _⟩ := splitOnce_some split
    -- The scheme was found in front of the first colon.
    cases detected : (detectScheme target).isSome with
    | false =>
      rw [Option.isSome_eq_false_iff, Option.isNone_iff_eq_none] at detected
      simp [detected] at checked
    | true =>
      obtain ⟨alpha, chars, _, found⟩ := (detectScheme_some split).mp detected
      have front : target.take scheme.length = scheme := by rw [whole]; simp
      have back : target.drop (scheme.length + 1) = rest := by rw [whole]; simp
      simp only [found, front, back, Checked.bind_ok, Checked.reject_ok, Checked.onlyIf_ok,
        isHttpScheme_lower, validateHttpAuthority_iff] at checked
      obtain ⟨_, _, _, _, _, fragmentless, _, _, _, parts, _, named, _⟩ := checked
      exact ⟨scheme, rest, split, alpha, chars, by simpa using fragmentless, parts, named⟩

/-- What the decoder has checked of a path and a query behind an authority. -/
theorem validatePathQuery_ok {text : Str}
    (accepted : (Checked.onlyIf (!(splitQuery text).1.isEmpty)
      (validatePathChars (splitQuery text).1) >>= fun _ =>
        match (splitQuery text).2 with
        | some query => validateQueryChars query
        | none => .ok ()) = .ok ()) :
    ((splitQuery text).1 ≠ [] → validatePathChars (splitQuery text).1 = .ok ()) ∧
      ∀ query, (splitQuery text).2 = some query → validateQueryChars query = .ok () := by
  simp only [Checked.bind_ok, Checked.onlyIf_ok] at accepted
  obtain ⟨_, path, query⟩ := accepted
  refine ⟨fun present => path (by simpa using present), fun found same => ?_⟩
  rw [same] at query
  exact query

namespace IsCheckedUri

variable {target scheme rest : Str} (checked : IsCheckedUri target scheme rest)

include checked

/-- The scheme is found again. -/
theorem findSchemeEnd : Uri.findSchemeEnd 0 target = some scheme.length := by
  obtain ⟨whole, plain⟩ := splitOnce_some checked.split
  have alpha := checked.alpha
  have chars := checked.chars
  rw [whole]
  cases scheme with
  | nil => simp at alpha
  | cons first others =>
    -- The first character is a letter, and all others may stand in a scheme.
    have all : ∀ char ∈ first :: others,
        (char.isAlphanum || "+-.".toList.contains char) = true := by
      rw [List.forall_mem_cons]
      refine ⟨?_, List.all_eq_true.mp chars⟩
      have letter : first.isAlpha = true := by simpa using alpha
      simp [Char.isAlphanum, letter]
    simpa using Uri.findSchemeEnd_scheme all plain rest 0 (by simp)

/-- The authority is the one of the target. -/
theorem targetAuthority :
    targetAuthority target = (stripPrefix "//".toList rest).map authorityOf := by
  simp only [Http11.targetAuthority, checked.split, Option.bind_some]

/-- No fragment stands behind the scheme. -/
theorem rest_fragmentless : '#' ∉ rest := by
  have plain := checked.fragmentless
  rw [(splitOnce_some checked.split).1] at plain
  intro inside
  exact plain (by simp [inside])

/-- The authority is split off at the same place, and what follows it was checked. -/
theorem splitAuthority : ∃ behind,
    Uri.splitAuthority rest = (Http11.targetAuthority target, behind) ∧ '#' ∉ behind ∧
      ((splitQuery behind).1 ≠ [] → validatePathChars (splitQuery behind).1 = .ok ()) ∧
      ∀ query, (splitQuery behind).2 = some query → validateQueryChars query = .ok () := by
  have plain := checked.rest_fragmentless
  have parts := checked.parts
  rw [checked.targetAuthority, Uri.splitAuthority]
  -- Without two slashes nothing is an authority, and the whole rest is a path and a query.
  cases stripped : stripPrefix "//".toList rest with
  | none =>
    rw [validateAbsoluteUriParts, stripped] at parts
    exact ⟨rest, rfl, plain, validatePathQuery_ok parts⟩
  | some afterSlashes =>
    rw [validateAbsoluteUriParts, stripped] at parts
    -- There is no number sign, so the authority ends where the decoder saw its end.
    have inside : '#' ∉ afterSlashes := by
      rw [stripPrefix_slashes stripped] at plain
      simpa using plain
    have ends : afterSlashes.takeWhile (fun char => char != '/' && char != '?' && char != '#') =
        authorityOf afterSlashes := Uri.takeWhile_fragmentless inside _
    simp only [Checked.bind_ok] at parts
    obtain ⟨_, _, _, same, parts⟩ := parts
    cases same
    have found := validatePathQuery_ok (Checked.bind_ok.mpr parts)
    refine ⟨afterSlashes.drop (authorityOf afterSlashes).length, ?_,
      fun later => inside (List.mem_of_mem_drop later), found⟩
    simp only [ends, Option.map_some]

/-- The parser reads the authority of a checked URI, and has nothing against its other parts. -/
theorem parse : ∃ path query, Uri.parse target =
    ((match Http11.targetAuthority target with
      | some authority => Uri.parseAuthority authority
      | none => .ok (0, none)) >>= fun (hostEnd, port) =>
        .ok (⟨target, some scheme, Http11.targetAuthority target, hostEnd, port, path, query, none⟩ :
          Uri)) := by
  obtain ⟨whole, _⟩ := splitOnce_some checked.split
  obtain ⟨behind, split, plain, path, query⟩ := checked.splitAuthority
  obtain ⟨samePath, sameQuery⟩ := Uri.splitPart_query plain
  have front : target.take scheme.length = scheme := by rw [whole]; simp
  have back : target.drop (scheme.length + 1) = rest := by rw [whole]; simp
  have present : ¬ target.isEmpty = true := by rw [whole]; simp
  refine ⟨(splitQuery behind).1, (splitQuery behind).2, ?_⟩
  have pathValid : Uri.validatePath (splitQuery behind).1 = .ok () := by
    unfold Uri.validatePath
    by_cases empty : (splitQuery behind).1 = []
    · rw [empty]
      rfl
    · obtain ⟨percent, parts⟩ := Uri.validateParts_of_chars .invalidPathCharacter (path empty)
      rw [percent]
      exact parts
  have queryValid : (match (splitQuery behind).2 with
      | some query => Uri.validateQuery query
      | none => .ok ()) = .ok () := by
    cases found : (splitQuery behind).2 with
    | none => rfl
    | some text =>
      obtain ⟨percent, parts⟩ := Uri.validateParts_of_chars .invalidQueryCharacter
        (query text found)
      dsimp only
      rw [Uri.validateQuery, percent]
      exact parts
  have alpha := checked.alpha
  have chars := checked.chars
  rw [samePath] at sameQuery
  rw [Uri.parse, if_neg present, checked.findSchemeEnd]
  simp only [Option.map_some, front, back, alpha, chars, Checked.reject, split, samePath,
    sameQuery, pathValid]
  -- Neither a query nor an authority that is missing is checked.
  cases found : (splitQuery behind).2 with
  | none => cases Http11.targetAuthority target <;> rfl
  | some text =>
    simp only [found] at queryValid
    simp only [queryValid]
    cases Http11.targetAuthority target <;> rfl

end IsCheckedUri

/-- An authority whose host is not missing has its host end behind its start. -/
theorem parseAuthority_positive {authority : Str} {hostEnd : Nat} {port : Option Nat}
    (parsed : Uri.parseAuthority authority = .ok (hostEnd, port))
    (named : namesHost authority = true) : 0 < hostEnd := by
  simp only [namesHost, Bool.and_eq_true, Bool.not_eq_true', List.contains_eq_mem,
    decide_eq_false_iff_not, List.isEmpty_eq_false_iff, bne_iff_ne] at named
  obtain ⟨⟨userless, present⟩, hosted⟩ := named
  have long := List.length_pos_of_ne_nil present
  have whole : Uri.splitUserinfo authority = .ok authority := by
    rw [Uri.splitUserinfo, rsplitOnce_none userless]
  rw [Uri.parseAuthority, if_neg (by simpa using present), whole] at parsed
  change Uri.parseHostPart authority authority = .ok (hostEnd, port) at parsed
  unfold Uri.parseHostPart at parsed
  split at parsed
  · cases split : splitOnce ']' authority with
    | none => simp [split] at parsed
    | some parts =>
      obtain ⟨front, afterBracket⟩ := parts
      obtain ⟨same, _⟩ := splitOnce_some split
      simp only [split, Checked.bind_ok] at parsed
      obtain ⟨_, _, parsed⟩ := parsed
      split at parsed
      · cases parsed
        exact long
      · split at parsed
        · cases parsed
          -- The bracket itself stands before the end of the host.
          rw [same, List.length_append, List.length_cons]
          omega
        · cases parsed
      · cases parsed
  · cases split : rsplitOnce ':' authority with
    | none =>
      simp only [split, Checked.bind_ok] at parsed
      obtain ⟨_, _, same⟩ := parsed
      cases same
      exact long
    | some parts =>
      obtain ⟨host, digits⟩ := parts
      obtain ⟨same, _⟩ := rsplitOnce_some split
      simp only [split, Checked.bind_ok] at parsed
      obtain ⟨_, _, parsed⟩ := parsed
      split at parsed
      · cases parsed
        exact long
      split at parsed
      · cases parsed
        have there : host ≠ [] := by
          rintro rfl
          rw [same] at hosted
          exact hosted rfl
        have before := List.length_pos_of_ne_nil there
        omega
      · cases parsed

/-- A target that is taken for a whole URI is parsed when its authority, if any, is one. -/
theorem parsesWhole_iff {target : Str}
    (form : parseRequestTargetForm target = .ok .absolute) :
    ParsesWhole target ↔
      ∀ authority, targetAuthority target = some authority → IsUriAuthority authority := by
  obtain ⟨scheme, rest, checked⟩ := validateAbsoluteForm_ok (parseRequestTargetForm_absolute form)
  obtain ⟨path, query, parsed⟩ := checked.parse
  constructor
  · rintro ⟨uri, _, read, _⟩ authority found
    rw [parsed, found] at read
    simp only [Checked.bind_ok] at read
    obtain ⟨result, accepted, _⟩ := read
    exact (Uri.parseAuthority_iff authority).mp ⟨result, accepted⟩
  · intro grammar
    have hosted : ∃ hostEnd port, (match targetAuthority target with
        | some authority => Uri.parseAuthority authority
        | none => .ok (0, none)) = .ok (hostEnd, port) := by
      cases found : targetAuthority target with
      | none => exact ⟨0, none, rfl⟩
      | some authority =>
        obtain ⟨⟨hostEnd, port⟩, accepted⟩ :=
          (Uri.parseAuthority_iff authority).mpr (grammar authority found)
        exact ⟨hostEnd, port, accepted⟩
    obtain ⟨hostEnd, port, accepted⟩ := hosted
    rw [accepted] at parsed
    refine ⟨_, scheme, parsed, rfl, rfl, fun http => ?_⟩
    -- An http URI has an authority that names a host and no user.
    obtain ⟨afterSlashes, stripped, named⟩ := checked.named http
    have found : targetAuthority target = some (authorityOf afterSlashes) := by
      rw [checked.targetAuthority, stripped]
      rfl
    rw [found] at accepted
    have positive := parseAuthority_positive accepted named
    simp only [Uri.host, found, Option.map_some]
    simp only [namesHost, Bool.and_eq_true, Bool.not_eq_true', List.contains_eq_mem,
      decide_eq_false_iff_not, List.isEmpty_eq_false_iff] at named
    have userless : '@' ∉ (authorityOf afterSlashes).take hostEnd := fun inside =>
      named.1.1 (List.mem_of_mem_take inside)
    rw [rsplitOnce_none userless]
    refine ⟨_, rfl, ?_⟩
    rw [Ne, List.take_eq_nil_iff, not_or]
    exact ⟨by omega, named.1.2⟩

/-- A whole URI with a host and a port is parsed. -/
theorem parsesWhole_port : ParsesWhole "http://a:80/".toList := by
  refine (parsesWhole_iff (by decide +kernel)).mpr fun authority found => ?_
  have same : targetAuthority "http://a:80/".toList = some "a:80".toList := by decide
  rw [same, Option.some.injEq] at found
  subst found
  -- The authority is a name with a port and has no user.
  exact ⟨[], "a:80".toList, .inl rfl, .inl ⟨"a".toList,
    (isRegNameBytes_iff _).mp (by decide), .inr (.inr ⟨"80".toList,
      ⟨"80".toList, ⟨⟨by decide, by decide +kernel⟩, by decide⟩, .inl rfl⟩, rfl⟩)⟩, rfl⟩

/-- A whole URI whose port is no number is accepted by the decoder, but it is not parsed. -/
theorem parsesWhole_letters :
    parseRequestTargetForm "http://a:b/".toList = .ok .absolute ∧
      ¬ ParsesWhole "http://a:b/".toList := by
  refine ⟨by decide +kernel, ?_⟩
  rintro ⟨uri, scheme, parsed, _⟩
  have refused : Uri.parse "http://a:b/".toList = .error .invalidPort := by decide +kernel
  rw [refused] at parsed
  cases parsed

end Http11

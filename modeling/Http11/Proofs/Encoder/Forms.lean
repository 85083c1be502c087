import Http11.Proofs.Encoder.Targets

/-! Where the encoder and the decoder take a request target for different forms. -/

namespace Http11

open Checked

/-- One of the http schemes. -/
def isHttpScheme (scheme : Str) : Bool :=
  eqIgnoreAsciiCase scheme "http".toList || eqIgnoreAsciiCase scheme "https".toList

/-- An authority that names a host and no user. -/
def namesHost (authority : Str) : Bool :=
  !authority.contains '@' && !authority.isEmpty && authority.head? != some ':'

/-- A URI with a scheme, with brackets in its authority only, and for http with a host. -/
def isSoundUri (uri : Str) : Bool :=
  match splitOnce ':' uri with
  | none => false
  | some (scheme, rest) =>
    (detectScheme uri).isSome && (validateIpv6Brackets uri).isOk &&
      match stripPrefix "//".toList rest with
      | none => decide (unbracketed rest) && !isHttpScheme scheme
      | some afterSlashes =>
        decide (unbracketed (afterSlashes.drop (authorityOf afterSlashes).length)) &&
          (!isHttpScheme scheme || namesHost (authorityOf afterSlashes))

/-- What a scheme that was detected looks like. -/
theorem detectScheme_some {uri scheme rest : Str} (split : splitOnce ':' uri = some (scheme, rest)) :
    (detectScheme uri).isSome = true ↔ scheme.head?.any Char.isAlpha = true ∧
      ((scheme.drop 1).all fun char => char.isAlphanum || "+-.".toList.contains char) = true ∧
      rest ≠ [] ∧ detectScheme uri = some scheme.length := by
  obtain ⟨whole, plain⟩ := splitOnce_some split
  cases scheme with
  | nil =>
    -- The first character would be the colon, which is no letter.
    rw [whole, detectScheme.eq_def]
    simp
  | cons first others =>
    have started : uri = first :: (others ++ ':' :: rest) := whole
    have read : detectScheme uri =
        if !first.isAlpha then none
        else if !((first :: others).drop 1).all fun char =>
          char.isAlphanum || "+-.".toList.contains char then none
        else if rest.isEmpty then none
        else some (first :: others).length := by
      rw [started] at split ⊢
      rw [detectScheme, split]
    rw [read, List.head?_cons, Option.any_some]
    generalize ((first :: others).drop 1).all (fun char =>
      char.isAlphanum || "+-.".toList.contains char) = chars
    cases first.isAlpha <;> cases chars <;> cases rest <;> simp

/-- A target without a colon has no scheme. -/
theorem detectScheme_colonless {uri : Str} (colonless : splitOnce ':' uri = none) :
    detectScheme uri = none := by
  cases uri with
  | nil => rfl
  | cons first rest =>
    rw [detectScheme, colonless]
    split <;> rfl

/-- What follows an authority starts with a slash or a question mark. -/
theorem authorityOf_cases (text : Str) :
    text = authorityOf text ∨ ∃ separator back, (separator = '/' ∨ separator = '?') ∧
      text = authorityOf text ++ separator :: back ∧
      text.drop (authorityOf text).length = separator :: back := by
  unfold authorityOf
  -- The authority ends at the first slash or question mark, if there is one.
  induction text with
  | nil => exact .inl rfl
  | cons char text ih =>
    by_cases inside : (char != '/' && char != '?') = true
    · rw [List.takeWhile_cons, if_pos inside]
      rcases ih with same | ⟨separator, back, kind, same, dropped⟩
      · exact .inl (congrArg (char :: ·) same)
      · exact .inr ⟨separator, back, kind, congrArg (char :: ·) same, by simpa using dropped⟩
    · rw [List.takeWhile_cons, if_neg inside]
      refine .inr ⟨char, text, ?_, rfl, rfl⟩
      by_contra other
      rw [not_or] at other
      exact inside (by simp [other.1, other.2])

/-- A byte that belongs to an authority, unless it is a percent sign or ends the authority. -/
theorem isAuthorityByte_of_target : ∀ byte,
    (isTargetByte byte && byte ≤ 0x7E && byte != 0x25 && byte != 0x2F && byte != 0x3F) = true →
      (isUnreservedByte byte || isSubDelimByte byte || isOneOf ":@[]" byte) = true :=
  forall_byte (by decide +kernel)

/-- The characters of an authority are all that a target may hold up to its path. -/
theorem validateAuthorityChars_of_target {text : Str} (target : TargetText (authorityOf text)) :
    validateAuthorityChars (authorityOf text) = .ok () := by
  refine validateChars_of_target target.valid fun byte inside printed noPercent => ?_
  have apart : ∀ char ∈ authorityOf text, char ≠ '/' ∧ char ≠ '?' := by
    intro char listed
    simpa using List.mem_takeWhile_imp listed
  -- Neither of the two ends an authority that it stands in.
  have noSlash : byte ≠ 0x2F := by
    rintro rfl
    exact (apart '/' ((Utf8.mem_encode_ascii (by decide)).mp inside)).1 rfl
  have noQuery : byte ≠ 0x3F := by
    rintro rfl
    exact (apart '?' ((Utf8.mem_encode_ascii (by decide)).mp inside)).2 rfl
  exact isAuthorityByte_of_target byte
    (by simp [printed, target.ascii byte inside, noPercent, noSlash, noQuery])

/-- A separator and a part of a target behind it are a part of a target as well. -/
theorem TargetText.cons {text : Str} (target : TargetText text) {separator : Char}
    (separates : separator = '/' ∨ separator = '?') : TargetText (separator :: text) := by
  obtain ⟨valid, ascii⟩ := target
  have bytes : ∃ byte, Utf8.encode (separator :: text) = byte :: Utf8.encode text ∧
      byte ≤ 0x7E ∧ isValidTargetBytes (byte :: Utf8.encode text) = true := by
    -- Either separator may stand in a target on its own.
    rcases separates with rfl | rfl
    · refine ⟨0x2F, by rw [Utf8.encode_cons]; rfl, by decide, ?_⟩
      rw [isValidTargetBytes_cons, if_neg (by decide), if_neg (by decide +kernel),
        if_neg (by decide)]
      exact valid
    · refine ⟨0x3F, by rw [Utf8.encode_cons]; rfl, by decide, ?_⟩
      rw [isValidTargetBytes_cons, if_neg (by decide), if_neg (by decide),
        if_neg (by decide)]
      exact valid
  obtain ⟨byte, encoded, small, checked⟩ := bytes
  refine ⟨by rw [encoded]; exact checked, ?_⟩
  rw [encoded]
  intro other inside
  rcases List.mem_cons.mp inside with rfl | later
  · exact small
  · exact ascii other later

/-- A prefix of two slashes is taken off a text that starts with them. -/
theorem stripPrefix_slashes {text afterSlashes : Str}
    (stripped : stripPrefix "//".toList text = some afterSlashes) :
    text = '/' :: '/' :: afterSlashes := by
  unfold stripPrefix at stripped
  split at stripped
  · rename_i front
    rw [List.isPrefixOf_iff_prefix] at front
    obtain ⟨back, rfl⟩ := front
    cases stripped
    rfl
  · cases stripped

/-- A path that is empty passes its check as well, in front of a query or not. -/
theorem validatePathQuery_eq (text : Str) :
    (onlyIf (!(splitQuery text).1.isEmpty) (validatePathChars (splitQuery text).1) >>= fun _ =>
      match (splitQuery text).2 with
      | some query => validateQueryChars query
      | none => .ok ()) = validatePathQuery text := by
  rw [validatePathQuery]
  cases (splitQuery text).1 <;> rfl

/-- The parts of a URI are accepted when no brackets stand behind its authority. -/
theorem validateAbsoluteUriParts_iff {rest : Str} (target : TargetText rest) :
    validateAbsoluteUriParts rest = .ok () ↔
      match stripPrefix "//".toList rest with
      | none => unbracketed rest
      | some afterSlashes =>
        unbracketed (afterSlashes.drop (authorityOf afterSlashes).length) := by
  cases stripped : stripPrefix "//".toList rest with
  | none =>
    rw [← validatePathQuery_iff target, ← validatePathQuery_eq, validateAbsoluteUriParts, stripped]
    rfl
  | some afterSlashes =>
    have slashes := stripPrefix_slashes stripped
    have after : TargetText afterSlashes := by
      rw [slashes] at target
      have first : TargetText ('/' :: afterSlashes) :=
        (TargetText.split (show TargetText ([] ++ '/' :: '/' :: afterSlashes) from target) rfl).2
      exact (TargetText.split (show TargetText ([] ++ '/' :: afterSlashes) from first) rfl).2
    -- Both the authority and what follows it are parts of the target.
    have parts : TargetText (authorityOf afterSlashes) ∧
        TargetText (afterSlashes.drop (authorityOf afterSlashes).length) := by
      rcases authorityOf_cases afterSlashes with same | ⟨separator, back, kind, same, dropped⟩
      · refine ⟨same ▸ after, ?_⟩
        have nothing : afterSlashes.drop (authorityOf afterSlashes).length = [] := by
          rw [← same, List.drop_length]
        rw [nothing]
        exact ⟨rfl, by simp [Utf8.encode]⟩
      · have whole := after
        rw [same] at whole
        obtain ⟨front, behind⟩ := whole.split (by rcases kind with rfl | rfl <;> rfl)
        exact ⟨front, dropped ▸ behind.cons kind⟩
    dsimp only
    rw [← validatePathQuery_iff parts.2, ← validatePathQuery_eq, validateAbsoluteUriParts, stripped]
    simp only [validateAuthorityChars_of_target parts.1]
    rfl

/-- What is an http scheme in lower case is one in any case. -/
theorem isHttpScheme_lower (scheme : Str) :
    (toAsciiLowercase scheme == "http".toList || toAsciiLowercase scheme == "https".toList) =
      isHttpScheme scheme := by
  rw [isHttpScheme, eqIgnoreAsciiCase, eqIgnoreAsciiCase, toAsciiLowercase,
    show ("http".toList).map Char.toLower = "http".toList by decide,
    show ("https".toList).map Char.toLower = "https".toList by decide]

/-- The http schemes need an authority that names a host and no user. -/
theorem validateHttpAuthority_iff (rest : Str) :
    validateHttpAuthority rest = .ok () ↔
      ∃ afterSlashes, stripPrefix "//".toList rest = some afterSlashes ∧
        namesHost (authorityOf afterSlashes) = true := by
  unfold validateHttpAuthority
  -- Without two slashes no authority follows, and otherwise its first character decides.
  cases stripPrefix "//".toList rest with
  | none => simp
  | some afterSlashes =>
    simp only [Checked.bind_ok, Checked.reject_ok, Option.some.injEq, exists_eq_left', namesHost]
    generalize authorityOf afterSlashes = authority
    cases authority with
    | nil => simp
    | cons first others => simp

/-- The decoder accepts a URI exactly when it is sound. -/
theorem validateAbsoluteForm_iff {uri : Str} (target : TargetText uri) :
    validateAbsoluteForm uri = .ok .absolute ↔ isSoundUri uri = true := by
  unfold validateAbsoluteForm isSoundUri
  cases split : splitOnce ':' uri with
  | none => simp [detectScheme_colonless split]
  | some parts =>
    obtain ⟨scheme, rest⟩ := parts
    dsimp only
    cases detected : (detectScheme uri).isSome with
    | false =>
      rw [Option.isSome_eq_false_iff, Option.isNone_iff_eq_none] at detected
      simp [detected]
    | true =>
      obtain ⟨alpha, chars, _, found⟩ := (detectScheme_some split).mp detected
      obtain ⟨whole, _⟩ := splitOnce_some split
      have front : uri.take scheme.length = scheme := by rw [whole]; simp
      have back : uri.drop (scheme.length + 1) = rest := by rw [whole]; simp
      have behind : TargetText rest := by
        rw [whole] at target
        exact (target.split rfl).2
      have fragmentless := target.fragmentless
      -- The scheme was checked already, and fragments are excluded from every target.
      simp only [found, front, back, alpha, chars, Bool.not_true, Checked.bind_ok,
        Checked.reject_ok, Checked.onlyIf_ok, isHttpScheme_lower, validateAbsoluteUriParts_iff behind,
        validateHttpAuthority_iff, true_and, exists_const, Bool.and_eq_true, Bool.true_and]
      have brackets : validateIpv6Brackets uri = .ok () ↔
          (validateIpv6Brackets uri).isOk = true := by
        cases validateIpv6Brackets uri <;> simp [Except.isOk, Except.toBool]
      cases stripPrefix "//".toList rest with
      | none => simp [fragmentless, brackets, pure, Except.pure]
      | some afterSlashes =>
        cases isHttpScheme scheme <;> simp [fragmentless, brackets, pure, Except.pure]

/-- The decoder takes a whole URI for nothing else. -/
theorem validateAbsoluteForm_absolute {uri : Str} {form : RequestTargetForm}
    (checked : validateAbsoluteForm uri = .ok form) : form = .absolute := by
  unfold validateAbsoluteForm at checked
  -- Whatever is accepted here is answered with the absolute form.
  cases detected : detectScheme uri with
  | none => simp [detected] at checked
  | some schemeLen =>
    simp only [detected, Checked.bind_ok] at checked
    obtain ⟨_, _, _, _, _, _, _, _, _, _, _, _, same⟩ := checked
    cases same
    rfl

/-- The end of a target that looks like a port behind a host, as the decoder checks it. -/
theorem validateAuthorityForm_iff (uri : Str) :
    validateAuthorityForm uri = .ok () ↔ ∃ host port, rsplitOnce ':' uri = some (host, port) ∧
      (host ≠ [] ∧ port ≠ [] ∧ port.all Char.isDigit = true ∧ (parseU16 port).isSome = true) ∧
      (Host.parse host).isOk = true := by
  unfold validateAuthorityForm
  cases rsplitOnce ':' uri with
  | none => simp
  | some parts =>
    obtain ⟨host, port⟩ := parts
    dsimp only
    simp only [Option.some.injEq, Prod.mk.injEq, ← List.isEmpty_eq_false_iff]
    -- Each of the five checks is one of the five conditions.
    have pair : ∀ motive : Str → Str → Prop, (∃ first last, (host = first ∧ port = last) ∧
        motive first last) ↔ motive host port := by
      intro motive
      constructor
      · rintro ⟨_, _, ⟨rfl, rfl⟩, held⟩
        exact held
      · intro held
        exact ⟨host, port, ⟨rfl, rfl⟩, held⟩
    rw [pair fun host port => (host.isEmpty = false ∧ port.isEmpty = false ∧
      port.all Char.isDigit = true ∧ (parseU16 port).isSome = true) ∧
        (Host.parse host).isOk = true]
    cases host.isEmpty <;> cases port.isEmpty <;> cases port.all Char.isDigit <;>
      cases parseU16 port <;> cases Host.parse host <;> simp [Except.isOk, Except.toBool]

/-- The same as the encoder checks it, which wants no user in it and does not look at the host. -/
theorem looksLikeAuthorityForm_iff (uri : Str) :
    detectRequestTargetForm.looksLikeAuthorityForm uri = true ↔ '@' ∉ uri ∧
      ∃ host port, rsplitOnce ':' uri = some (host, port) ∧
        host ≠ [] ∧ port ≠ [] ∧ port.all Char.isDigit = true ∧ (parseU16 port).isSome = true := by
  unfold detectRequestTargetForm.looksLikeAuthorityForm
  -- Without a colon there is neither a host nor a port.
  cases rsplitOnce ':' uri with
  | none => simp
  | some parts =>
    obtain ⟨host, port⟩ := parts
    simp only [all_isDigit, Bool.and_eq_true, Bool.not_eq_true', Option.some.injEq, Prod.mk.injEq,
      List.isEmpty_eq_false_iff, List.contains_eq_mem, decide_eq_false_iff_not]
    constructor
    · rintro ⟨userless, ⟨⟨present, digits⟩, number⟩, named⟩
      exact ⟨userless, host, port, ⟨rfl, rfl⟩, named, present, digits, number⟩
    · rintro ⟨userless, _, _, ⟨rfl, rfl⟩, named, present, digits, number⟩
      exact ⟨userless, ⟨⟨present, digits⟩, number⟩, named⟩

/-- The host of a target that looks like an authority decides whether the decoder takes it so. -/
theorem validateAuthorityForm_encoder {uri : Str}
    (authority : detectRequestTargetForm.looksLikeAuthorityForm uri = true) :
    validateAuthorityForm uri = .ok () ↔ validateEncoderAuthorityForm uri = .ok () := by
  obtain ⟨_, host, port, split, shaped⟩ := (looksLikeAuthorityForm_iff uri).mp authority
  rw [validateAuthorityForm_iff, validateEncoderAuthorityForm, split]
  -- The port is checked by both, so only the host is left to decide.
  cases parsed : (Host.parse host).isOk with
  | false =>
    refine iff_of_false ?_ (by simp [parsed])
    rintro ⟨_, _, ⟨rfl, rfl⟩, _, accepted⟩
    rw [parsed] at accepted
    cases accepted
  | true => exact iff_of_true ⟨host, port, rfl, shaped, parsed⟩ (by simp [parsed])

/-- A registered name or a dotted address stands without a user. -/
theorem Host.parse_userless {input : Str} (parsed : (Host.parse input).isOk = true)
    (unbracketed : (trimOws input).head? ≠ some '[') : '@' ∉ input := by
  intro user
  have kept : '@' ∈ trimOws input := mem_trimOws user (by decide)
  revert parsed
  simp only [Host.parse]
  generalize trimOws input = text at kept unbracketed
  split
  · simp [Except.isOk, Except.toBool]
  split
  · simp [Except.isOk, Except.toBool]
  rw [if_neg (by simpa using unbracketed)]
  cases split : splitHostPort text with
  | error error => simp [Bind.bind, Except.bind, Except.isOk, Except.toBool]
  | ok parts =>
    obtain ⟨host, port⟩ := parts
    -- The user would stand in the name, since the port consists of digits.
    have named : '@' ∈ host := by
      unfold splitHostPort at split
      cases last : rsplitOnce ':' text with
      | none =>
        simp only [last] at split
        cases split
        exact kept
      | some pair =>
        obtain ⟨name, digits⟩ := pair
        simp only [last] at split
        split at split
        · cases split
        split at split
        · cases split
        rw [Checked.map_ok] at split
        obtain ⟨number, read, same⟩ := split
        cases same
        obtain ⟨whole, _⟩ := rsplitOnce_some last
        rw [whole, List.mem_append, List.mem_cons] at kept
        refine kept.resolve_right fun other => ?_
        have inDigits : '@' ∈ digits := other.resolve_left (by decide)
        unfold parsePort at read
        split at read
        · cases read
        · rename_i numeric
          simp only [Bool.or_eq_true, Bool.not_eq_true', not_or, Bool.not_eq_false] at numeric
          exact absurd (List.all_eq_true.mp numeric.2 _ inDigits) (by decide)
    simp [Bind.bind, Except.bind, Except.isOk, Except.toBool, named]

/-- The encoder and the decoder agree on a target: on its form, and that it may be used. -/
def TargetsAgree (method uri : Str) : Prop :=
  (∀ sent received, detectRequestTargetForm uri = .ok sent →
    parseRequestTargetForm uri = .ok received → sent = received) ∧
  (validateRequestTargetForm method uri = .ok () → ∃ form,
    parseRequestTargetForm uri = .ok form ∧ validateRequestTargetForMethod method form = .ok ())

/-- The targets on which the encoder and the decoder do not agree. -/
inductive Misfiled (method uri : Str) : Prop where
  /-- A path that holds a URI is taken for that URI, and is sent with brackets as well. -/
  | path (origin : uri.head? = some '/') (embedded : containsStr "://".toList uri = true)
    (used : unbracketed uri ∨ method ≠ "CONNECT".toList)
  /-- A URI that ends like a port is taken for a host and a port, whatever the host. -/
  | port (relative : uri.head? ≠ some '/') (plain : containsStr "://".toList uri = false)
    (ported : detectRequestTargetForm.looksLikeAuthorityForm uri = true)
    (hostless : validateEncoderAuthorityForm uri ≠ .ok ()) (sound : isSoundUri uri = true)
  /-- A URI is sent without a look at its scheme, its brackets and its host. -/
  | parts (relative : uri.head? ≠ some '/')
    (absolute : containsStr "://".toList uri = true ∨
      detectRequestTargetForm.looksLikeAuthorityForm uri = false ∧ (detectScheme uri).isSome = true)
    (used : method ≠ "CONNECT".toList) (slashes : rejectHttpWithoutAuthorityPrefix uri = .ok ())
    (unsound : isSoundUri uri = false)

/-- A tunnel needs an authority, and what else needs a path or a URI may use one. -/
theorem validateRequestTargetForMethod_plain {method : Str} {form : RequestTargetForm}
    (plain : form = .origin ∨ form = .absolute) :
    validateRequestTargetForMethod method form = .ok () ↔ method ≠ "CONNECT".toList := by
  unfold validateRequestTargetForMethod
  -- CONNECT admits neither form, and every other method admits both.
  by_cases tunnel : method = "CONNECT".toList
  · rw [if_pos tunnel]
    refine iff_of_false ?_ (not_not.mpr tunnel)
    rcases plain with rfl | rfl <;> simp
  · rw [if_neg tunnel]
    refine iff_of_true ?_ tunnel
    rcases plain with rfl | rfl <;> split <;> rfl

/-- What a sender may use of a URI. -/
theorem validateRequestTargetForm_absolute {method uri : Str}
    (detected : detectRequestTargetForm uri = .ok .absolute) :
    validateRequestTargetForm method uri = .ok () ↔
      method ≠ "CONNECT".toList ∧ rejectHttpWithoutAuthorityPrefix uri = .ok () := by
  simp only [validateRequestTargetForm, detected, Checked.bind_ok, Except.ok.injEq,
    exists_eq_left']
  -- CONNECT never uses a whole URI.
  by_cases tunnel : method = "CONNECT".toList
  · rw [if_pos tunnel]
    exact iff_of_false (by simp) fun used => used.1 tunnel
  · rw [if_neg tunnel]
    exact (and_iff_right tunnel).symm

/-- Where both look for a URI, they agree on one that is sound. -/
theorem targetsAgree_uri {method uri : Str} (target : TargetText uri)
    (detected : detectRequestTargetForm uri = .ok .absolute)
    (parsed : parseRequestTargetForm uri = validateAbsoluteForm uri) :
    TargetsAgree method uri ↔ (method ≠ "CONNECT".toList →
      rejectHttpWithoutAuthorityPrefix uri = .ok () → isSoundUri uri = true) := by
  rw [TargetsAgree, validateRequestTargetForm_absolute detected, detected, parsed,
    ← validateAbsoluteForm_iff target]
  constructor
  · rintro ⟨_, accepted⟩ used slashes
    obtain ⟨form, checked, _⟩ := accepted ⟨used, slashes⟩
    rw [checked, validateAbsoluteForm_absolute checked]
  · intro sound
    -- The forms are the same, so only what is accepted has to be compared.
    refine ⟨fun sent received same checked => ?_, fun ⟨used, slashes⟩ => ?_⟩
    · cases same
      exact (validateAbsoluteForm_absolute checked).symm
    · exact ⟨.absolute, sound used slashes,
        (validateRequestTargetForMethod_plain (.inr rfl)).mpr used⟩

/-- A path is no http URI. -/
theorem rejectHttpWithoutAuthorityPrefix_origin {uri : Str} (origin : uri.head? = some '/') :
    rejectHttpWithoutAuthorityPrefix uri = .ok () := by
  unfold rejectHttpWithoutAuthorityPrefix
  cases split : splitOnce ':' uri with
  | none => rfl
  | some parts =>
    obtain ⟨scheme, rest⟩ := parts
    obtain ⟨whole, _⟩ := splitOnce_some split
    -- What stands before the colon starts with the slash, if it is there at all.
    have other : isHttpScheme scheme = false := by
      cases scheme with
      | nil => decide
      | cons first others =>
        rw [whole] at origin
        cases origin
        simp [isHttpScheme, eqIgnoreAsciiCase]
    rw [isHttpScheme] at other
    simp only [other, Bool.false_and, Bool.false_eq_true, if_false]

/-- A path with a URI in it is taken for the URI by the encoder, and for a path by the decoder. -/
theorem targetsAgree_path {method uri : Str}
    (origin : uri.head? = some '/') (detected : detectRequestTargetForm uri = .ok .absolute)
    (parsed : parseRequestTargetForm uri = .ok .origin ↔ unbracketed uri)
    (only : ∀ form, parseRequestTargetForm uri = .ok form → form = .origin) :
    TargetsAgree method uri ↔ ¬ (unbracketed uri ∨ method ≠ "CONNECT".toList) := by
  have slashes := rejectHttpWithoutAuthorityPrefix_origin origin
  rw [TargetsAgree, validateRequestTargetForm_absolute detected, detected]
  simp only [slashes, and_true, not_or, not_not]
  constructor
  · rintro ⟨same, accepted⟩
    -- The decoder refuses the path, so that the encoder has to refuse it as well.
    have bracketed : ¬ unbracketed uri := fun plain => by
      cases same _ _ rfl (parsed.mpr plain)
    refine ⟨bracketed, ?_⟩
    by_contra used
    obtain ⟨form, read, _⟩ := accepted used
    rw [only form read] at read
    exact bracketed (parsed.mp read)
  · rintro ⟨bracketed, tunnel⟩
    refine ⟨fun sent received _ read => ?_, fun used => absurd tunnel used⟩
    rw [only received read] at read
    exact absurd (parsed.mp read) bracketed

/-- A well-formed target of ASCII characters is a text that a sender may use. -/
theorem isValidRequestTarget_text {uri : Str} (valid : isValidRequestTarget uri = true)
    (narrow : ∀ byte ∈ Utf8.encode uri, byte < 0x80) : uri ≠ [] ∧ TargetText uri := by
  simp only [isValidRequestTarget, Bool.and_eq_true, Bool.not_eq_true',
    List.isEmpty_eq_false_iff] at valid
  refine ⟨valid.1, valid.2, fun byte inside => ?_⟩
  -- The byte of the delete character is refused as a control byte already.
  have printed := List.all_eq_true.mp (isValidTargetBytes_all valid.2) byte inside
  have last : ∀ byte : UInt8, byte < 0x80 → isTargetByte byte = true → byte ≤ 0x7E :=
    forall_byte (by decide +kernel)
  exact last byte (narrow byte inside) printed

/-- The target of a new request is one that a sender may use. -/
theorem Request.new_target {method uri : Str} {request : Request}
    (made : Request.new method uri = .ok request) : uri ≠ [] ∧ TargetText uri := by
  simp only [Request.new, Request.checkTarget, Checked.bind_ok] at made
  -- The two checks of the target are all that is needed here.
  obtain ⟨_, checked, _⟩ := made
  split at checked
  · cases checked
  split at checked
  · cases checked
  rename_i valid
  split at checked
  · cases checked
  rename_i narrow
  exact isValidRequestTarget_text (by simpa using valid) (by simpa using narrow)

/-- What neither an asterisk nor a path is, the decoder looks at in the order of its checks. -/
theorem parseRequestTargetForm_relative {uri : Str} (present : uri ≠ [])
    (named : uri ≠ "*".toList) (relative : uri.head? ≠ some '/') :
    parseRequestTargetForm uri =
      if containsStr "://".toList uri then validateAbsoluteForm uri
      else if (validateAuthorityForm uri).isOk then .ok .authority
      else if (detectScheme uri).isSome then validateAbsoluteForm uri
      else .error (.invalidData "invalid request-target: unrecognized form") := by
  rw [parseRequestTargetForm, if_neg (by simpa using present), if_neg (by simpa using named),
    if_neg (by simpa using relative)]

/-- The decoder takes no target with a scheme for an authority that the encoder does not take so. -/
theorem validateAuthorityForm_schemed {uri : Str}
    (plain : detectRequestTargetForm.looksLikeAuthorityForm uri = false)
    (schemed : (detectScheme uri).isSome = true) : validateAuthorityForm uri ≠ .ok () := by
  intro accepted
  obtain ⟨host, port, split, shaped, parsed⟩ := (validateAuthorityForm_iff uri).mp accepted
  -- Only a user in the target would make the difference, and no host has one.
  have user : '@' ∈ uri := by
    by_contra userless
    rw [(looksLikeAuthorityForm_iff uri).mpr ⟨userless, host, port, split, shaped⟩] at plain
    cases plain
  obtain ⟨whole, _⟩ := rsplitOnce_some split
  rw [whole, List.mem_append, List.mem_cons] at user
  have named : '@' ∈ host := by
    refine user.resolve_right fun other => ?_
    have inPort : '@' ∈ port := other.resolve_left (by decide)
    exact absurd (List.all_eq_true.mp shaped.2.2.1 _ inPort) (by decide)
  refine Host.parse_userless parsed (fun bracket => ?_) named
  -- The target starts with a letter, and so does its host.
  cases host with
  | nil => exact shaped.1 rfl
  | cons first others =>
    have alpha : first.isAlpha = true := by
      rw [whole] at schemed
      by_contra other
      rw [List.cons_append, detectScheme, if_pos (by simpa using other)] at schemed
      cases schemed
    have kept : isOws first = false := by
      by_contra ows
      simp only [isOws, Bool.not_eq_false, Bool.or_eq_true, beq_iff_eq] at ows
      rcases ows with rfl | rfl <;> exact absurd alpha (by decide)
    have starts : (trimOws (first :: others)).head? = some first := by
      rw [trimOws, List.dropWhile_cons_of_neg (by simp [kept])]
      obtain ⟨back, same⟩ := List.rdropWhile_prefix isOws (first :: others)
      cases trimmed : (first :: others).rdropWhile isOws with
      | nil =>
        have member : first ∈ trimOws (first :: others) := mem_trimOws (by simp) kept
        rw [trimOws, List.dropWhile_cons_of_neg (by simp [kept]), trimmed] at member
        cases member
      | cons other rest =>
        rw [trimmed] at same
        cases same
        rfl
    rw [starts] at bracket
    cases bracket
    exact absurd alpha (by decide)

/-- Where both see a path, both refuse its brackets. -/
theorem targetsAgree_origin {method uri : Str} (valid : isValidRequestTarget uri = true)
    (target : TargetText uri) (origin : uri.head? = some '/')
    (detected : detectRequestTargetForm uri = .ok .origin) : TargetsAgree method uri := by
  have parsed := parseRequestTargetForm_origin origin
  refine ⟨fun sent received same read => ?_, fun accepted => ?_⟩
  · rw [detected] at same
    cases same
    rw [parsed, Checked.map_ok] at read
    obtain ⟨_, _, same⟩ := read
    exact same
  · simp only [validateRequestTargetForm, detected, Checked.bind_ok, Except.ok.injEq,
      exists_eq_left'] at accepted
    split at accepted
    · cases accepted
    rename_i used
    split at accepted
    · cases accepted
    rename_i plain
    -- A bracket is one byte of the target.
    simp only [List.any_eq_true, Bool.or_eq_true, beq_iff_eq, not_exists, not_and] at plain
    have bracketless : unbracketed uri :=
      ⟨fun inside => plain 0x5B ((Utf8.mem_encode_ascii (by decide)).mpr inside) (.inl rfl),
        fun inside => plain 0x5D ((Utf8.mem_encode_ascii (by decide)).mpr inside) (.inr rfl)⟩
    have checked := (validateOriginForm_iff valid target.ascii origin).mpr bracketless
    refine ⟨.origin, ?_, (validateRequestTargetForMethod_plain (.inl rfl)).mpr used⟩
    rw [parsed, checked]
    rfl

/-- Where the encoder sees a port, the decoder may see a URI that ends like one. -/
theorem targetsAgree_authority {method uri : Str} (target : TargetText uri)
    (ported : detectRequestTargetForm.looksLikeAuthorityForm uri = true)
    (detected : detectRequestTargetForm uri = .ok .authority)
    (parsed : parseRequestTargetForm uri =
      if (validateAuthorityForm uri).isOk then .ok .authority
      else if (detectScheme uri).isSome then validateAbsoluteForm uri
      else .error (.invalidData "invalid request-target: unrecognized form")) :
    TargetsAgree method uri ↔
      ¬ (validateEncoderAuthorityForm uri ≠ .ok () ∧ isSoundUri uri = true) := by
  have sent : validateRequestTargetForm method uri = .ok () →
      method = "CONNECT".toList ∧ validateEncoderAuthorityForm uri = .ok () := by
    intro accepted
    simp only [validateRequestTargetForm, detected, Checked.bind_ok, Except.ok.injEq,
      exists_eq_left'] at accepted
    split at accepted
    · rename_i tunnel
      exact ⟨tunnel, accepted⟩
    · cases accepted
  by_cases hosted : validateEncoderAuthorityForm uri = .ok ()
  · -- Both take it for an authority.
    rw [(validateAuthorityForm_encoder ported).mpr hosted] at parsed
    change parseRequestTargetForm uri = .ok .authority at parsed
    refine iff_of_true ⟨fun form received same read => ?_, fun accepted => ?_⟩
      fun wrong => wrong.1 hosted
    · rw [detected] at same
      rw [parsed] at read
      cases same
      cases read
      rfl
    · refine ⟨.authority, parsed, ?_⟩
      rw [(sent accepted).1]
      rfl
  · have refused : (validateAuthorityForm uri).isOk = false := by
      cases checked : validateAuthorityForm uri with
      | error => rfl
      | ok => exact absurd ((validateAuthorityForm_encoder ported).mp checked) hosted
    rw [if_neg (by simp [refused])] at parsed
    rw [← validateAbsoluteForm_iff target]
    constructor
    · rintro ⟨same, _⟩ ⟨_, sound⟩
      -- A URI that is sound is one for the decoder only.
      have schemed : (detectScheme uri).isSome = true := by
        by_contra schemeless
        rw [Bool.not_eq_true, Option.isSome_eq_false_iff, Option.isNone_iff_eq_none] at schemeless
        rw [validateAbsoluteForm, schemeless] at sound
        cases sound
      rw [if_pos schemed, sound] at parsed
      cases same _ _ detected parsed
    · intro unsound
      refine ⟨fun form received same read => ?_, fun accepted => absurd (sent accepted).2 hosted⟩
      rw [parsed] at read
      split at read
      · cases validateAbsoluteForm_absolute read
        exact absurd ⟨hosted, read⟩ unsound
      · cases read

/-- Both file an asterisk alike, and it is not misfiled. -/
theorem agree_asterisk {method : Str} :
    TargetsAgree method "*".toList ↔ ¬ Misfiled method "*".toList := by
  refine iff_of_true ⟨fun sent received same read => ?_, fun accepted => ?_⟩ ?_
  · cases same
    cases read
    rfl
  · refine ⟨.asterisk, rfl, ?_⟩
    -- The encoder sends the asterisk with OPTIONS only.
    by_cases options : method = "OPTIONS".toList
    · subst options
      rfl
    · simp only [validateRequestTargetForm, Checked.bind_ok] at accepted
      obtain ⟨form, same, used⟩ := accepted
      cases same
      rw [if_neg options] at used
      cases used
  · rintro (⟨origin, _, _⟩ | ⟨_, _, ported, _, _⟩ | ⟨_, absolute, _, _, _⟩)
    · revert origin
      decide
    · revert ported
      decide
    · revert absolute
      decide

section Forms

variable {method uri : Str} (present : uri ≠ []) (target : TargetText uri)

include present target

/-- A target that is there and has the characters of one is a request target. -/
theorem isValidRequestTarget_made : isValidRequestTarget uri = true := by
  rw [isValidRequestTarget, target.valid, Bool.and_true]
  simpa using present

/-- A path that holds a URI is filed alike exactly where both refuse it. -/
theorem agree_embeddedPath (asterisk : uri ≠ "*".toList)
    (embedded : containsStr "://".toList uri = true)
    (origin : uri.head? = some '/') : TargetsAgree method uri ↔ ¬ Misfiled method uri := by
  -- The encoder sees the URI first, the decoder the slash.
  have detected : detectRequestTargetForm uri = .ok .absolute := by
    rw [detectRequestTargetForm, if_neg asterisk, if_pos embedded]
  have checked :=
    validateOriginForm_iff (isValidRequestTarget_made present target) target.ascii origin
  rw [targetsAgree_path origin detected]
  · constructor
    · -- Only the first way of misfiling is about paths.
      rintro agreed (⟨_, _, used⟩ | ⟨relative, _⟩ | ⟨relative, _⟩)
      · exact agreed used
      · exact relative origin
      · exact relative origin
    · exact fun filed used => filed (.path origin embedded used)
  · rw [parseRequestTargetForm_origin origin, ← checked, Checked.map_ok]
    constructor
    · rintro ⟨_, accepted, _⟩
      exact accepted
    · exact fun accepted => ⟨(), accepted, rfl⟩
  · intro form read
    rw [parseRequestTargetForm_origin origin, Checked.map_ok] at read
    obtain ⟨_, _, same⟩ := read
    exact same.symm

/-- A URI with slashes behind its scheme is filed alike unless only the encoder accepts it. -/
theorem agree_embeddedUri (asterisk : uri ≠ "*".toList)
    (embedded : containsStr "://".toList uri = true)
    (relative : uri.head? ≠ some '/') : TargetsAgree method uri ↔ ¬ Misfiled method uri := by
  have detected : detectRequestTargetForm uri = .ok .absolute := by
    rw [detectRequestTargetForm, if_neg asterisk, if_pos embedded]
  have parsed := parseRequestTargetForm_relative present asterisk relative
  rw [if_pos embedded] at parsed
  rw [targetsAgree_uri target detected parsed]
  constructor
  · -- Only the last way of misfiling is about targets with these slashes.
    rintro agreed (⟨path, _, _⟩ | ⟨_, plain, _⟩ | ⟨_, _, used, slashes, unsound⟩)
    · exact relative path
    · rw [embedded] at plain
      cases plain
    · rw [agreed used slashes] at unsound
      cases unsound
  · intro filed used slashes
    by_contra unsound
    exact filed (.parts relative (.inl embedded) used slashes (by simpa using unsound))

/-- A path without a URI in it is filed alike, and is not misfiled. -/
theorem agree_path (asterisk : uri ≠ "*".toList) (plain : containsStr "://".toList uri = false)
    (origin : uri.head? = some '/') : TargetsAgree method uri ↔ ¬ Misfiled method uri := by
  -- Both see the path, and brackets are refused by both.
  refine iff_of_true
    (targetsAgree_origin (isValidRequestTarget_made present target) target origin ?_) ?_
  · rw [detectRequestTargetForm, if_neg asterisk, if_neg (ne_true_of_eq_false plain), if_pos origin]
  · rintro (⟨_, other, _⟩ | ⟨relative, _⟩ | ⟨relative, _⟩)
    · rw [plain] at other
      cases other
    · exact relative origin
    · exact relative origin

/-- What the encoder takes for an authority is filed alike unless it is a URI without a host. -/
theorem agree_ported (asterisk : uri ≠ "*".toList) (plain : containsStr "://".toList uri = false)
    (relative : uri.head? ≠ some '/')
    (ported : detectRequestTargetForm.looksLikeAuthorityForm uri = true) :
    TargetsAgree method uri ↔ ¬ Misfiled method uri := by
  have embedded : ¬ containsStr "://".toList uri = true := ne_true_of_eq_false plain
  have parsed := parseRequestTargetForm_relative present asterisk relative
  rw [if_neg embedded] at parsed
  rw [targetsAgree_authority target ported (by
    rw [detectRequestTargetForm, if_neg asterisk, if_neg embedded, if_neg relative,
      if_pos ported]) parsed]
  constructor
  · rintro agreed (⟨path, _, _⟩ | ⟨_, _, _, hostless, sound⟩ | ⟨_, absolute, _, _, _⟩)
    · exact relative path
    · exact agreed ⟨hostless, sound⟩
    · -- A target with a port is no URI for the encoder.
      rcases absolute with other | ⟨other, _⟩
      · exact embedded other
      · rw [ported] at other
        cases other
  · rintro filed ⟨hostless, sound⟩
    exact filed (.port relative plain ported hostless sound)

/-- A URI without such slashes is filed alike unless only the encoder accepts it. -/
theorem agree_schemed (asterisk : uri ≠ "*".toList) (plain : containsStr "://".toList uri = false)
    (relative : uri.head? ≠ some '/')
    (unported : detectRequestTargetForm.looksLikeAuthorityForm uri = false)
    (schemed : (detectScheme uri).isSome = true) :
    TargetsAgree method uri ↔ ¬ Misfiled method uri := by
  have embedded : ¬ containsStr "://".toList uri = true := ne_true_of_eq_false plain
  have portless : ¬ detectRequestTargetForm.looksLikeAuthorityForm uri = true := by simp [unported]
  -- The decoder tries it as an authority first, in vain.
  have refused : (validateAuthorityForm uri).isOk = false := by
    cases checked : validateAuthorityForm uri with
    | error => rfl
    | ok => exact absurd checked (validateAuthorityForm_schemed unported schemed)
  have parsed := parseRequestTargetForm_relative present asterisk relative
  rw [if_neg embedded, if_neg (by simp [refused]), if_pos schemed] at parsed
  rw [targetsAgree_uri target (by
    rw [detectRequestTargetForm, if_neg asterisk, if_neg embedded, if_neg relative,
      if_neg portless, if_pos schemed]) parsed]
  constructor
  · rintro agreed (⟨path, _, _⟩ | ⟨_, _, other, _⟩ | ⟨_, _, used, slashes, unsound⟩)
    · exact relative path
    · exact portless other
    · rw [agreed used slashes] at unsound
      cases unsound
  · intro filed used slashes
    by_contra unsound
    exact filed (.parts relative (.inr ⟨unported, schemed⟩) used slashes (by simpa using unsound))

omit present target in
/-- What the encoder takes for nothing at all is never sent, and is not misfiled. -/
theorem agree_unknown (asterisk : uri ≠ "*".toList) (plain : containsStr "://".toList uri = false)
    (relative : uri.head? ≠ some '/')
    (unported : detectRequestTargetForm.looksLikeAuthorityForm uri = false)
    (schemeless : ¬ (detectScheme uri).isSome = true) :
    TargetsAgree method uri ↔ ¬ Misfiled method uri := by
  have embedded : ¬ containsStr "://".toList uri = true := ne_true_of_eq_false plain
  have portless : ¬ detectRequestTargetForm.looksLikeAuthorityForm uri = true := by simp [unported]
  have failed : detectRequestTargetForm uri = .error (.invalidRequestTarget uri) := by
    rw [detectRequestTargetForm, if_neg asterisk, if_neg embedded, if_neg relative,
      if_neg portless, if_neg schemeless]
  refine iff_of_true ⟨fun sent received same _ => ?_, fun accepted => ?_⟩ ?_
  · rw [failed] at same
    cases same
  · rw [validateRequestTargetForm, failed] at accepted
    cases accepted
  · rintro (⟨path, _, _⟩ | ⟨_, _, other, _⟩ | ⟨_, absolute, _, _, _⟩)
    · exact relative path
    · exact portless other
    · exact absolute.elim embedded fun other => schemeless other.2

end Forms

/-- The encoder and the decoder agree on every target but those that are misfiled. -/
theorem targets_agree {method uri : Str} {request : Request}
    (made : Request.new method uri = .ok request) :
    TargetsAgree method uri ↔ ¬ Misfiled method uri := by
  obtain ⟨present, target⟩ := Request.new_target made
  by_cases asterisk : uri = "*".toList
  · subst asterisk
    exact agree_asterisk
  -- The encoder looks for a URI first, then for a path, for a port and for a scheme.
  by_cases embedded : containsStr "://".toList uri = true
  · by_cases origin : uri.head? = some '/'
    · exact agree_embeddedPath present target asterisk embedded origin
    · exact agree_embeddedUri present target asterisk embedded origin
  · have plain : containsStr "://".toList uri = false := by simpa using embedded
    by_cases origin : uri.head? = some '/'
    · exact agree_path present target asterisk plain origin
    by_cases ported : detectRequestTargetForm.looksLikeAuthorityForm uri = true
    · exact agree_ported present target asterisk plain origin ported
    have unported : detectRequestTargetForm.looksLikeAuthorityForm uri = false := by
      simpa using ported
    by_cases schemed : (detectScheme uri).isSome = true
    · exact agree_schemed present target asterisk plain origin unported schemed
    · exact agree_unknown asterisk plain origin unported schemed

/-- A target with a host, a path and a query is filed alike by both. -/
theorem targets_agree_sound :
    TargetsAgree "GET".toList "http://[::1]:80/a?b=/c".toList := by
  have made : Request.new "GET".toList "http://[::1]:80/a?b=/c".toList =
      .ok ⟨"GET".toList, "http://[::1]:80/a?b=/c".toList, http11, [], none⟩ := by decide +kernel
  refine (targets_agree made).mpr ?_
  -- The target does not start with a slash, has slashes behind its scheme, and is sound.
  rintro (⟨origin, _, _⟩ | ⟨_, plain, _, _, _⟩ | ⟨_, _, _, _, unsound⟩)
  · revert origin
    decide
  · revert plain
    decide
  · revert unsound
    decide

/-- A path with a URI in its query is sent as a URI and received as a path, if at all. -/
theorem targets_disagree :
    ((Request.new "GET".toList "/a?b=http://c".toList).isOk = true ∧
      detectRequestTargetForm "/a?b=http://c".toList = .ok .absolute ∧
      parseRequestTargetForm "/a?b=http://c".toList = .ok .origin ∧
      ¬ TargetsAgree "GET".toList "/a?b=http://c".toList) ∧
    ((Request.new "GET".toList "/a?[]=http://c".toList).isOk = true ∧
      validateRequestTargetForm "GET".toList "/a?[]=http://c".toList = .ok () ∧
      (parseRequestTargetForm "/a?[]=http://c".toList).isOk = false) := by
  have sent : detectRequestTargetForm "/a?b=http://c".toList = .ok .absolute := by
    decide
  have received : parseRequestTargetForm "/a?b=http://c".toList = .ok .origin := by
    decide +kernel
  refine ⟨⟨by decide +kernel, sent, received, fun agreed => ?_⟩, by decide +kernel⟩
  cases agreed.1 _ _ sent received

end Http11

import Http11.Proofs.Encoder.Fields
import Http11.Proofs.Encoder.Forms

/-! What the encoder accepts of the targets, hosts, lengths and fields that the decoder accepts. -/

namespace Http11

open Checked

/-- An http URI is one of the http schemes, the slashes behind it, and the rest. -/
theorem isHttpUri_parts {uri : Str} (http : isHttpUri uri = true) :
    ∃ scheme rest, uri = scheme ++ "://".toList ++ rest ∧ ':' ∉ scheme ∧
      isHttpScheme scheme = true := by
  have parts : ∀ name : Str, ':' ∉ name →
      (name ++ "://".toList).isPrefixOf (toAsciiLowercase uri) = true →
      ∃ scheme rest, uri = scheme ++ "://".toList ++ rest ∧ ':' ∉ scheme ∧
        toAsciiLowercase scheme = name := by
    intro name plain front
    rw [List.isPrefixOf_iff_prefix] at front
    obtain ⟨back, whole⟩ := front
    obtain ⟨before, rest, rfl, lower, _⟩ := List.map_eq_append_iff.mp whole.symm
    obtain ⟨scheme, slashes, rfl, named, separator⟩ := List.map_eq_append_iff.mp lower
    refine ⟨scheme, rest, ?_, fun inside => plain ?_, named⟩
    · -- Neither a colon nor a slash is the lower case of anything else.
      rw [toAsciiLowercase_unlettered separator (by decide)]
    · rw [← named]
      exact List.mem_map.mpr ⟨':', inside, rfl⟩
  rw [isHttpUri, Bool.or_eq_true] at http
  rcases http with http | https
  · obtain ⟨scheme, rest, whole, plain, named⟩ := parts "http".toList (by decide) http
    refine ⟨scheme, rest, whole, plain, ?_⟩
    rw [← isHttpScheme_lower, named]
    decide
  · obtain ⟨scheme, rest, whole, plain, named⟩ := parts "https".toList (by decide) https
    refine ⟨scheme, rest, whole, plain, ?_⟩
    rw [← isHttpScheme_lower, named]
    decide

/-- The slashes of an http URI are there in every sound one. -/
theorem rejectHttpWithoutAuthorityPrefix_sound {uri : Str} (sound : isSoundUri uri = true) :
    rejectHttpWithoutAuthorityPrefix uri = .ok () := by
  unfold isSoundUri at sound
  unfold rejectHttpWithoutAuthorityPrefix
  cases split : splitOnce ':' uri with
  | none => rfl
  | some parts =>
    obtain ⟨scheme, rest⟩ := parts
    simp only [split] at sound
    dsimp only
    cases slashes : stripPrefix "//".toList rest with
    | none =>
      -- Without them the scheme is another one.
      simp only [slashes, Bool.and_eq_true, Bool.not_eq_true'] at sound
      have other : isHttpScheme scheme = false := sound.2.2
      rw [isHttpScheme] at other
      rw [other, Bool.false_and, if_neg (by simp)]
    | some afterSlashes =>
      have front : ("//".toList).isPrefixOf rest = true := by
        unfold stripPrefix at slashes
        split at slashes
        · assumption
        · cases slashes
      rw [front, Bool.not_true, Bool.and_false, if_neg (by simp)]

/-- A target whose form the decoder has told, for a method that opens no tunnel. -/
structure Told (method uri : Str) : Prop where
  /-- There is a target. -/
  present : uri ≠ []
  /-- A sender may use its characters. -/
  text : TargetText uri
  /-- It opens no tunnel. -/
  tunnelless : method ≠ "CONNECT".toList
  /-- The form is one that the method may use. -/
  used : ∃ form, parseRequestTargetForm uri = .ok form ∧
    validateRequestTargetForMethod method form = .ok ()

section Target

variable {method uri : Str} (told : Told method uri)

include told

/-- A target that is told is the asterisk, a path without brackets, or a sound URI. -/
theorem Told.forms : (uri = "*".toList ∧ method = "OPTIONS".toList) ∨
    (uri.head? = some '/' ∧ unbracketed uri) ∨
    (uri ≠ "*".toList ∧ uri.head? ≠ some '/' ∧ isSoundUri uri = true ∧
      (containsStr "://".toList uri = true ∨
        (validateAuthorityForm uri).isOk = false ∧ (detectScheme uri).isSome = true)) := by
  obtain ⟨form, parsed, used⟩ := told.used
  by_cases named : uri = "*".toList
  · subst named
    cases parsed
    refine .inl ⟨rfl, ?_⟩
    -- Only one method may use the asterisk.
    by_contra other
    rw [validateRequestTargetForMethod, if_neg told.tunnelless, if_neg other] at used
    cases used
  right
  by_cases origin : uri.head? = some '/'
  · rw [parseRequestTargetForm_origin origin, Checked.map_ok] at parsed
    obtain ⟨_, accepted, _⟩ := parsed
    have valid : isValidRequestTarget uri = true := by
      simp [isValidRequestTarget, told.present, told.text.valid]
    exact .inl ⟨origin, (validateOriginForm_iff valid told.text.ascii origin).mp accepted⟩
  right
  have sound : validateAbsoluteForm uri = .ok form → isSoundUri uri = true := by
    intro checked
    rw [← validateAbsoluteForm_iff told.text, checked, validateAbsoluteForm_absolute checked]
  rw [parseRequestTargetForm_relative told.present named origin] at parsed
  refine ⟨named, origin, ?_⟩
  by_cases embedded : containsStr "://".toList uri = true
  · rw [if_pos embedded] at parsed
    exact ⟨sound parsed, .inl embedded⟩
  rw [if_neg embedded] at parsed
  by_cases authority : (validateAuthorityForm uri).isOk = true
  · -- An authority is for tunnels only.
    rw [if_pos authority] at parsed
    cases parsed
    rw [validateRequestTargetForMethod, if_neg told.tunnelless] at used
    split at used <;> cases used
  rw [if_neg authority] at parsed
  by_cases schemed : (detectScheme uri).isSome = true
  · rw [if_pos schemed] at parsed
    exact ⟨sound parsed, .inr ⟨by simpa using authority, schemed⟩⟩
  · rw [if_neg schemed] at parsed
    cases parsed

/-- Where they agree on the form, the encoder accepts a target that the decoder has accepted. -/
theorem Told.accepted (filed : ¬ Misfiled method uri) :
    validateRequestTargetForm method uri = .ok () := by
  rcases told.forms with ⟨rfl, rfl⟩ | ⟨origin, plain⟩ | ⟨named, relative, sound, absolute⟩
  · rfl
  · have named : uri ≠ "*".toList := by
      rintro rfl
      revert origin
      decide
    have unembedded : ¬ containsStr "://".toList uri = true := fun embedded =>
      filed (.path origin embedded (.inl plain))
    have detected : detectRequestTargetForm uri = .ok .origin := by
      rw [detectRequestTargetForm, if_neg named, if_neg unembedded, if_pos origin]
    have brackets : (Utf8.encode uri).any (fun byte => byte == 0x5B || byte == 0x5D) = false := by
      refine List.any_eq_false.mpr fun byte inside => ?_
      simp only [Bool.or_eq_true, beq_iff_eq, not_or]
      constructor
      · rintro rfl
        exact plain.1 ((Utf8.mem_encode_ascii (by decide)).mp inside)
      · rintro rfl
        exact plain.2 ((Utf8.mem_encode_ascii (by decide)).mp inside)
    simp only [validateRequestTargetForm, detected, Checked.bind_ok, Except.ok.injEq,
      exists_eq_left', if_neg told.tunnelless, brackets, Bool.false_eq_true, if_false]
  · have slashes := rejectHttpWithoutAuthorityPrefix_sound sound
    refine (validateRequestTargetForm_absolute ?_).mpr ⟨told.tunnelless, slashes⟩
    rw [detectRequestTargetForm, if_neg named]
    by_cases embedded : containsStr "://".toList uri = true
    · rw [if_pos embedded]
    obtain ⟨refused, schemed⟩ := absolute.resolve_left embedded
    rw [if_neg embedded, if_neg relative]
    by_cases ported : detectRequestTargetForm.looksLikeAuthorityForm uri = true
    · -- The encoder would take the end of the URI for a port.
      refine absurd (Misfiled.port relative (by simpa using embedded) ported ?_ sound) filed
      rw [Ne, ← validateAuthorityForm_encoder ported]
      intro accepted
      rw [accepted] at refused
      cases refused
    · rw [if_neg ported, if_pos schemed]

/-- The host of an http URI that was accepted is there, and no user is. -/
theorem Told.rejects : rejectHttpUserinfo uri = .ok () ∧ rejectHttpEmptyHost uri = .ok () := by
  unfold rejectHttpUserinfo rejectHttpEmptyHost
  by_cases http : isHttpUri uri = true
  · obtain ⟨scheme, rest, whole, plain, isHttp⟩ := isHttpUri_parts http
    have split : splitOnce ':' uri = some (scheme, '/' :: '/' :: rest) := by
      rw [whole, List.append_assoc]
      exact splitOnce_append plain _
    have named : namesHost (authorityOf rest) = true := by
      rcases told.forms with ⟨rfl, _⟩ | ⟨origin, _⟩ | ⟨_, _, sound, _⟩
      · exact absurd http (by decide)
      · -- A path does not start with a scheme.
        cases scheme with
        | nil => exact absurd isHttp (by decide)
        | cons first others =>
          rw [whole] at origin
          cases origin
          simp [isHttpScheme, eqIgnoreAsciiCase] at isHttp
      · have stripped : stripPrefix "//".toList ('/' :: '/' :: rest) = some rest := rfl
        simp only [isSoundUri, split, stripped, isHttp, Bool.not_true, Bool.false_or,
          Bool.and_eq_true] at sound
        exact sound.2.2
    simp only [namesHost, Bool.and_eq_true, Bool.not_eq_true', bne_iff_ne] at named
    obtain ⟨⟨userless, present⟩, portless⟩ := named
    have whose : withoutUserinfo (authorityOf rest) = authorityOf rest := by
      have unsplit : rsplitOnce '@' (authorityOf rest) = none := by
        rw [rsplitOnce, splitOnce_none (by simpa using userless)]
        rfl
      rw [withoutUserinfo, unsplit]
    have found : splitOnceStr "://".toList uri = some (scheme, rest) := by
      rw [whole]
      exact splitOnceStr_slashes plain rest
    simp only [http, Bool.not_true, Bool.false_eq_true, if_false, found, userless, whose, present]
    simp [portless]
  · simp [http]

end Target

/-- The host of a request agrees with what its target says of it. -/
def hostAgrees (uri host : Str) : Prop :=
  if containsStr "://".toList uri then
    ∀ authority, extractAuthorityFromUri uri = some authority →
      authority = [] ∨ eqIgnoreAsciiCase authority host = true
  -- A URI without authority says that there is no host.
  else uri.head? = some '/' ∨ uri = "*".toList ∨ host = []

/-- What a target says of its host decides whether the encoder accepts the two together. -/
theorem Told.hostAgrees_iff {method uri : Str} (told : Told method uri)
    (filed : ¬ Misfiled method uri) (host : Str) :
    hostAgrees uri host ↔ onlyIf (containsStr "://".toList uri) (checkAuthority uri host) = .ok () ∧
      checkNoAuthority uri host = .ok () := by
  have accepted := told.accepted filed
  unfold hostAgrees checkAuthority
  by_cases embedded : containsStr "://".toList uri = true
  · -- The authority is the host, and the check for none is void.
    have absent : checkNoAuthority uri host = .ok () := by
      rw [checkNoAuthority, embedded]
      split <;> rfl
    rw [if_pos embedded, absent, embedded]
    simp only [onlyIf, and_true]
    cases extractAuthorityFromUri uri with
    | none => simp
    | some authority =>
      simp only [Option.some.injEq, forall_eq']
      rw [if_pos trivial, Checked.reject_ok]
      cases authority with
      | nil => simp
      | cons first others => simp
  · rw [if_neg embedded]
    have plain : containsStr "://".toList uri = false := by simpa using embedded
    simp only [checkNoAuthority, plain, onlyIf, Bool.false_eq_true, if_false, true_and,
      Bool.not_false, Bool.true_and]
    by_cases named : uri = "*".toList
    · subst named
      exact iff_of_true (.inr (.inl rfl)) rfl
    by_cases origin : uri.head? = some '/'
    · rw [detectRequestTargetForm, if_neg named, if_neg embedded, if_pos origin]
      exact iff_of_true (.inl origin) rfl
    -- Neither the asterisk nor a path, the target is a URI without authority.
    have detected : detectRequestTargetForm uri = .ok .absolute := by
      simp only [validateRequestTargetForm, Checked.bind_ok] at accepted
      obtain ⟨form, detected, used⟩ := accepted
      have other := detected
      rw [detectRequestTargetForm, if_neg named, if_neg embedded, if_neg origin] at other
      split at other
      · cases other
        rw [if_neg told.tunnelless] at used
        cases used
      · split at other <;> cases other
        exact detected
    simp only [detected, Checked.reject_ok, Bool.not_eq_false', List.isEmpty_iff]
    exact ⟨fun agrees => (agrees.resolve_left origin).resolve_left named,
      fun empty => .inr (.inr empty)⟩

/-- A declared length stands alone in its field. -/
def unlisted (headers : Headers) : Prop :=
  ∀ value ∈ getHeaders headers "Content-Length".toList, ',' ∉ value

/-- The encoder reads one length in a field, where the decoder may read a list of them. -/
theorem checkLengthField_commaless {state next : Option Nat} {value : Str}
    (checked : checkLengthField state value = .ok next) : ',' ∉ value := by
  intro inside
  simp only [checkLengthField, all_isDigit] at checked
  split at checked
  · cases checked
  · -- A comma is no digit.
    rename_i digits
    simp only [Bool.or_eq_true, Bool.not_eq_true', not_or, Bool.not_eq_false] at digits
    have kept := mem_trimOws inside (by decide)
    exact absurd (List.all_eq_true.mp digits.2 ',' kept) (by decide)

/-- A length that the decoder reads and that stands alone is read by the encoder as well. -/
theorem checkLengthField_single {state next : Option Nat} {value : Str}
    (trimmed : trimOws value = value) (added : addContentLength state value = .ok next)
    (commaless : ',' ∉ value) : checkLengthField state value = .ok next := by
  have single : listElements value = if value.isEmpty then [] else [value] := by
    simp only [listElements, List.splitOn_eq_singleton commaless, List.map_cons, List.map_nil,
      trimmed]
    cases value <;> rfl
  simp only [addContentLength, parseContentLengthValue, single, Checked.bind_ok] at added
  obtain ⟨parsed, ⟨result, folded, counted⟩, agreed⟩ := added
  simp only [checkLengthField, trimmed, all_isDigit]
  cases empty : value.isEmpty with
  | true =>
    rw [if_pos empty] at folded
    cases folded
    cases counted
  | false =>
    rw [if_neg (by simp [empty]), List.foldlM_cons, Checked.bind_ok] at folded
    obtain ⟨first, checked, same⟩ := folded
    cases same
    unfold checkContentLength at checked
    split at checked
    · cases checked
    rename_i digits
    cases number : parseU64 value with
    | none => simp [number] at checked
    | some length =>
      simp only [number] at checked
      cases checked
      cases counted
      simp only [Bool.not_eq_true', Bool.not_eq_false] at digits
      rw [if_neg (by simp [digits])]
      -- Both agree with the length before, or take this one.
      cases state with
      | none =>
        cases agreed
        rfl
      | some prev =>
        dsimp only at agreed ⊢
        split at agreed
        · cases agreed
        · rename_i same
          cases agreed
          rw [if_neg same]

/-- The encoder reads no list from any of the fields. -/
theorem validateContentLengthHeaders_commaless {headers : Headers} {length : Option Nat}
    (checked : validateContentLengthHeaders headers = .ok length) : unlisted headers := by
  unfold validateContentLengthHeaders at checked
  unfold unlisted
  generalize getHeaders headers "Content-Length".toList = fields at checked ⊢
  generalize (none : Option Nat) = state at checked
  -- The state before each field does not matter, only that the field was accepted.
  induction fields generalizing state with
  | nil => simp
  | cons value fields ih =>
    rw [List.foldlM_cons, Checked.bind_ok] at checked
    obtain ⟨next, first, rest⟩ := checked
    exact List.forall_mem_cons.mpr ⟨checkLengthField_commaless first, ih next rest⟩

/-- The encoder reads the same length from trimmed fields, unless one of them holds a list. -/
theorem validateContentLengthHeaders_iff {headers : Headers} {length : Option Nat}
    (trimmed : receivedHeaders headers = headers)
    (parsed : parseContentLength headers = .ok length) :
    validateContentLengthHeaders headers = .ok length ↔ unlisted headers := by
  refine ⟨validateContentLengthHeaders_commaless, fun commaless => ?_⟩
  have values : ∀ value ∈ getHeaders headers "Content-Length".toList, trimOws value = value := by
    rw [← trimmed, getHeaders_received]
    intro value inside
    obtain ⟨raw, _, rfl⟩ := List.mem_map.mp inside
    exact trimOws_trimOws raw
  rw [parseContentLength_eq] at parsed
  unfold unlisted at commaless
  unfold validateContentLengthHeaders
  -- Field by field, both start from the same length and come to the same one.
  generalize getHeaders headers "Content-Length".toList = fields at parsed values commaless ⊢
  generalize (none : Option Nat) = state at parsed ⊢
  induction fields generalizing state with
  | nil =>
    cases parsed
    rfl
  | cons value fields ih =>
    rw [List.foldlM_cons, Checked.bind_ok] at parsed
    obtain ⟨next, added, rest⟩ := parsed
    rw [List.forall_mem_cons] at values commaless
    rw [List.foldlM_cons, Checked.bind_ok]
    exact ⟨next, checkLengthField_single values.1 added commaless.1,
      ih values.2 commaless.2 next rest⟩

/-- A length is read exactly when a field declares one. -/
theorem parseContentLength_isSome {headers : Headers} {length : Option Nat}
    (parsed : parseContentLength headers = .ok length) :
    hasHeader headers "Content-Length".toList = length.isSome := by
  cases length with
  | none => exact parseContentLength_none parsed
  | some length =>
    -- A length can only come from a field of its name.
    by_contra missing
    rw [Option.isSome_some, Bool.not_eq_true, hasHeader_eq_false] at missing
    rw [parseContentLength_eq, missing] at parsed
    cases parsed

/-- Fields that can be sent pass the checks of the encoder. -/
theorem validateHeaders_sendable {headers : Headers}
    (sendables : ∀ field ∈ headers, sendable field) : validateHeaders headers = .ok () := by
  -- Each field passes both checks, so none of them ends the list early.
  induction headers with
  | nil => rfl
  | cons field headers ih =>
    obtain ⟨name, value⟩ := field
    obtain ⟨named, valued⟩ := sendables (name, value) (by simp)
    rw [validateHeaders, checkHeader, if_neg (by simpa using named), if_neg (by simpa using valued)]
    exact ih fun other inside => sendables other (List.mem_cons_of_mem _ inside)

/-- A version that is well formed can stand in a start line. -/
theorem isValidVersionForEncode_of_protocol {version : Str}
    (valid : isValidProtocolVersion version = true) : isValidVersionForEncode version = true := by
  have token : ∀ byte, isTokenChar byte = true → (0x21 ≤ byte && byte ≤ 0x7E) = true :=
    forall_byte (by decide +kernel)
  have digit : ∀ byte, isAsciiDigit byte = true → (0x21 ≤ byte && byte ≤ 0x7E) = true :=
    forall_byte (by decide +kernel)
  have present := (isValidProtocolVersion_plain valid).1
  unfold isValidProtocolVersion at valid
  cases slash : splitOnce '/' version with
  | none => simp [slash] at valid
  | some parts =>
    obtain ⟨name, afterSlash⟩ := parts
    cases dot : splitOnce '.' afterSlash with
    | none => simp [slash, dot] at valid
    | some numbers =>
      obtain ⟨major, minor⟩ := numbers
      simp only [slash, dot, Bool.and_eq_true] at valid
      obtain ⟨⟨_, nameToken⟩, ⟨⟨_, majorDigits⟩, _⟩, minorDigits⟩ := valid
      obtain ⟨rfl, _⟩ := splitOnce_some slash
      obtain ⟨rfl, _⟩ := splitOnce_some dot
      -- Each part of the version is printable, and so are the slash and the dot.
      rw [isValidVersionForEncode, Bool.and_eq_true]
      refine ⟨by simp, ?_⟩
      rw [List.all_eq_true] at nameToken majorDigits minorDigits ⊢
      simp only [Utf8.encode_append, Utf8.encode_cons, List.mem_append]
      rintro byte (inside | inside | inside | inside | inside)
      · exact token byte (nameToken byte inside)
      · revert byte
        decide +kernel
      · exact digit byte (majorDigits byte inside)
      · revert byte
        decide +kernel
      · exact digit byte (minorDigits byte inside)

end Http11

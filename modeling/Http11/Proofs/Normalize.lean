import Http11.Proofs.Lowering
import Http11.Proofs.Normalized

/-! The normal form of a URI: when it exists, and that it stays as it is. -/

namespace Http11

namespace Uri

/-- Parts in normal form. -/
structure IsNormal (parts : References.Parts) : Prop where
  /-- A scheme is in lower case. -/
  scheme : parts.scheme.map toAsciiLowercase = parts.scheme
  /-- The host of an authority is in lower case. -/
  authority : parts.authority.map normalizeAuthority = parts.authority
  /-- What needs not be encoded in a path is not. -/
  path : IsTripletText isPcharOrSlash isNormalPair parts.path
  /-- A path has no dot segments. -/
  dotless : removeDotSegments parts.path = parts.path
  /-- What needs not be encoded in a query is not. -/
  query : ∀ query, parts.query = some query → IsTripletText isQueryChar isNormalPair query
  /-- What needs not be encoded in a fragment is not. -/
  fragment : ∀ fragment, parts.fragment = some fragment →
    IsTripletText isQueryChar isNormalPair fragment

/-- Parts that a URI is rebuilt from. -/
structure NormalizesTo (uri : Uri) (parts : References.Parts) : Prop where
  /-- Its scheme in lower case. -/
  scheme : uri.scheme.map toAsciiLowercase = parts.scheme
  /-- Its authority with the host in lower case. -/
  authority : uri.authority.map normalizeAuthority = parts.authority
  /-- Its path, decoded where it can be, and then without dot segments. -/
  path : ∃ path, normalizePercentEncoding uri.path = .ok path ∧
    removeDotSegments path = parts.path
  /-- Its query, decoded where it can be. -/
  query : normalizePart uri.query = .ok parts.query
  /-- Its fragment, decoded where it can be. -/
  fragment : normalizePart uri.fragment = .ok parts.fragment

/-- A URI is normalized by rebuilding it from parts. -/
theorem NormalizesTo.normalize_eq {uri : Uri} {parts : References.Parts}
    (normalizes : NormalizesTo uri parts) :
    normalize uri =
      parse (buildUri parts.scheme parts.authority parts.path parts.query parts.fragment) := by
  obtain ⟨path, decoded, dotless⟩ := normalizes.path
  unfold normalize
  rw [normalizes.scheme, normalizes.authority, decoded, normalizes.query, normalizes.fragment,
    ← dotless]
  rfl

/-- A part that is encoded or missing has a normal form. -/
theorem normalizePart_ok {part : Option Str}
    (encoded : ∀ text, part = some text → IsTripletText isQueryChar isHexPair text) :
    ∃ normalized, normalizePart part = .ok normalized ∧
      (∀ text, normalized = some text → IsTripletText isQueryChar isNormalPair text) ∧
      (normalized = none ↔ part = none) := by
  -- A missing part stays missing.
  cases part with
  | none => exact ⟨none, rfl, fun _ found => (by cases found), Iff.rfl⟩
  | some text =>
    obtain ⟨normalized, same, normal⟩ :=
      normalizePercentEncoding_ok isPartKind_query (encoded text rfl)
    refine ⟨some normalized, ?_, fun other found => ?_, by simp⟩
    · rw [normalizePart, same]
      rfl
    · rw [← Option.some.inj found]
      exact normal

/-- A part in normal form stays as it is. -/
theorem normalizePart_normal {part : Option Str}
    (normal : ∀ text, part = some text → IsTripletText isQueryChar isNormalPair text) :
    normalizePart part = .ok part := by
  cases part with
  | none => rfl
  | some text =>
    rw [normalizePart, normalizePercentEncoding_normal isPartKind_query (normal text rfl)]
    rfl

/-- Behind a step to the same place two slashes are left as they are. -/
theorem removeDotSegments_slashDot {path : Str} (slashes : ['/', '/'] <+: path) :
    removeDotSegments ('/' :: '.' :: path) = removeDotSegments path := by
  obtain ⟨later, rfl⟩ := slashes
  have passed : removeDotSegmentsPass ('/' :: '.' :: '/' :: '/' :: later, []) =
      .inl ('/' :: '/' :: later, []) := by
    simp [removeDotSegmentsPass]
  exact congrArg List.flatten (removeDotSegmentsLoop_next passed)

/-- A guard is removed with the dot segments. -/
theorem removeDotSegments_guardedPath (parts : References.Parts) :
    removeDotSegments (guardedPath parts) = removeDotSegments parts.path := by
  -- A guard is removed like the segment it is, and without one nothing changes.
  rcases pathGuard_cases parts with some | slashes | colon | plain
  · rw [some.2]
  · rw [slashes.2.2]
    exact removeDotSegments_slashDot slashes.2.1
  · rw [colon.2.2.2]
    exact removeDotSegments_front ['.'] parts.path (.inl rfl)
  · rw [plain.2.2.2]

/-- A URI with parts in normal form, its path behind its guard, is rebuilt from them. -/
theorem IsNormal.normalizesTo {parts : References.Parts} (normal : IsNormal parts) {uri : Uri}
    (same : uri.parts = { parts with path := guardedPath parts }) : NormalizesTo uri parts := by
  have scheme : uri.scheme = parts.scheme := congrArg References.Parts.scheme same
  have authority : uri.authority = parts.authority := congrArg References.Parts.authority same
  have path : uri.path = guardedPath parts := congrArg References.Parts.path same
  have query : uri.query = parts.query := congrArg References.Parts.query same
  have fragment : uri.fragment = parts.fragment := congrArg References.Parts.fragment same
  refine ⟨?_, ?_, ⟨guardedPath parts, ?_, ?_⟩, ?_, ?_⟩
  · rw [scheme]
    exact normal.scheme
  · rw [authority]
    exact normal.authority
  · rw [path]
    exact normalizePercentEncoding_normal isPartKind_path (guardedPath_encoded normal.path)
  · -- Removing the dot segments undoes the guard.
    rw [removeDotSegments_guardedPath]
    exact normal.dotless
  · rw [query]
    exact normalizePart_normal normal.query
  · rw [fragment]
    exact normalizePart_normal normal.fragment

/-- An authority that was accepted is accepted in normal form. -/
theorem checkAuthority_normalize {authority : Option Str} {told : Nat × Option Nat}
    (accepted : checkAuthority authority = .ok told) :
    (∃ normalized, checkAuthority (authority.map normalizeAuthority) = .ok normalized) ∧
      (authority.map normalizeAuthority).map normalizeAuthority =
        authority.map normalizeAuthority ∧
      ∀ text, authority = some text → (∀ char ∈ text, inAuthority char = true) →
        ∀ char ∈ normalizeAuthority text, inAuthority char = true := by
  -- A missing authority stays missing.
  cases authority with
  | none => exact ⟨⟨_, rfl⟩, rfl, fun _ found => (by cases found)⟩
  | some text =>
    obtain ⟨isAuthority, same, chars⟩ :=
      normalizeAuthority_isUriAuthority ((parseAuthority_iff text).mp ⟨told, accepted⟩)
    refine ⟨(parseAuthority_iff _).mpr isAuthority, congrArg some same, ?_⟩
    intro other found
    rw [← Option.some.inj found]
    exact chars

/-- A scheme stays one in lower case. -/
theorem scheme_lowered {scheme : Str} :
    ((∀ char ∈ scheme, isSchemeChar char = true) →
      ∀ char ∈ toAsciiLowercase scheme, isSchemeChar char = true) ∧
      (toAsciiLowercase scheme).head?.any Char.isAlpha = scheme.head?.any Char.isAlpha := by
  have chars : ∀ char : Char, isSchemeChar char.toLower = isSchemeChar char :=
    toLower_same isSchemeChar (by decide)
  have first : ∀ char : Char, char.toLower.isAlpha = char.isAlpha :=
    toLower_same Char.isAlpha (by decide)
  -- Letters of both cases may stand in a scheme, and nothing else has a lower case.
  constructor
  · intro own
    rw [toAsciiLowercase, List.forall_mem_map]
    intro char inside
    rw [chars]
    exact own char inside
  · cases scheme with
    | nil => rfl
    | cons char rest => exact first char

/-- A path that is empty or slashed is so without its dot segments, which may be encoded. -/
theorem normalizedPath_rooted {path normalized : Str} (rooted : path = [] ∨ IsSlashed path)
    (same : normalizePercentEncoding path = .ok normalized) :
    removeDotSegments normalized = [] ∨ IsSlashed (removeDotSegments normalized) := by
  rcases rooted with rfl | slashed
  · rw [← Except.ok.inj same]
    exact .inl rfl
  · -- The slash in front stays, whatever is encoded behind it.
    obtain ⟨later, rfl⟩ := slashed
    rw [normalizePercentEncoding_slash] at same
    cases behind : normalizePercentEncoding later with
    | error failure =>
      rw [behind] at same
      cases same
    | ok text =>
      rw [behind] at same
      rw [← Except.ok.inj same]
      exact .inr (removeDotSegments_slashed ⟨text, rfl⟩)

/-- Every URI is rebuilt from parts in normal form, which the parser accepts. -/
theorem rebuilt {input : Str} {uri : Uri} (parsed : parse input = .ok uri) :
    ∃ parts told, NormalizesTo uri parts ∧ IsNormal parts ∧ IsPlain parts ∧ IsChecked parts ∧
      checkAuthority parts.authority = .ok told ∧
      (parts.path = [] ↔ uri.path = [] ∨ AreSegments IsDotSegment uri.path) ∧
      (parts.query = none ↔ uri.query = none) ∧
      (parts.fragment = none ↔ uri.fragment = none) := by
  obtain ⟨_, _, separated, checked, accepted⟩ := parts_of_parse parsed
  obtain ⟨path, decoded, normalPath⟩ := normalizePercentEncoding_ok isPartKind_path checked.path
  obtain ⟨query, decodedQuery, normalQuery, queried⟩ := normalizePart_ok checked.query
  obtain ⟨fragment, decodedFragment, normalFragment, fragmented⟩ :=
    normalizePart_ok checked.fragment
  obtain ⟨⟨told, authority⟩, sameAuthority, authorityChars⟩ := checkAuthority_normalize accepted
  have dotless : IsTripletText isPcharOrSlash isNormalPair (removeDotSegments path) :=
    normalPath.removeDotSegments isHexPair_of_normal (by decide)
  have encoded := dotless.mono isHexPair_of_normal
  refine ⟨⟨uri.scheme.map toAsciiLowercase, uri.authority.map normalizeAuthority,
    removeDotSegments path, query, fragment⟩, told, ⟨rfl, rfl, ⟨path, decoded, rfl⟩, decodedQuery,
    decodedFragment⟩, ?_, ?_, ?_, authority, ?_, queried, fragmented⟩
  · refine ⟨?_, sameAuthority, dotless, removeDotSegments_idempotent path, normalQuery,
      normalFragment⟩
    dsimp only
    rw [Option.map_map]
    exact Option.map_congr fun scheme _ => toAsciiLowercase_idempotent scheme
  · refine ⟨fun scheme found => ?_, fun authority found => ?_, fun present => ?_,
      inPath_of_encoded encoded, fun query found => ?_⟩
    · obtain ⟨original, known, rfl⟩ := Option.map_eq_some_iff.mp found
      obtain ⟨filled, chars⟩ := separated.scheme original known
      exact ⟨by simpa [toAsciiLowercase] using filled, scheme_lowered.1 chars⟩
    · obtain ⟨original, known, rfl⟩ := Option.map_eq_some_iff.mp found
      exact authorityChars original known (separated.authority original known)
    · have some : uri.authority ≠ none := by simpa using present
      exact normalizedPath_rooted (separated.rooted some) decoded
    · exact inQuery_of_encoded ((normalQuery query found).mono isHexPair_of_normal)
  · refine ⟨fun scheme found => ?_, encoded,
      fun query found => (normalQuery query found).mono isHexPair_of_normal,
      fun fragment found => (normalFragment fragment found).mono isHexPair_of_normal⟩
    obtain ⟨original, known, rfl⟩ := Option.map_eq_some_iff.mp found
    rw [scheme_lowered.2]
    exact checked.scheme original known
  · -- The path vanishes when it is empty or made of dot segments.
    rw [show ((removeDotSegments path = []) ↔ _) from removeDotSegments_eq_nil path,
      areDots_iff isPartKind_path checked.path decoded]
    refine or_congr_left ⟨fun empty => ?_, fun empty => ?_⟩
    · rw [empty] at decoded
      exact normalizePercentEncoding_nil isPartKind_path checked.path decoded
    · rw [show uri.parts.path = [] from empty] at decoded
      exact (Except.ok.inj decoded).symm

/-- A URI without parts is rebuilt as nothing. -/
theorem buildUri_eq_nil (parts : References.Parts) :
    buildUri parts.scheme parts.authority parts.path parts.query parts.fragment = [] ↔
      parts.scheme = none ∧ parts.authority = none ∧ parts.path = [] ∧ parts.query = none ∧
        parts.fragment = none := by
  constructor
  · intro empty
    unfold buildUri at empty
    simp only [List.append_eq_nil_iff] at empty
    obtain ⟨⟨⟨⟨⟨scheme, authority⟩, _⟩, path⟩, query⟩, fragment⟩ := empty
    -- Each part brings at least its own delimiter, so a missing text has no parts.
    refine ⟨?_, ?_, path, ?_, ?_⟩
    · cases found : parts.scheme with
      | none => rfl
      | some text => simp [found] at scheme
    · cases found : parts.authority with
      | none => rfl
      | some text => simp [found] at authority
    · cases found : parts.query with
      | none => rfl
      | some text => simp [found] at query
    · cases found : parts.fragment with
      | none => rfl
      | some text => simp [found] at fragment
  · intro none
    obtain ⟨scheme, authority, path, query, fragment⟩ := none
    rw [scheme, authority, path, query, fragment]
    rfl

/-- The normal form of a URI is its own normal form. -/
theorem normalize_idempotent {input : Str} {uri normalized : Uri}
    (parsed : parse input = .ok uri) (ok : normalize uri = .ok normalized) :
    normalize normalized = .ok normalized := by
  obtain ⟨parts, told, normalizes, normal, plain, checked, authority, _⟩ := rebuilt parsed
  have whole := normalizes.normalize_eq
  by_cases present : buildUri parts.scheme parts.authority parts.path parts.query
      parts.fragment = []
  · rw [ok, present] at whole
    cases whole
  · have built := parse_buildUri plain checked authority present
    rw [ok, built] at whole
    -- The parts of the result are those it is rebuilt from, but for the guard of the path.
    have same : normalized.parts = { parts with path := guardedPath parts } := by
      rw [Except.ok.inj whole]
      rfl
    rw [(normal.normalizesTo same).normalize_eq, built, whole]

/-- A reference in which removing dot segments leaves a colon to be guarded. -/
theorem normalize_idempotent_guarded : ∃ uri normalized, parse "%2E/b:c".toList = .ok uri ∧
    normalize uri = .ok normalized ∧ normalized.source = "./b:c".toList ∧
      normalize normalized = .ok normalized := by
  have parsed : parse "%2E/b:c".toList = .ok ⟨"%2E/b:c".toList, none, none, 0, none,
      "%2E/b:c".toList, none, none⟩ := by decide +kernel
  have ok : normalize ⟨"%2E/b:c".toList, none, none, 0, none, "%2E/b:c".toList, none, none⟩ =
      .ok ⟨"./b:c".toList, none, none, 0, none, "./b:c".toList, none, none⟩ := by decide +kernel
  exact ⟨_, _, parsed, ok, rfl, normalize_idempotent parsed ok⟩

/-- A URI has a normal form, with a scheme and an authority when it has them, unless all that
it consists of are dot segments. -/
theorem normalize_total {input : Str} {uri : Uri} (parsed : parse input = .ok uri) :
    (∃ normalized, normalize uri = .ok normalized ∧
      (normalized.scheme.isSome ↔ uri.scheme.isSome) ∧
      (normalized.authority.isSome ↔ uri.authority.isSome)) ↔
      ¬ (uri.scheme = none ∧ uri.authority = none ∧ AreSegments IsDotSegment uri.path ∧
        uri.query = none ∧ uri.fragment = none) := by
  obtain ⟨parts, told, normalizes, _, plain, checked, authority, dots, query, fragment⟩ :=
    rebuilt parsed
  have scheme : parts.scheme = none ↔ uri.scheme = none := by
    rw [← normalizes.scheme, Option.map_eq_none_iff]
  have rooted : parts.authority = none ↔ uri.authority = none := by
    rw [← normalizes.authority, Option.map_eq_none_iff]
  rw [normalizes.normalize_eq]
  constructor
  · intro ok vanishes
    obtain ⟨normalized, built, _⟩ := ok
    obtain ⟨noScheme, noAuthority, segments, noQuery, noFragment⟩ := vanishes
    rw [(buildUri_eq_nil parts).mpr ⟨scheme.mpr noScheme, rooted.mpr noAuthority,
      dots.mpr (.inr segments), query.mpr noQuery, fragment.mpr noFragment⟩] at built
    cases built
  · intro stays
    have present : buildUri parts.scheme parts.authority parts.path parts.query
        parts.fragment ≠ [] := by
      intro empty
      obtain ⟨noScheme, noAuthority, path, noQuery, noFragment⟩ := (buildUri_eq_nil parts).mp empty
      rcases dots.mp path with nothing | segments
      · -- Without any part there was no text to parse.
        obtain ⟨_, whole, _⟩ := parts_of_parse parsed
        have none : uri.parts = ⟨none, none, [], none, none⟩ := by
          rw [Uri.parts, scheme.mp noScheme, rooted.mp noAuthority, nothing, query.mp noQuery,
            fragment.mp noFragment]
        rw [none] at whole
        rw [← whole] at parsed
        cases parsed
      · exact stays ⟨scheme.mp noScheme, rooted.mp noAuthority, segments, query.mp noQuery,
          fragment.mp noFragment⟩
    refine ⟨_, parse_buildUri plain checked authority present, ?_, ?_⟩
    · simp only [Option.isSome_iff_ne_none, ne_eq, scheme]
    · simp only [Option.isSome_iff_ne_none, ne_eq, rooted]

/-- A segment for the same place has no normal form. -/
theorem normalize_dot : ∃ input uri, parse input = .ok uri ∧
    ¬ ∃ normalized, normalize uri = .ok normalized ∧
      (normalized.scheme.isSome ↔ uri.scheme.isSome) ∧
      (normalized.authority.isSome ↔ uri.authority.isSome) := by
  have parsed : parse ".".toList = .ok ⟨".".toList, none, none, 0, none, ".".toList, none, none⟩ :=
    by decide
  have failed : normalize ⟨".".toList, none, none, 0, none, ".".toList, none, none⟩ =
      .error .empty := by decide
  -- The only segment is removed, and an empty text is no reference.
  refine ⟨_, _, parsed, fun ok => ?_⟩
  obtain ⟨normalized, same, _⟩ := ok
  rw [failed] at same
  cases same

/-- A URI of which only the scheme is left has a normal form. -/
theorem normalize_total_schemed : ∃ uri, parse "http:..".toList = .ok uri ∧
    ∃ normalized, normalize uri = .ok normalized ∧
      (normalized.scheme.isSome ↔ uri.scheme.isSome) ∧
      (normalized.authority.isSome ↔ uri.authority.isSome) := by
  have parsed : parse "http:..".toList = .ok ⟨"http:..".toList, some "http".toList, none, 0, none,
      "..".toList, none, none⟩ := by decide +kernel
  exact ⟨_, parsed, (normalize_total parsed).mpr fun none => (by cases none.1)⟩

end Uri

end Http11

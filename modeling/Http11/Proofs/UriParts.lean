import Http11.Proofs.Encoded
import Http11.Proofs.Uri

/-! The parts of a URI are those that it is recomposed from. -/

namespace Http11

namespace Uri

/-- A character of a scheme. -/
def isSchemeChar (char : Char) : Bool := char.isAlphanum || "+-.".toList.contains char

/-- A character of an authority. -/
def inAuthority (char : Char) : Bool := char != '/' && char != '?' && char != '#'

/-- A character of a path. -/
def inPath (char : Char) : Bool := char != '?' && char != '#'

/-- A character of a query. -/
def inQuery (char : Char) : Bool := char != '#'

/-- What follows the scheme of a text, if it has one. -/
def splitScheme (input : Str) : Option Str × Str :=
  match findSchemeEnd 0 input with
  | some index => (some (input.take index), input.drop (index + 1))
  | none => (none, input)

/-- The parts of a text as the parser tells them apart, before it checks them. -/
def scan (input : Str) : References.Parts :=
  let (scheme, rest) := splitScheme input
  let (authority, rest) := splitAuthority rest
  let path := rest.takeWhile inPath
  let (query, rest) := splitPart '?' (rest.drop path.length)
  let fragment := match rest with
    | '#' :: fragment => some fragment
    | _ => none
  { scheme, authority, path, query, fragment }

/-- A colon ends a scheme, with characters of schemes in front of it. -/
theorem findSchemeEnd_some {text : Str} {index stop : Nat}
    (found : Uri.findSchemeEnd index text = some stop) :
    0 < stop ∧ ∃ front back, text = front ++ ':' :: back ∧ stop = index + front.length ∧
      ∀ char ∈ front, isSchemeChar char = true := by
  induction text generalizing index with
  | nil => cases found
  | cons char rest ih =>
    rw [Uri.findSchemeEnd] at found
    -- A colon ends the scheme unless nothing stands in front of it.
    by_cases colon : char = ':'
    · rw [if_pos colon] at found
      by_cases positive : 0 < index
      · rw [if_pos positive, Option.some.injEq] at found
        exact ⟨found ▸ positive, [], rest, by rw [colon]; rfl, found.symm, List.forall_mem_nil _⟩
      · rw [if_neg positive] at found
        cases found
    · -- Any other character goes on only if it may stand in a scheme.
      rw [if_neg colon] at found
      by_cases other : (!(char.isAlphanum || "+-.".toList.contains char)) = true
      · rw [if_pos other] at found
        cases found
      · rw [if_neg other] at found
        obtain ⟨positive, front, back, rfl, same, chars⟩ := ih found
        refine ⟨positive, char :: front, back, rfl, ?_, List.forall_mem_cons.mpr ⟨?_, chars⟩⟩
        · rw [List.length_cons]
          omega
        · rw [Bool.not_eq_true, Bool.not_eq_false'] at other
          exact other

/-- No scheme ends in front of a character that stands in none. -/
theorem findSchemeEnd_none {front back : Str} (plain : ':' ∉ front)
    (stops : back = [] ∨ ∃ char rest, back = char :: rest ∧ char ≠ ':' ∧
      isSchemeChar char = false) (index : Nat) :
    Uri.findSchemeEnd index (front ++ back) = none := by
  -- The characters in front have no colon among them, and the next one ends the search.
  induction front generalizing index with
  | nil =>
    rcases stops with rfl | next
    · rfl
    · obtain ⟨char, rest, rfl, noColon, other⟩ := next
      rw [isSchemeChar] at other
      rw [List.nil_append, Uri.findSchemeEnd, if_neg noColon, if_pos (by rw [other]; rfl)]
  | cons char front ih =>
    simp only [List.mem_cons, not_or] at plain
    rw [List.cons_append, Uri.findSchemeEnd, if_neg (Ne.symm plain.1)]
    by_cases other : (!(char.isAlphanum || "+-.".toList.contains char)) = true
    · rw [if_pos other]
    · rw [if_neg other]
      exact ih plain.2 _

/-- No colon stands in a scheme. -/
theorem colon_isSchemeChar : isSchemeChar ':' = false := by decide

/-- Parts without characters that start other parts. -/
structure IsPlain (parts : References.Parts) : Prop where
  /-- A scheme has characters, all of them of schemes. -/
  scheme : ∀ scheme, parts.scheme = some scheme →
    scheme ≠ [] ∧ ∀ char ∈ scheme, isSchemeChar char = true
  /-- An authority has its own characters. -/
  authority : ∀ authority, parts.authority = some authority →
    ∀ char ∈ authority, inAuthority char = true
  /-- Behind an authority a slash follows, or nothing of a path. -/
  rooted : parts.authority ≠ none → parts.path = [] ∨ IsSlashed parts.path
  /-- A path has its own characters. -/
  path : ∀ char ∈ parts.path, inPath char = true
  /-- A query has its own characters. -/
  query : ∀ query, parts.query = some query → ∀ char ∈ query, inQuery char = true

/-- Parts that can be told apart in the text they are recomposed to. -/
structure IsSeparated (parts : References.Parts) : Prop extends IsPlain parts where
  /-- Without a scheme none is found. -/
  schemeless : parts.scheme = none → Uri.findSchemeEnd 0 (References.recompose parts) = none
  /-- Without an authority a path does not look like one. -/
  unrooted : parts.authority = none → ¬ ['/', '/'] <+: parts.path

/-- A scheme and what follows it make up a text. -/
theorem splitScheme_whole (input : Str) :
    (match (splitScheme input).1 with
      | some scheme => scheme ++ [':']
      | none => []) ++ (splitScheme input).2 = input := by
  unfold splitScheme
  cases found : Uri.findSchemeEnd 0 input with
  | none => rfl
  | some index =>
    obtain ⟨_, front, back, rfl, same, _⟩ := findSchemeEnd_some found
    rw [Nat.zero_add] at same
    subst same
    -- The index is that of the colon, so taking and dropping there leaves it out.
    have behind : (front ++ ':' :: back).drop (front.length + 1) = back := by
      rw [← List.singleton_append, ← List.append_assoc]
      exact List.drop_left' (by simp)
    dsimp only
    rw [List.take_left, behind]
    simp

/-- An authority and what follows it make up a text. -/
theorem splitAuthority_whole (text : Str) :
    References.marked ['/', '/'] (Uri.splitAuthority text).1 ++ (Uri.splitAuthority text).2 =
      text := by
  unfold Uri.splitAuthority
  cases stripped : stripPrefix "//".toList text with
  -- Without two slashes there is no authority and nothing is split off.
  | none => rfl
  | some afterSlashes =>
    have slashes := stripPrefix_slashes stripped
    dsimp only
    rw [slashes, References.marked, drop_takeWhile, List.append_assoc,
      List.takeWhile_append_dropWhile]
    rfl

/-- A part and what follows it make up a text. -/
theorem splitPart_whole (first : Char) (text : Str) :
    References.marked [first] (splitPart first text).1 ++ (splitPart first text).2 = text := by
  unfold splitPart
  cases text with
  | nil => rfl
  | cons char rest =>
    dsimp only
    -- The part is split off with its first character, or not at all.
    by_cases same : char = first
    · rw [if_pos same, same, References.marked]
      dsimp only
      rw [drop_takeWhile, List.append_assoc, List.takeWhile_append_dropWhile]
      rfl
    · rw [if_neg same]
      rfl

/-- Behind a part only its end follows, which is that of the text or a number sign. -/
theorem splitPart_rest {first : Char} {text : Str}
    (stops : text = [] ∨ ∃ char rest, text = char :: rest ∧ (char = first ∨ char = '#')) :
    (splitPart first text).2 = [] ∨ ∃ rest, (splitPart first text).2 = '#' :: rest := by
  unfold splitPart
  rcases stops with rfl | next
  · exact .inl rfl
  obtain ⟨char, rest, rfl, kind⟩ := next
  dsimp only
  -- Only a number sign ends what the first character opens.
  by_cases same : char = first
  · rw [if_pos same]
    dsimp only
    rw [drop_takeWhile]
    cases behind : rest.dropWhile (· != '#') with
    | nil => exact .inl rfl
    | cons other more =>
      have stopped := List.head?_dropWhile_not (· != '#') rest
      rw [behind, List.head?_cons] at stopped
      have sign : other = '#' := by simpa using stopped
      exact .inr ⟨more, by rw [sign]⟩
  · rw [if_neg same]
    exact .inr ⟨rest, by rw [kind.resolve_left same]⟩

/-- What stops the characters of a path is a query, a fragment or nothing. -/
theorem path_stops (text : Str) :
    text.dropWhile inPath = [] ∨ ∃ char rest, text.dropWhile inPath = char :: rest ∧
      (char = '?' ∨ char = '#') := by
  cases behind : text.dropWhile inPath with
  | nil => exact .inl rfl
  -- The character that ends the path is one that is not in it.
  | cons char rest =>
    have stopped := List.head?_dropWhile_not inPath text
    rw [behind, List.head?_cons] at stopped
    refine .inr ⟨char, rest, rfl, ?_⟩
    by_contra other
    rw [not_or] at other
    simp [inPath, other] at stopped

/-- The parts of a text recompose to it. -/
theorem recompose_scan (input : Str) : References.recompose (scan input) = input := by
  have scheme := splitScheme_whole input
  have authority := splitAuthority_whole (splitScheme input).2
  have path := List.takeWhile_append_dropWhile (p := inPath)
    (l := (Uri.splitAuthority (splitScheme input).2).2)
  have query := splitPart_whole '?'
    ((Uri.splitAuthority (splitScheme input).2).2.dropWhile inPath)
  have fragment := splitPart_rest (path_stops (Uri.splitAuthority (splitScheme input).2).2)
  rw [References.recompose, scan]
  dsimp only
  rw [drop_takeWhile]
  -- From the back, each part and what follows it is the text that was split.
  generalize splitPart '?' ((Uri.splitAuthority (splitScheme input).2).2.dropWhile inPath) =
    behind at query fragment ⊢
  have last : References.marked ['#'] (match behind.2 with
      | '#' :: fragment => some fragment
      | _ => none) = behind.2 := by
    rcases fragment with none | some
    · rw [none]
      rfl
    · obtain ⟨rest, same⟩ := some
      rw [same]
      rfl
  rw [last, query, path, authority]
  exact scheme

/-- A scheme that was split off has characters of schemes only. -/
theorem splitScheme_scheme {input scheme : Str} (found : (splitScheme input).1 = some scheme) :
    scheme ≠ [] ∧ ∀ char ∈ scheme, isSchemeChar char = true := by
  unfold splitScheme at found
  -- Without a colon there is no scheme, and otherwise the scheme stands in front of it.
  cases stop : Uri.findSchemeEnd 0 input with
  | none =>
    rw [stop] at found
    cases found
  | some index =>
    rw [stop, Option.some.injEq] at found
    obtain ⟨positive, front, back, rfl, same, chars⟩ := findSchemeEnd_some stop
    rw [Nat.zero_add] at same
    subst same
    rw [List.take_left] at found
    rw [← found]
    exact ⟨List.length_pos_iff.mp positive, chars⟩

/-- What was split off behind two slashes is told apart from the path. -/
theorem splitAuthority_separated (text : Str) :
    (∀ authority, (Uri.splitAuthority text).1 = some authority →
      (∀ char ∈ authority, inAuthority char = true) ∧
        Stops (fun char => char != '/' && char != '?' && char != '#')
          (Uri.splitAuthority text).2) ∧
      ((Uri.splitAuthority text).1 = none → (Uri.splitAuthority text).2 = text ∧
        ¬ ['/', '/'] <+: text) := by
  unfold Uri.splitAuthority
  cases stripped : stripPrefix "//".toList text with
  | none =>
    refine ⟨fun _ found => (by cases found), fun _ => ⟨rfl, fun front => ?_⟩⟩
    -- Two slashes in front would have been stripped.
    have found : "//".toList.isPrefixOf text = true := List.isPrefixOf_iff_prefix.mpr front
    rw [stripPrefix, if_pos found] at stripped
    cases stripped
  | some afterSlashes =>
    refine ⟨fun authority found => ?_, fun none => (by cases none)⟩
    dsimp only at found ⊢
    rw [Option.some.injEq] at found
    rw [drop_takeWhile, ← found]
    exact ⟨fun char inside => List.mem_takeWhile_imp (p := inAuthority) inside,
      stops_dropWhile inAuthority _⟩

/-- The parts of a text are told apart in it. -/
theorem scan_separated (input : Str) : IsSeparated (scan input) where
  scheme := fun _ found => splitScheme_scheme found
  schemeless := fun none => by
    rw [recompose_scan]
    change (splitScheme input).1 = Option.none at none
    unfold splitScheme at none
    cases stop : Uri.findSchemeEnd 0 input with
    | none => rfl
    | some index =>
      rw [stop] at none
      cases none
  authority := fun authority found => ((splitAuthority_separated _).1 authority found).1
  rooted := fun present => by
    obtain ⟨authority, found⟩ := Option.ne_none_iff_exists'.mp present
    have stops : Stops inAuthority (Uri.splitAuthority (splitScheme input).2).2 :=
      ((splitAuthority_separated _).1 authority found).2
    change (Uri.splitAuthority (splitScheme input).2).2.takeWhile inPath = [] ∨
      IsSlashed ((Uri.splitAuthority (splitScheme input).2).2.takeWhile inPath)
    generalize (Uri.splitAuthority (splitScheme input).2).2 = rest at stops
    cases rest with
    | nil => exact .inl rfl
    | cons char rest =>
      by_cases slash : char = '/'
      · rw [slash, List.takeWhile_cons_of_pos (by decide)]
        exact .inr ⟨_, rfl⟩
      · -- Whatever else ends an authority ends the path, too.
        refine .inl (List.takeWhile_cons_of_neg fun kept => ?_)
        have taken : inAuthority char = true := by
          simpa [inAuthority, inPath, slash] using kept
        rw [Stops, List.takeWhile_cons_of_pos taken] at stops
        cases stops
  unrooted := fun none => by
    obtain ⟨same, plain⟩ := (splitAuthority_separated (splitScheme input).2).2 none
    intro front
    refine plain (front.trans ?_)
    change (Uri.splitAuthority (splitScheme input).2).2.takeWhile inPath <+: _
    rw [same]
    exact List.takeWhile_prefix _
  path := fun char inside => List.mem_takeWhile_imp (p := inPath) inside
  query := fun query found char inside => by
    change (splitPart '?' _).1 = some query at found
    unfold splitPart at found
    split at found
    · split at found
      · dsimp only at found
        rw [Option.some.injEq] at found
        rw [← found] at inside
        exact List.mem_takeWhile_imp (p := inQuery) inside
      · cases found
    · cases found

/-- The characters behind a scheme are those behind its colon. -/
theorem splitScheme_recompose {parts : References.Parts} (separated : IsSeparated parts) :
    splitScheme (References.recompose parts) = (parts.scheme, References.recompose
      { parts with scheme := none }) := by
  -- Without a scheme the text must not look as if it had one; with one, its colon is found first.
  cases found : parts.scheme with
  | none =>
    have same : References.recompose { parts with scheme := none } =
        References.recompose parts := by
      rw [References.recompose, References.recompose, found]
    rw [splitScheme, separated.schemeless found, same]
  | some scheme =>
    obtain ⟨filled, chars⟩ := separated.scheme scheme found
    have whole : References.recompose parts =
        scheme ++ ':' :: References.recompose { parts with scheme := none } := by
      rw [References.recompose, References.recompose, found]
      simp
    have plain : ':' ∉ scheme := fun inside => by
      have kept := chars ':' inside
      rw [colon_isSchemeChar] at kept
      cases kept
    have positive : 0 < 0 + scheme.length := by
      have length := List.length_pos_iff.mpr filled
      omega
    rw [whole, splitScheme, findSchemeEnd_scheme chars plain _ 0 positive, Nat.zero_add]
    have behind : (scheme ++ ':' :: References.recompose { parts with scheme := none }).drop
        (scheme.length + 1) = References.recompose { parts with scheme := none } := by
      rw [← List.singleton_append, ← List.append_assoc]
      exact List.drop_left' (by simp)
    dsimp only
    rw [List.take_left, behind]

/-- What follows a path. -/
def behindPath (parts : References.Parts) : Str :=
  References.marked ['?'] parts.query ++ References.marked ['#'] parts.fragment

/-- Behind a path only a query or a fragment follows. -/
theorem behindPath_starts (parts : References.Parts) : behindPath parts = [] ∨
    ∃ char rest, behindPath parts = char :: rest ∧ (char = '?' ∨ char = '#') := by
  unfold behindPath
  -- The query comes first, and without it the fragment.
  cases parts.query with
  | some query => exact .inr ⟨'?', _, rfl, .inl rfl⟩
  | none =>
    cases parts.fragment with
    | some fragment => exact .inr ⟨'#', _, rfl, .inr rfl⟩
    | none => exact .inl rfl

/-- Behind a path its characters stop. -/
theorem behindPath_stops (parts : References.Parts) : Stops inPath (behindPath parts) := by
  rcases behindPath_starts parts with none | some
  · rw [none]
    rfl
  · -- What follows a path is a query or a fragment, and both have a mark of their own.
    obtain ⟨char, rest, same, rfl | rfl⟩ := some
    · rw [same]
      exact stops_cons (by decide)
    · rw [same]
      exact stops_cons (by decide)

/-- A path does not look like an authority because of what follows it. -/
theorem unrooted_append {path : Str} (plain : ¬ ['/', '/'] <+: path) (parts : References.Parts) :
    ¬ ['/', '/'] <+: path ++ behindPath parts := by
  intro front
  obtain ⟨rest, whole⟩ := front
  rcases behindPath_starts parts with none | some
  · rw [none, List.append_nil] at whole
    exact plain ⟨rest, whole⟩
  · obtain ⟨char, others, same, kind⟩ := some
    rw [same] at whole
    -- A path of less than two characters is followed by none of the slashes.
    match path, whole with
    | [], whole =>
      rcases kind with rfl | rfl <;> cases whole
    | [_], whole =>
      rcases kind with rfl | rfl <;> cases whole
    | first :: second :: more, whole =>
      simp only [List.cons_append, List.nil_append, List.cons.injEq] at whole
      obtain ⟨rfl, rfl, _⟩ := whole
      exact plain ⟨more, rfl⟩

/-- Two slashes in front of a text are stripped. -/
theorem stripPrefix_append (rest : Str) :
    stripPrefix "//".toList ('/' :: '/' :: rest) = some rest := rfl

/-- An authority is split off where it is recomposed. -/
theorem splitAuthority_recompose {parts : References.Parts} (separated : IsSeparated parts) :
    Uri.splitAuthority (References.recompose { parts with scheme := none }) =
      (parts.authority, parts.path ++ behindPath parts) := by
  -- Without an authority the path must not start with two slashes.
  cases found : parts.authority with
  | none =>
    have whole : References.recompose { parts with scheme := none } =
        parts.path ++ behindPath parts := by
      rw [References.recompose, found]
      rfl
    have plain : stripPrefix "//".toList (parts.path ++ behindPath parts) = none := by
      refine if_neg fun front => ?_
      exact unrooted_append (separated.unrooted found) parts (List.isPrefixOf_iff_prefix.mp front)
    rw [found] at whole
    rw [whole, Uri.splitAuthority, plain]
  | some authority =>
    have whole : References.recompose { parts with scheme := none } =
        '/' :: '/' :: (authority ++ (parts.path ++ behindPath parts)) := by
      rw [References.recompose, found]
      rfl
    have stops : Stops inAuthority (parts.path ++ behindPath parts) := by
      -- Behind an authority comes a path with a slash, or what ends the path.
      rcases separated.rooted (by simp [found]) with empty | slashed
      · rw [empty, List.nil_append]
        rcases behindPath_starts parts with none | some
        · rw [none]
          rfl
        · obtain ⟨char, rest, same, rfl | rfl⟩ := some
          · rw [same]
            exact stops_cons (by decide)
          · rw [same]
            exact stops_cons (by decide)
      · obtain ⟨rest, same⟩ := slashed
        rw [same]
        exact stops_cons (by decide)
    have taken : (authority ++ (parts.path ++ behindPath parts)).takeWhile
        (fun char => char != '/' && char != '?' && char != '#') = authority :=
      stops.takeWhile (separated.authority authority found)
    rw [found] at whole
    rw [whole, Uri.splitAuthority, stripPrefix_append]
    dsimp only
    rw [taken, List.drop_left]

/-- A query is split off where it is recomposed. -/
theorem splitPart_behindPath {parts : References.Parts} (separated : IsSeparated parts) :
    splitPart '?' (behindPath parts) = (parts.query, References.marked ['#'] parts.fragment) := by
  unfold behindPath
  cases found : parts.query with
  -- Without a query the first mark is that of the fragment, if there is one.
  | none =>
    cases parts.fragment with
    | none => rfl
    | some fragment => rfl
  | some query =>
    -- A query ends at the number sign, which it does not have itself.
    have stops : Stops inQuery (References.marked ['#'] parts.fragment) := by
      cases parts.fragment with
      | none => rfl
      | some fragment => exact stops_cons (by decide)
    have taken : (query ++ References.marked ['#'] parts.fragment).takeWhile (· != '#') = query :=
      stops.takeWhile (separated.query query found)
    rw [References.marked, List.append_assoc, List.singleton_append, splitPart, if_pos rfl]
    dsimp only
    rw [taken, List.drop_left]

/-- Parts that can be told apart are found in the text they are recomposed to. -/
theorem scan_recompose {parts : References.Parts} (separated : IsSeparated parts) :
    scan (References.recompose parts) = parts := by
  have taken := (behindPath_stops parts).takeWhile separated.path
  rw [scan, splitScheme_recompose separated]
  dsimp only
  rw [splitAuthority_recompose separated]
  dsimp only
  rw [taken, List.drop_left, splitPart_behindPath separated]
  -- All parts but the fragment are found as they are.
  cases parts with
  | mk scheme authority path query fragment => cases fragment <;> rfl

/-- The checks of a scheme. -/
def checkScheme : Option Str → Except UriError Unit
  | some scheme => do
    Checked.reject (!scheme.head?.any Char.isAlpha) .invalidScheme
    Checked.reject (!(scheme.drop 1).all fun char =>
      char.isAlphanum || "+-.".toList.contains char) .invalidScheme
  | none => .ok ()

/-- Where the host ends in an authority, and the port. -/
def checkAuthority : Option Str → Except UriError (Nat × Option Nat)
  | some authority => parseAuthority authority
  | none => .ok (0, none)

/-- The check of a part that may be missing. -/
def checkPart (validate : Str → Except UriError Unit) : Option Str → Except UriError Unit
  | some part => validate part
  | none => .ok ()

/-- A text starts with a number sign or not. -/
theorem fragment_cases (text : Str) :
    (∃ fragment, text = '#' :: fragment) ∨ ∀ fragment, text = '#' :: fragment → False := by
  by_cases sign : ∃ fragment, text = '#' :: fragment
  · exact .inl sign
  · exact .inr fun fragment same => sign ⟨fragment, same⟩

/-- The parser checks the parts that it tells apart. -/
theorem parse_eq {input : Str} (present : input ≠ []) : Uri.parse input = (do
    checkScheme (scan input).scheme
    let (hostEnd, port) ← checkAuthority (scan input).authority
    validatePath (scan input).path
    checkPart validateQuery (scan input).query
    checkPart validateFragment (scan input).fragment
    return ⟨input, (scan input).scheme, (scan input).authority, hostEnd, port, (scan input).path,
      (scan input).query, (scan input).fragment⟩) := by
  rw [Uri.parse, if_neg (by simpa using present)]
  unfold scan splitScheme
  -- The checks follow the same parts, whichever of them are there.
  cases Uri.findSchemeEnd 0 input with
  | none =>
    dsimp only [Option.map_none]
    obtain ⟨authority, rest⟩ := Uri.splitAuthority input
    dsimp only
    rw [show (fun char : Char => char != '?' && char != '#') = inPath from rfl]
    obtain ⟨query, behind⟩ := splitPart '?' (rest.drop (rest.takeWhile inPath).length)
    dsimp only
    rcases fragment_cases behind with sign | other
    · obtain ⟨fragment, rfl⟩ := sign
      cases authority <;> cases query <;> rfl
    · cases authority <;> cases query <;> simp only [checkPart] <;> rfl
  | some index =>
    dsimp only [Option.map_some]
    obtain ⟨authority, rest⟩ := Uri.splitAuthority (input.drop (index + 1))
    dsimp only
    rw [show (fun char : Char => char != '?' && char != '#') = inPath from rfl]
    obtain ⟨query, behind⟩ := splitPart '?' (rest.drop (rest.takeWhile inPath).length)
    dsimp only
    rcases fragment_cases behind with sign | other
    · obtain ⟨fragment, rfl⟩ := sign
      cases authority <;> cases query <;> simp only [checkScheme, bind_assoc] <;> rfl
    · cases authority <;> cases query <;> simp only [checkScheme, bind_assoc, checkPart] <;> rfl

/-- A part is valid when its bytes are allowed or encoded. -/
theorem validateParts_iff (failure : UInt8 → UriError) {allowed : UInt8 → Bool}
    (noPercent : allowed 0x25 = false) (bytes : Bytes) :
    (validatePercentEncoding bytes = .ok () ∧ validateParts failure allowed bytes = .ok ()) ↔
      IsTriplets allowed isHexPair bytes := by
  constructor
  · intro valid
    obtain ⟨encoding, parts⟩ := valid
    -- The first of the two checks has looked at the digits that the second one skips.
    fun_induction validateParts failure allowed bytes with
    | case1 => exact .empty
    | case2 byte percent high low rest ih =>
      rw [validatePercentEncoding, if_pos percent] at encoding
      by_cases digits : (!isAsciiHexdigit high || !isAsciiHexdigit low) = true
      · simp only [if_pos digits] at encoding
        cases encoding
      · simp only [if_neg digits] at encoding
        rw [beq_iff_eq.mp percent]
        refine .percent ?_ (ih encoding parts)
        simpa [isHexPair] using digits
    | case3 byte rest percent short =>
      -- Too few digits are no encoding.
      unfold validatePercentEncoding at encoding
      rw [if_pos percent] at encoding
      split at encoding
      · exact absurd rfl (short _ _ _)
      · cases encoding
    | case4 byte rest other kept ih =>
      unfold validatePercentEncoding at encoding
      rw [if_neg other] at encoding
      exact .plain kept (ih encoding parts)
    | case5 => cases parts
  · intro triplets
    induction triplets with
    | empty => exact ⟨rfl, rfl⟩
    | @plain byte rest kept others ih =>
      have other : ¬ (byte == 0x25) = true := fun percent => by
        rw [beq_iff_eq.mp percent, noPercent] at kept
        cases kept
      unfold validatePercentEncoding validateParts
      rw [if_neg other, if_neg other, if_pos kept]
      exact ih
    | percent digits others ih =>
      rw [isHexPair, Bool.and_eq_true] at digits
      unfold validatePercentEncoding validateParts
      rw [if_pos (beq_self_eq_true _), if_pos (beq_self_eq_true _)]
      simp only [digits, Bool.not_true, Bool.or_self, Bool.false_eq_true, if_false]
      exact ih

/-- A part is valid when its text is encoded. -/
theorem validatePart_iff (failure : UInt8 → UriError) {allowed : UInt8 → Bool}
    (noPercent : allowed 0x25 = false) (text : Str) :
    (do
      validatePercentEncoding (Utf8.encode text)
      validateParts failure allowed (Utf8.encode text)) = .ok () ↔
      IsTripletText allowed isHexPair text := by
  rw [Checked.seq_ok, IsTripletText, ← validateParts_iff failure noPercent]

/-- Parts that the parser accepts, but for the authority. -/
structure IsChecked (parts : References.Parts) : Prop where
  /-- A scheme starts with a letter. -/
  scheme : ∀ scheme, parts.scheme = some scheme → scheme.head?.any Char.isAlpha = true
  /-- A path is encoded. -/
  path : IsTripletText isPcharOrSlash isHexPair parts.path
  /-- A query is encoded. -/
  query : ∀ query, parts.query = some query → IsTripletText isQueryChar isHexPair query
  /-- A fragment is encoded. -/
  fragment : ∀ fragment, parts.fragment = some fragment →
    IsTripletText isQueryChar isHexPair fragment

/-- What stands in an encoded path are characters of paths. -/
theorem inPath_of_encoded {path : Str} (encoded : IsTripletText isPcharOrSlash isHexPair path) :
    ∀ char ∈ path, inPath char = true := by
  have known : IsEncoded isPcharOrSlash (Utf8.encode path) := (isEncoded_iff _ _).mpr encoded
  -- Neither mark may stand in a path without being encoded.
  have noQuery : '?' ∉ path := known.not_mem (by decide) (by decide)
  have noFragment : '#' ∉ path := known.not_mem (by decide) (by decide)
  intro char inside
  have first : char ≠ '?' := fun same => noQuery (by rwa [← same])
  have second : char ≠ '#' := fun same => noFragment (by rwa [← same])
  simp [inPath, first, second]

/-- What stands in an encoded query are characters of queries. -/
theorem inQuery_of_encoded {query : Str} (encoded : IsTripletText isQueryChar isHexPair query) :
    ∀ char ∈ query, inQuery char = true := by
  have known : IsEncoded isQueryChar (Utf8.encode query) := (isEncoded_iff _ _).mpr encoded
  have noFragment : '#' ∉ query := known.not_mem (by decide) (by decide)
  intro char inside
  have other : char ≠ '#' := fun same => noFragment (by rwa [← same])
  simp [inQuery, other]

/-- A scheme that was split off is checked by its first character. -/
theorem checkScheme_iff {scheme : Option Str} (chars : ∀ text, scheme = some text →
    ∀ char ∈ text, isSchemeChar char = true) : checkScheme scheme = .ok () ↔
      ∀ text, scheme = some text → text.head?.any Char.isAlpha = true := by
  cases scheme with
  | none => simp [checkScheme]
  | some text =>
    -- The characters behind the first were checked when the scheme was split off.
    have all : ((text.drop 1).all fun char =>
        char.isAlphanum || "+-.".toList.contains char) = true := by
      rw [List.all_eq_true]
      exact fun char inside => chars text rfl char (List.mem_of_mem_drop inside)
    simp only [checkScheme, Checked.bind_ok, Checked.reject_ok, all]
    simp

/-- A part that may be missing is checked when it is there. -/
theorem checkPart_iff {validate : Str → Except UriError Unit} (part : Option Str) :
    checkPart validate part = .ok () ↔ ∀ text, part = some text → validate text = .ok () := by
  cases part with
  | none => simp [checkPart]
  | some text => simp [checkPart]

/-- The parser accepts a text when it accepts its parts. -/
theorem parse_iff (input : Str) (uri : Uri) : Uri.parse input = .ok uri ↔
    input ≠ [] ∧ uri.source = input ∧ uri.parts = scan input ∧ IsChecked (scan input) ∧
      checkAuthority (scan input).authority = .ok (uri.hostEnd, uri.port) := by
  by_cases present : input = []
  · rw [present]
    simp [Uri.parse]
  -- Each check of the parser is a condition on one part.
  have scheme := checkScheme_iff fun text found => ((scan_separated input).scheme text found).2
  have path : validatePath (scan input).path = .ok () ↔ _ :=
    validatePart_iff .invalidPathCharacter (by decide) _
  have query : ∀ text, validateQuery text = .ok () ↔ _ :=
    validatePart_iff .invalidQueryCharacter (by decide)
  have fragment : ∀ text, validateFragment text = .ok () ↔ _ :=
    validatePart_iff .invalidFragmentCharacter (by decide)
  rw [parse_eq present, Checked.seq_ok, scheme, Checked.bind_ok]
  simp only [Prod.exists, Checked.seq_ok, path, checkPart_iff, query, fragment]
  constructor
  · intro parsed
    obtain ⟨first, hostEnd, port, authority, whole, queried, last, same⟩ := parsed
    -- The URI keeps the end of the host and the port that were found.
    cases same
    exact ⟨present, rfl, rfl, ⟨first, whole, queried, last⟩, authority⟩
  · intro parsed
    obtain ⟨_, source, same, checked, authority⟩ := parsed
    refine ⟨checked.scheme, uri.hostEnd, uri.port, authority, checked.path, checked.query,
      checked.fragment, ?_⟩
    -- The parts that were stored are those that were split off.
    obtain ⟨_, _, _, _, _, _, _, _⟩ := uri
    rw [← same]
    cases source
    rfl

/-- A URI has the parts that were told apart in its text, which recomposes from them. -/
theorem parts_of_parse {input : Str} {uri : Uri} (parsed : Uri.parse input = .ok uri) :
    uri.source = input ∧ References.recompose uri.parts = input ∧ IsSeparated uri.parts ∧
      IsChecked uri.parts ∧ checkAuthority uri.authority = .ok (uri.hostEnd, uri.port) := by
  obtain ⟨_, source, same, checked, authority⟩ := (parse_iff input uri).mp parsed
  have known : uri.authority = (scan input).authority := congrArg References.Parts.authority same
  rw [same, recompose_scan, known]
  exact ⟨source, rfl, scan_separated input, checked, authority⟩

/-- Accepted parts that can be told apart are parsed where they are recomposed. -/
theorem parse_recompose {parts : References.Parts} (separated : IsSeparated parts)
    (checked : IsChecked parts) {hostEnd : Nat} {port : Option Nat}
    (authority : checkAuthority parts.authority = .ok (hostEnd, port))
    (present : References.recompose parts ≠ []) :
    Uri.parse (References.recompose parts) = .ok ⟨References.recompose parts, parts.scheme,
      parts.authority, hostEnd, port, parts.path, parts.query, parts.fragment⟩ := by
  rw [parse_iff, scan_recompose separated]
  exact ⟨present, rfl, rfl, checked, authority⟩

/-- An authority, a path that starts with a slash and perhaps a query, behind a scheme for hosts,
are parsed as what they are. -/
theorem parse_rooted {authority : Str} (path : Str) (query : Option Str) {hostEnd : Nat}
    {port : Option Nat} (chars : ∀ char ∈ authority, inAuthority char = true)
    (read : checkAuthority (some authority) = .ok (hostEnd, port))
    (rooted : IsTripletText isPcharOrSlash isHexPair ('/' :: path))
    (queried : ∀ text, query = some text → IsTripletText isQueryChar isHexPair text) :
    Uri.parse ("http://".toList ++ authority ++ '/' :: path ++ References.marked ['?'] query) =
      .ok ⟨"http://".toList ++ authority ++ '/' :: path ++ References.marked ['?'] query,
        some "http".toList, some authority, hostEnd, port, '/' :: path, query, none⟩ := by
  let parts : References.Parts := ⟨some "http".toList, some authority, '/' :: path, query, none⟩
  -- No part has a character that would end it early.
  have plain : IsPlain parts := by
    refine ⟨fun scheme same => ?_, fun authority same => ?_, fun _ => .inr ⟨path, rfl⟩,
      inPath_of_encoded rooted, fun text same => inQuery_of_encoded (queried text same)⟩
    · cases same
      decide +kernel
    · cases same
      exact chars
  have separated : IsSeparated parts :=
    { plain with
      schemeless := fun none => by cases none
      unrooted := fun none => by cases none }
  have checked : IsChecked parts := by
    refine ⟨fun scheme same => ?_, rooted, queried, fun fragment same => (by cases same)⟩
    cases same
    decide
  have whole : References.recompose parts =
      "http://".toList ++ authority ++ '/' :: path ++ References.marked ['?'] query := by
    simp [References.recompose, References.marked, parts]
  have result := parse_recompose separated checked read (by rw [whole]; simp)
  rwa [whole] at result

/-- The path of a URI that is built, with what guards it. -/
def guardedPath (parts : References.Parts) : Str :=
  pathGuard parts.scheme parts.authority parts.path ++ parts.path

/-- A URI is built by recomposing its parts behind a guard of the path. -/
theorem buildUri_eq (parts : References.Parts) :
    buildUri parts.scheme parts.authority parts.path parts.query parts.fragment =
      References.recompose { parts with path := guardedPath parts } := by
  unfold buildUri References.recompose guardedPath
  cases parts.scheme <;> cases parts.authority <;> cases parts.query <;> cases parts.fragment <;>
    simp [References.marked]

/-- What guards a path, and when. -/
theorem pathGuard_cases (parts : References.Parts) :
    (parts.authority ≠ none ∧ guardedPath parts = parts.path) ∨
    (parts.authority = none ∧ ['/', '/'] <+: parts.path ∧
      guardedPath parts = '/' :: '.' :: parts.path) ∨
    (parts.authority = none ∧ ¬ ['/', '/'] <+: parts.path ∧ parts.scheme = none ∧
      guardedPath parts = '.' :: '/' :: parts.path) ∨
    (parts.authority = none ∧ ¬ ['/', '/'] <+: parts.path ∧
      (parts.scheme = none → firstSegmentContainsColon parts.path = false) ∧
      guardedPath parts = parts.path) := by
  unfold guardedPath pathGuard
  -- With an authority in front, a path needs no guard.
  cases parts.authority with
  | some authority => exact .inl ⟨by simp, rfl⟩
  | none =>
    refine .inr ?_
    rw [if_neg (by simp)]
    -- Two slashes in front would begin an authority.
    by_cases slashes : ['/', '/'] <+: parts.path
    · rw [if_pos slashes]
      exact .inl ⟨rfl, slashes, rfl⟩
    · rw [if_neg slashes]
      refine .inr ?_
      -- A colon in the first segment would end a scheme.
      by_cases colon : parts.scheme.isNone ∧ firstSegmentContainsColon parts.path
      · rw [if_pos colon]
        exact .inl ⟨rfl, slashes, by simpa using colon.1, rfl⟩
      · rw [if_neg colon]
        refine .inr ⟨rfl, slashes, fun none => ?_, rfl⟩
        simpa [none] using colon

/-- Behind its guard a path does not look like an authority. -/
theorem guardedPath_unrooted {parts : References.Parts} (none : parts.authority = none) :
    ¬ ['/', '/'] <+: guardedPath parts := by
  rcases pathGuard_cases parts with some | slashes | colon | plain
  · -- The dot in a guard stands in front of both slashes.
    exact absurd none some.1
  · rw [slashes.2.2]
    intro front
    obtain ⟨rest, same⟩ := front
    cases same
  · rw [colon.2.2.2]
    intro front
    obtain ⟨rest, same⟩ := front
    cases same
  · rw [plain.2.2.2]
    exact plain.2.1

/-- Behind its guard a path does not look like a scheme. -/
theorem guardedPath_schemeless {parts : References.Parts} (none : parts.scheme = none) :
    Uri.findSchemeEnd 0 (References.recompose { parts with path := guardedPath parts }) =
      Option.none := by
  have slash : '/' ≠ ':' ∧ isSchemeChar '/' = false := by decide
  have stops : ∀ rest : Str, ('/' :: rest = [] ∨ ∃ char others, '/' :: rest = char :: others ∧
      char ≠ ':' ∧ isSchemeChar char = false) := fun rest => .inr ⟨'/', rest, rfl, slash⟩
  have whole : References.recompose { parts with path := guardedPath parts } =
      References.marked ['/', '/'] parts.authority ++
        (guardedPath parts ++ behindPath parts) := by
    rw [References.recompose, none]
    rfl
  rw [whole]
  rcases pathGuard_cases parts with some | slashes | colon | plain
  · obtain ⟨authority, found⟩ := Option.ne_none_iff_exists'.mp some.1
    rw [found]
    exact @findSchemeEnd_none [] _ List.not_mem_nil (stops _) 0
  · rw [slashes.1, slashes.2.2]
    exact @findSchemeEnd_none [] _ List.not_mem_nil (stops _) 0
  · rw [colon.1, colon.2.2.2]
    exact @findSchemeEnd_none ['.'] _ (by decide) (stops _) 0
  · rw [plain.1, plain.2.2.2, References.marked, List.nil_append]
    -- The first segment holds no colon, and a slash, a query or a fragment ends it.
    have colonless : ':' ∉ parts.path.takeWhile inSegment := by
      have checked := plain.2.2.1 none
      rw [firstSegmentContainsColon] at checked
      change ':' ∉ parts.path.takeWhile (· != '/')
      intro inside
      rw [List.contains_iff_mem.mpr inside] at checked
      cases checked
    have parted : parts.path ++ behindPath parts = parts.path.takeWhile inSegment ++
        (parts.path.dropWhile inSegment ++ behindPath parts) := by
      rw [← List.append_assoc, List.takeWhile_append_dropWhile]
    rw [parted]
    refine findSchemeEnd_none colonless ?_ 0
    rcases isSlashed_of_stops (stops_dropWhile inSegment parts.path) with slashed | empty
    · obtain ⟨rest, same⟩ := slashed
      rw [same]
      exact stops _
    · rw [empty, List.nil_append]
      rcases behindPath_starts parts with nothing | some
      · exact .inl nothing
      · obtain ⟨char, rest, same, rfl | rfl⟩ := some
        · exact .inr ⟨'?', rest, same, by decide⟩
        · exact .inr ⟨'#', rest, same, by decide⟩

/-- The characters of a guard are those of paths. -/
theorem guardedPath_forall {motive : Char → Prop} {parts : References.Parts}
    (slash : motive '/') (dot : motive '.') (path : ∀ char ∈ parts.path, motive char) :
    ∀ char ∈ guardedPath parts, motive char := by
  rcases pathGuard_cases parts with some | slashes | colon | plain
  · -- A guard is made of one slash and one dot.
    rw [some.2]
    exact path
  · rw [slashes.2.2]
    exact List.forall_mem_cons.mpr ⟨slash, List.forall_mem_cons.mpr ⟨dot, path⟩⟩
  · rw [colon.2.2.2]
    exact List.forall_mem_cons.mpr ⟨dot, List.forall_mem_cons.mpr ⟨slash, path⟩⟩
  · rw [plain.2.2.2]
    exact path

/-- Plain parts are told apart behind a guard of the path. -/
theorem IsPlain.guarded {parts : References.Parts} (plain : IsPlain parts) :
    IsSeparated { parts with path := guardedPath parts } where
  scheme := plain.scheme
  authority := plain.authority
  rooted := fun some => by
    -- With an authority only the first case is left.
    rcases pathGuard_cases parts with guarded | slashes | colon | unguarded
    · rw [guarded.2]
      exact plain.rooted some
    · exact absurd slashes.1 some
    · exact absurd colon.1 some
    · exact absurd unguarded.1 some
  path := guardedPath_forall (by decide) (by decide) plain.path
  query := plain.query
  schemeless := fun none => @guardedPath_schemeless parts none
  unrooted := fun none => @guardedPath_unrooted parts none

/-- A guard in front of an encoded path is encoded, too. -/
theorem guardedPath_encoded {pair : UInt8 → UInt8 → Bool} {parts : References.Parts}
    (encoded : IsTripletText isPcharOrSlash pair parts.path) :
    IsTripletText isPcharOrSlash pair (guardedPath parts) := by
  have slash : IsTripletText isPcharOrSlash pair ['/'] := .single (by decide) (by decide)
  have dot : IsTripletText isPcharOrSlash pair ['.'] := .single (by decide) (by decide)
  -- Neither character of a guard has to be encoded.
  rcases pathGuard_cases parts with some | slashes | colon | plain
  · rw [some.2]
    exact encoded
  · rw [slashes.2.2]
    exact slash.append (dot.append encoded)
  · rw [colon.2.2.2]
    exact dot.append (slash.append encoded)
  · rw [plain.2.2.2]
    exact encoded

/-- The parser accepts a guard. -/
theorem IsChecked.guarded {parts : References.Parts} (checked : IsChecked parts) :
    IsChecked { parts with path := guardedPath parts } where
  scheme := checked.scheme
  path := guardedPath_encoded checked.path
  query := checked.query
  fragment := checked.fragment

/-- A URI that is built from accepted parts is parsed to them, its path behind its guard. -/
theorem parse_buildUri {parts : References.Parts} (plain : IsPlain parts)
    (checked : IsChecked parts) {hostEnd : Nat} {port : Option Nat}
    (authority : checkAuthority parts.authority = .ok (hostEnd, port))
    (present : buildUri parts.scheme parts.authority parts.path parts.query parts.fragment ≠ []) :
    Uri.parse (buildUri parts.scheme parts.authority parts.path parts.query parts.fragment) =
      .ok ⟨buildUri parts.scheme parts.authority parts.path parts.query parts.fragment,
        parts.scheme, parts.authority, hostEnd, port, guardedPath parts, parts.query,
        parts.fragment⟩ := by
  rw [buildUri_eq] at present ⊢
  exact parse_recompose plain.guarded checked.guarded authority present

end Uri

end Http11

import Http11.Lib.References
import Http11.Uri

/-! References resolved against a base, URIs in their normal form, and texts encoded for them. -/

namespace Http11

namespace Uri

/-- The path up to and without the next slash, but for one that it starts with. -/
def firstPart : Str → Str
  | '/' :: rest => '/' :: rest.takeWhile (· != '/')
  | rest => rest.takeWhile (· != '/')

/-- One pass over a path: what is left of it, and the segments that were kept. -/
def removeDotSegmentsPass : Str × List Str → (Str × List Str) ⊕ List Str
  | (rest, output) =>
    if rest = [] then .inr output
    -- Dots in front of the path are dropped.
    else if ['.', '.', '/'] <+: rest then .inl (rest.drop 3, output)
    else if ['.', '/'] <+: rest then .inl (rest.drop 2, output)
    -- One dot leaves the slash behind it.
    else if ['/', '.', '/'] <+: rest then .inl (rest.drop 2, output)
    else if rest = ['/', '.'] then .inr (output ++ [['/']])
    -- Two dots take back the segment that was kept last.
    else if ['/', '.', '.', '/'] <+: rest then .inl (rest.drop 3, output.dropLast)
    else if rest = ['/', '.', '.'] then .inr (output.dropLast ++ [['/']])
    else if rest = ['.'] ∨ rest = ['.', '.'] then .inr output
    else .inl (rest.drop (firstPart rest).length, output ++ [firstPart rest])

/-- Something moves to the output whenever something is left. -/
theorem firstPart_length {rest : Str} (present : rest ≠ []) : 0 < (firstPart rest).length := by
  unfold firstPart
  -- A slash counts itself, and a segment without one has a first character.
  split
  · exact Nat.succ_pos _
  · rename_i plain
    cases rest with
    | nil => exact absurd rfl present
    | cons char others =>
      have other : (char != '/') = true := by
        simpa using fun same => plain others (by rw [same])
      rw [List.takeWhile_cons, if_pos other]
      exact Nat.succ_pos _

/-- The loop that removes dot segments, of which every pass leaves less of the path. -/
def removeDotSegmentsLoop : Iteration (Str × List Str) (List Str) where
  body := removeDotSegmentsPass
  size := fun (rest, _) => rest.length
  decreases := by
    intro state next passed
    obtain ⟨rest, output⟩ := state
    unfold removeDotSegmentsPass at passed
    dsimp only at passed ⊢
    split at passed
    · cases passed
    rename_i present
    have positive := List.length_pos_of_ne_nil present
    -- What is dropped is never empty.
    have shorter : ∀ count, 0 < count → (rest.drop count).length < rest.length := by
      intro count some
      rw [List.length_drop]
      omega
    split at passed
    · cases passed
      exact shorter 3 (by decide)
    split at passed
    · cases passed
      exact shorter 2 (by decide)
    split at passed
    · cases passed
      exact shorter 2 (by decide)
    split at passed
    · cases passed
    split at passed
    · cases passed
      exact shorter 3 (by decide)
    split at passed
    · cases passed
    split at passed
    · cases passed
    · cases passed
      exact shorter _ (firstPart_length present)

/-- A path without its dot segments. -/
def removeDotSegments (path : Str) : Str := (removeDotSegmentsLoop.run (path, [])).flatten

/-- Whether a colon stands in the first segment of a path. -/
def firstSegmentContainsColon (path : Str) : Bool :=
  (path.takeWhile (· != '/')).contains ':'

/-- What stands between an authority, if any, and the path, so that they are told apart. -/
def pathGuard (scheme authority : Option Str) (path : Str) : Str :=
  if authority.isSome then []
  else if ['/', '/'] <+: path then ['/', '.']
  else if scheme.isNone ∧ firstSegmentContainsColon path then ['.', '/']
  else []

/-- A URI from its parts. -/
def buildUri (scheme authority : Option Str) (path : Str) (query fragment : Option Str) : Str :=
  (match scheme with
    | some scheme => scheme ++ [':']
    | none => []) ++
  (match authority with
    | some authority => '/' :: '/' :: authority
    | none => []) ++
  pathGuard scheme authority path ++ path ++
  (match query with
    | some query => '?' :: query
    | none => []) ++
  (match fragment with
    | some fragment => '#' :: fragment
    | none => [])

/-- A path behind all but the last segment of a base. -/
def mergePaths (base : Uri) (referencePath : Str) : Str :=
  if base.authority.isSome ∧ base.path = [] then '/' :: referencePath
  else match rsplitOnce '/' base.path with
    | some (front, _) => front ++ '/' :: referencePath
    | none => referencePath

/-- What a reference stands for behind a base. -/
def resolve (base reference : Uri) : Except UriError Uri :=
  -- A reference with a scheme stands for itself.
  if reference.scheme.isSome then
    parse (buildUri reference.scheme reference.authority (removeDotSegments reference.path)
      reference.query reference.fragment)
  -- A reference with an authority takes only the scheme of the base.
  else if reference.authority.isSome then
    parse (buildUri base.scheme reference.authority (removeDotSegments reference.path)
      reference.query reference.fragment)
  -- Without a path the base gives its path, and its query where there is no other.
  else if reference.path = [] then
    parse (buildUri base.scheme base.authority base.path (reference.query.or base.query)
      reference.fragment)
  else
    let path :=
      if reference.path.head? = some '/' then removeDotSegments reference.path
      else removeDotSegments (mergePaths base reference.path)
    parse (buildUri base.scheme base.authority path reference.query reference.fragment)

/-- The value of a hexadecimal digit. -/
def fromHexChar (byte : UInt8) : Option UInt8 :=
  if 0x30 ≤ byte ∧ byte ≤ 0x39 then some (byte - 0x30)
  else if 0x41 ≤ byte ∧ byte ≤ 0x46 then some (byte - 0x41 + 10)
  else if 0x61 ≤ byte ∧ byte ≤ 0x66 then some (byte - 0x61 + 10)
  else none

/-- The upper-case hexadecimal digit of a value. -/
def toHexChar (nibble : UInt8) : Char :=
  if nibble ≤ 9 then Char.ofNat (0x30 + nibble).toNat else Char.ofNat (0x41 + nibble - 10).toNat

/-- A byte that was encoded, decoded if it needs not to be. -/
def normalizeEncoded (decoded : UInt8) : Str :=
  if isUnreservedByte decoded then [Char.ofNat decoded.toNat]
  else ['%', toHexChar (decoded >>> 4), toHexChar (decoded &&& 0x0F)]

/-- Bytes with their encoded ones in normal form, each of the others as a character. -/
def normalizePercentBytes : Bytes → Except UriError Str
  | [] => .ok []
  | byte :: rest =>
    if byte == 0x25 then
      match rest with
      | high :: low :: rest =>
        match fromHexChar high, fromHexChar low with
        | some highVal, some lowVal =>
          (normalizePercentBytes rest).map fun more =>
            normalizeEncoded ((highVal <<< 4) ||| lowVal) ++ more
        | _, _ => .error .invalidPercentEncoding
      | _ => .error .invalidPercentEncoding
    -- Each byte becomes a character, which is right for ASCII only.
    else (normalizePercentBytes rest).map fun more => Char.ofNat byte.toNat :: more

/-- A text with its encoded bytes in normal form. -/
def normalizePercentEncoding (input : Str) : Except UriError Str :=
  normalizePercentBytes (Utf8.encode input)

/-- A host in lower case with its port, if any, as it is. -/
def normalizeHostPort (hostPort : Str) : Str :=
  match (if hostPort.head? = some '[' then splitOnce ']' (hostPort.drop 1) else none) with
  | some (inner, after) => toAsciiLowercase ('[' :: (inner ++ [']'])) ++ after
  | none =>
    match rsplitOnce ':' hostPort with
    | some (host, port) => toAsciiLowercase host ++ ':' :: port
    | none => toAsciiLowercase hostPort

/-- An authority with its host in lower case. -/
def normalizeAuthority (authority : Str) : Str :=
  match rsplitOnce '@' authority with
  | some (userinfo, hostPort) => userinfo ++ '@' :: normalizeHostPort hostPort
  | none => normalizeHostPort authority

/-- A part that may be missing in its normal form. -/
def normalizePart : Option Str → Except UriError (Option Str)
  | none => .ok none
  | some part => (normalizePercentEncoding part).map some

/-- A URI in its normal form. -/
def normalize (uri : Uri) : Except UriError Uri := do
  let scheme := uri.scheme.map toAsciiLowercase
  let authority := uri.authority.map normalizeAuthority
  let path ← normalizePercentEncoding uri.path
  let path := removeDotSegments path
  let query ← normalizePart uri.query
  let fragment ← normalizePart uri.fragment
  parse (buildUri scheme authority path query fragment)

/-- Segments of one kind with slashes between and perhaps behind them. -/
inductive AreSegments (kind : Str → Prop) : Str → Prop where
  /-- A segment. -/
  | last {segment : Str} (own : kind segment) : AreSegments kind segment
  /-- A segment in front of a slash. -/
  | slash {segment : Str} (own : kind segment) : AreSegments kind (segment ++ ['/'])
  /-- A segment in front of a slash and more of them. -/
  | more {segment rest : Str} (own : kind segment) (others : AreSegments kind rest) :
    AreSegments kind (segment ++ '/' :: rest)

/-- A dot, which may be encoded. -/
def IsDot (text : Str) : Prop :=
  text = ['.'] ∨ text = ['%', '2', 'E'] ∨ text = ['%', '2', 'e']

/-- A segment for the same place or for the one above, its dots encoded or not. -/
def IsDotSegment (segment : Str) : Prop :=
  IsDot segment ∨ ∃ first second, IsDot first ∧ IsDot second ∧ segment = first ++ second

/-- The parts of a URI. -/
def parts (uri : Uri) : References.Parts where
  scheme := uri.scheme
  authority := uri.authority
  path := uri.path
  query := uri.query
  fragment := uri.fragment

end Uri

namespace Uri

/-- A byte as it is if it is safe, and its two digits behind a percent sign otherwise. -/
def percentEncodeByte (safe : UInt8 → Bool) (byte : UInt8) : Str :=
  if safe byte then [Char.ofNat byte.toNat]
  else ['%', toHexChar (byte >>> 4), toHexChar (byte &&& 0x0F)]

/-- A text with all bytes encoded but for the safe ones. -/
def percentEncodeWith (safe : UInt8 → Bool) (input : Str) : Str :=
  (Utf8.encode input).flatMap (percentEncodeByte safe)

/-- A byte that a path keeps. -/
def isPathSafe (byte : UInt8) : Bool := isUnreservedByte byte || byte == 0x2F

/-- A byte that a query keeps. -/
def isQuerySafe (byte : UInt8) : Bool := isUnreservedByte byte || byte == 0x3D || byte == 0x26

/-- An encoded text. -/
def percentEncode (input : Str) : Str := percentEncodeWith isUnreservedByte input

/-- A text that is encoded for a path, with its slashes. -/
def percentEncodePath (input : Str) : Str := percentEncodeWith isPathSafe input

/-- A text that is encoded for a query, with the signs between its fields. -/
def percentEncodeQuery (input : Str) : Str := percentEncodeWith isQuerySafe input

/-- Bytes with the encoded ones decoded. -/
def percentDecodeBytes : Bytes → Except UriError Bytes
  | [] => .ok []
  | byte :: rest =>
    if byte == 0x25 then
      match rest with
      | high :: low :: rest =>
        match fromHexChar high, fromHexChar low with
        | some highVal, some lowVal =>
          (percentDecodeBytes rest).map (((highVal <<< 4) ||| lowVal) :: ·)
        | _, _ => .error .invalidPercentEncoding
      | _ => .error .invalidPercentEncoding
    else (percentDecodeBytes rest).map (byte :: ·)

/-- A text with its encoded bytes decoded, which must again be a text. -/
def percentDecode (input : Str) : Except UriError Str := do
  let bytes ← percentDecodeBytes (Utf8.encode input)
  match Utf8.decode bytes with
  | .ok text => return text
  | .error _ => throw .invalidUtf8

end Uri

end Http11

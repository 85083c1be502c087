import Http11.Proofs.Normalized
import Http11.Proofs.UriParts
import Http11.Resolve

/-! Encoded texts are decoded to what they were, and stay in the part of a URI they are put in. -/

namespace Http11

namespace Uri

/-- The bytes that need never be encoded are safe. -/
theorem isPartKind_unreserved : IsPartKind isUnreservedByte where
  unreserved := fun _ unreserved => unreserved
  ascii := forall_byte (by decide +kernel)
  unpercent := by decide

/-- The bytes that a path keeps are safe. -/
theorem isPartKind_pathSafe : IsPartKind isPathSafe where
  unreserved := forall_byte (by decide +kernel)
  ascii := forall_byte (by decide +kernel)
  unpercent := by decide

example : isPathSafe 0x2F = true ∧ isPathSafe 0x3F = false := by decide +kernel

/-- The bytes that a query keeps are safe. -/
theorem isPartKind_querySafe : IsPartKind isQuerySafe where
  unreserved := forall_byte (by decide +kernel)
  ascii := forall_byte (by decide +kernel)
  unpercent := by decide

/-- The digits of a byte stand for it. -/
theorem toHexChar_pair : ∀ byte : UInt8,
    Utf8.encode ['%', toHexChar (byte >>> 4), toHexChar (byte &&& 0x0F)] =
      [0x25, UInt8.ofNat (toHexChar (byte >>> 4)).toNat,
        UInt8.ofNat (toHexChar (byte &&& 0x0F)).toNat] ∧
    decodePair (UInt8.ofNat (toHexChar (byte >>> 4)).toNat)
      (UInt8.ofNat (toHexChar (byte &&& 0x0F)).toNat) = some byte :=
  forall_byte (by decide +kernel)

/-- Two digits are decoded to their byte. -/
theorem percentDecodeBytes_percent {high low value : UInt8} (rest : Bytes)
    (decoded : decodePair high low = some value) :
    percentDecodeBytes (0x25 :: high :: low :: rest) =
      (percentDecodeBytes rest).map (value :: ·) := by
  unfold decodePair at decoded
  -- A byte comes only from two hexadecimal digits.
  cases first : fromHexChar high with
  | none =>
    rw [first] at decoded
    cases decoded
  | some highVal =>
    cases second : fromHexChar low with
    | none =>
      rw [first, second] at decoded
      cases decoded
    | some lowVal =>
      rw [first, second] at decoded
      cases decoded
      rw [percentDecodeBytes.eq_def]
      dsimp only
      rw [if_pos (by decide), first, second]

/-- A byte that is no percent sign stays as it is. -/
theorem percentDecodeBytes_plain {byte : UInt8} (rest : Bytes) (other : byte ≠ 0x25) :
    percentDecodeBytes (byte :: rest) = (percentDecodeBytes rest).map (byte :: ·) := by
  rw [percentDecodeBytes.eq_def]
  dsimp only
  rw [if_neg (by simpa using other)]

section Safe

variable {safe : UInt8 → Bool} (kind : IsPartKind safe)

include kind

/-- A byte is decoded in front of whatever follows it. -/
theorem percentDecodeBytes_encodeByte (byte : UInt8) (rest : Bytes) :
    percentDecodeBytes (Utf8.encode (percentEncodeByte safe byte) ++ rest) =
      (percentDecodeBytes rest).map (byte :: ·) := by
  unfold percentEncodeByte
  by_cases kept : safe byte = true
  · -- A safe byte is its own character, and not the sign that starts the other ones.
    rw [if_pos kept, kind.encodeChar kept]
    exact percentDecodeBytes_plain rest (kind.other kept)
  · obtain ⟨written, decoded⟩ := toHexChar_pair byte
    rw [if_neg kept, written]
    exact percentDecodeBytes_percent rest decoded

/-- Encoded bytes are decoded to what they were. -/
theorem percentDecodeBytes_encode (bytes : Bytes) :
    percentDecodeBytes (Utf8.encode (bytes.flatMap (percentEncodeByte safe))) = .ok bytes := by
  induction bytes with
  | nil => rw [List.flatMap_nil, Utf8.encode_nil, percentDecodeBytes]
  | cons byte bytes ih =>
    rw [List.flatMap_cons, Utf8.encode_append, percentDecodeBytes_encodeByte kind, ih, Except.map]

/-- An encoded text is decoded to what it was, whichever bytes are safe. -/
theorem percentDecode_encodeWith (input : Str) :
    percentDecode (percentEncodeWith safe input) = .ok input := by
  rw [percentDecode, percentEncodeWith, percentDecodeBytes_encode kind]
  simp only [Bind.bind, Except.bind, Utf8.decode_encode]
  rfl

/-- A character of three bytes is written in three pairs of digits. -/
example : percentEncode "日/".toList = "%E6%97%A5%2F".toList := by decide +kernel

/-- A byte that a part keeps or that is encoded may stand in the part. -/
theorem percentEncodeByte_encoded {allowed : UInt8 → Bool}
    (more : ∀ byte, safe byte = true → allowed byte = true) (byte : UInt8) :
    IsTripletText allowed isHexPair (percentEncodeByte safe byte) := by
  unfold percentEncodeByte
  -- A byte is kept as it is, or it gets two digits behind a percent sign.
  by_cases kept : safe byte = true
  · rw [if_pos kept, IsTripletText, kind.encodeChar kept]
    exact .plain (more byte kept) .empty
  · obtain ⟨written, decoded⟩ := toHexChar_pair byte
    rw [if_neg kept, IsTripletText, written]
    refine .percent ?_ .empty
    rw [isHexPair_iff, decoded, Option.isSome_some]

/-- An encoded text may stand in a part that allows the safe bytes. -/
theorem percentEncodeWith_encoded {allowed : UInt8 → Bool}
    (more : ∀ byte, safe byte = true → allowed byte = true) (input : Str) :
    IsTripletText allowed isHexPair (percentEncodeWith safe input) := by
  rw [percentEncodeWith, List.flatMap_def]
  refine IsTripletText.flatten fun text inside => ?_
  obtain ⟨byte, _, rfl⟩ := List.mem_map.mp inside
  exact percentEncodeByte_encoded kind more byte

end Safe

/-- A text is decoded to one whose bytes its own bytes are decoded to. -/
theorem percentDecode_iff (text decoded : Str) : percentDecode text = .ok decoded ↔
    percentDecodeBytes (Utf8.encode text) = .ok (Utf8.encode decoded) := by
  unfold percentDecode
  -- The text is decoded to bytes first, and these then to characters.
  cases read : percentDecodeBytes (Utf8.encode text) with
  | error failure =>
    constructor <;> intro same <;> cases same
  | ok bytes =>
    simp only [Bind.bind, Except.bind]
    rw [Except.ok.injEq, ← Utf8.decode_iff]
    cases Utf8.decode bytes with
    | error failure => constructor <;> intro same <;> cases same
    | ok other => simp only [pure, Except.pure, Except.ok.injEq]

/-- A slash in front of a text is decoded as it is. -/
theorem percentDecode_slash {text decoded : Str} (read : percentDecode text = .ok decoded) :
    percentDecode ('/' :: text) = .ok ('/' :: decoded) := by
  -- The slash is one byte, and no percent sign.
  have slash : ∀ behind, Utf8.encode ('/' :: behind) = 0x2F :: Utf8.encode behind := by
    intro behind
    rw [Utf8.encode_cons, Utf8.encodeChar_ascii (by decide)]
    rfl
  rw [percentDecode_iff] at read ⊢
  rw [slash, slash, percentDecodeBytes_plain _ (by decide), read]
  rfl

/-- Parts behind a host without a port make up a URI with these parts. -/
theorem parse_parts {path query : Str} (first : IsTripletText isPcharOrSlash isHexPair path)
    (second : IsTripletText isQueryChar isHexPair query) :
    ∃ uri, Uri.parse ("http://h/".toList ++ path ++ '?' :: query) = .ok uri ∧
      uri.host = some ['h'] ∧ uri.path = '/' :: path ∧ uri.query = some query ∧
      uri.fragment = none := by
  -- The slash itself may stand in a path.
  have rooted : IsTripletText isPcharOrSlash isHexPair ('/' :: path) :=
    .append (.single (by decide) (by decide)) first
  have authority : checkAuthority (some ['h']) = .ok (1, none) := by decide
  have result := parse_rooted path (some query) (by decide +kernel) authority rooted
    fun text same => by
      cases same
      exact second
  have whole : "http://h/".toList ++ path ++ '?' :: query =
      "http://".toList ++ ['h'] ++ '/' :: path ++ References.marked ['?'] (some query) := by
    simp [References.marked]
  rw [whole]
  exact ⟨_, result, rfl, rfl, rfl, rfl⟩

end Uri

/-- Texts are decoded to what they were, whichever of the three ways they were encoded in, and a
path and a query that are encoded are the path and the query of the URI they are written in, with
nothing of them in another part. -/
theorem encodings_compose :
    (∀ text, Uri.percentDecode (Uri.percentEncode text) = .ok text ∧
      Uri.percentDecode (Uri.percentEncodePath text) = .ok text ∧
      Uri.percentDecode (Uri.percentEncodeQuery text) = .ok text) ∧
    ∀ path query, ∃ uri, Uri.parse ("http://h/".toList ++ Uri.percentEncodePath path ++
        '?' :: Uri.percentEncodeQuery query) = .ok uri ∧
      uri.host = some "h".toList ∧ uri.fragment = none ∧
      Uri.percentDecode uri.path = .ok ('/' :: path) ∧
      ∃ written, uri.query = some written ∧ Uri.percentDecode written = .ok query := by
  have whole := Uri.percentDecode_encodeWith Uri.isPartKind_unreserved
  have inPath := Uri.percentDecode_encodeWith Uri.isPartKind_pathSafe
  have inQuery := Uri.percentDecode_encodeWith Uri.isPartKind_querySafe
  refine ⟨fun text => ⟨whole text, inPath text, inQuery text⟩, fun path query => ?_⟩
  -- What a path and a query keep may stand in them.
  have pathSafe : ∀ byte, Uri.isPathSafe byte = true → isPcharOrSlash byte = true :=
    forall_byte (by decide +kernel)
  have querySafe : ∀ byte, Uri.isQuerySafe byte = true → isQueryChar byte = true :=
    forall_byte (by decide +kernel)
  obtain ⟨uri, parsed, host, hasPath, hasQuery, fragmentless⟩ := Uri.parse_parts
    (Uri.percentEncodeWith_encoded Uri.isPartKind_pathSafe pathSafe path)
    (Uri.percentEncodeWith_encoded Uri.isPartKind_querySafe querySafe query)
  refine ⟨uri, parsed, host, fragmentless, ?_, _, hasQuery, inQuery query⟩
  rw [hasPath]
  exact Uri.percentDecode_slash (inPath path)

end Http11

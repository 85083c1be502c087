import Http11.Proofs.Encoded
import Http11.Proofs.Validate

/-! Encoded bytes in normal form: what they are, and that they stay so. -/

namespace Http11

namespace Uri

/-- The byte that two digits encode. -/
def decodePair (high low : UInt8) : Option UInt8 :=
  match fromHexChar high, fromHexChar low with
  | some highVal, some lowVal => some ((highVal <<< 4) ||| lowVal)
  | _, _ => none

/-- Two digits that the normal form leaves as they are. -/
def isNormalPair (high low : UInt8) : Bool :=
  match decodePair high low with
  | some value =>
    normalizeEncoded value == ['%', Char.ofNat high.toNat, Char.ofNat low.toNat]
  | none => false

/-- Bytes that stand for themselves in a part of a URI. -/
structure IsPartKind (allowed : UInt8 → Bool) : Prop where
  /-- Those that need never be encoded may stand there. -/
  unreserved : ∀ byte, isUnreservedByte byte = true → allowed byte = true
  /-- Only ASCII bytes do. -/
  ascii : ∀ byte, allowed byte = true → byte.toNat < 0x80
  /-- A percent sign does not. -/
  unpercent : allowed 0x25 = false

/-- The bytes of paths. -/
theorem isPartKind_path : IsPartKind isPcharOrSlash where
  unreserved := forall_byte (by decide +kernel)
  ascii := forall_byte (by decide +kernel)
  unpercent := by decide

/-- The bytes of queries and fragments. -/
theorem isPartKind_query : IsPartKind isQueryChar where
  unreserved := forall_byte (by decide +kernel)
  ascii := forall_byte (by decide +kernel)
  unpercent := by decide

/-- Digits are those that have a value. -/
theorem isAsciiHexdigit_iff : ∀ byte, isAsciiHexdigit byte = (fromHexChar byte).isSome :=
  forall_byte (by decide +kernel)

example : fromHexChar 0x66 = some 15 ∧ fromHexChar 0x67 = none := by decide +kernel

/-- Two digits encode a byte. -/
theorem isHexPair_iff (high low : UInt8) : isHexPair high low = (decodePair high low).isSome := by
  rw [isHexPair, isAsciiHexdigit_iff, isAsciiHexdigit_iff, decodePair]
  cases fromHexChar high <;> cases fromHexChar low <;> rfl

/-- Digits in normal form are digits. -/
theorem isHexPair_of_normal (high low : UInt8) (normal : isNormalPair high low = true) :
    isHexPair high low = true := by
  rw [isHexPair_iff]
  unfold isNormalPair at normal
  -- Digits that decode to no byte are not in normal form.
  cases decoded : decodePair high low with
  | some value => rfl
  | none =>
    rw [decoded] at normal
    cases normal

/-- Two digits are replaced by the normal form of their byte. -/
theorem normalizePercentBytes_percent {high low value : UInt8} (rest : Bytes)
    (decoded : decodePair high low = some value) :
    normalizePercentBytes (0x25 :: high :: low :: rest) =
      (normalizePercentBytes rest).map (normalizeEncoded value ++ ·) := by
  unfold decodePair at decoded
  -- Either digit may be none, and then nothing is decoded.
  cases first : fromHexChar high with
  | none =>
    rw [first] at decoded
    cases decoded
  | some highVal =>
    cases second : fromHexChar low with
    | none =>
      rw [first, second] at decoded
      cases decoded
    | some lowVal =>
      rw [first, second, Option.some.injEq] at decoded
      rw [normalizePercentBytes, if_pos (beq_self_eq_true _), first, second, ← decoded]

/-- Any other byte stays as a character. -/
theorem normalizePercentBytes_plain {byte : UInt8} (rest : Bytes) (other : byte ≠ 0x25) :
    normalizePercentBytes (byte :: rest) =
      (normalizePercentBytes rest).map (Char.ofNat byte.toNat :: ·) := by
  rw [normalizePercentBytes.eq_def]
  dsimp only
  rw [if_neg (by simpa using other)]

/-- An encoded byte in normal form. -/
theorem normalizeEncoded_cases : ∀ value : UInt8,
    (isUnreservedByte value = true ∧ normalizeEncoded value = [Char.ofNat value.toNat]) ∨
      (isUnreservedByte value = false ∧
        decodePair (UInt8.ofNat (toHexChar (value >>> 4)).toNat)
          (UInt8.ofNat (toHexChar (value &&& 0x0F)).toNat) = some value ∧
        Utf8.encode (normalizeEncoded value) =
          [0x25, UInt8.ofNat (toHexChar (value >>> 4)).toNat,
            UInt8.ofNat (toHexChar (value &&& 0x0F)).toNat] ∧
        isNormalPair (UInt8.ofNat (toHexChar (value >>> 4)).toNat)
          (UInt8.ofNat (toHexChar (value &&& 0x0F)).toNat) = true) :=
  forall_byte (by decide +kernel)

/-- The digits of a dot. -/
theorem decodePair_dot {high low : UInt8} (decoded : decodePair high low = some 0x2E) :
    high = 0x32 ∧ (low = 0x45 ∨ low = 0x65) := by
  have small : ∀ byte value, fromHexChar byte = some value → value.toNat < 16 := by
    have each : ∀ byte, (fromHexChar byte).all (fun value => decide (value.toNat < 16)) = true :=
      forall_byte (by decide +kernel)
    intro byte value found
    have known := each byte
    rw [found] at known
    simpa using known
  -- Of all pairs of half bytes only these two make up a dot.
  have parts : ∀ first < 16, ∀ second < 16,
      (UInt8.ofNat first <<< 4) ||| UInt8.ofNat second = 0x2E → first = 2 ∧ second = 14 := by decide
  have two : ∀ byte, fromHexChar byte = some 2 → byte = 0x32 := forall_byte (by decide +kernel)
  have fourteen : ∀ byte, fromHexChar byte = some 14 → byte = 0x45 ∨ byte = 0x65 :=
    forall_byte (by decide +kernel)
  unfold decodePair at decoded
  -- Both digits are there, as they were decoded.
  cases first : fromHexChar high with
  | none =>
    rw [first] at decoded
    cases decoded
  | some highVal =>
    cases second : fromHexChar low with
    | none =>
      rw [first, second] at decoded
      cases decoded
    | some lowVal =>
      rw [first, second, Option.some.injEq] at decoded
      have both := parts highVal.toNat (small high highVal first) lowVal.toNat
        (small low lowVal second)
      rw [UInt8.ofNat_toNat, UInt8.ofNat_toNat] at both
      obtain ⟨upper, lower⟩ := both decoded
      have isTwo : highVal = 2 := UInt8.toNat_inj.mp upper
      have isFourteen : lowVal = 14 := UInt8.toNat_inj.mp lower
      exact ⟨two high (by rw [first, isTwo]), fourteen low (by rw [second, isFourteen])⟩

/-- A dot is normalized to one, encoded or not. -/
theorem normalizePercentEncoding_dot {dot : Str} (isDot : IsDot dot) (rest : Str) :
    normalizePercentEncoding (dot ++ rest) = (normalizePercentEncoding rest).map ('.' :: ·) := by
  have bytes : Utf8.encode (dot ++ rest) = Utf8.encode dot ++ Utf8.encode rest :=
    Utf8.encode_append dot rest
  rw [normalizePercentEncoding, bytes]
  -- A dot stands for itself or as its encoding in either case.
  rcases isDot with rfl | rfl | rfl
  · exact normalizePercentBytes_plain _ (by decide)
  · exact @normalizePercentBytes_percent _ _ 0x2E _ (by decide)
  · exact @normalizePercentBytes_percent _ _ 0x2E _ (by decide)

/-- A slash stays as it is. -/
theorem normalizePercentEncoding_slash (rest : Str) :
    normalizePercentEncoding ('/' :: rest) = (normalizePercentEncoding rest).map ('/' :: ·) :=
  @normalizePercentBytes_plain 0x2F (Utf8.encode rest) (by decide)

/-- A dot segment is normalized to one without encoded dots. -/
theorem normalizePercentEncoding_dotSegment {segment : Str} (isDots : IsDotSegment segment)
    (rest : Str) : ∃ dots, (dots = ['.'] ∨ dots = ['.', '.']) ∧
      normalizePercentEncoding (segment ++ rest) =
        (normalizePercentEncoding rest).map (dots ++ ·) := by
  -- A dot segment is one dot or two of them.
  rcases isDots with one | two
  · exact ⟨['.'], .inl rfl, normalizePercentEncoding_dot one rest⟩
  · obtain ⟨first, second, isFirst, isSecond, rfl⟩ := two
    refine ⟨['.', '.'], .inr rfl, ?_⟩
    rw [List.append_assoc, normalizePercentEncoding_dot isFirst,
      normalizePercentEncoding_dot isSecond]
    cases normalizePercentEncoding rest <;> rfl

/-- Dot segments are normalized to such without encoded dots. -/
theorem areDots_of_segments {path normalized : Str} (segments : AreSegments IsDotSegment path)
    (same : normalizePercentEncoding path = .ok normalized) : AreDots normalized := by
  induction segments generalizing normalized with
  -- The last segment, one with a slash behind it, and one in front of others.
  | @last segment own =>
    obtain ⟨dots, areDots, whole⟩ := normalizePercentEncoding_dotSegment own []
    rw [List.append_nil, same] at whole
    rw [show normalized = dots from (Except.ok.inj whole).trans (List.append_nil dots)]
    exact .last areDots
  | @slash segment own =>
    obtain ⟨dots, areDots, whole⟩ := normalizePercentEncoding_dotSegment own ['/']
    rw [same] at whole
    rw [show normalized = dots ++ ['/'] from Except.ok.inj whole]
    exact .slash areDots
  | @more segment rest own _ ih =>
    obtain ⟨dots, areDots, whole⟩ := normalizePercentEncoding_dotSegment own ('/' :: rest)
    rw [same, normalizePercentEncoding_slash] at whole
    cases behind : normalizePercentEncoding rest with
    | error failure =>
      rw [behind] at whole
      cases whole
    | ok text =>
      rw [behind] at whole
      rw [show normalized = dots ++ '/' :: text from Except.ok.inj whole]
      exact .more areDots (ih behind)

section Kinds

variable {allowed : UInt8 → Bool} (kind : IsPartKind allowed)

include kind

/-- A byte that stands for itself is no percent sign. -/
theorem IsPartKind.other {byte : UInt8} (kept : allowed byte = true) : byte ≠ 0x25 := by
  intro percent
  rw [percent, kind.unpercent] at kept
  cases kept

/-- A byte that stands for itself is the one of its character. -/
theorem IsPartKind.encodeChar {byte : UInt8} (kept : allowed byte = true) :
    Utf8.encode [Char.ofNat byte.toNat] = [byte] :=
  @Utf8.encode_ascii [byte] (by simpa using kind.ascii byte kept)

/-- The normal form of encoded bytes exists and is in normal form. -/
theorem normalizePercentBytes_ok {bytes : Bytes} (encoded : IsTriplets allowed isHexPair bytes) :
    ∃ text, normalizePercentBytes bytes = .ok text ∧
      IsTripletText allowed isNormalPair text := by
  induction encoded with
  | empty => exact ⟨[], rfl, .empty⟩
  -- A plain byte stays and is in normal form already.
  | @plain byte rest kept _ ih =>
    obtain ⟨text, normalized, normal⟩ := ih
    refine ⟨Char.ofNat byte.toNat :: text, ?_, ?_⟩
    · rw [normalizePercentBytes_plain rest (kind.other kept), normalized]
      rfl
    · have first : IsTripletText allowed isNormalPair [Char.ofNat byte.toNat] := by
        rw [IsTripletText, kind.encodeChar kept]
        exact .plain kept .empty
      exact first.append normal
  | @percent high low rest digits _ ih =>
    obtain ⟨text, normalized, normal⟩ := ih
    rw [isHexPair_iff, Option.isSome_iff_exists] at digits
    obtain ⟨value, decoded⟩ := digits
    refine ⟨normalizeEncoded value ++ text, ?_, ?_⟩
    · rw [normalizePercentBytes_percent rest decoded, normalized]
      rfl
    · -- The byte is decoded where it is unreserved, and otherwise keeps its digits in upper case.
      have first : IsTripletText allowed isNormalPair (normalizeEncoded value) := by
        rcases normalizeEncoded_cases value with plain | pair
        · rw [plain.2, IsTripletText, kind.encodeChar (kind.unreserved value plain.1)]
          exact .plain (kind.unreserved value plain.1) .empty
        · rw [IsTripletText, pair.2.2.1]
          exact .percent pair.2.2.2 .empty
      exact first.append normal

/-- Bytes in normal form stay as they are. -/
theorem normalizePercentBytes_normal {bytes : Bytes}
    (normal : IsTriplets allowed isNormalPair bytes) :
    normalizePercentBytes bytes = .ok (bytes.map fun byte => Char.ofNat byte.toNat) := by
  -- No byte is decoded, and the digits are in upper case already.
  induction normal with
  | empty => rfl
  | @plain byte rest kept _ ih =>
    rw [normalizePercentBytes_plain rest (kind.other kept), ih]
    rfl
  | @percent high low rest digits _ ih =>
    unfold isNormalPair at digits
    cases decoded : decodePair high low with
    | none =>
      rw [decoded] at digits
      cases digits
    | some value =>
      rw [decoded, beq_iff_eq] at digits
      rw [normalizePercentBytes_percent rest decoded, ih, digits]
      rfl

/-- Encoded bytes are ASCII. -/
theorem IsPartKind.allAscii {bytes : Bytes} (encoded : IsTriplets allowed isHexPair bytes) :
    ∀ byte ∈ bytes, byte.toNat < 0x80 := by
  have digit : ∀ byte, isAsciiHexdigit byte = true → byte.toNat < 0x80 :=
    forall_byte (by decide +kernel)
  induction encoded with
  | empty => exact List.forall_mem_nil _
  -- A percent sign and its digits are ASCII as well.
  | plain kept _ ih => exact List.forall_mem_cons.mpr ⟨kind.ascii _ kept, ih⟩
  | percent digits _ ih =>
    rw [isHexPair, Bool.and_eq_true] at digits
    exact List.forall_mem_cons.mpr ⟨by decide, List.forall_mem_cons.mpr
      ⟨digit _ digits.1, List.forall_mem_cons.mpr ⟨digit _ digits.2, ih⟩⟩⟩

/-- An encoded text has the characters of its bytes. -/
theorem IsPartKind.text_of_bytes {text : Str} (encoded : IsTripletText allowed isHexPair text) :
    (Utf8.encode text).map (fun byte => Char.ofNat byte.toNat) = text := by
  have same := Utf8.encode_ascii (kind.allAscii encoded)
  have decoded := Utf8.decode_encode text
  rw [← same, Utf8.decode_encode] at decoded
  exact Except.ok.inj decoded

/-- The normal form of an encoded text exists and is in normal form. -/
theorem normalizePercentEncoding_ok {text : Str} (encoded : IsTripletText allowed isHexPair text) :
    ∃ normalized, normalizePercentEncoding text = .ok normalized ∧
      IsTripletText allowed isNormalPair normalized :=
  normalizePercentBytes_ok kind encoded

/-- A text in normal form stays as it is. -/
theorem normalizePercentEncoding_normal {text : Str}
    (normal : IsTripletText allowed isNormalPair text) :
    normalizePercentEncoding text = .ok text := by
  rw [normalizePercentEncoding, normalizePercentBytes_normal kind normal,
    kind.text_of_bytes (normal.mono isHexPair_of_normal)]

/-- An unreserved byte is decoded, and the digits of any other are in upper case. -/
example : normalizePercentEncoding "%7e%c3%a9".toList = .ok "~%C3%A9".toList := by decide +kernel

/-- Nothing is the normal form of nothing only. -/
theorem normalizePercentBytes_nil {bytes : Bytes} (encoded : IsTriplets allowed isHexPair bytes)
    (normalized : normalizePercentBytes bytes = .ok []) : bytes = [] := by
  cases encoded with
  | empty => rfl
  | @plain byte rest kept others =>
    obtain ⟨text, known, _⟩ := normalizePercentBytes_ok kind others
    rw [normalizePercentBytes_plain rest (kind.other kept), known] at normalized
    cases normalized
  | @percent high low rest digits others =>
    rw [isHexPair_iff, Option.isSome_iff_exists] at digits
    obtain ⟨value, decoded⟩ := digits
    obtain ⟨text, known, _⟩ := normalizePercentBytes_ok kind others
    rw [normalizePercentBytes_percent rest decoded, known] at normalized
    -- Every byte is written as a character at least.
    have empty := List.append_eq_nil_iff.mp (Except.ok.inj normalized)
    rcases normalizeEncoded_cases value with plain | pair
    · rw [plain.2] at empty
      cases empty.1
    · rw [empty.1] at pair
      cases pair.2.2.1

/-- What a character of the normal form was made from. -/
theorem normalizePercentBytes_front {bytes : Bytes} {char : Char} {more : Str}
    (encoded : IsTriplets allowed isHexPair bytes)
    (normalized : normalizePercentBytes bytes = .ok (char :: more)) (other : char ≠ '%') :
    ∃ front rest, bytes = front ++ rest ∧ IsTriplets allowed isHexPair rest ∧
      normalizePercentBytes rest = .ok more ∧
      ((∃ byte, front = [byte] ∧ allowed byte = true ∧ Char.ofNat byte.toNat = char) ∨
        ∃ high low value, front = [0x25, high, low] ∧ decodePair high low = some value ∧
          isUnreservedByte value = true ∧ Char.ofNat value.toNat = char) := by
  cases encoded with
  | empty => cases normalized
  | @plain byte rest kept others =>
    obtain ⟨text, known, _⟩ := normalizePercentBytes_ok kind others
    rw [normalizePercentBytes_plain rest (kind.other kept), known] at normalized
    have same := List.cons.inj (Except.ok.inj normalized)
    exact ⟨[byte], rest, rfl, others, by rw [known, same.2], .inl ⟨byte, rfl, kept, same.1⟩⟩
  | @percent high low rest digits others =>
    rw [isHexPair_iff, Option.isSome_iff_exists] at digits
    obtain ⟨value, decoded⟩ := digits
    obtain ⟨text, known, _⟩ := normalizePercentBytes_ok kind others
    rw [normalizePercentBytes_percent rest decoded, known] at normalized
    have whole : normalizeEncoded value ++ text = char :: more := Except.ok.inj normalized
    by_cases plain : isUnreservedByte value = true
    · rw [normalizeEncoded, if_pos plain] at whole
      have same := List.cons.inj whole
      exact ⟨[0x25, high, low], rest, rfl, others, by rw [known, ← same.2]; rfl,
        .inr ⟨high, low, value, rfl, decoded, plain, same.1⟩⟩
    · -- What stays encoded starts with a percent sign.
      rw [normalizeEncoded, if_neg plain] at whole
      exact absurd (List.cons.inj whole).1.symm other

/-- Encoded bytes are those of the characters that they are. -/
theorem IsPartKind.text_append {text : Str} {front rest : Bytes}
    (encoded : IsTripletText allowed isHexPair text) (whole : Utf8.encode text = front ++ rest) :
    text = front.map (fun byte => Char.ofNat byte.toNat) ++
        rest.map (fun byte => Char.ofNat byte.toNat) ∧
      Utf8.encode (rest.map fun byte => Char.ofNat byte.toNat) = rest := by
  have ascii := kind.allAscii encoded
  have same := kind.text_of_bytes encoded
  rw [whole] at ascii same
  rw [← same, List.map_append]
  exact ⟨rfl, Utf8.encode_ascii fun byte inside => ascii byte (List.mem_append_right _ inside)⟩

/-- A character that is never decoded stands for itself in the text, too. -/
theorem normalizePercentEncoding_reserved {text : Str} {char : Char} {more : Str}
    (encoded : IsTripletText allowed isHexPair text)
    (normalized : normalizePercentEncoding text = .ok (char :: more)) (other : char ≠ '%')
    (reserved : ∀ byte, isUnreservedByte byte = true → Char.ofNat byte.toNat ≠ char) :
    ∃ rest, text = char :: rest ∧ IsTripletText allowed isHexPair rest ∧
      normalizePercentEncoding rest = .ok more := by
  obtain ⟨front, rest, whole, others, behind, kinds⟩ :=
    normalizePercentBytes_front kind encoded normalized other
  obtain ⟨same, bytes⟩ := kind.text_append encoded whole
  -- Only unreserved characters are decoded, and this one is none.
  rcases kinds with plain | decoded
  · obtain ⟨byte, rfl, _, own⟩ := plain
    rw [List.map_singleton, own, List.singleton_append] at same
    refine ⟨_, same, ?_, ?_⟩
    · rw [IsTripletText, bytes]
      exact others
    · rw [normalizePercentEncoding, bytes]
      exact behind
  · obtain ⟨_, _, value, _, _, plain, own⟩ := decoded
    exact absurd own (reserved value plain)

/-- A dot of the normal form was one before, encoded or not. -/
theorem normalizePercentEncoding_dotted {text more : Str}
    (encoded : IsTripletText allowed isHexPair text)
    (normalized : normalizePercentEncoding text = .ok ('.' :: more)) :
    ∃ dot rest, IsDot dot ∧ text = dot ++ rest ∧ IsTripletText allowed isHexPair rest ∧
      normalizePercentEncoding rest = .ok more := by
  obtain ⟨front, rest, whole, others, behind, kinds⟩ :=
    normalizePercentBytes_front kind encoded normalized (by decide)
  obtain ⟨same, bytes⟩ := kind.text_append encoded whole
  refine ⟨_, _, ?_, same, by rw [IsTripletText, bytes]; exact others, by
    rw [normalizePercentEncoding, bytes]; exact behind⟩
  -- The dot stood for itself, or its encoding has been decoded.
  rcases kinds with plain | decoded
  · obtain ⟨byte, rfl, _, own⟩ := plain
    exact .inl (by rw [List.map_singleton, own])
  · obtain ⟨high, low, value, rfl, decoded, _, own⟩ := decoded
    have dot : ∀ byte : UInt8, Char.ofNat byte.toNat = '.' → byte = 0x2E :=
      forall_byte (by decide +kernel)
    rw [dot value own] at decoded
    obtain ⟨rfl, rfl | rfl⟩ := decodePair_dot decoded
    · exact .inr (.inl rfl)
    · exact .inr (.inr rfl)

/-- Dots of the normal form were a dot segment before. -/
theorem normalizePercentEncoding_dotsFront {text dots more : Str}
    (areDots : dots = ['.'] ∨ dots = ['.', '.']) (encoded : IsTripletText allowed isHexPair text)
    (normalized : normalizePercentEncoding text = .ok (dots ++ more)) :
    ∃ segment rest, IsDotSegment segment ∧ text = segment ++ rest ∧
      IsTripletText allowed isHexPair rest ∧ normalizePercentEncoding rest = .ok more := by
  -- The dots are taken off the text one after the other.
  rcases areDots with rfl | rfl
  · obtain ⟨dot, rest, isDot, whole, others, behind⟩ :=
      normalizePercentEncoding_dotted kind encoded normalized
    exact ⟨dot, rest, .inl isDot, whole, others, behind⟩
  · obtain ⟨first, middle, isFirst, rfl, others, left⟩ :=
      normalizePercentEncoding_dotted kind encoded normalized
    obtain ⟨second, rest, isSecond, rfl, last, behind⟩ :=
      normalizePercentEncoding_dotted kind others left
    exact ⟨first ++ second, rest, .inr ⟨first, second, isFirst, isSecond, rfl⟩,
      (List.append_assoc _ _ _).symm, last, behind⟩

/-- Nothing is the normal form of nothing only. -/
theorem normalizePercentEncoding_nil {text : Str} (encoded : IsTripletText allowed isHexPair text)
    (normalized : normalizePercentEncoding text = .ok []) : text = [] :=
  Utf8.encode_eq_nil.mp (normalizePercentBytes_nil kind encoded normalized)

/-- Behind a slash of the normal form stands what it was made from. -/
theorem normalizePercentEncoding_slashed {text more : Str}
    (encoded : IsTripletText allowed isHexPair text)
    (normalized : normalizePercentEncoding text = .ok ('/' :: more)) :
    ∃ rest, text = '/' :: rest ∧ IsTripletText allowed isHexPair rest ∧
      normalizePercentEncoding rest = .ok more :=
  normalizePercentEncoding_reserved kind encoded normalized (by decide)
    (forall_byte (by decide +kernel))

/-- The normal form is made of dot segments when the text was, their dots encoded or not. -/
theorem areDots_iff {path normalized : Str} (encoded : IsTripletText allowed isHexPair path)
    (same : normalizePercentEncoding path = .ok normalized) :
    AreDots normalized ↔ AreSegments IsDotSegment path := by
  refine ⟨fun areDots => ?_, fun segments => areDots_of_segments segments same⟩
  -- A slash is never decoded, so the segments of both texts are the same.
  induction areDots generalizing path with
  | @last dots own =>
    rw [← List.append_nil dots] at same
    obtain ⟨segment, rest, isDots, rfl, others, behind⟩ :=
      normalizePercentEncoding_dotsFront kind own encoded same
    rw [normalizePercentEncoding_nil kind others behind, List.append_nil]
    exact .last isDots
  | @slash dots own =>
    obtain ⟨segment, rest, isDots, rfl, others, behind⟩ :=
      normalizePercentEncoding_dotsFront kind own encoded same
    obtain ⟨last, rfl, left, ends⟩ := normalizePercentEncoding_slashed kind others behind
    rw [normalizePercentEncoding_nil kind left ends]
    exact .slash isDots
  | @more dots later own _ ih =>
    obtain ⟨segment, rest, isDots, rfl, others, behind⟩ :=
      normalizePercentEncoding_dotsFront kind own encoded same
    obtain ⟨last, rfl, left, ends⟩ := normalizePercentEncoding_slashed kind others behind
    exact .more isDots (ih left ends)

end Kinds

end Uri

end Http11

import Http11.Auth
import Http11.Proofs.Base64
import Http11.Proofs.Text

/-! Credentials in the Basic scheme are read back as they were written, and only so. -/

namespace Http11

/-- The bytes of a character in front of others are counted first. -/
theorem byteLength_cons (char : Char) (text : Str) :
    byteLength (char :: text) = char.utf8Size + byteLength text := by
  simp [byteLength]

/-- A string can be split behind the bytes of its front. -/
theorem splitAtByte_append (front back : Str) :
    splitAtByte (byteLength front) (front ++ back) = some (front, back) := by
  induction front with
  | nil => simp [byteLength, splitAtByte]
  | cons char front ih =>
    -- A character takes at least one byte, so the count is not used up before its end.
    have positive := Char.utf8Size_pos char
    obtain ⟨count, counted⟩ : ∃ count, char.utf8Size + byteLength front = count + 1 :=
      Nat.exists_eq_succ_of_ne_zero (by omega)
    have left : count + 1 - char.utf8Size = byteLength front := by omega
    rw [byteLength_cons, counted, List.cons_append, splitAtByte, if_pos (by omega), left, ih]
    rfl

/-- A string with no white space in front. -/
def StartsDark (text : Str) : Prop := ∃ char rest, text = char :: rest ∧ isWhitespace char = false

/-- A string with no white space at its end. -/
def EndsDark (text : Str) : Prop := ∃ rest char, text = rest ++ [char] ∧ isWhitespace char = false

/-- Nothing is trimmed in front of a string that starts dark. -/
theorem StartsDark.trimStart {text : Str} (dark : StartsDark text) : trimStart text = text := by
  obtain ⟨char, rest, rfl, visible⟩ := dark
  rw [Http11.trimStart, List.dropWhile_cons_of_neg (by simp [visible])]

/-- Nothing is trimmed of a string that starts and ends dark. -/
theorem StartsDark.trim {text : Str} (starts : StartsDark text) (ends : EndsDark text) :
    trim text = text := by
  obtain ⟨rest, char, rfl, visible⟩ := ends
  have front : (rest ++ [char]).dropWhile isWhitespace = rest ++ [char] := starts.trimStart
  rw [Http11.trim, front, List.rdropWhile_concat_neg _ _ _ (by simp [visible])]

/-- A string starts as its front does. -/
theorem StartsDark.append {front : Str} (dark : StartsDark front) (back : Str) :
    StartsDark (front ++ back) := by
  obtain ⟨char, rest, rfl, visible⟩ := dark
  exact ⟨char, rest ++ back, rfl, visible⟩

/-- A string ends as its back does. -/
theorem EndsDark.append {back : Str} (dark : EndsDark back) (front : Str) :
    EndsDark (front ++ back) := by
  obtain ⟨rest, char, rfl, visible⟩ := dark
  exact ⟨front ++ rest, char, (List.append_assoc _ _ _).symm, visible⟩

/-- A string without white space starts and ends dark. -/
theorem dark_of_all {text : Str} (present : text ≠ [])
    (dark : ∀ char ∈ text, isWhitespace char = false) : StartsDark text ∧ EndsDark text := by
  refine ⟨?_, ?_⟩
  · obtain ⟨char, rest, rfl⟩ := List.exists_cons_of_ne_nil present
    exact ⟨char, rest, rfl, dark char List.mem_cons_self⟩
  · obtain ⟨rest, char, rfl⟩ := (List.eq_nil_or_concat' text).resolve_left present
    exact ⟨rest, char, rfl, dark char (by simp)⟩

/-- Behind its scheme and a space the rest of a header is found. -/
theorem stripScheme_append {scheme front rest : Str} (starts : StartsDark front)
    (same : eqIgnoreAsciiCase front scheme = true) (length : byteLength front = byteLength scheme)
    (dark : StartsDark rest) : stripScheme (front ++ ' ' :: rest) scheme = some rest := by
  -- The header is long enough to be cut behind the scheme.
  have longer : ¬ byteLength (front ++ ' ' :: rest) ≤ byteLength scheme := by
    simp only [byteLength, Utf8.encode_append, Utf8.encode_cons, List.length_append,
      String.length_utf8EncodeChar] at length ⊢
    have positive := Char.utf8Size_pos ' '
    omega
  have spaced : trimStart (' ' :: rest) = rest := by
    rw [trimStart, List.dropWhile_cons_of_pos (by decide)]
    exact dark.trimStart
  -- Cutting at the bytes of the scheme cuts behind the front, which has as many.
  rw [stripScheme, (starts.append _).trimStart, if_neg longer, ← length, splitAtByte_append]
  simp [same, spaced]

namespace Base64

/-- The characters of the alphabet stand in tokens, and are no white space. -/
theorem alphabetChar_token68 : ∀ val < 64, isToken68Char (alphabetByte val) = true ∧
    alphabetChar val ≠ '=' ∧ isWhitespace (alphabetChar val) = false := by
  decide +kernel

/-- Padding alone is dropped at the end of what is written. -/
theorem encode_trimmed (bytes : Bytes) : (encode bytes).rdropWhile (fun char => char == '=') =
    (sextets bytes).map alphabetChar := by
  -- Behind any text the signs of padding are dropped.
  have dropped : ∀ (text : Str) (count : Nat),
      (text ++ List.replicate count '=').rdropWhile (fun char => char == '=') =
        text.rdropWhile fun char => char == '=' := by
    intro text count
    induction count with
    | zero => simp
    | succ count ih =>
      rw [List.replicate_succ', ← List.append_assoc, List.rdropWhile_concat_pos _ _ _ (by simp), ih]
  rw [encode_eq, dropped, List.rdropWhile_eq_self_iff]
  intro present
  have inside := List.getLast_mem present
  obtain ⟨val, member, same⟩ := List.mem_map.mp inside
  rw [← same]
  -- The last character written is of the alphabet, so nothing more is dropped.
  simpa using (alphabetChar_token68 val (sextets_lt bytes val member)).2.1

/-- Bytes are written as a token. -/
theorem isToken68_encode {bytes : Bytes} (present : bytes ≠ []) :
    isToken68 (encode bytes) = true := by
  -- Without its padding the text is still there: one byte already gives two characters.
  have some : (sextets bytes).map alphabetChar ≠ [] := by
    match bytes, present with
    | [_], _ | [_, _], _ | _ :: _ :: _ :: _, _ => simp [sextets]
  have written : encode bytes ≠ [] := fun none => by
    rw [encode_eq, List.append_eq_nil_iff] at none
    exact some none.1
  have all : (Utf8.encode ((sextets bytes).map alphabetChar)).all isToken68Char = true := by
    rw [List.all_eq_true]
    intro byte inside
    obtain ⟨char, member, part⟩ := Utf8.mem_encode.mp inside
    obtain ⟨val, known, rfl⟩ := List.mem_map.mp member
    have small := sextets_lt bytes val known
    -- Every character of the alphabet is one byte.
    rw [Utf8.encodeChar_ascii (value_alphabetByte val small).2.2.1, List.mem_singleton] at part
    rw [part]
    exact (alphabetChar_token68 val small).1
  simp [isToken68, encode_trimmed, written, all]
  simpa using some

/-- What is written starts and ends dark. -/
theorem encode_dark {bytes : Bytes} (present : bytes ≠ []) :
    StartsDark (encode bytes) ∧ EndsDark (encode bytes) := by
  refine dark_of_all (fun none => ?_) fun char inside => ?_
  · have token := isToken68_encode present
    rw [none] at token
    cases token
  · rw [encode_eq, List.mem_append, List.mem_map] at inside
    rcases inside with ⟨val, member, rfl⟩ | pad
    · -- Either a character of the alphabet or a sign of padding stands at the ends.
      exact (alphabetChar_token68 val (sextets_lt bytes val member)).2.2
    · rw [List.eq_of_mem_replicate pad]
      decide

/-- Of a token nothing is ignored. -/
theorem kept_of_token68 {text : Str} (token : isToken68 text = true) :
    text.filter isKept = text := by
  unfold isToken68 at token
  split at token
  · cases token
  dsimp only at token
  rw [Bool.and_eq_true] at token
  -- In front of the padding the bytes of a token are none of what is ignored.
  have plain : ∀ char ∈ [' ', '\t', '\n', '\r'], char ∉ text.rdropWhile fun char => char == '=' := by
    intro char ignored
    simp only [List.mem_cons, List.not_mem_nil, or_false] at ignored
    rcases ignored with rfl | rfl | rfl | rfl <;>
      exact not_mem_of_encode_all token.2 (by decide) (by decide)
  rw [List.filter_eq_self]
  intro char inside
  have parts : char ∈ text.rdropWhile (fun char => char == '=') ∨
      char ∈ text.rtakeWhile fun char => char == '=' := by
    rwa [← List.mem_append, List.rdropWhile_append_rtakeWhile]
  -- The front and the padding make up the token.
  rcases parts with front | back
  · by_contra ignored
    rw [Bool.not_eq_true, isKept, Bool.not_eq_false'] at ignored
    have spaced : char ∈ [' ', '\t', '\n', '\r'] := by
      simpa [isIgnored, or_assoc] using ignored
    exact plain char spaced front
  · have pad := List.mem_rtakeWhile_imp back
    rw [beq_iff_eq] at pad
    rw [pad]
    decide

end Base64

namespace BasicAuth

/-- What is accepted determines the credentials text, which encodes it. -/
theorem parse_credentials {input : Str} {auth : BasicAuth} (parsed : parse input = .ok auth) :
    credentials input =
      some (Base64.encode (Utf8.encode (auth.username ++ ':' :: auth.password))) := by
  unfold parse at parsed
  dsimp only at parsed
  split at parsed
  · cases parsed
  split at parsed
  · cases parsed
  rename_i credentials stripped
  split at parsed
  · cases parsed
  split at parsed
  · cases parsed
  rename_i token
  split at parsed
  · cases parsed
  rename_i decoded read
  split at parsed
  · cases parsed
  rename_i text encoded
  split at parsed
  · cases parsed
  rename_i username password cut
  split at parsed
  · cases parsed
  cases parsed
  -- Each step is undone: the text is cut at its colon, and the bytes are those it encodes.
  rw [Bool.not_eq_true', Bool.not_eq_false] at token
  rw [BasicAuth.credentials, stripped, ← (splitOnce_some cut).1, ← Utf8.decode_iff.mp encoded,
    ← (Base64.decode_iff _ _).mp read, Base64.kept_of_token68 token]

/-- Credentials are read back as they were written. -/
theorem parse_toHeaderValue {username password : Str} {auth : BasicAuth}
    (built : new username password = .ok auth) : parse auth.toHeaderValue = .ok auth := by
  unfold new at built
  -- What was built has no colon in its name and no control characters.
  split at built
  · cases built
  rename_i plain
  split at built
  · cases built
  rename_i visible
  cases built
  -- The written header meets each test of the parser in turn.
  have present : Utf8.encode (username ++ ':' :: password) ≠ [] := by simp
  have front : StartsDark "Basic".toList := ⟨'B', _, rfl, rfl⟩
  obtain ⟨starts, ends⟩ := Base64.encode_dark present
  have header : toHeaderValue ⟨username, password⟩ = "Basic".toList ++
      ' ' :: Base64.encode (Utf8.encode (username ++ ':' :: password)) := rfl
  have trimmed : trim (toHeaderValue ⟨username, password⟩) =
      toHeaderValue ⟨username, password⟩ :=
    ((front.append _).trim (ends.append "Basic ".toList))
  have same : eqIgnoreAsciiCase "Basic".toList "Basic".toList = true := rfl
  have stripped := stripScheme_append front same rfl starts
  rw [← header] at stripped
  have shown : (toHeaderValue ⟨username, password⟩).isEmpty = false := rfl
  -- The name has no colon, so the first colon is the one between the two.
  have colon : splitOnce ':' (username ++ ':' :: password) = some (username, password) :=
    splitOnce_append (by simpa using plain) _
  have empty : (Base64.encode (Utf8.encode (username ++ ':' :: password))).isEmpty = false := by
    obtain ⟨char, rest, written, _⟩ := starts
    rw [written]
    rfl
  simp only [parse, trimmed, shown, stripped, empty, Base64.isToken68_encode present,
    Base64.decode_encode, Utf8.decode_encode, colon, if_neg visible, Bool.not_true,
    Bool.false_eq_true, if_false]

/-- The credentials that a header is accepted for are written in it alone. -/
theorem credentials_unique {input other : Str} {auth : BasicAuth}
    (parsed : parse input = .ok auth) (again : parse other = .ok auth) :
    credentials input = credentials other := by
  rw [parse_credentials parsed, parse_credentials again]

end BasicAuth

/-- Base 64 is exact and canonical, and so are the credentials of the Basic scheme. -/
theorem base64_canonical :
    (∀ bytes, Base64.decode (Base64.encode bytes) = .ok bytes) ∧
    (∀ text bytes, Base64.decode text = .ok bytes →
      Base64.encode bytes = text.filter Base64.isKept) ∧
    (∀ text other bytes, text.all Base64.isKept = true → other.all Base64.isKept = true →
      Base64.decode text = .ok bytes → Base64.decode other = .ok bytes → text = other) ∧
    (∀ username password auth, BasicAuth.new username password = .ok auth →
      BasicAuth.parse auth.toHeaderValue = .ok auth) ∧
    (∀ header other auth, BasicAuth.parse header = .ok auth → BasicAuth.parse other = .ok auth →
      BasicAuth.credentials header = BasicAuth.credentials other) := by
  -- All parts follow from what a decoded text is: the encoding of its bytes.
  refine ⟨Base64.decode_encode, ?_, ?_, ?_, ?_⟩
  · exact fun text bytes decoded => ((Base64.decode_iff text bytes).mp decoded).symm
  · intro text other bytes plain plainOther decoded again
    rw [List.all_eq_true] at plain plainOther
    have same := (Base64.decode_iff text bytes).mp decoded
    rw [← (Base64.decode_iff other bytes).mp again, List.filter_eq_self.mpr plain,
      List.filter_eq_self.mpr plainOther] at same
    exact same
  · exact fun _ _ _ => BasicAuth.parse_toHeaderValue
  · exact fun _ _ _ => BasicAuth.credentials_unique

/-- A user whose password has a colon, and a text with white space. -/
theorem base64_canonical_colon :
    let auth : BasicAuth := ⟨"user".toList, "a:b".toList⟩
    auth.toHeaderValue = "Basic dXNlcjphOmI=".toList ∧
      BasicAuth.parse auth.toHeaderValue = .ok auth ∧
      BasicAuth.credentials "bAsIc\tdXNlcjphOmI= ".toList = BasicAuth.credentials auth.toHeaderValue ∧
      Base64.encode [0x66] = "Z g\r\n==".toList.filter Base64.isKept := by
  intro auth
  have decoded : Base64.decode "Z g\r\n==".toList = .ok [0x66] := by decide
  have parsed : BasicAuth.parse "bAsIc\tdXNlcjphOmI= ".toList = .ok auth := by decide
  have back := base64_canonical.2.2.2.1 "user".toList "a:b".toList auth (by decide)
  exact ⟨by decide, back, base64_canonical.2.2.2.2 _ _ auth parsed back,
    base64_canonical.2.1 _ _ decoded⟩

end Http11

import Http11.Error
import Http11.Lib.Iteration
import Http11.Validate

/-! The extensions of a chunk-size line. -/

namespace Http11

/-- What follows the spaces and tabs at the front. -/
def skipBws (data : Bytes) : Bytes := data.dropWhile fun byte => byte == 0x20 || byte == 0x09

/-- A byte of quoted text that needs no backslash. -/
def isQdtext (byte : UInt8) : Bool :=
  byte == 0x09 || byte == 0x20 || byte == 0x21 || (0x23 ≤ byte && byte ≤ 0x5B) ||
    (0x5D ≤ byte && byte ≤ 0x7E) || 0x80 ≤ byte

/-- What follows the closing quote, read from after the opening one. -/
def parseQuotedString : Bytes → Except Error Bytes
  | [] => .error (.invalidData "invalid chunk-ext: unterminated quoted-string")
  | byte :: rest =>
    if byte == 0x22 then .ok rest
    else if byte == 0x5C then
      match rest with
      | [] => .error (.invalidData "invalid chunk-ext: incomplete quoted-pair")
      | escaped :: rest =>
        if escaped == 0x09 || escaped == 0x20 || (0x21 ≤ escaped && escaped ≤ 0x7E) ||
            0x80 ≤ escaped then
          parseQuotedString rest
        else .error (.invalidData "invalid chunk-ext: invalid quoted-pair character")
    else if isQdtext byte then parseQuotedString rest
    else .error (.invalidData "invalid chunk-ext: invalid character in quoted-string")

/-- What follows the value of an extension, read from after its equals sign. -/
def parseChunkExtVal (data : Bytes) : Except Error Bytes :=
  match skipBws data with
  | [] => .error (.invalidData "invalid chunk-ext: missing value after '='")
  | byte :: rest =>
    if byte == 0x22 then parseQuotedString rest
    else if !isTokenChar byte then
      .error (.invalidData "invalid chunk-ext: empty or invalid value")
    else .ok (rest.dropWhile isTokenChar)

/-- What follows the name and the value of an extension, read from after its semicolon. -/
def parseChunkExt (data : Bytes) : Except Error Bytes :=
  match skipBws data with
  | [] => .error (.invalidData "invalid chunk-ext: empty or invalid name")
  | byte :: rest =>
    if !isTokenChar byte then .error (.invalidData "invalid chunk-ext: empty or invalid name")
    else match skipBws (rest.dropWhile isTokenChar) with
      | [] => .ok []
      | byte :: rest => if byte == 0x3D then parseChunkExtVal rest else .ok (byte :: rest)

/-- One pass over the extensions. -/
def validateChunkExtPass (ext : Bytes) : Bytes ⊕ Except Error Unit :=
  match skipBws ext with
  | [] => .inr (.ok ())
  | byte :: rest =>
    if byte ≠ 0x3B then .inr (.error (.invalidData "invalid chunk-ext: expected ';'"))
    else match parseChunkExt rest with
      | .ok rest => .inl rest
      | .error error => .inr (.error error)

/-- Skipping spaces drops nothing else. -/
theorem skipBws_length_le (data : Bytes) : (skipBws data).length ≤ data.length :=
  List.length_dropWhile_le _ _

/-- A quoted string is read from the front. -/
theorem parseQuotedString_length_le {data rest : Bytes} (parsed : parseQuotedString data = .ok rest) :
    rest.length ≤ data.length := by
  -- The cases follow the reader: the end, a closing quote, an escaped byte or a plain one.
  fun_induction parseQuotedString data with
  | case1 => cases parsed
  | case2 => cases parsed; simp
  | case3 => cases parsed
  | case4 byte _ _ escaped rest' _ ih =>
    have := ih parsed
    simp only [List.length_cons]
    omega
  | case5 => cases parsed
  | case6 byte rest' _ _ _ ih =>
    have := ih parsed
    simp only [List.length_cons]
    omega
  | case7 => cases parsed

/-- The value of an extension is read from the front. -/
theorem parseChunkExtVal_length_le {data rest : Bytes} (parsed : parseChunkExtVal data = .ok rest) :
    rest.length ≤ data.length := by
  have skipped := skipBws_length_le data
  simp only [parseChunkExtVal] at parsed
  -- The value is a quoted string or a token, and both are taken from the front.
  split at parsed
  · cases parsed
  · rename_i byte front found
    rw [found, List.length_cons] at skipped
    split at parsed
    · have := parseQuotedString_length_le parsed
      omega
    · split at parsed
      · cases parsed
      · cases parsed
        have := List.length_dropWhile_le isTokenChar front
        omega

/-- An extension is read from the front. -/
theorem parseChunkExt_length_le {data rest : Bytes} (parsed : parseChunkExt data = .ok rest) :
    rest.length ≤ data.length := by
  have skipped := skipBws_length_le data
  simp only [parseChunkExt] at parsed
  split at parsed
  · cases parsed
  · -- Behind the name there may be nothing, a value, or the next extension.
    rename_i byte front found
    rw [found, List.length_cons] at skipped
    split at parsed
    · cases parsed
    · have dropped := List.length_dropWhile_le isTokenChar front
      have skippedAgain := skipBws_length_le (front.dropWhile isTokenChar)
      split at parsed
      · cases parsed
        simp
      · rename_i next after foundAgain
        rw [foundAgain, List.length_cons] at skippedAgain
        split at parsed
        · have := parseChunkExtVal_length_le parsed
          omega
        · cases parsed
          simp only [List.length_cons]
          omega

/-- The loop over the extensions of a chunk-size line. -/
def chunkExtLoop : Iteration Bytes (Except Error Unit) where
  body := validateChunkExtPass
  size := List.length
  decreases := by
    intro ext next pass
    have skipped := skipBws_length_le ext
    simp only [validateChunkExtPass] at pass
    split at pass
    · cases pass
    · rename_i byte rest found
      rw [found, List.length_cons] at skipped
      split at pass
      · cases pass
      · split at pass
        · rename_i after parsed
          -- An extension has at least its semicolon.
          cases pass
          have := parseChunkExt_length_le parsed
          omega
        · cases pass

/-- The extensions of a chunk-size line, from their first semicolon on. -/
def validateChunkExt (ext : Bytes) : Except Error Unit := chunkExtLoop.run ext

end Http11

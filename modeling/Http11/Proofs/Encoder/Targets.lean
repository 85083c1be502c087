import Http11.Encoder
import Http11.Proofs.Validate

/-! Which origin-form targets a decoder accepts: those an encoder sends, unless they hold brackets. -/

namespace Http11

/-- The checks of the first byte of a target, before those of the others. -/
theorem isValidTargetBytes_cons (byte : UInt8) (rest : Bytes) :
    isValidTargetBytes (byte :: rest) =
      if byte ≤ 0x20 || byte == 0x7F then false
      else if isRfc3986Excluded byte then false
      else if byte == 0x25 then
        match rest with
        | high :: low :: rest =>
          isAsciiHexdigit high && isAsciiHexdigit low && !(high == 0x30 && low == 0x30) &&
            isValidTargetBytes rest
        | _ => false
      else isValidTargetBytes rest := by
  conv => lhs; unfold isValidTargetBytes
  rfl

/-- A byte that no percent sign takes with it separates two well-formed parts of a target. -/
theorem isValidTargetBytes_split {separator : UInt8} (plain : separator ≠ 0x25)
    (noDigit : isAsciiHexdigit separator = false) {front back : Bytes}
    (valid : isValidTargetBytes (front ++ separator :: back) = true) :
    isValidTargetBytes front = true ∧ isValidTargetBytes back = true := by
  fun_induction isValidTargetBytes front with
  | case1 =>
    rw [List.nil_append, isValidTargetBytes_cons] at valid
    split at valid
    · cases valid
    split at valid
    · cases valid
    rw [if_neg (by simpa using plain)] at valid
    exact ⟨rfl, valid⟩
  | case2 byte rest control =>
    rw [List.cons_append, isValidTargetBytes_cons, if_pos control] at valid
    cases valid
  | case3 byte rest printable excluded =>
    rw [List.cons_append, isValidTargetBytes_cons, if_neg printable, if_pos excluded] at valid
    cases valid
  | case4 byte printable allowed percent high low rest ih =>
    simp only [List.cons_append, isValidTargetBytes, if_neg printable, if_neg allowed,
      if_pos percent, Bool.and_eq_true] at valid
    obtain ⟨digits, restValid⟩ := valid
    obtain ⟨frontValid, backValid⟩ := ih restValid
    exact ⟨by simp [digits, frontValid], backValid⟩
  | case5 byte rest printable allowed percent short =>
    -- One of the two bytes after the percent sign would be the separator.
    rw [List.cons_append, isValidTargetBytes_cons, if_neg printable, if_neg allowed,
      if_pos percent] at valid
    rcases rest with _ | ⟨high, _ | ⟨low, rest⟩⟩
    · cases back with
      | nil => simp at valid
      | cons low back => simp [noDigit] at valid
    · simp [noDigit] at valid
    · exact absurd rfl (short high low rest)
  | case6 byte rest printable allowed plain ih =>
    rw [List.cons_append, isValidTargetBytes_cons, if_neg printable, if_neg allowed,
      if_neg plain] at valid
    exact ih valid

/-- The bytes of a target that are allowed in a component pass its check. -/
theorem validateChars_of_target {incomplete invalid illegal : String} {allowed : UInt8 → Bool}
    {bytes : Bytes} (valid : isValidTargetBytes bytes = true)
    (each : ∀ byte ∈ bytes, isTargetByte byte = true → byte ≠ 0x25 → allowed byte = true) :
    validateChars incomplete invalid illegal allowed bytes = .ok () := by
  fun_induction isValidTargetBytes bytes with
  | case1 => rfl
  | case2 => cases valid
  | case3 => cases valid
  | case4 byte printable plain percent high low rest ih =>
    -- Both digits were checked already, so the component goes on behind them.
    simp only [Bool.and_eq_true] at valid
    obtain ⟨⟨⟨highHex, lowHex⟩, _⟩, restValid⟩ := valid
    simp only [validateChars, if_pos percent, highHex, lowHex, Bool.not_true, Bool.or_self,
      Bool.false_eq_true, if_false]
    exact ih restValid fun other inside => each other (by simp [inside])
  | case5 => cases valid
  | case6 byte rest printable plain noPercent ih =>
    have printed : isTargetByte byte = true := by
      simp only [Bool.or_eq_true, decide_eq_true_eq, beq_iff_eq, not_or, UInt8.not_le] at printable
      simpa [isTargetByte, bne_iff_ne, plain] using printable
    have accepted := each byte (by simp) printed (by simpa using noPercent)
    unfold validateChars
    rw [if_neg noPercent, if_pos accepted]
    exact ih valid fun other inside => each other (by simp [inside])

/-- A component that passes its check holds allowed bytes, percent signs and digits only. -/
theorem validateChars_ok {incomplete invalid illegal : String} {allowed : UInt8 → Bool}
    {bytes : Bytes}
    (checked : validateChars incomplete invalid illegal allowed bytes = .ok ()) :
    ∀ byte ∈ bytes, allowed byte = true ∨ byte = 0x25 ∨ isAsciiHexdigit byte = true := by
  -- Checking follows the bytes: a percent sign with its digits, an allowed one, or the end.
  fun_induction validateChars incomplete invalid illegal allowed bytes with
  | case1 => simp
  | case2 => cases checked
  | case3 byte percent high low rest digits ih =>
    simp only [Bool.or_eq_true, Bool.not_eq_true', not_or, Bool.not_eq_false] at digits
    intro other inside
    simp only [List.mem_cons] at inside
    rcases inside with rfl | rfl | rfl | inRest
    · exact .inr (.inl (by simpa using percent))
    · exact .inr (.inr digits.1)
    · exact .inr (.inr digits.2)
    · exact ih checked other inRest
  | case4 => cases checked
  | case5 byte rest _ accepted ih =>
    intro other inside
    rcases List.mem_cons.mp inside with rfl | inRest
    · exact .inl accepted
    · exact ih checked other inRest
  | case6 => cases checked

/-- A target without brackets, which belong to an authority only. -/
def unbracketed (uri : Str) : Prop := '[' ∉ uri ∧ ']' ∉ uri

instance (uri : Str) : Decidable (unbracketed uri) := inferInstanceAs (Decidable (_ ∧ _))

/-- A component that passes its check has no brackets where none are allowed. -/
theorem unbracketed_of_validateChars {incomplete invalid illegal : String}
    {allowed : UInt8 → Bool} {text : Str}
    (checked : validateChars incomplete invalid illegal allowed (Utf8.encode text) = .ok ())
    (opening : allowed 0x5B = false) (closing : allowed 0x5D = false) : unbracketed text := by
  have each := validateChars_ok checked
  constructor
  · -- Neither bracket is allowed, and neither is a percent sign or a digit.
    intro inside
    have member : UInt8.ofNat '['.toNat ∈ Utf8.encode text :=
      (Utf8.mem_encode_ascii (by decide)).mpr inside
    have refused := each 0x5B member
    simp [opening, isAsciiHexdigit, isAsciiDigit] at refused
  · intro inside
    have member : UInt8.ofNat ']'.toNat ∈ Utf8.encode text :=
      (Utf8.mem_encode_ascii (by decide)).mpr inside
    have refused := each 0x5D member
    simp [closing, isAsciiHexdigit, isAsciiDigit] at refused

/-- A byte of a target that is neither a percent sign nor a bracket. -/
def isPlainByte (byte : UInt8) : Bool :=
  isTargetByte byte && byte ≤ 0x7E && byte != 0x25 && byte != 0x5B && byte != 0x5D

/-- What is plain belongs to a query. -/
theorem isQueryChar_of_plain : ∀ byte, isPlainByte byte = true → isQueryChar byte = true :=
  forall_byte (by decide +kernel)

/-- What is plain and no question mark belongs to a path. -/
theorem isPcharOrSlash_of_plain :
    ∀ byte, (isPlainByte byte && byte != 0x3F) = true → isPcharOrSlash byte = true :=
  forall_byte (by decide +kernel)

/-- The bytes of a target without brackets are plain, up to percent signs. -/
theorem isPlainByte_of_target {text : Str} {byte : UInt8} (inside : byte ∈ Utf8.encode text)
    (ascii : byte ≤ 0x7E) (plain : unbracketed text) (printed : isTargetByte byte = true)
    (noPercent : byte ≠ 0x25) : isPlainByte byte = true := by
  -- The byte of a bracket only comes from one.
  have notOpening : byte ≠ 0x5B := by
    rintro rfl
    exact plain.1 ((Utf8.mem_encode_ascii (by decide)).mp inside)
  have notClosing : byte ≠ 0x5D := by
    rintro rfl
    exact plain.2 ((Utf8.mem_encode_ascii (by decide)).mp inside)
  simp [isPlainByte, printed, ascii, noPercent, notOpening, notClosing]

/-- A part of a target that a sender may use. -/
structure TargetText (text : Str) : Prop where
  /-- Its bytes are well-formed. -/
  valid : isValidTargetBytes (Utf8.encode text) = true
  /-- They are ASCII. -/
  ascii : ∀ byte ∈ Utf8.encode text, byte ≤ 0x7E

/-- The characters that separate the parts of a target. -/
def isPartSeparator (char : Char) : Bool := char == '/' || char == '?' || char == ':'

/-- A separator stands between two parts of a target. -/
theorem TargetText.split {front back : Str} {separator : Char}
    (target : TargetText (front ++ separator :: back)) (separates : isPartSeparator separator = true) :
    TargetText front ∧ TargetText back := by
  obtain ⟨valid, ascii⟩ := target
  -- Each of the three separators is a single byte that is no digit.
  have single : ∃ byte, Utf8.encode [separator] = [byte] ∧ byte ≠ 0x25 ∧
      isAsciiHexdigit byte = false := by
    simp only [isPartSeparator, Bool.or_eq_true, beq_iff_eq] at separates
    rcases separates with (rfl | rfl) | rfl
    · exact ⟨0x2F, rfl, by decide, by decide⟩
    · exact ⟨0x3F, rfl, by decide, by decide⟩
    · exact ⟨0x3A, rfl, by decide, by decide⟩
  obtain ⟨byte, encoded, plain, noDigit⟩ := single
  have bytes : Utf8.encode (front ++ separator :: back) =
      Utf8.encode front ++ byte :: Utf8.encode back := by
    rw [Utf8.encode_append, ← List.singleton_append, Utf8.encode_append, encoded]
    rfl
  rw [bytes] at valid ascii
  obtain ⟨frontValid, backValid⟩ := isValidTargetBytes_split plain noDigit valid
  exact ⟨⟨frontValid, fun other inside => ascii other (by simp [inside])⟩,
    ⟨backValid, fun other inside => ascii other (by simp [inside])⟩⟩

/-- The path of a target without brackets passes its check. -/
theorem validatePathChars_of_target {path : Str} (target : TargetText path) (noQuery : '?' ∉ path)
    (plain : unbracketed path) : validatePathChars path = .ok () := by
  refine validateChars_of_target target.valid fun byte inside printed noPercent => ?_
  have notQuery : byte ≠ 0x3F := by
    rintro rfl
    exact noQuery ((Utf8.mem_encode_ascii (by decide)).mp inside)
  have plainByte := isPlainByte_of_target inside (target.ascii byte inside) plain printed noPercent
  exact isPcharOrSlash_of_plain byte (by simp [plainByte, notQuery])

/-- The query of a target without brackets passes its check. -/
theorem validateQueryChars_of_target {query : Str} (target : TargetText query)
    (plain : unbracketed query) : validateQueryChars query = .ok () :=
  validateChars_of_target target.valid fun byte inside printed noPercent =>
    isQueryChar_of_plain byte
      (isPlainByte_of_target inside (target.ascii byte inside) plain printed noPercent)

/-- The checks of a path and of the query behind it. -/
def validatePathQuery (text : Str) : Except Error Unit := do
  validatePathChars (splitQuery text).1
  match (splitQuery text).2 with
  | some query => validateQueryChars query
  | none => .ok ()

/-- A path and its query are accepted exactly when they hold no brackets. -/
theorem validatePathQuery_iff {text : Str} (target : TargetText text) :
    validatePathQuery text = .ok () ↔ unbracketed text := by
  rw [validatePathQuery, splitQuery]
  cases split : splitOnce '?' text with
  | none =>
    -- Without a question mark the whole text is the path.
    have noQuery := not_mem_of_splitOnce split
    rw [Checked.bind_ok]
    constructor
    · rintro ⟨_, checked, _⟩
      exact unbracketed_of_validateChars checked (by decide) (by decide)
    · intro plain
      exact ⟨(), validatePathChars_of_target target noQuery plain, rfl⟩
  | some parts =>
    obtain ⟨path, query⟩ := parts
    obtain ⟨rfl, noQuery⟩ := splitOnce_some split
    obtain ⟨pathTarget, queryTarget⟩ := target.split rfl
    rw [Checked.bind_ok]
    constructor
    · rintro ⟨_, pathChecked, queryChecked⟩
      -- Neither part holds brackets, and the question mark between them is none.
      have pathPlain := unbracketed_of_validateChars pathChecked (by decide)
        (by decide)
      have queryPlain := unbracketed_of_validateChars queryChecked (by decide)
        (by decide)
      simp [unbracketed, pathPlain.1, pathPlain.2, queryPlain.1, queryPlain.2]
    · intro plain
      simp only [unbracketed, List.mem_append, List.mem_cons, not_or] at plain
      obtain ⟨⟨pathOpening, _, queryOpening⟩, pathClosing, _, queryClosing⟩ := plain
      exact ⟨(), validatePathChars_of_target pathTarget noQuery ⟨pathOpening, pathClosing⟩,
        validateQueryChars_of_target queryTarget ⟨queryOpening, queryClosing⟩⟩

/-- A target that a sender may use holds no fragment. -/
theorem TargetText.fragmentless {text : Str} (target : TargetText text) : '#' ∉ text :=
  -- The number sign of a fragment is one of the excluded bytes.
  not_mem_of_encode_all (isValidTargetBytes_all target.valid) (by decide) (by decide)

/-- A target that starts with a slash is accepted exactly when it holds no brackets. -/
theorem validateOriginForm_iff {uri : Str} (valid : isValidRequestTarget uri = true)
    (ascii : ∀ byte ∈ Utf8.encode uri, byte ≤ 0x7E) (origin : uri.head? = some '/') :
    validateOriginForm uri = .ok () ↔ unbracketed uri := by
  simp only [isValidRequestTarget, Bool.and_eq_true] at valid
  have target : TargetText uri := ⟨valid.2, ascii⟩
  rw [← validatePathQuery_iff target, validateOriginForm, if_neg (by simp [origin]),
    if_neg (by simpa using target.fragmentless)]
  rfl

/-- The decoder tells a target that starts with a slash by the slash. -/
theorem parseRequestTargetForm_origin {uri : Str} (origin : uri.head? = some '/') :
    parseRequestTargetForm uri = (validateOriginForm uri).map fun _ => .origin := by
  -- The slash rules out the empty target and the asterisk, which are tested before.
  have present : uri.isEmpty = false := by cases uri <;> simp_all
  have notAsterisk : (uri == "*".toList) = false := by
    rw [beq_eq_false_iff_ne]
    rintro rfl
    simp at origin
  rw [parseRequestTargetForm, present, notAsterisk, origin]
  simp

end Http11

import Http11.ChunkGrammar
import Http11.Proofs.Decoder.FieldLine

/-! The size lines of chunks are read as their grammar says, but for the spaces behind them. -/

namespace Http11

/-- What is skipped are spaces and tabs, and none of them follows. -/
theorem skipBws_split (data : Bytes) :
    ∃ gap, IsBws gap ∧ data = gap ++ skipBws data ∧
      ∀ byte ∈ (skipBws data).head?, byte ≠ 0x20 ∧ byte ≠ 0x09 := by
  refine ⟨data.takeWhile fun byte => byte == 0x20 || byte == 0x09, ?_,
    List.takeWhile_append_dropWhile.symm, ?_⟩
  · intro byte inside
    simpa using List.mem_takeWhile_imp inside
  · intro byte first
    have kept := List.head?_dropWhile_not (fun byte : UInt8 => byte == 0x20 || byte == 0x09) data
    rw [show data.dropWhile _ = skipBws data from rfl, Option.mem_def.mp first] at kept
    simpa using kept

/-- Spaces and tabs in front are skipped. -/
theorem skipBws_append {gap : Bytes} (blank : IsBws gap) (rest : Bytes) :
    skipBws (gap ++ rest) = skipBws rest := by
  induction gap with
  | nil => rfl
  | cons byte gap ih =>
    have first := blank byte List.mem_cons_self
    rw [List.cons_append, skipBws, List.dropWhile_cons_of_pos (by simpa using first)]
    exact ih fun other inside => blank other (List.mem_cons_of_mem _ inside)

/-- Nothing is skipped in front of any other byte. -/
theorem skipBws_cons {byte : UInt8} (other : byte ≠ 0x20 ∧ byte ≠ 0x09) (rest : Bytes) :
    skipBws (byte :: rest) = byte :: rest :=
  List.dropWhile_cons_of_neg (by simpa using other)

/-- Skipping twice is skipping once. -/
theorem skipBws_skipBws (data : Bytes) : skipBws (skipBws data) = skipBws data := by
  obtain ⟨gap, blank, same, _⟩ := skipBws_split data
  rw [← skipBws_append blank, ← same]

/-- A byte of a token is no space and no tab. -/
theorem isTokenChar_notBws : ∀ byte, isTokenChar byte = true → byte ≠ 0x20 ∧ byte ≠ 0x09 :=
  forall_byte (by decide +kernel)

example : isTokenChar 0x2D = true ∧ isTokenChar 0x20 = false := by decide +kernel

/-- A quoted string is read up to its closing quote. -/
theorem parseQuotedString_iff (data rest : Bytes) :
    parseQuotedString data = .ok rest ↔
      ∃ text, IsQuotedText text ∧ data = text ++ 0x22 :: rest := by
  constructor
  · intro parsed
    -- Reading follows the text: its end, a pair behind a backslash, or a plain byte.
    fun_induction parseQuotedString data with
    | case1 | case3 | case5 | case7 => cases parsed
    | case2 byte rest' quote =>
      cases parsed
      exact ⟨[], .none, by simpa using quote⟩
    | case4 byte _ backslash escaped rest' quotable ih =>
      obtain ⟨text, quoted, rfl⟩ := ih parsed
      refine ⟨0x5C :: escaped :: text, .pair quotable quoted, ?_⟩
      simpa using backslash
    | case6 byte rest' _ _ plain ih =>
      obtain ⟨text, quoted, rfl⟩ := ih parsed
      exact ⟨byte :: text, .plain plain quoted, rfl⟩
  · rintro ⟨text, quoted, rfl⟩
    -- A generated text is read byte by byte, and no byte of it ends it early.
    induction quoted with
    | none =>
      rw [List.nil_append]
      unfold parseQuotedString
      rw [if_pos (by decide)]
    | @plain byte text plain _ ih =>
      have other : ∀ byte, isQdtext byte = true → byte ≠ 0x22 ∧ byte ≠ 0x5C :=
        forall_byte (by decide +kernel)
      obtain ⟨noQuote, noBackslash⟩ := other byte plain
      rw [List.cons_append]
      unfold parseQuotedString
      rw [if_neg (by simpa using noQuote), if_neg (by simpa using noBackslash), if_pos plain, ih]
    | @pair byte text quotable _ ih =>
      rw [List.cons_append, List.cons_append]
      unfold parseQuotedString
      rw [if_neg (by decide), if_pos (by decide)]
      exact (if_pos quotable).trans ih

/-- Behind an extension no more of it can follow: there is nothing, or the next one. -/
def EndsExtension (rest : Bytes) : Prop :=
  skipBws rest = [] ∨ ∃ more, skipBws rest = 0x3B :: more

/-- Where an extension ends, so does a token. -/
theorem EndsExtension.dropWhile {rest : Bytes} (ends : EndsExtension rest) {name : Bytes}
    (token : ∀ byte ∈ name, isTokenChar byte = true) :
    (name ++ rest).dropWhile isTokenChar = rest := by
  rw [List.dropWhile_append_of_pos token]
  cases rest with
  | nil => rfl
  | cons byte rest =>
    -- An extension ends before a space, a tab or a semicolon, and none of them is a token byte.
    refine List.dropWhile_cons_of_neg fun more => ?_
    have shown := skipBws_cons (isTokenChar_notBws byte more) rest
    rcases ends with none | ⟨_, next⟩
    · rw [shown] at none
      cases none
    · rw [shown] at next
      cases next
      revert more
      decide

/-- The value of an extension is read. -/
theorem parseChunkExtVal_some {data rest : Bytes} (parsed : parseChunkExtVal data = .ok rest) :
    ∃ right value, IsBws right ∧ IsExtValue value ∧ data = right ++ value ++ rest := by
  obtain ⟨right, blank, same, _⟩ := skipBws_split data
  unfold parseChunkExtVal at parsed
  split at parsed
  · cases parsed
  rename_i byte behind found
  rw [found] at same
  -- A quote opens a quoted string, anything else must begin a token.
  split at parsed
  · rename_i quote
    obtain ⟨text, quoted, rfl⟩ := (parseQuotedString_iff behind rest).mp parsed
    refine ⟨right, 0x22 :: (text ++ [0x22]), blank, .inr ⟨text, quoted, rfl⟩, ?_⟩
    rw [same, eq_of_beq quote]
    simp
  · split at parsed
    · cases parsed
    rename_i token
    cases parsed
    refine ⟨right, byte :: behind.takeWhile isTokenChar, blank, .inl ⟨by simp, ?_⟩, ?_⟩
    · intro other inside
      rcases List.mem_cons.mp inside with rfl | later
      · simpa using token
      · exact List.mem_takeWhile_imp later
    · rw [List.append_assoc, List.cons_append, List.takeWhile_append_dropWhile, ← same]

/-- A value is read as the value of an extension. -/
theorem parseChunkExtVal_append {right value rest : Bytes} (blank : IsBws right)
    (isValue : IsExtValue value) (ends : EndsExtension rest) :
    parseChunkExtVal (right ++ (value ++ rest)) = .ok rest := by
  rw [parseChunkExtVal, skipBws_append blank]
  -- The first byte tells the two kinds of value apart, as a quote is no token byte.
  rcases isValue with ⟨present, token⟩ | ⟨text, quoted, rfl⟩
  · cases value with
    | nil => exact absurd rfl present
    | cons byte value =>
      have first := token byte List.mem_cons_self
      have noQuote : ∀ byte, isTokenChar byte = true → (byte == 0x22) = false :=
        forall_byte (by decide +kernel)
      rw [List.cons_append, skipBws_cons (isTokenChar_notBws byte first)]
      simp only [noQuote byte first, first, Bool.not_true, Bool.false_eq_true, if_false]
      rw [ends.dropWhile fun other inside => token other (List.mem_cons_of_mem _ inside)]
  · rw [List.cons_append, skipBws_cons (by decide)]
    simp only [beq_self_eq_true, if_true]
    exact (parseQuotedString_iff _ _).mpr ⟨text, quoted, by simp⟩

/-- An extension is read, and the spaces and tabs behind a name without a value. -/
theorem parseChunkExt_some {data rest : Bytes} (parsed : parseChunkExt data = .ok rest) :
    ∃ body padding, IsExtension (0x3B :: body) ∧ IsBws padding ∧ data = body ++ padding ++ rest := by
  obtain ⟨gap, blank, same, _⟩ := skipBws_split data
  unfold parseChunkExt at parsed
  split at parsed
  · cases parsed
  rename_i byte behind found
  rw [found] at same
  split at parsed
  · cases parsed
  rename_i first
  have token : IsTokenBytes (byte :: behind.takeWhile isTokenChar) := by
    refine ⟨by simp, fun other inside => ?_⟩
    rcases List.mem_cons.mp inside with rfl | later
    · simpa using first
    · exact List.mem_takeWhile_imp later
  have whole : data = gap ++ (byte :: behind.takeWhile isTokenChar) ++
      behind.dropWhile isTokenChar := by
    rw [List.append_assoc, List.cons_append, List.takeWhile_append_dropWhile, same]
  obtain ⟨left, blankLeft, sameLeft, _⟩ := skipBws_split (behind.dropWhile isTokenChar)
  have named : IsExtension (0x3B :: (gap ++ (byte :: behind.takeWhile isTokenChar))) :=
    ⟨[], gap, _, by simp [IsBws], blank, token, .inl rfl⟩
  split at parsed
  · rename_i nothing
    cases parsed
    refine ⟨_, left, named, blankLeft, ?_⟩
    rw [nothing] at sameLeft
    rw [whole, sameLeft]
    simp
  · rename_i next after more
    rw [more] at sameLeft
    split at parsed
    · -- Behind an equals sign there is a value.
      rename_i equals
      obtain ⟨right, value, blankRight, isValue, rfl⟩ := parseChunkExtVal_some parsed
      refine ⟨gap ++ (byte :: behind.takeWhile isTokenChar) ++ (left ++ 0x3D :: (right ++ value)),
        [], ⟨[], gap, _, by simp [IsBws], blank, token, .inr
          ⟨left, right, value, blankLeft, blankRight, isValue, rfl⟩⟩, by simp [IsBws], ?_⟩
      rw [whole, sameLeft, eq_of_beq equals]
      simp
    · cases parsed
      refine ⟨_, left, named, blankLeft, ?_⟩
      rw [whole, sameLeft]
      simp

/-- A name is read, and what follows it up to an equals sign decides what is read next. -/
theorem parseChunkExt_name {gap name rest : Bytes} (blank : IsBws gap) (token : IsTokenBytes name)
    (behind : (name ++ rest).dropWhile isTokenChar = rest) :
    parseChunkExt (gap ++ name ++ rest) = match skipBws rest with
      | [] => .ok []
      | byte :: rest => if byte == 0x3D then parseChunkExtVal rest else .ok (byte :: rest) := by
  rw [List.append_assoc, parseChunkExt, skipBws_append blank]
  obtain ⟨present, chars⟩ := token
  cases name with
  | nil => exact absurd rfl present
  | cons byte name =>
    have first := chars byte List.mem_cons_self
    rw [List.cons_append, List.dropWhile_cons_of_pos first] at behind
    rw [List.cons_append, skipBws_cons (isTokenChar_notBws byte first)]
    -- Behind the name only an equals sign asks for a value.
    cases gap : skipBws rest <;>
      simp only [first, Bool.not_true, Bool.false_eq_true, if_false, behind, gap]

/-- A pass reads the extension behind a semicolon, with spaces and tabs in front. -/
theorem validateChunkExtPass_semicolon {before : Bytes} (blank : IsBws before) (behind : Bytes) :
    validateChunkExtPass (before ++ 0x3B :: behind) =
      match parseChunkExt behind with
      | .ok rest => .inl rest
      | .error error => .inr (.error error) := by
  rw [validateChunkExtPass, skipBws_append blank, skipBws_cons (by decide)]
  cases parsed : parseChunkExt behind <;>
    simp only [ne_eq, not_true_eq_false, if_false, parsed]

/-- A pass over the extensions goes on behind one of them, or behind the spaces and tabs there. -/
theorem validateChunkExtPass_append {extension rest : Bytes} (isExtension : IsExtension extension)
    (ends : EndsExtension rest) :
    validateChunkExtPass (extension ++ rest) = .inl rest ∨
      validateChunkExtPass (extension ++ rest) = .inl (skipBws rest) := by
  obtain ⟨before, gap, name, blank, blankGap, token, shape⟩ := isExtension
  -- The semicolon is found behind the spaces and tabs in front of it.
  have semicolon := validateChunkExtPass_semicolon blank
  rcases shape with rfl | ⟨left, right, value, blankLeft, blankRight, isValue, rfl⟩
  · right
    rw [List.append_assoc, List.cons_append, semicolon,
      parseChunkExt_name blankGap token (ends.dropWhile token.2)]
    rcases ends with none | ⟨more, next⟩
    · rw [none]
    · rw [next]
      rfl
  · left
    -- The name ends at a space, at a tab or at the equals sign.
    have stops : (name ++ (left ++ 0x3D :: (right ++ (value ++ rest)))).dropWhile isTokenChar =
        left ++ 0x3D :: (right ++ (value ++ rest)) := by
      rw [List.dropWhile_append_of_pos token.2]
      cases left with
      | nil => exact List.dropWhile_cons_of_neg (by decide)
      | cons byte left =>
        refine List.dropWhile_cons_of_neg fun more => ?_
        have other := isTokenChar_notBws byte more
        rcases blankLeft byte List.mem_cons_self with same | same
        · exact other.1 same
        · exact other.2 same
    have whole : before ++ 0x3B :: (gap ++ name ++ (left ++ 0x3D :: (right ++ value))) ++ rest =
        before ++ 0x3B :: (gap ++ name ++ (left ++ 0x3D :: (right ++ (value ++ rest)))) := by
      simp
    rw [whole, semicolon, parseChunkExt_name blankGap token stops, skipBws_append blankLeft,
      skipBws_cons (by decide)]
    simp only [beq_self_eq_true, if_true]
    rw [parseChunkExtVal_append blankRight isValue ends]

/-- Spaces and tabs in front of an extension belong to it. -/
theorem IsExtension.pad {extension gap : Bytes} (isExtension : IsExtension extension)
    (blank : IsBws gap) : IsExtension (gap ++ extension) := by
  obtain ⟨before, inner, name, blankBefore, blankInner, token, shape⟩ := isExtension
  refine ⟨gap ++ before, inner, name, ?_, blankInner, token, ?_⟩
  · intro byte inside
    exact (List.mem_append.mp inside).elim (blank byte) (blankBefore byte)
  · -- The shape of what stands behind the semicolon is as before.
    rcases shape with rfl | ⟨left, right, value, blankLeft, blankRight, isValue, rfl⟩
    · exact .inl (by simp)
    · exact .inr ⟨left, right, value, blankLeft, blankRight, isValue, by simp⟩

/-- Whether extensions are accepted does not depend on the spaces and tabs in front of them. -/
theorem validateChunkExt_skipBws (ext : Bytes) :
    validateChunkExt (skipBws ext) = validateChunkExt ext := by
  have pass : chunkExtLoop.body (skipBws ext) = chunkExtLoop.body ext := by
    change validateChunkExtPass (skipBws ext) = validateChunkExtPass ext
    rw [validateChunkExtPass, validateChunkExtPass, skipBws_skipBws]
  rw [validateChunkExt, validateChunkExt, chunkExtLoop.run_eq (skipBws ext), pass,
    ← chunkExtLoop.run_eq]

/-- Behind an extension there is another one, or spaces and tabs up to the end. -/
theorem endsExtension_flatten {extensions : List Bytes} {padding : Bytes}
    (each : ∀ extension ∈ extensions, IsExtension extension) (blank : IsBws padding) :
    EndsExtension (extensions.flatten ++ padding) := by
  -- The first extension, if there is one, begins with a semicolon behind its spaces.
  cases extensions with
  | nil =>
    left
    have none := skipBws_append blank []
    rwa [List.append_nil] at none
  | cons extension extensions =>
    right
    obtain ⟨before, gap, name, blankBefore, _, _, shape⟩ := each extension List.mem_cons_self
    rcases shape with rfl | ⟨left, right, value, _, _, _, rfl⟩ <;>
      rw [List.flatten_cons, List.append_assoc, List.append_assoc, List.cons_append,
        skipBws_append blankBefore, skipBws_cons (by decide)] <;>
      exact ⟨_, rfl⟩

/-- Extensions are accepted as they are generated, with any spaces and tabs behind them. -/
theorem validateChunkExt_iff (ext : Bytes) :
    validateChunkExt ext = .ok () ↔ ∃ (extensions : List Bytes) (padding : Bytes),
      (∀ extension ∈ extensions, IsExtension extension) ∧ IsBws padding ∧
      ext = extensions.flatten ++ padding := by
  constructor
  · -- Each pass of the loop is one extension.
    refine chunkExtLoop.run_rule (motive := fun ext result => result = .ok () →
      ∃ (extensions : List Bytes) (padding : Bytes),
        (∀ extension ∈ extensions, IsExtension extension) ∧ IsBws padding ∧
        ext = extensions.flatten ++ padding) ?_ ?_ ext
    · intro ext result pass accepted
      -- A pass that returns with success has found nothing but padding.
      obtain ⟨gap, blank, same, _⟩ := skipBws_split ext
      change validateChunkExtPass ext = .inr result at pass
      unfold validateChunkExtPass at pass
      split at pass
      · rename_i nothing
        rw [nothing] at same
        exact ⟨[], gap, by simp, blank, by simpa using same⟩
      · split at pass
        · cases pass
          cases accepted
        · split at pass <;> cases pass
          cases accepted
    · intro ext next result pass ih accepted
      obtain ⟨extensions, padding, each, blankPadding, rfl⟩ := ih accepted
      obtain ⟨gap, blank, same, _⟩ := skipBws_split ext
      change validateChunkExtPass ext = .inl _ at pass
      unfold validateChunkExtPass at pass
      split at pass
      · cases pass
      rename_i byte behind found
      rw [found] at same
      -- An extension begins with a semicolon.
      split at pass
      · cases pass
      rename_i semicolon
      rw [not_ne_iff] at semicolon
      split at pass
      · rename_i read
        cases pass
        obtain ⟨body, middle, isExtension, blankMiddle, rfl⟩ := parseChunkExt_some read
        have first : IsExtension (gap ++ 0x3B :: body) := isExtension.pad blank
        -- The spaces and tabs behind the extension belong to the next one, or to the end.
        cases extensions with
        | nil =>
          refine ⟨[gap ++ 0x3B :: body], middle ++ padding, by simpa using first, ?_, ?_⟩
          · intro byte inside
            exact (List.mem_append.mp inside).elim (blankMiddle byte) (blankPadding byte)
          · rw [same, semicolon]
            simp
        | cons extension extensions =>
          refine ⟨(gap ++ 0x3B :: body) :: (middle ++ extension) :: extensions, padding, ?_,
            blankPadding, ?_⟩
          · intro other inside
            rcases List.mem_cons.mp inside with rfl | inside
            · exact first
            rcases List.mem_cons.mp inside with rfl | inside
            · exact (each extension List.mem_cons_self).pad blankMiddle
            · exact each other (List.mem_cons_of_mem _ inside)
          · rw [same, semicolon]
            simp
      · cases pass
  · -- One pass for each extension, by induction on them.
    rintro ⟨extensions, padding, each, blank, rfl⟩
    induction extensions with
    | nil =>
      refine chunkExtLoop.run_of_return ?_
      have none := skipBws_append blank []
      rw [List.append_nil] at none
      change validateChunkExtPass _ = _
      rw [List.flatten_nil, List.nil_append, validateChunkExtPass, none]
      rfl
    | cons extension extensions ih =>
      have later := ih fun other inside => each other (List.mem_cons_of_mem _ inside)
      have ends : EndsExtension (extensions.flatten ++ padding) :=
        endsExtension_flatten (fun other inside => each other (List.mem_cons_of_mem _ inside)) blank
      rw [List.flatten_cons, List.append_assoc]
      rcases validateChunkExtPass_append (each extension List.mem_cons_self) ends with pass | pass
      · exact (chunkExtLoop.run_of_continue pass).trans later
      · refine (chunkExtLoop.run_of_continue pass).trans ?_
        exact (validateChunkExt_skipBws _).trans later

/-- A hexadecimal digit is an ASCII character that stands for a number below sixteen. -/
theorem isAsciiHexdigit_value : ∀ byte, isAsciiHexdigit byte = true → byte.toNat < 0x80 ∧
    (Numerals.digitValue (Char.ofNat byte.toNat)).any (· < 16) = true :=
  forall_byte (by decide +kernel)

/-- The digits of a size are read as the size, when it fits a machine word. -/
theorem IsHexSize.read {digits : Bytes} {size : Nat} (isSize : IsHexSize digits size) :
    Utf8.decode digits = .ok (digits.map fun byte => Char.ofNat byte.toNat) ∧
      ∀ number, parseHexUsize (digits.map fun byte => Char.ofNat byte.toNat) = some number ↔
        size = number ∧ size ≤ usizeMax := by
  obtain ⟨present, hex, value⟩ := isSize
  have ascii : ∀ byte ∈ digits, byte.toNat < 0x80 := fun byte inside =>
    (isAsciiHexdigit_value byte (hex byte inside)).1
  have digital : Numerals.AreDigits 16 (digits.map fun byte => Char.ofNat byte.toNat) := by
    intro char inside
    obtain ⟨byte, member, rfl⟩ := List.mem_map.mp inside
    have some := (isAsciiHexdigit_value byte (hex byte member)).2
    obtain ⟨digit, found, small⟩ := (Option.any_eq_true ..).mp some
    exact ⟨digit, by simpa using small, found⟩
  refine ⟨?_, fun number => ?_⟩
  · conv_lhs => rw [← Utf8.encode_ascii ascii]
    exact Utf8.decode_encode _
  rw [parseHexUsize, Numerals.read_iff (by omega)]
  constructor
  · rintro ⟨others, same | same, _, _, number, fits⟩
    · rw [← same, value] at number
      exact ⟨number, by omega⟩
    · -- A plus sign is no digit.
      have sign := digital '+' (by rw [same]; exact List.mem_cons_self)
      obtain ⟨_, _, found⟩ := sign
      cases Numerals.digitValue_sign.1.symm.trans found
  · rintro ⟨rfl, fits⟩
    exact ⟨_, .inl rfl, by simpa using present, digital, value, by omega⟩

/-- A digit is neither a semicolon nor a space or a tab. -/
theorem isAsciiHexdigit_other : ∀ byte, isAsciiHexdigit byte = true →
    byte ≠ 0x3B ∧ byte ≠ 0x20 ∧ byte ≠ 0x09 :=
  forall_byte (by decide +kernel)

example : isAsciiHexdigit 0x46 = true ∧ isAsciiHexdigit 0x47 = false := by decide +kernel

/-- A size alone is a size line. -/
theorem parseChunkSize_digits {limits : DecoderLimits} {digits : Bytes} {size number : Nat}
    (short : digits.length ≤ limits.maxChunkLineSize) (isSize : IsHexSize digits size) :
    parseChunkSize limits digits = .ok number ↔ size = number ∧ size ≤ usizeMax := by
  obtain ⟨decoded, read⟩ := isSize.read
  obtain ⟨present, hex, _⟩ := isSize
  -- Neither a semicolon nor anything but digits is found.
  have noExt : digits.contains 0x3B = false := by
    simpa using fun inside => (isAsciiHexdigit_other _ (hex _ inside)).1 rfl
  have whole : digits.takeWhile (fun byte => byte != 0x3B) = digits := by
    rw [List.takeWhile_eq_self_iff]
    exact fun byte inside => by simpa using (isAsciiHexdigit_other byte (hex byte inside)).1
  have all : digits.takeWhile isAsciiHexdigit = digits := List.takeWhile_eq_self_iff.mpr hex
  have none : digits.dropWhile isAsciiHexdigit = [] := List.dropWhile_eq_nil_iff.mpr hex
  rw [← read, parseChunkSize, if_neg (by omega)]
  simp only [noExt, whole, all, none, List.isEmpty_iff, present, if_false, List.isEmpty_nil,
    Bool.not_true, Bool.false_and, Bool.false_eq_true, decoded]
  cases parseHexUsize (digits.map fun byte => Char.ofNat byte.toNat) <;> simp [pure, Except.pure]

/-- Behind a size and some spaces and tabs, extensions are read from their first semicolon on. -/
theorem parseChunkSize_extended {limits : DecoderLimits} {digits gap rest : Bytes}
    {size number : Nat} (isSize : IsHexSize digits size) (blank : IsBws gap)
    (short : (digits ++ (gap ++ 0x3B :: rest)).length ≤ limits.maxChunkLineSize) :
    parseChunkSize limits (digits ++ (gap ++ 0x3B :: rest)) = .ok number ↔
      size = number ∧ size ≤ usizeMax ∧ validateChunkExt (0x3B :: rest) = .ok () := by
  obtain ⟨decoded, read⟩ := isSize.read
  obtain ⟨present, hex, _⟩ := isSize
  -- Digits and spaces are no semicolons, so the first one is that of the extensions.
  have noSemicolon : ∀ byte ∈ digits ++ gap, (byte != 0x3B) = true := by
    intro byte inside
    rcases List.mem_append.mp inside with digit | space
    · simpa using (isAsciiHexdigit_other byte (hex byte digit)).1
    · rcases blank byte space with rfl | rfl <;> decide
  -- Digits end where the spaces begin.
  have noDigit : gap.takeWhile isAsciiHexdigit = [] ∧ gap.dropWhile isAsciiHexdigit = gap := by
    cases gap with
    | nil => exact ⟨rfl, rfl⟩
    | cons byte gap =>
      have none : ¬ isAsciiHexdigit byte = true := by
        rcases blank byte List.mem_cons_self with rfl | rfl <;> decide
      exact ⟨List.takeWhile_cons_of_neg none, List.dropWhile_cons_of_neg none⟩
  have hasExt : (digits ++ (gap ++ 0x3B :: rest)).contains 0x3B = true := by simp
  have front : (digits ++ (gap ++ 0x3B :: rest)).takeWhile (fun byte => byte != 0x3B) =
      digits ++ gap := by
    rw [← List.append_assoc, List.takeWhile_append_of_pos noSemicolon,
      List.takeWhile_cons_of_neg (by decide), List.append_nil]
  have back : (digits ++ (gap ++ 0x3B :: rest)).dropWhile (fun byte => byte != 0x3B) =
      0x3B :: rest := by
    rw [← List.append_assoc, List.dropWhile_append_of_pos noSemicolon,
      List.dropWhile_cons_of_neg (by decide)]
  have leading : (digits ++ gap).takeWhile isAsciiHexdigit = digits := by
    rw [List.takeWhile_append_of_pos hex, noDigit.1, List.append_nil]
  have trailing : (digits ++ gap).dropWhile isAsciiHexdigit = gap := by
    rw [List.dropWhile_append_of_pos hex, noDigit.2]
  have spaces : (gap.all fun byte => byte == 0x20 || byte == 0x09) = true := by
    rw [List.all_eq_true]
    exact fun byte inside => by simpa using blank byte inside
  rw [← and_assoc, ← read, parseChunkSize, if_neg (by omega)]
  simp only [hasExt, front, back, leading, trailing, spaces, List.isEmpty_iff, present, if_false,
    Bool.and_self, Bool.not_true, Bool.and_false, Bool.false_eq_true, decoded, if_true]
  -- The number may be too large and the extensions may be wrong, each refused on its own.
  cases parseHexUsize (digits.map fun byte => Char.ofNat byte.toNat) with
  | none => simp
  | some found =>
    cases validateChunkExt (0x3B :: rest) <;> simp

/-- What is accepted as a size line is a size, alone or with something behind a semicolon. -/
theorem parseChunkSize_shape {limits : DecoderLimits} {line : Bytes} {size : Nat}
    (parsed : parseChunkSize limits line = .ok size) :
    ∃ digits number, IsHexSize digits number ∧
      (line = digits ∨ ∃ gap rest, IsBws gap ∧ line = digits ++ (gap ++ 0x3B :: rest)) := by
  unfold parseChunkSize at parsed
  split at parsed
  · cases parsed
  dsimp only at parsed
  split at parsed
  · cases parsed
  rename_i present
  split at parsed
  · cases parsed
  rename_i spaces
  refine ⟨(line.takeWhile fun byte => byte != 0x3B).takeWhile isAsciiHexdigit, _,
    ⟨by simpa using present, fun _ inside => List.mem_takeWhile_imp inside, rfl⟩, ?_⟩
  have front : (line.takeWhile fun byte => byte != 0x3B).takeWhile isAsciiHexdigit ++
      (line.takeWhile fun byte => byte != 0x3B).dropWhile isAsciiHexdigit =
      line.takeWhile fun byte => byte != 0x3B := List.takeWhile_append_dropWhile
  have whole : (line.takeWhile fun byte => byte != 0x3B) ++
      line.dropWhile (fun byte => byte != 0x3B) = line := List.takeWhile_append_dropWhile
  by_cases hasExt : 0x3B ∈ line
  · right
    refine ⟨(line.takeWhile fun byte => byte != 0x3B).dropWhile isAsciiHexdigit,
      (line.dropWhile fun byte => byte != 0x3B).tail, ?_, ?_⟩
    · intro byte inside
      generalize (line.takeWhile fun byte => byte != 0x3B).dropWhile isAsciiHexdigit = gap
        at spaces inside
      have present := List.ne_nil_of_mem inside
      have checked : ∀ byte ∈ gap, byte = 0x20 ∨ byte = 0x09 := by
        simpa [hasExt, present, or_iff_not_imp_left] using spaces
      exact checked byte inside
    · -- The rest starts with the first semicolon.
      cases behind : line.dropWhile (fun byte => byte != 0x3B) with
      | nil =>
        have none := List.dropWhile_eq_nil_iff.mp behind 0x3B hasExt
        cases none
      | cons byte rest =>
        have kept := List.head?_dropWhile_not (fun byte : UInt8 => byte != 0x3B) line
        rw [behind] at kept whole
        have same : byte = 0x3B := by simpa using kept
        subst same
        rw [← List.append_assoc, front, List.tail_cons, whole]
  · left
    have blank : (line.takeWhile fun byte => byte != 0x3B).dropWhile isAsciiHexdigit = [] := by
      simpa [hasExt] using spaces
    have all : line.takeWhile (fun byte => byte != 0x3B) = line := by
      rw [List.takeWhile_eq_self_iff]
      intro byte inside
      rw [bne_iff_ne]
      rintro rfl
      exact hasExt inside
    rw [blank, List.append_nil, all] at front
    rw [all, front]

/-- A size line is accepted as it is generated, maybe with spaces and tabs behind its extensions. -/
theorem parseChunkSize_iff {limits : DecoderLimits} {line : Bytes} {size : Nat}
    (short : line.length ≤ limits.maxChunkLineSize) :
    parseChunkSize limits line = .ok size ↔
      (IsSizeLine line size ∨ IsPaddedSizeLine line size) ∧ size ≤ usizeMax := by
  constructor
  · intro parsed
    obtain ⟨digits, number, isSize, rfl | ⟨gap, rest, blank, rfl⟩⟩ := parseChunkSize_shape parsed
    · obtain ⟨rfl, fits⟩ := (parseChunkSize_digits short isSize).mp parsed
      exact ⟨.inl ⟨_, [], isSize, by simp, by simp⟩, fits⟩
    · obtain ⟨rfl, fits, checked⟩ := (parseChunkSize_extended isSize blank short).mp parsed
      refine ⟨?_, fits⟩
      obtain ⟨extensions, padding, each, blankPadding, same⟩ := (validateChunkExt_iff _).mp checked
      cases extensions with
      | nil =>
        -- A semicolon is no space and no tab.
        have semicolon := blankPadding 0x3B (by
          rw [List.flatten_nil, List.nil_append] at same
          rw [← same]
          exact List.mem_cons_self)
        rcases semicolon with other | other <;> cases other
      | cons extension extensions =>
        have padded : ∀ other ∈ (gap ++ extension) :: extensions, IsExtension other := by
          intro other inside
          rcases List.mem_cons.mp inside with rfl | inside
          · exact (each extension List.mem_cons_self).pad blank
          · exact each other (List.mem_cons_of_mem _ inside)
        rw [same]
        by_cases none : padding = []
        · exact .inl ⟨digits, _, isSize, padded, by rw [none]; simp⟩
        · exact .inr ⟨digits, _, padding, isSize, padded, by simp, blankPadding, none, by simp⟩
  · rintro ⟨accepted, fits⟩
    have unified : ∃ (digits : Bytes) (extensions : List Bytes) (padding : Bytes),
        IsHexSize digits size ∧ (∀ extension ∈ extensions, IsExtension extension) ∧
        IsBws padding ∧ (extensions = [] → padding = []) ∧
        line = digits ++ extensions.flatten ++ padding := by
      rcases accepted with ⟨digits, extensions, isSize, each, rfl⟩ |
        ⟨digits, extensions, padding, isSize, each, present, blank, _, rfl⟩
      · exact ⟨digits, extensions, [], isSize, each, by simp [IsBws], fun _ => rfl, by simp⟩
      · exact ⟨digits, extensions, padding, isSize, each, blank, fun none => absurd none present,
          rfl⟩
    obtain ⟨digits, extensions, padding, isSize, each, blank, unpadded, rfl⟩ := unified
    cases extensions with
    | nil =>
      rw [unpadded rfl, List.flatten_nil, List.append_nil, List.append_nil] at short ⊢
      exact (parseChunkSize_digits short isSize).mpr ⟨rfl, fits⟩
    | cons extension extensions =>
      -- Spaces and tabs in front of the first extension stand behind the size.
      have first := each extension List.mem_cons_self
      obtain ⟨before, gap, name, blankBefore, blankGap, token, shape⟩ := first
      have split : ∃ body, extension = before ++ 0x3B :: body ∧ IsExtension (0x3B :: body) := by
        rcases shape with rfl | ⟨left, right, value, blankLeft, blankRight, isValue, rfl⟩
        · exact ⟨_, rfl, [], gap, name, by simp [IsBws], blankGap, token, .inl rfl⟩
        · exact ⟨_, rfl, [], gap, name, by simp [IsBws], blankGap, token,
            .inr ⟨left, right, value, blankLeft, blankRight, isValue, rfl⟩⟩
      obtain ⟨body, rfl, isExtension⟩ := split
      have whole : digits ++ ((before ++ 0x3B :: body) :: extensions).flatten ++ padding =
          digits ++ (before ++ 0x3B :: (body ++ extensions.flatten ++ padding)) := by simp
      rw [whole] at short ⊢
      refine (parseChunkSize_extended isSize blankBefore short).mpr ⟨rfl, fits, ?_⟩
      refine (validateChunkExt_iff _).mpr ⟨(0x3B :: body) :: extensions, padding, ?_, blank, by simp⟩
      intro other inside
      rcases List.mem_cons.mp inside with rfl | inside
      · exact isExtension
      · exact each other (List.mem_cons_of_mem _ inside)

/-- Spaces and tabs are passed over behind the extensions, and not behind the digits. -/
example : parseChunkSize .unlimited (Utf8.encode "1a;k=\"v\" ".toList) = .ok 26 ∧
    parseChunkSize .unlimited (Utf8.encode "1a ".toList) ≠ .ok 26 := by decide +kernel

/-- No extension holds a carriage return. -/
theorem IsExtension.noReturn {extension : Bytes} (isExtension : IsExtension extension) :
    extension.all noReturn = true := by
  -- Each kind of bytes that an extension is made of has no carriage return.
  have blank : ∀ {bytes : Bytes}, IsBws bytes → bytes.all Http11.noReturn = true := by
    intro bytes blank
    rw [List.all_eq_true]
    intro byte inside
    rcases blank byte inside with rfl | rfl <;> rfl
  have token : ∀ {bytes : Bytes}, IsTokenBytes bytes → bytes.all Http11.noReturn = true := by
    intro bytes token
    rw [List.all_eq_true]
    have each : ∀ byte, isTokenChar byte = true → Http11.noReturn byte = true :=
      forall_byte (by decide +kernel)
    exact fun byte inside => each byte (token.2 byte inside)
  have quoted : ∀ {bytes : Bytes}, IsQuotedText bytes → bytes.all Http11.noReturn = true := by
    intro bytes quoted
    have plainByte : ∀ byte, isQdtext byte = true → Http11.noReturn byte = true :=
      forall_byte (by decide +kernel)
    have pairByte : ∀ byte, isQuotable byte = true → Http11.noReturn byte = true :=
      forall_byte (by decide +kernel)
    induction quoted with
    | none => rfl
    | plain plain _ ih => rw [List.all_cons, plainByte _ plain, ih, Bool.and_self]
    | pair quotable _ ih =>
      rw [List.all_cons, List.all_cons, pairByte _ quotable, ih]
      rfl
  obtain ⟨before, gap, name, blankBefore, blankGap, isName, shape⟩ := isExtension
  -- An extension ends with its name or with its value.
  rcases shape with rfl | ⟨left, right, value, blankLeft, blankRight, isValue, rfl⟩
  · simp only [List.all_append, List.all_cons, blank blankBefore, blank blankGap, token isName]
    rfl
  · have value : value.all Http11.noReturn = true := by
      rcases isValue with isToken | ⟨text, isText, rfl⟩
      · exact token isToken
      · simp only [List.all_append, List.all_cons, quoted isText]
        rfl
    simp only [List.all_append, List.all_cons, blank blankBefore, blank blankGap, token isName,
      blank blankLeft, blank blankRight, value]
    rfl

/-- No line end interrupts a size line, with or without spaces and tabs behind it. -/
theorem isLine_of_size {line : Bytes} {size : Nat}
    (isSize : IsSizeLine line size ∨ IsPaddedSizeLine line size) : IsLine line := by
  -- Digits, extensions and padding are checked one after the other.
  have digital : ∀ {digits : Bytes} {size : Nat}, IsHexSize digits size →
      digits.all noReturn = true := by
    intro digits size isSize
    rw [List.all_eq_true]
    have each : ∀ byte, isAsciiHexdigit byte = true → noReturn byte = true :=
      forall_byte (by decide +kernel)
    exact fun byte inside => each byte (isSize.2.1 byte inside)
  have extended : ∀ {extensions : List Bytes},
      (∀ extension ∈ extensions, IsExtension extension) →
        extensions.flatten.all noReturn = true := by
    intro extensions each
    rw [List.all_flatten, List.all_eq_true]
    exact fun extension inside => (each extension inside).noReturn
  refine isLine_of_noReturn ?_
  rcases isSize with ⟨digits, extensions, isSize, each, rfl⟩ |
    ⟨digits, extensions, padding, isSize, each, _, blank, _, rfl⟩
  · rw [List.all_append, digital isSize, extended each, Bool.and_self]
  · have spaces : padding.all noReturn = true := by
      rw [List.all_eq_true]
      intro byte inside
      rcases blank byte inside with rfl | rfl <;> rfl
    rw [List.all_append, List.all_append, digital isSize, extended each, spaces]
    rfl

/-- A byte at the end of something that no space and no tab follows. -/
def EndsSolid (bytes : Bytes) : Prop :=
  ∃ front byte, bytes = front ++ [byte] ∧ byte ≠ 0x20 ∧ byte ≠ 0x09

/-- What stands in front does not change the end. -/
theorem EndsSolid.append {bytes : Bytes} (ends : EndsSolid bytes) (front : Bytes) :
    EndsSolid (front ++ bytes) := by
  obtain ⟨before, byte, rfl, other⟩ := ends
  exact ⟨front ++ before, byte, by simp, other⟩

/-- Bytes none of which is a space or a tab end with one of them. -/
theorem endsSolid_of_forall {bytes : Bytes} (present : bytes ≠ [])
    (solid : ∀ byte ∈ bytes, byte ≠ 0x20 ∧ byte ≠ 0x09) : EndsSolid bytes :=
  ⟨bytes.dropLast, bytes.getLast present, (List.dropLast_append_getLast present).symm,
    solid _ (List.getLast_mem present)⟩

/-- A token ends with one of its bytes. -/
theorem IsTokenBytes.endsSolid {bytes : Bytes} (token : IsTokenBytes bytes) : EndsSolid bytes :=
  endsSolid_of_forall token.1 fun byte inside => isTokenChar_notBws byte (token.2 byte inside)

/-- An extension ends with its name or its value. -/
theorem IsExtension.endsSolid {extension : Bytes} (isExtension : IsExtension extension) :
    EndsSolid extension := by
  obtain ⟨before, gap, name, _, _, isName, rfl | ⟨left, right, value, _, _, isValue, rfl⟩⟩ :=
    -- A name is a token, and a token has no spaces.
    isExtension
  · have ends := isName.endsSolid.append (before ++ 0x3B :: gap)
    simpa using ends
  · have solid : EndsSolid value := by
      -- A value is a token too, or ends with its quote.
      rcases isValue with isToken | ⟨text, _, rfl⟩
      · exact isToken.endsSolid
      · exact ⟨0x22 :: text, 0x22, rfl, by decide⟩
    have ends := solid.append (before ++ 0x3B :: (gap ++ name ++ (left ++ 0x3D :: right)))
    simpa using ends

/-- A size line that is generated does not end with spaces or tabs. -/
theorem IsSizeLine.endsSolid {line : Bytes} {size : Nat} (isSize : IsSizeLine line size) :
    EndsSolid line := by
  obtain ⟨digits, extensions, ⟨present, hex, _⟩, each, rfl⟩ := isSize
  -- The last extension decides, and without any the digits do.
  rcases List.eq_nil_or_concat extensions with rfl | ⟨front, last, rfl⟩
  · rw [List.flatten_nil, List.append_nil]
    exact endsSolid_of_forall present fun byte inside =>
      (isAsciiHexdigit_other byte (hex byte inside)).2
  · have ends := (each last (by simp)).endsSolid.append (digits ++ front.flatten)
    simpa using ends

/-- A size line with spaces or tabs behind its extensions is not generated. -/
theorem IsPaddedSizeLine.not_isSizeLine {line : Bytes} {size other : Nat}
    (padded : IsPaddedSizeLine line size) : ¬ IsSizeLine line other := by
  intro isSize
  obtain ⟨front, byte, same, solid⟩ := isSize.endsSolid
  obtain ⟨digits, extensions, padding, _, _, _, blank, present, rfl⟩ := padded
  rw [← List.dropLast_append_getLast present, ← List.append_assoc] at same
  obtain ⟨_, last⟩ := List.append_inj' same rfl
  rw [List.cons.injEq] at last
  -- Padding ends with a space or a tab, which a generated line never does.
  rcases blank _ (List.getLast_mem present) with space | tab
  · exact solid.1 (last.1 ▸ space)
  · exact solid.2 (last.1 ▸ tab)

end Http11

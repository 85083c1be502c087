import Http11.AuthGrammar
import Http11.Proofs.Positions

/-! The reader of authentication parameters accepts what the grammar generates. -/

namespace Http11

/-- Spaces and tabs are the characters of their bytes. -/
theorem isOwsByte_narrow : IsNarrow isOwsByte false :=
  forall_byte (by decide +kernel)

/-- No byte of a token belongs to a character past ASCII. -/
theorem isTokenChar_high : IsNarrow isTokenChar false :=
  forall_byte (by decide +kernel)

/-- A byte of a value without quotes, which ends at white space or a comma. -/
def isValueByte (byte : UInt8) : Bool := !isOwsByte byte && byte != 0x2C

/-- All characters past ASCII may stand in a value, as far as its end is concerned. -/
theorem isValueByte_narrow : IsNarrow isValueByte true :=
  forall_byte (by decide +kernel)

/-- An ASCII character is one of the first one hundred and twenty-eight. -/
theorem forall_ascii {motive : Char → Prop}
    (checked : ∀ value < 128, motive (Char.ofNat value)) {char : Char}
    (ascii : char.toNat < 0x80) : motive char := by
  have same := checked char.toNat ascii
  rwa [Char.ofNat_toNat] at same

/-- Two kinds of characters are the same if they are so in ASCII and past it. -/
theorem ofKind_eq {kind : UInt8 → Bool} {wide : Bool} (narrow : IsNarrow kind wide)
    (allowed : Char → Bool)
    (checked : ∀ value < 128, kind (UInt8.ofNat value) = allowed (Char.ofNat value))
    (high : ∀ char : Char, 0x80 ≤ char.toNat → allowed char = wide) : ofKind kind = allowed := by
  funext char
  by_cases ascii : char.toNat < 0x80
  · have same := checked char.toNat ascii
    rw [Char.ofNat_toNat] at same
    rw [ofKind_ascii kind ascii, same]
  · rw [narrow.ofKind (by omega), high char (by omega)]

/-- A character past ASCII differs from one in it. -/
theorem ne_of_high {char other : Char} (high : 0x80 ≤ char.toNat) (ascii : other.toNat < 0x80) :
    char ≠ other := by
  intro same
  rw [same] at high
  omega

/-- Spaces and tabs are told by their bytes. -/
theorem ofKind_ows : ofKind isOwsByte = isOws := by
  refine ofKind_eq isOwsByte_narrow isOws (by decide) fun char high => ?_
  simp [isOws, ne_of_high high (show ' '.toNat < 0x80 by decide),
    ne_of_high high (show '\t'.toNat < 0x80 by decide)]

/-- A character of a value without quotes. -/
def isValueChar (char : Char) : Bool := !isOws char && char != ','

/-- Characters of values are told by their bytes. -/
theorem ofKind_value : ofKind isValueByte = isValueChar := by
  refine ofKind_eq isValueByte_narrow isValueChar (by decide) fun char high => ?_
  simp [isValueChar, isOws, ne_of_high high (show ' '.toNat < 0x80 by decide),
    ne_of_high high (show '\t'.toNat < 0x80 by decide),
    ne_of_high high (show ','.toNat < 0x80 by decide)]

/-- A character of a token. -/
def isTchar (char : Char) : Bool := ofKind isTokenChar char

/-- A token has characters, all of them of tokens. -/
theorem isToken_iff (text : Str) :
    isToken text = true ↔ text ≠ [] ∧ ∀ char ∈ text, isTchar char = true := by
  rw [isToken, encode_all, Bool.and_eq_true, List.all_eq_true]
  simp [isTchar]

/-- Characters of tokens are ASCII. -/
theorem isTchar_ascii {char : Char} (tchar : isTchar char = true) : char.toNat < 0x80 := by
  by_contra high
  rw [isTchar, isTokenChar_high.ofKind (by omega)] at tchar
  cases tchar

/-- Characters of tokens are no white space and none of the delimiters. -/
theorem isTchar_plain {char : Char} (tchar : isTchar char = true) :
    isOws char = false ∧ isValueChar char = true ∧ char ≠ ',' ∧ char ≠ '=' ∧ char ≠ '"' := by
  have ascii := isTchar_ascii tchar
  rw [isTchar, ofKind_ascii _ ascii] at tchar
  revert tchar
  exact forall_ascii (motive := fun char => isTokenChar (UInt8.ofNat char.toNat) = true →
    isOws char = false ∧ isValueChar char = true ∧ char ≠ ',' ∧ char ≠ '=' ∧ char ≠ '"')
    (by decide) ascii

/-- The value of quoted text, its part up to the closing quote, and what follows. -/
def readQuoted : Str → Option (Str × Str × Str)
  | [] => none
  | char :: rest =>
    if char == '"' then some ([], ['"'], rest)
    else if char == '\\' then
      match rest with
      | [] => none
      | next :: rest =>
        if !isQuotedPairChar next then none
        else (readQuoted rest).map fun (value, shown, rest) =>
          (next :: value, '\\' :: next :: shown, rest)
    else if !isQdtextChar char then none
    else (readQuoted rest).map fun (value, shown, rest) => (char :: value, char :: shown, rest)

/-- The scanner of quoted text counts the bytes of what it reads. -/
theorem scanQuoted_eq (value : Str) (consumed : Nat) (inner : Str) :
    scanQuoted value consumed inner = match readQuoted inner with
      | none => .error .invalidParameter
      | some (read, shown, _) => .ok (value ++ read, consumed + byteLength shown) := by
  -- Each character is consumed with its own width.
  fun_induction readQuoted inner generalizing value consumed with
  | case1 => rfl
  | case2 char rest quote =>
    unfold scanQuoted
    rw [if_pos quote]
    simp only [List.append_nil]
    rfl
  | case3 char other escape =>
    rw [scanQuoted, if_neg other, if_pos escape]
  | case4 char other escape next rest refused =>
    rw [scanQuoted, if_neg other, if_pos escape]
    simp only [if_pos refused]
  | case5 char other escape next rest allowed ih =>
    rw [scanQuoted, if_neg other, if_pos escape]
    simp only [if_neg allowed, ih]
    have one : byteLength ['\\'] = 1 := rfl
    cases readQuoted rest with
    | none => rfl
    | some found =>
      simp only [Option.map_some, List.append_assoc, List.singleton_append, byteLength_cons,
        show '\\'.utf8Size = 1 from rfl, Nat.add_assoc]
  | case6 char rest other plain refused =>
    unfold scanQuoted
    rw [if_neg other, if_neg plain, if_pos refused]
  | case7 char rest other plain allowed ih =>
    unfold scanQuoted
    rw [if_neg other, if_neg plain, if_neg allowed, ih]
    cases readQuoted rest with
    | none => rfl
    | some found =>
      simp only [Option.map_some, List.append_assoc, List.singleton_append, byteLength_cons,
        Nat.add_assoc]

/-- Quoted text is read exactly where the grammar has it in front of a quote. -/
theorem readQuoted_iff (inner value shown rest : Str) :
    readQuoted inner = some (value, shown, rest) ↔
      ∃ text, IsQuoted text value ∧ shown = text ++ ['"'] ∧ inner = shown ++ rest := by
  constructor
  · intro read
    fun_induction readQuoted inner generalizing value shown with
    | case1 => cases read
    | case2 char after quote =>
      cases read
      rw [beq_iff_eq] at quote
      exact ⟨[], .none, rfl, by rw [quote]; rfl⟩
    | case3 | case4 | case6 => cases read
    | case5 char other escape next after allowed ih =>
      -- A character behind a backslash.
      rw [Option.map_eq_some_iff] at read
      obtain ⟨⟨more, part, left⟩, found, same⟩ := read
      cases same
      obtain ⟨text, quoted, rfl, rfl⟩ := ih more part found
      rw [beq_iff_eq] at escape
      refine ⟨'\\' :: next :: text, .pair (by simpa using allowed) quoted, rfl, ?_⟩
      rw [escape]
      rfl
    | case7 char after other plain allowed ih =>
      rw [Option.map_eq_some_iff] at read
      obtain ⟨⟨more, part, left⟩, found, same⟩ := read
      cases same
      obtain ⟨text, quoted, rfl, rfl⟩ := ih more part found
      exact ⟨char :: text, .plain (by simpa using allowed) quoted, rfl, rfl⟩
  · intro generated
    obtain ⟨text, quoted, rfl, rfl⟩ := generated
    -- The induction is on the derivation: the reader takes one step for each rule.
    induction quoted with
    | none =>
      unfold readQuoted
      rfl
    | @plain char text value plain more ih =>
      have quote : ¬ (char == '"') = true := fun same => by
        rw [beq_iff_eq] at same
        rw [same] at plain
        exact absurd plain (by decide)
      have escape : ¬ (char == '\\') = true := fun same => by
        rw [beq_iff_eq] at same
        rw [same] at plain
        exact absurd plain (by decide)
      rw [List.cons_append, List.cons_append]
      unfold readQuoted
      rw [if_neg quote, if_neg escape, if_neg (by simpa using plain), ih]
      rfl
    | @pair char text value quotable more ih =>
      rw [List.cons_append, List.cons_append, List.cons_append, List.cons_append]
      unfold readQuoted
      rw [if_neg (by decide), if_pos (by decide)]
      simp only [quotable, Bool.not_true, Bool.false_eq_true, if_false, ih]
      rfl

/-- The value in front of a text, and what follows it. -/
def readValue : Str → Option (Str × Str)
  | [] => none
  | char :: rest =>
    if char = '"' then (readQuoted rest).map fun (value, _, rest) => (value, rest)
    else
      let token := (char :: rest).takeWhile isValueChar
      if isToken token then some (token, (char :: rest).dropWhile isValueChar) else none

/-- The scanner of values reads what stands at its position, and never cuts a character. -/
theorem scanValue_at {input back : Str} {i : Nat} (here : At input i back) (present : back ≠ []) :
    match readValue back with
    | none => scanValue input i = some (.error .invalidParameter)
    | some (value, rest) => ∃ stop, scanValue input i = some (.ok (value, stop)) ∧
        At input stop rest := by
  obtain ⟨char, rest, rfl⟩ := List.exists_cons_of_ne_nil present
  unfold scanValue readValue
  dsimp only
  have first := here.byte_iff (show '"'.toNat < 0x80 by decide)
  by_cases quote : char = '"'
  · -- The text behind the opening quote is scanned by characters.
    rw [quote] at here first
    have found := first.mpr ⟨rest, rfl⟩
    have inner := here.next (by decide)
    simp only [if_pos quote, if_pos (show (Utf8.encode input)[i]? = some 0x22 from found),
      inner.sliceFrom, scanQuoted_eq]
    cases read : readQuoted rest with
    | none => rfl
    | some found =>
      obtain ⟨value, shown, after⟩ := found
      obtain ⟨_, _, _, whole⟩ := (readQuoted_iff _ _ _ _).mp read
      rw [whole] at inner
      refine ⟨i + 1 + byteLength shown, ?_, inner.forward⟩
      simp [Except.map]
  · have other : ¬ (Utf8.encode input)[i]? = some 0x22 := fun found => by
      obtain ⟨_, same⟩ := first.mp found
      exact quote (List.cons.inj same).1
    have cut := here.slice_skip isValueByte_narrow
    have behind := here.skipped isValueByte_narrow
    rw [ofKind_value] at cut behind
    have kind : (fun byte : UInt8 => !isOwsByte byte && byte != 0x2C) = isValueByte := rfl
    simp only [if_neg quote, if_neg other, kind, cut, isValidToken]
    by_cases token : isToken ((char :: rest).takeWhile isValueChar) = true
    · have some := ((isToken_iff _).mp token).1
      rw [if_pos token]
      refine ⟨_, ?_, behind⟩
      simp [token, some]
    · rw [if_neg token]
      simp [token]

/-- The parameter in front of a text, and what follows it. -/
def readParam (back : Str) : Option ((Str × Str) × Str) :=
  let name := back.takeWhile isTchar
  if name.isEmpty then none
  else match (back.dropWhile isTchar).dropWhile isOws with
    | '=' :: rest =>
      (readValue (rest.dropWhile isOws)).map fun (value, rest) => ((name, value), rest)
    | _ => none

/-- The scanner of parameters reads what stands at its position, and never cuts a character. -/
theorem scanParam_at {input back : Str} {i : Nat} (here : At input i back) :
    match readParam back with
    | none => scanParam input i = some (.error .invalidParameter)
    | some (param, rest) => ∃ stop, scanParam input i = some (.ok (param, stop)) ∧
        At input stop rest := by
  have named := here.slice_skip isTokenChar_high
  have length := here.skip isTokenChar_high
  have behind := (here.skipped isTokenChar_high).skipped isOwsByte_narrow
  have tchars : ofKind isTokenChar = isTchar := rfl
  rw [tchars] at named length behind
  rw [ofKind_ows] at behind
  unfold scanParam readParam
  dsimp only
  by_cases empty : back.takeWhile isTchar = []
  · -- Without a name the position stays.
    have same : skipWhile isTokenChar (Utf8.encode input) i = i := by
      rw [length, empty]
      rfl
    rw [if_pos same, empty]
    rfl
  · have moved : ¬ skipWhile isTokenChar (Utf8.encode input) i = i := by
      rw [length]
      intro same
      have none : byteLength (back.takeWhile isTchar) = 0 := by omega
      rw [byteLength, List.length_eq_zero_iff, Utf8.encode_eq_nil] at none
      exact empty none
    have some : (back.takeWhile isTchar).isEmpty = false := by simpa using empty
    simp only [if_neg moved, named, some, Bool.false_eq_true, if_false]
    have equals := behind.byte_iff (show '='.toNat < 0x80 by decide)
    generalize skipWhile isOwsByte (Utf8.encode input)
      (skipWhile isTokenChar (Utf8.encode input) i) = gap at behind equals ⊢
    generalize (back.dropWhile isTchar).dropWhile isOws = after at behind equals ⊢
    by_cases sign : ∃ rest, after = '=' :: rest
    · -- Behind the equals sign a value must follow.
      have found : (Utf8.encode input)[gap]? = Option.some 0x3D := equals.mpr sign
      obtain ⟨rest, rfl⟩ := sign
      have value := (behind.next (by decide)).skipped isOwsByte_narrow
      rw [ofKind_ows] at value
      rw [if_neg (not_not_intro found)]
      by_cases nothing : rest.dropWhile isOws = []
      · rw [if_pos (value.ends_iff.mpr nothing)]
        simp only [nothing, readValue, Option.map_none]
      · rw [if_neg (fun ended => nothing (value.ends_iff.mp ended))]
        have scanned := scanValue_at value nothing
        cases read : readValue (rest.dropWhile isOws) with
        | none =>
          rw [read] at scanned
          dsimp only at scanned
          simp only [scanned, read]
          rfl
        | some pair =>
          obtain ⟨text, left⟩ := pair
          rw [read] at scanned
          obtain ⟨stop, scanned, there⟩ := scanned
          simp only [scanned, read]
          exact ⟨stop, rfl, there⟩
    · have missing : ¬ (Utf8.encode input)[gap]? = Option.some 0x3D := fun found =>
        sign (equals.mp found)
      rw [if_pos missing]
      split
      · rfl
      · rename_i found
        split at found
        · exact absurd ⟨_, rfl⟩ sign
        · cases found

/-- What follows an element: nothing at the end, or what stands behind a comma. -/
def behindElement (rest : Str) : Option Str :=
  match rest.dropWhile isOws with
  | [] => some []
  | char :: rest => if char = ',' then some rest else none

/-- A comma stands where its byte does. -/
theorem At.comma_iff {input back : Str} {i : Nat} (here : At input i back) :
    (Utf8.encode input)[i]? = some 0x2C ↔ ∃ rest, back = ',' :: rest :=
  here.byte_iff (show ','.toNat < 0x80 by decide)

/-- A pass over an empty element goes on behind its comma, or ends the loop. -/
theorem parseAuthParamsPass_empty {input back left : Str} {i : Nat} (params : AuthParams)
    (here : At input i back) (comma : back.dropWhile isOws = ',' :: left) :
    ∃ next, parseAuthParamsPass input i params = .inl (next, params) ∧ At input next left := by
  -- There is a comma, so the input has not ended.
  have present : ¬ (Utf8.encode input).length ≤ i := fun ended => by
    rw [here.ends_iff.mp ended] at comma
    cases comma
  -- The same byte is found behind the white space in the bytes of the input.
  have there := here.skipped isOwsByte_narrow
  rw [ofKind_ows, comma] at there
  have found := there.comma_iff.mpr ⟨left, rfl⟩
  refine ⟨_, ?_, there.next (by decide)⟩
  unfold parseAuthParamsPass
  dsimp only
  rw [if_neg present, if_pos found]

/-- Where only spaces and tabs are left the loop ends. -/
theorem parseAuthParamsPass_done {input back : Str} {i : Nat} {params : AuthParams}
    (here : At input i back) (ends : back.dropWhile isOws = []) :
    parseAuthParamsPass input i params = .inr (some (finishParams params)) := by
  have there := here.skipped isOwsByte_narrow
  -- The pass skips white space a second time, and finds the end there.
  have again := there.skipped isOwsByte_narrow
  rw [ofKind_ows, ends] at there again
  -- No comma is left to be found.
  have other : ¬ (Utf8.encode input)[skipWhile isOwsByte (Utf8.encode input) i]? = some 0x2C := by
    intro found
    obtain ⟨rest, same⟩ := there.comma_iff.mp found
    cases same
  unfold parseAuthParamsPass
  dsimp only
  by_cases present : (Utf8.encode input).length ≤ i
  · rw [if_pos present]
  · rw [if_neg present, if_neg other, if_pos (again.ends_iff.mpr rfl)]

/-- A pass over an element that is not empty reads its parameter and what separates it. -/
theorem parseAuthParamsPass_param {input back : Str} {i : Nat} (params : AuthParams)
    (here : At input i back) (present : back.dropWhile isOws ≠ [])
    (filled : ∀ left, back.dropWhile isOws ≠ ',' :: left) :
    match readParam (back.dropWhile isOws) with
    | none => parseAuthParamsPass input i params = .inr (some (.error .invalidParameter))
    | some ((name, value), rest) =>
      match addParam params name value with
      | .error error => parseAuthParamsPass input i params = .inr (some (.error error))
      | .ok more =>
        match behindElement rest with
        | none => parseAuthParamsPass input i params = .inr (some (.error .invalidParameter))
        | some left => ∃ next, parseAuthParamsPass input i params = .inl (next, more) ∧
            At input next left := by
  have there := here.skipped isOwsByte_narrow
  have again := there.skipped isOwsByte_narrow
  rw [ofKind_ows] at there again
  -- The second search for white space finds none.
  rw [List.dropWhile_idempotent] at again
  have other : ¬ (Utf8.encode input)[skipWhile isOwsByte (Utf8.encode input) i]? = some 0x2C := by
    intro found
    obtain ⟨left, same⟩ := there.comma_iff.mp found
    exact filled left same
  have inside : ¬ (Utf8.encode input).length ≤ i := fun ended => by
    rw [here.ends_iff.mp ended] at present
    exact present rfl
  have behind : ¬ (Utf8.encode input).length ≤ skipWhile isOwsByte (Utf8.encode input)
      (skipWhile isOwsByte (Utf8.encode input) i) := fun ended => present (again.ends_iff.mp ended)
  have scanned := scanParam_at again
  have unfolded := parseAuthParamsPass.eq_def input i params
  dsimp only at unfolded
  rw [if_neg inside, if_neg other, if_neg behind] at unfolded
  rw [unfolded]
  cases read : readParam (back.dropWhile isOws) with
  | none =>
    rw [read] at scanned
    dsimp only at scanned
    simp only [scanned]
  | some param =>
    obtain ⟨⟨name, value⟩, rest⟩ := param
    rw [read] at scanned
    obtain ⟨stop, scanned, at_stop⟩ := scanned
    simp only [scanned]
    cases addParam params name value with
    | error error => rfl
    | ok more =>
      dsimp only
      -- What follows the parameter is looked at behind its white space.
      have gap := at_stop.skipped isOwsByte_narrow
      rw [ofKind_ows] at gap
      have comma := gap.comma_iff
      unfold behindElement
      cases after : rest.dropWhile isOws with
      | nil =>
        rw [after] at gap
        rw [if_pos (gap.ends_iff.mpr rfl)]
        exact ⟨_, rfl, gap⟩
      | cons char left =>
        rw [after] at gap comma
        rw [if_neg fun ended => by cases gap.ends_iff.mp ended]
        dsimp only
        by_cases separated : char = ','
        · rw [separated] at gap
          rw [if_pos separated, if_pos (comma.mpr ⟨left, by rw [separated]⟩)]
          exact ⟨_, rfl, gap.next (by decide)⟩
        · rw [if_neg separated, if_neg fun found => ?_]
          obtain ⟨_, same⟩ := comma.mp found
          exact separated (List.cons.inj same).1

end Http11

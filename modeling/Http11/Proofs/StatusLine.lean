import Http11.Proofs.Decoder.Heads
import Http11.Proofs.Decoder.Lines
import Http11.Proofs.Validate
import Http11.StatusLine

/-! Status lines are read by their grammar, but for the ways in which numbers can be written. -/

namespace Http11

/-- A version is valid when it is one. -/
theorem isValidProtocolVersion_iff (version : Str) :
    isValidProtocolVersion version = true ↔ IsVersion version := by
  unfold isValidProtocolVersion
  constructor
  · intro valid
    cases slash : splitOnce '/' version with
    | none => simp [slash] at valid
    | some parts =>
      obtain ⟨name, afterSlash⟩ := parts
      cases dot : splitOnce '.' afterSlash with
      | none => simp [slash, dot] at valid
      | some numbers =>
        obtain ⟨major, minor⟩ := numbers
        simp only [slash, dot, Bool.and_eq_true] at valid
        obtain ⟨⟨present, token⟩, ⟨⟨majorPresent, major'⟩, minorPresent⟩, minor'⟩ := valid
        refine ⟨name, major, minor, ?_, ?_, ?_, ?_⟩
        · rw [isToken, present, token]
          rfl
        · rw [isDigits_iff, majorPresent, major']
          rfl
        · rw [isDigits_iff, minorPresent, minor']
          rfl
        · rw [(splitOnce_some slash).1, (splitOnce_some dot).1]
  · rintro ⟨name, major, minor, token, majorDigits, minorDigits, rfl⟩
    -- The slash and the dot are the first ones, since what stands before them has none.
    have named : '/' ∉ name := by
      simp only [isToken, Bool.and_eq_true] at token
      exact not_mem_of_encode_all token.2 (by decide) (by decide)
    have dotted : '.' ∉ major := by
      intro inside
      have digit := majorDigits.2 _ inside
      revert digit
      decide
    rw [splitOnce_append named]
    dsimp only
    rw [splitOnce_append dotted]
    rw [isDigits_iff] at majorDigits minorDigits
    rw [isToken] at token
    simp only [Bool.and_eq_true] at token majorDigits minorDigits ⊢
    exact ⟨token, ⟨⟨majorDigits, minorDigits.1⟩, minorDigits.2⟩⟩

/-- A byte of a reason phrase is one of a field value. -/
theorem isReasonByte_iff (byte : UInt8) : IsReasonByte byte ↔ isValidFieldVchar byte = true := by
  simp only [IsReasonByte, isValidFieldVchar, Bool.or_eq_true, Bool.and_eq_true, beq_iff_eq,
    decide_eq_true_eq, or_assoc]

/-- A status code is read when three digits stand behind nothing but zeros and a plus sign. -/
theorem parseU16_status {status : Str} {code : Nat} :
    parseU16 status = some code ∧ isValidStatusCode code = true ↔
      ∃ pad digits zeros, status = pad ++ digits ∧ (∀ char ∈ zeros, char = '0') ∧
        (pad = zeros ∨ pad = '+' :: zeros) ∧
        (digits.length = 3 ∧ ∀ char ∈ digits, char.isDigit = true) ∧
        (100 ≤ Numerals.value 10 digits ∧ Numerals.value 10 digits ≤ 599) ∧
        Numerals.value 10 digits = code := by
  rw [parseU16, Numerals.read_iff (by decide)]
  simp only [isValidStatusCode, Bool.and_eq_true, decide_eq_true_eq]
  constructor
  · rintro ⟨⟨digits, signed, _, decimal, rfl, _⟩, low, high⟩
    -- A number of three digits is all but the zeros in front of it.
    obtain ⟨zeros, front, rfl, blank, three, inside, same⟩ :=
      Numerals.digits_split (by decide) decimal (show 10 ^ 2 ≤ _ by omega) (by omega)
    rw [← same] at low high
    rw [areDigits_iff] at inside
    rcases signed with rfl | rfl
    · exact ⟨zeros, front, zeros, rfl, blank, .inl rfl, ⟨three, inside⟩, ⟨low, high⟩, same⟩
    · exact ⟨'+' :: zeros, front, zeros, rfl, blank, .inr rfl, ⟨three, inside⟩, ⟨low, high⟩, same⟩
  · -- Zeros in front change no value, and neither does a plus sign.
    rintro ⟨pad, digits, zeros, rfl, blank, padded, ⟨three, inside⟩, ⟨low, high⟩, rfl⟩
    have all : ∀ char ∈ zeros ++ digits, char.isDigit = true := by
      intro char member
      rcases List.mem_append.mp member with zero | digit
      · rw [blank char zero]
        rfl
      · exact inside char digit
    -- Three digits are there in any case.
    have present : zeros ++ digits ≠ [] := by
      intro empty
      rw [(List.append_eq_nil_iff.mp empty).2] at three
      cases three
    refine ⟨⟨zeros ++ digits, ?_, present, (areDigits_iff _).mpr all, Numerals.value_zeros 10 blank _,
      le_trans high (by decide)⟩, low, high⟩
    rcases padded with rfl | rfl
    · exact .inl rfl
    · exact .inr rfl

/-- What may stand behind the words of a status line that are always there. -/
theorem StatusWords.parts {text version status digits reason : Str}
    (words : StatusWords text version status digits reason) (plain : ' ' ∉ status) :
    (splitn 3 ' ' text = [version, status] ∧ reason = []) ∨
      splitn 3 ' ' text = [version, status, reason] := by
  have versionPlain : ' ' ∉ version := not_mem_of_plain _ (by decide)
    (isValidProtocolVersion_plain ((isValidProtocolVersion_iff _).mpr words.versioned)).2
  -- Without a second space there is no reason at all.
  rcases words.line with ⟨rfl, absent⟩ | rfl
  · left
    refine ⟨?_, absent⟩
    rw [splitn, splitOnce_append versionPlain]
    simp [splitn, splitOnce_none plain]
  · -- With one the reason is what stands behind it, whatever it is.
    right
    rw [splitn, splitOnce_append versionPlain]
    simp only
    rw [splitn, splitOnce_append plain]
    rfl

/-- A padded number is made of digits and plus signs. -/
theorem status_plain {pad digits zeros : Str} (blank : ∀ char ∈ zeros, char = '0')
    (padded : pad = zeros ∨ pad = '+' :: zeros) (decimal : ∀ char ∈ digits, char.isDigit = true) :
    ∀ char ∈ pad ++ digits, char = '+' ∨ char.isDigit = true := by
  intro char inside
  -- A zero is a digit.
  have zero : char ∈ zeros → char.isDigit = true := by
    intro member
    rw [blank char member]
    rfl
  rcases List.mem_append.mp inside with front | back
  · rcases padded with rfl | rfl
    · exact .inr (zero front)
    · rcases List.mem_cons.mp front with rfl | member
      · exact .inl rfl
      · exact .inr (zero member)
  · exact .inr (decimal char back)

/-- No separator is a digit or a plus sign. -/
theorem not_mem_status {status : Str} (char : Char)
    (plain : ∀ other ∈ status, other = '+' ∨ other.isDigit = true) (sign : char ≠ '+')
    (letter : char.isDigit = false) : char ∉ status := by
  intro inside
  rcases plain char inside with same | digit
  · exact sign same
  · rw [letter] at digit
    cases digit

/-- The words of a status line hold no line ends. -/
theorem StatusWords.plain {text version status digits reason : Str}
    (words : StatusWords text version status digits reason)
    (plain : ∀ other ∈ status, other = '+' ∨ other.isDigit = true) :
    '\r' ∉ text ∧ '\n' ∉ text := by
  have versionPlain := (isValidProtocolVersion_plain
    ((isValidProtocolVersion_iff _).mpr words.versioned)).2
  have printed : (Utf8.encode reason).all isValidFieldVchar = true :=
    List.all_eq_true.mpr fun byte inside =>
      (isReasonByte_iff byte).mp (words.printable byte inside)
  have reasonPlain := vchars_plain printed
  -- Neither line end is a character of any of the three words.
  have each : ∀ char, isSeparator char = true → char ≠ ' ' → char ≠ '+' →
      char.isDigit = false → char ∉ reason → char ∉ text := by
    intro char separator space sign letter last inside
    have front := not_mem_of_plain char separator versionPlain
    have middle := not_mem_status char plain sign letter
    rcases words.line with ⟨rfl, _⟩ | rfl
    · simp [front, middle, space] at inside
    · simp [front, middle, space, last] at inside
  exact ⟨each _ (by decide) (by decide) (by decide) (by decide) reasonPlain.1,
    each _ (by decide) (by decide) (by decide) (by decide) reasonPlain.2⟩

namespace ResponseDecoder

/-- A line that splits at its first two spaces is made of the parts and those spaces. -/
theorem splitn_status {text version status : Str} {reason : List Str}
    (parts : splitn 3 ' ' text = version :: status :: reason) :
    (text = version ++ ' ' :: status ∧ reason = []) ∨
      ∃ phrase, reason = [phrase] ∧ text = version ++ ' ' :: (status ++ ' ' :: phrase) := by
  simp only [splitn] at parts
  -- The first space ends the version.
  cases first : splitOnce ' ' text with
  | none => simp [first] at parts
  | some pair =>
    obtain ⟨front, back⟩ := pair
    obtain ⟨rfl, _⟩ := splitOnce_some first
    simp only [first] at parts
    cases second : splitOnce ' ' back with
    -- Without a second space there are two parts.
    | none =>
      simp only [second, List.cons.injEq] at parts
      obtain ⟨rfl, rfl, rfl⟩ := parts
      exact .inl ⟨rfl, rfl⟩
    -- With it there are three, and the third keeps its spaces.
    | some pair =>
      obtain ⟨middle, phrase⟩ := pair
      obtain ⟨rfl, _⟩ := splitOnce_some second
      simp only [second, List.cons.injEq] at parts
      obtain ⟨rfl, rfl, rfl⟩ := parts
      exact .inr ⟨phrase, rfl, rfl⟩

/-- A line is accepted when it is a status line, but for what stands before its digits. -/
theorem checkStartLine_iff (text : Str) :
    checkStartLine text = .ok () ↔ ∃ version pad digits reason zeros,
      (∀ char ∈ zeros, char = '0') ∧ (pad = zeros ∨ pad = '+' :: zeros) ∧
      StatusWords text version (pad ++ digits) digits reason := by
  constructor
  · intro checked
    unfold checkStartLine at checked
    split at checked
    · cases checked
    split at checked
    · rename_i version status reason parts
      rw [Checked.bind_ok] at checked
      obtain ⟨_, valid, checked⟩ := checked
      rw [Checked.reject_ok, Bool.not_eq_false', isValidProtocolVersion_iff] at valid
      cases parsed : parseU16 status with
      | none => simp [parsed] at checked
      | some code =>
        simp only [parsed, Checked.bind_ok, Checked.reject_ok, Bool.not_eq_false'] at checked
        obtain ⟨_, inRange, printed⟩ := checked
        obtain ⟨pad, digits, zeros, rfl, blank, padded, three, range, _⟩ :=
          parseU16_status.mp ⟨parsed, inRange⟩
        -- A reason phrase that is there is printable, and an empty one is as good as none.
        rcases splitn_status parts with ⟨rfl, rfl⟩ | ⟨phrase, rfl, rfl⟩
        · exact ⟨version, pad, digits, [], zeros, blank, padded,
            ⟨valid, three, range, by simp, .inl ⟨rfl, rfl⟩⟩⟩
        · refine ⟨version, pad, digits, phrase, zeros, blank, padded,
            ⟨valid, three, range, fun byte inside => ?_, .inr rfl⟩⟩
          rw [isReasonByte_iff]
          simp only [List.head?_cons, Option.any_some, Bool.and_eq_false_iff,
            Bool.not_eq_false', isValidReasonPhrase, List.isEmpty_iff] at printed
          rcases printed with rfl | valid
          · cases inside
          · exact List.all_eq_true.mp (Bool.and_eq_true .. |>.mp valid).2 byte inside
    · cases checked
  · rintro ⟨version, pad, digits, reason, zeros, blank, padded, words⟩
    have plain := status_plain blank padded words.three.2
    have spaceless := not_mem_status ' ' plain (by decide) (by decide)
    obtain ⟨noReturn, noFeed⟩ := words.plain plain
    obtain ⟨parsed, inRange⟩ := parseU16_status.mpr
      ⟨pad, digits, zeros, rfl, blank, padded, words.three, words.range, rfl⟩
    have valid := (isValidProtocolVersion_iff _).mpr words.versioned
    have printable : (Utf8.encode reason).all isValidFieldVchar = true :=
      List.all_eq_true.mpr fun byte inside =>
        (isReasonByte_iff byte).mp (words.printable byte inside)
    unfold checkStartLine
    rw [if_neg (by simp [noReturn, noFeed])]
    rcases words.parts spaceless with ⟨parts, rfl⟩ | parts <;>
      simp only [parts, valid, parsed, inRange, Checked.reject, Bind.bind, Except.bind] <;>
      simp [isValidReasonPhrase, printable]

/-- Behind a start line, its text is kept until the head that is made of it is handed out. -/
theorem decodeHeaders_text (core : Core (Option Str)) :
    ∀ text, core.phase = .headers → core.startLine = some text →
      (∀ head bodyKind, (core.decodeHeaders side).1 = .ok (some (head, bodyKind)) →
        ∃ fields, finishHead core.limits core.context text fields = .ok (head, bodyKind)) ∧
      ((∀ decoded, (core.decodeHeaders side).1 ≠ .ok (some decoded)) →
        (core.decodeHeaders side).2.phase = .headers ∧
        (core.decodeHeaders side).2.startLine = some text) := by
  refine (Core.decodeHeadersLoop side).run_rule
    (motive := fun core result => ∀ text, core.phase = .headers → core.startLine = some text →
      (∀ head bodyKind, result.1 = .ok (some (head, bodyKind)) →
        ∃ fields, finishHead core.limits core.context text fields = .ok (head, bodyKind)) ∧
      ((∀ decoded, result.1 ≠ .ok (some decoded)) →
        result.2.phase = .headers ∧ result.2.startLine = some text)) ?_ ?_ core
  · rintro core ⟨outcome, next⟩ pass text phase started
    rcases Core.decodeHeadersPass_returned pass with ⟨_, _, same⟩ |
      ⟨_, ends, line, rest, _, read⟩ | ⟨other, _⟩
    · cases same
      exact ⟨fun _ _ same => (by cases same), fun _ => ⟨phase, started⟩⟩
    · cases outcome with
      | error error =>
        refine ⟨fun _ _ same => (by cases same), fun _ => ?_⟩
        -- A refused line leaves everything but the buffer as it was.
        rcases Core.headLine_cases side core line rest with ⟨_, _, refused⟩ | ⟨_, _, refused⟩ |
          ⟨_, _, _, accepted⟩
        · rw [refused] at read
          cases read
          exact ⟨phase, started⟩
        · rw [refused] at read
          cases read
          exact ⟨phase, started⟩
        · rw [accepted] at read
          cases read
      | ok decoded =>
        rcases Core.headLine_ok read with ⟨_, rfl, _⟩ | ⟨_, _, head, bodyKind, rfl, finished⟩ |
          ⟨_, _, rfl, _⟩
        · exact absurd rfl ends
        · obtain ⟨startLine, same, built, _⟩ := Core.finishHeaders_ok finished
          rw [started] at same
          cases same
          refine ⟨fun head bodyKind same => ?_, fun none => absurd rfl (none _)⟩
          cases same
          exact ⟨_, built⟩
        · exact absurd rfl ends
    · rw [phase] at other
      cases other
  · intro core next result pass ih text phase started
    rcases Core.decodeHeadersPass_continued pass with ⟨_, line, rest, _, read⟩ | ⟨done, _⟩
    · rcases Core.headLine_ok read with ⟨first, _⟩ | ⟨_, _, _, _, same, _⟩ | ⟨_, _, _, accepted⟩
      · rw [phase] at first
        cases first
      · cases same
      · -- A header line changes neither what is remembered of the start line nor the phase.
        obtain ⟨_, field, _, _, _, _, rfl⟩ := Core.readHeaderLine_ok accepted
        exact ih text phase started
    · rw [phase] at done
      cases done

/-- While no head is handed out, the start line is remembered. -/
theorem Waits.kept {start later : ResponseDecoder} {text : Str} (waits : start.Waits later)
    (phase : start.phase = .headers) (started : start.startLine = some text) :
    later.phase = .headers ∧ later.startLine = some text := by
  induction waits with
  | start => exact ⟨phase, started⟩
  | @feed decoder data _ ih =>
    -- Feeding changes the buffer alone.
    rcases decoder.feed_cases data with same | ⟨_, same⟩ <;> rw [same] <;> exact ih
  | @decodeHeaders decoder _ vain ih =>
    -- A call in vain leaves the line as it was.
    exact (decodeHeaders_text decoder.toCore text ih.1 ih.2).2 vain
  | setRequestMethod method _ ih => exact ih

/-- The head that is made of a status line has its words. -/
theorem finishHead_words {limits : DecoderLimits} {requestMethod : Option Str}
    {text version status digits reason : Str} {headers : Headers} {head : ResponseHead}
    {bodyKind : BodyKind}
    (finished : finishHead limits requestMethod text headers = .ok (head, bodyKind))
    (words : StatusWords text version status digits reason) (spaceless : ' ' ∉ status) :
    head.version = version ∧ parseU16 status = some head.statusCode ∧
      head.reasonPhrase = reason := by
  obtain ⟨statusCode, kept, parsed, _, rfl⟩ := finishHead_ok finished
  rcases words.parts spaceless with ⟨parts, absent⟩ | parts
  · rw [parts] at parsed ⊢
    exact ⟨rfl, parsed, absent.symm⟩
  · rw [parts] at parsed ⊢
    exact ⟨rfl, parsed, rfl⟩

/-- The status of a padded line is not one of a status line. -/
theorem not_isStatusLine_padded {text version digits reason : Str} (padded : IsPadded text) :
    ¬ IsStatusLine text version digits reason := by
  rintro words
  obtain ⟨otherVersion, pad, others, otherReason, zeros, blank, signed, present, otherWords⟩ :=
    padded
  have spaceless := not_mem_status ' ' (fun char inside => .inr (words.three.2 char inside))
    (by decide) (by decide)
  have otherSpaceless := not_mem_status ' ' (status_plain blank signed otherWords.three.2)
    (by decide) (by decide)
  -- Both statuses stand between the first two spaces, but one of them is longer.
  have same : digits = pad ++ others := by
    rcases words.parts spaceless with ⟨parts, _⟩ | parts <;>
      rcases otherWords.parts otherSpaceless with ⟨otherParts, _⟩ | otherParts <;>
      rw [parts] at otherParts <;> simp at otherParts
    · exact otherParts.2
    · exact otherParts.2.1
  have longer := congrArg List.length same
  rw [List.length_append, words.three.1, otherWords.three.1] at longer
  exact present (List.length_eq_zero_iff.mp (by omega))

/-- A line is read by the grammar unless a plus sign or zeros stand in front of its digits. -/
theorem readsStatusLine_iff {line : Bytes} (plain : IsLine line) :
    ReadsStatusLine line ↔ ¬ ∃ text, lineText line = .ok text ∧ IsPadded text := by
  constructor
  · rintro reads ⟨text, decoded, padded⟩
    -- A fresh decoder accepts the line, which is no status line.
    let decoder : ResponseDecoder := { limits := {}, context := none, buf := line ++ crlf }
    have accepted : decoder.decodeHeaders.1 = .ok none ↔
        ∃ text, lineText line = .ok text ∧ checkStartLine text = .ok () :=
      (Core.decodeHeaders_startLine side decoder.toCore plain rfl rfl).1
    have fromGrammar := (reads decoder rfl rfl).1
    have notGrammar : ∀ version digits reason, ¬ IsStatusLine text version digits reason :=
      fun _ _ _ => not_isStatusLine_padded padded
    obtain ⟨version, pad, digits, reason, zeros, blank, signed, _, words⟩ := padded
    have checked : checkStartLine text = .ok () :=
      (checkStartLine_iff text).mpr ⟨version, pad, digits, reason, zeros, blank, signed, words⟩
    obtain ⟨_, _, _, _, same, isStatusLine⟩ :=
      fromGrammar.mp (accepted.mpr ⟨text, decoded, checked⟩)
    rw [decoded] at same
    cases same
    exact notGrammar _ _ _ isStatusLine
  · intro unpadded decoder phase buf
    obtain ⟨accepted, kept⟩ := Core.decodeHeaders_startLine side decoder.toCore plain phase buf
    have grammar : (∃ text, lineText line = .ok text ∧ checkStartLine text = .ok ()) ↔
        ∃ text version digits reason, lineText line = .ok text ∧
          IsStatusLine text version digits reason := by
      constructor
      · rintro ⟨text, decoded, checked⟩
        obtain ⟨version, pad, digits, reason, zeros, blank, signed, words⟩ :=
          (checkStartLine_iff text).mp checked
        have none : pad = [] := by
          by_contra present
          exact unpadded ⟨text, decoded, version, pad, digits, reason, zeros, blank, signed,
            present, words⟩
        subst none
        exact ⟨text, version, digits, reason, decoded, words⟩
      · rintro ⟨text, version, digits, reason, decoded, words⟩
        exact ⟨text, decoded, (checkStartLine_iff text).mpr
          ⟨version, [], digits, reason, [], by simp, .inl rfl, words⟩⟩
    refine ⟨accepted.trans grammar, ?_⟩
    intro read later waits head bodyKind found
    obtain ⟨text, decoded, headers, started⟩ := kept read
    obtain ⟨other, version, digits, reason, same, words⟩ :=
      grammar.mp (accepted.mp read)
    rw [decoded] at same
    cases same
    have remembered := waits.kept headers started
    obtain ⟨fields, finished⟩ :=
      (decodeHeaders_text later.toCore text remembered.1 remembered.2).1 head bodyKind found
    have spaceless := not_mem_status ' ' (fun char inside => .inr (words.three.2 char inside))
      (by decide) (by decide)
    obtain ⟨rfl, parsed, rfl⟩ := finishHead_words finished words spaceless
    obtain ⟨value, _⟩ := parseU16_status.mpr ⟨[], digits, [], rfl, by simp, .inl rfl,
      words.three, words.range, rfl⟩
    rw [List.nil_append, parsed, Option.some.injEq] at value
    exact ⟨text, digits, decoded, words, value⟩

/-- A line whose status is three digits is read by the grammar. -/
theorem readsStatusLine_ok : ReadsStatusLine (Utf8.encode "HTTP/1.1 200 OK".toList) := by
  refine (readsStatusLine_iff (by unfold IsLine; decide)).mpr ?_
  rintro ⟨text, decoded, version, pad, digits, reason, zeros, blank, signed, present, words⟩
  have same : text = "HTTP/1.1 200 OK".toList := by
    have read : lineText (Utf8.encode "HTTP/1.1 200 OK".toList) = .ok "HTTP/1.1 200 OK".toList := by
      decide
    rw [read] at decoded
    exact (Except.ok.inj decoded).symm
  subst same
  have split : splitn 3 ' ' "HTTP/1.1 200 OK".toList =
      ["HTTP/1.1".toList, "200".toList, "OK".toList] := by decide
  have spaceless := not_mem_status ' ' (status_plain blank signed words.three.2)
    (by decide) (by decide)
  -- Three characters are three digits, and leave none in front of them.
  have status : "200".toList = pad ++ digits := by
    rcases words.parts spaceless with ⟨parts, _⟩ | parts <;>
      rw [split] at parts <;> simp only [List.cons.injEq, reduceCtorEq, and_false] at parts
    exact parts.2.1
  have longer := congrArg List.length status
  rw [List.length_append, words.three.1] at longer
  exact present (List.length_eq_zero_iff.mp (by simpa using longer))

/-- A line with a plus sign in front of its status code is accepted, though it is none. -/
theorem readsStatusLine_plus : ¬ ReadsStatusLine (Utf8.encode "HTTP/1.1 +200 OK".toList) := by
  intro reads
  have read : lineText (Utf8.encode "HTTP/1.1 +200 OK".toList) = .ok "HTTP/1.1 +200 OK".toList := by
    decide
  let decoder : ResponseDecoder :=
    { limits := {}, context := none, buf := Utf8.encode "HTTP/1.1 +200 OK".toList ++ crlf }
  -- The decoder reads past the line, so it has accepted it.
  have accepted : decoder.decodeHeaders.1 = .ok none := by decide
  obtain ⟨text, version, digits, reason, decoded, words⟩ := (reads decoder rfl rfl).1.mp accepted
  rw [read] at decoded
  cases decoded
  have split : splitn 3 ' ' "HTTP/1.1 +200 OK".toList =
      ["HTTP/1.1".toList, "+200".toList, "OK".toList] := by decide
  have spaceless := not_mem_status ' ' (fun char inside => .inr (words.three.2 char inside))
    (by decide) (by decide)
  -- The status is the second word, and it has a sign in it.
  have status : "+200".toList = digits := by
    rcases words.parts spaceless with ⟨parts, _⟩ | parts <;>
      rw [split] at parts <;> simp only [List.cons.injEq, reduceCtorEq, and_false] at parts
    exact parts.2.1
  -- A status code has three characters, this word has four.
  have longer := congrArg List.length status
  rw [words.three.1] at longer
  simp at longer

end ResponseDecoder

end Http11

import Http11.Form
import Http11.Proofs.Multipart.Fragments

/-! A parser of forms accepts exactly the forms of the grammar, in any fragments, with their parts. -/

namespace Http11

/-- A delimiter line that goes on is padding and a line end. -/
theorem lineEnd_line {text behind : Bytes} : lineEnd text = .line behind ↔
    ∃ padding, IsTransportPadding padding ∧ text = padding ++ (crlf ++ behind) := by
  constructor
  · intro ended
    -- The padding is what the line begins with.
    refine ⟨text.takeWhile isTransportPadding, fun byte inside => List.mem_takeWhile_imp inside, ?_⟩
    have whole := List.takeWhile_append_dropWhile (p := isTransportPadding) (l := text)
    unfold lineEnd at ended
    split at ended
    · rename_i first second rest left
      split at ended
      · rename_i line
        cases ended
        rw [left] at whole
        rw [← line]
        exact whole.symm
      · split at ended <;> cases ended
    · cases ended
  · rintro ⟨padding, padded, rfl⟩
    rw [lineEnd_padding padded]
    rfl

/-- A delimiter line that is the last one is padding and two hyphens. -/
theorem lineEnd_last {text : Bytes} : lineEnd text = .last ↔
    ∃ padding behind, IsTransportPadding padding ∧ text = padding ++ (hyphens ++ behind) := by
  constructor
  · intro ended
    have whole := List.takeWhile_append_dropWhile (p := isTransportPadding) (l := text)
    unfold lineEnd at ended
    -- The padding is all that could be passed over, and two bytes are left behind it.
    split at ended
    · rename_i first second rest left
      split at ended
      · cases ended
      · split at ended
        · rename_i last
          refine ⟨text.takeWhile isTransportPadding, rest,
            fun byte inside => List.mem_takeWhile_imp inside, ?_⟩
          rw [left] at whole
          rw [← last]
          exact whole.symm
        · cases ended
    · cases ended
  · -- Reading stops at the hyphens, which are no padding.
    rintro ⟨padding, behind, padded, rfl⟩
    rw [lineEnd_padding padded]
    rfl

namespace FormReader

variable {boundary : Str} {reader next : FormReader} {all : List Part}

/-- What is left is the rest of a form, and with the parts read so far it has these parts. -/
def Completes (boundary : Str) (reader : FormReader) (all : List Part) : Prop :=
  ∃ parts, all = reader.parts ++ parts ∧ match reader.phase with
    | .preamble => IsForm boundary reader.rest parts
    | .part => ∃ part behind others, IsPart boundary reader.rest part behind ∧
        IsFormRest boundary behind others ∧ parts = part :: others
    | .behindPart => IsFormRest boundary reader.rest parts
    | .closed => parts = []
    | .refused _ => False

/-- Behind a delimiter there is the rest of a form where reading its line comes to one. -/
theorem endLine_completes (text : Bytes) :
    (∃ parts, all = reader.parts ++ parts ∧ IsFormRest boundary text parts) ↔
      ∃ next, reader.endLine text = some next ∧ next.Completes boundary all := by
  unfold endLine
  constructor
  · rintro ⟨parts, whole, rest⟩
    -- The line ends as the rest of the form says.
    cases rest with
    | @last padding behind padded =>
      have ended := lineEnd_last.mpr ⟨padding, behind, padded, rfl⟩
      rw [ended]
      exact ⟨_, rfl, [], whole, rfl⟩
    | @part padding inner behind part others padded content rest =>
      have ended : lineEnd (padding ++ (crlf ++ inner)) = .line inner :=
        lineEnd_line.mpr ⟨padding, padded, rfl⟩
      rw [ended]
      exact ⟨_, rfl, _, whole, part, behind, others, content, rest, rfl⟩
  · rintro ⟨next, ended, parts, whole, completes⟩
    -- The rest of the form is what the end of the line tells.
    cases line : lineEnd text with
    | waiting =>
      rw [line] at ended
      cases ended
    | line behind =>
      rw [line] at ended
      cases ended
      obtain ⟨padding, padded, rfl⟩ := lineEnd_line.mp line
      obtain ⟨part, behind, others, content, rest, rfl⟩ := completes
      exact ⟨_, whole, .part padded content rest⟩
    | last =>
      rw [line] at ended
      cases ended
      obtain ⟨padding, behind, padded, rfl⟩ := lineEnd_last.mp line
      cases completes
      exact ⟨_, whole, .last padded⟩
    -- A refused reader completes no form.
    | wrong =>
      rw [line] at ended
      cases ended
      exact completes.elim

/-- A part and the rest of a form are left where reading the part comes to such a rest. -/
theorem endPart_completes (phase : reader.phase = .part) :
    reader.Completes boundary all ↔
      ∃ next, reader.endPart boundary = some next ∧ next.Completes boundary all := by
  unfold endPart
  constructor
  · rintro ⟨parts, whole, completes⟩
    rw [phase] at completes
    obtain ⟨part, behind, others, ⟨header, make, body, lines, read, rfl, clear, text⟩, rest, rfl⟩ :=
      completes
    -- The header lines and the body end where they are split.
    have first := (Searching.splitFirst_iff_clear headerEnd_present).mpr ⟨lines, text⟩
    have second : Splitting.splitFirst (delimiter boundary) (body ++ (delimiter boundary ++ behind)) =
        some (body, behind) :=
      (Searching.splitFirst_iff_clear (delimiter_present boundary)).mpr ⟨clear, rfl⟩
    rw [first]
    dsimp only
    rw [read]
    dsimp only
    rw [second]
    refine ⟨_, rfl, others, ?_, rest⟩
    rw [whole, List.append_assoc]
    rfl
  · rintro ⟨next, ended, parts, whole, completes⟩
    cases first : Splitting.splitFirst (crlf ++ crlf) reader.rest with
    | none =>
      rw [first] at ended
      cases ended
    | some found =>
      obtain ⟨header, text⟩ := found
      rw [first] at ended
      dsimp only at ended
      cases read : parsePartHeaders header with
      | error error =>
        rw [read] at ended
        cases ended
        exact completes.elim
      | ok make =>
        rw [read] at ended
        dsimp only at ended
        cases second : Splitting.splitFirst (delimiter boundary) text with
        | none =>
          rw [second] at ended
          cases ended
        | some found =>
          obtain ⟨body, behind⟩ := found
          rw [second] at ended
          cases ended
          obtain ⟨lines, text⟩ := (Searching.splitFirst_iff_clear headerEnd_present).mp first
          obtain ⟨clear, rfl⟩ := (Searching.splitFirst_iff_clear (delimiter_present boundary)).mp second
          refine ⟨make body :: parts, ?_, ?_⟩
          · rw [whole, List.append_assoc]
            rfl
          · rw [phase]
            exact ⟨make body, behind, parts, ⟨header, make, body, lines, read, rfl, clear, text⟩,
              completes, rfl⟩

/-- A form is left where a step comes to the rest of one, or nothing behind the last delimiter. -/
theorem completes_iff : reader.Completes boundary all ↔
    (∃ next, reader.step boundary = some next ∧ next.Completes boundary all) ∨
      reader.phase = .closed ∧ all = reader.parts := by
  -- The only phase with no step that completes a form is the closed one.
  cases phase : reader.phase with
  | preamble =>
    refine Iff.trans ?_ (or_iff_left (by rintro ⟨closed, _⟩; cases closed)).symm
    unfold step Completes
    rw [phase]
    dsimp only
    constructor
    · -- The preamble is clear of the boundary, so the boundary is found first behind it.
      rintro ⟨parts, whole, preamble, text, clear, input, rest⟩
      have found := (Searching.splitFirst_iff_clear (dashBoundary_present boundary)).mpr
        ⟨clear, input⟩
      rw [found]
      exact (endLine_completes text).mp ⟨parts, whole, rest⟩
    · rintro ⟨next, stepped, completes⟩
      cases found : Splitting.splitFirst (dashBoundary boundary) reader.rest with
      | none =>
        rw [found] at stepped
        cases stepped
      | some split =>
        obtain ⟨preamble, text⟩ := split
        rw [found] at stepped
        obtain ⟨clear, input⟩ := (Searching.splitFirst_iff_clear
          (dashBoundary_present boundary)).mp found
        obtain ⟨parts, whole, rest⟩ := (endLine_completes text).mpr ⟨next, stepped, completes⟩
        exact ⟨parts, whole, preamble, text, clear, input, rest⟩
  | part =>
    -- Within a part the step is the one of its lemma.
    refine Iff.trans ?_ (or_iff_left (by rintro ⟨closed, _⟩; cases closed)).symm
    have same : reader.step boundary = reader.endPart boundary := by rw [step, phase]
    rw [same]
    exact endPart_completes phase
  | behindPart =>
    refine Iff.trans ?_ (or_iff_left (by rintro ⟨closed, _⟩; cases closed)).symm
    have same : reader.step boundary = reader.endLine reader.rest := by rw [step, phase]
    rw [same]
    refine Iff.trans ?_ (endLine_completes reader.rest)
    unfold Completes
    rw [phase]
  -- Nothing more is read behind the last delimiter: no part is missing.
  | closed =>
    have settled : reader.step boundary = none := by rw [step, phase]
    unfold Completes
    rw [phase, settled]
    constructor
    · rintro ⟨parts, whole, rfl⟩
      exact .inr ⟨rfl, by rw [whole, List.append_nil]⟩
    · rintro (⟨next, none, _⟩ | ⟨_, whole⟩)
      · cases none
      · exact ⟨[], by rw [whole, List.append_nil], rfl⟩
  -- A refused reader has no step and completes nothing.
  | refused error =>
    have settled : reader.step boundary = none := by rw [step, phase]
    unfold Completes
    rw [phase, settled]
    constructor
    · rintro ⟨parts, whole, nothing⟩
      exact nothing.elim
    · rintro (⟨next, none, _⟩ | ⟨other, _⟩)
      · cases none
      · cases other

/-- Every step keeps what parts the form has. -/
theorem reaches_completes (reached : (machine boundary).Reaches reader next) :
    reader.Completes boundary all ↔ next.Completes boundary all := by
  refine reached.preserves (motive := fun next =>
    reader.Completes boundary all ↔ next.Completes boundary all) ?_ Iff.rfl
  intro before after same stepped
  change before.step boundary = some after at stepped
  rw [same, completes_iff, stepped]
  constructor
  · rintro (⟨other, taken, completes⟩ | ⟨closed, _⟩)
    · cases taken
      exact completes
    · -- Behind the last delimiter there would have been no step.
      rw [step, closed] at stepped
      cases stepped
  · exact fun completes => .inl ⟨after, rfl, completes⟩

/-- What is read to its end without an error is a form of the grammar, with its parts. -/
theorem read_isForm (boundary : Str) (input : Bytes) (parts : List Part) :
    (read boundary input).answer = .ok none ∧ (read boundary input).parts = parts ↔
      IsForm boundary input parts := by
  obtain ⟨reached, settled⟩ := read_reached boundary input
  have whole : (start input).Completes boundary parts ↔ IsForm boundary input parts := by
    unfold Completes start
    constructor
    · rintro ⟨others, rfl, form⟩
      exact form
    · exact fun form => ⟨parts, rfl, form⟩
  have none : (read boundary input).step boundary = none := settled
  -- A settled reader completes a form only behind the last delimiter.
  rw [← whole, reaches_completes reached, completes_iff, none]
  constructor
  · rintro ⟨ended, rfl⟩
    unfold FormReader.answer at ended
    split at ended
    · rename_i closed
      exact .inr ⟨closed, rfl⟩
    · cases ended
    · cases ended
  · rintro (⟨next, taken, _⟩ | ⟨closed, rfl⟩)
    · cases taken
    · exact ⟨by rw [FormReader.answer, closed], rfl⟩

end FormReader

namespace FormRun

/--
A parser comes to the end of a form exactly for the forms of the grammar, and has handed out
their parts, however the bytes are cut into fragments.
-/
theorem across_isForm (boundary : Str) (maxBufferSize : Nat) (fragments : List Bytes)
    (parts : List Part)
    (accepted : (across boundary maxBufferSize fragments).overflowed = false) :
    (across boundary maxBufferSize fragments).answer = .ok none ∧
        (across boundary maxBufferSize fragments).parts = parts ↔
      IsForm boundary fragments.flatten parts := by
  obtain ⟨answer, same⟩ := across_reads boundary maxBufferSize fragments accepted
  rw [← FormReader.read_isForm, answer]
  refine and_congr_right fun ended => ?_
  rcases same with same | ⟨wrong, _⟩
  · rw [same]
  · -- Behind the last delimiter nothing went wrong.
    rw [answer, ended] at wrong
    cases wrong

/-- A form of one part behind a preamble, cut within its delimiters. -/
theorem across_isForm_cut :
    let fragments := [Utf8.encode "-\r\n--b\r\nContent-Disposition: form-data; name=a\r\n\r\nx\r".toList,
      Utf8.encode "\n--b ".toList, Utf8.encode "--".toList]
    let part : Part := ⟨some ⟨.formData, none, none, some ['a'], []⟩, none, [], [120]⟩
    (across ['b'] 99 fragments).answer = .ok none ∧ (across ['b'] 99 fragments).parts = [part] ↔
      IsForm ['b'] fragments.flatten [part] :=
  across_isForm ['b'] 99 _ _ (by decide +kernel)

end FormRun

end Http11

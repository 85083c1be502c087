import Http11.Lib.Incremental
import Http11.Lib.Searching
import Http11.Multipart

/-! What a form in several parts is: a machine that reads it piece by piece, and its grammar. -/

namespace Http11

/-- What stands behind a delimiter in its line. -/
inductive LineEnd where
  /-- The two bytes behind the padding are not there yet. -/
  | waiting
  /-- A line end, and what stands behind it. -/
  | line (behind : Bytes)
  /-- Two hyphens, as behind the last part. -/
  | last
  /-- Anything else. -/
  | wrong

/-- How the line of a delimiter ends. -/
def lineEnd (text : Bytes) : LineEnd :=
  match text.dropWhile isTransportPadding with
  | first :: second :: behind =>
    if [first, second] = crlf then .line behind
    else if [first, second] = hyphens then .last
    else .wrong
  | _ => .waiting

/-- A line that has ended stays as it is when more follows. -/
theorem lineEnd_append {text : Bytes} {more : Bytes} :
    (∀ behind, lineEnd text = .line behind → lineEnd (text ++ more) = .line (behind ++ more)) ∧
      (lineEnd text = .last → lineEnd (text ++ more) = .last) ∧
      (lineEnd text = .wrong → lineEnd (text ++ more) = .wrong) := by
  unfold lineEnd
  rw [List.dropWhile_append]
  -- Only what has two bytes behind its padding has ended.
  rcases text.dropWhile isTransportPadding with _ | ⟨first, _ | ⟨second, behind⟩⟩
  · exact ⟨fun _ waits => (by cases waits), fun waits => (by cases waits),
      fun waits => (by cases waits)⟩
  · exact ⟨fun _ waits => (by cases waits), fun waits => (by cases waits),
      fun waits => (by cases waits)⟩
  · simp only [List.isEmpty_cons, Bool.false_eq_true, if_false, List.cons_append]
    by_cases line : [first, second] = crlf
    · rw [if_pos line, if_pos line]
      refine ⟨fun rest same => ?_, fun other => (by cases other), fun other => (by cases other)⟩
      cases same
      rfl
    · rw [if_neg line, if_neg line]
      by_cases last : [first, second] = hyphens
      · rw [if_pos last]
        exact ⟨fun _ other => (by cases other), fun _ => rfl, fun other => (by cases other)⟩
      · rw [if_neg last]
        exact ⟨fun _ other => (by cases other), fun other => (by cases other), fun _ => rfl⟩

/-- Padding in front of the end of a line does not count. -/
theorem lineEnd_padding {padding : Bytes}
    (padded : ∀ byte ∈ padding, isTransportPadding byte = true) (text : Bytes) :
    lineEnd (padding ++ text) = lineEnd text := by
  -- The padding is skipped in any case.
  unfold lineEnd
  rw [List.dropWhile_append_of_pos padded]

/-- The delimiter in front of the first part. -/
def dashBoundary (boundary : Str) : Bytes := hyphens ++ Utf8.encode boundary

/-- The delimiter behind every part. -/
def delimiter (boundary : Str) : Bytes := crlf ++ hyphens ++ Utf8.encode boundary

/-- What of a form is read next. -/
inductive FormPhase where
  /-- What stands up to the first delimiter. -/
  | preamble
  /-- A part. -/
  | part
  /-- The line of the delimiter behind a part. -/
  | behindPart
  /-- Nothing, behind the last delimiter. -/
  | closed
  /-- Nothing, since something was wrong. -/
  | refused (error : MultipartError)

/-- A form that is read: the parts so far, and what is left. -/
structure FormReader where
  /-- What is read next. -/
  phase : FormPhase
  /-- The parts that have been read. -/
  parts : List Part
  /-- What has not been read. -/
  rest : Bytes

namespace FormReader

/-- A reader that has not read anything. -/
def start (input : Bytes) : FormReader := ⟨.preamble, [], input⟩

/-- The reader behind the line of a delimiter. -/
def endLine (reader : FormReader) (text : Bytes) : Option FormReader :=
  match lineEnd text with
  | .waiting => none
  | .line behind => some { reader with phase := .part, rest := behind }
  | .last => some { reader with phase := .closed }
  | .wrong => some { reader with phase := .refused .invalidPart }

/-- The reader behind a part. -/
def endPart (boundary : Str) (reader : FormReader) : Option FormReader :=
  match Splitting.splitFirst (crlf ++ crlf) reader.rest with
  | none => none
  | some (header, text) =>
    match parsePartHeaders header with
    -- The header is refused before the body has arrived.
    | .error error => some { reader with phase := .refused error }
    | .ok part =>
      match Splitting.splitFirst (delimiter boundary) text with
      | none => none
      | some (body, behind) => some ⟨.behindPart, reader.parts ++ [part body], behind⟩

/-- One step: a delimiter line or a part, once all of it has arrived. -/
def step (boundary : Str) (reader : FormReader) : Option FormReader :=
  match reader.phase with
  | .preamble =>
    match Splitting.splitFirst (dashBoundary boundary) reader.rest with
    | none => none
    | some (_, text) => reader.endLine text
  | .part => reader.endPart boundary
  | .behindPart => reader.endLine reader.rest
  -- Behind the last delimiter, and behind an error, nothing is read.
  | .closed => none
  | .refused _ => none

/-- More input behind what is left. -/
def feed (reader : FormReader) (input : Bytes) : FormReader :=
  { reader with rest := reader.rest ++ input }

/-- The end of a line is read alike when more follows. -/
theorem endLine_feed {reader next : FormReader} {text : Bytes}
    (ended : reader.endLine text = some next) (input : Bytes) :
    (reader.feed input).endLine (text ++ input) = some (next.feed input) := by
  obtain ⟨line, last, wrong⟩ := @lineEnd_append text input
  unfold endLine at ended ⊢
  cases found : lineEnd text with
  | waiting =>
    rw [found] at ended
    cases ended
  | line behind =>
    rw [found] at ended
    cases ended
    rw [line behind found]
    rfl
  | last =>
    rw [found] at ended
    cases ended
    rw [last found]
    rfl
  | wrong =>
    rw [found] at ended
    cases ended
    rw [wrong found]
    rfl

/-- There is something to look for behind header lines. -/
theorem headerEnd_present : crlf ++ crlf ≠ [] := List.cons_ne_nil _ _

/-- There is something to look for in front of the first part. -/
theorem dashBoundary_present (boundary : Str) : dashBoundary boundary ≠ [] := List.cons_ne_nil _ _

/-- There is something to look for behind a part. -/
theorem delimiter_present (boundary : Str) : delimiter boundary ≠ [] := List.cons_ne_nil _ _

/-- A part is read alike when more follows. -/
theorem endPart_feed {boundary : Str} {reader next : FormReader}
    (ended : reader.endPart boundary = some next) (input : Bytes) :
    (reader.feed input).endPart boundary = some (next.feed input) := by
  have fed : (reader.feed input).rest = reader.rest ++ input := rfl
  unfold endPart at ended ⊢
  rw [fed]
  cases header : Splitting.splitFirst (crlf ++ crlf) reader.rest with
  | none =>
    rw [header] at ended
    cases ended
  | some lines =>
    obtain ⟨lines, text⟩ := lines
    rw [Searching.splitFirst_extend headerEnd_present header]
    rw [header] at ended
    dsimp only at ended ⊢
    cases read : parsePartHeaders lines with
    | error error =>
      rw [read] at ended
      cases ended
      rfl
    | ok part =>
      rw [read] at ended
      dsimp only at ended ⊢
      cases content : Splitting.splitFirst (delimiter boundary) text with
      | none =>
        rw [content] at ended
        cases ended
      | some body =>
        obtain ⟨body, behind⟩ := body
        rw [Searching.splitFirst_extend (delimiter_present boundary) content]
        rw [content] at ended
        cases ended
        rfl

/-- A step is the same with more input behind it. -/
theorem step_feed {boundary : Str} {reader next : FormReader}
    (stepped : reader.step boundary = some next) (input : Bytes) :
    (reader.feed input).step boundary = some (next.feed input) := by
  have alike : (reader.feed input).phase = reader.phase := rfl
  have fed : (reader.feed input).rest = reader.rest ++ input := rfl
  unfold step at stepped ⊢
  rw [alike, fed]
  cases reads : reader.phase with
  | preamble =>
    rw [reads] at stepped
    dsimp only at stepped ⊢
    cases first : Splitting.splitFirst (dashBoundary boundary) reader.rest with
    | none =>
      rw [first] at stepped
      cases stepped
    | some found =>
      obtain ⟨before, text⟩ := found
      rw [first] at stepped
      rw [Searching.splitFirst_extend (dashBoundary_present boundary) first]
      exact endLine_feed stepped input
  | part =>
    rw [reads] at stepped
    exact endPart_feed stepped input
  | behindPart =>
    rw [reads] at stepped
    exact endLine_feed stepped input
  | closed =>
    rw [reads] at stepped
    cases stepped
  | refused error =>
    rw [reads] at stepped
    cases stepped

/-- The reader as a machine that can be fed at any time. -/
def machine (boundary : Str) : Incremental FormReader UInt8 where
  step := step boundary
  feed := feed
  feed_nil := by
    intro reader
    simp [feed]
  feed_feed := by
    intro reader front back
    simp [feed, List.append_assoc]
  step_feed := fun stepped input => step_feed stepped input

/-- What is answered for now, once all parts that have arrived are handed out. -/
def answer (reader : FormReader) : Except MultipartError (Option Part) :=
  match reader.phase with
  | .closed => .ok none
  | .refused error => .error error
  | _ => .error .incomplete

/-- One pass over a form: a step, or the end where none is possible. -/
def pass (boundary : Str) (reader : FormReader) : FormReader ⊕ FormReader :=
  match reader.step boundary with
  | some next => .inl next
  | none => .inr reader

/-- What a reader still has to do: read what is left, and come to an end. -/
def pending (reader : FormReader) : Nat :=
  match reader.phase with
  | .closed | .refused _ => 0
  | _ => reader.rest.length + 1

/-- A line that has ended is not behind its end any more. -/
theorem lineEnd_length {text behind : Bytes} (ended : lineEnd text = .line behind) :
    behind.length < text.length := by
  -- Both bytes of the line end stand in what the padding leaves.
  have short := (List.dropWhile_suffix isTransportPadding (l := text)).length_le
  unfold lineEnd at ended
  split at ended
  · rename_i first second rest left
    rw [left] at short
    split at ended
    · cases ended
      simp only [List.length_cons] at short
      omega
    · split at ended <;> cases ended
  · cases ended

/-- What stands behind a separator that is found is shorter than the whole. -/
theorem splitFirst_length {separator text front back : Bytes} (present : separator ≠ [])
    (split : Splitting.splitFirst separator text = some (front, back)) :
    back.length < text.length := by
  have whole := ((Searching.splitFirst_iff present).mp split).2
  have positive := List.length_pos_of_ne_nil present
  rw [whole, List.length_append, List.length_append]
  omega

/-- The line of a delimiter leaves less to do. -/
theorem endLine_pending {reader next : FormReader} {text : Bytes}
    (ended : reader.endLine text = some next) : next.pending < text.length + 1 := by
  unfold endLine at ended
  -- The line leaves its own end behind, or ends the reading.
  cases found : lineEnd text with
  | waiting =>
    rw [found] at ended
    cases ended
  | line behind =>
    have shorter := lineEnd_length found
    rw [found] at ended
    cases ended
    exact Nat.succ_lt_succ shorter
  | last =>
    rw [found] at ended
    cases ended
    exact Nat.succ_pos _
  | wrong =>
    rw [found] at ended
    cases ended
    exact Nat.succ_pos _

/-- A part leaves less to do. -/
theorem endPart_pending {boundary : Str} {reader next : FormReader}
    (ended : reader.endPart boundary = some next) : next.pending < reader.rest.length + 1 := by
  -- Both separators of the part have been read.
  unfold endPart at ended
  cases header : Splitting.splitFirst (crlf ++ crlf) reader.rest with
  | none =>
    rw [header] at ended
    cases ended
  | some lines =>
    obtain ⟨lines, text⟩ := lines
    have behindHeader := splitFirst_length headerEnd_present header
    rw [header] at ended
    dsimp only at ended
    cases read : parsePartHeaders lines with
    | error error =>
      rw [read] at ended
      cases ended
      exact Nat.succ_pos _
    | ok part =>
      rw [read] at ended
      dsimp only at ended
      cases content : Splitting.splitFirst (delimiter boundary) text with
      | none =>
        rw [content] at ended
        cases ended
      | some body =>
        obtain ⟨body, behind⟩ := body
        have behindBody := splitFirst_length (delimiter_present boundary) content
        rw [content] at ended
        cases ended
        change behind.length + 1 < reader.rest.length + 1
        omega

/-- A step leaves less to do. -/
theorem step_pending {boundary : Str} {reader next : FormReader}
    (stepped : reader.step boundary = some next) : next.pending < reader.pending := by
  -- Every step that is possible reads a delimiter or the end of its line.
  unfold step at stepped
  cases reads : reader.phase with
  | preamble =>
    have unread : reader.pending = reader.rest.length + 1 := by rw [pending, reads]
    rw [reads] at stepped
    dsimp only at stepped
    cases first : Splitting.splitFirst (dashBoundary boundary) reader.rest with
    | none =>
      rw [first] at stepped
      cases stepped
    | some found =>
      obtain ⟨before, text⟩ := found
      have shorter := splitFirst_length (dashBoundary_present boundary) first
      rw [first] at stepped
      have less := endLine_pending stepped
      omega
  | part =>
    have unread : reader.pending = reader.rest.length + 1 := by rw [pending, reads]
    rw [reads] at stepped
    rw [unread]
    exact endPart_pending stepped
  | behindPart =>
    have unread : reader.pending = reader.rest.length + 1 := by rw [pending, reads]
    rw [reads] at stepped
    rw [unread]
    exact endLine_pending stepped
  | closed =>
    rw [reads] at stepped
    cases stepped
  | refused error =>
    rw [reads] at stepped
    cases stepped

/-- The steps over a form, as long as one is possible. -/
def readLoop (boundary : Str) : Iteration FormReader FormReader where
  body := pass boundary
  size := pending
  decreases := by
    intro reader next passed
    unfold pass at passed
    split at passed
    · rename_i stepped
      cases passed
      exact step_pending stepped
    · cases passed

/-- All that can be read of a form. -/
def read (boundary : Str) (input : Bytes) : FormReader := (readLoop boundary).run (start input)

/-- Reading ends where the machine does. -/
theorem read_reached (boundary : Str) (input : Bytes) :
    (machine boundary).Reaches (start input) (read boundary input) ∧
      (machine boundary).Settled (read boundary input) := by
  refine (readLoop boundary).run_rule (motive := fun reader result =>
    (machine boundary).Reaches reader result ∧ (machine boundary).Settled result) ?_ ?_ _
  · -- The loop stops where no step is left, and each of its passes is a step.
    intro reader result returned
    change pass boundary reader = .inr result at returned
    unfold pass at returned
    split at returned
    · cases returned
    · rename_i settled
      cases returned
      exact ⟨.refl, settled⟩
  · intro reader next result passed ih
    change pass boundary reader = .inl next at passed
    unfold pass at passed
    split at passed
    · rename_i stepped
      cases passed
      exact ⟨.head stepped ih.1, ih.2⟩
    · cases passed

end FormReader

/-- Spaces and tabs behind a delimiter. -/
def IsTransportPadding (padding : Bytes) : Prop := ∀ byte ∈ padding, isTransportPadding byte = true

/-- A part in a text: header lines, an empty line, and a body up to the next delimiter. -/
structure IsPart (boundary : Str) (text : Bytes) (part : Part) (behind : Bytes) : Prop where
  /-- The header lines and the body, the first empty line between them and a delimiter behind. -/
  found : ∃ header make body, Searching.Clear (crlf ++ crlf) header ∧
    parsePartHeaders header = .ok make ∧ part = make body ∧
    Searching.Clear (delimiter boundary) body ∧
    text = header ++ (crlf ++ crlf ++ (body ++ (delimiter boundary ++ behind)))

/-- What stands behind a delimiter: two hyphens at the end, or a line end and one more part. -/
inductive IsFormRest (boundary : Str) : Bytes → List Part → Prop where
  /-- The end, behind which anything may stand. -/
  | last {padding behind : Bytes} (padded : IsTransportPadding padding) :
    IsFormRest boundary (padding ++ (hyphens ++ behind)) []
  /-- A line end and a part, up to the delimiter behind it. -/
  | part {padding text behind : Bytes} {part : Part} {parts : List Part}
    (padded : IsTransportPadding padding) (content : IsPart boundary text part behind)
    (rest : IsFormRest boundary behind parts) :
    IsFormRest boundary (padding ++ (crlf ++ text)) (part :: parts)

/-- A form: a preamble without a delimiter, the first delimiter, and what stands behind it. -/
def IsForm (boundary : Str) (input : Bytes) (parts : List Part) : Prop :=
  ∃ preamble rest, Searching.Clear (dashBoundary boundary) preamble ∧
    input = preamble ++ (dashBoundary boundary ++ rest) ∧ IsFormRest boundary rest parts

end Http11

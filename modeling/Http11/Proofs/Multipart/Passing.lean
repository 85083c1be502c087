import Http11.Multipart

/-! What every pass of the parser does, told by how the line of a delimiter ends. -/

namespace Http11

/-- How the line of a delimiter ends. -/
inductive Ending where
  /-- The two bytes behind its padding have not arrived. -/
  | waiting
  /-- With a line end, behind which a part starts. -/
  | line (start : Nat)
  /-- With two hyphens, behind the last part. -/
  | last
  /-- With anything else. -/
  | wrong

/-- How the line of a delimiter that stands up to a position ends. -/
def ending (buffer : Bytes) (position : Nat) : Ending :=
  let padded := skipWhile isTransportPadding buffer position
  match twoBytes buffer padded with
  | none => .waiting
  | some head =>
    if head = crlf then .line (padded + 2) else if head = hyphens then .last else .wrong

/-- Skipping bytes stays within them. -/
theorem skipWhile_le (kind : UInt8 → Bool) {bytes : Bytes} {i : Nat} (within : i ≤ bytes.length) :
    skipWhile kind bytes i ≤ bytes.length := by
  have short := (List.takeWhile_prefix (p := kind) (l := bytes.drop i)).length_le
  rw [List.length_drop] at short
  rw [skipWhile]
  omega

/-- A part starts within what has arrived. -/
theorem ending_line {buffer : Bytes} {position start : Nat}
    (ended : ending buffer position = .line start) :
    position + 2 ≤ start ∧ start ≤ buffer.length := by
  have forward : position ≤ skipWhile isTransportPadding buffer position := Nat.le_add_right _ _
  unfold ending twoBytes at ended
  dsimp only at ended
  -- Two bytes must have arrived behind the padding.
  by_cases short : buffer.length < skipWhile isTransportPadding buffer position + 2
  · rw [if_pos short] at ended
    cases ended
  · rw [if_neg short] at ended
    dsimp only at ended
    -- A line end is passed over, which is why the start lies two bytes further.
    split at ended
    · cases ended
      omega
    -- Two hyphens and anything else start no part.
    split at ended
    · cases ended
    · cases ended

/-- Without two bytes behind a position there are none behind its padding. -/
theorem ending_short {buffer : Bytes} {position : Nat} (short : buffer.length < position + 2) :
    ending buffer position = .waiting := by
  have forward : position ≤ skipWhile isTransportPadding buffer position := Nat.le_add_right _ _
  unfold ending twoBytes
  dsimp only
  rw [if_pos (by omega)]

namespace MultipartParser

variable (parser : MultipartParser)

/-- What reading up to the first part does. -/
theorem passInitial_eq : parser.passInitial =
    match findBytesFrom parser.buffer (max parser.pos parser.boundaryScanOffset)
        parser.firstDelimiter with
    | none => .inr (.error .incomplete, { parser with
        boundaryScanOffset := parser.buffer.length - (parser.firstDelimiter.length - 1) })
    | some found =>
      match ending parser.buffer (found + parser.firstDelimiter.length) with
      | .waiting => .inr (.error .incomplete, { parser with
          boundaryScanOffset := min found parser.buffer.length })
      | .line start => .inl (parser.enter start)
      | .last => .inr (.ok none, parser.finish)
      | .wrong => .inr (.error .invalidPart, parser) := by
  unfold passInitial
  dsimp only
  cases findBytesFrom parser.buffer (max parser.pos parser.boundaryScanOffset)
      parser.firstDelimiter with
  | none => rfl
  | some found =>
    dsimp only
    -- The source asks for two bytes behind the delimiter before it skips the padding.
    by_cases room : found + parser.firstDelimiter.length + 2 ≤ parser.buffer.length
    · rw [if_pos room, ending]
      cases twoBytes parser.buffer (skipWhile isTransportPadding parser.buffer
          (found + parser.firstDelimiter.length)) with
      | none => rfl
      | some head =>
        dsimp only
        by_cases line : head = crlf
        · rw [if_pos line, if_pos line]
        · rw [if_neg line, if_neg line]
          by_cases last : head = hyphens
          · rw [if_pos last, if_pos last]
          · rw [if_neg last, if_neg last]
    · -- With fewer bytes there the end of the line is not known either.
      rw [if_neg room, ending_short (by omega)]

/-- What is left behind the delimiter of a part. -/
theorem leavePart_eq (position : Nat) :
    parser.leavePart (skipWhile isTransportPadding parser.buffer position) =
      match ending parser.buffer position with
      | .waiting => .ok { parser with
          pos := skipWhile isTransportPadding parser.buffer position
          state := .afterInnerDelimiter }
      | .line start => .ok { parser with pos := start }
      | .last => .ok parser.finish
      | .wrong => .error .invalidPart := by
  rw [leavePart, ending]
  cases twoBytes parser.buffer (skipWhile isTransportPadding parser.buffer position) with
  | none => rfl
  | some head =>
    dsimp only
    -- The source asks for the hyphens first here, and they are no line end.
    by_cases line : head = crlf
    · have other : head ≠ hyphens := line ▸ (by decide)
      rw [if_neg other, if_pos line, if_pos line]
    · rw [if_neg line, if_neg line]
      by_cases last : head = hyphens
      · rw [if_pos last, if_pos last]
      · rw [if_neg last, if_neg last]

/-- What reading on behind a part does. -/
theorem passAfterInnerDelimiter_eq : parser.passAfterInnerDelimiter =
    match ending parser.buffer parser.pos with
    | .waiting => .inr (.error .incomplete, { parser with
        pos := skipWhile isTransportPadding parser.buffer parser.pos })
    | .line start => .inl (parser.enter start)
    | .last => .inr (.ok none, parser.finish)
    | .wrong => .inr (.error .invalidPart, parser) := by
  rw [passAfterInnerDelimiter, ending]
  cases twoBytes parser.buffer (skipWhile isTransportPadding parser.buffer parser.pos) with
  | none => rfl
  | some head =>
    dsimp only
    -- As behind a part, the hyphens are asked for first.
    by_cases line : head = crlf
    · have other : head ≠ hyphens := line ▸ (by decide)
      rw [if_neg other, if_pos line, if_pos line]
    · rw [if_neg line, if_neg line]
      by_cases last : head = hyphens
      · rw [if_pos last, if_pos last]
      · rw [if_neg last, if_neg last]

/-- Only a pass over a part hands one out. -/
theorem pass_part {parser next : MultipartParser} {part : Part}
    (passed : parser.pass = .inr (.ok (some part), next)) :
    parser.passInPart = (.ok (some part), next) := by
  unfold pass at passed
  -- Every other state answers without a part.
  cases waits : parser.state with
  | initial =>
    rw [waits] at passed
    dsimp only at passed
    rw [passInitial_eq] at passed
    cases search : findBytesFrom parser.buffer (max parser.pos parser.boundaryScanOffset)
        parser.firstDelimiter with
    | none =>
      rw [search] at passed
      cases passed
    | some found =>
      rw [search] at passed
      -- Behind a delimiter the line ends, or nothing is answered.
      dsimp only at passed
      cases line : ending parser.buffer (found + parser.firstDelimiter.length) with
      | waiting => rw [line] at passed; cases passed
      | line start => rw [line] at passed; cases passed
      | last => rw [line] at passed; cases passed
      | wrong => rw [line] at passed; cases passed
  | inPart =>
    rw [waits] at passed
    exact Sum.inr.inj passed
  | afterInnerDelimiter =>
    rw [waits] at passed
    dsimp only at passed
    rw [passAfterInnerDelimiter_eq] at passed
    cases line : ending parser.buffer parser.pos with
    | waiting => rw [line] at passed; cases passed
    | line start => rw [line] at passed; cases passed
    | last => rw [line] at passed; cases passed
    | wrong => rw [line] at passed; cases passed
  | finished =>
    rw [waits] at passed
    cases passed

/-- The loop is the one pass that answers, behind another one that may come to a part. -/
theorem nextPart_eq : parser.nextPart = if parser.finished then (.ok none, parser)
    else match parser.pass with
      | .inl next => next.passInPart
      | .inr answer => answer := by
  unfold nextPart
  split
  · rfl
  · cases passed : parser.pass with
    | inr answer => exact nextPartLoop.run_of_return passed
    | inl next =>
      -- A pass that goes on has come to a part, in which the next one answers.
      obtain ⟨_, start, rfl⟩ := pass_continues passed
      rw [nextPartLoop.run_of_continue passed]
      exact nextPartLoop.run_of_return rfl

end MultipartParser

end Http11

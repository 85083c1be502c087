import Http11.Form
import Http11.Proofs.Multipart.Finding
import Http11.Proofs.Multipart.Passing

/-! Forms read with a parser: fed fragment by fragment, with all parts taken behind each of them. -/

namespace Http11

namespace MultipartParser

variable {parser next : MultipartParser}

/-- What is held and not used up. -/
def unread (parser : MultipartParser) : Nat := parser.buffer.length - parser.pos

/-- What a parser still has to do. -/
def pending (parser : MultipartParser) : Nat := if parser.finished then 0 else parser.unread + 1

/-- Bytes are found behind where they are looked for. -/
theorem le_of_findBytesFrom {buffer needle : Bytes} {start place : Nat}
    (found : findBytesFrom buffer start needle = some place) : start ≤ place := by
  rw [findBytesFrom, Option.map_eq_some_iff] at found
  obtain ⟨offset, _, rfl⟩ := found
  exact Nat.le_add_right _ _

/-- Compaction leaves as much as there was. -/
theorem compact_unread (parser : MultipartParser) : parser.compact.unread = parser.unread := by
  unfold compact
  split
  · rw [unread, unread, List.length_drop]
    rfl
  · rfl

/-- Compaction does not finish a parser. -/
theorem compact_finished (parser : MultipartParser) :
    parser.compact.finished = parser.finished := by
  unfold compact
  split
  · rfl
  · rfl

/-- A part that is handed out is used up, unless it was the last one. -/
theorem passInPart_unread {part : Part} (passed : parser.passInPart = (.ok (some part), next)) :
    next.finished = true ∨ (next.finished = parser.finished ∧ next.unread < parser.unread) := by
  unfold passInPart at passed
  -- A part is handed out only with its header lines, its delimiter and the line of that.
  cases ended : findBytesFrom parser.buffer parser.pos (crlf ++ crlf) with
  | none =>
    rw [ended] at passed
    cases passed
  | some headerEnd =>
    have header := (findBytesFrom_iff (List.cons_ne_nil _ _)).mp ended
    have inside : headerEnd + 4 ≤ parser.buffer.length :=
      header.occurs.within (List.cons_ne_nil _ _)
    have behind := header.behind
    rw [ended] at passed
    dsimp only at passed
    cases read : parsePartHeaders ((parser.buffer.drop parser.pos).take (headerEnd - parser.pos)) with
    | error error =>
      rw [read] at passed
      cases passed
    | ok make =>
      rw [read] at passed
      dsimp only at passed
      cases search : findBytesFrom parser.buffer (max (headerEnd + 4) parser.boundaryScanOffset)
          parser.innerDelimiter with
      | none =>
        rw [search] at passed
        cases passed
      | some bodyEnd =>
        have later := le_of_findBytesFrom search
        rw [search] at passed
        dsimp only at passed
        rw [leavePart_eq] at passed
        have skipped : bodyEnd + parser.innerDelimiter.length ≤ skipWhile isTransportPadding
            parser.buffer (bodyEnd + parser.innerDelimiter.length) := Nat.le_add_right _ _
        cases line : ending parser.buffer (bodyEnd + parser.innerDelimiter.length) with
        | waiting =>
          rw [line] at passed
          cases passed
          refine .inr ⟨compact_finished _, ?_⟩
          rw [compact_unread, unread, unread]
          dsimp only
          omega
        | line start =>
          rw [line] at passed
          cases passed
          have beyond := (ending_line line).1
          refine .inr ⟨compact_finished _, ?_⟩
          rw [compact_unread, unread, unread]
          dsimp only
          omega
        | last =>
          rw [line] at passed
          cases passed
          exact .inl (compact_finished _)
        | wrong =>
          rw [line] at passed
          cases passed

/-- The start of a part is behind what was used up. -/
theorem pass_unread (passed : parser.pass = .inl next) :
    next.finished = parser.finished ∧ next.unread ≤ parser.unread := by
  -- From a delimiter on, the parser only moves forward.
  have forward : ∀ {position start : Nat}, parser.pos ≤ position →
      ending parser.buffer position = .line start →
      (parser.enter start).finished = parser.finished ∧
        (parser.enter start).unread ≤ parser.unread := by
    intro position start behind line
    have beyond := (ending_line line).1
    refine ⟨rfl, ?_⟩
    have entered : (parser.enter start).unread = parser.buffer.length - start := rfl
    rw [entered, unread]
    omega
  unfold pass at passed
  -- Passes go on from the two states that wait for a delimiter.
  cases waits : parser.state with
  | initial =>
    rw [waits] at passed
    dsimp only at passed
    rw [passInitial_eq] at passed
    cases search : findBytesFrom parser.buffer (max parser.pos parser.boundaryScanOffset)
        parser.firstDelimiter with
    | none =>
      rw [search] at passed
      cases passed
    | some found =>
      have later := le_of_findBytesFrom search
      rw [search] at passed
      dsimp only at passed
      cases line : ending parser.buffer (found + parser.firstDelimiter.length) with
      | waiting =>
        rw [line] at passed
        cases passed
      | line start =>
        rw [line] at passed
        cases passed
        exact forward (by omega) line
      | last =>
        rw [line] at passed
        cases passed
      | wrong =>
        rw [line] at passed
        cases passed
  | inPart =>
    rw [waits] at passed
    cases passed
  | afterInnerDelimiter =>
    rw [waits] at passed
    dsimp only at passed
    rw [passAfterInnerDelimiter_eq] at passed
    cases line : ending parser.buffer parser.pos with
    | waiting =>
      rw [line] at passed
      cases passed
    | line start =>
      rw [line] at passed
      cases passed
      exact forward (Nat.le_refl _) line
    | last =>
      rw [line] at passed
      cases passed
    | wrong =>
      rw [line] at passed
      cases passed
  | finished =>
    rw [waits] at passed
    cases passed

/-- A part that is handed out leaves less to do. -/
theorem pending_decreases {part : Part} (found : parser.nextPart = (.ok (some part), next)) :
    next.pending < parser.pending := by
  -- A part that is handed out is at least one step, and the last one ends the parser.
  have less : ∀ {middle : MultipartParser}, ¬ middle.finished = true →
      middle.passInPart = (.ok (some part), next) → next.pending < middle.unread + 1 := by
    intro middle going passed
    unfold pending
    rcases passInPart_unread passed with done | ⟨same, shorter⟩
    · rw [if_pos done]
      exact Nat.zero_lt_succ _
    · rw [if_neg (same ▸ going)]
      omega
  rw [nextPart_eq] at found
  by_cases done : parser.finished = true
  · rw [if_pos done] at found
    cases found
  · rw [if_neg done] at found
    have going : parser.pending = parser.unread + 1 := if_neg done
    cases passed : parser.pass with
    | inl middle =>
      rw [passed] at found
      obtain ⟨same, shorter⟩ := pass_unread passed
      have smaller := less (same ▸ done) found
      omega
    | inr answer =>
      rw [passed] at found
      dsimp only at found
      rw [found] at passed
      have smaller := less done (pass_part passed)
      omega

end MultipartParser

/-- A form that is read with a parser. -/
structure FormRun where
  /-- The parser. -/
  parser : MultipartParser
  /-- The parts that have been handed out. -/
  parts : List Part
  /-- What the last call answered that handed out no part. -/
  answer : Except MultipartError (Option Part)
  /-- Input has been refused, since too much was held. -/
  overflowed : Bool

namespace FormRun

/-- A run before its first fragment. -/
def fresh (boundary : Str) (maxBufferSize : Nat) : FormRun where
  parser := (MultipartParser.new boundary).withMaxBufferSize maxBufferSize
  parts := []
  answer := .error .incomplete
  overflowed := false

/-- One call: the next part, or another answer. -/
def take (run : FormRun) : FormRun ⊕ FormRun :=
  match run.parser.nextPart with
  | (.ok (some part), next) => .inl { run with parser := next, parts := run.parts ++ [part] }
  | (answer, next) => .inr { run with parser := next, answer := answer }

/-- The calls for parts, up to the first one that hands out none. -/
def drainLoop : Iteration FormRun FormRun where
  body := take
  size := fun run => run.parser.pending
  decreases := by
    intro run next taken
    unfold take at taken
    split at taken
    · rename_i part parser found
      cases taken
      exact MultipartParser.pending_decreases found
    · cases taken

/-- All parts that have arrived are taken. -/
def drain (run : FormRun) : FormRun := drainLoop.run run

/-- One fragment is fed. -/
def give (run : FormRun) (data : Bytes) : FormRun :=
  match run.parser.feed data with
  | (.ok (), next) => { run with parser := next }
  | (.error _, next) => { run with parser := next, overflowed := true }

/-- A form that is fed fragment by fragment, with all parts taken behind each of them. -/
def across (boundary : Str) (maxBufferSize : Nat) (fragments : List Bytes) : FormRun :=
  fragments.foldl (fun run data => drain (give run data)) (fresh boundary maxBufferSize)

end FormRun

end Http11

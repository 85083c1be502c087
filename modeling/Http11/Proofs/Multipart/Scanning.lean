import Http11.Proofs.Multipart.Finding
import Http11.Proofs.Multipart.Passing

/-! What has been searched for a delimiter need not be searched again, in every state of a run. -/

namespace Http11

open Searching

namespace MultipartParser

/-- The states of a parser: between calls, and between the passes of one. -/
inductive Reached : MultipartParser → Prop where
  /-- A new parser. -/
  | new (boundary : Str) : Reached (new boundary)
  /-- Another limit. -/
  | limited {parser : MultipartParser} (maxBufferSize : Nat) :
    Reached parser → Reached (parser.withMaxBufferSize maxBufferSize)
  /-- More input, also when it is refused. -/
  | fed {parser : MultipartParser} (data : Bytes) :
    Reached parser → Reached (parser.feed data).2
  /-- A pass that goes on. -/
  | passed {parser next : MultipartParser} :
    Reached parser → parser.pass = .inl next → Reached next
  /-- A pass that answers. -/
  | answered {parser next : MultipartParser} {result : Except MultipartError (Option Part)} :
    Reached parser → parser.pass = .inr (result, next) → Reached next

/-- The parser after a pass, which goes on or answers. -/
def afterPass : MultipartParser ⊕ (Except MultipartError (Option Part) × MultipartParser) →
    MultipartParser := Sum.elim id Prod.snd

/-- What holds of a parser in every state: the positions are within the buffer, and in front of the
offset no delimiter begins in the region in which the next one is searched. -/
structure Scanned (parser : MultipartParser) : Prop where
  /-- There is something to search for in front of the first part. -/
  firstPresent : parser.firstDelimiter ≠ []
  /-- There is something to search for behind a part. -/
  innerPresent : parser.innerDelimiter ≠ []
  /-- No more is used up than there is. -/
  posWithin : parser.pos ≤ parser.buffer.length
  /-- No more has been searched than there is. -/
  offsetWithin : parser.boundaryScanOffset ≤ parser.buffer.length
  /-- The first delimiter is searched from the start on. -/
  initial : parser.state = .initial →
    Searched parser.firstDelimiter parser.buffer parser.pos parser.boundaryScanOffset
  /-- The delimiter of a part is searched in its body, once the header lines have arrived. -/
  inPart : parser.state = .inPart → parser.boundaryScanOffset ≤ parser.pos ∨
    ∃ headerEnd, IsFirst (crlf ++ crlf) parser.buffer parser.pos headerEnd ∧
      Searched parser.innerDelimiter parser.buffer (headerEnd + 4) parser.boundaryScanOffset

variable {parser next : MultipartParser}

/-- Two line ends are not nothing. -/
theorem headerEnd_present : crlf ++ crlf ≠ [] := List.cons_ne_nil _ _

/-- The place at which the header lines end is followed by the line ends. -/
theorem headerEnd_within {buffer : Bytes} {start headerEnd : Nat}
    (found : IsFirst (crlf ++ crlf) buffer start headerEnd) : headerEnd + 4 ≤ buffer.length :=
  found.occurs.within headerEnd_present

/-- A new parser has not searched anything. -/
theorem scanned_new (boundary : Str) : (new boundary).Scanned where
  firstPresent := List.cons_ne_nil _ _
  innerPresent := List.cons_ne_nil _ _
  posWithin := Nat.le_refl 0
  offsetWithin := Nat.le_refl 0
  initial := fun _ => searched_empty (Nat.le_refl 0)
  inPart := fun waits => (by cases waits)

/-- More input begins no delimiter in front of the offset. -/
theorem Scanned.feed (scanned : parser.Scanned) (data : Bytes) : (parser.feed data).2.Scanned := by
  unfold MultipartParser.feed
  dsimp only
  split
  · -- Refused input changes nothing.
    exact scanned
  · refine ⟨scanned.firstPresent, scanned.innerPresent, ?_, ?_, ?_, ?_⟩
    · have within := scanned.posWithin
      dsimp only
      rw [List.length_append]
      omega
    · have within := scanned.offsetWithin
      dsimp only
      rw [List.length_append]
      omega
    · exact fun waits => (scanned.initial waits).append data
    · -- What was not found in front of the offset is not found there with more behind it.
      intro waits
      rcases scanned.inPart waits with nothing | ⟨headerEnd, found, searched⟩
      · exact .inl nothing
      · exact .inr ⟨headerEnd, found.append headerEnd_present data, searched.append data⟩

/-- At the start of a part nothing of it has been searched. -/
theorem Scanned.enter (scanned : parser.Scanned) {start : Nat}
    (within : start ≤ parser.buffer.length) : (parser.enter start).Scanned where
  firstPresent := scanned.firstPresent
  innerPresent := scanned.innerPresent
  posWithin := within
  offsetWithin := within
  initial := fun waits => (by cases waits)
  inPart := fun _ => .inl (Nat.le_refl start)

/-- Behind the last delimiter nothing is searched. -/
theorem Scanned.finish (scanned : parser.Scanned) : parser.finish.Scanned where
  firstPresent := scanned.firstPresent
  innerPresent := scanned.innerPresent
  posWithin := scanned.posWithin
  offsetWithin := scanned.offsetWithin
  initial := fun waits => (by cases waits)
  inPart := fun waits => (by cases waits)

/-- The first delimiter is found where a search from the start on finds it. -/
theorem Scanned.resume_initial (scanned : parser.Scanned) (waits : parser.state = .initial) :
    findBytesFrom parser.buffer (max parser.pos parser.boundaryScanOffset) parser.firstDelimiter =
      findBytesFrom parser.buffer parser.pos parser.firstDelimiter :=
  findBytesFrom_resume scanned.firstPresent (scanned.initial waits)

/-- In the body of a part, nothing in front of the offset begins its delimiter. -/
theorem Scanned.searched_inPart (scanned : parser.Scanned) (waits : parser.state = .inPart)
    {headerEnd : Nat} (found : findBytesFrom parser.buffer parser.pos (crlf ++ crlf) =
      some headerEnd) :
    Searched parser.innerDelimiter parser.buffer (headerEnd + 4) parser.boundaryScanOffset := by
  rw [findBytesFrom_iff headerEnd_present] at found
  rcases scanned.inPart waits with nothing | ⟨other, ended, searched⟩
  · -- The offset is in front of the header lines.
    have behind := found.behind
    exact searched_empty (by omega)
  · rw [found.unique ended]
    exact searched

/-- The delimiter of a part is found where a search from the start of its body finds it. -/
theorem Scanned.resume_inPart (scanned : parser.Scanned) (waits : parser.state = .inPart)
    {headerEnd : Nat} (found : findBytesFrom parser.buffer parser.pos (crlf ++ crlf) =
      some headerEnd) :
    findBytesFrom parser.buffer (max (headerEnd + 4) parser.boundaryScanOffset)
        parser.innerDelimiter =
      findBytesFrom parser.buffer (headerEnd + 4) parser.innerDelimiter :=
  findBytesFrom_resume scanned.innerPresent (scanned.searched_inPart waits found)

/-- A parser that goes on waiting for the first delimiter has searched up to its next place. -/
theorem Scanned.wait_initial (scanned : parser.Scanned) (waits : parser.state = .initial)
    {offset : Nat} (within : offset ≤ parser.buffer.length)
    (searched : Searched parser.firstDelimiter parser.buffer
      (max parser.pos parser.boundaryScanOffset) offset) :
    Scanned { parser with boundaryScanOffset := offset } where
  firstPresent := scanned.firstPresent
  innerPresent := scanned.innerPresent
  posWithin := scanned.posWithin
  offsetWithin := within
  initial := by
    intro _ position low high
    -- In front of the old offset nothing begins, and from there on it has been searched.
    by_cases early : position < parser.boundaryScanOffset
    · exact scanned.initial waits position low early
    · exact searched position (Nat.max_le.mpr ⟨low, by omega⟩) high
  inPart := fun other => (by rw [waits] at other; cases other)

/-- A parser that goes on waiting for the end of a part has searched up to its next place. -/
theorem Scanned.wait_inPart (scanned : parser.Scanned) (waits : parser.state = .inPart)
    {headerEnd offset : Nat} (within : offset ≤ parser.buffer.length)
    (found : findBytesFrom parser.buffer parser.pos (crlf ++ crlf) = some headerEnd)
    (searched : Searched parser.innerDelimiter parser.buffer
      (max (headerEnd + 4) parser.boundaryScanOffset) offset) :
    Scanned { parser with boundaryScanOffset := offset } where
  firstPresent := scanned.firstPresent
  innerPresent := scanned.innerPresent
  posWithin := scanned.posWithin
  offsetWithin := within
  initial := fun other => (by rw [waits] at other; cases other)
  inPart := by
    intro _
    refine .inr ⟨headerEnd, (findBytesFrom_iff headerEnd_present).mp found, ?_⟩
    intro position low high
    -- In front of the old offset nothing begins, and from there on it has been searched.
    by_cases early : position < parser.boundaryScanOffset
    · exact scanned.searched_inPart waits found position low early
    · exact searched position (by omega) high

/-- Compaction takes away from both positions what it takes from the front of the buffer. -/
theorem compact_shift (parser : MultipartParser) (behind : parser.pos ≤ parser.boundaryScanOffset) :
    ∃ drained, drained ≤ parser.pos ∧ drained ≤ parser.boundaryScanOffset ∧
      parser.compact = { parser with
        buffer := parser.buffer.drop drained
        pos := parser.pos - drained
        boundaryScanOffset := parser.boundaryScanOffset - drained } := by
  by_cases large : parser.buffer.length / 2 < parser.pos
  · refine ⟨parser.pos, Nat.le_refl _, behind, ?_⟩
    rw [compact, if_pos large, Nat.sub_self]
  · refine ⟨0, Nat.zero_le _, Nat.zero_le _, ?_⟩
    rw [compact, if_neg large]
    rfl

/-- Compaction leaves what is not used up. -/
theorem compact_drop (parser : MultipartParser) :
    parser.compact.buffer.drop parser.compact.pos = parser.buffer.drop parser.pos := by
  unfold compact
  split
  · rfl
  · rfl

/-- Behind a part nothing has been searched yet, before and after compaction. -/
theorem Scanned.left (scanned : parser.Scanned) (waits : parser.state = .inPart) {position : Nat}
    (within : position ≤ parser.buffer.length)
    (left : parser.leavePart (skipWhile isTransportPadding parser.buffer position) = .ok next) :
    Scanned (compact { next with boundaryScanOffset := next.pos }) := by
  -- What is left of the part is a parser that is past the first delimiter.
  have past : next.firstDelimiter = parser.firstDelimiter ∧
      next.innerDelimiter = parser.innerDelimiter ∧ next.buffer = parser.buffer ∧
      next.pos ≤ parser.buffer.length ∧ next.state ≠ .initial := by
    rw [leavePart_eq] at left
    cases ended : ending parser.buffer position with
    | waiting =>
      rw [ended] at left
      cases left
      exact ⟨rfl, rfl, rfl, skipWhile_le _ within, fun other => (by cases other)⟩
    | line start =>
      rw [ended] at left
      cases left
      exact ⟨rfl, rfl, rfl, (ending_line ended).2, fun other => (by rw [waits] at other; cases other)⟩
    | last =>
      rw [ended] at left
      cases left
      exact ⟨rfl, rfl, rfl, scanned.posWithin, fun other => (by cases other)⟩
    | wrong =>
      rw [ended] at left
      cases left
  obtain ⟨first, inner, buffer, pos, later⟩ := past
  obtain ⟨drained, used, _, shifted⟩ :=
    compact_shift { next with boundaryScanOffset := next.pos } (Nat.le_refl _)
  dsimp only at used shifted
  rw [shifted]
  constructor
  · exact first ▸ scanned.firstPresent
  · exact inner ▸ scanned.innerPresent
  · dsimp only
    rw [List.length_drop, buffer]
    omega
  · dsimp only
    rw [List.length_drop, buffer]
    omega
  · exact fun other => absurd other later
  · exact fun _ => .inl (Nat.le_refl _)

/-- Reading up to the first part keeps what holds of a parser. -/
theorem Scanned.passInitial (scanned : parser.Scanned) (waits : parser.state = .initial) :
    (afterPass parser.passInitial).Scanned := by
  rw [passInitial_eq]
  cases search : findBytesFrom parser.buffer (max parser.pos parser.boundaryScanOffset)
      parser.firstDelimiter with
  | none =>
    refine scanned.wait_initial waits (Nat.sub_le _ _) ?_
    exact searched_of_absent (findBytesFrom_none scanned.firstPresent search)
  | some found =>
    rw [findBytesFrom_iff scanned.firstPresent] at search
    dsimp only
    cases ended : ending parser.buffer (found + parser.firstDelimiter.length) with
    | waiting =>
      -- Waiting goes on at the place that was found.
      exact scanned.wait_initial waits (Nat.min_le_right _ _)
        ((search.searched scanned.firstPresent).shrink (Nat.le_refl _) (Nat.min_le_left _ _))
    | line start => exact scanned.enter (ending_line ended).2
    | last => exact scanned.finish
    | wrong => exact scanned

/-- Reading a part keeps what holds of a parser. -/
theorem Scanned.passInPart (scanned : parser.Scanned) (waits : parser.state = .inPart) :
    parser.passInPart.2.Scanned := by
  unfold MultipartParser.passInPart
  -- Every branch that does not leave the part keeps the parser as it was, but for the offset.
  cases ended : findBytesFrom parser.buffer parser.pos (crlf ++ crlf) with
  | none => exact scanned
  | some headerEnd =>
    have header := headerEnd_within ((findBytesFrom_iff headerEnd_present).mp ended)
    dsimp only
    cases read : parsePartHeaders ((parser.buffer.drop parser.pos).take (headerEnd - parser.pos)) with
    | error error => exact scanned
    | ok part =>
      dsimp only
      cases search : findBytesFrom parser.buffer (max (headerEnd + 4) parser.boundaryScanOffset)
          parser.innerDelimiter with
      | none =>
        -- Nothing was found, so no delimiter begins in front of the new offset.
        have absent := searched_of_absent (findBytesFrom_none scanned.innerPresent search)
        refine scanned.wait_inPart waits (by omega) ended ?_
        intro position low high
        exact absent position low (by omega)
      | some bodyEnd =>
        rw [findBytesFrom_iff scanned.innerPresent] at search
        have within := search.occurs.within scanned.innerPresent
        dsimp only
        cases left : parser.leavePart (skipWhile isTransportPadding parser.buffer
            (bodyEnd + parser.innerDelimiter.length)) with
        | error error => exact scanned
        -- Leaving a part starts the search anew behind it.
        | ok next => exact scanned.left waits within left

/-- Reading on behind a part keeps what holds of a parser. -/
theorem Scanned.passAfterInnerDelimiter (scanned : parser.Scanned)
    (waits : parser.state = .afterInnerDelimiter) :
    (afterPass parser.passAfterInnerDelimiter).Scanned := by
  rw [passAfterInnerDelimiter_eq]
  cases ended : ending parser.buffer parser.pos with
  -- Waiting keeps the state, and every other ending starts the search anew.
  | waiting =>
    refine ⟨scanned.firstPresent, scanned.innerPresent, skipWhile_le _ scanned.posWithin,
      scanned.offsetWithin, ?_, ?_⟩
    · exact fun other => (by rw [waits] at other; cases other)
    · exact fun other => (by rw [waits] at other; cases other)
  | line start => exact scanned.enter (ending_line ended).2
  | last => exact scanned.finish
  | wrong => exact scanned

/-- A pass of the loop keeps what holds of a parser. -/
theorem Scanned.pass (scanned : parser.Scanned) :
    (afterPass parser.pass).Scanned := by
  unfold MultipartParser.pass
  cases waits : parser.state with
  | initial => exact scanned.passInitial waits
  | inPart => exact scanned.passInPart waits
  | afterInnerDelimiter => exact scanned.passAfterInnerDelimiter waits
  | finished => exact scanned

/-- A call leaves a state of the parser. -/
theorem Reached.nextPart (reached : Reached parser) : Reached parser.nextPart.2 := by
  rw [nextPart_eq]
  -- A pass answers, or it starts a part, and then the next pass answers.
  split
  · exact reached
  · cases passed : parser.pass with
    | inl next =>
      obtain ⟨_, start, rfl⟩ := pass_continues passed
      have answer : (parser.enter start).pass = .inr (parser.enter start).passInPart := rfl
      exact (reached.passed passed).answered answer
    | inr answer => exact reached.answered passed

/-- In every state the positions are within the buffer, and nothing in front of the offset begins
a delimiter that is still searched. -/
theorem Reached.scanned (reached : Reached parser) : parser.Scanned := by
  -- The induction is on the calls and passes, each of which keeps the parser sound.
  induction reached with
  | new boundary => exact scanned_new boundary
  | limited maxBufferSize _ ih =>
    exact ⟨ih.firstPresent, ih.innerPresent, ih.posWithin, ih.offsetWithin, ih.initial, ih.inPart⟩
  | fed data _ ih => exact ih.feed data
  | passed _ passed ih =>
    have kept := ih.pass
    rw [passed] at kept
    exact kept
  | answered _ passed ih =>
    have kept := ih.pass
    rw [passed] at kept
    exact kept

/-- The parser without the offset, which searches every region from its start. -/
def forget (parser : MultipartParser) : MultipartParser := { parser with boundaryScanOffset := 0 }

section Forgotten

variable (parser : MultipartParser)

/-- The first delimiter does not change. -/
@[simp] theorem forget_firstDelimiter :
    parser.forget.firstDelimiter = parser.firstDelimiter := rfl

/-- The delimiter of a part does not change. -/
@[simp] theorem forget_innerDelimiter :
    parser.forget.innerDelimiter = parser.innerDelimiter := rfl

/-- What is held does not change. -/
@[simp] theorem forget_buffer : parser.forget.buffer = parser.buffer := rfl

/-- What is used up does not change. -/
@[simp] theorem forget_pos : parser.forget.pos = parser.pos := rfl

/-- What is waited for does not change. -/
@[simp] theorem forget_state : parser.forget.state = parser.state := rfl

/-- Whether the last delimiter has been read does not change. -/
@[simp] theorem forget_finished : parser.forget.finished = parser.finished := rfl

/-- The offset is at the start. -/
@[simp] theorem forget_boundaryScanOffset : parser.forget.boundaryScanOffset = 0 := rfl

end Forgotten

/-- What a pass returns, without the offset of the parser in it. -/
def forgetPass : MultipartParser ⊕ (Except MultipartError (Option Part) × MultipartParser) →
    MultipartParser ⊕ (Except MultipartError (Option Part) × MultipartParser) :=
  Sum.map forget (Prod.map id forget)

/-- Without the offset nothing has been searched. -/
theorem Scanned.forget (scanned : parser.Scanned) : parser.forget.Scanned where
  firstPresent := scanned.firstPresent
  innerPresent := scanned.innerPresent
  posWithin := scanned.posWithin
  offsetWithin := Nat.zero_le _
  initial := fun _ => searched_empty (Nat.zero_le _)
  inPart := fun _ => .inl (Nat.zero_le _)

/-- Reading up to the first part does not depend on the offset. -/
theorem Scanned.forget_passInitial (scanned : parser.Scanned) (waits : parser.state = .initial) :
    forgetPass parser.forget.passInitial = forgetPass parser.passInitial := by
  rw [passInitial_eq, passInitial_eq, scanned.resume_initial waits]
  simp only [forget_buffer, forget_pos, forget_boundaryScanOffset, forget_firstDelimiter,
    Nat.max_zero]
  -- Both are at the same place, and what they do there does not read the offset.
  cases findBytesFrom parser.buffer parser.pos parser.firstDelimiter with
  | none => rfl
  | some found =>
    dsimp only
    cases ending parser.buffer (found + parser.firstDelimiter.length) with
    | waiting => rfl
    | line start => rfl
    | last => rfl
    | wrong => rfl

/-- Leaving a part does not read the offset. -/
theorem forget_leavePart (parser : MultipartParser) (padded : Nat) :
    parser.forget.leavePart padded = (parser.leavePart padded).map forget := by
  unfold leavePart
  simp only [forget_buffer]
  -- The two bytes behind the delimiter decide, and the offset is not read.
  cases twoBytes parser.buffer padded with
  | none => rfl
  | some head =>
    dsimp only
    by_cases last : head = hyphens
    · rw [if_pos last, if_pos last]
      rfl
    · rw [if_neg last, if_neg last]
      by_cases line : head = crlf
      · rw [if_pos line, if_pos line]
        rfl
      · rw [if_neg line, if_neg line]
        rfl

/-- Reading a part does not depend on the offset. -/
theorem Scanned.forget_passInPart (scanned : parser.Scanned) (waits : parser.state = .inPart) :
    Prod.map id MultipartParser.forget parser.forget.passInPart =
      Prod.map id MultipartParser.forget parser.passInPart := by
  unfold MultipartParser.passInPart
  simp only [forget_buffer, forget_pos, forget_boundaryScanOffset, forget_innerDelimiter,
    forget_leavePart, Nat.max_zero]
  cases ended : findBytesFrom parser.buffer parser.pos (crlf ++ crlf) with
  | none => rfl
  | some headerEnd =>
    dsimp only
    cases parsePartHeaders ((parser.buffer.drop parser.pos).take (headerEnd - parser.pos)) with
    | error error => rfl
    | ok part =>
      dsimp only
      rw [scanned.resume_inPart waits ended]
      cases findBytesFrom parser.buffer (headerEnd + 4) parser.innerDelimiter with
      | none => rfl
      | some bodyEnd =>
        -- Both leave the part at the same place.
        dsimp only
        cases parser.leavePart (skipWhile isTransportPadding parser.buffer
            (bodyEnd + parser.innerDelimiter.length)) with
        | error error => rfl
        | ok left => rfl

/-- Reading on behind a part does not depend on the offset. -/
theorem forget_passAfterInnerDelimiter (parser : MultipartParser) :
    forgetPass parser.forget.passAfterInnerDelimiter =
      forgetPass parser.passAfterInnerDelimiter := by
  rw [passAfterInnerDelimiter_eq, passAfterInnerDelimiter_eq]
  simp only [forget_buffer, forget_pos]
  cases ending parser.buffer parser.pos with
  | waiting => rfl
  | line start => rfl
  | last => rfl
  | wrong => rfl

/-- A pass does not depend on the offset. -/
theorem Scanned.forget_pass (scanned : parser.Scanned) :
    forgetPass parser.forget.pass = forgetPass parser.pass := by
  unfold MultipartParser.pass
  simp only [forget_state]
  -- Each state has its own lemma, and the last one reads nothing.
  cases waits : parser.state with
  | initial => exact scanned.forget_passInitial waits
  | inPart => exact congrArg Sum.inr (scanned.forget_passInPart waits)
  | afterInnerDelimiter => exact forget_passAfterInnerDelimiter parser
  | finished => rfl

/-- A call does not depend on the offset. -/
theorem Scanned.forget_nextPart (scanned : parser.Scanned) :
    Prod.map id MultipartParser.forget parser.forget.nextPart =
      Prod.map id MultipartParser.forget parser.nextPart := by
  have same := scanned.forget_pass
  have kept := scanned.pass
  have keptForgotten := scanned.forget.pass
  rw [nextPart_eq, nextPart_eq]
  by_cases done : parser.finished = true
  · have alsoDone : parser.forget.finished = true := done
    rw [if_pos alsoDone, if_pos done]
    rfl
  · have notDone : ¬ parser.forget.finished = true := done
    rw [if_neg notDone, if_neg done]
    cases forgotten : parser.forget.pass with
    | inr answer =>
      cases passed : parser.pass with
      | inr other =>
        rw [forgotten, passed] at same
        exact Sum.inr.inj same
      | inl next =>
        rw [forgotten, passed] at same
        cases same
    | inl other =>
      cases passed : parser.pass with
      | inr answer =>
        rw [forgotten, passed] at same
        cases same
      | inl next =>
        -- Both have come to the same part.
        rw [forgotten, passed] at same
        rw [forgotten] at keptForgotten
        rw [passed] at kept
        obtain ⟨_, start, rfl⟩ := pass_continues passed
        obtain ⟨_, first, rfl⟩ := pass_continues forgotten
        have agree := Sum.inl.inj same
        have entered : (parser.enter start).Scanned := kept
        have enteredForgotten : (parser.forget.enter first).Scanned := keptForgotten
        dsimp only
        rw [← enteredForgotten.forget_passInPart rfl, ← entered.forget_passInPart rfl]
        exact congrArg (fun parser : MultipartParser =>
          Prod.map id MultipartParser.forget parser.passInPart) agree

/-- A call keeps what holds of a parser. -/
theorem Scanned.nextPart (scanned : parser.Scanned) : parser.nextPart.2.Scanned := by
  have kept := scanned.pass
  rw [nextPart_eq]
  split
  · exact scanned
  · -- A pass answers, or it starts a part, and then the next pass answers.
    cases passed : parser.pass with
    | inl next =>
      rw [passed] at kept
      obtain ⟨_, start, rfl⟩ := pass_continues passed
      have entered : (parser.enter start).Scanned := kept
      exact entered.passInPart rfl
    | inr answer =>
      rw [passed] at kept
      exact kept

/-- A call of a parser. -/
inductive Call where
  /-- More input. -/
  | feed (data : Bytes)
  /-- The next part. -/
  | nextPart

/-- What a call answers, and the parser behind it. -/
def call (parser : MultipartParser) : Call → Except MultipartError (Option Part) × MultipartParser
  | .feed data => ((parser.feed data).1.map fun _ => none, (parser.feed data).2)
  | .nextPart => parser.nextPart

/-- What calls answer one after the other, with something done to the parser before each of them. -/
def answers (before : MultipartParser → MultipartParser) (parser : MultipartParser) :
    List Call → List (Except MultipartError (Option Part))
  | [] => []
  | next :: calls =>
    ((before parser).call next).1 :: answers before ((before parser).call next).2 calls

/-- A call leaves a state of the parser. -/
theorem Reached.call (reached : Reached parser) (next : Call) : Reached (parser.call next).2 := by
  cases next with
  | feed data => exact reached.fed data
  | nextPart => exact reached.nextPart

/-- No call depends on the offset. -/
theorem Scanned.forget_call (scanned : parser.Scanned) (next : Call) :
    Prod.map id MultipartParser.forget (parser.forget.call next) =
      Prod.map id MultipartParser.forget (parser.call next) := by
  cases next with
  | feed data =>
    unfold MultipartParser.call
    dsimp only
    -- Whether input is refused depends on the buffer and the position only.
    by_cases full : parser.maxBufferSize <
        min (parser.buffer.length - parser.pos + data.length) usizeMax
    · have refused : parser.feed data = (.error _, parser) := if_pos full
      have refusedForgotten : parser.forget.feed data = (.error _, parser.forget) := if_pos full
      rw [refused, refusedForgotten]
      rfl
    · have taken : parser.feed data = (.ok (), { parser with buffer := parser.buffer ++ data }) :=
        if_neg full
      have takenForgotten : parser.forget.feed data =
          (.ok (), { parser.forget with buffer := parser.buffer ++ data }) := if_neg full
      rw [taken, takenForgotten]
      rfl
  | nextPart => exact scanned.forget_nextPart

/-- Parsers that differ in the offset only answer the same calls alike, whether or not the offset
is forgotten before every call. -/
theorem answers_forget (reached : Reached parser) (calls : List Call) :
    ∀ other : MultipartParser, other.Scanned → other.forget = parser.forget →
      answers forget other calls = answers id parser calls := by
  induction calls generalizing parser with
  | nil => exact fun _ _ _ => rfl
  | cons next calls ih =>
    intro other _ same
    -- One call answers alike, and leaves parsers that differ in the offset only.
    have alike := reached.scanned.forget_call next
    obtain ⟨first, behind⟩ : (parser.forget.call next).1 = (parser.call next).1 ∧
        (parser.forget.call next).2.forget = (parser.call next).2.forget :=
      Prod.mk.inj alike
    have kept : (parser.forget.call next).2.Scanned := by
      cases next with
      | feed data => exact reached.scanned.forget.feed data
      | nextPart => exact reached.scanned.forget.nextPart
    change (other.forget.call next).1 :: answers forget (other.forget.call next).2 calls =
      (parser.call next).1 :: answers id (parser.call next).2 calls
    rw [same, first, ih (reached.call next) _ kept behind]

/--
The offset from which delimiters are searched is invisible.

In every state the positions are within the buffer and no delimiter begins in front of the offset in
the region that is searched, so that every search finds what it would find from the start of that
region. Compaction shifts everything alike, and no calls tell a parser that forgets the offset from
one that keeps it.
-/
theorem scanOffset_invisible (parser : MultipartParser) (reached : Reached parser) :
    parser.pos ≤ parser.buffer.length ∧ parser.boundaryScanOffset ≤ parser.buffer.length ∧
    (parser.state = .initial →
      Searched parser.firstDelimiter parser.buffer parser.pos parser.boundaryScanOffset ∧
      findBytesFrom parser.buffer (max parser.pos parser.boundaryScanOffset)
          parser.firstDelimiter =
        findBytesFrom parser.buffer parser.pos parser.firstDelimiter) ∧
    (parser.state = .inPart → ∀ headerEnd,
      findBytesFrom parser.buffer parser.pos (crlf ++ crlf) = some headerEnd →
        Searched parser.innerDelimiter parser.buffer (headerEnd + 4) parser.boundaryScanOffset ∧
        findBytesFrom parser.buffer (max (headerEnd + 4) parser.boundaryScanOffset)
            parser.innerDelimiter =
          findBytesFrom parser.buffer (headerEnd + 4) parser.innerDelimiter) ∧
    (∀ padded left, parser.leavePart padded = .ok left →
      let behind := { left with boundaryScanOffset := left.pos }
      behind.compact.buffer.drop behind.compact.pos = behind.buffer.drop behind.pos ∧
      ∃ drained, drained ≤ behind.pos ∧ drained ≤ behind.boundaryScanOffset ∧
        behind.compact = { behind with
          buffer := behind.buffer.drop drained
          pos := behind.pos - drained
          boundaryScanOffset := behind.boundaryScanOffset - drained }) ∧
    ∀ calls, answers forget parser calls = answers id parser calls := by
  have scanned := reached.scanned
  refine ⟨scanned.posWithin, scanned.offsetWithin, ?_, ?_, ?_, ?_⟩
  · exact fun waits => ⟨scanned.initial waits, scanned.resume_initial waits⟩
  · -- In a part the offset speaks of the delimiter behind its header lines.
    exact fun waits headerEnd found =>
      ⟨scanned.searched_inPart waits found, scanned.resume_inPart waits found⟩
  · intro padded left _ behind
    exact ⟨compact_drop behind, compact_shift behind (Nat.le_refl _)⟩
  · exact fun calls => answers_forget reached calls parser scanned rfl

/-- A delimiter cut in two: behind the first piece, the offset is in front of what has arrived of it,
and the search from there on finds it at its place once the second piece is there. -/
theorem scanOffset_invisible_cut :
    let front := Utf8.encode
      "--b\r\nContent-Disposition: form-data; name=\"x\"\r\n\r\nvalue\r\n-".toList
    let waiting := ((new ['b']).feed front).2.nextPart.2
    let parser := (waiting.feed (Utf8.encode "-b--".toList)).2
    parser.state = .inPart ∧ parser.pos = 5 ∧ parser.boundaryScanOffset = 53 ∧
      findBytesFrom parser.buffer (max (45 + 4) 53) parser.innerDelimiter = some 54 ∧
      findBytesFrom parser.buffer (45 + 4) parser.innerDelimiter = some 54 := by
  intro front waiting parser
  have reached : Reached parser := ((Reached.new ['b']).fed front).nextPart.fed _
  -- The two pieces leave the offset inside of the delimiter that they share.
  have places : parser.state = .inPart ∧ parser.pos = 5 ∧ parser.boundaryScanOffset = 53 ∧
      findBytesFrom parser.buffer parser.pos (crlf ++ crlf) = some 45 ∧
      findBytesFrom parser.buffer (45 + 4) parser.innerDelimiter = some 54 := by
    decide +kernel
  obtain ⟨waits, pos, offset, header, found⟩ := places
  refine ⟨waits, pos, offset, ?_, found⟩
  have resumed := ((scanOffset_invisible parser reached).2.2.2.1 waits 45 header).2
  rw [offset, found] at resumed
  exact resumed

end MultipartParser

end Http11

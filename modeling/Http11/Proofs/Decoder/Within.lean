import Http11.Mixing
import Http11.Proofs.Refusal
import Http11.Proofs.Session

/-! A reader within one message: which lines are lost, what it is told, and where it ends. -/

namespace Http11

/-- A section goes on behind each of its lines, up to the empty one. -/
theorem sectionEnd_line {buf line rest : Bytes} (split : splitLine buf = some (line, rest)) :
    sectionEnd buf = if line.isEmpty then some rest else sectionEnd rest := by
  have pass : sectionLoop.body buf =
      if line.isEmpty then .inr (some rest) else .inl rest := by
    simp [sectionLoop, sectionPass, split]
  -- The line is either the empty one, or one more pass is made behind it.
  by_cases empty : line.isEmpty = true
  · rw [if_pos empty] at pass ⊢
    exact sectionLoop.run_of_return pass
  · rw [if_neg empty] at pass ⊢
    exact sectionLoop.run_of_continue pass

namespace BodyState

/-- A line of a body that is lost is lost with more input behind it. -/
theorem Loses.feed {limits : DecoderLimits} {state : BodyState} (loses : state.Loses limits)
    (input : Bytes) : ({ state with buf := state.buf ++ input } : BodyState).Loses limits := by
  obtain ⟨line, rest, split, refused⟩ := loses
  exact ⟨line, rest ++ input, splitLine_append split input, refused⟩

/-- A phase behind all content of a body. -/
def IsOver (state : BodyState) : Prop := state.phase = .chunkedTrailer ∨ state.phase = .complete

/-- What stands behind a message once some more input has arrived. -/
def endWith (state : BodyState) (input : Bytes) : Option Bytes :=
  messageEnd { state with buf := state.buf ++ input }

/-- One state behind all content is as far as another: the message ends at the same place. -/
structure Closes (state next : BodyState) : Prop where
  /-- It stays behind the content. -/
  past : next.IsOver
  /-- What is complete stays so. -/
  complete : state.phase = .complete → next.phase = .complete
  /-- Whatever arrives, the end of the message is found where it was. -/
  ends : ∀ input, next.endWith input = state.endWith input

/-- One after the other. -/
theorem Closes.trans {state middle last : BodyState} (first : state.Closes middle)
    (rest : middle.Closes last) : state.Closes last :=
  ⟨rest.past, fun complete => rest.complete (first.complete complete),
    fun input => (rest.ends input).trans (first.ends input)⟩

/-- A state behind all content is as far as itself. -/
theorem Closes.refl {state : BodyState} (past : state.IsOver) : state.Closes state :=
  ⟨past, id, fun _ => rfl⟩

/-- Only the phase and the buffer say where a message ends. -/
theorem Closes.of_same {state next : BodyState} (past : state.IsOver)
    (phase : next.phase = state.phase) (buf : next.buf = state.buf) : state.Closes next := by
  refine ⟨?_, fun complete => phase.trans complete, fun input => ?_⟩
  · exact past.imp phase.trans phase.trans
  · simp only [endWith, messageEnd, phase, buf]

/-- A line that goes by in front of the trailers leaves the end of the message where it is. -/
theorem Closes.of_line {state next : BodyState} {line rest : Bytes}
    (trailing : state.phase = .chunkedTrailer) (split : splitLine state.buf = some (line, rest))
    (present : line ≠ []) (phase : next.phase = .chunkedTrailer) (buf : next.buf = rest) :
    state.Closes next := by
  refine ⟨.inl phase, fun complete => ?_, fun input => ?_⟩
  · rw [trailing] at complete
    cases complete
  · -- The line is not the empty one, so the end lies in what follows it.
    have nonempty : line.isEmpty = false := by simpa using present
    simp only [endWith, messageEnd, phase, trailing, buf]
    rw [sectionEnd_line (splitLine_append split input), nonempty]
    rfl

/-- Behind the content, body operations stay in front of the same end. -/
theorem Change.closes {limits : DecoderLimits} {state next : BodyState}
    (changed : Change limits state next) (past : state.IsOver) : state.Closes next := by
  cases changed with
  | trailerLine phase split =>
    rename_i line rest
    rcases trailerLine_cases limits state line rest with ⟨empty, read⟩ | ⟨_, _, _, read⟩ |
      ⟨present, _, _, read⟩ | ⟨present, _, _, _, _, _, _, _, _, read⟩ <;> rw [read]
    · -- The empty line is the end.
      refine ⟨.inr rfl, fun _ => rfl, fun input => ?_⟩
      simp only [endWith, messageEnd, phase]
      rw [sectionEnd_line (splitLine_append split input), empty]
      rfl
    · exact .refl past
    · exact .of_line phase split present phase rfl
    · exact .of_line phase split present phase rfl
  | handOver phase => exact .of_same past rfl rfl
  -- In every other phase there is content left.
  | sizeLine phase | lineEnd phase | content phase | chunk phase | lasting phase =>
    rcases past with other | other <;> rw [phase] at other <;> cases other
  | overflow counting kind phase =>
    rcases past with other | other <;> rw [phase] at other <;> rcases kind with rfl | rfl <;>
      cases other

/-- Behind the content, consuming stays in front of the same end. -/
theorem consumeBody_closes (limits : DecoderLimits) (len : Nat) {state : BodyState}
    (past : state.IsOver) : state.Closes (consumeBody limits len state).2 := by
  have changes := consumeBody_changes limits len state
  generalize (consumeBody limits len state).2 = next at changes ⊢
  induction changes with
  | refl => exact .refl past
  | tail _ last ih => exact ih.trans (last.closes ih.past)

end BodyState

namespace Reader

variable {Head Context : Type} {side : Side Head Context} {limit : Option Nat}
  {reader next failed : Reader Head Context}

/-- The next line declares a chunk with which the body would pass its limit. -/
def Overruns (reader : Reader Head Context) : Prop :=
  reader.core.phase = .bodyChunkedSize ∧ reader.core.toBodyState.Loses reader.core.limits

/-- Such a line is taken off the buffer before it is refused. -/
theorem Overruns.drops (overruns : reader.Overruns) : reader.Drops side :=
  ⟨by simp [overruns.1], .inl overruns.2⟩

/-- A line that is lost is lost with more input behind it. -/
theorem Drops.feed (drops : reader.Drops side) (input : Bytes) :
    (reader.feed input).Drops side := by
  obtain ⟨within, inside | ⟨line, rest, split, refused⟩⟩ := drops
  · exact ⟨within, .inl (inside.feed input)⟩
  · exact ⟨within, .inr ⟨line, rest ++ input, splitLine_append split input, refused⟩⟩

/-- Behind the head, what a reader was told does not decide which lines are lost. -/
theorem Drops.told (drops : reader.Drops side) (settled : reader.core.phase.isHeading = false)
    (context : Context) : (reader.told context).Drops side := by
  obtain ⟨within, inside | ⟨line, rest, split, refused⟩⟩ := drops
  · exact ⟨within, .inl inside⟩
  · -- Only lines of a head are left, and there are none.
    exfalso
    cases phase : reader.core.phase with
    | startLine | headers =>
      rw [phase] at settled
      cases settled
    | bodyContentLength | bodyChunkedSize | bodyChunkedData | bodyChunkedDataCrlf | chunkedTrailer
    | bodyCloseDelimited | tunnel | complete => simp only [phase] at refused

/-- How a step fails inside a body: what is refused stays, or is taken off the buffer. -/
theorem step_failed (stepped : reader.step side limit = some failed) (stuck : failed.failed ≠ none)
    (reading : failed.current ≠ none) :
    { failed with failed := none } = reader ∨
      (reader.Overruns ∧ failed.core.buf.length < reader.core.buf.length) ∨
      reader.core.phase = .chunkedTrailer ∧ ∃ line rest, line ≠ [] ∧
        splitLine reader.core.buf = some (line, rest) ∧ { failed with failed := none } =
          { reader with core := { reader.core with buf := rest } } := by
  -- A step is taken only by a reader that has not failed before.
  have unfailed : reader.halted limit = false → reader.failed = none := failed_of_running
  have same : ∀ {Result : Type} (error : Error) (state : BodyState), reader.failed = none →
      { reader.afterBody (Except.error (α := Result) error, state) with failed := none } =
        { reader with core := { reader.core with toBodyState := state } } := by
    intro _ error state running
    obtain ⟨core, current, body, done, _⟩ := reader
    cases running
    rfl
  -- Failing in a head leaves no message to be read.
  have atHead : ∀ line rest,
      (reader.afterHead (reader.core.headLine side line rest)).failed ≠ none →
        (reader.afterHead (reader.core.headLine side line rest)).current = none := by
    intro line rest failing
    rcases read : reader.core.headLine side line rest with ⟨_ | _, _⟩
    · rfl
    · simp [afterHead, read] at failing
  unfold step at stepped
  split at stepped
  · cases stepped
  · simp only [Option.map_eq_some_iff] at stepped
    obtain ⟨⟨line, rest⟩, _, rfl⟩ := stepped
    exact absurd (atHead line rest stuck) reading
  · simp only [Option.map_eq_some_iff] at stepped
    obtain ⟨⟨line, rest⟩, _, rfl⟩ := stepped
    exact absurd (atHead line rest stuck) reading
  · rename_i running _
    split at stepped <;> cases stepped
    exact absurd (unfailed running) stuck
  · rename_i running phase
    simp only [Option.map_eq_some_iff] at stepped
    obtain ⟨⟨line, rest⟩, split, rfl⟩ := stepped
    have shorter := splitLine_length split
    dsimp only at stuck ⊢
    rcases read : reader.core.toBodyState.chunkSizeLine reader.core.limits line rest with
      ⟨error | _, state⟩
    · rcases BodyState.chunkSizeLine_refused phase split read with kept | ⟨taken, loses⟩
      · left
        rw [kept]
        exact same _ _ (unfailed running)
      · refine .inr (.inl ⟨⟨phase, loses⟩, ?_⟩)
        simp only [afterBody, taken]
        omega
    · simp [read, afterBody] at stuck
  · -- A byte of a body never fails.
    rename_i running _
    split at stepped <;> cases stepped
    exact absurd (unfailed running) stuck
  · -- A size line stays, or it is lost.
    rename_i running phase
    split at stepped <;> cases stepped
    -- What stands in place of the line end stays.
    rcases BodyState.chunkDataCrlf_cases reader.core.toBodyState with ⟨_, read⟩ | ⟨_, read⟩ |
      ⟨_, _, read⟩
    · simp [read, afterBody] at stuck
    · left
      rw [read]
      exact same _ _ (unfailed running)
    · simp [read, afterBody] at stuck
  · rename_i running phase
    simp only [Option.map_eq_some_iff] at stepped
    obtain ⟨⟨line, rest⟩, split, rfl⟩ := stepped
    -- A trailer stays if it breaks a limit, and is gone if it is bad.
    rcases BodyState.trailerLine_cases reader.core.limits reader.core.toBodyState line rest with
      ⟨_, read⟩ | ⟨_, _, _, read⟩ | ⟨present, _, _, read⟩ | ⟨_, _, _, _, _, _, _, _, _, read⟩
    · simp [read, afterBody] at stuck
    · left
      rw [read]
      exact same _ _ (unfailed running)
    · -- A bad trailer is gone, but it was behind all content.
      right; right
      rw [read]
      exact ⟨phase, line, rest, present, split, same _ _ (unfailed running)⟩
    · simp [read, afterBody] at stuck
  · rename_i running _
    cases stepped
    exact absurd (unfailed running) stuck
  · cases stepped
  · cases stepped

/-- Messages that were read stay, so before there are any there were none. -/
theorem step_done (stepped : reader.step side limit = some next) (none : next.done = []) :
    reader.done = [] := by
  unfold step at stepped
  split at stepped
  · -- In every phase but the last the step leaves what was read before.
    cases stepped
  · simp only [Option.map_eq_some_iff] at stepped
    obtain ⟨_, _, rfl⟩ := stepped
    exact none
  · simp only [Option.map_eq_some_iff] at stepped
    obtain ⟨_, _, rfl⟩ := stepped
    exact none
  · split at stepped <;> cases stepped
    exact none
  · simp only [Option.map_eq_some_iff] at stepped
    obtain ⟨_, _, rfl⟩ := stepped
    exact none
  · split at stepped <;> cases stepped
    exact none
  · split at stepped <;> cases stepped
    exact none
  · simp only [Option.map_eq_some_iff] at stepped
    obtain ⟨_, _, rfl⟩ := stepped
    exact none
  · cases stepped
    -- At the end a message is read, and then some were; otherwise nothing changes.
    simp only [push] at none
    split at none
    · simp at none
    · exact none
  · cases stepped
  · cases stepped

/-- Inside a body, a step keeps the head and does not depend on what the reader was told. -/
theorem step_told (stepped : reader.step side limit = some next)
    (settled : reader.core.phase.isHeading = false) (incomplete : reader.core.phase ≠ .complete)
    (context : Context) :
    (reader.told context).step side limit = some (next.told context) ∧
      next.current = reader.current := by
  obtain ⟨⟨⟨buf, phase, bodyDecoder⟩, startLine, headers, limits, before⟩, current, body, done,
    failed⟩ := reader
  unfold step at stepped ⊢
  -- Whether the reader halts does not depend on what it was told.
  have alike : halted limit (told ⟨⟨⟨buf, phase, bodyDecoder⟩, startLine, headers, limits, before⟩,
      current, body, done, failed⟩ context) = halted limit ⟨⟨⟨buf, phase, bodyDecoder⟩, startLine,
      headers, limits, before⟩, current, body, done, failed⟩ := rfl
  rw [alike]
  split at stepped
  · cases stepped
  · -- The phases of a head are left out.
    rename_i found
    rw [show phase = _ from found] at settled
    cases settled
  · rename_i found
    rw [show phase = _ from found] at settled
    cases settled
  · rename_i running found
    cases (show phase = _ from found)
    -- The bytes of a content and of a chunk are taken one at a time.
    rw [running]
    split at stepped <;> cases stepped
    rename_i buffered
    cases (show buf = _ from buffered)
    exact ⟨rfl, rfl⟩
  · rename_i running found
    cases (show phase = _ from found)
    rw [running]
    -- A line of the framing is split off alike.
    simp only [Option.map_eq_some_iff] at stepped
    obtain ⟨⟨line, rest⟩, split, rfl⟩ := stepped
    simp only [told, Option.map_eq_some_iff]
    exact ⟨⟨(line, rest), split, rfl⟩, rfl⟩
  · rename_i running found
    cases (show phase = _ from found)
    rw [running]
    split at stepped <;> cases stepped
    rename_i buffered
    cases (show buf = _ from buffered)
    exact ⟨rfl, rfl⟩
  · rename_i running found
    cases (show phase = _ from found)
    rw [running]
    split at stepped <;> cases stepped
    rename_i buffered
    cases (show buf = _ from buffered)
    exact ⟨rfl, rfl⟩
  · rename_i running found
    cases (show phase = _ from found)
    rw [running]
    simp only [Option.map_eq_some_iff] at stepped
    obtain ⟨⟨line, rest⟩, split, rfl⟩ := stepped
    simp only [told, Option.map_eq_some_iff]
    exact ⟨⟨(line, rest), split, rfl⟩, rfl⟩
  · -- The end of a message is left out.
    exact absurd (by assumption) incomplete
  · cases stepped
  · cases stepped

/-- Only a reader that has not failed takes a step. -/
theorem failed_of_step (stepped : reader.step side limit = some next) : reader.failed = none := by
  cases running : reader.halted limit with
  | false => exact failed_of_running running
  | true =>
    have settled : reader.step side limit = none := settled_of_halted running
    rw [settled] at stepped
    cases stepped

/-- A reader that has read a head is past it. -/
theorem outside_of_current (consistent : reader.Consistent) (reading : reader.current ≠ none) :
    reader.core.phase.isHeading = false := by
  cases phase : reader.core.phase with
  | startLine | headers =>
    simp only [Consistent, phase] at consistent
    exact absurd consistent.1 reading
  | bodyContentLength | bodyChunkedSize | bodyChunkedData | bodyChunkedDataCrlf | chunkedTrailer
  | bodyCloseDelimited | tunnel | complete => rfl

/-- Only the end of a message counts it as read. -/
theorem done_of_complete (consistent : reader.Consistent) (complete : reader.core.phase = .complete)
    (stepped : reader.step side limit = some next) : next.done ≠ [] := by
  simp only [Consistent, complete] at consistent
  obtain ⟨⟨head, bodyKind, current, _⟩, _⟩ := consistent
  -- A halted reader takes no step, and the step of a complete message hands it over.
  cases running : reader.halted limit with
  | true => simp [step, running] at stepped
  | false =>
    simp only [step, running, complete, Option.some.injEq] at stepped
    subst stepped
    simp [push, current]

/-- What a reader is told does not change how it reads the message whose head it has read. -/
theorem reaches_told {origin : Reader Head Context} (lawful : side.Lawful)
    (reached : (machine side limit).Reaches origin reader) (proper : origin.Proper side)
    (reading : origin.current ≠ none) (inside : reader.done = []) (context : Context) :
    reader.current = origin.current ∧
      (machine side limit).Reaches (origin.told context) (reader.told context) := by
  -- The steps so far all read the body of the same message, whose head stays.
  induction reached with
  | refl => exact ⟨rfl, .refl⟩
  | tail before last ih =>
    rename_i reader next
    change reader.step side limit = some next at last
    obtain ⟨current, earlier⟩ := ih (step_done last inside)
    have sound := reaches_proper lawful before proper (failed_of_step last)
    have settled := outside_of_current sound.consistent (by rwa [current])
    have incomplete : reader.core.phase ≠ .complete := fun complete =>
      done_of_complete sound.consistent complete last inside
    obtain ⟨alike, same⟩ := step_told last settled incomplete context
    exact ⟨same.trans current, earlier.tail alike⟩

/-- A reader without a head is in front of one. -/
theorem heading_of_unread (consistent : reader.Consistent) (unread : reader.current = none) :
    reader.core.phase.isHeading = true := by
  cases phase : reader.core.phase with
  | startLine | headers => rfl
  | bodyContentLength | bodyChunkedSize | bodyChunkedData | bodyChunkedDataCrlf | chunkedTrailer
  | bodyCloseDelimited | tunnel | complete => simp [Consistent, phase, unread] at consistent

/-- Before its end, a line of a head is read alike whatever the reader was told. -/
theorem step_told_heading (stepped : reader.step side limit = some next)
    (heading : reader.core.phase.isHeading = true) (unfailed : next.failed = none)
    (unread : next.current = none) (context : Context) :
    (reader.told context).step side limit = some (next.told context) := by
  have phases : reader.core.phase = .startLine ∨ reader.core.phase = .headers := by
    simpa [DecodePhase.isHeading] using heading
  have running : reader.halted limit = false := by
    cases running : reader.halted limit with
    | false => rfl
    | true => simp [step, running] at stepped
  have later : (reader.told context).halted limit = false := running
  -- Both readers take the same line, and the next line is read by both in the same way.
  have line : ∀ {line rest}, splitLine reader.core.buf = some (line, rest) →
      next = reader.afterHead (reader.core.headLine side line rest) →
      (reader.told context).afterHead ((reader.told context).core.headLine side line rest) =
        next.told context := by
    rintro line rest split rfl
    obtain ⟨⟨⟨buf, phase, bodyDecoder⟩, startLine, headers, limits, before⟩, current, body, done,
      failed⟩ := reader
    rcases read : Core.headLine side ⟨⟨buf, phase, bodyDecoder⟩, startLine, headers, limits, before⟩
      line rest with ⟨error | result, core⟩
    · simp [afterHead, read] at unfailed
    · have none : result = Option.none := by simpa [afterHead, read] using unread
      subst none
      have alike : Core.headLine side ⟨⟨buf, phase, bodyDecoder⟩, startLine, headers, limits,
          context⟩ line rest = (.ok Option.none, { core with context }) := by
        rcases Core.headLine_ok read with ⟨first, _, started⟩ | ⟨_, _, _, _, other, _⟩ |
          ⟨other, present, _, listed⟩
        · obtain ⟨text, decoded, checked, rfl⟩ := Core.readStartLine_ok started
          simp only at first
          simp [Core.headLine, first, Core.readStartLine, decoded, checked, Except.map]
        · cases other
        · obtain ⟨text, field, decoded, parsed, short, few, rfl⟩ := Core.readHeaderLine_ok listed
          simp only at other short few
          simp [Core.headLine, other, present, Core.readHeaderLine, Nat.not_lt.mpr short,
            Nat.not_le.mpr few, decoded, parsed, Except.map]
      simp only [told, afterHead, alike]
  rcases phases with phase | phase <;>
    simp only [step, running, phase, Option.map_eq_some_iff] at stepped <;>
    obtain ⟨⟨first, rest⟩, split, same⟩ := stepped <;>
    simp only [step, later, show (reader.told context).core.phase = _ from phase,
      show splitLine (reader.told context).core.buf = _ from split, Option.map_some] <;>
    rw [line split same.symm]

/-- What a reader is told in front of a head does not change how it comes there. -/
theorem reaches_told_heading {origin : Reader Head Context} (lawful : side.Lawful)
    (reached : (machine side limit).Reaches origin reader) (proper : origin.Proper side)
    (unfailed : reader.failed = none) (unread : reader.current = none) (inside : reader.done = [])
    (context : Context) :
    (machine side limit).Reaches (origin.told context) (reader.told context) := by
  -- A head that had been read on the way would still be there.
  induction reached with
  | refl => exact .refl
  | tail before last ih =>
    rename_i reader next
    change reader.step side limit = some next at last
    have none := failed_of_step last
    have sound := reaches_proper lawful before proper none
    have before : reader.current = Option.none := by
      by_contra reading
      have incomplete : reader.core.phase ≠ .complete := fun complete =>
        done_of_complete sound.consistent complete last inside
      have same := (step_told last (outside_of_current sound.consistent reading) incomplete
        context).2
      exact reading (same.symm.trans unread)
    have heading := heading_of_unread sound.consistent before
    exact (ih none before (step_done last inside)).tail
      (step_told_heading last heading unfailed unread context)

/-- A line of the message that is refused, other than a trailer, is off a buffer already. -/
def Lost (side : Side Head Context) (origin : Reader Head Context) (buf : Bytes) : Prop :=
  ∃ reader, (machine side (some 1)).Reaches origin reader ∧ reader.done = [] ∧
    reader.failed = none ∧ reader.Drops side ∧ buf.length < reader.core.buf.length

/-- What is lost stays so when input arrives. -/
theorem Lost.feed {origin : Reader Head Context} {buf : Bytes} (lost : Lost side origin buf)
    (input : Bytes) : Lost side (origin.feed input) (buf ++ input) := by
  obtain ⟨reader, reached, inside, unfailed, drops, shorter⟩ := lost
  refine ⟨reader.feed input, reached.feed input, inside, unfailed, drops.feed input, ?_⟩
  simp only [Reader.feed, List.length_append]
  omega

/-- What is reached behind a head is reached from the start, whatever was said behind the head. -/
theorem reaches_back {origin head : Reader Head Context} (lawful : side.Lawful)
    (reached : (machine side (some 1)).Reaches origin head) (proper : head.Proper side)
    (reading : head.current ≠ none) {context : Context}
    (later : (machine side (some 1)).Reaches (head.told context) reader)
    (inside : reader.done = []) : reader.current = head.current ∧
      (machine side (some 1)).Reaches origin (reader.told head.core.context) := by
  have told : (head.told context).Proper side := ⟨proper.consistent, proper.determined⟩
  obtain ⟨current, back⟩ := reaches_told lawful later told reading inside head.core.context
  exact ⟨current, reached.trans back⟩

/-- What is lost behind a head is lost, whatever was said behind that head. -/
theorem Lost.before {origin head : Reader Head Context} {buf : Bytes} (lawful : side.Lawful)
    (reached : (machine side (some 1)).Reaches origin head) (proper : head.Proper side)
    (reading : head.current ≠ none) {context : Context}
    (lost : Lost side (head.told context) buf) : Lost side origin buf := by
  obtain ⟨reader, later, inside, unfailed, drops, shorter⟩ := lost
  obtain ⟨current, back⟩ := reaches_back lawful reached proper reading later inside
  have told : (head.told context).Proper side := ⟨proper.consistent, proper.determined⟩
  -- What the reader was told does not change what it reads behind the head.
  have sound := reaches_proper lawful later told unfailed
  have settled := outside_of_current sound.consistent (by rw [current]; exact reading)
  exact ⟨reader.told head.core.context, back, inside, unfailed,
    drops.told settled head.core.context, shorter⟩

/-- Behind all content, what follows the message is found in the lines that are left. -/
theorem behind_over (past : reader.Over) : reader.behind side = reader.core.messageEnd := by
  refine (behindLoop side).run_of_return ?_
  simp only [behindLoop, if_pos past]

/-- Every step within a message leads to the same end of it. -/
theorem behind_step (consistent : reader.Consistent)
    (stepped : reader.step side (some 1) = some next) (unfailed : next.failed = none)
    (inside : next.done = []) : reader.behind side = next.behind side := by
  by_cases past : reader.Over
  · rcases id past with trailing | complete
    · -- A trailer line goes by, and the end of the message stays where it is.
      simp only [step] at stepped
      cases running : reader.halted (some 1) with
      | true => simp [running] at stepped
      | false =>
        simp only [running, trailing, Option.map_eq_some_iff] at stepped
        obtain ⟨⟨line, rest⟩, split, rfl⟩ := stepped
        have changed : BodyState.Change reader.core.limits reader.core.toBodyState _ :=
          .trailerLine trailing split
        have closes := changed.closes past
        have later : (reader.afterBody (BodyState.trailerLine reader.core.limits
          reader.core.toBodyState line rest)).Over := closes.past
        have ends := closes.ends []
        simp only [BodyState.endWith, List.append_nil] at ends
        rw [behind_over past, behind_over later]
        exact ends.symm
    · exact absurd inside (done_of_complete consistent complete stepped)
  · -- Before the end of the content, the loop takes this very step.
    refine (behindLoop side).run_of_continue ?_
    simp [behindLoop, past, stepped, unfailed]

/-- Wherever a reader comes within a message, it finds the same end of it. -/
theorem behind_reaches {origin : Reader Head Context} (lawful : side.Lawful)
    (reached : (machine side (some 1)).Reaches origin reader) (proper : origin.Proper side)
    (unfailed : reader.failed = none) (inside : reader.done = []) :
    origin.behind side = reader.behind side := by
  -- Each step keeps the end, and no message was read before it.
  induction reached with
  | refl => rfl
  | tail before last ih =>
    rename_i reader next
    change reader.step side (some 1) = some next at last
    have none := failed_of_step last
    have sound := reaches_proper lawful before proper none
    exact (ih none (step_done last inside)).trans
      (behind_step sound.consistent last unfailed inside)

end Reader

end Http11

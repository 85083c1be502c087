import Http11.Decoder.Body

/-! What the decoders of requests and of responses share: buffer, start line and header lines. -/

namespace Http11

/-- The part of a decoder that its methods read and write, over what else it remembers. -/
structure Core (Context : Type) extends BodyState where
  /-- The start line, once it is read. -/
  startLine : Option Str := none
  /-- The header fields read so far. -/
  headers : Headers := []
  /-- The limits. -/
  limits : DecoderLimits
  /-- What only one of the two decoders remembers. -/
  context : Context
  deriving DecidableEq, Repr

/-- What tells the decoder of requests and the decoder of responses apart while reading heads. -/
structure Side (Head Context : Type) where
  /-- The checks of a start line. -/
  checkStartLine : Str → Except Error Unit
  /-- The error of headers without a start line. -/
  missingStartLine : String
  /-- The head and the framing once the header section is complete. -/
  finishHead : DecoderLimits → Context → Str → Headers → Except Error (Head × BodyKind)
  /-- The header fields of a head. -/
  headersOf : Head → Headers
  /-- The phase a framing leads to. -/
  bodyPhase : BodyKind → DecodePhase
  /-- What is remembered into the next message. -/
  nextContext : Context → Context

namespace Core

variable {Head Context : Type}

/-- A body operation inside the decoder. -/
def onBody {Result : Type} (core : Core Context)
    (operation : BodyState → Except Error Result × BodyState) :
    Except Error Result × Core Context :=
  let (result, state) := operation core.toBodyState
  (result, { core with toBodyState := state })

/-- The start line of a message. -/
def readStartLine (side : Side Head Context) (core : Core Context) (line rest : Bytes) :
    Except Error Unit × Core Context :=
  match lineText line with
  | .error error => (.error error, core)
  | .ok text =>
    -- The line is off the buffer before it is checked.
    let core := { core with buf := rest }
    match side.checkStartLine text with
    | .error error => (.error error, core)
    | .ok () => (.ok (), { core with startLine := some text, phase := .headers })

/-- The empty line after the header fields. -/
def finishHeaders (side : Side Head Context) (core : Core Context) (rest : Bytes) :
    Except Error (Head × BodyKind) × Core Context :=
  -- The empty line is off the buffer, also where the head is refused.
  let core := { core with buf := rest }
  match core.startLine with
  | none => (.error (.invalidData side.missingStartLine), core)
  | some startLine =>
    match side.finishHead core.limits core.context startLine core.headers with
    | .error error => (.error error, core)
    | .ok (head, bodyKind) => (.ok (head, bodyKind), { core with
        phase := side.bodyPhase bodyKind
        startLine := none
        headers := []
        bodyDecoder := { core.bodyDecoder with
          declaredTrailers := collectDeclaredTrailers (side.headersOf head) } })

/-- A header line. -/
def readHeaderLine (core : Core Context) (line rest : Bytes) : Except Error Unit × Core Context :=
  -- A line that is refused for its length, for the number of fields or for its bytes stays.
  if core.limits.maxHeaderLineSize < line.length then
    (.error (.headerLineTooLong line.length core.limits.maxHeaderLineSize), core)
  else if core.limits.maxHeadersCount ≤ core.headers.length then
    (.error (.tooManyHeaders (core.headers.length + 1) core.limits.maxHeadersCount), core)
  else match lineText line with
    | .error error => (.error error, core)
    | .ok text =>
      -- From here on the line is off the buffer, even if it is no field.
      let core := { core with buf := rest }
      match parseHeaderLine text with
      | .error error => (.error error, core)
      | .ok field => (.ok (), { core with headers := core.headers ++ [field] })

/-- The next message on the connection. -/
def nextMessage (side : Side Head Context) (core : Core Context) : Core Context :=
  { core with
    phase := .startLine
    startLine := none
    headers := []
    bodyDecoder := {}
    context := side.nextContext core.context }

/-- One line of the head: it goes on, or the head is complete. -/
def headLine (side : Side Head Context) (core : Core Context) (line rest : Bytes) :
    Except Error (Option (Head × BodyKind)) × Core Context :=
  if core.phase = .startLine then
    let (result, core) := core.readStartLine side line rest
    (result.map fun _ => none, core)
  else if line.isEmpty then
    let (result, core) := core.finishHeaders side rest
    (result.map some, core)
  else
    let (result, core) := core.readHeaderLine line rest
    (result.map fun _ => none, core)

/-- One pass of the loop over the head. -/
def decodeHeadersPass (side : Side Head Context) (core : Core Context) :
    Core Context ⊕ (Except Error (Option (Head × BodyKind)) × Core Context) :=
  match core.phase with
  | .startLine | .headers =>
    match splitLine core.buf with
    | none => .inr (.ok none, core)
    | some (line, rest) =>
      match core.headLine side line rest with
      | (.error error, core) => .inr (.error error, core)
      | (.ok none, core) => .inl core
      | (.ok (some decoded), core) => .inr (.ok (some decoded), core)
  -- A complete message gives way to the next one only here.
  | .complete => .inl (core.nextMessage side)
  | .tunnel =>
    .inr (.error (.invalidData "decode_headers cannot be used in tunnel mode"), core)
  | _ => .inr (.error (.invalidData "decode_headers called during body decoding"), core)

/-- An accepted start line is taken off the buffer and remembered. -/
theorem readStartLine_ok {side : Side Head Context} {core next : Core Context} {line rest : Bytes}
    (accepted : core.readStartLine side line rest = (.ok (), next)) :
    ∃ text, lineText line = .ok text ∧ side.checkStartLine text = .ok () ∧
      next = { core with buf := rest, startLine := some text, phase := .headers } := by
  unfold readStartLine at accepted
  -- A line that is no text or no start line is refused.
  cases decoded : lineText line with
  | error error => simp [decoded] at accepted
  | ok text =>
    cases checked : side.checkStartLine text with
    | error error => simp [decoded, checked] at accepted
    | ok done =>
      simp only [decoded, checked, Prod.mk.injEq, true_and] at accepted
      exact ⟨text, rfl, checked, accepted.symm⟩

/-- A finished head has a start line, and its fields are handed over. -/
theorem finishHeaders_ok {side : Side Head Context} {core next : Core Context} {rest : Bytes}
    {head : Head} {bodyKind : BodyKind}
    (finished : core.finishHeaders side rest = (.ok (head, bodyKind), next)) :
    ∃ startLine, core.startLine = some startLine ∧
      side.finishHead core.limits core.context startLine core.headers = .ok (head, bodyKind) ∧
      next = { core with
        buf := rest
        phase := side.bodyPhase bodyKind
        startLine := none
        headers := []
        bodyDecoder := { core.bodyDecoder with
          declaredTrailers := collectDeclaredTrailers (side.headersOf head) } } := by
  unfold finishHeaders at finished
  -- A head ends behind a start line that was remembered.
  cases started : core.startLine with
  | none => simp [started] at finished
  | some startLine =>
    cases closed : side.finishHead core.limits core.context startLine core.headers with
    | error error => simp [started, closed] at finished
    | ok result =>
      obtain ⟨closedHead, closedKind⟩ := result
      simp only [started, closed, Prod.mk.injEq, Except.ok.injEq] at finished
      obtain ⟨⟨rfl, rfl⟩, rfl⟩ := finished
      exact ⟨startLine, rfl, closed, rfl⟩

/-- An accepted header line is taken off the buffer and its field is added. -/
theorem readHeaderLine_ok {core next : Core Context} {line rest : Bytes}
    (accepted : core.readHeaderLine line rest = (.ok (), next)) :
    ∃ text field, lineText line = .ok text ∧ parseHeaderLine text = .ok field ∧
      line.length ≤ core.limits.maxHeaderLineSize ∧
      core.headers.length < core.limits.maxHeadersCount ∧
      next = { core with buf := rest, headers := core.headers ++ [field] } := by
  unfold readHeaderLine at accepted
  -- The limits are checked before the line is read.
  split at accepted
  · simp at accepted
  rename_i short
  split at accepted
  · simp at accepted
  rename_i few
  cases decoded : lineText line with
  | error error => simp [decoded] at accepted
  | ok text =>
    cases parsed : parseHeaderLine text with
    | error error => simp [decoded, parsed] at accepted
    | ok field =>
      simp only [decoded, parsed, Prod.mk.injEq, true_and] at accepted
      exact ⟨text, field, rfl, parsed, by omega, by omega, accepted.symm⟩

/-- What an accepted line of the head did: one of the three kinds of line. -/
theorem headLine_ok {side : Side Head Context} {core next : Core Context} {line rest : Bytes}
    {result : Option (Head × BodyKind)}
    (accepted : core.headLine side line rest = (.ok result, next)) :
    (core.phase = .startLine ∧ result = none ∧ core.readStartLine side line rest = (.ok (), next)) ∨
    (core.phase ≠ .startLine ∧ line = [] ∧ ∃ head bodyKind, result = some (head, bodyKind) ∧
      core.finishHeaders side rest = (.ok (head, bodyKind), next)) ∨
    (core.phase ≠ .startLine ∧ line ≠ [] ∧ result = none ∧
      core.readHeaderLine line rest = (.ok (), next)) := by
  unfold headLine at accepted
  -- The first line, the empty one and all others are told apart in this order.
  split at accepted
  · rename_i first
    left
    cases read : core.readStartLine side line rest with
    | mk outcome after =>
      cases outcome with
      | error error => simp [read, Except.map] at accepted
      | ok done =>
        simp only [read, Except.map, Prod.mk.injEq, Except.ok.injEq] at accepted
        obtain ⟨rfl, rfl⟩ := accepted
        exact ⟨first, rfl, rfl⟩
  rename_i later
  split at accepted
  · rename_i empty
    right; left
    cases finished : core.finishHeaders side rest with
    | mk outcome after =>
      cases outcome with
      | error error => simp [finished, Except.map] at accepted
      | ok decoded =>
        simp only [finished, Except.map, Prod.mk.injEq, Except.ok.injEq] at accepted
        obtain ⟨rfl, rfl⟩ := accepted
        exact ⟨later, by simpa using empty, decoded.1, decoded.2, rfl, rfl⟩
  · rename_i present
    right; right
    cases read : core.readHeaderLine line rest with
    | mk outcome after =>
      cases outcome with
      | error error => simp [read, Except.map] at accepted
      | ok done =>
        simp only [read, Except.map, Prod.mk.injEq, Except.ok.injEq] at accepted
        obtain ⟨rfl, rfl⟩ := accepted
        exact ⟨later, by simpa using present, rfl, rfl⟩

/-- An accepted line of the head is taken off the buffer. -/
theorem headLine_buf {side : Side Head Context} {core next : Core Context} {line rest : Bytes}
    {result : Option (Head × BodyKind)}
    (accepted : core.headLine side line rest = (.ok result, next)) : next.buf = rest := by
  -- Each of the three kinds of line leaves what is behind it.
  rcases headLine_ok accepted with ⟨_, _, read⟩ | ⟨_, _, _, _, _, finished⟩ | ⟨_, _, _, read⟩
  · obtain ⟨_, _, _, rfl⟩ := readStartLine_ok read
    rfl
  · obtain ⟨_, _, _, rfl⟩ := finishHeaders_ok finished
    rfl
  · obtain ⟨_, _, _, _, _, _, rfl⟩ := readHeaderLine_ok read
    rfl

/-- While the head goes on, header lines are next. -/
theorem headLine_phase {side : Side Head Context} {core next : Core Context} {line rest : Bytes}
    (heading : core.phase = .startLine ∨ core.phase = .headers)
    (accepted : core.headLine side line rest = (.ok none, next)) : next.phase = .headers := by
  -- The empty line would have finished the head.
  rcases headLine_ok accepted with ⟨_, _, read⟩ | ⟨_, _, _, _, same, _⟩ | ⟨later, _, _, read⟩
  · obtain ⟨_, _, _, rfl⟩ := readStartLine_ok read
    rfl
  · cases same
  · obtain ⟨_, _, _, _, _, _, rfl⟩ := readHeaderLine_ok read
    exact heading.resolve_left later

/-- The loop over the head. -/
def decodeHeadersLoop (side : Side Head Context) :
    Iteration (Core Context) (Except Error (Option (Head × BodyKind)) × Core Context) where
  body := decodeHeadersPass side
  size := fun core => 2 * core.buf.length + if core.phase = .complete then 1 else 0
  decreases := by
    intro core next pass
    -- A line shortens the buffer; moving to the next message leaves the complete phase.
    have line : ∀ line rest, splitLine core.buf = some (line, rest) →
        core.headLine side line rest = (.ok none, next) →
        2 * next.buf.length + (if next.phase = .complete then 1 else 0) <
          2 * core.buf.length + (if core.phase = .complete then 1 else 0) := by
      intro line rest split accepted
      have shorter := splitLine_length split
      rw [headLine_buf accepted]
      split <;> split <;> omega
    unfold decodeHeadersPass at pass
    split at pass
    · split at pass
      · cases pass
      · rename_i found
        split at pass <;> cases pass
        rename_i accepted
        exact line _ _ found accepted
    · split at pass
      · cases pass
      · rename_i found
        split at pass <;> cases pass
        rename_i accepted
        exact line _ _ found accepted
    · rename_i done
      cases pass
      simp [nextMessage, done]
    · cases pass
    · cases pass

/-- The head of the next message, when all of it is buffered. -/
def decodeHeaders (side : Side Head Context) (core : Core Context) :
    Except Error (Option (Head × BodyKind)) × Core Context :=
  (decodeHeadersLoop side).run core

/-- Reading a head only shortens the buffer, and a head that was read did. -/
theorem decodeHeaders_buf (side : Side Head Context) (core : Core Context) :
    ∀ decoded, (core.decodeHeaders side).1 = .ok (some decoded) →
      (core.decodeHeaders side).2.buf.length < core.buf.length := by
  refine (decodeHeadersLoop side).run_rule
    (motive := fun core result => ∀ decoded, result.1 = .ok (some decoded) →
      result.2.buf.length < core.buf.length) ?_ ?_ core
  · intro core result pass decoded found
    change decodeHeadersPass side core = .inr result at pass
    -- Only a line that finishes the head returns one, and it is gone.
    have line : ∀ line rest, splitLine core.buf = some (line, rest) →
        core.headLine side line rest = (.ok (some decoded), result.2) →
        result.2.buf.length < core.buf.length := by
      intro line rest split accepted
      have shorter := splitLine_length split
      rw [headLine_buf accepted]
      omega
    unfold decodeHeadersPass at pass
    split at pass
    · split at pass
      · cases pass
        cases found
      · rename_i split
        split at pass <;> cases pass <;> cases found
        rename_i accepted
        exact line _ _ split accepted
    · split at pass
      · cases pass
        cases found
      · rename_i split
        split at pass <;> cases pass <;> cases found
        rename_i accepted
        exact line _ _ split accepted
    · cases pass
    · cases pass
      cases found
    · cases pass
      cases found
  · intro core next result pass ih decoded found
    -- A pass that goes on has shortened the buffer or has left a complete message.
    have later := ih decoded found
    have smaller := (decodeHeadersLoop side).decreases pass
    change 2 * next.buf.length + (if next.phase = .complete then 1 else 0) <
      2 * core.buf.length + (if core.phase = .complete then 1 else 0) at smaller
    split at smaller <;> split at smaller <;> omega

end Core

end Http11

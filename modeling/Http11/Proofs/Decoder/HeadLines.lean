import Mathlib.Data.List.Forall2
import Http11.Combining
import Http11.Proofs.Decoder.Lines

/-! A head that is buffered as a whole is read when each of its lines is, in one call. -/

namespace Http11

namespace Core

variable {Head Context : Type} {side : Side Head Context} {core next : Core Context}

/-- One line of the head is read, and then what is behind it. -/
theorem decodeHeaders_line (heading : core.phase = .startLine ∨ core.phase = .headers)
    {line rest : Bytes} (split : splitLine core.buf = some (line, rest)) :
    core.decodeHeaders side = match core.headLine side line rest with
      | (.error error, next) => (.error error, next)
      | (.ok none, next) => next.decodeHeaders side
      | (.ok (some decoded), next) => (.ok (some decoded), next) := by
  have pass : (decodeHeadersLoop side).body core = match core.headLine side line rest with
      | (.error error, next) => .inr (.error error, next)
      | (.ok none, next) => .inl next
      | (.ok (some decoded), next) => .inr (.ok (some decoded), next) := by
    change decodeHeadersPass side core = _
    -- In both phases of a head the line alone decides how the loop goes on.
    rcases heading with phase | phase <;>
      rcases read : core.headLine side line rest with ⟨_ | _ | _, _⟩ <;>
      simp only [decodeHeadersPass, phase, split, read]
  rw [decodeHeaders, (decodeHeadersLoop side).run_eq, pass]
  rcases core.headLine side line rest with ⟨_ | _ | _, _⟩ <;> rfl

/-- What a decoder is left with behind a head. -/
def behindHead (side : Side Head Context) (core : Core Context) (rest : Bytes) (head : Head)
    (bodyKind : BodyKind) : Core Context :=
  { core with
    buf := rest
    phase := side.bodyPhase bodyKind
    startLine := none
    headers := []
    bodyDecoder := { core.bodyDecoder with
      declaredTrailers := collectDeclaredTrailers (side.headersOf head) } }

/-- The empty line ends a head whose fields make one. -/
theorem decodeHeaders_emptyLine {text : Str} {rest : Bytes} {head : Head} {bodyKind : BodyKind}
    (phase : core.phase = .headers) (started : core.startLine = some text)
    (buffered : core.buf = crlf ++ rest) :
    core.decodeHeaders side = (.ok (some (head, bodyKind)), next) ↔
      side.finishHead core.limits core.context text core.headers = .ok (head, bodyKind) ∧
        next = core.behindHead side rest head bodyKind := by
  have split : splitLine core.buf = some ([], rest) := by
    rw [buffered]
    exact splitLine_plain IsLine.nil rest
  rw [decodeHeaders_line (.inr phase) split]
  -- Behind the start line the empty line ends the head.
  have ends : core.headLine side [] rest =
      ((core.finishHeaders side rest).1.map some, (core.finishHeaders side rest).2) := by
    simp [headLine, phase]
  rw [ends]
  simp only [finishHeaders, started]
  -- The head is read exactly if its fields make one.
  cases side.finishHead core.limits core.context text core.headers with
  | error error => simp [Except.map]
  | ok decoded =>
    obtain ⟨found, kind⟩ := decoded
    simp only [Except.map, Prod.mk.injEq, Except.ok.injEq, Option.some.injEq]
    constructor
    · rintro ⟨⟨rfl, rfl⟩, rfl⟩
      exact ⟨⟨rfl, rfl⟩, rfl⟩
    · rintro ⟨⟨rfl, rfl⟩, rfl⟩
      exact ⟨⟨rfl, rfl⟩, rfl⟩

/-- A field line is read when it is within the limits, and its field is added. -/
theorem decodeHeaders_fieldLine {line rest : Bytes} {head : Head} {bodyKind : BodyKind}
    (phase : core.phase = .headers) (single : IsTrailerLine line)
    (buffered : core.buf = line ++ crlf ++ rest) :
    core.decodeHeaders side = (.ok (some (head, bodyKind)), next) ↔
      ∃ field, ReadsAs line field ∧ line.length ≤ core.limits.maxHeaderLineSize ∧
        core.headers.length < core.limits.maxHeadersCount ∧
        Core.decodeHeaders side { core with buf := rest, headers := core.headers ++ [field] } =
          (.ok (some (head, bodyKind)), next) := by
  have split : splitLine core.buf = some (line, rest) := by
    rw [buffered]
    exact splitLine_plain single.2 rest
  rw [decodeHeaders_line (.inr phase) split]
  -- The line is not the empty one, so it is a field.
  have other : core.headLine side line rest =
      ((core.readHeaderLine line rest).1.map fun _ => none, (core.readHeaderLine line rest).2) := by
    simp [headLine, phase, single.1]
  rw [other]
  constructor
  · intro read
    -- A field that is read was within both limits.
    cases accepted : core.readHeaderLine line rest with
    | mk outcome after =>
      cases outcome with
      | error error => simp [accepted, Except.map] at read
      | ok done =>
        obtain ⟨text, field, decoded, parsed, short, few, rfl⟩ := readHeaderLine_ok accepted
        simp only [accepted, Except.map] at read
        exact ⟨field, ⟨text, decoded, parsed⟩, short, few, read⟩
  · rintro ⟨field, ⟨text, decoded, parsed⟩, short, few, read⟩
    -- Within the limits nothing else can refuse the line.
    have accepted : core.readHeaderLine line rest =
        (.ok (), { core with buf := rest, headers := core.headers ++ [field] }) := by
      simp only [readHeaderLine, if_neg (Nat.not_lt.mpr short), if_neg (Nat.not_le.mpr few),
        decoded, parsed]
    simpa only [accepted, Except.map] using read

/-- Field lines are read when each is, and the fields make a head with those before them. -/
theorem decodeHeaders_fieldLines {text : Str} {lines : List Bytes} {rest : Bytes} {head : Head}
    {bodyKind : BodyKind} (phase : core.phase = .headers) (started : core.startLine = some text)
    (each : ∀ line ∈ lines, IsTrailerLine line)
    (few : core.headers.length ≤ core.limits.maxHeadersCount)
    (buffered : core.buf = lines.flatMap (· ++ crlf) ++ (crlf ++ rest)) :
    core.decodeHeaders side = (.ok (some (head, bodyKind)), next) ↔
      ∃ fields, List.Forall₂ ReadsAs lines fields ∧
        (∀ line ∈ lines, line.length ≤ core.limits.maxHeaderLineSize) ∧
        core.headers.length + lines.length ≤ core.limits.maxHeadersCount ∧
        side.finishHead core.limits core.context text (core.headers ++ fields) =
          .ok (head, bodyKind) ∧ next = core.behindHead side rest head bodyKind := by
  induction lines generalizing core with
  | nil =>
    rw [decodeHeaders_emptyLine phase started buffered]
    constructor
    · exact fun finished => ⟨[], .nil, by simp, few, by rwa [List.append_nil]⟩
    · rintro ⟨fields, ⟨⟩, _, _, finished⟩
      rwa [List.append_nil] at finished
  | cons line lines ih =>
    rw [List.flatMap_cons, List.append_assoc] at buffered
    rw [decodeHeaders_fieldLine phase (each line List.mem_cons_self) buffered]
    have later : ∀ line ∈ lines, IsTrailerLine line := fun line inside =>
      each line (List.mem_cons_of_mem _ inside)
    -- One field more is there for the lines behind this one.
    have behind : ∀ field, core.headers.length < core.limits.maxHeadersCount →
        (Core.decodeHeaders side { core with
            buf := lines.flatMap (· ++ crlf) ++ (crlf ++ rest), headers := core.headers ++ [field] } =
          (.ok (some (head, bodyKind)), next) ↔ _) := fun field room =>
      ih (by exact phase) (by exact started) later (by simpa [Nat.succ_le_iff] using room) rfl
    constructor
    · rintro ⟨field, reads, short, room, read⟩
      obtain ⟨fields, all, shorter, fewer, finished, same⟩ := (behind field room).mp read
      refine ⟨field :: fields, .cons reads all, List.forall_mem_cons.mpr ⟨short, shorter⟩, ?_, ?_,
        same⟩
      · simpa [Nat.add_assoc, Nat.add_comm 1] using fewer
      · simpa using finished
    · rintro ⟨_, reads, shorter, fewer, finished, same⟩
      obtain ⟨field, fields, read, all, rfl⟩ := List.forall₂_cons_left_iff.mp reads
      rw [List.forall_mem_cons] at shorter
      rw [List.length_cons] at fewer
      have room : core.headers.length < core.limits.maxHeadersCount := by omega
      refine ⟨field, read, shorter.1, room, (behind field room).mpr
        ⟨fields, all, shorter.2, ?_, by simpa using finished, same⟩⟩
      simpa [Nat.add_assoc, Nat.add_comm 1] using fewer

/-- A whole head is read when its start line and its field lines are. -/
theorem decodeHeaders_headBytes {startLine : Bytes} {lines : List Bytes} {rest : Bytes}
    {head : Head} {bodyKind : BodyKind} (phase : core.phase = .startLine)
    (fieldless : core.headers = []) (plain : IsLine startLine)
    (each : ∀ line ∈ lines, IsTrailerLine line)
    (buffered : core.buf = headBytes startLine lines ++ rest) :
    core.decodeHeaders side = (.ok (some (head, bodyKind)), next) ↔
      ∃ text fields, lineText startLine = .ok text ∧ side.checkStartLine text = .ok () ∧
        List.Forall₂ ReadsAs lines fields ∧
        (∀ line ∈ lines, line.length ≤ core.limits.maxHeaderLineSize) ∧
        lines.length ≤ core.limits.maxHeadersCount ∧
        side.finishHead core.limits core.context text fields = .ok (head, bodyKind) ∧
        next = core.behindHead side rest head bodyKind := by
  have split : splitLine core.buf =
      some (startLine, lines.flatMap (· ++ crlf) ++ (crlf ++ rest)) := by
    rw [buffered, headBytes]
    simpa [List.append_assoc] using
      splitLine_plain plain (lines.flatMap (· ++ crlf) ++ (crlf ++ rest))
  rw [decodeHeaders_line (.inl phase) split]
  simp only [headLine, if_pos phase, readStartLine]
  -- The start line must be text and pass its checks, and then the fields follow.
  cases lineText startLine with
  | error error => simp [Except.map]
  | ok text =>
    dsimp only
    cases checked : side.checkStartLine text with
    | error error => simp [Except.map, checked]
    | ok done =>
      simp only [Except.map]
      rw [decodeHeaders_fieldLines (by rfl) (by rfl) each (by simp [fieldless]) (by rfl)]
      simp [fieldless, behindHead, checked]

end Core

end Http11

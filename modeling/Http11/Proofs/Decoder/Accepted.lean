import Http11.Proofs.Decoder.Collecting

/-! What a decoder has checked of the heads that it hands out, whatever calls were made. -/

namespace Http11

namespace Core

variable {Head Context : Type} {side : Side Head Context} {core next : Core Context}

/-- A start line and fields that a head can be made of. -/
structure Lines (side : Side Head Context) (startLine : Str) (headers : Headers) : Prop where
  /-- The start line has passed its checks. -/
  checked : side.checkStartLine startLine = .ok ()
  /-- Every field was read from a line. -/
  listed : ∀ field ∈ headers, ∃ text, parseHeaderLine text = .ok field

/-- A head that was made of checked lines. -/
def Made (side : Side Head Context) (decoded : Head × BodyKind) : Prop :=
  ∃ limits context startLine headers, Lines side startLine headers ∧
    side.finishHead limits context startLine headers = .ok decoded

/-- What is remembered of the lines of a head has passed its checks. -/
structure Parsed (side : Side Head Context) (core : Core Context) : Prop where
  /-- The start line that is remembered has passed its checks. -/
  started : ∀ startLine, core.startLine = some startLine → side.checkStartLine startLine = .ok ()
  /-- Every field was read from a line. -/
  listed : ∀ field ∈ core.headers, ∃ text, parseHeaderLine text = .ok field

/-- Where nothing is remembered, there is nothing to check. -/
theorem parsed_fresh (startless : core.startLine = none) (fieldless : core.headers = []) :
    core.Parsed side where
  started := fun _ started => by rw [startless] at started; cases started
  listed := fun _ listed => by rw [fieldless] at listed; cases listed

/-- A line of a head is remembered only once it has passed its checks. -/
theorem headLine_parsed (parsed : core.Parsed side) (line rest : Bytes) :
    (core.headLine side line rest).2.Parsed side := by
  rcases headLine_cases side core line rest with ⟨_, _, took⟩ | ⟨_, _, took⟩ |
    ⟨_, result, next, took⟩ <;> rw [took]
  · exact parsed
  · exact ⟨parsed.started, parsed.listed⟩
  · -- An accepted line was the start line, the end of the head or a field.
    rcases headLine_ok took with ⟨_, _, started⟩ | ⟨_, _, _, _, _, finished⟩ | ⟨_, _, _, listed⟩
    · obtain ⟨text, _, checked, rfl⟩ := readStartLine_ok started
      refine ⟨fun startLine same => ?_, parsed.listed⟩
      cases same
      exact checked
    · obtain ⟨_, _, _, rfl⟩ := finishHeaders_ok finished
      exact parsed_fresh rfl rfl
    · obtain ⟨text, field, _, read, _, _, rfl⟩ := readHeaderLine_ok listed
      refine ⟨parsed.started, fun other inside => ?_⟩
      -- The new field has been parsed from its line just now.
      rcases List.mem_append.mp inside with before | last
      · exact parsed.listed other before
      · rw [List.mem_singleton] at last
        exact ⟨text, last ▸ read⟩

/-- Whatever changes, what is remembered of a head has passed its checks. -/
theorem Changes.parsed (changes : Changes side core next) (parsed : core.Parsed side) :
    next.Parsed side := by
  refine changes.preserves (fun core next parsed changed => ?_) parsed
  cases changed with
  | body => exact ⟨parsed.started, parsed.listed⟩
  | headLine => exact headLine_parsed parsed _ _
  | next => exact parsed_fresh rfl rfl

/-- A head that is read is made of checked lines. -/
theorem decodeHeaders_made (parsed : core.Parsed side) {decoded : Head × BodyKind}
    (read : core.decodeHeaders side = (.ok (some decoded), next)) : Made side decoded := by
  obtain ⟨last, rest, changes, _, finished⟩ := decodeHeaders_last read
  have later := changes.parsed parsed
  obtain ⟨startLine, remembered, made, _⟩ := finishHeaders_ok finished
  exact ⟨last.limits, last.context, startLine, last.headers,
    ⟨later.started startLine remembered, later.listed⟩, made⟩

end Core

namespace Decoder

variable {Head Context : Type} {side : Side Head Context} {decoder next : Decoder Head Context}

/-- What a decoder remembers has passed its checks, and so has the head that it collects. -/
structure Accepts (side : Side Head Context) (decoder : Decoder Head Context) : Prop where
  /-- The lines of a head have passed their checks. -/
  parsed : decoder.toCore.Parsed side
  /-- The head that is collected was made of such lines. -/
  made : ∀ decoded, decoder.decoded = some decoded → Core.Made side decoded

/-- What is remembered of heads decides, whatever else changes. -/
theorem Accepts.same (accepts : decoder.Accepts side) (startLine : next.startLine = decoder.startLine)
    (headers : next.headers = decoder.headers) (decoded : next.decoded = decoder.decoded) :
    next.Accepts side where
  parsed := ⟨by rw [startLine]; exact accepts.parsed.started,
    by rw [headers]; exact accepts.parsed.listed⟩
  made := by rw [decoded]; exact accepts.made

/-- A fresh decoder remembers nothing. -/
theorem accepts_fresh (startless : decoder.startLine = none) (fieldless : decoder.headers = [])
    (undecoded : decoder.decoded = none) : decoder.Accepts side where
  parsed := Core.parsed_fresh startless fieldless
  made := fun _ found => by rw [undecoded] at found; cases found

/-- Moving through a body leaves everything of the head as it is. -/
theorem Accepts.moves (accepts : decoder.Accepts side)
    (moves : decoder.toCore.Moves next.toCore) (decoded : next.decoded = decoder.decoded) :
    next.Accepts side := by
  obtain ⟨state, _, same⟩ := moves
  exact accepts.same (by rw [same]) (by rw [same]) decoded

/-- Reading the head to collect keeps what was checked, and checks the head. -/
theorem Accepts.decodeHead (accepts : decoder.Accepts side) :
    (decoder.decodeHead side).2.Accepts side := by
  have parsed := (decodeHead_changes side decoder).parsed accepts.parsed
  -- The head was there, is there now, or is still missing.
  rcases decodeHead_cases side decoder with ⟨_, _, read⟩ | ⟨_, _, _, _, read, headers, _⟩ |
    ⟨undecoded, _, _, read, _, _⟩ <;> rw [read] at parsed ⊢
  · exact accepts
  · refine ⟨parsed, fun decoded found => ?_⟩
    cases found
    exact Core.decodeHeaders_made accepts.parsed headers
  · exact ⟨parsed, accepts.made⟩

end Decoder

namespace RequestDecoder

open Decoder

variable {decoder next : RequestDecoder}

/-- What is handed out was made of a head that passed its checks. -/
def Checks (outcome : Except Error (Option Request) × RequestDecoder) : Prop :=
  outcome.2.Accepts side ∧ ∀ request, outcome.1 = .ok (some request) →
    ∃ head bodyKind, ∃ last : RequestDecoder, Core.Made side (head, bodyKind) ∧
      bodyKind ≠ .tunnel ∧ request = Request.fromRawParts head (last.collectedBody bodyKind)

/-- A request that is complete is handed out, and nothing is collected any more. -/
theorem finish_checks {last : RequestDecoder} {head : RequestHead} {bodyKind : BodyKind}
    (accepts : last.Accepts side) (made : Core.Made side (head, bodyKind))
    (closed : bodyKind ≠ .tunnel) : Checks (finish last head bodyKind) := by
  refine ⟨⟨⟨accepts.parsed.started, accepts.parsed.listed⟩, by simp [finish]⟩, ?_⟩
  rintro request ⟨⟩
  exact ⟨head, bodyKind, last, made, closed, rfl⟩

/-- Asking for a whole request keeps what was checked, and hands out what was checked. -/
theorem decode_accepts (accepts : decoder.Accepts side) : Checks (decode decoder) := by
  have headed := accepts.decodeHead
  rcases decode_cases decoder with ⟨_, unfinished, same⟩ | ⟨head, bodyKind, after, read, outcome⟩
  · rw [same]
    exact ⟨headed, fun request done => absurd done (unfinished request)⟩
  rw [read] at headed
  have made := headed.made _ (decodeHead_decoded read)
  -- Collecting the body leaves what was checked as it is.
  have kept := headed.moves (readBody_moves after) (readBody_frame after).1.1
  rcases outcome with ⟨_, _, unfinished, same⟩ | ⟨framed, last, body, same⟩ | ⟨_, closed, same⟩ <;>
    rw [same]
  · exact ⟨kept, fun request done => absurd done (unfinished request)⟩
  · rw [body] at kept
    exact finish_checks kept made (by rintro rfl; cases framed)
  · exact finish_checks headed made closed

/-- Whatever a program calls, the heads that are remembered have passed their checks. -/
theorem reachable_accepts (reachable : Reachable decoder) : decoder.Accepts side := by
  -- The induction is on the calls; what is remembered changes only where a head is read.
  induction reachable with
  | withLimits limits => exact accepts_fresh rfl rfl rfl
  | @feed decoder data _ ih =>
    rcases decoder.feed_cases data with same | ⟨_, same⟩ <;> rw [same]
    · exact ih.same rfl rfl rfl
    · exact ih
  | feedUnchecked _ _ ih => exact ih.same rfl rfl rfl
  | writePending _ _ ih => exact ih.same rfl rfl rfl
  | advanceBuf _ _ ih => exact ih.same rfl rfl rfl
  | takeRemaining _ ih => exact ih.same rfl rfl rfl
  | @mutBuf decoder len _ ih =>
    obtain ⟨buf, pending, same⟩ := decoder.mutBuf_frame len
    rw [same]
    exact ih.same rfl rfl rfl
  | @decodeHeaders decoder _ ih =>
    exact ⟨(Core.decodeHeaders_changes side decoder.toCore).parsed ih.parsed, ih.made⟩
  | @consumeBody decoder len _ ih =>
    refine ih.moves (consumeBody_moves decoder len) ?_
    rw [consumeBody_frame decoder len]
  | @progress decoder _ ih => exact ih.moves (progress_moves decoder) rfl
  | decode _ ih => exact (decode_accepts ih).1
  | reset => exact accepts_fresh rfl rfl rfl

end RequestDecoder

end Http11

import Http11.Calls
import Http11.Reader

/-! Both ways of using a decoder at once: whole messages and the pieces of them. -/

namespace Http11

/-- One line of a section, which an empty line ends. -/
def sectionPass (buf : Bytes) : Bytes ⊕ Option Bytes :=
  match splitLine buf with
  | none => .inr none
  | some (line, rest) => if line.isEmpty then .inr (some rest) else .inl rest

/-- The loop over the lines of a section. -/
def sectionLoop : Iteration Bytes (Option Bytes) where
  body := sectionPass
  size := List.length
  decreases := by
    intro buf next pass
    unfold sectionPass at pass
    -- Every line that goes by takes at least its end along.
    cases split : splitLine buf with
    | none => simp [split] at pass
    | some pair =>
      obtain ⟨line, rest⟩ := pair
      have shorter := splitLine_length split
      simp only [split] at pass
      split at pass <;> cases pass
      omega

/-- What stands behind a section of lines, once its empty line is there. -/
def sectionEnd (buf : Bytes) : Option Bytes := sectionLoop.run buf

/-- What stands behind a message of which only trailers may be left. -/
def BodyState.messageEnd (state : BodyState) : Option Bytes :=
  match state.phase with
  | .complete => some state.buf
  -- Whatever the trailers are, the first empty line ends them.
  | .chunkedTrailer => sectionEnd state.buf
  | _ => none

namespace Reader

variable {Head Context : Type} {side : Side Head Context} {limit : Option Nat}
  {reader next : Reader Head Context}

/-- The reader has been told what its input alone does not say. -/
def told (reader : Reader Head Context) (context : Context) : Reader Head Context :=
  { reader with core := { reader.core with context } }

/-- All content of the message is read; only trailers may follow. -/
def Over (reader : Reader Head Context) : Prop :=
  reader.core.phase = .chunkedTrailer ∨ reader.core.phase = .complete

instance (reader : Reader Head Context) : Decidable reader.Over :=
  inferInstanceAs (Decidable (_ ∨ _))

/-- The next line of a head, or of a size, is refused when it is off the buffer already. -/
def Drops (side : Side Head Context) (reader : Reader Head Context) : Prop :=
  reader.core.phase ≠ .chunkedTrailer ∧ reader.core.Loses side

/-- Before all content is read, every step that does not fail takes bytes. -/
theorem step_shortens (stepped : reader.step side limit = some next)
    (unfailed : next.failed = none) (within : ¬ reader.Over) :
    next.core.buf.length < reader.core.buf.length := by
  -- An accepted line of the head leaves what stands behind it.
  have headed : ∀ {line rest}, splitLine reader.core.buf = some (line, rest) →
      reader.afterHead (reader.core.headLine side line rest) = next →
        next.core.buf.length < reader.core.buf.length := by
    rintro line rest split rfl
    have shorter := splitLine_length split
    rcases read : reader.core.headLine side line rest with ⟨error | result, core⟩
    · simp [afterHead, read] at unfailed
    · simp only [afterHead, Core.headLine_buf read]
      omega
  unfold step at stepped
  split at stepped
  · cases stepped
  · simp only [Option.map_eq_some_iff] at stepped
    obtain ⟨⟨_, _⟩, split, same⟩ := stepped
    exact headed split same
  · simp only [Option.map_eq_some_iff] at stepped
    obtain ⟨⟨_, _⟩, split, same⟩ := stepped
    exact headed split same
  · -- One byte of a body by length.
    split at stepped <;> cases stepped
    rename_i buffered
    simp [afterByte, buffered]
  · simp only [Option.map_eq_some_iff] at stepped
    obtain ⟨⟨line, rest⟩, split, rfl⟩ := stepped
    have shorter := splitLine_length split
    dsimp only at unfailed ⊢
    rcases read : reader.core.toBodyState.chunkSizeLine reader.core.limits line rest with
      ⟨error | done, state⟩
    · simp [afterBody, read] at unfailed
    · obtain ⟨_, _, ⟨_, rfl⟩ | ⟨_, _, _, rfl⟩⟩ := BodyState.chunkSizeLine_ok read <;>
        simp only [afterBody] <;> omega
  · -- One byte of a chunk.
    split at stepped <;> cases stepped
    rename_i buffered
    simp [afterByte, buffered]
  · split at stepped <;> cases stepped
    rename_i first second rest buffered
    by_cases ends : [first, second] = crlf
    · simp [afterBody, BodyState.chunkDataCrlf, buffered, ends]
    · simp [afterBody, BodyState.chunkDataCrlf, buffered, ends] at unfailed
  · exact absurd (.inl (by assumption)) within
  · exact absurd (.inr (by assumption)) within
  · cases stepped
  · cases stepped

/-- The loop through a message up to the end of its content. -/
def behindLoop (side : Side Head Context) : Iteration (Reader Head Context) (Option Bytes) where
  body := fun reader =>
    if reader.Over then .inr reader.core.messageEnd
    else match reader.step side (some 1) with
      | none => .inr none
      -- Behind an error the message has no end.
      | some next => if next.failed.isSome then .inr none else .inl next
  size := fun reader => reader.core.buf.length
  decreases := by
    intro reader next pass
    split at pass
    · cases pass
    · rename_i within
      split at pass
      · cases pass
      · rename_i stepped
        split at pass <;> cases pass
        rename_i unfailed
        exact step_shortens stepped (by simpa using unfailed) within

/-- The connection behind the message that a reader is in, once all of that message is there. -/
def behind (side : Side Head Context) (reader : Reader Head Context) : Option Bytes :=
  (behindLoop side).run reader

end Reader

/-- A decoder, and the connection from the start of the message that it is at. -/
structure Mixture (Head Context : Type) where
  /-- The decoder. -/
  decoder : Decoder Head Context
  /-- A reader in front of the message, with all input since then; none if it cannot be found. -/
  origin : Option (Reader Head Context)

namespace Mixture

variable {Head Context Whole : Type}

/-- A fresh decoder in front of the first message of a connection. -/
def fresh (api : Api Head Context Whole) (limits : DecoderLimits) : Mixture Head Context where
  decoder := api.fresh limits
  origin := some (.ready limits api.initial [] [])

/-- The connection from the start of the message behind the one that the decoder was at. -/
def following (side : Side Head Context) (mixture : Mixture Head Context) :
    Option (Reader Head Context) :=
  mixture.origin.bind fun origin => (origin.behind side).map fun rest =>
    .ready mixture.decoder.limits (side.nextContext mixture.decoder.context) [] rest

/-- The decoder after a call, and the connection from the start of the message it is then at. -/
def call (api : Api Head Context Whole) (mixture : Mixture Head Context) (next : Call Context) :
    Mixture Head Context where
  decoder := api.call mixture.decoder next
  origin := match next with
    | .feed data =>
      if (mixture.decoder.feed data).1.isOk then mixture.origin.map fun origin => origin.feed data
      else mixture.origin
    -- Behind the head it is too late to say anything about the message.
    | .tell context =>
      if mixture.decoder.phase.isHeading then mixture.origin.map fun origin => origin.told context
      else mixture.origin
    | .decodeHeaders =>
      if mixture.decoder.phase = .complete then mixture.following api.side else mixture.origin
    | .decode =>
      match (api.decode mixture.decoder).1 with
      | .ok (some _) => mixture.following api.side
      | _ => mixture.origin
    | _ => mixture.origin

end Mixture

/-- A call that may be mixed with others: one that feeds, tells, or asks for messages or pieces. -/
def Call.isMixed {Context : Type} : Call Context → Bool
  | .feed _ | .tell _ | .decode | .decodeHeaders | .peekBody | .consumeBody _ | .progress => true
  | .mutBuf _ | .write _ | .advanceBuf _ | .markEof => false

namespace Mixture

variable {Head Context Whole : Type}

/-- What mixed calls lead to, when each of them is made under a condition. -/
inductive Reachable (api : Api Head Context Whole) (limits : DecoderLimits)
    (condition : Mixture Head Context → Call Context → Prop) : Mixture Head Context → Prop where
  /-- A fresh decoder. -/
  | fresh : Reachable api limits condition (fresh api limits)
  /-- One more call. -/
  | call {mixture : Mixture Head Context} (next : Call Context) :
    Reachable api limits condition mixture → next.isMixed = true → condition mixture next →
      Reachable api limits condition (mixture.call api next)

/--
A whole message that is handed out is the one that stands next on the connection.

A reader that starts in front of that message, and knows nothing of the decoder, gets through
all its content, and the message has the head and the whole body that this reader has read.
-/
def Unspliced (api : Api Head Context Whole) (whole : Message Head → Whole)
    (mixture : Mixture Head Context) : Prop :=
  ∀ result next, api.decode mixture.decoder = (.ok (some result), next) →
    ∃ origin reader head bodyKind, mixture.origin = some origin ∧
      (Reader.machine api.side (some 1)).Reaches origin reader ∧ reader.done = [] ∧
      reader.failed = none ∧ reader.Over ∧ reader.current = some (head, bodyKind) ∧
      result = whole ⟨head, bodyKind, reader.body, []⟩

/-- No line of the message that is refused, other than a trailer, is off the buffer already. -/
def Keeps (side : Side Head Context) (mixture : Mixture Head Context) : Prop :=
  ∀ origin ∈ mixture.origin, ∀ reader, (Reader.machine side (some 1)).Reaches origin reader →
    reader.done = [] → reader.failed = none → reader.Drops side →
      reader.core.buf.length ≤ mixture.decoder.buf.length

/--
A call that leaves alone the message which is being collected.

It neither consumes bytes of its body nor goes on to the next head when it is complete, and
once a refused line is off the buffer, nothing more is asked for.
-/
def Apart (side : Side Head Context) (mixture : Mixture Head Context) : Call Context → Prop
  | .decodeHeaders => mixture.Keeps side ∧
      (mixture.decoder.decoded = none ∨ mixture.decoder.phase ≠ .complete)
  | .consumeBody len => mixture.Keeps side ∧
      (mixture.decoder.decoded = none ∨ len = 0 ∨
        ∀ data, mixture.decoder.peekBody = some data → data.length < len)
  | .tell _ | .progress | .decode => mixture.Keeps side
  | _ => True

end Mixture

end Http11

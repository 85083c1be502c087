import Http11.Proofs.Decoder.Standing
import Http11.Proofs.Isolation

/-! Whole messages are not spliced as long as other calls leave alone what is collected. -/

namespace Http11

/-- How whole messages are handed out, by either decoder. -/
structure Api.HandsOut {Head Context Whole : Type} (api : Api Head Context Whole)
    (whole : Message Head → Whole) : Prop where
  /-- The head is read first. -/
  first : Decoder.HeadFirst api.side api.decode
  /-- With a head its message is collected. -/
  handsOut : ∀ {origin : Reader Head Context} {decoder : Decoder Head Context} {head : Head}
    {bodyKind : BodyKind}, decoder.toCore.Sane → origin.Proper api.side → origin.failed = none →
      origin.current = some (head, bodyKind) → decoder.decoded = some (head, bodyKind) →
      decoder.Tracks api.side origin →
        Decoder.HandsOut api.side whole origin decoder head bodyKind (api.decode decoder)

/-- How whole requests are handed out. -/
theorem RequestDecoder.api_handsOut : RequestDecoder.api.HandsOut Message.request where
  first := decode_headFirst
  handsOut := decode_handsOut

/-- How whole responses are handed out. -/
theorem ResponseDecoder.api_handsOut : ResponseDecoder.api.HandsOut Message.response where
  first := decode_headFirst
  handsOut := decode_handsOut

namespace Mixture

open Decoder

variable {Head Context Whole : Type} {api : Api Head Context Whole} {whole : Message Head → Whole}
  {collected : BodyKind → Bool} {mixture : Mixture Head Context}

/-- What holds after mixed calls that leave alone what is collected. -/
structure Sound (api : Api Head Context Whole) (collected : BodyKind → Bool)
    (mixture : Mixture Head Context) (origin : Reader Head Context) : Prop where
  /-- What holds after any calls. -/
  holds : Api.Holds collected mixture.decoder
  /-- Without a head nothing is collected. -/
  idle : mixture.decoder.decoded = none → mixture.decoder.decodedBody = []
  /-- The start of the message is known. -/
  known : mixture.origin = some origin
  /-- A reader there is a proper one. -/
  proper : origin.Proper api.side
  /-- The decoder is somewhere in that message. -/
  stands : mixture.decoder.Stands api.side origin

/-- Where the condition on calls holds, no line is lost. -/
theorem Sound.kept {origin : Reader Head Context} (sound : mixture.Sound api collected origin)
    (keeps : mixture.Keeps api.side) : ¬ Reader.Lost api.side origin mixture.decoder.buf := by
  rintro ⟨reader, reached, inside, unfailed, drops, shorter⟩
  have longer := keeps origin sound.known reader reached inside unfailed drops
  omega

/-- The head that a whole message is collected behind, with the reader that has read it. -/
structure Opened (api : Api Head Context Whole) (whole : Message Head → Whole)
    (origin : Reader Head Context) (decoder : Decoder Head Context) (head : Head)
    (bodyKind : BodyKind) (reader : Reader Head Context) (context : Context) : Prop where
  /-- The reader comes from the start of the message. -/
  reached : (Reader.machine api.side (some 1)).Reaches origin reader
  /-- It is still in the message. -/
  unread : reader.done = []
  /-- No error stopped it. -/
  unfailed : reader.failed = none
  /-- It has read the head. -/
  current : reader.current = some (head, bodyKind)
  /-- The message is collected behind that head. -/
  handed : ∃ headed : Decoder Head Context, headed.decoded = some (head, bodyKind) ∧
    Decoder.HandsOut api.side whole (reader.told context) headed head bodyKind (api.decode decoder)

/-- What a call for a whole message works on: a message that is open, or no head at all. -/
theorem Sound.asked {origin : Reader Head Context} (lawful : api.Lawful collected)
    (handing : api.HandsOut whole) (sound : mixture.Sound api collected origin)
    (keeps : mixture.Keeps api.side) :
    (∃ head bodyKind reader context,
      Opened api whole origin mixture.decoder head bodyKind reader context) ∨
    ((∀ message, (api.decode mixture.decoder).1 ≠ .ok (some message)) ∧
      (api.decode mixture.decoder).2.decoded = none ∧
      (api.decode mixture.decoder).2.decodedBody = [] ∧
      (api.decode mixture.decoder).2.Stands api.side origin) := by
  have kept := sound.kept keeps
  rcases id sound.stands with ⟨inHead, reached⟩ |
    ⟨⟨head, bodyKind⟩, reader, body, context, reached, unread, unfailed, current, found, tracks⟩ |
    lost
  · -- In front of a body the head is read first.
    have phases : mixture.decoder.phase = .startLine ∨ mixture.decoder.phase = .headers := by
      simpa [DecodePhase.isHeading] using inHead
    have consistent := (Reader.reaches_proper lawful.side reached sound.proper rfl).consistent
    have undecoded : mixture.decoder.decoded = none := by
      rcases phases with phase | phase <;>
        simp only [Reader.Consistent, show (mixture.decoder.view []).core.phase = _ from phase]
          at consistent <;> exact consistent.1
    have empty := sound.idle undecoded
    have view : mixture.decoder.view [] = { core := mixture.decoder.toCore } := by
      simp only [Decoder.view, undecoded, empty]
    rw [view] at reached
    have tracked := decodeHeaders_tracks inHead reached
    have stands := stands_heading undecoded empty inHead reached
    have changes := Core.decodeHeaders_changes api.side mixture.decoder.toCore
    have same := decodeHead_eq api.side undecoded phases
    rcases read : mixture.decoder.toCore.decodeHeaders api.side with ⟨error | _ | decoded, core⟩ <;>
      rw [read] at tracked stands changes same <;> dsimp only at same
    · obtain ⟨next, nothing⟩ := handing.first.headless same (by simp)
      rw [next]
      exact .inr ⟨nothing, undecoded, empty, stands⟩
    · obtain ⟨next, nothing⟩ := handing.first.headless same (by simp)
      rw [next]
      exact .inr ⟨nothing, undecoded, empty, stands⟩
    · obtain ⟨head, bodyKind⟩ := decoded
      have sane := changes.sane lawful.side lawful.limited sound.holds.sane
      have told := told_proper lawful.side sound.proper tracked rfl core.context
      refine .inl ⟨head, bodyKind, _, core.context, tracked, rfl, rfl, rfl,
        { mixture.decoder with toCore := core, decoded := some (head, bodyKind) }, rfl, ?_⟩
      rw [handing.first.headed same]
      refine handing.handsOut sane told rfl rfl rfl (.reading ?_)
      -- The decoder starts the body where the reader is behind the head.
      simp only [Decoder.view, Reader.told, empty]
      exact .refl
  · have told := told_proper lawful.side sound.proper reached unfailed context
    rcases found with undecoded | ⟨found, rfl⟩
    · -- A message that is read piece by piece is not handed out whole.
      have outside := tracks.outside lawful.side told (by simp)
      have refused := decodeHead_refused api.side undecoded (by
        rintro (phase | phase) <;> rw [show mixture.decoder.phase = _ from phase] at outside <;>
          cases outside)
      obtain ⟨next, nothing⟩ := handing.first.headless refused (by simp)
      rw [next]
      exact .inr ⟨nothing, undecoded, sound.idle undecoded, sound.stands⟩
    · refine .inl ⟨head, bodyKind, reader, context, reached, unread, unfailed, current,
        mixture.decoder, found, ?_⟩
      refine handing.handsOut sound.holds.sane told unfailed current found ?_
      rw [show mixture.decoder = { mixture.decoder with
        decoded := some (head, bodyKind), decodedBody := mixture.decoder.decodedBody } by rw [← found]]
      exact tracks
  · exact absurd lost kept

/-- A message that is open stays so when it is not handed out, unless a line of it is lost. -/
theorem Opened.collecting {Result : Type} {origin reader : Reader Head Context}
    {decoder headed : Decoder Head Context} {head : Head} {bodyKind : BodyKind} {context : Context}
    (lawful : api.side.Lawful) (proper : origin.Proper api.side)
    (opened : Opened api whole origin decoder head bodyKind reader context)
    (decoded : headed.decoded = some (head, bodyKind))
    {outcome : Except Error Result × Decoder Head Context}
    (collecting : Decoder.Collecting api.side (reader.told context) headed outcome) :
    outcome.2.decoded = some (head, bodyKind) ∧ outcome.2.Stands api.side origin := by
  obtain ⟨same, kept⟩ := collecting
  have found := same.trans decoded
  refine ⟨found, ?_⟩
  -- What is collected is still of this message, or a line of it has been lost.
  rcases kept with tracks | ⟨_, lost⟩
  · refine .inside (head, bodyKind) reader outcome.2.decodedBody context opened.reached opened.unread
      opened.unfailed opened.current (.inr ⟨found, rfl⟩) ?_
    rw [← found]
    exact tracks
  · have sound := Reader.reaches_proper lawful opened.reached proper opened.unfailed
    exact .lost (lost.before lawful opened.reached sound (by simp [opened.current]))

/-- A call for a whole message keeps what holds of mixed calls. -/
theorem Sound.decode {origin : Reader Head Context} (lawful : api.Lawful collected)
    (handing : api.HandsOut whole) (sound : mixture.Sound api collected origin)
    (keeps : mixture.Keeps api.side) :
    ∃ later, (mixture.call api .decode).Sound api collected later := by
  have holds := lawful.call sound.holds .decode
  have limits := lawful.call_limits sound.holds .decode
  change Api.Holds collected (api.decode mixture.decoder).2 at holds
  change (api.decode mixture.decoder).2.limits = _ at limits
  -- Unless a message is handed out, the decoder stays in the message that it is at.
  have same : (∀ message, (api.decode mixture.decoder).1 ≠ .ok (some message)) →
      mixture.call api .decode = ⟨(api.decode mixture.decoder).2, mixture.origin⟩ := by
    intro nothing
    rcases outcome : api.decode mixture.decoder with ⟨error | _ | message, next⟩
    · simp [Mixture.call, Api.call, outcome]
    · simp [Mixture.call, Api.call, outcome]
    · exact absurd (by rw [outcome]) (nothing message)
  rcases sound.asked lawful handing keeps with ⟨head, bodyKind, reader, context, opened⟩ |
    ⟨nothing, undecoded, empty, stands⟩
  · obtain ⟨headed, decoded, handed⟩ := opened.handed
    rcases outcome : api.decode mixture.decoder with ⟨error | _ | result, next⟩ <;>
      rw [outcome] at handed same holds limits
    · obtain ⟨found, stands⟩ := opened.collecting lawful.side sound.proper decoded handed
      rw [same (by simp)]
      exact ⟨origin, holds, fun other => (by rw [found] at other; cases other), sound.known,
        sound.proper, stands⟩
    · obtain ⟨found, stands⟩ := opened.collecting lawful.side sound.proper decoded handed
      rw [same (by simp)]
      exact ⟨origin, holds, fun other => (by rw [found] at other; cases other), sound.known,
        sound.proper, stands⟩
    · -- The message is complete, so the next one starts with what is left in the buffer.
      obtain ⟨last, rfl, complete, tracks, sane, _⟩ := handed
      have ends := (behind_complete lawful.side sound.proper opened.reached opened.unfailed
        (by simp [opened.current]) tracks complete).1
      have core := Api.sane_finished api.side sane complete
      have start : mixture.call api .decode = ⟨last.finished api.side, some (.ready
          mixture.decoder.limits (api.side.nextContext mixture.decoder.context) [] last.buf)⟩ := by
        simp [Mixture.call, Api.call, outcome, following, sound.known, ends]
      rw [start]
      refine ⟨_, holds, fun _ => rfl, rfl, Reader.ready_proper _ _ _ _ _, .heading rfl ?_⟩
      have view : (last.finished api.side).view [] = .ready mixture.decoder.limits
          (api.side.nextContext mixture.decoder.context) [] last.buf := by
        have bounds : last.limits = mixture.decoder.limits := limits
        simp only [Decoder.view, core, Core.nextMessage, lawful.next, bounds]
        rfl
      rw [view]
      exact .refl
  · rw [same nothing]
    exact ⟨origin, holds, fun _ => empty, sound.known, sound.proper, stands⟩

/-- A call for a head keeps what holds of mixed calls. -/
theorem Sound.decodeHeaders {origin : Reader Head Context} (lawful : api.Lawful collected)
    (sound : mixture.Sound api collected origin) (keeps : mixture.Keeps api.side)
    (apart : mixture.decoder.decoded = none ∨ mixture.decoder.phase ≠ .complete) :
    ∃ later, (mixture.call api .decodeHeaders).Sound api collected later := by
  have holds : Api.Holds collected (mixture.call api .decodeHeaders).decoder :=
    lawful.call sound.holds .decodeHeaders
  by_cases complete : mixture.decoder.phase = .complete
  · -- The message that was read piece by piece is left behind.
    have undecoded := apart.resolve_right (not_not.mpr complete)
    have empty := sound.idle undecoded
    rcases id sound.stands with ⟨inHead, _⟩ |
      ⟨decoded, reader, body, context, reached, _, unfailed, current, _, tracks⟩ | lost
    · rw [complete] at inHead
      cases inHead
    · have ends := (behind_complete lawful.side sound.proper reached unfailed (by simp [current])
        tracks complete).1
      refine ⟨.ready mixture.decoder.limits (api.side.nextContext mixture.decoder.context) []
        mixture.decoder.buf, holds, sound.idle, ?_, Reader.ready_proper _ _ _ _ _, ?_⟩
      · simp [Mixture.call, complete, following, sound.known, ends]
      · change Stands api.side _ { mixture.decoder with
          toCore := (mixture.decoder.toCore.decodeHeaders api.side).2 }
        rw [Core.decodeHeaders_complete api.side complete]
        exact stands_heading undecoded empty rfl .refl
    · exact absurd lost (sound.kept keeps)
  · have known : (mixture.call api .decodeHeaders).origin = some origin := by
      simp only [Mixture.call, if_neg complete]
      exact sound.known
    refine ⟨origin, holds, sound.idle, known, sound.proper, ?_⟩
    change Stands api.side _ { mixture.decoder with
      toCore := (mixture.decoder.toCore.decodeHeaders api.side).2 }
    cases inHead : mixture.decoder.phase.isHeading with
    | false =>
      -- During a body a head is asked for in vain.
      obtain ⟨error, refused⟩ := Core.decodeHeaders_refused api.side inHead complete
      rw [refused]
      exact sound.stands
    | true =>
      rcases id sound.stands with ⟨_, reached⟩ |
        ⟨_, reader, _, context, reached, _, unfailed, _, _, tracks⟩ | lost
      · have sane := Reader.reaches_proper lawful.side reached sound.proper rfl
        have undecoded : mixture.decoder.decoded = none := by
          by_contra reading
          have outside := Reader.outside_of_current sane.consistent reading
          rw [show (mixture.decoder.view []).core.phase = mixture.decoder.phase from rfl,
            inHead] at outside
          cases outside
        have empty := sound.idle undecoded
        refine stands_heading undecoded empty inHead ?_
        simpa only [Decoder.view, undecoded, empty] using reached
      · have told := told_proper lawful.side sound.proper reached unfailed context
        have outside := tracks.outside lawful.side told (by simp)
        rw [show DecodePhase.isHeading _ = true from inHead] at outside
        cases outside
      · exact absurd lost (sound.kept keeps)

/-- A call that says something about the message keeps what holds of mixed calls. -/
theorem Sound.tell {origin : Reader Head Context} (lawful : api.Lawful collected)
    (sound : mixture.Sound api collected origin) (keeps : mixture.Keeps api.side)
    (context : Context) : ∃ later, (mixture.call api (.tell context)).Sound api collected later := by
  have holds : Api.Holds collected (mixture.call api (.tell context)).decoder :=
    lawful.call sound.holds (.tell context)
  rcases id sound.stands with ⟨inHead, reached⟩ |
    ⟨decoded, reader, body, before, reached, unread, unfailed, current, found, tracks⟩ | lost
  · -- It is said in time, so a reader at the start of the message knows it as well.
    refine ⟨origin.told context, holds, sound.idle, ?_,
      ⟨sound.proper.consistent, sound.proper.determined⟩,
      Stands.tell_heading lawful.side sound.proper inHead reached context⟩
    simp [Mixture.call, inHead, sound.known]
  · have told := told_proper lawful.side sound.proper reached unfailed before
    have outside := tracks.outside lawful.side told (by simp)
    have reading : (reader.told before).current ≠ none := by simp [Reader.told, current]
    refine ⟨origin, holds, sound.idle, ?_, sound.proper, .inside decoded reader body context reached
      unread unfailed current found (tracks.tell lawful.side told reading context)⟩
    simp only [Mixture.call, show mixture.decoder.phase.isHeading = false from outside]
    exact sound.known
  · exact absurd lost (sound.kept keeps)

/-- A body operation keeps what holds of mixed calls. -/
theorem Sound.consume {origin : Reader Head Context} (lawful : api.Lawful collected)
    (sound : mixture.Sound api collected origin) (keeps : mixture.Keeps api.side) {len : Nat}
    (apart : mixture.decoder.decoded = none ∨ len = 0 ∨
      ∀ data, mixture.decoder.peekBody = some data → data.length < len)
    (holds : Api.Holds collected { mixture.decoder with toBodyState :=
      (BodyState.consumeBody mixture.decoder.limits len mixture.decoder.toBodyState).2 }) :
    Sound api collected { mixture with decoder := { mixture.decoder with toBodyState :=
      (BodyState.consumeBody mixture.decoder.limits len mixture.decoder.toBodyState).2 } } origin :=
  ⟨holds, sound.idle, sound.known, sound.proper, sound.stands.consume lawful.side sound.proper
    sound.holds.sane.body.counts (sound.kept keeps) apart⟩

/-- Every mixed call that leaves alone what is collected keeps what holds of such calls. -/
theorem Sound.call {origin : Reader Head Context} (lawful : api.Lawful collected)
    (handing : api.HandsOut whole) (sound : mixture.Sound api collected origin)
    (next : Call Context) (mixed : next.isMixed = true) (apart : mixture.Apart api.side next) :
    ∃ later, (mixture.call api next).Sound api collected later := by
  have holds : Api.Holds collected (mixture.call api next).decoder := lawful.call sound.holds next
  cases next with
  | feed data =>
    rcases mixture.decoder.feed_cases data with accepted | ⟨error, refused⟩
    · have changed : mixture.call api (.feed data) = ⟨mixture.decoder.feedUnchecked data,
          mixture.origin.map fun origin => origin.feed data⟩ := by
        simp [Mixture.call, Api.call, accepted, Except.isOk, Except.toBool]
      rw [changed] at holds ⊢
      exact ⟨origin.feed data, holds, sound.idle, by rw [sound.known]; rfl, sound.proper.feed data,
        sound.stands.feed data⟩
    · -- Input that is refused is not part of the stream.
      have unchanged : mixture.call api (.feed data) = mixture := by
        simp [Mixture.call, Api.call, refused, Except.isOk, Except.toBool]
      rw [unchanged]
      exact ⟨origin, sound⟩
  | tell context => exact sound.tell lawful apart context
  | decodeHeaders => exact sound.decodeHeaders lawful apart.1 apart.2
  | peekBody => exact ⟨origin, sound⟩
  | consumeBody len =>
    by_cases empty : len = 0
    · have unchanged : mixture.call api (.consumeBody len) = mixture := by
        simp [Mixture.call, Api.call, Decoder.consumeBody, empty]
      rw [unchanged]
      exact ⟨origin, sound⟩
    · have changed : mixture.call api (.consumeBody len) = { mixture with
          decoder := { mixture.decoder with toBodyState :=
            (BodyState.consumeBody mixture.decoder.limits len mixture.decoder.toBodyState).2 } } := by
        simp [Mixture.call, Api.call, Decoder.consumeBody_eq _ (Nat.pos_of_ne_zero empty)]
      rw [changed] at holds ⊢
      exact ⟨origin, sound.consume lawful apart.1 apart.2 holds⟩
  | progress => exact ⟨origin, sound.consume lawful apart (.inr (.inl rfl)) holds⟩
  | decode => exact sound.decode lawful handing apart
  | mutBuf | write | advanceBuf | markEof => cases mixed

/-- What holds of mixed calls that leave alone what is collected. -/
theorem reachable_sound (lawful : api.Lawful collected) (handing : api.HandsOut whole)
    {limits : DecoderLimits} (reachable : Reachable api limits (Apart api.side) mixture) :
    ∃ origin, mixture.Sound api collected origin := by
  -- The induction is on the calls, which leave alone the message that is collected.
  induction reachable with
  | fresh =>
    have started : api.Reachable limits (fun _ => true) (api.fresh limits) := .fresh
    exact ⟨_, lawful.reachable started, fun _ => rfl, rfl, Reader.ready_proper _ _ _ _ _,
      .heading rfl .refl⟩
  | call next _ mixed apart ih =>
    obtain ⟨_, sound⟩ := ih
    exact sound.call lawful handing next mixed apart

/-- Messages that mixed calls hand out have the head and all the content of one message. -/
theorem Sound.keepsApart {origin : Reader Head Context} (lawful : api.Lawful collected)
    (handing : api.HandsOut whole) (sound : mixture.Sound api collected origin)
    (keeps : mixture.Keeps api.side) : mixture.Unspliced api whole := by
  intro result next decoded
  -- A message is open, and what is handed out is that one, or nothing is handed out.
  rcases sound.asked lawful handing keeps with ⟨head, bodyKind, reader, context, opened⟩ |
    ⟨nothing, _⟩
  · obtain ⟨headed, _, handed⟩ := opened.handed
    rw [decoded] at handed
    obtain ⟨last, _, complete, tracks, _, rfl⟩ := handed
    -- The decoder has come to the end of the message it was tracking.
    obtain ⟨reader, reached, inside, unfailed, past, current, body⟩ :=
      (behind_complete lawful.side sound.proper opened.reached opened.unfailed
        (by simp [opened.current]) tracks complete).2
    exact ⟨origin, reader, head, bodyKind, sound.known, reached, inside, unfailed, past,
      current.trans opened.current, by rw [body]⟩
  · rw [decoded] at nothing
    exact absurd rfl (nothing result)

end Mixture

/-- Mixed calls never splice messages, as long as they leave alone the one being collected. -/
theorem unspliced (limits : DecoderLimits) :
    (∀ mixture, Mixture.Reachable RequestDecoder.api limits (Mixture.Apart RequestDecoder.side)
        mixture → mixture.Apart RequestDecoder.side .decode →
      mixture.Unspliced RequestDecoder.api Message.request) ∧
    (∀ mixture, Mixture.Reachable ResponseDecoder.api limits (Mixture.Apart ResponseDecoder.side)
        mixture → mixture.Apart ResponseDecoder.side .decode →
      mixture.Unspliced ResponseDecoder.api Message.response) := by
  -- The argument is the same for requests and responses.
  refine ⟨fun mixture reachable apart => ?_, fun mixture reachable apart => ?_⟩
  · obtain ⟨origin, sound⟩ :=
      Mixture.reachable_sound Api.request_lawful RequestDecoder.api_handsOut reachable
    exact sound.keepsApart Api.request_lawful RequestDecoder.api_handsOut apart
  · obtain ⟨origin, sound⟩ :=
      Mixture.reachable_sound Api.response_lawful ResponseDecoder.api_handsOut reachable
    exact sound.keepsApart Api.response_lawful ResponseDecoder.api_handsOut apart

namespace Reader

variable {Head Context : Type} {side : Side Head Context} {limit : Option Nat}
  {reader : Reader Head Context}

/-- A line of a head that is lost makes the reader fail. -/
theorem Drops.fails (drops : reader.Drops side) (running : reader.halted limit = false)
    (unsized : reader.core.phase ≠ .bodyChunkedSize) :
    ∃ next, reader.step side limit = some next ∧ next.failed ≠ none := by
  obtain ⟨within, ⟨line, rest, split, refused⟩ | ⟨line, rest, split, refused⟩⟩ := drops
  · -- A line of the body would be a size or a trailer.
    exfalso
    cases phase : reader.core.phase with
    | bodyChunkedSize => exact unsized phase
    | chunkedTrailer => exact within phase
    | startLine | headers | bodyContentLength | bodyChunkedData | bodyChunkedDataCrlf
    | bodyCloseDelimited | tunnel | complete => simp only [phase] at refused
  · cases phase : reader.core.phase with
    | startLine =>
      simp only [phase] at refused
      obtain ⟨text, decoded, wrong⟩ := refused
      refine ⟨reader.afterHead (reader.core.headLine side line rest), ?_, ?_⟩
      · simp only [step, running, phase, split, Option.map_some]
      cases checked : side.checkStartLine text with
      | ok done => exact absurd checked wrong
      | error error =>
        simp [afterHead, Core.headLine, phase, Core.readStartLine, decoded, checked, Except.map]
    | headers =>
      have later : reader.core.phase ≠ .startLine := by simp [phase]
      simp only [phase] at refused
      refine ⟨reader.afterHead (reader.core.headLine side line rest), ?_, ?_⟩
      · simp only [step, running, phase, split, Option.map_some]
      rcases refused with ⟨empty, wrong⟩ | ⟨text, ⟨present, short, few, decoded⟩, wrong⟩
      · -- The end of the head is refused.
        cases started : reader.core.startLine with
        | none => simp [afterHead, Core.headLine, later, empty, Core.finishHeaders, started, Except.map]
        | some startLine =>
          cases finished : side.finishHead reader.core.limits reader.core.context startLine
            reader.core.headers with
          | ok decoded => exact absurd finished (wrong startLine decoded started)
          | error error =>
            simp [afterHead, Core.headLine, later, empty, Core.finishHeaders, started, finished,
              Except.map]
      · cases parsed : parseHeaderLine text with
        | ok field => exact absurd parsed (wrong field)
        | error error =>
          simp [afterHead, Core.headLine, later, present, Core.readHeaderLine, Nat.not_lt.mpr short,
            Nat.not_le.mpr few, decoded, parsed, Except.map]
    | bodyContentLength | bodyChunkedSize | bodyChunkedData | bodyChunkedDataCrlf | chunkedTrailer
    | bodyCloseDelimited | tunnel | complete => simp only [phase] at refused

end Reader

namespace Mixture

variable {Head Context Whole : Type} {api : Api Head Context Whole}

/-- Some steps bring a reader through the message, without chunks and without an error. -/
def isClear (side : Side Head Context) (steps : Nat) (mixture : Mixture Head Context) : Bool :=
  mixture.origin.all fun origin =>
    decide (((Reader.machine side (some 1)).states steps origin).length ≤ steps) &&
      ((Reader.machine side (some 1)).states steps origin).all fun reader =>
        reader.failed.isNone && reader.core.phase != .bodyChunkedSize

/-- Where a reader gets through the message, no line is lost. -/
theorem keeps_of_clear {side : Side Head Context} {steps : Nat} {mixture : Mixture Head Context}
    (clear : mixture.isClear side steps = true) : mixture.Keeps side := by
  intro origin known reader reached inside unfailed drops
  simp only [isClear, Option.mem_def.mp known, Option.all_some, Bool.and_eq_true,
    decide_eq_true_eq, List.all_eq_true] at clear
  obtain ⟨few, passed⟩ := clear
  obtain ⟨_, unsized⟩ := passed reader (reached.mem_states few)
  have running : reader.halted (some 1) = false := by simp [Reader.halted, unfailed, inside]
  -- A reader in front of such a line would fail in its next step.
  obtain ⟨next, stepped, stuck⟩ := drops.fails running (by simpa using unsized)
  have fine := (passed next ((reached.trans (.single stepped)).mem_states few)).1
  exact absurd (Option.isNone_iff_eq_none.mp fine) stuck

/-- A call that leaves alone what is collected, where all lines are accepted. -/
def isApart (side : Side Head Context) (steps : Nat) (mixture : Mixture Head Context) :
    Call Context → Bool
  | .decodeHeaders => mixture.isClear side steps &&
      (mixture.decoder.decoded.isNone || mixture.decoder.phase != .complete)
  | .consumeBody _ => mixture.isClear side steps && mixture.decoder.decoded.isNone
  | .tell _ | .progress | .decode => mixture.isClear side steps
  | _ => true

/-- Such a call meets the condition. -/
theorem apart_of_isApart {side : Side Head Context} {steps : Nat} {mixture : Mixture Head Context}
    {next : Call Context} (checked : mixture.isApart side steps next = true) :
    mixture.Apart side next := by
  -- Each call is checked as the condition has it.
  cases next with
  | decodeHeaders =>
    simp only [isApart, Bool.and_eq_true, Bool.or_eq_true, Option.isNone_iff_eq_none,
      bne_iff_ne] at checked
    exact ⟨keeps_of_clear checked.1, checked.2⟩
  | consumeBody len =>
    simp only [isApart, Bool.and_eq_true, Option.isNone_iff_eq_none] at checked
    exact ⟨keeps_of_clear checked.1, .inl checked.2⟩
  | tell | progress | decode => exact keeps_of_clear checked
  | feed | peekBody | mutBuf | write | advanceBuf | markEof => trivial

/-- What some calls on a fresh decoder lead to. -/
def after (api : Api Head Context Whole) (calls : List (Call Context)) : Mixture Head Context :=
  calls.foldl (Mixture.call api) (fresh api {})

/-- All of some calls meet the condition. -/
def staysApart (api : Api Head Context Whole) (steps : Nat) (mixture : Mixture Head Context) :
    List (Call Context) → Bool
  | [] => true
  | next :: rest => next.isMixed && mixture.isApart api.side steps next &&
      (mixture.call api next).staysApart api steps rest

/-- Calls that meet the condition lead to what is reachable under it. -/
theorem reachable_of_staysApart {limits : DecoderLimits} {steps : Nat} {calls : List (Call Context)}
    {mixture : Mixture Head Context} (reachable : Reachable api limits (Apart api.side) mixture)
    (checked : mixture.staysApart api steps calls = true) :
    Reachable api limits (Apart api.side) (calls.foldl (Mixture.call api) mixture) := by
  induction calls generalizing mixture with
  | nil => exact reachable
  | cons next rest ih =>
    simp only [staysApart, Bool.and_eq_true] at checked
    obtain ⟨⟨mixed, apart⟩, later⟩ := checked
    exact ih (.call next reachable mixed (apart_of_isApart apart)) later

/-- Whatever calls are mixed, what they lead to can be reached. -/
theorem reachable_of_mixed {limits : DecoderLimits} {calls : List (Call Context)}
    {mixture : Mixture Head Context} (reachable : Reachable api limits (fun _ _ => True) mixture)
    (mixed : calls.all Call.isMixed = true) :
    Reachable api limits (fun _ _ => True) (calls.foldl (Mixture.call api) mixture) := by
  induction calls generalizing mixture with
  | nil => exact reachable
  | cons next rest ih =>
    simp only [List.all_cons, Bool.and_eq_true] at mixed
    exact ih (.call next reachable mixed.1 trivial) mixed.2

end Mixture

/-- Calls that read one request in pieces, pass over the next one, and ask for the third whole. -/
def mixingCalls : List (Call Unit) :=
  [.feed (Utf8.encode "POST /a HTTP/1.1\r\nHost: h\r\nContent-Length: 2\r\n\r\nx".toList),
    .decodeHeaders, .consumeBody 1, .decode,
    .feed (Utf8.encode "yGET /b HTTP/1.1\r\nHost: h\r\n\r\nPOST /c HTTP/1.1\r\n".toList),
    .peekBody, .consumeBody 1, .decode, .decodeHeaders, .progress, .decodeHeaders, .decode,
    .feed (Utf8.encode "Host: h\r\nContent-Length: 2\r\n\r\nz".toList), .decode, .progress,
    .decodeHeaders, .feed [0x77]]

/-- Calls that ask for the answer to a HEAD request, and for the next answer in pieces and whole. -/
def answeringCalls : List (Call (Option Str)) :=
  [.tell (some "HEAD".toList),
    .feed (Utf8.encode "HTTP/1.1 200 OK\r\nContent-Length: 2\r\n\r\nHTTP/1.1 200 OK\r\n".toList),
    .decode, .decodeHeaders, .feed (Utf8.encode "Content-Length: 2\r\n\r\nab".toList)]

/-- Requests and responses are handed out as they are, whatever was done before with the others. -/
theorem unspliced_mixed :
    let requests := Mixture.after RequestDecoder.api mixingCalls
    let responses := Mixture.after ResponseDecoder.api answeringCalls
    (requests.Unspliced RequestDecoder.api Message.request ∧
      responses.Unspliced ResponseDecoder.api Message.response) ∧
      (RequestDecoder.decode requests.decoder).1 = .ok (some ⟨"POST".toList, "/c".toList, http11,
        [("Host".toList, "h".toList), ("Content-Length".toList, "2".toList)],
        some [0x7A, 0x77]⟩) ∧
      (ResponseDecoder.decode responses.decoder).1 = .ok (some (Response.fromRawParts
        ⟨http11, 200, "OK".toList, [("Content-Length".toList, "2".toList)]⟩
        (some [0x61, 0x62]))) := by
  intro requests responses
  -- Each call of both lists is checked, and then the state they lead to.
  have first : Mixture.staysApart RequestDecoder.api 20 (.fresh RequestDecoder.api {})
      mixingCalls = true := by decide +kernel
  have second : Mixture.staysApart ResponseDecoder.api 20 (.fresh ResponseDecoder.api {})
      answeringCalls = true := by decide +kernel
  have clear : requests.isClear RequestDecoder.side 20 = true := by decide +kernel
  have later : responses.isClear ResponseDecoder.side 20 = true := by decide +kernel
  exact ⟨⟨(unspliced {}).1 requests (Mixture.reachable_of_staysApart .fresh first)
      (Mixture.keeps_of_clear clear),
    (unspliced {}).2 responses (Mixture.reachable_of_staysApart .fresh second)
      (Mixture.keeps_of_clear later)⟩, by decide +kernel, by decide +kernel⟩

/-- The head of a request, as it was handed out. -/
def Request.head (request : Request) : RequestHead :=
  ⟨request.method, request.uri, request.version, request.headers⟩

/-- A request with a head that no reader of the message at hand has read is spliced. -/
theorem Mixture.spliced_of_states {mixture : Mixture RequestHead Unit} {request : Request}
    {steps : Nat} (decoded : (RequestDecoder.decode mixture.decoder).1 = .ok (some request))
    (passed : (mixture.origin.all fun origin =>
      decide (((Reader.machine RequestDecoder.side (some 1)).states steps origin).length ≤ steps) &&
        ((Reader.machine RequestDecoder.side (some 1)).states steps origin).all fun reader =>
          reader.current.all fun decoded => decoded.1 != request.head) = true) :
    ¬ mixture.Unspliced RequestDecoder.api Message.request := by
  intro unspliced
  obtain ⟨origin, reader, head, bodyKind, known, reached, _, _, _, current, same⟩ :=
    unspliced _ _ (Prod.ext decoded rfl)
  simp only [known, Option.all_some, Bool.and_eq_true, decide_eq_true_eq,
    List.all_eq_true] at passed
  -- All states that a reader passes through have been looked at.
  have other := passed.2 reader (reached.mem_states passed.1)
  simp only [current, Option.all_some, bne_iff_ne, ne_eq] at other
  exact other (by rw [same]; rfl)

/-- Calls that skip a body while its message is being collected, and read the next head. -/
def skippingCalls : List (Call Unit) :=
  [.feed (Utf8.encode "POST /a HTTP/1.1\r\nHost: h\r\nContent-Length: 1\r\n\r\n".toList), .decode,
    .feed (Utf8.encode "xPOST /b HTTP/1.1\r\nHost: h\r\nContent-Length: 1\r\n\r\ny".toList),
    .consumeBody 1, .decodeHeaders]

/-- The head of one request is handed out with the body of the next one. -/
theorem unspliced_skipped :
    let mixture := Mixture.after RequestDecoder.api skippingCalls
    Mixture.Reachable RequestDecoder.api {} (fun _ _ => True) mixture ∧
      (RequestDecoder.decode mixture.decoder).1 =
        .ok (some ⟨"POST".toList, "/a".toList, http11,
          [("Host".toList, "h".toList), ("Content-Length".toList, "1".toList)], some [0x79]⟩) ∧
      ¬ mixture.Unspliced RequestDecoder.api Message.request := by
  intro mixture
  have decoded : (RequestDecoder.decode mixture.decoder).1 =
      .ok (some ⟨"POST".toList, "/a".toList, http11,
        [("Host".toList, "h".toList), ("Content-Length".toList, "1".toList)], some [0x79]⟩) := by
    decide +kernel
  exact ⟨Mixture.reachable_of_mixed .fresh (by decide +kernel), decoded,
    -- No reader of that input comes to this request, as twenty steps show.
    @Mixture.spliced_of_states mixture _ 20 decoded (by decide +kernel)⟩

/-- Calls that ask again for a request whose head was refused. -/
def insistingCalls : List (Call Unit) :=
  [.feed (Utf8.encode "GET /a HTTP/1.1\r\n\r\nGET /b HTTP/1.1\r\nHost: b\r\n\r\n".toList),
    .decode, .decode]

/-- The start line of a refused request is handed out with the fields of the next one. -/
theorem unspliced_insisting :
    let mixture := Mixture.after RequestDecoder.api insistingCalls
    Mixture.Reachable RequestDecoder.api {} (fun _ _ => True) mixture ∧
      (RequestDecoder.decode mixture.decoder).1 =
        .ok (some ⟨"GET".toList, "/a".toList, http11, [("Host".toList, "b".toList)], none⟩) ∧
      ¬ mixture.Unspliced RequestDecoder.api Message.request := by
  intro mixture
  have decoded : (RequestDecoder.decode mixture.decoder).1 =
      .ok (some ⟨"GET".toList, "/a".toList, http11, [("Host".toList, "b".toList)], none⟩) := by
    decide +kernel
  exact ⟨Mixture.reachable_of_mixed .fresh (by decide +kernel), decoded,
    @Mixture.spliced_of_states mixture _ 20 decoded (by decide +kernel)⟩

end Http11

import Http11.Proofs.Decoder.Collecting
import Http11.Proofs.Decoder.Lines
import Http11.Tunnel

/-! An open tunnel hands over what it receives: none of it is lost or read as a message. -/

namespace Http11

/-- A line is passed over, unless it is empty where a line starts. -/
theorem behindEmptyLine_line {line : Bytes} (plain : IsLine line) (rest : Bytes) :
    ∀ start, (start = true → line ≠ []) →
      behindEmptyLine start (line ++ crlf ++ rest) = behindEmptyLine true rest := by
  unfold IsLine at plain
  fun_induction findLine line with
  | case1 => cases plain
  | case2 =>
    intro start present
    cases start with
    | false => rfl
    | true => exact absurd rfl (present rfl)
  | case3 byte line notEnd ih =>
    intro start _
    have later := ih (by simpa using plain) false (by simp)
    -- The byte in front starts no line end, neither in the line nor with the one behind it.
    have noEnd : ∀ others, byte = 13 → line ++ crlf ++ rest ≠ 10 :: others := by
      intro others first second
      cases line with
      | nil => simp [crlf] at second
      | cons next line =>
        simp only [List.cons_append, List.cons.injEq] at second
        exact notEnd line first (by rw [second.1])
    rw [List.cons_append, List.cons_append, ← later, behindEmptyLine]
    · exact fun others _ first second => noEnd others first second
    · exact fun others _ first second => noEnd others first second

/-- A line that is split off is passed over, and behind an empty one is what follows the head. -/
theorem behindHead_split {buf line rest : Bytes} (split : splitLine buf = some (line, rest)) :
    behindHead buf = if line = [] then some rest else behindHead rest := by
  obtain ⟨plain, rfl⟩ := splitLine_some split
  by_cases empty : line = []
  · rw [if_pos empty, empty]
    rfl
  · rw [if_neg empty]
    exact behindEmptyLine_line plain rest true fun _ => empty

/-- No change of a body starts in a tunnel, and none leads into one. -/
theorem BodyState.Change.outsideTunnel {limits : DecoderLimits} {state next : BodyState}
    (changed : BodyState.Change limits state next) :
    state.phase ≠ .tunnel ∧ next.phase ≠ .tunnel := by
  -- Each change starts in a phase of its own, and ends in one of a body.
  cases changed with
  | @sizeLine line rest phase split =>
    refine ⟨by simp [phase], ?_⟩
    rcases chunkSizeLine_cases limits state line rest with ⟨_, _, read⟩ | ⟨_, read⟩ |
      ⟨_, _, _, _, _, read⟩ | ⟨_, _, _, _, _, read⟩ <;> rw [read] <;> simp [phase]
  | @trailerLine line rest phase split =>
    refine ⟨by simp [phase], ?_⟩
    rcases trailerLine_cases limits state line rest with ⟨_, read⟩ | ⟨_, _, _, read⟩ |
      ⟨_, _, _, read⟩ | ⟨_, _, _, _, _, _, _, _, _, read⟩ <;> rw [read] <;> simp [phase]
  | lineEnd phase =>
    refine ⟨by simp [phase], ?_⟩
    rcases chunkDataCrlf_cases state with ⟨_, read⟩ | ⟨_, read⟩ | ⟨_, _, read⟩ <;> rw [read] <;>
      simp [phase]
  | handOver phase => exact ⟨by simp [phase], by simp [takeTrailers, phase]⟩
  | content phase =>
    refine ⟨by simp [phase], ?_⟩
    simp only [afterContent]
    split <;> simp
  | chunk phase =>
    refine ⟨by simp [phase], ?_⟩
    simp only [afterContent]
    split <;> simp
  | lasting phase => exact ⟨by simp [phase], by simp [afterContent]⟩
  | overflow counting kind phase =>
    rcases kind with rfl | rfl <;> exact ⟨by simp [phase], by simp⟩

namespace Core

variable {Head Context : Type} {side : Side Head Context} {core next : Core Context}

/-- What changes only the body changes nothing about a tunnel. -/
theorem Moves.tunnel (moves : core.Moves next)
    (there : core.phase = .tunnel ∨ next.phase = .tunnel) : next = core := by
  obtain ⟨state, changes, rfl⟩ := moves
  -- From a tunnel there is no first change, and to one no last.
  rcases there with phase | phase
  · rcases changes.cases_head with same | ⟨_, changed, _⟩
    · rw [← same]
    · exact absurd phase changed.outsideTunnel.1
  · rcases changes.cases_tail with same | ⟨_, _, changed⟩
    · rw [same]
    · exact absurd phase changed.outsideTunnel.2

/-- Nothing changes in a tunnel. -/
theorem Changes.tunnel (changes : Changes side core next) (phase : core.phase = .tunnel) :
    next = core := by
  rcases changes.cases_head with same | ⟨_, changed, _⟩
  · exact same.symm
  · cases changed with
    | body changed => exact absurd phase changed.outsideTunnel.1
    | headLine heading => simp [phase, DecodePhase.isHeading] at heading
    | next complete => simp [phase] at complete

/-- A line of a head is passed over, and the tunnel that it opens starts behind it. -/
theorem headLine_behindHead (unstarted : ∀ done, side.checkStartLine [] ≠ .ok done)
    (heading : core.phase.isHeading = true) {line rest : Bytes}
    (split : splitLine core.buf = some (line, rest))
    {result : Except Error (Option (Head × BodyKind))}
    (read : core.headLine side line rest = (result, next)) :
    (result = .ok none → Http11.behindHead core.buf = Http11.behindHead next.buf) ∧
      (next.phase = .tunnel → Http11.behindHead core.buf = some next.buf) := by
  have behind := behindHead_split split
  have closed : core.phase ≠ .tunnel := by
    intro phase
    simp [phase, DecodePhase.isHeading] at heading
  rcases headLine_cases side core line rest with ⟨_, error, refused⟩ | ⟨_, error, refused⟩ |
    ⟨_, decoded, after, accepted⟩
  · rw [refused] at read
    cases read
    exact ⟨by simp, fun phase => absurd phase closed⟩
  · rw [refused] at read
    cases read
    exact ⟨by simp, fun phase => absurd phase closed⟩
  rw [accepted] at read
  cases read
  rcases headLine_ok accepted with ⟨_, rfl, started⟩ | ⟨_, rfl, _, _, rfl, finished⟩ |
    ⟨_, present, rfl, field⟩
  · -- The start line is never empty.
    obtain ⟨text, decoded, checked, rfl⟩ := readStartLine_ok started
    have present : line ≠ [] := by
      rintro rfl
      cases (show lineText [] = .ok [] from rfl).symm.trans decoded
      exact unstarted _ checked
    rw [if_neg present] at behind
    exact ⟨fun _ => behind, by simp⟩
  · obtain ⟨_, _, _, rfl⟩ := finishHeaders_ok finished
    exact ⟨by simp, fun _ => by rw [behind, if_pos rfl]⟩
  · obtain ⟨_, _, _, _, _, _, rfl⟩ := readHeaderLine_ok field
    rw [if_neg present] at behind
    exact ⟨fun _ => behind, fun phase => absurd phase closed⟩

/-- A head that opens a tunnel leaves in the buffer what follows its blank line. -/
theorem decodeHeaders_behindHead (unstarted : ∀ done, side.checkStartLine [] ≠ .ok done)
    (core : Core Context) (closed : core.phase ≠ .tunnel)
    (opened : (core.decodeHeaders side).2.phase = .tunnel) :
    Http11.behindHead core.buf = some (core.decodeHeaders side).2.buf := by
  refine (decodeHeadersLoop side).run_rule
    (motive := fun core result => core.phase ≠ .tunnel → result.2.phase = .tunnel →
      Http11.behindHead core.buf = some result.2.buf) ?_ ?_ core closed opened
  · rintro core ⟨result, next⟩ pass closed opened
    rcases decodeHeadersPass_returned pass with ⟨_, _, same⟩ | ⟨heading, _, line, rest, split, read⟩ |
      ⟨_, _, _, same⟩
    · cases same
      exact absurd opened closed
    · exact (headLine_behindHead unstarted heading split read).2 opened
    · cases same
      exact absurd opened closed
  · intro core next result pass ih closed opened
    rcases decodeHeadersPass_continued pass with ⟨heading, line, rest, split, read⟩ |
      ⟨complete, rfl⟩
    · have phases : core.phase = .startLine ∨ core.phase = .headers := by
        simpa [DecodePhase.isHeading] using heading
      have phase := headLine_phase phases read
      rw [(headLine_behindHead unstarted heading split read).1 rfl]
      exact ih (by simp [phase]) opened
    · -- Moving to the next message leaves the buffer as it is.
      exact ih (by simp [nextMessage]) opened

end Core

namespace Decoder

variable {Head Context : Type} {side : Side Head Context}

/-- Reading the head to collect opens a tunnel behind the blank line of that head. -/
theorem decodeHead_behindHead (unstarted : ∀ done, side.checkStartLine [] ≠ .ok done)
    (decoder : Decoder Head Context) (closed : decoder.phase ≠ .tunnel)
    (opened : (decoder.decodeHead side).2.phase = .tunnel) :
    behindHead decoder.buf = some (decoder.decodeHead side).2.buf := by
  -- A head that was decoded is found again, without reading anything.
  cases found : decoder.decoded with
  | some decoded =>
    rw [decodeHead_found side found] at opened
    exact absurd opened closed
  | none =>
    -- Outside a head the call is refused and opens nothing.
    by_cases heading : decoder.phase = .startLine ∨ decoder.phase = .headers
    · have behind := Core.decodeHeaders_behindHead unstarted decoder.toCore closed
      rw [decodeHead_eq side found heading] at opened ⊢
      rcases read : decoder.toCore.decodeHeaders side with ⟨_ | _ | _, core⟩ <;>
        rw [read] at behind opened <;> exact behind opened
    · rw [decodeHead_refused side found heading] at opened
      exact absurd opened closed

end Decoder

/-- Behind its head a request only changes its body, until the next one starts. -/
theorem RequestDecoder.decode_moves (decoder : RequestDecoder) :
    (decoder.decodeHead side).2.toCore.Moves (decode decoder).2.toCore ∨
      (decode decoder).2.phase = .startLine := by
  rcases decode_cases decoder with ⟨_, _, same⟩ | ⟨_, _, headed, read, rest⟩
  · rw [same]
    exact .inl .refl
  rw [read]
  -- The body is being collected, or the request is over.
  rcases rest with ⟨_, _, _, same⟩ | ⟨_, _, _, same⟩ | ⟨_, _, same⟩ <;> rw [same]
  · exact .inl (Decoder.readBody_moves headed)
  · exact .inr rfl
  · exact .inr rfl

/-- Behind its head a response only changes its body, until the next one starts. -/
theorem ResponseDecoder.decode_moves (decoder : ResponseDecoder) :
    (decoder.decodeHead side).2.toCore.Moves (decode decoder).2.toCore ∨
      (decode decoder).2.phase = .startLine := by
  unfold decode
  rcases decoder.decodeHead side with ⟨_ | _ | ⟨head, bodyKind⟩, headed⟩
  · exact .inl .refl
  · exact .inl .refl
  -- Without a body, or at its end, the response is handed over.
  cases bodyKind with
  | tunnel => exact .inl .refl
  | none => exact .inr rfl
  | contentLength | chunked =>
    have moves := Decoder.readBody_moves headed
    dsimp only
    rcases body : headed.readBody with ⟨_ | _ | _, last⟩ <;> rw [body] at moves
    · exact .inl moves
    · exact .inl moves
    · exact .inr rfl
  | closeDelimited =>
    have moves := (readUntilClose_moves headed).1
    dsimp only
    -- Only the end of the connection ends such a body.
    rcases body : readUntilClose headed with ⟨_ | _, last⟩ <;> rw [body] at moves
    · exact .inl moves
    · dsimp only
      split
      · exact .inl moves
      · exact .inr rfl

namespace Api

variable {Head Context Whole : Type} {api : Api Head Context Whole} {collected : BodyKind → Bool}
  {decoder : Decoder Head Context}

/-- What both decoders have in common where tunnels open. -/
structure OpensTunnels (api : Api Head Context Whole) : Prop where
  /-- No start line is empty. -/
  unstarted : ∀ done, api.side.checkStartLine [] ≠ .ok done
  /-- Behind its head a message only changes its body, until the next one starts. -/
  moves : ∀ decoder : Decoder Head Context,
    (decoder.decodeHead api.side).2.toCore.Moves (api.decode decoder).2.toCore ∨
      (api.decode decoder).2.phase = .startLine

/-- Tunnels that a request opens. -/
theorem request_opensTunnels : RequestDecoder.api.OpensTunnels where
  unstarted := fun _ same => by cases same
  moves := RequestDecoder.decode_moves

/-- Tunnels that a response opens. -/
theorem response_opensTunnels : ResponseDecoder.api.OpensTunnels where
  unstarted := fun _ same => by cases same
  moves := ResponseDecoder.decode_moves

/-- A tunnel that a use opens starts behind the blank line of a head. -/
theorem OpensTunnels.behindHead (opens : api.OpensTunnels) (lawful : api.Lawful collected)
    (closed : decoder.phase ≠ .tunnel) (next : Use Context)
    (opened : (api.use decoder next).phase = .tunnel) :
    behindHead decoder.buf = some (api.use decoder next).buf := by
  -- Only two calls read heads; what changes only the body opens no tunnel.
  have still : ∀ {core : Core Context}, decoder.toCore.Moves core → core.phase ≠ .tunnel := by
    intro core moves phase
    rw [moves.tunnel (.inr phase)] at phase
    exact closed phase
  cases next with
  | call next =>
    cases next with
    | decodeHeaders => exact Core.decodeHeaders_behindHead opens.unstarted decoder.toCore closed opened
    | decode =>
      rcases opens.moves decoder with moves | started
      · have same := moves.tunnel (.inr opened)
        change (api.decode decoder).2.toCore.phase = .tunnel at opened
        change _ = some (api.decode decoder).2.toCore.buf
        rw [same] at opened ⊢
        exact Decoder.decodeHead_behindHead opens.unstarted decoder closed opened
      · rw [show (api.decode decoder).2.phase = .tunnel from opened] at started
        cases started
    | feed data =>
      rcases decoder.feed_cases data with same | ⟨_, same⟩ <;>
        simp only [use, call, same] at opened <;> exact absurd opened closed
    | mutBuf len =>
      obtain ⟨_, _, same⟩ := decoder.mutBuf_frame len
      simp only [use, call, same] at opened
      exact absurd opened closed
    | write | advanceBuf | tell | peekBody => exact absurd opened closed
    | consumeBody len => exact absurd opened (still (decoder.consumeBody_moves len))
    | progress => exact absurd opened (still decoder.progress_moves)
    | markEof =>
      rcases lawful.markEof decoder with same | ⟨_, same⟩ <;> simp only [use, call, same] at opened
      · exact absurd opened closed
      · cases opened
  | feedUnchecked | takeRemaining => exact absurd opened closed
  | reset => cases opened

/-- What holds of a decoder between uses, whatever uses were made. -/
theorem Lawful.use (lawful : api.Lawful collected) (holds : Holds collected decoder)
    (next : Use Context) : Holds collected (api.use decoder next) := by
  cases next with
  | call next => exact lawful.call holds next
  | feedUnchecked | takeRemaining => exact ⟨holds.sane.buf _, holds.collects⟩
  | reset => exact ⟨Core.sane_fresh decoder.limits api.initial [], fun _ _ found => by cases found⟩

/-- What goes on in a tunnel leaves it open, and conserves the bytes in it. -/
theorem Lawful.tunnelled (lawful : api.Lawful collected) (holds : Holds collected decoder)
    (phase : decoder.phase = .tunnel) {next : Use Context} (tunnelled : next.isTunnelled = true) :
    (api.use decoder next).phase = .tunnel ∧
      Tap.leaving decoder next ++ (api.use decoder next).buf =
        decoder.buf ++ Tap.arriving decoder next := by
  -- A call that leaves the decoder as it is brings nothing in and takes nothing away.
  have still : ∀ core : Core Context, core = decoder.toCore →
      core.phase = .tunnel ∧ [] ++ core.buf = decoder.buf ++ [] := by
    rintro _ rfl
    exact ⟨phase, by simp⟩
  cases next with
  | call next =>
    cases next with
    | feed data =>
      rcases decoder.feed_cases data with same | ⟨_, same⟩ <;>
        simp [Api.use, Api.call, Tap.leaving, Tap.arriving, same, phase, Except.isOk,
          Except.toBool, Decoder.feedUnchecked]
    | mutBuf | write | advanceBuf => cases tunnelled
    | tell | peekBody => exact ⟨phase, by simp [Tap.leaving, Tap.arriving, Api.use, Api.call]⟩
    | decodeHeaders =>
      exact still _ ((Core.decodeHeaders_changes api.side decoder.toCore).tunnel phase)
    | consumeBody len => exact still _ ((decoder.consumeBody_moves len).tunnel (.inl phase))
    | progress => exact still _ (decoder.progress_moves.tunnel (.inl phase))
    | decode =>
      refine still _ ?_
      have decodes := lawful.decodes holds.collects
      unfold Decoder.Decodes at decodes
      split at decodes
      · -- A whole message would be complete, which a tunnel never is.
        obtain ⟨last, changes, complete, _⟩ := decodes
        rw [changes.tunnel phase] at complete
        cases complete.symm.trans phase
      · exact decodes.1.tunnel phase
    | markEof =>
      rcases lawful.markEof decoder with same | ⟨lasting, _⟩
      · exact still _ (congrArg Decoder.toCore same)
      · cases lasting.symm.trans phase
  | feedUnchecked data => exact ⟨phase, rfl⟩
  | takeRemaining => exact ⟨phase, by simp [Tap.leaving, Tap.arriving, Api.use, Decoder.takeRemaining]⟩
  | reset => cases tunnelled

/-- In a tunnel nothing is read as part of a message. -/
theorem Lawful.isShut (lawful : api.Lawful collected) (holds : Holds collected decoder)
    (phase : decoder.phase = .tunnel) : api.IsShut decoder where
  -- A whole message would need a complete phase, which a tunnel never comes to.
  decode := by
    intro whole done
    have decodes := lawful.decodes holds.collects
    simp only [Decoder.Decodes, done] at decodes
    obtain ⟨last, changes, complete, _⟩ := decodes
    rw [changes.tunnel phase] at complete
    cases complete.symm.trans phase
  -- A tunnel is no phase of a head, nor the end of a message.
  decodeHeaders := by
    obtain ⟨error, refused⟩ := Core.decodeHeaders_refused api.side
      (show decoder.phase.isHeading = false by simp [phase, DecodePhase.isHeading]) (by simp [phase])
    exact ⟨error, by simp [Decoder.onCore, refused]⟩
  peekBody := by simp [Decoder.peekBody, BodyState.peekBody, phase]
  consumeBody := by
    intro len
    -- No bytes are refused as such, and others by the phase.
    by_cases empty : len = 0
    · exact ⟨_, by rw [Decoder.consumeBody, if_pos empty]⟩
    · rw [decoder.consumeBody_eq (Nat.pos_of_ne_zero empty)]
      simp [BodyState.consumeBody, phase]
  progress := by
    rw [Decoder.progress_eq]
    simp [BodyState.consumeBody, phase]

end Api

/-- What holds of a tapped decoder between uses. -/
structure Tap.Sound {Head Context : Type} (collected : BodyKind → Bool) (tap : Tap Head Context) :
    Prop where
  /-- What holds of its decoder. -/
  holds : Api.Holds collected tap.decoder
  /-- The flow is known exactly while there is a tunnel. -/
  known : tap.flow.isSome = tap.decoder.isTunnel
  /-- What was received was taken away or is still there. -/
  conserved : ∀ flow, tap.flow = some flow → flow.taken ++ tap.decoder.buf = flow.received

section

variable {Head Context Whole : Type} {api : Api Head Context Whole} {collected : BodyKind → Bool}
  {tap : Tap Head Context}

/-- Every use keeps what holds of a tapped decoder. -/
theorem Tap.Sound.use (sound : tap.Sound collected) (lawful : api.Lawful collected)
    (opens : api.OpensTunnels) {next : Use Context}
    (tunnelled : tap.flow.isSome = true → next.isTunnelled = true ∨ next = .reset) :
    (tap.use api next).Sound collected := by
  have holds := lawful.use sound.holds next
  cases known : tap.flow with
  | none =>
    have closed : tap.decoder.phase ≠ .tunnel := by
      intro phase
      simpa [known, Decoder.isTunnel, phase] using sound.known
    by_cases opened : (api.use tap.decoder next).phase = .tunnel
    · -- The tunnel starts with what is buffered behind its head.
      have behind := opens.behindHead lawful closed next opened
      have started : (tap.use api next).flow = some ⟨(api.use tap.decoder next).buf, []⟩ := by
        simp [Tap.use, Tap.flowAfter, known, Decoder.isTunnel, opened, behind]
      refine ⟨holds, ?_, ?_⟩
      · rw [started]
        simp [Tap.use, Decoder.isTunnel, opened]
      · rw [started]
        rintro _ ⟨⟩
        rfl
    · have none : (tap.use api next).flow = none := by
        simp [Tap.use, Tap.flowAfter, known, Decoder.isTunnel, opened]
      refine ⟨holds, ?_, ?_⟩
      · rw [none]
        simp [Tap.use, Decoder.isTunnel, opened]
      · rw [none]
        rintro _ found
        cases found
  | some flow =>
    have phase : tap.decoder.phase = .tunnel := by
      simpa [known, Decoder.isTunnel] using sound.known.symm
    rcases tunnelled (by rw [known]; rfl) with inside | rfl
    · obtain ⟨still, bytes⟩ := lawful.tunnelled sound.holds phase inside
      have going : (tap.use api next).flow = some ⟨flow.received ++ Tap.arriving tap.decoder next,
          flow.taken ++ Tap.leaving tap.decoder next⟩ := by
        have proceeds : next ≠ .reset := by
          rintro rfl
          cases inside
        cases next <;> first | exact absurd rfl proceeds | simp [Tap.use, Tap.flowAfter, known]
      refine ⟨holds, ?_, ?_⟩
      · rw [going]
        simp [Tap.use, Decoder.isTunnel, still]
      · rw [going]
        rintro _ ⟨⟩
        -- What leaves and what is left is what was there and what arrived.
        dsimp only [Tap.use]
        rw [List.append_assoc, bytes, ← List.append_assoc, sound.conserved flow known]
    · have ended : (tap.use api .reset).flow = none := by simp [Tap.use, Tap.flowAfter, known]
      refine ⟨holds, ?_, ?_⟩
      · rw [ended]
        rfl
      · rw [ended]
        rintro _ found
        cases found

/-- Whatever a program does, an open tunnel is transparent. -/
theorem Api.OpensTunnels.isTransparent (opens : api.OpensTunnels) (lawful : api.Lawful collected) :
    api.IsTransparent := by
  intro limits tap reachable
  have sound : tap.Sound collected := by
    -- The induction is on the calls between the opening and now.
    induction reachable with
    | fresh =>
      refine ⟨⟨Core.sane_fresh limits api.initial [], fun _ _ found => by cases found⟩, rfl, ?_⟩
      rintro _ found
      cases found
    | use next _ _ tunnelled ih => exact ih.use lawful opens tunnelled
  refine ⟨sound.known, fun flow known => ?_⟩
  have phase : tap.decoder.phase = .tunnel := by
    simpa [known, Decoder.isTunnel] using sound.known.symm
  refine ⟨lawful.isShut sound.holds phase, sound.conserved flow known, fun next inside _ => ?_⟩
  simpa [Tap.use, Decoder.isTunnel] using (lawful.tunnelled sound.holds phase inside).1

end

/-- Tunnels of requests and of responses hand over exactly what they receive. -/
theorem tunnels_transparent :
    RequestDecoder.api.IsTransparent ∧ ResponseDecoder.api.IsTransparent :=
  ⟨Api.request_opensTunnels.isTransparent Api.request_lawful,
    Api.response_opensTunnels.isTransparent Api.response_lawful⟩

/-- What is behind the head of the request goes through its tunnel, and so does what comes later. -/
example :
    ([.call (.feed (Utf8.encode "CONNECT a:1 HTTP/1.1\r\nHost: a:1\r\n\r\nG".toList)),
      .call .decode, .takeRemaining, .call (.feed [69, 84]), .call .decodeHeaders].foldl
        (Tap.use RequestDecoder.api) { decoder := RequestDecoder.api.fresh {} }).flow =
      some ⟨[71, 69, 84], [71]⟩ := by
  decide +kernel

end Http11

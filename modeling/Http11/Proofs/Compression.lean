import Http11.Compression
import Http11.Proofs.Consuming

/-! Reading a body through the decompressor that copies is reading it as it is. -/

namespace Http11

namespace BodyState

variable (limits : DecoderLimits) {state : BodyState} {len : Nat}

/-- Bytes that are counted in two steps are counted together. -/
theorem afterContent_afterContent (state : BodyState) (first second : Nat)
    (middle last : DecodePhase) :
    (state.afterContent first middle).afterContent second last =
      state.afterContent (first + second) last := by
  simp [afterContent, List.drop_drop, Nat.add_assoc]

/-- Consuming buffered bytes of a body of known length counts them. -/
theorem consumeBody_content {remaining : Nat} (phase : state.phase = .bodyContentLength remaining)
    (within : len ≤ remaining) (buffered : len ≤ state.buf.length) (positive : 1 ≤ len)
    (fits : state.bodyDecoder.bodyConsumed + len ≤ usizeMax) :
    consumeBody limits len state = if remaining - len = 0
      then (.ok (.complete []), state.afterContent len .complete)
      else (.ok .advanced, state.afterContent len (.bodyContentLength (remaining - len))) := by
  simp only [consumeBody, phase, addConsumed, checkedAdd, if_pos fits,
    if_neg (Nat.not_lt.mpr within), if_neg (Nat.not_lt.mpr buffered), if_pos (show 0 < len from positive)]
  split <;> rfl

/-- Consuming buffered bytes of a chunk counts them, and with the last one its line end is due. -/
theorem consumeBody_chunk {remaining : Nat} (phase : state.phase = .bodyChunkedData remaining)
    (within : len ≤ remaining) (buffered : len ≤ state.buf.length) (positive : 1 ≤ len)
    (fits : state.bodyDecoder.bodyConsumed + len ≤ usizeMax) :
    consumeBody limits len state = if remaining - len = 0
      then chunkDataCrlf (state.afterContent len .bodyChunkedDataCrlf)
      else (.ok .advanced, state.afterContent len (.bodyChunkedData (remaining - len))) := by
  simp only [consumeBody, phase, addConsumed, checkedAdd, if_pos fits,
    if_neg (Nat.not_lt.mpr within), if_neg (Nat.not_lt.mpr buffered),
    if_neg (Nat.pos_iff_ne_zero.mp positive)]
  split <;> rfl

/-- Consuming buffered bytes of a body up to the close counts them, unless they are too many. -/
theorem consumeBody_lasting (phase : state.phase = .bodyCloseDelimited)
    (buffered : len ≤ state.buf.length) (positive : 1 ≤ len) :
    consumeBody limits len state =
      if state.bodyDecoder.bodyConsumed + len ≤ min usizeMax limits.maxBodySize
        then (.ok .advanced, state.afterContent len .bodyCloseDelimited)
        else (.error (.bodyTooLarge (min usizeMax (state.bodyDecoder.bodyConsumed + len))
          limits.maxBodySize), state) := by
  simp only [consumeBody, phase, addConsumed, checkedAdd, if_neg (Nat.not_lt.mpr buffered),
    if_neg (Nat.pos_iff_ne_zero.mp positive)]
  -- The count may not fit its type, or be past the limit, and both are reported as too large.
  by_cases fits : state.bodyDecoder.bodyConsumed + len ≤ usizeMax
  · simp only [if_pos fits, Nat.min_eq_right fits]
    by_cases allowed : state.bodyDecoder.bodyConsumed + len ≤ limits.maxBodySize
    · rw [if_neg (Nat.not_lt.mpr allowed), if_pos (Nat.le_min.mpr ⟨fits, allowed⟩), afterContent,
        ← phase]
    · rw [if_pos (Nat.not_le.mp allowed), if_neg fun both => allowed (Nat.le_min.mp both).2]
  · have many : usizeMax ≤ state.bodyDecoder.bodyConsumed + len := by omega
    simp only [if_neg fits, Nat.min_eq_left many]
    rw [if_neg fun both => fits (Nat.le_min.mp both).1]

/-- A body up to the close is refused since it is too large, and nothing changes. -/
def Overflows (len size : Nat) (state : BodyState) : Prop :=
  state.phase = .bodyCloseDelimited ∧
    consumeBody limits len state = (.error (.bodyTooLarge size limits.maxBodySize), state)

/-- Consuming some of the bytes that are shown leaves the others to be consumed as before. -/
inductive Splits (state : BodyState) (data : Bytes) (len : Nat) : Prop where
  /-- What is consumed in two steps is consumed in one. -/
  | same (next : BodyState) (consumed : consumeBody limits len state = (.ok .advanced, next))
    (shown : next.peekBody = some (data.drop len))
    (whole : consumeBody limits (data.length - len) next = consumeBody limits data.length state)
  /-- The others are too many, as all of them were. -/
  | later (next : BodyState) (size : Nat)
    (consumed : consumeBody limits len state = (.ok .advanced, next))
    (shown : next.peekBody = some (data.drop len))
    (rest : Overflows limits (data.length - len) size next)
    (whole : Overflows limits data.length size state)
  /-- They are too many already, and all of them are. -/
  | now (size total : Nat) (front : Overflows limits len size state)
    (whole : Overflows limits data.length total state)

/-- What is left of the bytes that are shown is shown next. -/
theorem shown_drop {data buf : Bytes} {remaining : Nat}
    (shown : (if (buf.take remaining).isEmpty then none else some (buf.take remaining)) =
      some data) (less : len < data.length) :
    (if ((buf.drop len).take (remaining - len)).isEmpty then none
      else some ((buf.drop len).take (remaining - len))) = some (data.drop len) := by
  split at shown
  · cases shown
  · cases shown
    -- The bytes left of the shown ones are the next to be shown.
    have rest : (buf.drop len).take (remaining - len) = (buf.take remaining).drop len :=
      (List.drop_take).symm
    have present : ((buf.take remaining).drop len).isEmpty = false := by
      rw [List.isEmpty_eq_false_iff, ← List.length_pos_iff, List.length_drop]
      omega
    rw [rest, present]
    rfl

/-- Bytes that are shown can be consumed in two steps, within the limit of bodies. -/
theorem splits_of_shown {limits : DecoderLimits} (sane : state.Sane limits) {data : Bytes}
    (shown : state.peekBody = some data) (positive : 1 ≤ len) (less : len < data.length) :
    Splits limits state data len := by
  have fits := sane.fits
  cases phase : state.phase with
  -- One case for each phase that shows bytes.
  | bodyContentLength remaining =>
    simp only [peekBody, phase] at shown
    obtain ⟨within, buffered, _⟩ := Reader.take_of_peeked shown (Nat.le_refl data.length)
    rw [phase] at fits
    dsimp only [DecodePhase.remaining] at fits
    have consumed := consumeBody_content limits phase (by omega) (by omega) positive (by omega)
    rw [if_neg (by omega)] at consumed
    refine .same _ consumed (shown_drop shown less) ?_
    -- Both ways the same number of bytes is left.
    have later : (state.afterContent len (.bodyContentLength (remaining - len))).phase =
        .bodyContentLength (remaining - len) := rfl
    rw [consumeBody_content limits phase within buffered (by omega) (by omega),
      consumeBody_content limits later (by omega)
        (by simp only [afterContent, List.length_drop]; omega) (by omega)
        (by simp only [afterContent]; omega),
      afterContent_afterContent, afterContent_afterContent,
      show remaining - len - (data.length - len) = remaining - data.length by omega,
      show len + (data.length - len) = data.length by omega]
  | bodyChunkedData remaining =>
    simp only [peekBody, phase] at shown
    obtain ⟨within, buffered, _⟩ := Reader.take_of_peeked shown (Nat.le_refl data.length)
    rw [phase] at fits
    dsimp only [DecodePhase.remaining] at fits
    have consumed := consumeBody_chunk limits phase (by omega) (by omega) positive (by omega)
    rw [if_neg (by omega)] at consumed
    refine .same _ consumed (shown_drop shown less) ?_
    -- As with a length.
    have later : (state.afterContent len (.bodyChunkedData (remaining - len))).phase =
        .bodyChunkedData (remaining - len) := rfl
    rw [consumeBody_chunk limits phase within buffered (by omega) (by omega),
      consumeBody_chunk limits later (by omega)
        (by simp only [afterContent, List.length_drop]; omega) (by omega)
        (by simp only [afterContent]; omega),
      afterContent_afterContent, afterContent_afterContent,
      show remaining - len - (data.length - len) = remaining - data.length by omega,
      show len + (data.length - len) = data.length by omega]
  | bodyCloseDelimited =>
    simp only [peekBody, phase] at shown
    split at shown
    · cases shown
    cases shown
    -- A body up to the close is the only one that can be too large.
    have whole := consumeBody_lasting limits phase (Nat.le_refl _) (by omega)
    have front := consumeBody_lasting limits phase (Nat.le_of_lt less) positive
    by_cases room : state.bodyDecoder.bodyConsumed + len ≤ min usizeMax limits.maxBodySize
    · rw [if_pos room] at front
      have left : state.buf.length - len ≤
          (state.afterContent len .bodyCloseDelimited).buf.length := by
        simp [afterContent]
      have rest := consumeBody_lasting limits rfl left (by omega)
      have present : (state.buf.drop len).isEmpty = false := by
        rw [List.isEmpty_eq_false_iff, ← List.length_pos_iff, List.length_drop]
        omega
      have shown : (state.afterContent len .bodyCloseDelimited).peekBody =
          some (state.buf.drop len) := by
        simp [peekBody, afterContent, present]
      have sum : (state.afterContent len .bodyCloseDelimited).bodyDecoder.bodyConsumed +
          (state.buf.length - len) = state.bodyDecoder.bodyConsumed + state.buf.length := by
        simp only [afterContent]
        omega
      rw [sum] at rest
      -- The second step refuses what the whole would have been refused for.
      by_cases allowed : state.bodyDecoder.bodyConsumed + state.buf.length ≤
          min usizeMax limits.maxBodySize
      · rw [if_pos allowed] at whole rest
        refine .same _ front shown ?_
        rw [whole, rest, afterContent_afterContent,
          show len + (state.buf.length - len) = state.buf.length by omega]
      · rw [if_neg allowed] at whole rest
        exact .later _ _ front shown ⟨rfl, rest⟩ ⟨phase, whole⟩
    · rw [if_neg room] at front
      -- The first step is refused already, and so is the whole.
      rw [if_neg (by omega)] at whole
      exact .now _ _ ⟨phase, front⟩ ⟨phase, whole⟩
  | startLine | headers | bodyChunkedSize | bodyChunkedDataCrlf | chunkedTrailer | tunnel
  | complete => simp [peekBody, phase] at shown

end BodyState

namespace BodyRun

variable {Head Context Whole : Type} {run next last : BodyRun Head Context}

/-- The loops goes on only where a call succeeded, and with what it left. -/
theorem after_next {called : Except Error BodyProgress × Decoder Head Context}
    (went : run.after called = .inl next) : next = { run with decoder := called.2 } := by
  rcases called with ⟨_ | progress, decoder⟩
  · cases went
  · cases progress <;> cases went <;> rfl

/-- Moving on leaves everything but the decoder as it was. -/
theorem moveOn_next (went : run.moveOn = .inl next) :
    next = { run with decoder := run.decoder.progress.2 } := by
  unfold moveOn at went
  split at went
  · cases went
  · exact after_next went

/-- Where the loop ends it does so with what the call left. -/
theorem after_last {called : Except Error BodyProgress × Decoder Head Context}
    (ended : run.after called = .inr last) : last.decoder = called.2 := by
  rcases called with ⟨_ | progress, decoder⟩
  · cases ended
    rfl
  · cases progress <;> cases ended
    rfl

/-- Moving on ends with what it left. -/
theorem moveOn_last (ended : run.moveOn = .inr last) : last.decoder = run.decoder.progress.2 := by
  unfold moveOn at ended
  split at ended
  · rename_i decoder moved
    cases ended
    rw [moved]
  · exact after_last ended

/-- Both loops have read the same, or the same body too large with the one ahead of the other. -/
def Matches (plain last : BodyRun Head Context) : Prop :=
  last = plain ∨ plain.Overruns ∧ last.Overruns ∧ last.body <+: plain.body

/-- A body that is too large ends the plain loop, with all the bytes that were shown. -/
theorem plainPass_overflows {data : Bytes} {size : Nat} (present : data ≠ [])
    (shown : run.decoder.peekBody = some data)
    (overflows : BodyState.Overflows run.decoder.limits data.length size run.decoder.toBodyState) :
    run.plainPass = .inr { run with
      body := run.body ++ data
      ended := some (.error (.bodyTooLarge size run.decoder.limits.maxBodySize)) } := by
  have positive : 0 < data.length := List.length_pos_iff.mpr present
  simp only [plainPass, shown, Decoder.consumeBody_eq _ positive, overflows.2, after]

/-- A run that ended for a body too large. -/
theorem overruns_of_overflows {len size : Nat} {body : Bytes}
    (overflows : BodyState.Overflows run.decoder.limits len size run.decoder.toBodyState) :
    ({ run with
      body := body
      ended := some (.error (.bodyTooLarge size run.decoder.limits.maxBodySize)) } :
      BodyRun Head Context).Overruns :=
  ⟨overflows.1, size, rfl⟩

/-- A pass that both loops take alike leads both on, or ends both. -/
theorem matches_of_same {pass : BodyRun Head Context ⊕ BodyRun Head Context}
    (same : pass = run.plainPass) :
    (∀ last, pass = .inr last → Matches (plainLoop.run run) last) ∧
    (∀ next last, pass = .inl next → Matches (plainLoop.run next) last →
      Matches (plainLoop.run run) last) := by
  subst same
  refine ⟨fun last ended => .inl ?_, fun next last went matched => ?_⟩
  · exact (plainLoop.run_of_return ended).symm
  · rwa [plainLoop.run_of_continue went]

/-- A run that has kept some bytes, with the body behind them. -/
def ahead (run : BodyRun Head Context) (front : Bytes) (after : BodyState) :
    BodyRun Head Context :=
  { run with decoder := { run.decoder with toBodyState := after }, body := run.body ++ front }

/-- After some of the bytes that are shown the plain loop still reads what it reads now. -/
theorem plainLoop_ahead {data : Bytes} {count : Nat} {after : BodyState}
    (shown : run.decoder.peekBody = some data) (less : count < data.length)
    (rest : (run.ahead (data.take count) after).decoder.peekBody = some (data.drop count))
    (whole : BodyState.consumeBody run.decoder.limits (data.length - count) after =
      BodyState.consumeBody run.decoder.limits data.length run.decoder.toBodyState) :
    plainLoop.run (run.ahead (data.take count) after) = plainLoop.run run := by
  have positive : 0 < data.length := by omega
  have left : 0 < data.length - count := by omega
  -- The first pass of both keeps the same bytes and leaves the same decoder.
  have same : plainPass (run.ahead (data.take count) after) = run.plainPass := by
    simp only [plainPass, shown, rest, List.length_drop, Decoder.consumeBody_eq _ positive,
      Decoder.consumeBody_eq _ left]
    simp only [ahead, whole, List.append_assoc, List.take_append_drop]
    rfl
  exact plainLoop.run_congr same

/-- A pass of the decompressing loop keeps up with the plain loop. -/
theorem decompressedPass_matches {output : Bytes} (room : output ≠ [])
    (sane : run.decoder.toBodyState.Sane run.decoder.limits) :
    (∀ last, run.decompressedPass output = .inr last → Matches (plainLoop.run run) last) ∧
    (∀ next last, run.decompressedPass output = .inl next → Matches (plainLoop.run next) last →
      Matches (plainLoop.run run) last) := by
  rcases run.decompressedPass_cases output with ⟨hidden, pass⟩ | ⟨data, shown, pass⟩
  · exact matches_of_same (by rw [pass, plainPass, hidden])
  have present : data ≠ [] := Decoder.peekBody_ne_nil shown
  have counted : 0 < min data.length output.length := by
    have := List.length_pos_iff.mpr present
    have := List.length_pos_iff.mpr room
    omega
  simp only [if_pos counted] at pass
  have within : min data.length output.length ≤ data.length := Nat.min_le_left _ _
  generalize min data.length output.length = count at pass counted within
  -- With room for all bytes the passes are the same.
  by_cases all : count = data.length
  · exact matches_of_same (by rw [pass, plainPass, shown, all, List.take_length])
  have less : count < data.length := by omega
  rw [pass, Decoder.consumeBody_eq _ counted]
  cases BodyState.splits_of_shown sane shown counted less with
  | same after consumed rest whole =>
    rw [consumed]
    refine ⟨fun last ended => (by cases ended), fun next last went matched => ?_⟩
    cases went
    rwa [← plainLoop_ahead shown less rest whole]
  | later after size consumed rest later whole =>
    rw [consumed]
    refine ⟨fun last ended => (by cases ended), fun next last went matched => ?_⟩
    cases went
    -- The bytes kept before the others are refused are all of them.
    have left : data.drop count ≠ [] := Decoder.peekBody_ne_nil rest
    rw [← List.length_drop] at later
    have plain := plainLoop.run_of_return (plainPass_overflows present shown whole)
    have early : plainLoop.run (run.ahead (data.take count) after) = _ :=
      plainLoop.run_of_return (plainPass_overflows left rest later)
    have kept : (run.ahead (data.take count) after).body ++ data.drop count = run.body ++ data := by
      rw [ahead, List.append_assoc, List.take_append_drop]
    rw [kept] at early
    rw [plain]
    refine .inr ⟨overruns_of_overflows whole, ?_⟩
    change Matches (plainLoop.run (run.ahead (data.take count) after)) last at matched
    rw [early] at matched
    -- What the plain loop reads from here is refused with as many bytes.
    rcases matched with same | ⟨_, overran, ahead⟩
    · rw [same]
      exact ⟨overruns_of_overflows later, List.prefix_refl _⟩
    · exact ⟨overran, ahead⟩
  | now size total front whole =>
    rw [front.2]
    refine ⟨fun last ended => ?_, fun next last went _ => by cases went⟩
    cases ended
    rw [plainLoop.run_of_return (plainPass_overflows present shown whole)]
    refine .inr ⟨overruns_of_overflows whole, overruns_of_overflows front, ?_⟩
    exact (List.prefix_append_right_inj _).mpr (List.take_prefix _ _)

/-- The decompressing loop keeps up with the plain loop. -/
theorem decompressedLoop_matches {api : Api Head Context Whole} {collected : BodyKind → Bool}
    (lawful : api.Lawful collected) {outputs : Nat → Bytes} (room : ∀ call, outputs call ≠ [])
    (calls : Nat) (run : BodyRun Head Context) (holds : Api.Holds collected run.decoder) :
    Matches (plainLoop.run run) ((decompressedLoop outputs).run (calls, run)).2 := by
  refine (decompressedLoop outputs).run_rule
    (motive := fun start result => Api.Holds collected start.2.decoder →
      Matches (plainLoop.run start.2) result.2) ?_ ?_ (calls, run) holds
  · -- The pass that ends both loops.
    rintro ⟨calls, run⟩ ⟨_, last⟩ passed holds
    dsimp only [decompressedLoop] at passed holds ⊢
    split at passed
    · cases passed
    · rename_i ended
      cases passed
      exact (decompressedPass_matches (room calls) holds.sane.body).1 last ended
  · -- A pass that goes on.
    rintro ⟨calls, run⟩ ⟨_, next⟩ ⟨_, last⟩ passed ih holds
    dsimp only [decompressedLoop] at passed ih holds ⊢
    split at passed
    · rename_i went
      cases passed
      refine (decompressedPass_matches (room calls) holds.sane.body).2 next last went (ih ?_)
      -- The decoder was called to consume some bytes, or to move on.
      -- Without bytes to be seen both passes move on.
      rcases run.decompressedPass_cases (outputs calls) with ⟨_, pass⟩ | ⟨data, _, pass⟩ <;>
        rw [pass] at went
      · rw [moveOn_next went]
        exact lawful.call holds .progress
      · dsimp only at went
        split at went
        · rw [after_next went]
          exact lawful.call holds (.consumeBody _)
        · rw [moveOn_next went]
          exact lawful.call holds .progress
    · cases passed

/-- The plain loop leaves a decoder that holds what calls keep. -/
theorem plainLoop_holds {api : Api Head Context Whole} {collected : BodyKind → Bool}
    (lawful : api.Lawful collected) (run : BodyRun Head Context)
    (holds : Api.Holds collected run.decoder) :
    Api.Holds collected (plainLoop.run run).decoder := by
  refine plainLoop.run_rule (motive := fun run last => Api.Holds collected run.decoder →
    Api.Holds collected last.decoder) ?_ ?_ run holds
  · intro run last ended holds
    change run.plainPass = .inr last at ended
    unfold plainPass at ended
    -- The pass that ends the loop consumes bytes or moves on, which are calls of the program.
    split at ended
    · rw [after_last ended]
      exact lawful.call holds (.consumeBody _)
    · rw [moveOn_last ended]
      exact lawful.call holds .progress
  · intro run next last went ih holds
    change run.plainPass = .inl next at went
    unfold plainPass at went
    refine ih ?_
    -- A pass that goes on has made one of the same two calls.
    split at went
    · rw [after_next went]
      exact lawful.call holds (.consumeBody _)
    · rw [moveOn_next went]
      exact lawful.call holds .progress

/-- What arrives leaves a decoder that holds what calls keep. -/
theorem give_holds {api : Api Head Context Whole} {collected : BodyKind → Bool}
    (lawful : api.Lawful collected) (run : BodyRun Head Context) (arrival : Arrival)
    (holds : Api.Holds collected run.decoder) :
    Api.Holds collected (run.give api arrival).decoder := by
  unfold give
  -- Nothing is given any more, bytes are fed, or the connection has ended.
  split
  · exact holds
  · rename_i data _
    have fed := lawful.call holds (.feed data)
    simp only [Api.call] at fed
    split <;> rename_i called <;> rw [called] at fed <;> exact fed
  · exact lawful.call holds .markEof

/-- Both loops read on from where they have read the same. -/
theorem plain_matches {api : Api Head Context Whole} {collected : BodyKind → Bool}
    (lawful : api.Lawful collected) {outputs : Nat → Bytes} (room : ∀ call, outputs call ≠ [])
    (calls : Nat) (run : BodyRun Head Context) (holds : Api.Holds collected run.decoder) :
    Matches run.plain (decompressed outputs (calls, run)).2 := by
  unfold plain decompressed
  cases run.ended with
  | some _ => exact .inl rfl
  | none => exact decompressedLoop_matches lawful room calls run holds

/-- What has ended stays as it is. -/
theorem Overruns.stays (api : Api Head Context Whole) (overran : run.Overruns)
    (arrival : Arrival) : run.give api arrival = run ∧ run.plain = run ∧
      ∀ outputs calls, decompressed outputs (calls, run) = (calls, run) := by
  obtain ⟨_, size, ended⟩ := overran
  refine ⟨?_, ?_, fun outputs calls => ?_⟩
  · simp only [give, ended]
  · simp only [plain, ended]
  · simp only [decompressed, ended]

/-- The loops match over everything that arrives. -/
theorem over_matches {api : Api Head Context Whole} {collected : BodyKind → Bool}
    (lawful : api.Lawful collected) {outputs : Nat → Bytes} (room : ∀ call, outputs call ≠ [])
    (decoder : Decoder Head Context) (holds : Api.Holds collected decoder)
    (arrivals : List Arrival) :
    Matches (plainOver api decoder arrivals) (decompressedOver api outputs decoder arrivals) ∧
      Api.Holds collected (plainOver api decoder arrivals).decoder := by
  -- The induction is on what has arrived, the last piece of it at the end.
  induction arrivals using List.reverseRecOn with
  | nil =>
    refine ⟨plain_matches lawful room 0 _ holds, ?_⟩
    exact plainLoop_holds lawful _ holds
  | append_singleton arrivals arrival ih =>
    unfold plainOver decompressedOver at ih ⊢
    simp only [List.foldl_append, List.foldl_cons, List.foldl_nil]
    generalize arrivals.foldl _ (plain { decoder }) = whole at ih ⊢
    generalize arrivals.foldl _ (decompressed outputs (0, { decoder })) = pieces at ih ⊢
    obtain ⟨calls, last⟩ := pieces
    obtain ⟨matched, kept⟩ := ih
    have given := give_holds lawful whole arrival kept
    refine ⟨?_, ?_⟩
    · -- The loops have read the same, or one of them has ended for good.
      rcases matched with same | ⟨overran, early, ahead⟩
      · dsimp only at same
        rw [same]
        exact plain_matches lawful room calls _ given
      · dsimp only at early ahead ⊢
        rw [(overran.stays api arrival).1, (early.stays api arrival).1, (overran.stays api arrival).2.1,
          (early.stays api arrival).2.2]
        exact .inr ⟨overran, early, ahead⟩
    · unfold plain
      split
      · exact given
      · exact plainLoop_holds lawful _ given

/-- Passes that shorten the buffer where they go on are no more than there are bytes. -/
theorem endsWithinBuffer_of_shortens
    {pass : Nat → BodyRun Head Context → BodyRun Head Context ⊕ BodyRun Head Context}
    (shortens : ∀ call {run next : BodyRun Head Context}, pass call run = .inl next →
      next.decoder.buf.length < run.decoder.buf.length) : EndsWithinBuffer pass := by
  intro runs passes goes
  have bound := @Iteration.passes_le _ (fun run : BodyRun Head Context => run.decoder.buf.length)
    (fun run next => ∃ call, pass call run = .inl next)
    (fun ⟨call, went⟩ => shortens call went) runs passes
    (fun call earlier => ⟨call, goes call earlier⟩)
  omega

/-- What matches agrees. -/
theorem Matches.agrees {plain last : BodyRun Head Context} (matched : Matches plain last) :
    plain.Agrees last where
  same := fun fine => matched.resolve_right fun both => fine both.1
  overrun := fun overran => by
    rcases matched with same | ⟨_, early, ahead⟩
    · rw [same]
      exact ⟨overran, List.prefix_refl _⟩
    · exact ⟨early, ahead⟩

end BodyRun

open BodyRun

/-- The decompressing loop reads what the plain loop reads, and both end. -/
theorem decompressed_agrees :
    (∀ limits decoder (outputs : Nat → Bytes) arrivals,
      RequestDecoder.api.Reachable limits (fun _ => true) decoder → (∀ call, outputs call ≠ []) →
        (plainOver RequestDecoder.api decoder arrivals).Agrees
          (decompressedOver RequestDecoder.api outputs decoder arrivals)) ∧
    (∀ limits decoder (outputs : Nat → Bytes) arrivals,
      ResponseDecoder.api.Reachable limits (fun _ => true) decoder → (∀ call, outputs call ≠ []) →
        (plainOver ResponseDecoder.api decoder arrivals).Agrees
          (decompressedOver ResponseDecoder.api outputs decoder arrivals)) ∧
    (∀ Head Context, EndsWithinBuffer fun _ => @plainPass Head Context) ∧
    ∀ Head Context (outputs : Nat → Bytes),
      EndsWithinBuffer fun call => @decompressedPass Head Context (outputs call) := by
  -- The two sides are alike, and both loops end as each pass shortens the buffer.
  refine ⟨?_, ?_, ?_, ?_⟩
  · intro limits decoder outputs arrivals reachable room
    have holds := Api.request_lawful.reachable reachable
    exact (over_matches Api.request_lawful room decoder holds arrivals).1.agrees
  · intro limits decoder outputs arrivals reachable room
    have holds := Api.response_lawful.reachable reachable
    exact (over_matches Api.response_lawful room decoder holds arrivals).1.agrees
  · exact fun _ _ => endsWithinBuffer_of_shortens fun _ => plainPass_shortens
  · exact fun _ _ _ => endsWithinBuffer_of_shortens fun _ => decompressedPass_shortens

/-- A chunk read into two bytes of room at a time, and completed by what arrives later. -/
theorem decompressed_agrees_chunked :
    let arrivals := [Arrival.fragment (Utf8.encode "0\r\n\r\n".toList)]
    let whole := plainOver RequestDecoder.api chunkedRequest arrivals
    whole.body = Utf8.encode "hello".toList ∧ whole.ended = some (.ok []) ∧
      decompressedOver RequestDecoder.api (fun _ => [0, 0]) chunkedRequest arrivals = whole := by
  intro arrivals whole
  have complete : whole.ended = some (.ok []) := by decide +kernel
  have agrees := decompressed_agrees.1 {} chunkedRequest (fun _ => [0, 0]) arrivals
    chunkedRequest_reachable (fun _ => by simp)
  -- Nothing was too large, so the two runs are the same and not only alike.
  refine ⟨by decide +kernel, complete, agrees.same fun overran => ?_⟩
  obtain ⟨_, _, failed⟩ := overran
  rw [complete] at failed
  cases failed

/-- A response whose body lasts up to the close. -/
def lastingBytes : Bytes := Utf8.encode "HTTP/1.1 200 OK\r\n\r\nabcd".toList

/-- A decoder that has read the head of the response, and allows two bytes of its body. -/
def lastingResponse : ResponseDecoder :=
  ResponseDecoder.api.call (ResponseDecoder.api.call
    (ResponseDecoder.api.fresh { maxBodySize := 2 }) (.feed lastingBytes)) .decodeHeaders

/-- The head of the response can be read. -/
theorem lastingResponse_reachable :
    ResponseDecoder.api.Reachable { maxBodySize := 2 } (fun _ => true) lastingResponse := by
  have fed : ResponseDecoder.api.Reachable { maxBodySize := 2 } (fun _ => true)
      (ResponseDecoder.api.call (ResponseDecoder.api.fresh { maxBodySize := 2 })
        (.feed lastingBytes)) := .call _ .fresh rfl rfl
  exact fed.call .decodeHeaders rfl (by decide)

/-- Of a body that is too large less is kept, and its size is reported when it is passed. -/
theorem decompressed_overrun : ¬ (∀ limits decoder (outputs : Nat → Bytes) arrivals,
    ResponseDecoder.api.Reachable limits (fun _ => true) decoder → (∀ call, outputs call ≠ []) →
      (decompressedOver ResponseDecoder.api outputs decoder arrivals).body =
          (plainOver ResponseDecoder.api decoder arrivals).body ∧
        (decompressedOver ResponseDecoder.api outputs decoder arrivals).ended =
          (plainOver ResponseDecoder.api decoder arrivals).ended) := by
  intro same
  have both := same _ lastingResponse (fun _ => [0]) [] lastingResponse_reachable
    (fun _ => by simp)
  -- The plain loop reports all four bytes, the other one stops at the third.
  have whole : (plainOver ResponseDecoder.api lastingResponse []).ended =
      some (.error (.bodyTooLarge 4 2)) := by decide +kernel
  have pieces : (decompressedOver ResponseDecoder.api (fun _ => [0]) lastingResponse []).ended =
      some (.error (.bodyTooLarge 3 2)) := by decide
  rw [whole, pieces] at both
  exact absurd both.2 (by decide)

end Http11

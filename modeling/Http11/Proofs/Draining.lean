import Http11.Consuming
import Http11.Proofs.Decoder.Sane

/-! The loops that read a body end, since a pass that goes on takes bytes off the buffer. -/

namespace Http11

namespace BodyState

/-- Trailer lines that were not there leave everything as it was. -/
theorem processTrailers_idle {limits : DecoderLimits} {state next : BodyState}
    (processed : processTrailers limits state = (.ok false, next)) : next = state := by
  -- A pass that goes on has read a line, which later passes do not forget.
  have rule := (trailersLoop limits).run_rule
    (motive := fun start result => result.1 = .ok false → start.1 = false ∧ result.2 = start.2)
    ?_ ?_ (false, state)
  · change (processTrailers limits state).1 = .ok false → _ at rule
    rw [processed] at rule
    have same := (rule rfl).2
    change (processTrailers limits state).2 = state at same
    rwa [processed] at same
  · rintro ⟨advanced, start⟩ ⟨outcome, last⟩ pass idle
    change trailersPass limits advanced start = .inr (outcome, last) at pass
    dsimp only at idle ⊢
    subst idle
    unfold trailersPass at pass
    split at pass
    · split at pass
      · cases pass
        exact ⟨rfl, rfl⟩
      · split at pass
        · cases pass
        · split at pass <;> cases pass
    · cases pass
      exact ⟨rfl, rfl⟩
  · rintro ⟨advanced, start⟩ ⟨nextAdvanced, after⟩ result pass ih idle
    change trailersPass limits advanced start = .inl (nextAdvanced, after) at pass
    have forgotten := (ih idle).1
    dsimp only at forgotten
    subst forgotten
    unfold trailersPass at pass
    split at pass
    · split at pass
      · cases pass
      · split at pass
        · cases pass
        · split at pass <;> cases pass
    · cases pass

/-- Trailer lines lead no further than to the end of the body. -/
theorem processTrailers_phase {limits : DecoderLimits} {state : BodyState}
    (phase : state.phase = .chunkedTrailer) :
    (processTrailers limits state).2.phase = .chunkedTrailer ∨
      (processTrailers limits state).2.phase = .complete := by
  refine processTrailers_rule
    (motive := fun next => next.phase = .chunkedTrailer ∨ next.phase = .complete)
    (fun before line rest _ _ kept => ?_) (.inl phase)
  -- An empty line ends the body; a line kept or refused leaves the rest of the trailers to come.
  rcases trailerLine_cases limits before line rest with ⟨_, read⟩ | ⟨_, _, _, read⟩ |
    ⟨_, _, _, read⟩ | ⟨_, _, _, _, _, _, _, _, _, read⟩ <;> rw [read]
  · exact .inr rfl
  · exact kept
  · exact kept
  · exact kept

/-- A size line that leads nowhere was not there. -/
theorem processChunkedSize_idle {limits : DecoderLimits} {state next : BodyState}
    (phase : state.phase = .bodyChunkedSize)
    (processed : processChunkedSize limits state = (.ok (), next))
    (still : next.phase = .bodyChunkedSize) : next = state := by
  rw [processChunkedSize, if_neg (not_not_intro phase)] at processed
  cases split : splitLine state.buf with
  | none =>
    simp only [split, Prod.mk.injEq, true_and] at processed
    exact processed.symm
  | some pair =>
    obtain ⟨line, rest⟩ := pair
    simp only [split] at processed
    -- An accepted size line leads to a chunk or to the trailers.
    rcases chunkSizeLine_cases limits state line rest with ⟨_, _, read⟩ | ⟨_, read⟩ |
      ⟨size, _, _, _, _, read⟩ | ⟨_, _, _, _, _, read⟩ <;> simp only [read] at processed
    · cases processed
    · have trailed : ∀ trailing : BodyState, trailing.phase = .chunkedTrailer →
          (processTrailers limits trailing).2.phase = .chunkedTrailer ∨
            (processTrailers limits trailing).2.phase = .complete :=
        fun _ => processTrailers_phase
      have trailed := trailed { state with buf := rest, phase := .chunkedTrailer } rfl
      rw [if_pos trivial] at processed
      split at processed
      · cases processed
      · rename_i after read
        cases processed
        rw [read] at trailed
        rw [still] at trailed
        rcases trailed with other | other <;> cases other
    · rw [if_neg (by simp)] at processed
      cases processed
      cases still
    · cases processed

/-- A call without bytes that waits for input leaves everything as it was. -/
theorem consumeBody_idle {limits : DecoderLimits} {state next : BodyState}
    (waits : consumeBody limits 0 state = (.ok .needData, next)) : next = state := by
  cases phase : state.phase with
  | bodyContentLength remaining =>
    by_cases more : 0 < remaining
    · have same := advance_content limits phase more
      rwa [waits] at same
    · -- A body without bytes left is complete.
      obtain rfl : remaining = 0 := by omega
      simp only [consumeBody, phase, Nat.lt_irrefl, if_false, Nat.not_lt_zero, addConsumed] at waits
      split at waits
      · cases waits
      · simp at waits
  | bodyChunkedSize =>
    simp only [consumeBody, phase] at waits
    split at waits
    · cases waits
    · rename_i after processed
      split at waits
      · cases waits
      · rename_i still
        cases waits
        exact processChunkedSize_idle phase processed still
      · cases waits
  | bodyChunkedData remaining =>
    simp only [consumeBody, phase, Nat.not_lt_zero, if_false, if_true, Prod.mk.injEq, true_and]
      at waits
    exact waits.symm
  | bodyChunkedDataCrlf =>
    simp only [consumeBody, phase] at waits
    rcases chunkDataCrlf_cases state with ⟨_, read⟩ | ⟨_, read⟩ | ⟨_, _, read⟩ <;>
      rw [read] at waits <;> cases waits
    rfl
  | chunkedTrailer =>
    simp only [consumeBody, phase] at waits
    split at waits
    · cases waits
    · rename_i advanced after processed
      split at waits
      · cases waits
      · split at waits
        · cases waits
        · rename_i unread
          cases waits
          rw [Bool.not_eq_true] at unread
          subst unread
          exact processTrailers_idle processed
  | bodyCloseDelimited =>
    simp only [consumeBody, phase, Nat.not_lt_zero, if_false, if_true, Prod.mk.injEq, true_and]
      at waits
    exact waits.symm
  | complete => simp [consumeBody, phase, takeTrailers] at waits
  | startLine | headers | tunnel => simp [consumeBody, phase] at waits

end BodyState

namespace Decoder

variable {Head Context : Type} {decoder next : Decoder Head Context}

/-- Moving on while input is awaited leaves everything as it was. -/
theorem progress_idle (waits : decoder.progress = (.ok .needData, next)) : next = decoder := by
  rw [progress_eq, Prod.mk.injEq] at waits
  obtain ⟨waits, rfl⟩ := waits
  have same := BodyState.consumeBody_idle (Prod.ext waits rfl)
  exact congrArg (fun body => ({ decoder with toBodyState := body } : Decoder Head Context)) same

/-- Advancing without bytes shortens the buffer. -/
theorem progress_shortens (advanced : decoder.progress = (.ok .advanced, next)) :
    next.buf.length < decoder.buf.length := by
  rw [progress_eq, Prod.mk.injEq] at advanced
  obtain ⟨advanced, rfl⟩ := advanced
  exact (BodyState.consumeBody_buf (Prod.ext advanced rfl)).2 (.inl rfl)

/-- Advancing with bytes shortens the buffer, and so does consuming bytes that are shown. -/
theorem consumeBody_shortens {len : Nat} {progress : BodyProgress}
    (consumed : decoder.consumeBody len = (.ok progress, next))
    (moves : progress = .advanced ∨ decoder.peekBody ≠ none) :
    next.buf.length < decoder.buf.length := by
  -- A call for no bytes is refused, so it has not moved on.
  by_cases positive : 0 < len
  · rw [consumeBody_eq decoder positive, Prod.mk.injEq] at consumed
    obtain ⟨consumed, rfl⟩ := consumed
    exact (BodyState.consumeBody_buf (Prod.ext consumed rfl)).2
      (moves.imp id fun shown => ⟨positive, shown⟩)
  · rw [consumeBody, if_pos (by omega)] at consumed
    cases consumed

/-- A pass that goes on shortens the buffer. -/
theorem Drains.shortens (drains : Drains decoder next) :
    next.buf.length < decoder.buf.length := by
  cases drains with
  | consume data len progress shown positive enough consumed _ =>
    exact consumeBody_shortens consumed (.inr (by simp [shown]))
  | advance hidden advanced => exact progress_shortens advanced

/-- A loop whose passes shorten the buffer ends. -/
theorem endsWithin_of_shortens {goesOn : Decoder Head Context → Decoder Head Context → Prop}
    (shortens : ∀ {decoder next}, goesOn decoder next → next.buf.length < decoder.buf.length) :
    EndsWithin goesOn :=
  fun states passes goes =>
    @Iteration.passes_le _ (fun decoder => decoder.buf.length) _ shortens states passes goes

/-- While input is awaited, calls that move on wait as well and change nothing. -/
theorem progresses_idle (waits : decoder.progress = (.ok .needData, next)) (calls : Nat) :
    decoder.progresses calls = decoder ∧
      (decoder.progresses calls).progress = (.ok .needData, decoder) := by
  obtain rfl := progress_idle waits
  -- The first call changes nothing, so each further one starts where it did.
  induction calls with
  | zero => exact ⟨rfl, waits⟩
  | succ calls ih =>
    have same : next.progresses (calls + 1) = next := by
      rw [progresses, ih.2]
    exact ⟨same, by rw [same, waits]⟩

end Decoder

open Decoder

/-- Advancing shortens the buffer, waiting changes nothing, and the loops over a body end. -/
theorem draining_ends {Head Context : Type} :
    (∀ (decoder next : Decoder Head Context) (len : Nat),
      decoder.consumeBody len = (.ok .advanced, next) ∨
        decoder.progress = (.ok .advanced, next) → next.buf.length < decoder.buf.length) ∧
    (∀ (decoder next : Decoder Head Context), decoder.peekBody = none →
      decoder.progress = (.ok .needData, next) → ∀ calls, decoder.progresses calls = decoder ∧
        (decoder.progresses calls).progress = (.ok .needData, decoder)) ∧
    EndsWithin (@Drains Head Context) ∧
    EndsWithin (fun (decoder next : Decoder Head Context) => decoder.readBodyPass = .inl next) := by
  refine ⟨?_, fun decoder next _ waits => progresses_idle waits, ?_, ?_⟩
  · rintro decoder next len (consumed | advanced)
    · exact consumeBody_shortens consumed (.inl rfl)
    · exact progress_shortens advanced
  · exact endsWithin_of_shortens Drains.shortens
  · exact endsWithin_of_shortens readBodyLoop.decreases

/-- Between the data of a chunk and its line end, a decoder waits however often it is asked. -/
theorem draining_ends_waiting :
    Decoder.progresses ({
      buf := [0x0D], phase := .bodyChunkedDataCrlf, limits := {}, context := () } :
      Decoder RequestHead Unit) 3 =
    { buf := [0x0D], phase := .bodyChunkedDataCrlf, limits := {}, context := () } :=
  (draining_ends.2.1 ({
      buf := [0x0D], phase := .bodyChunkedDataCrlf, limits := {}, context := () } :
      Decoder RequestHead Unit) _ rfl rfl 3).1

end Http11

import Http11.Decoder.Request
import Http11.Reader

/-! Connections read with a decoder: fragment by fragment, whole messages or streamed ones. -/

namespace Http11

/-- Requests decoded whole from a connection, up to the first error. -/
structure DecodeRun where
  /-- The decoder. -/
  decoder : RequestDecoder
  /-- The requests so far. -/
  requests : List Request := []
  /-- The error that ended the run. -/
  failed : Option Error := none
  /-- What arrived after that error and was not fed. -/
  unfed : Bytes := []
  deriving DecidableEq, Repr

namespace DecodeRun

/-- A fresh connection. -/
def start (limits : DecoderLimits) : DecodeRun := { decoder := RequestDecoder.withLimits limits }

/-- A fragment arrives. -/
def give (run : DecodeRun) (fragment : Bytes) : DecodeRun :=
  match run.failed with
  | none => { run with decoder := run.decoder.feedUnchecked fragment }
  | some _ => { run with unfed := run.unfed ++ fragment }

/-- One call of decode: it goes on after a request. -/
def pass (run : DecodeRun) : DecodeRun ⊕ DecodeRun :=
  match RequestDecoder.decode run.decoder with
  | (.error error, decoder) => .inr { run with decoder, failed := some error }
  | (.ok none, decoder) => .inr { run with decoder }
  | (.ok (some request), decoder) =>
    .inl { run with decoder, requests := run.requests ++ [request] }

/-- Calls of decode until there is no request. -/
def loop : Iteration DecodeRun DecodeRun where
  body := pass
  -- A head that was read before can be handed out without reading on.
  size := fun run => 2 * run.decoder.buf.length + if run.decoder.decoded.isSome then 1 else 0
  decreases := by
    intro run next passed
    unfold pass at passed
    split at passed <;> cases passed
    rename_i request decoder decoded
    obtain ⟨undecoded, shorter⟩ := RequestDecoder.decode_buf decoded
    dsimp only
    rw [undecoded]
    rcases shorter with shorter | ⟨earlier, bounded⟩
    · simp only [Option.isSome_none, Bool.false_eq_true, if_false]
      split <;> omega
    · simp only [earlier, Option.isSome_none, Bool.false_eq_true, if_false, if_true]
      omega

/-- Everything that can be decoded now, unless an error ended the run. -/
def pump (run : DecodeRun) : DecodeRun :=
  match run.failed with
  | none => loop.run run
  | some _ => run

/-- A connection that arrives in fragments. -/
def across (limits : DecoderLimits) (fragments : List Bytes) : DecodeRun :=
  fragments.foldl (fun run fragment => (run.give fragment).pump) (start limits)

end DecodeRun

/-- Messages streamed from a connection, up to the first error. -/
structure StreamRun (Head Context : Type) where
  /-- The decoder. -/
  decoder : Decoder Head Context
  /-- The head and framing of the message whose body is being consumed. -/
  current : Option (Head × BodyKind) := none
  /-- The part of its body consumed so far. -/
  body : Bytes := []
  /-- The messages that are complete. -/
  messages : List (Message Head) := []
  /-- The number of times that body bytes were consumed. -/
  calls : Nat := 0
  /-- The error that ended the run. -/
  failed : Option Error := none
  /-- What arrived after that error and was not fed. -/
  unfed : Bytes := []
  deriving DecidableEq, Repr

namespace StreamRun

variable {Head Context : Type}

/-- A fragment arrives. -/
def give (run : StreamRun Head Context) (fragment : Bytes) : StreamRun Head Context :=
  match run.failed with
  | none => { run with decoder := run.decoder.feedUnchecked fragment }
  | some _ => { run with unfed := run.unfed ++ fragment }

/-- The end of a body completes its message. -/
def after (run : StreamRun Head Context) : BodyProgress → StreamRun Head Context
  | .complete trailers => { run with
      current := none
      body := []
      messages := match run.current with
        | some (head, bodyKind) => run.messages ++ [⟨head, bodyKind, run.body, trailers⟩]
        | none => run.messages }
  | .advanced | .needData => run

/-- The number of bytes to consume: the one picked, within what is shown. -/
def taken (pick : Nat → Nat) (calls : Nat) (data : Bytes) : Nat :=
  max 1 (min (pick calls) data.length)

/-- One call: a head, some bytes of a body, or moving on without any. -/
def pass (side : Side Head Context) (pick : Nat → Nat) (limit : Option Nat)
    (run : StreamRun Head Context) : StreamRun Head Context ⊕ StreamRun Head Context :=
  if limit.any fun count => count ≤ run.messages.length then .inr run
  else match run.current with
    | none =>
      match run.decoder.onCore (Core.decodeHeaders side) with
      | (.error error, decoder) => .inr { run with decoder, failed := some error }
      | (.ok none, decoder) => .inr { run with decoder }
      | (.ok (some decoded), decoder) => .inl { run with decoder, current := some decoded }
    -- The body is taken in the pieces that are picked.
    | some _ =>
      match run.decoder.peekBody with
      | some data =>
        let len := taken pick run.calls data
        match run.decoder.consumeBody len with
        | (.error error, decoder) => .inr { run with decoder, failed := some error }
        | (.ok progress, decoder) => .inl ({ run with
            decoder, calls := run.calls + 1, body := run.body ++ data.take len }.after progress)
      | none =>
        match run.decoder.progress with
        | (.error error, decoder) => .inr { run with decoder, failed := some error }
        | (.ok .needData, decoder) => .inr { run with decoder }
        | (.ok progress, decoder) => .inl ({ run with decoder }.after progress)

/-- The end of a body does not touch the decoder. -/
theorem after_decoder (run : StreamRun Head Context) (progress : BodyProgress) :
    (run.after progress).decoder = run.decoder := by
  cases progress <;> rfl

/-- Calls until the connection has nothing more to give. -/
def loop (side : Side Head Context) (pick : Nat → Nat) (limit : Option Nat) :
    Iteration (StreamRun Head Context) (StreamRun Head Context) where
  body := pass side pick limit
  size := fun run => 2 * run.decoder.buf.length + if run.current.isSome then 1 else 0
  decreases := by
    intro run next passed
    unfold pass at passed
    split at passed
    · cases passed
    split at passed
    · -- A head has left the buffer.
      rename_i unread
      have shorter := Core.decodeHeaders_buf side run.decoder.toCore
      simp only [Decoder.onCore] at passed
      rcases headers : run.decoder.toCore.decodeHeaders side with ⟨_ | _ | decoded, core⟩ <;>
        simp only [headers] at passed <;> cases passed
      rw [headers] at shorter
      have strictly : core.buf.length < run.decoder.buf.length := shorter decoded rfl
      simp only [unread, Option.isSome_none, Option.isSome_some, Bool.false_eq_true, if_false,
        if_true]
      omega
    · rename_i reading
      split at passed
      · -- The bytes consumed have left the buffer.
        rename_i data peeked
        have positive : 0 < taken pick run.calls data := by simp [taken]
        simp only [Decoder.consumeBody_eq _ positive] at passed
        rcases consumed : BodyState.consumeBody run.decoder.limits (taken pick run.calls data)
          run.decoder.toBodyState with ⟨_ | progress, state⟩ <;>
          simp only [consumed] at passed <;> cases passed
        have shown : run.decoder.toBodyState.peekBody ≠ none := by
          rw [show run.decoder.toBodyState.peekBody = some data from peeked]
          simp
        have shorter := (BodyState.consumeBody_buf consumed).2 (.inr ⟨positive, shown⟩)
        rw [after_decoder]
        dsimp only
        split <;> split <;> omega
      · -- A line has left the buffer, or the message is complete.
        simp only [Decoder.progress_eq] at passed
        rcases consumed : BodyState.consumeBody run.decoder.limits 0 run.decoder.toBodyState with
          ⟨_ | progress, state⟩
        · simp [consumed] at passed
        have shorter := BodyState.consumeBody_buf consumed
        cases progress with
        | needData => simp [consumed] at passed
        | advanced =>
          simp only [consumed] at passed
          cases passed
          have strictly := shorter.2 (.inl rfl)
          simp only [after, reading, Option.isSome_some, if_true]
          omega
        | complete trailers =>
          simp only [consumed] at passed
          cases passed
          simp only [after, reading, Option.isSome_none, Option.isSome_some, Bool.false_eq_true,
            if_false, if_true]
          omega

/-- Everything that can be read now, unless an error ended the run. -/
def pump (side : Side Head Context) (pick : Nat → Nat) (limit : Option Nat)
    (run : StreamRun Head Context) : StreamRun Head Context :=
  match run.failed with
  | none => (loop side pick limit).run run
  | some _ => run

/-- A connection that arrives in fragments, read up to a number of messages. -/
def across (side : Side Head Context) (pick : Nat → Nat) (limit : Option Nat)
    (decoder : Decoder Head Context) (fragments : List Bytes) : StreamRun Head Context :=
  fragments.foldl (fun run fragment => (run.give fragment).pump side pick limit) { decoder }

end StreamRun

end Http11

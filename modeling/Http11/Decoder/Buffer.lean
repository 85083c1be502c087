import Http11.Decoder.Core

/-! A whole decoder: its buffer, the streaming methods and the loop that collects a body. -/

namespace Http11

/-- A decoder with what it keeps between calls that decode whole messages. -/
structure Decoder (Head Context : Type) extends Core Context where
  /-- The head and framing of the message that is being collected. -/
  decoded : Option (Head × BodyKind) := none
  /-- The part of its body collected so far. -/
  decodedBody : Bytes := []
  /-- The bytes at the end of the buffer that are reserved and not written yet. -/
  pending : Nat := 0
  deriving DecidableEq, Repr

namespace Decoder

variable {Head Context : Type}

/-- More input, unless the buffer would pass its limit. -/
def feed (decoder : Decoder Head Context) (data : Bytes) : Except Error Unit × Decoder Head Context :=
  match checkedAdd decoder.buf.length data.length with
  | none => (.error (.bufferOverflow usizeMax decoder.limits.maxBufferSize), decoder)
  | some newSize =>
    if decoder.limits.maxBufferSize < newSize then
      (.error (.bufferOverflow newSize decoder.limits.maxBufferSize), decoder)
    else (.ok (), { decoder with buf := decoder.buf ++ data })

/-- More input, whatever the limit. -/
def feedUnchecked (decoder : Decoder Head Context) (data : Bytes) : Decoder Head Context :=
  { decoder with buf := decoder.buf ++ data }

/-- Room for input at the end of the buffer, in place of room reserved before. -/
def mutBuf (decoder : Decoder Head Context) (len : Nat) :
    Except Error Unit × Decoder Head Context :=
  -- Room that was not advanced over is given back, also where the call fails.
  let decoder := { decoder with
    buf := decoder.buf.take (decoder.buf.length - decoder.pending), pending := 0 }
  match checkedAdd decoder.buf.length len with
  | none => (.error (.bufferOverflow usizeMax decoder.limits.maxBufferSize), decoder)
  | some newSize =>
    if decoder.limits.maxBufferSize < newSize then
      (.error (.bufferOverflow newSize decoder.limits.maxBufferSize), decoder)
    else (.ok (), { decoder with buf := decoder.buf ++ List.replicate len 0, pending := len })

/-- Bytes written into the reserved room. -/
def writePending (decoder : Decoder Head Context) (data : Bytes) : Decoder Head Context :=
  let kept := decoder.buf.length - decoder.pending
  { decoder with
    buf := decoder.buf.take kept ++ data.take decoder.pending ++ decoder.buf.drop (kept + data.length) }

/-- The part of the reserved room that was written, which becomes input. -/
def advanceBuf (decoder : Decoder Head Context) (len : Nat) : Decoder Head Context :=
  let dropped := decoder.pending - min len decoder.pending
  { decoder with buf := decoder.buf.take (decoder.buf.length - dropped), pending := 0 }

/-- The room left in the buffer. -/
def availableBuf (decoder : Decoder Head Context) : Nat :=
  decoder.limits.maxBufferSize - decoder.buf.length

/-- The input not consumed yet. -/
def remaining (decoder : Decoder Head Context) : Bytes := decoder.buf

/-- The input not consumed yet, which leaves the decoder. -/
def takeRemaining (decoder : Decoder Head Context) : Bytes × Decoder Head Context :=
  (decoder.buf, { decoder with buf := [], pending := 0 })

/-- The connection has become a tunnel. -/
def isTunnel (decoder : Decoder Head Context) : Bool := decoder.phase == .tunnel

/-- A core operation inside the decoder. -/
def onCore {Result : Type} (decoder : Decoder Head Context)
    (operation : Core Context → Except Error Result × Core Context) :
    Except Error Result × Decoder Head Context :=
  let (result, core) := operation decoder.toCore
  (result, { decoder with toCore := core })

/-- The body bytes that can be consumed now. -/
def peekBody (decoder : Decoder Head Context) : Option Bytes := decoder.toBodyState.peekBody

/-- Some bytes of the body are consumed, at least one. -/
def consumeBody (decoder : Decoder Head Context) (len : Nat) :
    Except Error BodyProgress × Decoder Head Context :=
  if len = 0 then
    (.error (.invalidData "consume_body(0) is not allowed, use progress() instead"), decoder)
  else decoder.onCore fun core => core.onBody (BodyState.consumeBody core.limits len)

/-- The state machine moves on without consuming body bytes. -/
def progress (decoder : Decoder Head Context) : Except Error BodyProgress × Decoder Head Context :=
  decoder.onCore fun core => core.onBody (BodyState.consumeBody core.limits 0)

/-- One pass of the loop that collects a body: whether it is complete once the loop ends. -/
def readBodyPass (decoder : Decoder Head Context) :
    Decoder Head Context ⊕ (Except Error Bool × Decoder Head Context) :=
  match decoder.peekBody with
  | some data =>
    let decoder := { decoder with decodedBody := decoder.decodedBody ++ data }
    match decoder.consumeBody data.length with
    | (.error error, decoder) => .inr (.error error, decoder)
    | (.ok _, decoder) =>
      -- The phase decides, since one call can pass several of them.
      if decoder.phase = .complete then .inr (.ok true, decoder) else .inl decoder
  | none =>
    match decoder.progress with
    | (.error error, decoder) => .inr (.error error, decoder)
    | (.ok (.complete _), decoder) => .inr (.ok true, decoder)
    | (.ok .advanced, decoder) => .inl decoder
    | (.ok .needData, decoder) => .inr (.ok false, decoder)

/-- Input waits at the end of the buffer, or is refused and changes nothing. -/
theorem feed_cases (decoder : Decoder Head Context) (data : Bytes) :
    decoder.feed data = (.ok (), decoder.feedUnchecked data) ∨
      ∃ error, decoder.feed data = (.error error, decoder) := by
  unfold feed
  -- Neither a length past the word nor one past the limit is taken.
  split
  · exact .inr ⟨_, rfl⟩
  · split
    · exact .inr ⟨_, rfl⟩
    · exact .inl rfl

/-- Reserving room changes the buffer and what is reserved of it, and nothing else. -/
theorem mutBuf_frame (decoder : Decoder Head Context) (len : Nat) :
    ∃ buf pending, (decoder.mutBuf len).2 = { decoder with buf, pending } := by
  unfold mutBuf
  dsimp only
  split
  · exact ⟨_, _, rfl⟩
  · split <;> exact ⟨_, _, rfl⟩

/-- Consuming some bytes is an operation of the body state. -/
theorem consumeBody_eq (decoder : Decoder Head Context) {len : Nat} (positive : 0 < len) :
    decoder.consumeBody len =
      ((BodyState.consumeBody decoder.limits len decoder.toBodyState).1, { decoder with
        toBodyState := (BodyState.consumeBody decoder.limits len decoder.toBodyState).2 }) := by
  rw [consumeBody, if_neg (Nat.pos_iff_ne_zero.mp positive)]
  rfl

/-- Moving on is an operation of the body state. -/
theorem progress_eq (decoder : Decoder Head Context) :
    decoder.progress =
      ((BodyState.consumeBody decoder.limits 0 decoder.toBodyState).1, { decoder with
        toBodyState := (BodyState.consumeBody decoder.limits 0 decoder.toBodyState).2 }) := rfl

/-- Body bytes that are shown are at least one. -/
theorem peekBody_ne_nil {state : BodyState} {data : Bytes} (peeked : state.peekBody = some data) :
    data ≠ [] := by
  unfold BodyState.peekBody at peeked
  -- Every phase that shows bytes shows none where its buffer is empty.
  split at peeked
  · dsimp only at peeked
    split at peeked
    · cases peeked
    · cases peeked
      rename_i present
      simpa using present
  · dsimp only at peeked
    split at peeked
    · cases peeked
    · cases peeked
      rename_i present
      simpa using present
  · split at peeked
    · cases peeked
    · cases peeked
      rename_i present
      simpa using present
  · cases peeked

/-- The loop that collects a body. -/
def readBodyLoop : Iteration (Decoder Head Context) (Except Error Bool × Decoder Head Context) where
  body := readBodyPass
  size := fun decoder => decoder.buf.length
  decreases := by
    intro decoder next pass
    unfold readBodyPass at pass
    cases peeked : decoder.peekBody with
    | some data =>
      have present := List.length_pos_of_ne_nil (peekBody_ne_nil peeked)
      simp only [peeked, consumeBody_eq _ present] at pass
      cases consumed : BodyState.consumeBody decoder.limits data.length decoder.toBodyState with
      | mk outcome after =>
        cases outcome with
        | error error => simp [consumed] at pass
        | ok progress =>
          simp only [consumed] at pass
          split at pass
          · cases pass
          · cases pass
            -- What is shown is not empty, so that taking it makes the buffer shorter.
            refine (BodyState.consumeBody_buf consumed).2 (.inr ⟨present, ?_⟩)
            simpa [peekBody] using Option.ne_none_iff_exists'.mpr ⟨data, peeked⟩
    | none =>
      simp only [peeked, progress_eq] at pass
      cases consumed : BodyState.consumeBody decoder.limits 0 decoder.toBodyState with
      | mk outcome after =>
        cases outcome with
        | error error => simp [consumed] at pass
        | ok progress =>
          cases progress with
          | complete trailers => simp [consumed] at pass
          | needData => simp [consumed] at pass
          | advanced =>
            simp only [consumed, Sum.inl.injEq] at pass
            subst pass
            -- The decoder moved on over a line, a line end or trailers.
            exact (BodyState.consumeBody_buf consumed).2 (.inl rfl)

/-- The body, as far as it is buffered: whether it is complete. -/
def readBody (decoder : Decoder Head Context) : Except Error Bool × Decoder Head Context :=
  readBodyLoop.run decoder

/-- Collecting a body only shortens the buffer. -/
theorem readBody_buf {decoder next : Decoder Head Context} {done : Bool}
    (read : decoder.readBody = (.ok done, next)) : next.buf.length ≤ decoder.buf.length := by
  have rule : ∀ done, (decoder.readBody).1 = .ok done →
      (decoder.readBody).2.buf.length ≤ decoder.buf.length := by
    refine readBodyLoop.run_rule
      (motive := fun decoder result => ∀ done, result.1 = .ok done →
        result.2.buf.length ≤ decoder.buf.length) ?_ ?_ decoder
    · intro decoder result pass done found
      change readBodyPass decoder = .inr result at pass
      unfold readBodyPass at pass
      -- What is shown is consumed; where nothing is shown the body moves on by itself.
      cases peeked : decoder.peekBody with
      | some data =>
        have present := List.length_pos_of_ne_nil (peekBody_ne_nil peeked)
        simp only [peeked, consumeBody_eq _ present] at pass
        cases consumed : BodyState.consumeBody decoder.limits data.length decoder.toBodyState with
        | mk outcome after =>
          cases outcome with
          | error error =>
            simp only [consumed, Sum.inr.injEq] at pass
            subst pass
            cases found
          | ok progress =>
            simp only [consumed] at pass
            split at pass
            · cases pass
              exact (BodyState.consumeBody_buf consumed).1
            · cases pass
      | none =>
        simp only [peeked, progress_eq] at pass
        cases consumed : BodyState.consumeBody decoder.limits 0 decoder.toBodyState with
        | mk outcome after =>
          have shorter : ∀ progress, outcome = .ok progress →
              after.buf.length ≤ decoder.buf.length := by
            intro progress ok
            rw [ok] at consumed
            exact (BodyState.consumeBody_buf consumed).1
          cases outcome with
          | error error =>
            simp only [consumed, Sum.inr.injEq] at pass
            subst pass
            cases found
          | ok progress =>
            cases progress with
            | advanced => simp [consumed] at pass
            | needData =>
              simp only [consumed, Sum.inr.injEq] at pass
              subst pass
              exact shorter _ rfl
            | complete trailers =>
              simp only [consumed, Sum.inr.injEq] at pass
              subst pass
              exact shorter _ rfl
    · intro decoder next result pass ih done found
      -- A pass that goes on has shortened the buffer already.
      have smaller := readBodyLoop.decreases pass
      exact (ih done found).trans (Nat.le_of_lt smaller)
  have bounded := rule done (by rw [read])
  rwa [read] at bounded

/-- The head of the message to collect, read now unless it was read before. -/
def decodeHead (side : Side Head Context) (decoder : Decoder Head Context) :
    Except Error (Option (Head × BodyKind)) × Decoder Head Context :=
  match decoder.decoded with
  -- A head that was read before is used without a look at the phase.
  | some decoded => (.ok (some decoded), decoder)
  | none =>
    match decoder.phase with
    | .startLine | .headers =>
      match decoder.onCore (Core.decodeHeaders side) with
      | (.ok (some decoded), decoder) =>
        (.ok (some decoded), { decoder with decoded := some decoded })
      | (.ok none, decoder) => (.ok none, decoder)
      | (.error error, decoder) => (.error error, decoder)
    | _ => (.error (.invalidData "decode cannot be mixed with streaming API"), decoder)

/-- Where a head is read, the head to collect is the one of the header lines. -/
theorem decodeHead_eq (side : Side Head Context) {decoder : Decoder Head Context}
    (undecoded : decoder.decoded = none)
    (heading : decoder.phase = .startLine ∨ decoder.phase = .headers) :
    decoder.decodeHead side = match decoder.toCore.decodeHeaders side with
      | (.ok (some decoded), core) =>
        (.ok (some decoded), { decoder with toCore := core, decoded := some decoded })
      | (.ok none, core) => (.ok none, { decoder with toCore := core })
      | (.error error, core) => (.error error, { decoder with toCore := core }) := by
  unfold decodeHead
  -- The head is asked for in both phases alike.
  rcases heading with phase | phase <;> simp only [undecoded, phase, onCore] <;>
    rcases decoder.toCore.decodeHeaders side with ⟨_ | _ | _, _⟩ <;> rfl

/-- Where no head is read, asking for the head to collect is refused. -/
theorem decodeHead_refused (side : Side Head Context) {decoder : Decoder Head Context}
    (undecoded : decoder.decoded = none)
    (outside : ¬ (decoder.phase = .startLine ∨ decoder.phase = .headers)) :
    decoder.decodeHead side =
      (.error (.invalidData "decode cannot be mixed with streaming API"), decoder) := by
  simp only [decodeHead, undecoded]
  -- The phases of a head are excluded, so the call is mixed with others.
  split
  · rename_i phase
    exact absurd (.inl phase) outside
  · rename_i phase
    exact absurd (.inr phase) outside
  · rfl

/-- A head that is there was there before, or its lines have left the buffer. -/
theorem decodeHead_buf {side : Side Head Context} {decoder next : Decoder Head Context}
    {decoded : Head × BodyKind} (read : decoder.decodeHead side = (.ok (some decoded), next)) :
    (decoder.decoded.isSome ∧ next = decoder) ∨ next.buf.length < decoder.buf.length := by
  unfold decodeHead at read
  cases found : decoder.decoded with
  | some earlier =>
    simp only [found, Prod.mk.injEq] at read
    exact .inl ⟨rfl, read.2.symm⟩
  | none =>
    right
    have shorter := Core.decodeHeaders_buf side decoder.toCore
    -- A head that is read now has lost its lines to the decoder.
    have lines : ∀ core, decoder.toCore.decodeHeaders side = (.ok (some decoded), core) →
        next.toCore = core → next.buf.length < decoder.buf.length := by
      intro core headers same
      rw [headers] at shorter
      rw [same]
      exact shorter decoded rfl
    simp only [found, onCore] at read
    split at read
    · rcases headers : decoder.toCore.decodeHeaders side with ⟨_ | _ | _, core⟩ <;>
        simp only [headers, Prod.mk.injEq, Except.ok.injEq, Option.some.injEq, reduceCtorEq,
          false_and] at read
      obtain ⟨rfl, rfl⟩ := read
      exact lines core headers rfl
    · rcases headers : decoder.toCore.decodeHeaders side with ⟨_ | _ | _, core⟩ <;>
        simp only [headers, Prod.mk.injEq, Except.ok.injEq, Option.some.injEq, reduceCtorEq,
          false_and] at read
      obtain ⟨rfl, rfl⟩ := read
      exact lines core headers rfl
    · simp at read

/-- The body of a message that is complete: framing without a body leaves none. -/
def collectedBody (decoder : Decoder Head Context) : BodyKind → Option Bytes
  | .none | .tunnel => none
  | .contentLength _ | .chunked | .closeDelimited => some decoder.decodedBody

/-- A fresh decoder with the same limits. -/
def reset (context : Context) (decoder : Decoder Head Context) : Decoder Head Context :=
  { limits := decoder.limits, context }

end Decoder

end Http11

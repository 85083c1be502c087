import Http11.Decoder.Buffer

/-! What programs do with a decoder of a connection: reads into its buffer, and bodies taken from it. -/

namespace Http11

namespace Decoder

variable {Head Context : Type}

/-- The number of bytes that a program asks the connection for. -/
def want (readChunk : Nat) (decoder : Decoder Head Context) : Nat :=
  min decoder.availableBuf readChunk

/-- The number of bytes that one read returns, of those that wait in the connection. -/
def granted (readChunk count : Nat) (decoder : Decoder Head Context) (waiting : Bytes) : Nat :=
  min count (min (decoder.want readChunk) waiting.length)

/-- One read into the buffer, which returns a number of bytes, and what is left in the connection. -/
def receive (readChunk count : Nat) (decoder : Decoder Head Context) (waiting : Bytes) :
    Except Error Unit × Decoder Head Context × Bytes :=
  let returned := decoder.granted readChunk count waiting
  match decoder.mutBuf (decoder.want readChunk) with
  | (.error error, decoder) => (.error error, decoder, waiting)
  | (.ok (), decoder) =>
    -- The bytes are written into the reserved room before the rest of it is given back.
    (.ok (), (decoder.writePending (waiting.take returned)).advanceBuf returned,
      waiting.drop returned)

/-- A body that is being taken: the decoder, and the pieces so far. -/
abbrev Taking (Head Context : Type) : Type := Decoder Head Context × List Bytes

/-- What taking a body comes to: trailers at its end, nothing while it is incomplete. -/
abbrev Taken (Head Context : Type) : Type := Except Error (Option Headers) × Taking Head Context

/-- One round: what is shown is taken whole, and otherwise the decoder moves on. -/
def takePass (taking : Taking Head Context) : Taking Head Context ⊕ Taken Head Context :=
  let (decoder, pieces) := taking
  match decoder.peekBody with
  | some data =>
    match decoder.consumeBody data.length with
    | (.error error, decoder) => .inr (.error error, decoder, pieces ++ [data])
    | (.ok (.complete trailers), decoder) => .inr (.ok (some trailers), decoder, pieces ++ [data])
    -- More may be shown, or a line has to be passed over first.
    | (.ok .advanced, decoder) | (.ok .needData, decoder) => .inl (decoder, pieces ++ [data])
  | none =>
    match decoder.progress with
    | (.error error, decoder) => .inr (.error error, decoder, pieces)
    | (.ok (.complete trailers), decoder) => .inr (.ok (some trailers), decoder, pieces)
    | (.ok .advanced, decoder) => .inl (decoder, pieces)
    | (.ok .needData, decoder) => .inr (.ok none, decoder, pieces)

/-- The rounds until the body is complete or more input is needed. -/
def takeLoop : Iteration (Taking Head Context) (Taken Head Context) where
  body := takePass
  size := fun taking => taking.1.buf.length
  decreases := by
    -- A round that goes on has taken bytes, or has moved past a line.
    rintro ⟨decoder, pieces⟩ ⟨next, more⟩ passed
    unfold takePass at passed
    dsimp only at passed
    split at passed
    · rename_i data peeked
      have positive := List.length_pos_of_ne_nil (peekBody_ne_nil peeked)
      rw [consumeBody_eq _ positive] at passed
      have shown : decoder.toBodyState.peekBody ≠ none := by
        rw [show decoder.toBodyState.peekBody = some data from peeked]
        simp
      rcases consumed : BodyState.consumeBody decoder.limits data.length decoder.toBodyState with
        ⟨_ | _ | _ | _, state⟩ <;> simp only [consumed] at passed <;> cases passed
      · exact (BodyState.consumeBody_buf consumed).2 (.inr ⟨positive, shown⟩)
      · exact (BodyState.consumeBody_buf consumed).2 (.inr ⟨positive, shown⟩)
    · rw [progress_eq] at passed
      rcases consumed : BodyState.consumeBody decoder.limits 0 decoder.toBodyState with
        ⟨_ | _ | _ | _, state⟩ <;> simp only [consumed] at passed <;> cases passed
      exact (BodyState.consumeBody_buf consumed).2 (.inl rfl)

/-- The body as far as it is buffered, piece by piece as it was shown. -/
def takeBody (decoder : Decoder Head Context) : Taken Head Context := takeLoop.run (decoder, [])

/-- Taking a body only shortens the buffer. -/
theorem takeBody_buf {decoder next : Decoder Head Context} {outcome : Option Headers}
    {pieces : List Bytes} (taken : decoder.takeBody = (.ok outcome, next, pieces)) :
    next.buf.length ≤ decoder.buf.length := by
  -- Every round leaves the buffer no longer than it was.
  have rule := takeLoop.run_rule (motive := fun taking (result : Taken Head Context) =>
    ∀ outcome, result.1 = .ok outcome → result.2.1.buf.length ≤ taking.1.buf.length) ?_ ?_
    (decoder, [])
  · rw [show takeLoop.run (decoder, []) = _ from taken] at rule
    exact rule outcome rfl
  · rintro ⟨decoder, pieces⟩ result passed outcome accepted
    change takePass (decoder, pieces) = .inr result at passed
    unfold takePass at passed
    dsimp only at passed
    split at passed
    · rename_i data peeked
      rw [consumeBody_eq _ (List.length_pos_of_ne_nil (peekBody_ne_nil peeked))] at passed
      rcases consumed : BodyState.consumeBody decoder.limits data.length decoder.toBodyState with
        ⟨_ | _ | _ | _, state⟩ <;> simp only [consumed] at passed <;> cases passed
      · cases accepted
      · exact (BodyState.consumeBody_buf consumed).1
    · rw [progress_eq] at passed
      rcases consumed : BodyState.consumeBody decoder.limits 0 decoder.toBodyState with
        ⟨_ | _ | _ | _, state⟩ <;> simp only [consumed] at passed <;> cases passed
      · cases accepted
      · exact (BodyState.consumeBody_buf consumed).1
      · exact (BodyState.consumeBody_buf consumed).1
  · intro taking next result passed ih outcome accepted
    have shorter := takeLoop.decreases passed
    exact (ih outcome accepted).trans shorter.le

end Decoder

end Http11

import Http11.Proofs.Draining

/-! Bodies read through a decompressor, of which the one that copies is modelled. -/

namespace Http11

/-- What a call of a decompressor did. -/
inductive CompressionStatus where
  /-- It goes on when there is more input. -/
  | continue (consumed produced : Nat)
  /-- It has come to an end. -/
  | complete (consumed produced : Nat)
  /-- There is no room for more output. -/
  | outputFull (consumed produced : Nat)
  deriving DecidableEq, Repr

namespace CompressionStatus

/-- The bytes taken of the input. -/
def consumed : CompressionStatus → Nat
  | .continue consumed _ | .complete consumed _ | .outputFull consumed _ => consumed

/-- The bytes written to the output. -/
def produced : CompressionStatus → Nat
  | .continue _ produced | .complete _ produced | .outputFull _ produced => produced

end CompressionStatus

/-- The decompressor that copies its input: its status, and the output buffer it has written to. -/
def NoCompression.decompress (input output : Bytes) : Except Error (CompressionStatus × Bytes) :=
  let len := min input.length output.length
  let output := input.take len ++ output.drop len
  if len < input.length then .ok (.outputFull len len, output)
  else if input.isEmpty then .ok (.complete 0 0, output)
  else .ok (.continue len len, output)

namespace Decoder

variable {Head Context : Type}

/-- The body bytes that can be consumed now, decompressed, or none where nothing happened. -/
def peekBodyDecompressed (decoder : Decoder Head Context) (output : Bytes) :
    Except Error (Option CompressionStatus × Bytes) :=
  match NoCompression.decompress (decoder.peekBody.getD []) output with
  | .error error => .error error
  | .ok (.continue 0 0, output) | .ok (.complete 0 0, output) => .ok (none, output)
  | .ok (status, output) => .ok (some status, output)

/-- Where no bytes are shown nothing happens, and otherwise as many are copied as there is room. -/
theorem peekBodyDecompressed_cases (decoder : Decoder Head Context) (output : Bytes) :
    decoder.peekBody = none ∧ decoder.peekBodyDecompressed output = .ok (none, output) ∨
    ∃ data status, decoder.peekBody = some data ∧
      status.consumed = min data.length output.length ∧
      status.produced = min data.length output.length ∧
      decoder.peekBodyDecompressed output = .ok (some status,
        data.take (min data.length output.length) ++
          output.drop (min data.length output.length)) := by
  cases shown : decoder.peekBody with
  | none =>
    left
    simp [peekBodyDecompressed, shown, NoCompression.decompress]
  | some data =>
    right
    have present : data ≠ [] := peekBody_ne_nil shown
    by_cases full : min data.length output.length < data.length
    · refine ⟨data, .outputFull _ _, rfl, rfl, rfl, ?_⟩
      simp only [peekBodyDecompressed, shown, Option.getD_some, NoCompression.decompress, if_pos full]
    · -- All of the bytes are copied, and there is at least one.
      obtain ⟨count, counted⟩ : ∃ count, min data.length output.length = count + 1 :=
        Nat.exists_eq_succ_of_ne_zero (by
          have := List.length_pos_iff.mpr present
          omega)
      refine ⟨data, .continue _ _, rfl, rfl, rfl, ?_⟩
      have filled : data.isEmpty = false := by simpa using present
      rw [counted] at full
      simp only [peekBodyDecompressed, shown, Option.getD_some, NoCompression.decompress, counted,
        if_neg full, filled, Bool.false_eq_true, if_false]

end Decoder

/-- A body that is read in a loop. -/
structure BodyRun (Head Context : Type) where
  /-- The decoder. -/
  decoder : Decoder Head Context
  /-- The bytes kept so far. -/
  body : Bytes := []
  /-- The trailers of the complete body, or the error that ended the loop. -/
  ended : Option (Except Error Headers) := none
  deriving DecidableEq

namespace BodyRun

variable {Head Context : Type}

/-- What a call on the decoder leads to: the loop ends, or it goes on. -/
def after (run : BodyRun Head Context) :
    Except Error BodyProgress × Decoder Head Context →
      BodyRun Head Context ⊕ BodyRun Head Context
  | (.error error, decoder) => .inr { run with decoder, ended := some (.error error) }
  | (.ok (.complete trailers), decoder) =>
    .inr { run with decoder, ended := some (.ok trailers) }
  | (.ok .advanced, decoder) | (.ok .needData, decoder) => .inl { run with decoder }

/-- The body moves on without bytes, or waits for input. -/
def moveOn (run : BodyRun Head Context) : BodyRun Head Context ⊕ BodyRun Head Context :=
  match run.decoder.progress with
  | (.ok .needData, decoder) => .inr { run with decoder }
  | moved => run.after moved

/-- Moving on shortens the buffer where the loop goes on. -/
theorem moveOn_shortens {run next : BodyRun Head Context} (moved : run.moveOn = .inl next) :
    next.decoder.buf.length < run.decoder.buf.length := by
  unfold moveOn at moved
  rcases called : run.decoder.progress with ⟨_ | progress, decoder⟩
  · simp [called, after] at moved
  · -- The loop goes on only where the body has moved on.
    cases progress with
    | needData => simp [called] at moved
    | complete trailers => simp [called, after] at moved
    | advanced =>
      simp only [called, after, Sum.inl.injEq] at moved
      rw [← moved]
      exact Decoder.progress_shortens called

/-- Consuming bytes that are shown shortens the buffer where the loop goes on. -/
theorem after_shortens {run next : BodyRun Head Context} {len : Nat}
    (shown : run.decoder.peekBody ≠ none)
    (moved : run.after (run.decoder.consumeBody len) = .inl next) :
    next.decoder.buf.length < run.decoder.buf.length := by
  rcases called : run.decoder.consumeBody len with ⟨_ | progress, decoder⟩
  · simp [called, after] at moved
  · -- The loop goes on with what is behind the bytes consumed.
    cases progress with
    | complete trailers => simp [called, after] at moved
    | advanced | needData =>
      simp only [called, after, Sum.inl.injEq] at moved
      rw [← moved]
      exact Decoder.consumeBody_shortens called (.inr shown)

/-- One pass of the plain loop: the bytes that are shown are kept and consumed. -/
def plainPass (run : BodyRun Head Context) : BodyRun Head Context ⊕ BodyRun Head Context :=
  match run.decoder.peekBody with
  | some data => { run with body := run.body ++ data }.after (run.decoder.consumeBody data.length)
  | none => run.moveOn

/-- One pass of the decompressing loop: what is produced is kept, what it took is consumed. -/
def decompressedPass (output : Bytes) (run : BodyRun Head Context) :
    BodyRun Head Context ⊕ BodyRun Head Context :=
  match run.decoder.peekBodyDecompressed output with
  | .error error => .inr { run with ended := some (.error error) }
  -- Nothing is shown, but a line end or trailers may be left to read.
  | .ok (none, _) => run.moveOn
  | .ok (some status, output) =>
    let run := { run with body := run.body ++ output.take status.produced }
    -- Only a call that took something consumes.
    if 0 < status.consumed then run.after (run.decoder.consumeBody status.consumed)
    else run.moveOn

/-- A pass of the plain loop shortens the buffer where the loop goes on. -/
theorem plainPass_shortens {run next : BodyRun Head Context} (passed : run.plainPass = .inl next) :
    next.decoder.buf.length < run.decoder.buf.length := by
  unfold plainPass at passed
  split at passed
  · rename_i data shown
    have some : run.decoder.peekBody ≠ none := by simp [shown]
    exact @after_shortens _ _ { run with body := run.body ++ data } next _ some passed
  · exact moveOn_shortens passed

/-- The plain loop, until the body waits for input or has ended. -/
def plainLoop : Iteration (BodyRun Head Context) (BodyRun Head Context) where
  body := plainPass
  size := fun run => run.decoder.buf.length
  decreases := plainPass_shortens

/-- Where no bytes are shown the decompressing loop moves on, and otherwise it takes some. -/
theorem decompressedPass_cases (output : Bytes) (run : BodyRun Head Context) :
    run.decoder.peekBody = none ∧ run.decompressedPass output = run.moveOn ∨
    ∃ data, run.decoder.peekBody = some data ∧ run.decompressedPass output =
      let kept := { run with body := run.body ++ data.take (min data.length output.length) }
      if 0 < min data.length output.length
        then kept.after (run.decoder.consumeBody (min data.length output.length))
        else kept.moveOn := by
  rcases run.decoder.peekBodyDecompressed_cases output with ⟨hidden, peeked⟩ |
    ⟨data, status, shown, consumed, produced, peeked⟩
  · left
    simp [decompressedPass, hidden, peeked]
  · refine .inr ⟨data, shown, ?_⟩
    -- What is kept of the output is what was copied to it.
    have copied : (data.take (min data.length output.length)).length =
        min data.length output.length := by
      rw [List.length_take]
      omega
    simp only [decompressedPass, peeked, consumed, produced, List.take_left' copied]

/-- A pass of the decompressing loop shortens the buffer where the loop goes on. -/
theorem decompressedPass_shortens {output : Bytes} {run next : BodyRun Head Context}
    (passed : run.decompressedPass output = .inl next) :
    next.decoder.buf.length < run.decoder.buf.length := by
  -- Each way of going on has taken something off the buffer.
  rcases run.decompressedPass_cases output with ⟨_, pass⟩ | ⟨data, shown, pass⟩
  · rw [pass] at passed
    exact moveOn_shortens passed
  · rw [pass] at passed
    dsimp only at passed
    split at passed
    · have some : run.decoder.peekBody ≠ none := by simp [shown]
      exact @after_shortens _ _ { run with body := run.body ++ data.take _ } next _ some passed
    · exact @moveOn_shortens _ _ { run with body := run.body ++ data.take _ } next passed

/-- The decompressing loop, with the output buffers of its calls and the number of calls made. -/
def decompressedLoop (outputs : Nat → Bytes) :
    Iteration (Nat × BodyRun Head Context) (Nat × BodyRun Head Context) where
  body := fun (calls, run) =>
    match run.decompressedPass (outputs calls) with
    | .inl next => .inl (calls + 1, next)
    | .inr last => .inr (calls + 1, last)
  size := fun (_, run) => run.decoder.buf.length
  decreases := by
    rintro ⟨calls, run⟩ ⟨more, next⟩ passed
    dsimp only at passed ⊢
    split at passed
    · rename_i after went
      cases passed
      exact decompressedPass_shortens went
    · cases passed

/-- What arrives while a body is read. -/
inductive Arrival where
  /-- A fragment of the connection. -/
  | fragment (data : Bytes)
  /-- The end of the connection. -/
  | closed
  deriving DecidableEq, Repr

variable {Whole : Type}

/-- What arrives reaches the decoder, unless the loop has ended. -/
def give (api : Api Head Context Whole) (run : BodyRun Head Context) (arrival : Arrival) :
    BodyRun Head Context :=
  match run.ended, arrival with
  -- Behind an error or the end of the body nothing is received.
  | some _, _ => run
  | none, .fragment data =>
    match run.decoder.feed data with
    | (.error error, decoder) => { run with decoder, ended := some (.error error) }
    | (.ok (), decoder) => { run with decoder }
  | none, .closed => { run with decoder := api.markEof run.decoder }

/-- The plain loop on what is buffered, unless it has ended. -/
def plain (run : BodyRun Head Context) : BodyRun Head Context :=
  match run.ended with
  | some _ => run
  | none => plainLoop.run run

/-- The decompressing loop on what is buffered, unless it has ended. -/
def decompressed (outputs : Nat → Bytes) (run : Nat × BodyRun Head Context) :
    Nat × BodyRun Head Context :=
  match run.2.ended with
  | some _ => run
  | none => (decompressedLoop outputs).run run

/-- The plain loop over everything that arrives. -/
def plainOver (api : Api Head Context Whole) (decoder : Decoder Head Context)
    (arrivals : List Arrival) : BodyRun Head Context :=
  arrivals.foldl (fun run arrival => (run.give api arrival).plain) (plain { decoder })

/-- The decompressing loop over everything that arrives. -/
def decompressedOver (api : Api Head Context Whole) (outputs : Nat → Bytes)
    (decoder : Decoder Head Context) (arrivals : List Arrival) : BodyRun Head Context :=
  (arrivals.foldl (fun (calls, run) arrival => decompressed outputs (calls, run.give api arrival))
    (decompressed outputs (0, { decoder }))).2

/-- A body up to the close of the connection has become larger than allowed. -/
def Overruns (run : BodyRun Head Context) : Prop :=
  run.decoder.phase = .bodyCloseDelimited ∧
    ∃ size, run.ended = some (.error (.bodyTooLarge size run.decoder.limits.maxBodySize))

/-- What the decompressing loop read is what the plain loop read, up to a body too large. -/
structure Agrees (plain last : BodyRun Head Context) : Prop where
  /-- The same bytes are kept, and the loops end or wait alike. -/
  same : ¬ plain.Overruns → last = plain
  /-- In a body that is too large both fail for it, one of them with more bytes. -/
  overrun : plain.Overruns → last.Overruns ∧ last.body <+: plain.body

/-- A loop never takes more passes than there are bytes buffered. -/
def EndsWithinBuffer (pass : Nat → BodyRun Head Context →
    BodyRun Head Context ⊕ BodyRun Head Context) : Prop :=
  ∀ (runs : Nat → BodyRun Head Context) (passes : Nat),
    (∀ index < passes, pass index (runs index) = .inl (runs (index + 1))) →
      passes ≤ (runs 0).decoder.buf.length

end BodyRun

end Http11

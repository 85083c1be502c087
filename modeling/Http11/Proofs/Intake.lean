import Http11.Calls

/-! Input that is written into reserved room is input as if it had been fed. -/

namespace Http11

namespace Intake

variable {Head Context : Type} {intake : Intake Head Context} {decoder : Decoder Head Context}

/-- How the buffer of a decoder stands to the input it was given. -/
structure Sound (decoder : Decoder Head Context) (intake : Intake Head Context) : Prop where
  /-- Everything but the buffer is as before. -/
  same : intake.decoder = { decoder with
    buf := intake.committed ++ intake.room, pending := intake.room.length }
  /-- The buffer is within its limit. -/
  bounded : (intake.committed ++ intake.room).length ≤ decoder.limits.maxBufferSize
  /-- Its length fits the machine word. -/
  fits : (intake.committed ++ intake.room).length ≤ usizeMax

/-- The bytes before the room are those that were committed. -/
theorem Sound.kept (sound : intake.Sound decoder) :
    intake.decoder.buf.length - intake.decoder.pending = intake.committed.length ∧
      intake.decoder.buf.take intake.committed.length = intake.committed ∧
      intake.decoder.buf.drop intake.committed.length = intake.room := by
  rw [sound.same]
  simp

/-- Feeding while nothing is reserved appends the input, or changes nothing. -/
theorem Sound.feed (sound : intake.Sound decoder) (settled : intake.room = []) (data : Bytes) :
    (intake.call (.feed data)).Sound decoder := by
  have buffered : intake.decoder.buf = intake.committed := by rw [sound.same]; simp [settled]
  have limits : intake.decoder.limits = decoder.limits := by rw [sound.same]
  simp only [call, Decoder.feed, buffered, limits, checkedAdd]
  -- The sum may not fit its type, or be past the limit, and then nothing is stored.
  by_cases fits : intake.committed.length + data.length ≤ usizeMax
  · simp only [if_pos fits]
    by_cases large : decoder.limits.maxBufferSize < intake.committed.length + data.length
    · simp only [if_pos large]
      exact sound
    · simp only [if_neg large]
      refine ⟨?_, ?_, ?_⟩
      · rw [sound.same]
        simp [settled]
      · simp only [settled, List.append_nil, List.length_append]
        omega
      · simpa [settled] using fits
  · simp only [if_neg fits]
    exact sound

/-- Reserving replaces the room, or drops it when there is none to be had. -/
theorem Sound.mutBuf (sound : intake.Sound decoder) (len : Nat) :
    (intake.call (.mutBuf len)).Sound decoder := by
  obtain ⟨kept, front, _⟩ := sound.kept
  have limits : intake.decoder.limits = decoder.limits := by rw [sound.same]
  have bounded := sound.bounded
  have before := sound.fits
  simp only [List.length_append] at bounded before
  simp only [call, Decoder.mutBuf, kept, front, limits, checkedAdd]
  -- Without new room there is none, since the old one is given up first.
  have dropped : Sound decoder { intake with
      decoder := { intake.decoder with
        buf := intake.committed, limits := decoder.limits, pending := 0 }
      room := [] } := by
    refine ⟨?_, ?_, ?_⟩
    · rw [sound.same]
      simp
    · simp only [List.append_nil]
      omega
    · simp only [List.append_nil]
      omega
  by_cases fits : intake.committed.length + len ≤ usizeMax
  · simp only [if_pos fits]
    by_cases large : decoder.limits.maxBufferSize < intake.committed.length + len
    · simp only [if_pos large]
      exact dropped
    · simp only [if_neg large]
      refine ⟨?_, ?_, ?_⟩
      · rw [sound.same]
        simp
      · simp only [List.length_append, List.length_replicate]
        omega
      · simpa using fits
  · simp only [if_neg fits]
    exact dropped

/-- Writing changes the room only. -/
theorem Sound.write (sound : intake.Sound decoder) {data : Bytes}
    (short : data.length ≤ intake.room.length) : (intake.call (.write data)).Sound decoder := by
  obtain ⟨kept, front, back⟩ := sound.kept
  have pending : intake.decoder.pending = intake.room.length := by rw [sound.same]
  have bounded := sound.bounded
  have fits := sound.fits
  -- Writing replaces the front of the room by as many bytes.
  have behind : intake.decoder.buf.drop (intake.committed.length + data.length) =
      intake.room.drop data.length := by
    rw [← List.drop_drop, back]
  refine ⟨?_, ?_, ?_⟩
  · simp only [call, Decoder.writePending, kept, front, behind]
    rw [List.take_of_length_le (by omega)]
    rw [sound.same]
    simp [Nat.add_sub_cancel' short]
  · simp only [call, List.length_append, List.length_drop] at bounded ⊢
    omega
  · simp only [call, List.length_append, List.length_drop] at fits ⊢
    omega

/-- Committing keeps a front part of the room and drops the rest. -/
theorem Sound.advanceBuf (sound : intake.Sound decoder) {len : Nat}
    (short : len ≤ intake.room.length) : (intake.call (.advanceBuf len)).Sound decoder := by
  have pending : intake.decoder.pending = intake.room.length := by rw [sound.same]
  have bounded := sound.bounded
  have fits := sound.fits
  refine ⟨?_, ?_, ?_⟩
  · simp only [call, Decoder.advanceBuf, pending, Nat.min_eq_left short]
    rw [sound.same]
    -- What is committed stays, and of the room the front that was asked for.
    have cut : intake.committed.length + intake.room.length - (intake.room.length - len) =
        intake.committed.length + len := by omega
    have whole : intake.committed.take (intake.committed.length + len) = intake.committed :=
      List.take_of_length_le (Nat.le_add_right _ _)
    simp [cut, List.take_append, whole]
  · simp only [call, List.append_nil, List.length_append, List.length_take] at bounded ⊢
    omega
  · simp only [call, List.append_nil, List.length_append, List.length_take] at fits ⊢
    omega

/-- Whatever calls give input, the buffer holds what was committed, and behind it the room. -/
theorem reachable_sound {limits : DecoderLimits} {context : Context}
    (reachable : Reachable { limits, context } intake) :
    intake.Sound ({ limits, context } : Decoder Head Context) := by
  -- The induction is on the calls; each of the four has its own lemma.
  induction reachable with
  | start => exact ⟨rfl, Nat.zero_le _, Nat.zero_le _⟩
  | @call intake next _ admitted sound =>
    have pending : intake.decoder.pending = intake.room.length := by rw [sound.same]
    cases next with
    | feed data =>
      refine sound.feed (List.eq_nil_of_length_eq_zero ?_) data
      rw [← pending]
      simpa [Decoder.admits] using admitted
    | mutBuf len => exact sound.mutBuf len
    | write data => exact sound.write (by simpa [Decoder.admits, pending] using admitted)
    | advanceBuf len => exact sound.advanceBuf (by simpa [Decoder.admits, pending] using admitted)
    -- The remaining calls change no input, and none of them is made here.
    | tell | decodeHeaders | peekBody | consumeBody | progress | decode | markEof => exact sound

/-- Feeding that fails changes nothing. -/
theorem feed_failed {data : Bytes} {error : Error} {next : Decoder Head Context}
    (failed : decoder.feed data = (.error error, next)) : next = decoder := by
  rcases decoder.feed_cases data with same | ⟨_, same⟩ <;> rw [same] at failed <;> cases failed
  rfl

/-- Reserving that fails gives up the room that was reserved before, and nothing else. -/
theorem mutBuf_failed {len : Nat} {error : Error} {next : Decoder Head Context}
    (failed : decoder.mutBuf len = (.error error, next)) :
    next = { decoder with
      buf := decoder.buf.take (decoder.buf.length - decoder.pending), pending := 0 } := by
  unfold Decoder.mutBuf at failed
  dsimp only at failed
  -- Both refusals come after the room that was left has been given up.
  split at failed
  · cases failed
    rfl
  · split at failed <;> cases failed
    rfl

/-- Reserved room that is written and committed is input as if it had been fed. -/
theorem committed_fed {limits : DecoderLimits} {context : Context} (intake : Intake Head Context)
    (reachable : Reachable { limits, context } intake) :
    intake.decoder.buf = intake.committed ++ intake.room ∧
    intake.decoder.pending = intake.room.length ∧
    intake.decoder.pending ≤ intake.decoder.buf.length ∧
    intake.decoder.buf.length ≤ limits.maxBufferSize ∧
    ({ limits, context } : Decoder Head Context).feed intake.committed =
      (.ok (), { intake.decoder with buf := intake.committed, pending := 0 }) ∧
    (∀ data error next, intake.decoder.feed data = (.error error, next) →
      next = intake.decoder) ∧
    (∀ len error next, intake.decoder.mutBuf len = (.error error, next) →
      next = { intake.decoder with buf := intake.committed, pending := 0 }) := by
  have sound := reachable_sound reachable
  have bounded := sound.bounded
  have fits := sound.fits
  have buffered : intake.decoder.buf = intake.committed ++ intake.room := by rw [sound.same]
  have pending : intake.decoder.pending = intake.room.length := by rw [sound.same]
  refine ⟨buffered, pending, ?_, ?_, ?_, fun _ _ _ failed => feed_failed failed, ?_⟩
  · rw [buffered, pending, List.length_append]
    exact Nat.le_add_left _ _
  · rw [buffered]
    exact bounded
  · rw [List.length_append] at bounded fits
    -- What is committed is within both limits, so feeding nothing is accepted.
    have room : intake.committed.length ≤ usizeMax := by omega
    have small : ¬ limits.maxBufferSize < intake.committed.length := by
      change _ ≤ limits.maxBufferSize at bounded
      omega
    rw [sound.same]
    simp [Decoder.feed, checkedAdd, room, small]
  · intro len error next failed
    obtain ⟨kept, front, _⟩ := sound.kept
    rw [mutBuf_failed failed, kept, front]

/-- Calls that are allowed one after the other lead to what can be reached. -/
theorem Reachable.after (reachable : Reachable decoder intake) {calls : List (Call Context)}
    (admitted : intake.admits calls = true) :
    Reachable decoder (calls.foldl Intake.call intake) := by
  induction calls generalizing intake with
  | nil => exact reachable
  | cons next rest ih =>
    simp only [admits, Bool.and_eq_true] at admitted
    exact ih (.call next reachable admitted.1) admitted.2

/-- Room that is reserved, written in part, given up and reserved again. -/
theorem committed_fed_written :
    let calls : List (Call Unit) := [.mutBuf 3, .write [1, 2], .advanceBuf 2, .mutBuf 5, .mutBuf 9,
      .mutBuf 1, .write [3], .advanceBuf 1, .feed [4], .feed [5, 6]]
    let decoder : RequestDecoder := { limits := { maxBufferSize := 5 }, context := () }
    let intake := calls.foldl call { decoder }
    intake.committed = [1, 2, 3, 4] ∧
      decoder.feed intake.committed = (.ok (), { intake.decoder with
        buf := intake.committed, pending := 0 }) := by
  intro calls decoder intake
  have reached : Reachable decoder intake := Reachable.start.after (by decide)
  have written : intake.committed = [1, 2, 3, 4] := by decide
  clear_value intake
  exact ⟨written, (committed_fed intake reached).2.2.2.2.1⟩

end Intake

end Http11

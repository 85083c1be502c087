import Http11.Proofs.Server.Following

/-! A connection is served alike, however its bytes arrive and are read. -/

namespace Http11

open Server Decoder

/-- Every step of a reader leaves the messages that were read before. -/
theorem Reader.step_done_prefix {Head Context : Type} {side : Side Head Context}
    {limit : Option Nat} {reader next : Reader Head Context}
    (stepped : reader.step side limit = some next) : ∃ more, next.done = reader.done ++ more := by
  -- Only the end of a message adds one.
  unfold step at stepped
  split at stepped
  · cases stepped
  · simp only [Option.map_eq_some_iff] at stepped
    obtain ⟨_, _, rfl⟩ := stepped
    exact ⟨[], by simp [afterHead]⟩
  · simp only [Option.map_eq_some_iff] at stepped
    obtain ⟨_, _, rfl⟩ := stepped
    exact ⟨[], by simp [afterHead]⟩
  · split at stepped <;> cases stepped
    exact ⟨[], by simp [afterByte]⟩
  · simp only [Option.map_eq_some_iff] at stepped
    obtain ⟨_, _, rfl⟩ := stepped
    exact ⟨[], by simp [afterBody]⟩
  · split at stepped <;> cases stepped
    exact ⟨[], by simp [afterByte]⟩
  · split at stepped <;> cases stepped
    exact ⟨[], by simp [afterBody]⟩
  · simp only [Option.map_eq_some_iff] at stepped
    obtain ⟨_, _, rfl⟩ := stepped
    exact ⟨[], by simp [afterBody]⟩
  · cases stepped
    unfold push
    dsimp only
    split
    · exact ⟨_, rfl⟩
    · exact ⟨[], by simp⟩
  · cases stepped
  · cases stepped

/-- Every run of a reader leaves the messages that were read before. -/
theorem Reader.reaches_done_prefix {Head Context : Type} {side : Side Head Context}
    {limit : Option Nat} {reader next : Reader Head Context}
    (reached : (machine side limit).Reaches reader next) :
    ∃ more, next.done = reader.done ++ more := by
  refine reached.preserves (motive := fun next => ∃ more, next.done = reader.done ++ more)
    (fun middle next before stepped => ?_) ⟨[], by simp⟩
  obtain ⟨first, earlier⟩ := before
  obtain ⟨second, later⟩ := step_done_prefix stepped
  exact ⟨first ++ second, by rw [later, earlier, List.append_assoc]⟩

namespace ServerRun

variable {surroundings : Surroundings} {reader next : Reader RequestHead Unit} {run : ServerRun}
  {state : ConnectionState} {ending : Server.Ending}

/-- The reader of the server, which sees as much as its buffer holds. -/
def machine : Incremental (Reader RequestHead Unit) UInt8 :=
  (Reader.window RequestDecoder.side none bufferSize).narrowed

/-- What has ended a connection ends it with more input behind it. -/
theorem outcome_feed (ended : outcome surroundings reader = (state, some ending)) (data : Bytes) :
    outcome surroundings (reader.feed data) = (state, some ending) := by
  -- Only a full buffer is decided by what is in it, and it stays full.
  unfold outcome at ended ⊢
  rw [show (reader.feed data).done = reader.done from rfl]
  split
  · rename_i served
    rw [served] at ended
    exact ended
  · rename_i served
    rw [served] at ended
    dsimp only at ended ⊢
    rw [show (reader.feed data).failed = reader.failed from rfl,
      show (reader.feed data).core.phase = reader.core.phase from rfl,
      show (reader.feed data).current = reader.current from rfl]
    split at ended
    · exact ended
    · exact ended
    · split at ended
      · rename_i full
        rw [if_pos]
        · exact ended
        · simp only [Reader.feed, List.length_append]
          omega
      · cases ended

/-- Where the server will not read on, more input does not change that. -/
theorem Final.feed (final : Final surroundings reader) (data : Bytes) :
    Final surroundings (reader.feed data) := by
  rcases final with served | failed | tunnel | ⟨full, settled⟩
  · exact .inl served
  · exact .inr (.inl failed)
  · exact .inr (.inr (.inl tunnel))
  · -- What is in the window was there before.
    refine .inr (.inr (.inr ⟨?_, ?_⟩))
    · simp only [Reader.feed, List.length_append]
      omega
    · have same : (Reader.window RequestDecoder.side none bufferSize).front (reader.feed data) =
          (Reader.window RequestDecoder.side none bufferSize).front reader := by
        simp [Reader.window, Reader.feed, List.take_append_of_le_length full]
      rw [same]
      exact settled

/-- Where the server will not read on, the outcome stays what it is. -/
theorem Final.stays (final : Final surroundings reader)
    (ended : outcome surroundings reader = (state, some ending))
    (reached : machine.Reaches reader next) : outcome surroundings next = (state, some ending) := by
  have waits : machine.Settled reader → outcome surroundings next = (state, some ending) := by
    intro settled
    rw [reached.of_settled settled]
    exact ended
  rcases final with served | failed | tunnel | ⟨_, settled⟩
  · -- More messages are not answered.
    obtain ⟨more, done⟩ := Reader.reaches_done_prefix (Incremental.Window.reaches_whole reached)
    rcases answered : serveAll surroundings reader.done with ⟨counted, _ | last⟩
    · rw [answered] at served
      cases served
    · rw [outcome_served answered] at ended
      cases ended
      refine outcome_served ?_
      rw [done]
      exact serveAll_ended answered more
  · exact waits (Incremental.Window.settled_of_front (Reader.settled_of_halted (by
      simpa [Reader.halted, Reader.window] using failed)))
  · exact waits (Incremental.Window.settled_of_front (Reader.settled_tunnel tunnel))
  · exact waits (Incremental.Window.settled_of_front settled)

/-- How a run stands to a reader of everything that has arrived. -/
def Follows (surroundings : Surroundings) (run : ServerRun) (reader : Reader RequestHead Unit) :
    Prop :=
  match run.ending with
  | none => ∃ done, run.Receiving surroundings done ∧
      (Reader.machine RequestDecoder.side none).Settled (run.view done) ∧
      run.decoder.buf.length < bufferSize ∧ reader = (run.view done).feed run.waiting
  | some ending => ending = .left ∧ serveAll surroundings reader.done = (run.connection, none) ∨
      Final surroundings reader ∧ outcome surroundings reader = (run.connection, some ending)

/-- The buffer of a run is that of its reader. -/
theorem view_buf (run : ServerRun) (done : List (Message RequestHead)) :
    (run.view done).core.buf = run.decoder.buf := by
  -- Between messages the reader has moved on already, which leaves the buffer alone.
  cases current : run.current with
  | some decoded =>
    rw [view, current]
    rfl
  | none =>
    by_cases complete : run.decoder.phase = .complete <;>
      simp [view, streaming, StreamRun.view, StreamRun.settle, Core.nextMessage, current, complete]

/-- What a run that waits has to show depends on whether its buffer is full. -/
theorem outcome_waiting {done : List (Message RequestHead)}
    (receiving : run.Receiving surroundings done) :
    outcome surroundings (run.view done) = (run.connection,
      if bufferSize ≤ run.decoder.buf.length then some .bufferFull else none) := by
  -- A body that is received is not that of a tunnel.
  have going : ∀ decoded, (run.view done).core.phase = .tunnel →
      (run.view done).current ≠ some decoded := by
    intro decoded tunnel current
    have reading : run.current = some decoded := current
    have consistent := receiving.proper.consistent
    rw [view, reading] at consistent tunnel
    exact (streaming_framed consistent (receiving.framed _ _ reading).1).2 tunnel
  unfold outcome
  rw [show (run.view done).done = done from rfl, receiving.served,
    show (run.view done).failed = none from rfl, view_buf]
  dsimp only
  split
  · rename_i failed
    cases failed
  · rename_i tunnel current
    exact absurd current (going _ tunnel)
  · rfl

/-- The check for room leaves a run where the reader is. -/
theorem checkRoom_follows {start : Reader RequestHead Unit} {waiting : Bytes}
    (shown : start.core.buf.length ≤ bufferSize)
    (rests : Rests surroundings start waiting run) : ∃ next,
      run.checkRoom.Follows surroundings next ∧ machine.Reaches (start.feed waiting) next := by
  -- What the reader did while all of its input was in the window is done within the window.
  have inside : ∀ reader, (Reader.machine RequestDecoder.side none).Reaches start reader →
      machine.Reaches (start.feed waiting) (reader.feed waiting) ∧
        reader.core.buf.length ≤ bufferSize := by
    intro reader reached
    obtain ⟨within, clear⟩ := (Reader.window RequestDecoder.side none bufferSize).reaches_shown
      reached (List.drop_eq_nil_of_le shown) (fun state next stepped clear => by
        have shorter : next.core.buf.length ≤ state.core.buf.length := Reader.step_buf_le stepped
        have before := List.drop_eq_nil_iff.mp clear
        exact List.drop_eq_nil_of_le (shorter.trans before))
    exact ⟨within.feed waiting, List.drop_eq_nil_iff.mp clear⟩
  rcases rests.rest with ⟨ending, ⟨reader, reached, final, stands⟩, ended⟩ |
    ⟨done, receiving, reached, settled⟩
  · refine ⟨reader.feed waiting, ?_, (inside reader reached).1⟩
    have same : run.checkRoom = run := by simp [checkRoom, ended]
    rw [same, Follows, ended]
    exact .inr ⟨final.feed waiting, outcome_feed stands waiting⟩
  · obtain ⟨within, short⟩ := inside _ reached
    rw [view_buf] at short
    refine ⟨(run.view done).feed waiting, ?_, within⟩
    by_cases full : bufferSize ≤ run.decoder.buf.length
    · have none_left : run.decoder.want readChunk = 0 := by
        have limits := receiving.limits
        simp only [want, availableBuf, limits]
        exact Nat.min_eq_zero_iff.mpr (.inl (Nat.sub_eq_zero_of_le full))
      have checked : run.checkRoom = { run with ending := some .bufferFull } := by
        simp [checkRoom, receiving.going, none_left]
      rw [checked]
      refine .inr ⟨Final.feed (.inr (.inr (.inr ⟨by rw [view_buf]; exact full, ?_⟩))) waiting,
        outcome_feed (by rw [outcome_waiting receiving, if_pos full]) waiting⟩
      have whole : (Reader.window RequestDecoder.side none bufferSize).front (run.view done) =
          run.view done := by
        have all : (run.view done).core.buf.take bufferSize = (run.view done).core.buf :=
          List.take_of_length_le (by rw [view_buf]; exact short)
        simp [Reader.window, all]
      rw [whole]
      exact settled
    · have room : run.decoder.want readChunk ≠ 0 := by
        have limits := receiving.limits
        have positive : 0 < readChunk := by decide
        simp only [want, availableBuf, limits]
        rw [Nat.not_le] at full
        have free : 0 < bufferSize - run.decoder.buf.length := Nat.sub_pos_of_lt full
        exact (Nat.lt_min.mpr ⟨free, positive⟩).ne'
      have checked : run.checkRoom = run := by simp [checkRoom, receiving.going, room]
      rw [checked, Follows, receiving.going]
      exact ⟨done, receiving, settled, Nat.lt_of_not_le full, by rw [rests.same]⟩

/-- A read leaves a run where the reader is. -/
theorem read_follows (count : Nat) (follow : run.Follows surroundings reader) : ∃ next,
    (run.read surroundings count).Follows surroundings next ∧ machine.Reaches reader next := by
  by_cases idle : run.ending.isSome || run.decoder.granted readChunk count run.waiting == 0
  · -- Nothing is read.
    exact ⟨reader, by rwa [read, if_pos idle], .refl⟩
  have going : run.ending = none := by
    simp only [Bool.or_eq_true, not_or] at idle
    simpa using idle.1
  rw [Follows, going] at follow
  obtain ⟨done, receiving, _, short, rfl⟩ := follow
  have received := receive_eq receiving.roomy readChunk count run.waiting
  obtain ⟨room, there⟩ := granted_le readChunk count run.decoder run.waiting
  rw [read, if_neg idle, received]
  dsimp only
  generalize run.decoder.granted readChunk count run.waiting = returned at room there ⊢
  have fed : view { run with
        decoder := run.decoder.feedUnchecked (run.waiting.take returned)
        waiting := run.waiting.drop returned } done =
      (run.view done).feed (run.waiting.take returned) :=
    streaming_feed _ _ _ _ _ _
  have limits := receiving.limits
  have fits : run.decoder.buf.length + (run.waiting.take returned).length ≤ bufferSize := by
    have size : run.decoder.limits.maxBufferSize = bufferSize := by rw [limits]; rfl
    rw [availableBuf, size] at room
    rw [List.length_take]
    omega
  have ready : Receiving surroundings { run with
      decoder := run.decoder.feedUnchecked (run.waiting.take returned)
      waiting := run.waiting.drop returned } done :=
    { going := receiving.going
      proper := by rw [fed]; exact receiving.proper.feed _
      roomy := ⟨receiving.roomy.settled, by
        have size : run.decoder.limits.maxBufferSize = bufferSize := by rw [limits]; rfl
        simpa [feedUnchecked, size] using fits, receiving.roomy.machine⟩
      limits := limits
      served := receiving.served
      framed := receiving.framed
      between := receiving.between }
  obtain ⟨next, followed, reached⟩ := checkRoom_follows (by
    rw [view_buf]
    simpa [feedUnchecked] using fits) (loop_follows ready)
  refine ⟨next, followed, ?_⟩
  -- What was read and what still waits make up what was there.
  rw [fed] at reached
  have whole : ((run.view done).feed (run.waiting.take returned)).feed (run.waiting.drop returned) =
      (run.view done).feed run.waiting := by
    have joined := (Reader.machine RequestDecoder.side none).feed_feed (run.view done)
      (run.waiting.take returned) (run.waiting.drop returned)
    rwa [List.take_append_drop] at joined
  rwa [whole] at reached

/-- Whatever happens, the run stays with the reader of all that has arrived. -/
theorem happen_follows (happening : Happening) (follow : run.Follows surroundings reader) :
    ∃ next, (happen surroundings run happening).Follows surroundings next ∧
      machine.Reaches (machine.feed reader happening.input) next := by
  -- Bytes are added, some of them are read, or the client leaves.
  cases happening with
  | arrives data =>
    refine ⟨reader.feed data, ?_, .refl⟩
    rw [Follows] at follow ⊢
    rw [show (happen surroundings run (.arrives data)).ending = run.ending from rfl]
    -- While the connection goes on, the reader waits for the same bytes.
    cases ended : run.ending with
    | none =>
      rw [ended] at follow
      obtain ⟨done, receiving, settled, short, rfl⟩ := follow
      refine ⟨done, ⟨⟨receiving.going, receiving.proper, receiving.roomy, receiving.limits,
        receiving.served⟩, receiving.framed, receiving.between⟩, settled, short, ?_⟩
      exact ((Reader.machine RequestDecoder.side none).feed_feed _ _ _)
    | some ending =>
      rw [ended] at follow
      -- Behind its end the connection stays ended, whatever arrives.
      rcases follow with left | ⟨final, stands⟩
      · exact .inl left
      · exact .inr ⟨final.feed data, outcome_feed stands data⟩
  | reads count =>
    obtain ⟨next, followed, reached⟩ := read_follows count follow
    exact ⟨next, followed, by simpa [Happening.input, machine.feed_nil] using reached⟩
  | leaves =>
    refine ⟨reader, ?_, by simpa [Happening.input, machine.feed_nil] using .refl⟩
    rw [Follows] at follow ⊢
    -- A client that leaves leaves what was served as it was.
    cases ended : run.ending with
    | none =>
      rw [ended] at follow
      obtain ⟨done, receiving, _, _, rfl⟩ := follow
      simpa [happen, ended] using .inl receiving.served
    | some ending =>
      rw [ended] at follow
      simpa [happen, ended] using follow

/-- A connection follows the reader of all that arrives on it. -/
theorem across_follows (surroundings : Surroundings) (happenings : List Happening) : ∃ next,
    (across surroundings happenings).Follows surroundings next ∧
      machine.Reaches (((RequestDecoder.withLimits {}).view []).feed (arrived happenings)) next := by
  -- Before anything arrives nothing has been read or answered.
  have fresh : ({} : ServerRun).Follows surroundings ((RequestDecoder.withLimits {}).view []) := by
    refine ⟨[], ⟨⟨rfl, ?_, ⟨rfl, by decide, by decide⟩, rfl, rfl⟩, by simp, fun _ => rfl⟩, ?_, ?_, rfl⟩
    · exact view_fresh RequestDecoder.side rfl rfl rfl rfl rfl rfl
    · exact Reader.settled_head (.inl rfl) rfl
    · exact by decide
  exact machine.events_follow (fun _ _ happening follow => happen_follows happening follow)
    happenings _ _ fresh

/-- Where a run is idle, it has nothing more to show than its reader. -/
theorem Follows.idle (follow : run.Follows surroundings reader) (idle : run.Idle)
    (stayed : run.ending ≠ some .left) :
    (run.ending = none ∧ machine.Settled reader ∨
      run.ending.isSome = true ∧ Final surroundings reader) ∧
    outcome surroundings reader = (run.connection, run.ending) := by
  rw [Follows] at follow
  cases ended : run.ending with
  | some ending =>
    rw [ended] at follow stayed
    rcases follow with ⟨rfl, _⟩ | ⟨final, stands⟩
    · exact absurd rfl stayed
    · exact ⟨.inr ⟨rfl, final⟩, stands⟩
  | none =>
    rw [ended] at follow
    obtain ⟨done, receiving, settled, short, rfl⟩ := follow
    have read : run.waiting = [] := by
      rcases idle with read | past
      · exact read
      · rw [ended] at past
        cases past
    have unfed : (run.view done).feed [] = run.view done :=
      (Reader.machine RequestDecoder.side none).feed_nil _
    rw [read, unfed, outcome_waiting receiving, if_neg (Nat.not_le.mpr short)]
    refine ⟨.inl ⟨rfl, Incremental.Window.settled_of_front ?_⟩, rfl⟩
    -- All that is buffered is in the window.
    have whole : (run.view done).core.buf.take bufferSize = (run.view done).core.buf :=
      List.take_of_length_le (by rw [view_buf]; exact short.le)
    simpa [Reader.window, whole] using settled

/-- Two idle runs that have received the same stand alike. -/
theorem Follows.alike {left right : ServerRun} {first second : Reader RequestHead Unit}
    (followFirst : left.Follows surroundings first) (idleFirst : left.Idle)
    (stayedFirst : left.ending ≠ some .left) (followSecond : right.Follows surroundings second)
    (idleSecond : right.Idle) (stayedSecond : right.ending ≠ some .left)
    (reached : machine.Reaches first second) :
    (left.connection, left.ending) = (right.connection, right.ending) := by
  obtain ⟨rests, stands⟩ := followFirst.idle idleFirst stayedFirst
  obtain ⟨_, standsToo⟩ := followSecond.idle idleSecond stayedSecond
  rw [← standsToo]
  -- An idle run has settled, or the connection has ended for good.
  rcases rests with ⟨_, settled⟩ | ⟨past, final⟩
  · rw [reached.of_settled settled, stands]
  · obtain ⟨ending, ended⟩ := Option.isSome_iff_exists.mp past
    rw [ended] at stands ⊢
    exact (final.stays stands reached).symm

/--
A connection is served alike, however its bytes arrive and are read.

Two servers have received the same bytes, and neither was left by its client. Once each of them has
read everything, or has ended the connection, they have counted the same requests, have written
the same bytes, and have ended in the same way or both wait for more.
-/
theorem across_alike (surroundings : Surroundings) (left right : List Happening)
    (same : arrived left = arrived right)
    (idleLeft : (across surroundings left).Idle) (idleRight : (across surroundings right).Idle)
    (stayedLeft : (across surroundings left).ending ≠ some .left)
    (stayedRight : (across surroundings right).ending ≠ some .left) :
    (across surroundings left).connection = (across surroundings right).connection ∧
      (across surroundings left).ending = (across surroundings right).ending := by
  obtain ⟨first, followFirst, reachedFirst⟩ := across_follows surroundings left
  obtain ⟨second, followSecond, reachedSecond⟩ := across_follows surroundings right
  rw [same] at reachedFirst
  -- Of the two readers one lies behind the other.
  rcases reachedFirst.comparable reachedSecond with onward | onward
  · exact Prod.ext_iff.mp
      (followFirst.alike idleLeft stayedLeft followSecond idleRight stayedRight onward)
  · exact Prod.ext_iff.mp
      (followSecond.alike idleRight stayedRight followFirst idleLeft stayedLeft onward).symm

/-- Two requests that arrive and are read at once. -/
def whole : List Happening :=
  [.arrives (Utf8.encode "GET /x HTTP/1.1\r\nHost: a\r\n\r\nGET /y HTTP/1.0\r\n\r\n".toList),
    .reads 8192]

/-- The same requests in pieces that end in the middle of lines. -/
def cut : List Happening :=
  [.arrives (Utf8.encode "GET /x HTTP/1.1\r\nHost: a\r\n\r\nG".toList), .reads 21,
    .arrives (Utf8.encode "ET /y HTTP/1.0\r\n\r\n".toList), .reads 90]

/-- Two requests are answered alike in one piece and in four. -/
theorem across_alike_cut : arrived whole = arrived cut ∧
    (across (.uncoded 0) whole).connection = (across (.uncoded 0) cut).connection ∧
    (across (.uncoded 0) whole).ending = (across (.uncoded 0) cut).ending := by
  have same : arrived whole = arrived cut := by decide +kernel
  exact ⟨same, across_alike (.uncoded 0) whole cut same (.inl (by decide +kernel))
    (.inl (by decide +kernel)) (by decide +kernel) (by decide +kernel)⟩

end ServerRun

end Http11

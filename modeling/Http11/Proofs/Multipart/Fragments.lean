import Http11.FormRun
import Http11.Proofs.Multipart.Reading

/-! A form that arrives in fragments is the form that its bytes are, as long as none is refused. -/

namespace Http11

namespace FormRun

variable {boundary : Str}

/-- A run that has handed out what a reader has read, and whose last call answered as the reader. -/
def Follows (boundary : Str) (run : FormRun) (reader : FormReader) : Prop :=
  run.parser.Traces boundary run.parts reader ∧ run.answer = reader.answer

/-- A run in front of its first fragment has read nothing. -/
theorem fresh_follows (boundary : Str) (maxBufferSize : Nat) :
    (fresh boundary maxBufferSize).Follows boundary (FormReader.start []) := by
  have new := MultipartParser.scanned_new boundary
  exact ⟨.inl ⟨⟨rfl, rfl, ⟨new.firstPresent, new.innerPresent, new.posWithin, new.offsetWithin,
    new.initial, new.inPart⟩, rfl, rfl, rfl⟩, rfl⟩, rfl⟩

/-- What is fed is fed to the reader, unless it is refused. -/
theorem give_follows {run : FormRun} {reader : FormReader} (follows : run.Follows boundary reader)
    (data : Bytes) (accepted : (run.give data).overflowed = false) :
    (run.give data).Follows boundary (reader.feed data) := by
  obtain ⟨traces, answer⟩ := follows
  unfold give MultipartParser.feed at accepted ⊢
  dsimp only at accepted ⊢
  -- A fragment that does not fit into the buffer is refused, against the hypothesis.
  by_cases full : run.parser.maxBufferSize <
      min (run.parser.buffer.length - run.parser.pos + data.length) usizeMax
  · rw [if_pos full] at accepted
    cases accepted
  · rw [if_neg full]
    refine ⟨?_, answer⟩
    -- The run is reading on, or stopped for good, and stays so.
    rcases traces with ⟨reads, parts⟩ | ⟨error, refused, stuck, parts⟩
    · exact .inl ⟨reads.extend data, parts⟩
    · exact .inr ⟨error, refused, stuck.extend data, parts⟩

/-- A refusal stays one. -/
theorem drain_overflowed (run : FormRun) : run.drain.overflowed = run.overflowed := by
  -- No round of the loop touches the flag.
  refine drainLoop.run_rule (motive := fun run result => result.overflowed = run.overflowed) ?_ ?_ _
  · intro run result taken
    change run.take = .inr result at taken
    unfold take at taken
    split at taken <;> cases taken
    rfl
  · intro run next result taken ih
    change run.take = .inl next at taken
    unfold take at taken
    split at taken <;> cases taken
    exact ih

/-- Taking all parts that have arrived is reading as far as that goes. -/
theorem drain_follows {run : FormRun} {reader : FormReader}
    (traces : run.parser.Traces boundary run.parts reader) :
    ∃ next, run.drain.Follows boundary next ∧ (FormReader.machine boundary).Reaches reader next ∧
      (FormReader.machine boundary).Settled next := by
  -- Every part that is handed out is one that the reader comes to, and the last call is its rest.
  refine drainLoop.run_rule (motive := fun run result => ∀ reader,
    run.parser.Traces boundary run.parts reader → ∃ next, result.Follows boundary next ∧
      (FormReader.machine boundary).Reaches reader next ∧
        (FormReader.machine boundary).Settled next) ?_ ?_ run reader traces
  · intro run result taken reader traces
    change run.take = .inr result at taken
    unfold take at taken
    rcases traces with ⟨reads, parts⟩ | ⟨error, refused, stuck, parts⟩
    · have answered := MultipartParser.nextPart_answered reads
      rcases called : run.parser.nextPart with ⟨error | _ | part, next⟩
      · rw [called] at taken answered
        cases taken
        obtain ⟨behind, reached, settled, answer, traces⟩ := answered
        exact ⟨behind, ⟨parts ▸ traces, answer.symm⟩, reached, settled⟩
      · rw [called] at taken answered
        cases taken
        obtain ⟨behind, reached, settled, answer, traces⟩ := answered
        exact ⟨behind, ⟨parts ▸ traces, answer.symm⟩, reached, settled⟩
      · rw [called] at taken
        cases taken
    · have called := stuck []
      have same : run.parser.extend [] = run.parser := by
        rw [MultipartParser.extend, List.append_nil]
      rw [same] at called
      rw [called] at taken
      cases taken
      exact ⟨reader, ⟨.inr ⟨error, refused, stuck, parts⟩, by rw [FormReader.answer, refused]⟩,
        .refl, MultipartParser.settled_refused refused⟩
  · intro run next result taken ih reader traces
    change run.take = .inl next at taken
    unfold take at taken
    rcases traces with ⟨reads, parts⟩ | ⟨error, refused, stuck, parts⟩
    · have answered := MultipartParser.nextPart_answered reads
      rcases called : run.parser.nextPart with ⟨error | _ | part, parser⟩
      · rw [called] at taken
        cases taken
      · rw [called] at taken
        cases taken
      · rw [called] at taken answered
        cases taken
        obtain ⟨behind, reached, longer, reads⟩ := answered
        obtain ⟨last, follows, onward, settled⟩ := ih behind (.inl ⟨reads, parts ▸ longer⟩)
        exact ⟨last, follows, reached.trans onward, settled⟩
    · have called := stuck []
      have same : run.parser.extend [] = run.parser := by
        rw [MultipartParser.extend, List.append_nil]
      rw [same] at called
      rw [called] at taken
      cases taken

/-- A form is what its bytes say, however they are cut into fragments.

At a delimiter line gone wrong the part in front of it may have been handed out or not.
-/
theorem across_reads (boundary : Str) (maxBufferSize : Nat) (fragments : List Bytes)
    (accepted : (across boundary maxBufferSize fragments).overflowed = false) :
    (across boundary maxBufferSize fragments).answer =
        (FormReader.read boundary fragments.flatten).answer ∧
      ((across boundary maxBufferSize fragments).parts =
          (FormReader.read boundary fragments.flatten).parts ∨
        (across boundary maxBufferSize fragments).answer = .error .invalidPart ∧
          (across boundary maxBufferSize fragments).parts =
            (FormReader.read boundary fragments.flatten).parts.dropLast) := by
  have followed := (FormReader.machine boundary).fragments_follow_unrefused
    (Follows boundary) (fun run => run.overflowed = true) give drain ?_ ?_ ?_ fragments
    (fresh boundary maxBufferSize) (FormReader.start []) (fresh_follows boundary maxBufferSize)
    rfl (by rw [Bool.not_eq_true]; exact accepted)
  · obtain ⟨next, ⟨traces, answer⟩, reached, settled⟩ := followed
    -- The machine settles in one state only.
    obtain ⟨read, readSettled⟩ := FormReader.read_reached boundary fragments.flatten
    have same : FormReader.read boundary fragments.flatten = next :=
      read.settled_unique readSettled reached settled
    rw [same]
    refine ⟨answer, ?_⟩
    rcases traces with ⟨_, parts⟩ | ⟨error, refused, _, parts | ⟨wrong, parts⟩⟩
    · exact .inl parts.symm
    · exact .inl parts.symm
    · refine .inr ⟨answer.trans ?_, parts.symm⟩
      rw [FormReader.answer, refused, wrong]
  · -- No fragment is accepted behind a refusal.
    intro run data refused
    have kept : (run.give data).overflowed = true := by
      unfold give
      split
      · exact refused
      · rfl
    rw [drain_overflowed, kept]
  · intro run reader data follows unrefused
    rw [drain_overflowed, Bool.not_eq_true] at unrefused
    exact give_follows follows data unrefused
  · exact fun run reader follows => drain_follows follows.1

/-- A form cut within its delimiters, the second of which goes wrong behind the first part. -/
theorem across_reads_cut :
    let fragments := [Utf8.encode "--b\r\nContent-Disposition: form-data; name=a\r\n\r\nx\r".toList,
      Utf8.encode "\n--b ".toList, Utf8.encode "\ty-".toList]
    (across ['b'] 99 fragments).answer = (FormReader.read ['b'] fragments.flatten).answer ∧
      ((across ['b'] 99 fragments).parts = (FormReader.read ['b'] fragments.flatten).parts ∨
        (across ['b'] 99 fragments).answer = .error .invalidPart ∧
          (across ['b'] 99 fragments).parts =
            (FormReader.read ['b'] fragments.flatten).parts.dropLast) :=
  across_reads ['b'] 99 _ (by decide +kernel)

end FormRun

end Http11

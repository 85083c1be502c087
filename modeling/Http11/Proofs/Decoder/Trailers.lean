import Mathlib.Data.List.Forall2
import Http11.Proofs.Decoder.Lines

/-! Reading a body in chunks follows its chunks and trailer lines, or a line of it is refused. -/

namespace Http11

/-- A chunk behind whole chunks makes whole chunks. -/
theorem Chunks.append {limits : DecoderLimits} {chunks content line data : Bytes}
    (whole : Chunks limits chunks content) (plain : IsLine line)
    (parsed : parseChunkSize limits line = .ok data.length) (present : data ≠ []) :
    Chunks limits (chunks ++ (line ++ crlf) ++ data ++ crlf) (content ++ data) := by
  induction whole with
  | none => simpa using Chunks.more plain parsed present .none
  | more first size filled _ ih =>
    simpa [List.append_assoc] using Chunks.more first size filled ih

/-- Where the last chunk stands is determined by what is there. -/
theorem IsChunked.unique {limits : DecoderLimits} {body other rest more : Bytes}
    (left : IsChunked limits body) (right : IsChunked limits other)
    (same : body ++ rest = other ++ more) : body = other ∧ rest = more := by
  obtain ⟨chunks, content, last, whole, lastPlain, lastSize, rfl⟩ := left
  obtain ⟨others, otherContent, otherLast, otherWhole, otherPlain, otherSize, rfl⟩ := right
  -- Both are read from the front, one size line after the other.
  induction whole generalizing others otherContent with
  | none =>
    cases otherWhole with
    | none =>
      have split := splitLine_plain lastPlain rest
      simp only [List.nil_append] at same
      rw [same, splitLine_plain otherPlain] at split
      cases split
      exact ⟨rfl, rfl⟩
    | more plain size present =>
      rename_i line data chunks content
      exfalso
      have split := splitLine_plain lastPlain rest
      simp only [List.nil_append, List.append_assoc] at same split
      rw [same, ← List.append_assoc, splitLine_plain plain] at split
      -- A chunk that is empty is the last one.
      cases split
      rw [lastSize] at size
      exact present (List.eq_nil_of_length_eq_zero (Except.ok.inj size).symm)
  | more plain size present behind ih =>
    rename_i line data chunks content
    have split := splitLine_plain plain (data ++ (crlf ++ (chunks ++ (last ++ (crlf ++ rest)))))
    simp only [List.append_assoc] at same split
    cases otherWhole with
    | none =>
      exfalso
      simp only [List.nil_append] at same
      rw [same, ← List.append_assoc, splitLine_plain otherPlain] at split
      cases split
      rw [otherSize] at size
      exact present (List.eq_nil_of_length_eq_zero (Except.ok.inj size).symm)
    | more nextPlain nextSize nextPresent nextBehind =>
      rename_i nextLine nextData nextChunks nextContent
      simp only [List.append_assoc] at same
      rw [same, ← List.append_assoc, splitLine_plain nextPlain] at split
      simp only [Option.some.injEq, Prod.mk.injEq] at split
      obtain ⟨rfl, after⟩ := split
      -- The size line says how long the data is, so the chunks are the same one.
      rw [size] at nextSize
      obtain ⟨rfl, ended⟩ := List.append_inj after (Except.ok.inj nextSize).symm
      have later := List.append_cancel_left ended
      obtain ⟨bodies, rests⟩ := ih nextChunks nextContent nextBehind
        (by simpa only [List.append_assoc] using later.symm)
      exact ⟨by simp only [List.append_assoc] at bodies ⊢; rw [bodies], rests⟩

/-- Where two ways to read trailer lines differ, one of them is through with the section. -/
theorem trailerLines_unique {lines others : List Bytes} {line rest more : Bytes}
    (trailers : ∀ line ∈ lines, IsTrailerLine line)
    (before : ∀ line ∈ others, IsTrailerLine line) (next : IsTrailerLine line)
    (same : lines.flatMap (· ++ crlf) ++ (crlf ++ rest) =
      others.flatMap (· ++ crlf) ++ (line ++ crlf ++ more)) : line ∈ lines := by
  induction others generalizing lines with
  | nil =>
    have split := splitLine_plain next.2 more
    rw [List.flatMap_nil, List.nil_append] at same
    cases lines with
    | nil =>
      -- The section ends with an empty line, which is no trailer line.
      rw [List.flatMap_nil, List.nil_append] at same
      rw [← same, ← List.nil_append crlf, splitLine_plain IsLine.nil] at split
      cases split
      exact absurd rfl next.1
    | cons first lines =>
      rw [List.flatMap_cons, List.append_assoc] at same
      rw [← same, splitLine_plain (trailers first List.mem_cons_self).2] at split
      cases split
      exact List.mem_cons_self
  | cons other others ih =>
    have listed := before other List.mem_cons_self
    have split := splitLine_plain listed.2 (others.flatMap (· ++ crlf) ++ (line ++ crlf ++ more))
    rw [List.flatMap_cons, List.append_assoc] at same
    cases lines with
    | nil =>
      rw [List.flatMap_nil, List.nil_append] at same
      rw [← same, ← List.nil_append crlf, splitLine_plain IsLine.nil] at split
      cases split
      exact absurd rfl listed.1
    | cons first lines =>
      rw [List.flatMap_cons, List.append_assoc] at same
      rw [← same, splitLine_plain (trailers first List.mem_cons_self).2] at split
      simp only [Option.some.injEq, Prod.mk.injEq] at split
      obtain ⟨rfl, later⟩ := split
      have inside := ih (fun line listed => trailers line (List.mem_cons_of_mem _ listed))
        (fun line listed => before line (List.mem_cons_of_mem _ listed)) later
      exact List.mem_cons_of_mem _ inside

/-- What is a whole message has no trailer line that may not be there, whatever follows. -/
theorem IsWhole.good {limits : DecoderLimits} {headers fields : Headers} {bytes input : Bytes}
    (whole : IsWhole limits headers bytes fields) :
    ¬ HasBadTrailer limits headers (bytes ++ input) := by
  obtain ⟨body, lines, chunked, trailers, rfl, read⟩ := whole
  rintro ⟨other, others, line, rest, otherChunked, before, next, bad, same⟩
  simp only [List.append_assoc] at same
  obtain ⟨_, sections⟩ := chunked.unique otherChunked same
  have listed : line ∈ lines := by
    have alike : lines.flatMap (· ++ crlf) ++ (crlf ++ input) =
        others.flatMap (· ++ crlf) ++ (line ++ crlf ++ rest) := by
      simpa only [List.append_assoc] using sections
    exact trailerLines_unique trailers before next alike
  -- Every line of the section was read as a field.
  obtain ⟨index, inside, found⟩ := List.getElem_of_mem listed
  have fitting := read.get inside (by rw [← read.length_eq]; exact inside)
  rw [List.get_eq_getElem, found] at fitting
  exact bad _ fitting

/-- A name is declared when a field of the head announces it, whatever the case of its letters. -/
theorem mem_collectDeclaredTrailers (headers : Headers) (name : Str) :
    toAsciiLowercase name ∈ collectDeclaredTrailers headers ↔
      ∃ element ∈ fieldElements headers "Trailer".toList, eqIgnoreAsciiCase name element = true := by
  rw [collectDeclaredTrailers, List.mem_map]
  refine exists_congr fun element => and_congr_right fun _ => ?_
  rw [eqIgnoreAsciiCase, beq_iff_eq]
  exact eq_comm

/-- A body in chunks with some content, up to the size line of the last one. -/
def ChunkedOf (limits : DecoderLimits) (body content : Bytes) : Prop :=
  ∃ chunks line, Chunks limits chunks content ∧ IsLine line ∧
    parseChunkSize limits line = .ok 0 ∧ body = chunks ++ (line ++ crlf)

/-- A body in chunks has some content. -/
theorem ChunkedOf.isChunked {limits : DecoderLimits} {body content : Bytes}
    (chunked : ChunkedOf limits body content) : IsChunked limits body :=
  let ⟨chunks, line, whole, plain, parsed, same⟩ := chunked
  ⟨chunks, content, line, whole, plain, parsed, same⟩

/-- The bytes of a whole message behind its head, with some content and some trailers. -/
def WholeOf (limits : DecoderLimits) (headers : Headers) (bytes content : Bytes)
    (fields : Headers) : Prop :=
  ∃ (body : Bytes) (lines : List Bytes), ChunkedOf limits body content ∧
    (∀ line ∈ lines, IsTrailerLine line) ∧
    bytes = body ++ lines.flatMap (· ++ crlf) ++ crlf ∧
    List.Forall₂ (IsTrailer headers) lines fields

/-- A whole message has some content. -/
theorem WholeOf.isWhole {limits : DecoderLimits} {headers fields : Headers}
    {bytes content : Bytes} (whole : WholeOf limits headers bytes content fields) :
    IsWhole limits headers bytes fields :=
  let ⟨body, lines, chunked, rest⟩ := whole
  ⟨body, lines, chunked.isChunked, rest⟩

namespace BodyState

variable {limits : DecoderLimits} {headers : Headers} {taken delivered : Bytes} {state : BodyState}

/-- A trailer line that may be there is accepted, unless it is refused before it is read. -/
theorem trailerLine_accepts {line : Bytes} {field : Str × Str} (present : line ≠ [])
    (read : refusesLine limits state.bodyDecoder.trailerCount line = false)
    (declared : state.bodyDecoder.declaredTrailers = collectDeclaredTrailers headers)
    (trailer : IsTrailer headers line field) (rest : Bytes) :
    (trailerLine limits state line rest).1 = .ok () := by
  obtain ⟨⟨text, decoded, parsed⟩, announced, allowed⟩ := trailer
  rw [← mem_collectDeclaredTrailers, ← declared] at announced
  obtain ⟨short, few, _⟩ := refusesLine_eq_false.mp read
  have long : ¬ limits.maxHeaderLineSize < line.length := by omega
  have many : ¬ limits.maxHeadersCount ≤ state.bodyDecoder.trailerCount := by omega
  simp [trailerLine, present, long, many, decoded, parsed, allowed, announced]

/-- Where a decoder stands in a message in chunks, by what it took and delivered of it. -/
inductive Place (limits : DecoderLimits) (headers : Headers) (taken delivered : Bytes)
    (state : BodyState) : Prop where
  /-- Behind whole chunks. -/
  | size (phase : state.phase = .bodyChunkedSize) (whole : Chunks limits taken delivered)
    (counted : state.bodyDecoder.bodyConsumed = delivered.length)
    (untrailed : state.bodyDecoder.trailers = [])
  /-- Within a chunk, or behind its data. -/
  | data (remaining : Nat) (phase : state.phase =
      if remaining = 0 then .bodyChunkedDataCrlf else .bodyChunkedData remaining)
    (chunks content line data : Bytes) (whole : Chunks limits chunks content) (plain : IsLine line)
    (parsed : parseChunkSize limits line = .ok (data.length + remaining))
    (present : 0 < data.length + remaining) (same : taken = chunks ++ (line ++ crlf) ++ data)
    (shown : delivered = content ++ data)
    (counted : state.bodyDecoder.bodyConsumed = content.length + data.length)
    (fits : content.length + data.length + remaining ≤ usizeMax)
    (untrailed : state.bodyDecoder.trailers = [])
  /-- Behind some trailer lines. -/
  | trailers (phase : state.phase = .chunkedTrailer) (body : Bytes) (lines : List Bytes)
    (chunked : ChunkedOf limits body delivered) (listed : ∀ line ∈ lines, IsTrailerLine line)
    (same : taken = body ++ lines.flatMap (· ++ crlf))
    (read : List.Forall₂ (IsTrailer headers) lines state.bodyDecoder.trailers)
  /-- Behind the whole message. -/
  | complete (phase : state.phase = .complete)
    (whole : WholeOf limits headers taken delivered state.bodyDecoder.trailers)

/-- A decoder stands in a message in chunks, and knows which trailers its head announced. -/
structure Stands (limits : DecoderLimits) (headers : Headers) (taken delivered : Bytes)
    (state : BodyState) : Prop where
  /-- The names that the head announced are declared. -/
  declared : state.bodyDecoder.declaredTrailers = collectDeclaredTrailers headers
  /-- What was taken is read as it stands there. -/
  place : Place limits headers taken delivered state

/-- A line of the message that is refused is off the buffer. -/
def Skipped (limits : DecoderLimits) (headers : Headers) (taken : Bytes) : Prop :=
  HasBadTrailer limits headers taken ∨ HasLargeChunk limits taken

/-- What an operation took is read as it stands there, unless it failed and a line is lost. -/
def Continues {Result : Type} (limits : DecoderLimits) (headers : Headers)
    (taken delivered : Bytes) (state : BodyState) (outcome : Except Error Result × BodyState) :
    Prop :=
  ∃ front, state.buf = front ++ outcome.2.buf ∧
    match outcome.1 with
    | .ok _ => outcome.2.Stands limits headers (taken ++ front) delivered
    | .error _ => outcome.2.phase ≠ .complete ∧
        (outcome.2.Stands limits headers (taken ++ front) delivered ∨
          Skipped limits headers (taken ++ front))

/-- Where a decoder stands does not depend on what is left in its buffer. -/
theorem Stands.buf {next : BodyState} (stands : state.Stands limits headers taken delivered)
    (phase : next.phase = state.phase) (body : next.bodyDecoder = state.bodyDecoder) :
    next.Stands limits headers taken delivered := by
  obtain ⟨declared, place⟩ := stands
  rw [← body] at declared
  refine ⟨declared, ?_⟩
  -- Each place speaks of the phase and the counters only, which are the same.
  cases place with
  | size there whole counted untrailed =>
    exact .size (phase.trans there) whole (by rw [body, counted]) (by rw [body, untrailed])
  | data remaining there chunks content line data whole plain parsed present same shown counted fits
      untrailed =>
    exact .data remaining (phase.trans there) chunks content line data whole plain parsed present
      same shown (by rw [body, counted]) fits (by rw [body, untrailed])
  | trailers there front lines chunked listed same read =>
    exact .trailers (phase.trans there) front lines chunked listed same (by rwa [body])
  | complete there whole => exact .complete (phase.trans there) (by rwa [body])

/-- An operation that fails and changes nothing leaves the decoder where it stood. -/
theorem Stands.kept {Result : Type} (stands : state.Stands limits headers taken delivered)
    (incomplete : state.phase ≠ .complete) (error : Error) :
    Continues limits headers taken delivered state (Except.error (α := Result) error, state) :=
  ⟨[], rfl, incomplete, .inl (by rwa [List.append_nil])⟩

/-- A trailer line is one more line of the section, or its end. -/
theorem trailerLine_continues (stands : state.Stands limits headers taken delivered)
    (phase : state.phase = .chunkedTrailer) {line rest : Bytes}
    (split : splitLine state.buf = some (line, rest)) :
    Continues limits headers taken delivered state (trailerLine limits state line rest) := by
  obtain ⟨plain, buffered⟩ := splitLine_some split
  obtain ⟨declared, place⟩ := stands
  cases place with
  | size other | complete other => rw [phase] at other; cases other
  | data _ other => rw [phase] at other; split at other <;> cases other
  | trailers _ body lines chunked listed same read =>
    rcases trailerLine_cases limits state line rest with ⟨rfl, ended⟩ | ⟨_, _, error, refused⟩ |
      ⟨present, taken, error, refused⟩ |
      ⟨present, _, text, name, value, decoded, parsed, allowed, known, accepted⟩
    · rw [ended]
      refine ⟨crlf, by simpa using buffered, declared, .complete rfl ?_⟩
      exact ⟨body, lines, chunked, listed, by rw [same], read⟩
    · rw [refused]
      exact Stands.kept ⟨declared, .trailers phase body lines chunked listed same read⟩
        (by simp [phase]) error
    · -- The line is off the buffer, and no field makes it one that may be there.
      have bad : ∀ field, ¬ IsTrailer headers line field := by
        intro field trailer
        have accepted := trailerLine_accepts present taken declared trailer rest
        rw [refused] at accepted
        cases accepted
      rw [refused]
      refine ⟨line ++ crlf, buffered, by simp [phase], .inr (.inl ?_)⟩
      exact ⟨body, lines, line, [], chunked.isChunked, listed, ⟨present, plain⟩, bad, by rw [same]; simp⟩
    · have trailer : IsTrailer headers line (name, value) := by
        refine ⟨⟨text, decoded, parsed⟩, ?_, allowed⟩
        rwa [declared, mem_collectDeclaredTrailers] at known
      rw [accepted]
      refine ⟨line ++ crlf, buffered, declared, .trailers phase body (lines ++ [line])
        chunked ?_ (by rw [same]; simp) ?_⟩
      · intro other inside
        rcases List.mem_append.mp inside with before | last
        · exact listed other before
        · rw [List.mem_singleton.mp last]
          exact ⟨present, plain⟩
      · exact List.rel_append read (.cons trailer .nil)

/-- What one operation took stays taken while another one goes on. -/
theorem Continues.trans {First Second : Type} {first : First} {middle : BodyState}
    {outcome : Except Error Second × BodyState}
    (before : Continues limits headers taken delivered state (.ok first, middle))
    (goesOn : ∀ taken, middle.Stands limits headers taken delivered →
      Continues limits headers taken delivered middle outcome) :
    Continues limits headers taken delivered state outcome := by
  obtain ⟨front, buffered, stands⟩ := before
  obtain ⟨back, more, after⟩ := goesOn _ stands
  refine ⟨front ++ back, by rw [buffered, more, List.append_assoc], ?_⟩
  rwa [← List.append_assoc]

/-- Trailer lines that are buffered are read one after the other. -/
theorem processTrailers_continues (stands : state.Stands limits headers taken delivered)
    (phase : state.phase = .chunkedTrailer) :
    Continues limits headers taken delivered state (processTrailers limits state) := by
  -- Each pass of the loop reads one line, until there is none or one is refused.
  refine (trailersLoop limits).run_rule
    (motive := fun start result => ∀ taken, start.2.Stands limits headers taken delivered →
      start.2.phase = .chunkedTrailer → Continues limits headers taken delivered start.2 result)
    ?_ ?_ (false, state) taken stands phase
  · rintro ⟨advanced, state⟩ result pass taken stands phase
    change state.phase = .chunkedTrailer at phase
    change trailersPass limits advanced state = .inr result at pass
    unfold trailersPass at pass
    rw [if_pos phase] at pass
    cases split : splitLine state.buf with
    | none =>
      simp only [split, Sum.inr.injEq] at pass
      subst pass
      exact ⟨[], rfl, by rwa [List.append_nil]⟩
    | some pair =>
      obtain ⟨line, rest⟩ := pair
      have continues := trailerLine_continues stands phase split
      simp only [split] at pass
      rcases read : trailerLine limits state line rest with ⟨error | _, next⟩ <;>
        rw [read] at continues <;> simp only [read] at pass
      · simp only [Sum.inr.injEq] at pass
        subst pass
        exact continues
      · split at pass <;> cases pass
        exact continues
  · rintro ⟨advanced, state⟩ ⟨nextAdvanced, next⟩ result pass ih taken stands phase
    change state.phase = .chunkedTrailer at phase
    change trailersPass limits advanced state = .inl (nextAdvanced, next) at pass
    unfold trailersPass at pass
    rw [if_pos phase] at pass
    cases split : splitLine state.buf with
    | none => simp [split] at pass
    | some pair =>
      obtain ⟨line, rest⟩ := pair
      have continues := trailerLine_continues stands phase split
      simp only [split] at pass
      rcases read : trailerLine limits state line rest with ⟨error | _, after⟩ <;>
        rw [read] at continues <;> simp only [read] at pass
      · cases pass
      · split at pass
        · cases pass
        · rename_i incomplete
          cases pass
          have more := (trailerLine_ok read).2.resolve_left incomplete
          exact continues.trans fun taken stands => ih taken stands (more.trans phase)

/-- A size line starts a chunk, or the trailer section behind the last one. -/
theorem chunkSizeLine_continues (stands : state.Stands limits headers taken delivered)
    (phase : state.phase = .bodyChunkedSize) {line rest : Bytes}
    (split : splitLine state.buf = some (line, rest)) :
    Continues limits headers taken delivered state (chunkSizeLine limits state line rest) := by
  obtain ⟨plain, buffered⟩ := splitLine_some split
  obtain ⟨declared, place⟩ := stands
  cases place with
  | trailers other | complete other => rw [phase] at other; cases other
  | data _ other => rw [phase] at other; split at other <;> cases other
  | size _ whole counted untrailed =>
    rcases chunkSizeLine_cases limits state line rest with ⟨error, _, read⟩ | ⟨parsed, read⟩ |
      ⟨size, parsed, positive, fits, _, read⟩ | ⟨size, _, parsed, _, large, read⟩
    · rw [read]
      exact Stands.kept ⟨declared, .size phase whole counted untrailed⟩
        (by simp [phase]) error
    · rw [read]
      refine ⟨line ++ crlf, buffered, declared, .trailers rfl (taken ++ (line ++ crlf)) []
        ⟨taken, line, whole, plain, parsed, rfl⟩ (by simp) (by simp) ?_⟩
      change List.Forall₂ (IsTrailer headers) [] state.bodyDecoder.trailers
      rw [untrailed]
      exact .nil
    · rw [read]
      rw [counted] at fits
      refine ⟨line ++ crlf, buffered, declared, .data size
        (by rw [if_neg (by omega)]) taken delivered line [] whole plain (by simpa using parsed)
        (by simpa using positive) (by simp) (by simp) (by simpa using counted)
        (by simpa using fits) untrailed⟩
    · -- The body has no room for the chunk, whose size line is off the buffer.
      rw [read]
      rw [counted] at large
      refine ⟨line ++ crlf, buffered, by simp [phase], .inr (.inr ?_)⟩
      exact ⟨taken, delivered, line, size, [], whole, plain, parsed, large, by simp⟩

/-- A size line that is buffered is read, and the trailers behind the last one. -/
theorem processChunkedSize_continues (stands : state.Stands limits headers taken delivered)
    (phase : state.phase = .bodyChunkedSize) :
    Continues limits headers taken delivered state (processChunkedSize limits state) := by
  unfold processChunkedSize
  rw [if_neg (not_not_intro phase)]
  -- Without a whole line nothing is taken.
  cases split : splitLine state.buf with
  | none => exact ⟨[], rfl, by rwa [List.append_nil]⟩
  | some pair =>
    obtain ⟨line, rest⟩ := pair
    have continues := chunkSizeLine_continues stands phase split
    dsimp only
    rcases read : chunkSizeLine limits state line rest with ⟨error | _, next⟩ <;>
      rw [read] at continues
    · exact continues
    · dsimp only
      -- The last size line goes on to the trailers, with what they take behind what it took.
      by_cases last : next.phase = .chunkedTrailer
      · rw [if_pos last]
        have trailed := continues.trans fun taken stands =>
          processTrailers_continues stands last
        rcases processed : processTrailers limits next with ⟨error | _, after⟩ <;>
        · rw [processed] at trailed
          exact trailed
      · rw [if_neg last]
        exact continues

/-- The line end after the data of a chunk makes the chunk a whole one. -/
theorem chunkDataCrlf_continues (stands : state.Stands limits headers taken delivered)
    (phase : state.phase = .bodyChunkedDataCrlf) :
    Continues limits headers taken delivered state (chunkDataCrlf state) := by
  -- The two bytes are missing, wrong or taken.
  rcases chunkDataCrlf_cases state with ⟨_, read⟩ | ⟨error, read⟩ | ⟨rest, buffered, read⟩
  · rw [read]
    exact ⟨[], rfl, by rwa [List.append_nil]⟩
  · rw [read]
    exact stands.kept (by simp [phase]) error
  · rw [read]
    obtain ⟨declared, place⟩ := stands
    cases place with
    -- The data of a chunk is the only place in front of its line end.
    | size other | trailers other | complete other => rw [phase] at other; cases other
    | data remaining other chunks content line data whole plain parsed present same shown counted _
        untrailed =>
      rw [phase] at other
      -- The line end is read only once all data of the chunk has been.
      by_cases more : remaining ≠ 0
      · rw [if_neg more] at other
        cases other
      rw [not_ne_iff] at more
      subst more
      -- The chunk is a whole one, as its size was not zero.
      have filled : data ≠ [] := List.ne_nil_of_length_pos (by simpa using present)
      refine ⟨crlf, buffered, declared, .size rfl ?_ ?_ untrailed⟩
      · rw [same, shown]
        exact whole.append plain parsed filled
      · rw [shown, List.length_append]
        exact counted

/-- Data of a chunk that is consumed is data of the chunk. -/
theorem afterContent_stands (stands : state.Stands limits headers taken delivered) {remaining len : Nat}
    (phase : state.phase = .bodyChunkedData remaining) (enough : len ≤ remaining)
    (buffered : len ≤ state.buf.length) :
    (state.afterContent len
      (if remaining - len = 0 then .bodyChunkedDataCrlf else .bodyChunkedData (remaining - len))).Stands
        limits headers (taken ++ state.buf.take len) (delivered ++ state.buf.take len) := by
  obtain ⟨declared, place⟩ := stands
  cases place with
  -- Only within a chunk is data consumed.
  | size other | trailers other | complete other => rw [phase] at other; cases other
  | data left other chunks content line data whole plain parsed present same shown counted fits
      untrailed =>
    rw [phase] at other
    split at other
    · cases other
    cases other
    have total : (data ++ state.buf.take len).length = data.length + len := by
      rw [List.length_append, List.length_take, Nat.min_eq_left buffered]
    refine ⟨declared, .data (remaining - len) rfl chunks content line
      -- The size counts what came before, these bytes and what is left.
      (data ++ state.buf.take len) whole plain ?_ ?_ ?_ ?_ ?_ ?_ untrailed⟩
    · rw [parsed, total, Nat.add_assoc, Nat.add_sub_cancel' enough]
    · omega
    · rw [same, List.append_assoc _ data]
    · rw [shown, List.append_assoc]
    · rw [total, ← Nat.add_assoc, ← counted]
      rfl
    · rw [total]
      omega

/-- What a call on the body did with a message in chunks that was not complete before. -/
def Delivered (limits : DecoderLimits) (headers : Headers) (taken delivered : Bytes)
    (state : BodyState) (outcome : Except Error BodyProgress × BodyState) : Prop :=
  ∃ front, state.buf = front ++ outcome.2.buf ∧
    match outcome.1 with
    | .ok (.complete trailers) => outcome.2.phase = .complete ∧
        outcome.2.bodyDecoder.trailers = [] ∧
        WholeOf limits headers (taken ++ front) delivered trailers
    | .ok _ => outcome.2.phase ≠ .complete ∧
        outcome.2.Stands limits headers (taken ++ front) delivered
    | .error _ => outcome.2.phase ≠ .complete ∧
        ((∃ shown, outcome.2.Stands limits headers (taken ++ front) shown) ∨
          Skipped limits headers (taken ++ front))

/-- A decoder that stands behind a whole message hands over its trailers. -/
theorem Stands.handOver {next : BodyState} {front : Bytes} (buffered : state.buf = front ++ next.buf)
    (stands : next.Stands limits headers (taken ++ front) delivered) (phase : next.phase = .complete) :
    Delivered limits headers taken delivered state (takeTrailers next) := by
  refine ⟨front, buffered, phase, rfl, ?_⟩
  cases stands.place with
  | complete _ whole => exact whole
  | size other | trailers other => rw [phase] at other; cases other
  | data _ other => rw [phase] at other; split at other <;> cases other

/-- What an operation took before it failed, for the call that made it. -/
theorem Continues.failed {Result : Type} {error : Error} {next : BodyState} {shown : Bytes}
    (continues : Continues limits headers taken delivered state
      ((Except.error error : Except Error Result), next)) :
    Delivered limits headers taken shown state (.error error, next) := by
  obtain ⟨front, buffered, incomplete, rest⟩ := continues
  exact ⟨front, buffered, incomplete, rest.imp (fun stands => ⟨delivered, stands⟩) id⟩

/-- The line end of a chunk delivers no trailers. -/
theorem chunkDataCrlf_delivered {middle : BodyState} {front : Bytes}
    (buffered : state.buf = front ++ middle.buf)
    (stands : middle.Stands limits headers (taken ++ front) delivered)
    (phase : middle.phase = .bodyChunkedDataCrlf) :
    Delivered limits headers taken delivered state (chunkDataCrlf middle) := by
  obtain ⟨back, more, after⟩ := chunkDataCrlf_continues stands phase
  refine ⟨front ++ back, by rw [buffered, more, List.append_assoc], ?_⟩
  rw [← List.append_assoc]
  -- In no case is the body complete behind the line end.
  rcases chunkDataCrlf_cases middle with ⟨_, read⟩ | ⟨error, read⟩ | ⟨rest, _, read⟩ <;>
    rw [read] at after ⊢
  · exact ⟨by simp [phase], after⟩
  · exact ⟨after.1, after.2.imp (fun stands => ⟨_, stands⟩) id⟩
  · exact ⟨by simp, after⟩

/-- A call on the body goes on with the message in chunks that the decoder stands in. -/
theorem consumeBody_delivered (stands : state.Stands limits headers taken delivered)
    (incomplete : state.phase ≠ .complete) (len : Nat) :
    Delivered limits headers taken (delivered ++ state.offered len) state
      (consumeBody limits len state) := by
  -- The place in the message decides what a call can do.
  cases place : stands.place with
  | complete phase => exact absurd phase incomplete
  | size phase =>
    have nothing : delivered ++ state.offered len = delivered := by simp [offered, peekBody, phase]
    -- No bytes are shown in front of a size line.
    have continues := processChunkedSize_continues stands phase
    simp only [consumeBody, phase, nothing]
    rcases processed : processChunkedSize limits state with ⟨error | _, next⟩ <;>
      rw [processed] at continues
    · exact continues.failed
    · obtain ⟨front, buffered, after⟩ := continues
      dsimp only at buffered after ⊢
      split
      · rename_i complete
        exact Stands.handOver buffered after complete
      · rename_i same
        exact ⟨front, buffered, by simp [same], after⟩
      · rename_i more _
        exact ⟨front, buffered, more, after⟩
  | trailers phase =>
    have nothing : delivered ++ state.offered len = delivered := by simp [offered, peekBody, phase]
    -- Neither are any among the trailers.
    have continues := processTrailers_continues stands phase
    simp only [consumeBody, phase, nothing]
    rcases processed : processTrailers limits state with ⟨error | advanced, next⟩ <;>
      rw [processed] at continues
    · exact continues.failed
    · obtain ⟨front, buffered, after⟩ := continues
      dsimp only at buffered after ⊢
      by_cases complete : next.phase = .complete
      · rw [if_pos complete]
        exact Stands.handOver buffered after complete
      · rw [if_neg complete]
        cases advanced <;> exact ⟨front, buffered, complete, after⟩
  | data remaining phase chunks content line data whole plain parsed present same _ counted fits =>
    -- Behind the last byte of a chunk only its line end is awaited.
    by_cases more : remaining = 0
    · rw [if_pos more] at phase
      have nothing : delivered ++ state.offered len = delivered := by simp [offered, peekBody, phase]
      simp only [consumeBody, phase, nothing]
      exact chunkDataCrlf_delivered rfl (by rwa [List.append_nil]) phase
    · rw [if_neg more] at phase
      have refused : ∀ error : Error, Delivered limits headers taken
          (delivered ++ state.offered len) state (.error error, state) := fun error =>
        (stands.kept incomplete error : Continues limits headers taken delivered state
          ((Except.error error : Except Error BodyProgress), state)).failed
      simp only [consumeBody, phase]
      -- More bytes than the chunk has, or than are buffered, are refused.
      by_cases enough : remaining < len
      · rw [if_pos enough]
        exact refused _
      rw [if_neg enough]
      by_cases buffered : state.buf.length < len
      · rw [if_pos buffered]
        exact refused _
      rw [if_neg buffered]
      by_cases empty : len = 0
      · rw [if_pos empty]
        exact ⟨[], rfl, incomplete, by simpa [offered, empty] using stands⟩
      rw [if_neg empty]
      have sum : checkedAdd state.bodyDecoder.bodyConsumed len =
          some (state.bodyDecoder.bodyConsumed + len) := by
        rw [checkedAdd, if_pos (by omega)]
      -- What is consumed was shown before.
      have seen : state.offered len = state.buf.take len := by
        have available : (state.buf.take remaining).isEmpty = false := by
          rw [List.isEmpty_eq_false_iff]
          exact List.ne_nil_of_length_pos (by rw [List.length_take]; omega)
        rw [offered, peekBody, phase]
        simp only [available, Bool.false_eq_true, if_false, Option.getD_some, List.take_take]
        rw [Nat.min_eq_left (by omega)]
      have after := afterContent_stands stands phase (show len ≤ remaining by omega) (by omega)
      have split : state.buf = state.buf.take len ++ state.buf.drop len :=
        (List.take_append_drop len state.buf).symm
      rw [seen]
      simp only [addConsumed, sum]
      by_cases last : remaining - len = 0
      · rw [if_pos last] at after ⊢
        exact chunkDataCrlf_delivered split after rfl
      · rw [if_neg last] at after ⊢
        exact ⟨_, split, by simp, after⟩

end BodyState

end Http11

import Mathlib.Algebra.Order.BigOperators.Group.List
import Http11.Proofs.Decoder.Accepted
import Http11.Proofs.Decoder.FieldLine
import Http11.Proofs.Session

/-! What a reader hands out has passed its checks, and weighs no more than what it was fed. -/

namespace Http11

open Decoder

/-- The bytes of the names and the values of fields. -/
def fieldsWeight (fields : Headers) : Nat :=
  (fields.map fun field => byteLength field.1 + byteLength field.2).sum

/-- The fields of two lists weigh as much as both. -/
@[simp] theorem fieldsWeight_append (fields more : Headers) :
    fieldsWeight (fields ++ more) = fieldsWeight fields + fieldsWeight more := by
  simp [fieldsWeight]

/-- No fields weigh nothing. -/
@[simp] theorem fieldsWeight_nil : fieldsWeight [] = 0 := rfl

/-- One field weighs as much as its name and its value. -/
@[simp] theorem fieldsWeight_singleton (field : Str × Str) :
    fieldsWeight [field] = byteLength field.1 + byteLength field.2 := by
  simp [fieldsWeight]

/-- Trimming makes no text longer. -/
theorem byteLength_trimOws (text : Str) : byteLength (trimOws text) ≤ byteLength text := by
  -- It drops a part in front and a part at the end.
  obtain ⟨front, whole⟩ := List.dropWhile_suffix (l := text) isOws
  obtain ⟨back, kept⟩ := List.rdropWhile_prefix isOws (text.dropWhile isOws)
  rw [trimOws, ← whole, ← kept, byteLength_append, byteLength_append]
  simp only [whole, kept]
  omega

/-- The text of a line is as long as the line. -/
theorem byteLength_lineText {line : Bytes} {text : Str} (decoded : lineText line = .ok text) :
    byteLength text = line.length := by
  unfold lineText at decoded
  split at decoded <;> cases decoded
  rename_i read
  rw [byteLength, Utf8.decode_iff.mp read]

/-- A field weighs no more than the line it was read from. -/
theorem fieldsWeight_line {text : Str} {field : Str × Str}
    (parsed : parseHeaderLine text = .ok field) :
    byteLength field.1 + byteLength field.2 ≤ byteLength text := by
  obtain ⟨name, value⟩ := field
  obtain ⟨content, rfl, rfl, _, _⟩ := parseHeaderLine_split parsed
  -- The value is trimmed, and the colon is not kept.
  have trimmed := byteLength_trimOws content
  have colon : byteLength (':' :: content) = 1 + byteLength content := by
    have single : String.utf8EncodeChar ':' = [58] := by decide
    simp [byteLength, single]
    omega
  rw [byteLength_append, colon]
  dsimp only
  omega

section Weights

variable {Head Context : Type}

/-- A measure of heads that counts no more than the lines that a head was made of. -/
def Side.Weighs (side : Side Head Context) (weigh : Head → Nat) : Prop :=
  ∀ limits context startLine headers head bodyKind,
    side.finishHead limits context startLine headers = .ok (head, bodyKind) →
      weigh head ≤ byteLength startLine + fieldsWeight headers

/-- The bytes of a message: its head, its body and its trailers. -/
def Message.weight (weigh : Head → Nat) (message : Message Head) : Nat :=
  weigh message.head + message.body.length + fieldsWeight message.trailers

namespace Reader

/-- The bytes of everything that a reader holds. -/
def weight (weigh : Head → Nat) (reader : Reader Head Context) : Nat :=
  reader.core.buf.length + (reader.core.startLine.map byteLength).getD 0 +
    fieldsWeight reader.core.headers + (reader.current.map fun decoded => weigh decoded.1).getD 0 +
    reader.body.length + fieldsWeight reader.core.bodyDecoder.trailers +
    (reader.done.map (Message.weight weigh)).sum

variable {side : Side Head Context} {weigh : Head → Nat} {reader next : Reader Head Context}
  {limit : Option Nat}

/-- What arrives adds its length. -/
theorem weight_feed (reader : Reader Head Context) (input : Bytes) :
    (reader.feed input).weight weigh = reader.weight weigh + input.length := by
  simp only [weight, feed, List.length_append]
  omega

/-- A line of a head weighs no less than what is remembered of it. -/
theorem weight_headLine (weighs : side.Weighs weigh) {line rest : Bytes}
    (split : splitLine reader.core.buf = some (line, rest)) :
    (reader.afterHead (reader.core.headLine side line rest)).weight weigh ≤
      reader.weight weigh := by
  have lengths := splitLine_length split
  -- The line is refused, or it starts the head, ends it or adds a field.
  rcases Core.headLine_cases side reader.core line rest with ⟨_, _, took⟩ | ⟨_, _, took⟩ |
    ⟨_, result, core, took⟩ <;> rw [took]
  · simp only [weight, afterHead, Option.map_none, Option.getD_none]
    omega
  · simp only [weight, afterHead, Option.map_none, Option.getD_none]
    omega
  · rcases Core.headLine_ok took with ⟨_, rfl, started⟩ | ⟨_, rfl, head, bodyKind, rfl, finished⟩ |
      ⟨_, _, rfl, listed⟩
    · -- The start line is remembered as it was.
      obtain ⟨text, decoded, _, rfl⟩ := Core.readStartLine_ok started
      have same := byteLength_lineText decoded
      simp only [weight, afterHead, Option.map_none, Option.getD_none, Option.map_some,
        Option.getD_some]
      omega
    · -- The head that is made weighs no more than the start line and the fields.
      obtain ⟨startLine, remembered, made, rfl⟩ := Core.finishHeaders_ok finished
      have bounded := weighs _ _ _ _ _ _ made
      simp only [weight, afterHead, remembered, Option.map_none, Option.getD_none, Option.map_some,
        Option.getD_some, fieldsWeight_nil]
      omega
    · -- The field weighs no more than its line.
      obtain ⟨text, field, decoded, parsed, _, _, rfl⟩ := Core.readHeaderLine_ok listed
      have same := byteLength_lineText decoded
      have bounded := fieldsWeight_line parsed
      simp only [weight, afterHead, Option.map_none, Option.getD_none, fieldsWeight_append,
        fieldsWeight_singleton]
      omega

/-- A change of the body state weighs no more, unless it makes the trailers heavier. -/
theorem weight_afterBody {Result : Type} {outcome : Except Error Result × BodyState}
    (lighter : outcome.2.buf.length + fieldsWeight outcome.2.bodyDecoder.trailers ≤
      reader.core.buf.length + fieldsWeight reader.core.bodyDecoder.trailers) :
    (reader.afterBody outcome).weight weigh ≤ reader.weight weigh := by
  simp only [weight, afterBody]
  omega

/-- A byte that is read moves from the buffer to the body. -/
theorem weight_afterByte {byte : UInt8} {rest : Bytes} (phase : DecodePhase)
    (buffered : reader.core.buf = byte :: rest) :
    (reader.afterByte byte rest phase).weight weigh = reader.weight weigh := by
  simp only [weight, afterByte, buffered, List.length_cons, List.length_append, List.length_nil]
  omega

/-- A message that counts as read weighs what was held of it. -/
theorem weight_push : (reader.push side).weight weigh ≤ reader.weight weigh := by
  unfold push
  -- Without a head nothing is handed over, and otherwise all that was held is.
  cases current : reader.current with
  | none =>
    simp only [weight, current, Core.nextMessage, Option.map_none, Option.getD_none,
      fieldsWeight_nil, List.length_nil]
    omega
  | some decoded =>
    simp only [weight, current, Core.nextMessage, Option.map_none, Option.getD_none, Option.map_some,
      Option.getD_some, fieldsWeight_nil, List.length_nil, List.map_append, List.sum_append,
      List.map_cons, List.map_nil, List.sum_cons, List.sum_nil, Message.weight]
    omega

/-- No step of a reader makes it heavier. -/
theorem step_weight (weighs : side.Weighs weigh) (stepped : reader.step side limit = some next) :
    next.weight weigh ≤ reader.weight weigh := by
  unfold step at stepped
  -- The step depends on the phase: lines of a head, bytes, lines of a body, and its end.
  split at stepped
  · cases stepped
  · simp only [Option.map_eq_some_iff] at stepped
    obtain ⟨_, split, rfl⟩ := stepped
    exact weight_headLine weighs split
  · simp only [Option.map_eq_some_iff] at stepped
    obtain ⟨_, split, rfl⟩ := stepped
    exact weight_headLine weighs split
  · split at stepped <;> cases stepped
    exact (weight_afterByte _ (by assumption)).le
  · simp only [Option.map_eq_some_iff] at stepped
    obtain ⟨⟨line, rest⟩, split, rfl⟩ := stepped
    have lengths := splitLine_length split
    refine weight_afterBody ?_
    rcases BodyState.chunkSizeLine_cases reader.core.limits reader.core.toBodyState line rest with
      ⟨_, _, same⟩ | ⟨_, same⟩ | ⟨_, _, _, _, _, same⟩ | ⟨_, _, _, _, _, same⟩ <;> rw [same]
    -- A line that was taken makes the buffer lighter by more than nothing.
    all_goals
      dsimp only
      omega
  · split at stepped <;> cases stepped
    exact (weight_afterByte _ (by assumption)).le
  · split at stepped <;> cases stepped
    refine weight_afterBody ?_
    -- Only the right line end is taken.
    rcases BodyState.chunkDataCrlf_cases reader.core.toBodyState with
      ⟨_, same⟩ | ⟨_, same⟩ | ⟨rest, buffered, same⟩ <;> rw [same]
    rw [buffered]
    simp
  · simp only [Option.map_eq_some_iff] at stepped
    obtain ⟨⟨line, rest⟩, split, rfl⟩ := stepped
    have lengths := splitLine_length split
    refine weight_afterBody ?_
    rcases BodyState.trailerLine_cases reader.core.limits reader.core.toBodyState line rest with
      ⟨_, same⟩ | ⟨_, _, _, same⟩ | ⟨_, _, _, same⟩ |
      ⟨_, _, text, name, value, decoded, parsed, _, _, same⟩ <;> rw [same]
    · -- The empty line leaves no field.
      dsimp only
      omega
    · dsimp only
      omega
    · -- A trailer field weighs no more than its line.
      have long := byteLength_lineText decoded
      have bounded := fieldsWeight_line parsed
      simp only [fieldsWeight_append, fieldsWeight_singleton] at bounded ⊢
      omega
  · cases stepped
    exact weight_push
  · cases stepped
  · cases stepped

/-- The messages that a reader comes to weigh no more than what it held. -/
theorem reaches_weight (weighs : side.Weighs weigh) (reached : (machine side limit).Reaches reader next) :
    next.weight weigh ≤ reader.weight weigh :=
  reached.preserves (motive := fun next => next.weight weigh ≤ reader.weight weigh)
    (fun _ _ before stepped => (step_weight weighs stepped).trans before) le_rfl

end Reader

/-- Every message and every head that a reader holds was made of checked lines. -/
structure Reader.Checked (side : Side Head Context) (reader : Reader Head Context) : Prop where
  /-- The lines of a head have passed their checks. -/
  parsed : reader.core.Parsed side
  /-- The head of the message that is being read was made of such lines. -/
  current : ∀ decoded, reader.current = some decoded → Core.Made side decoded
  /-- The heads of the messages before it were. -/
  done : ∀ message ∈ reader.done, Core.Made side (message.head, message.bodyKind)

namespace Reader

variable {side : Side Head Context} {reader next : Reader Head Context} {limit : Option Nat}

/-- A line of a head keeps what was checked, and checks the head that it ends. -/
theorem checked_headLine (checked : reader.Checked side) (line rest : Bytes) :
    (reader.afterHead (reader.core.headLine side line rest)).Checked side where
  parsed := Core.headLine_parsed checked.parsed line rest
  current := by
    intro decoded current
    rcases took : reader.core.headLine side line rest with ⟨_ | result, core⟩ <;>
      simp only [afterHead, took] at current
    · cases current
    · subst current
      -- Only the end of a head makes one.
      rcases Core.headLine_ok took with ⟨_, other, _⟩ | ⟨_, _, head, bodyKind, same, finished⟩ |
        ⟨_, _, other, _⟩
      · cases other
      · cases same
        obtain ⟨startLine, remembered, made, _⟩ := Core.finishHeaders_ok finished
        exact ⟨_, _, startLine, _, ⟨checked.parsed.started startLine remembered,
          checked.parsed.listed⟩, made⟩
      · cases other
  done := checked.done

/-- Every step keeps what was checked. -/
theorem step_checked (checked : reader.Checked side) (stepped : reader.step side limit = some next) :
    next.Checked side := by
  -- Only lines of heads and ends of messages matter.
  have same : ∀ {other : Reader Head Context}, other.core.startLine = reader.core.startLine →
      other.core.headers = reader.core.headers → other.current = reader.current →
      other.done = reader.done → other.Checked side := by
    intro other startLine headers current done
    exact ⟨⟨by rw [startLine]; exact checked.parsed.started,
      by rw [headers]; exact checked.parsed.listed⟩, by rw [current]; exact checked.current,
      by rw [done]; exact checked.done⟩
  unfold step at stepped
  split at stepped
  · cases stepped
  · simp only [Option.map_eq_some_iff] at stepped
    obtain ⟨_, _, rfl⟩ := stepped
    exact checked_headLine checked _ _
  · simp only [Option.map_eq_some_iff] at stepped
    obtain ⟨_, _, rfl⟩ := stepped
    exact checked_headLine checked _ _
  · split at stepped <;> cases stepped
    exact same rfl rfl rfl rfl
  · simp only [Option.map_eq_some_iff] at stepped
    obtain ⟨_, _, rfl⟩ := stepped
    exact same rfl rfl rfl rfl
  · split at stepped <;> cases stepped
    exact same rfl rfl rfl rfl
  · split at stepped <;> cases stepped
    exact same rfl rfl rfl rfl
  · simp only [Option.map_eq_some_iff] at stepped
    obtain ⟨_, _, rfl⟩ := stepped
    exact same rfl rfl rfl rfl
  · cases stepped
    refine ⟨Core.parsed_fresh rfl rfl, by simp [push], fun message inside => ?_⟩
    cases current : reader.current with
    | none =>
      simp only [push, current] at inside
      exact checked.done message inside
    | some decoded =>
      simp only [push, current, List.mem_append, List.mem_singleton] at inside
      rcases inside with before | rfl
      · exact checked.done message before
      · exact checked.current decoded current
  · cases stepped
  · cases stepped

/-- Every run keeps what was checked. -/
theorem reaches_checked (reached : (machine side limit).Reaches reader next)
    (checked : reader.Checked side) : next.Checked side :=
  reached.preserves (fun _ _ before stepped => step_checked before stepped) checked

end Reader

end Weights

/-- The parts of a text between separators weigh no more than the text. -/
theorem byteLength_splitn (count : Nat) (separator : Char) (text : Str) :
    ((splitn count separator text).map byteLength).sum ≤ byteLength text := by
  -- Each part ends at a separator, which itself is not counted.
  induction count generalizing text with
  | zero => simp [splitn]
  | succ count ih =>
    cases count with
    | zero => simp [splitn]
    | succ count =>
      rw [splitn]
      cases split : splitOnce separator text with
      | none => simp
      | some parts =>
        obtain ⟨front, back⟩ := parts
        obtain ⟨rfl, _⟩ := splitOnce_some split
        have onward := ih back
        have behind : byteLength back ≤ byteLength (separator :: back) := by
          rw [show separator :: back = [separator] ++ back from rfl, byteLength_append]
          omega
        simp only [List.map_cons, List.sum_cons, byteLength_append]
        omega

/-- The first three parts weigh no more than all of them. -/
theorem byteLength_three (parts : List Str) :
    byteLength (parts[0]?.getD []) + byteLength (parts[1]?.getD []) +
      byteLength (parts[2]?.getD []) ≤ (parts.map byteLength).sum := by
  have nothing : byteLength [] = 0 := rfl
  -- A missing part weighs nothing.
  match parts with
  | [] => simp [nothing]
  | [first] => simp [nothing]
  | [first, second] => simp [nothing]
  | first :: second :: third :: rest =>
    simp only [List.getElem?_cons_zero, List.getElem?_cons_succ, Option.getD_some, List.map_cons,
      List.sum_cons]
    omega

/-- The bytes of the head of a request. -/
def RequestHead.weight (head : RequestHead) : Nat :=
  byteLength head.method + byteLength head.uri + byteLength head.version +
    fieldsWeight head.headers

/-- The bytes of the head of a response, without its status. -/
def ResponseHead.weight (head : ResponseHead) : Nat :=
  byteLength head.version + byteLength head.reasonPhrase + fieldsWeight head.headers

/-- The head of a request weighs no more than its lines. -/
theorem RequestDecoder.side_weighs : RequestDecoder.side.Weighs RequestHead.weight := by
  intro limits context startLine headers head bodyKind finished
  obtain ⟨_, _, rfl⟩ := RequestDecoder.finishHead_ok finished
  have parts := byteLength_three (splitn 3 ' ' startLine)
  have whole := byteLength_splitn 3 ' ' startLine
  simp only [RequestHead.weight]
  omega

/-- Fields that are left out weigh nothing. -/
theorem fieldsWeight_filter (kept : Str × Str → Bool) (fields : Headers) :
    fieldsWeight (fields.filter kept) ≤ fieldsWeight fields :=
  List.Sublist.sum_le_sum (List.Sublist.map _ List.filter_sublist) fun _ _ => Nat.zero_le _

/-- The head of a response weighs no more than its lines. -/
theorem ResponseDecoder.side_weighs : ResponseDecoder.side.Weighs ResponseHead.weight := by
  intro limits context startLine headers head bodyKind finished
  obtain ⟨statusCode, kept, _, determined, rfl⟩ := ResponseDecoder.finishHead_ok finished
  have parts := byteLength_three (splitn 3 ' ' startLine)
  have whole := byteLength_splitn 3 ' ' startLine
  have fewer : fieldsWeight kept ≤ fieldsWeight headers := by
    -- Fields are kept or left out, never added.
    rcases ResponseDecoder.determineBodyKind_ok determined with
      ⟨_, _, rfl⟩ | ⟨_, _, _, _, _, _, rfl⟩ | ⟨_, _, _, _, rfl, _⟩
    · exact le_rfl
    · exact fieldsWeight_filter _ _
    · exact le_rfl
  simp only [ResponseHead.weight]
  omega

/-- The bytes of a request. -/
def Request.weight (request : Request) : Nat :=
  byteLength request.method + byteLength request.uri + byteLength request.version +
    fieldsWeight request.headers + (request.body.getD []).length

/-- A request has no more than its message. -/
theorem Message.weight_request (message : Message RequestHead) :
    message.request.weight ≤ message.weight RequestHead.weight := by
  have content : (message.content.getD []).length ≤ message.body.length := by
    unfold Message.content
    split <;> simp
  simp only [Request.weight, Message.request, Request.fromRawParts, Message.weight,
    RequestHead.weight]
  omega

namespace StreamRun

variable {Head Context : Type}

/-- The messages of a streamed run weigh no more than what was fed. -/
theorem across_weight {side : Side Head Context} {weigh : Head → Nat} (lawful : side.Lawful)
    (weighs : side.Weighs weigh) (pick : Nat → Nat) (limit : Option Nat)
    (limits : DecoderLimits) (context : Context) (fragments : List Bytes) :
    ((across side pick limit { limits, context } fragments).messages.map
      (Message.weight weigh)).sum ≤ fragments.flatten.length := by
  have proper : (({ limits, context } : Decoder Head Context).view []).Proper side :=
    view_fresh _ rfl rfl rfl rfl rfl rfl
  obtain ⟨reader, traces, reached, _⟩ :=
    across_traces pick limit lawful proper rfl rfl rfl rfl fragments
  have bounded := Reader.reaches_weight weighs reached
  rw [Reader.weight_feed] at bounded
  have fresh : (({ limits, context } : Decoder Head Context).view []).weight weigh = 0 := rfl
  have messages : (across side pick limit { limits, context } fragments).messages = reader.done := by
    -- Followed or in a body up to the close, the messages are those the reader has read.
    rcases traces with follows | lasting
    · exact follows.messages
    · exact lasting.messages
  rw [messages]
  unfold Reader.weight at bounded fresh
  omega

end StreamRun

/--
Nothing is amplified, whatever arrives and however it is cut.

The requests that are decoded whole, and the messages of either kind that are streamed with their
trailers, have together no more bytes in their heads, bodies and trailers than were fed.
-/
theorem unamplified (limits : DecoderLimits) (pick : Nat → Nat) (limit : Option Nat)
    (requestMethod : Option Str) (fragments : List Bytes) :
    ((DecodeRun.across limits fragments).requests.map Request.weight).sum ≤
        fragments.flatten.length ∧
      ((StreamRun.across RequestDecoder.side pick limit { limits, context := () }
        fragments).messages.map (Message.weight RequestHead.weight)).sum ≤
        fragments.flatten.length ∧
      ((StreamRun.across ResponseDecoder.side pick limit { limits, context := requestMethod }
        fragments).messages.map (Message.weight ResponseHead.weight)).sum ≤
        fragments.flatten.length := by
  refine ⟨?_, StreamRun.across_weight RequestDecoder.side_lawful RequestDecoder.side_weighs _ _ _ _ _,
    StreamRun.across_weight ResponseDecoder.side_lawful ResponseDecoder.side_weighs _ _ _ _ _⟩
  obtain ⟨reader, follows, reached, _⟩ := DecodeRun.across_follows limits fragments
  have bounded := Reader.reaches_weight RequestDecoder.side_weighs reached
  rw [Reader.weight_feed] at bounded
  have fresh : ((DecodeRun.start limits).decoder.view []).weight RequestHead.weight = 0 := rfl
  have each : ((reader.done.map Message.request).map Request.weight).sum ≤
      (reader.done.map (Message.weight RequestHead.weight)).sum := by
    rw [List.map_map]
    exact List.sum_le_sum fun message _ => message.weight_request
  rw [follows.requests]
  unfold Reader.weight at bounded fresh
  omega

end Http11

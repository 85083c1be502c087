import Http11.Proofs.Decoder.Elements
import Http11.Proofs.Decoder.FieldLine
import Http11.Proofs.Decoder.HeadLines
import Http11.Proofs.Head

/-! Combining field lines keeps the framing of a head, and what is told of it. -/

namespace Http11

/-- A line reads as one field only. -/
theorem ReadsAs.unique {line : Bytes} {field other : Str × Str} (reads : ReadsAs line field)
    (same : ReadsAs line other) : field = other := by
  obtain ⟨text, decoded, parsed⟩ := reads
  obtain ⟨again, decodedAgain, parsedAgain⟩ := same
  rw [decoded] at decodedAgain
  cases decodedAgain
  rw [parsed] at parsedAgain
  exact Except.ok.inj parsedAgain

/-- A letter is a token character in either case, and others have one case only. -/
theorem encodeChar_toLower_isTokenChar (char : Char) :
    (String.utf8EncodeChar char.toLower).all isTokenChar =
      (String.utf8EncodeChar char).all isTokenChar := by
  -- Only ASCII letters have a lower case here, so all others are themselves.
  by_cases ascii : char.toNat < 0x80
  · have each : ∀ code : Fin 0x80,
        (String.utf8EncodeChar (Char.ofNat code).toLower).all isTokenChar =
          (String.utf8EncodeChar (Char.ofNat code)).all isTokenChar := by
      decide +kernel
    simpa using each ⟨char.toNat, ascii⟩
  · have same : char.toLower = char := by
      unfold Char.toLower
      refine dif_neg fun upper => ascii ?_
      simp only [ge_iff_le, UInt32.le_iff_toNat_le] at upper
      change 65 ≤ char.toNat ∧ char.toNat ≤ 90 at upper
      omega
    rw [same]

/-- The case of letters does not matter for a token. -/
theorem isToken_toAsciiLowercase (text : Str) : isToken (toAsciiLowercase text) = isToken text := by
  have each : (Utf8.encode (toAsciiLowercase text)).all isTokenChar =
      (Utf8.encode text).all isTokenChar := by
    -- The text is lowered one character at a time.
    induction text with
    | nil => rfl
    | cons char text ih =>
      rw [toAsciiLowercase, List.map_cons, Utf8.encode_cons, Utf8.encode_cons, List.all_append,
        List.all_append, encodeChar_toLower_isTokenChar]
      exact congrArg (_ && ·) ih
  rw [isToken, isToken, each]
  cases text <;> rfl

/-- Lines in front of others read as the fields in front. -/
theorem readsAs_append {front back : List Bytes} {fields : Headers}
    (reads : List.Forall₂ ReadsAs (front ++ back) fields) :
    ∃ before after, fields = before ++ after ∧ List.Forall₂ ReadsAs front before ∧
      List.Forall₂ ReadsAs back after := by
  refine ⟨fields.take front.length, fields.drop front.length,
    (List.take_append_drop _ _).symm, ?_, ?_⟩
  · simpa using List.forall₂_take front.length reads
  · simpa using List.forall₂_drop front.length reads

/-- Two fields of a name, with two values, become one that lists the elements of both. -/
def CombinesFields (name left right : Str) (headers combined : Headers) : Prop :=
  ∃ (before between after first second : Headers) (spelled leftName rightName : Str),
    eqIgnoreAsciiCase leftName name = true ∧ eqIgnoreAsciiCase rightName name = true ∧
    eqIgnoreAsciiCase spelled name = true ∧
    (∀ field ∈ between, eqIgnoreAsciiCase field.1 name = false) ∧ between = first ++ second ∧
    headers = before ++ (leftName, left) :: (between ++ (rightName, right) :: after) ∧
    combined = before ++ first ++
      (spelled, trimOws (left ++ ", ".toList ++ right)) :: (second ++ after)

/-- The fields that may be combined have tokens for names, in any case of their letters. -/
theorem isToken_of_combinable {name spelled : Str} (listed : name ∈ combinableFields)
    (same : eqIgnoreAsciiCase spelled name = true) : isToken spelled = true := by
  have token : isToken name = true := by
    have each : ∀ name ∈ combinableFields, isToken name = true := by decide
    exact each name listed
  rw [eqIgnoreAsciiCase, beq_iff_eq] at same
  rw [← isToken_toAsciiLowercase, toAsciiLowercase, same]
  exact (isToken_toAsciiLowercase name).trans token

/-- A combined line is one line, and reads as the field with both values. -/
theorem combinedLine_reads {spelled left right leftName rightName : Str} {line other : Bytes}
    (token : isToken spelled = true) (reads : ReadsAs line (leftName, left))
    (otherReads : ReadsAs other (rightName, right)) :
    IsTrailerLine (combinedLine spelled left right) ∧
      ReadsAs (combinedLine spelled left right)
        (spelled, trimOws (left ++ ", ".toList ++ right)) := by
  obtain ⟨_, _, parsed⟩ := reads
  obtain ⟨_, _, otherParsed⟩ := otherReads
  have leftValid : (Utf8.encode left).all isValidFieldVchar = true :=
    (parseHeaderLine_ok parsed).1.2
  have rightValid : (Utf8.encode right).all isValidFieldVchar = true :=
    (parseHeaderLine_ok otherParsed).1.2
  -- A comma and spaces are allowed in a value, as what it is made of is.
  have valid : (Utf8.encode (' ' :: (left ++ ", ".toList ++ right))).all isValidFieldVchar = true := by
    have separator : (Utf8.encode ", ".toList).all isValidFieldVchar = true := by decide
    rw [Utf8.encode_cons, Utf8.encode_append, Utf8.encode_append, List.all_append, List.all_append,
      List.all_append, separator, leftValid, rightValid]
    decide
  have line : combinedLine spelled left right =
      Utf8.encode (spelled ++ ':' :: ' ' :: (left ++ ", ".toList ++ right)) := by
    rw [combinedLine, List.append_assoc]
    simp
  rw [line]
  refine ⟨isTrailerLine_encode token valid, _, lineText_encode _, ?_⟩
  rw [parseHeaderLine_parts token valid, trimOws_space]

/-- Of lines that are combined, the fields are. -/
theorem Combines.fields {name left right : Str} {lines combined : List Bytes} {headers : Headers}
    (combines : Combines name left right lines combined) (listed : name ∈ combinableFields)
    (each : ∀ line ∈ lines, IsTrailerLine line) (reads : List.Forall₂ ReadsAs lines headers) :
    (∀ line ∈ combined, IsTrailerLine line) ∧ combined.length < lines.length ∧
      ∃ others, List.Forall₂ ReadsAs combined others ∧
        CombinesFields name left right headers others := by
  obtain ⟨before, first, second, after, line, other, spelled, leftName, rightName, leftReads,
    rightReads, leftNamed, rightNamed, named, apart, rfl, rfl⟩ := combines
  have token := isToken_of_combinable listed named
  obtain ⟨single, combinedReads⟩ := combinedLine_reads token leftReads rightReads
  refine ⟨?_, by simp only [List.length_append, List.length_cons]; omega, ?_⟩
  · intro one inside
    simp only [List.mem_append, List.mem_cons] at inside each
    rcases inside with (front | earlier) | rfl | later | back
    · exact each one (.inl front)
    · exact each one (.inr (.inr (.inl (.inl earlier))))
    · exact single
    · exact each one (.inr (.inr (.inl (.inr later))))
    · exact each one (.inr (.inr (.inr (.inr back))))
  · -- The fields are cut where the lines are.
    obtain ⟨beforeFields, _, rfl, beforeReads, reads⟩ := readsAs_append reads
    obtain ⟨leftField, _, leftAgain, behind, rfl⟩ := List.forall₂_cons_left_iff.mp reads
    obtain ⟨_, _, rfl, betweenReads, rest⟩ := readsAs_append behind
    obtain ⟨firstFields, secondFields, rfl, firstReads, secondReads⟩ := readsAs_append betweenReads
    obtain ⟨rightField, afterFields, rightAgain, afterReads, rfl⟩ :=
      List.forall₂_cons_left_iff.mp rest
    obtain rfl := leftReads.unique leftAgain
    obtain rfl := rightReads.unique rightAgain
    refine ⟨_, List.rel_append (List.rel_append beforeReads firstReads)
      (.cons combinedReads (List.rel_append secondReads afterReads)), beforeFields, _, afterFields,
      firstFields, secondFields, spelled, leftName, rightName, leftNamed, rightNamed, named, ?_,
      rfl, rfl, rfl⟩
    intro field inside
    obtain ⟨index, within, found⟩ := List.getElem_of_mem inside
    have fitting := betweenReads.get (by rw [betweenReads.length_eq]; exact within) within
    rw [List.get_eq_getElem, List.get_eq_getElem, found] at fitting
    exact apart _ (List.getElem_mem _) field fitting

/-- Two spellings of one name are spellings of the same other names. -/
theorem eqIgnoreAsciiCase_congr {spelled name : Str} (same : eqIgnoreAsciiCase spelled name = true)
    (other : Str) : eqIgnoreAsciiCase spelled other = eqIgnoreAsciiCase name other := by
  rw [eqIgnoreAsciiCase, beq_iff_eq] at same
  rw [eqIgnoreAsciiCase, eqIgnoreAsciiCase, same]

namespace CombinesFields

variable {name left right : Str} {headers combined : Headers}

/-- The values of a name are those of both fields in a row, or one value in their place. -/
theorem getHeaders (combines : CombinesFields name left right headers combined) (other : Str) :
    (eqIgnoreAsciiCase name other = true ∧ ∃ front back,
      Http11.getHeaders headers other = front ++ left :: right :: back ∧
      Http11.getHeaders combined other =
        front ++ trimOws (left ++ ", ".toList ++ right) :: back) ∨
    (eqIgnoreAsciiCase name other = false ∧
      Http11.getHeaders combined other = Http11.getHeaders headers other) := by
  obtain ⟨before, between, after, first, second, spelled, leftName, rightName, leftNamed,
    rightNamed, named, apart, rfl, rfl, rfl⟩ := combines
  have leftOther := eqIgnoreAsciiCase_congr leftNamed other
  have rightOther := eqIgnoreAsciiCase_congr rightNamed other
  have spelledOther := eqIgnoreAsciiCase_congr named other
  cases same : eqIgnoreAsciiCase name other with
  | true =>
    -- The fields between the two are of other names.
    have others : ∀ fields : Headers, (∀ field ∈ fields, field ∈ first ++ second) →
        Http11.getHeaders fields other = [] := by
      intro fields inside
      rw [Http11.getHeaders, List.filter_eq_nil_iff.mpr, List.map_nil]
      intro field listed
      have distinct := apart field (inside field listed)
      rw [Bool.not_eq_true, ← distinct, eqIgnoreAsciiCase, eqIgnoreAsciiCase]
      rw [eqIgnoreAsciiCase, beq_iff_eq] at same
      rw [same]
    have firstNone := others first fun field => List.mem_append_left _
    have secondNone := others second fun field => List.mem_append_right _
    refine .inl ⟨rfl, Http11.getHeaders before other, Http11.getHeaders after other, ?_, ?_⟩
    · rw [getHeaders_append, getHeaders_cons_same (leftOther.trans same), getHeaders_append,
        getHeaders_append, firstNone, secondNone,
        getHeaders_cons_same (rightOther.trans same)]
      rfl
    · rw [getHeaders_append, getHeaders_append, firstNone, List.append_nil,
        getHeaders_cons_same (spelledOther.trans same), getHeaders_append, secondNone,
        List.nil_append]
  | false =>
    refine .inr ⟨rfl, ?_⟩
    rw [getHeaders_append, getHeaders_append, getHeaders_cons_other (spelledOther.trans same),
      getHeaders_append, getHeaders_append, getHeaders_cons_other (leftOther.trans same),
      getHeaders_append, getHeaders_append, getHeaders_cons_other (rightOther.trans same)]
    simp only [List.append_assoc]

/-- A value that was combined lists the elements of both. -/
theorem listElements_combined (left right : Str) :
    listElements (trimOws (left ++ ", ".toList ++ right)) =
      listElements left ++ listElements right := by
  have comma : left ++ ", ".toList ++ right = left ++ ',' :: ' ' :: right := by simp
  rw [listElements_trimOws, comma, listElements_comma, listElements_cons (by decide)]

/-- Every name has the same elements. -/
theorem fieldElements (combines : CombinesFields name left right headers combined) (other : Str) :
    Http11.fieldElements combined other = Http11.fieldElements headers other := by
  rw [Http11.fieldElements, Http11.fieldElements]
  rcases combines.getHeaders other with ⟨_, front, back, whole, one⟩ | ⟨_, same⟩
  · rw [whole, one, List.flatMap_append, List.flatMap_append, List.flatMap_cons, List.flatMap_cons,
      List.flatMap_cons, listElements_combined, List.append_assoc]
  · rw [same]

/-- A name is there or not all the same. -/
theorem hasHeader (combines : CombinesFields name left right headers combined) (other : Str) :
    Http11.hasHeader combined other = Http11.hasHeader headers other := by
  rw [hasHeader_eq, hasHeader_eq]
  rcases combines.getHeaders other with ⟨_, front, back, whole, one⟩ | ⟨_, same⟩
  · rw [whole, one]
    cases front <;> rfl
  · rw [same]

/-- What is declared of the length is still declared, and errors stay errors of some kind. -/
theorem sameLength (combines : CombinesFields name left right headers combined)
    (listed : name ∈ combinableFields) :
    SameLength name left right (parseContentLength headers) (parseContentLength combined) := by
  rcases combines.getHeaders "Content-Length".toList with ⟨named, front, back, whole, one⟩ |
    ⟨_, same⟩
  · -- Each of the two values declares a length exactly when the combined one declares it.
    have both : ∀ length, parseContentLengthValue left = .ok length →
        parseContentLengthValue right = .ok length →
        parseContentLengthValue (trimOws (left ++ ", ".toList ++ right)) = .ok length := by
      intro length leftDeclares rightDeclares
      rw [parseContentLengthValue_iff] at leftDeclares rightDeclares ⊢
      rw [listElements_combined]
      refine ⟨by simp [leftDeclares.1], fun part inside => ?_⟩
      rcases List.mem_append.mp inside with first | second
      · exact leftDeclares.2 part first
      · exact rightDeclares.2 part second
    have each : (listElements left = [] ↔ listElements right = []) → ∀ length,
        parseContentLengthValue (trimOws (left ++ ", ".toList ++ right)) = .ok length →
        parseContentLengthValue left = .ok length ∧ parseContentLengthValue right = .ok length := by
      intro alike length declares
      rw [parseContentLengthValue_iff, listElements_combined] at declares
      rw [parseContentLengthValue_iff, parseContentLengthValue_iff]
      have present : listElements left ≠ [] := by
        intro empty
        exact declares.1 (by rw [empty, alike.mp empty]; rfl)
      exact ⟨⟨present, fun part inside => declares.2 part (List.mem_append_left _ inside)⟩,
        ⟨fun empty => present (alike.mpr empty),
          fun part inside => declares.2 part (List.mem_append_right _ inside)⟩⟩
    refine ⟨?_, ?_, ?_⟩
    · intro declared told
      rw [parseContentLength_iff, whole] at told
      rw [parseContentLength_iff, one]
      rcases told with ⟨none, _⟩ | ⟨_, length, rfl, all⟩
      · simp at none
      · refine .inr ⟨by simp, length, rfl, ?_⟩
        simp only [List.forall_mem_append, List.forall_mem_cons] at all ⊢
        exact ⟨all.1, both length all.2.1 all.2.2.1, all.2.2.2⟩
    · intro other
      revert named other
      have apart : ∀ name ∈ combinableFields, eqIgnoreAsciiCase name "Content-Length".toList = true →
          name ≠ "Content-Length".toList → False := by decide
      exact fun named other => absurd other (fun other => apart name listed named other)
    · intro alike error failed
      cases again : parseContentLength combined with
      | error error => exact ⟨error, rfl⟩
      | ok declared =>
        -- What the combined field declares, the two did.
        rw [parseContentLength_iff, one] at again
        rcases again with ⟨none, _⟩ | ⟨_, length, rfl, all⟩
        · simp at none
        · simp only [List.forall_mem_append, List.forall_mem_cons] at all
          obtain ⟨first, second⟩ := each alike length all.2.1
          have told : parseContentLength headers = .ok (some length) := by
            rw [parseContentLength_iff, whole]
            refine .inr ⟨by simp, length, rfl, ?_⟩
            simp only [List.forall_mem_append, List.forall_mem_cons]
            exact ⟨all.1, first, second, all.2.2⟩
          rw [told] at failed
          cases failed
  · have unchanged : parseContentLength combined = parseContentLength headers := by
      rw [parseContentLength_eq, parseContentLength_eq, same]
    rw [unchanged]
    exact ⟨fun _ told => told, fun _ => rfl, fun _ error failed => ⟨error, failed⟩⟩

/-- Without the framing fields the fields are combined as well, or they are the same. -/
theorem filter (combines : CombinesFields name left right headers combined) :
    combined.filter (fun field => !ResponseDecoder.isFramingField field) =
        headers.filter (fun field => !ResponseDecoder.isFramingField field) ∨
      CombinesFields name left right
        (headers.filter fun field => !ResponseDecoder.isFramingField field)
        (combined.filter fun field => !ResponseDecoder.isFramingField field) := by
  obtain ⟨before, between, after, first, second, spelled, leftName, rightName, leftNamed,
    rightNamed, named, apart, rfl, rfl, rfl⟩ := combines
  have framing : ∀ {spelled : Str} (value : Str), eqIgnoreAsciiCase spelled name = true →
      ResponseDecoder.isFramingField (spelled, value) =
        ResponseDecoder.isFramingField (name, value) := by
    intro spelled value same
    rw [ResponseDecoder.isFramingField, ResponseDecoder.isFramingField,
      eqIgnoreAsciiCase_congr same, eqIgnoreAsciiCase_congr same]
  have anyValue : ∀ value other, ResponseDecoder.isFramingField (name, value) =
      ResponseDecoder.isFramingField (name, other) := fun _ _ => rfl
  -- The two fields and the one they are combined to are framing fields together or not at all.
  cases kind : ResponseDecoder.isFramingField (name, left) with
  | true =>
    left
    simp [List.filter_append, framing _ leftNamed, framing _ rightNamed,
      framing _ named, anyValue _ left, kind]
  | false =>
    right
    let kept (headers : Headers) : Headers :=
      headers.filter fun field => !ResponseDecoder.isFramingField field
    refine ⟨kept before, kept first ++ kept second, kept after, kept first, kept second, spelled,
      leftName, rightName, leftNamed, rightNamed, named, ?_, rfl, ?_, ?_⟩
    · rw [← List.filter_append]
      exact fun field inside => apart field (List.mem_filter.mp inside).1
    · simp [kept, List.filter_append, framing _ leftNamed, framing _ rightNamed, anyValue _ left,
        kind]
    · simp [kept, List.filter_append, framing _ named, anyValue _ left, kind]

end CombinesFields

/-- The fields of a head, or what its combined fields are. -/
def Alike (name left right : Str) (headers others : Headers) : Prop :=
  others = headers ∨ CombinesFields name left right headers others

namespace Alike

variable {name left right : Str} {headers others : Headers}

/-- Every name has the same elements. -/
theorem fieldElements (alike : Alike name left right headers others) (other : Str) :
    Http11.fieldElements others other = Http11.fieldElements headers other := by
  rcases alike with rfl | combines
  · rfl
  · exact combines.fieldElements other

/-- The length is told alike. -/
theorem sameLength (alike : Alike name left right headers others)
    (listed : name ∈ combinableFields) :
    SameLength name left right (HttpHead.contentLength headers)
      (HttpHead.contentLength others) := by
  rcases alike with rfl | combines
  · exact ⟨fun _ told => told, fun _ => rfl, fun _ error failed => ⟨error, failed⟩⟩
  · exact combines.sameLength listed

end Alike

/-- A side finishes heads of combined fields as it finishes those of the fields. -/
def FinishesAlike {Head Context : Type} (side : Side Head Context) (version : Head → Str) : Prop :=
  ∀ {limits : DecoderLimits} {context : Context} {startLine name left right : Str}
    {headers combined : Headers} {head : Head} {bodyKind : BodyKind}, name ∈ combinableFields →
    CombinesFields name left right headers combined →
    side.finishHead limits context startLine headers = .ok (head, bodyKind) →
    ∃ other, side.finishHead limits context startLine combined = .ok (other, bodyKind) ∧
      version other = version head ∧
      Alike name left right (side.headersOf head) (side.headersOf other)

/-- What finishes heads alike keeps the framing of what is on the connection. -/
theorem FinishesAlike.keepsFraming {Head Context : Type} {side : Side Head Context}
    {version : Head → Str} (finishes : FinishesAlike side version) :
    KeepsFraming side version := by
  intro core whole rest name left right combined head bodyKind next phase fieldless listed combines
    short read
  -- The accepted head was read from its start line and its field lines.
  obtain ⟨text, fields, decoded, checked, reads, _, few, finished, rfl⟩ :=
    (Core.decodeHeaders_headBytes (by exact phase) (by exact fieldless) whole.started whole.each
      (by rfl)).mp read
  obtain ⟨each, fewer, others, othersRead, combinesFields⟩ :=
    -- Combining the lines combines two of the fields they are read as.
    combines.fields listed whole.each reads
  obtain ⟨other, otherFinished, versions, alike⟩ := finishes listed combinesFields finished
  refine ⟨other, _, (Core.decodeHeaders_headBytes (by exact phase) (by exact fieldless)
    whole.started each (by rfl)).mpr ⟨text, others, decoded, checked, othersRead, short,
      (show combined.length ≤ core.limits.maxHeadersCount from fewer.le.trans few), otherFinished,
      rfl⟩, ?_, ?_, ?_, alike.sameLength listed⟩
  · -- What frames the message and keeps the connection depends on the elements of its fields only.
    rw [HttpHead.isKeepAlive_eq, HttpHead.isKeepAlive_eq, alike.fieldElements, versions]
  · rw [HttpHead.isChunked_eq, HttpHead.isChunked_eq, alike.fieldElements]
  · simp only [Core.behindHead, collectDeclaredTrailers, alike.fieldElements]

namespace CombinesFields

variable {name left right : Str} {headers combined : Headers}

/-- The codings of a request are those of its combined fields. -/
theorem codingsOfRequest (combines : CombinesFields name left right headers combined) :
    parseTransferEncodingForRequest combined = parseTransferEncodingForRequest headers := by
  rw [parseTransferEncodingForRequest, parseTransferEncodingForRequest, combines.fieldElements]

/-- The codings of a response are those of its combined fields. -/
theorem codingsOfResponse (combines : CombinesFields name left right headers combined) :
    parseTransferEncodingForResponse combined = parseTransferEncodingForResponse headers := by
  rw [parseTransferEncodingForResponse, parseTransferEncodingForResponse, combines.fieldElements]

/-- The hosts of a request are no fields that are combined. -/
theorem hosts (combines : CombinesFields name left right headers combined)
    (listed : name ∈ combinableFields) :
    Http11.getHeaders combined "Host".toList = Http11.getHeaders headers "Host".toList := by
  have apart : ∀ name ∈ combinableFields, eqIgnoreAsciiCase name "Host".toList = false := by
    decide
  rcases combines.getHeaders "Host".toList with ⟨named, _⟩ | ⟨_, same⟩
  · rw [apart name listed] at named
    cases named
  · exact same

end CombinesFields

namespace RequestDecoder

/-- Requests are framed by their combined fields as by their fields. -/
theorem determineBodyKind_combined {limits : DecoderLimits} {version name left right : Str}
    {headers combined : Headers} {bodyKind : BodyKind} (listed : name ∈ combinableFields)
    (combines : CombinesFields name left right headers combined)
    (determined : determineBodyKind limits version headers = .ok bodyKind) :
    determineBodyKind limits version combined = .ok bodyKind := by
  obtain ⟨_, declared, _, lengths, _⟩ := determineBodyKind_ok determined
  have told := (combines.sameLength listed).told declared lengths
  rw [determineBodyKind, resolveBodyHeadersForRequest, combines.codingsOfRequest, told, ← lengths]
  exact determined

/-- Heads of requests are finished alike. -/
theorem finishesAlike : FinishesAlike side RequestHead.version := by
  intro limits context startLine name left right headers combined head bodyKind listed combines
    finished
  change finishHead limits () startLine headers = .ok (head, bodyKind) at finished
  simp only [finishHead, Checked.bind_ok] at finished
  obtain ⟨_, hosted, kind, framed, made⟩ := finished
  cases made
  -- No list field is a host.
  have sameHost : checkHost combined = checkHost headers := by
    rw [checkHost, combines.hosts listed]
    rfl
  have sameKind : requestBodyKind limits ((startLine.splitOn ' ').head?.getD [])
      ((startLine.splitOn ' ')[2]?.getD []) combined = .ok bodyKind := by
    -- CONNECT is decided by the start line alone.
    unfold requestBodyKind at framed ⊢
    split at framed
    · rename_i connect
      rw [if_pos connect]
      exact framed
    · rename_i other
      rw [if_neg other]
      exact determineBodyKind_combined listed combines framed
  refine ⟨⟨(splitn 3 ' ' startLine)[0]?.getD [], (splitn 3 ' ' startLine)[1]?.getD [],
    (splitn 3 ' ' startLine)[2]?.getD [], combined⟩, ?_, rfl, .inr combines⟩
  change finishHead limits () startLine combined = _
  simp only [finishHead, Checked.bind_ok, sameHost]
  exact ⟨_, hosted, _, sameKind, rfl⟩

end RequestDecoder

namespace ResponseDecoder

/-- Responses are framed by their combined fields as by their fields, and keep them alike. -/
theorem determineBodyKind_combined {limits : DecoderLimits} {requestMethod : Option Str}
    {startLine name left right : Str} {headers combined kept : Headers} {statusCode : Nat}
    {bodyKind : BodyKind} (listed : name ∈ combinableFields)
    (combines : CombinesFields name left right headers combined)
    (determined : determineBodyKind limits requestMethod startLine headers statusCode =
      .ok (bodyKind, kept)) :
    ∃ others, determineBodyKind limits requestMethod startLine combined statusCode =
      .ok (bodyKind, others) ∧ Alike name left right kept others := by
  unfold determineBodyKind at determined ⊢
  by_cases bodiless : (requestMethod = some "HEAD".toList || !statusHasBody statusCode) = true
  · rw [if_pos bodiless] at determined ⊢
    cases determined
    exact ⟨combined, rfl, .inr combines⟩
  rw [if_neg bodiless] at determined ⊢
  by_cases connected : (requestMethod = some "CONNECT".toList &&
      (200 ≤ statusCode && statusCode < 300)) = true
  · rw [if_pos connected] at determined ⊢
    cases determined
    exact ⟨_, rfl, combines.filter⟩
  rw [if_neg connected] at determined ⊢
  dsimp only at determined ⊢
  rw [combines.hasHeader]
  split at determined
  · cases determined
  rename_i versioned
  rw [if_neg versioned]
  simp only [Checked.bind_ok] at determined ⊢
  obtain ⟨⟨result, length⟩, resolved, framed⟩ := determined
  have sameResolved : resolveBodyHeadersForResponse combined = .ok (result, length) := by
    have agreed := resolved
    simp only [resolveBodyHeadersForResponse, Checked.bind_ok] at agreed
    obtain ⟨_, _, declared, lengths, _⟩ := agreed
    have told := (combines.sameLength listed).told declared lengths
    rw [resolveBodyHeadersForResponse, combines.codingsOfResponse, told, ← lengths]
    exact resolved
  -- Each branch gives the fields back with the framing.
  cases result with
  | chunked | other =>
    cases framed
    exact ⟨combined, ⟨_, sameResolved, rfl⟩, .inr combines⟩
  | none =>
    cases length with
    | none =>
      cases framed
      exact ⟨combined, ⟨_, sameResolved, rfl⟩, .inr combines⟩
    | some length =>
      dsimp only at framed
      split at framed
      · cases framed
      · rename_i small
        cases framed
        exact ⟨combined, ⟨_, sameResolved, by dsimp only; rw [if_neg small]; rfl⟩, .inr combines⟩

/-- Heads of responses are finished alike. -/
theorem finishesAlike : FinishesAlike side ResponseHead.version := by
  intro limits context startLine name left right headers combined head bodyKind listed combines
    finished
  obtain ⟨statusCode, kept, parsed, determined, rfl⟩ := finishHead_ok finished
  -- A response keeps its status, and its framing fields with it.
  obtain ⟨others, sameKind, alike⟩ := determineBodyKind_combined listed combines determined
  refine ⟨⟨(splitn 3 ' ' startLine)[0]?.getD [], statusCode,
    (splitn 3 ' ' startLine)[2]?.getD [], others⟩, ?_, rfl, alike⟩
  change finishHead limits context startLine combined = _
  simp only [finishHead, parsed, Checked.bind_ok]
  exact ⟨_, sameKind, rfl⟩

end ResponseDecoder

/-- Combining lines of the framing fields keeps how a message is framed, and what is told of it. -/
theorem framing_combined :
    KeepsFraming RequestDecoder.side RequestHead.version ∧
      KeepsFraming ResponseDecoder.side ResponseHead.version :=
  ⟨RequestDecoder.finishesAlike.keepsFraming, ResponseDecoder.finishesAlike.keepsFraming⟩

/-- Two lines of a request that was accepted become one that closes the connection as well. -/
theorem framing_combined_close : ∃ other after,
    Core.decodeHeaders RequestDecoder.side ({
        buf := headBytes (Utf8.encode "GET / HTTP/1.1".toList)
          [Utf8.encode "Host: a".toList,
            combinedLine "Connection".toList "keep-alive".toList "Close".toList] ++ []
        limits := {}, context := () } : Core Unit) = (.ok (some (other, .none)), after) ∧
      HttpHead.isKeepAlive other.version other.headers = false := by
  have combines : Combines "Connection".toList "keep-alive".toList "Close".toList
      -- The two lines differ in the case of their names only.
      [Utf8.encode "Host: a".toList, Utf8.encode "Connection:keep-alive".toList,
        Utf8.encode "connection: Close".toList]
      [Utf8.encode "Host: a".toList,
        combinedLine "Connection".toList "keep-alive".toList "Close".toList] :=
    ⟨[Utf8.encode "Host: a".toList], [], [], [], _, _, "Connection".toList, "Connection".toList,
      "connection".toList, ⟨"Connection:keep-alive".toList, by decide, by decide⟩,
      ⟨"connection: Close".toList, by decide, by decide⟩, by decide, by decide,
      by decide, by simp, rfl, rfl⟩
  obtain ⟨other, after, read, kept, _⟩ := framing_combined.1 { limits := {}, context := () }
    ⟨Utf8.encode "GET / HTTP/1.1".toList,
      [Utf8.encode "Host: a".toList, Utf8.encode "Connection:keep-alive".toList,
        Utf8.encode "connection: Close".toList], by decide, by decide⟩ []
    "Connection".toList "keep-alive".toList "Close".toList _
    ⟨"GET".toList, "/".toList, http11, [("Host".toList, "a".toList),
      ("Connection".toList, "keep-alive".toList), ("connection".toList, "Close".toList)]⟩ .none
    { phase := .complete, limits := {}, context := () } rfl rfl (by decide) combines
    (by decide +kernel) (by decide +kernel)
  refine ⟨other, after, read, kept.trans ?_⟩
  decide

/-- An empty length beside another one is an error, which combining the lines takes away. -/
theorem length_combined_empty :
    ∃ (head other : ResponseHead) (lines combined : List Bytes),
      Combines "Content-Length".toList "5".toList "".toList lines combined ∧
      (Core.decodeHeaders ResponseDecoder.side ({
          buf := headBytes (Utf8.encode "HTTP/1.1 204 None".toList) lines
          limits := {}, context := none } : Core (Option Str))).1 = .ok (some (head, .none)) ∧
      (Core.decodeHeaders ResponseDecoder.side ({
          buf := headBytes (Utf8.encode "HTTP/1.1 204 None".toList) combined
          limits := {}, context := none } : Core (Option Str))).1 = .ok (some (other, .none)) ∧
      HttpHead.contentLength head.headers =
        .error (.invalidData "invalid Content-Length: empty") ∧
      HttpHead.contentLength other.headers = .ok (some 5) := by
  refine ⟨⟨http11, 204, "None".toList, [("Content-Length".toList, "5".toList),
      ("Content-Length".toList, "".toList)]⟩,
    ⟨http11, 204, "None".toList, [("Content-Length".toList, "5,".toList)]⟩,
    [Utf8.encode "Content-Length: 5".toList, Utf8.encode "Content-Length:".toList],
    [combinedLine "Content-Length".toList "5".toList "".toList], ?_, by decide,
    by decide, by decide, by decide⟩
  -- The empty value is refused when the fields are read one by one, and skipped in a list.
  exact ⟨[], [], [], [], _, _, "Content-Length".toList, "Content-Length".toList,
    "Content-Length".toList, ⟨"Content-Length: 5".toList, by decide, by decide⟩,
    ⟨"Content-Length:".toList, by decide, by decide⟩, by decide, by decide,
    by decide, by simp, rfl, rfl⟩

end Http11

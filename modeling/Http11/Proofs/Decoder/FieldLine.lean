import Http11.Proofs.Decoder.Lines
import Http11.Proofs.Encoder.Lines

/-! What a field line is made of, and what is made of a name and a value. -/

namespace Http11

/-- A byte other than a carriage return. -/
def noReturn (byte : UInt8) : Bool := byte != 13

/-- Bytes without a carriage return are a line. -/
theorem isLine_of_noReturn {line : Bytes} (none : line.all noReturn = true) : IsLine line := by
  unfold IsLine
  fun_induction findLine line with
  | case1 => cases none
  | case2 => rfl
  -- No carriage return stands here, so the line does not end here.
  | case3 byte line _ ih =>
    rw [List.all_cons, Bool.and_eq_true] at none
    rw [ih none.2]
    rfl

/-- What is read of a header line is a name, a colon and a value, which is trimmed. -/
theorem parseHeaderLine_split {text name value : Str}
    (parsed : parseHeaderLine text = .ok (name, value)) :
    ∃ content, text = name ++ ':' :: content ∧ value = trimOws content ∧ isToken name = true ∧
      (Utf8.encode content).all isValidFieldVchar = true := by
  unfold parseHeaderLine at parsed
  split at parsed
  · cases parsed
  split at parsed
  · cases parsed
  split at parsed
  · cases parsed
  rename_i found
  split at parsed
  · cases parsed
  split at parsed
  · cases parsed
  split at parsed
  · cases parsed
  rename_i named
  split at parsed
  · cases parsed
  rename_i valued
  cases parsed
  obtain ⟨rfl, _⟩ := splitOnce_some found
  refine ⟨_, rfl, rfl, by simpa [isValidHeaderName] using named, ?_⟩
  simp only [isValidFieldValue, Bool.not_eq_true', Bool.not_eq_false, List.all_eq_true] at valued
  rw [List.all_eq_true]
  intro byte inside
  obtain ⟨char, member, inChar⟩ := Utf8.mem_encode.mp inside
  cases ows : isOws char with
  | true =>
    -- A space and a tab are allowed as well.
    simp only [isOws, Bool.or_eq_true, beq_iff_eq] at ows
    rcases ows with rfl | rfl <;> rw [Utf8.encodeChar_ascii (by decide)] at inChar <;>
      rw [List.mem_singleton.mp inChar] <;> rfl
  | false => exact valued byte (Utf8.mem_encode.mpr ⟨char, mem_trimOws member ows, inChar⟩)

/-- A field that was read from a line can be sent, and is trimmed. -/
theorem parseHeaderLine_ok {text : Str} {field : Str × Str}
    (parsed : parseHeaderLine text = .ok field) : sendable field ∧ receivedField field = field := by
  obtain ⟨name, value⟩ := field
  obtain ⟨content, _, rfl, token, valid⟩ := parseHeaderLine_split parsed
  exact ⟨⟨token, encode_all_of_subset (trimOws_subset content) valid⟩,
    Prod.ext rfl (trimOws_trimOws _)⟩

/-- What stands around a value is trimmed, and nothing may stand in front of the colon. -/
example : parseHeaderLine "Host:  a ".toList = .ok ("Host".toList, "a".toList) ∧
    parseHeaderLine "Host : a".toList ≠ .ok ("Host".toList, "a".toList) := by decide +kernel

/-- A token, a colon and bytes of a value are one line, and not the empty one of a section. -/
theorem isTrailerLine_bytes {name : Str} {content : Bytes} (token : isToken name = true)
    (valid : ∀ byte ∈ content, isValidFieldVchar byte = true) :
    IsTrailerLine (Utf8.encode name ++ 0x3A :: content) := by
  -- No byte of it is a carriage return, so no line end stands in it.
  refine ⟨by simp, isLine_of_noReturn ?_⟩
  have tokenByte : ∀ byte, isTokenChar byte = true → noReturn byte = true :=
    forall_byte (by decide +kernel)
  have valueByte : ∀ byte, isValidFieldVchar byte = true → noReturn byte = true :=
    forall_byte (by decide +kernel)
  simp only [isToken, Bool.and_eq_true, List.all_eq_true] at token
  rw [List.all_append, List.all_cons, Bool.and_eq_true, Bool.and_eq_true]
  exact ⟨List.all_eq_true.mpr fun byte inside => tokenByte byte (token.2 byte inside), by decide,
    List.all_eq_true.mpr fun byte inside => valueByte byte (valid byte inside)⟩

/-- The line of a field is one line, and not the empty one that ends a section. -/
theorem isTrailerLine_encode {name content : Str} (token : isToken name = true)
    (valid : (Utf8.encode content).all isValidFieldVchar = true) :
    IsTrailerLine (Utf8.encode (name ++ ':' :: content)) := by
  have line := isTrailerLine_bytes token (List.all_eq_true.mp valid)
  rwa [Utf8.encode_append]

end Http11

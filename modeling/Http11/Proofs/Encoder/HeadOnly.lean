import Http11.Proofs.Encoder.Responses

/-! A response encoded up to its body agrees with the whole response, except where it has none. -/

namespace Http11

/--
A response without its body that tells the length which the body would have.

This is how a request with the method HEAD is answered.
-/
def Response.TellsLength (response : Response) : Prop :=
  responseStatusHasBody response.statusCode = true ∧
    hasHeader response.headers "Transfer-Encoding".toList = false ∧
    response.omitBody = true ∧ bodyLength response.body = 0 ∧
    ∃ value ∈ getHeaders response.headers "Content-Length".toList,
      parseU64 (trimOws value) ≠ some 0

/-- The bytes of a response are those up to its body, with one more field at most, and its body. -/
def Response.Extends (response : Response) (wire : Bytes) : Prop :=
  ∃ front added, encodeResponseHeaders response = .ok (front ++ crlf) ∧
    (added = [] ∨ added = contentLengthLine (bodyLength response.body)) ∧
    wire = front ++ added ++ crlf ++
      (if bodyWillBeEncoded response then response.body.getD [] else [])

/-- Lengths that are declared together are all the same. -/
theorem checkLengthField_all {values : List Str} {state result : Option Nat}
    (checked : values.foldlM checkLengthField state = .ok result) :
    (∀ value ∈ values, parseU64 (trimOws value) = result) ∧ (state.isSome → result = state) := by
  induction values generalizing state with
  | nil =>
    cases checked
    simp
  | cons value values ih =>
    rw [List.foldlM_cons, Checked.bind_ok] at checked
    obtain ⟨next, stepped, rest⟩ := checked
    obtain ⟨all, kept⟩ := ih rest
    -- The field sets the length, or has the one that was set before.
    have first : parseU64 (trimOws value) = next ∧ next.isSome ∧ (state.isSome → next = state) := by
      simp only [checkLengthField] at stepped
      split at stepped
      · cases stepped
      cases parsed : parseU64 (trimOws value) with
      | none => simp [parsed] at stepped
      | some length =>
        simp only [parsed] at stepped
        cases state with
        | none =>
          cases stepped
          simp
        | some prev =>
          dsimp only at stepped
          split at stepped
          · cases stepped
          · rename_i same
            cases stepped
            simpa using (not_ne_iff.mp same).symm
    have same := kept first.2.1
    refine ⟨?_, fun there => by rw [same]; exact first.2.2 there⟩
    intro other inside
    rcases List.mem_cons.mp inside with rfl | later
    · rw [same]
      exact first.1
    · exact all other later

/-- A length is declared that is not zero exactly when the length that is declared is not. -/
theorem declared_iff {headers : Headers} {length : Option Nat}
    (checked : validateContentLengthHeaders headers = .ok length) :
    (∃ value ∈ getHeaders headers "Content-Length".toList, parseU64 (trimOws value) ≠ some 0) ↔
      ∃ declared, length = some declared ∧ declared ≠ 0 := by
  have all := (checkLengthField_all checked).1
  have there := validateContentLengthHeaders_isSome checked
  rw [hasHeader_eq] at there
  constructor
  · -- All declared values are the length that was found.
    rintro ⟨value, inside, other⟩
    rw [all value inside] at other
    have some : length.isSome = true := by
      rw [← there]
      cases listed : getHeaders headers "Content-Length".toList with
      | nil => rw [listed] at inside; cases inside
      | cons => rfl
    obtain ⟨declared, rfl⟩ := Option.isSome_iff_exists.mp some
    exact ⟨declared, rfl, by simpa using other⟩
  · rintro ⟨declared, rfl, positive⟩
    cases listed : getHeaders headers "Content-Length".toList with
    | nil => rw [listed] at there; cases there
    | cons value values =>
      have inside : value ∈ getHeaders headers "Content-Length".toList := by
        rw [listed]
        exact List.mem_cons_self
      -- The first value is the length, which is not zero.
      refine ⟨value, List.mem_cons_self, ?_⟩
      rw [all value inside]
      simpa using positive

/-- Of a response that is encoded, only its length can stand in the way of its head. -/
theorem extends_iff {response : Response} {wire : Bytes}
    (encoded : encodeResponse response = .ok wire) : response.Extends wire ↔
      (responseStatusHasBody response.statusCode = true →
        checkDeclaredLength response.headers response.body = .ok ()) := by
  simp only [encodeResponse, Checked.bind_ok] at encoded
  obtain ⟨_, base, _, _, _, reset, _, _, written⟩ := encoded
  -- Behind the checks that both make only the declared length is left.
  have headed : ∀ bytes, encodeResponseHeaders response = .ok bytes ↔
      (responseStatusHasBody response.statusCode = true →
        checkDeclaredLength response.headers response.body = .ok ()) ∧
      statusLine response ++ encodeFields response.headers ++ crlf = bytes := by
    intro bytes
    simp only [encodeResponseHeaders, base, reset, Checked.bind_ok, Checked.onlyIf_ok, exists_const,
      Except.ok.injEq, true_and, pure, Except.pure]
  constructor
  · rintro ⟨front, added, head, _⟩
    exact ((headed _).mp head).1
  · intro declared
    refine ⟨statusLine response ++ encodeFields response.headers,
      if shouldAutoEmitContentLengthForResponse response then
        contentLengthLine (bodyLength response.body) else [], (headed _).mpr ⟨declared, rfl⟩, ?_, ?_⟩
    · -- The encoder may add the line of a length, and writes the body behind it.
      split
      · exact .inr rfl
      · exact .inl rfl
    · cases written
      rfl

/-- Declared lengths are fine when they are valid and agree with a body that they are held to. -/
theorem checkLength_ok {headers : Headers} {body : Option Bytes} {compared : Bool} :
    checkLength headers body compared = .ok () ↔
      ∃ length, validateContentLengthHeaders headers = .ok length ∧
        (compared = true → ∀ declared, length = some declared → declared = bodyLength body) := by
  rw [checkLength, Checked.bind_ok]
  refine exists_congr fun length => and_congr_right fun _ => ?_
  -- Without a declared length there is nothing to compare.
  cases length with
  | none => simp
  | some declared =>
    dsimp only
    rw [Checked.reject_ok]
    cases compared with
    | false => simp
    | true => simp

/-- A response that is encoded is encoded alike up to its body, unless it tells a length. -/
theorem encodeResponse_extends {response : Response} {wire : Bytes}
    (encoded : encodeResponse response = .ok wire) :
    response.Extends wire ↔ ¬ response.TellsLength := by
  rw [extends_iff encoded]
  simp only [encodeResponse, Checked.bind_ok] at encoded
  obtain ⟨_, _, _, _, _, _, _, lengths, _⟩ := encoded
  rw [Checked.onlyIf_ok] at lengths
  simp only [checkDeclaredLength, Checked.onlyIf_ok]
  unfold Response.TellsLength
  generalize coded : hasHeader response.headers "Transfer-Encoding".toList = te at lengths ⊢
  cases bodied : responseStatusHasBody response.statusCode with
  | false => simp
  | true =>
  cases te with
  | true => simp
  | false =>
  -- Both compare the same length, but only one of them compares it with a body that is omitted.
  obtain ⟨length, validated, agrees⟩ := checkLength_ok.mp (lengths (by simp [bodied]))
  have told := declared_iff validated
  have strictly : checkLength response.headers response.body true = .ok () ↔
      ∀ declared, length = some declared → declared = bodyLength response.body := by
    rw [checkLength_ok, validated]
    simp
  rw [strictly, told]
  simp only [Bool.not_false, true_implies, true_and, not_and, not_exists, not_not]
  constructor
  · intro same omitted empty declared found
    rw [same declared found, empty]
  · intro zero declared found
    by_cases compared : (bodyWillBeEncoded response || bodyLength response.body != 0) = true
    · exact agrees compared declared found
    · simp only [bodyWillBeEncoded, bodied, Bool.true_and, Bool.or_eq_true, Bool.not_eq_true',
        bne_iff_ne, ne_eq, not_or, Bool.not_eq_false, not_not] at compared
      rw [zero compared.1 compared.2 declared found, compared.2]

/-- A response that is encoded whole, and up to its body. -/
theorem encodeResponse_extends_whole :
    let response : Response := {
      version := http11, statusCode := 200, reasonPhrase := "OK".toList, headers := []
      body := some [0x78], omitBody := false }
    ∃ wire, encodeResponse response = .ok wire ∧ response.Extends wire := by
  intro response
  have encoded : (encodeResponse response).isOk = true := by decide
  -- The response is encoded, and no length is declared for a body left out.
  cases written : encodeResponse response with
  | error => rw [written] at encoded; cases encoded
  | ok wire =>
    refine ⟨wire, rfl, (encodeResponse_extends written).mpr ?_⟩
    rintro ⟨_, _, omitted, _⟩
    cases omitted

/-- The answer to a request with the method HEAD is encoded whole, but not up to its body. -/
theorem encodeResponse_extends_told :
    let response : Response := {
      version := http11, statusCode := 200, reasonPhrase := "OK".toList
      headers := [("Content-Length".toList, "5".toList)], body := none, omitBody := true }
    ∃ wire, encodeResponse response = .ok wire ∧
      encodeResponseHeaders response = .error (.contentLengthMismatch 5 0) ∧
      ¬ response.Extends wire := by
  intro response
  have encoded : (encodeResponse response).isOk = true := by decide
  have refused : encodeResponseHeaders response = .error (.contentLengthMismatch 5 0) := by
    decide
  cases written : encodeResponse response with
  | error => rw [written] at encoded; cases encoded
  | ok wire =>
    refine ⟨wire, rfl, refused, ?_⟩
    -- The head on its own is refused, so the bytes extend nothing.
    rintro ⟨front, added, head, _⟩
    rw [refused] at head
    cases head

end Http11

import Http11.Message
import Http11.Proofs.Encoder.Fields

/-! Fields are read by the elements they list, whatever lines the elements stand in. -/

namespace Http11

/-- What stands before and behind a comma is listed one after the other. -/
theorem listElements_comma (front back : Str) :
    listElements (front ++ ',' :: back) = listElements front ++ listElements back := by
  simp [listElements, List.splitOn_append_cons_self]

/-- Without a comma a value lists itself, unless it is blank. -/
theorem listElements_plain {text : Str} (plain : ',' ∉ text) :
    listElements text = if (trimOws text).isEmpty then [] else [trimOws text] := by
  rw [listElements, List.splitOn_eq_singleton plain]
  cases empty : (trimOws text).isEmpty <;> simp [empty]

/-- A space or a tab in front is trimmed. -/
theorem trimOws_cons {char : Char} (ows : isOws char = true) (text : Str) :
    trimOws (char :: text) = trimOws text := by
  rw [trimOws, List.dropWhile_cons_of_pos ows]
  rfl

/-- A space or a tab behind is trimmed. -/
theorem trimOws_concat {char : Char} (ows : isOws char = true) (text : Str) :
    trimOws (text ++ [char]) = trimOws text := by
  rw [trimOws, trimOws, List.dropWhile_append]
  cases blank : (text.dropWhile isOws).isEmpty with
  | true => simp [List.isEmpty_iff.mp blank, ows]
  | false => simp [ows]

/-- A space or a tab in front of a list belongs to no element. -/
theorem listElements_cons {char : Char} (ows : isOws char = true) (text : Str) :
    listElements (char :: text) = listElements text := by
  have other : char ≠ ',' := by
    rintro rfl
    cases ows
  -- The space is trimmed off the first element, which ends at the first comma or nowhere.
  cases split : splitOnce ',' text with
  | none =>
    have plain := not_mem_of_splitOnce split
    rw [listElements_plain plain, listElements_plain (by simp [other.symm, plain]),
      trimOws_cons ows]
  | some parts =>
    obtain ⟨rfl, plain⟩ := splitOnce_some split
    rw [← List.cons_append, listElements_comma, listElements_comma, listElements_plain plain,
      listElements_plain (by simp [other.symm, plain]), trimOws_cons ows]

/-- A space or a tab behind a list belongs to no element. -/
theorem listElements_concat {char : Char} (ows : isOws char = true) (text : Str) :
    listElements (text ++ [char]) = listElements text := by
  have other : char ≠ ',' := by
    rintro rfl
    cases ows
  -- Only the last element has it behind, so the induction is on the length of the list.
  generalize size : text.length = length
  induction length using Nat.strongRecOn generalizing text with
  | ind length ih =>
    cases split : splitOnce ',' text with
    | none =>
      have plain := not_mem_of_splitOnce split
      rw [listElements_plain plain, listElements_plain (by simp [other.symm, plain]),
        trimOws_concat ows]
    | some parts =>
      obtain ⟨rfl, _⟩ := splitOnce_some split
      simp only [List.length_append, List.length_cons] at size
      rw [List.append_assoc, List.cons_append, listElements_comma, listElements_comma,
        ih parts.2.length (by omega) parts.2 rfl]

/-- Trimming a list leaves its elements. -/
theorem listElements_trimOws (text : Str) : listElements (trimOws text) = listElements text := by
  -- Spaces are taken off one at a time, and none of them is in an element.
  have front : ∀ text : Str, listElements (text.dropWhile isOws) = listElements text := by
    intro text
    induction text with
    | nil => rfl
    | cons char text ih =>
      by_cases ows : isOws char = true
      · rw [List.dropWhile_cons_of_pos ows, ih, listElements_cons ows]
      · rw [List.dropWhile_cons_of_neg ows]
  -- At the back they are taken off from the last one on.
  have back : ∀ text : Str, listElements (text.rdropWhile isOws) = listElements text := by
    intro text
    induction text using List.reverseRecOn with
    | nil => rfl
    | append_singleton text char ih =>
      by_cases ows : isOws char = true
      · rw [List.rdropWhile_concat_pos _ _ _ ows, ih, listElements_concat ows]
      · rw [List.rdropWhile_concat_neg _ _ _ ows]
  rw [trimOws, back, front]

/-- A length that one element of a list declares. -/
def declaredLength (part : Str) : Option Nat := if part.all Char.isDigit then parseU64 part else none

/-- One step through a list takes a length that agrees with the ones before it. -/
theorem checkContentLength_iff (result : Option Nat) (part : Str) (next : Option Nat) :
    checkContentLength result part = .ok next ↔
      ∃ value, declaredLength part = some value ∧ (result = none ∨ result = some value) ∧
        next = some value := by
  unfold checkContentLength declaredLength
  -- A part that is no number declares nothing.
  by_cases digits : part.all Char.isDigit = true
  · simp only [digits, Bool.not_true, Bool.false_eq_true, if_false, if_true]
    cases parseU64 part with
    | none => simp
    | some value =>
      -- The first length is taken, a later one only if it is the same.
      cases result with
      | none => simp [eq_comm]
      | some prev =>
        by_cases same : prev = value
        · simp [same, eq_comm]
        · simp [same]
  · simp [digits]

/-- A value declares a length when it lists some lengths, all of which are this one. -/
theorem parseContentLengthValue_iff (value : Str) (length : Nat) :
    parseContentLengthValue value = .ok length ↔ listElements value ≠ [] ∧
      ∀ part ∈ listElements value, declaredLength part = some length := by
  simp only [parseContentLengthValue, Checked.bind_ok,
    Checked.foldlM_agree checkContentLength_iff]
  constructor
  · -- Without a part there is no length, and with some they all agree.
    rintro ⟨_, ⟨_, rfl⟩ | ⟨present, declared, rfl, _, each⟩, taken⟩
    · cases taken
    · cases taken
      exact ⟨present, each⟩
  · rintro ⟨present, each⟩
    exact ⟨some length, .inr ⟨present, length, rfl, by simp, each⟩, rfl⟩

/-- One step through the fields takes a value that agrees with the ones before it. -/
theorem addContentLength_iff (value : Option Nat) (raw : Str) (next : Option Nat) :
    addContentLength value raw = .ok next ↔
      ∃ length, (parseContentLengthValue raw).toOption = some length ∧
        (value = none ∨ value = some length) ∧ next = some length := by
  unfold addContentLength
  -- A field that declares no length is refused.
  cases parseContentLengthValue raw with
  | error error => simp [Bind.bind, Except.bind, Except.toOption]
  | ok length =>
    -- The first field is taken, a later one only if it agrees.
    cases value with
    | none => simp [Bind.bind, Except.bind, Except.toOption, pure, Except.pure, eq_comm]
    | some prev =>
      by_cases same : prev = length
      · simp [Bind.bind, Except.bind, Except.toOption, pure, Except.pure, same, eq_comm]
      · simp [Bind.bind, Except.bind, Except.toOption, same]

/-- Fields declare a length when each does, and nothing when there are none. -/
theorem parseContentLength_iff (headers : Headers) (declared : Option Nat) :
    parseContentLength headers = .ok declared ↔
      (getHeaders headers "Content-Length".toList = [] ∧ declared = none) ∨
      (getHeaders headers "Content-Length".toList ≠ [] ∧ ∃ length, declared = some length ∧
        ∀ value ∈ getHeaders headers "Content-Length".toList,
          parseContentLengthValue value = .ok length) := by
  have read : ∀ value length, (parseContentLengthValue value).toOption = some length ↔
      parseContentLengthValue value = .ok length := by
    intro value length
    cases parseContentLengthValue value <;> simp [Except.toOption]
  rw [parseContentLength_eq, Checked.foldlM_agree addContentLength_iff]
  simp [read]

namespace HttpHead

/-- Tokens close the connection, or one of them keeps it, or they say nothing. -/
theorem connectionTokens_eq (hasKeepAlive : Bool) (tokens : List Str) :
    connectionTokens hasKeepAlive tokens =
      if (tokens.map trimOws).any (eqIgnoreAsciiCase · "close".toList) then none
      else some (hasKeepAlive ||
        (tokens.map trimOws).any (eqIgnoreAsciiCase · "keep-alive".toList)) := by
  induction tokens generalizing hasKeepAlive with
  | nil => simp [connectionTokens]
  | cons token tokens ih =>
    rw [connectionTokens, List.map_cons, List.any_cons, List.any_cons, ih]
    generalize eqIgnoreAsciiCase (trimOws token) "close".toList = closes
    cases closes <;> simp [Bool.or_assoc]

/-- A blank token says nothing, so that it may be left out. -/
theorem any_listElements {option : Str} (present : option ≠ []) (value : Str) :
    ((value.splitOn ',').map trimOws).any (eqIgnoreAsciiCase · option) =
      (listElements value).any (eqIgnoreAsciiCase · option) := by
  rw [listElements, List.any_filter]
  refine List.any_congr rfl fun token => ?_
  cases token with
  | nil => simp [eqIgnoreAsciiCase, present]
  | cons char token => simp

/-- The connection is kept by the elements of all fields together. -/
theorem isKeepAlive_eq (version : Str) (headers : Headers) :
    isKeepAlive version headers =
      (!(fieldElements headers "Connection".toList).any (eqIgnoreAsciiCase · "close".toList) &&
        ((fieldElements headers "Connection".toList).any
          (eqIgnoreAsciiCase · "keep-alive".toList) || version == http11)) := by
  -- What was found so far is carried along, so it is generalised.
  rw [isKeepAlive,
    ← Bool.false_or ((fieldElements headers _).any (eqIgnoreAsciiCase · "keep-alive".toList))]
  generalize false = hasKeepAlive
  induction headers generalizing hasKeepAlive with
  | nil => simp [keepsAlive, fieldElements, getHeaders]
  | cons field headers ih =>
    obtain ⟨name, value⟩ := field
    -- A field of another name has no elements here.
    by_cases named : eqIgnoreAsciiCase name "Connection".toList = true
    · have elements : fieldElements ((name, value) :: headers) "Connection".toList =
          listElements value ++ fieldElements headers "Connection".toList := by
        rw [fieldElements, getHeaders_cons_same named]
        rfl
      rw [keepsAlive, named, connectionTokens_eq, any_listElements (by decide),
        any_listElements (by decide), elements, List.any_append, List.any_append]
      -- A close in any field decides at once.
      generalize (listElements value).any (eqIgnoreAsciiCase · "close".toList) = closes
      cases closes
      · simp [ih, Bool.or_assoc]
      · simp
    · have elements : fieldElements ((name, value) :: headers) "Connection".toList =
          fieldElements headers "Connection".toList := by
        rw [fieldElements, getHeaders_cons_other (by simpa using named)]
        rfl
      rw [Bool.not_eq_true] at named
      rw [keepsAlive, named, elements]
      exact ih hasKeepAlive

end HttpHead

end Http11
